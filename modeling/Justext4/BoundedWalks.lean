import Justext4.Decoders

/-!
The record decoders and the walks along directory blocks on arbitrary bytes.
No decoder reads outside its buffer, and a walk takes one turn for every eight
bytes of the block at most, as each record it accepts is at least that long.
-/
namespace Justext4.BoundedWalks
open Justext4 Justext4.Fallible Justext4.Fields Justext4.Decoders Bytes
open Justext4.Superblock (Superblock)
open Justext4.Extent (ExtentHeader Extent ExtentIndex decode_extent_node)
open Justext4.DirEntry

/-! ### The parts of an extent node -/

theorem header_noPanic (buf : Bytes) : NoPanic (ExtentHeader.decode buf) := by
  rw [ExtentHeader.decode]
  refine noPanic_ensure_bind fun size => ?_
  have whole : 12 ≤ buf.size := size
  refine noPanic_bind (noPanic_read_u16 (by omega)) fun _ _ => noPanic_bind (noPanic_ensure _ _) fun _ _ => ?_
  refine noPanic_bind (noPanic_read_u16 (by omega)) fun _ _ => noPanic_bind (noPanic_read_u16 (by omega)) fun _ _ => ?_
  refine noPanic_bind (noPanic_read_u16 (by omega)) fun _ _ => noPanic_bind (noPanic_read_u32 (by omega)) fun _ _ => ?_
  exact noPanic_ok _
theorem extent_noPanic (buf : Bytes) : NoPanic (Extent.decode buf) := by
  rw [Extent.decode]
  refine noPanic_ensure_bind fun size => ?_
  have whole : 12 ≤ buf.size := size
  refine noPanic_bind (noPanic_read_u32 (by omega)) fun _ _ => noPanic_bind (noPanic_read_u16 (by omega)) fun _ _ => ?_
  refine noPanic_bind (noPanic_read_u16 (by omega)) fun _ _ => noPanic_bind (noPanic_read_u32 (by omega)) fun _ _ => ?_
  split <;> exact noPanic_ok _
theorem index_noPanic (buf : Bytes) : NoPanic (ExtentIndex.decode buf) := by
  rw [ExtentIndex.decode]
  refine noPanic_ensure_bind fun size => ?_
  have whole : 12 ≤ buf.size := size
  refine noPanic_bind (noPanic_read_u32 (by omega)) fun _ _ => noPanic_bind (noPanic_read_u16 (by omega)) fun _ _ => ?_
  exact noPanic_bind (noPanic_read_u32 (by omega)) fun _ _ => noPanic_ok _

/-! ### Walks with a limit on their turns -/

/-- `decode_from`, given up after `turns` turns of its loop. -/
def decode_within (buf : Bytes) : Nat → Nat → Option (Res DirEntryDecodeError (List DirEntry))
  | 0, _ => none
  | turns + 1, offset =>
    if offset < buf.size then
      if (buf.rest offset).size < DIR_ENTRY_HEADER_SIZE then
        some (.error (.err (.TrailingBytesBelowHeaderSize (buf.rest offset).size)))
      else
        match decode (buf.rest offset) with
        | .error fault => some (.error fault)
        | .ok entry =>
          (decode_within buf turns (offset + entry.rec_len.toNat)).map fun later => do
            let entries ← later
            .ok (entry :: entries)
    else some (.ok [])

/-- `walk`, given up after `turns` turns of its loop. -/
def walk_within (buf : Bytes) (stop : DirEntry → Bool) : Nat → Nat → Option (Res DirEntryDecodeError Visited)
  | 0, _ => none
  | turns + 1, cursor =>
    if cursor < buf.size then
      match decode (buf.rest cursor) with
      | .error fault => some (.error fault)
      | .ok entry =>
        if stop entry then some (.ok ⟨[], some (cursor, entry)⟩)
        else
          (walk_within buf stop turns (cursor + entry.rec_len.toNat)).map fun later => do
            let later ← later
            .ok ⟨(cursor, entry) :: later.passed, later.found⟩
    else some (.ok ⟨[], none⟩)

/-- One turn of a walk: the record at the cursor decodes, and the cursor moves
    to its end, which no buffer puts past the range of a machine word. -/
theorem turn_moves {buf : Bytes} {cursor : Nat} {entry : DirEntry} (decoded : decode (buf.rest cursor) = .ok entry) :
    cursor + 8 ≤ cursor + entry.rec_len.toNat ∧ cursor + entry.rec_len.toNat < cursor + 65536 := by
  have moves := decode_moves decoded
  have bound := entry.rec_len.toNat_lt
  omega

/-- One turn for every eight bytes is enough, and one to find the end. -/
theorem decode_within_enough (buf : Bytes) {turns offset : Nat} (enough : buf.size - offset ≤ 8 * turns) :
    decode_within buf (turns + 1) offset = some (decode_from buf offset) := by
  induction turns generalizing offset with
  | zero =>
    have past : ¬ offset < buf.size := by omega
    rw [decode_within, decode_from, if_neg past, if_neg past]
  | succ turns ih =>
    rw [decode_within, decode_from]
    split
    · split
      · rfl
      · cases decoded : decode (buf.rest offset) with
        | error fault => simp
        | ok entry =>
          have moves := decode_moves decoded
          simp [ih (show buf.size - (offset + entry.rec_len.toNat) ≤ 8 * turns by omega)]
    · rfl
theorem walk_within_enough (buf : Bytes) (stop : DirEntry → Bool) {turns cursor : Nat}
    (enough : buf.size - cursor ≤ 8 * turns) : walk_within buf stop (turns + 1) cursor = some (walk buf stop cursor) := by
  induction turns generalizing cursor with
  | zero =>
    have past : ¬ cursor < buf.size := by omega
    rw [walk_within, walk, if_neg past, if_neg past]
  | succ turns ih =>
    rw [walk_within, walk]
    split
    · cases decoded : decode (buf.rest cursor) with
      | error fault => simp
      | ok entry =>
        have moves := decode_moves decoded
        simp only
        split
        · rfl
        · simp [ih (show buf.size - (cursor + entry.rec_len.toNat) ≤ 8 * turns by omega)]
    · rfl

/-- However far a walk gets, it does not panic. -/
theorem walk_within_calm {buf : Bytes} {stop : DirEntry → Bool} {turns cursor : Nat}
    {r : Res DirEntryDecodeError Visited} (ended : walk_within buf stop turns cursor = some r) : NoPanic r := by
  induction turns generalizing cursor r with
  | zero => cases ended
  | succ turns ih =>
    rw [walk_within] at ended
    split at ended
    · cases decoded : decode (buf.rest cursor) with
      | error fault =>
        rw [decoded] at ended
        cases ended
        intro panicked
        cases panicked
        exact entry_noPanic _ decoded
      | ok entry =>
        rw [decoded] at ended
        simp only at ended
        split at ended
        · cases ended
          exact noPanic_ok _
        · obtain ⟨later, went, rfl⟩ := Option.map_eq_some_iff.mp ended
          exact noPanic_bind (ih went) fun _ _ => noPanic_ok _
    · cases ended
      exact noPanic_ok _
theorem walk_noPanic (buf : Bytes) (stop : DirEntry → Bool) (cursor : Nat) : NoPanic (walk buf stop cursor) :=
  walk_within_calm (walk_within_enough buf stop (show buf.size - cursor ≤ 8 * buf.size by omega))

/-- On every buffer the decoders return without a read outside it, each turn of
    a walk moves on by eight bytes at least, and so the walks of a directory
    block end after one turn for every eight bytes. -/
theorem decoders_return :
    (∀ buf, NoPanic (Superblock.decode buf)) ∧
    (∀ buf sb, NoPanic (GroupDescriptor.decode buf sb)) ∧
    (∀ buf sb, NoPanic (Inode.decode buf sb)) ∧
    (∀ buf, NoPanic (ExtentHeader.decode buf)) ∧
    (∀ buf, NoPanic (Extent.decode buf)) ∧
    (∀ buf, NoPanic (ExtentIndex.decode buf)) ∧
    (∀ buf, NoPanic (decode_extent_node buf)) ∧
    (∀ buf, NoPanic (decode buf)) ∧
    (∀ buf, NoPanic (decode_dir_block buf)) ∧
    (∀ buf stop, NoPanic (walk buf stop 0)) ∧
    (∀ (buf : Bytes) cursor entry, decode (buf.rest cursor) = .ok entry →
      cursor + 8 ≤ cursor + entry.rec_len.toNat ∧ cursor + entry.rec_len.toNat < cursor + 65536) ∧
    (∀ (buf : Bytes) turns, buf.size ≤ 8 * turns → decode_within buf (turns + 1) 0 = some (decode_dir_block buf)) ∧
    (∀ (buf : Bytes) stop turns, buf.size ≤ 8 * turns → walk_within buf stop (turns + 1) 0 = some (walk buf stop 0)) :=
  ⟨superblock_noPanic, descriptor_noPanic, inode_noPanic, header_noPanic, extent_noPanic, index_noPanic, node_noPanic,
    entry_noPanic, dir_block_noPanic, fun buf stop => walk_noPanic buf stop 0, fun _ _ _ decoded => turn_moves decoded,
    fun buf _ enough => decode_within_enough buf (by omega),
    fun buf stop _ enough => walk_within_enough buf stop (by omega)⟩

/-- Four turns are enough for 24 bytes, here all zero. -/
theorem short_block_returns :
    (zeros 24).size ≤ 8 * 3 ∧ decode_within (zeros 24) 4 0 = some (decode_dir_block (zeros 24)) :=
  ⟨by decide, decoders_return.2.2.2.2.2.2.2.2.2.2.2.1 (zeros 24) 3 (by decide)⟩

end Justext4.BoundedWalks
