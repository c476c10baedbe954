import Justext4.FileMap
import Justext4.Releasing
import Justext4.Survey

/-!
What shrinking a file leaves of it. The runs of the leaf are cut at a block, and
the leaf that is written in their place holds what is left of them in the same
order: below the cutoff every block is mapped as before, past it none is. What
is written besides are records and bitmaps, so no other file is touched.
-/
namespace Justext4.Shrinking
open Justext4 Justext4.Fallible Justext4.Fields Justext4.Filesystem Bytes
open Justext4.Inode (Inode I_BLOCK_LEN)
open Justext4.Extent (Extent ExtentHeader EXTENT_UNINIT_THRESHOLD decode_extent_node)
open Justext4.ExtentMap (Covers mapped resolve_leaf decoded_leaf collect_mem)
open Justext4.Codecs
open Justext4.Slots (InSlot slotBytes withSlot slot_of_read write_inode_run read_inode_eq slot_withSlot)
open Justext4.FlushedRecords (sliced_of_read)
open Justext4.Runs (size_joined)
open Justext4.Regions
open Justext4.Survey
open Justext4.Releasing

/-! ### The leaf that is written -/

section
variable {es : List Extent} {header : ExtentHeader}

theorem blank_slice {b : Bytes} {start : Nat} (blank : ∀ k, start ≤ k → b.byte k = 0) (n : Nat) : b.slice start n = zeros n := by
  refine ext_inside rfl fun k inside => ?_
  rw [size_slice] at inside
  rw [byte_slice_of_lt _ inside, blank _ (by omega), byte_zeros]

/-- The entries are written one after another, over zeros. -/
theorem encode_extents_ok {i : Nat} {block_bytes out : Bytes} (blank : ∀ k, 12 + i * 12 ≤ k → block_bytes.byte k = 0)
    (encoded : encode_extents block_bytes i es = .ok out) :
    out.size = block_bytes.size ∧ (es ≠ [] → 12 + (i + es.length) * 12 ≤ block_bytes.size) ∧
      (∀ k < 12 + i * 12, out.byte k = block_bytes.byte k) ∧
      ∀ j (inside : j < es.length), Extent.Extent.encode_into es[j] (zeros 12) = .ok (out.slice (12 + (i + j) * 12) 12) := by
  induction es generalizing i block_bytes with
  | nil =>
    cases encoded
    exact ⟨rfl, fun some => absurd rfl some, fun _ _ => rfl, fun j inside => absurd inside (by simp)⟩
  | cons e es ih =>
    rw [encode_extents] at encoded
    obtain ⟨part, ranged, encoded⟩ := res_bind_eq_ok.mp encoded
    obtain ⟨entry, written, encoded⟩ := res_bind_eq_ok.mp encoded
    obtain ⟨mid, copied, encoded⟩ := res_bind_eq_ok.mp encoded
    obtain ⟨fits, rfl⟩ := range_inv ranged
    obtain ⟨-, rfl⟩ := copy_inv copied
    rw [Nat.add_sub_cancel_left, blank_slice blank, liftErr_eq_ok] at written
    have length : entry.size = 12 := by
      obtain ⟨-, -, -, rfl⟩ := extent_encode_inv written
      rw [size_patches (Extent.extent_within e _) _ (by simp), size_zeros]
    have size : (block_bytes.patch (12 + i * 12) entry).size = block_bytes.size := size_patch _ _ _ (by omega)
    obtain ⟨size', room, kept, entries⟩ := ih (i := i + 1) (fun k past => by
      rw [byte_patch_outside _ (by omega)]
      exact blank k (by omega)) encoded
    refine ⟨size'.trans size, fun _ => ?_, fun k low => ?_, fun j inside => ?_⟩
    · cases es with
      | nil =>
        rw [List.length_singleton]
        omega
      | cons next rest =>
        have all := room (List.cons_ne_nil _ _)
        rwa [size, Nat.add_assoc i, Nat.add_comm 1] at all
    · rw [kept k (by omega), byte_patch_outside _ (by omega)]
    · cases j with
      | zero =>
        have here : out.slice (12 + i * 12) 12 = entry := by
          refine ext_inside length.symm fun k inside => ?_
          rw [size_slice] at inside
          rw [byte_slice_of_lt _ inside, kept _ (by omega), byte_patch_inside _ _ _ (by omega)]
        rw [List.getElem_cons_zero, Nat.add_zero, here]
        exact written
      | succ j =>
        have later := entries j (by simpa using inside)
        rw [show i + 1 + j = i + (j + 1) by omega] at later
        exact later

/-- The header of a leaf with so many entries. -/
def leafHeader (n : Nat) : ExtentHeader := { entries := .ofNat n, max := 4, depth := 0, generation := 0 }

theorem i_block_laidOut {block : FixedBytes 60} (encoded : i_block es = .ok block) :
    LaidOut (leafHeader es.length) es block.bytes := by
  rw [i_block] at encoded
  obtain ⟨part, ranged, encoded⟩ := res_bind_eq_ok.mp encoded
  obtain ⟨entry, written, encoded⟩ := res_bind_eq_ok.mp encoded
  obtain ⟨mid, copied, encoded⟩ := res_bind_eq_ok.mp encoded
  obtain ⟨out, entries, encoded⟩ := res_bind_eq_ok.mp encoded
  cases encoded
  obtain ⟨-, rfl⟩ := range_inv ranged
  obtain ⟨-, rfl⟩ := copy_inv copied
  rw [blank_slice (fun k _ => byte_zeros _ _), liftErr_eq_ok] at written
  have head := written
  rw [Extent.header_encode_ok _ (by simp)] at head
  have length : entry.size = 12 := by
    rw [← Except.ok.inj head, size_patches (Extent.header_within _) _ (by simp), size_zeros]
  have size : ((zeros I_BLOCK_LEN).patch 0 entry).size = 60 := size_patch _ _ _ (by rw [length]; decide)
  obtain ⟨size', room, kept, each⟩ := encode_extents_ok (i := 0) (fun k past => by
    rw [byte_patch_outside _ (by omega), byte_zeros]) entries
  have whole : out.slice 0 60 = out := by rw [← size, ← size', slice_self]
  have same : (FixedBytes.ofSlice out 0 60).bytes = out := whole
  refine ⟨?_, ?_, fun j inside => ?_⟩
  · rw [same, size', size]
    cases es with
    | nil => decide
    | cons e rest => simpa [size] using room (List.cons_ne_nil _ _)
  · rw [same]
    refine written.trans (congrArg Except.ok ?_)
    refine ext_inside length fun k inside => ?_
    rw [length] at inside
    rw [byte_slice_of_lt _ inside, Nat.zero_add, kept k (by omega)]
    have first := byte_patch_inside (zeros I_BLOCK_LEN) 0 entry (show k < entry.size by omega)
    rw [Nat.zero_add] at first
    exact first.symm
  · rw [same]
    simpa using each j inside

/-- The runs of a leaf can be written as they were read. -/
theorem leaf_expressible {buf : Bytes} (decoded : decode_extent_node buf = .ok (.Leaf header es)) :
    ∀ e ∈ es, Expressible e ∧ e.len.toNat ≤ 32768 := by
  rw [decode_extent_node] at decoded
  obtain ⟨header', -, decoded⟩ := res_bind_eq_ok.mp decoded
  obtain ⟨-, -, decoded⟩ := res_bind_eq_ok.mp decoded
  split at decoded
  · obtain ⟨extents, collected, decoded⟩ := res_bind_eq_ok.mp decoded
    cases decoded
    intro e member
    obtain ⟨i, here⟩ := collect_mem collected e member
    obtain ⟨entry, -, here⟩ := res_bind_eq_ok.mp here
    have sized : 12 ≤ entry.size := by
      rw [Extent.Extent.decode] at here
      obtain ⟨_, enough, -⟩ := res_bind_eq_ok.mp here
      exact of_decide_eq_true (ensure_eq_ok.mp enough)
    rw [Extent.extent_decode_ok sized] at here
    cases here
    obtain ⟨short, told, -⟩ := rawLen_extentAt entry 0
    exact ⟨told, short⟩
  · obtain ⟨indices, -, decoded⟩ := res_bind_eq_ok.mp decoded
    cases decoded

/-- What is left of an extent can be written too. -/
theorem survivor_expressible {cutoff_blocks : Nat} {e e' : Extent} (left : survivor cutoff_blocks e = some e')
    (expressible : Expressible e) (short : e.len.toNat ≤ 32768) : Expressible e' := by
  rw [survivor] at left
  split at left
  · cases left
    exact expressible
  rename_i above
  split at left
  · cases left
  rename_i across
  cases left
  intro _
  have kept : (UInt16.ofNat (cutoff_blocks - e.logical_block.toNat)).toNat = cutoff_blocks - e.logical_block.toNat := by
    rw [UInt16.toNat_ofNat']
    omega
  constructor
  · intro none
    have zero := kept.symm.trans (congrArg UInt16.toNat none)
    rw [UInt16.toNat_zero] at zero
    omega
  · intro edge
    have full := kept.symm.trans (congrArg UInt16.toNat edge)
    rw [show EXTENT_UNINIT_THRESHOLD.toNat = 32768 from rfl] at full
    omega
/-- The leaf that is written decodes to what is left of the runs. -/
theorem survivors_decoded {cutoff_blocks : Nat} {buf : Bytes} {block : FixedBytes 60}
    (decoded : decode_extent_node buf = .ok (.Leaf header es)) (encoded : i_block (survivors cutoff_blocks es) = .ok block) :
    decode_extent_node block.bytes =
      .ok (.Leaf (leafHeader (survivors cutoff_blocks es).length) (survivors cutoff_blocks es)) := by
  have laid := i_block_laidOut encoded
  have few := laid.size
  rw [block.length] at few
  have each : ∀ e ∈ survivors cutoff_blocks es, ∃ e₀ ∈ es, survivor cutoff_blocks e₀ = some e := by
    intro e member
    obtain ⟨e₀, member, left⟩ := List.mem_filterMap.mp member
    exact ⟨e₀, member, left⟩
  refine (decode_laidOut rfl ?_ ?_ laid).mpr ?_
  · rw [leafHeader, UInt16.toNat_ofNat']
    omega
  · intro e member
    obtain ⟨e₀, member, left⟩ := each e member
    have address := decoded_leaf decoded e₀ member
    rw [survivor] at left
    split at left
    · cases left
      exact address
    split at left
    · cases left
    · cases left
      exact address
  · intro e member
    obtain ⟨e₀, member, left⟩ := each e member
    obtain ⟨told, short⟩ := leaf_expressible decoded e₀ member
    exact survivor_expressible left told short

/-! ### What the cut leaves mapped -/

/-- Below the cutoff a run covers and maps what it did. -/
theorem survivor_maps {cutoff_blocks logical : Nat} (below : logical < cutoff_blocks) (e : Extent) :
    ((survivor cutoff_blocks e).any fun e' => decide (Covers e' logical)) = decide (Covers e logical) ∧
      (Covers e logical → ∃ e', survivor cutoff_blocks e = some e' ∧ mapped e' logical = mapped e logical) := by
  have bound := e.len.toNat_lt
  unfold survivor
  by_cases whole : e.logical_block.toNat + e.len.toNat ≤ cutoff_blocks
  · rw [if_pos whole]
    exact ⟨rfl, fun _ => ⟨e, rfl, rfl⟩⟩
  rw [if_neg whole]
  by_cases past : cutoff_blocks ≤ e.logical_block.toNat
  · have apart : ¬ Covers e logical := fun covers => by
      have low := covers.1
      omega
    rw [if_pos past, decide_eq_false apart]
    exact ⟨rfl, fun covers => absurd covers apart⟩
  rw [if_neg past]
  refine ⟨?_, fun _ => ⟨_, rfl, rfl⟩⟩
  have kept : (UInt16.ofNat (cutoff_blocks - e.logical_block.toNat)).toNat = cutoff_blocks - e.logical_block.toNat := by
    rw [UInt16.toNat_ofNat']
    omega
  rw [Option.any_some, decide_eq_decide]
  unfold Covers
  dsimp only
  rw [kept]
  omega

theorem find_extent_eq (es : List Extent) (logical : Nat) : find_extent es logical = es.find? fun e => decide (Covers e logical) := rfl

theorem find_survivor {cutoff_blocks logical : Nat} (below : logical < cutoff_blocks) (es : List Extent) :
    ((find_extent (survivors cutoff_blocks es) logical).bind fun e => mapped e logical) =
      (find_extent es logical).bind fun e => mapped e logical := by
  rw [find_extent_eq, find_extent_eq, survivors, List.find?_filterMap]
  have same : (fun e => (survivor cutoff_blocks e).any fun e' => decide (Covers e' logical)) =
      fun e => decide (Covers e logical) := funext fun e => (survivor_maps below e).1
  rw [same]
  cases found : es.find? fun e => decide (Covers e logical) with
  | none => rfl
  | some e =>
    have covers : Covers e logical := by simpa using List.find?_some found
    obtain ⟨e', left, maps⟩ := (survivor_maps below e).2 covers
    rw [Option.bind_some, left, Option.bind_some, Option.bind_some, maps]
/-- Nothing is left past the cutoff. -/
theorem survivor_below {cutoff_blocks : Nat} {e e' : Extent} (left : survivor cutoff_blocks e = some e') :
    e'.logical_block.toNat + e'.len.toNat ≤ cutoff_blocks := by
  have bound := e.len.toNat_lt
  rw [survivor] at left
  split at left
  · cases left
    assumption
  split at left
  · cases left
  · cases left
    dsimp only
    rw [UInt16.toNat_ofNat']
    omega
theorem find_past {cutoff_blocks logical : Nat} (past : cutoff_blocks ≤ logical) (es : List Extent) :
    find_extent (survivors cutoff_blocks es) logical = none := by
  rw [find_extent_eq, List.find?_eq_none]
  intro e member
  obtain ⟨e₀, -, left⟩ := List.mem_filterMap.mp member
  have last := survivor_below left
  simp only [decide_eq_true_eq]
  rintro ⟨-, high⟩
  omega

/-! ### The run of the call -/

/-- The inode with its blocks cut at the new size. -/
def shrunk (inode : Inode) (new_size : UInt64) (block_size : Nat) (surviving : List Extent) (block : FixedBytes 60) : Inode :=
  { inode with
    size := new_size, blocks_lo := .ofNat (total_len surviving * block_size / 512), block
    mtime := 0x65000000, ctime := 0x65000000 }

/-- A call that shrinks a file, step by step. -/
structure Shrinks (fs fs' : Filesystem) (n : UInt32) (inode : Inode) (new_size : UInt64) (es : List Extent)
    (block : FixedBytes 60) : Prop where
  regular : Inode.is_regular inode = true
  based : Inode.uses_extents inode = true
  leaf : ∃ header, decode_extent_node inode.block.bytes = .ok (.Leaf header es)
  encoded : i_block (survivors (div_ceil new_size.toNat fs.superblock.block_size.toNat) es) = .ok block
  steps : ∃ mid offset r,
    Frees fs mid (released (div_ceil new_size.toNat fs.superblock.block_size.toNat) es) ∧ InSlot fs n offset ∧
    fs' = { withSlot mid offset (shrunk inode new_size fs.superblock.block_size.toNat
      (survivors (div_ceil new_size.toNat fs.superblock.block_size.toNat) es) block) with reader := r } ∧
    Altered (Among fs [.superblock, .table]) (withSlot mid offset (shrunk inode new_size fs.superblock.block_size.toNat
      (survivors (div_ceil new_size.toNat fs.superblock.block_size.toNat) es) block)) fs'
end

section
variable {fs fs' : Filesystem} {path : List UInt8} {n : UInt32} {inode : Inode} {new_size : UInt64}

theorem leaf_extents_inv {detail : String} {es : List Extent} (leaf : leaf_extents inode detail = .ok es) :
    ∃ header, decode_extent_node inode.block.bytes = .ok (.Leaf header es) := by
  rw [leaf_extents] at leaf
  obtain ⟨node, decoded, leaf⟩ := res_bind_eq_ok.mp leaf
  rw [liftErr_eq_ok] at decoded
  cases node with
  | Leaf header extents =>
    cases leaf
    exact ⟨header, decoded⟩
  | Internal header indices => cases leaf

theorem truncate_shrinks (flushable : Flushable fs) (opened : open_path fs path = .ok n)
    (read : read_inode fs n = .ok inode) (smaller : new_size < inode.size)
    (ran : (Filesystem.truncate path new_size).run fs = .ok () fs') : ∃ es block, Shrinks fs fs' n inode new_size es block := by
  unfold Filesystem.truncate at ran
  obtain ⟨n', opened', ran₁⟩ := reads_then_eq_ok.mp ran
  cases opened.symm.trans opened'
  obtain ⟨inode', read', ran₂⟩ := reads_then_eq_ok.mp ran₁
  cases read.symm.trans read'
  obtain ⟨_, regular, ran₃⟩ := lift_then_eq_ok.mp ran₂
  have other : ¬ new_size = inode.size := fun same => by
    rw [same] at smaller
    exact UInt64.lt_irrefl _ smaller
  have larger : ¬ inode.size < new_size := UInt64.lt_asymm smaller
  rw [if_neg other] at ran₃
  obtain ⟨block_size, size, ran₄⟩ := reads_then_eq_ok.mp ran₃
  cases size
  rw [if_neg larger] at ran₄
  obtain ⟨_, based, ran₅⟩ := lift_then_eq_ok.mp ran₄
  obtain ⟨es, leaf, ran₆⟩ := lift_then_eq_ok.mp ran₅
  obtain ⟨surviving, mid, cut, ran₇⟩ := run_bind_eq_ok.mp ran₆
  obtain ⟨rfl, frees⟩ := cut_extents_ok cut
  obtain ⟨block, encoded, ran₈⟩ := lift_then_eq_ok.mp ran₇
  obtain ⟨_, written, ninth, last⟩ := run_bind_eq_ok.mp ran₈
  obtain ⟨offset, slot, -⟩ := slot_of_read read
  have slot' := frees.altered.inSlot slot
  have slotted := write_inode_altered slot' (shrunk inode new_size fs.superblock.block_size.toNat
    (survivors (div_ceil new_size.toNat fs.superblock.block_size.toNat) es) block)
  obtain rfl := (Ended.ok.inj (ninth.symm.trans (write_inode_run slot' _))).2
  obtain ⟨r, flushed, records⟩ := flush_altered ((flushable.altered frees.altered).altered slotted)
  obtain rfl := (Ended.ok.inj (last.symm.trans flushed)).2
  refine ⟨es, block, ensure_eq_ok.mp regular, ensure_eq_ok.mp based, leaf_extents_inv leaf, encoded,
    mid, offset, r, frees, slot, rfl, records.wider fun i among => ?_⟩
  have fixed : ∀ use ∈ [Use.superblock, .table], use.Fixed := by simp [Use.Fixed]
  exact frees.altered.among fixed (slotted.among fixed among)

/-! ### The file afterwards -/

/-- The positions that shrinking the inode may write. -/
def written (n : UInt32) : List Use := [.blockBitmap 0, .slot n, .superblock, .table]

section
variable {es : List Extent} {block : FixedBytes 60}

theorem Shrinks.altered (shrinks : Shrinks fs fs' n inode new_size es block) : Altered (Among fs (written n)) fs fs' := by
  obtain ⟨mid, offset, r, frees, slot, rfl, records⟩ := shrinks.steps
  have slotted := write_inode_altered (frees.altered.inSlot slot) (shrunk inode new_size fs.superblock.block_size.toNat
    (survivors (div_ceil new_size.toNat fs.superblock.block_size.toNat) es) block)
  have first : Altered (Among fs (written n)) fs mid :=
    frees.altered.wider fun i => among_more (by simp [written])
  have second : Altered (Among fs (written n)) mid _ := slotted.wider fun i among =>
    among_more (by simp [written]) (frees.altered.among (by simp [Use.Fixed]) among)
  exact (first.trans second).trans (records.wider fun i => among_more (by simp [written]))

/-- The inode that is read afterwards is the one that was written. -/
theorem Shrinks.read (shrinks : Shrinks fs fs' n inode new_size es block) (separate : Separate fs) :
    read_inode fs' n = .ok (shrunk inode new_size fs.superblock.block_size.toNat
      (survivors (div_ceil new_size.toNat fs.superblock.block_size.toNat) es) block) := by
  obtain ⟨mid, offset, r, frees, slot, rfl, records⟩ := shrinks.steps
  have size : mid.superblock.inode_size = fs.superblock.inode_size := by
    rw [frees.superblock]
    rfl
  refine read_written (frees.altered.inSlot slot) _ records ?_
  rw [size]
  exact separate.clear (.slot slot.number slot.found) (by simp)

/-- Below the cutoff the blocks are where they were, and past it there are none. -/
theorem Shrinks.resolve (shrinks : Shrinks fs fs' n inode new_size es block) (state : Filesystem) (logical : Nat) :
    resolve_logical_block state (shrunk inode new_size fs.superblock.block_size.toNat
      (survivors (div_ceil new_size.toNat fs.superblock.block_size.toNat) es) block) logical =
      if logical < div_ceil new_size.toNat fs.superblock.block_size.toNat then resolve_logical_block fs inode logical
      else .ok none := by
  obtain ⟨header, decoded⟩ := shrinks.leaf
  have decoded' := survivors_decoded decoded shrinks.encoded
  have based : Inode.uses_extents (shrunk inode new_size fs.superblock.block_size.toNat
      (survivors (div_ceil new_size.toNat fs.superblock.block_size.toNat) es) block) = true := shrinks.based
  rw [resolve_logical_block, resolve_logical_block, based, shrinks.based, ensure_true, res_bind_ok, res_bind_ok,
    resolve_leaf decoded, resolve_leaf (show decode_extent_node (shrunk ..).block.bytes = _ from decoded')]
  split
  · rename_i below
    rw [find_survivor below]
  · rename_i past
    rw [find_past (Nat.le_of_not_lt past)]
    rfl

theorem regular_plain (regular : Inode.is_regular inode = true) : Inode.is_symlink inode = false := by
  rw [Inode.is_regular, beq_iff_eq] at regular
  rw [Inode.is_symlink, regular]
  rfl
theorem size_read_block {logical : Nat} {b : Bytes} (read : read_block fs inode logical = .ok b) :
    b.size = fs.superblock.block_size.toNat := by
  rw [read_block] at read
  obtain ⟨_, -, read⟩ := res_bind_eq_ok.mp read
  obtain ⟨resolved, -, read⟩ := res_bind_eq_ok.mp read
  cases resolved with
  | none =>
    cases read
    rfl
  | some physical =>
    obtain ⟨offset, -, read⟩ := res_bind_eq_ok.mp read
    rw [sliced_of_read read, size_slice]

/-- The first bytes of blocks are those of the first blocks. -/
theorem joined_take {d m size k : Nat} {blocks : List Bytes} (sized : ∀ b ∈ blocks, b.size = d) (short : k ≤ m * d)
    (inside : m ≤ blocks.length) (smaller : k ≤ size) (whole : size ≤ blocks.length * d) :
    (joined (blocks.take m)).truncate k = ((joined blocks).truncate size).slice 0 k := by
  have first : (joined (blocks.take m)).size = m * d := by
    rw [size_joined fun b member => sized b (List.mem_of_mem_take member), List.length_take, Nat.min_eq_left inside]
  have all := size_joined sized
  have split : ∀ xs ys : List Bytes, ∀ i < (joined xs).size, (joined (xs ++ ys)).byte i = (joined xs).byte i := by
    intro xs ys
    induction xs with
    | nil => exact fun i small => absurd small (Nat.not_lt_zero i)
    | cons x xs ih =>
      intro i small
      rw [joined, size_append] at small
      rw [List.cons_append, joined, joined, byte_append, byte_append]
      split
      · rfl
      · exact ih _ (by omega)
  refine ext_inside ?_ fun i small => ?_
  · rw [Bytes.truncate, size_slice, size_slice, first, Nat.min_eq_left short]
  · rw [Bytes.truncate, size_slice, first, Nat.min_eq_left short] at small
    rw [Bytes.truncate, Bytes.truncate, byte_slice_of_lt _ (by omega), byte_slice_of_lt _ small,
      byte_slice_of_lt _ (by omega)]
    simp only [Nat.zero_add]
    have here := split (blocks.take m) (blocks.drop m) i (by omega)
    rw [List.take_append_drop] at here
    exact here.symm

/-- A file that is shorter and has the same blocks below its end reads as the start of
    the other. -/
theorem read_prefix {inode' : Inode} {bytes : Bytes} (positive : 0 < fs.superblock.block_size.toNat)
    (size : fs'.superblock.block_size = fs.superblock.block_size) (plain : Inode.is_symlink inode = false)
    (plain' : Inode.is_symlink inode' = false) (smaller : inode'.size.toNat < inode.size.toNat)
    (agree : ∀ logical < div_ceil inode'.size.toNat fs.superblock.block_size.toNat,
      read_block fs' inode' logical = read_block fs inode logical)
    (read : read_file fs inode = .ok bytes) : read_file fs' inode' = .ok (bytes.slice 0 inode'.size.toNat) := by
  by_cases empty : inode'.size.toNat = 0
  · rw [read_file, if_pos empty, empty]
    rfl
  have few := Change.div_ceil_mono (Nat.le_of_lt smaller) fs.superblock.block_size.toNat
  have bytes_few := Nat.mul_le_mul_right fs.superblock.block_size.toNat few
  have enough := Volumes.le_div_ceil (n := inode'.size.toNat) positive
  rw [read_file, if_neg (by omega), if_neg (by simp [plain])] at read
  obtain ⟨_, capacity, read⟩ := res_bind_eq_ok.mp read
  obtain ⟨blocks, collected, read⟩ := res_bind_eq_ok.mp read
  cases read
  have holds := of_decide_eq_true (orPanic_eq_ok.mp capacity)
  have capacity' : capacity_ok (div_ceil inode'.size.toNat fs.superblock.block_size.toNat *
    fs.superblock.block_size.toNat) = true := decide_eq_true (by omega)
  have blocks' := collect_take collected few fun j _ inside => agree j (by omega)
  rw [read_file, if_neg empty, if_neg (by simp [plain']), size, capacity', orPanic_true, res_bind_ok, blocks', res_bind_ok]
  have sized : ∀ b ∈ blocks, b.size = fs.superblock.block_size.toNat := by
    intro b member
    obtain ⟨j, here⟩ := collect_mem collected b member
    exact size_read_block here
  have length := Decoders.length_collect collected
  have enough' := Volumes.le_div_ceil (n := inode.size.toNat) positive
  exact congrArg Except.ok (joined_take sized enough (by omega) (by omega) (by rw [length]; exact enough'))

/-- A block below the cutoff reads the same. -/
theorem Shrinks.read_block (shrinks : Shrinks fs fs' n inode new_size es block) (separate : Separate fs) (live : Live fs n)
    (read : read_inode fs n = .ok inode) {logical : Nat}
    (below : logical < div_ceil new_size.toNat fs.superblock.block_size.toNat) :
    read_block fs' (shrunk inode new_size fs.superblock.block_size.toNat
      (survivors (div_ceil new_size.toNat fs.superblock.block_size.toNat) es) block) logical =
      read_block fs inode logical := by
  have untouched : Untouched (Among fs (written n)) fs inode :=
    separate.untouched live read shrinks.based (by simp [written]) (by simp [written])
  rw [← shrinks.altered.read_block untouched, Filesystem.read_block, Filesystem.read_block, shrinks.resolve, if_pos below,
    shrinks.altered.resolve_logical_block logical untouched.nodes]
end

/-! ### What shrinking is to do -/

/-- The file has its first blocks and bytes and no more, its count of sectors is that
    of the runs it has left, and every other file is as it was. -/
structure KeepsPrefix (fs fs' : Filesystem) (n : UInt32) (inode : Inode) (new_size : UInt64) : Prop where
  kept : ∃ inode' header surviving, read_inode fs' n = .ok inode' ∧
    decode_extent_node inode'.block.bytes = .ok (.Leaf header surviving) ∧
    inode'.blocks_lo.toNat = total_len surviving * fs.superblock.block_size.toNat / 512 ∧
    (∀ logical < div_ceil new_size.toNat fs.superblock.block_size.toNat,
      resolve_logical_block fs' inode' logical = resolve_logical_block fs inode logical) ∧
    (∀ logical, div_ceil new_size.toNat fs.superblock.block_size.toNat ≤ logical →
      resolve_logical_block fs' inode' logical = .ok none) ∧
    ∀ bytes, read_file fs inode = .ok bytes → read_file fs' inode' = .ok (bytes.slice 0 new_size.toNat)
  others : ∀ m other, m ≠ n → Live fs m → read_inode fs m = .ok other →
    read_inode fs' m = .ok other ∧ read_file fs' other = read_file fs other

theorem total_len_le (es : List Extent) : total_len es ≤ es.length * 65535 := by
  induction es with
  | nil => exact Nat.zero_le _
  | cons e es ih =>
    have bound := e.len.toNat_lt
    rw [total_len, List.length_cons]
    omega

/-- On a sound image a file that shrinks keeps exactly its start. -/
theorem truncate_keeps_prefix {image : Bytes} (accepted : open_image image = .ok fs) (consistent : ConsistentImage fs)
    (opened : open_path fs path = .ok n) (read : read_inode fs n = .ok inode) (smaller : new_size < inode.size)
    (ran : (Filesystem.truncate path new_size).run fs = .ok () fs') : KeepsPrefix fs fs' n inode new_size := by
  obtain ⟨es, block, shrinks⟩ := truncate_shrinks (flushable_opened accepted) opened read smaller ran
  have separate : Separate fs := consistent.separate
  have live := consistent.open_path opened
  obtain ⟨header, decoded⟩ := shrinks.leaf
  have accepted' := Decoders.opened_of accepted
  have positive := FileMap.Opened.positive accepted'
  have bounded := FileMap.Opened.bounded accepted'
  refine ⟨⟨_, _, _, shrinks.read separate, survivors_decoded decoded shrinks.encoded, ?_, ?_, ?_, ?_⟩, ?_⟩
  · have few := (i_block_laidOut shrinks.encoded).size
    rw [block.length] at few
    have sum := total_len_le (survivors (div_ceil new_size.toNat fs.superblock.block_size.toNat) es)
    have product := Nat.mul_le_mul (Nat.le_trans sum (Nat.mul_le_mul_right 65535 (show _ ≤ 4 by omega))) bounded
    simp only [shrunk]
    rw [UInt32.toNat_ofNat']
    exact Nat.mod_eq_of_lt (by omega)
  · intro logical below
    rw [shrinks.resolve, if_pos below]
  · intro logical past
    rw [shrinks.resolve, if_neg (Nat.not_lt_of_le past)]
  · intro bytes whole
    exact read_prefix (Nat.lt_of_lt_of_le (by decide) positive) shrinks.altered.block_size (regular_plain shrinks.regular)
      (regular_plain shrinks.regular) smaller (fun logical below => shrinks.read_block separate live read below) whole
  · intro m other distinct live' read'
    have elsewhere : .slot m ∉ written n := by simp [written, distinct]
    exact ⟨(separate.read_inode shrinks.altered elsewhere).trans read',
      separate.read_file shrinks.altered live' read' (by simp [written]) (by simp [written])⟩
end

/-! ### A file with reserved blocks -/

/-- A file of four blocks, the last two only reserved. -/
def reservedRuns : List Extent := [⟨0, 2, 7, false⟩, ⟨2, 2, 9, true⟩]
def reservedParts : List (Nat × Bytes) :=
  smallParts [255, 7] [2, 4] [(2, leafInode 0x41ED 2 2048 [⟨0, 1, 6, false⟩]), (11, leafInode 0x81A4 1 8192 reservedRuns)]
    [(6, entryBytes (rootEntries [([97], 11)]))]
def reservedState : Filesystem := smallState 5 14 reservedParts

theorem reserved_assembles : Images.Assembles 32768 (smallSuperblock 5 14) 1 [smallGroup 5 14] reservedParts := by
  decide +kernel
theorem reserved_opens : open_image reservedState.reader = .ok reservedState := small_opens reserved_assembles
theorem reserved_reads : read_inode reservedState 11 = .ok (leafInode 0x81A4 1 8192 reservedRuns) :=
  small_reads reserved_assembles (by decide) (by decide) (by simp [reservedParts, smallParts])
theorem reserved_sound : Sound reservedState := by decide +kernel

theorem reserved_keeps : ∃ fs', (Filesystem.truncate [SLASH, 97] 2048).run reservedState = .ok () fs' ∧
    KeepsPrefix reservedState fs' 11 (leafInode 0x81A4 1 8192 reservedRuns) 2048 := by
  have returns : returned ((Filesystem.truncate [SLASH, 97] 2048).run reservedState) = true := by decide +kernel
  obtain ⟨_, fs', ran⟩ := returned_ok returns
  exact ⟨fs', ran, truncate_keeps_prefix reserved_opens reserved_sound.consistent (by decide +kernel) reserved_reads
    (by decide) ran⟩

end Justext4.Shrinking
