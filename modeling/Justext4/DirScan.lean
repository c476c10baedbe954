import Mathlib.Data.List.Induction
import Justext4.DirBlock

/-!
Which buffers `decode_dir_block` accepts. Every record but the last lies in
the buffer; the last one has only its name checked against it, so that its
length may reach past the end. Where it does not, the records tile the buffer,
and the two edits that write a record over its own bytes stay inside.
-/
namespace Justext4.DirScan
open Justext4 Justext4.Fallible Justext4.Fields Justext4.Filesystem Bytes
open Justext4.DirEntry
open Justext4.DirBlock

/-- The length that the record at a position gives for itself. -/
def lengthAt (buf : Bytes) (pos : Nat) : Nat := (buf.u16At (pos + 4)).toNat

/-- The position of the last record that a walk by `rec_len` finds from a
    position on. -/
def lastStart (buf : Bytes) (pos : Nat) : Nat :=
  if pos + lengthAt buf pos < buf.size ∧ 0 < lengthAt buf pos then lastStart buf (pos + lengthAt buf pos) else pos
termination_by buf.size - pos

/-- The length field of the last record leads just to the end of the buffer. -/
def Sealed (buf : Bytes) : Prop := buf.size = 0 ∨ lastStart buf 0 + lengthAt buf (lastStart buf 0) = buf.size

/-- The name that the record at a position has. -/
def nameAt (buf : Bytes) (pos : Nat) : List UInt8 := (buf.slice (pos + 8) (buf.byte (pos + 6)).toNat).toList

/-- Two records share a buffer of 64 KiB, and the second one is in use and has
    not both the inode and the name of the first. -/
def Halved (buf : Bytes) : Prop :=
  buf.size = 65536 ∧ lengthAt buf 0 + lengthAt buf (lengthAt buf 0) = 65536 ∧ buf.u32At (lengthAt buf 0) ≠ 0 ∧
    ¬ (buf.u32At 0 = buf.u32At (lengthAt buf 0) ∧ nameAt buf 0 = nameAt buf (lengthAt buf 0))

/-! ### What a decoded record is -/

/-- What `decode` checks: all but that the record ends in the buffer. -/
structure Decoded (buf : Bytes) (pos : Nat) (e : DirEntry) : Prop where
  formed : WellFormed e
  inode : buf.u32At pos = e.inode
  rec_len : buf.u16At (pos + 4) = e.rec_len
  name_len : buf.byte (pos + 6) = .ofNat e.name.length
  file_type : buf.byte (pos + 7) = e.file_type_raw
  name : ∀ i < e.name.length, buf.byte (pos + 8 + i) = e.name.getD i 0
  fits : pos + 8 + e.name.length ≤ buf.size

theorem decoded_of_ok {buf : Bytes} {pos : Nat} {e : DirEntry} (ok : decode (buf.rest pos) = .ok e) :
    Decoded buf pos e := by
  unfold decode at ok
  simp only [res_bind_eq_ok, ensure_eq_ok, decide_eq_true_eq] at ok
  obtain ⟨_, header, inode, number, rec_len, length, name_len, letters, kind, type, _, long, _, aligned, _, room, _, fits,
    name, read, same⟩ := ok
  rw [DIR_ENTRY_HEADER_SIZE, size_rest] at header
  rw [read_u32_ok (by rw [size_rest]; omega)] at number
  rw [read_u16_ok (by rw [size_rest]; omega)] at length
  rw [index_ok (by rw [size_rest]; omega)] at letters type
  rw [DIR_ENTRY_HEADER_SIZE, size_rest] at fits
  rw [range_ok (Nat.le_add_right _ _) (by rw [size_rest, DIR_ENTRY_HEADER_SIZE]; omega)] at read
  simp only [Except.ok.injEq] at number length letters type read same
  subst same number length letters type read
  have size : ((buf.rest pos).slice DIR_ENTRY_HEADER_SIZE
      (DIR_ENTRY_HEADER_SIZE + ((buf.rest pos).byte 6).toNat - DIR_ENTRY_HEADER_SIZE)).toList.length =
      ((buf.rest pos).byte 6).toNat := by
    simp
  have small := ((buf.rest pos).byte 6).toNat_lt
  refine ⟨⟨aligned, ?_, ?_⟩, ?_, ?_, ?_, ?_, ?_, ?_⟩
  · rw [size]
    exact room
  · rw [size]
    omega
  · rw [rest_u32At, Nat.add_zero]
  · rw [rest_u16At]
  · rw [size, UInt8.ofNat_toNat, byte_rest]
  · rw [byte_rest]
  · intro i short
    rw [size] at short
    simp only [toList, size_slice, Nat.add_sub_cancel_left]
    rw [List.getD_eq_getElem?_getD, List.getElem?_map, List.getElem?_range short, Option.map_some, Option.getD_some,
      byte_slice_of_lt _ short, byte_rest, DIR_ENTRY_HEADER_SIZE, Nat.add_assoc]
  · rw [size]
    omega

section
variable {buf : Bytes} {pos : Nat} {e : DirEntry} {es : List DirEntry}

theorem Decoded.length (decoded : Decoded buf pos e) : lengthAt buf pos = e.rec_len.toNat := by
  rw [lengthAt, decoded.rec_len]
theorem Decoded.entryAt (decoded : Decoded buf pos e) (inside : pos + e.rec_len.toNat ≤ buf.size) : EntryAt buf pos e :=
  ⟨decoded.formed, inside, decoded.inode, decoded.rec_len, decoded.name_len, decoded.file_type, decoded.name⟩
theorem Decoded.start (decoded : Decoded buf pos e) : pos < buf.size := by
  have fits := decoded.fits
  omega

/-- An accepted rest of a buffer is empty, or a record and an accepted rest. -/
theorem decode_from_cases (accepted : decode_from buf pos = .ok es) :
    (es = [] ∧ buf.size ≤ pos) ∨
    ∃ e rest, es = e :: rest ∧ Decoded buf pos e ∧ decode_from buf (pos + e.rec_len.toNat) = .ok rest := by
  unfold decode_from at accepted
  split at accepted
  · right
    split at accepted
    · cases accepted
    · split at accepted
      · cases accepted
      · rename_i e decoded
        obtain ⟨rest, later, same⟩ := res_bind_eq_ok.mp accepted
        cases same
        exact ⟨e, rest, rfl, decoded_of_ok decoded, later⟩
  · left
    cases accepted
    exact ⟨rfl, by omega⟩

theorem decode_from_end (past : buf.size ≤ pos) : decode_from buf pos = .ok [] := by
  unfold decode_from
  rw [if_neg (by omega)]
theorem decode_from_step (header : pos + 8 ≤ buf.size) (ok : decode (buf.rest pos) = .ok e)
    (later : decode_from buf (pos + e.rec_len.toNat) = .ok es) : decode_from buf pos = .ok (e :: es) := by
  unfold decode_from
  rw [if_pos (by omega), if_neg (by rw [size_rest, DIR_ENTRY_HEADER_SIZE]; omega)]
  split
  · rename_i fault refused
    rw [ok] at refused
    cases refused
  · rename_i e' decoded
    rw [ok] at decoded
    cases decoded
    rw [later, res_bind_ok]

/-- The records of an accepted buffer tile it when they end where it ends. -/
theorem tiles_of_width (accepted : decode_from buf pos = .ok es) (exact_ : pos + width es = buf.size) :
    Tiles buf pos es buf.size := by
  induction es generalizing pos with
  | nil => exact exact_
  | cons e es ih =>
    rcases decode_from_cases accepted with ⟨same, -⟩ | ⟨e', rest, same, decoded, later⟩
    · cases same
    · cases same
      rw [width] at exact_
      exact ⟨decoded.entryAt (by omega), ih later (by omega)⟩
/-- They do when the last one of them leads to its end. -/
theorem tiles_of_last (accepted : decode_from buf pos = .ok es) (inside : pos < buf.size)
    (last : lastStart buf pos + lengthAt buf (lastStart buf pos) = buf.size) : Tiles buf pos es buf.size := by
  induction es generalizing pos with
  | nil =>
    rcases decode_from_cases accepted with ⟨-, past⟩ | ⟨e, rest, same, -⟩
    · omega
    · cases same
  | cons e es ih =>
    rcases decode_from_cases accepted with ⟨same, -⟩ | ⟨e', rest, same, decoded, later⟩
    · cases same
    · cases same
      have length := decoded.length
      have room := decoded.formed.room
      rw [lastStart] at last
      by_cases more : pos + e.rec_len.toNat < buf.size
      · rw [if_pos (by omega), length] at last
        exact ⟨decoded.entryAt (by omega), ih later more last⟩
      · rw [if_neg (by omega), length] at last
        refine ⟨decoded.entryAt (by omega), ?_⟩
        rcases decode_from_cases later with ⟨rfl, -⟩ | ⟨e', rest, -, decoded', -⟩
        · exact last
        · have start := decoded'.start
          omega
/-- The walk along tiles comes to the last one of them. -/
theorem lastStart_tiles {before : List DirEntry} (tiles : Tiles buf pos (before ++ [e]) buf.size) :
    lastStart buf pos = pos + width before ∧ lengthAt buf (pos + width before) = e.rec_len.toNat := by
  induction before generalizing pos with
  | nil =>
    obtain ⟨held, stop⟩ := tiles
    have stop : pos + e.rec_len.toNat = buf.size := stop
    have length : lengthAt buf pos = e.rec_len.toNat := by rw [lengthAt, held.rec_len]
    rw [lastStart, if_neg (by omega)]
    exact ⟨rfl, length⟩
  | cons first before ih =>
    obtain ⟨held, tail⟩ := tiles
    have length : lengthAt buf pos = first.rec_len.toNat := by rw [lengthAt, held.rec_len]
    have reach := tiles_stop tail
    have room := (tiles_formed tail e (by simp)).room
    have room' := held.formed.room
    rw [List.append_eq, width_append, width] at reach
    obtain ⟨start, last⟩ := ih tail
    rw [lastStart, if_pos (by omega), length, start, width, ← Nat.add_assoc]
    exact ⟨rfl, last⟩
theorem sealed_of_tiles (tiles : Tiles buf 0 es buf.size) : Sealed buf := by
  cases es using List.reverseRecOn with
  | nil => exact .inl (Eq.symm tiles)
  | append_singleton before e =>
    obtain ⟨start, last⟩ := lastStart_tiles tiles
    have reach := tiles_stop tiles
    simp only [width_append, width] at reach
    rw [Sealed, start, last]
    omega

theorem nameAt_held (held : EntryAt buf pos e) : nameAt buf pos = e.name := by
  have short := held.formed.short
  have length : (buf.byte (pos + 6)).toNat = e.name.length := by
    rw [held.name_len, UInt8.toNat_ofNat']
    omega
  rw [nameAt, length]
  refine List.ext_getElem (by simp) fun i low high => ?_
  have same := held.name i high
  rw [List.getD_eq_getElem?_getD, List.getElem?_eq_getElem high, Option.getD_some] at same
  simp only [toList, size_slice, List.getElem_map, List.getElem_range]
  rw [byte_slice_of_lt _ high, same]

/-! ### The edits of a tiled buffer -/

/-- The first entry that a walk stops at, if there is one. -/
theorem first_stop (stop : DirEntry → Bool) (es : List DirEntry) :
    (∀ e ∈ es, stop e = false) ∨
    ∃ before e after, es = before ++ e :: after ∧ (∀ x ∈ before, stop x = false) ∧ stop e = true := by
  cases found : es.find? stop with
  | none =>
    left
    intro e member
    simpa using List.find?_eq_none.mp found e member
  | some e =>
    obtain ⟨here, before, after, split, earlier⟩ := List.find?_eq_some_iff_append.mp found
    right
    exact ⟨before, e, after, split, fun x member => by simpa using earlier x member, here⟩

theorem redirect_dotdot_inside (tiles : Tiles buf 0 es buf.size) (inode : UInt32) : NoPanic (redirect_dotdot buf inode) := by
  rcases first_stop is_dotdot es with none | ⟨before, e, after, rfl, earlier, here⟩
  · rw [redirect_dotdot, walk_through tiles none]
    simp
  · obtain ⟨buf', redirected, -⟩ := redirect_dotdot_ok before inode tiles earlier here
    rw [redirected]
    simp
/-- A sum of two lengths that is no 16-bit number stops the edit. -/
theorem erase_entry_wide {inode : UInt32} {name : List UInt8} {before after : List DirEntry} {prev target : DirEntry}
    (tiles : Tiles buf 0 (before ++ [prev, target] ++ after) buf.size)
    (earlier : ∀ e ∈ before ++ [prev], names_target inode name e = false) (here : names_target inode name target = true)
    (wide : 65536 ≤ prev.rec_len.toNat + target.rec_len.toNat) : erase_entry buf inode name = .error .panic := by
  have walked : Tiles buf 0 ((before ++ [prev]) ++ target :: after) buf.size := by simpa using tiles
  have held : EntryAt buf (width before) prev := by
    rw [tiles_append, tiles_append] at tiles
    have middle := tiles.1.2
    rw [Nat.zero_add] at middle
    exact middle.1
  rw [erase_entry, walk_to walked earlier here, liftErr_ok, res_bind_ok, okOr_some, res_bind_ok]
  dsimp only
  rw [getLast_located]
  dsimp only
  rw [Nat.zero_add, DirEntry.decode_ok held, liftErr_ok, res_bind_ok, decide_eq_false (Nat.not_lt_of_le wide), orPanic_false,
    res_bind_error]
/-- Nothing else does. -/
theorem erase_entry_cases (tiles : Tiles buf 0 es buf.size) (inode : UInt32) (name : List UInt8) :
    NoPanic (erase_entry buf inode name) ∨ ∃ before prev target after, es = before ++ [prev, target] ++ after ∧
      (∀ e ∈ before ++ [prev], names_target inode name e = false) ∧ names_target inode name target = true ∧
      65536 ≤ prev.rec_len.toNat + target.rec_len.toNat := by
  rcases first_stop (names_target inode name) es with none | ⟨before, e, after, rfl, earlier, here⟩
  · rw [erase_entry, walk_through tiles none]
    simp
  · cases before using List.reverseRecOn with
    | nil =>
      obtain ⟨buf', erased, -⟩ := erase_entry_first tiles here
      rw [erased]
      simp
    | append_singleton before prev =>
      have split : Tiles buf 0 (before ++ [prev, e] ++ after) buf.size := by simpa using tiles
      by_cases narrow : prev.rec_len.toNat + e.rec_len.toNat < 65536
      · obtain ⟨buf', erased, -⟩ := erase_entry_merges split earlier here narrow
        rw [erased]
        simp
      · exact .inr ⟨before, prev, e, after, by simp, earlier, here, by omega⟩
/-- In a buffer of at most 64 KiB two such records leave no place for another one. -/
theorem only_pair {before after : List DirEntry} {prev target : DirEntry} (small : buf.size ≤ 65536)
    (tiles : Tiles buf 0 (before ++ [prev, target] ++ after) buf.size)
    (wide : 65536 ≤ prev.rec_len.toNat + target.rec_len.toNat) : before = [] ∧ after = [] ∧ buf.size = 65536 := by
  have reach := tiles_stop tiles
  simp only [width_append, width] at reach
  have formed := tiles_formed tiles
  have empty : ∀ xs : List DirEntry, (∀ x ∈ xs, x ∈ before ++ [prev, target] ++ after) → width xs = 0 → xs = [] := by
    intro xs among none
    cases xs with
    | nil => rfl
    | cons x xs =>
      have room := (formed x (among x List.mem_cons_self)).room
      rw [width] at none
      omega
  exact ⟨empty before (fun x member => by simp [member]) (by omega), empty after (fun x member => by simp [member]) (by omega),
    by omega⟩
/-- Two records whose lengths make up the buffer are all that it has. -/
theorem pair_of_sum (tiles : Tiles buf 0 es buf.size) (large : 65536 ≤ buf.size)
    (sum : lengthAt buf 0 + lengthAt buf (lengthAt buf 0) = buf.size) : ∃ prev target, es = [prev, target] := by
  cases es with
  | nil =>
    have stop : 0 = buf.size := tiles
    omega
  | cons prev rest =>
    obtain ⟨first, tiles⟩ := tiles
    have length : lengthAt buf 0 = prev.rec_len.toNat := by rw [lengthAt, first.rec_len]
    have short := prev.rec_len.toNat_lt
    rw [Nat.zero_add] at tiles
    rw [length] at sum
    cases rest with
    | nil =>
      have stop : prev.rec_len.toNat = buf.size := tiles
      omega
    | cons target rest =>
      obtain ⟨second, tiles⟩ := tiles
      have length' : lengthAt buf prev.rec_len.toNat = target.rec_len.toNat := by rw [lengthAt, second.rec_len]
      cases rest with
      | nil => exact ⟨prev, target, rfl⟩
      | cons e rest =>
        have inside := tiles.1.inside
        have room := tiles.1.formed.room
        omega
/-- The two records of a buffer that is halved. -/
theorem halved_pair {prev target : DirEntry} (tiles : Tiles buf 0 [prev, target] buf.size) (size : buf.size = 65536) :
    Halved buf ↔ target.inode ≠ 0 ∧ ¬ (prev.inode = target.inode ∧ prev.name = target.name) := by
  obtain ⟨first, second, stop⟩ := tiles
  rw [Nat.zero_add] at second stop
  have stop : prev.rec_len.toNat + target.rec_len.toNat = buf.size := stop
  have length : lengthAt buf 0 = prev.rec_len.toNat := by rw [lengthAt, first.rec_len]
  have length' : lengthAt buf prev.rec_len.toNat = target.rec_len.toNat := by rw [lengthAt, second.rec_len]
  rw [Halved, length, length', first.inode, second.inode, nameAt_held first, nameAt_held second]
  simp only [size, stop, true_and]
end

/-! ### Which accepted buffers are tiled -/

/-- The records fill the buffer, and the edits of a block stay inside. -/
structure Tiled (buf : Bytes) (entries : List DirEntry) : Prop where
  sum : width entries = buf.size
  inside : ∀ before e after, entries = before ++ e :: after → width before + e.rec_len.toNat ≤ buf.size
  redirects : ∀ inode, NoPanic (redirect_dotdot buf inode)
  erases : buf.size ≤ 65536 → ∀ inode name, NoPanic (erase_entry buf inode name)

/-- An accepted buffer is tiled when the last length field leads to its end, and
    two records do not halve it. -/
theorem accepted_tiled_iff {buf : Bytes} {entries : List DirEntry} (accepted : decode_dir_block buf = .ok entries) :
    Tiled buf entries ↔ Sealed buf ∧ ¬ Halved buf := by
  constructor
  · intro tiled
    have tiles := tiles_of_width accepted (by rw [Nat.zero_add, tiled.sum])
    refine ⟨sealed_of_tiles tiles, fun halved => ?_⟩
    have size := halved.1
    have sum := halved.2.1
    obtain ⟨prev, target, rfl⟩ := pair_of_sum tiles (by omega) (sum.trans size.symm)
    obtain ⟨used, differ⟩ := (halved_pair tiles size).mp halved
    have total := tiled.sum
    simp only [width] at total
    refine tiled.erases (by omega) target.inode target.name ?_
    have both : Tiles buf 0 ([] ++ [prev, target] ++ []) buf.size := tiles
    refine erase_entry_wide both (fun e member => ?_) ?_ (by omega)
    · rw [List.mem_singleton.mp member]
      by_contra hit
      simp only [names_target, Bool.not_eq_false, Bool.and_eq_true, beq_iff_eq] at hit
      exact differ ⟨hit.2, hit.1.2⟩
    · simp [names_target, is_unused, used]
  · rintro ⟨ends, whole⟩
    have tiles : Tiles buf 0 entries buf.size := by
      rcases Nat.eq_zero_or_pos buf.size with empty | some
      · rcases decode_from_cases accepted with ⟨rfl, -⟩ | ⟨e, rest, -, decoded, -⟩
        · exact empty.symm
        · have start := decoded.start
          omega
      · exact tiles_of_last accepted some (ends.resolve_left (by omega))
    have reach := tiles_stop tiles
    refine ⟨by omega, ?_, redirect_dotdot_inside tiles, fun small inode name => ?_⟩
    · rintro before e after rfl
      simp only [width_append, width] at reach
      omega
    · rcases erase_entry_cases tiles inode name with quiet | ⟨before, prev, target, after, rfl, earlier, here, wide⟩
      · exact quiet
      obtain ⟨rfl, rfl, size⟩ := only_pair small tiles wide
      refine absurd ((halved_pair tiles size).mpr ⟨?_, fun twins => ?_⟩) whole
      · rintro unused
        simp [names_target, is_unused, unused] at here
      · have same : names_target inode name prev = names_target inode name target := by
          simp only [names_target, is_unused, twins.1, twins.2]
        rw [← same, earlier prev (by simp)] at here
        cases here

/-- The record of `..` in twelve bytes that says it has sixteen. -/
def longRecord : Bytes := ofList [5, 0, 0, 0, 16, 0, 2, 2, 46, 46, 0, 0]

theorem longRecord_decoded : decode (longRecord.rest 0) = .ok ⟨5, 16, 2, DOTDOT⟩ := by decide +kernel
theorem longRecord_accepted : decode_dir_block longRecord = .ok [⟨5, 16, 2, DOTDOT⟩] :=
  decode_from_step (by decide) longRecord_decoded (decode_from_end (by decide))
theorem longRecord_walked : walk longRecord is_dotdot 0 = .ok ⟨[], some (0, ⟨5, 16, 2, DOTDOT⟩)⟩ := by
  have decoded := longRecord_decoded
  unfold walk
  rw [if_pos (by decide)]
  split
  · rename_i fault refused
    rw [decoded] at refused
    cases refused
  · rename_i e here
    rw [decoded] at here
    cases here
    rfl

/-- An accepted buffer whose record is longer than the buffer: writing the
    record again over its bytes panics. -/
theorem longRecord_overhangs : decode_dir_block longRecord = .ok [⟨5, 16, 2, DOTDOT⟩] ∧
    width [(⟨5, 16, 2, DOTDOT⟩ : DirEntry)] ≠ longRecord.size ∧ redirect_dotdot longRecord 2 = .error .panic := by
  refine ⟨longRecord_accepted, by decide, ?_⟩
  unfold redirect_dotdot
  rw [longRecord_walked]
  rfl
/-- Twenty-four bytes that hold two records of twelve bytes. -/
theorem twoRecords_tiled : Tiled (ofList [5, 0, 0, 0, 12, 0, 1, 2, 46, 0, 0, 0, 2, 0, 0, 0, 12, 0, 2, 2, 46, 46, 0, 0])
    [⟨5, 12, 2, DOT⟩, ⟨2, 12, 2, DOTDOT⟩] := by
  have accepted : decode_dir_block (ofList [5, 0, 0, 0, 12, 0, 1, 2, 46, 0, 0, 0, 2, 0, 0, 0, 12, 0, 2, 2, 46, 46, 0, 0]) =
      .ok [⟨5, 12, 2, DOT⟩, ⟨2, 12, 2, DOTDOT⟩] :=
    decode_from_step (by decide) (by decide +kernel) (decode_from_step (by decide) (by decide +kernel) (decode_from_end (by decide)))
  exact (accepted_tiled_iff accepted).mpr ⟨sealed_of_tiles (tiles_of_width accepted (by decide)), fun halved =>
    absurd halved.1 (by decide)⟩

end Justext4.DirScan
