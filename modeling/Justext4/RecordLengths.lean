import Justext4.Create
import Justext4.DirRoundTrip
import Justext4.DirScan
import Justext4.Formatted

/-!
The arithmetic on record lengths. The functions that compute with them are
taken down step by step, every cast and every sum and difference noted. A
directory block keeps its two dots in front whatever entries are added and
removed, and so its record lengths stay below its size. Two computations lose
bits all the same: the block size of 64 KiB is cut to 16 bits in a new
directory, and so is the length of a name that no record could hold.
-/
namespace Justext4.RecordLengths
open Justext4 Justext4.Fallible Justext4.Fields Justext4.Filesystem Justext4.DirBlock Justext4.DirScan Bytes
open Justext4.DirEntry
open Justext4.DirRoundTrip (write_row Built)
open Justext4.Mkfs (Config Layout ROOT_INODE_NUMBER format)
open Justext4.Create (under mkdir_at mkdir_eq)
open Justext4.Formatted (root_block format_ok laid_of_format slice_dots)

/-! ### Noted computations -/

/-- One computation with lengths. -/
inductive Step where
  | cast (n : Nat)
  | minus (a b : Nat)
  | plus (a b : UInt16)

/-- The cast loses no bits, the difference and the sum stay in their range. -/
def Step.Exact : Step → Prop
  | .cast n => n < 65536
  | .minus a b => b ≤ a
  | .plus a b => a.toNat + b.toNat < 65536

/-- A result, and the steps that have been taken for it. -/
structure Noted (ε α : Type) where
  steps : List Step
  result : Res ε α

section
variable {ε α β : Type}

namespace Noted

/-- Nothing is noted. -/
def quiet (r : Res ε α) : Noted ε α := ⟨[], r⟩
def next (x : Noted ε α) (f : α → Noted ε β) : Noted ε β :=
  match x.result with
  | .ok a => ⟨x.steps ++ (f a).steps, (f a).result⟩
  | .error fault => ⟨x.steps, .error fault⟩

instance : Monad (Noted ε) where
  pure a := ⟨[], .ok a⟩
  bind := next

/-- `n as u16`. -/
def cast (n : Nat) : Noted ε UInt16 := ⟨[.cast n], .ok (.ofNat n)⟩
def minus (a b : Nat) : Noted ε Nat := ⟨[.minus a b], do orPanic (b ≤ a); .ok (a - b)⟩
def plus (a b : UInt16) : Noted ε UInt16 := ⟨[.plus a b], do orPanic (a.toNat + b.toNat < 65536); .ok (a + b)⟩

/-- Every step is exact. -/
def Exact (x : Noted ε α) : Prop := ∀ s ∈ x.steps, s.Exact

@[simp] theorem result_bind (x : Noted ε α) (f : α → Noted ε β) :
    (x >>= f).result = x.result >>= fun a => (f a).result := by
  show (next x f).result = _
  rw [next]
  cases x.result <;> rfl
@[simp] theorem result_quiet (r : Res ε α) : (quiet r).result = r := rfl
@[simp] theorem result_cast (n : Nat) : (cast n : Noted ε UInt16).result = .ok (.ofNat n) := rfl
@[simp] theorem result_minus (a b : Nat) : (minus a b : Noted ε Nat).result = (do
    orPanic (b ≤ a)
    .ok (a - b)) := rfl
@[simp] theorem result_plus (a b : UInt16) :
    (plus a b : Noted ε UInt16).result = (do
    orPanic (a.toNat + b.toNat < 65536)
    .ok (a + b)) := rfl

@[simp] theorem exact_quiet (r : Res ε α) : (quiet r).Exact := fun _ member => by cases member
@[simp] theorem exact_cast (n : Nat) : (cast n : Noted ε UInt16).Exact ↔ n < 65536 := by simp [Exact, cast, Step.Exact]
@[simp] theorem exact_minus (a b : Nat) : (minus a b : Noted ε Nat).Exact ↔ b ≤ a := by simp [Exact, minus, Step.Exact]
@[simp] theorem exact_plus (a b : UInt16) : (plus a b : Noted ε UInt16).Exact ↔ a.toNat + b.toNat < 65536 := by
  simp [Exact, plus, Step.Exact]
/-- What follows is only taken when there is a value. -/
theorem exact_bind {x : Noted ε α} {f : α → Noted ε β} :
    (x >>= f).Exact ↔ x.Exact ∧ ∀ a, x.result = .ok a → (f a).Exact := by
  show (next x f).Exact ↔ _
  simp only [Exact, next]
  cases x.result with
  | ok a => simp [or_imp, forall_and]
  | error fault => simp

end Noted
end

/-! ### The functions, noted -/

open Noted (quiet cast minus plus)

/-- The root block of `format`. -/
def root_lengths (config : Config) : Noted Ext4Error Bytes := do
  let rest ← minus config.block_size.toNat 12
  let rec_len ← cast rest
  let block_buf ← quiet (liftErr .DirEntryEncode
    (encode_range ⟨ROOT_INODE_NUMBER, 12, 2, DOT⟩ (zeros config.block_size.toNat) 0 12))
  quiet (liftErr .DirEntryEncode
    (encode_range ⟨ROOT_INODE_NUMBER, rec_len, 2, DOTDOT⟩ block_buf 12 config.block_size.toNat))

/-- The block that `mkdir` makes for a new directory. -/
def mkdir_lengths (new_inode_num parent_inode_num : UInt32) (block_size : Nat) : Noted Ext4Error Bytes := do
  let cut ← cast block_size
  let rec_len ← minus cut.toNat 12
  let data ← quiet (liftErr .DirEntryEncode (encode_range ⟨new_inode_num, 12, 2, DOT⟩ (zeros block_size) 0 12))
  quiet (liftErr .DirEntryEncode (encode_range ⟨parent_inode_num, .ofNat rec_len, 2, DOTDOT⟩ data 12 block_size))

/-- The edit of `add_dir_entry`. -/
def insert_lengths (block_buf : Bytes) (name : List UInt8) (child_inode : UInt32) (file_type : UInt8) :
    Noted Ext4Error Bytes := do
  let visited ← quiet (liftErr .DirEntry (walk block_buf (fun _ => false) 0))
  let (last_offset, last) ← quiet (okOr visited.passed.getLast? (.InvalidLayout "directory block has no entries"))
  let last_actual ← cast (pad4 (8 + last.name.length))
  let new_actual ← cast (pad4 (8 + name.length))
  let slack ← minus last.rec_len.toNat last_actual.toNat
  quiet (ensure (new_actual.toNat ≤ slack) (.UnsupportedV0 "directory block full; v0 doesn't allocate a new dir block"))
  let shrunk := { last with rec_len := last_actual }
  let block_buf ← quiet
    (liftErr .DirEntryEncode (encode_range shrunk block_buf last_offset (last_offset + last_actual.toNat)))
  let new_offset := last_offset + last_actual.toNat
  let rest ← minus block_buf.size new_offset
  let new_rec_len ← cast rest
  quiet (liftErr .DirEntryEncode
    (encode_range ⟨child_inode, new_rec_len, file_type, name⟩ block_buf new_offset block_buf.size))

/-- The edit of `remove_dir_entry`. -/
def erase_lengths (block_buf : Bytes) (target_inode : UInt32) (name : List UInt8) : Noted Ext4Error Bytes := do
  let visited ← quiet (liftErr .DirEntry (walk block_buf (names_target target_inode name) 0))
  let (target_offset, found) ← quiet (okOr visited.found (.NotFound name))
  match visited.passed.getLast? with
  | some (prev_off, _) => do
    let prev_entry ← quiet (liftErr .DirEntry (DirEntry.decode (block_buf.rest prev_off)))
    let new_prev_rec_len ← plus prev_entry.rec_len found.rec_len
    let updated := { prev_entry with rec_len := new_prev_rec_len }
    quiet (liftErr .DirEntryEncode (encode_range updated block_buf prev_off (prev_off + updated.rec_len.toNat)))
  | none => quiet (block_buf.copy target_offset (zeros 4))

/-- The noted functions give what the functions give. -/
theorem insert_lengths_result (block_buf : Bytes) (name : List UInt8) (child_inode : UInt32) (file_type : UInt8) :
    (insert_lengths block_buf name child_inode file_type).result = insert_entry block_buf name child_inode file_type := by
  have cut : ∀ n, UInt16.ofNat (n % 65536) = UInt16.ofNat n := fun n => by
    rw [← UInt16.toNat_inj, UInt16.toNat_ofNat', UInt16.toNat_ofNat', Nat.mod_mod]
  simp only [insert_lengths, insert_entry, Noted.result_bind, Noted.result_quiet, Noted.result_cast, Noted.result_minus,
    res_bind_ok, bind_assoc, UInt16.toNat_ofNat', Nat.reducePow, cut]
theorem erase_lengths_result (block_buf : Bytes) (target_inode : UInt32) (name : List UInt8) :
    (erase_lengths block_buf target_inode name).result = erase_entry block_buf target_inode name := by
  simp only [erase_lengths, erase_entry, Noted.result_bind, Noted.result_quiet]
  refine bind_congr fun visited => bind_congr fun _ => ?_
  cases visited.passed.getLast? with
  | none => rfl
  | some previous =>
    simp only [Noted.result_bind, Noted.result_quiet, Noted.result_plus, res_bind_ok, bind_assoc]
theorem root_lengths_result (config : Config) (some : 12 ≤ config.block_size.toNat) :
    (root_lengths config).result = root_block config := by
  simp only [root_lengths, root_block, Noted.result_bind, Noted.result_quiet, Noted.result_cast, Noted.result_minus,
    decide_eq_true some, orPanic_true, res_bind_ok]

/-- The root block of the image is the one that `format` makes. -/
theorem format_writes {config : Config} {layout : Layout} {image : Bytes} (laid : Layout.from_config config = .ok layout)
    (ran : format (zeros 0) config = .ok image) :
    (root_lengths config).result =
      .ok (image.slice (layout.root_dir_block * config.block_size.toNat) config.block_size.toNat) := by
  obtain ⟨layout', laid', covered⟩ := laid_of_format ran
  cases laid.symm.trans laid'
  obtain ⟨log, dots, blocks, inodes, written, ran'⟩ := format_ok laid covered
  cases ran.symm.trans ran'
  have large := written.parts.block
  rw [root_lengths_result config (by omega), written.made]
  exact congrArg Except.ok (slice_dots written.parts).symm
/-- The block that a call of `mkdir` writes before it enters the new directory. -/
theorem mkdir_writes {path : List UInt8} {fs fs' : Filesystem} {n : UInt32} (ran : (mkdir path).run fs = .ok n fs') :
    ∃ parent_path name p parent_inode dir_block buf fs₁ fs₂ fs₃, split_path path = .ok (parent_path, name) ∧
      open_directory fs parent_path = .ok (p, parent_inode) ∧
      (mkdir_lengths n p fs.superblock.block_size.toNat).result = .ok buf ∧
      (write_at (dir_block * fs.superblock.block_size.toNat) buf).run fs₁ = .ok () fs₂ ∧
      (add_dir_entry parent_inode name n 2).run fs₂ = .ok () fs₃ := by
  rw [mkdir_eq, under] at ran
  obtain ⟨⟨parent_path, name⟩, split, ran⟩ := lift_then_eq_ok.mp ran
  obtain ⟨⟨p, parent_inode⟩, opened, ran⟩ := reads_then_eq_ok.mp ran
  obtain ⟨⟨⟩, -, ran⟩ := reads_then_eq_ok.mp ran
  rw [show _ = mkdir_at p parent_inode name from rfl, mkdir_at] at ran
  obtain ⟨block_size, size, ran⟩ := reads_then_eq_ok.mp ran
  cases size
  obtain ⟨n', _, -, ran⟩ := run_bind_eq_ok.mp ran
  obtain ⟨dir_block, _, -, ran⟩ := run_bind_eq_ok.mp ran
  obtain ⟨block, _, -, ran⟩ := run_bind_eq_ok.mp ran
  obtain ⟨⟨⟩, _, -, ran⟩ := run_bind_eq_ok.mp ran
  obtain ⟨⟨⟩, large, ran⟩ := lift_then_eq_ok.mp ran
  obtain ⟨data, dot, ran⟩ := lift_then_eq_ok.mp ran
  obtain ⟨buf, dotdot, ran⟩ := lift_then_eq_ok.mp ran
  obtain ⟨offset, within, ran⟩ := lift_then_eq_ok.mp ran
  obtain ⟨⟨⟩, fs₂, written, ran⟩ := run_bind_eq_ok.mp ran
  obtain ⟨⟨⟩, fs₃, entered, ran⟩ := run_bind_eq_ok.mp ran
  obtain ⟨⟨⟩, _, -, ran⟩ := run_bind_eq_ok.mp ran
  obtain ⟨⟨⟩, _, -, ran⟩ := run_bind_eq_ok.mp ran
  obtain ⟨⟨⟩, _, -, ran⟩ := run_bind_eq_ok.mp ran
  obtain ⟨⟨⟩, _, -, ran⟩ := run_bind_eq_ok.mp ran
  obtain ⟨⟨⟩, _, -, ran⟩ := run_bind_eq_ok.mp ran
  obtain rfl : n' = n := by
    cases ran
    rfl
  obtain rfl : offset = dir_block * fs.superblock.block_size.toNat := by
    rw [in_u64] at within
    split at within
    · exact (Except.ok.inj within).symm
    · cases within
  refine ⟨parent_path, name, p, parent_inode, dir_block, buf, _, fs₂, fs₃, split, opened, ?_, written, entered⟩
  simp only [mkdir_lengths, Noted.result_bind, Noted.result_quiet, Noted.result_cast, Noted.result_minus, res_bind_ok, bind_assoc,
    UInt16.toNat_ofNat', Nat.reducePow, orPanic_eq_ok.mp large, orPanic_true, dot, dotdot]

/-! ### Directory blocks -/

/-- The directory blocks: those that `format` and `mkdir` build, and what adding
    entries and removing others than the two dots makes of them. -/
inductive Edited (block_size : Nat) : Bytes → Prop
  | format {config : Config} {layout : Layout} {image : Bytes} (size : config.block_size.toNat = block_size)
      (laid : Layout.from_config config = .ok layout) (ran : format (zeros 0) config = .ok image) :
      Edited block_size (image.slice (layout.root_dir_block * block_size) block_size)
  | mkdir {fs fs' : Filesystem} {path parent_path name : List UInt8} {n p : UInt32} {parent_inode : Inode.Inode} {buf : Bytes}
      (size : fs.superblock.block_size.toNat = block_size) (ran : (mkdir path).run fs = .ok n fs')
      (split : split_path path = .ok (parent_path, name)) (opened : open_directory fs parent_path = .ok (p, parent_inode))
      (made : (mkdir_lengths n p block_size).result = .ok buf) : Edited block_size buf
  | add {name : List UInt8} {child : UInt32} {code : UInt8} {buf buf' : Bytes} (edited : Edited block_size buf)
      (added : insert_entry buf name child code = .ok buf') : Edited block_size buf'
  | remove {target : UInt32} {name : List UInt8} {buf buf' : Bytes} (edited : Edited block_size buf)
      (kept : name ≠ DOT ∧ name ≠ DOTDOT) (removed : erase_entry buf target name = .ok buf') : Edited block_size buf'

/-- The calls that compute with record lengths. -/
inductive Computation where
  | format (config : Config)
  | mkdir (new_inode_num parent_inode_num : UInt32)
  | add_dir_entry (block_buf : Bytes) (name : List UInt8) (child_inode : UInt32) (file_type : UInt8)
  | remove_dir_entry (block_buf : Bytes) (target_inode : UInt32) (name : List UInt8)

/-- The configuration has the block size, and the block that the call works on
    the history of a directory block. -/
def Allowed (block_size : Nat) : Computation → Prop
  | .format config => config.block_size.toNat = block_size
  | .mkdir _ _ => True
  | .add_dir_entry block_buf _ _ _ => Edited block_size block_buf
  | .remove_dir_entry block_buf _ name => Edited block_size block_buf ∧ name ≠ DOT ∧ name ≠ DOTDOT

/-- What the call computes with record lengths. -/
def noted (block_size : Nat) : Computation → Noted Ext4Error Bytes
  | .format config => root_lengths config
  | .mkdir new_inode_num parent_inode_num => mkdir_lengths new_inode_num parent_inode_num block_size
  | .add_dir_entry block_buf name child_inode file_type => insert_lengths block_buf name child_inode file_type
  | .remove_dir_entry block_buf target_inode name => erase_lengths block_buf target_inode name

/-- The block sizes and the names for which the casts are harmless. -/
def Harmless (block_size : Nat) : Computation → Prop
  | .format _ => True
  | .mkdir _ _ => block_size ≠ 65536
  | .add_dir_entry _ name _ _ => name.length ≤ 65524
  | .remove_dir_entry _ _ _ => True

/-! ### What every edit keeps -/

/-- The records tile the block, the two dots first. -/
structure Laid (block_size : Nat) (buf : Bytes) : Prop where
  size : buf.size = block_size
  rows : ∃ dot dotdot es, dot.name = DOT ∧ dot.rec_len.toNat = 12 ∧ dotdot.name = DOTDOT ∧
    Tiles buf 0 (dot :: dotdot :: es) buf.size

section
variable {block_size : Nat} {buf buf' : Bytes}

theorem built_tiles {own parent : UInt32} {len : UInt16} {mid : Bytes} (large : 12 ≤ block_size)
    (whole : len.toNat = block_size - 12) (first : encode_range ⟨own, 12, 2, DOT⟩ (zeros block_size) 0 12 = .ok mid)
    (last : encode_range ⟨parent, len, 2, DOTDOT⟩ mid 12 block_size = .ok buf) :
    buf.size = block_size ∧ Tiles buf 0 [⟨own, 12, 2, DOT⟩, ⟨parent, len, 2, DOTDOT⟩] buf.size := by
  have reach : 12 + len.toNat = block_size := by omega
  have row : write_row (zeros block_size) 0 [⟨own, 12, 2, DOT⟩, ⟨parent, len, 2, DOTDOT⟩] = .ok buf := by
    rw [write_row, show 0 + (12 : UInt16).toNat = 12 from rfl, first, res_bind_ok, write_row, reach, last, res_bind_ok,
      write_row]
  have total : width [⟨own, 12, 2, DOT⟩, ⟨parent, len, 2, DOTDOT⟩] = block_size := by
    show 12 + (len.toNat + 0) = block_size
    omega
  have tiled : Built [⟨own, 12, 2, DOT⟩, ⟨parent, len, 2, DOTDOT⟩] buf := ⟨_, total.symm, row⟩
  obtain ⟨size, tiles⟩ := tiled.tiles
  exact ⟨size.trans total, tiles⟩
theorem root_tiles {config : Config} (large : 12 ≤ config.block_size.toNat) (small : config.block_size.toNat ≤ 65536)
    (made : (root_lengths config).result = .ok buf) : buf.size = config.block_size.toNat ∧ Tiles buf 0
      [⟨ROOT_INODE_NUMBER, 12, 2, DOT⟩, ⟨ROOT_INODE_NUMBER, .ofNat (config.block_size.toNat - 12), 2, DOTDOT⟩] buf.size := by
  rw [root_lengths_result config large, root_block] at made
  obtain ⟨mid, first, last⟩ := res_bind_eq_ok.mp made
  exact built_tiles large (toNat_ofNat16 (by omega)) (liftErr_eq_ok.mp first) (liftErr_eq_ok.mp last)
theorem root_laid {config : Config} (large : 12 ≤ config.block_size.toNat) (small : config.block_size.toNat ≤ 65536)
    (made : (root_lengths config).result = .ok buf) : Laid config.block_size.toNat buf := by
  obtain ⟨size, tiles⟩ := root_tiles large small made
  exact ⟨size, _, _, [], rfl, rfl, rfl, tiles⟩
theorem mkdir_laid {own parent : UInt32} (large : 12 ≤ block_size) (small : block_size ≤ 65536)
    (made : (mkdir_lengths own parent block_size).result = .ok buf) : Laid block_size buf := by
  simp only [mkdir_lengths, Noted.result_bind, Noted.result_quiet, Noted.result_cast, Noted.result_minus, res_bind_ok,
    UInt16.toNat_ofNat', Nat.reducePow] at made
  obtain ⟨rec_len, rest, made⟩ := res_bind_eq_ok.mp made
  obtain ⟨_, room, rest⟩ := res_bind_eq_ok.mp rest
  cases rest
  have room := of_decide_eq_true (orPanic_eq_ok.mp room)
  obtain ⟨mid, first, last⟩ := res_bind_eq_ok.mp made
  have whole : block_size % 65536 = block_size := by omega
  rw [whole] at last
  obtain ⟨size, tiles⟩ := built_tiles large (toNat_ofNat16 (by omega)) (liftErr_eq_ok.mp first) (liftErr_eq_ok.mp last)
  exact ⟨size, _, _, [], rfl, rfl, rfl, tiles⟩

/-- The last record comes after the first dot. -/
theorem Laid.split (laid : Laid block_size buf) : ∃ dot before last, dot.name = DOT ∧ dot.rec_len.toNat = 12 ∧
    Tiles buf 0 (dot :: before ++ [last]) buf.size ∧ ((before = [] ∧ last.name = DOTDOT) ∨
      ∃ dotdot rest, before = dotdot :: rest ∧ dotdot.name = DOTDOT) := by
  obtain ⟨-, dot, dotdot, es, named, length, named', tiles⟩ := laid
  cases es using List.reverseRecOn with
  | nil => exact ⟨dot, [], dotdot, named, length, tiles, .inl ⟨rfl, named'⟩⟩
  | append_singleton es last => exact ⟨dot, dotdot :: es, last, named, length, tiles, .inr ⟨dotdot, es, rfl, named'⟩⟩

theorem added_laid {name : List UInt8} {child : UInt32} {code : UInt8} (laid : Laid block_size buf)
    (added : insert_entry buf name child code = .ok buf') : Laid block_size buf' := by
  obtain ⟨dot, before, last, named, length, tiles, second⟩ := laid.split
  have fits : Fits last name := by
    refine Decidable.byContradiction fun full => ?_
    obtain ⟨e, refused⟩ := insert_entry_refused child code tiles full
    rw [refused] at added
    cases added
  obtain ⟨out, inserted, size, tiles'⟩ := insert_entry_fits child code tiles fits
  rw [inserted] at added
  cases added
  rw [← size] at tiles'
  refine ⟨size.trans laid.size, ?_⟩
  rcases second with ⟨rfl, named'⟩ | ⟨dotdot, rest, rfl, named'⟩
  · exact ⟨dot, shrunk last, _, named, length, named', tiles'⟩
  · exact ⟨dot, dotdot, _, named, length, named', tiles'⟩

/-- The record that a removal finds comes after the two dots, and so has a
    record before it. -/
theorem Laid.target {target_inode : UInt32} {name : List UInt8} (laid : Laid block_size buf)
    (kept : name ≠ DOT ∧ name ≠ DOTDOT) : (∃ es, Tiles buf 0 es buf.size ∧ ∀ e ∈ es, names_target target_inode name e = false) ∨
    ∃ dot before prev target after, dot.name = DOT ∧ dot.rec_len.toNat = 12 ∧
      Tiles buf 0 (dot :: before ++ [prev, target] ++ after) buf.size ∧
      (∀ e ∈ dot :: before ++ [prev], names_target target_inode name e = false) ∧
      names_target target_inode name target = true ∧
      ((before = [] ∧ prev.name = DOTDOT) ∨ ∃ dotdot rest, before = dotdot :: rest ∧ dotdot.name = DOTDOT) := by
  obtain ⟨-, dot, dotdot, es, named, length, named', tiles⟩ := laid
  have other : ∀ e : DirEntry, e.name ≠ name → names_target target_inode name e = false := by
    intro e differs
    simp [names_target, differs]
  have first := other dot (by rw [named]; exact kept.1.symm)
  have second := other dotdot (by rw [named']; exact kept.2.symm)
  rcases first_stop (names_target target_inode name) es with none | ⟨before, target, after, rfl, earlier, here⟩
  · refine .inl ⟨_, tiles, fun e member => ?_⟩
    rcases List.mem_cons.mp member with rfl | member
    · exact first
    · rcases List.mem_cons.mp member with rfl | member
      · exact second
      · exact none e member
  · refine .inr ?_
    cases before using List.reverseRecOn with
    | nil =>
      refine ⟨dot, [], dotdot, target, after, named, length, tiles, ?_, here, .inl ⟨rfl, named'⟩⟩
      simp [first, second]
    | append_singleton before prev =>
      refine ⟨dot, dotdot :: before, prev, target, after, named, length, by simpa using tiles, fun e member => ?_, here,
        .inr ⟨dotdot, before, rfl, named'⟩⟩
      rcases List.mem_cons.mp member with rfl | member
      · exact first
      · rcases List.mem_cons.mp member with rfl | member
        · exact second
        · exact earlier e member

/-- Two neighbours after the first dot are shorter than the block together. -/
theorem neighbours_short {dot prev target : DirEntry} {before after : List DirEntry} (length : dot.rec_len.toNat = 12)
    (tiles : Tiles buf 0 (dot :: before ++ [prev, target] ++ after) buf.size) :
    prev.rec_len.toNat + target.rec_len.toNat + 12 ≤ buf.size := by
  have reach := tiles_stop tiles
  simp only [width_append, width, List.cons_append] at reach
  omega

theorem removed_laid {target_inode : UInt32} {name : List UInt8} (limit : block_size ≤ 65536) (laid : Laid block_size buf)
    (kept : name ≠ DOT ∧ name ≠ DOTDOT) (removed : erase_entry buf target_inode name = .ok buf') :
    Laid block_size buf' := by
  rcases laid.target kept with ⟨es, tiles, none⟩ | ⟨dot, before, prev, target, after, named, length, tiles, earlier, here, second⟩
  · rw [erase_entry, walk_through tiles none, liftErr_ok, res_bind_ok, okOr_none, res_bind_error] at removed
    cases removed
  · have short := neighbours_short length tiles
    have size := laid.size
    obtain ⟨out, erased, size', tiles'⟩ := erase_entry_merges tiles earlier here (by omega)
    rw [erased] at removed
    cases removed
    rw [← size'] at tiles'
    refine ⟨size'.trans size, ?_⟩
    rcases second with ⟨rfl, named'⟩ | ⟨dotdot, rest, rfl, named'⟩
    · exact ⟨dot, { prev with rec_len := prev.rec_len + target.rec_len }, after, named, length, named', tiles'⟩
    · exact ⟨dot, dotdot, _, named, length, named', tiles'⟩

/-- Every directory block starts with its two dots. -/
theorem edited_laid (known : block_size = 1024 ∨ block_size = 2048 ∨ block_size = 4096 ∨ block_size = 65536)
    (edited : Edited block_size buf) : Laid block_size buf := by
  induction edited with
  | format size laid ran =>
    subst size
    exact root_laid (by omega) (by omega) (format_writes laid ran)
  | mkdir size ran split opened made => exact mkdir_laid (by omega) (by omega) made
  | add _ added ih => exact added_laid ih added
  | remove _ kept removed ih => exact removed_laid (by omega) ih kept removed

/-! ### Which computations are exact -/

theorem insert_exact_iff {name : List UInt8} {child : UInt32} {code : UInt8} (limit : block_size ≤ 65536)
    (laid : Laid block_size buf) : (insert_lengths buf name child code).Exact ↔ name.length ≤ 65524 := by
  obtain ⟨dot, before, last, named, length, tiles, -⟩ := laid.split
  have formed := tiles_formed tiles last (by simp)
  have walked := @walk_through _ (fun _ => false) _ _ tiles (by simp)
  have reach := tiles_stop tiles
  simp only [List.cons_append, width, width_append] at reach
  have padded := formed.padded
  have short := pad4_short formed.short
  have size := laid.size
  have place : (located 0 (dot :: before ++ [last])).getLast? = some (0 + width (dot :: before), last) :=
    getLast_located 0 (dot :: before) last
  have whole : (UInt16.ofNat (pad4 (8 + last.name.length))).toNat = pad4 (8 + last.name.length) := toNat_ofNat16 (by omega)
  have narrow : pad4 (8 + name.length) < 65536 ↔ name.length ≤ 65524 := by
    rw [pad4]
    omega
  simp only [insert_lengths, Noted.exact_bind, Noted.exact_quiet, Noted.result_quiet, Noted.exact_cast, Noted.result_cast,
    Noted.exact_minus, true_and, walked, liftErr_ok, Except.ok.injEq, forall_eq', place, okOr_some, whole, Nat.zero_add]
  constructor
  · rintro ⟨-, few, -⟩
    exact narrow.mp few
  · intro few
    refine ⟨by omega, narrow.mpr few, padded, fun slack _ _ _ block_buf written => ?_⟩
    have same : block_buf.size = buf.size := encode_range_size (liftErr_eq_ok.mp written)
    rw [same]
    refine ⟨by simp only [width]; omega, fun rest left => ?_⟩
    obtain ⟨_, -, left⟩ := res_bind_eq_ok.mp left
    cases left
    simp only [width]
    exact ⟨by omega, trivial⟩

theorem erase_exact {target_inode : UInt32} {name : List UInt8} (limit : block_size ≤ 65536) (laid : Laid block_size buf)
    (kept : name ≠ DOT ∧ name ≠ DOTDOT) : (erase_lengths buf target_inode name).Exact := by
  rcases @Laid.target _ _ target_inode _ laid kept with
    ⟨es, tiles, none⟩ | ⟨dot, before, prev, target, after, named, length, tiles, earlier, here, -⟩
  · simp only [erase_lengths, Noted.exact_bind, Noted.exact_quiet, Noted.result_quiet, true_and, walk_through tiles none,
      liftErr_ok, Except.ok.injEq, forall_eq', okOr_none, reduceCtorEq, false_implies, implies_true]
  · have short := neighbours_short length tiles
    have size := laid.size
    have split : Tiles buf 0 ((dot :: before ++ [prev]) ++ target :: after) buf.size := by simpa using tiles
    have held : EntryAt buf (0 + width (dot :: before)) prev := by
      rw [tiles_append, tiles_append] at tiles
      exact tiles.1.2.1
    simp only [erase_lengths, Noted.exact_bind, Noted.exact_quiet, Noted.result_quiet, true_and, walk_to split earlier here,
      liftErr_ok, Except.ok.injEq, forall_eq', okOr_some]
    rw [getLast_located]
    simp only [Noted.exact_bind, Noted.exact_quiet, Noted.result_quiet, true_and, decode_ok held, liftErr_ok, Except.ok.injEq,
      forall_eq', Noted.exact_plus, implies_true, and_true]
    omega

theorem root_exact {config : Config} (known : 12 ≤ config.block_size.toNat ∧ config.block_size.toNat ≤ 65536) :
    (root_lengths config).Exact := by
  simp only [root_lengths, Noted.exact_bind, Noted.exact_minus, Noted.result_minus, Noted.exact_cast, Noted.exact_quiet,
    decide_eq_true known.1, orPanic_true, res_bind_ok, Except.ok.injEq, forall_eq', implies_true, and_true]
  omega
theorem mkdir_exact_iff {own parent : UInt32} (known : 1024 ≤ block_size ∧ block_size ≤ 65536) :
    (mkdir_lengths own parent block_size).Exact ↔ block_size ≠ 65536 := by
  simp only [mkdir_lengths, Noted.exact_bind, Noted.exact_minus, Noted.exact_cast, Noted.result_cast, Noted.exact_quiet,
    Except.ok.injEq, forall_eq', implies_true, and_true, UInt16.toNat_ofNat', Nat.reducePow]
  omega

/-- The arithmetic of a call on a directory block is exact when its block size
    and its name are harmless, and only then. -/
theorem lengths_exact_iff (known : block_size = 1024 ∨ block_size = 2048 ∨ block_size = 4096 ∨ block_size = 65536)
    (c : Computation) (allowed : Allowed block_size c) : (noted block_size c).Exact ↔ Harmless block_size c := by
  cases c with
  | format config => exact iff_of_true (root_exact (by rw [allowed]; omega)) trivial
  | mkdir own parent => exact mkdir_exact_iff (by omega)
  | add_dir_entry block_buf name child code => exact insert_exact_iff (by omega) (edited_laid known allowed)
  | remove_dir_entry block_buf target_inode name =>
    exact iff_of_true (erase_exact (by omega) (edited_laid known allowed.1) allowed.2) trivial
end

/-- A file is entered in the root block of the default image and removed again,
    and a name that no record can hold loses bits. -/
theorem default_lengths_exact : ∃ image buf, format (zeros 0) Config.default = .ok image ∧
    insert_entry (image.slice 24576 4096) [97] 11 1 = .ok buf ∧ (insert_lengths (image.slice 24576 4096) [97] 11 1).Exact ∧
    (erase_lengths buf 11 [97]).Exact ∧ (mkdir_lengths 12 2 4096).Exact ∧
    ¬ (insert_lengths buf (List.replicate 65525 98) 12 1).Exact := by
  have laid : Layout.from_config Config.default = .ok ⟨4096, 2, 4, 6, 7⟩ := rfl
  obtain ⟨log, dots, blocks, inodes, -, ran⟩ := format_ok laid (by decide)
  have root : Edited 4096 _ := .format rfl laid ran
  obtain ⟨-, tiles⟩ := root_tiles (by decide) (by decide) (format_writes laid ran)
  obtain ⟨buf, inserted, -⟩ := insert_entry_fits 11 1 (show Tiles _ 0 ([_] ++ [_]) _ from tiles)
    (show Fits _ [97] from ⟨by decide, by decide⟩)
  have edited : Edited 4096 buf := root.add inserted
  have known : (4096 : Nat) = 1024 ∨ 4096 = 2048 ∨ 4096 = 4096 ∨ 4096 = 65536 := by decide
  refine ⟨_, buf, ran, inserted, (lengths_exact_iff known (.add_dir_entry _ [97] 11 1) root).mpr (show 1 ≤ 65524 by decide),
    (lengths_exact_iff known (.remove_dir_entry buf 11 [97]) ⟨edited, by decide⟩).mpr trivial,
    (lengths_exact_iff known (.mkdir 12 2) trivial).mpr (show 4096 ≠ 65536 by decide), fun all => ?_⟩
  have few := (lengths_exact_iff known (.add_dir_entry buf _ 12 1) edited).mp all
  rw [Harmless, List.length_replicate] at few
  exact absurd few (by decide)

/-! ### An image with blocks of 64 KiB -/

def largeSuperblock : Superblock.Superblock := Images.plain 65536 16 8 0 8 16
def largeGroup : GroupDescriptor.GroupDescriptor := ⟨2, 3, 4, 2, 6, 1, 0, 0⟩
def largeParts : List (Nat × Bytes) :=
  [(131072, (zeros 65536).patch 0 (ofList [63])), (196608, (zeros 65536).patch 0 (ofList [255, 3])),
    (262400, Inode.record (Survey.leafInode 0x41ED 2 65536 [⟨0, 1, 5, false⟩]) 256),
    (327680, Survey.entryBytes [⟨2, 12, 2, DOT⟩, ⟨2, 65524, 2, DOTDOT⟩])]
def largeState : Filesystem :=
  ⟨Images.assembled 524288 largeSuperblock 6 [largeGroup] largeParts, largeSuperblock, [largeGroup]⟩

theorem large_opens : open_image largeState.reader = .ok largeState := by
  have assembles : Images.Assembles 524288 largeSuperblock 6 [largeGroup] largeParts := by decide +kernel
  unfold largeState
  dsimp only
  exact Images.open_assembled assembles

/-- The call has ended with a panic. -/
def panicked {σ ε α : Type} : Ended σ ε α → Bool
  | .panic => true
  | _ => false
theorem panicked_eq {σ ε α : Type} {r : Ended σ ε α} (stops : panicked r = true) : r = .panic := by
  cases r with
  | panic => rfl
  | ok _ _ => cases stops
  | err _ _ => cases stops

/-- A directory cannot be made with the largest block size. -/
theorem large_wraps : open_image largeState.reader = .ok largeState ∧ largeState.superblock.block_size = 65536 ∧
    (mkdir [SLASH, 97]).run largeState = .panic ∧ ¬ ∀ c, Allowed 65536 c → (noted 65536 c).Exact := by
  refine ⟨large_opens, rfl, ?_, fun all => ?_⟩
  · have stops : panicked ((mkdir [SLASH, 97]).run largeState) = true := by decide +kernel
    exact panicked_eq stops
  · exact (mkdir_exact_iff (by decide)).mp (all (.mkdir 11 2) trivial) rfl

end Justext4.RecordLengths
