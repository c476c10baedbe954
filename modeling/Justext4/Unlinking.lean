import Justext4.BlockEdits
import Justext4.PathSplitting
import Justext4.Shrinking

/-!
What removing an entry does to an image, step by step: the blocks of the inode
go back, then its bit, its slot is marked as deleted, the first block of the
directory is written without the entry, and last the records. On a sound image
each step leaves the places of the others alone.
-/
namespace Justext4.Unlinking
open Justext4 Justext4.Fallible Justext4.Filesystem Bytes
open Justext4.Inode (Inode)
open Justext4.Extent (Extent ExtentHeader decode_extent_node)
open Justext4.ExtentMap (Below Covers)
open Justext4.BitmapLimit (bitmap bitmapOffset capacity)
open Justext4.BlockEdits (wrote)
open Justext4.FlushedRecords (InSpans)
open Justext4.DirEntry (DirEntry encode_range_size)
open Justext4.Slots (InSlot withSlot withSlot_superblock withSlot_gdt slot_of_read write_inode_run)
open Justext4.Recounting
open Justext4.Regions
open Justext4.Releasing

/-! ### The blocks of an inode -/

/-- The runs that go back with the inode. -/
def freedRuns (inode : Inode) : List (Nat × Nat) :=
  if Inode.uses_extents inode ∧ 0 < inode.size.toNat then
    match decode_extent_node inode.block.bytes with
    | .ok (.Leaf _ es) => initialised es
    | _ => []
  else []

section
variable {fs fs' : Filesystem} {inode : Inode}

theorem free_data_ok (ran : (free_data inode).run fs = .ok () fs') : Frees fs fs' (freedRuns inode) := by
  rw [free_data] at ran
  rw [freedRuns]
  split at ran
  case isFalse =>
    cases ran
    rename_i skipped
    rw [if_neg skipped]
    exact frees_refl fs (by simp)
  rename_i based
  rw [if_pos based]
  obtain ⟨node, decoded, ran₁⟩ := lift_then_eq_ok.mp ran
  rw [liftErr_eq_ok] at decoded
  rw [decoded]
  cases node with
  | Leaf header es => exact free_runs_ok ran₁
  | Internal header indices =>
    cases ran₁
    exact frees_refl fs (by simp)
end

/-! ### The block of the directory -/

theorem erase_entry_size {buf out : Bytes} {n : UInt32} {name : List UInt8} (erased : erase_entry buf n name = .ok out) :
    out.size = buf.size := by
  rw [erase_entry] at erased
  obtain ⟨visited, -, erased⟩ := res_bind_eq_ok.mp erased
  obtain ⟨⟨target_offset, found⟩, -, erased⟩ := res_bind_eq_ok.mp erased
  dsimp only at erased
  cases last : visited.passed.getLast? with
  | none =>
    rw [last] at erased
    obtain ⟨fits, rfl⟩ := copy_inv erased
    exact size_patch _ _ _ fits
  | some pair =>
    rw [last] at erased
    obtain ⟨prev, -, erased⟩ := res_bind_eq_ok.mp erased
    obtain ⟨_, -, erased⟩ := res_bind_eq_ok.mp erased
    rw [liftErr_eq_ok] at erased
    exact encode_range_size erased

/-- The first block of a directory is one that it maps. -/
theorem first_block_inv {fs : Filesystem} {inode : Inode} {offset : Nat} {buf : Bytes}
    (held : first_block fs inode = .ok (offset, buf)) : Inode.uses_extents inode = true ∧ buf.size = fs.superblock.block_size.toNat ∧
      (0 < fs.superblock.block_size.toNat → offset + fs.superblock.block_size.toNat ≤ fs.reader.size) ∧
      ∃ ext physical, Below fs inode.block.bytes ext ∧ ext.physical_block.toNat ≤ physical ∧
        physical < ext.physical_block.toNat + ext.len.toNat ∧ offset = physical * fs.superblock.block_size.toNat ∧
        buf = blockBytes fs physical := by
  rw [first_block] at held
  obtain ⟨resolved, first, held⟩ := res_bind_eq_ok.mp held
  obtain ⟨physical, second, held⟩ := res_bind_eq_ok.mp held
  cases resolved with
  | none => cases second
  | some block =>
    cases second
    rw [resolve_logical_block] at first
    obtain ⟨_, based, first⟩ := res_bind_eq_ok.mp first
    obtain ⟨ext, below, ⟨low, high⟩, rfl⟩ := resolve_below first
    obtain ⟨rfl, inside, rfl⟩ := load_block_inv held
    exact ⟨ensure_eq_ok.mp based, size_slice _ _ _, inside, ext, _, below, by omega, by omega, rfl, rfl⟩

/-! ### The steps -/

/-- What a path names before anything is changed. -/
structure Found (fs : Filesystem) (path : List UInt8) (name : List UInt8) (p : UInt32) (parent : Inode) (n : UInt32)
    (inode : Inode) : Prop where
  opened : ∃ parent_path, split_path path = .ok (parent_path, name) ∧ open_directory fs parent_path = .ok (p, parent)
  looked : lookup fs parent name = .ok n
  read : read_inode fs n = .ok inode

/-- The blocks and the inode have gone back, and the entry is out of the directory. -/
structure Destroys (fs fs' : Filesystem) (parent : Inode) (n : UInt32) (inode : Inode) (name : List UInt8) : Prop where
  steps : ∃ mid₁ mid₂ offset pos buf buf', Frees fs mid₁ (freedRuns inode) ∧ FreesInode mid₁ mid₂ n ∧ InSlot fs n offset ∧
    first_block (withSlot mid₂ offset (deleted inode)) parent = .ok (pos, buf) ∧ erase_entry buf n name = .ok buf' ∧
    fs' = wrote (withSlot mid₂ offset (deleted inode)) pos buf'

/-- A call of `unlink` that has returned. -/
structure Unlinks (fs fs' : Filesystem) (path : List UInt8) (name : List UInt8) (p : UInt32) (parent : Inode) (n : UInt32)
    (inode : Inode) : Prop where
  found : Found fs path name p parent n inode
  plain : Inode.is_directory inode = false
  steps : ∃ mid, Destroys fs mid parent n inode name ∧ fs'.superblock = mid.superblock ∧ fs'.gdt = mid.gdt ∧
    Altered (Among mid [.superblock, .table]) mid fs'

section
variable {fs fs' : Filesystem} {path name : List UInt8} {p n : UInt32} {parent inode : Inode}

theorem destroy_ok (read : read_inode fs n = .ok inode) (ran : (destroy parent n inode name).run fs = .ok () fs') :
    Destroys fs fs' parent n inode name := by
  unfold destroy at ran
  obtain ⟨_, mid₁, first, ran₁⟩ := run_bind_eq_ok.mp ran
  obtain ⟨_, mid₂, second, ran₂⟩ := run_bind_eq_ok.mp ran₁
  obtain ⟨_, mid₃, third, ran₃⟩ := run_bind_eq_ok.mp ran₂
  have freed := free_data_ok first
  have freed' := free_inode_ok second
  obtain ⟨offset, slot, -⟩ := slot_of_read read
  have slot' := freed'.altered.inSlot (freed.altered.inSlot slot)
  obtain rfl := (Ended.ok.inj (third.symm.trans (write_inode_run slot' _))).2
  unfold remove_dir_entry at ran₃
  obtain ⟨⟨pos, buf⟩, held, ran₄⟩ := reads_then_eq_ok.mp ran₃
  obtain ⟨buf', erased, ran₅⟩ := lift_then_eq_ok.mp ran₄
  cases ran₅
  exact ⟨mid₁, mid₂, offset, pos, buf, buf', freed, freed', slot, held, erased, rfl⟩

theorem wrote_superblock (fs : Filesystem) (pos : Nat) (buf : Bytes) : (wrote fs pos buf).superblock = fs.superblock := by
  rw [wrote]
theorem wrote_gdt (fs : Filesystem) (pos : Nat) (buf : Bytes) : (wrote fs pos buf).gdt = fs.gdt := by rw [wrote]
/-- The block that is written lies inside the image. -/
theorem wrote_altered {pos : Nat} {buf buf' : Bytes} (positive : 0 < fs.superblock.block_size.toNat)
    (held : first_block fs parent = .ok (pos, buf)) (erased : erase_entry buf n name = .ok buf') :
    Altered (fun i => pos ≤ i ∧ i < pos + fs.superblock.block_size.toNat) fs (wrote fs pos buf') := by
  obtain ⟨-, sized, inside, -⟩ := first_block_inv held
  have size := erase_entry_size erased
  rw [sized] at size
  exact altered_patch (by rw [size]; exact inside positive) fun i low high => ⟨low, by rw [size] at high; exact high⟩

theorem Found.parent_read (found : Found fs path name p parent n inode) :
    (∃ q, Filesystem.open_path fs q = .ok p) ∧ read_inode fs p = .ok parent ∧ Inode.is_directory parent = true := by
  obtain ⟨parent_path, -, opened⟩ := found.opened
  rw [open_directory] at opened
  obtain ⟨q, reached, opened⟩ := res_bind_eq_ok.mp opened
  obtain ⟨parent', read, opened⟩ := res_bind_eq_ok.mp opened
  obtain ⟨_, directory, opened⟩ := res_bind_eq_ok.mp opened
  cases opened
  exact ⟨⟨parent_path, reached⟩, read, ensure_eq_ok.mp directory⟩
theorem Found.alive (found : Found fs path name p parent n inode) (consistent : ConsistentImage fs) :
    Live fs p ∧ read_inode fs p = .ok parent ∧ Inode.is_directory parent = true ∧ Live fs n := by
  obtain ⟨⟨q, reached⟩, read, directory⟩ := found.parent_read
  have live := consistent.open_path reached
  exact ⟨live, read, directory, consistent.lookup live read directory found.looked⟩
theorem Found.open_path (found : Found fs path name p parent n inode) : open_path fs path = .ok n := by
  obtain ⟨parent_path, split, opened⟩ := found.opened
  rw [((PathSplitting.splitting_agrees fs path).1 _ _ split).1, opened]
  exact found.looked

theorem flush_ok {mid : Filesystem} (flushable : Flushable mid) (ran : flush_metadata.run mid = .ok () fs') :
    fs'.superblock = mid.superblock ∧ fs'.gdt = mid.gdt ∧ Altered (Among mid [.superblock, .table]) mid fs' := by
  obtain ⟨r, flushed, records⟩ := flush_altered flushable
  obtain rfl := (Ended.ok.inj (ran.symm.trans flushed)).2
  exact ⟨rfl, rfl, records⟩
/-- Wherever the steps have written, everything else that is known of the image stays. -/
theorem Destroys.anywhere (destroys : Destroys fs fs' parent n inode name) (positive : 0 < fs.superblock.block_size.toNat) :
    Altered (fun _ => True) fs fs' := by
  obtain ⟨mid₁, mid₂, offset, pos, buf, buf', freed, freed', slot, held, erased, rfl⟩ := destroys.steps
  have first := freed.altered
  have second := freed'.altered
  have third := write_inode_altered (second.inSlot (first.inSlot slot)) (deleted inode)
  have size : (withSlot mid₂ offset (deleted inode)).superblock.block_size = fs.superblock.block_size := by
    rw [third.block_size, second.block_size, first.block_size]
  have fourth := wrote_altered (by rw [size]; exact positive) held erased
  have all : ∀ {D : Nat → Prop} i, D i → True := fun _ _ => trivial
  exact (((first.wider all).trans (second.wider all)).trans (third.wider all)).trans (fourth.wider all)
theorem Destroys.flushable (destroys : Destroys fs fs' parent n inode name) (flushable : Flushable fs)
    (positive : 0 < fs.superblock.block_size.toNat) : Flushable fs' := flushable.altered (destroys.anywhere positive)

theorem unlink_ok (flushable : Flushable fs) (positive : 0 < fs.superblock.block_size.toNat)
    (ran : (unlink path).run fs = .ok () fs') : ∃ name p parent n inode, Unlinks fs fs' path name p parent n inode := by
  unfold unlink at ran
  obtain ⟨⟨parent_path, name⟩, split, ran₁⟩ := lift_then_eq_ok.mp ran
  obtain ⟨⟨p, parent⟩, opened, ran₂⟩ := reads_then_eq_ok.mp ran₁
  obtain ⟨n, looked, ran₃⟩ := reads_then_eq_ok.mp ran₂
  obtain ⟨inode, read, ran₄⟩ := reads_then_eq_ok.mp ran₃
  obtain ⟨_, plain, ran₅⟩ := lift_then_eq_ok.mp ran₄
  obtain ⟨_, mid, sixth, last⟩ := run_bind_eq_ok.mp ran₅
  have destroys := destroy_ok read sixth
  have plain' : Inode.is_directory inode = false := by simpa using ensure_eq_ok.mp plain
  exact ⟨name, p, parent, n, inode, ⟨⟨parent_path, split, opened⟩, looked, read⟩, plain', mid, destroys,
    flush_ok (destroys.flushable flushable positive) last⟩

/-! ### On a sound image -/

/-- The positions that taking an inode out of a directory may write. -/
def destroyed (n p : UInt32) : List Use := [.blockBitmap 0, .inodeBitmap 0, .slot n, .data p]

/-- What the steps write, and the block of the directory as it was. -/
structure Apart (fs fs' : Filesystem) (p : UInt32) (parent : Inode) (n : UInt32) (inode : Inode) (name : List UInt8)
    (mid₁ mid₂ : Filesystem) (offset pos : Nat) (buf buf' : Bytes) : Prop where
  freed : Frees fs mid₁ (freedRuns inode)
  freed' : FreesInode mid₁ mid₂ n
  slot : InSlot fs n offset
  held : first_block fs parent = .ok (pos, buf)
  erased : erase_entry buf n name = .ok buf'
  wrote : fs' = wrote (withSlot mid₂ offset (deleted inode)) pos buf'
  first : Altered (Among fs [.blockBitmap 0]) fs mid₁
  second : Altered (Among fs [.inodeBitmap 0]) mid₁ mid₂
  third : Altered (Among fs [.slot n]) mid₂ (withSlot mid₂ offset (deleted inode))
  fourth : Altered (Among fs [.data p]) (withSlot mid₂ offset (deleted inode)) fs'

theorem Destroys.apart (destroys : Destroys fs fs' parent n inode name) (separate : Separate fs) (live : Live fs p)
    (read : read_inode fs p = .ok parent) (positive : 0 < fs.superblock.block_size.toNat) :
    ∃ mid₁ mid₂ offset pos buf buf', Apart fs fs' p parent n inode name mid₁ mid₂ offset pos buf buf' := by
  obtain ⟨mid₁, mid₂, offset, pos, buf, buf', freed, freed', slot, held, erased, rfl⟩ := destroys.steps
  have fixed : ∀ use : Use, use.Fixed → ∀ use' ∈ [use], use'.Fixed := by
    intro use kept use' member
    rw [List.mem_singleton.mp member]
    exact kept
  have first := freed.altered
  have second : Altered (Among fs [.inodeBitmap 0]) mid₁ mid₂ :=
    freed'.altered.wider fun i => first.among (fixed (.inodeBitmap 0) trivial)
  have slot' := second.inSlot (first.inSlot slot)
  have third : Altered (Among fs [.slot n]) mid₂ (withSlot mid₂ offset (deleted inode)) :=
    (write_inode_altered slot' (deleted inode)).wider fun i among =>
      first.among (fixed (.slot n) trivial) (second.among (fixed (.slot n) trivial) among)
  have size : (withSlot mid₂ offset (deleted inode)).superblock.block_size = fs.superblock.block_size := by
    rw [third.block_size, second.block_size, first.block_size]
  obtain ⟨based, -⟩ := first_block_inv held
  -- Nothing that is written before is part of the directory.
  have whole : Altered (Among fs [.blockBitmap 0, .inodeBitmap 0, .slot n]) fs (withSlot mid₂ offset (deleted inode)) :=
    ((first.wider fun i => among_more (by simp)).trans (second.wider fun i => among_more (by simp))).trans
      (third.wider fun i => among_more (by simp))
  have untouched : Untouched (Among fs [.blockBitmap 0, .inodeBitmap 0, .slot n]) fs parent :=
    separate.untouched live read based (by simp) (by simp)
  have held' : first_block fs parent = .ok (pos, buf) := (whole.first_block untouched).symm.trans held
  refine ⟨mid₁, mid₂, offset, pos, buf, buf', freed, freed', slot, held', erased, rfl, first, second, third, ?_⟩
  refine (wrote_altered (by rw [size]; exact positive) held erased).wider fun i inside => ?_
  obtain ⟨-, -, -, ext, physical, below, low, high, rfl, -⟩ := first_block_inv held'
  rw [size] at inside
  have before : ext.physical_block.toNat * fs.superblock.block_size.toNat ≤ physical * fs.superblock.block_size.toNat :=
    Nat.mul_le_mul_right _ low
  have behind : (physical + 1) * fs.superblock.block_size.toNat ≤
      (ext.physical_block.toNat + ext.len.toNat) * fs.superblock.block_size.toNat := Nat.mul_le_mul_right _ high
  rw [Nat.add_mul, Nat.add_mul, Nat.one_mul] at behind
  exact among_mem (List.mem_singleton.mpr rfl) (.data live read based below) (by omega) (by omega)

section
variable {mid₁ mid₂ : Filesystem} {offset pos : Nat} {buf buf' : Bytes}

theorem Apart.altered (apart : Apart fs fs' p parent n inode name mid₁ mid₂ offset pos buf buf') :
    Altered (Among fs (destroyed n p)) fs fs' :=
  (((apart.first.wider fun i => among_more (by simp [destroyed])).trans
    (apart.second.wider fun i => among_more (by simp [destroyed]))).trans
    (apart.third.wider fun i => among_more (by simp [destroyed]))).trans
    (apart.fourth.wider fun i => among_more (by simp [destroyed]))
end

/-- The bitmap stays where it is. -/
theorem Altered.bitmapOffset {D : Nat → Prop} (altered : Altered D fs fs') {gd : GroupDescriptor.GroupDescriptor}
    (found : gdt_at fs 0 = .ok gd) : bitmapOffset fs' = bitmapOffset fs := by
  obtain ⟨gd', found', _, _, _, rfl⟩ := altered.group (gdt_at_eq_ok.mp found)
  rw [BitmapLimit.bitmapOffset, BitmapLimit.bitmapOffset, gdt_at_eq_ok.mpr found', found, altered.block_size]
/-- The block that the first descriptor gives, when it is not written. -/
theorem Altered.bitmap {D : Nat → Prop} (altered : Altered D fs fs') {gd : GroupDescriptor.GroupDescriptor}
    (found : gdt_at fs 0 = .ok gd) (clear : Clear D (BitmapLimit.bitmapOffset fs) fs.superblock.block_size.toNat) :
    bitmap fs' = bitmap fs ∧ BitmapLimit.bitmapOffset fs' = BitmapLimit.bitmapOffset fs := by
  have same := Altered.bitmapOffset altered found
  exact ⟨by rw [BitmapLimit.bitmap, BitmapLimit.bitmap, same, altered.block_size, altered.slice clear], same⟩

/-- What is left when an inode has gone: the bits and the counts of its blocks and of
    itself, and a slot that is marked. -/
structure Gone (fs fs' : Filesystem) (p n : UInt32) (inode : Inode) : Prop where
  freed : ∃ mid, Frees fs mid (freedRuns inode)
  superblock : fs'.superblock =
    on_all_free_inodes (· + 1) (on_all_free_blocks (· + total (freedRuns inode)) fs.superblock)
  gdt : fs'.gdt = on_group0 (on_free_inodes (· + 1)) (on_group0 (on_free_blocks (· + total (freedRuns inode))) fs.gdt)
  number : n ≠ 0
  covered : n.toNat - 1 < capacity fs
  bits : ∀ j, Bitmap.get_bit (bitmap fs') j = (Bitmap.get_bit (bitmap fs) j && !decide (InSpans (freedRuns inode) j))
  inodeBits : ∃ gd, gdt_at fs 0 = .ok gd ∧ ∀ j, Bitmap.get_bit (blockBytes fs' gd.inode_bitmap.toNat) j =
    (Bitmap.get_bit (blockBytes fs gd.inode_bitmap.toNat) j && !decide (j = n.toNat - 1))
  altered : Altered (Among fs (destroyed n p ++ [.superblock, .table])) fs fs'
  read : read_inode fs' n = .ok (deleted inode)

/-- What is not written reads the same as a block. -/
theorem Altered.blockBytes {D : Nat → Prop} (altered : Altered D fs fs') {block : Nat}
    (clear : Clear D (block * fs.superblock.block_size.toNat) fs.superblock.block_size.toNat) :
    blockBytes fs' block = blockBytes fs block := by
  rw [Regions.blockBytes, Regions.blockBytes, altered.block_size, altered.slice clear]

theorem Unlinks.gone (unlinks : Unlinks fs fs' path name p parent n inode) (consistent : ConsistentImage fs)
    (positive : 0 < fs.superblock.block_size.toNat) : Gone fs fs' p n inode := by
  have separate : Separate fs := consistent.separate
  obtain ⟨live, read, -, -⟩ := unlinks.found.alive consistent
  obtain ⟨mid, destroys, superblock, gdt, flushed⟩ := unlinks.steps
  obtain ⟨mid₁, mid₂, offset, pos, buf, buf', apart⟩ := destroys.apart separate live read positive
  have whole := apart.altered
  have flushed : Altered (Among fs [.superblock, .table]) mid fs' :=
    flushed.wider fun i => whole.among (by simp [Use.Fixed])
  obtain ⟨gd₁, found₁, inodeBits⟩ := apart.freed'.bits
  obtain ⟨gd, found, _, _, _, rfl⟩ := apart.first.group_before (gdt_at_eq_ok.mp found₁)
  have size₁ := apart.first.block_size
  have size₂ := apart.second.block_size
  -- What is written after the bitmap of blocks, and after that of inodes.
  have later : Altered (Among fs ([.inodeBitmap 0, .slot n, .data p, .superblock, .table])) mid₁ fs' :=
    (((apart.second.wider fun i => among_more (by simp)).trans (apart.third.wider fun i => among_more (by simp))).trans
      (apart.fourth.wider fun i => among_more (by simp))).trans (flushed.wider fun i => among_more (by simp))
  have last : Altered (Among fs ([.slot n, .data p, .superblock, .table])) mid₂ fs' :=
    ((apart.third.wider fun i => among_more (by simp)).trans (apart.fourth.wider fun i => among_more (by simp))).trans
      (flushed.wider fun i => among_more (by simp))
  refine ⟨⟨mid₁, apart.freed⟩, ?_, ?_, apart.freed'.number, ?_, fun j => ?_, ⟨gd, gdt_at_eq_ok.mpr found, fun j => ?_⟩, ?_, ?_⟩
  · rw [superblock, apart.wrote, wrote_superblock, withSlot_superblock, apart.freed'.superblock, apart.freed.superblock]
  · rw [gdt, apart.wrote, wrote_gdt, withSlot_gdt, apart.freed'.gdt, apart.freed.gdt]
  · have inside := apart.freed'.inside
    rwa [apart.freed.capacity] at inside
  · have offset₁ : bitmapOffset mid₁ = gd.block_bitmap.toNat * fs.superblock.block_size.toNat := by
      rw [bitmapOffset, found₁, size₁]
    rw [(Altered.bitmap later found₁ (by
      rw [offset₁, size₁]
      exact separate.clear (.blockBitmap found) (by simp))).1]
    exact apart.freed.bits j
  · have kept : blockBytes fs' gd.inode_bitmap.toNat = blockBytes mid₂ gd.inode_bitmap.toNat := by
      refine Altered.blockBytes last ?_
      rw [size₂, size₁]
      exact separate.clear (.inodeBitmap found) (by simp)
    have kept₁ : blockBytes mid₁ gd.inode_bitmap.toNat = blockBytes fs gd.inode_bitmap.toNat :=
      Altered.blockBytes apart.first (separate.clear (.inodeBitmap found) (by simp))
    rw [kept, ← kept₁]
    exact inodeBits j
  · exact (whole.wider fun i => among_more (by simp [destroyed])).trans (flushed.wider fun i => among_more (by simp))
  · have inode_size : mid₂.superblock.inode_size = fs.superblock.inode_size := by
      rw [apart.freed'.superblock, apart.freed.superblock]
      rfl
    have slot' := apart.second.inSlot (apart.first.inSlot apart.slot)
    refine read_written (D := Among fs [.data p, .superblock, .table]) slot' (deleted inode)
      ((apart.fourth.wider fun i => among_more (by simp)).trans (flushed.wider fun i => among_more (by simp))) ?_
    rw [inode_size]
    exact separate.clear (.slot apart.slot.number apart.slot.found) (by simp)

/-- What a removal writes besides the records: one block of the directory, without the
    entry. -/
theorem Unlinks.block (unlinks : Unlinks fs fs' path name p parent n inode) (consistent : ConsistentImage fs)
    (positive : 0 < fs.superblock.block_size.toNat) : ∃ pos buf buf', first_block fs parent = .ok (pos, buf) ∧
      erase_entry buf n name = .ok buf' ∧ fs'.reader.slice pos fs.superblock.block_size.toNat = buf' ∧
      Altered (fun i => Among fs [.blockBitmap 0, .inodeBitmap 0, .slot n, .superblock, .table] i ∨
        (pos ≤ i ∧ i < pos + fs.superblock.block_size.toNat)) fs fs' := by
  have separate : Separate fs := consistent.separate
  obtain ⟨live, read, -, -⟩ := unlinks.found.alive consistent
  obtain ⟨mid, destroys, superblock, gdt, flushed⟩ := unlinks.steps
  obtain ⟨mid₁, mid₂, offset, pos, buf, buf', apart⟩ := destroys.apart separate live read positive
  have flushed : Altered (Among fs [.superblock, .table]) mid fs' :=
    flushed.wider fun i => apart.altered.among (by simp [Use.Fixed])
  obtain ⟨based, sized, inside, ext, physical, below, low, high, place, -⟩ := first_block_inv apart.held
  have size₃ : (withSlot mid₂ offset (deleted inode)).superblock.block_size = fs.superblock.block_size := by
    rw [apart.third.block_size, apart.second.block_size, apart.first.block_size]
  have length : buf'.size = fs.superblock.block_size.toNat := (erase_entry_size apart.erased).trans sized
  have kept : (withSlot mid₂ offset (deleted inode)).reader.size = fs.reader.size := by
    rw [apart.third.size, apart.second.size, apart.first.size]
  refine ⟨pos, buf, buf', apart.held, apart.erased, ?_, ?_⟩
  · have clear : Clear (Among fs [.superblock, .table]) pos fs.superblock.block_size.toNat := by
      have whole := separate.clear (.data live read based below) (show Use.data p ∉ [.superblock, .table] by simp)
      have before := Nat.mul_le_mul_right fs.superblock.block_size.toNat low
      have behind := Nat.mul_le_mul_right fs.superblock.block_size.toNat (Nat.succ_le_of_lt high)
      rw [Nat.succ_mul, Nat.add_mul] at behind
      exact fun i first last => whole i (by omega) (by omega)
    rw [flushed.slice clear, apart.wrote, wrote]
    have same := slice_patch_same (withSlot mid₂ offset (deleted inode)).reader buf' pos
    rwa [length] at same
  · have last : Altered (fun i => pos ≤ i ∧ i < pos + fs.superblock.block_size.toNat)
        (withSlot mid₂ offset (deleted inode)) mid := by
      rw [apart.wrote]
      exact altered_patch (by rw [length, kept]; exact inside positive) fun i first last => ⟨first, by omega⟩
    exact ((((apart.first.wider fun i among => .inl (among_more (by simp) among)).trans
      (apart.second.wider fun i among => .inl (among_more (by simp) among))).trans
      (apart.third.wider fun i among => .inl (among_more (by simp) among))).trans
      (last.wider fun i block => .inr block)).trans (flushed.wider fun i among => .inl (among_more (by simp) among))
end

end Justext4.Unlinking
