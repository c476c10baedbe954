import Justext4.Create
import Justext4.Unlinking

/-!
What a creation does to an image, step by step: a bit of the inodes is taken
and a run of the blocks, the slot of the inode and the blocks are written, then
the entry of the directory and last the records. The run is numbered as the
bits are, from 0 on, whatever block the first bit stands for.
-/
namespace Justext4.Creating
open Justext4 Justext4.Fallible Justext4.Filesystem Bytes
open Justext4.Inode (Inode)
open Justext4.DirEntry (DirEntry encode_range encode_range_size)
open Justext4.Extent (Extent ExtentHeader decode_extent_node)
open Justext4.BitmapLimit (bitmap bitmapOffset capacity)
open Justext4.BlockEdits (wrote)
open Justext4.Slots (InSlot withSlot withSlot_superblock withSlot_gdt write_inode_run)
open Justext4.Recounting
open Justext4.Create (under create_file_at mkdir_at create_file_eq mkdir_eq file_inode dir_inode file_blocks size_file_blocks)
open Justext4.Runs (run runs)
open Justext4.Regions
open Justext4.Releasing
open Justext4.Volumes (le_div_ceil)
open Justext4.Unlinking (first_block_inv flush_ok)

/-! ### The bits that are taken -/

/-- The bits of a run that was clear are set, and nothing else but the counts is changed. -/
structure TakesRun (fs fs' : Filesystem) (start count : Nat) : Prop where
  altered : Altered (Among fs [.blockBitmap 0]) fs fs'
  inside : 0 < count → start + count ≤ fs.superblock.blocks_count.toNat ∧ start + count ≤ capacity fs
  clear : ∀ j, start ≤ j → j < start + count → Bitmap.get_bit (bitmap fs) j = false
  bits : ∀ j, Bitmap.get_bit (bitmap fs') j = (Bitmap.get_bit (bitmap fs) j || decide (start ≤ j ∧ j < start + count))

section
variable {fs fs' : Filesystem} {n : UInt32} {start count : Nat}

/-- A block that is loaded and written back with the same size lies in the image. -/
theorem patched_block {block : Nat} {buf : Bytes} {use : Use} {blocks : UInt64} {inodes : UInt32}
    {f : GroupDescriptor.GroupDescriptor → GroupDescriptor.GroupDescriptor}
    (occupies : Occupies fs use (block * fs.superblock.block_size.toNat) fs.superblock.block_size.toNat)
    (inside : block * fs.superblock.block_size.toNat + fs.superblock.block_size.toNat ≤ fs.reader.size)
    (size : buf.size = fs.superblock.block_size.toNat) (same : ∀ gd, SameGroup gd (f gd)) :
    Altered (Among fs [use]) fs
      { reader := fs.reader.patch (block * fs.superblock.block_size.toNat) buf
        superblock := { fs.superblock with free_blocks_count := blocks, free_inodes_count := inodes }
        gdt := on_group0 f fs.gdt } := by
  refine ⟨⟨_, _, rfl⟩, forall₂_on_group0 same _, size_patch _ _ _ (by rw [size]; exact inside), fun i out => ?_⟩
  refine byte_patch_outside _ ?_
  refine Decidable.byContradiction fun within => out ?_
  exact among_mem (List.mem_singleton.mpr rfl) occupies (by omega) (by omega)

theorem set_run_inv {buf buf' : Bytes} {start count : Nat}
    (set : (Bitmap.set_run buf start count : Res Ext4Error Bytes) = .ok buf') (some : 0 < count) :
    start + count ≤ 8 * buf.size ∧ buf'.size = buf.size ∧
      ∀ j, Bitmap.get_bit buf' j = (Bitmap.get_bit buf j || decide (start ≤ j ∧ j < start + count)) := by
  by_cases inside : start + count ≤ 8 * buf.size
  · obtain ⟨buf'', ran, size, bits⟩ := Bitmap.set_run_ok (ε := Ext4Error) buf start count inside
    cases set.symm.trans ran
    exact ⟨inside, size, bits⟩
  · rw [Bitmap.set_run_panic buf start some (Nat.lt_of_not_le inside)] at set
    cases set

theorem allocate_inode_ok (ran : allocate_inode.run fs = .ok n fs') (positive : 0 < fs.superblock.block_size.toNat) :
    Altered (Among fs [.inodeBitmap 0]) fs fs' := by
  unfold allocate_inode at ran
  obtain ⟨gd, found, ran₁⟩ := reads_then_eq_ok.mp ran
  obtain ⟨⟨offset, buf⟩, loaded, ran₂⟩ := reads_then_eq_ok.mp ran₁
  obtain ⟨bit, -, ran₃⟩ := reads_then_eq_ok.mp ran₂
  obtain ⟨buf', set, ran₄⟩ := lift_then_eq_ok.mp ran₃
  cases ran₄
  obtain ⟨rfl, inside, rfl⟩ := load_block_inv loaded
  have size : buf'.size = fs.superblock.block_size.toNat := by
    by_cases within : bit < 8 * (blockBytes fs gd.inode_bitmap.toNat).size
    · obtain ⟨_, ran, size, -⟩ := Bitmap.set_bit_ok (ε := Ext4Error) _ bit within
      cases set.symm.trans ran
      exact size
    · rw [Bitmap.set_bit_panic (Nat.le_of_not_lt within)] at set
      cases set
  exact patched_block (.inodeBitmap (gdt_at_eq_ok.mp found)) (inside positive) size fun _ => ⟨_, _, _, rfl⟩

theorem allocate_blocks_ok (ran : (allocate_blocks_contiguous count).run fs = .ok start fs')
    (positive : 0 < fs.superblock.block_size.toNat) : TakesRun fs fs' start count := by
  unfold allocate_blocks_contiguous at ran
  split at ran
  · rename_i none
    cases ran
    subst none
    refine ⟨altered_refl _ _, fun some => absurd some (Nat.lt_irrefl 0), fun j low high => by omega, fun j => ?_⟩
    rw [decide_eq_false (by omega), Bool.or_false]
  rename_i some
  obtain ⟨gd, found, ran₁⟩ := reads_then_eq_ok.mp ran
  obtain ⟨⟨offset, buf⟩, loaded, ran₂⟩ := reads_then_eq_ok.mp ran₁
  obtain ⟨at_, searched, ran₃⟩ := reads_then_eq_ok.mp ran₂
  obtain ⟨buf', set, ran₄⟩ := lift_then_eq_ok.mp ran₃
  cases ran₄
  obtain ⟨rfl, inside, rfl⟩ := load_block_inv loaded
  obtain ⟨place, content⟩ := bitmap_first found
  obtain ⟨limit, size, bits⟩ := set_run_inv set (Nat.pos_of_ne_zero some)
  have length : buf'.size = fs.superblock.block_size.toNat := size
  have correct := Bitmap.find_first_zero_run_correct (blockBytes fs gd.block_bitmap.toNat) (Nat.pos_of_ne_zero some)
    fs.superblock.blocks_count.toNat
  cases result : Bitmap.find_first_zero_run (blockBytes fs gd.block_bitmap.toNat) count
      fs.superblock.blocks_count.toNat with
  | none =>
    rw [result] at searched
    cases searched
  | some run =>
    rw [result] at searched correct
    cases searched
    obtain ⟨fits, zero, -⟩ := correct
    refine ⟨patched_block (.blockBitmap (gdt_at_eq_ok.mp found)) (inside positive) length fun _ => ⟨_, _, _, rfl⟩,
      fun _ => ⟨fits, limit⟩, fun j low high => by rw [content]; exact zero j low high, fun j => ?_⟩
    have moved := congrArg (fs.reader.patch · buf') place.symm
    refine Eq.trans (b := Bitmap.get_bit buf' j) (congrArg (Bitmap.get_bit · j)
      (@bitmap_patched fs _ (on_free_blocks (· - count)) _ length (fun _ => rfl) rfl rfl moved)) ?_
    rw [bits, content]
end

/-! ### The slot and the entry -/

/-- The places that inodes have in the table lie in the image. -/
def Placed (fs : Filesystem) : Prop :=
  ∀ {use : Use} {start len : Nat}, Occupies fs use start len → start + len ≤ fs.reader.size

section
variable {fs fs' : Filesystem} {n : UInt32} {inode parent : Inode} {name : List UInt8} {code : UInt8}

theorem write_inode_ok (placed : ∀ offset, n ≠ 0 ∧ n ≤ fs.superblock.inodes_count → inode_offset fs n = .ok offset →
      offset + fs.superblock.inode_size.toNat ≤ fs.reader.size) (ran : (write_inode n inode).run fs = .ok () fs') :
    ∃ offset, InSlot fs n offset ∧ fs' = withSlot fs offset inode := by
  have written := ran
  unfold write_inode at ran
  obtain ⟨_, number, ran₁⟩ := reads_then_eq_ok.mp ran
  obtain ⟨offset, found, ran₂⟩ := reads_then_eq_ok.mp ran₁
  obtain ⟨buf, s₃, third, -⟩ := run_bind_eq_ok.mp ran₂
  obtain ⟨encoded, rfl⟩ := run_reads_eq_ok.mp third
  have number := of_decide_eq_true (ensure_eq_ok.mp number)
  have slot : InSlot s₃ n offset := by
    refine ⟨number, ?_, ?_, found, placed offset number found, ?_⟩
    · rw [inode_offset] at found
      obtain ⟨_, some, -⟩ := res_bind_eq_ok.mp found
      exact of_decide_eq_true (orPanic_eq_ok.mp some)
    · rw [inode_offset] at found
      obtain ⟨_, -, found⟩ := res_bind_eq_ok.mp found
      obtain ⟨gd, listed, -⟩ := res_bind_eq_ok.mp found
      exact (List.getElem?_eq_some_iff.mp (gdt_at_eq_ok.mp listed)).1
    · rw [liftErr_eq_ok, Inode.encode_into] at encoded
      obtain ⟨_, sized, -⟩ := res_bind_eq_ok.mp encoded
      exact of_decide_eq_true (ensure_eq_ok.mp sized)
  exact ⟨offset, slot, (Ended.ok.inj (written.symm.trans (write_inode_run slot inode))).2⟩

theorem insert_entry_size {buf out : Bytes} (inserted : insert_entry buf name n code = .ok out) : out.size = buf.size := by
  rw [insert_entry] at inserted
  obtain ⟨visited, -, inserted⟩ := res_bind_eq_ok.mp inserted
  obtain ⟨⟨last_offset, last⟩, -, inserted⟩ := res_bind_eq_ok.mp inserted
  obtain ⟨_, -, inserted⟩ := res_bind_eq_ok.mp inserted
  obtain ⟨_, -, inserted⟩ := res_bind_eq_ok.mp inserted
  obtain ⟨mid, first, inserted⟩ := res_bind_eq_ok.mp inserted
  obtain ⟨_, -, inserted⟩ := res_bind_eq_ok.mp inserted
  rw [liftErr_eq_ok] at first inserted
  exact (encode_range_size inserted).trans (encode_range_size first)
theorem add_dir_entry_ok (ran : (add_dir_entry parent name n code).run fs = .ok () fs') :
    ∃ pos buf buf', first_block fs parent = .ok (pos, buf) ∧ buf'.size = buf.size ∧ fs' = wrote fs pos buf' := by
  unfold add_dir_entry at ran
  obtain ⟨⟨pos, buf⟩, held, ran₁⟩ := reads_then_eq_ok.mp ran
  obtain ⟨buf', inserted, ran₂⟩ := lift_then_eq_ok.mp ran₁
  cases ran₂
  exact ⟨pos, buf, buf', held, insert_entry_size inserted, rfl⟩
theorem under_ok {α : Type} {a : α} {path : List UInt8} {next : UInt32 → Inode → List UInt8 → Call α}
    (ran : (under path next).run fs = .ok a fs') : ∃ parent_path name p parent, split_path path = .ok (parent_path, name) ∧
      open_directory fs parent_path = .ok (p, parent) ∧ (next p parent name).run fs = .ok a fs' := by
  unfold under at ran
  obtain ⟨⟨parent_path, name⟩, split, ran₁⟩ := lift_then_eq_ok.mp ran
  obtain ⟨⟨p, parent⟩, opened, ran₂⟩ := reads_then_eq_ok.mp ran₁
  obtain ⟨_, -, ran₃⟩ := reads_then_eq_ok.mp ran₂
  exact ⟨parent_path, name, p, parent, split, opened, ran₃⟩
end

/-! ### The steps -/

/-- An inode and a run of `count` blocks are taken, the slot and the blocks are written,
    and the first block of the directory. -/
structure Prepares (fs mid : Filesystem) (parent : Inode) (n : UInt32) (inode : Inode) (start count : Nat) : Prop where
  encoded : i_block (runs start count) = .ok inode.block
  steps : ∃ mid₁ mid₂ offset data pos buf buf', Altered (Among fs [.inodeBitmap 0]) fs mid₁ ∧
    TakesRun mid₁ mid₂ start (count % 4294967296) ∧ InSlot mid₂ n offset ∧
    data.size = count * fs.superblock.block_size.toNat ∧
    first_block (wrote (withSlot mid₂ offset inode) (start * fs.superblock.block_size.toNat) data) parent = .ok (pos, buf) ∧
    buf'.size = buf.size ∧
    mid = wrote (wrote (withSlot mid₂ offset inode) (start * fs.superblock.block_size.toNat) data) pos buf'
/-- After that only the slot of the directory and the records. -/
structure Creates (fs fs' : Filesystem) (p : UInt32) (parent : Inode) (n : UInt32) (inode : Inode) (start count : Nat) :
    Prop where
  steps : ∃ mid, Prepares fs mid parent n inode start count ∧ Altered (Among mid [.slot p, .superblock, .table]) mid fs'

section
variable {fs fs' : Filesystem} {n p : UInt32} {inode parent : Inode} {start count : Nat}

theorem Placed.slot {D : Nat → Prop} (altered : Altered D fs fs') (placed : Placed fs) (n : UInt32) (offset : Nat)
    (number : n ≠ 0 ∧ n ≤ fs'.superblock.inodes_count) (found : inode_offset fs' n = .ok offset) :
    offset + fs'.superblock.inode_size.toNat ≤ fs'.reader.size := by
  obtain ⟨blocks, inodes, same⟩ := altered.superblock
  rw [same] at number ⊢
  rw [altered.inode_offset] at found
  rw [altered.size]
  exact placed (.slot number found)

/-- The positions of the run. -/
def InRun (fs : Filesystem) (start count : Nat) (i : Nat) : Prop :=
  start * fs.superblock.block_size.toNat ≤ i ∧ i < (start + count) * fs.superblock.block_size.toNat
theorem run_altered {data : Bytes} (sized : data.size = count * fs.superblock.block_size.toNat)
    (inside : 0 < count → (start + count) * fs.superblock.block_size.toNat ≤ fs.reader.size) :
    Altered (InRun fs start count) fs (wrote fs (start * fs.superblock.block_size.toNat) data) := by
  have stop : (start + count) * fs.superblock.block_size.toNat = start * fs.superblock.block_size.toNat + data.size := by
    rw [sized, Nat.add_mul]
  by_cases some : 0 < count
  · refine altered_patch ?_ fun i low high => ⟨low, ?_⟩
    · rw [← stop]
      exact inside some
    · rw [stop]
      exact high
  · -- Nothing is written, wherever the run would be.
    have none : data.size = 0 := by rw [sized, show count = 0 by omega, Nat.zero_mul]
    refine ⟨⟨_, _, rfl⟩, List.forall₂_same.mpr fun gd _ => sameGroup_refl gd, ?_, fun i _ => byte_patch_outside _ (by omega)⟩
    show (fs.reader.patch _ data).size = _
    rw [patch]
    exact if_pos none
theorem block_altered {pos : Nat} {buf buf' : Bytes} (positive : 0 < fs.superblock.block_size.toNat)
    (held : first_block fs parent = .ok (pos, buf)) (size : buf'.size = buf.size) :
    Altered (fun i => pos ≤ i ∧ i < pos + fs.superblock.block_size.toNat) fs (wrote fs pos buf') := by
  obtain ⟨-, sized, inside, -⟩ := first_block_inv held
  rw [sized] at size
  exact altered_patch (by rw [size]; exact inside positive) fun i low high => ⟨low, by rw [size] at high; exact high⟩

/-- Wherever the steps have written, everything else that is known of the image stays. -/
theorem Prepares.anywhere {mid : Filesystem} (prepares : Prepares fs mid parent n inode start count)
    (positive : 0 < fs.superblock.block_size.toNat) (few : count < 4294967296)
    (whole : fs.superblock.blocks_count.toNat * fs.superblock.block_size.toNat ≤ fs.reader.size) :
    Altered (fun _ => True) fs mid := by
  obtain ⟨mid₁, mid₂, offset, data, pos, buf, buf', first, takes, slot, sized, held, size, rfl⟩ := prepares.steps
  have all : ∀ {D : Nat → Prop} i, D i → True := fun _ _ => trivial
  have third : Altered (fun _ => True) fs (withSlot mid₂ offset inode) :=
    ((first.wider all).trans (takes.altered.wider all)).trans ((write_inode_altered slot inode).wider all)
  have same := third.block_size
  have fourth : Altered (fun _ => True) (withSlot mid₂ offset inode)
      (wrote (withSlot mid₂ offset inode) (start * fs.superblock.block_size.toNat) data) := by
    rw [← same] at sized ⊢
    refine (run_altered sized fun some => ?_).wider all
    rw [same, third.size]
    obtain ⟨inside, -⟩ := takes.inside (by rw [Nat.mod_eq_of_lt few]; exact some)
    obtain ⟨_, _, counted⟩ := first.superblock
    rw [Nat.mod_eq_of_lt few, counted] at inside
    exact Nat.le_trans (Nat.mul_le_mul_right _ inside) whole
  have so_far := third.trans fourth
  exact so_far.trans ((block_altered (by rw [so_far.block_size]; exact positive) held size).wider all)

theorem wrote_nothing (fs : Filesystem) (pos : Nat) : wrote fs pos (zeros 0) = fs := by
  have same : fs.reader.patch pos (zeros 0) = fs.reader := ext_inside rfl fun i _ => byte_patch_outside _ (by
    rw [size_zeros]
    omega)
  rw [wrote, same]

/-- The image can be created in: it is opened, and what it uses lies in it. -/
structure Roomy (fs : Filesystem) : Prop where
  positive : 0 < fs.superblock.block_size.toNat
  flushable : Flushable fs
  placed : Placed fs
  whole : fs.superblock.blocks_count.toNat * fs.superblock.block_size.toNat ≤ fs.reader.size

theorem file_based (size block_size num_blocks : Nat) (block : FixedBytes 60) :
    Inode.uses_extents (file_inode size block_size num_blocks block) = true := by
  unfold Inode.uses_extents file_inode
  dsimp only
  decide
theorem dir_based (block_size : Nat) (block : FixedBytes 60) : Inode.uses_extents (dir_inode block_size block) = true := by
  unfold Inode.uses_extents dir_inode
  dsimp only
  decide

theorem create_file_ok (roomy : Roomy fs) {path : List UInt8} {data : Bytes}
    (few : div_ceil data.size fs.superblock.block_size.toNat < 4294967296) (ran : (create_file path data).run fs = .ok n fs') :
    ∃ parent_path name p parent start inode, split_path path = .ok (parent_path, name) ∧
      open_directory fs parent_path = .ok (p, parent) ∧ Inode.uses_extents inode = true ∧
      Creates fs fs' p parent n inode start (div_ceil data.size fs.superblock.block_size.toNat) := by
  have positive := roomy.positive
  rw [create_file_eq] at ran
  obtain ⟨parent_path, name, p, parent, split, opened, ran⟩ := under_ok ran
  unfold create_file_at at ran
  obtain ⟨block_size, sized, ran₁⟩ := reads_then_eq_ok.mp ran
  cases sized
  obtain ⟨n', mid₁, second, ran₂⟩ := run_bind_eq_ok.mp ran₁
  have taken := allocate_inode_ok second positive
  obtain ⟨start, mid₂, third, ran₃⟩ := run_bind_eq_ok.mp ran₂
  have takes := allocate_blocks_ok third (by rw [taken.block_size]; exact positive)
  obtain ⟨block, encoded, ran₄⟩ := lift_then_eq_ok.mp ran₃
  obtain ⟨_, mid₃, fifth, ran₅⟩ := run_bind_eq_ok.mp ran₄
  have all : ∀ {D : Nat → Prop} i, D i → True := fun _ _ => trivial
  have both : Altered (fun _ => True) fs mid₂ := (taken.wider all).trans (takes.altered.wider all)
  obtain ⟨offset, slot, rfl⟩ := write_inode_ok (Placed.slot both roomy.placed _) fifth
  -- The data is written when there is some, then the entry and the records.
  have rest : ∃ written mid, written.size = div_ceil data.size fs.superblock.block_size.toNat * fs.superblock.block_size.toNat ∧
      (add_dir_entry parent name n' 1).run (wrote (withSlot mid₂ offset (file_inode data.size fs.superblock.block_size.toNat
        (div_ceil data.size fs.superblock.block_size.toNat) block)) (start * fs.superblock.block_size.toNat) written) =
        .ok () mid ∧ (do flush_metadata; pure n' : Call UInt32).run mid = .ok n fs' := by
    by_cases some : 0 < div_ceil data.size fs.superblock.block_size.toNat
    · rw [if_pos some] at ran₅
      obtain ⟨buf, copied, ran₆⟩ := lift_then_eq_ok.mp ran₅
      obtain ⟨fits, rfl⟩ := copy_inv copied
      obtain ⟨at_, placed, ran₇⟩ := lift_then_eq_ok.mp ran₆
      rw [in_u64] at placed
      split at placed
      case isFalse => cases placed
      cases placed
      obtain ⟨_, s₅, eighth, ran₈⟩ := run_bind_eq_ok.mp ran₇
      cases eighth
      obtain ⟨_, mid, ninth, ran₉⟩ := run_bind_eq_ok.mp ran₈
      exact ⟨_, mid, size_patch _ _ _ fits, ninth, ran₉⟩
    · rw [if_neg some] at ran₅
      have none : div_ceil data.size fs.superblock.block_size.toNat = 0 := by omega
      obtain ⟨_, mid, ninth, ran₉⟩ := run_bind_eq_ok.mp ran₅
      refine ⟨zeros 0, mid, by rw [none, Nat.zero_mul, size_zeros], ?_, ran₉⟩
      rw [wrote_nothing]
      exact ninth
  obtain ⟨written, mid, sized, entered, last⟩ := rest
  obtain ⟨pos, buf, buf', held, size, rfl⟩ := add_dir_entry_ok entered
  obtain ⟨_, s₆, flushed, ended⟩ := run_bind_eq_ok.mp last
  cases ended
  have prepares : Prepares fs _ parent n _ start (div_ceil data.size fs.superblock.block_size.toNat) :=
    ⟨encoded, _, _, _, _, _, _, _, taken, takes, slot, sized, held, size, rfl⟩
  refine ⟨parent_path, name, p, parent, start, _, split, opened, ?_, _, prepares, ?_⟩
  · exact file_based _ _ _ _
  · have anywhere := prepares.anywhere positive few roomy.whole
    exact (flush_ok (roomy.flushable.altered anywhere) flushed).2.2.wider fun i => among_more (by simp)

/-- The end of `mkdir`: the directory above gets a link, and the records are written. -/
def mkdir_end (p : UInt32) (parent : Inode) (n : UInt32) : Call UInt32 := do
  lift (orPanic (parent.links_count.toNat + 1 < 65536))
  write_inode p { parent with links_count := .ofNat (parent.links_count.toNat + 1) }
  reads fun fs => do
    let gd ← gdt_at fs 0
    orPanic (gd.used_dirs_count.toNat + 1 < 4294967296)
  change_gdt0 (on_used_dirs (· + 1))
  flush_metadata
  pure n
theorem mkdir_end_ok {m : UInt32} (flushable : Flushable fs) (placed : ∀ offset, p ≠ 0 ∧ p ≤ fs.superblock.inodes_count →
      inode_offset fs p = .ok offset → offset + fs.superblock.inode_size.toNat ≤ fs.reader.size)
    (ran : (mkdir_end p parent n).run fs = .ok m fs') : m = n ∧ Altered (Among fs [.slot p, .superblock, .table]) fs fs' := by
  unfold mkdir_end at ran
  obtain ⟨_, -, ran₁⟩ := lift_then_eq_ok.mp ran
  obtain ⟨_, mid₁, second, ran₂⟩ := run_bind_eq_ok.mp ran₁
  obtain ⟨offset, slot, same⟩ := write_inode_ok placed second
  have written := write_inode_altered slot { parent with links_count := .ofNat (parent.links_count.toNat + 1) }
  rw [← same] at written
  obtain ⟨_, -, ran₃⟩ := reads_then_eq_ok.mp ran₂
  obtain ⟨_, mid₂, fourth, ran₄⟩ := run_bind_eq_ok.mp ran₃
  rw [change_gdt0, run_change] at fourth
  obtain ⟨-, changed⟩ := Ended.ok.inj fourth
  have counted : Altered (fun _ => False) mid₁ mid₂ := by
    rw [← changed]
    exact ⟨⟨_, _, rfl⟩, forall₂_on_group0 (fun _ => ⟨_, _, _, rfl⟩) _, rfl, fun _ _ => rfl⟩
  obtain ⟨_, s₃, flushed, ended⟩ := run_bind_eq_ok.mp ran₄
  rw [run_pure] at ended
  obtain ⟨rfl, rfl⟩ := Ended.ok.inj ended
  have recorded := (flush_ok ((flushable.altered written).altered counted) flushed).2.2
  have once : Altered (Among fs [.slot p, .superblock, .table]) fs mid₁ := written.wider fun i => among_more (by simp)
  have twice := once.trans (counted.wider fun i no => no.elim)
  have fixed : ∀ use ∈ [Use.superblock, Use.table], use.Fixed := by simp [Use.Fixed]
  exact ⟨rfl, twice.trans (recorded.wider fun i among => among_more (by simp) (twice.among fixed among))⟩

theorem mkdir_ok (roomy : Roomy fs) {path : List UInt8} (ran : (mkdir path).run fs = .ok n fs') :
    ∃ parent_path name p parent start inode, split_path path = .ok (parent_path, name) ∧
      open_directory fs parent_path = .ok (p, parent) ∧ Inode.uses_extents inode = true ∧
      Creates fs fs' p parent n inode start 1 := by
  have positive := roomy.positive
  rw [mkdir_eq] at ran
  obtain ⟨parent_path, name, p, parent, split, opened, ran⟩ := under_ok ran
  unfold mkdir_at at ran
  obtain ⟨block_size, sized, ran₁⟩ := reads_then_eq_ok.mp ran
  cases sized
  obtain ⟨n', mid₁, second, ran₂⟩ := run_bind_eq_ok.mp ran₁
  have taken := allocate_inode_ok second positive
  obtain ⟨start, mid₂, third, ran₃⟩ := run_bind_eq_ok.mp ran₂
  have takes := allocate_blocks_ok third (by rw [taken.block_size]; exact positive)
  obtain ⟨block, encoded, ran₄⟩ := lift_then_eq_ok.mp ran₃
  obtain ⟨_, mid₃, fifth, ran₅⟩ := run_bind_eq_ok.mp ran₄
  have all : ∀ {D : Nat → Prop} i, D i → True := fun _ _ => trivial
  have both : Altered (fun _ => True) fs mid₂ := (taken.wider all).trans (takes.altered.wider all)
  obtain ⟨offset, slot, rfl⟩ := write_inode_ok (Placed.slot both roomy.placed _) fifth
  obtain ⟨_, -, ran₆⟩ := lift_then_eq_ok.mp ran₅
  obtain ⟨dot, dotted, ran₇⟩ := lift_then_eq_ok.mp ran₆
  obtain ⟨written, dotted', ran₈⟩ := lift_then_eq_ok.mp ran₇
  rw [liftErr_eq_ok] at dotted dotted'
  have sized : written.size = 1 * fs.superblock.block_size.toNat := by
    rw [encode_range_size dotted', encode_range_size dotted, size_zeros, Nat.one_mul]
  obtain ⟨at_, placed, ran₉⟩ := lift_then_eq_ok.mp ran₈
  rw [in_u64] at placed
  split at placed
  case isFalse => cases placed
  cases placed
  obtain ⟨_, s₇, tenth, ran₁₀⟩ := run_bind_eq_ok.mp ran₉
  rw [write_at, run_change] at tenth
  obtain ⟨-, rfl⟩ := Ended.ok.inj tenth
  obtain ⟨_, mid, entered, last⟩ := run_bind_eq_ok.mp ran₁₀
  obtain ⟨pos, buf, buf', held, size, rfl⟩ := add_dir_entry_ok entered
  have encoded' : i_block (runs start 1) = .ok (dir_inode fs.superblock.block_size.toNat block).block := encoded
  have prepares : Prepares fs _ parent n' (dir_inode fs.superblock.block_size.toNat block) start 1 :=
    ⟨encoded', _, _, _, _, _, _, _, taken, takes, slot, sized, held, size, rfl⟩
  have anywhere := prepares.anywhere positive (by decide) roomy.whole
  obtain ⟨rfl, altered⟩ := mkdir_end_ok (roomy.flushable.altered anywhere) (Placed.slot anywhere roomy.placed _) last
  exact ⟨parent_path, name, p, parent, start, _, split, opened, dir_based _ _, _, prepares, altered⟩
end

end Justext4.Creating
