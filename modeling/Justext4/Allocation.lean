import Justext4.Volumes

/-!
Taking and giving back inodes and blocks, and writing the counts out. An
allocation takes clear bits, the first that there are, and a release clears the
bits it is given; both keep the counts in memory in step, and the rest of the
volume as it is. Writing out the superblock and the descriptors changes nothing
that the calls see, and an image opens to what has been written out to it.
-/
namespace Justext4.Allocation
open Justext4 Justext4.Fallible Justext4.Filesystem Justext4.Volumes Bytes
open Justext4.Superblock (Superblock SUPERBLOCK_OFFSET SUPERBLOCK_SIZE)
open Justext4.GroupDescriptor (GroupDescriptor)

section
variable {g : Geometry} {v : Volume} {fs : Filesystem}

theorem gdt_at_ok (holds : Holds g v fs) :
    ∃ gd, gdt_at fs 0 = .ok gd ∧ gd.block_bitmap = 2 ∧ gd.inode_bitmap = 3 ∧ gd.inode_table = 4 :=
  holds.static'.gdt_at fs.reader

theorem bitmaps_inside (g : Geometry) : 3 < g.total := by
  have root := g.root_inside
  omega

/-- The bitmap block that the calls load is the one the volume is read from. -/
theorem load_inode_bitmap (holds : Holds g v fs) {gd : GroupDescriptor} (bitmap : gd.inode_bitmap = 3) :
    load_block fs gd.inode_bitmap.toNat = .ok (3 * g.block_size, blockAt g fs.reader 3) := by
  rw [bitmap]
  exact load_block_ok holds.static' holds.size (bitmaps_inside g)
theorem load_block_bitmap (holds : Holds g v fs) {gd : GroupDescriptor} (bitmap : gd.block_bitmap = 2) :
    load_block fs gd.block_bitmap.toNat = .ok (2 * g.block_size, blockAt g fs.reader 2) := by
  rw [bitmap]
  exact load_block_ok holds.static' holds.size (Nat.lt_of_succ_lt (bitmaps_inside g))

/-- The bitmaps cover the image, and the counts in memory are far from the ends
    of their words: what keeps the calls from panicking. -/
structure Modest (g : Geometry) (v : Volume) : Prop where
  blocks_fit : g.total ≤ 8 * g.block_size
  inodes_fit : g.per_group ≤ 8 * g.block_size
  narrow : g.block_size ≠ 65536
  blocks : v.superblock.free_blocks_count.toNat ≤ 8 * g.block_size
  inodes : v.superblock.free_inodes_count.toNat ≤ 8 * g.block_size
  group : ∀ gd, v.gdt[0]? = some gd → gd.free_blocks_count.toNat ≤ 8 * g.block_size ∧
    gd.free_inodes_count.toNat ≤ 8 * g.block_size ∧ gd.used_dirs_count.toNat ≤ 8 * g.block_size + 1

theorem Modest.takeInode (modest : Modest g v) (i : Nat) : Modest g (v.takeInode i) := by
  have less : ∀ n : UInt32, (UInt32.ofNat (n.toNat - 1)).toNat ≤ n.toNat := fun n => by
    rw [UInt32.toNat_ofNat']
    exact Nat.le_trans (Nat.mod_le _ _) (Nat.sub_le _ _)
  refine { modest with
    blocks := modest.blocks
    inodes := Nat.le_trans (less _) modest.inodes
    group := fun gd found => ?_ }
  obtain ⟨before, there, rfl⟩ := group_change found
  obtain ⟨blocks, inodes, dirs⟩ := modest.group before there
  exact ⟨blocks, Nat.le_trans (less _) inodes, dirs⟩

/-- The part of it that keeps a release of an inode from panicking. -/
structure FewInodes (g : Geometry) (v : Volume) : Prop where
  inodes : v.superblock.free_inodes_count.toNat ≤ 8 * g.block_size
  group : ∀ gd, v.gdt[0]? = some gd → gd.free_inodes_count.toNat ≤ 8 * g.block_size

theorem Modest.freeBlocks (modest : Modest g v) (start count : Nat) : FewInodes g (v.freeBlocks start count) := by
  refine ⟨modest.inodes, fun gd found => ?_⟩
  obtain ⟨before, there, rfl⟩ := group_change found
  exact (modest.group before there).2.1

/-- The first descriptor is the one in the volume. -/
theorem group_of_gdt_at (holds : Holds g v fs) {gd : GroupDescriptor} (found : gdt_at fs 0 = .ok gd) :
    v.gdt[0]? = some gd := by
  rw [gdt_at, holds.gdt] at found
  split at found
  · rename_i hit
    cases found
    exact hit
  · cases found

/-- The inode numbers that the allocator hands out. -/
def AllUsed (g : Geometry) (v : Volume) : Prop := ∀ i < min g.per_group (8 * g.block_size), v.inodeBit i = true

/-- The inode bitmap has no clear bit for an inode. -/
def NoInode (fs : Filesystem) : Prop :=
  ∃ gd offset buf, gdt_at fs 0 = .ok gd ∧ load_block fs gd.inode_bitmap.toNat = .ok (offset, buf) ∧
    Bitmap.find_first_zero buf fs.superblock.inodes_per_group.toNat = none

theorem allocate_inode_none (none : NoInode fs) : allocate_inode.run fs = .err (.NoSpace "inodes") fs := by
  obtain ⟨gd, offset, buf, found, loaded, full⟩ := none
  simp only [allocate_inode, run_bind, run_reads, found, ofRes_ok, andThen_ok, loaded, full, okOr_none, ofRes_err,
    andThen_err]
/-- An allocation of an inode takes the first clear bit, and fails with no
    effect when there is none. -/
theorem allocate_inode_spec (holds : Holds g v fs) :
    (AllUsed g v ∧ NoInode fs ∧ allocate_inode.run fs = .err (.NoSpace "inodes") fs) ∨
    ∃ i fs', i < min g.per_group (8 * g.block_size) ∧ v.inodeBit i = false ∧ (∀ j < i, v.inodeBit j = true) ∧
      allocate_inode.run fs = .ok (.ofNat (i + 1)) fs' ∧ Holds g (v.takeInode i) fs' := by
  obtain ⟨gd, found, -, bitmap, -⟩ := gdt_at_ok holds
  have static := holds.static'
  have searched := Bitmap.find_first_zero_correct (blockAt g fs.reader 3) g.per_group
  have size : (blockAt g fs.reader 3).size = g.block_size := rfl
  rw [size] at searched
  cases result : Bitmap.find_first_zero (blockAt g fs.reader 3) g.per_group with
  | none =>
    rw [result] at searched
    have none : NoInode fs :=
      ⟨gd, _, _, found, load_inode_bitmap holds bitmap, by rw [static.inodes_per_group, result]⟩
    refine .inl ⟨fun i small => ?_, none, allocate_inode_none none⟩
    rw [← holds.inode_bits i (by omega)]
    exact searched i small
  | some i =>
    rw [result] at searched
    obtain ⟨small, clear, earlier⟩ := searched
    obtain ⟨buf, set, bufSize, bits⟩ := Bitmap.set_bit_ok (ε := Ext4Error) (blockAt g fs.reader 3) i
      (by omega)
    have patched := holds.patch_inode_bitmap buf (by omega)
    have counted := patched.onGroup0 (f := on_free_inodes (· - 1)) fun _ => ⟨rfl, rfl, rfl⟩
    have taken := (counted.onSuperblock (counted.static.superblock (· - 1)).1).congr_bits
      (fun j => v.inodeBit j || decide (j = i)) v.blockBit
      (fun j lt => (bits j).trans (by rw [holds.inode_bits j lt])) (fun _ _ => rfl)
    refine .inr ⟨i, _, small, ?_, ?_, ?_, taken⟩
    · rw [← holds.inode_bits i (by omega), clear]
    · intro j lt
      rw [← holds.inode_bits j (by omega), earlier j lt]
    · simp only [allocate_inode, run_bind, run_reads, found, ofRes_ok, andThen_ok, load_inode_bitmap holds bitmap,
        static.inodes_per_group, result, okOr_some, run_lift, set, write_at, run_change, change_gdt0,
        change_superblock, run_pure]

/-- No run of clear bits of the block bitmap is this long. -/
def NoRun (g : Geometry) (v : Volume) (count : Nat) : Prop :=
  ∀ t, t + count ≤ min g.blocks (8 * g.block_size) → ∃ j, t ≤ j ∧ j < t + count ∧ v.blockBit j = true

/-- An allocation of blocks takes a run of clear bits, fails with no effect, or
    panics when the run it has found ends past the bitmap. -/
theorem allocate_blocks_spec (holds : Holds g v fs) (count : Nat) (some : 0 < count) :
    ((allocate_blocks_contiguous count).run fs = .err (.NoSpace "blocks") fs ∧
      NoRun g v count) ∨
    ((allocate_blocks_contiguous count).run fs = .panic ∧ 8 * g.block_size < g.total) ∨
    ∃ start fs', start + count ≤ min g.blocks (8 * g.block_size) ∧
      (∀ j, start ≤ j → j < start + count → v.blockBit j = false) ∧
      (allocate_blocks_contiguous count).run fs = .ok start fs' ∧ Holds g (v.takeBlocks start count) fs' := by
  obtain ⟨gd, found, bitmap, -, -⟩ := gdt_at_ok holds
  have static := holds.static'
  have nonzero : ¬ count = 0 := by omega
  have searched := Bitmap.find_first_zero_run_correct (blockAt g fs.reader 2) some g.blocks
  have size : (blockAt g fs.reader 2).size = g.block_size := rfl
  cases result : Bitmap.find_first_zero_run (blockAt g fs.reader 2) count g.blocks with
  | none =>
    rw [result] at searched
    refine .inl ⟨?_, ?_⟩
    · simp only [allocate_blocks_contiguous, nonzero, ↓reduceIte, run_bind, run_reads, found, ofRes_ok, andThen_ok,
        load_block_bitmap holds bitmap, static.blocks_count, result, okOr_none, ofRes_err, andThen_err]
    · intro t fits
      apply Classical.byContradiction
      intro none
      refine searched t (by omega) fun j low high => ?_
      rw [holds.block_bits j (by omega)]
      cases set : v.blockBit j with
      | false => rfl
      | true => exact absurd ⟨j, low, high, set⟩ none
  | some start =>
    rw [result] at searched
    obtain ⟨fits, clear, -⟩ := searched
    by_cases inside : start + count ≤ 8 * g.block_size
    case neg =>
      have high := g.blocks_high
      refine .inr (.inl ⟨?_, by omega⟩)
      simp only [allocate_blocks_contiguous, nonzero, ↓reduceIte, run_bind, run_reads, found, ofRes_ok, andThen_ok,
        load_block_bitmap holds bitmap, static.blocks_count, result, okOr_some, run_lift,
        Bitmap.set_run_panic (blockAt g fs.reader 2) start some (by omega), ofRes_panic, andThen_panic]
    case pos =>
      obtain ⟨buf, set, bufSize, bits⟩ := Bitmap.set_run_ok (ε := Ext4Error) (blockAt g fs.reader 2) start count (by omega)
      have patched := holds.patch_block_bitmap buf (by omega)
      have counted := patched.onGroup0 (f := on_free_blocks (· - count)) fun _ => ⟨rfl, rfl, rfl⟩
      have taken := (counted.onSuperblock (counted.static.superblock (· - count)).2).congr_bits
        v.inodeBit (fun j => v.blockBit j || decide (start ≤ j ∧ j < start + count)) (fun _ _ => rfl)
        (fun j lt => (bits j).trans (by rw [holds.block_bits j lt]))
      refine .inr (.inr ⟨start, _, by omega, ?_, ?_, taken⟩)
      · intro j low high
        rw [← holds.block_bits j (by omega), clear j low high]
      · simp only [allocate_blocks_contiguous, nonzero, ↓reduceIte, run_bind, run_reads, found, ofRes_ok, andThen_ok,
          load_block_bitmap holds bitmap, static.blocks_count, result, okOr_some, run_lift, set, write_at, run_change,
          change_gdt0, change_superblock, run_pure]

theorem allocate_none (fs : Filesystem) : (allocate_blocks_contiguous 0).run fs = .ok 0 fs := rfl

/-- Giving back a run of blocks clears its bits, unless a count overflows. -/
theorem free_blocks_spec (holds : Holds g v fs) (start count : Nat) (inside : start + count ≤ 8 * g.block_size) :
    ((free_blocks start count).run fs = .panic ∧ ¬ Modest g v) ∨
    ∃ fs', (free_blocks start count).run fs = .ok () fs' ∧ Holds g (v.freeBlocks start count) fs' := by
  by_cases zero : count = 0
  case pos =>
    subst zero
    refine .inr ⟨fs, rfl, ?_⟩
    have group : on_group0 (on_free_blocks (· + 0)) v.gdt = v.gdt := by
      cases v.gdt with
      | nil => rfl
      | cons gd rest => simp [on_group0, on_free_blocks]
    have record : on_all_free_blocks (· + 0) v.superblock = v.superblock := by simp [on_all_free_blocks]
    have bits : (fun j => v.blockBit j && !decide (start ≤ j ∧ j < start + 0)) = v.blockBit := by
      funext j
      rw [decide_eq_false (by omega)]
      simp
    rw [Volume.freeBlocks, bits, group, record]
    exact holds
  case neg =>
  obtain ⟨gd, found, bitmap, -, -⟩ := gdt_at_ok holds
  obtain ⟨buf, cleared, bufSize, bits⟩ := Bitmap.clear_run_ok (ε := Ext4Error) (blockAt g fs.reader 2) start count (by exact inside)
  have size : (blockAt g fs.reader 2).size = g.block_size := rfl
  have patched := holds.patch_block_bitmap buf (by omega)
  have found' : ∀ image, gdt_at { fs with reader := image } 0 = .ok gd := fun _ => found
  have bounded := g.bounded
  by_cases first : gd.free_blocks_count.toNat + count < 4294967296
  case neg =>
    refine .inl ⟨?_, fun modest => by have few := (modest.group gd (group_of_gdt_at holds found)).1; omega⟩
    simp only [free_blocks, zero, ↓reduceIte, run_bind, run_reads, found, ofRes_ok, andThen_ok,
      load_block_bitmap holds bitmap, run_lift, cleared, write_at, run_change, found', res_bind_ok,
      decide_eq_false first, orPanic_false, ofRes_panic, andThen_panic]
  by_cases second : fs.superblock.free_blocks_count.toNat + count < 18446744073709551616
  case neg =>
    rw [holds.superblock] at second
    refine .inl ⟨?_, fun modest => by have few := modest.blocks; omega⟩
    rw [← holds.superblock] at second
    simp only [free_blocks, zero, ↓reduceIte, run_bind, run_reads, found, ofRes_ok, andThen_ok,
      load_block_bitmap holds bitmap, run_lift, cleared, write_at, run_change, found', res_bind_ok,
      decide_eq_true first, orPanic_true, change_gdt0, decide_eq_false second, orPanic_false, ofRes_panic,
      andThen_panic]
  have counted := patched.onGroup0 (f := on_free_blocks (· + count)) fun _ => ⟨rfl, rfl, rfl⟩
  have given := (counted.onSuperblock (counted.static.superblock (· + count)).2).congr_bits
    v.inodeBit (fun j => v.blockBit j && !decide (start ≤ j ∧ j < start + count)) (fun _ _ => rfl)
    (fun j lt => (bits j).trans (by rw [holds.block_bits j lt]))
  refine .inr ⟨_, ?_, given⟩
  simp only [free_blocks, zero, ↓reduceIte, run_bind, run_reads, found, ofRes_ok, andThen_ok,
    load_block_bitmap holds bitmap, run_lift, cleared, write_at, run_change, found', res_bind_ok,
    decide_eq_true first, orPanic_true, change_gdt0, decide_eq_true second, change_superblock]

/-- Giving back an inode clears its bit, unless a count overflows. -/
theorem free_inode_spec (holds : Holds g v fs) {n : UInt32} (low : 1 ≤ n.toNat) (inside : n.toNat ≤ 8 * g.block_size) :
    ((free_inode n).run fs = .panic ∧ ¬ FewInodes g v) ∨
    ∃ fs', (free_inode n).run fs = .ok () fs' ∧ Holds g (v.freeInode (n.toNat - 1)) fs' := by
  obtain ⟨gd, found, -, bitmap, -⟩ := gdt_at_ok holds
  obtain ⟨buf, cleared, bufSize, bits⟩ := Bitmap.clear_bit_ok (ε := Ext4Error) (blockAt g fs.reader 3) (n.toNat - 1) (by show n.toNat - 1 < 8 * g.block_size; omega)
  have size : (blockAt g fs.reader 3).size = g.block_size := rfl
  have patched := holds.patch_inode_bitmap buf (by omega)
  have found' : ∀ image, gdt_at { fs with reader := image } 0 = .ok gd := fun _ => found
  have nonzero : n ≠ 0 := by
    rintro rfl
    have zero : (0 : UInt32).toNat = 0 := rfl
    omega
  have bounded := g.bounded
  by_cases first : gd.free_inodes_count.toNat + 1 < 4294967296
  case neg =>
    refine .inl ⟨?_, fun modest => by have few := modest.group gd (group_of_gdt_at holds found); omega⟩
    simp only [free_inode, run_bind, run_reads, found, ofRes_ok, andThen_ok, load_inode_bitmap holds bitmap, run_lift,
      decide_eq_true nonzero, orPanic_true, cleared, write_at, run_change, found', res_bind_ok,
      decide_eq_false first, orPanic_false, ofRes_panic, andThen_panic]
  by_cases second : fs.superblock.free_inodes_count.toNat + 1 < 4294967296
  case neg =>
    rw [holds.superblock] at second
    refine .inl ⟨?_, fun modest => by have few := modest.inodes; omega⟩
    rw [← holds.superblock] at second
    simp only [free_inode, run_bind, run_reads, found, ofRes_ok, andThen_ok, load_inode_bitmap holds bitmap, run_lift,
      decide_eq_true nonzero, orPanic_true, cleared, write_at, run_change, found', res_bind_ok,
      decide_eq_true first, change_gdt0, decide_eq_false second, orPanic_false, ofRes_panic, andThen_panic]
  have counted := patched.onGroup0 (f := on_free_inodes (· + 1)) fun _ => ⟨rfl, rfl, rfl⟩
  have given := (counted.onSuperblock (counted.static.superblock (· + 1)).1).congr_bits
    (fun j => v.inodeBit j && !decide (j = n.toNat - 1)) v.blockBit
    (fun j lt => (bits j).trans (by rw [holds.inode_bits j lt])) (fun _ _ => rfl)
  refine .inr ⟨_, ?_, given⟩
  simp only [free_inode, run_bind, run_reads, found, ofRes_ok, andThen_ok, load_inode_bitmap holds bitmap, run_lift,
    decide_eq_true nonzero, orPanic_true, cleared, write_at, run_change, found', res_bind_ok,
    decide_eq_true first, change_gdt0, decide_eq_true second, change_superblock]

/-! ### Writing the records out and reading them back -/

/-- The entry of a descriptor is at an offset of the image. -/
def DescriptorAt (image : Bytes) (offset : Nat) (gd : GroupDescriptor) : Prop :=
  ∃ buf : Bytes, buf.size = 32 ∧ image.slice offset 32 = GroupDescriptor.image gd buf

/-- The table is written entry by entry from an offset, and nothing else is. -/
theorem write_gdt_ok (fs : Filesystem) (offset : Nat) (gd_buf : Bytes) (gds : List GroupDescriptor)
    (narrow : Superblock.is_64bit fs.superblock = false) (size : gd_buf.size = 32)
    (fits : offset + 32 * gds.length ≤ fs.reader.size) :
    ∃ fs', (write_gdt offset gd_buf gds).run fs = .ok () fs' ∧ fs'.superblock = fs.superblock ∧ fs'.gdt = fs.gdt ∧
      fs'.reader.size = fs.reader.size ∧
      (∀ i, i < offset ∨ offset + 32 * gds.length ≤ i → fs'.reader.byte i = fs.reader.byte i) ∧
      ∀ i gd, gds[i]? = some gd → DescriptorAt fs'.reader (offset + 32 * i) gd := by
  induction gds generalizing offset gd_buf fs with
  | nil => exact ⟨fs, rfl, rfl, rfl, rfl, fun _ _ => rfl, fun i gd found => by simp at found⟩
  | cons gd rest ih =>
    have length : (gd :: rest).length = rest.length + 1 := rfl
    have written := GroupDescriptor.size_image gd size
    let mid : Filesystem := { fs with reader := fs.reader.patch offset (GroupDescriptor.image gd gd_buf) }
    have mid_size : mid.reader.size = fs.reader.size := size_patch _ _ _ (by omega)
    obtain ⟨fs', run, superblock, gdt, same_size, outside, entries⟩ :=
      ih mid (offset + (GroupDescriptor.image gd gd_buf).size) _ narrow written (by omega)
    rw [written] at outside entries
    refine ⟨fs', ?_, superblock, gdt, same_size.trans mid_size, ?_, ?_⟩
    · simp only [write_gdt, run_bind, run_reads, GroupDescriptor.encode_ok gd narrow size, liftErr_ok, ofRes_ok,
        andThen_ok, write_at, run_change]
      exact run
    · intro i out
      rw [outside i (by omega)]
      exact byte_patch_outside _ (by omega)
    · intro i gd' found
      cases i with
      | zero =>
        cases found
        refine ⟨gd_buf, size, ?_⟩
        rw [← slice_patch_same fs.reader (GroupDescriptor.image gd gd_buf) offset, written]
        apply ext_inside (by simp)
        intro i inside
        have short : i < 32 := by simpa using inside
        rw [byte_slice_of_lt _ short, byte_slice_of_lt _ short, outside _ (by omega)]
        rfl
      | succ i =>
        have later := entries i gd' found
        rwa [show offset + 32 + 32 * i = offset + 32 * (i + 1) by omega] at later

theorem log_known (static : Static g fs.superblock fs.gdt) :
    ∃ log, Superblock.logBlockSizeOf fs.superblock.block_size = some log := by
  have same := static.block_size
  rcases g.known with one | two | four | large
  · have size : fs.superblock.block_size = 1024 := UInt32.toNat_inj.mp (same.trans one)
    exact ⟨0, by rw [size]; rfl⟩
  · have size : fs.superblock.block_size = 2048 := UInt32.toNat_inj.mp (same.trans two)
    exact ⟨1, by rw [size]; rfl⟩
  · have size : fs.superblock.block_size = 4096 := UInt32.toNat_inj.mp (same.trans four)
    exact ⟨2, by rw [size]; rfl⟩
  · have size : fs.superblock.block_size = 65536 := UInt32.toNat_inj.mp (same.trans large)
    exact ⟨6, by rw [size]; rfl⟩

/-- The superblock and the descriptors in memory are the ones in the image. -/
def WrittenOut (g : Geometry) (fs : Filesystem) : Prop :=
  (∃ log, Superblock.logBlockSizeOf fs.superblock.block_size = some log ∧
    fs.reader.slice SUPERBLOCK_OFFSET 1024 = Superblock.image fs.superblock log) ∧
  ∀ i gd, fs.gdt[i]? = some gd → DescriptorAt fs.reader (g.block_size + 32 * i) gd

/-- Writing the records out leaves the volume as it is. -/
theorem flush_metadata_ok (holds : Holds g v fs) (large : 2048 ≤ g.block_size) :
    ∃ fs', flush_metadata.run fs = .ok () fs' ∧ Holds g v fs' ∧ WrittenOut g fs' := by
  have static := holds.static'
  obtain ⟨log, known⟩ := log_known static
  have table := g.table_inside
  have root := g.root_inside
  have two : 2 * g.block_size ≤ g.total * g.block_size := Nat.mul_le_mul_right _ (by omega)
  have size := holds.size
  have encoded : Superblock.encode_into fs.superblock (zeros SUPERBLOCK_SIZE) =
      .ok (Superblock.image fs.superblock log) := Superblock.encode_ok static.narrow known
  have written := Superblock.size_image fs.superblock log
  let mid : Filesystem := { fs with reader := fs.reader.patch SUPERBLOCK_OFFSET (Superblock.image fs.superblock log) }
  have offset : SUPERBLOCK_OFFSET = 1024 := rfl
  have mid_size : mid.reader.size = fs.reader.size := size_patch _ _ _ (by omega)
  have length : fs.gdt.length = g.groups := static.length
  have entry_size : (Superblock.group_descriptor_size fs.superblock).toNat = 32 :=
    GroupDescriptor.size_narrow static.narrow
  have start : (fs.superblock.first_data_block.toNat + 1) * fs.superblock.block_size.toNat = g.block_size := by
    rw [static.first_data_block, static.block_size]
    show (0 + 1) * _ = _
    omega
  obtain ⟨fs', run, superblock, gdt, same_size, outside, entries⟩ :=
    write_gdt_ok mid g.block_size (zeros 32) fs.gdt static.narrow rfl
      (by omega)
  refine ⟨fs', ?_, ?_, ⟨log, ?_, ?_⟩, ?_⟩
  · simp only [flush_metadata, run_bind, run_reads, encoded, liftErr_ok, ofRes_ok, andThen_ok, write_at, run_change,
      entry_size, start]
    exact run
  · refine holds.congr_head superblock gdt (same_size.trans mid_size) fun i past => ?_
    rw [outside i (by omega)]
    exact byte_patch_outside _ (by omega)
  · rw [superblock]
    exact known
  · rw [superblock, ← slice_patch_same fs.reader (Superblock.image fs.superblock log) SUPERBLOCK_OFFSET, written]
    apply ext_inside (by simp)
    intro i inside
    have short : i < 1024 := by simpa using inside
    rw [byte_slice_of_lt _ short, byte_slice_of_lt _ short, outside _ (by omega)]
  · rw [gdt]
    exact entries
end

/-- An image opens to the superblock at byte 1024 and the entries after the
    block of the superblock. -/
theorem open_image_ok (image : Bytes) {sb : Superblock} (size : 2048 ≤ image.size)
    (decoded : Superblock.decode (image.slice SUPERBLOCK_OFFSET SUPERBLOCK_SIZE) = .ok sb)
    (blocks : sb.blocks_per_group ≠ 0) (inodes : sb.inodes_per_group ≠ 0) (narrow : Superblock.is_64bit sb = false)
    (fits : (sb.first_data_block.toNat + 1) * sb.block_size.toNat + (Superblock.group_count sb).toNat * 32 ≤ image.size) :
    open_image image = .ok ⟨image, sb, (List.range' 0 (Superblock.group_count sb).toNat).map fun i =>
      GroupDescriptor.descriptorAt
        (image.slice ((sb.first_data_block.toNat + 1) * sb.block_size.toNat + i * 32) 32)⟩ := by
  have entry_size := GroupDescriptor.size_narrow narrow
  have read : read_at image SUPERBLOCK_OFFSET SUPERBLOCK_SIZE = .ok (image.slice SUPERBLOCK_OFFSET SUPERBLOCK_SIZE) :=
    read_at_ok (by rw [SUPERBLOCK_OFFSET, SUPERBLOCK_SIZE]; omega)
  have each : ∀ i, 0 ≤ i → i < 0 + (Superblock.group_count sb).toNat →
      (do
        let entry ← (image.slice ((sb.first_data_block.toNat + 1) * sb.block_size.toNat)
          ((Superblock.group_count sb).toNat * 32)).range (i * 32) (i * 32 + 32)
        liftErr Ext4Error.GroupDescriptor (GroupDescriptor.decode entry sb)) =
      .ok (GroupDescriptor.descriptorAt
        (image.slice ((sb.first_data_block.toNat + 1) * sb.block_size.toNat + i * 32) 32)) := by
    intro i _ lt
    rw [range_ok (by omega) (by rw [size_slice]; omega), res_bind_ok, Nat.add_sub_cancel_left,
      slice_slice _ (by omega), GroupDescriptor.decode_ok narrow (by simp), liftErr_ok]
  rw [open_image, read, res_bind_ok, decoded, liftErr_ok, res_bind_ok, ensure_of blocks, res_bind_ok, ensure_of inodes,
    res_bind_ok, entry_size]
  dsimp only
  rw [read_at_ok fits, res_bind_ok, collect_ok each, res_bind_ok]

end Justext4.Allocation
