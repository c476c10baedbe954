import Justext4.Recounting
import Justext4.Progress

/-!
How far the block bitmap reaches. The search for a run of blocks goes up to the
number of blocks of the image, and takes the bits past the bitmap for clear
ones; the bits are then set in the bitmap alone. The two agree as long as the
run that is found ends inside the bitmap.
-/
namespace Justext4.BitmapLimit
open Justext4 Justext4.Fallible Justext4.Filesystem Justext4.Mkfs Bytes
open Justext4.Volumes (in_u64_ok read_at_ok)
open Justext4.GroupDescriptor (GroupDescriptor)
open Justext4.Formatted
open Justext4.Start
open Justext4.Calls
open Justext4.Recounting

/-! ### What an allocation is to do -/

/-- The number of bits of a bitmap block. -/
def capacity (fs : Filesystem) : Nat := 8 * fs.superblock.block_size.toNat
/-- The offset of the block bitmap. -/
def bitmapOffset (fs : Filesystem) : Nat :=
  match gdt_at fs 0 with
  | .ok gd => gd.block_bitmap.toNat * fs.superblock.block_size.toNat
  | .error _ => 0
def bitmap (fs : Filesystem) : Bytes := fs.reader.slice (bitmapOffset fs) fs.superblock.block_size.toNat

/-- No block of some run of `count` below the limit has its bit set. -/
def Room (fs : Filesystem) (count limit : Nat) : Prop :=
  ∃ t, t + count ≤ limit ∧ ∀ j, t ≤ j → j < t + count → j < capacity fs → Bitmap.get_bit (bitmap fs) j = false

/-- The bits of a run inside the bitmap were clear and are set, and nothing else
    is changed. -/
structure Takes (fs fs' : Filesystem) (start count : Nat) : Prop where
  inside : start + count ≤ min fs.superblock.blocks_count.toNat (capacity fs)
  clear : ∀ j, start ≤ j → j < start + count → Bitmap.get_bit (bitmap fs) j = false
  set : ∀ j, Bitmap.get_bit (bitmap fs') j = (Bitmap.get_bit (bitmap fs) j || decide (start ≤ j ∧ j < start + count))
  outside : ∀ i, (i < bitmapOffset fs ∨ bitmapOffset fs + fs.superblock.block_size.toNat ≤ i) →
    fs'.reader.byte i = fs.reader.byte i

/-- An allocation takes a run inside the bitmap, or finds that there is none. -/
inductive AllocatedInside (fs : Filesystem) (count : Nat) : Ended Filesystem Ext4Error Nat → Prop
  | takes {start : Nat} {fs' : Filesystem} (takes : Takes fs fs' start count) : AllocatedInside fs count (.ok start fs')
  | full (none : ¬ Room fs count (min fs.superblock.blocks_count.toNat (capacity fs))) :
      AllocatedInside fs count (.err (.NoSpace "blocks") fs)

/-! ### What it does -/

/-- The bitmap is there to be loaded. -/
structure Loadable (fs : Filesystem) : Prop where
  group : ∃ gd, gdt_at fs 0 = .ok gd
  small : bitmapOffset fs < 18446744073709551616
  inside : bitmapOffset fs + fs.superblock.block_size.toNat ≤ fs.reader.size

section
variable {fs : Filesystem} {count : Nat}

theorem size_bitmap (fs : Filesystem) : (bitmap fs).size = fs.superblock.block_size.toNat := rfl

theorem load_bitmap (loadable : Loadable fs) :
    ∃ gd, gdt_at fs 0 = .ok gd ∧ load_block fs gd.block_bitmap.toNat = .ok (bitmapOffset fs, bitmap fs) := by
  obtain ⟨gd, found⟩ := loadable.group
  have offset : bitmapOffset fs = gd.block_bitmap.toNat * fs.superblock.block_size.toNat := by rw [bitmapOffset, found]
  refine ⟨gd, found, ?_⟩
  have small := loadable.small
  rw [load_block, ← offset, in_u64_ok small, res_bind_ok, read_at_ok loadable.inside]
  rfl

/-- A run of clear bits is one that no bit of the bitmap is set for. -/
theorem room_iff (fs : Filesystem) (count limit : Nat) :
    Room fs count limit ↔ ∃ t, t + count ≤ limit ∧ Bitmap.ClearRun (bitmap fs) t count := by
  constructor
  · rintro ⟨t, fits, clear⟩
    refine ⟨t, fits, fun j low high => ?_⟩
    by_cases inside : j < capacity fs
    · exact clear j low high inside
    · exact Bitmap.get_bit_past (by rw [size_bitmap]; exact Nat.le_of_not_lt inside)
  · rintro ⟨t, fits, clear⟩
    exact ⟨t, fits, fun j low high _ => clear j low high⟩

theorem allocate_full (loadable : Loadable fs) (some : 0 < count)
    (none : ¬ Room fs count fs.superblock.blocks_count.toNat) :
    (allocate_blocks_contiguous count).run fs = .err (.NoSpace "blocks") fs := by
  obtain ⟨gd, found, loaded⟩ := load_bitmap loadable
  have nonzero : ¬ count = 0 := by omega
  have searched := Bitmap.find_first_zero_run_correct (bitmap fs) some fs.superblock.blocks_count.toNat
  cases result : Bitmap.find_first_zero_run (bitmap fs) count fs.superblock.blocks_count.toNat with
  | some start =>
    rw [result] at searched
    obtain ⟨fits, clear, -⟩ := searched
    exact absurd ((room_iff fs count _).mpr ⟨start, fits, clear⟩) none
  | none =>
    simp only [allocate_blocks_contiguous, nonzero, ↓reduceIte, run_bind, run_reads, found, ofRes_ok, andThen_ok,
      loaded, result, okOr_none, ofRes_err, andThen_err]

/-- What is found starts no later than any other run. -/
theorem search_first (some : 0 < count) (room : Room fs count fs.superblock.blocks_count.toNat) :
    ∃ start, Bitmap.find_first_zero_run (bitmap fs) count fs.superblock.blocks_count.toNat = Option.some start ∧
      start + count ≤ fs.superblock.blocks_count.toNat ∧ Bitmap.ClearRun (bitmap fs) start count ∧
      ∀ t, Bitmap.ClearRun (bitmap fs) t count → start ≤ t := by
  have searched := Bitmap.find_first_zero_run_correct (bitmap fs) some fs.superblock.blocks_count.toNat
  cases result : Bitmap.find_first_zero_run (bitmap fs) count fs.superblock.blocks_count.toNat with
  | none =>
    rw [result] at searched
    obtain ⟨t, fits, clear⟩ := (room_iff fs count _).mp room
    exact absurd clear (searched t fits)
  | some start =>
    rw [result] at searched
    obtain ⟨fits, clear, first⟩ := searched
    refine ⟨start, rfl, fits, clear, fun t run => ?_⟩
    by_contra before
    exact first t (Nat.lt_of_not_le before) run

/-- The state with another bitmap and fewer free blocks. -/
def withBitmap (fs : Filesystem) (buf : Bytes) (count : Nat) : Filesystem where
  reader := fs.reader.patch (bitmapOffset fs) buf
  superblock := on_all_free_blocks (· - count) fs.superblock
  gdt := on_group0 (on_free_blocks (· - count)) fs.gdt

theorem bitmap_withBitmap (loadable : Loadable fs) {buf : Bytes} (size : buf.size = fs.superblock.block_size.toNat)
    (count : Nat) : bitmap (withBitmap fs buf count) = buf := by
  have offset : bitmapOffset (withBitmap fs buf count) = bitmapOffset fs := by
    obtain ⟨gd, found⟩ := loadable.group
    rw [gdt_at] at found
    simp only [bitmapOffset, withBitmap, gdt_at]
    cases table : fs.gdt with
    | nil => rfl
    | cons gd rest => rfl
  have length : (withBitmap fs buf count).superblock.block_size.toNat = buf.size := size.symm
  rw [bitmap, offset, length]
  exact slice_patch_same _ _ _

/-- A run that is found inside the bitmap is taken. -/
theorem allocate_takes (loadable : Loadable fs) (some : 0 < count)
    (room : Room fs count (min fs.superblock.blocks_count.toNat (capacity fs))) :
    ∃ start fs', (allocate_blocks_contiguous count).run fs = .ok start fs' ∧ Takes fs fs' start count := by
  obtain ⟨t, fits, run⟩ := (room_iff fs count _).mp room
  obtain ⟨start, result, high, clear, first⟩ := search_first some ((room_iff fs count _).mpr ⟨t, by omega, run⟩)
  have before := first t run
  have inside : start + count ≤ 8 * (bitmap fs).size := by
    rw [size_bitmap]
    exact Nat.le_trans (Nat.add_le_add_right before _) (Nat.le_trans fits (Nat.min_le_right _ _))
  obtain ⟨gd, found, loaded⟩ := load_bitmap loadable
  obtain ⟨buf, set, size, bits⟩ := Bitmap.set_run_ok (ε := Ext4Error) (bitmap fs) start count inside
  rw [size_bitmap] at size
  have nonzero : ¬ count = 0 := by omega
  have ran : (allocate_blocks_contiguous count).run fs = .ok start (withBitmap fs buf count) := by
    simp only [allocate_blocks_contiguous, nonzero, ↓reduceIte, run_bind, run_reads, found, ofRes_ok, andThen_ok,
      loaded, result, okOr_some, run_lift, set, write_at, run_change, change_gdt0, change_superblock, run_pure, withBitmap]
  refine ⟨start, _, ran, ⟨by omega, clear, ?_, ?_⟩⟩
  · intro j
    rw [bitmap_withBitmap loadable size count]
    exact bits j
  · intro i out
    exact byte_patch_outside _ (by omega)

/-- A run that ends past the bitmap makes the call panic. -/
theorem allocate_past (loadable : Loadable fs) (some : 0 < count)
    (room : Room fs count fs.superblock.blocks_count.toNat)
    (past : ¬ Room fs count (min fs.superblock.blocks_count.toNat (capacity fs))) :
    (allocate_blocks_contiguous count).run fs = .panic := by
  obtain ⟨start, result, high, clear, -⟩ := search_first some room
  obtain ⟨gd, found, loaded⟩ := load_bitmap loadable
  have nonzero : ¬ count = 0 := by omega
  have behind : 8 * (bitmap fs).size < start + count := by
    by_contra inside
    rw [size_bitmap] at inside
    exact past ((room_iff fs count _).mpr ⟨start, by rw [capacity]; omega, clear⟩)
  simp only [allocate_blocks_contiguous, nonzero, ↓reduceIte, run_bind, run_reads, found, ofRes_ok, andThen_ok, loaded,
    result, okOr_some, run_lift, Bitmap.set_run_panic (bitmap fs) start some behind, ofRes_panic, andThen_panic]

/-- An allocation is as it should be exactly when a run that the search can find
    leaves one that the bitmap can hold. -/
theorem allocated_iff (loadable : Loadable fs) (some : 0 < count) :
    AllocatedInside fs count ((allocate_blocks_contiguous count).run fs) ↔
      (Room fs count fs.superblock.blocks_count.toNat →
        Room fs count (min fs.superblock.blocks_count.toNat (capacity fs))) := by
  constructor
  · intro allocated room
    by_contra past
    rw [allocate_past loadable some room past] at allocated
    cases allocated
  · intro narrows
    by_cases room : Room fs count fs.superblock.blocks_count.toNat
    · obtain ⟨start, fs', ran, takes⟩ := allocate_takes loadable some (narrows room)
      rw [ran]
      exact .takes takes
    · rw [allocate_full loadable some room]
      refine .full fun inside => room ?_
      obtain ⟨t, fits, clear⟩ := inside
      exact ⟨t, by omega, clear⟩
end

/-! ### Every state of a formatted image -/

section
variable {config : Config} {fs fs' : Filesystem}

theorem loadable_opened (opened : Opened config fs) : Loadable fs := by
  obtain ⟨image, ran, opened⟩ := opened
  obtain ⟨layout, laid, covered⟩ := laid_of_format ran
  have accepted := accepted_of_layout laid
  have known := accepted.known
  have fits := accepted.fits
  have metadata := accepted.metadata
  have root := accepted.root
  obtain ⟨log, dots, blocks, inodes, written, ran'⟩ := format_ok laid covered
  cases ran.symm.trans ran'
  have whole := size_formatted written
  have three : 3 * config.block_size.toNat ≤ config.size_blocks.toNat * config.block_size.toNat :=
    Nat.mul_le_mul_right _ (by omega)
  have facts : ∃ gd, gdt_at fs 0 = .ok gd ∧ gd.block_bitmap = 2 ∧
      fs.superblock.block_size.toNat = config.block_size.toNat ∧
      fs.reader = formatted config layout log dots blocks inodes := by
    by_cases small : config.block_size.toNat = 1024
    · obtain ⟨sb, gd, opened', size, -, -, -, -, -, -, -, -, blockBits, -⟩ := open_small accepted written small
      cases opened.symm.trans opened'
      exact ⟨gd, rfl, blockBits, size.trans small.symm, rfl⟩
    · cases opened.symm.trans (open_large accepted written small)
      exact ⟨_, by rw [gdt_at, table_first accepted written], rfl, rfl, rfl⟩
  obtain ⟨gd, found, two, size, reader⟩ := facts
  have offset : bitmapOffset fs = 2 * config.block_size.toNat := by rw [bitmapOffset, found, ← size]; simp only [two]; rfl
  have bound := config.block_size.toNat_lt
  exact ⟨⟨gd, found⟩, by omega, by rw [reader, offset, size, whole]; omega⟩

/-- The bitmap stays where it is when only counts change. -/
theorem loadable_recounted (loadable : Loadable fs) (recounted : Recounted fs fs') : Loadable fs' := by
  obtain ⟨⟨blocks, inodes, superblock⟩, gdt, size⟩ := recounted
  have same : fs'.superblock.block_size = fs.superblock.block_size := by rw [superblock]
  obtain ⟨gd, found⟩ := loadable.group
  have before : bitmapOffset fs = gd.block_bitmap.toNat * fs.superblock.block_size.toNat := by rw [bitmapOffset, found]
  rw [gdt_at] at found
  have first : ∃ gd', gdt_at fs' 0 = .ok gd' ∧ gd'.block_bitmap = gd.block_bitmap := by
    rw [gdt_at]
    generalize fs.gdt = old at gdt found
    generalize fs'.gdt = new at gdt
    cases gdt with
    | nil => cases found
    | cons head tail =>
      cases found
      obtain ⟨_, _, _, rfl⟩ := head
      exact ⟨_, rfl, rfl⟩
  obtain ⟨gd', found', bitmap⟩ := first
  have after : bitmapOffset fs' = bitmapOffset fs := by
    rw [before, bitmapOffset, found', same]
    simp only [bitmap]
  exact ⟨⟨gd', found'⟩, by rw [after]; exact loadable.small,
    by rw [after, same]; exact Nat.le_trans loadable.inside size⟩
theorem loadable_reached {allowed : Filesystem → Request → Prop} (reached : Reached config allowed fs) : Loadable fs := by
  obtain ⟨start, opened, run⟩ := reached
  exact loadable_recounted (loadable_opened opened) (run_recounted run)

/-- After any calls, an allocation of blocks is as it should be exactly when the
    runs that the search takes for clear are not all past the bitmap. -/
theorem allocation_inside (reached : Reached config (fun _ _ => True) fs) {count : Nat} (some : 0 < count) :
    AllocatedInside fs count ((allocate_blocks_contiguous count).run fs) ↔
      (Room fs count fs.superblock.blocks_count.toNat →
        Room fs count (min fs.superblock.blocks_count.toNat (capacity fs))) :=
  allocated_iff (loadable_reached reached) some
end

/-- A configuration of two groups. -/
def twoGroups : Config := { Config.default with block_size := 2048, size_blocks := 20000 }
def twoLayout : Layout := ⟨2048, 4, 4, 8, 9⟩

theorem two_groups_start : ∃ fs, Opened twoGroups fs ∧ fs.superblock.blocks_count.toNat = 20000 ∧
    capacity fs = 16384 ∧ ∀ i < 16384, Bitmap.get_bit (bitmap fs) i = decide (i < 9) := by
  have laid : Layout.from_config twoGroups = .ok twoLayout := rfl
  have usable : Usable twoGroups twoLayout := ⟨laid, by decide, fun _ => by decide⟩
  obtain ⟨log, dots, blocks, inodes, written, ran, opened, fitting, static⟩ := start_large usable (by decide)
  refine ⟨_, ⟨_, ran, opened⟩, rfl, rfl, fun i small => ?_⟩
  obtain ⟨gd, first, two, -⟩ := static.gdt_at (formatted twoGroups twoLayout log dots blocks inodes)
  rw [bitmap, bitmapOffset, first]
  simp only [two]
  have held : (formatted twoGroups twoLayout log dots blocks inodes).slice (2 * 2048) 2048 = blocks :=
    slice_blocks written.parts
  have before : ¬ twoGroups.size_blocks.toNat ≤ i := Nat.not_le_of_lt (Nat.lt_trans small (by decide))
  have marked := written.blocks i small
  rw [used_block, decide_eq_false before, Bool.or_false] at marked
  rw [show UInt64.toNat 2 = 2 from rfl, show (superblock twoGroups twoLayout).block_size.toNat = 2048 from rfl, held]
  exact marked

/-- Clear bits up to the end of the bitmap, and blocks past it. -/
theorem two_groups_room {fs : Filesystem} (bits : capacity fs = 16384)
    (marked : ∀ i < 16384, Bitmap.get_bit (bitmap fs) i = decide (i < 9)) {count limit : Nat} (fits : 9 + count ≤ limit) :
    Room fs count limit := by
  refine ⟨9, fits, fun j low _ inside => ?_⟩
  rw [marked j (bits ▸ inside)]
  exact decide_eq_false (by omega)

/-- On an image that its bitmap covers the condition holds after any calls, here
    a call that made a directory and one that failed; where the bitmap is shorter
    than the image all that is left of it can be allocated. -/
theorem whole_bitmap_allocates :
    (∃ fs fs' e, (execute (.mkdir [SLASH, 97])).run (fresh Config.default defaultLayout) = .ok (some 11) fs ∧
      (execute (.create_file [SLASH, 98] (zeros 65537))).run fs = .err e fs' ∧ fs' ≠ fs ∧
      AllocatedInside fs' 3 ((allocate_blocks_contiguous 3).run fs')) ∧
    ∃ fs, Opened twoGroups fs ∧ capacity fs < fs.superblock.blocks_count.toNat ∧
      AllocatedInside fs 16375 ((allocate_blocks_contiguous 16375).run fs) := by
  constructor
  · obtain ⟨fs, fs', ran, -, -, failed, differs, reached⟩ := Progress.lost_file
    obtain ⟨g, whole, v, N, holds, -⟩ := reached_counted default_small reached
    have covered : fs'.superblock.blocks_count.toNat ≤ capacity fs' := by
      have high := g.blocks_high
      have fits := whole.blocks_fit
      rw [capacity, holds.static'.blocks_count, holds.static'.block_size]
      omega
    refine ⟨fs, fs', _, ran, failed, differs, ?_⟩
    refine (allocation_inside (reached.mono fun _ _ _ => trivial) (by decide)).mpr fun room => ?_
    rw [Nat.min_eq_left covered]
    exact room
  · obtain ⟨fs, opened, count, bits, marked⟩ := two_groups_start
    refine ⟨fs, opened, by omega, (allocation_inside opened.reached (by decide)).mpr fun _ => ?_⟩
    rw [count, bits]
    exact two_groups_room bits marked (by decide)

/-- All that is left of the bitmap and a block more: the bits do not fit. -/
theorem past_bitmap : ∃ fs, Opened twoGroups fs ∧
    ¬ AllocatedInside fs 16376 ((allocate_blocks_contiguous 16376).run fs) := by
  obtain ⟨fs, opened, count, bits, marked⟩ := two_groups_start
  refine ⟨fs, opened, fun allocated => ?_⟩
  rw [allocated_iff (loadable_opened opened) (by decide), count, bits] at allocated
  obtain ⟨t, fits, clear⟩ := allocated (two_groups_room bits marked (by decide))
  have low : t ≤ 8 := by omega
  have used := clear 8 low (by omega) (by rw [bits]; decide)
  rw [marked 8 (by decide)] at used
  cases used

end Justext4.BitmapLimit
