import Justext4.DirRoundTrip
import Justext4.Unlinking

/-!
What a removal that fails leaves behind. The checks and the release of the
blocks fail before anything is changed; what is left to fail after that is the
bitmap of the inodes and the entry, which is looked for in the first block of
the directory only, while the lookup goes through all of them. A removal is
undone by failing exactly when neither of the two stops it halfway.
-/
namespace Justext4.FailedRemoval
open Justext4 Justext4.Fallible Justext4.Filesystem Bytes
open Justext4.GroupDescriptor (GroupDescriptor)
open Justext4.Inode (Inode)
open Justext4.Extent (Extent decode_extent_node)
open Justext4.DirEntry (is_unused)
open Justext4.BitmapLimit (bitmap bitmapOffset capacity)
open Justext4.Volumes (read_at_ok in_u64_ok)
open Justext4.Slots (InSlot withSlot withSlot_superblock slot_of_read write_inode_run)
open Justext4.DirRoundTrip (wideState wideRoot wideParts wide_opens wide_assembles)
open Justext4.Survey (leafInode small_reads)
open Justext4.Recounting (same_block_bitmap same_inode_bitmap)
open Justext4.Regions
open Justext4.Releasing
open Justext4.Unlinking

/-! ### Bitmaps that are read -/

/-- A bitmap of the first group lies in the image, or starts at an offset past it. -/
def Readable (fs : Filesystem) (block : GroupDescriptor → UInt64) : Prop :=
  ∃ gd, gdt_at fs 0 = .ok gd ∧ (block gd).toNat * fs.superblock.block_size.toNat < 18446744073709551616 ∧
    (block gd).toNat * fs.superblock.block_size.toNat + fs.superblock.block_size.toNat ≤ fs.reader.size
def Unreadable (fs : Filesystem) (block : GroupDescriptor → UInt64) : Prop :=
  ∃ gd, gdt_at fs 0 = .ok gd ∧ (block gd).toNat * fs.superblock.block_size.toNat < 18446744073709551616 ∧
    fs.reader.size < (block gd).toNat * fs.superblock.block_size.toNat + fs.superblock.block_size.toNat

section
variable {fs fs' : Filesystem} {D : Nat → Prop} {block : GroupDescriptor → UInt64}

theorem load_block_inside {b : Nat} (fits : b * fs.superblock.block_size.toNat < 18446744073709551616)
    (inside : b * fs.superblock.block_size.toNat + fs.superblock.block_size.toNat ≤ fs.reader.size) :
    load_block fs b = .ok (b * fs.superblock.block_size.toNat, blockBytes fs b) := by
  rw [load_block, in_u64_ok fits, res_bind_ok, read_at_ok inside]
  rfl
theorem load_block_small {b offset : Nat} {buf : Bytes} (loaded : load_block fs b = .ok (offset, buf)) :
    b * fs.superblock.block_size.toNat < 18446744073709551616 := by
  rw [load_block] at loaded
  obtain ⟨_, fits, -⟩ := res_bind_eq_ok.mp loaded
  rw [in_u64] at fits
  split at fits
  · assumption
  · cases fits
theorem load_block_err {b : Nat} {e : Ext4Error} (failed : load_block fs b = .error (.err e)) :
    b * fs.superblock.block_size.toNat < 18446744073709551616 ∧
      fs.reader.size < b * fs.superblock.block_size.toNat + fs.superblock.block_size.toNat := by
  rw [load_block] at failed
  rcases res_bind_eq_error.mp failed with first | ⟨offset, first, failed⟩
  · rw [in_u64] at first
    split at first <;> cases first
  · rw [in_u64] at first
    split at first
    · cases first
      rename_i fits
      refine ⟨fits, ?_⟩
      rcases res_bind_eq_error.mp failed with second | ⟨buf, second, failed⟩
      · rw [read_at] at second
        split at second
        · cases second
        · omega
      · cases failed
    · cases first
theorem load_block_out (positive : 0 < fs.superblock.block_size.toNat) {b : Nat}
    (fits : b * fs.superblock.block_size.toNat < 18446744073709551616)
    (out : fs.reader.size < b * fs.superblock.block_size.toNat + fs.superblock.block_size.toNat) :
    load_block fs b = .error (.err .Io) := by
  rw [load_block, in_u64_ok fits, res_bind_ok, read_at, if_neg (by omega), res_bind_error]

theorem Readable.not_unreadable (readable : Readable fs block) : ¬ Unreadable fs block := by
  rintro ⟨gd, found, -, out⟩
  obtain ⟨gd', found', -, inside⟩ := readable
  cases found.symm.trans found'
  omega
/-- Where the bitmaps are stays the same. -/
theorem Altered.readable (altered : Altered D fs fs') (kept : ∀ gd gd', Recounting.SameGroup gd gd' → block gd' = block gd) :
    (Readable fs' block ↔ Readable fs block) ∧ (Unreadable fs' block ↔ Unreadable fs block) := by
  have size := altered.size
  have block_size := altered.block_size
  simp only [Readable, Unreadable, size, block_size]
  constructor
  all_goals
    constructor
    · rintro ⟨gd', found', place⟩
      obtain ⟨gd, found, same⟩ := altered.group_before (gdt_at_eq_ok.mp found')
      rw [kept gd gd' same] at place
      exact ⟨gd, gdt_at_eq_ok.mpr found, place⟩
    · rintro ⟨gd, found, place⟩
      obtain ⟨gd', found', same⟩ := altered.group (gdt_at_eq_ok.mp found)
      rw [← kept gd gd' same] at place
      exact ⟨gd', gdt_at_eq_ok.mpr found', place⟩
end

/-! ### The release of the blocks -/

/-- The runs are in the bitmap, which is read, and the counts do not overflow. -/
structure Releases (fs : Filesystem) (runs : List (Nat × Nat)) : Prop where
  read : 0 < total runs → Readable fs (·.block_bitmap)
  inside : ∀ r ∈ runs, 0 < r.2 → r.1 + r.2 ≤ capacity fs
  fits : fs.superblock.free_blocks_count.toNat + total runs < 18446744073709551616
  group_fits : ∀ gd, gdt_at fs 0 = .ok gd → gd.free_blocks_count.toNat + total runs < 4294967296

section
variable {fs fs' : Filesystem} {start count : Nat} {e : Ext4Error}

theorem free_nothing (start : Nat) : (free_blocks start 0).run fs = .ok () fs := rfl
/-- A run fails to be released only when the bitmap is not read, before anything is
    changed. -/
theorem free_blocks_err (ran : (free_blocks start count).run fs = .err e fs') :
    fs' = fs ∧ count ≠ 0 ∧ Unreadable fs (·.block_bitmap) := by
  unfold free_blocks at ran
  split at ran
  · cases ran
  rename_i some
  rcases run_bind_eq_err.mp ran with first | ⟨gd, s₁, first, ran₁⟩
  · obtain ⟨missed, -⟩ := run_reads_eq_err.mp first
    rw [gdt_at] at missed
    split at missed <;> cases missed
  obtain ⟨found, rfl⟩ := run_reads_eq_ok.mp first
  rcases run_bind_eq_err.mp ran₁ with second | ⟨⟨offset, buf⟩, s₂, second, ran₂⟩
  · obtain ⟨failed, rfl⟩ := run_reads_eq_err.mp second
    exact ⟨rfl, some, gd, found, load_block_err failed⟩
  obtain ⟨-, rfl⟩ := run_reads_eq_ok.mp second
  -- From here on there are only panics.
  rcases run_bind_eq_err.mp ran₂ with third | ⟨buf', s₃, third, ran₃⟩
  · obtain ⟨failed, -⟩ := run_lift_eq_err.mp third
    by_cases inside : start + count ≤ 8 * buf.size
    · obtain ⟨_, cleared, -⟩ := Bitmap.clear_run_ok (ε := Ext4Error) buf start count inside
      cases failed.symm.trans cleared
    · rw [Bitmap.clear_run_panic buf start (by omega) (by omega)] at failed
      cases failed
  rcases run_bind_eq_err.mp ran₃ with fourth | ⟨_, s₄, fourth, ran₄⟩
  · cases fourth
  rcases run_bind_eq_err.mp ran₄ with fifth | ⟨_, s₅, fifth, ran₅⟩
  · obtain ⟨failed, -⟩ := run_reads_eq_err.mp fifth
    rcases res_bind_eq_error.mp failed with missed | ⟨gd', -, failed⟩
    · rw [gdt_at] at missed
      split at missed <;> cases missed
    · rw [orPanic] at failed
      split at failed <;> cases failed
  rcases run_bind_eq_err.mp ran₅ with sixth | ⟨_, s₆, sixth, ran₆⟩
  · cases sixth
  rcases run_bind_eq_err.mp ran₆ with seventh | ⟨_, s₇, seventh, ran₇⟩
  · obtain ⟨failed, -⟩ := run_reads_eq_err.mp seventh
    rw [orPanic] at failed
    split at failed <;> cases failed
  · cases ran₇
theorem free_blocks_unread (positive : 0 < fs.superblock.block_size.toNat) (some : count ≠ 0)
    (unreadable : Unreadable fs (·.block_bitmap)) : (free_blocks start count).run fs = .err .Io fs := by
  obtain ⟨gd, found, fits, out⟩ := unreadable
  unfold free_blocks
  rw [if_neg some]
  simp only [run_bind, run_reads, found, ofRes_ok, andThen_ok, load_block_out positive fits out, ofRes_err, andThen_err]
theorem free_blocks_readable (ran : (free_blocks start count).run fs = .ok () fs') (some : count ≠ 0)
    (positive : 0 < fs.superblock.block_size.toNat) : Readable fs (·.block_bitmap) := by
  unfold free_blocks at ran
  rw [if_neg some] at ran
  obtain ⟨gd, found, ran₁⟩ := reads_then_eq_ok.mp ran
  obtain ⟨⟨offset, buf⟩, loaded, ran₂⟩ := reads_then_eq_ok.mp ran₁
  exact ⟨gd, found, load_block_small loaded, (load_block_inv loaded).2.1 positive⟩
theorem free_blocks_run (releases : Releases fs [(start, count)]) : ∃ fs', (free_blocks start count).run fs = .ok () fs' := by
  by_cases zero : count = 0
  · subst zero
    exact ⟨fs, free_nothing start⟩
  obtain ⟨gd, found, fits, inside⟩ := releases.read (by simp only [total_cons, total_nil]; omega)
  have limit : start + count ≤ 8 * (blockBytes fs gd.block_bitmap.toNat).size :=
    releases.inside (start, count) (List.mem_singleton.mpr rfl) (by omega)
  obtain ⟨buf', cleared, -⟩ := Bitmap.clear_run_ok (ε := Ext4Error) _ start count limit
  have more := releases.fits
  have more' := releases.group_fits gd found
  simp only [total_cons, total_nil, Nat.add_zero] at more more'
  unfold free_blocks
  rw [if_neg zero]
  simp only [run_bind, run_reads, found, ofRes_ok, andThen_ok, load_block_inside fits inside, run_lift, cleared, write_at,
    run_change]
  rw [show gdt_at { fs with reader := fs.reader.patch (gd.block_bitmap.toNat * fs.superblock.block_size.toNat) buf' } 0 =
    .ok gd from found, res_bind_ok, decide_eq_true more', orPanic_true, ofRes_ok, andThen_ok, change_gdt0]
  simp only [run_bind, run_change, andThen_ok, run_reads, decide_eq_true more, orPanic_true, ofRes_ok]
  exact ⟨_, rfl⟩

theorem total_pos {r : Nat × Nat} {runs : List (Nat × Nat)} (some : 0 < total runs) : 0 < total (r :: runs) := by
  rw [total_cons]
  omega
/-- The rest of the runs can be released after the first. -/
theorem Releases.rest {runs : List (Nat × Nat)} (releases : Releases fs ((start, count) :: runs))
    (frees : Frees fs fs' [(start, count)]) : Releases fs' runs := by
  have sum : total ((start, count) :: runs) = count + total runs := rfl
  have one : total [(start, count)] = count := rfl
  have fits := releases.fits
  refine ⟨fun some => ?_, fun r member some => ?_, ?_, fun gd' found' => ?_⟩
  · exact (Altered.readable frees.altered same_block_bitmap).1.mpr (releases.read (total_pos some))
  · rw [frees.capacity]
    exact releases.inside r (List.mem_cons_of_mem _ member) some
  · rw [frees.superblock, on_all_free_blocks, one, UInt64.toNat_ofNat', Nat.mod_eq_of_lt (by omega)]
    omega
  · obtain ⟨gd, found, -⟩ := frees.altered.group_before (gdt_at_eq_ok.mp found')
    have here := gdt_at_eq_ok.mpr found
    cases found'.symm.trans (first_on_group0 here frees.gdt)
    have group_fits := releases.group_fits gd here
    rw [on_free_blocks, one, UInt32.toNat_ofNat', Nat.mod_eq_of_lt (by omega)]
    omega

/-- Runs given back one after another. -/
def free_all : List (Nat × Nat) → Call Unit
  | [] => pure ()
  | (start, count) :: runs => do
    free_blocks start count
    free_all runs

variable {runs : List (Nat × Nat)}

theorem free_all_ok (ran : (free_all runs).run fs = .ok () fs') : Frees fs fs' runs := by
  induction runs generalizing fs with
  | nil =>
    cases ran
    exact frees_refl fs' (by simp)
  | cons r runs ih =>
    obtain ⟨_, mid, first, later⟩ := run_bind_eq_ok.mp ran
    exact (free_blocks_ok first).append (ih later)
/-- All runs are released exactly when each is in the bitmap and the counts fit. -/
theorem free_all_iff (positive : 0 < fs.superblock.block_size.toNat) :
    (∃ fs', (free_all runs).run fs = .ok () fs') ↔ Releases fs runs := by
  constructor
  · rintro ⟨fs', ran⟩
    have frees := free_all_ok ran
    refine ⟨?_, frees.inside, frees.fits, frees.group_fits⟩
    clear frees
    induction runs generalizing fs with
    | nil => exact fun some => absurd some (Nat.lt_irrefl 0)
    | cons r runs ih =>
      intro some
      obtain ⟨_, mid, first, later⟩ := run_bind_eq_ok.mp ran
      by_cases zero : r.2 = 0
      · rw [zero] at first
        cases first
        rw [total_cons, zero, Nat.zero_add] at some
        exact ih positive later some
      · exact free_blocks_readable first zero positive
  · intro releases
    induction runs generalizing fs with
    | nil => exact ⟨fs, rfl⟩
    | cons r runs ih =>
      have sum : total (r :: runs) = r.2 + total runs := rfl
      have one : total [(r.1, r.2)] = r.2 := rfl
      have here : Releases fs [(r.1, r.2)] := by
        refine ⟨fun some => releases.read (by omega), fun s member some => ?_, ?_, fun gd found => ?_⟩
        · rw [List.mem_singleton.mp member] at some ⊢
          exact releases.inside r (List.mem_cons_self ..) some
        · have fits := releases.fits
          omega
        · have fits := releases.group_fits gd found
          omega
      obtain ⟨mid, first⟩ := free_blocks_run here
      have frees := free_blocks_ok first
      obtain ⟨fs', later⟩ := ih (by rw [frees.block_size]; exact positive) (Releases.rest releases frees)
      exact ⟨fs', run_bind_eq_ok.mpr ⟨(), mid, first, later⟩⟩
/-- Without any block nothing is done. -/
theorem free_all_nothing (none : total runs = 0) : (free_all runs).run fs = .ok () fs := by
  induction runs with
  | nil => rfl
  | cons r runs ih =>
    rw [total_cons] at none
    refine run_bind_eq_ok.mpr ⟨(), fs, ?_, ih (by omega)⟩
    rw [show r.2 = 0 by omega]
    exact free_nothing _
/-- They fail to be released exactly when there is a block and the bitmap is not read,
    before anything is changed. -/
theorem free_all_err (positive : 0 < fs.superblock.block_size.toNat) (ran : (free_all runs).run fs = .err e fs') :
    fs' = fs ∧ 0 < total runs ∧ Unreadable fs (·.block_bitmap) := by
  induction runs generalizing fs with
  | nil => cases ran
  | cons r runs ih =>
    rw [total_cons]
    rcases run_bind_eq_err.mp ran with first | ⟨_, mid, first, later⟩
    · obtain ⟨same, some, unreadable⟩ := free_blocks_err first
      exact ⟨same, by omega, unreadable⟩
    · have frees := free_blocks_ok first
      obtain ⟨rfl, some, unreadable⟩ := ih (by rw [frees.block_size]; exact positive) later
      by_cases zero : r.2 = 0
      · rw [zero] at first
        cases first
        exact ⟨rfl, by omega, unreadable⟩
      · have readable := free_blocks_readable first zero positive
        exact absurd ((Altered.readable frees.altered same_block_bitmap).2.mp unreadable) readable.not_unreadable
theorem free_all_unread (positive : 0 < fs.superblock.block_size.toNat) (some : 0 < total runs)
    (unreadable : Unreadable fs (·.block_bitmap)) : (free_all runs).run fs = .err .Io fs := by
  induction runs with
  | nil => exact absurd some (Nat.lt_irrefl 0)
  | cons r runs ih =>
    by_cases zero : r.2 = 0
    · rw [total_cons, zero, Nat.zero_add] at some
      rw [free_all, zero, run_bind, free_nothing, andThen_ok]
      exact ih some
    · exact run_bind_eq_err.mpr (.inl (free_blocks_unread positive zero unreadable))

/-- The runs of the extents that are initialised are given back. -/
theorem free_runs_eq (es : List Extent) (fs : Filesystem) : (free_runs es).run fs = (free_all (initialised es)).run fs := by
  induction es generalizing fs with
  | nil => rfl
  | cons ext es ih =>
    have split : free_runs (ext :: es) =
        if ext.uninit then free_runs es else (do free_blocks ext.physical_block.toNat ext.len.toNat; free_runs es) := rfl
    rw [split, initialised_cons]
    cases ext.uninit with
    | true => exact ih fs
    | false =>
      show (free_blocks ext.physical_block.toNat ext.len.toNat >>= fun _ => free_runs es).run fs =
        (free_blocks ext.physical_block.toNat ext.len.toNat >>= fun _ => free_all (initialised es)).run fs
      rw [run_bind, run_bind]
      exact congrArg (fun f => Ended.andThen f _) (funext fun _ => funext ih)
end

/-- The extents are read and the runs can be released. -/
structure ReleasesData (fs : Filesystem) (inode : Inode) : Prop where
  node : Inode.uses_extents inode = true → 0 < inode.size.toNat → ∃ node, decode_extent_node inode.block.bytes = .ok node
  runs : Releases fs (freedRuns inode)

section
variable {fs fs' : Filesystem} {inode : Inode} {e : Ext4Error}

/-- When the extents are read, their runs are given back. -/
theorem free_data_eq (node : Inode.uses_extents inode = true → 0 < inode.size.toNat →
    ∃ node, decode_extent_node inode.block.bytes = .ok node) :
    (free_data inode).run fs = (free_all (freedRuns inode)).run fs := by
  rw [free_data, freedRuns]
  by_cases based : Inode.uses_extents inode = true ∧ 0 < inode.size.toNat
  · obtain ⟨node, decoded⟩ := node based.1 based.2
    rw [if_pos based, if_pos based, decoded]
    cases node with
    | Leaf header es => exact free_runs_eq es fs
    | Internal header indices => rfl
  · rw [if_neg based, if_neg based]
    rfl
/-- When they are not, the release stops at once. -/
theorem free_data_stops (unread : ¬ (Inode.uses_extents inode = true → 0 < inode.size.toNat →
    ∃ node, decode_extent_node inode.block.bytes = .ok node)) : ∃ e, (free_data inode).run fs = .err e fs := by
  by_cases based : Inode.uses_extents inode = true ∧ 0 < inode.size.toNat
  · rw [free_data, if_pos based]
    cases decoded : decode_extent_node inode.block.bytes with
    | ok node => exact absurd (fun _ _ => ⟨node, decoded⟩) unread
    | error fault =>
      cases fault with
      | err d => exact ⟨.Extent d, rfl⟩
      | panic => exact absurd decoded (Decoders.node_noPanic _)
  · exact absurd (fun yes some => absurd ⟨yes, some⟩ based) unread
theorem free_data_iff (positive : 0 < fs.superblock.block_size.toNat) :
    (∃ mid, (free_data inode).run fs = .ok () mid) ↔ ReleasesData fs inode := by
  by_cases node : Inode.uses_extents inode = true → 0 < inode.size.toNat → ∃ node, decode_extent_node inode.block.bytes = .ok node
  · rw [free_data_eq node, free_all_iff positive]
    exact ⟨fun releases => ⟨node, releases⟩, fun releases => releases.runs⟩
  · constructor
    · rintro ⟨mid, ran⟩
      obtain ⟨e, stopped⟩ := @free_data_stops fs inode node
      cases ran.symm.trans stopped
    · exact fun releases => absurd releases.node node
theorem free_data_err (positive : 0 < fs.superblock.block_size.toNat) (ran : (free_data inode).run fs = .err e fs') : fs' = fs := by
  by_cases node : Inode.uses_extents inode = true → 0 < inode.size.toNat → ∃ node, decode_extent_node inode.block.bytes = .ok node
  · rw [free_data_eq node] at ran
    exact (free_all_err positive ran).1
  · obtain ⟨e, stopped⟩ := @free_data_stops fs inode node
    cases ran.symm.trans stopped
    rfl
theorem free_data_nothing (none : total (freedRuns inode) = 0) (ran : (free_data inode).run fs = .ok () fs') : fs' = fs := by
  by_cases node : Inode.uses_extents inode = true → 0 < inode.size.toNat → ∃ node, decode_extent_node inode.block.bytes = .ok node
  · rw [free_data_eq node, free_all_nothing none] at ran
    cases ran
    rfl
  · obtain ⟨e, stopped⟩ := @free_data_stops fs inode node
    cases ran.symm.trans stopped
end

/-! ### The release of the inode -/

/-- The bit is in the bitmap, which is read, and the counts do not overflow. -/
structure ReleasesInode (fs : Filesystem) (n : UInt32) : Prop where
  read : Readable fs (·.inode_bitmap)
  number : n ≠ 0
  inside : n.toNat - 1 < capacity fs
  fits : fs.superblock.free_inodes_count.toNat + 1 < 4294967296
  group_fits : ∀ gd, gdt_at fs 0 = .ok gd → gd.free_inodes_count.toNat + 1 < 4294967296

section
variable {fs fs' : Filesystem} {n : UInt32} {e : Ext4Error}

theorem free_inode_run (releases : ReleasesInode fs n) : ∃ fs', (free_inode n).run fs = .ok () fs' := by
  obtain ⟨gd, found, fits, inside⟩ := releases.read
  have limit : n.toNat - 1 < 8 * (blockBytes fs gd.inode_bitmap.toNat).size := releases.inside
  obtain ⟨buf', cleared, -⟩ := Bitmap.clear_bit_ok (ε := Ext4Error) _ _ limit
  have more := releases.group_fits gd found
  unfold free_inode
  simp only [run_bind, run_reads, found, ofRes_ok, andThen_ok, load_block_inside fits inside, run_lift,
    decide_eq_true releases.number, orPanic_true, cleared, write_at, run_change]
  rw [show gdt_at { fs with reader := fs.reader.patch (gd.inode_bitmap.toNat * fs.superblock.block_size.toNat) buf' } 0 =
    .ok gd from found, res_bind_ok, decide_eq_true more, orPanic_true, ofRes_ok, andThen_ok, change_gdt0]
  simp only [run_bind, run_change, andThen_ok, run_reads, decide_eq_true releases.fits, orPanic_true, ofRes_ok]
  exact ⟨_, rfl⟩
theorem free_inode_releases (ran : (free_inode n).run fs = .ok () fs') (positive : 0 < fs.superblock.block_size.toNat) :
    ReleasesInode fs n := by
  have frees := free_inode_ok ran
  unfold free_inode at ran
  obtain ⟨gd, found, ran₁⟩ := reads_then_eq_ok.mp ran
  obtain ⟨⟨offset, buf⟩, loaded, ran₂⟩ := reads_then_eq_ok.mp ran₁
  obtain ⟨_, -, ran₃⟩ := lift_then_eq_ok.mp ran₂
  obtain ⟨buf', -, ran₄⟩ := lift_then_eq_ok.mp ran₃
  obtain ⟨_, _, fifth, ran₅⟩ := run_bind_eq_ok.mp ran₄
  cases fifth
  obtain ⟨_, checked, ran₆⟩ := reads_then_eq_ok.mp ran₅
  obtain ⟨_, _, seventh, ran₇⟩ := run_bind_eq_ok.mp ran₆
  cases seventh
  obtain ⟨_, _, eighth, -⟩ := run_bind_eq_ok.mp ran₇
  obtain ⟨checked', -⟩ := run_reads_eq_ok.mp eighth
  refine ⟨⟨gd, found, load_block_small loaded, (load_block_inv loaded).2.1 positive⟩, frees.number, frees.inside, ?_, ?_⟩
  · exact of_decide_eq_true (orPanic_eq_ok.mp checked')
  · intro gd' found'
    obtain ⟨gd'', here, checked⟩ := res_bind_eq_ok.mp checked
    cases here.symm.trans found'
    exact of_decide_eq_true (orPanic_eq_ok.mp checked)
theorem free_inode_err (ran : (free_inode n).run fs = .err e fs') : fs' = fs ∧ Unreadable fs (·.inode_bitmap) := by
  unfold free_inode at ran
  rcases run_bind_eq_err.mp ran with first | ⟨gd, s₁, first, ran₁⟩
  · obtain ⟨missed, -⟩ := run_reads_eq_err.mp first
    rw [gdt_at] at missed
    split at missed <;> cases missed
  obtain ⟨found, rfl⟩ := run_reads_eq_ok.mp first
  rcases run_bind_eq_err.mp ran₁ with second | ⟨⟨offset, buf⟩, s₂, second, ran₂⟩
  · obtain ⟨failed, rfl⟩ := run_reads_eq_err.mp second
    exact ⟨rfl, gd, found, load_block_err failed⟩
  obtain ⟨-, rfl⟩ := run_reads_eq_ok.mp second
  -- From here on there are only panics.
  rcases run_bind_eq_err.mp ran₂ with third | ⟨_, s₃, third, ran₃⟩
  · obtain ⟨failed, -⟩ := run_lift_eq_err.mp third
    rw [orPanic] at failed
    split at failed <;> cases failed
  obtain ⟨-, rfl⟩ := run_lift_eq_ok.mp third
  rcases run_bind_eq_err.mp ran₃ with fourth | ⟨buf', s₄, fourth, ran₄⟩
  · obtain ⟨failed, -⟩ := run_lift_eq_err.mp fourth
    by_cases inside : n.toNat - 1 < 8 * buf.size
    · obtain ⟨_, cleared, -⟩ := Bitmap.clear_bit_ok (ε := Ext4Error) buf _ inside
      cases failed.symm.trans cleared
    · rw [Bitmap.clear_bit_panic (by omega)] at failed
      cases failed
  rcases run_bind_eq_err.mp ran₄ with fifth | ⟨_, s₅, fifth, ran₅⟩
  · cases fifth
  rcases run_bind_eq_err.mp ran₅ with sixth | ⟨_, s₆, sixth, ran₆⟩
  · obtain ⟨failed, -⟩ := run_reads_eq_err.mp sixth
    rcases res_bind_eq_error.mp failed with missed | ⟨gd', -, failed⟩
    · rw [gdt_at] at missed
      split at missed <;> cases missed
    · rw [orPanic] at failed
      split at failed <;> cases failed
  rcases run_bind_eq_err.mp ran₆ with seventh | ⟨_, s₇, seventh, ran₇⟩
  · cases seventh
  rcases run_bind_eq_err.mp ran₇ with eighth | ⟨_, s₈, eighth, ran₈⟩
  · obtain ⟨failed, -⟩ := run_reads_eq_err.mp eighth
    rw [orPanic] at failed
    split at failed <;> cases failed
  · cases ran₈
theorem free_inode_unread (positive : 0 < fs.superblock.block_size.toNat) (unreadable : Unreadable fs (·.inode_bitmap)) :
    (free_inode n).run fs = .err .Io fs := by
  obtain ⟨gd, found, fits, out⟩ := unreadable
  unfold free_inode
  simp only [run_bind, run_reads, found, ofRes_ok, andThen_ok, load_block_out positive fits out, ofRes_err, andThen_err]
/-- Releasing blocks does not matter for the inode. -/
theorem ReleasesInode.after {mid : Filesystem} {runs : List (Nat × Nat)} (frees : Frees fs mid runs) :
    ReleasesInode mid n ↔ ReleasesInode fs n := by
  have read := (Altered.readable frees.altered same_inode_bitmap).1
  have capacity := frees.capacity
  have count : mid.superblock.free_inodes_count = fs.superblock.free_inodes_count := by
    rw [frees.superblock]
    rfl
  constructor
  · rintro ⟨readable, number, inside, fits, group_fits⟩
    refine ⟨read.mp readable, number, capacity ▸ inside, count ▸ fits, fun gd found => ?_⟩
    have group_fits' := group_fits _ (first_on_group0 found frees.gdt)
    exact group_fits'
  · rintro ⟨readable, number, inside, fits, group_fits⟩
    refine ⟨read.mpr readable, number, capacity.symm ▸ inside, count.symm ▸ fits, fun gd' found' => ?_⟩
    obtain ⟨gd, found, -⟩ := frees.altered.group_before (gdt_at_eq_ok.mp found')
    have here := gdt_at_eq_ok.mpr found
    cases found'.symm.trans (first_on_group0 here frees.gdt)
    exact group_fits gd here
end

/-! ### The image without the inode -/

/-- A bitmap with the bits of some runs clear. -/
def clear_bits (buf : Bytes) : List (Nat × Nat) → Bytes
  | [] => buf
  | (start, count) :: runs =>
    match (Bitmap.clear_run buf start count : Res Ext4Error Bytes) with
    | .ok buf' => clear_bits buf' runs
    | .error _ => clear_bits buf runs
/-- The image with one of its blocks changed. -/
def with_block (fs : Filesystem) (block : Nat) (f : Bytes → Bytes) : Filesystem :=
  { fs with reader := fs.reader.patch (block * fs.superblock.block_size.toNat) (f (blockBytes fs block)) }
/-- The image with the bits of the blocks and of the inode clear, and with the slot of
    the inode marked as deleted. -/
def stripped (fs : Filesystem) (n : UInt32) (inode : Inode) : Filesystem :=
  match gdt_at fs 0, inode_offset fs n with
  | .ok gd, .ok offset =>
    let freed := if total (freedRuns inode) = 0 then fs else
      with_block fs gd.block_bitmap.toNat (clear_bits · (freedRuns inode))
    let gone := with_block freed gd.inode_bitmap.toNat (clear_bits · [(n.toNat - 1, 1)])
    withSlot gone offset (deleted inode)
  | _, _ => fs

section
variable {fs fs' : Filesystem} {n : UInt32} {inode : Inode}

theorem clear_bits_exact {runs : List (Nat × Nat)} {buf : Bytes} (inside : ∀ r ∈ runs, 0 < r.2 → r.1 + r.2 ≤ 8 * buf.size) :
    (clear_bits buf runs).size = buf.size ∧ ∀ j, Bitmap.get_bit (clear_bits buf runs) j =
      (Bitmap.get_bit buf j && !decide (FlushedRecords.InSpans runs j)) := by
  induction runs generalizing buf with
  | nil => exact ⟨rfl, fun j => by simp [clear_bits, FlushedRecords.InSpans]⟩
  | cons r runs ih =>
    have cleared : ∃ buf', (Bitmap.clear_run buf r.1 r.2 : Res Ext4Error Bytes) = .ok buf' := by
      by_cases some : 0 < r.2
      · obtain ⟨buf', ran, -⟩ := Bitmap.clear_run_ok (ε := Ext4Error) buf r.1 r.2 (inside r (List.mem_cons_self ..) some)
        exact ⟨buf', ran⟩
      · rw [show r.2 = 0 by omega]
        exact ⟨buf, rfl⟩
    obtain ⟨buf', ran⟩ := cleared
    obtain ⟨-, size, bits⟩ := clear_run_inv ran
    have equal : clear_bits buf (r :: runs) = clear_bits buf' runs := by rw [clear_bits, ran]
    obtain ⟨size', bits'⟩ := @ih buf' fun r member some => by
      rw [size]
      exact inside r (List.mem_cons_of_mem _ member) some
    rw [equal]
    refine ⟨size'.trans size, fun j => ?_⟩
    rw [bits', bits, Bool.and_assoc, ← Bool.not_or, ← Bool.decide_or]
    congr 2
    exact decide_eq_decide.mpr (by simp [FlushedRecords.InSpans])

/-- An image that differs in one place is patched there. -/
theorem patched {a b buf : Bytes} {pos : Nat} (size : b.size = a.size) (inside : pos + buf.size ≤ a.size)
    (here : b.slice pos buf.size = buf) (elsewhere : ∀ i, (i < pos ∨ pos + buf.size ≤ i) → b.byte i = a.byte i) :
    b = a.patch pos buf := by
  refine ext_inside (by rw [size_patch _ _ _ inside, size]) fun i _ => ?_
  by_cases place : pos ≤ i ∧ i < pos + buf.size
  · have local_ : buf.byte (i - pos) = b.byte i := by
      have byte := @byte_slice_of_lt b pos buf.size (i - pos) (by omega)
      rw [here] at byte
      rw [byte]
      congr 1
      omega
    rw [byte_patch, if_pos place, local_]
  · rw [byte_patch_outside _ (by omega), elsewhere i (by omega)]

/-- The bitmap is the only block that a release changes. -/
theorem Frees.reader {runs : List (Nat × Nat)} {gd : GroupDescriptor} (frees : Frees fs fs' runs)
    (found : gdt_at fs 0 = .ok gd) (inside : gd.block_bitmap.toNat * fs.superblock.block_size.toNat +
      fs.superblock.block_size.toNat ≤ fs.reader.size) :
    fs'.reader = (with_block fs gd.block_bitmap.toNat (clear_bits · runs)).reader := by
  obtain ⟨place, content⟩ := bitmap_first found
  have limit : ∀ r ∈ runs, 0 < r.2 → r.1 + r.2 ≤ 8 * (blockBytes fs gd.block_bitmap.toNat).size := frees.inside
  obtain ⟨size, bits⟩ := clear_bits_exact limit
  have length : (clear_bits (blockBytes fs gd.block_bitmap.toNat) runs).size = fs.superblock.block_size.toNat := size
  refine patched frees.size (by rw [length]; exact inside) ?_ fun i out => ?_
  · rw [length]
    refine Bitmap.bytes_eq_of_get_bit length.symm fun j _ => ?_
    have now : bitmap fs' = fs'.reader.slice (gd.block_bitmap.toNat * fs.superblock.block_size.toNat)
        fs.superblock.block_size.toNat := by
      rw [bitmap, frees.bitmapOffset, place, frees.block_size]
    rw [bits, ← content, ← frees.bits, now]
  · rw [length] at out
    refine frees.bytes i ?_
    rintro ⟨use, member, start, len, occupies, low, high⟩
    cases List.mem_singleton.mp member
    cases occupies with
    | blockBitmap found' =>
      cases found'.symm.trans (gdt_at_eq_ok.mp found)
      omega
theorem FreesInode.reader {gd : GroupDescriptor} (frees : FreesInode fs fs' n) (found : gdt_at fs 0 = .ok gd)
    (inside : gd.inode_bitmap.toNat * fs.superblock.block_size.toNat + fs.superblock.block_size.toNat ≤ fs.reader.size) :
    fs'.reader = (with_block fs gd.inode_bitmap.toNat (clear_bits · [(n.toNat - 1, 1)])).reader := by
  have limit : ∀ r ∈ [(n.toNat - 1, 1)], 0 < r.2 → r.1 + r.2 ≤ 8 * (blockBytes fs gd.inode_bitmap.toNat).size := by
    intro r member _
    rw [List.mem_singleton.mp member]
    exact frees.inside
  obtain ⟨size, bits⟩ := clear_bits_exact limit
  have length : (clear_bits (blockBytes fs gd.inode_bitmap.toNat) [(n.toNat - 1, 1)]).size =
    fs.superblock.block_size.toNat := size
  obtain ⟨gd', found', changed⟩ := frees.bits
  cases found'.symm.trans found
  have block_size : fs'.superblock.block_size = fs.superblock.block_size := by
    rw [frees.superblock]
    rfl
  refine patched frees.size (by rw [length]; exact inside) ?_ fun i out => ?_
  · rw [length]
    refine Bitmap.bytes_eq_of_get_bit length.symm fun j _ => ?_
    have now := changed j
    rw [blockBytes, block_size] at now
    rw [now, bits]
    congr 2
    exact decide_eq_decide.mpr (by simp [FlushedRecords.InSpans]; omega)
  · rw [length] at out
    exact frees.bytes gd found i out

/-- What is left to be read when the inode has been released and its slot written. -/
theorem stripped_reader {mid₁ mid₂ : Filesystem} {offset : Nat} (releases : ReleasesData fs inode)
    (freed : (free_data inode).run fs = .ok () mid₁) (freed' : (free_inode n).run mid₁ = .ok () mid₂) (slot : InSlot fs n offset)
    (positive : 0 < fs.superblock.block_size.toNat) :
    (withSlot mid₂ offset (deleted inode)).reader = (stripped fs n inode).reader := by
  have frees := free_data_ok freed
  have frees' := free_inode_ok freed'
  have releases' := (ReleasesInode.after frees).mp (free_inode_releases freed' (by rw [frees.block_size]; exact positive))
  obtain ⟨gd, found, fits, inside⟩ := releases'.read
  have block_size := frees.block_size
  have inode_size : mid₂.superblock.inode_size = fs.superblock.inode_size := by
    rw [frees'.superblock, frees.superblock]
    rfl
  obtain ⟨gd₁, found₁, _, _, _, rfl⟩ := frees.altered.group (gdt_at_eq_ok.mp found)
  have second := FreesInode.reader frees' (gdt_at_eq_ok.mpr found₁) (by rw [block_size, frees.size]; exact inside)
  have first : mid₁.reader = (if total (freedRuns inode) = 0 then fs else
      with_block fs gd.block_bitmap.toNat (clear_bits · (freedRuns inode))).reader := by
    by_cases none : total (freedRuns inode) = 0
    · rw [if_pos none, free_data_nothing none freed]
    · rw [if_neg none]
      obtain ⟨gd', found', -, inside'⟩ := releases.runs.read (by omega)
      cases found.symm.trans found'
      exact Frees.reader frees found inside'
  have same : (if total (freedRuns inode) = 0 then fs else
      with_block fs gd.block_bitmap.toNat (clear_bits · (freedRuns inode))).superblock = fs.superblock := by
    split <;> rfl
  simp only [stripped, found, slot.found]
  generalize (if total (freedRuns inode) = 0 then fs else
    with_block fs gd.block_bitmap.toNat (clear_bits · (freedRuns inode))) = freed at first same ⊢
  rw [withSlot, withSlot, inode_size, second]
  simp only [with_block, blockBytes, block_size, first, same]
end

/-! ### The steps of a removal -/

/-- The first block of the directory without the entry. -/
def entry_gone (fs : Filesystem) (parent : Inode) (n : UInt32) (name : List UInt8) : Res Ext4Error Bytes := do
  let (_, buf) ← first_block fs parent
  erase_entry buf n name

/-- A removal goes on after something has been changed, and then fails: the bitmap of
    the inodes is not read, or the entry is not found in the first block. -/
def Strands (fs : Filesystem) (parent : Inode) (n : UInt32) (inode : Inode) (name : List UInt8) : Prop :=
  ReleasesData fs inode ∧ ((0 < total (freedRuns inode) ∧ Unreadable fs (·.inode_bitmap)) ∨
    (ReleasesInode fs n ∧ ∃ e, entry_gone (stripped fs n inode) parent n name = .error (.err e)))

section
variable {fs fs' : Filesystem} {path name : List UInt8} {p n : UInt32} {parent inode : Inode} {e : Ext4Error}

/-- The entry is looked for in the image alone. -/
theorem entry_gone_congr {a b : Filesystem} (reader : a.reader = b.reader)
    (block_size : a.superblock.block_size = b.superblock.block_size) (parent : Inode) (n : UInt32) (name : List UInt8) :
    entry_gone a parent n name = entry_gone b parent n name := by
  have nodes : ∀ logical steps node_buf, resolve_steps a logical steps node_buf = resolve_steps b logical steps node_buf := by
    intro logical steps
    induction steps with
    | zero => exact fun _ => rfl
    | succ steps ih =>
      intro node_buf
      simp only [resolve_steps, reader, block_size, ih]
  simp only [entry_gone, first_block, resolve_logical_block, load_block, nodes, reader, block_size]
theorem remove_dir_entry_err : (remove_dir_entry parent n name).run fs = .err e fs' ↔
    entry_gone fs parent n name = .error (.err e) ∧ fs' = fs := by
  unfold remove_dir_entry
  rw [entry_gone]
  cases held : first_block fs parent with
  | error fault =>
    rw [run_bind, run_reads, held]
    cases fault <;> simp [eq_comm]
  | ok pair =>
    rw [run_bind, run_reads, held, ofRes_ok, andThen_ok, res_bind_ok, run_bind, run_lift]
    dsimp only
    cases erase_entry pair.2 n name with
    | error fault => cases fault <;> simp [eq_comm]
    | ok buf => simp [write_at]

/-- A count that has become more is another one. -/
theorem more_inodes {x : UInt32} (fits : x.toNat + 1 < 4294967296) : UInt32.ofNat (x.toNat + 1) ≠ x := by
  intro same
  have count := congrArg UInt32.toNat same
  rw [UInt32.toNat_ofNat', Nat.mod_eq_of_lt fits] at count
  omega
theorem more_blocks {x : UInt64} {k : Nat} (some : 0 < k) (fits : x.toNat + k < 18446744073709551616) :
    UInt64.ofNat (x.toNat + k) ≠ x := by
  intro same
  have count := congrArg UInt64.toNat same
  rw [UInt64.toNat_ofNat', Nat.mod_eq_of_lt fits] at count
  omega
theorem stripped_superblock (fs : Filesystem) (n : UInt32) (inode : Inode) :
    (stripped fs n inode).superblock = fs.superblock := by
  unfold stripped
  split
  · dsimp only
    rw [withSlot_superblock, with_block]
    dsimp only
    split <;> rfl
  · rfl
/-- The image that the entry is looked for in has the same blocks. -/
theorem stripped_size {mid₁ mid₂ : Filesystem} {runs : List (Nat × Nat)} (frees : Frees fs mid₁ runs)
    (frees' : FreesInode mid₁ mid₂ n) (offset : Nat) :
    (withSlot mid₂ offset (deleted inode)).superblock.block_size = (stripped fs n inode).superblock.block_size := by
  rw [withSlot_superblock, frees'.superblock, frees.superblock, stripped_superblock]
  rfl

/-- Otherwise a removal that fails has changed nothing. -/
theorem destroy_err (read : read_inode fs n = .ok inode) (positive : 0 < fs.superblock.block_size.toNat)
    (through : ¬ Strands fs parent n inode name) (ran : (destroy parent n inode name).run fs = .err e fs') : fs' = fs := by
  unfold destroy at ran
  rcases run_bind_eq_err.mp ran with first | ⟨_, mid₁, first, ran₁⟩
  · exact free_data_err positive first
  have releases := (free_data_iff positive).mp ⟨mid₁, first⟩
  have frees := free_data_ok first
  rcases run_bind_eq_err.mp ran₁ with second | ⟨_, mid₂, second, ran₂⟩
  · obtain ⟨rfl, unreadable⟩ := free_inode_err second
    by_cases none : total (freedRuns inode) = 0
    · exact free_data_nothing none first
    · have unreadable' := (Altered.readable frees.altered same_inode_bitmap).2.mp unreadable
      exact absurd ⟨releases, .inl ⟨by omega, unreadable'⟩⟩ through
  have frees' := free_inode_ok second
  obtain ⟨offset, slot, -⟩ := slot_of_read read
  have slot' := frees'.altered.inSlot (frees.altered.inSlot slot)
  rcases run_bind_eq_err.mp ran₂ with third | ⟨_, mid₃, third, ran₃⟩
  · cases third.symm.trans (write_inode_run slot' _)
  obtain rfl := (Ended.ok.inj (third.symm.trans (write_inode_run slot' _))).2
  obtain ⟨failed, -⟩ := remove_dir_entry_err.mp ran₃
  rw [entry_gone_congr (stripped_reader releases first second slot positive) (stripped_size frees frees' offset)] at failed
  have releases' := (ReleasesInode.after frees).mp (free_inode_releases second (by rw [frees.block_size]; exact positive))
  exact absurd ⟨releases, .inr ⟨releases', e, failed⟩⟩ through
/-- A removal that is stopped halfway has changed a count. -/
theorem destroy_strands (read : read_inode fs n = .ok inode) (positive : 0 < fs.superblock.block_size.toNat)
    (strands : Strands fs parent n inode name) : ∃ e fs', (destroy parent n inode name).run fs = .err e fs' ∧ fs' ≠ fs := by
  obtain ⟨releases, stops⟩ := strands
  obtain ⟨mid₁, first⟩ := (free_data_iff positive).mpr releases
  have frees := free_data_ok first
  have positive' : 0 < mid₁.superblock.block_size.toNat := by
    rw [frees.block_size]
    exact positive
  rcases stops with ⟨some, unreadable⟩ | ⟨releases', e, failed⟩
  · have unreadable' := (Altered.readable frees.altered same_inode_bitmap).2.mpr unreadable
    refine ⟨.Io, mid₁, ?_, fun same => ?_⟩
    · unfold destroy
      rw [run_bind, first, andThen_ok, run_bind, free_inode_unread positive' unreadable', andThen_err]
    · have count := congrArg (fun fs => fs.superblock.free_blocks_count) same
      simp only [frees.superblock, on_all_free_blocks] at count
      exact more_blocks some frees.fits count
  · obtain ⟨mid₂, second⟩ := free_inode_run ((ReleasesInode.after frees).mpr releases')
    have frees' := free_inode_ok second
    obtain ⟨offset, slot, -⟩ := slot_of_read read
    have slot' := frees'.altered.inSlot (frees.altered.inSlot slot)
    rw [← entry_gone_congr (stripped_reader releases first second slot positive) (stripped_size frees frees' offset)] at failed
    refine ⟨e, withSlot mid₂ offset (deleted inode), ?_, fun same => ?_⟩
    · unfold destroy
      rw [run_bind, first, andThen_ok, run_bind, second, andThen_ok, run_bind, write_inode_run slot', andThen_ok]
      exact remove_dir_entry_err.mpr ⟨failed, rfl⟩
    · have count := congrArg (fun fs => fs.superblock.free_inodes_count) same
      simp only [withSlot_superblock, frees'.superblock, frees.superblock, on_all_free_inodes, on_all_free_blocks] at count
      exact more_inodes releases'.fits count

/-- On a sound image neither the bitmaps nor the slot are part of the directory, and the
    entry is looked for in the block as it is. -/
theorem entry_apart (consistent : ConsistentImage fs) (found : Found fs path name p parent n inode)
    (releases : ReleasesData fs inode) (releases' : ReleasesInode fs n) (positive : 0 < fs.superblock.block_size.toNat) :
    entry_gone (stripped fs n inode) parent n name = entry_gone fs parent n name := by
  have separate : Separate fs := consistent.separate
  obtain ⟨live, read, -, -⟩ := found.alive consistent
  obtain ⟨mid₁, first⟩ := (free_data_iff positive).mpr releases
  have frees := free_data_ok first
  obtain ⟨mid₂, second⟩ := free_inode_run ((ReleasesInode.after frees).mpr releases')
  have frees' := free_inode_ok second
  obtain ⟨offset, slot, -⟩ := slot_of_read found.read
  have slot' := frees'.altered.inSlot (frees.altered.inSlot slot)
  have kept : ∀ use : Use, use.Fixed → ∀ use' ∈ [use], use'.Fixed := by
    intro use fixed use' member
    rw [List.mem_singleton.mp member]
    exact fixed
  have whole : Altered (Among fs [.blockBitmap 0, .inodeBitmap 0, .slot n]) fs (withSlot mid₂ offset (deleted inode)) := by
    have one : Altered (Among fs [.blockBitmap 0, .inodeBitmap 0, .slot n]) fs mid₁ :=
      frees.altered.wider fun i => among_more (by simp)
    have two : Altered (Among fs [.blockBitmap 0, .inodeBitmap 0, .slot n]) mid₁ mid₂ :=
      frees'.altered.wider fun i among => among_more (by simp) (one.among (kept (.inodeBitmap 0) trivial) among)
    refine (one.trans two).trans ((write_inode_altered slot' (deleted inode)).wider fun i among => ?_)
    exact among_more (by simp) ((one.trans two).among (kept (.slot n) trivial) among)
  rw [← entry_gone_congr (stripped_reader releases first second slot positive) (stripped_size frees frees' offset)]
  cases based : Inode.uses_extents parent with
  | true => rw [entry_gone, entry_gone, whole.first_block (separate.untouched live read based (by simp) (by simp))]
  | false =>
    have refused : ∀ fs, first_block fs parent = .error (.err .NotExtentBased) := by
      intro fs
      rw [first_block, resolve_logical_block, based]
      rfl
    rw [entry_gone, entry_gone, refused, refused]
end

/-! ### The calls -/

/-- The checks of a removal that go before it changes anything. -/
structure Unlinkable (fs : Filesystem) (path name : List UInt8) (p : UInt32) (parent : Inode) (n : UInt32) (inode : Inode) :
    Prop where
  found : Found fs path name p parent n inode
  plain : Inode.is_directory inode = false
structure Removable (fs : Filesystem) (path name : List UInt8) (p : UInt32) (parent : Inode) (n : UInt32) (inode : Inode) :
    Prop where
  found : Found fs path name p parent n inode
  other : n ≠ ROOT_INODE
  directory : Inode.is_directory inode = true
  empty : ∃ entries, read_dir fs inode = .ok entries ∧
    entries.countP (fun e => !is_unused e && e.name != DOT && e.name != DOTDOT) = 0

/-- When the call fails the image and the records in memory are as they were. -/
def FailsUnchanged (fs : Filesystem) (call : Call Unit) : Prop := ∀ e fs', call.run fs = .err e fs' → fs' = fs

section
variable {fs fs' : Filesystem} {path name : List UInt8} {p n : UInt32} {parent inode : Inode} {e : Ext4Error}

theorem unlink_run (unlinkable : Unlinkable fs path name p parent n inode) : (unlink path).run fs =
    ((destroy parent n inode name).run fs).andThen fun _ mid => flush_metadata.run mid := by
  obtain ⟨⟨⟨parent_path, split, opened⟩, looked, read⟩, plain⟩ := unlinkable
  unfold unlink
  simp only [run_bind, run_lift, split, ofRes_ok, andThen_ok, run_reads, opened, looked, read, plain, Bool.not_false,
    ensure_true]
theorem unlink_checked (ran : (unlink path).run fs = .err e fs') (changed : fs' ≠ fs) :
    ∃ name p parent n inode, Unlinkable fs path name p parent n inode := by
  unfold unlink at ran
  rcases run_bind_eq_err.mp ran with first | ⟨⟨parent_path, name⟩, s₁, first, ran₁⟩
  · exact absurd (run_lift_eq_err.mp first).2 changed
  obtain ⟨split, rfl⟩ := run_lift_eq_ok.mp first
  rcases run_bind_eq_err.mp ran₁ with second | ⟨⟨p, parent⟩, s₂, second, ran₂⟩
  · exact absurd (run_reads_eq_err.mp second).2 changed
  obtain ⟨opened, rfl⟩ := run_reads_eq_ok.mp second
  rcases run_bind_eq_err.mp ran₂ with third | ⟨n, s₃, third, ran₃⟩
  · exact absurd (run_reads_eq_err.mp third).2 changed
  obtain ⟨looked, rfl⟩ := run_reads_eq_ok.mp third
  rcases run_bind_eq_err.mp ran₃ with fourth | ⟨inode, s₄, fourth, ran₄⟩
  · exact absurd (run_reads_eq_err.mp fourth).2 changed
  obtain ⟨read, rfl⟩ := run_reads_eq_ok.mp fourth
  rcases run_bind_eq_err.mp ran₄ with fifth | ⟨_, s₅, fifth, ran₅⟩
  · exact absurd (run_lift_eq_err.mp fifth).2 changed
  obtain ⟨plain, rfl⟩ := run_lift_eq_ok.mp fifth
  have plain' : Inode.is_directory inode = false := by simpa using ensure_eq_ok.mp plain
  exact ⟨name, p, parent, n, inode, ⟨⟨parent_path, split, opened⟩, looked, read⟩, plain'⟩
theorem rmdir_run (removable : Removable fs path name p parent n inode) : (rmdir path).run fs =
    ((destroy parent n inode name).run fs).andThen fun _ mid => (do
      write_inode p { parent with links_count := .ofNat (parent.links_count.toNat - 1) }
      change_gdt0 (on_used_dirs (· - 1))
      flush_metadata : Call Unit).run mid := by
  obtain ⟨⟨⟨parent_path, split, opened⟩, looked, read⟩, other, directory, entries, listed, empty⟩ := removable
  unfold rmdir
  simp only [run_bind, run_lift, split, ofRes_ok, andThen_ok, run_reads, opened, looked, ensure_of other, read, directory,
    ensure_true, listed, ensure_of empty]
  rfl
theorem rmdir_checked (ran : (rmdir path).run fs = .err e fs') (changed : fs' ≠ fs) :
    ∃ name p parent n inode, Removable fs path name p parent n inode := by
  unfold rmdir at ran
  rcases run_bind_eq_err.mp ran with first | ⟨⟨parent_path, name⟩, s₁, first, ran₁⟩
  · exact absurd (run_lift_eq_err.mp first).2 changed
  obtain ⟨split, rfl⟩ := run_lift_eq_ok.mp first
  rcases run_bind_eq_err.mp ran₁ with second | ⟨⟨p, parent⟩, s₂, second, ran₂⟩
  · exact absurd (run_reads_eq_err.mp second).2 changed
  obtain ⟨opened, rfl⟩ := run_reads_eq_ok.mp second
  rcases run_bind_eq_err.mp ran₂ with third | ⟨n, s₃, third, ran₃⟩
  · exact absurd (run_reads_eq_err.mp third).2 changed
  obtain ⟨looked, rfl⟩ := run_reads_eq_ok.mp third
  rcases run_bind_eq_err.mp ran₃ with fourth | ⟨_, s₄, fourth, ran₄⟩
  · exact absurd (run_lift_eq_err.mp fourth).2 changed
  obtain ⟨other, rfl⟩ := run_lift_eq_ok.mp fourth
  rcases run_bind_eq_err.mp ran₄ with fifth | ⟨inode, s₅, fifth, ran₅⟩
  · exact absurd (run_reads_eq_err.mp fifth).2 changed
  obtain ⟨read, rfl⟩ := run_reads_eq_ok.mp fifth
  rcases run_bind_eq_err.mp ran₅ with sixth | ⟨_, s₆, sixth, ran₆⟩
  · exact absurd (run_lift_eq_err.mp sixth).2 changed
  obtain ⟨directory, rfl⟩ := run_lift_eq_ok.mp sixth
  rcases run_bind_eq_err.mp ran₆ with seventh | ⟨entries, s₇, seventh, ran₇⟩
  · exact absurd (run_reads_eq_err.mp seventh).2 changed
  obtain ⟨listed, rfl⟩ := run_reads_eq_ok.mp seventh
  rcases run_bind_eq_err.mp ran₇ with eighth | ⟨_, s₈, eighth, ran₈⟩
  · exact absurd (run_lift_eq_err.mp eighth).2 changed
  obtain ⟨empty, rfl⟩ := run_lift_eq_ok.mp eighth
  exact ⟨name, p, parent, n, inode, ⟨⟨parent_path, split, opened⟩, looked, read⟩, of_decide_eq_true (ensure_eq_ok.mp other),
    ensure_eq_ok.mp directory, entries, listed, of_decide_eq_true (ensure_eq_ok.mp empty)⟩

/-- What comes after the entry has gone does not fail. -/
theorem unlink_finishes {mid : Filesystem} (flushable : Flushable fs) (positive : 0 < fs.superblock.block_size.toNat)
    (destroys : Destroys fs mid parent n inode name) : flush_metadata.run mid ≠ .err e fs' := by
  intro ran
  obtain ⟨r, flushed, -⟩ := flush_altered (destroys.flushable flushable positive)
  cases ran.symm.trans flushed
theorem rmdir_finishes {mid : Filesystem} (flushable : Flushable fs) (positive : 0 < fs.superblock.block_size.toNat)
    (read : read_inode fs p = .ok parent) (destroys : Destroys fs mid parent n inode name) (holder : Inode) : (do
      write_inode p holder
      change_gdt0 (on_used_dirs (· - 1))
      flush_metadata : Call Unit).run mid ≠ .err e fs' := by
  intro ran
  have altered := destroys.anywhere positive
  obtain ⟨offset, slot, -⟩ := slot_of_read read
  have slot' := altered.inSlot slot
  have written := write_inode_altered slot' holder
  have recounted : Altered (fun _ => True) (withSlot mid offset holder)
      { withSlot mid offset holder with gdt := on_group0 (on_used_dirs (· - 1)) (withSlot mid offset holder).gdt } :=
    ⟨⟨_, _, rfl⟩, forall₂_on_group0 (fun _ => ⟨_, _, _, rfl⟩) _, rfl, fun _ _ => rfl⟩
  obtain ⟨r, flushed, -⟩ := flush_altered (((flushable.altered altered).altered written).altered recounted)
  rw [run_bind, write_inode_run slot', andThen_ok, run_bind, change_gdt0, run_change, andThen_ok] at ran
  cases ran.symm.trans flushed

theorem unlink_unchanged_iff {image : Bytes} (accepted : open_image image = .ok fs) (path : List UInt8) :
    FailsUnchanged fs (unlink path) ↔ ∀ name p parent n inode, Unlinkable fs path name p parent n inode →
      ¬ Strands fs parent n inode name := by
  have flushable := flushable_opened accepted
  have positive : 0 < fs.superblock.block_size.toNat :=
    Nat.lt_of_lt_of_le (by decide) (FileMap.Opened.positive (Decoders.opened_of accepted))
  constructor
  · intro unchanged name p parent n inode unlinkable strands
    obtain ⟨e, fs', stopped, changed⟩ := destroy_strands unlinkable.found.read positive strands
    refine changed (unchanged e fs' ?_)
    rw [unlink_run unlinkable, stopped, andThen_err]
  · intro through e fs' ran
    refine Decidable.byContradiction fun changed => ?_
    obtain ⟨name, p, parent, n, inode, unlinkable⟩ := unlink_checked ran changed
    rw [unlink_run unlinkable] at ran
    cases ends : (destroy parent n inode name).run fs with
    | ok u mid =>
      rw [ends, andThen_ok] at ran
      exact unlink_finishes flushable positive (destroy_ok unlinkable.found.read ends) ran
    | err d mid =>
      rw [ends, andThen_err] at ran
      cases ran
      exact changed (destroy_err unlinkable.found.read positive (through _ _ _ _ _ unlinkable) ends)
    | panic =>
      rw [ends] at ran
      cases ran
theorem rmdir_unchanged_iff {image : Bytes} (accepted : open_image image = .ok fs) (path : List UInt8) :
    FailsUnchanged fs (rmdir path) ↔ ∀ name p parent n inode, Removable fs path name p parent n inode →
      ¬ Strands fs parent n inode name := by
  have flushable := flushable_opened accepted
  have positive : 0 < fs.superblock.block_size.toNat :=
    Nat.lt_of_lt_of_le (by decide) (FileMap.Opened.positive (Decoders.opened_of accepted))
  constructor
  · intro unchanged name p parent n inode removable strands
    obtain ⟨e, fs', stopped, changed⟩ := destroy_strands removable.found.read positive strands
    refine changed (unchanged e fs' ?_)
    rw [rmdir_run removable, stopped, andThen_err]
  · intro through e fs' ran
    refine Decidable.byContradiction fun changed => ?_
    obtain ⟨name, p, parent, n, inode, removable⟩ := rmdir_checked ran changed
    rw [rmdir_run removable] at ran
    cases ends : (destroy parent n inode name).run fs with
    | ok u mid =>
      rw [ends, andThen_ok] at ran
      exact rmdir_finishes flushable positive removable.found.parent_read.2.1 (destroy_ok removable.found.read ends) _ ran
    | err d mid =>
      rw [ends, andThen_err] at ran
      cases ran
      exact changed (destroy_err removable.found.read positive (through _ _ _ _ _ removable) ends)
    | panic =>
      rw [ends] at ran
      cases ran

/-- A removal that fails leaves everything as it was exactly when it does not get
    through the checks and the release of the blocks before it is stopped. -/
theorem failed_removal_unchanged_iff {image : Bytes} (accepted : open_image image = .ok fs) (path : List UInt8) :
    (FailsUnchanged fs (unlink path) ↔ ∀ name p parent n inode, Unlinkable fs path name p parent n inode →
      ¬ Strands fs parent n inode name) ∧
    (FailsUnchanged fs (rmdir path) ↔ ∀ name p parent n inode, Removable fs path name p parent n inode →
      ¬ Strands fs parent n inode name) :=
  ⟨unlink_unchanged_iff accepted path, rmdir_unchanged_iff accepted path⟩
end

/-! ### A name in the second block -/

/-- The call has failed and the count of free inodes is another one. -/
def failed_counting {α : Type} (fs : Filesystem) : Ended Filesystem Ext4Error α → Bool
  | .err _ fs' => fs'.superblock.free_inodes_count != fs.superblock.free_inodes_count
  | _ => false

/-- The lookup finds the name, the inode goes, and the entry stays. -/
theorem second_block_strands : open_image wideState.reader = .ok wideState ∧
    open_path wideState [SLASH, 98] = .ok 12 ∧ ¬ FailsUnchanged wideState (unlink [SLASH, 98]) := by
  have failed : failed_counting wideState ((unlink [SLASH, 98]).run wideState) = true := by decide +kernel
  refine ⟨wide_opens, by decide +kernel, fun unchanged => ?_⟩
  cases ends : (unlink [SLASH, 98]).run wideState with
  | ok u fs' =>
    rw [ends] at failed
    cases failed
  | err e fs' =>
    rw [ends] at failed
    rw [unchanged e fs' ends, failed_counting] at failed
    simp at failed
  | panic =>
    rw [ends] at failed
    cases failed

theorem wide_found {name : List UInt8} {p n : UInt32} {parent inode : Inode} (found : Found wideState [SLASH, 97] name p parent n inode) :
    name = [97] ∧ parent = wideRoot ∧ n = 11 ∧ inode = leafInode 0x81A4 1 0 [] := by
  obtain ⟨⟨parent_path, split, opened⟩, looked, read⟩ := found
  cases (show split_path [SLASH, 97] = .ok ([SLASH], [97]) by decide).symm.trans split
  rw [open_directory, show open_path wideState [SLASH] = .ok 2 by decide +kernel, res_bind_ok,
    show read_inode wideState 2 = .ok wideRoot from small_reads wide_assembles (by decide) (by decide)
      (by simp [wideParts, Survey.smallParts])] at opened
  cases opened
  cases (show lookup wideState wideRoot [97] = .ok 11 by decide +kernel).symm.trans looked
  cases (show read_inode wideState 11 = .ok (leafInode 0x81A4 1 0 []) from small_reads wide_assembles (by decide) (by decide)
    (by simp [wideParts, Survey.smallParts])).symm.trans read
  exact ⟨rfl, rfl, rfl, rfl⟩
/-- A name in the first block goes, and a file is no directory. -/
theorem first_block_unchanged : FailsUnchanged wideState (unlink [SLASH, 97]) ∧ FailsUnchanged wideState (rmdir [SLASH, 97]) := by
  obtain ⟨files, directories⟩ := failed_removal_unchanged_iff wide_opens [SLASH, 97]
  constructor
  · refine files.mpr fun name p parent n inode unlinkable => ?_
    obtain ⟨rfl, rfl, rfl, rfl⟩ := wide_found unlinkable.found
    rintro ⟨-, ⟨some, -⟩ | ⟨-, e, failed⟩⟩
    · exact absurd some (by decide)
    · have gone : (entry_gone (stripped wideState 11 (leafInode 0x81A4 1 0 [])) wideRoot 11 [97]).isOk = true := by
        decide +kernel
      rw [failed] at gone
      cases gone
  · refine directories.mpr fun name p parent n inode removable => ?_
    obtain ⟨rfl, rfl, rfl, rfl⟩ := wide_found removable.found
    exact absurd removable.directory (by decide)

end Justext4.FailedRemoval
