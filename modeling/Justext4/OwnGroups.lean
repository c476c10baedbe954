import Justext4.GroupBitmaps
import Justext4.ReleaseEnds

/-!
Whether what is released goes back to the group that it belongs to. The calls go
through their checks, and then clear bits of the first group whatever the group
is. They keep to the groups exactly when they do not get to the bitmaps, or when
all that they release is of the first group.
-/
namespace Justext4.OwnGroups
open Justext4 Justext4.Fallible Justext4.Filesystem Bytes
open Justext4.GroupDescriptor (GroupDescriptor)
open Justext4.Inode (Inode)
open Justext4.Extent (Extent ExtentHeader decode_extent_node)
open Justext4.DirEntry (is_unused)
open Justext4.FlushedRecords (InSpans)
open Justext4.Slots (withSlot withSlot_gdt slot_of_read write_inode_run)
open Justext4.Recounting
open Justext4.Regions
open Justext4.Releasing
open Justext4.Survey (Sound numbers extentsOf extents_below returned leafInode entryBytes rootEntries)
open Justext4.Unlinking
open Justext4.Unmapping (runOf)
open Justext4.FailedRemoval
open Justext4.GroupBitmaps
open Justext4.ReleaseEnds

/-! ### What is cleared -/

section
variable {fs mid fs' : Filesystem} {name : List UInt8} {p n : UInt32} {parent inode : Inode}

/-- A removal, and what is written after it besides bitmaps. -/
theorem Destroys.cleared (destroys : Destroys fs mid parent n inode name) (separate : Separate fs) (live : Live fs p)
    (read : read_inode fs p = .ok parent) (positive : 0 < fs.superblock.block_size.toNat) (releases : ReleasesInode fs n)
    (after : Altered (Among fs [.slot p, .superblock, .table]) mid fs')
    (counts : ∀ (group : Nat) (gd : GroupDescriptor), mid.gdt[group]? = some gd → ∃ gd', fs'.gdt[group]? = some gd' ∧
      gd'.free_blocks_count = gd.free_blocks_count ∧ gd'.free_inodes_count = gd.free_inodes_count) :
    Cleared fs fs' (freedRuns inode) [n] := by
  obtain ⟨mid₁, mid₂, offset, pos, buf, buf', apart⟩ := destroys.apart separate live read positive
  obtain ⟨gd₀, found₀, -, -⟩ := releases.read
  have last : Altered (Among fs [.slot n, .data p, .slot p, .superblock, .table]) mid₂ fs' :=
    ((apart.third.wider fun i => among_more (by simp)).trans (apart.fourth.wider fun i => among_more (by simp))).trans
      (after.wider fun i => among_more (by simp))
  have later : Altered (Among fs [.inodeBitmap 0, .slot n, .data p, .slot p, .superblock, .table]) mid₁ fs' :=
    (apart.second.wider fun i => among_more (by simp)).trans (last.wider fun i => among_more (by simp))
  refine ⟨Frees.inOne apart.freed separate found₀ later (by simp),
    FreesInode.inOne apart.freed' separate apart.first apart.second last (by simp) (by simp), apart.freed.inside,
    fun m listed => ?_, fun group gd found => ?_⟩
  · rw [List.mem_singleton.mp listed]
    exact releases.inside
  · have table : mid.gdt = on_group0 (on_free_inodes (· + 1)) (on_group0 (on_free_blocks (· + total (freedRuns inode))) fs.gdt) := by
      rw [apart.wrote, wrote_gdt, withSlot_gdt, apart.freed'.gdt, apart.freed.gdt]
    by_cases zero : group = 0
    · subst zero
      have here : mid.gdt[0]? = some (on_free_inodes (· + 1) (on_free_blocks (· + total (freedRuns inode)) gd)) := by
        rw [table, on_group0_get, on_group0_get, found]
        rfl
      obtain ⟨gd', found', blocks, inodes⟩ := counts 0 _ here
      have fits := apart.freed.group_fits gd (gdt_at_eq_ok.mpr found)
      have fits' := releases.group_fits gd (gdt_at_eq_ok.mpr found)
      refine ⟨gd', found', ?_, ?_⟩
      · rw [blocks, if_pos rfl]
        exact (UInt32.toNat_ofNat' ..).trans (Nat.mod_eq_of_lt fits)
      · rw [inodes, if_pos rfl]
        exact (UInt32.toNat_ofNat' ..).trans (Nat.mod_eq_of_lt fits')
    · have here : mid.gdt[group]? = some gd := by
        rw [table, on_group0_get, on_group0_get, found]
        simp [zero]
      obtain ⟨gd', found', blocks, inodes⟩ := counts group _ here
      exact ⟨gd', found', by rw [blocks, if_neg zero, Nat.add_zero], by rw [inodes, if_neg zero, Nat.add_zero]⟩

/-- Blocks alone, and what is written after them besides bitmaps. -/
theorem Frees.cleared {runs : List (Nat × Nat)} (frees : Frees fs mid runs) (separate : Separate fs) {gd : GroupDescriptor}
    (found : gdt_at fs 0 = .ok gd) (after : Altered (Among fs [.slot n, .superblock, .table]) mid fs') (table : fs'.gdt = mid.gdt) :
    Cleared fs fs' runs [] := by
  have whole : Altered (Among fs [.blockBitmap 0, .slot n, .superblock, .table]) fs fs' :=
    (frees.altered.wider fun i => among_more (by simp)).trans (after.wider fun i => among_more (by simp))
  refine ⟨Frees.inOne frees separate found after (by simp), fun group j => ?_, frees.inside, by simp, fun group gd' found' => ?_⟩
  · rw [inodeBits_kept separate (altered_refl (fun _ => False) fs) whole (by simp)]
    simp [numberRuns, InSpans]
  · rw [table, frees.gdt, on_group0_get, found', Option.map_some]
    refine ⟨_, rfl, ?_⟩
    by_cases zero : group = 0
    · subst zero
      have fits := frees.group_fits gd' (gdt_at_eq_ok.mpr found')
      rw [if_pos rfl, if_pos rfl, if_pos rfl]
      exact ⟨(UInt32.toNat_ofNat' ..).trans (Nat.mod_eq_of_lt fits), rfl⟩
    · rw [if_neg zero, if_neg zero, if_neg zero]
      exact ⟨rfl, rfl⟩
end

/-! ### The calls -/

/-- The calls that release space. -/
inductive Release where
  | unlink (path : List UInt8)
  | rmdir (path : List UInt8)
  | truncate (path : List UInt8) (new_size : UInt64)
def Release.call : Release → Call Unit
  | .unlink path => Filesystem.unlink path
  | .rmdir path => Filesystem.rmdir path
  | .truncate path new_size => Filesystem.truncate path new_size

/-- What a removal is about to take out. -/
structure Target where
  name : List UInt8
  p : UInt32
  parent : Inode
  n : UInt32
  inode : Inode
/-- The checks of the calls, which go before anything is changed. -/
def unlink_target (fs : Filesystem) (path : List UInt8) : Res Ext4Error Target := do
  let (parent_path, name) ← split_path path
  let (p, parent) ← open_directory fs parent_path
  let n ← lookup fs parent name
  let inode ← read_inode fs n
  ensure (!Inode.is_directory inode) (.IsADirectory n)
  .ok ⟨name, p, parent, n, inode⟩
def rmdir_target (fs : Filesystem) (path : List UInt8) : Res Ext4Error Target := do
  let (parent_path, name) ← split_path path
  let (p, parent) ← open_directory fs parent_path
  let n ← lookup fs parent name
  ensure (n ≠ ROOT_INODE) (.DirectoryNotEmpty n)
  let inode ← read_inode fs n
  ensure (Inode.is_directory inode) (.NotADirectory n)
  let entries ← read_dir fs inode
  ensure (entries.countP (fun e => !is_unused e && e.name != DOT && e.name != DOTDOT) = 0) (.DirectoryNotEmpty n)
  .ok ⟨name, p, parent, n, inode⟩
def truncate_target (fs : Filesystem) (path : List UInt8) : Res Ext4Error (UInt32 × Inode) := do
  let n ← open_path fs path
  let inode ← read_inode fs n
  ensure (Inode.is_regular inode) (.NotARegularFile n)
  .ok (n, inode)

/-- The runs and the inodes that a call releases once its checks are passed. -/
inductive Gives (fs : Filesystem) : Release → List (Nat × Nat) → List UInt32 → Prop
  | unlink {path : List UInt8} {t : Target} (checked : unlink_target fs path = .ok t) :
      Gives fs (.unlink path) (freedRuns t.inode) [t.n]
  | rmdir {path : List UInt8} {t : Target} (checked : rmdir_target fs path = .ok t) :
      Gives fs (.rmdir path) (freedRuns t.inode) [t.n]
  | cut {path : List UInt8} {new_size : UInt64} {n : UInt32} {inode : Inode} {header : ExtentHeader} {es : List Extent}
      (checked : truncate_target fs path = .ok (n, inode)) (smaller : new_size < inode.size)
      (decoded : decode_extent_node inode.block.bytes = .ok (.Leaf header es)) :
      Gives fs (.truncate path new_size) (released (cutoff fs new_size) es) []
  | keep {path : List UInt8} {new_size : UInt64} {n : UInt32} {inode : Inode}
      (checked : truncate_target fs path = .ok (n, inode)) (larger : ¬ new_size < inode.size) :
      Gives fs (.truncate path new_size) [] []

/-- The call fails without a change, or what it releases is cleared in the bitmaps of the
    groups that it belongs to. -/
def KeepsGroups (fs : Filesystem) (release : Release) : Prop :=
  match release.call.run fs with
  | .ok _ fs' => ∃ runs inodes, Gives fs release runs inodes ∧ Returned fs fs' runs inodes
  | .err _ fs' => fs' = fs
  | .panic => False

/-- The checks end, and what passes them is as it should be. -/
def Passing {α : Type} (checked : Res Ext4Error α) (P : α → Prop) : Prop := NoPanic checked ∧ ∀ a, checked = .ok a → P a
/-- Nothing is released, or all of it and it is of the first group. -/
def Removes (fs : Filesystem) (t : Target) : Prop :=
  Undone fs t.inode ∨ (Done fs t.parent t.n t.inode t.name ∧ InFirst fs (freedRuns t.inode) [t.n])
def Cuts (fs : Filesystem) (inode : Inode) (new_size : UInt64) : Prop :=
  Inode.uses_extents inode = true → ∀ header es, decode_extent_node inode.block.bytes = .ok (.Leaf header es) →
    (0 < total (released (cutoff fs new_size) es) ∧ Unreadable fs (·.block_bitmap)) ∨
      (Releases fs (released (cutoff fs new_size) es) ∧ InFirst fs (released (cutoff fs new_size) es) [])
def Contained (fs : Filesystem) : Release → Prop
  | .unlink path => Passing (unlink_target fs path) (Removes fs)
  | .rmdir path => Passing (rmdir_target fs path) (Removes fs)
  | .truncate path new_size => Passing (truncate_target fs path) fun t => new_size < t.2.size → Cuts fs t.2 new_size

section
variable {fs fs' : Filesystem} {path : List UInt8} {new_size : UInt64} {t : Target}

/-- A check goes before the rest, in the call as in the checks alone. -/
theorem check_then {σ ε α β γ : Type} {s : σ} {x : σ → Res ε α} {f : α → Prog σ ε γ} {g : α → Res ε β}
    {k : β → σ → Ended σ ε γ} (later : ∀ a, (f a).run s = (Ended.ofRes s (g a)).andThen k) :
    (reads x >>= f).run s = (Ended.ofRes s (x s >>= g)).andThen k := by
  rw [run_bind, run_reads]
  cases x s with
  | ok a => exact later a
  | error fault => cases fault <;> rfl

theorem unlink_eq (fs : Filesystem) (path : List UInt8) : (unlink path).run fs =
    (Ended.ofRes fs (unlink_target fs path)).andThen fun t mid => ((destroy t.parent t.n t.inode t.name).run mid).andThen
      fun _ mid => flush_metadata.run mid := by
  unfold unlink unlink_target
  refine check_then fun (parent_path, name) => ?_
  refine check_then fun (p, parent) => ?_
  refine check_then fun n => check_then fun inode => ?_
  exact check_then fun _ => rfl
/-- The end of a removal of a directory. -/
def rmdir_end (p : UInt32) (parent : Inode) : Call Unit := do
  write_inode p { parent with links_count := .ofNat (parent.links_count.toNat - 1) }
  change_gdt0 (on_used_dirs (· - 1))
  flush_metadata
theorem rmdir_eq (fs : Filesystem) (path : List UInt8) : (rmdir path).run fs =
    (Ended.ofRes fs (rmdir_target fs path)).andThen fun t mid => ((destroy t.parent t.n t.inode t.name).run mid).andThen
      fun _ mid => (rmdir_end t.p t.parent).run mid := by
  unfold rmdir rmdir_target
  refine check_then fun (parent_path, name) => ?_
  refine check_then fun (p, parent) => ?_
  refine check_then fun n => check_then fun _ => check_then fun inode => check_then fun _ => ?_
  refine check_then fun entries => ?_
  exact check_then fun _ => rfl
theorem truncate_run (fs : Filesystem) (path : List UInt8) (new_size : UInt64) : (Filesystem.truncate path new_size).run fs =
    (Ended.ofRes fs (truncate_target fs path)).andThen fun t mid =>
      (if new_size = t.2.size then pure () else resize t.1 t.2 new_size : Call Unit).run mid := by
  rw [truncate_eq, truncate_target]
  refine check_then fun n => check_then fun inode => ?_
  exact check_then fun _ => rfl

theorem unlink_target_ok (checked : unlink_target fs path = .ok t) : Found fs path t.name t.p t.parent t.n t.inode := by
  rw [unlink_target] at checked
  obtain ⟨⟨parent_path, name⟩, split, checked⟩ := res_bind_eq_ok.mp checked
  obtain ⟨⟨p, parent⟩, opened, checked⟩ := res_bind_eq_ok.mp checked
  obtain ⟨n, looked, checked⟩ := res_bind_eq_ok.mp checked
  obtain ⟨inode, read, checked⟩ := res_bind_eq_ok.mp checked
  obtain ⟨_, -, checked⟩ := res_bind_eq_ok.mp checked
  cases checked
  exact ⟨⟨parent_path, split, opened⟩, looked, read⟩
theorem rmdir_target_ok (checked : rmdir_target fs path = .ok t) : Found fs path t.name t.p t.parent t.n t.inode := by
  rw [rmdir_target] at checked
  obtain ⟨⟨parent_path, name⟩, split, checked⟩ := res_bind_eq_ok.mp checked
  obtain ⟨⟨p, parent⟩, opened, checked⟩ := res_bind_eq_ok.mp checked
  obtain ⟨n, looked, checked⟩ := res_bind_eq_ok.mp checked
  obtain ⟨_, -, checked⟩ := res_bind_eq_ok.mp checked
  obtain ⟨inode, read, checked⟩ := res_bind_eq_ok.mp checked
  obtain ⟨_, -, checked⟩ := res_bind_eq_ok.mp checked
  obtain ⟨entries, -, checked⟩ := res_bind_eq_ok.mp checked
  obtain ⟨_, -, checked⟩ := res_bind_eq_ok.mp checked
  cases checked
  exact ⟨⟨parent_path, split, opened⟩, looked, read⟩
theorem truncate_target_ok {n : UInt32} {inode : Inode} (checked : truncate_target fs path = .ok (n, inode)) :
    open_path fs path = .ok n ∧ read_inode fs n = .ok inode := by
  rw [truncate_target] at checked
  obtain ⟨n', opened, checked⟩ := res_bind_eq_ok.mp checked
  obtain ⟨inode', read, checked⟩ := res_bind_eq_ok.mp checked
  obtain ⟨_, -, checked⟩ := res_bind_eq_ok.mp checked
  cases checked
  exact ⟨opened, read⟩
end

/-! ### Which calls keep to the groups -/

section
variable {fs fs' : Filesystem} {path : List UInt8} {new_size : UInt64} {t : Target}

theorem passing_ok {α : Type} {a : α} {P : α → Prop} : Passing (.ok a) P ↔ P a :=
  ⟨fun passing => passing.2 a rfl, fun here => ⟨by simp [NoPanic], fun _ same => Except.ok.inj same ▸ here⟩⟩

/-- A removal, whatever its checks and its end are. -/
theorem removal_keeps_iff {release : Release} {checked : Res Ext4Error Target} (last : Target → Call Unit)
    (runs : release.call.run fs = (Ended.ofRes fs checked).andThen fun t mid =>
      ((destroy t.parent t.n t.inode t.name).run mid).andThen fun _ mid => (last t).run mid)
    (gives : ∀ runs inodes, Gives fs release runs inodes ↔ ∃ t, checked = .ok t ∧ runs = freedRuns t.inode ∧ inodes = [t.n])
    (founds : ∀ t, checked = .ok t → Found fs path t.name t.p t.parent t.n t.inode)
    (ends : ∀ t mid, checked = .ok t → Destroys fs mid t.parent t.n t.inode t.name →
      ∃ fs', (last t).run mid = .ok () fs' ∧ Altered (Among fs [.slot t.p, .superblock, .table]) mid fs' ∧
        ∀ (group : Nat) (gd : GroupDescriptor), mid.gdt[group]? = some gd → ∃ gd', fs'.gdt[group]? = some gd' ∧
          gd'.free_blocks_count = gd.free_blocks_count ∧ gd'.free_inodes_count = gd.free_inodes_count)
    (grouped : Grouped fs) (positive : 0 < fs.superblock.block_size.toNat) :
    KeepsGroups fs release ↔ Passing checked (Removes fs) := by
  rw [KeepsGroups, runs]
  cases checked with
  | error fault =>
    cases fault with
    | err e => exact iff_of_true rfl ⟨by simp [NoPanic], fun _ same => by cases same⟩
    | panic => exact iff_of_false id fun passing => passing.1 rfl
  | ok t =>
    have found := founds t rfl
    obtain ⟨live, read, -, alive⟩ := found.alive grouped.consistent
    have undone := @destroy_undone_iff fs t.name t.n t.parent t.inode found.read positive
    have done := destroy_done_iff grouped.consistent found positive
    rw [ofRes_ok, andThen_ok, passing_ok, Removes, ← undone, ← done]
    cases ran : (destroy t.parent t.n t.inode t.name).run fs with
    | ok u mid =>
      have destroys := destroy_ok found.read ran
      obtain ⟨fs', finished, after, counts⟩ := ends t mid rfl destroys
      have bit := (done.mp ⟨mid, ran⟩).bit
      have cleared := Destroys.cleared destroys grouped.consistent.separate live read positive bit after counts
      rw [andThen_ok, finished]
      have right := cleared.returned_iff (grouped.held_freed alive found.read)
      constructor
      · rintro ⟨runs, inodes, given, returned⟩
        obtain ⟨t', same, rfl, rfl⟩ := (gives runs inodes).mp given
        cases same
        exact .inr ⟨⟨mid, rfl⟩, right.mp returned⟩
      · rintro (⟨e, other⟩ | ⟨-, first⟩)
        · cases other
        · exact ⟨_, _, (gives _ _).mpr ⟨t, rfl, rfl, rfl⟩, right.mpr first⟩
    | err e mid =>
      rw [andThen_err]
      constructor
      · exact fun same => .inl ⟨e, by rw [same]⟩
      · rintro (⟨e', other⟩ | ⟨⟨mid', other⟩, -⟩)
        · cases other
          rfl
        · cases other
    | panic =>
      rw [andThen_panic]
      refine iff_of_false id ?_
      rintro (⟨e', other⟩ | ⟨⟨mid', other⟩, -⟩) <;> cases other

theorem gives_unlink (runs : List (Nat × Nat)) (inodes : List UInt32) : Gives fs (.unlink path) runs inodes ↔
    ∃ t, unlink_target fs path = .ok t ∧ runs = freedRuns t.inode ∧ inodes = [t.n] := by
  constructor
  · intro given
    cases given with
    | unlink checked => exact ⟨_, checked, rfl, rfl⟩
  · rintro ⟨t, checked, rfl, rfl⟩
    exact .unlink checked
theorem gives_rmdir (runs : List (Nat × Nat)) (inodes : List UInt32) : Gives fs (.rmdir path) runs inodes ↔
    ∃ t, rmdir_target fs path = .ok t ∧ runs = freedRuns t.inode ∧ inodes = [t.n] := by
  constructor
  · intro given
    cases given with
    | rmdir checked => exact ⟨_, checked, rfl, rfl⟩
  · rintro ⟨t, checked, rfl, rfl⟩
    exact .rmdir checked

theorem unlink_keeps_iff (flushable : Flushable fs) (grouped : Grouped fs) (positive : 0 < fs.superblock.block_size.toNat) :
    KeepsGroups fs (.unlink path) ↔ Passing (unlink_target fs path) (Removes fs) := by
  refine removal_keeps_iff (fun _ => flush_metadata) (unlink_eq fs path) gives_unlink
    (fun _ checked => unlink_target_ok checked) (fun t mid _ destroys => ?_) grouped positive
  have altered := destroys.anywhere positive
  obtain ⟨r, flushed, records⟩ := flush_altered (flushable.altered altered)
  exact ⟨_, flushed, records.wider fun i among => among_more (by simp) (altered.among (by simp [Use.Fixed]) among),
    fun group gd found => ⟨gd, found, rfl, rfl⟩⟩
theorem rmdir_keeps_iff (flushable : Flushable fs) (grouped : Grouped fs) (positive : 0 < fs.superblock.block_size.toNat) :
    KeepsGroups fs (.rmdir path) ↔ Passing (rmdir_target fs path) (Removes fs) := by
  refine removal_keeps_iff (fun t => rmdir_end t.p t.parent) (rmdir_eq fs path) gives_rmdir
    (fun _ checked => rmdir_target_ok checked) (fun t mid checked destroys => ?_) grouped positive
  have altered := destroys.anywhere positive
  obtain ⟨offset, slot, -⟩ := slot_of_read (rmdir_target_ok checked).parent_read.2.1
  have slot' := altered.inSlot slot
  have written := write_inode_altered slot' { t.parent with links_count := .ofNat (t.parent.links_count.toNat - 1) }
  obtain ⟨holder, same⟩ : ∃ holder, withSlot mid offset { t.parent with links_count := .ofNat (t.parent.links_count.toNat - 1) } =
    holder := ⟨_, rfl⟩
  rw [same] at written
  have recounted : Altered (fun _ => False) holder { holder with gdt := on_group0 (on_used_dirs (· - 1)) holder.gdt } :=
    ⟨⟨_, _, rfl⟩, forall₂_on_group0 (fun _ => ⟨_, _, _, rfl⟩) _, rfl, fun _ _ => rfl⟩
  have up_to := (altered.trans (written.wider fun _ _ => trivial)).trans (recounted.wider fun _ _ => trivial)
  obtain ⟨r, flushed, records⟩ := flush_altered (flushable.altered up_to)
  refine ⟨_, ?_, ((written.wider fun i among => ?_).trans (recounted.wider fun i none => none.elim)).trans
    (records.wider fun i among => ?_), fun group gd found => ?_⟩
  · rw [rmdir_end, run_bind, write_inode_run slot', andThen_ok, same, run_bind, change_gdt0, run_change, andThen_ok]
    exact flushed
  · exact among_more (by simp) (altered.among (by simp [Use.Fixed]) among)
  · exact among_more (by simp) (up_to.among (by simp [Use.Fixed]) among)
  · have table : holder.gdt = mid.gdt := by rw [← same, withSlot_gdt]
    simp only [table, on_group0_get, found, Option.map_some]
    refine ⟨_, rfl, ?_⟩
    split <;> exact ⟨rfl, rfl⟩

theorem Cleared.nothing (cleared : Cleared fs fs' [] []) : Returned fs fs' [] [] :=
  (cleared.returned_iff ⟨fun b member => by simp [InSpans] at member, .nil, by simp, by simp⟩).mpr
    ⟨fun b member => by simp [InSpans] at member, by simp⟩
theorem frees_none (fs : Filesystem) : Frees fs fs [] := frees_refl fs (by simp)

theorem truncate_keeps_iff (flushable : Flushable fs) (grouped : Grouped fs) (positive : 0 < fs.superblock.block_size.toNat) :
    KeepsGroups fs (.truncate path new_size) ↔
      Passing (truncate_target fs path) fun t => new_size < t.2.size → Cuts fs t.2 new_size := by
  have separate : Separate fs := grouped.consistent.separate
  obtain ⟨gd, found⟩ := grouped.found
  have runs : (Release.truncate path new_size).call.run fs = _ := truncate_run fs path new_size
  rw [KeepsGroups, runs]
  cases checked : truncate_target fs path with
  | error fault =>
    cases fault with
    | err e => exact iff_of_true rfl ⟨by simp [NoPanic], fun _ same => by cases same⟩
    | panic => exact iff_of_false id fun passing => passing.1 rfl
  | ok t =>
    obtain ⟨n, inode⟩ := t
    obtain ⟨opened, read⟩ := truncate_target_ok checked
    have live := grouped.consistent.open_path opened
    rw [ofRes_ok, andThen_ok, passing_ok]
    dsimp only
    by_cases same : new_size = inode.size
    · -- Nothing is done.
      have kept : ¬ new_size < inode.size := by
        rw [same]
        exact UInt64.lt_irrefl _
      rw [if_pos same, run_pure]
      refine iff_of_true ⟨[], [], .keep checked kept, ?_⟩ fun smaller => absurd smaller kept
      exact Cleared.nothing (@Frees.cleared fs fs fs n [] (frees_none fs) separate gd found (altered_refl _ fs) rfl)
    rw [if_neg same]
    by_cases smaller : new_size < inode.size
    case neg =>
      have larger : inode.size < new_size :=
        UInt64.lt_of_le_of_ne (UInt64.not_lt.mp smaller) fun equal => same equal.symm
      refine iff_of_true ?_ fun less => absurd less smaller
      rcases @resize_grows fs n inode new_size flushable read larger with ⟨e, stopped⟩ | ⟨fs', ran, table, altered⟩
      · rw [stopped]
      · rw [ran]
        exact ⟨[], [], .keep checked smaller, Cleared.nothing (Frees.cleared (frees_none fs) separate found altered table)⟩
    refine Iff.trans ?_ ⟨fun here _ => here, fun here => here smaller⟩
    by_cases leaf : Inode.uses_extents inode = true ∧ ∃ header es, decode_extent_node inode.block.bytes = .ok (.Leaf header es)
    case neg =>
      obtain ⟨e, stopped⟩ := @resize_refused fs n inode new_size smaller leaf
      rw [stopped]
      exact iff_of_true rfl fun based header es decoded => absurd ⟨based, header, es, decoded⟩ leaf
    obtain ⟨based, header, es, decoded⟩ := leaf
    have cuts : Cuts fs inode new_size ↔ (0 < total (released (cutoff fs new_size) es) ∧ Unreadable fs (·.block_bitmap)) ∨
        (Releases fs (released (cutoff fs new_size) es) ∧ InFirst fs (released (cutoff fs new_size) es) []) := by
      constructor
      · exact fun here => here based header es decoded
      · intro here _ header' es' decoded'
        cases decoded.symm.trans decoded'
        exact here
    obtain ⟨inode', ran⟩ := @resize_run fs n inode new_size header es smaller based decoded
    rw [ran, cuts, ← free_all_iff positive]
    cases freed : (free_all (released (cutoff fs new_size) es)).run fs with
    | ok u mid =>
      have frees := free_all_ok freed
      obtain ⟨fs', finished, table, altered⟩ := write_flush_run flushable frees.altered read inode'
      have cleared := Frees.cleared frees separate found altered table
      have right := cleared.returned_iff (grouped.held live read based decoded _ _ (by simp) (by simp))
      rw [andThen_ok, finished]
      constructor
      · rintro ⟨runs, inodes, given, returned⟩
        cases given with
        | cut checked' _ decoded' =>
          cases checked.symm.trans checked'
          cases decoded.symm.trans decoded'
          exact .inr ⟨⟨mid, rfl⟩, right.mp returned⟩
        | keep checked' larger =>
          cases checked.symm.trans checked'
          exact absurd smaller larger
      · rintro (⟨some, unreadable⟩ | ⟨-, first⟩)
        · cases freed.symm.trans (free_all_unread positive some unreadable)
        · exact ⟨_, _, .cut checked smaller decoded, right.mpr first⟩
    | err e mid =>
      obtain ⟨rfl, some, unreadable⟩ := free_all_err positive freed
      exact iff_of_true rfl (.inl ⟨some, unreadable⟩)
    | panic =>
      refine iff_of_false id ?_
      rintro (⟨some, unreadable⟩ | ⟨⟨mid, other⟩, -⟩)
      · cases freed.symm.trans (free_all_unread positive some unreadable)
      · cases other

/-- A call that releases space keeps to the groups exactly when its checks end, and then
    nothing at all is released, or all of it is there to be and is of the first group. -/
theorem release_keeps_groups_iff {image : Bytes} (accepted : open_image image = .ok fs) (grouped : Grouped fs)
    (release : Release) : KeepsGroups fs release ↔ Contained fs release := by
  have flushable := flushable_opened accepted
  have positive : 0 < fs.superblock.block_size.toNat :=
    Nat.lt_of_lt_of_le (by decide) (FileMap.Opened.positive (Decoders.opened_of accepted))
  cases release with
  | unlink path => exact unlink_keeps_iff flushable grouped positive
  | rmdir path => exact rmdir_keeps_iff flushable grouped positive
  | truncate path new_size => exact truncate_keeps_iff flushable grouped positive
end

/-! ### An image of two groups -/

/-- The blocks of the inodes in use are marked in their groups, and no inode has one twice. -/
def groupMarks (fs : Filesystem) : Bool :=
  (numbers fs).all fun n => !decide (Live fs n) || ((extentsOf fs n).all fun e =>
    (List.range' e.physical_block.toNat e.len.toNat).all fun b =>
      decide (fs.superblock.first_data_block.toNat ≤ b) &&
        blockBits fs ((b - fs.superblock.first_data_block.toNat) / fs.superblock.blocks_per_group.toNat)
          ((b - fs.superblock.first_data_block.toNat) % fs.superblock.blocks_per_group.toNat)) &&
      decide ((extentsOf fs n).Pairwise fun a b => (runOf a).1 + (runOf a).2 ≤ (runOf b).1 ∨
        (runOf b).1 + (runOf b).2 ≤ (runOf a).1)
theorem grouped_of_marks {fs : Filesystem} (sound : Sound fs) (marked : groupMarks fs = true) : Grouped fs := by
  refine ⟨sound.consistent, fun {n _ ext b} live read based below within => ?_,
    fun {n inode header es} live read based decoded => ?_⟩
  · have set := (Unmapping.marked_of_all marked live).1 ext ((extents_below sound.flat live read based).2 ext below) b within
    rw [Bool.and_eq_true, decide_eq_true_eq] at set
    exact set
  · exact Unmapping.extents_leaf read based decoded ▸ (Unmapping.marked_of_all marked live).2

/-- Two groups of 8 blocks and 16 inodes, with a file in each. -/
def pairSuperblock : Superblock.Superblock :=
  { Images.plain 2048 32 16 0 8 16 with free_blocks_count := 3, free_inodes_count := 20 }
def pairGroups : List GroupDescriptor := [⟨6, 7, 2, 0, 5, 1, 0, 0⟩, ⟨14, 15, 10, 3, 15, 0, 0, 0⟩]
def pairFile (block : UInt64) : Inode := leafInode 0x81A4 1 2048 [⟨0, 1, block, false⟩]
def pairParts : List (Nat × Bytes) :=
  [(12288, (zeros 2048).patch 0 (ofList [255])), (14336, (zeros 2048).patch 0 (ofList [255, 7])),
    (28672, (zeros 2048).patch 0 (ofList [220])), (30720, (zeros 2048).patch 0 (ofList [1])),
    (4352, Inode.record (leafInode 0x41ED 2 2048 [⟨0, 1, 4, false⟩]) 256), (6656, Inode.record (pairFile 5) 256),
    (20480, Inode.record (pairFile 12) 256), (8192, entryBytes (rootEntries [([97], 17), ([98], 11)]))]
def pairState : Filesystem := ⟨Images.assembled 32768 pairSuperblock 1 pairGroups pairParts, pairSuperblock, pairGroups⟩

theorem pair_assembles : Images.Assembles 32768 pairSuperblock 1 pairGroups pairParts := by decide +kernel
theorem pair_opens : open_image pairState.reader = .ok pairState := by
  unfold pairState
  dsimp only
  exact Images.open_assembled pair_assembles
theorem pair_grouped : Grouped pairState := grouped_of_marks (by decide +kernel) (by decide +kernel)
theorem pair_reads : read_inode pairState 11 = .ok (pairFile 5) :=
  @Images.read_inode_part _ _ _ _ _ pair_assembles rfl 11 ⟨6, 7, 2, 0, 5, 1, 0, 0⟩ _ (by decide) (by decide) rfl
    (by simp [pairParts, pairSuperblock, Images.plain]) (by decide)

/-- The call has returned, and the bit of the first inode of the second group is set. -/
def returned_keeping : Ended Filesystem Ext4Error Unit → Bool
  | .ok _ fs' => inodeBits fs' 1 0
  | _ => false
/-- An inode that is still marked in its group has not been given back. -/
theorem unlink_misses {fs : Filesystem} {path : List UInt8} {n : UInt32} (opened : open_path fs path = .ok n)
    (group : (n.toNat - 1) / fs.superblock.inodes_per_group.toNat = 1)
    (first : (n.toNat - 1) % fs.superblock.inodes_per_group.toNat = 0)
    (keeping : returned_keeping ((unlink path).run fs) = true) : ¬ KeepsGroups fs (.unlink path) := by
  intro keeps
  rw [KeepsGroups, Release.call] at keeps
  cases ran : (unlink path).run fs with
  | ok u fs' =>
    rw [ran] at keeps keeping
    obtain ⟨runs, inodes, given, returned⟩ := keeps
    cases given with
    | @unlink _ t checked =>
      have number : t.n = n := Except.ok.inj ((unlink_target_ok checked).open_path.symm.trans opened)
      have gone := (returned.ofInodes 1 0).mp keeping
      exact gone.2 ⟨n.toNat - 1, inSpans_numbers.mpr ⟨t.n, List.mem_singleton.mpr rfl, by rw [number]⟩, group, first⟩
  | err e fs' =>
    rw [ran] at keeping
    cases keeping
  | panic =>
    rw [ran] at keeping
    cases keeping

/-- Of the file in the second group neither the inode nor the block is given back there. -/
theorem pair_misses : open_image pairState.reader = .ok pairState ∧ Grouped pairState ∧
    open_path pairState [SLASH, 97] = .ok 17 ∧ ¬ KeepsGroups pairState (.unlink [SLASH, 97]) := by
  have opened : open_path pairState [SLASH, 97] = .ok 17 := by decide +kernel
  exact ⟨pair_opens, pair_grouped, opened, unlink_misses opened rfl rfl (by decide +kernel)⟩

/-- The file in the first group goes back where it belongs. -/
theorem pair_returns : KeepsGroups pairState (.unlink [SLASH, 98]) := by
  have both := release_keeps_groups_iff pair_opens pair_grouped (.unlink [SLASH, 98])
  have opened : open_path pairState [SLASH, 98] = .ok 11 := by decide +kernel
  have returns : returned ((unlink [SLASH, 98]).run pairState) = true := by decide +kernel
  rw [unlink_eq] at returns
  rw [both, Contained]
  refine ⟨fun stopped => ?_, fun t checked => .inr ⟨?_, ?_⟩⟩
  · rw [stopped] at returns
    cases returns
  · refine (destroy_done_iff pair_grouped.consistent (unlink_target_ok checked) (by decide)).mp ?_
    rw [checked, ofRes_ok, andThen_ok] at returns
    cases ran : (destroy t.parent t.n t.inode t.name).run pairState with
    | ok u mid => exact ⟨mid, rfl⟩
    | err e mid =>
      rw [ran] at returns
      cases returns
    | panic =>
      rw [ran] at returns
      cases returns
  · have number : t.n = 11 := Except.ok.inj ((unlink_target_ok checked).open_path.symm.trans opened)
    have read := (unlink_target_ok checked).read
    rw [number, pair_reads] at read
    have runs : freedRuns (pairFile 5) = [(5, 1)] := by decide +kernel
    rw [← Except.ok.inj read, runs, number]
    refine ⟨fun b member => ⟨rfl, ?_⟩, fun n listed => ?_⟩
    · rw [inSpans_single] at member
      rw [show b = 5 by omega]
      rfl
    · rw [List.mem_singleton.mp listed]
      rfl

end Justext4.OwnGroups
