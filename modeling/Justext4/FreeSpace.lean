import Justext4.TakenSpace
import Justext4.Invariants
import Justext4.Progress

/-!
Free space never shows. Two states with the same records in memory, whose images
differ only in blocks that no inode in the tree maps and in slots of inodes that
are not in the tree, answer every call in the same way and are left in two such
states, and a path reads the same in both; so nothing that is read comes from a
block or an inode that another file has given back.
-/
namespace Justext4.FreeSpace
open Justext4 Justext4.Fallible Justext4.Filesystem Justext4.Volumes Justext4.Mkfs Bytes
open Justext4.Nodes
open Justext4.Backing
open Justext4.Reading
open Justext4.Entries
open Justext4.Leaves
open Justext4.Create
open Justext4.Remove
open Justext4.Rename (Renaming Cleared)
open Justext4.Change (Changing Touched SameSize Resized)
open Justext4.View
open Justext4.Invariants
open Justext4.Start
open Justext4.Calls
open Justext4.Progress
open Justext4.TwoRuns
open Justext4.Agreement
open Justext4.FreeBytes
open Justext4.TakenSpace

/-- Two filesystems that differ in free bytes, the first of them a filesystem
    that backs a tree. -/
def Apart (g : Geometry) (s t : Filesystem) : Prop :=
  ∃ v N, Holds g v s ∧ Consistent g v N ∧ Agree g (Free g N) s t

section
variable {g : Geometry} {v v' : Volume} {N N' : NodeMap} {s t : Filesystem} {path : List UInt8} {n p : UInt32} {x : Node}

/-! ### What is free after a call -/

/-- A new leaf takes its slot and its blocks, and nothing else. -/
theorem free_withLeaf {start count block : Nat} {parent : UInt32} {kids : List DirBlock.Kid} {name : List UInt8}
    (found : N p = some (.dir block parent kids)) (takes : ∀ b, x.Owns b → start ≤ b ∧ b < start + count) (i : Nat)
    (rest : remaining g (Free g N) n start count i) : Free g (withLeaf N p name n x) i := by
  obtain ⟨free, slot, blocks⟩ := rest
  rcases free with ⟨m, low, high, dead, inside⟩ | ⟨b, past, unowned, inside⟩
  · refine .inl ⟨m, low, high, ?_, inside⟩
    by_contra live
    rcases withLeaf_live.mp live with old | rfl
    · exact old dead
    · exact slot inside
  · refine .inr ⟨b, past, fun m y there owns => ?_, inside⟩
    rcases withLeaf_cases found there with ⟨rfl, rfl⟩ | ⟨rfl, rfl⟩ | ⟨-, old⟩
    · obtain ⟨low, high⟩ := takes b owns
      have first : start * g.block_size ≤ b * g.block_size := Nat.mul_le_mul_right _ low
      have last : b * g.block_size + g.block_size ≤ (start + count) * g.block_size := block_before high
      rw [Nat.add_mul] at last
      exact blocks ⟨by omega, by omega⟩
    · exact unowned _ _ found owns
    · exact unowned _ _ old owns

theorem apart_creation {call : Call UInt32} {count c : Nat} {refusal : Prop} {new : Volume → UInt32 → Node → Prop}
    (holds : Holds g v s) (consistent : Consistent g v N)
    (same : Same (Settled g (Free g N) s count) (Agree g (Free g N)) (call.run s) (call.run t))
    (ended : Creation g v N s path refusal c new (call.run s)) (takes : ∀ v' n x, new v' n x → Takes s count n x) :
    Same (Apart g) (Apart g) (call.run s) (call.run t) := by
  generalize call.run s = r at same ended
  generalize call.run t = r' at same
  cases same with
  | ok n settled =>
    cases ended with
    | made holds' _ grown held =>
      obtain ⟨start, placed, owns⟩ := takes _ _ _ held
      obtain ⟨_, _, p, block, parent, kids, place, nodes, -⟩ := grown.place
      have agree := settled n start placed
      refine .ok n ⟨_, _, holds', grown.consistent, agree.wider fun i rest => ?_⟩
      rw [nodes]
      exact free_withLeaf place.directory.found owns i rest
  | err e agree =>
    cases ended with
    | refused => exact .err e ⟨v, N, holds, consistent, agree⟩
    | wasted holds' wasted => exact .err e ⟨_, N, holds', consistent.spared wasted.spared, agree⟩
  | panic => exact .panic
/-- The filesystem backs a tree with no more in it than before. -/
def Remains (g : Geometry) (N : NodeMap) (fs : Filesystem) : Prop :=
  ∃ v' N', Holds g v' fs ∧ Consistent g v' N' ∧ Fewer N N'

theorem apart_of_remains {α : Type} {r r' : Ended Filesystem Ext4Error α}
    (same : Same (Agree g (Free g N)) (Agree g (Free g N)) r r')
    (left : r.Within (fun _ => Remains g N) fun _ => Remains g N) : Same (Apart g) (Apart g) r r' := by
  cases same with
  | ok a agree =>
    obtain ⟨v', N', holds, consistent, fewer⟩ := left
    exact .ok a ⟨v', N', holds, consistent, agree.wider (free_mono fewer)⟩
  | err e agree =>
    obtain ⟨v', N', holds, consistent, fewer⟩ := left
    exact .err e ⟨v', N', holds, consistent, agree.wider (free_mono fewer)⟩
  | panic => exact .panic

section
variable {r : Ended Filesystem Ext4Error Unit} (holds : Holds g v s) (consistent : Consistent g v N)
include holds consistent

theorem remains_refl : Remains g N s := ⟨v, N, holds, consistent, fewer_refl N⟩
theorem remains_removal {kind : Node → Prop} (ended : Removal g v N s path kind r) :
    r.Within (fun _ => Remains g N) fun _ => Remains g N := by
  cases ended with
  | refused => exact remains_refl holds consistent
  | panicked => trivial
  | removed _ _ holds' _ pruned => exact ⟨_, _, holds', pruned.consistent, pruned.nodes ▸ fewer_withoutLeaf _⟩
theorem remains_renaming {new_path : List UInt8} (ended : Renaming g v N s path new_path r) :
    r.Within (fun _ => Remains g N) fun _ => Remains g N := by
  cases ended with
  | refused => exact remains_refl holds consistent
  | panicked => trivial
  | same => exact remains_refl holds consistent
  | lost _ _ _ holds' pruned => exact ⟨_, _, holds', pruned.consistent, pruned.nodes ▸ fewer_withoutLeaf _⟩
  | moved _ _ _ _ _ _ _ cleared holds' _ relocated =>
    refine ⟨_, _, holds', relocated.consistent, ?_⟩
    rw [relocated.nodes]
    cases cleared with
    | free => exact fewer_moved _ _ _ _ _
    | replaced _ _ _ pruned =>
      refine Fewer.trans ?_ (fewer_moved _ _ _ _ _)
      rw [pruned.nodes]
      exact fewer_withoutLeaf _
theorem remains_changing {refusal flushes : Prop} {effect : UInt32 → Volume → NodeMap → Prop}
    (ended : Changing g v N s refusal flushes effect r)
    (fewer : ∀ n v' N', Touched v v' N N' n → effect n v' N' → Fewer N N') :
    r.Within (fun _ => Remains g N) fun _ => Remains g N := by
  cases ended with
  | refused => exact remains_refl holds consistent
  | panicked => trivial
  | same => exact remains_refl holds consistent
  | changed holds' _ consistent' _ _ touched done => exact ⟨_, _, holds', consistent', fewer _ _ _ touched done⟩
end

theorem fewer_sameSize (done : SameSize s path v N n v' N') : Fewer N N' := by
  rw [done.2.1]
  exact fewer_refl N
theorem fewer_resized {new_size : UInt64} (touched : Touched v v' N N' n) (done : Resized s path new_size N n v' N') :
    Fewer N N' := by
  obtain ⟨-, start, count, kept, here, here', le, -⟩ := done
  intro m y there
  by_cases same : m = n
  · subst same
    cases here'.symm.trans there
    exact ⟨_, here, fun b owns => ⟨owns.1, Nat.lt_of_lt_of_le owns.2 (by omega)⟩⟩
  · exact ⟨y, touched.nodes m same ▸ there, fun _ owns => owns⟩

/-! ### Every call -/

theorem silent_same {R : Filesystem → Filesystem → Prop} {call : Call Unit} (same : Same R R (call.run s) (call.run t)) :
    Same R R ((silent call).run s) ((silent call).run t) :=
  same_bind same fun _ _ _ _ _ related => same_pure related none
theorem numbered_same {R : Filesystem → Filesystem → Prop} {call : Call UInt32} (same : Same R R (call.run s) (call.run t)) :
    Same R R ((numbered call).run s) ((numbered call).run t) :=
  same_bind same fun n _ _ _ _ related => same_pure related (some n)

/-- A call that is let through ends in the same way in both. -/
theorem execute_same (holds : Holds g v s) (consistent : Consistent g v N) (agree : Agree g (Free g N) s t)
    {request : Request} (admissible : Admissible s request) :
    Same (Apart g) (Apart g) ((execute request).run s) ((execute request).run t) := by
  have unused := unused_free consistent
  have apart : Apart g s t := ⟨v, N, holds, consistent, agree⟩
  cases request with
  | create_file path data =>
    rw [Admissible, holds.static'.block_size] at admissible
    have few : div_ceil data.size g.block_size < 4294967296 := by
      rcases admissible with small | ⟨-, small⟩ <;> omega
    refine numbered_same ?_
    rw [create_file_eq]
    refine under_same holds consistent agree unused apart path fun parent_path name p block parent kids place => ?_
    have found := place.directory.found
    exact apart_creation holds consistent (create_file_at_same unused.late agree (oneBlock (consistent.sound found))
      (unused.blocks found block rfl) few name) (create_file_at_takes holds consistent admissible place id) fun _ _ _ held => held.2
  | mkdir path =>
    refine numbered_same ?_
    rw [mkdir_eq]
    refine under_same holds consistent agree unused apart path fun parent_path name p block parent kids place => ?_
    have found := place.directory.found
    exact apart_creation holds consistent (mkdir_at_same unused.late agree (oneBlock (consistent.sound found))
      (unused.blocks found block rfl) p name) (mkdir_at_takes holds consistent place id) fun _ _ _ held => held.2
  | symlink path target =>
    refine numbered_same ?_
    rw [symlink_eq]
    refine same_lift_bind apart fun _ some => ?_
    refine same_lift_bind apart fun _ short => ?_
    refine under_same holds consistent agree unused apart path fun parent_path name p block parent kids place => ?_
    have found := place.directory.found
    exact apart_creation holds consistent (symlink_at_same unused.late agree (oneBlock (consistent.sound found))
      (unused.blocks found block rfl) target name) (symlink_at_takes holds consistent (of_decide_eq_true (ensure_eq_ok.mp some))
        (of_decide_eq_true (ensure_eq_ok.mp short)) place id) fun _ _ _ held => held.2
  | unlink path =>
    exact silent_same (apart_of_remains (unlink_same holds consistent agree unused path)
      (remains_removal holds consistent (unlink_ends holds consistent path)))
  | rmdir path =>
    exact silent_same (apart_of_remains (rmdir_same holds consistent agree unused path)
      (remains_removal holds consistent (rmdir_ends holds consistent path admissible)))
  | rename old_path new_path =>
    exact silent_same (apart_of_remains (rename_same holds consistent agree unused old_path new_path)
      (remains_renaming holds consistent (Rename.rename_ends holds consistent old_path new_path admissible)))
  | truncate path new_size =>
    exact silent_same (apart_of_remains (truncate_same holds consistent agree unused path new_size)
      (remains_changing holds consistent (Change.truncate_ends holds consistent path new_size) fun _ _ _ => fewer_resized))
  | chmod path mode =>
    exact silent_same (apart_of_remains (with_inode_mut_same holds consistent agree unused path _)
      (remains_changing holds consistent (Change.chmod_ends holds consistent path mode) fun _ _ _ _ => fewer_sameSize))
  | chown path uid gid =>
    exact silent_same (apart_of_remains (with_inode_mut_same holds consistent agree unused path _)
      (remains_changing holds consistent (Change.chown_ends holds consistent path uid gid) fun _ _ _ _ => fewer_sameSize))
  | utime path atime mtime =>
    exact silent_same (apart_of_remains (with_inode_mut_same holds consistent agree unused path _)
      (remains_changing holds consistent (Change.utime_ends holds consistent path atime mtime) fun _ _ _ _ => fewer_sameSize))
end

/-! ### The two states -/

/-- The position is in a slot of an inode that is not in the tree, or in a block
    past the metadata that no inode in the tree maps. -/
def FreeByte (config : Config) (fs : Filesystem) (i : Nat) : Prop :=
  (∃ n offset, n ≠ 0 ∧ n ≤ fs.superblock.inodes_count ∧ ¬ Reaches fs n ∧ inode_offset fs n = .ok offset ∧
    offset ≤ i ∧ i < offset + fs.superblock.inode_size.toNat) ∨
  (∃ layout b, Layout.from_config config = .ok layout ∧ layout.root_dir_block ≤ b ∧
    (∀ n, Reaches fs n → ¬ Maps fs n b) ∧
    b * fs.superblock.block_size.toNat ≤ i ∧ i < b * fs.superblock.block_size.toNat + fs.superblock.block_size.toNat)

/-- The first of the two states is reached from a fresh image, and the second
    differs from it in free bytes only. -/
structure Related (config : Config) (s t : Filesystem) : Prop where
  reached : Reached config Admissible s
  superblock : t.superblock = s.superblock
  gdt : t.gdt = s.gdt
  size : t.reader.size = s.reader.size
  bytes : ∀ i, ¬ FreeByte config s i → t.reader.byte i = s.reader.byte i

section
variable {config : Config} {g : Geometry} {v : Volume} {N : NodeMap} {s t : Filesystem}

theorem freeByte_iff (whole : Whole config g) (holds : Holds g v s) (consistent : Consistent g v N) (i : Nat) :
    FreeByte config s i ↔ Free g N i := by
  have static := holds.static'
  have inodes := whole.inodes
  obtain ⟨layout, laid, root⟩ := whole.laid
  have dead : ∀ n, ¬ Reaches s n ↔ N n = none := fun n => by
    rw [reaches_iff holds consistent, Live, not_not]
  rw [FreeByte, Free, static.inode_size, static.block_size]
  apply or_congr
  · constructor
    · rintro ⟨n, offset, some, few, away, there, inside⟩
      obtain ⟨low, high⟩ := (inode_in_range static).mp ⟨some, few⟩
      cases (inode_offset_ok static low high).symm.trans there
      exact ⟨n, low, by omega, (dead n).mp away, inside⟩
    · rintro ⟨n, low, high, away, inside⟩
      obtain ⟨some, few⟩ := (inode_in_range static (n := n)).mpr ⟨low, by omega⟩
      exact ⟨n, _, some, few, (dead n).mpr away, inode_offset_ok static low (by omega), inside⟩
  · constructor
    · rintro ⟨layout', b, laid', past, unmapped, inside⟩
      cases laid.symm.trans laid'
      refine ⟨b, root ▸ past, fun n x found owns => ?_, inside⟩
      exact unmapped n ((reaches_iff holds consistent).mpr (live_of found)) ((maps_iff holds consistent found b).mpr owns)
    · rintro ⟨b, past, unowned, inside⟩
      refine ⟨layout, b, laid, root ▸ past, fun n reached maps => ?_, inside⟩
      obtain ⟨x, found⟩ := Option.ne_none_iff_exists'.mp ((reaches_iff holds consistent).mp reached)
      exact unowned n x found ((maps_iff holds consistent found b).mp maps)

/-- Two related states differ in the free bytes of a tree. -/
theorem apart_of_related (small : Small config) (related : Related config s t) :
    ∃ g v N, Whole config g ∧ Holds g v s ∧ Consistent g v N ∧ Agree g (Free g N) s t := by
  obtain ⟨g, whole, v, N, holds, consistent, -⟩ := reached_counted small related.reached
  refine ⟨g, v, N, whole, holds, consistent, related.superblock, related.gdt, related.size, fun i taken => ?_, holds.static'⟩
  exact related.bytes i fun free => taken ((freeByte_iff whole holds consistent i).mp free)
theorem related_of_apart (whole : Whole config g) (reached : Reached config Admissible s) (apart : Apart g s t) :
    Related config s t := by
  obtain ⟨v, N, holds, consistent, agree⟩ := apart
  refine ⟨reached, agree.superblock, agree.gdt, agree.size, fun i taken => ?_⟩
  exact agree.bytes i fun free => taken ((freeByte_iff whole holds consistent i).mpr free)

/-- A call ends in the same way in two related states, and in related states. -/
theorem request_same (small : Small config) (related : Related config s t) {request : Request}
    (admissible : Admissible s request) :
    Same (Related config) (Related config) ((execute request).run s) ((execute request).run t) := by
  obtain ⟨g, v, N, whole, holds, consistent, agree⟩ := apart_of_related small related
  have same := execute_same holds consistent agree admissible
  obtain ⟨start, opened, run⟩ := related.reached
  generalize left : (execute request).run s = r at same
  generalize (execute request).run t = r' at same
  cases same with
  | ok answer apart =>
    exact .ok answer (related_of_apart whole ⟨start, opened, run.tail (.returns admissible left)⟩ apart)
  | err e apart =>
    exact .err e (related_of_apart whole ⟨start, opened, run.tail (.fails admissible left)⟩ apart)
  | panic => exact .panic

/-- What a path shows: the inode that it opens, its record, and what the two
    calls give that read it. -/
def shown_at (fs : Filesystem) (path : List UInt8) :
    Res Ext4Error (UInt32 × Inode.Inode × Res Ext4Error Bytes × Res Ext4Error (List DirEntry.DirEntry)) := do
  let inode_num ← open_path fs path
  let inode ← read_inode fs inode_num
  .ok (inode_num, inode, read_file fs inode, read_dir fs inode)

/-- Every path shows the same in both. -/
def ShownAlike (s t : Filesystem) : Prop := ∀ path, shown_at t path = shown_at s path

theorem shown_same (small : Small config) (related : Related config s t) : ShownAlike s t := by
  intro path
  obtain ⟨g, v, N, whole, holds, consistent, agree⟩ := apart_of_related small related
  have unused := unused_free consistent
  rw [shown_at, shown_at, open_path_same holds consistent agree unused]
  cases opened : open_path s path with
  | error fault => rfl
  | ok n =>
    have live := open_live holds consistent opened
    rw [res_bind_ok, res_bind_ok, read_node_same agree unused live, read_node holds consistent live, res_bind_ok, res_bind_ok,
      read_file_same consistent agree unused live, read_dir_same consistent agree unused live]
end

/-! ### Runs of calls -/

/-- A call whose error is one of its values. -/
def attempt {α : Type} (call : Call α) : Call (Except Ext4Error α) where
  run fs :=
    match call.run fs with
    | .ok a fs' => .ok (.ok a) fs'
    | .err e fs' => .ok (.error e) fs'
    | .panic => .panic
/-- The answers of a list of calls, where a call that fails is no reason to stop. -/
def answers : List Request → Call (List (Except Ext4Error (Option UInt32)))
  | [] => pure []
  | request :: requests => do
    let answer ← attempt (execute request)
    let rest ← answers requests
    pure (answer :: rest)
/-- Every call of a list is let through in the state that it is made in. -/
def Permitted : List Request → Filesystem → Prop
  | [], _ => True
  | request :: requests, fs => Admissible fs request ∧
    ∀ answer fs', (attempt (execute request)).run fs = .ok answer fs' → Permitted requests fs'

section
variable {config : Config} {s t : Filesystem}

theorem attempt_same {α : Type} {R E : Filesystem → Filesystem → Prop} {call : Call α}
    (same : Same R R (call.run s) (call.run t)) : Same R E ((attempt call).run s) ((attempt call).run t) := by
  simp only [attempt]
  generalize call.run s = r at same
  generalize call.run t = r' at same
  cases same with
  | ok a related => exact .ok _ related
  | err e related => exact .ok _ related
  | panic => exact .panic
theorem answers_same (small : Small config) (related : Related config s t) {requests : List Request}
    (permitted : Permitted requests s) :
    Same (Related config) (Related config) ((answers requests).run s) ((answers requests).run t) := by
  induction requests generalizing s t with
  | nil => exact same_pure related []
  | cons request requests ih =>
    obtain ⟨admissible, later⟩ := permitted
    refine same_bind (attempt_same (request_same small related admissible)) fun answer s' t' ran _ related => ?_
    refine same_bind (ih related (later answer s' ran)) fun rest _ _ _ _ related => ?_
    exact same_pure related _

/-- Free space never influences results: not those of one call, nor what a path
    shows, nor what it shows after any run of calls. -/
theorem free_space_unseen (small : Small config) (related : Related config s t) :
    (∀ request, Admissible s request →
      Same (Related config) (Related config) ((execute request).run s) ((execute request).run t)) ∧
    ShownAlike s t ∧
    ∀ requests, Permitted requests s → Same ShownAlike ShownAlike ((answers requests).run s) ((answers requests).run t) := by
  refine ⟨fun request admissible => request_same small related admissible, shown_same small related, fun requests permitted => ?_⟩
  exact (answers_same small related permitted).mono (fun _ _ => shown_same small) fun _ _ => shown_same small
end

/-- The default image, and the same with a byte of a free block set. -/
theorem fresh_related : Related Config.default (fresh Config.default defaultLayout)
    (patched (fresh Config.default defaultLayout) 28672 (ofList [1])) := by
  have laid : Layout.from_config Config.default = .ok defaultLayout := rfl
  obtain ⟨g, v, whole, -, -, row⟩ := fresh_row default_small laid
  have size : g.block_size = 4096 := whole.block_size
  have total : g.total = 16 := whole.total
  obtain ⟨layout, laid', root⟩ := whole.laid
  cases laid.symm.trans laid'
  have root : g.root = 6 := root
  have holds := row.holds
  have consistent := row.consistent
  have reached : Reached Config.default Admissible (fresh Config.default defaultLayout) := default_opened.reached
  generalize fresh Config.default defaultLayout = fs at holds consistent reached
  have whole_size := holds.size
  refine ⟨reached, rfl, rfl, size_patch _ _ _ ?_, fun i taken => byte_patch_outside _ ?_⟩
  · rw [whole_size, total, size]
    decide
  · by_contra inside
    rw [size_ofList, List.length_singleton] at inside
    refine taken ((freeByte_iff whole holds consistent i).mpr (.inr ⟨7, by omega, fun n x found owns => ?_, by omega⟩))
    obtain ⟨-, rfl⟩ := rootOnly_some found
    cases (owns : 7 = 6)
theorem fresh_unseen :
    (∀ request, Admissible (fresh Config.default defaultLayout) request →
      Same (Related Config.default) (Related Config.default) ((execute request).run (fresh Config.default defaultLayout))
        ((execute request).run (patched (fresh Config.default defaultLayout) 28672 (ofList [1])))) ∧
    ShownAlike (fresh Config.default defaultLayout) (patched (fresh Config.default defaultLayout) 28672 (ofList [1])) ∧
    ∀ requests, Permitted requests (fresh Config.default defaultLayout) →
      Same ShownAlike ShownAlike ((answers requests).run (fresh Config.default defaultLayout))
        ((answers requests).run (patched (fresh Config.default defaultLayout) 28672 (ofList [1]))) :=
  free_space_unseen default_small fresh_related

end Justext4.FreeSpace
