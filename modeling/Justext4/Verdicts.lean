import Justext4.Headroom
import Justext4.Invariants
import Justext4.Pairing

/-!
What the calls answer, said of the tree alone. A path leads through the tree that
is shown, name by name, to a place or to an error; the checks of every call are
questions about the tree; and after any session a call fails at once with the
error that the tree gives, or it returns, or it finds no inode, no run of blocks
or no room in a directory for what it adds, or the name is too long.
-/
namespace Justext4.Verdicts
open Justext4 Justext4.Fallible Justext4.Filesystem Justext4.Volumes Justext4.Mkfs Bytes
open Justext4.DirEntry (DIR_ENTRY_NAME_MAX)
open Justext4.NamedTree
open Justext4.PathTree
open Justext4.Nodes
open Justext4.Paths
open Justext4.Backing
open Justext4.Entries
open Justext4.Reading
open Justext4.Leaves
open Justext4.Allocation
open Justext4.Create
open Justext4.Remove
open Justext4.Rename
open Justext4.Change
open Justext4.View
open Justext4.Calls
open Justext4.Invariants (block_bit block_bit_eq)
open Justext4.Refinement (FileTree picture_child)
open Justext4.Sessions
open Justext4.Headroom
open Justext4.Pairing

/-! ### Paths -/

/-- A place of the tree and what is there. -/
structure Spot where
  place : List (List UInt8)
  entry : Entry

/-- What is at a place, or the complaint about the name that leads there. -/
def at_place (t : FileTree) (place : List (List UInt8)) (name : List UInt8) : Res Ext4Error Spot :=
  match t place with
  | some e => .ok ⟨place, e⟩
  | none => .error (.err (.NotFound name))
/-- What has a name in the directory at a place, the dots included. -/
def look (t : FileTree) (place : List (List UInt8)) (name : List UInt8) : Res Ext4Error Spot :=
  at_place t (if name = DOT then place else if name = DOTDOT then place.dropLast else place ++ [name]) name
def follow (t : FileTree) (spot : Spot) : List (List UInt8) → Res Ext4Error Spot
  | [] => .ok spot
  | name :: names => do
    ensure spot.entry.is_dir (.NotADirectory spot.entry.inode)
    let next ← look t spot.place name
    follow t next names
/-- Where a path leads from the root. -/
def opens (t : FileTree) (path : List UInt8) : Res Ext4Error Spot := do
  let root ← at_place t [] []
  follow t root (components path)
/-- The directory that a path leads to. -/
def enter (t : FileTree) (path : List UInt8) : Res Ext4Error Spot := do
  let spot ← opens t path
  ensure spot.entry.is_dir (.NotADirectory spot.entry.inode)
  .ok spot

/-! ### The checks of the calls -/

/-- The path names a free place. -/
def adds (t : FileTree) (path : List UInt8) : Res Ext4Error Unit := do
  let (parent_path, name) ← split_path path
  let parent ← enter t parent_path
  match look t parent.place name with
  | .ok _ => .error (.err (.AlreadyExists name))
  | .error _ => .ok ()
/-- The path names a file or a link. -/
def unlinks (t : FileTree) (path : List UInt8) : Res Ext4Error Unit := do
  let (parent_path, name) ← split_path path
  let parent ← enter t parent_path
  let target ← look t parent.place name
  ensure (!target.entry.is_dir) (.IsADirectory target.entry.inode)
open Classical in
/-- The path names a directory with nothing in it. -/
noncomputable def empties (t : FileTree) (path : List UInt8) : Res Ext4Error Unit := do
  let (parent_path, name) ← split_path path
  let parent ← enter t parent_path
  let target ← look t parent.place name
  ensure (target.place ≠ []) (.DirectoryNotEmpty target.entry.inode)
  ensure target.entry.is_dir (.NotADirectory target.entry.inode)
  ensure (∀ a, t (target.place ++ [a]) = none) (.DirectoryNotEmpty target.entry.inode)
/-- The path leads to a file whose blocks reach as far as the new size. -/
def resizes (block_size : Nat) (t : FileTree) (path : List UInt8) (new_size : UInt64) : Res Ext4Error Unit := do
  let target ← opens t path
  match target.entry.content with
  | .file data =>
    ensure (new_size.toNat ≤ div_ceil data.size block_size * block_size)
      (.UnsupportedV0 "truncate-grow with new block allocation not yet supported")
  | _ => .error (.err (.NotARegularFile target.entry.inode))
/-- The first path names something other than the root, and the second one
    names the same, a free place or, where neither is a directory, another file
    or link. -/
def moves (t : FileTree) (old_path new_path : List UInt8) : Res Ext4Error Unit := do
  let (old_parent_path, old_name) ← split_path old_path
  let (new_parent_path, new_name) ← split_path new_path
  let old_parent ← enter t old_parent_path
  let source ← look t old_parent.place old_name
  ensure (source.place ≠ []) (.InvalidLayout "cannot rename the root inode")
  let new_parent ← enter t new_parent_path
  match look t new_parent.place new_name with
  | .ok target =>
    ensure (target.place = source.place ∨ (!target.entry.is_dir ∧ !source.entry.is_dir)) (.AlreadyExists new_name)
  | .error _ => .ok ()

/-- What the tree says to a call: an error, or that it may go on. -/
noncomputable def verdict (block_size : Nat) (t : FileTree) : Request → Res Ext4Error Unit
  | .create_file path _ | .mkdir path => adds t path
  | .symlink link_path target => do
    ensure (target.size ≠ 0) (.InvalidLayout "symlink target must not be empty")
    ensure (target.size ≤ Inode.I_BLOCK_LEN) (.SymlinkTargetTooLong target.size)
    adds t link_path
  | .unlink path => unlinks t path
  | .rmdir path => empties t path
  | .rename old_path new_path => moves t old_path new_path
  | .truncate path new_size => resizes block_size t path new_size
  | .chmod path _ | .chown path _ _ | .utime path _ _ => do
    let _ ← opens t path
    .ok ()

/-! ### What a call may lack -/

/-- No run of blocks of this length is free. -/
def Scattered (fs : Filesystem) (count : Nat) : Prop :=
  ∀ start, start + count ≤ fs.superblock.blocks_count.toNat → ∃ b, start ≤ b ∧ b < start + count ∧ block_bit fs b = true
/-- The last name of a path is longer than an entry can hold. -/
def Overlong (path : List UInt8) : Prop :=
  ∃ parent_path name, split_path path = .ok (parent_path, name) ∧ DIR_ENTRY_NAME_MAX < name.length
/-- The directory that a path names has no room for the last name of the path,
    which is not too long for an entry. -/
def Crammed (fs : Filesystem) (path : List UInt8) : Prop :=
  ∃ parent_path name num inode, split_path path = .ok (parent_path, name) ∧ open_directory fs parent_path = .ok (num, inode) ∧
    name.length ≤ DIR_ENTRY_NAME_MAX ∧ ¬ Roomy fs inode name
/-- What stops a call that the tree lets go on. -/
def Lacks (fs : Filesystem) : Request → Prop
  | .create_file path data =>
    NoInode fs ∨ Scattered fs (div_ceil data.size fs.superblock.block_size.toNat) ∨
      32768 < div_ceil data.size fs.superblock.block_size.toNat ∨ Overlong path ∨ Crammed fs path
  | .mkdir path => NoInode fs ∨ Scattered fs 1 ∨ Overlong path ∨ Crammed fs path
  | .symlink link_path _ => NoInode fs ∨ Overlong link_path ∨ Crammed fs link_path
  | .rename _ new_path => Overlong new_path ∨ Crammed fs new_path
  | _ => False

/-- The call returns, or fails for a reason. -/
def Finishes {α : Type} (why : Prop) : Ended Filesystem Ext4Error α → Prop
  | .ok _ _ => True
  | .err _ _ => why
  | .panic => False

/-! ### Paths lead to nodes -/

/-- The spot is the place of the node. -/
structure Spot.Of (v : Volume) (N : NodeMap) (n : UInt32) (spot : Spot) : Prop where
  placed : walk (child N) ROOT_INODE spot.place = some n
  shown : View.entry v N n = some spot.entry

section
variable {g : Geometry} {v : Volume} {N : NodeMap} {fs : Filesystem} {n p : UInt32} {x : Node} {block : Nat}
  {parent : UInt32} {kids : List DirBlock.Kid} {spot : Spot} {path : List UInt8}

theorem Spot.Of.node (of : spot.Of v N n) : ∃ x, N n = some x ∧ spot.entry = ⟨n, View.shown v n x⟩ := by
  have shown := of.shown
  rw [View.entry, Option.map_eq_some_iff] at shown
  obtain ⟨x, here, same⟩ := shown
  exact ⟨x, here, same.symm⟩
theorem Spot.Of.number (of : spot.Of v N n) : spot.entry.inode = n := by
  obtain ⟨x, -, same⟩ := of.node
  rw [same]
theorem Spot.Of.type (of : spot.Of v N n) (here : N n = some x) : spot.entry.is_dir = (x.code == 2) := by
  obtain ⟨y, there, same⟩ := of.node
  cases here.symm.trans there
  rw [same, is_dir_shown]
theorem Spot.Of.is_directory (of : spot.Of v N n) (consistent : Consistent g v N) :
    Inode.is_directory (v.slot n) = spot.entry.is_dir := by
  obtain ⟨x, here, -⟩ := of.node
  rw [of.type here, (types_of_node (consistent.sound here).backed).1]
theorem Spot.Of.read (of : spot.Of v N n) (holds : Holds g v fs) (consistent : Consistent g v N) :
    read_inode fs n = .ok (v.slot n) := by
  obtain ⟨x, here, -⟩ := of.node
  exact read_node holds consistent (live_of here)

/-- A place is that of the node that is there. -/
theorem pairs_at (holds : Holds g v fs) (consistent : Consistent g v N) (place : List (List UInt8)) (name : List UInt8) :
    Pairs (fun n spot => spot.Of v N n) (okOr (walk (child N) ROOT_INODE place) (.NotFound name))
      (at_place (tree fs) place name) := by
  rw [at_place, tree_eq holds consistent, picture, view]
  cases walked : walk (child N) ROOT_INODE place with
  | none => exact .err _
  | some n =>
    have live := walk_live consistent.linked.tree consistent.linked.tree.root_live walked
    cases here : N n with
    | none => exact absurd here live
    | some x =>
      have shown : View.entry v N n = some ⟨n, View.shown v n x⟩ := entry_some here
      rw [Option.bind_some, shown]
      exact .ok ⟨walked, shown⟩
theorem pairs_look (holds : Holds g v fs) (consistent : Consistent g v N) (of : spot.Of v N p)
    (found : N p = some (.dir block parent kids)) (name : List UInt8) :
    Pairs (fun n spot => spot.Of v N n) (lookup fs (v.slot p) name) (look (tree fs) spot.place name) := by
  have enters : (View.entry v N p).any Entry.is_dir = true := by
    rw [entry_some found]
    rfl
  rw [lookup_ok holds consistent found, ← step_dir found,
    step_walk consistent.linked.tree (dotted consistent) of.placed enters]
  exact pairs_at holds consistent _ name
theorem pairs_follow (holds : Holds g v fs) (consistent : Consistent g v N) (of : spot.Of v N n) (names : List (List UInt8)) :
    Pairs (fun n spot => spot.Of v N n) (open_from fs n names) (follow (tree fs) spot (names.filter (!·.isEmpty))) := by
  induction names generalizing n spot with
  | nil => exact .ok of
  | cons name names ih =>
    cases empty : name.isEmpty with
    | true =>
      rw [List.filter_cons_of_neg (by simp [empty]), open_from, empty, if_pos rfl]
      exact ih of
    | false =>
      rw [List.filter_cons_of_pos (by simp [empty]), open_from, empty, if_neg Bool.false_ne_true, of.read holds consistent,
        res_bind_ok, follow, of.number]
      refine (pairs_ensure (of.is_directory consistent) _).bind fun _ _ dir => ?_
      obtain ⟨x, here, -⟩ := of.node
      rw [of.type here] at dir
      cases x with
      | dir => exact (pairs_look holds consistent of here name).bind fun _ _ next => ih next
      | file => cases dir
      | link => cases dir
/-- A path leads through the tree as it leads through the image. -/
theorem pairs_opens (holds : Holds g v fs) (consistent : Consistent g v N) (path : List UInt8) :
    Pairs (fun n spot => spot.Of v N n) (open_path fs path) (opens (tree fs) path) := by
  have start := pairs_at holds consistent [] []
  rw [walk_nil, okOr_some] at start
  exact start.bind (x := .ok ROOT_INODE) (f := fun n => open_from fs n (split path)) fun _ _ of =>
    pairs_follow holds consistent of (split path)
theorem pairs_enter (holds : Holds g v fs) (consistent : Consistent g v N) (path : List UInt8) :
    Pairs (fun opened spot => spot.Of v N opened.1) (open_directory fs path) (enter (tree fs) path) := by
  refine (pairs_opens holds consistent path).bind fun n spot of => ?_
  rw [of.read holds consistent, res_bind_ok, of.number]
  exact (pairs_ensure (of.is_directory consistent) _).bind fun _ _ _ => .ok of
theorem split_path_quiet (path : List UInt8) : NoPanic (split_path path) := by
  rcases split_path_ends path with ⟨parent_path, name, split⟩ | ⟨e, split⟩
  · rw [split]
    exact noPanic_ok _
  · rw [split]
    exact noPanic_err e

/-! ### Adding -/

/-- A place is free when the lookup finds nothing there. -/
theorem pairs_absent (holds : Holds g v fs) (consistent : Consistent g v N) (of : spot.Of v N p)
    (found : N p = some (.dir block parent kids)) (name : List UInt8) :
    Pairs (fun _ _ => named (listing p parent kids) name = none) (ensure_absent fs (v.slot p) name)
      (match look (tree fs) spot.place name with
        | .ok _ => .error (.err (.AlreadyExists name))
        | .error _ => .ok ()) := by
  have looked := pairs_look holds consistent of found name
  rw [lookup_ok holds consistent found] at looked
  rw [ensure_absent_ok holds consistent found]
  generalize look (tree fs) spot.place name = result at looked
  cases edge : named (listing p parent kids) name with
  | none =>
    rw [edge, okOr_none] at looked
    cases looked with
    | err => exact .ok rfl
  | some n =>
    rw [edge, okOr_some] at looked
    cases looked with
    | ok => exact .err _

theorem heeds_under {α : Type} {done : Ended Filesystem Ext4Error α → Prop} (holds : Holds g v fs)
    (consistent : Consistent g v N) (path : List UInt8) (next : UInt32 → Inode.Inode → List UInt8 → Call α)
    (ends : ∀ {parent_path name p block parent kids}, Place g v N path parent_path name p block parent kids →
      (under path next).run fs = (next p (v.slot p) name).run fs → done ((under path next).run fs)) :
    Heeds done fs (adds (tree fs) path) ((under path next).run fs) := by
  refine heeds_lift (pairs_self (split_path_quiet path)) fun (parent_path, name) _ same => ?_
  obtain ⟨rfl, split⟩ := same
  refine heeds_reads (pairs_enter holds consistent parent_path).known fun (p, inode) parent entered => ?_
  obtain ⟨of, opened⟩ := entered
  obtain ⟨block, above, kids, directory, rfl⟩ := directory_of_open holds consistent opened
  refine heeds_last ((pairs_absent holds consistent of directory.found name).known.mono fun _ _ absent => ?_)
  obtain ⟨free, absent⟩ := absent
  have ran : (under path next).run fs = (next p (v.slot p) name).run fs := by
    simp only [under, run_bind, run_lift, split, ofRes_ok, andThen_ok, run_reads, opened, absent]
  have ended := ends ⟨split, directory, free⟩ ran
  rw [ran] at ended
  exact ended

section
variable {config : Config} {parent_path name : List UInt8} {why : Prop}

theorem scattered_of_noRun (whole : Whole config g) (holds : Holds g v fs) {count : Nat} (none : NoRun g v count) :
    Scattered fs count := by
  intro start inside
  have fits := whole.blocks_fit
  have high := g.blocks_high
  rw [holds.static'.blocks_count] at inside
  obtain ⟨b, low, below, taken⟩ := none start (by omega)
  exact ⟨b, low, below, by rw [block_bit_eq holds (by omega), taken]⟩
theorem crammed_of_full (holds : Holds g v fs) (consistent : Consistent g v N)
    (split : split_path path = .ok (parent_path, name)) (directory : Directory N parent_path p block parent kids)
    (full : has_room (v.block block) name = false) : Overlong path ∨ Crammed fs path := by
  by_cases long : DIR_ENTRY_NAME_MAX < name.length
  · exact .inl ⟨parent_path, name, split, long⟩
  refine .inr ⟨parent_path, name, p, _, split, open_directory_ok holds consistent directory, Nat.not_lt.mp long, ?_⟩
  rw [roomy_iff holds consistent directory.found, full]
  exact Bool.false_ne_true
/-- A path that names a free place is refused for want of an inode only. -/
theorem noInode_of_refused (holds : Holds g v fs) (consistent : Consistent g v N)
    (place : Place g v N path parent_path name p block parent kids) (refused : Refused fs path) : NoInode fs := by
  refine refused _ _ _ _ place.split (open_directory_ok holds consistent place.directory) ?_
  rw [ensure_absent_ok holds consistent place.directory.found, if_pos place.free]
/-- A creation that goes on fails when it lacks something. -/
theorem creation_finishes (whole : Whole config g) (modest : Modest g v) (holds : Holds g v fs)
    (consistent : Consistent g v N) {refusal : Prop} {count : Nat} {new : Volume → UInt32 → Node → Prop} {call : Call UInt32}
    (ended : Creation g v N fs path refusal count new (call.run fs)) (refused : refusal → why)
    (scattered : Scattered fs count → why) (long : 32768 < count → why) (crammed : Overlong path ∨ Crammed fs path → why) :
    Finishes why (call.run fs) := by
  generalize call.run fs = r at ended
  cases ended with
  | refused because => exact refused because
  | panicked immodest => exact absurd modest immodest
  | made => trivial
  | wasted _ _ lacks =>
    cases lacks with
    | inodes few => exact absurd whole.inodes (Nat.ne_of_lt few)
    | blocks none => exact scattered (scattered_of_noRun whole holds none)
    | extent more => exact long more
    | room place full => exact crammed (crammed_of_full holds consistent place.split place.directory full)
theorem finishes_map {α β : Type} {f : α → β} {r : Ended Filesystem Ext4Error α} (finishes : Finishes why r) :
    Finishes why (r.andThen fun a fs' => .ok (f a) fs') := by
  cases r with
  | ok => trivial
  | err => exact finishes
  | panic => exact finishes

theorem create_file_heeds (whole : Whole config g) (modest : Modest g v) (holds : Holds g v fs) (consistent : Consistent g v N)
    {data : Bytes} (storable : Storable g.block_size (div_ceil data.size g.block_size)) :
    Heeds (Finishes (Lacks fs (.create_file path data))) fs (adds (tree fs) path) ((create_file path data).run fs) := by
  have ended := create_file_ends holds consistent path storable
  rw [← holds.static'.block_size] at ended
  rw [create_file_eq] at ended ⊢
  exact heeds_under holds consistent path _ fun place _ => creation_finishes whole modest holds consistent ended
    (fun refused => .inl (noInode_of_refused holds consistent place refused)) (fun none => .inr (.inl none))
    (fun long => .inr (.inr (.inl long))) fun full => .inr (.inr (.inr full))
theorem mkdir_heeds (whole : Whole config g) (modest : Modest g v) (holds : Holds g v fs) (consistent : Consistent g v N) :
    Heeds (Finishes (Lacks fs (.mkdir path))) fs (adds (tree fs) path) ((mkdir path).run fs) := by
  have ended := mkdir_ends holds consistent path
  rw [mkdir_eq] at ended ⊢
  exact heeds_under holds consistent path _ fun place _ => creation_finishes whole modest holds consistent ended
    (fun refused => .inl (noInode_of_refused holds consistent place refused)) (fun none => .inr (.inl none))
    (fun long => absurd long (by decide)) fun full => .inr (.inr full)
theorem symlink_heeds (whole : Whole config g) (modest : Modest g v) (holds : Holds g v fs) (consistent : Consistent g v N)
    (block_size : Nat) (target : Bytes) : Heeds (Finishes (Lacks fs (.symlink path target))) fs
      (verdict block_size (tree fs) (.symlink path target)) ((symlink path target).run fs) := by
  have ended := symlink_ends holds consistent path target
  rw [symlink_eq] at ended ⊢
  refine heeds_lift (pairs_ensure rfl _) fun _ _ some => heeds_lift (pairs_ensure rfl _) fun _ _ short => ?_
  have some : target.size ≠ 0 := by simpa using some
  have short : target.size ≤ Inode.I_BLOCK_LEN := by simpa using short
  simp only [run_bind, run_lift, ensure_of some, ensure_of short, ofRes_ok, andThen_ok] at ended
  refine heeds_under holds consistent path _ fun place _ => creation_finishes whole modest holds consistent ended
    (fun refused => ?_) (fun none => ?_) (fun long => absurd long (by decide)) fun full => .inr full
  · rcases refused with empty | long | refused
    · exact absurd empty some
    · exact absurd short (Nat.not_le_of_lt long)
    · exact .inl (noInode_of_refused holds consistent place refused)
  · obtain ⟨b, low, below, -⟩ := none 0 (Nat.zero_le _)
    omega

/-! ### Removing -/

/-- The root is at the empty place, and nothing else is. -/
theorem Spot.Of.root (of : spot.Of v N n) (consistent : Consistent g v N) : n ≠ ROOT_INODE ↔ spot.place ≠ [] := by
  refine not_congr ⟨fun top => ?_, fun empty => ?_⟩
  · refine path_unique consistent.linked.tree ?_ (walk_nil ROOT_INODE)
    rw [← top]
    exact top ▸ of.placed
  · have placed := of.placed
    rw [empty] at placed
    exact (Option.some.inj placed).symm
/-- Find the directory and the inode of a name, and go on. -/
def finding {α : Type} (path : List UInt8) (next : UInt32 → Inode.Inode → UInt32 → List UInt8 → Call α) : Call α := do
  let (parent_path, name) ← lift (split_path path)
  let (parent_inode_num, parent_inode) ← reads fun fs => open_directory fs parent_path
  let target_inode_num ← reads fun fs => lookup fs parent_inode name
  next parent_inode_num parent_inode target_inode_num name
/-- What `unlink` does with what it has found. -/
def unlink_at (_ : UInt32) (parent_inode : Inode.Inode) (target_inode_num : UInt32) (filename : List UInt8) : Call Unit := do
  let target_inode ← reads fun fs => read_inode fs target_inode_num
  lift (ensure (!Inode.is_directory target_inode) (.IsADirectory target_inode_num))
  destroy parent_inode target_inode_num target_inode filename
  flush_metadata
/-- What `rmdir` does with what it has found. -/
def rmdir_at (parent_inode_num : UInt32) (parent_inode : Inode.Inode) (target_inode_num : UInt32) (dirname : List UInt8) :
    Call Unit := do
  lift (ensure (target_inode_num ≠ ROOT_INODE) (.DirectoryNotEmpty target_inode_num))
  let target_inode ← reads fun fs => read_inode fs target_inode_num
  lift (ensure (Inode.is_directory target_inode) (.NotADirectory target_inode_num))
  let entries ← reads fun fs => read_dir fs target_inode
  lift (ensure (entries.countP (fun e => !DirEntry.is_unused e && e.name != DOT && e.name != DOTDOT) = 0)
    (.DirectoryNotEmpty target_inode_num))
  destroy parent_inode target_inode_num target_inode dirname
  write_inode parent_inode_num { parent_inode with links_count := .ofNat (parent_inode.links_count.toNat - 1) }
  change_gdt0 (on_used_dirs (· - 1))
  flush_metadata
theorem unlink_eq (path : List UInt8) : unlink path = finding path unlink_at := rfl
theorem rmdir_eq (path : List UInt8) : rmdir path = finding path rmdir_at := rfl

theorem heeds_finding {α : Type} {done : Ended Filesystem Ext4Error α → Prop} (holds : Holds g v fs)
    (consistent : Consistent g v N) {judge : Spot → Res Ext4Error Unit}
    {next : UInt32 → Inode.Inode → UInt32 → List UInt8 → Call α}
    (ends : ∀ {parent_path name p block parent kids n target}, split_path path = .ok (parent_path, name) →
      Directory N parent_path p block parent kids → named (listing p parent kids) name = some n → target.Of v N n →
      Heeds done fs (judge target) ((next p (v.slot p) n name).run fs)) :
    Heeds done fs (do
        let (parent_path, name) ← split_path path
        let parent ← enter (tree fs) parent_path
        let target ← look (tree fs) parent.place name
        judge target) ((finding path next).run fs) := by
  refine heeds_lift (pairs_self (split_path_quiet path)) fun (parent_path, name) _ same => ?_
  obtain ⟨rfl, split⟩ := same
  refine heeds_reads (pairs_enter holds consistent parent_path).known fun (p, inode) parent entered => ?_
  obtain ⟨of, opened⟩ := entered
  obtain ⟨block, above, kids, directory, rfl⟩ := directory_of_open holds consistent opened
  refine heeds_reads (pairs_look holds consistent of directory.found name).known fun n target looked => ?_
  obtain ⟨target_of, looked⟩ := looked
  rw [lookup_ok holds consistent directory.found] at looked
  refine ends split directory ?_ target_of
  cases edge : named (listing p above kids) name with
  | none => rw [edge] at looked; cases looked
  | some m => rw [edge] at looked; cases looked; rfl

theorem unlink_heeds (modest : Modest g v) (holds : Holds g v fs) (consistent : Consistent g v N) :
    Heeds (Finishes False) fs (unlinks (tree fs) path) ((unlink path).run fs) := by
  rw [unlink_eq]
  refine heeds_finding holds consistent fun {parent_path name p block above kids n target} split directory edge of => ?_
  obtain ⟨x, here, -⟩ := of.node
  have found := directory.found
  have read := of.read holds consistent
  refine heeds_read read ?_
  rw [of.number, ← of.is_directory consistent]
  refine heeds_last ((pairs_ensure rfl _).mono fun _ _ file => ?_)
  have plain : x.code ≠ 2 := by
    rw [(types_of_node (consistent.sound here).backed).1] at file
    simpa using file
  -- The two dots name directories.
  obtain ⟨proper, edge'⟩ : Proper name ∧ named kids name = some n := by
    rcases named_listing_cases found (split_path_ok split).1 edge with ⟨-, same⟩ | ⟨-, same⟩ | facts
    · rw [same, found] at here
      cases here
      exact absurd rfl plain
    · obtain ⟨b, q, ks, up, -⟩ := parent_dir consistent found
      rw [same, up] at here
      cases here
      exact absurd rfl plain
    · exact facts
  rcases destroy_ok holds consistent found proper edge' here with ⟨-, immodest⟩ | ⟨_, _, _, fs₁, -, destroyed, holds₁, -⟩
  · exact absurd modest immodest
  obtain ⟨fs₂, flushed, -⟩ := flush_metadata_ok holds₁ (large_of_edge consistent ((child_dir found name).trans edge') here)
  simp only [run_bind, destroyed, andThen_ok, flushed]
  trivial

/-- Nothing is below the place of a directory exactly when it has no entries. -/
theorem Spot.Of.empty (of : spot.Of v N n) (holds : Holds g v fs) (consistent : Consistent g v N) {b : Nat} {q : UInt32}
    {ks : List DirBlock.Kid} (here : N n = some (.dir b q ks)) :
    ks.length = 0 ↔ ∀ a, tree fs (spot.place ++ [a]) = none := by
  have below : ∀ a, tree fs (spot.place ++ [a]) = (named ks a).bind (View.entry v N) := fun a => by
    rw [tree_eq holds consistent, picture_child of.placed, child_dir here]
  constructor
  · intro none a
    rw [below, List.length_eq_zero_iff.mp none]
    rfl
  · intro nothing
    cases ks with
    | nil => rfl
    | cons k ks =>
      have hit : named (k :: ks) k.name = some k.inode := by simp [named]
      obtain ⟨y, there, -⟩ := consistent.linked.kids here k List.mem_cons_self
      have shown := below k.name
      rw [nothing, hit, Option.bind_some, entry_some there] at shown
      cases shown
theorem rmdir_heeds (modest : Modest g v) (holds : Holds g v fs) (consistent : Consistent g v N)
    (named_entry : ∀ parent_path name, split_path path = .ok (parent_path, name) → name ≠ DOT) :
    Heeds (Finishes False) fs (empties (tree fs) path) ((rmdir path).run fs) := by
  rw [rmdir_eq]
  refine heeds_finding holds consistent fun {parent_path name p block above kids n target} split directory edge of => ?_
  rw [of.number]
  refine heeds_lift (pairs_ensure (decide_eq_decide.mpr (of.root consistent)) _) fun _ _ root => ?_
  have root : n ≠ ROOT_INODE := (of.root consistent).mpr (by simpa using root)
  refine heeds_read (of.read holds consistent) (heeds_lift (pairs_ensure (of.is_directory consistent) _) fun _ _ dir => ?_)
  obtain ⟨x, here, -⟩ := of.node
  rw [of.type here] at dir
  cases x with
  | file => cases dir
  | link => cases dir
  | dir b q ks =>
  have found := directory.found
  obtain ⟨es, listed, -, same⟩ := read_dir_ok holds (consistent.sound here)
  have empty := of.empty holds consistent here
  rw [← entries_left consistent here same] at empty
  refine heeds_read listed (heeds_last ((pairs_ensure (decide_eq_decide.mpr empty) _).mono fun _ _ none => ?_))
  have none : ks = [] := List.length_eq_zero_iff.mp ((of.empty holds consistent here).mpr (by simpa using none))
  -- The parent of a directory is the root or has an entry.
  obtain ⟨proper, edge'⟩ : Proper name ∧ named kids name = some n := by
    rcases named_listing_cases found (split_path_ok split).1 edge with ⟨dot, -⟩ | ⟨-, same⟩ | facts
    · exact absurd dot (named_entry parent_path name split)
    · obtain ⟨b', q', ks', up, back⟩ := parent_dir consistent found
      rw [← same, here] at up
      cases up
      rcases back with top | ⟨k, member, -⟩
      · obtain ⟨_, _, root'⟩ := consistent.root
        rw [top, root'] at found
        cases found
        exact absurd same root
      · rw [none] at member
        cases member
    · exact facts
  rcases destroy_ok holds consistent found proper edge' here with ⟨-, immodest⟩ | ⟨_, _, _, fs₁, -, destroyed, holds₁, -⟩
  · exact absurd modest immodest
  have sound := consistent.sound found
  obtain ⟨fs₂, linked, holds₂⟩ := write_inode_ok holds₁ (n := p) sound.low sound.listed
    { v.slot p with links_count := .ofNat ((v.slot p).links_count.toNat - 1) }
  have counted := holds₂.onGroup0 (f := on_used_dirs (· - 1)) fun _ => ⟨rfl, rfl, rfl⟩
  obtain ⟨fs₃, flushed, -⟩ := flush_metadata_ok counted (large_of_edge consistent ((child_dir found name).trans edge') here)
  simp only [run_bind, destroyed, andThen_ok, linked, change_gdt0, run_change, flushed]
  trivial

/-! ### Changing -/

theorem with_inode_mut_heeds {mutate : Inode.Inode → Inode.Inode} (holds : Holds g v fs) (consistent : Consistent g v N) :
    Heeds (Finishes False) fs (do
      let _ ← opens (tree fs) path
      .ok ()) ((with_inode_mut path mutate).run fs) := by
  refine heeds_reads (pairs_opens holds consistent path) fun n spot of => heeds_read (of.read holds consistent) (.through ?_)
  obtain ⟨x, here, -⟩ := of.node
  have sound := consistent.sound here
  obtain ⟨fs', written, -⟩ := write_inode_ok holds sound.low sound.listed { mutate (v.slot n) with ctime := METADATA_CTIME }
  rw [written]
  trivial

/-- A file cannot grow past its blocks. -/
theorem truncate_unfit (holds : Holds g v fs) (consistent : Consistent g v N) {new_size : UInt64} {start count : Nat}
    (opened : open_path fs path = .ok n) (here : N n = some (.file start count)) (more : count * g.block_size < new_size.toNat) :
    (Filesystem.truncate path new_size).run fs =
      .err (.UnsupportedV0 "truncate-grow with new block allocation not yet supported") fs := by
  have sound := consistent.sound here
  have backed : FileBacked g v n start count := sound.backed
  have size : fs.superblock.block_size.toNat = g.block_size := holds.static'.block_size
  have positive := g.positive
  have reach : (v.slot n).size.toNat ≤ count * g.block_size := by
    rw [← backed.size]
    exact le_div_ceil (by omega)
  have grow : (v.slot n).size < new_size := UInt64.lt_iff_toNat_lt.mpr (by omega)
  have same : new_size ≠ (v.slot n).size := by
    rintro rfl
    omega
  have regular : ensure (Inode.is_regular (v.slot n)) (Ext4Error.NotARegularFile n) = .ok () := by
    rw [(types_of_node sound.backed).2.1]
    rfl
  have extents : Inode.uses_extents (v.slot n) = true := by rw [Inode.uses_extents, backed.flags]; decide
  have allocated : (if Inode.uses_extents (v.slot n) = true ∧ 0 < (v.slot n).size.toNat then do
        let extents ← leaf_extents (v.slot n) "truncate-grow on depth>0 extent tree not yet supported"
        .ok (total_len extents)
      else (.ok 0 : Res Ext4Error Nat)) = .ok count := by
    by_cases some : 0 < (v.slot n).size.toNat
    · rw [if_pos ⟨extents, some⟩, leaf_extents_ok backed, res_bind_ok, total_runs backed.short]
    · rw [if_neg fun both => some both.2, ← backed.size, show (v.slot n).size.toNat = 0 by omega, div_ceil_zero]
  simp only [Filesystem.truncate, run_bind, run_reads, opened, ofRes_ok, andThen_ok, read_node holds consistent (live_of here),
    run_lift, regular, same, ↓reduceIte, grow, size, allocated, ensure_not (Nat.not_le_of_lt more), ofRes_err, andThen_err]
theorem truncate_heeds (modest : Modest g v) (holds : Holds g v fs) (consistent : Consistent g v N) (new_size : UInt64) :
    Heeds (Finishes False) fs (resizes g.block_size (tree fs) path new_size)
      ((Filesystem.truncate path new_size).run fs) := by
  have opens := pairs_opens holds consistent path
  cases opened : open_path fs path with
  | error fault =>
    rw [opened] at opens
    rw [resizes]
    generalize Verdicts.opens (tree fs) path = result at opens
    cases opens with
    | err e =>
      simp only [Filesystem.truncate, run_bind, run_reads, opened, ofRes_err, andThen_err, res_bind_error]
      exact .refused e
  | ok n =>
  rw [opened] at opens
  rw [resizes]
  generalize Verdicts.opens (tree fs) path = result at opens
  cases opens with
  | @ok _ spot of =>
  obtain ⟨x, here, same⟩ := of.node
  rw [res_bind_ok, same]
  have type := (types_of_node (consistent.sound here).backed).2.1
  have other : (x.code == 1) = false → (Filesystem.truncate path new_size).run fs = .err (.NotARegularFile n) fs := fun different => by
    simp only [Filesystem.truncate, run_bind, run_reads, opened, ofRes_ok, andThen_ok, of.read holds consistent, run_lift, type,
      different, ensure_false, ofRes_err, andThen_err]
  cases x with
  | dir =>
    rw [other rfl]
    exact .refused _
  | link =>
    rw [other rfl]
    exact .refused _
  | file start count =>
    have backed : FileBacked g v n start count := (consistent.sound here).backed
    simp only [View.shown, size_fileBytes holds consistent here, backed.size]
    by_cases fits : new_size.toNat ≤ count * g.block_size
    case neg =>
      rw [truncate_unfit holds consistent opened here (by omega), ensure_not fits]
      exact .refused _
    rw [ensure_of fits]
    have ended := truncate_ends holds consistent path new_size
    generalize (Filesystem.truncate path new_size).run fs = r at ended
    refine .through ?_
    cases ended with
    | refused why => exact absurd fits (Nat.not_le_of_lt (why n start count opened here))
    | panicked immodest => exact absurd modest immodest
    | same => trivial
    | changed => trivial

/-! ### Moving -/

section
variable {old_path new_path : List UInt8} {aim : Aim fs old_path new_path} {m p' : UInt32} {block' : Nat} {parent' : UInt32}
  {kids' : List DirBlock.Kid}

/-- What an aim moves to a free place goes along a route. -/
theorem route_of_aim (holds : Holds g v fs) (consistent : Consistent g v N)
    (aimed : Aimed v N aim p block parent kids m x p' block' parent' kids') (dst : aim.dst = .Free)
    (free : named (listing p' parent' kids') aim.new_name = none) (sane : ¬ Astray fs old_path new_path)
    (room : has_room (v.block block') aim.new_name = true) :
    Route g v N p block parent kids aim.old_name p' block' parent' kids' aim.new_name m x := by
  obtain ⟨number, inode, directory, number', inode', directory', moving, src_inode, edge, here⟩ := aimed
  have found := directory.found
  have roomy : Roomy fs aim.new_parent_inode aim.new_name := by
    rw [inode']
    exact (roomy_iff holds consistent directory'.found aim.new_name).mpr room
  obtain ⟨proper, edge'⟩ : Proper aim.old_name ∧ named kids aim.old_name = some m := by
    rcases named_listing_cases found (split_path_ok aim.old_split).1 edge with ⟨dot, -⟩ | ⟨dotdot, -⟩ | facts
    · exact absurd ⟨aim, dst, roomy, .inl dot⟩ sane
    · exact absurd ⟨aim, dst, roomy, .inr (.inl dotdot)⟩ sane
    · exact facts
  obtain ⟨proper', free'⟩ := proper_of_free (split_path_ok aim.new_split).1 free
  have apart : ¬ Beneath (child N) m p' := fun below =>
    sane ⟨aim, dst, roomy, .inr (.inr (by rw [moving, number']; exact leads_of_beneath holds consistent (live_of here) below))⟩
  exact ⟨⟨consistent, found, directory'.found, edge', here, proper, free', proper'⟩, apart⟩
theorem after_checks_finishes (modest : Modest g v) (holds : Holds g v fs) (consistent : Consistent g v N)
    (aimed : Aimed v N aim p block parent kids m x p' block' parent' kids') (sane : ¬ Astray fs old_path new_path) :
    Finishes (Overlong new_path ∨ Crammed fs new_path) ((after_checks aim x.code).run fs) := by
  have crammed := crammed_of_full holds consistent aim.new_split aimed.directory'
  rcases aimed_destination holds consistent aimed with ⟨dst, free⟩ | ⟨dst, -⟩ | ⟨k, y, dst, taken, other, there, file, file'⟩
  · have ran : (after_checks aim x.code).run fs =
        (move_entry p p' (v.slot p) (v.slot p') aim.old_name aim.new_name m (v.slot m) x.code).run fs := by
      simp only [after_checks, dst, aimed.number, aimed.inode, aimed.number', aimed.inode', aimed.moving, aimed.src_inode]
    rw [ran]
    cases room : has_room (v.block block') aim.new_name with
    | false =>
      obtain ⟨e, refused⟩ := move_full aim.old_name holds consistent aimed.directory'.found room (v.slot p) (v.slot m) x.code
      rw [refused]
      exact crammed room
    | true =>
      obtain ⟨fs', v', ended, -⟩ := (route_of_aim holds consistent aimed dst free sane room).ends holds room
      rw [ended]
      trivial
  · simp only [after_checks, dst, run_pure]
    trivial
  · rcases replaced_run holds consistent aimed dst taken other there file file' with
      ⟨-, immodest⟩ | ⟨fs₁, v₁, kids₁, holds₁, pruned, -, route, ran⟩
    · exact absurd modest immodest
    rw [ran]
    cases room : has_room (v₁.block block') aim.new_name with
    | false =>
      obtain ⟨e, refused⟩ := move_full aim.old_name holds₁ pruned.consistent route.found' room (v₁.slot p) (v₁.slot m) x.code
      have full := pruned.room
      rw [room, eq_comm, Bool.or_eq_false_iff] at full
      rw [refused]
      exact crammed full.2
    | true =>
      obtain ⟨fs', v', ended, -⟩ := route.ends holds₁ room
      rw [ended]
      trivial

/-- The checks of the destination. -/
theorem pairs_destination {source : Spot} (holds : Holds g v fs) (consistent : Consistent g v N) (of : source.Of v N m)
    (parent_of : spot.Of v N p) (found : N p = some (.dir block parent kids)) (name : List UInt8) :
    Pairs (fun _ _ => True) (destination fs (v.slot p) name m (Inode.is_directory (v.slot m)))
      (match look (tree fs) spot.place name with
        | .ok target =>
          ensure (target.place = source.place ∨ (!target.entry.is_dir ∧ !source.entry.is_dir)) (.AlreadyExists name)
        | .error _ => .ok ()) := by
  have looked := pairs_look holds consistent parent_of found name
  have answer := lookup_ok holds consistent found name
  rw [destination]
  generalize look (tree fs) spot.place name = result at looked
  cases edge : named (listing p parent kids) name with
  | none =>
    rw [edge, okOr_none] at answer
    rw [answer] at looked
    cases looked with
    | err =>
      rw [answer, catchErr_err, res_bind_ok]
      exact .ok trivial
  | some k =>
    rw [edge, okOr_some] at answer
    rw [answer] at looked
    cases looked with
    | @ok _ target target_of =>
      rw [answer, catchErr_ok, res_bind_ok]
      have one : target.place = source.place ↔ k = m := by
        constructor
        · intro same
          have placed := target_of.placed
          rw [same, of.placed] at placed
          exact (Option.some.inj placed).symm
        · rintro rfl
          exact path_unique consistent.linked.tree target_of.placed of.placed
      dsimp only
      by_cases same : k = m
      · rw [if_pos same, ensure_of (.inl (one.mpr same))]
        exact .ok trivial
      rw [if_neg same, target_of.read holds consistent, res_bind_ok, target_of.is_directory consistent,
        of.is_directory consistent]
      have apart : target.place ≠ source.place := fun hit => same (one.mp hit)
      cases target.entry.is_dir with
      | true =>
        rw [ensure_not (by simp [apart])]
        exact .err _
      | false =>
        cases source.entry.is_dir with
        | true =>
          rw [ensure_not (by simp [apart])]
          exact .err _
        | false =>
          rw [ensure_of (by simp)]
          exact .ok trivial
theorem rename_heeds (modest : Modest g v) (holds : Holds g v fs) (consistent : Consistent g v N)
    (sane : ¬ Astray fs old_path new_path) :
    Heeds (Finishes (Overlong new_path ∨ Crammed fs new_path)) fs (moves (tree fs) old_path new_path)
      ((rename old_path new_path).run fs) := by
  refine heeds_lift (pairs_self (split_path_quiet old_path)) fun (old_parent_path, old_name) _ same => ?_
  obtain ⟨rfl, split⟩ := same
  refine heeds_lift (pairs_self (split_path_quiet new_path)) fun (new_parent_path, new_name) _ same => ?_
  obtain ⟨rfl, split'⟩ := same
  refine heeds_reads (pairs_enter holds consistent old_parent_path).known fun (p, inode) old_parent entered => ?_
  obtain ⟨of, opened⟩ := entered
  obtain ⟨block, parent, kids, directory, rfl⟩ := directory_of_open holds consistent opened
  refine heeds_reads (pairs_look holds consistent of directory.found old_name).known fun m source looked => ?_
  obtain ⟨source_of, looked⟩ := looked
  refine heeds_lift (pairs_ensure (decide_eq_decide.mpr (source_of.root consistent)) _) fun _ _ root => ?_
  have root : m ≠ ROOT_INODE := (source_of.root consistent).mpr (by simpa using root)
  have read := source_of.read holds consistent
  obtain ⟨x, here, -⟩ := source_of.node
  refine heeds_read read (heeds_read (entry_file_type_ok consistent here) ?_)
  refine heeds_reads (pairs_enter holds consistent new_parent_path).known fun (p', inode') new_parent entered => ?_
  obtain ⟨of', opened'⟩ := entered
  obtain ⟨block', parent', kids', directory', rfl⟩ := directory_of_open holds consistent opened'
  refine heeds_last ((pairs_destination holds consistent source_of of' directory'.found new_name).known.mono fun dst _ found => ?_)
  let aim : Aim fs old_path new_path :=
    ⟨_, _, _, _, _, _, _, _, _, _, dst, split, split', opened, looked, root, read, opened', found.2⟩
  obtain ⟨_, _, _, _, k, y, _, _, _, _, aimed⟩ := aimed holds consistent aim
  have same : m = k := aimed.moving
  subst same
  cases here.symm.trans aimed.here
  have ends := after_checks_finishes modest holds consistent aimed sane
  cases dst with
  | Free => exact ends
  | Source => exact ends
  | Replaced => exact ends
end
end

/-! ### Every call -/

/-- A call fails with the error of the tree, or goes on and returns unless it
    lacks something. -/
theorem execute_heeds {config : Config} (whole : Whole config g) (modest : Modest g v) (holds : Holds g v fs)
    (consistent : Consistent g v N) {request : Request} (lets : Admissible fs request) :
    Heeds (Finishes (Lacks fs request)) fs (verdict g.block_size (tree fs) request) ((execute request).run fs) := by
  cases request with
  | create_file path data =>
    rw [Admissible, holds.static'.block_size] at lets
    exact (create_file_heeds whole modest holds consistent lets).andThen finishes_map
  | mkdir path => exact (mkdir_heeds whole modest holds consistent).andThen finishes_map
  | symlink link_path target => exact (symlink_heeds whole modest holds consistent g.block_size target).andThen finishes_map
  | unlink path => exact (unlink_heeds modest holds consistent).andThen finishes_map
  | rmdir path => exact (rmdir_heeds modest holds consistent lets).andThen finishes_map
  | rename old_path new_path => exact (rename_heeds modest holds consistent lets).andThen finishes_map
  | truncate path new_size => exact (truncate_heeds modest holds consistent new_size).andThen finishes_map
  | chmod path mode => exact (with_inode_mut_heeds holds consistent).andThen finishes_map
  | chown path uid gid => exact (with_inode_mut_heeds holds consistent).andThen finishes_map
  | utime path atime mtime => exact (with_inode_mut_heeds holds consistent).andThen finishes_map
end

/-- After any session a path opens what it leads to in the tree, or gives the
    error at which the tree stops it; and a call fails with the error that the
    tree gives and no effect, or returns, or lacks something that it needs. -/
theorem sessions_heed {config : Config} {events : List Event} {fs : Filesystem} (small : Calls.Small config)
    (session : Session config events fs) :
    (∀ path, open_path fs path = (fun spot => spot.entry.inode) <$> opens (tree fs) path) ∧
    ∀ request, Admissible fs request → Heeds (Finishes (Lacks fs request)) fs
      (verdict config.block_size.toNat (tree fs) request) ((execute request).run fs) := by
  obtain ⟨g, whole, v, N, holds, consistent, kept⟩ := session_balanced small session
  constructor
  · exact fun path => (pairs_opens holds consistent path).map_eq fun _ _ of => of.number.symm
  · intro request lets
    rw [← whole.block_size]
    exact execute_heeds whole (modest_within whole holds kept.within) holds consistent lets
/-- A directory has been made, and is not unlinked as a file. -/
theorem mkdir_session_heeds : ∃ n fs, Session Config.default [.returned (.mkdir [SLASH, 97]) (some n), .reopened] fs ∧
    Heeds (Finishes False) fs (unlinks (tree fs) [SLASH, 97]) ((execute (.unlink [SLASH, 97])).run fs) := by
  obtain ⟨n, fs, session⟩ := mkdir_session
  exact ⟨n, fs, session, (sessions_heed default_small session).2 (.unlink [SLASH, 97]) trivial⟩

end Justext4.Verdicts
