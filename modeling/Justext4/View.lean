import Justext4.Leaves
import Justext4.PathTree

/-!
What a filesystem shows. Following the directories from the root, the dots left
out, every path of names leads to an inode and to what it holds; a filesystem
that backs a tree shows that tree. Paths with dots open what they resolve to in
the tree that is shown.
-/
namespace Justext4.View
open Justext4 Justext4.Fallible Justext4.Filesystem Justext4.Volumes Bytes
open Justext4.DirEntry (DirEntry is_unused)
open Justext4.NamedTree
open Justext4.PathTree
open Justext4.Nodes
open Justext4.Paths
open Justext4.Backing
open Justext4.Reading
open Justext4.Leaves

/-- What an inode holds. -/
inductive Content where
  | dir
  | file (data : Bytes)
  | link (target : Bytes)

/-- What is at a path: the number of an inode, and what it holds. -/
structure Entry where
  inode : UInt32
  content : Content

def Entry.is_dir (entry : Entry) : Bool :=
  match entry.content with
  | .dir => true
  | _ => false

/-- The inode that a directory names, the dots left out. -/
def child_of (fs : Filesystem) (n : UInt32) (name : List UInt8) : Option UInt32 := do
  let inode ← (read_inode fs n).toOption
  if Inode.is_directory inode ∧ name ≠ DOT ∧ name ≠ DOTDOT then (lookup fs inode name).toOption else none
/-- What `read_file` gives of an inode that is not a directory. -/
def content_of (fs : Filesystem) (n : UInt32) : Option Content := do
  let inode ← (read_inode fs n).toOption
  if Inode.is_directory inode then some .dir
  else do
    let bytes ← (read_file fs inode).toOption
    some (if Inode.is_symlink inode then .link bytes else .file bytes)
def entry_of (fs : Filesystem) (n : UInt32) : Option Entry := (content_of fs n).map (⟨n, ·⟩)

/-- The tree from the root directory on. -/
def tree (fs : Filesystem) : Tree (List UInt8) Entry := view (child_of fs) ROOT_INODE (entry_of fs)
/-- Some path from the root leads to the inode. -/
def Reaches (fs : Filesystem) (n : UInt32) : Prop := ∃ q, walk (child_of fs) ROOT_INODE q = some n

/-- Where a path leads in a tree, as names without dots. -/
def resolved (t : Tree (List UInt8) Entry) (path : List UInt8) : Option (List (List UInt8)) :=
  resolve t Entry.is_dir DOT DOTDOT [] (components path)

/-! ### The tree of the nodes -/

/-- What a node holds. -/
def shown (v : Volume) (n : UInt32) : Node → Content
  | .dir .. => .dir
  | .file start count => .file (fileBytes v n start count)
  | .link => .link (linkBytes v n)
def entry (v : Volume) (N : NodeMap) (n : UInt32) : Option Entry := (N n).map fun x => ⟨n, shown v n x⟩
def picture (v : Volume) (N : NodeMap) : Tree (List UInt8) Entry := view (child N) ROOT_INODE (entry v N)

section
variable {g : Geometry} {v v' : Volume} {N N' : NodeMap} {fs : Filesystem} {n m : UInt32} {x : Node}

@[simp] theorem shown_onKids (f : List DirBlock.Kid → List DirBlock.Kid) (x : Node) :
    shown v n (x.onKids f) = shown v n x := by cases x <;> rfl
@[simp] theorem shown_withParent (p : UInt32) (x : Node) : shown v n (x.withParent p) = shown v n x := by cases x <;> rfl
theorem shown_same (same : SameData v v' n x) : shown v' n x = shown v n x := by
  cases x with
  | dir => rfl
  | file start count => exact congrArg Content.file same.bytes
  | link => exact congrArg Content.link same.target
theorem entry_some (found : N n = some x) : entry v N n = some ⟨n, shown v n x⟩ := by rw [entry, found]; rfl
theorem is_dir_shown (x : Node) : Entry.is_dir ⟨n, shown v n x⟩ = (x.code == 2) := by cases x <;> rfl
/-- A change that keeps what the nodes show keeps the entries. -/
theorem entry_modify {f : Node → Node} (keeps : ∀ x, shown v' m (f x) = shown v' m x) :
    entry v' (Nodes.modify N n f) m = entry v' N m := by
  rw [entry, entry, Nodes.modify]
  split
  · rw [Option.map_map]
    congr 1
    funext x
    simp only [Function.comp_apply, keeps]
  · rfl
theorem entry_kept (same : ∀ {x}, N m = some x → SameData v v' m x) : entry v' N m = entry v N m := by
  cases found : N m with
  | none => rw [entry, entry, found]; rfl
  | some x => rw [entry_some found, entry_some found, shown_same (same found)]

theorem content_of_eq (holds : Holds g v fs) (consistent : Consistent g v N) (live : Live N n) :
    entry_of fs n = entry v N n := by
  cases found : N n with
  | none => exact absurd found live
  | some x =>
    have sound := consistent.sound found
    obtain ⟨directory, -, link⟩ := types_of_node sound.backed
    rw [entry_some found, entry_of, content_of, read_node holds consistent live, Except.toOption, Option.bind_eq_bind,
      Option.bind_some, directory, link]
    cases x with
    | dir => rfl
    | file start count =>
      rw [read_file_file holds sound]
      rfl
    | link =>
      rw [read_file_link sound]
      rfl
/-- The children that the calls find are those of the nodes, whether the nodes are
    a tree or not. -/
theorem child_of_laid (holds : Holds g v fs) (laid : Laid g v N) (readable : Readable N) (live : Live N n) (name : List UInt8) :
    child_of fs n name = child N n name := by
  cases found : N n with
  | none => exact absurd found live
  | some x =>
    have sound := laid.sound found
    have directory := (types_of_node sound.backed).1
    have read := read_inode_ok holds sound.low sound.listed
    rw [child_of, read, Except.toOption, Option.bind_eq_bind, Option.bind_some, directory]
    cases x with
    | dir block parent kids =>
      rw [child_dir found]
      by_cases dots : name = DOT ∨ name = DOTDOT
      · have unnamed : named kids name = none := named_none.mpr fun k member same => by
          have proper := readable.proper found k member
          rw [same] at proper
          rcases dots with rfl | rfl
          · exact proper.2.2.1 rfl
          · exact proper.2.2.2 rfl
        rw [unnamed, if_neg (by tauto)]
      · have plain : name ≠ DOT ∧ name ≠ DOTDOT := not_or.mp dots
        rw [if_pos ⟨rfl, plain⟩, lookup_laid holds laid readable found, named_listing _ plain.1 plain.2]
        cases named kids name <;> rfl
    | file start count => rw [child_leaf found trivial]; rfl
    | link => rw [child_leaf found trivial]; rfl
theorem child_of_eq (holds : Holds g v fs) (consistent : Consistent g v N) (live : Live N n) (name : List UInt8) :
    child_of fs n name = child N n name :=
  child_of_laid holds consistent.toLaid (readable_of consistent) live name

theorem walk_child_of (holds : Holds g v fs) (consistent : Consistent g v N) (q : List (List UInt8)) :
    walk (child_of fs) ROOT_INODE q = walk (child N) ROOT_INODE q :=
  walk_congr fun _ name _ _ _ walked => child_of_eq holds consistent
    (walk_live consistent.linked.tree consistent.linked.tree.root_live walked) name

/-- A filesystem shows the tree that it backs. -/
theorem tree_eq (holds : Holds g v fs) (consistent : Consistent g v N) : tree fs = picture v N := by
  have linked := consistent.linked
  rw [picture, ← view_congr linked.tree fun n live => content_of_eq holds consistent live]
  funext q
  rw [tree, view, view, walk_child_of holds consistent]
theorem reaches_iff (holds : Holds g v fs) (consistent : Consistent g v N) : Reaches fs n ↔ Live N n := by
  simp only [Reaches, walk_child_of holds consistent]
  constructor
  · rintro ⟨q, walked⟩
    exact walk_live consistent.linked.tree consistent.linked.tree.root_live walked
  · exact consistent.linked.tree.reached

/-! ### Paths with dots -/

theorem dotted (consistent : Consistent g v N) :
    Dotted (child N) ROOT_INODE (Live N) (entry v N) Entry.is_dir DOT DOTDOT (step N) where
  shut n live shut name := by
    cases found : N n with
    | none => exact absurd found live
    | some x =>
      rw [entry_some found, Option.any_some, is_dir_shown] at shut
      cases x with
      | dir => cases shut
      | file => rw [step, found]
      | link => rw [step, found]
  here n live entered := by
    cases found : N n with
    | none => exact absurd found live
    | some x =>
      rw [entry_some found, Option.any_some, is_dir_shown] at entered
      cases x with
      | dir => rw [step_dir found, named_dot]
      | file => cases entered
      | link => cases entered
  top := by
    obtain ⟨block, kids, found⟩ := consistent.root
    rw [step_dir found, named_dotdot]
  up n a m edge entered := by
    obtain ⟨block, parent, kids, source, hit⟩ := child_some edge
    obtain ⟨before, k, after, split, -, inode, -⟩ := named_some hit
    obtain ⟨x, there, -, back⟩ := consistent.linked.kids source k (by simp [split])
    rw [inode] at there
    rw [entry_some there, Option.any_some, is_dir_shown] at entered
    cases x with
    | dir block parent kids => rw [step_dir there, named_dotdot, back parent rfl]
    | file => cases entered
    | link => cases entered
  along n live name first second := by
    cases found : N n with
    | none => exact absurd found live
    | some x =>
      cases x with
      | dir block parent kids => rw [step_dir found, named_listing _ first second, child_dir found]
      | file => rw [step, child, found]
      | link => rw [step, child, found]
  shown n live := by
    cases found : N n with
    | none => exact absurd found live
    | some x => rw [entry_some found]; exact Option.some_ne_none _

/-- A path leads where it is resolved to. -/
theorem resolved_walk (holds : Holds g v fs) (consistent : Consistent g v N) (path : List UInt8) :
    walk (step N) ROOT_INODE (components path) = some m ↔
      ∃ r, resolved (tree fs) path = some r ∧ walk (child N) ROOT_INODE r = some m := by
  rw [resolved, tree_eq holds consistent]
  exact resolve_walk consistent.linked.tree (dotted consistent) (components path) rfl m
/-- A path opens the inode at the path that it is resolved to. -/
theorem open_path_resolved (holds : Holds g v fs) (consistent : Consistent g v N) (path : List UInt8) :
    open_path fs path = .ok m ↔ ∃ r e, resolved (tree fs) path = some r ∧ tree fs r = some e ∧ e.inode = m := by
  have ends : open_path fs path = .ok m ↔ walk (step N) ROOT_INODE (components path) = some m := by
    rcases open_path_walk holds consistent path with ⟨k, walked, opened⟩ | ⟨nowhere, e, refused⟩
    · rw [walked, opened, Except.ok.injEq, Option.some.injEq]
    · rw [nowhere, refused]
      exact ⟨fun same => (nomatch same), fun same => (nomatch same)⟩
  rw [ends, resolved_walk holds consistent, tree_eq holds consistent]
  constructor
  · rintro ⟨r, there, walked⟩
    obtain ⟨x, found⟩ := Option.ne_none_iff_exists'.mp
      (walk_live consistent.linked.tree consistent.linked.tree.root_live walked)
    exact ⟨r, _, there, view_some.mpr ⟨m, walked, entry_some found⟩, rfl⟩
  · rintro ⟨r, e, there, at_r, rfl⟩
    obtain ⟨n, walked, found⟩ := view_some.mp at_r
    rw [entry, Option.map_eq_some_iff] at found
    obtain ⟨x, -, rfl⟩ := found
    exact ⟨r, there, walked⟩
end

end Justext4.View
