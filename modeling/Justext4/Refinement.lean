import Justext4.Progress
import Justext4.View

/-!
The calls as changes of a file tree. A call that returns adds a leaf to the
tree that the filesystem shows, removes one or moves a subtree, and a call that
fails leaves the tree as it was, unless it is a rename that has already removed
what was at its destination.
-/
namespace Justext4.Refinement
open Justext4 Justext4.Fallible Justext4.Filesystem Justext4.Volumes Justext4.Mkfs
open Justext4.Bytes (zeros)
open Justext4.NamedTree
open Justext4.PathTree
open Justext4.Nodes
open Justext4.Paths
open Justext4.Backing
open Justext4.Reading
open Justext4.Leaves
open Justext4.Create
open Justext4.Remove
open Justext4.Rename
open Justext4.View
open Justext4.Calls
open Justext4.Progress (lost_file)

abbrev FileTree := Tree (List UInt8) Entry

/-- A path names a place in a directory of the tree. -/
structure Names (t : FileTree) (path : List UInt8) (place : List (List UInt8)) (name : List UInt8) : Prop where
  split : ∃ parent_path, split_path path = .ok (parent_path, name) ∧ resolved t parent_path = some place
  directory : (t place).any Entry.is_dir = true
  proper : Proper name

/-- What a call does to the tree when it returns. -/
inductive Does (t : FileTree) : Request → Option UInt32 → FileTree → Prop
  | create_file {path : List UInt8} {data : Bytes} {place : List (List UInt8)} {name : List UInt8} {n : UInt32}
      (names : Names t path place name) (free : t (place ++ [name]) = none)
      (unused : ∀ q e, t q = some e → e.inode ≠ n) :
      Does t (.create_file path data) (some n) (add t (place ++ [name]) ⟨n, .file data⟩)
  | mkdir {path : List UInt8} {place : List (List UInt8)} {name : List UInt8} {n : UInt32}
      (names : Names t path place name) (free : t (place ++ [name]) = none)
      (unused : ∀ q e, t q = some e → e.inode ≠ n) :
      Does t (.mkdir path) (some n) (add t (place ++ [name]) ⟨n, .dir⟩)
  | symlink {path : List UInt8} {target : Bytes} {place : List (List UInt8)} {name : List UInt8} {n : UInt32}
      (names : Names t path place name) (free : t (place ++ [name]) = none)
      (unused : ∀ q e, t q = some e → e.inode ≠ n) :
      Does t (.symlink path target) (some n) (add t (place ++ [name]) ⟨n, .link target⟩)
  | unlink {path : List UInt8} {place : List (List UInt8)} {name : List UInt8} {e : Entry}
      (names : Names t path place name) (here : t (place ++ [name]) = some e) (file : e.is_dir = false) :
      Does t (.unlink path) none (remove t (place ++ [name]))
  | rmdir {path : List UInt8} {place : List (List UInt8)} {name : List UInt8} {e : Entry}
      (names : Names t path place name) (here : t (place ++ [name]) = some e) (dir : e.is_dir = true)
      (empty : ∀ a, t (place ++ [name] ++ [a]) = none) :
      Does t (.rmdir path) none (remove t (place ++ [name]))
  | stay {old_path new_path : List UInt8} {q : List (List UInt8)} (old : resolved t old_path = some q)
      (new : resolved t new_path = some q) : Does t (.rename old_path new_path) none t
  | rename {old_path new_path : List UInt8} {place place' : List (List UInt8)} {name name' : List UInt8} {e : Entry}
      (names : Names t old_path place name) (names' : Names t new_path place' name')
      (here : t (place ++ [name]) = some e) (apart : ¬ place ++ [name] <+: place' ++ [name'])
      (free : ∀ e', t (place' ++ [name']) = some e' → e.is_dir = false ∧ e'.is_dir = false) :
      Does t (.rename old_path new_path) none (move t (place ++ [name]) (place' ++ [name']))

/-- What a call does to the tree when it fails: nothing, but for a rename that
    has removed a file or a link at its destination. -/
inductive Fails (t : FileTree) : Request → FileTree → Prop
  | unchanged {request : Request} : Fails t request t
  | lost {old_path new_path : List UInt8} {place : List (List UInt8)} {name : List UInt8} {e : Entry}
      (names : Names t new_path place name) (here : t (place ++ [name]) = some e) (file : e.is_dir = false) :
      Fails t (.rename old_path new_path) (remove t (place ++ [name]))

/-- The calls that change the names. -/
def Renames : Request → Prop
  | .create_file .. | .mkdir .. | .symlink .. | .unlink .. | .rmdir .. | .rename .. => True
  | _ => False

/-- How a call leaves the tree. -/
inductive Refines (t : FileTree) (request : Request) : Ended Filesystem Ext4Error (Option UInt32) → Prop
  | returned {answer : Option UInt32} {fs' : Filesystem} (does : Does t request answer (tree fs')) :
      Refines t request (.ok answer fs')
  | failed {e : Ext4Error} {fs' : Filesystem} (fails : Fails t request (tree fs')) : Refines t request (.err e fs')
  | panicked : Refines t request .panic

section
variable {g : Geometry} {v v' : Volume} {N N' : NodeMap} {fs fs' : Filesystem} {n p : UInt32} {x : Node}
  {path name : List UInt8} {place : List (List UInt8)}

/-- The place of a directory that a path opens. -/
theorem names_of_walk (holds : Holds g v fs) (consistent : Consistent g v N) {parent_path : List UInt8}
    (split : split_path path = .ok (parent_path, name)) (walked : walk (step N) ROOT_INODE (components parent_path) = some p)
    {block : Nat} {parent : UInt32} {kids : List DirBlock.Kid} (found : N p = some (.dir block parent kids))
    (proper : Proper name) :
    ∃ place, Names (tree fs) path place name ∧ walk (child N) ROOT_INODE place = some p := by
  obtain ⟨place, there, placed⟩ := (resolved_walk holds consistent parent_path).mp walked
  refine ⟨place, ⟨⟨parent_path, split, there⟩, ?_, proper⟩, placed⟩
  rw [tree_eq holds consistent, picture, view_at placed, entry_some found]
  rfl
theorem picture_child (placed : walk (child N) ROOT_INODE place = some p) (name : List UInt8) :
    picture v N (place ++ [name]) = (child N p name).bind (entry v N) := by
  rw [picture, view, walk_append_eq placed, walk]
  cases child N p name <;> rfl
theorem picture_unused (dead : N n = none) : ∀ q e, picture v N q = some e → e.inode ≠ n := by
  intro q e shown
  obtain ⟨m, -, found⟩ := view_some.mp shown
  rw [entry, Option.map_eq_some_iff] at found
  obtain ⟨x, here, rfl⟩ := found
  rintro rfl
  rw [dead] at here
  cases here

/-- A new leaf is a new leaf of the tree. -/
theorem picture_grown (consistent : Consistent g v N) {path : List UInt8} (grown : Grown g v v' N N' path n x) :
    ∃ parent_path name p block parent kids, Place g v N path parent_path name p block parent kids ∧
      ∀ place, walk (child N) ROOT_INODE place = some p →
        picture v' N' = add (picture v N) (place ++ [name]) ⟨n, shown v' n x⟩ := by
  obtain ⟨parent_path, name, p, block, parent, kids, at_place, rfl, -⟩ := grown.place
  refine ⟨parent_path, name, p, block, parent, kids, at_place, fun place placed => ?_⟩
  have found := at_place.directory.found
  have unnamed := at_place.unnamed
  have other : ∀ m, Live N m → m ≠ n := fun m live same => live (same ▸ grown.dead)
  refine view_added consistent.linked.tree (child_withLeaf found unnamed grown.dead grown.leaf)
    ((child_dir found name).trans unnamed) (fun live => live grown.dead) placed (fun m live => ?_)
    (entry_some (N := withLeaf N p name n x) (if_pos rfl))
  have same : entry v' (withLeaf N p name n x) m = entry v' (addKid N p ⟨name, n, x.code⟩) m := by
    rw [entry, entry, withLeaf, Nodes.insert, if_neg (other m live)]
  rw [same, addKid, entry_modify fun x => shown_onKids _ x, entry_kept grown.kept]
/-- A leaf that is lost is lost from the tree. -/
theorem picture_pruned (consistent : Consistent g v N) {block : Nat} {parent : UInt32} {kids : List DirBlock.Kid}
    (pruned : Pruned g v v' N N' p block parent kids name n x) (placed : walk (child N) ROOT_INODE place = some p) :
    picture v' N' = remove (picture v N) (place ++ [name]) := by
  have edge := (child_dir pruned.found name).trans pruned.edge
  rw [pruned.nodes]
  refine view_dropped consistent.linked.tree (child_withoutLeaf consistent.linked pruned.found edge pruned.here pruned.leaf)
    edge (child_leaf pruned.here pruned.leaf) placed fun m live other => ?_
  have same : entry v' (withoutLeaf N p name n) m = entry v' (dropKid N p name) m := by
    rw [entry, entry, withoutLeaf, erase, if_neg other]
  rw [same, dropKid, entry_modify fun x => shown_onKids _ x, entry_kept fun there => pruned.kept there other]
/-- A move is a move in the tree. -/
theorem picture_relocated (consistent : Consistent g v N) {old_name new_name : List UInt8} {p' m : UInt32}
    (relocated : Relocated g v v' N N' p old_name p' new_name m x) {place' : List (List UInt8)}
    (placed : walk (child N) ROOT_INODE place = some p) (placed' : walk (child N) ROOT_INODE place' = some p') :
    picture v' N' = move (picture v N) (place ++ [old_name]) (place' ++ [new_name]) := by
  obtain ⟨block, parent, kids, found⟩ := relocated.source
  obtain ⟨block', parent', kids', found'⟩ := relocated.target
  have free := relocated.free
  have distinct : ¬ (p = p' ∧ old_name = new_name) := by
    rintro ⟨rfl, rfl⟩
    rw [relocated.edge] at free
    cases free
  rw [child_dir found'] at free
  rw [relocated.nodes]
  refine view_moved consistent.linked.tree (child_moved _ found found' free distinct) relocated.edge relocated.free
    relocated.apart placed placed' fun k live => ?_
  rw [moved, setParent, entry_modify fun x => shown_withParent _ x, dropKid, entry_modify fun x => shown_onKids _ x,
    addKid, entry_modify fun x => shown_onKids _ x, entry_kept relocated.kept]

/-- A call that creates an inode adds what it says to the tree. -/
theorem refines_creation (holds : Holds g v fs) (consistent : Consistent g v N) {refusal : Prop} {count : Nat}
    {new : Volume → UInt32 → Node → Prop} {call : Call UInt32} {request : Request} (content : Content)
    (ended : Creation g v N fs path refusal count new (call.run fs)) (holds_new : ∀ {v n x}, new v n x → shown v n x = content)
    (does : ∀ {place name n}, Names (tree fs) path place name → tree fs (place ++ [name]) = none →
      (∀ q e, tree fs q = some e → e.inode ≠ n) →
      Does (tree fs) request (some n) (add (tree fs) (place ++ [name]) ⟨n, content⟩)) :
    Refines (tree fs) request ((numbered call).run fs) := by
  simp only [numbered, run_bind]
  generalize call.run fs = result at ended
  cases ended with
  | refused => exact .failed .unchanged
  | panicked => exact .panicked
  | @wasted e fs' v' holds' wasted =>
    have same : tree fs' = tree fs := by
      rw [tree_eq holds' (consistent.spared wasted.spared), tree_eq holds consistent]
      exact view_congr consistent.linked.tree fun n _ => entry_kept fun found => SameData.spared wasted.spared found
    refine .failed ?_
    rw [same]
    exact .unchanged
  | @made n fs' v' N' x holds' written grown held =>
    obtain ⟨parent_path, name, p, block, parent, kids, at_place, added⟩ := picture_grown consistent grown
    obtain ⟨place, names, placed⟩ := names_of_walk holds consistent at_place.split at_place.directory.walked
      at_place.directory.found at_place.proper
    have free : tree fs (place ++ [name]) = none := by
      rw [tree_eq holds consistent, picture_child placed, child_dir at_place.directory.found, at_place.unnamed]
      rfl
    have unused : ∀ q e, tree fs q = some e → e.inode ≠ n := by
      rw [tree_eq holds consistent]
      exact picture_unused grown.dead
    refine .returned ?_
    rw [tree_eq holds' grown.consistent, added place placed, ← tree_eq holds consistent, holds_new held]
    exact does names free unused
/-- A call that removes an entry removes it from the tree. -/
theorem refines_removal (holds : Holds g v fs) (consistent : Consistent g v N) {kind : Node → Prop} {call : Call Unit}
    {request : Request} (ended : Removal g v N fs path kind (call.run fs))
    (does : ∀ {place name n x}, Names (tree fs) path place name → tree fs (place ++ [name]) = some ⟨n, shown v n x⟩ → kind x →
      (∀ a, tree fs (place ++ [name] ++ [a]) = none) →
      Does (tree fs) request none (remove (tree fs) (place ++ [name]))) :
    Refines (tree fs) request ((silent call).run fs) := by
  simp only [silent, run_bind]
  generalize call.run fs = result at ended
  cases ended with
  | refused => exact .failed .unchanged
  | panicked => exact .panicked
  | @removed fs' v' N' parent_path name p block parent kids n x split directory holds' written pruned of_kind =>
    obtain ⟨place, names, placed⟩ := names_of_walk holds consistent split directory.walked directory.found pruned.proper
    have edge := (child_dir pruned.found name).trans pruned.edge
    have here : tree fs (place ++ [name]) = some ⟨n, shown v n x⟩ := by
      rw [tree_eq holds consistent, picture_child placed, edge]
      exact entry_some pruned.here
    have empty : ∀ a, tree fs (place ++ [name] ++ [a]) = none := by
      intro a
      rw [tree_eq holds consistent, picture_child (walk_snoc.mpr ⟨p, placed, edge⟩), child_leaf pruned.here pruned.leaf]
      rfl
    refine .returned ?_
    rw [tree_eq holds' pruned.consistent, picture_pruned consistent pruned placed, ← tree_eq holds consistent]
    exact does names here of_kind empty

/-- The place of a directory is left when a file is removed. -/
theorem placed_pruned (consistent : Consistent g v N) {block : Nat} {parent : UInt32} {kids : List DirBlock.Kid}
    (pruned : Pruned g v v' N N' p block parent kids name n x) {q : UInt32} (other : q ≠ n)
    (placed : walk (child N) ROOT_INODE place = some q) : walk (child N') ROOT_INODE place = some q := by
  have edge := (child_dir pruned.found name).trans pruned.edge
  obtain ⟨before, placed'⟩ := consistent.linked.tree.reached (live_of pruned.found)
  rw [pruned.nodes, walk_dropped consistent.linked.tree
    (child_withoutLeaf consistent.linked pruned.found edge pruned.here pruned.leaf) edge
    (child_leaf pruned.here pruned.leaf) placed', if_neg, placed]
  rintro rfl
  rw [walk_snoc.mpr ⟨p, placed', edge⟩] at placed
  exact other (Option.some.inj placed).symm

/-- A rename moves what it says in the tree. -/
theorem refines_rename (holds : Holds g v fs) (consistent : Consistent g v N) {old_path new_path : List UInt8}
    (sane : ¬ Astray fs old_path new_path) :
    Refines (tree fs) (.rename old_path new_path) ((silent (rename old_path new_path)).run fs) := by
  have ended := rename_ends holds consistent old_path new_path sane
  simp only [silent, run_bind]
  generalize (rename old_path new_path).run fs = result at ended
  cases ended with
  | refused => exact .failed .unchanged
  | panicked => exact .panicked
  | @same m aim source walked walked' =>
    obtain ⟨q, there, placed⟩ := (resolved_walk holds consistent old_path).mp walked
    obtain ⟨q', there', placed'⟩ := (resolved_walk holds consistent new_path).mp walked'
    rw [path_unique consistent.linked.tree placed' placed] at there'
    exact .returned (.stay there there')
  | @lost e fs' v' N' parent_path name p' block' parent' kids' k y lossy split directory holds' pruned file =>
    obtain ⟨place, names, placed⟩ := names_of_walk holds consistent split directory.walked directory.found pruned.proper
    have here : tree fs (place ++ [name]) = some ⟨k, shown v k y⟩ := by
      rw [tree_eq holds consistent, picture_child placed, (child_dir pruned.found name).trans pruned.edge]
      exact entry_some pruned.here
    refine .failed ?_
    rw [tree_eq holds' pruned.consistent, picture_pruned consistent pruned placed, ← tree_eq holds consistent]
    exact .lost names here (by rw [is_dir_shown]; simpa using file)
  | @moved fs' v₁ v' N₁ N' old_parent_path old_name new_parent_path new_name p p' m x harmless split split' walked walked' edge
      here cleared holds' written relocated =>
    obtain ⟨block, parent, kids, found, -⟩ := child_some edge
    have target : ∃ block parent kids, N p' = some (.dir block parent kids) := by
      obtain ⟨block₁, parent₁, kids₁, found₁⟩ := relocated.target
      cases cleared with
      | free => exact ⟨block₁, parent₁, kids₁, found₁⟩
      | replaced _ _ _ pruned => exact ⟨_, _, _, pruned.found⟩
    obtain ⟨block', parent', kids', found'⟩ := target
    obtain ⟨place, names, placed⟩ := names_of_walk holds consistent split walked found relocated.proper
    obtain ⟨place', names', placed'⟩ := names_of_walk holds consistent split' walked' found' relocated.proper'
    have shown_old : tree fs (place ++ [old_name]) = some ⟨m, shown v m x⟩ := by
      rw [tree_eq holds consistent, picture_child placed, edge]
      exact entry_some here
    have shown_new : tree fs (place' ++ [new_name]) = (child N p' new_name).bind (entry v N) := by
      rw [tree_eq holds consistent, picture_child placed']
    -- The tree that the move starts from, and where its directories are there.
    have ready : Consistent g v₁ N₁ ∧ walk (child N₁) ROOT_INODE place = some p ∧
        walk (child N₁) ROOT_INODE place' = some p' ∧
        (∀ e', tree fs (place' ++ [new_name]) = some e' → Entry.is_dir ⟨m, shown v m x⟩ = false ∧ e'.is_dir = false) ∧
        (picture v₁ N₁ = picture v N ∨ picture v₁ N₁ = remove (picture v N) (place' ++ [new_name])) := by
      cases cleared with
      | free =>
        refine ⟨consistent, placed, placed', fun e' there => ?_, .inl rfl⟩
        rw [shown_new, relocated.free] at there
        cases there
      | @replaced _ _ _ _ _ k y other file file' pruned =>
        have apart : p ≠ k := by
          rintro rfl
          rw [pruned.here] at found
          cases found
          exact file rfl
        have apart' : p' ≠ k := by
          rintro rfl
          rw [pruned.here] at found'
          cases found'
          exact file rfl
        refine ⟨pruned.consistent, placed_pruned consistent pruned apart placed, placed_pruned consistent pruned apart' placed',
          fun e' there => ?_, .inr (picture_pruned consistent pruned placed')⟩
        rw [shown_new, (child_dir pruned.found new_name).trans pruned.edge, Option.bind_some, entry_some pruned.here] at there
        cases there
        rw [is_dir_shown, is_dir_shown]
        exact ⟨by simpa using file', by simpa using file⟩
    obtain ⟨consistent₁, placed₁, placed₁', free, cleared_tree⟩ := ready
    have apart : ¬ place ++ [old_name] <+: place' ++ [new_name] := by
      rw [List.prefix_concat_iff]
      rintro (same | before)
      · obtain ⟨-, names_same⟩ := List.append_inj' same rfl
        obtain ⟨places_same, -⟩ := List.append_inj' same rfl
        cases names_same
        rw [places_same, placed₁'] at placed₁
        cases placed₁
        have gone := relocated.free
        rw [relocated.edge] at gone
        cases gone
      · exact place_apart relocated.edge placed₁ placed₁' relocated.apart before
    have after : tree fs' = move (tree fs) (place ++ [old_name]) (place' ++ [new_name]) := by
      rw [tree_eq holds' relocated.consistent, picture_relocated consistent₁ relocated placed₁ placed₁',
        tree_eq holds consistent]
      rcases cleared_tree with same | dropped
      · rw [same]
      · rw [dropped, move_remove apart]
    refine .returned ?_
    rw [after]
    exact .rename names names' shown_old apart free

/-- Every call that changes the names changes the tree as it says. -/
theorem execute_refines (holds : Holds g v fs) (consistent : Consistent g v N) {request : Request} (renames : Renames request)
    (admissible : Admissible fs request) : Refines (tree fs) request ((execute request).run fs) := by
  cases request with
  | create_file path data =>
    rw [Admissible, holds.static'.block_size] at admissible
    refine refines_creation holds consistent (.file data) (create_file_ends holds consistent path admissible)
      ?_ fun names free unused => .create_file names free unused
    rintro v n x ⟨start, count, rfl, bytes, -⟩
    exact congrArg Content.file bytes
  | mkdir path =>
    refine refines_creation holds consistent .dir (mkdir_ends holds consistent path)
      ?_ fun names free unused => .mkdir names free unused
    rintro v n x ⟨code, -⟩
    cases x with
    | dir => rfl
    | file => cases code
    | link => cases code
  | symlink link_path target =>
    refine refines_creation holds consistent (.link target) (symlink_ends holds consistent link_path target)
      ?_ fun names free unused => .symlink names free unused
    rintro v n x ⟨rfl, bytes⟩
    exact congrArg Content.link bytes
  | unlink path =>
    refine refines_removal holds consistent (unlink_ends holds consistent path) fun names here file _ =>
      .unlink names here ?_
    rw [is_dir_shown]
    simpa using file
  | rmdir path =>
    refine refines_removal holds consistent (rmdir_ends holds consistent path admissible) fun names here dir empty =>
      .rmdir names here ?_ empty
    rw [is_dir_shown]
    simpa using dir
  | rename old_path new_path => exact refines_rename holds consistent admissible
  | truncate | chmod | chown | utime => exact renames.elim
end

/-- In every state reached by calls on a fresh image, a call that changes the
    names changes the tree as it says, and nothing else of it. -/
theorem calls_refine_tree {config : Config} {fs : Filesystem} {request : Request} (small : Small config)
    (reached : Reached config Admissible fs) (renames : Renames request) (admissible : Admissible fs request) :
    Refines (tree fs) request ((execute request).run fs) := by
  obtain ⟨g, -, v, N, holds, consistent, -⟩ := reached_counted small reached
  exact execute_refines holds consistent renames admissible
/-- A directory is added to the tree, and a file that is too large changes nothing of it. -/
theorem directory_refines : ∃ fs fs',
    (execute (.mkdir [SLASH, 97])).run (fresh Config.default defaultLayout) = .ok (some 11) fs ∧
    tree fs = add (tree (fresh Config.default defaultLayout)) [[97]] ⟨11, .dir⟩ ∧
    (execute (.create_file [SLASH, 98] (zeros 65537))).run fs = .err (.NoSpace "blocks") fs' ∧ fs' ≠ fs ∧ tree fs' = tree fs := by
  obtain ⟨fs, fs', made, reachedOk, storable, failed, differs, -⟩ := lost_file
  have mkdir : Refines (tree (fresh Config.default defaultLayout)) (.mkdir [SLASH, 97]) _ :=
    calls_refine_tree default_small default_opened.reached trivial trivial
  have create : Refines (tree fs) (.create_file [SLASH, 98] (zeros 65537)) _ :=
    calls_refine_tree default_small reachedOk.reached trivial storable
  rw [made] at mkdir
  rw [failed] at create
  refine ⟨fs, fs', made, ?_, failed, differs, ?_⟩
  · cases mkdir with
    | returned does =>
      generalize tree fs = t at does
      cases does with
      | mkdir names free unused =>
        obtain ⟨parent_path, split, resolves⟩ := names.split
        cases split
        cases resolves
        rfl
  · cases create with
    | failed fails =>
      generalize tree fs' = t at fails
      cases fails
      rfl

end Justext4.Refinement
