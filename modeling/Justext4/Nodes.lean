import Justext4.DirBlock
import Justext4.NamedTree

/-!
The nodes of a file tree. A node is a directory with its parent and its
entries, a file with its run of blocks, or a link. The nodes are linked when
the entries make up a tree from the root, every entry gives the kind of the
node it names, and every directory knows its parent. A new leaf, a lost leaf
and a moved node keep them linked.
-/
namespace Justext4.Nodes
open Justext4.Filesystem (SLASH DOT DOTDOT ROOT_INODE)
open Justext4.DirBlock (Kid)
open Justext4.NamedTree

/-- What a live inode is: the number of a directory's block, its parent and its
    entries other than the first two; the run of blocks of a file; a link. -/
inductive Node where
  | dir (block : Nat) (parent : UInt32) (kids : List Kid)
  | file (start count : Nat)
  | link
  deriving DecidableEq

abbrev NodeMap := UInt32 → Option Node

/-- The type byte of the entry that names a node. -/
def Node.code : Node → UInt8
  | .dir .. => 2
  | .file .. => 1
  | .link => 7
def Node.parent : Node → Option UInt32
  | .dir _ parent _ => some parent
  | _ => none
/-- The blocks that belong to a node. -/
def Node.Owns : Node → Nat → Prop
  | .dir block _ _, b => b = block
  | .file start count, b => start ≤ b ∧ b < start + count
  | .link, _ => False
def Node.onKids (f : List Kid → List Kid) : Node → Node
  | .dir block parent kids => .dir block parent (f kids)
  | x => x
def Node.withParent (parent : UInt32) : Node → Node
  | .dir block _ kids => .dir block parent kids
  | x => x
/-- Nothing is below the node. -/
def Node.Leaf : Node → Prop
  | .dir _ _ kids => kids = []
  | _ => True

@[simp] theorem code_onKids (f : List Kid → List Kid) (x : Node) : (x.onKids f).code = x.code := by cases x <;> rfl
@[simp] theorem parent_onKids (f : List Kid → List Kid) (x : Node) : (x.onKids f).parent = x.parent := by
  cases x <;> rfl
@[simp] theorem owns_onKids (f : List Kid → List Kid) (x : Node) (b : Nat) : (x.onKids f).Owns b ↔ x.Owns b := by
  cases x <;> rfl
@[simp] theorem code_withParent (p : UInt32) (x : Node) : (x.withParent p).code = x.code := by cases x <;> rfl
@[simp] theorem owns_withParent (p : UInt32) (x : Node) (b : Nat) : (x.withParent p).Owns b ↔ x.Owns b := by
  cases x <;> rfl
theorem parent_withParent (p : UInt32) (x : Node) : ∀ q ∈ (x.withParent p).parent, q = p := by
  intro q member
  cases x with
  | dir => cases member; rfl
  | file => cases member
  | link => cases member
theorem withParent_same {p : UInt32} {x : Node} (same : ∀ q ∈ x.parent, q = p) : x.withParent p = x := by
  cases x with
  | dir block parent kids => rw [Node.withParent, same parent rfl]
  | file => rfl
  | link => rfl

def Live (N : NodeMap) (n : UInt32) : Prop := N n ≠ none
def modify (N : NodeMap) (n : UInt32) (f : Node → Node) : NodeMap := fun m => if m = n then (N m).map f else N m
def addKid (N : NodeMap) (p : UInt32) (k : Kid) : NodeMap := modify N p (.onKids (· ++ [k]))
def dropKid (N : NodeMap) (p : UInt32) (name : List UInt8) : NodeMap := modify N p (.onKids (·.filter (·.name != name)))
def setParent (N : NodeMap) (n p : UInt32) : NodeMap := modify N n (.withParent p)
def insert (N : NodeMap) (n : UInt32) (x : Node) : NodeMap := fun m => if m = n then some x else N m
def erase (N : NodeMap) (n : UInt32) : NodeMap := fun m => if m = n then none else N m

/-- The inode that a list of entries has under a name. -/
def named (kids : List Kid) (name : List UInt8) : Option UInt32 := (kids.find? (·.name == name)).map (·.inode)
/-- The edges of the tree. -/
def child (N : NodeMap) (n : UInt32) (name : List UInt8) : Option UInt32 :=
  match N n with
  | some (.dir _ _ kids) => named kids name
  | _ => none

/-- A name that can be a component of a path and is not one of the two dots. -/
def Proper (name : List UInt8) : Prop := name ≠ [] ∧ SLASH ∉ name ∧ name ≠ DOT ∧ name ≠ DOTDOT

instance (name : List UInt8) : Decidable (Proper name) := by unfold Proper; infer_instance

/-- An entry of the directory `n` gives the kind of a node that has `n` as its
    parent. -/
def KidOf (N : NodeMap) (n : UInt32) (k : Kid) : Prop :=
  ∃ x, N k.inode = some x ∧ k.code = x.code ∧ ∀ p ∈ x.parent, p = n

structure Linked (N : NodeMap) : Prop where
  root : ∃ block kids, N ROOT_INODE = some (.dir block ROOT_INODE kids)
  tree : RootedTree (child N) ROOT_INODE (Live N)
  names : ∀ {n block parent kids}, N n = some (.dir block parent kids) → (kids.map (·.name)).Nodup
  proper : ∀ {n block parent kids}, N n = some (.dir block parent kids) → ∀ k ∈ kids, Proper k.name
  kids : ∀ {n block parent kids}, N n = some (.dir block parent kids) → ∀ k ∈ kids, KidOf N n k

/-! ### Looking a name up in a list of entries -/

theorem named_some {kids : List Kid} {name : List UInt8} {m : UInt32} (found : named kids name = some m) :
    ∃ before k after, kids = before ++ k :: after ∧ k.name = name ∧ k.inode = m ∧ ∀ x ∈ before, x.name ≠ name := by
  rw [named, Option.map_eq_some_iff] at found
  obtain ⟨k, search, inode⟩ := found
  rw [List.find?_eq_some_iff_append] at search
  obtain ⟨same, before, after, split, earlier⟩ := search
  exact ⟨before, k, after, split, by simpa using same, inode, fun x member => by simpa using earlier x member⟩
theorem named_none {kids : List Kid} {name : List UInt8} : named kids name = none ↔ ∀ k ∈ kids, k.name ≠ name := by
  simp [named]
theorem named_mem {kids : List Kid} {k : Kid} (nodup : (kids.map (·.name)).Nodup) (member : k ∈ kids) :
    named kids k.name = some k.inode := by
  induction kids with
  | nil => cases member
  | cons x kids ih =>
    rw [List.map_cons, List.nodup_cons] at nodup
    rcases List.mem_cons.mp member with here | later
    · subst here; simp [named]
    · have other : x.name ≠ k.name := fun same => nodup.1 (same ▸ List.mem_map_of_mem later)
      have rest := ih nodup.2 later
      simp only [named] at rest ⊢
      rw [List.find?_cons_of_neg (by simpa using other)]
      exact rest
theorem named_append {kids : List Kid} {k : Kid} (fresh : named kids k.name = none) (name : List UInt8) :
    named (kids ++ [k]) name = if name = k.name then some k.inode else named kids name := by
  rw [named, List.find?_append]
  by_cases same : name = k.name
  · subst same
    have none : kids.find? (·.name == k.name) = none := by
      rw [List.find?_eq_none]
      exact fun x member => by simpa using named_none.mp fresh x member
    simp [none]
  · have other : ¬ k.name = name := fun h => same h.symm
    rw [if_neg same, List.find?_singleton, if_neg (by simpa using other), Option.or_none, named]
theorem named_filter (kids : List Kid) (dropped name : List UInt8) :
    named (kids.filter (·.name != dropped)) name = if name = dropped then none else named kids name := by
  by_cases same : name = dropped
  · subst same
    rw [if_pos rfl, named_none]
    intro k member
    simpa using (List.mem_filter.mp member).2
  · rw [if_neg same, named, named, List.find?_filter]
    congr 2
    funext k
    by_cases hit : k.name = name
    · simp [hit, same]
    · simp [hit]
/-- A free name makes one more distinct name. -/
theorem nodup_snoc {kids : List Kid} {k : Kid} (nodup : (kids.map (·.name)).Nodup) (fresh : named kids k.name = none) :
    ((kids ++ [k]).map (·.name)).Nodup := by
  rw [List.map_append, List.nodup_append]
  refine ⟨nodup, by simp, ?_⟩
  rintro a member b last rfl
  obtain ⟨x, inside, rfl⟩ := List.mem_map.mp member
  simp only [List.map_cons, List.map_nil, List.mem_singleton] at last
  exact named_none.mp fresh x inside last
/-- Leaving a name out of a list of distinct names leaves one entry out. -/
theorem filter_split {before after : List Kid} {k : Kid} (nodup : ((before ++ k :: after).map (·.name)).Nodup) :
    (before ++ k :: after).filter (·.name != k.name) = before ++ after := by
  rw [List.map_append, List.map_cons, List.nodup_append] at nodup
  obtain ⟨-, right, apart⟩ := nodup
  rw [List.nodup_cons] at right
  rw [List.filter_append, List.filter_cons_of_neg (by simp)]
  congr 1
  · rw [List.filter_eq_self]
    intro x member
    simpa using apart x.name (List.mem_map_of_mem member) k.name (List.mem_cons_self ..)
  · rw [List.filter_eq_self]
    intro x member
    have other : x.name ≠ k.name := fun same => right.1 (same ▸ List.mem_map_of_mem member)
    simpa using other

/-! ### The edges after a change -/

section
variable {N : NodeMap} {n p : UInt32}

theorem live_of {N : NodeMap} {n : UInt32} {x : Node} (found : N n = some x) : Live N n := by rw [Live, found]; simp
theorem child_dir {block : Nat} {parent : UInt32} {kids : List Kid} (found : N n = some (.dir block parent kids))
    (name : List UInt8) : child N n name = named kids name := by rw [child, found]
theorem child_leaf {x : Node} (found : N n = some x) (leaf : x.Leaf) (name : List UInt8) : child N n name = none := by
  cases x with
  | dir block parent kids =>
    have none : kids = [] := leaf
    rw [child_dir found, none]
    rfl
  | file => simp [child, found]
  | link => simp [child, found]
theorem child_some {name : List UInt8} {m : UInt32} (edge : child N n name = some m) :
    ∃ block parent kids, N n = some (.dir block parent kids) ∧ named kids name = some m := by
  simp only [child] at edge
  split at edge
  · rename_i block parent kids found
    exact ⟨block, parent, kids, found, edge⟩
  · cases edge
theorem live_modify (f : Node → Node) : Live (modify N n f) = Live N := by
  funext m
  rw [Live, Live, modify]
  split <;> simp
theorem modify_other (f : Node → Node) {m : UInt32} (other : m ≠ n) : modify N n f m = N m := if_neg other
theorem modify_some {f : Node → Node} {m : UInt32} {y : Node} (found : modify N n f m = some y) :
    (m ≠ n ∧ N m = some y) ∨ (m = n ∧ ∃ x, N n = some x ∧ y = f x) := by
  by_cases same : m = n
  · subst same
    rw [modify, if_pos rfl, Option.map_eq_some_iff] at found
    obtain ⟨x, here, rfl⟩ := found
    exact .inr ⟨rfl, x, here, rfl⟩
  · rw [modify_other f same] at found
    exact .inl ⟨same, found⟩
theorem modify_at {f : Node → Node} {x : Node} (found : N n = some x) : modify N n f n = some (f x) := by
  rw [modify, if_pos rfl, found]
  rfl
theorem child_addKid {block : Nat} {parent : UInt32} {kids : List Kid} {k : Kid}
    (found : N p = some (.dir block parent kids)) (fresh : named kids k.name = none) :
    Added (child N) (child (addKid N p k)) p k.name k.inode := by
  have here : addKid N p k p = some (.dir block parent (kids ++ [k])) := modify_at found
  constructor
  · rw [child_dir here, named_append fresh, if_pos rfl]
  · intro q a other
    by_cases same : q = p
    · subst same
      rw [child_dir here, child_dir found, named_append fresh, if_neg fun h => other ⟨rfl, h⟩]
    · simp only [child, addKid, modify_other _ same]
theorem child_dropKid {block : Nat} {parent : UInt32} {kids : List Kid} (name : List UInt8)
    (found : N p = some (.dir block parent kids)) : Dropped (child N) (child (dropKid N p name)) p name := by
  have here : dropKid N p name p = some (.dir block parent (kids.filter (·.name != name))) := modify_at found
  constructor
  · rw [child_dir here, named_filter, if_pos rfl]
  · intro q a other
    by_cases same : q = p
    · subst same
      rw [child_dir here, child_dir found, named_filter, if_neg fun h => other ⟨rfl, h⟩]
    · simp only [child, dropKid, modify_other _ same]
theorem child_setParent (N : NodeMap) (n p : UInt32) : child (setParent N n p) = child N := by
  funext q a
  by_cases same : q = n
  · subst same
    cases found : N q with
    | none => simp [child, setParent, modify, found]
    | some x => cases x <;> simp [child, setParent, modify, found, Node.withParent]
  · simp only [child, setParent, modify_other _ same]
theorem child_insert {x : Node} (fresh : N n = none) (leaf : x.Leaf) : child (insert N n x) = child N := by
  funext q a
  by_cases same : q = n
  · subst same
    rw [child_leaf (N := insert N q x) (if_pos rfl) leaf]
    simp [child, fresh]
  · simp only [child, insert, if_neg same]
theorem child_erase {x : Node} (found : N n = some x) (leaf : x.Leaf) : child (erase N n) = child N := by
  funext q a
  by_cases same : q = n
  · subst same
    rw [child_leaf found leaf]
    simp [child, erase]
  · simp only [child, erase, if_neg same]

/-- An entry names a live node. -/
theorem KidOf.live {k : Kid} (kid : KidOf N n k) : Live N k.inode := by
  obtain ⟨x, found, -⟩ := kid
  exact live_of found
/-- An entry stays right when the node it names keeps its kind and its parent. -/
theorem KidOf.mono {N' : NodeMap} {k : Kid} (old : KidOf N n k)
    (same : ∀ x, N k.inode = some x → ∃ y, N' k.inode = some y ∧ y.code = x.code ∧ y.parent = x.parent) :
    KidOf N' n k := by
  obtain ⟨x, found, code, parent⟩ := old
  obtain ⟨y, found', code', parent'⟩ := same x found
  exact ⟨y, found', code.trans code'.symm, by rw [parent']; exact parent⟩
theorem onKids_similar (f : List Kid → List Kid) {m : UInt32} {x : Node} (found : N m = some x) :
    ∃ y, modify N p (.onKids f) m = some y ∧ y.code = x.code ∧ y.parent = x.parent := by
  by_cases same : m = p
  · subst same
    exact ⟨_, modify_at found, by simp, by simp⟩
  · exact ⟨x, by rw [modify_other _ same, found], rfl, rfl⟩

/-! ### The changes keep the nodes linked -/

/-- The nodes with a new leaf `n` under the directory `p`. -/
def withLeaf (N : NodeMap) (p : UInt32) (name : List UInt8) (n : UInt32) (x : Node) : NodeMap :=
  insert (addKid N p ⟨name, n, x.code⟩) n x

theorem child_withLeaf {block : Nat} {parent : UInt32} {kids : List Kid} {name : List UInt8} {x : Node}
    (found : N p = some (.dir block parent kids)) (free : named kids name = none) (fresh : N n = none)
    (leaf : x.Leaf) : Added (child N) (child (withLeaf N p name n x)) p name n := by
  have other : n ≠ p := by rintro rfl; rw [fresh] at found; cases found
  have gone : addKid N p ⟨name, n, x.code⟩ n = none := by rw [addKid, modify_other _ other, fresh]
  rw [withLeaf, child_insert gone leaf]
  exact child_addKid found free

theorem linked_withLeaf (linked : Linked N) {block : Nat} {parent : UInt32} {kids : List Kid} {name : List UInt8}
    {x : Node} (found : N p = some (.dir block parent kids)) (free : named kids name = none) (proper : Proper name)
    (fresh : N n = none) (leaf : x.Leaf) (back : ∀ q ∈ x.parent, q = p) : Linked (withLeaf N p name n x) := by
  have other : n ≠ p := by rintro rfl; rw [fresh] at found; cases found
  have edges := child_withLeaf found free fresh leaf
  have kept : ∀ {m y}, N m = some y →
      ∃ z, withLeaf N p name n x m = some z ∧ z.code = y.code ∧ z.parent = y.parent := by
    intro m y here
    have distinct : m ≠ n := by rintro rfl; rw [fresh] at here; cases here
    rw [withLeaf, insert, if_neg distinct]
    exact onKids_similar _ here
  have cases' : ∀ {m block' parent' kids'}, withLeaf N p name n x m = some (.dir block' parent' kids') →
      (m = n ∧ kids' = []) ∨ (m = p ∧ kids' = kids ++ [⟨name, n, x.code⟩]) ∨ N m = some (.dir block' parent' kids') := by
    intro m block' parent' kids' here
    rw [withLeaf, insert] at here
    split at here
    · rename_i same
      cases here
      exact .inl ⟨same, leaf⟩
    · rcases modify_some here with ⟨-, old⟩ | ⟨same, y, old, shape⟩
      · exact .inr (.inr old)
      · rw [found] at old
        cases old
        cases shape
        exact .inr (.inl ⟨same, rfl⟩)
  refine ⟨?_, ?_, ?_, ?_, ?_⟩
  · obtain ⟨block', kids', root⟩ := linked.root
    obtain ⟨z, here, code, parent'⟩ := kept root
    cases z with
    | dir b q ks => cases parent'; exact ⟨b, ks, here⟩
    | file => cases code
    | link => cases code
  · have live : Live (withLeaf N p name n x) = fun m => Live N m ∨ m = n := by
      funext m
      apply propext
      by_cases same : m = n
      · simp [same, Live, withLeaf, insert]
      · have split : withLeaf N p name n x m = addKid N p ⟨name, n, x.code⟩ m := if_neg same
        rw [Live, split, ← Live, addKid, live_modify]
        simp [same]
    rw [live]
    exact tree_added linked.tree edges (by rw [child_dir found, free]) (by rw [Live, fresh]; simp) (live_of found)
  · intro m block' parent' kids' here
    rcases cases' here with ⟨-, rfl⟩ | ⟨-, rfl⟩ | old
    · simp
    · exact nodup_snoc (linked.names found) free
    · exact linked.names old
  · intro m block' parent' kids' here k member
    rcases cases' here with ⟨-, rfl⟩ | ⟨-, rfl⟩ | old
    · cases member
    · rcases List.mem_append.mp member with earlier | last
      · exact linked.proper found k earlier
      · rw [List.mem_singleton] at last
        exact last ▸ proper
    · exact linked.proper old k member
  · intro m block' parent' kids' here k member
    rcases cases' here with ⟨-, rfl⟩ | ⟨rfl, rfl⟩ | old
    · cases member
    · rcases List.mem_append.mp member with earlier | last
      · exact (linked.kids found k earlier).mono fun y here => kept here
      · rw [List.mem_singleton] at last
        subst last
        exact ⟨x, if_pos rfl, rfl, back⟩
    · exact (linked.kids old k member).mono fun y here => kept here

/-- The nodes without the leaf `n`, which the directory `p` has under `name`. -/
def withoutLeaf (N : NodeMap) (p : UInt32) (name : List UInt8) (n : UInt32) : NodeMap := erase (dropKid N p name) n

/-- The parent of a node is another node. -/
theorem child_ne (linked : Linked N) {name : List UInt8} (edge : child N p name = some n) : n ≠ p := by
  rintro rfl
  have none := no_cycle [name] linked.tree (linked.tree.closed edge).1 (walk_cons.mpr ⟨n, edge, rfl⟩)
  cases none

theorem child_withoutLeaf {block : Nat} {parent : UInt32} {kids : List Kid} {name : List UInt8} {x : Node}
    (linked : Linked N) (found : N p = some (.dir block parent kids)) (edge : child N p name = some n)
    (here : N n = some x) (leaf : x.Leaf) : Dropped (child N) (child (withoutLeaf N p name n)) p name := by
  have other := child_ne linked edge
  have there : dropKid N p name n = some x := by rw [dropKid, modify_other _ other, here]
  rw [withoutLeaf, child_erase there leaf]
  exact child_dropKid _ found

theorem linked_withoutLeaf (linked : Linked N) {block : Nat} {parent : UInt32} {kids : List Kid} {name : List UInt8}
    {x : Node} (found : N p = some (.dir block parent kids)) (edge : child N p name = some n) (here : N n = some x)
    (leaf : x.Leaf) : Linked (withoutLeaf N p name n) := by
  have edges := child_withoutLeaf linked found edge here leaf
  have barren := child_leaf here leaf
  have kept : ∀ {m y}, m ≠ n → N m = some y →
      ∃ z, withoutLeaf N p name n m = some z ∧ z.code = y.code ∧ z.parent = y.parent := by
    intro m y distinct here
    rw [withoutLeaf, erase, if_neg distinct]
    exact onKids_similar _ here
  have cases' : ∀ {m block' parent' kids'}, withoutLeaf N p name n m = some (.dir block' parent' kids') →
      (m = p ∧ kids' = kids.filter (·.name != name)) ∨ (m ≠ p ∧ N m = some (.dir block' parent' kids')) := by
    intro m block' parent' kids' here
    rw [withoutLeaf, erase] at here
    split at here
    · cases here
    · rcases modify_some here with ⟨other, old⟩ | ⟨same, y, old, shape⟩
      · exact .inr ⟨other, old⟩
      · rw [found] at old
        cases old
        cases shape
        exact .inl ⟨same, rfl⟩
  -- No other entry names the leaf.
  have unnamed : ∀ {m block' parent' kids'}, N m = some (.dir block' parent' kids') → ∀ k ∈ kids', k.inode = n →
      m = p ∧ k.name = name := by
    intro m block' parent' kids' old k member same
    have edge' : child N m k.name = some n := by rw [child_dir old, named_mem (linked.names old) member, same]
    exact linked.tree.once edge' edge
  refine ⟨?_, ?_, ?_, ?_, ?_⟩
  · obtain ⟨block', kids', root⟩ := linked.root
    have distinct : ROOT_INODE ≠ n := fun same => linked.tree.top p name (same ▸ edge)
    obtain ⟨z, here, code, parent'⟩ := kept distinct root
    cases z with
    | dir b q ks => cases parent'; exact ⟨b, ks, here⟩
    | file => cases code
    | link => cases code
  · have live : Live (withoutLeaf N p name n) = fun m => Live N m ∧ m ≠ n := by
      funext m
      apply propext
      by_cases same : m = n
      · simp [same, Live, withoutLeaf, erase]
      · have split : withoutLeaf N p name n m = dropKid N p name m := if_neg same
        rw [Live, split, ← Live, dropKid, live_modify]
        simp [same]
    rw [live]
    exact tree_dropped linked.tree edges edge barren
  · intro m block' parent' kids' here
    rcases cases' here with ⟨-, rfl⟩ | ⟨-, old⟩
    · exact ((List.filter_sublist).map _).nodup (linked.names found)
    · exact linked.names old
  · intro m block' parent' kids' here k member
    rcases cases' here with ⟨-, rfl⟩ | ⟨-, old⟩
    · exact linked.proper found k (List.mem_filter.mp member).1
    · exact linked.proper old k member
  · intro m block' parent' kids' here k member
    rcases cases' here with ⟨rfl, rfl⟩ | ⟨other, old⟩
    · have inside := List.mem_filter.mp member
      have distinct : k.inode ≠ n := fun same => by
        have out := (unnamed found k inside.1 same).2
        simp [out] at inside
      exact (linked.kids found k inside.1).mono fun y here => kept distinct here
    · have distinct : k.inode ≠ n := fun same => other (unnamed old k member same).1
      exact (linked.kids old k member).mono fun y here => kept distinct here

/-- The nodes with `m` led from `p'` under `name'` and no longer from `p` under
    `name`. -/
def moved (N : NodeMap) (p : UInt32) (name : List UInt8) (p' : UInt32) (name' : List UInt8) (m : UInt32) (code : UInt8) :
    NodeMap := setParent (dropKid (addKid N p' ⟨name', m, code⟩) p name) m p'

theorem child_moved {p' m : UInt32} {block block' : Nat} {parent parent' : UInt32} {kids kids' : List Kid}
    {name name' : List UInt8} (code : UInt8) (found : N p = some (.dir block parent kids))
    (found' : N p' = some (.dir block' parent' kids')) (free : named kids' name' = none)
    (distinct : ¬ (p = p' ∧ name = name')) :
    Moved (child N) (child (moved N p name p' name' m code)) p name p' name' m := by
  have added := child_addKid (k := ⟨name', m, code⟩) found' free
  obtain ⟨ks, there⟩ : ∃ ks, addKid N p' ⟨name', m, code⟩ p = some (.dir block parent ks) := by
    by_cases same : p = p'
    · subst same
      exact ⟨_, modify_at found⟩
    · exact ⟨kids, by rw [addKid, modify_other _ same, found]⟩
  have dropped := child_dropKid name there
  rw [moved, child_setParent]
  refine ⟨?_, dropped.1, ?_⟩
  · rw [dropped.2 p' name' fun same => distinct ⟨same.1.symm, same.2.symm⟩]
    exact added.1
  · intro n a old new
    rw [dropped.2 n a old, added.2 n a new]

theorem linked_moved (linked : Linked N) {p' m : UInt32} {block block' : Nat} {parent parent' : UInt32}
    {kids kids' : List Kid} {name name' : List UInt8} {x : Node} (found : N p = some (.dir block parent kids))
    (found' : N p' = some (.dir block' parent' kids')) (edge : child N p name = some m) (here : N m = some x)
    (free : named kids' name' = none) (proper : Proper name') (apart : ¬ Beneath (child N) m p') :
    Linked (moved N p name p' name' m x.code) := by
  have distinct : ¬ (p = p' ∧ name = name') := by
    rintro ⟨rfl, rfl⟩
    rw [found] at found'
    cases found'
    rw [child_dir found, free] at edge
    cases edge
  have edges := child_moved (m := m) x.code found found' free distinct
  -- Only the moved node may change its parent.
  have kept : ∀ {n y}, N n = some y → ∃ z, moved N p name p' name' m x.code n = some z ∧ z.code = y.code ∧
      (n ≠ m → z.parent = y.parent) := by
    intro n y there
    obtain ⟨y', there', code', parent'⟩ := onKids_similar (p := p') (· ++ [⟨name', m, x.code⟩]) there
    obtain ⟨z, there'', code'', parent''⟩ := onKids_similar (p := p) (·.filter (·.name != name)) there'
    by_cases same : n = m
    · subst same
      exact ⟨z.withParent p', modify_at there'', by rw [code_withParent, code'', code'], fun other => absurd rfl other⟩
    · exact ⟨z, by rw [moved, setParent, modify_other _ same]; exact there'', code''.trans code',
        fun _ => parent''.trans parent'⟩
  have there : moved N p name p' name' m x.code m =
      some (((if m = p' then x.onKids (· ++ [⟨name', m, x.code⟩]) else x).onKids
        (if m = p then (·.filter (·.name != name)) else id)).withParent p') := by
    have first : addKid N p' ⟨name', m, x.code⟩ m =
        some (if m = p' then x.onKids (· ++ [⟨name', m, x.code⟩]) else x) := by
      by_cases same : m = p'
      · rw [if_pos same, addKid, ← same, modify_at here]
      · rw [if_neg same, addKid, modify_other _ same, here]
    have same_id : ∀ y : Node, y.onKids id = y := by intro y; cases y <;> rfl
    rw [moved, setParent]
    apply modify_at
    by_cases same : m = p
    · rw [if_pos same, dropKid, ← same, modify_at first]
    · rw [if_neg same, dropKid, modify_other _ same, first, same_id]
  have cases' : ∀ {n b q ks}, moved N p name p' name' m x.code n = some (.dir b q ks) →
      ∃ q₀ ks₀, N n = some (.dir b q₀ ks₀) ∧
        (ks = ks₀ ∨ (n = p ∧ ks = ks₀.filter (·.name != name)) ∨
          (n = p' ∧ ks = ks₀ ++ [⟨name', m, x.code⟩]) ∨
          (n = p ∧ n = p' ∧ ks = (ks₀ ++ [(⟨name', m, x.code⟩ : Kid)]).filter (·.name != name))) ∧
        (n = p → ∀ k ∈ ks, k.name ≠ name) := by
    intro n b q ks held
    have dropped : ∃ q₁, dropKid (addKid N p' ⟨name', m, x.code⟩) p name n = some (.dir b q₁ ks) := by
      rcases modify_some held with ⟨-, old⟩ | ⟨rfl, y, old, shape⟩
      · exact ⟨q, old⟩
      · cases y with
        | dir b₁ q₁ ks₁ => cases shape; exact ⟨q₁, old⟩
        | file => cases shape
        | link => cases shape
    obtain ⟨q₁, dropped⟩ := dropped
    rcases modify_some dropped with ⟨other, old⟩ | ⟨rfl, y, old, shape⟩
    · rcases modify_some old with ⟨other', old'⟩ | ⟨rfl, y', old', shape'⟩
      · exact ⟨q₁, ks, old', .inl rfl, fun same => absurd same other⟩
      · cases y' with
        | dir b₂ q₂ ks₂ =>
          cases shape'
          exact ⟨_, _, old', .inr (.inr (.inl ⟨rfl, rfl⟩)), fun same => absurd same other⟩
        | file => cases shape'
        | link => cases shape'
    · cases y with
      | dir b₁ q₂ ks₁ =>
        cases shape
        have out : ∀ k ∈ ks₁.filter (·.name != name), k.name ≠ name := fun k member => by
          simpa using (List.mem_filter.mp member).2
        rcases modify_some old with ⟨other', old'⟩ | ⟨rfl, y', old', shape'⟩
        · exact ⟨_, ks₁, old', .inr (.inl ⟨rfl, rfl⟩), fun _ => out⟩
        · cases y' with
          | dir b₂ q₃ ks₂ =>
            cases shape'
            exact ⟨_, ks₂, old', .inr (.inr (.inr ⟨rfl, rfl, rfl⟩)), fun _ => out⟩
          | file => cases shape'
          | link => cases shape'
      | file => cases shape
      | link => cases shape
  have long : ((kids' ++ [(⟨name', m, x.code⟩ : Kid)]).map (·.name)).Nodup := nodup_snoc (linked.names found') free
  -- The entries of a directory are old ones or the new one.
  have entries : ∀ {n b q ks}, moved N p name p' name' m x.code n = some (.dir b q ks) →
      (ks.map (·.name)).Nodup ∧ ∃ q₀ ks₀, N n = some (.dir b q₀ ks₀) ∧
        ∀ k ∈ ks, (k ∈ ks₀ ∧ (n = p → k.name ≠ name)) ∨ (n = p' ∧ k = ⟨name', m, x.code⟩) := by
    intro n b q ks held
    obtain ⟨q₀, ks₀, old, shape, out⟩ := cases' held
    rcases shape with rfl | ⟨same, rfl⟩ | ⟨same, rfl⟩ | ⟨same, same', rfl⟩
    · exact ⟨linked.names old, q₀, ks, old, fun k member => .inl ⟨member, fun same => out same k member⟩⟩
    · refine ⟨((List.filter_sublist).map _).nodup (linked.names old), q₀, ks₀, old, fun k member => .inl ?_⟩
      exact ⟨(List.mem_filter.mp member).1, fun same => out same k member⟩
    · subst same
      rw [found'] at old
      cases old
      refine ⟨long, _, _, found', fun k member => ?_⟩
      rcases List.mem_append.mp member with earlier | last
      · exact .inl ⟨earlier, fun same => out same k member⟩
      · exact .inr ⟨rfl, List.mem_singleton.mp last⟩
    · subst same'
      rw [found'] at old
      cases old
      refine ⟨((List.filter_sublist).map _).nodup long, _, _, found', fun k member => ?_⟩
      rcases List.mem_append.mp (List.mem_filter.mp member).1 with earlier | last
      · exact .inl ⟨earlier, fun same => out same k member⟩
      · exact .inr ⟨rfl, List.mem_singleton.mp last⟩
  refine ⟨?_, ?_, ?_, ?_, ?_⟩
  · obtain ⟨b, ks, root⟩ := linked.root
    obtain ⟨z, here', code, parent''⟩ := kept root
    have other : ROOT_INODE ≠ m := fun same => linked.tree.top p name (same ▸ edge)
    have same := parent'' other
    cases z with
    | dir b' q ks' => cases same; exact ⟨b', ks', here'⟩
    | file => cases code
    | link => cases code
  · have live : Live (moved N p name p' name' m x.code) = Live N := by
      rw [moved, setParent, live_modify, dropKid, live_modify, addKid, live_modify]
    rw [live]
    exact tree_moved linked.tree edges edge (by rw [child_dir found', free]) (live_of found') apart
  · exact fun held => (entries held).1
  · intro n b q ks held k member
    obtain ⟨-, q₀, ks₀, old, each⟩ := entries held
    rcases each k member with ⟨inside, -⟩ | ⟨-, rfl⟩
    · exact linked.proper old k inside
    · exact proper
  · intro n b q ks held k member
    obtain ⟨-, q₀, ks₀, old, each⟩ := entries held
    rcases each k member with ⟨inside, out⟩ | ⟨rfl, rfl⟩
    · have other : k.inode ≠ m := by
        intro same
        have edge' : child N n k.name = some m := by
          rw [child_dir old, named_mem (linked.names old) inside, same]
        obtain ⟨source, names⟩ := linked.tree.once edge' edge
        exact out source names
      refine (linked.kids old k inside).mono fun y there' => ?_
      obtain ⟨z, after, code, parent''⟩ := kept there'
      exact ⟨z, after, code, parent'' other⟩
    · refine ⟨_, there, ?_, ?_⟩
      · rw [code_withParent, code_onKids]
        split <;> simp
      · exact parent_withParent _ _
end

end Justext4.Nodes
