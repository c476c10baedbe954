import Mathlib.Data.List.Induction

/-!
Trees with named edges. The children of a node are a partial function of the
name; a path is followed name by name from the root. In a rooted tree every
live node is at the end of exactly one path, so a path stands for its node and
the three changes of a tree, a new leaf, a lost leaf and a moved subtree, are
changes of the map from paths to nodes.
-/
namespace Justext4.NamedTree
variable {ι ν : Type}

/-- The node at the end of a path. -/
def walk (child : ι → ν → Option ι) (start : ι) : List ν → Option ι
  | [] => some start
  | name :: path =>
    match child start name with
    | some next => walk child next path
    | none => none

/-- Every live node is at the end of a path from the root, and no edge leads
    to the root or to where another edge leads. -/
structure RootedTree (child : ι → ν → Option ι) (root : ι) (live : ι → Prop) : Prop where
  root_live : live root
  closed : ∀ {n name m}, child n name = some m → live n ∧ live m
  top : ∀ n name, child n name ≠ some root
  once : ∀ {n n' name name' m}, child n name = some m → child n' name' = some m → n = n' ∧ name = name'
  reached : ∀ {n}, live n → ∃ path, walk child root path = some n

section
variable {child child' : ι → ν → Option ι} {root : ι} {live : ι → Prop}

@[simp] theorem walk_nil (n : ι) : walk child n [] = some n := rfl
theorem walk_cons {n : ι} {name : ν} {path : List ν} {m : ι} :
    walk child n (name :: path) = some m ↔ ∃ k, child n name = some k ∧ walk child k path = some m := by
  rw [walk]
  split <;> simp_all
theorem walk_append {n : ι} {first second : List ν} {m : ι} :
    walk child n (first ++ second) = some m ↔ ∃ k, walk child n first = some k ∧ walk child k second = some m := by
  induction first generalizing n with
  | nil => simp
  | cons name path ih =>
    rw [List.cons_append, walk_cons]
    simp only [ih, walk_cons]
    constructor
    · rintro ⟨k, step, l, left, right⟩
      exact ⟨l, ⟨k, step, left⟩, right⟩
    · rintro ⟨l, ⟨k, step, left⟩, right⟩
      exact ⟨k, step, l, left, right⟩
theorem walk_snoc {n : ι} {path : List ν} {name : ν} {m : ι} :
    walk child n (path ++ [name]) = some m ↔ ∃ k, walk child n path = some k ∧ child k name = some m := by
  rw [walk_append]
  simp only [walk_cons, walk_nil, Option.some.injEq, exists_eq_right]
theorem walk_append_eq {n k : ι} {first second : List ν} (left : walk child n first = some k) :
    walk child n (first ++ second) = walk child k second := by
  apply Option.ext
  intro m
  rw [walk_append]
  constructor
  · rintro ⟨k', left', right⟩
    rw [left] at left'
    cases left'
    exact right
  · exact fun right => ⟨k, left, right⟩
theorem walk_append_none {n : ι} {first second : List ν} (left : walk child n first = none) :
    walk child n (first ++ second) = none := by
  rw [Option.eq_none_iff_forall_not_mem]
  intro m member
  obtain ⟨k, start, -⟩ := walk_append.mp member
  rw [left] at start
  cases start

theorem walk_live (tree : RootedTree child root live) {n m : ι} {path : List ν} (start : live n)
    (walked : walk child n path = some m) : live m := by
  induction path generalizing n with
  | nil => cases walked; exact start
  | cons name path ih =>
    obtain ⟨k, step, later⟩ := walk_cons.mp walked
    exact ih (tree.closed step).2 later

/-- A node is at the end of one path only. -/
theorem path_unique (tree : RootedTree child root live) {n : ι} {p q : List ν} (left : walk child root p = some n)
    (right : walk child root q = some n) : p = q := by
  induction p using List.reverseRecOn generalizing q n with
  | nil =>
    cases left
    cases q using List.reverseRecOn with
    | nil => rfl
    | append_singleton q name =>
      obtain ⟨k, -, step⟩ := walk_snoc.mp right
      exact absurd step (tree.top k name)
  | append_singleton p name ih =>
    obtain ⟨k, before, step⟩ := walk_snoc.mp left
    cases q using List.reverseRecOn with
    | nil =>
      cases right
      exact absurd step (tree.top k name)
    | append_singleton q name' =>
      obtain ⟨k', before', step'⟩ := walk_snoc.mp right
      obtain ⟨same, names⟩ := tree.once step step'
      subst same
      rw [ih before before', names]

/-- No path leads from a node back to it. -/
theorem no_cycle (path : List ν) (tree : RootedTree child root live) {n : ι} (start : live n)
    (walked : walk child n path = some n) : path = [] := by
  obtain ⟨p, reached⟩ := tree.reached start
  have longer : walk child root (p ++ path) = some n := by rw [walk_append_eq reached, walked]
  have same := path_unique tree longer reached
  simpa using same

/-- Two sets of edges that agree wherever a path leads lead to the same nodes. -/
theorem walk_congr {n : ι} {path : List ν}
    (same : ∀ before name after k, path = before ++ name :: after → walk child n before = some k →
      child' k name = child k name) : walk child' n path = walk child n path := by
  induction path generalizing n with
  | nil => rfl
  | cons name path ih =>
    have first := same [] name path n rfl rfl
    rw [walk, walk, first]
    cases step : child n name with
    | none => rfl
    | some k =>
      exact ih fun before name' after l split walked =>
        same (name :: before) name' after l (by rw [split]; rfl) (walk_cons.mpr ⟨k, step, walked⟩)

/-- `m` is `n` or below it. -/
def Beneath (child : ι → ν → Option ι) (n m : ι) : Prop := ∃ path, walk child n path = some m

theorem Beneath.refl (n : ι) : Beneath child n n := ⟨[], rfl⟩
theorem Beneath.step {n m k : ι} {name : ν} (below : Beneath child n m) (edge : child m name = some k) :
    Beneath child n k := by
  obtain ⟨path, walked⟩ := below
  exact ⟨path ++ [name], walk_snoc.mpr ⟨m, walked, edge⟩⟩
/-- What is below a node, the node itself left out, is below it with its parent. -/
theorem Beneath.parent (tree : RootedTree child root live) {n m k : ι} {name : ν} (below : Beneath child n k)
    (edge : child m name = some k) (other : k ≠ n) : Beneath child n m := by
  obtain ⟨path, walked⟩ := below
  cases path using List.reverseRecOn with
  | nil => cases walked; exact absurd rfl other
  | append_singleton path name' =>
    obtain ⟨l, before, edge'⟩ := walk_snoc.mp walked
    obtain ⟨same, -⟩ := tree.once edge edge'
    exact same ▸ ⟨path, before⟩

/-! ### A new leaf -/

/-- The edges with a new one from `at` under `name`. -/
def Added (child child' : ι → ν → Option ι) (source : ι) (name : ν) (m : ι) : Prop :=
  child' source name = some m ∧ ∀ n a, ¬ (n = source ∧ a = name) → child' n a = child n a

theorem walk_added [DecidableEq ν] (tree : RootedTree child root live) {source m : ι} {name : ν} {place : List ν}
    (edges : Added child child' source name m) (free : child source name = none) (fresh : ¬ live m)
    (placed : walk child root place = some source) (q : List ν) :
    walk child' root q = if q = place ++ [name] then some m else walk child root q := by
  induction q using List.reverseRecOn with
  | nil => rw [if_neg (by simp)]; rfl
  | append_singleton q a ih =>
    have barren : ∀ b, child m b = none := by
      intro b
      rw [Option.eq_none_iff_forall_not_mem]
      exact fun k edge => fresh (tree.closed edge).1
    have other : m ≠ source := fun same => fresh (same ▸ walk_live tree tree.root_live placed)
    apply Option.ext
    intro k
    rw [walk_snoc, ih]
    by_cases last : q ++ [a] = place ++ [name]
    · obtain ⟨same, names⟩ := List.append_inj' last rfl
      cases names
      subst same
      rw [if_pos rfl, if_neg (by simp), placed]
      constructor
      · rintro ⟨l, here, edge⟩
        cases here
        rw [edges.1] at edge
        exact edge
      · rintro here
        exact ⟨source, rfl, edges.1.trans here⟩
    · rw [if_neg last, walk_snoc]
      by_cases below : q = place ++ [name]
      · subst below
        rw [if_pos rfl]
        constructor
        · rintro ⟨l, here, edge⟩
          cases here
          rw [edges.2 _ _ (fun same => other same.1), barren] at edge
          cases edge
        · rintro ⟨l, here, edge⟩
          obtain ⟨l', start, step⟩ := walk_snoc.mp here
          rw [placed] at start
          cases start
          rw [free] at step
          cases step
      · rw [if_neg below]
        have agree : ∀ l, walk child root q = some l → child' l a = child l a := by
          intro l here
          refine edges.2 _ _ fun same => last ?_
          obtain ⟨rfl, rfl⟩ := same
          rw [path_unique tree here placed]
        constructor
        · rintro ⟨l, here, edge⟩
          exact ⟨l, here, by rw [← agree l here]; exact edge⟩
        · rintro ⟨l, here, edge⟩
          exact ⟨l, here, by rw [agree l here]; exact edge⟩

theorem tree_added [DecidableEq ν] (tree : RootedTree child root live) {source m : ι} {name : ν}
    (edges : Added child child' source name m) (free : child source name = none) (fresh : ¬ live m)
    (start : live source) : RootedTree child' root (fun n => live n ∨ n = m) := by
  obtain ⟨place, placed⟩ := tree.reached start
  have walks := walk_added tree edges free fresh placed
  have cases' : ∀ {n a k}, child' n a = some k → (n = source ∧ a = name ∧ k = m) ∨ child n a = some k := by
    intro n a k edge
    by_cases here : n = source ∧ a = name
    · obtain ⟨rfl, rfl⟩ := here
      rw [edges.1] at edge
      cases edge
      exact .inl ⟨rfl, rfl, rfl⟩
    · rw [edges.2 n a here] at edge
      exact .inr edge
  refine ⟨.inl tree.root_live, ?_, ?_, ?_, ?_⟩
  · intro n a k edge
    rcases cases' edge with ⟨rfl, rfl, rfl⟩ | old
    · exact ⟨.inl start, .inr rfl⟩
    · exact ⟨.inl (tree.closed old).1, .inl (tree.closed old).2⟩
  · intro n a edge
    rcases cases' edge with ⟨-, -, same⟩ | old
    · exact fresh (same ▸ tree.root_live)
    · exact tree.top n a old
  · intro n n' a a' k edge edge'
    rcases cases' edge with ⟨rfl, rfl, rfl⟩ | old <;> rcases cases' edge' with ⟨rfl, rfl, same⟩ | old'
    · exact ⟨rfl, rfl⟩
    · exact absurd (tree.closed old').2 fresh
    · exact absurd (tree.closed old).2 (same ▸ fresh)
    · exact tree.once old old'
  · rintro n (old | rfl)
    · obtain ⟨path, walked⟩ := tree.reached old
      refine ⟨path, ?_⟩
      rw [walks, if_neg, walked]
      rintro rfl
      obtain ⟨l, before, step⟩ := walk_snoc.mp walked
      rw [placed] at before
      cases before
      rw [free] at step
      cases step
    · exact ⟨place ++ [name], by rw [walks, if_pos rfl]⟩

/-! ### A lost leaf -/

/-- The edges without the one from `source` under `name`. -/
def Dropped (child child' : ι → ν → Option ι) (source : ι) (name : ν) : Prop :=
  child' source name = none ∧ ∀ n a, ¬ (n = source ∧ a = name) → child' n a = child n a

theorem walk_dropped [DecidableEq ν] (tree : RootedTree child root live) {source m : ι} {name : ν} {place : List ν}
    (edges : Dropped child child' source name) (edge : child source name = some m) (leaf : ∀ a, child m a = none)
    (placed : walk child root place = some source) (q : List ν) :
    walk child' root q = if q = place ++ [name] then none else walk child root q := by
  induction q using List.reverseRecOn with
  | nil => rw [if_neg (by simp)]; rfl
  | append_singleton q a ih =>
    apply Option.ext
    intro k
    rw [walk_snoc, ih]
    by_cases last : q ++ [a] = place ++ [name]
    · obtain ⟨same, names⟩ := List.append_inj' last rfl
      cases names
      subst same
      rw [if_pos rfl, if_neg (by simp), placed]
      constructor
      · rintro ⟨l, here, step⟩
        cases here
        rw [edges.1] at step
        exact step
      · rintro here
        cases here
    · rw [if_neg last, walk_snoc]
      by_cases below : q = place ++ [name]
      · subst below
        rw [if_pos rfl]
        constructor
        · rintro ⟨l, here, -⟩
          cases here
        · rintro ⟨l, here, step⟩
          have node := walk_snoc.mpr ⟨source, placed, edge⟩
          rw [node] at here
          cases here
          rw [leaf] at step
          cases step
      · rw [if_neg below]
        have agree : ∀ l, walk child root q = some l → child' l a = child l a := by
          intro l here
          refine edges.2 _ _ fun same => last ?_
          obtain ⟨rfl, rfl⟩ := same
          rw [path_unique tree here placed]
        constructor
        · rintro ⟨l, here, step⟩
          exact ⟨l, here, by rw [← agree l here]; exact step⟩
        · rintro ⟨l, here, step⟩
          exact ⟨l, here, by rw [agree l here]; exact step⟩

theorem tree_dropped [DecidableEq ν] (tree : RootedTree child root live) {source m : ι} {name : ν}
    (edges : Dropped child child' source name) (edge : child source name = some m)
    (leaf : ∀ a, child m a = none) : RootedTree child' root (fun n => live n ∧ n ≠ m) := by
  obtain ⟨place, placed⟩ := tree.reached (tree.closed edge).1
  have walks := walk_dropped tree edges edge leaf placed
  have kept : ∀ {n a k}, child' n a = some k → child n a = some k ∧ ¬ (n = source ∧ a = name) := by
    intro n a k step
    by_cases here : n = source ∧ a = name
    · obtain ⟨rfl, rfl⟩ := here
      rw [edges.1] at step
      cases step
    · rw [edges.2 n a here] at step
      exact ⟨step, here⟩
  refine ⟨⟨tree.root_live, fun same => tree.top source name (same ▸ edge)⟩, ?_, ?_, ?_, ?_⟩
  · intro n a k step
    obtain ⟨old, other⟩ := kept step
    refine ⟨⟨(tree.closed old).1, ?_⟩, (tree.closed old).2, ?_⟩
    · rintro rfl
      rw [leaf] at old
      cases old
    · rintro rfl
      exact other (tree.once old edge)
  · exact fun n a step => tree.top n a (kept step).1
  · exact fun step step' => tree.once (kept step).1 (kept step').1
  · rintro n ⟨old, other⟩
    obtain ⟨path, walked⟩ := tree.reached old
    refine ⟨path, ?_⟩
    rw [walks, if_neg, walked]
    rintro rfl
    have node := walk_snoc.mpr ⟨source, placed, edge⟩
    rw [node] at walked
    exact other (Option.some.inj walked).symm

/-! ### A moved subtree -/

/-- The edges with the one from `source` under `name` led from `source'` under
    `name'` instead. -/
def Moved (child child' : ι → ν → Option ι) (source : ι) (name : ν) (source' : ι) (name' : ν) (m : ι) : Prop :=
  child' source' name' = some m ∧ child' source name = none ∧
    ∀ n a, ¬ (n = source ∧ a = name) → ¬ (n = source' ∧ a = name') → child' n a = child n a

theorem moved_cases {source source' m : ι} {name name' : ν} (edges : Moved child child' source name source' name' m)
    {n : ι} {a : ν} {k : ι} (edge : child' n a = some k) :
    (n = source' ∧ a = name' ∧ k = m) ∨ (child n a = some k ∧ ¬ (n = source ∧ a = name)) := by
  by_cases new : n = source' ∧ a = name'
  · obtain ⟨rfl, rfl⟩ := new
    rw [edges.1] at edge
    cases edge
    exact .inl ⟨rfl, rfl, rfl⟩
  by_cases old : n = source ∧ a = name
  · obtain ⟨rfl, rfl⟩ := old
    rw [edges.2.1] at edge
    cases edge
  · rw [edges.2.2 n a old new] at edge
    exact .inr ⟨edge, old⟩

section
variable {source source' m : ι} {name name' : ν} {place place' : List ν}

/-- The moved subtree itself is as it was. -/
theorem walk_moved_subtree (tree : RootedTree child root live) (edges : Moved child child' source name source' name' m)
    (edge : child source name = some m) (apart : ¬ Beneath child m source') (r : List ν) :
    walk child' m r = walk child m r := by
  refine walk_congr fun before a after k split walked => edges.2.2 k a ?_ ?_
  · rintro ⟨rfl, rfl⟩
    -- The source is above the subtree, so a path into it would close a cycle.
    have round : walk child m (before ++ [a]) = some m := walk_snoc.mpr ⟨k, walked, edge⟩
    have none := no_cycle _ tree (tree.closed edge).2 round
    simp at none
  · rintro ⟨rfl, rfl⟩
    exact apart ⟨before, walked⟩

/-- A path that uses neither of the two edges leads where it led. -/
theorem walk_moved_apart (tree : RootedTree child root live) (edges : Moved child child' source name source' name' m)
    (placed : walk child root place = some source) (placed' : walk child root place' = some source') {q : List ν}
    (old : ¬ place ++ [name] <+: q) (new : ¬ place' ++ [name'] <+: q) : walk child' root q = walk child root q := by
  refine walk_congr fun before a after k split walked => edges.2.2 k a ?_ ?_
  · rintro ⟨rfl, rfl⟩
    rw [path_unique tree walked placed] at split
    exact old ⟨after, by rw [split]; simp⟩
  · rintro ⟨rfl, rfl⟩
    rw [path_unique tree walked placed'] at split
    exact new ⟨after, by rw [split]; simp⟩

/-- The new place is not within the old one. -/
theorem place_apart (edge : child source name = some m) (placed : walk child root place = some source)
    (placed' : walk child root place' = some source') (apart : ¬ Beneath child m source') :
    ¬ place ++ [name] <+: place' := by
  rintro ⟨r, split⟩
  have node := walk_snoc.mpr ⟨source, placed, edge⟩
  rw [← split, walk_append_eq node] at placed'
  exact apart ⟨r, placed'⟩

theorem walk_moved_place (tree : RootedTree child root live) (edges : Moved child child' source name source' name' m)
    (edge : child source name = some m) (free : child source' name' = none)
    (apart : ¬ Beneath child m source') (placed : walk child root place = some source)
    (placed' : walk child root place' = some source') : walk child' root place' = some source' := by
  rw [walk_moved_apart tree edges placed placed' (place_apart edge placed placed' apart), placed']
  rintro ⟨r, split⟩
  rw [← split, List.append_assoc, walk_append_eq (k := source')] at placed'
  · obtain ⟨k, step, -⟩ := walk_cons.mp placed'
    rw [free] at step
    cases step
  · -- A proper extension of the path to a node cannot lead to the node.
    cases start : walk child root place' with
    | none => rw [walk_append_none start] at placed'; cases placed'
    | some k =>
      rw [walk_append_eq start] at placed'
      have whole : walk child root (place' ++ ([name'] ++ r)) = some source' := by
        rw [walk_append_eq start]; exact placed'
      have same : place' ++ ([name'] ++ r) = place' := by rw [← List.append_assoc]; exact split
      rw [same, start] at whole
      exact whole

/-- Below the new place is what was below the old one. -/
theorem walk_moved_new (tree : RootedTree child root live) (edges : Moved child child' source name source' name' m)
    (edge : child source name = some m) (free : child source' name' = none)
    (apart : ¬ Beneath child m source') (placed : walk child root place = some source)
    (placed' : walk child root place' = some source') (r : List ν) :
    walk child' root (place' ++ [name'] ++ r) = walk child root (place ++ [name] ++ r) := by
  have here := walk_moved_place tree edges edge free apart placed placed'
  rw [walk_append_eq (walk_snoc.mpr ⟨source', here, edges.1⟩), walk_append_eq (walk_snoc.mpr ⟨source, placed, edge⟩),
    walk_moved_subtree tree edges edge apart]
/-- Nothing is left below the old place. -/
theorem walk_moved_old (tree : RootedTree child root live) (edges : Moved child child' source name source' name' m)
    (placed : walk child root place = some source)
    (placed' : walk child root place' = some source') (r : List ν) :
    ¬ place' ++ [name'] <+: place ++ [name] ++ r → walk child' root (place ++ [name] ++ r) = none := by
  intro outside
  have here : walk child' root place = some source := by
    rw [walk_moved_apart tree edges placed placed', placed]
    · rintro ⟨r, split⟩
      have longer := congrArg List.length split
      simp at longer
    · rintro ⟨s, split⟩
      exact outside ⟨s ++ [name] ++ r, by rw [← split]; simp⟩
  apply walk_append_none
  rw [Option.eq_none_iff_forall_not_mem]
  intro k walked
  obtain ⟨l, start, step⟩ := walk_snoc.mp walked
  rw [here] at start
  cases start
  rw [edges.2.1] at step
  cases step

theorem tree_moved (tree : RootedTree child root live) (edges : Moved child child' source name source' name' m)
    (edge : child source name = some m) (free : child source' name' = none) (start' : live source')
    (apart : ¬ Beneath child m source') : RootedTree child' root live := by
  obtain ⟨place, placed⟩ := tree.reached (tree.closed edge).1
  obtain ⟨place', placed'⟩ := tree.reached start'
  refine ⟨tree.root_live, ?_, ?_, ?_, ?_⟩
  · intro n a k step
    rcases moved_cases edges step with ⟨rfl, rfl, rfl⟩ | ⟨old, -⟩
    · exact ⟨start', (tree.closed edge).2⟩
    · exact tree.closed old
  · intro n a step
    rcases moved_cases edges step with ⟨-, -, same⟩ | ⟨old, -⟩
    · exact tree.top source name (same ▸ edge)
    · exact tree.top n a old
  · intro n n' a a' k step step'
    rcases moved_cases edges step with ⟨rfl, rfl, rfl⟩ | ⟨old, other⟩ <;>
      rcases moved_cases edges step' with ⟨rfl, rfl, same⟩ | ⟨old', other'⟩
    · exact ⟨rfl, rfl⟩
    · exact absurd (tree.once old' edge) other'
    · exact absurd (tree.once (same ▸ old) edge) other
    · exact tree.once old old'
  · intro n old
    obtain ⟨path, walked⟩ := tree.reached old
    by_cases within : place ++ [name] <+: path
    · obtain ⟨r, rfl⟩ := within
      exact ⟨place' ++ [name'] ++ r, by rw [walk_moved_new tree edges edge free apart placed placed', walked]⟩
    · refine ⟨path, ?_⟩
      rw [walk_moved_apart tree edges placed placed' within, walked]
      rintro ⟨r, rfl⟩
      rw [List.append_assoc, walk_append_eq placed'] at walked
      obtain ⟨k, step, -⟩ := walk_cons.mp walked
      rw [free] at step
      cases step

/-- A node moved beneath itself is lost: no path leads to it any more. -/
theorem lost_beneath (tree : RootedTree child root live) (edges : Moved child child' source name source' name' m)
    (edge : child source name = some m) (below : Beneath child m source') (q : List ν) :
    walk child' root q ≠ some m := by
  -- The nodes that are not beneath `m` are closed under the new edges.
  have outside : ∀ q k, walk child' root q = some k → ¬ Beneath child m k := by
    intro q
    induction q using List.reverseRecOn with
    | nil =>
      intro k walked
      cases walked
      rintro ⟨path, back⟩
      cases path using List.reverseRecOn with
      | nil => cases back; exact tree.top source name edge
      | append_singleton path a =>
        obtain ⟨l, -, step⟩ := walk_snoc.mp back
        exact tree.top l a step
    | append_singleton q a ih =>
      intro k walked under
      obtain ⟨l, before, step⟩ := walk_snoc.mp walked
      rcases moved_cases edges step with ⟨rfl, rfl, rfl⟩ | ⟨old, other⟩
      · exact ih _ before below
      · by_cases same : k = m
        · exact other (tree.once (same ▸ old) edge)
        · exact ih l before (under.parent tree old same)
  exact fun walked => outside q m walked (.refl m)
end
end

end Justext4.NamedTree
