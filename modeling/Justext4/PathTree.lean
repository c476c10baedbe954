import Justext4.NamedTree

/-!
Trees as maps from paths. A tree gives what is at a path of names, or nothing.
A path with dots is resolved name by name; what a rooted tree of nodes shows at
its paths is such a map, and a new leaf, a lost leaf and a moved subtree change
the map at the paths concerned and nowhere else.
-/
namespace Justext4.PathTree
open Justext4.NamedTree
variable {ι ν α : Type}

/-- What is at a path of names. -/
abbrev Tree (ν α : Type) := List ν → Option α

section
variable [DecidableEq ν]

def add (t : Tree ν α) (place : List ν) (x : α) : Tree ν α := fun q => if q = place then some x else t q
def remove (t : Tree ν α) (place : List ν) : Tree ν α := fun q => if q = place then none else t q
/-- What was at and below `old` is at and below `new`, in place of what was there. -/
def move (t : Tree ν α) (old new : List ν) : Tree ν α := fun q =>
  if new <+: q then t (old ++ q.drop new.length) else if old <+: q then none else t q

/-- What is removed from the new place beforehand makes no difference. -/
theorem move_remove {t : Tree ν α} {old new : List ν} (apart : ¬ old <+: new) :
    move (remove t new) old new = move t old new := by
  funext q
  rw [move, move]
  by_cases inside : new <+: q
  · rw [if_pos inside, if_pos inside, remove, if_neg]
    exact fun same => apart ⟨_, same⟩
  · have other : q ≠ new := by
      rintro rfl
      exact inside ⟨[], List.append_nil q⟩
    rw [if_neg inside, if_neg inside, remove, if_neg other]

/-- The path that names with dots lead to from a path: every name but the last
    has to be that of a node that can be entered. -/
def resolve (t : Tree ν α) (enter : α → Bool) (dot dotdot : ν) : List ν → List ν → Option (List ν)
  | place, [] => some place
  | place, name :: names =>
    if (t place).any enter then
      let next := if name = dot then place else if name = dotdot then place.dropLast else place ++ [name]
      if (t next).isSome then resolve t enter dot dotdot next names else none
    else none

section
variable {t t' : Tree ν α} {enter : α → Bool} {dot dotdot name : ν} {names start place r : List ν}

theorem resolve_cons : resolve t enter dot dotdot start (name :: names) = some r ↔ (t start).any enter = true ∧
    ∃ next, (if name = dot then start else if name = dotdot then start.dropLast else start ++ [name]) = next ∧
      (t next).isSome = true ∧ resolve t enter dot dotdot next names = some r := by
  rw [resolve]
  simp only [Option.ite_none_right_eq_some, exists_eq_left']
/-- A path leads in a larger tree where it led. -/
theorem resolve_mono (larger : ∀ q x, t q = some x → t' q = some x)
    (resolved : resolve t enter dot dotdot start names = some r) : resolve t' enter dot dotdot start names = some r := by
  induction names generalizing start with
  | nil => exact resolved
  | cons name names ih =>
    obtain ⟨open_, next, same, there, resolved⟩ := resolve_cons.mp resolved
    obtain ⟨x, here, enters⟩ := (Option.any_eq_true ..).mp open_
    obtain ⟨y, visible⟩ := Option.isSome_iff_exists.mp there
    refine resolve_cons.mpr ⟨?_, next, same, ?_, ih resolved⟩
    · rw [larger _ _ here]
      exact enters
    · rw [larger _ _ visible]
      rfl
/-- One more name leads on from where the others have led. -/
theorem resolve_snoc (resolved : resolve t enter dot dotdot start names = some place) (open_ : (t place).any enter = true)
    (plain : name ≠ dot) (plain' : name ≠ dotdot) (there : (t (place ++ [name])).isSome = true) :
    resolve t enter dot dotdot start (names ++ [name]) = some (place ++ [name]) := by
  induction names generalizing start with
  | nil =>
    cases resolved
    exact resolve_cons.mpr ⟨open_, _, by rw [if_neg plain, if_neg plain'], there, rfl⟩
  | cons first names ih =>
    obtain ⟨opens, next, same, visible, resolved⟩ := resolve_cons.mp resolved
    exact resolve_cons.mpr ⟨opens, next, same, visible, ih resolved⟩
end
end

/-- What the nodes show at their paths. -/
def view (child : ι → ν → Option ι) (root : ι) (value : ι → Option α) : Tree ν α := fun q =>
  (walk child root q).bind value

section
variable {child child' : ι → ν → Option ι} {root : ι} {live : ι → Prop} {value value' : ι → Option α}
  {source source' m : ι} {name name' : ν} {place place' : List ν}

theorem view_some {q : List ν} {x : α} :
    view child root value q = some x ↔ ∃ n, walk child root q = some n ∧ value n = some x := by
  rw [view, Option.bind_eq_some_iff]
theorem view_at {q : List ν} {n : ι} (walked : walk child root q = some n) : view child root value q = value n := by
  rw [view, walked, Option.bind_some]
/-- Nodes that show the same make the same tree. -/
theorem view_congr (tree : RootedTree child root live) (same : ∀ n, live n → value' n = value n) :
    view child root value' = view child root value := by
  funext q
  rw [view, view]
  cases walked : walk child root q with
  | none => rfl
  | some n => exact same n (walk_live tree tree.root_live walked)

variable [DecidableEq ν]

theorem view_added (tree : RootedTree child root live) (edges : Added child child' source name m)
    (free : child source name = none) (fresh : ¬ live m) (placed : walk child root place = some source)
    (same : ∀ n, live n → value' n = value n) {x : α} (new : value' m = some x) :
    view child' root value' = add (view child root value) (place ++ [name]) x := by
  rw [← view_congr tree same]
  funext q
  rw [view, walk_added tree edges free fresh placed, add]
  by_cases here : q = place ++ [name]
  · rw [if_pos here, if_pos here, Option.bind_some, new]
  · rw [if_neg here, if_neg here, view]
/-- A node that shows something else is another value at its path. -/
theorem view_set (tree : RootedTree child root live) (placed : walk child root place = some m)
    (same : ∀ n, live n → n ≠ m → value' n = value n) {x : α} (new : value' m = some x) :
    view child root value' = add (view child root value) place x := by
  funext q
  rw [view, add]
  by_cases here : q = place
  · rw [if_pos here, here, placed, Option.bind_some, new]
  · rw [if_neg here, view]
    cases walked : walk child root q with
    | none => rfl
    | some n =>
      refine same n (walk_live tree tree.root_live walked) fun at_m => here ?_
      rw [at_m] at walked
      exact path_unique tree walked placed
theorem view_dropped (tree : RootedTree child root live) (edges : Dropped child child' source name)
    (edge : child source name = some m) (leaf : ∀ a, child m a = none) (placed : walk child root place = some source)
    (same : ∀ n, live n → n ≠ m → value' n = value n) :
    view child' root value' = remove (view child root value) (place ++ [name]) := by
  funext q
  rw [view, walk_dropped tree edges edge leaf placed, remove]
  by_cases here : q = place ++ [name]
  · rw [if_pos here, if_pos here, Option.bind_none]
  · rw [if_neg here, if_neg here, view]
    cases walked : walk child root q with
    | none => rfl
    | some n =>
      refine same n (walk_live tree tree.root_live walked) fun at_m => here ?_
      rw [at_m] at walked
      exact path_unique tree walked (walk_snoc.mpr ⟨source, placed, edge⟩)
theorem view_moved (tree : RootedTree child root live) (edges : Moved child child' source name source' name' m)
    (edge : child source name = some m) (free : child source' name' = none) (apart : ¬ Beneath child m source')
    (placed : walk child root place = some source) (placed' : walk child root place' = some source')
    (same : ∀ n, live n → value' n = value n) :
    view child' root value' = move (view child root value) (place ++ [name]) (place' ++ [name']) := by
  rw [← view_congr tree same]
  funext q
  rw [view, move]
  by_cases new : place' ++ [name'] <+: q
  · obtain ⟨r, rfl⟩ := new
    rw [if_pos ⟨r, rfl⟩, walk_moved_new tree edges edge free apart placed placed', List.drop_left, view]
  rw [if_neg new]
  by_cases old : place ++ [name] <+: q
  · obtain ⟨r, rfl⟩ := old
    rw [if_pos ⟨r, rfl⟩, walk_moved_old tree edges placed placed' r new, Option.bind_none]
  · rw [if_neg old, walk_moved_apart tree edges placed placed' old new, view]

/-- A step over one name of a path with dots: none from a node that cannot be
    entered, to itself or to its parent under the dots, along an edge otherwise. -/
structure Dotted (child : ι → ν → Option ι) (root : ι) (live : ι → Prop) (value : ι → Option α) (enter : α → Bool)
    (dot dotdot : ν) (step : ι → ν → Option ι) : Prop where
  shut : ∀ n, live n → (value n).any enter = false → ∀ name, step n name = none
  here : ∀ n, live n → (value n).any enter = true → step n dot = some n
  top : step root dotdot = some root
  up : ∀ n a m, child n a = some m → (value m).any enter = true → step m dotdot = some n
  along : ∀ n, live n → ∀ name, name ≠ dot → name ≠ dotdot → step n name = child n name
  shown : ∀ n, live n → value n ≠ none

/-- A name leads from a node that can be entered to the node at the place that
    the name gives. -/
theorem step_walk (tree : RootedTree child root live) {enter : α → Bool} {dot dotdot : ν} {step : ι → ν → Option ι}
    (dotted : Dotted child root live value enter dot dotdot step) {n : ι} (placed : walk child root place = some n)
    (open_ : (value n).any enter = true) (name : ν) : step n name =
      walk child root (if name = dot then place else if name = dotdot then place.dropLast else place ++ [name]) := by
  have alive := walk_live tree tree.root_live placed
  by_cases first : name = dot
  · rw [if_pos first, first, dotted.here n alive open_, placed]
  rw [if_neg first]
  by_cases second : name = dotdot
  · rw [if_pos second, second]
    cases place using List.reverseRecOn with
    | nil =>
      cases placed
      rw [dotted.top]
      rfl
    | append_singleton before a =>
      obtain ⟨l, walked, edge⟩ := walk_snoc.mp placed
      rw [dotted.up l a n edge open_, List.dropLast_concat, walked]
  · rw [if_neg second, dotted.along n alive name first second, walk_append_eq placed, walk]
    cases child n name <;> rfl

/-- A path with dots leads to the node at the path that it is resolved to. -/
theorem resolve_walk (tree : RootedTree child root live) {enter : α → Bool} {dot dotdot : ν}
    {step : ι → ν → Option ι} (dotted : Dotted child root live value enter dot dotdot step) (names : List ν) {n : ι}
    (placed : walk child root place = some n) (m : ι) :
    walk step n names = some m ↔
      ∃ r, resolve (view child root value) enter dot dotdot place names = some r ∧ walk child root r = some m := by
  induction names generalizing place n with
  | nil =>
    rw [walk, resolve]
    constructor
    · rintro same
      cases same
      exact ⟨place, rfl, placed⟩
    · rintro ⟨r, same, walked⟩
      cases same
      rw [← placed, walked]
  | cons name names ih =>
    have alive := walk_live tree tree.root_live placed
    have visible : ∀ {q k}, walk child root q = some k → (view child root value q).isSome = true := by
      intro q k walked
      rw [view_at walked]
      exact Option.isSome_iff_ne_none.mpr (dotted.shown k (walk_live tree tree.root_live walked))
    rw [resolve, view_at placed, walk_cons]
    cases open_ : (value n).any enter with
    | false => simp [dotted.shut n alive open_ name]
    | true =>
      -- The next node is at the next path, or neither is there.
      have next : ∀ q, (∀ k, step n name = some k ↔ walk child root q = some k) →
          ((∃ k, step n name = some k ∧ walk step k names = some m) ↔
            ∃ r, (if (view child root value q).isSome then resolve (view child root value) enter dot dotdot q names
              else none) = some r ∧ walk child root r = some m) := by
        intro q same
        cases walked : walk child root q with
        | none =>
          rw [view, walked, Option.bind_none]
          simp [same, walked]
        | some k =>
          rw [if_pos (visible walked), ← ih walked]
          simp [same, walked]
      rw [if_pos rfl]
      by_cases first : name = dot
      · rw [if_pos first]
        refine next place fun k => ?_
        rw [first, dotted.here n alive open_, placed]
      rw [if_neg first]
      by_cases second : name = dotdot
      · rw [if_pos second]
        refine next place.dropLast fun k => ?_
        rw [second]
        cases place using List.reverseRecOn with
        | nil =>
          cases placed
          rw [dotted.top]
          rfl
        | append_singleton before a =>
          obtain ⟨l, walked, edge⟩ := walk_snoc.mp placed
          rw [dotted.up l a n edge open_, List.dropLast_concat, walked]
      · rw [if_neg second]
        refine next (place ++ [name]) fun k => ?_
        rw [dotted.along n alive name first second, walk_snoc, placed]
        simp
end

end Justext4.PathTree
