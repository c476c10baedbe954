import Justext4.Filesystem

/-!
Paths. A path is split at its slashes, and the empty components say nothing, so
two spellings with the same components are the same path. Splitting off the
last component leaves the components before it, and joining the two halves
again gives a path that splits the same way.
-/
namespace Justext4.Paths
open Justext4 Justext4.Fallible Justext4.Filesystem

/-- The components that a walk along the path looks up. -/
def components (path : List UInt8) : List (List UInt8) := (split path).filter (!·.isEmpty)
/-- A name that can stand between two slashes. -/
def Component (name : List UInt8) : Prop := name ≠ [] ∧ SLASH ∉ name
/-- The path of a list of names. -/
def path_of (names : List (List UInt8)) : List UInt8 := names.flatMap (SLASH :: ·)

theorem split_ne_nil (path : List UInt8) : split path ≠ [] := by
  cases path with
  | nil => simp [split]
  | cons c path =>
    rw [split]
    split
    · simp
    · split <;> simp
theorem split_slash (p q : List UInt8) : split (p ++ SLASH :: q) = split p ++ split q := by
  induction p with
  | nil => simp [split]
  | cons c p ih =>
    rw [List.cons_append, split, split, ih]
    by_cases slash : c = SLASH
    · simp [slash]
    · simp only [beq_iff_eq, slash, ↓reduceIte]
      cases words : split p with
      | nil => exact absurd words (split_ne_nil p)
      | cons word words => rfl
theorem split_plain {q : List UInt8} (plain : SLASH ∉ q) : split q = [q] := by
  induction q with
  | nil => rfl
  | cons c q ih =>
    rw [List.mem_cons, not_or] at plain
    have other : ¬ c = SLASH := fun same => plain.1 same.symm
    rw [split, ih plain.2]
    simp [other]

theorem components_slash (p q : List UInt8) : components (p ++ SLASH :: q) = components p ++ components q := by
  rw [components, split_slash, List.filter_append, components, components]
theorem components_nil : components [] = [] := rfl
theorem components_name {name : List UInt8} (component : Component name) : components name = [name] := by
  have full : name.isEmpty = false := by simpa using component.1
  simp [components, split_plain component.2, full]
theorem components_trailing (p : List UInt8) {q : List UInt8} (all : ∀ c ∈ q, c = SLASH) :
    components (p ++ q) = components p := by
  induction q generalizing p with
  | nil => rw [List.append_nil]
  | cons c q ih =>
    have slash := all c (List.mem_cons_self ..)
    subst slash
    have rest : components q = [] := by
      have shorter := ih [] fun d member => all d (List.mem_cons_of_mem _ member)
      rwa [List.nil_append, components_nil] at shorter
    rw [components_slash, rest, List.append_nil]
theorem components_path_of {names : List (List UInt8)} (each : ∀ name ∈ names, Component name) :
    components (path_of names) = names := by
  induction names with
  | nil => rfl
  | cons name names ih =>
    have later := ih fun n member => each n (List.mem_cons_of_mem _ member)
    have first := components_name (each name (List.mem_cons_self ..))
    have split : path_of (name :: names) = [] ++ SLASH :: (name ++ path_of names) := by simp [path_of]
    rw [split, components_slash, components_nil, List.nil_append]
    cases names with
    | nil =>
      show components (name ++ []) = _
      rw [List.append_nil, first]
    | cons next names =>
      have shape : name ++ path_of (next :: names) = name ++ SLASH :: (next ++ path_of names) := by simp [path_of]
      have shape' : path_of (next :: names) = [] ++ SLASH :: (next ++ path_of names) := by simp [path_of]
      rw [shape, components_slash, first]
      rw [shape', components_slash, components_nil, List.nil_append] at later
      rw [later]
      rfl

/-! ### Splitting off the last component -/

/-- The path is its trimmed text and the slashes after it. -/
theorem trim_end_split (path : List UInt8) :
    ∃ slashes, path = trim_end path ++ slashes ∧ ∀ c ∈ slashes, c = SLASH := by
  refine ⟨(path.reverse.takeWhile (· == SLASH)).reverse, ?_, ?_⟩
  · rw [trim_end, ← List.reverse_append, List.takeWhile_append_dropWhile, List.reverse_reverse]
  · intro c member
    have all := List.all_takeWhile (p := (· == SLASH)) (l := path.reverse)
    rw [List.all_eq_true] at all
    simpa using all c (List.mem_reverse.mp member)
theorem split_last_some {path parent name : List UInt8} (found : split_last path = some (parent, name)) :
    path = parent ++ SLASH :: name ∧ SLASH ∉ name := by
  rw [split_last] at found
  have whole := List.takeWhile_append_dropWhile (p := (· != SLASH)) (l := path.reverse)
  have head := List.head?_dropWhile_not (p := (· != SLASH)) (l := path.reverse)
  split at found
  · cases found
  · rename_i c before rest
    cases found
    rw [rest] at whole head
    have slash : c = SLASH := by simpa using head
    constructor
    · have turned := congrArg List.reverse whole
      rw [List.reverse_reverse, List.reverse_append, slash] at turned
      simpa using turned.symm
    · intro member
      have all := List.all_takeWhile (p := (· != SLASH)) (l := path.reverse)
      rw [List.all_eq_true] at all
      simpa using all SLASH (List.mem_reverse.mp member)
theorem split_last_join {name : List UInt8} (plain : SLASH ∉ name) (parent : List UInt8) :
    split_last (parent ++ SLASH :: name) = some (parent, name) := by
  have all : ∀ c ∈ name.reverse, (c != SLASH) = true := by
    intro c member
    have other : c ≠ SLASH := fun same => plain (same ▸ List.mem_reverse.mp member)
    simpa using other
  have shape : (parent ++ SLASH :: name).reverse = name.reverse ++ SLASH :: parent.reverse := by simp
  rw [split_last, shape, List.dropWhile_append_of_pos all, List.takeWhile_append_of_pos all]
  simp
theorem trim_end_name {name : List UInt8} (component : Component name) (parent : List UInt8) :
    trim_end (parent ++ SLASH :: name) = parent ++ SLASH :: name := by
  obtain ⟨full, plain⟩ := component
  have shape : (parent ++ SLASH :: name).reverse = name.reverse ++ (SLASH :: parent.reverse) := by simp
  have start : name.reverse ≠ [] := by simpa using full
  rw [trim_end, shape]
  cases letters : name.reverse with
  | nil => exact absurd letters start
  | cons c letters' =>
    have other : c ≠ SLASH := by
      rintro rfl
      exact plain (List.mem_reverse.mp (letters ▸ List.mem_cons_self ..))
    rw [List.cons_append, List.dropWhile_cons_of_neg (by simpa using other), ← List.cons_append, ← letters, ← shape,
      List.reverse_reverse]

/-- A path splits into the components before its last one and the last one. -/
theorem split_path_ok {path parent name : List UInt8} (executed : split_path path = .ok (parent, name)) :
    Component name ∧ components path = components parent ++ [name] := by
  rw [split_path, res_bind_eq_ok] at executed
  obtain ⟨_, -, rest⟩ := executed
  rw [res_bind_eq_ok] at rest
  obtain ⟨⟨parent', name'⟩, found, rest⟩ := rest
  rw [res_bind_eq_ok] at rest
  obtain ⟨_, full, same⟩ := rest
  have some : split_last (trim_end path) = some (parent', name') := by
    cases last : split_last (trim_end path) with
    | none => rw [last] at found; cases found
    | some pair => rw [last] at found; cases found; rfl
  obtain ⟨text, plain⟩ := split_last_some some
  have nonempty : name' ≠ [] := by simpa using ensure_eq_ok.mp full
  cases same
  refine ⟨⟨nonempty, plain⟩, ?_⟩
  obtain ⟨slashes, whole, all⟩ := trim_end_split path
  rw [whole, components_trailing _ all, text, components_slash, components_name ⟨nonempty, plain⟩]
  split
  · rename_i empty
    rw [List.isEmpty_iff.mp empty]
    rfl
  · rfl

/-- The path that a rename builds for the destination splits as the given one. -/
theorem split_path_join {path parent name : List UInt8} (executed : split_path path = .ok (parent, name)) :
    split_path (join_path parent name) = .ok (parent, name) := by
  have component := (split_path_ok executed).1
  have facts := executed
  rw [split_path, res_bind_eq_ok] at facts
  obtain ⟨_, absolute, rest⟩ := facts
  rw [res_bind_eq_ok] at rest
  obtain ⟨⟨parent', name'⟩, found, rest⟩ := rest
  rw [res_bind_eq_ok] at rest
  obtain ⟨_, -, same⟩ := rest
  have some : split_last (trim_end path) = some (parent', name') := by
    cases last : split_last (trim_end path) with
    | none => rw [last] at found; cases found
    | some pair => rw [last] at found; cases found; rfl
  obtain ⟨text, plain⟩ := split_last_some some
  have first : path.head? = .some SLASH := by simpa using ensure_eq_ok.mp absolute
  have full : (!name.isEmpty) = true := by simpa using component.1
  simp only [Except.ok.injEq, Prod.mk.injEq] at same
  obtain ⟨same, rfl⟩ := same
  -- The text before the last slash, empty when the parent is the root.
  have joined : ∃ before, join_path parent name' = before ++ SLASH :: name' ∧
      (join_path parent name').head? = .some SLASH ∧ (if before.isEmpty then [SLASH] else before) = parent := by
    by_cases root : parent = [SLASH]
    · exact ⟨[], by rw [join_path, if_pos root]; rfl, by rw [join_path, if_pos root]; rfl, root.symm⟩
    · have before : parent'.isEmpty = false := by
        cases empty : parent'.isEmpty with
        | false => rfl
        | true => rw [empty, if_pos rfl] at same; exact absurd same.symm root
      rw [before, if_neg (by simp)] at same
      subst same
      refine ⟨parent', by rw [join_path, if_neg root], ?_, by rw [before]; rfl⟩
      rw [join_path, if_neg root]
      obtain ⟨slashes, whole, -⟩ := trim_end_split path
      cases parent' with
      | nil => cases before
      | cons c parent' =>
        rw [whole, text] at first
        exact first
  obtain ⟨before, shape, head, back⟩ := joined
  have absolute' : ((join_path parent name').head? == .some SLASH) = true := by rw [head]; rfl
  rw [split_path, absolute', ensure_true, res_bind_ok, shape, trim_end_name component, split_last_join plain, okOr_some,
    res_bind_ok]
  dsimp only
  rw [full, ensure_true, res_bind_ok, back]

/-- Splitting a path ends with the halves or with an error. -/
theorem split_path_ends (path : List UInt8) :
    (∃ parent name, split_path path = .ok (parent, name)) ∨ ∃ e, split_path path = .error (.err e) := by
  rw [split_path]
  cases path.head? == some SLASH with
  | false => exact .inr ⟨_, rfl⟩
  | true =>
    rw [ensure_true, res_bind_ok]
    cases split_last (trim_end path) with
    | none => exact .inr ⟨_, rfl⟩
    | some pair =>
      obtain ⟨parent, name⟩ := pair
      rw [okOr_some, res_bind_ok]
      dsimp only
      cases !name.isEmpty with
      | false => exact .inr ⟨_, rfl⟩
      | true => exact .inl ⟨_, _, rfl⟩

end Justext4.Paths
