import Mathlib.Data.List.TakeWhile
import Justext4.DirRoundTrip
import Justext4.Paths

/-!
Splitting a path and resolving it. A resolution depends on the components of
the path alone, so that the two halves of a split path resolve to what the
whole does, with the errors of the steps between, however many slashes there
are and wherever they stand.
-/
namespace Justext4.PathSplitting
open Justext4 Justext4.Fallible Justext4.Filesystem Justext4.Paths

theorem res_bind_return {ε α : Type} (x : Res ε α) : (x >>= fun a => .ok a) = x := by
  cases x <;> rfl

section
variable {fs : Filesystem}

/-! ### Resolving along components -/

/-- Empty components are stepped over. -/
theorem open_from_filter (current : UInt32) (names : List (List UInt8)) :
    open_from fs current names = open_from fs current (names.filter (!·.isEmpty)) := by
  induction names generalizing current with
  | nil => rfl
  | cons name names ih =>
    rw [open_from]
    by_cases empty : name.isEmpty = true
    · rw [if_pos empty, List.filter_cons_of_neg (by simp [empty]), ih]
    · rw [if_neg empty, List.filter_cons_of_pos (by simpa using empty), open_from, if_neg empty]
      simp only [ih]
/-- A resolution goes on from where the first components end. -/
theorem open_from_append (current : UInt32) (first second : List (List UInt8)) :
    open_from fs current (first ++ second) = (do
      let middle ← open_from fs current first
      open_from fs middle second) := by
  induction first generalizing current with
  | nil => rfl
  | cons name names ih =>
    rw [List.cons_append, open_from, open_from]
    split
    · exact ih current
    · simp only [ih, bind_assoc]
theorem open_path_components (path : List UInt8) : open_path fs path = open_from fs ROOT_INODE (components path) :=
  open_from_filter _ _

/-- The last component is looked up in the directory that the others lead to. -/
theorem open_path_snoc {path parent name : List UInt8} (full : name ≠ [])
    (split : components path = components parent ++ [name]) : open_path fs path = (do
      let (_, inode) ← open_directory fs parent
      lookup fs inode name) := by
  have nonempty : ¬ name.isEmpty = true := by simpa using full
  rw [open_path_components, split, open_from_append, ← open_path_components, open_directory]
  simp only [open_from, if_neg nonempty, bind_assoc, res_bind_ok, res_bind_return]

/-! ### Where splitting fails -/

theorem split_last_none {path : List UInt8} (nowhere : split_last path = none) : SLASH ∉ path := by
  rw [split_last] at nowhere
  split at nowhere
  · rename_i empty
    intro member
    have all := List.dropWhile_eq_nil_iff.mp empty SLASH (List.mem_reverse.mpr member)
    simp at all
  · cases nowhere
/-- A trimmed path does not end with a slash. -/
theorem trim_end_last {path before : List UInt8} (same : trim_end path = before ++ [SLASH]) : False := by
  have head := List.head?_dropWhile_not (p := (· == SLASH)) (l := path.reverse)
  have turned := congrArg List.reverse same
  rw [trim_end, List.reverse_reverse, List.reverse_append, List.reverse_singleton] at turned
  rw [turned] at head
  simp at head

/-- Splitting fails on the paths that are not absolute or have no component. -/
theorem split_path_fails (path : List UInt8) :
    (∃ e, split_path path = .error (.err e)) ↔ path.head? ≠ some SLASH ∨ components path = [] := by
  constructor
  · intro ⟨e, refused⟩
    refine Decidable.or_iff_not_imp_left.mpr fun absolute => ?_
    have absolute := Decidable.not_not.mp absolute
    obtain ⟨slashes, whole, all⟩ := trim_end_split path
    suffices trimmed : trim_end path = [] by
      have nothing := components_trailing [] all
      rwa [List.nil_append, components_nil, ← List.nil_append slashes, ← trimmed, ← whole] at nothing
    cases letters : trim_end path with
    | nil => rfl
    | cons c rest =>
      have slash : c = SLASH := by
        rw [whole, letters] at absolute
        simpa using absolute
      have first : (path.head? == some SLASH) = true := by rw [absolute]; rfl
      rw [split_path, first, ensure_true, res_bind_ok] at refused
      cases last : split_last (trim_end path) with
      | none => exact absurd (by rw [letters, slash]; exact List.mem_cons_self ..) (split_last_none last)
      | some pair =>
        obtain ⟨parent, name⟩ := pair
        rw [last, okOr_some, res_bind_ok] at refused
        dsimp only at refused
        cases name with
        | nil => exact (trim_end_last (split_last_some last).1).elim
        | cons d name => cases refused
  · intro fails
    rcases split_path_ends path with ⟨parent, name, executed⟩ | refused
    · have nonempty := (split_path_ok executed).2
      rw [split_path] at executed
      obtain ⟨_, absolute, -⟩ := res_bind_eq_ok.mp executed
      have absolute : path.head? = some SLASH := by simpa using ensure_eq_ok.mp absolute
      rcases fails with relative | empty
      · exact absurd absolute relative
      · rw [empty] at nonempty
        simp at nonempty
    · exact refused

/-- Splitting a path and resolving it agree. -/
theorem splitting_agrees (fs : Filesystem) (path : List UInt8) :
    (∀ parent name, split_path path = .ok (parent, name) →
      open_path fs path = (do
        let (_, inode) ← open_directory fs parent
        lookup fs inode name) ∧
      SLASH ∉ name ∧ ∃ parent', split_path (join_path parent name) = .ok (parent', name) ∧
        open_path fs parent' = open_path fs parent) ∧
    (∀ other, components other = components path → open_path fs other = open_path fs path) ∧
    ((∃ e, split_path path = .error (.err e)) ↔ path.head? ≠ some SLASH ∨ components path = []) := by
  refine ⟨fun parent name executed => ?_, fun other same => ?_, split_path_fails path⟩
  · obtain ⟨component, split⟩ := split_path_ok executed
    exact ⟨open_path_snoc component.1 split, component.2, parent, split_path_join executed, rfl⟩
  · rw [open_path_components, open_path_components, same]
end

/-- The path `//b/` names the file `b` of the root. -/
theorem wide_split :
    split_path [SLASH, SLASH, 98, SLASH] = .ok ([SLASH], [98]) ∧
      open_path DirRoundTrip.wideState [SLASH, SLASH, 98, SLASH] = (do
        let (_, inode) ← open_directory DirRoundTrip.wideState [SLASH]
        lookup DirRoundTrip.wideState inode [98]) :=
  ⟨by decide, ((splitting_agrees DirRoundTrip.wideState [SLASH, SLASH, 98, SLASH]).1 [SLASH] [98] (by decide)).1⟩

end Justext4.PathSplitting
