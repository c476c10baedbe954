import Mathlib.Data.Nat.Digits.Lemmas

/-!
Numerals. A number is written as its digits, the highest first; a text is read
as a number digit by digit, up to a limit, after an optional plus sign. What is
read are exactly the digits of a number below the limit, with any zeros in front.
-/
namespace Justext4.Numerals

/-- A text, as its bytes. -/
abbrev Text := List UInt8

inductive ParseIntError where
  | Empty
  | InvalidDigit
  | PosOverflow
  deriving DecidableEq

def ZERO : UInt8 := 48
def PLUS : UInt8 := 43
def MINUS : UInt8 := 45

/-- The byte of a digit below ten, and the other way round. -/
def digit (d : Nat) : UInt8 := .ofNat (48 + d)
def to_digit (radix : Nat) (c : UInt8) : Option Nat :=
  if 48 ≤ c.toNat ∧ c.toNat < 48 + radix then some (c.toNat - 48) else none

def numeral (radix n : Nat) : Text := if n = 0 then [ZERO] else ((Nat.digits radix n).map digit).reverse

/-- The loop through the digits. -/
def accumulate (radix limit : Nat) : Nat → Text → Except ParseIntError Nat
  | result, [] => .ok result
  | result, c :: digits =>
    match to_digit radix c with
    | none => .error .InvalidDigit
    | some d => if result * radix + d < limit then accumulate radix limit (result * radix + d) digits else .error .PosOverflow

def from_str_radix (radix limit : Nat) (src : Text) : Except ParseIntError Nat :=
  if src = [] then .error .Empty
  else if src = [PLUS] ∨ src = [MINUS] then .error .InvalidDigit
  else if src.head? = some PLUS then accumulate radix limit 0 src.tail
  else accumulate radix limit 0 src

/-- The number that digits stand for. -/
def value (radix : Nat) (digits : Text) : Nat := Nat.ofDigits radix (digits.reverse.map fun c => c.toNat - 48)

/-- The text consists of digits. -/
def Digits (radix : Nat) (text : Text) : Prop := ∀ c ∈ text, 48 ≤ c.toNat ∧ c.toNat < 48 + radix

section
variable {radix limit result n m : Nat} {digits text : Text} {c : UInt8}

theorem to_digit_some {d : Nat} : to_digit radix c = some d ↔ (48 ≤ c.toNat ∧ c.toNat < 48 + radix) ∧ c.toNat - 48 = d := by
  rw [to_digit]
  split <;> simp_all
theorem value_cons (c : UInt8) (digits : Text) :
    value radix (c :: digits) = (c.toNat - 48) * radix ^ digits.length + value radix digits := by
  rw [value, value, List.reverse_cons, List.map_append, Nat.ofDigits_append]
  simp
  ring
theorem digits_cons : Digits radix (c :: digits) ↔ (48 ≤ c.toNat ∧ c.toNat < 48 + radix) ∧ Digits radix digits := by
  simp [Digits]
theorem value_zeros (zeros : Nat) (digits : Text) : value radix (List.replicate zeros ZERO ++ digits) = value radix digits := by
  induction zeros with
  | zero => rfl
  | succ zeros ih =>
    rw [List.replicate_succ, List.cons_append, value_cons, ih]
    simp [ZERO]
theorem digits_zeros (positive : 0 < radix) (zeros : Nat) :
    Digits radix (List.replicate zeros ZERO ++ digits) ↔ Digits radix digits := by
  induction zeros with
  | zero => rfl
  | succ zeros ih =>
    have zero : ZERO.toNat = 48 := rfl
    rw [List.replicate_succ, List.cons_append, digits_cons, ih, zero]
    exact and_iff_right ⟨Nat.le_refl _, by omega⟩

/-- The loop gives the number that the digits stand for, when it is below the limit. -/
theorem accumulate_ok (positive : 0 < radix) (below : result < limit) :
    accumulate radix limit result digits = .ok m ↔
      Digits radix digits ∧ result * radix ^ digits.length + value radix digits = m ∧ m < limit := by
  induction digits generalizing result with
  | nil =>
    simp only [accumulate, Except.ok.injEq, List.length_nil, Nat.pow_zero, Nat.mul_one]
    constructor
    · rintro rfl
      exact ⟨List.forall_mem_nil _, rfl, below⟩
    · rintro ⟨-, same, -⟩
      exact same
  | cons c digits ih =>
    rw [accumulate, digits_cons, value_cons, List.length_cons]
    have spread : result * radix ^ (digits.length + 1) + ((c.toNat - 48) * radix ^ digits.length + value radix digits) =
        (result * radix + (c.toNat - 48)) * radix ^ digits.length + value radix digits := by ring
    rw [spread]
    cases read : to_digit radix c with
    | none =>
      have other : ¬ (48 ≤ c.toNat ∧ c.toNat < 48 + radix) := by
        intro inside
        rw [to_digit, if_pos inside] at read
        cases read
      simp only [reduceCtorEq, other, false_and]
    | some d =>
      obtain ⟨inside, rfl⟩ := to_digit_some.mp read
      by_cases small : result * radix + (c.toNat - 48) < limit
      · simp only [small, ↓reduceIte]
        rw [ih small, and_iff_right inside]
      · simp only [small, ↓reduceIte, reduceCtorEq, false_iff]
        rintro ⟨-, rfl, limited⟩
        have shifted := Nat.le_mul_of_pos_right (result * radix + (c.toNat - 48)) (Nat.pow_pos (n := digits.length) positive)
        omega

/-- What is read are digits, not none, after a plus sign or not. -/
theorem from_str_radix_ok (positive : 0 < radix) (some : 0 < limit) :
    from_str_radix radix limit text = .ok m ↔ ∃ digits, digits ≠ [] ∧ (text = digits ∨ text = PLUS :: digits) ∧
      Digits radix digits ∧ value radix digits = m ∧ m < limit := by
  have read : ∀ {digits}, accumulate radix limit 0 digits = .ok m ↔
      Digits radix digits ∧ value radix digits = m ∧ m < limit := by
    intro digits
    rw [accumulate_ok positive some, Nat.zero_mul, Nat.zero_add]
  have plus : ∀ {digits}, ¬ Digits radix (PLUS :: digits) := fun all => by
    have low := (digits_cons.mp all).1.1
    exact absurd low (by decide)
  rw [from_str_radix]
  by_cases none : text = []
  · simp only [none, ↓reduceIte, reduceCtorEq, false_iff]
    rintro ⟨digits, given, same | same, -⟩
    · exact given same.symm
    · cases same
  by_cases sign : text = [PLUS] ∨ text = [MINUS]
  · simp only [none, sign, ↓reduceIte, reduceCtorEq, false_iff]
    rintro ⟨digits, given, same | same, all, -⟩
    · rcases sign with sign | sign
      · exact plus (same.symm.trans sign ▸ all)
      · rw [← same, sign] at all
        exact absurd (all MINUS (List.mem_singleton.mpr rfl)).1 (by decide)
    · rcases sign with sign | sign
      · rw [sign] at same
        exact given (List.cons.inj same).2.symm
      · rw [sign] at same
        exact absurd (List.cons.inj same).1 (by decide)
  by_cases first : text.head? = Option.some PLUS
  · obtain ⟨digits, rfl⟩ := List.head?_eq_some_iff.mp first
    simp only [none, sign, first, ↓reduceIte, List.tail_cons]
    rw [read]
    constructor
    · intro facts
      exact ⟨digits, fun empty => sign (.inl (by rw [empty])), .inr rfl, facts⟩
    · rintro ⟨digits', -, same | same, facts⟩
      · exact absurd facts.1 (same ▸ plus)
      · exact (List.cons.inj same).2 ▸ facts
  · simp only [none, sign, first, ↓reduceIte]
    rw [read]
    constructor
    · intro facts
      exact ⟨text, none, .inl rfl, facts⟩
    · rintro ⟨digits, -, same | same, facts⟩
      · exact same ▸ facts
      · exact absurd (by rw [same]; rfl) first

end

example : from_str_radix 10 256 [48, 49, 50] = .ok 12 := by decide
example : from_str_radix 10 256 [50, 53, 54] = .error .PosOverflow := by decide

end Justext4.Numerals
