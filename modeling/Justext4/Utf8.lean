import Mathlib.Data.List.Basic

/-!
Text in bytes. Bytes that are UTF-8 are text as they are; of others the longest
beginnings of characters that are not completed, and the bytes that begin none,
are each replaced by one replacement character.
-/
namespace Justext4.Utf8

/-- The bytes as text, when they are UTF-8. -/
def to_str (name : List UInt8) : Option (List UInt8) := if (ByteArray.mk name.toArray).validateUTF8 then some name else none

/-- U+FFFD. -/
def REPLACEMENT_CHARACTER : List UInt8 := [0xEF, 0xBF, 0xBD]

/-- The number of bytes that the first byte of a character announces, none when
    no character begins with it. -/
def utf8_char_width (a : UInt8) : Nat :=
  if a < 0x80 then 1
  else if 0xC2 ≤ a ∧ a ≤ 0xDF then 2
  else if 0xE0 ≤ a ∧ a ≤ 0xEF then 3
  else if 0xF0 ≤ a ∧ a ≤ 0xF4 then 4
  else 0
def is_continuation (b : UInt8) : Bool := 0x80 ≤ b ∧ b ≤ 0xBF
/-- Whether a second byte may follow the first one of a longer character. -/
def second_fits (a b : UInt8) : Bool :=
  if utf8_char_width a = 0 then false
  else if a = 0xE0 then 0xA0 ≤ b ∧ b ≤ 0xBF
  else if a = 0xED then 0x80 ≤ b ∧ b ≤ 0x9F
  else if a = 0xF0 then 0x90 ≤ b ∧ b ≤ 0xBF
  else if a = 0xF4 then 0x80 ≤ b ∧ b ≤ 0x8F
  else is_continuation b

/-- The loop through the bytes. What has been read of a character that is not
    completed is replaced, and the byte that does not fit is read anew. -/
def from_utf8_lossy : List UInt8 → List UInt8
  | [] => []
  | a :: after_a =>
    if utf8_char_width a = 1 then a :: from_utf8_lossy after_a
    else match after_a with
    | [] => REPLACEMENT_CHARACTER
    | b :: after_b =>
      if !second_fits a b then REPLACEMENT_CHARACTER ++ from_utf8_lossy (b :: after_b)
      else if utf8_char_width a = 2 then a :: b :: from_utf8_lossy after_b
      else match after_b with
      | [] => REPLACEMENT_CHARACTER
      | c :: after_c =>
        if !is_continuation c then REPLACEMENT_CHARACTER ++ from_utf8_lossy (c :: after_c)
        else if utf8_char_width a = 3 then a :: b :: c :: from_utf8_lossy after_c
        else match after_c with
        | [] => REPLACEMENT_CHARACTER
        | d :: after_d =>
          if !is_continuation d then REPLACEMENT_CHARACTER ++ from_utf8_lossy (d :: after_d)
          else a :: b :: c :: d :: from_utf8_lossy after_d
  termination_by structural bytes => bytes

theorem to_str_some {name text : List UInt8} (found : to_str name = some text) : text = name := by
  rw [to_str] at found
  split at found
  · exact (Option.some.inj found).symm
  · cases found

/-! ### Text is kept -/

section
variable {a b c d : UInt8} {rest : List UInt8}

theorem lossy_one (one : utf8_char_width a = 1) : from_utf8_lossy (a :: rest) = a :: from_utf8_lossy rest := by
  rw [from_utf8_lossy.eq_def]
  simp [one]
theorem lossy_two (two : utf8_char_width a = 2) (second : second_fits a b = true) :
    from_utf8_lossy (a :: b :: rest) = a :: b :: from_utf8_lossy rest := by
  rw [from_utf8_lossy.eq_def]
  simp [two, second]
theorem lossy_three (three : utf8_char_width a = 3) (second : second_fits a b = true) (third : is_continuation c = true) :
    from_utf8_lossy (a :: b :: c :: rest) = a :: b :: c :: from_utf8_lossy rest := by
  rw [from_utf8_lossy.eq_def]
  simp [three, second, third]
theorem lossy_four (four : utf8_char_width a = 4) (second : second_fits a b = true) (third : is_continuation c = true)
    (fourth : is_continuation d = true) :
    from_utf8_lossy (a :: b :: c :: d :: rest) = a :: b :: c :: d :: from_utf8_lossy rest := by
  rw [from_utf8_lossy.eq_def]
  simp [four, second, third, fourth]

theorem width_eq (a : UInt8) : utf8_char_width a =
    if a.toNat < 128 then 1 else if 194 ≤ a.toNat ∧ a.toNat ≤ 223 then 2 else if 224 ≤ a.toNat ∧ a.toNat ≤ 239 then 3
    else if 240 ≤ a.toNat ∧ a.toNat ≤ 244 then 4 else 0 := rfl
theorem continuation_eq (b : UInt8) : is_continuation b = decide (128 ≤ b.toNat ∧ b.toNat ≤ 191) := rfl
theorem second_eq (a b : UInt8) : second_fits a b =
    if utf8_char_width a = 0 then false
    else if a.toNat = 224 then decide (160 ≤ b.toNat ∧ b.toNat ≤ 191)
    else if a.toNat = 237 then decide (128 ≤ b.toNat ∧ b.toNat ≤ 159)
    else if a.toNat = 240 then decide (144 ≤ b.toNat ∧ b.toNat ≤ 191)
    else if a.toNat = 244 then decide (128 ≤ b.toNat ∧ b.toNat ≤ 143)
    else decide (128 ≤ b.toNat ∧ b.toNat ≤ 191) := by
  simp only [second_fits, ← UInt8.toNat_inj]
  rfl

theorem continuation_of (v : Nat) : is_continuation (.ofNat (v % 64 + 128)) = true := by
  rw [continuation_eq, decide_eq_true_eq, UInt8.toNat_ofNat']
  omega

/-- A character is kept. -/
theorem lossy_char (char : Char) (rest : List UInt8) :
    from_utf8_lossy (String.utf8EncodeChar char ++ rest) = String.utf8EncodeChar char ++ from_utf8_lossy rest := by
  have valid : char.val.toNat < 55296 ∨ 57343 < char.val.toNat ∧ char.val.toNat < 1114112 := char.valid
  rw [String.utf8EncodeChar]
  generalize char.val.toNat = v at valid
  split
  · refine lossy_one ?_
    rw [width_eq, UInt8.toNat_ofNat', if_pos (by omega)]
  split
  · have two : utf8_char_width (.ofNat (v / 64 % 32 + 192)) = 2 := by
      rw [width_eq, UInt8.toNat_ofNat', if_neg (by omega), if_pos (by omega)]
    refine lossy_two two ?_
    rw [second_eq, two, UInt8.toNat_ofNat', UInt8.toNat_ofNat', if_neg (by omega), if_neg (by omega), if_neg (by omega),
      if_neg (by omega), if_neg (by omega), decide_eq_true_eq]
    omega
  split
  · have three : utf8_char_width (.ofNat (v / 4096 % 16 + 224)) = 3 := by
      rw [width_eq, UInt8.toNat_ofNat', if_neg (by omega), if_neg (by omega), if_pos (by omega)]
    refine lossy_three three ?_ (continuation_of v)
    rw [second_eq, three, UInt8.toNat_ofNat', UInt8.toNat_ofNat', if_neg (by omega)]
    split
    · rw [decide_eq_true_eq]
      omega
    split
    · rw [decide_eq_true_eq]
      omega
    rw [if_neg (by omega), if_neg (by omega), decide_eq_true_eq]
    omega
  · have four : utf8_char_width (.ofNat (v / 262144 % 8 + 240)) = 4 := by
      rw [width_eq, UInt8.toNat_ofNat', if_neg (by omega), if_neg (by omega), if_neg (by omega), if_pos (by omega)]
    refine lossy_four four ?_ (continuation_of (v / 64)) (continuation_of v)
    rw [second_eq, four, UInt8.toNat_ofNat', UInt8.toNat_ofNat', if_neg (by omega), if_neg (by omega), if_neg (by omega)]
    split
    · rw [decide_eq_true_eq]
      omega
    split
    · rw [decide_eq_true_eq]
      omega
    rw [decide_eq_true_eq]
    omega
end

/-- The loop keeps what is text. -/
theorem lossy_text {bytes text : List UInt8} (found : to_str bytes = some text) : from_utf8_lossy bytes = bytes := by
  have valid : (ByteArray.mk bytes.toArray).IsValidUTF8 := by
    rw [← ByteArray.validateUTF8_eq_true_iff]
    by_contra invalid
    rw [to_str, if_neg invalid] at found
    cases found
  obtain ⟨chars, same⟩ := valid
  have spelled : bytes = chars.flatMap String.utf8EncodeChar := by
    have data := congrArg ByteArray.data same
    rw [List.utf8Encode] at data
    simpa using congrArg Array.toList data
  rw [spelled]
  clear same spelled found
  induction chars with
  | nil => rfl
  | cons char chars ih => rw [List.flatMap_cons, lossy_char, ih]
/-- A byte that begins no character, and a character that is cut off. -/
example : from_utf8_lossy [0xFF, 97, 0xE2, 0x82, 98] = REPLACEMENT_CHARACTER ++ 97 :: REPLACEMENT_CHARACTER ++ [98] := by decide

end Justext4.Utf8
