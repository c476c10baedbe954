import Justext4.Fallible

/-!
Byte buffers. A buffer is a size and a byte for every position, zero past the
end, so that a write past the end grows the buffer with zeros as a write into
an in-memory file does. `slice` and `patch` are the two operations everything
else is made of; the little-endian words are read and written through them.
-/
namespace Justext4
open Justext4.Fallible

/-- A byte buffer. -/
@[ext] structure Bytes where
  size : Nat
  byte : Nat → UInt8
  beyond : ∀ i, size ≤ i → byte i = 0

namespace Bytes

theorem ext_inside {a b : Bytes} (size : a.size = b.size) (same : ∀ i, i < a.size → a.byte i = b.byte i) :
    a = b := by
  apply Bytes.ext size
  funext i
  by_cases inside : i < a.size
  · exact same i inside
  · rw [a.beyond i (by omega), b.beyond i (by omega)]

instance : DecidableEq Bytes := fun a b =>
  decidable_of_iff (a.size = b.size ∧ ∀ i < a.size, a.byte i = b.byte i)
    ⟨fun h => ext_inside h.1 h.2, fun h => h ▸ ⟨rfl, fun _ _ => rfl⟩⟩

/-- The buffer of `n` zero bytes. -/
def zeros (n : Nat) : Bytes := ⟨n, fun _ => 0, fun _ _ => rfl⟩
/-- The buffer holding a list of bytes. -/
def ofList (l : List UInt8) : Bytes :=
  ⟨l.length, fun i => l.getD i 0, fun i past => by simp [List.getElem?_eq_none past]⟩
/-- The bytes of a buffer, in order. -/
def toList (b : Bytes) : List UInt8 := (List.range b.size).map b.byte
/-- The `n` bytes from position `start`, zero where the buffer has ended. -/
def slice (b : Bytes) (start n : Nat) : Bytes :=
  ⟨n, fun i => if i < n then b.byte (start + i) else 0, fun i past => if_neg (by omega)⟩
/-- The bytes from position `start` to the end. -/
def rest (b : Bytes) (start : Nat) : Bytes := b.slice start (b.size - start)
/-- The buffer with `src` written at `start`; it grows when `src` ends past its end. -/
def patch (b : Bytes) (start : Nat) (src : Bytes) : Bytes where
  size := if src.size = 0 then b.size else max b.size (start + src.size)
  byte i := if start ≤ i ∧ i < start + src.size then src.byte (i - start) else b.byte i
  beyond i past := by
    split at past
    · rw [if_neg (by omega), b.beyond i past]
    · rw [if_neg (by omega), b.beyond i (by omega)]
/-- One buffer after another. -/
def append (a b : Bytes) : Bytes where
  size := a.size + b.size
  byte i := if i < a.size then a.byte i else b.byte (i - a.size)
  beyond i past := by rw [if_neg (by omega), b.beyond _ (by omega)]
/-- The first `n` bytes, all of them when there are fewer. -/
def truncate (b : Bytes) (n : Nat) : Bytes := b.slice 0 (min n b.size)

instance : Append Bytes := ⟨append⟩

@[simp] theorem size_zeros (n : Nat) : (zeros n).size = n := rfl
@[simp] theorem byte_zeros (n i : Nat) : (zeros n).byte i = 0 := rfl
@[simp] theorem size_ofList (l : List UInt8) : (ofList l).size = l.length := rfl
@[simp] theorem byte_ofList (l : List UInt8) (i : Nat) : (ofList l).byte i = l.getD i 0 := rfl
@[simp] theorem size_slice (b : Bytes) (start n : Nat) : (b.slice start n).size = n := rfl
theorem byte_slice (b : Bytes) (start n i : Nat) :
    (b.slice start n).byte i = if i < n then b.byte (start + i) else 0 := rfl
@[simp] theorem size_rest (b : Bytes) (start : Nat) : (b.rest start).size = b.size - start := rfl
theorem byte_rest (b : Bytes) (start i : Nat) : (b.rest start).byte i = b.byte (start + i) := by
  simp only [rest, byte_slice]
  split
  · rfl
  · rw [b.beyond _ (by omega)]
theorem byte_patch (b : Bytes) (start : Nat) (src : Bytes) (i : Nat) :
    (b.patch start src).byte i =
      if start ≤ i ∧ i < start + src.size then src.byte (i - start) else b.byte i := rfl
theorem size_patch (b : Bytes) (start : Nat) (src : Bytes) (fits : start + src.size ≤ b.size) :
    (b.patch start src).size = b.size := by
  simp only [patch]
  split <;> omega
@[simp] theorem size_append (a b : Bytes) : (a ++ b).size = a.size + b.size := rfl
theorem byte_append (a b : Bytes) (i : Nat) :
    (a ++ b).byte i = if i < a.size then a.byte i else b.byte (i - a.size) := rfl
@[simp] theorem length_toList (b : Bytes) : b.toList.length = b.size := by simp [toList]

theorem toList_ofList (l : List UInt8) : (ofList l).toList = l := by
  apply List.ext_getElem (by simp)
  intro i inside _
  have short : i < l.length := by simpa using inside
  simp [toList, List.getElem?_eq_getElem short]
theorem ofList_toList (b : Bytes) : ofList b.toList = b := by
  apply ext_inside (by simp)
  intro i inside
  have short : i < b.size := by simpa using inside
  simp [toList, short]

/-! ### Slices of patched buffers -/

theorem byte_slice_of_lt (b : Bytes) {start n i : Nat} (inside : i < n) :
    (b.slice start n).byte i = b.byte (start + i) := if_pos inside
theorem byte_patch_inside (b : Bytes) (start : Nat) (src : Bytes) {i : Nat} (inside : i < src.size) :
    (b.patch start src).byte (start + i) = src.byte i := by
  rw [byte_patch, if_pos (by omega)]
  congr 1
  omega
theorem byte_patch_outside (b : Bytes) {start : Nat} {src : Bytes} {i : Nat}
    (outside : i < start ∨ start + src.size ≤ i) : (b.patch start src).byte i = b.byte i := by
  rw [byte_patch, if_neg (by omega)]

/-- A slice reads back what a patch has written in its place. -/
theorem slice_patch_same (b src : Bytes) (start : Nat) : (b.patch start src).slice start src.size = src := by
  apply ext_inside (by simp)
  intro i inside
  have short : i < src.size := by simpa using inside
  rw [byte_slice_of_lt _ short, byte_patch_inside b _ _ short]
/-- A slice apart from a patch is untouched by it. -/
theorem slice_patch_apart (b src : Bytes) {start pos n : Nat}
    (apart : pos + n ≤ start ∨ start + src.size ≤ pos) : (b.patch start src).slice pos n = b.slice pos n := by
  apply ext_inside (by simp)
  intro i inside
  have short : i < n := by simpa using inside
  rw [byte_slice_of_lt _ short, byte_slice_of_lt _ short, byte_patch_outside b (by omega)]
theorem slice_slice (b : Bytes) {start n pos m : Nat} (inside : pos + m ≤ n) :
    (b.slice start n).slice pos m = b.slice (start + pos) m := by
  apply ext_inside (by simp)
  intro i small
  have short : i < m := by simpa using small
  rw [byte_slice_of_lt _ short, byte_slice_of_lt _ (by omega), byte_slice_of_lt _ short, Nat.add_assoc]
theorem slice_append_left (a b : Bytes) : (a ++ b).slice 0 a.size = a := by
  apply ext_inside (by simp)
  intro i inside
  have short : i < a.size := by simpa using inside
  rw [byte_slice_of_lt _ short, byte_append, if_pos (by omega), Nat.zero_add]
theorem slice_append_right (a b : Bytes) (start n : Nat) : (a ++ b).slice (a.size + start) n = b.slice start n := by
  apply ext_inside (by simp)
  intro i inside
  have short : i < n := by simpa using inside
  rw [byte_slice_of_lt _ short, byte_slice_of_lt _ short, byte_append, if_neg (by omega)]
  congr 1
  omega
theorem slice_self (b : Bytes) : b.slice 0 b.size = b := by
  apply ext_inside (by simp)
  intro i inside
  rw [byte_slice_of_lt _ (by simpa using inside), Nat.zero_add]

/-! ### Checked access -/

section
variable {ε : Type}

/-- `&b[start..stop]`. -/
def range (b : Bytes) (start stop : Nat) : Res ε Bytes :=
  if start ≤ stop ∧ stop ≤ b.size then .ok (b.slice start (stop - start)) else .error .panic
/-- `b[i]`. -/
def index (b : Bytes) (i : Nat) : Res ε UInt8 := if i < b.size then .ok (b.byte i) else .error .panic
/-- `b[i] = value`. -/
def setIndex (b : Bytes) (i : Nat) (value : UInt8) : Res ε Bytes :=
  if i < b.size then .ok (b.patch i (ofList [value])) else .error .panic
/-- `b[start..start + src.len()].copy_from_slice(src)`. -/
def copy (b : Bytes) (start : Nat) (src : Bytes) : Res ε Bytes :=
  if start + src.size ≤ b.size then .ok (b.patch start src) else .error .panic

theorem range_ok {b : Bytes} {start stop : Nat} (low : start ≤ stop) (high : stop ≤ b.size) :
    (b.range start stop : Res ε Bytes) = .ok (b.slice start (stop - start)) := if_pos ⟨low, high⟩
theorem index_ok {b : Bytes} {i : Nat} (inside : i < b.size) : (b.index i : Res ε UInt8) = .ok (b.byte i) :=
  if_pos inside
theorem setIndex_ok {b : Bytes} {i : Nat} {value : UInt8} (inside : i < b.size) :
    (b.setIndex i value : Res ε Bytes) = .ok (b.patch i (ofList [value])) := if_pos inside
theorem copy_ok {b src : Bytes} {start : Nat} (fits : start + src.size ≤ b.size) :
    (b.copy start src : Res ε Bytes) = .ok (b.patch start src) := if_pos fits
theorem range_inv {b part : Bytes} {start stop : Nat} (ranged : (b.range start stop : Res ε Bytes) = .ok part) :
    stop ≤ b.size ∧ part = b.slice start (stop - start) := by
  rw [range] at ranged
  split at ranged
  · rename_i inside
    exact ⟨inside.2, (Except.ok.inj ranged).symm⟩
  · cases ranged
theorem copy_inv {b src out : Bytes} {start : Nat} (copied : (b.copy start src : Res ε Bytes) = .ok out) :
    start + src.size ≤ b.size ∧ out = b.patch start src := by
  rw [copy] at copied
  split at copied
  · exact ⟨by assumption, (Except.ok.inj copied).symm⟩
  · cases copied
end

/-! ### Little-endian words -/

/-- The 16-bit word at a position. -/
def u16At (b : Bytes) (i : Nat) : UInt16 := .ofNat ((b.byte i).toNat + 256 * (b.byte (i + 1)).toNat)
/-- The 32-bit word at a position. -/
def u32At (b : Bytes) (i : Nat) : UInt32 :=
  .ofNat ((b.byte i).toNat + 256 * (b.byte (i + 1)).toNat + 65536 * (b.byte (i + 2)).toNat +
    16777216 * (b.byte (i + 3)).toNat)
/-- `value.to_le_bytes()` of a 16-bit word. -/
def le16 (value : UInt16) : Bytes := ofList [.ofNat value.toNat, .ofNat (value.toNat / 256)]
/-- `value.to_le_bytes()` of a 32-bit word. -/
def le32 (value : UInt32) : Bytes :=
  ofList [.ofNat value.toNat, .ofNat (value.toNat / 256), .ofNat (value.toNat / 65536),
    .ofNat (value.toNat / 16777216)]

@[simp] theorem size_le16 (value : UInt16) : (le16 value).size = 2 := rfl
@[simp] theorem size_le32 (value : UInt32) : (le32 value).size = 4 := rfl

theorem u16At_patch_same (b : Bytes) (i : Nat) (value : UInt16) : (b.patch i (le16 value)).u16At i = value := by
  have first := byte_patch_inside b i (le16 value) (i := 0) (by simp)
  have second := byte_patch_inside b i (le16 value) (i := 1) (by simp)
  rw [Nat.add_zero] at first
  rw [u16At, first, second]
  apply UInt16.toNat_inj.mp
  have bound := value.toNat_lt
  simp [le16]
  omega
theorem u32At_patch_same (b : Bytes) (i : Nat) (value : UInt32) : (b.patch i (le32 value)).u32At i = value := by
  have first := byte_patch_inside b i (le32 value) (i := 0) (by simp)
  have second := byte_patch_inside b i (le32 value) (i := 1) (by simp)
  have third := byte_patch_inside b i (le32 value) (i := 2) (by simp)
  have fourth := byte_patch_inside b i (le32 value) (i := 3) (by simp)
  rw [Nat.add_zero] at first
  rw [u32At, first, second, third, fourth]
  apply UInt32.toNat_inj.mp
  have bound := value.toNat_lt
  simp [le32]
  omega
theorem u16At_patch_apart (b src : Bytes) {start i : Nat} (apart : i + 2 ≤ start ∨ start + src.size ≤ i) :
    (b.patch start src).u16At i = b.u16At i := by
  rw [u16At, u16At, byte_patch_outside b (by omega), byte_patch_outside b (by omega)]
theorem u16At_congr {a b : Bytes} {i j : Nat} (same : ∀ k < 2, a.byte (i + k) = b.byte (j + k)) :
    a.u16At i = b.u16At j := by
  have first := same 0 (by decide)
  have second := same 1 (by decide)
  simp only [Nat.add_zero] at first
  rw [u16At, u16At, first, second]
theorem u32At_congr {a b : Bytes} {i j : Nat} (same : ∀ k < 4, a.byte (i + k) = b.byte (j + k)) :
    a.u32At i = b.u32At j := by
  have first := same 0 (by decide)
  have second := same 1 (by decide)
  have third := same 2 (by decide)
  have fourth := same 3 (by decide)
  simp only [Nat.add_zero] at first
  rw [u32At, u32At, first, second, third, fourth]

end Bytes
end Justext4
