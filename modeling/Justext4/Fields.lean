import Justext4.Bytes

/-!
Fixed-layout records: a record is encoded by writing its fields, each at its
offset, and decoded by reading them back. When no two fields overlap, every
field reads back what was written, whatever the order of the writes and the
bytes that were there before.
-/
namespace Justext4

/-- A byte array of fixed length. -/
structure FixedBytes (n : Nat) where
  bytes : Bytes
  length : bytes.size = n
  deriving DecidableEq

namespace FixedBytes

theorem ext {n : Nat} {a b : FixedBytes n} (same : a.bytes = b.bytes) : a = b := by
  cases a; cases b; cases same; rfl
/-- `[0; n]`. -/
def zeros (n : Nat) : FixedBytes n := ⟨.zeros n, rfl⟩
/-- The array of the `n` bytes from a position of a buffer. -/
def ofSlice (b : Bytes) (start n : Nat) : FixedBytes n := ⟨b.slice start n, rfl⟩

end FixedBytes

namespace Fields
open Justext4 Justext4.Fallible Bytes

section
variable {ε : Type}

/-- `u16::from_le_bytes([buf[offset], buf[offset + 1]])`. -/
def read_u16 (buf : Bytes) (offset : Nat) : Res ε UInt16 :=
  if offset + 2 ≤ buf.size then .ok (buf.u16At offset) else .error .panic
/-- `u32::from_le_bytes` of the four bytes from `offset`. -/
def read_u32 (buf : Bytes) (offset : Nat) : Res ε UInt32 :=
  if offset + 4 ≤ buf.size then .ok (buf.u32At offset) else .error .panic

theorem read_u16_ok {buf : Bytes} {offset : Nat} (inside : offset + 2 ≤ buf.size) :
    (read_u16 buf offset : Res ε UInt16) = .ok (buf.u16At offset) := if_pos inside
theorem read_u32_ok {buf : Bytes} {offset : Nat} (inside : offset + 4 ≤ buf.size) :
    (read_u32 buf offset : Res ε UInt32) = .ok (buf.u32At offset) := if_pos inside

/-- Write the fields of a record one after another, each at its offset. -/
def writeAll (buf : Bytes) : List (Nat × Bytes) → Res ε Bytes
  | [] => .ok buf
  | (offset, src) :: fields => do
    let buf ← buf.copy offset src
    writeAll buf fields
end

/-- The buffer after the writes of `writeAll`. -/
def patches (buf : Bytes) : List (Nat × Bytes) → Bytes
  | [] => buf
  | (offset, src) :: fields => patches (buf.patch offset src) fields

/-- Every field ends within the first `n` bytes. -/
def Within (n : Nat) (fields : List (Nat × Bytes)) : Prop := ∀ f ∈ fields, f.1 + f.2.size ≤ n
/-- Two fields that share no byte. -/
def Apart (f g : Nat × Bytes) : Prop := f.1 + f.2.size ≤ g.1 ∨ g.1 + g.2.size ≤ f.1
/-- The offset and the width of a field. -/
def span (f : Nat × Bytes) : Nat × Nat := (f.1, f.2.size)
/-- Spans that share no byte. -/
def spansApart (f g : Nat × Nat) : Bool := f.1 + f.2 ≤ g.1 || g.1 + g.2 ≤ f.1

theorem within_of_spans {n : Nat} {fields : List (Nat × Bytes)} {spans : List (Nat × Nat)}
    (same : fields.map span = spans) (all : spans.all (fun f => f.1 + f.2 ≤ n) = true) : Within n fields := by
  intro f member
  subst same
  have inside := List.all_eq_true.mp all (span f) (List.mem_map_of_mem member)
  exact of_decide_eq_true inside
theorem apart_of_spans {fields : List (Nat × Bytes)} {spans : List (Nat × Nat)}
    (same : fields.map span = spans) (all : spans.Pairwise (fun f g => spansApart f g = true)) :
    fields.Pairwise Apart := by
  subst same
  rw [List.pairwise_map] at all
  refine all.imp fun {f g} apart => ?_
  rcases Bool.or_eq_true_iff.mp apart with before | after
  · exact .inl (of_decide_eq_true before)
  · exact .inr (of_decide_eq_true after)

theorem size_patches {n : Nat} {fields : List (Nat × Bytes)} (within : Within n fields) (buf : Bytes)
    (fits : n ≤ buf.size) : (patches buf fields).size = buf.size := by
  induction fields generalizing buf with
  | nil => rfl
  | cons f fields ih =>
    obtain ⟨offset, src⟩ := f
    have first := within (offset, src) (List.mem_cons_self ..)
    have size : (buf.patch offset src).size = buf.size := size_patch buf offset src (by simp at first; omega)
    rw [patches, ih (fun g member => within g (List.mem_cons_of_mem _ member)) _ (by omega), size]

theorem writeAll_ok {ε : Type} {n : Nat} {fields : List (Nat × Bytes)} (within : Within n fields) (buf : Bytes)
    (fits : n ≤ buf.size) : (writeAll buf fields : Res ε Bytes) = .ok (patches buf fields) := by
  induction fields generalizing buf with
  | nil => rfl
  | cons f fields ih =>
    obtain ⟨offset, src⟩ := f
    have first := within (offset, src) (List.mem_cons_self ..)
    have size : (buf.patch offset src).size = buf.size := size_patch buf offset src (by simp at first; omega)
    rw [writeAll, copy_ok (by simp at first; omega), res_bind_ok,
      ih (fun g member => within g (List.mem_cons_of_mem _ member)) _ (by omega), patches]

/-- A slice apart from every field is left as it was. -/
theorem slice_patches_apart {fields : List (Nat × Bytes)} {start n : Nat}
    (apart : ∀ f ∈ fields, start + n ≤ f.1 ∨ f.1 + f.2.size ≤ start) (buf : Bytes) :
    (patches buf fields).slice start n = buf.slice start n := by
  induction fields generalizing buf with
  | nil => rfl
  | cons f fields ih =>
    obtain ⟨offset, src⟩ := f
    rw [patches, ih (fun g member => apart g (List.mem_cons_of_mem _ member)),
      slice_patch_apart _ _ (apart (offset, src) (List.mem_cons_self ..))]

/-- Every field of a record without overlaps reads back what was written. -/
theorem slice_patches_mem {fields : List (Nat × Bytes)} (apart : fields.Pairwise Apart) {offset : Nat} {src : Bytes}
    (member : (offset, src) ∈ fields) (buf : Bytes) : (patches buf fields).slice offset src.size = src := by
  induction fields generalizing buf with
  | nil => cases member
  | cons f fields ih =>
    rw [List.pairwise_cons] at apart
    rcases List.mem_cons.mp member with first | later
    · subst first
      rw [patches, slice_patches_apart (fun g member => (apart.1 g member)), slice_patch_same]
    · obtain ⟨offset', src'⟩ := f
      rw [patches, ih apart.2 later]

/-- A byte of a field is what the field has there. -/
theorem byte_patches_mem {fields : List (Nat × Bytes)} (apart : fields.Pairwise Apart) {f : Nat × Bytes}
    (member : f ∈ fields) (buf : Bytes) {i : Nat} (low : f.1 ≤ i) (high : i < f.1 + f.2.size) :
    (patches buf fields).byte i = f.2.byte (i - f.1) := by
  have whole : (patches buf fields).slice f.1 f.2.size = f.2 := slice_patches_mem apart member buf
  have inside : f.2.byte (i - f.1) = (patches buf fields).byte (f.1 + (i - f.1)) := by
    rw [← byte_slice_of_lt (patches buf fields) (show i - f.1 < f.2.size by omega), whole]
  rw [inside, Nat.add_sub_cancel' low]
/-- A byte of no field is left as it was. -/
theorem byte_patches_gap {fields : List (Nat × Bytes)} {i : Nat} (gap : ∀ f ∈ fields, i < f.1 ∨ f.1 + f.2.size ≤ i)
    (buf : Bytes) : (patches buf fields).byte i = buf.byte i := by
  have apart : ∀ f ∈ fields, i + 1 ≤ f.1 ∨ f.1 + f.2.size ≤ i := fun f member => gap f member
  have same := slice_patches_apart apart buf
  have first := congrArg (fun b => b.byte 0) same
  simp only [byte_slice_of_lt _ Nat.one_pos, Nat.add_zero] at first
  exact first

/-- Bytes past the record are left as they were. -/
theorem byte_patches_past {n : Nat} {fields : List (Nat × Bytes)} (within : Within n fields) (buf : Bytes) {i : Nat}
    (past : n ≤ i) : (patches buf fields).byte i = buf.byte i := by
  induction fields generalizing buf with
  | nil => rfl
  | cons f fields ih =>
    obtain ⟨offset, src⟩ := f
    have first := within (offset, src) (List.mem_cons_self ..)
    simp only at first
    rw [patches, ih (fun g member => within g (List.mem_cons_of_mem _ member)),
      byte_patch_outside _ (.inr (by omega))]

theorem u16At_of_slice {b : Bytes} {offset : Nat} {value : UInt16} (slice : b.slice offset 2 = le16 value) :
    b.u16At offset = value := by
  have read : (b.slice offset 2).u16At 0 = b.u16At offset :=
    u16At_congr fun k small => by rw [byte_slice_of_lt _ (by omega), Nat.zero_add]
  rw [← read, slice]
  have back := u16At_patch_same (zeros 0) 0 value
  refine Eq.trans ?_ back
  exact u16At_congr fun k small => by
    rw [byte_patch, if_pos ⟨by omega, by simpa using small⟩, Nat.sub_zero]
theorem u32At_of_slice {b : Bytes} {offset : Nat} {value : UInt32} (slice : b.slice offset 4 = le32 value) :
    b.u32At offset = value := by
  have read : (b.slice offset 4).u32At 0 = b.u32At offset :=
    u32At_congr fun k small => by rw [byte_slice_of_lt _ (by omega), Nat.zero_add]
  rw [← read, slice]
  have back := u32At_patch_same (zeros 0) 0 value
  refine Eq.trans ?_ back
  exact u32At_congr fun k small => by
    rw [byte_patch, if_pos ⟨by omega, by simpa using small⟩, Nat.sub_zero]

theorem u16At_patches {fields : List (Nat × Bytes)} (apart : fields.Pairwise Apart) (offset : Nat) (value : UInt16)
    (member : (offset, le16 value) ∈ fields) (buf : Bytes) : (patches buf fields).u16At offset = value :=
  u16At_of_slice (slice_patches_mem apart member buf)
theorem u32At_patches {fields : List (Nat × Bytes)} (apart : fields.Pairwise Apart) (offset : Nat) (value : UInt32)
    (member : (offset, le32 value) ∈ fields) (buf : Bytes) : (patches buf fields).u32At offset = value :=
  u32At_of_slice (slice_patches_mem apart member buf)

end Fields
end Justext4
