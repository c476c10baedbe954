import Justext4.Codecs

/-!
What the encoders write. An encoder owns the bytes of its record: they depend
on the value alone, whether it clears the record first or its fields cover it,
and no other byte of the buffer changes.
-/
namespace Justext4.Ownership
open Justext4 Justext4.Fallible Justext4.Fields Justext4.Codecs Bytes
open Justext4.Superblock (Superblock group_descriptor_size logBlockSizeOf SUPERBLOCK_SIZE)
open Justext4.GroupDescriptor (GroupDescriptor)
open Justext4.Inode (Inode MIN_INODE_SIZE)
open Justext4.DirEntry (DirEntry DIR_ENTRY_HEADER_SIZE DIR_ENTRY_ALIGNMENT DIR_ENTRY_NAME_MAX)
open Justext4.Extent (ExtentHeader Extent ExtentIndex EXTENT_HEADER_SIZE EXTENT_ENTRY_SIZE header_within header_apart
  header_spans extent_within extent_apart extent_spans)

/-- An encoder owns the first `n` bytes: over two buffers of one size it writes
    the same there, and it leaves the bytes after them as they were. -/
def OwnsFirst {ε : Type} (encode : Bytes → Res ε Bytes) (n : Nat) : Prop :=
  ∀ a b out : Bytes, a.size = b.size → encode a = .ok out →
    ∃ out', encode b = .ok out' ∧ n ≤ a.size ∧ out.size = a.size ∧ out'.size = b.size ∧
      (∀ i < n, out.byte i = out'.byte i) ∧ ∀ i, n ≤ i → out.byte i = a.byte i ∧ out'.byte i = b.byte i

/-! ### Records over different bytes -/

section
variable {ε : Type} {encode : Bytes → Res ε Bytes} {n : Nat} {fields : List (Nat × Bytes)}

/-- A byte of the record is the same over two buffers when a field holds it or
    the buffers agree there. -/
theorem byte_patches_agree (apart : fields.Pairwise Apart) {a b : Bytes} {i : Nat}
    (settled : (∃ f ∈ fields, f.1 ≤ i ∧ i < f.1 + f.2.size) ∨ a.byte i = b.byte i) :
    (patches a fields).byte i = (patches b fields).byte i := by
  by_cases held : ∃ f ∈ fields, f.1 ≤ i ∧ i < f.1 + f.2.size
  · obtain ⟨f, member, low, high⟩ := held
    rw [byte_patches_mem apart member a low high, byte_patches_mem apart member b low high]
  · have gap : ∀ f ∈ fields, i < f.1 ∨ f.1 + f.2.size ≤ i := by
      intro f member
      refine Decidable.byContradiction fun inside => held ⟨f, member, ?_⟩
      omega
    rw [byte_patches_gap gap, byte_patches_gap gap]
    exact settled.resolve_left held

/-- An encoder that clears its record before it writes owns it. -/
theorem owns_cleared (within : Within n fields) (apart : fields.Pairwise Apart)
    (accepts : ∀ a out, encode a = .ok out → n ≤ a.size ∧
      ∀ b : Bytes, n ≤ b.size → encode b = .ok (patches (b.patch 0 (zeros n)) fields)) : OwnsFirst encode n := by
  intro a b out same encoded
  obtain ⟨size, written⟩ := accepts a out encoded
  rw [written a size] at encoded
  cases encoded
  have cleared : ∀ c : Bytes, n ≤ c.size → (c.patch 0 (zeros n)).size = c.size :=
    fun c enough => size_patch _ _ _ (by simpa using enough)
  have blank : ∀ (c : Bytes) i, i < n → (c.patch 0 (zeros n)).byte i = 0 := by
    intro c i inside
    rw [byte_patch, if_pos (by simp; omega), byte_zeros]
  have past : ∀ (c : Bytes) i, n ≤ i → (patches (c.patch 0 (zeros n)) fields).byte i = c.byte i := by
    intro c i outside
    rw [byte_patches_past within _ outside, byte_patch_outside _ (.inr (by simpa using outside))]
  refine ⟨_, written b (by omega), size, ?_, ?_, fun i inside => ?_, fun i outside => ?_⟩
  · rw [size_patches within _ (by rw [cleared a size]; exact size), cleared a size]
  · rw [size_patches within _ (by rw [cleared b (by omega)]; omega), cleared b (by omega)]
  · exact byte_patches_agree apart (.inr (by rw [blank a i inside, blank b i inside]))
  · exact ⟨past a i outside, past b i outside⟩

/-- An encoder whose fields cover its record owns it. -/
theorem owns_covered (within : Within n fields) (apart : fields.Pairwise Apart)
    (covered : ∀ i < n, ∃ f ∈ fields, f.1 ≤ i ∧ i < f.1 + f.2.size)
    (accepts : ∀ a out, encode a = .ok out → n ≤ a.size ∧
      ∀ b : Bytes, n ≤ b.size → encode b = .ok (patches b fields)) : OwnsFirst encode n := by
  intro a b out same encoded
  obtain ⟨size, written⟩ := accepts a out encoded
  rw [written a size] at encoded
  cases encoded
  refine ⟨_, written b (by omega), size, size_patches within _ size, size_patches within _ (by omega),
    fun i inside => byte_patches_agree apart (.inl (covered i inside)),
    fun i outside => ⟨byte_patches_past within _ outside, byte_patches_past within _ outside⟩⟩

/-- Whether the fields cover a record can be read off their spans. -/
theorem covered_of_spans {spans : List (Nat × Nat)} (same : fields.map span = spans)
    (all : (List.range n).all (fun i => spans.any fun s => s.1 ≤ i && i < s.1 + s.2) = true) :
    ∀ i < n, ∃ f ∈ fields, f.1 ≤ i ∧ i < f.1 + f.2.size := by
  intro i inside
  subst same
  have here := List.all_eq_true.mp all i (List.mem_range.mpr inside)
  obtain ⟨s, member, holds⟩ := List.any_eq_true.mp here
  obtain ⟨f, listed, rfl⟩ := List.mem_map.mp member
  rw [Bool.and_eq_true] at holds
  exact ⟨f, listed, of_decide_eq_true holds.1, of_decide_eq_true holds.2⟩
end

/-! ### The records of an image -/

theorem superblock_owns (self : Superblock) : OwnsFirst (Superblock.encode_into self) 1024 := by
  intro a b out same encoded
  have checked := encoded
  rw [Superblock.encode_into] at checked
  obtain ⟨_, -, checked⟩ := res_bind_eq_ok.mp checked
  obtain ⟨_, -, checked⟩ := res_bind_eq_ok.mp checked
  obtain ⟨log, known, -⟩ := res_bind_eq_ok.mp checked
  cases found : logBlockSizeOf self.block_size with
  | none => rw [found] at known; cases known
  | some log =>
    refine owns_cleared (superblock_within self log) (superblock_apart self log) (fun a out encoded => ?_) a b out same encoded
    rw [Superblock.encode_into] at encoded
    obtain ⟨_, size, -⟩ := res_bind_eq_ok.mp encoded
    exact ⟨of_decide_eq_true (ensure_eq_ok.mp size), fun b enough => superblock_encode found enough⟩

theorem descriptor_owns (self : GroupDescriptor) (sb : Superblock) :
    OwnsFirst (GroupDescriptor.encode_into self · sb) (group_descriptor_size sb).toNat := by
  by_cases large : 32 ≤ (group_descriptor_size sb).toNat
  · refine owns_cleared (descriptor_within self large) (descriptor_apart self _) fun a out encoded => ?_
    simp only [GroupDescriptor.encode_into] at encoded
    obtain ⟨_, -, encoded⟩ := res_bind_eq_ok.mp encoded
    obtain ⟨_, size, -⟩ := res_bind_eq_ok.mp encoded
    exact ⟨of_decide_eq_true (ensure_eq_ok.mp size), fun b enough => descriptor_encode self rfl large enough⟩
  · intro a b out _ encoded
    simp only [GroupDescriptor.encode_into] at encoded
    obtain ⟨_, checked, -⟩ := res_bind_eq_ok.mp encoded
    exact absurd (of_decide_eq_true (ensure_eq_ok.mp checked)) large

theorem inode_owns (self : Inode) (sb : Superblock) : OwnsFirst (Inode.encode_into self · sb) sb.inode_size.toNat := by
  by_cases sized : 128 ≤ sb.inode_size.toNat
  · have within : Within sb.inode_size.toNat (Inode.fields self) :=
      fun f member => Nat.le_trans (Inode.within self f member) sized
    refine owns_cleared within (Inode.apart self) fun a out encoded => ?_
    simp only [Inode.encode_into] at encoded
    obtain ⟨_, -, encoded⟩ := res_bind_eq_ok.mp encoded
    obtain ⟨_, size, -⟩ := res_bind_eq_ok.mp encoded
    exact ⟨of_decide_eq_true (ensure_eq_ok.mp size), fun b enough => inode_encode self rfl sized enough⟩
  · intro a b out _ encoded
    simp only [Inode.encode_into] at encoded
    obtain ⟨_, checked, -⟩ := res_bind_eq_ok.mp encoded
    exact absurd (of_decide_eq_true (ensure_eq_ok.mp checked)) sized

/-- A record of lengths that agree is written over the first bytes of a larger
    buffer too. -/
theorem entry_encode {self : DirEntry} (formed : DirEntry.WellFormed self) {out : Bytes}
    (size : self.rec_len.toNat ≤ out.size) : DirEntry.encode_into self out =
      .ok (patches (out.patch 0 (zeros self.rec_len.toNat)) (DirEntry.fields self)) := by
  have room := formed.room
  have cleared : (out.patch 0 (zeros self.rec_len.toNat)).size = out.size := size_patch _ _ _ (by simpa using size)
  rw [DirEntry.encode_into, ensure_of (by rw [DIR_ENTRY_HEADER_SIZE]; omega), res_bind_ok,
    ensure_of (show self.rec_len.toNat % DIR_ENTRY_ALIGNMENT = 0 from formed.aligned), res_bind_ok,
    ensure_of (show self.name.length ≤ DIR_ENTRY_NAME_MAX from formed.short), res_bind_ok,
    ensure_of (show DIR_ENTRY_HEADER_SIZE + self.name.length ≤ self.rec_len.toNat from room), res_bind_ok,
    ensure_of size, res_bind_ok, copy_ok (by simpa using size), res_bind_ok,
    writeAll_ok (DirEntry.within formed) _ (by omega)]
/-- What is encoded has lengths that agree, and fits. -/
theorem entry_encode_inv {self : DirEntry} {a out : Bytes} (encoded : DirEntry.encode_into self a = .ok out) :
    DirEntry.WellFormed self ∧ self.rec_len.toNat ≤ a.size := by
  rw [DirEntry.encode_into] at encoded
  obtain ⟨_, -, encoded⟩ := res_bind_eq_ok.mp encoded
  obtain ⟨_, aligned, encoded⟩ := res_bind_eq_ok.mp encoded
  obtain ⟨_, short, encoded⟩ := res_bind_eq_ok.mp encoded
  obtain ⟨_, room, encoded⟩ := res_bind_eq_ok.mp encoded
  obtain ⟨_, size, -⟩ := res_bind_eq_ok.mp encoded
  exact ⟨⟨of_decide_eq_true (ensure_eq_ok.mp aligned), of_decide_eq_true (ensure_eq_ok.mp room),
    of_decide_eq_true (ensure_eq_ok.mp short)⟩, of_decide_eq_true (ensure_eq_ok.mp size)⟩

theorem entry_owns (self : DirEntry) : OwnsFirst (DirEntry.encode_into self) self.rec_len.toNat := by
  intro a b out same encoded
  have formed := (entry_encode_inv encoded).1
  exact owns_cleared (DirEntry.within formed) (DirEntry.apart self)
    (fun a out encoded => ⟨(entry_encode_inv encoded).2, fun b enough => entry_encode formed enough⟩) a b out same encoded

/-! ### The parts of an extent node -/

theorem index_spans (self : ExtentIndex) : self.fields.map span = [(0, 4), (4, 4), (8, 2), (10, 2)] := rfl
theorem index_within (self : ExtentIndex) : Within 12 self.fields := within_of_spans (index_spans self) (by decide)
theorem index_apart (self : ExtentIndex) : self.fields.Pairwise Apart := apart_of_spans (index_spans self) (by decide)

theorem header_owns (self : ExtentHeader) : OwnsFirst (ExtentHeader.encode_into self) 12 := by
  refine owns_covered (header_within self) (header_apart self) (covered_of_spans (header_spans self) (by decide))
    fun a out encoded => ?_
  rw [ExtentHeader.encode_into] at encoded
  obtain ⟨_, size, -⟩ := res_bind_eq_ok.mp encoded
  exact ⟨of_decide_eq_true (ensure_eq_ok.mp size), fun b enough => Extent.header_encode_ok self enough⟩
theorem extent_owns (self : Extent) : OwnsFirst (Extent.encode_into self) 12 := by
  intro a b out same encoded
  obtain ⟨-, short, room, -⟩ := extent_encode_inv encoded
  exact owns_covered (extent_within self _) (extent_apart self _) (covered_of_spans (extent_spans self _) (by decide))
    (fun a out encoded => ⟨(extent_encode_inv encoded).1, fun b enough => extent_encode enough short room⟩)
    a b out same encoded
theorem index_owns (self : ExtentIndex) : OwnsFirst (ExtentIndex.encode_into self) 12 := by
  refine owns_covered (index_within self) (index_apart self) (covered_of_spans (index_spans self) (by decide))
    fun a out encoded => ?_
  rw [ExtentIndex.encode_into] at encoded
  obtain ⟨_, size, -⟩ := res_bind_eq_ok.mp encoded
  refine ⟨of_decide_eq_true (ensure_eq_ok.mp size), fun b enough => ?_⟩
  rw [ExtentIndex.encode_into, ensure_of (show EXTENT_ENTRY_SIZE ≤ b.size from enough), res_bind_ok,
    writeAll_ok (index_within self) b enough]

/-- Every encoder owns exactly the bytes of its record. -/
theorem encoders_own :
    (∀ self : Superblock, OwnsFirst (Superblock.encode_into self) 1024) ∧
    (∀ (self : GroupDescriptor) sb, OwnsFirst (GroupDescriptor.encode_into self · sb) (group_descriptor_size sb).toNat) ∧
    (∀ (self : Inode) sb, OwnsFirst (Inode.encode_into self · sb) sb.inode_size.toNat) ∧
    (∀ self : DirEntry, OwnsFirst (DirEntry.encode_into self) self.rec_len.toNat) ∧
    (∀ self : ExtentHeader, OwnsFirst (ExtentHeader.encode_into self) 12) ∧
    (∀ self : Extent, OwnsFirst (Extent.encode_into self) 12) ∧
    (∀ self : ExtentIndex, OwnsFirst (ExtentIndex.encode_into self) 12) :=
  ⟨superblock_owns, descriptor_owns, inode_owns, entry_owns, header_owns, extent_owns, index_owns⟩

/-- Over zeros and over ones an entry of 12 bytes has the same record, and the four
    bytes after it stay what they were. -/
theorem entry_over_bytes : ∃ out out' : Bytes, DirEntry.encode_into ⟨11, 12, 1, [97]⟩ (zeros 16) = .ok out ∧
    DirEntry.encode_into ⟨11, 12, 1, [97]⟩ (ofList (List.replicate 16 255)) = .ok out' ∧
    (∀ i < 12, out.byte i = out'.byte i) ∧ ∀ i, 12 ≤ i → i < 16 → out.byte i = 0 ∧ out'.byte i = 255 := by
  obtain ⟨out, encoded⟩ : ∃ out, DirEntry.encode_into ⟨11, 12, 1, [97]⟩ (zeros 16) = .ok out := ⟨_, rfl⟩
  obtain ⟨out', encoded', -, -, -, record, rest⟩ := encoders_own.2.2.2.1 ⟨11, 12, 1, [97]⟩ (zeros 16)
    (ofList (List.replicate 16 255)) out rfl encoded
  refine ⟨out, out', encoded, encoded', record, fun i low high => ?_⟩
  obtain ⟨left, right⟩ := rest i low
  have ones : ∀ i < 16, (ofList (List.replicate 16 255)).byte i = 255 := by decide
  exact ⟨left, right.trans (ones i high)⟩

end Justext4.Ownership
