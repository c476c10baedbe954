import Justext4.Codecs

/-!
The slots of the inode tables, on any image. An inode that is read has its slot
inside the image, and writing the slot replaces exactly its bytes: those of the
fields by the fields, and all the others by zeros.
-/
namespace Justext4.Slots
open Justext4 Justext4.Fallible Justext4.Fields Justext4.Filesystem Bytes
open Justext4.Volumes (in_u64_ok read_at_ok)
open Justext4.Inode
open Justext4.Codecs (le16_u16At le32_u32At)

/-! ### Where a slot is -/

/-- The slot of an inode, which lies inside the image. -/
structure InSlot (fs : Filesystem) (n : UInt32) (offset : Nat) : Prop where
  number : n ≠ 0 ∧ n ≤ fs.superblock.inodes_count
  counted : fs.superblock.inodes_per_group ≠ 0
  listed : (n.toNat - 1) / fs.superblock.inodes_per_group.toNat < fs.gdt.length
  found : inode_offset fs n = .ok offset
  inside : offset + fs.superblock.inode_size.toNat ≤ fs.reader.size
  sized : 128 ≤ fs.superblock.inode_size.toNat

def slotBytes (fs : Filesystem) (offset : Nat) : Bytes := fs.reader.slice offset fs.superblock.inode_size.toNat

section
variable {fs fs' : Filesystem} {n : UInt32} {offset : Nat} {inode : Inode}

theorem read_inode_eq (slot : InSlot fs n offset) : read_inode fs n = .ok (inodeAt (slotBytes fs offset)) := by
  have sized := slot.sized
  rw [read_inode, ensure_of slot.number, res_bind_ok, decide_eq_true slot.counted, orPanic_true, res_bind_ok,
    ensure_of slot.listed, res_bind_ok, slot.found, res_bind_ok, read_at_ok slot.inside, res_bind_ok,
    decode_ok sized (Nat.le_refl _), liftErr_ok]
  rfl

/-- An inode that is read has a slot. -/
theorem slot_of_read (read : read_inode fs n = .ok inode) :
    ∃ offset, InSlot fs n offset ∧ inode = inodeAt (slotBytes fs offset) := by
  rw [read_inode] at read
  obtain ⟨_, number, read⟩ := res_bind_eq_ok.mp read
  obtain ⟨_, counted, read⟩ := res_bind_eq_ok.mp read
  obtain ⟨_, listed, read⟩ := res_bind_eq_ok.mp read
  obtain ⟨offset, found, read⟩ := res_bind_eq_ok.mp read
  obtain ⟨buf, slice, read⟩ := res_bind_eq_ok.mp read
  rw [ensure_eq_ok, decide_eq_true_eq] at number listed
  rw [orPanic_eq_ok, decide_eq_true_eq] at counted
  rw [liftErr_eq_ok] at read
  rw [read_at] at slice
  split at slice
  case isFalse => cases slice
  rename_i inside
  cases slice
  have checked := read
  rw [decode] at checked
  obtain ⟨_, enough, -⟩ := res_bind_eq_ok.mp checked
  rw [ensure_eq_ok, decide_eq_true_eq] at enough
  have sized : 128 ≤ fs.superblock.inode_size.toNat := enough
  have slot : InSlot fs n offset := ⟨number, counted, listed, found, by omega, sized⟩
  refine ⟨offset, slot, ?_⟩
  have back := @decode_ok (slotBytes fs offset) fs.superblock sized (Nat.le_refl _)
  rw [slotBytes] at back
  rw [back] at read
  cases read
  rfl

/-- The filesystem with a slot written. -/
def withSlot (fs : Filesystem) (offset : Nat) (inode : Inode) : Filesystem :=
  { fs with reader := fs.reader.patch offset (record inode fs.superblock.inode_size.toNat) }

theorem withSlot_superblock (fs : Filesystem) (offset : Nat) (inode : Inode) :
    (withSlot fs offset inode).superblock = fs.superblock := by
  rw [withSlot]
theorem withSlot_gdt (fs : Filesystem) (offset : Nat) (inode : Inode) : (withSlot fs offset inode).gdt = fs.gdt := by
  rw [withSlot]

theorem write_inode_run (slot : InSlot fs n offset) (inode : Inode) :
    (write_inode n inode).run fs = .ok () (withSlot fs offset inode) := by
  have encoded := encode_ok inode rfl slot.sized
  simp only [write_inode, run_bind, run_reads, ensure_of slot.number, ofRes_ok, andThen_ok, slot.found, encoded,
    liftErr_ok, write_at, run_change]
  rfl

theorem size_withSlot (slot : InSlot fs n offset) (inode : Inode) :
    (withSlot fs offset inode).reader.size = fs.reader.size := by
  have inside := slot.inside
  exact size_patch _ _ _ (by rw [size_record inode slot.sized]; exact inside)
theorem byte_outside_slot (slot : InSlot fs n offset) (inode : Inode) {i : Nat}
    (outside : i < offset ∨ offset + fs.superblock.inode_size.toNat ≤ i) :
    (withSlot fs offset inode).reader.byte i = fs.reader.byte i :=
  byte_patch_outside _ (by rw [size_record inode slot.sized]; exact outside)
theorem byte_withSlot (slot : InSlot fs n offset) (inode : Inode) {k : Nat} (inside : k < fs.superblock.inode_size.toNat) :
    (withSlot fs offset inode).reader.byte (offset + k) = (record inode fs.superblock.inode_size.toNat).byte k :=
  byte_patch_inside _ _ _ (by rw [size_record inode slot.sized]; exact inside)
theorem slot_withSlot (slot : InSlot fs n offset) (inode : Inode) :
    slotBytes (withSlot fs offset inode) offset = record inode fs.superblock.inode_size.toNat := by
  have same := slice_patch_same fs.reader (record inode fs.superblock.inode_size.toNat) offset
  rw [size_record inode slot.sized] at same
  exact same
end

/-! ### What the decoder reads of a slot -/

/-- The offsets and the widths of the fields. -/
def fieldSpans : List (Nat × Nat) :=
  [(0, 2), (2, 2), (4, 4), (8, 4), (12, 4), (16, 4), (20, 4), (24, 2), (26, 2), (28, 4), (32, 4), (40, 60),
    (100, 4), (104, 4), (108, 4), (116, 2), (118, 2), (120, 2), (122, 2)]
/-- The byte of a slot belongs to a field. -/
def Interpreted (k : Nat) : Prop := ∃ f ∈ fieldSpans, f.1 ≤ k ∧ k < f.1 + f.2
instance (k : Nat) : Decidable (Interpreted k) := inferInstanceAs (Decidable (∃ _ ∈ _, _))

/-- What lies between the fields are the version, the fragment address, the
    checksum and everything from offset 128 on. -/
theorem interpreted_iff (k : Nat) : Interpreted k ↔ k < 36 ∨ (40 ≤ k ∧ k < 112) ∨ (116 ≤ k ∧ k < 124) := by
  simp only [Interpreted, fieldSpans, List.mem_cons, List.not_mem_nil, or_false, exists_eq_or_imp, exists_eq_left]
  omega

theorem combine32_low (hi lo : UInt16) : UInt16.ofNat (combine32 hi lo).toNat = lo := by
  apply UInt16.toNat_inj.mp
  have high := hi.toNat_lt
  have low := lo.toNat_lt
  simp only [combine32, UInt32.toNat_ofNat', UInt16.toNat_ofNat']
  omega
theorem combine32_high (hi lo : UInt16) : UInt16.ofNat ((combine32 hi lo).toNat / 65536) = hi := by
  apply UInt16.toNat_inj.mp
  have high := hi.toNat_lt
  have low := lo.toNat_lt
  simp only [combine32, UInt32.toNat_ofNat', UInt16.toNat_ofNat']
  omega
theorem combine64_low (hi lo : UInt32) : UInt32.ofNat (combine64 hi lo).toNat = lo := by
  apply UInt32.toNat_inj.mp
  have high := hi.toNat_lt
  have low := lo.toNat_lt
  simp only [combine64, UInt64.toNat_ofNat', UInt32.toNat_ofNat']
  omega
theorem combine64_high (hi lo : UInt32) : UInt32.ofNat ((combine64 hi lo).toNat / 4294967296) = hi := by
  apply UInt32.toNat_inj.mp
  have high := hi.toNat_lt
  have low := lo.toNat_lt
  simp only [combine64, UInt64.toNat_ofNat', UInt32.toNat_ofNat']
  omega

/-- The fields of a decoded inode are the bytes they were decoded from. -/
theorem fields_inodeAt (b : Bytes) : ∀ f ∈ fields (inodeAt b), f.2 = b.slice f.1 f.2.size := by
  simp only [fields, inodeAt, combine32_low, combine32_high, combine64_low, combine64_high, List.forall_mem_cons,
    le16_u16At, le32_u32At, FixedBytes.ofSlice, size_slice, true_and]
  simp

section
variable {b : Bytes} {inode : Inode} {n k : Nat}

/-- A field that is written back as it was read leaves its bytes. -/
theorem record_kept {f : Nat × Bytes} (member : f ∈ fields inode) (same : f ∈ fields (inodeAt b)) (low : f.1 ≤ k)
    (high : k < f.1 + f.2.size) : (record inode n).byte k = b.byte k := by
  rw [record, byte_patches_mem (apart inode) member _ low high, fields_inodeAt b f same, byte_slice_of_lt _ (by omega)]
  congr 1
  omega
/-- The bytes of no field are zero. -/
theorem record_gap (gap : ¬ Interpreted k) : (record inode n).byte k = 0 := by
  rw [record, byte_patches_gap]
  · rw [byte_patch]
    split <;> simp
  · intro f member
    have listed : span f ∈ fieldSpans := by
      rw [← show _ = fieldSpans from spans inode]
      exact List.mem_map_of_mem member
    rcases Nat.lt_or_ge k f.1 with before | low
    · exact .inl before
    rcases Nat.lt_or_ge k (f.1 + f.2.size) with high | past
    · exact absurd ⟨span f, listed, low, high⟩ gap
    · exact .inr past
end

end Justext4.Slots
