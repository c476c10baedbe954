import Justext4.ReadSafety
import Justext4.Survey

/-!
The inode tables of all the groups. A number leads to a group and a place in
its table, two numbers to slots without a common byte, so that an inode that is
written reads back and every other one is as it was.
-/
namespace Justext4.SlotTables
open Justext4 Justext4.Fallible Justext4.Fields Justext4.Filesystem Bytes
open Justext4.Decoders (opened_of)
open Justext4.ReadSafety (SlotAt inode_offset_slot)
open Justext4.GroupDescriptor (GroupDescriptor)
open Justext4.Inode
open Justext4.Slots

/-- The first byte of the table of a group. -/
def tableStart (fs : Filesystem) (gd : GroupDescriptor) : Nat := gd.inode_table.toNat * fs.superblock.block_size.toNat
/-- The number of bytes of a table. -/
def tableSize (fs : Filesystem) : Nat := fs.superblock.inodes_per_group.toNat * fs.superblock.inode_size.toNat

/-- The tables have a slot for every inode, lie in the image and share no byte. -/
structure Tables (fs : Filesystem) : Prop where
  sized : 128 ≤ fs.superblock.inode_size.toNat
  enough : fs.superblock.inodes_count.toNat ≤ fs.gdt.length * fs.superblock.inodes_per_group.toNat
  inside : ∀ (i : Nat) gd, fs.gdt[i]? = some gd → tableStart fs gd + tableSize fs ≤ fs.reader.size
  apart : ∀ (i j : Nat) gd gd', i ≠ j → fs.gdt[i]? = some gd → fs.gdt[j]? = some gd' →
    tableStart fs gd + tableSize fs ≤ tableStart fs gd' ∨ tableStart fs gd' + tableSize fs ≤ tableStart fs gd

/-! ### Places in a table -/

/-- A place of a table ends within it. -/
theorem place_inside {i count : Nat} (width : Nat) (small : i < count) : i * width + width ≤ count * width := by
  rw [← Nat.succ_mul]
  exact Nat.mul_le_mul_right width small
/-- Two places of a table share no byte. -/
theorem places_apart {i j : Nat} (width : Nat) (other : i ≠ j) :
    i * width + width ≤ j * width ∨ j * width + width ≤ i * width := by
  rcases Nat.lt_or_gt_of_ne other with less | more
  · exact .inl (place_inside width less)
  · exact .inr (place_inside width more)
/-- Numbers of one group have different places. -/
theorem remainders_differ {a b count : Nat} (other : a ≠ b) (group : a / count = b / count) : a % count ≠ b % count := by
  intro same
  have left := Nat.div_add_mod a count
  have right := Nat.div_add_mod b count
  rw [group, same] at left
  exact other (left.symm.trans right)

section
variable {image : Bytes} {fs : Filesystem} {n m : UInt32} {offset offset' : Nat}

theorem positive_of_opened (opened : open_image image = .ok fs) : 0 < fs.superblock.inodes_per_group.toNat :=
  Nat.pos_of_ne_zero fun zero => (opened_of opened).inodeGroup (UInt32.toNat_inj.mp zero)

/-- Every number in range has its slot in the image. -/
theorem slot_in_table (opened : open_image image = .ok fs) (memory : image.size < 18446744073709551616)
    (tables : Tables fs) (number : n ≠ 0 ∧ n ≤ fs.superblock.inodes_count) :
    ∃ offset, InSlot fs n offset ∧ SlotAt fs n offset := by
  have facts := opened_of opened
  have positive := positive_of_opened opened
  have listed : (n.toNat - 1) / fs.superblock.inodes_per_group.toNat < fs.gdt.length := by
    rw [Nat.div_lt_iff_lt_mul positive]
    have some : n.toNat ≠ 0 := fun zero => number.1 (UInt32.toNat_inj.mp zero)
    have few : n.toNat ≤ fs.superblock.inodes_count.toNat := number.2
    have enough := tables.enough
    omega
  obtain ⟨gd, found⟩ : ∃ gd, fs.gdt[(n.toNat - 1) / fs.superblock.inodes_per_group.toNat]? = some gd :=
    ⟨_, List.getElem?_eq_getElem listed⟩
  have slot : SlotAt fs n (tableStart fs gd +
      (n.toNat - 1) % fs.superblock.inodes_per_group.toNat * fs.superblock.inode_size.toNat) :=
    ⟨number.1, number.2, gd, found, rfl⟩
  have inside := tables.inside _ gd found
  have place := place_inside fs.superblock.inode_size.toNat (Nat.mod_lt (n.toNat - 1) positive)
  have sized := tables.sized
  have offset := inode_offset_slot facts slot
  rw [tableSize] at inside
  rw [← facts.reader] at memory
  rw [if_pos (by omega)] at offset
  exact ⟨_, ⟨number, facts.inodeGroup, listed, offset, by omega, sized⟩, slot⟩

/-- The slots of two numbers share no byte. -/
theorem slots_apart (opened : open_image image = .ok fs) (tables : Tables fs) (other : m ≠ n) (here : SlotAt fs n offset)
    (there : SlotAt fs m offset') : offset + fs.superblock.inode_size.toNat ≤ offset' ∨
      offset' + fs.superblock.inode_size.toNat ≤ offset := by
  obtain ⟨some, -, gd, found, rfl⟩ := here
  obtain ⟨some', -, gd', found', rfl⟩ := there
  have positive := positive_of_opened opened
  have distinct : n.toNat - 1 ≠ m.toNat - 1 := by
    have first : n.toNat ≠ 0 := fun zero => some (UInt32.toNat_inj.mp zero)
    have second : m.toNat ≠ 0 := fun zero => some' (UInt32.toNat_inj.mp zero)
    have numbers : n.toNat ≠ m.toNat := fun same => other (UInt32.toNat_inj.mp same.symm)
    omega
  by_cases group : (n.toNat - 1) / fs.superblock.inodes_per_group.toNat = (m.toNat - 1) / fs.superblock.inodes_per_group.toNat
  · -- In one group the places in the table differ.
    rw [← group, found] at found'
    cases found'
    have places := places_apart fs.superblock.inode_size.toNat (remainders_differ distinct group)
    omega
  · -- In two groups the tables are apart.
    have first := place_inside fs.superblock.inode_size.toNat (Nat.mod_lt (n.toNat - 1) positive)
    have second := place_inside fs.superblock.inode_size.toNat (Nat.mod_lt (m.toNat - 1) positive)
    have tables := tables.apart _ _ gd gd' group found found'
    simp only [tableStart, tableSize] at tables
    omega

/-- A slot stays where it is when a slot is written. -/
theorem slot_stays (slot : InSlot fs n offset) (slot' : InSlot fs m offset') (inode : Inode) :
    InSlot (withSlot fs offset inode) m offset' := by
  obtain ⟨number, counted, listed, found, inside, sized⟩ := slot'
  have found' : inode_offset (withSlot fs offset inode) m = .ok offset' := by
    rw [← found, inode_offset, inode_offset, gdt_at, gdt_at, withSlot_superblock, withSlot_gdt]
  refine ⟨?_, ?_, ?_, found', ?_, ?_⟩
  · rwa [withSlot_superblock]
  · rwa [withSlot_superblock]
  · rwa [withSlot_superblock, withSlot_gdt]
  · rwa [withSlot_superblock, size_withSlot slot]
  · rwa [withSlot_superblock]
/-- Another slot is read as before. -/
theorem read_other (slot : InSlot fs n offset) (slot' : InSlot fs m offset') (inode : Inode)
    (apart : offset + fs.superblock.inode_size.toNat ≤ offset' ∨ offset' + fs.superblock.inode_size.toNat ≤ offset) :
    read_inode (withSlot fs offset inode) m = read_inode fs m := by
  have same : slotBytes (withSlot fs offset inode) offset' = slotBytes fs offset' := by
    rw [slotBytes, slotBytes, withSlot_superblock]
    apply ext_inside (by rw [size_slice, size_slice])
    intro k inside
    rw [size_slice] at inside
    rw [byte_slice_of_lt _ inside, byte_slice_of_lt _ inside]
    exact byte_outside_slot slot inode (by omega)
  rw [read_inode_eq (slot_stays slot slot' inode), read_inode_eq slot', same]

/-- Each number has its own slot: what is written to it is read from it and
    from no other, and a number that is out of range is refused. -/
theorem slots_independent (opened : open_image image = .ok fs) (memory : image.size < 18446744073709551616)
    (tables : Tables fs) :
    (∀ n : UInt32, n ≠ 0 → n ≤ fs.superblock.inodes_count → ∀ inode, ∃ offset fs', SlotAt fs n offset ∧
      (write_inode n inode).run fs = .ok () fs' ∧ read_inode fs' n = .ok inode ∧
      (∀ m, m ≠ n → read_inode fs' m = read_inode fs m) ∧
      fs'.superblock = fs.superblock ∧ fs'.gdt = fs.gdt ∧ fs'.reader.size = fs.reader.size ∧
      ∀ i, i < offset ∨ offset + fs.superblock.inode_size.toNat ≤ i → fs'.reader.byte i = fs.reader.byte i) ∧
    ∀ n : UInt32, n = 0 ∨ fs.superblock.inodes_count < n →
      read_inode fs n = .error (.err (.InodeOutOfRange n fs.superblock.inodes_count)) ∧
      ∀ inode, (write_inode n inode).run fs = .err (.InodeOutOfRange n fs.superblock.inodes_count) fs := by
  constructor
  · intro n some few inode
    obtain ⟨offset, slot, place⟩ := slot_in_table opened memory tables ⟨some, few⟩
    refine ⟨offset, withSlot fs offset inode, place, write_inode_run slot inode, ?_, fun m other => ?_,
      withSlot_superblock .., withSlot_gdt .., size_withSlot slot inode,      fun i outside => byte_outside_slot slot inode outside⟩
    · rw [read_inode_eq (slot_stays slot slot inode), slot_withSlot slot, inodeAt_record]
    · by_cases number : m ≠ 0 ∧ m ≤ fs.superblock.inodes_count
      · obtain ⟨offset', slot', place'⟩ := slot_in_table opened memory tables number
        exact read_other slot slot' inode (slots_apart opened tables other place place')
      · rw [read_inode, read_inode, withSlot_superblock, ensure_not number, res_bind_error, res_bind_error]
  · intro n outside
    have refused : ¬ (n ≠ 0 ∧ n ≤ fs.superblock.inodes_count) := by
      rintro ⟨some, few⟩
      rcases outside with zero | large
      · exact some zero
      · exact absurd (UInt32.lt_of_lt_of_le large few) (UInt32.lt_irrefl _)
    refine ⟨?_, fun inode => ?_⟩
    · rw [read_inode, ensure_not refused, res_bind_error]
    · simp only [write_inode, run_bind, run_reads, ensure_not refused, ofRes_err, andThen_err]
end

/-! ### An image of two groups -/

def twinSuperblock : Superblock.Superblock := Images.plain 2048 32 16 0 8 16
/-- The descriptors of groups whose tables start at the blocks 2 and 10. -/
def twinGroups : List GroupDescriptor := [⟨6, 7, 2, 0, 0, 0, 0, 0⟩, ⟨14, 15, 10, 0, 0, 0, 0, 0⟩]
def twinState : Filesystem := ⟨Images.assembled 32768 twinSuperblock 1 twinGroups [], twinSuperblock, twinGroups⟩

theorem twin_opens : open_image twinState.reader = .ok twinState := by
  have assembles : Images.Assembles 32768 twinSuperblock 1 twinGroups [] := by decide +kernel
  unfold twinState
  dsimp only
  exact Images.open_assembled assembles
theorem twin_tables : Tables twinState where
  sized := by decide
  enough := by decide
  inside := by
    intro i gd found
    match i, found with
    | 0, found => cases found; decide +kernel
    | 1, found => cases found; decide +kernel
  apart := by
    intro i j gd gd' other found found'
    match i, j, found, found' with
    | 0, 0, _, _ => exact absurd rfl other
    | 0, 1, found, found' => cases found; cases found'; decide +kernel
    | 1, 0, found, found' => cases found; cases found'; decide +kernel
    | 1, 1, _, _ => exact absurd rfl other

/-- The first inode of the second group is written and read back. -/
theorem twin_independent : ∃ offset fs', SlotAt twinState 17 offset ∧
    (write_inode 17 (Survey.leafInode 0x81A4 1 0 [])).run twinState = .ok () fs' ∧
    read_inode fs' 17 = .ok (Survey.leafInode 0x81A4 1 0 []) ∧ read_inode fs' 1 = read_inode twinState 1 := by
  obtain ⟨offset, fs', slot, ran, read, others, -⟩ :=
    (slots_independent twin_opens (by decide +kernel) twin_tables).1 17 (by decide) (by decide)
      (Survey.leafInode 0x81A4 1 0 [])
  exact ⟨offset, fs', slot, ran, read, others 1 (by decide)⟩

end Justext4.SlotTables
