import Justext4.Runs
import Justext4.Allocation

/-!
Images put together from parts: a superblock, a descriptor table and records
at given offsets, zeros in between. When no two parts overlap the image opens,
and every part is read back where it was placed.
-/
namespace Justext4.Images
open Justext4 Justext4.Fallible Justext4.Fields Justext4.Filesystem Justext4.Volumes Bytes
open Justext4.Superblock (Superblock SUPERBLOCK_OFFSET SUPERBLOCK_SIZE)
open Justext4.GroupDescriptor (GroupDescriptor)
open Justext4.Allocation (open_image_ok)
open Justext4.Runs (size_joined slice_joined)
open Justext4.Inode (Inode)

/-- A superblock with these sizes and counts, of a 32-bit image with inodes of 256 bytes. -/
def plain (block_size inodes_count : UInt32) (blocks_count : UInt64)
    (first_data_block blocks_per_group inodes_per_group : UInt32) : Superblock where
  block_size
  inodes_count
  blocks_count
  free_blocks_count := blocks_count
  free_inodes_count := inodes_count
  inode_size := 256
  rev_level := 1
  feature_compat := 0
  feature_incompat := 0x42
  feature_ro_compat := 0
  uuid := .zeros 16
  volume_name := .zeros 16
  desc_size := 0
  first_data_block
  blocks_per_group
  inodes_per_group
  mtime := 0
  wtime := 0
  mount_count := 0
  max_mount_count := 0
  state := 0
  errors := 0
  minor_rev_level := 0
  last_check := 0
  check_interval := 0
  creator_os := 0
  first_ino := 11
  hash_seed := .zeros 16
  def_hash_version := 0

/-- The bytes of a descriptor table. -/
def tableBytes (gds : List GroupDescriptor) : Bytes := joined (gds.map fun gd => GroupDescriptor.image gd (zeros 32))
/-- Where the descriptor table is. -/
def tableOffset (sb : Superblock) : Nat := (sb.first_data_block.toNat + 1) * sb.block_size.toNat

/-- The parts of an image and their offsets. -/
def parts (sb : Superblock) (log : UInt32) (gds : List GroupDescriptor) (others : List (Nat × Bytes)) : List (Nat × Bytes) :=
  (SUPERBLOCK_OFFSET, Superblock.image sb log) :: (tableOffset sb, tableBytes gds) :: others
/-- The image of the parts. -/
def assembled (total : Nat) (sb : Superblock) (log : UInt32) (gds : List GroupDescriptor) (others : List (Nat × Bytes)) :
    Bytes := patches (zeros total) (parts sb log gds others)
/-- Where the parts are and how long they are. -/
def spans (sb : Superblock) (gds : List GroupDescriptor) (others : List (Nat × Bytes)) : List (Nat × Nat) :=
  (1024, 1024) :: (tableOffset sb, gds.length * 32) :: others.map span

/-- The addresses and the counts of the descriptor fit in a 32-byte entry. -/
def Narrow (gd : GroupDescriptor) : Prop :=
  gd.block_bitmap.toNat < 4294967296 ∧ gd.inode_bitmap.toNat < 4294967296 ∧ gd.inode_table.toNat < 4294967296 ∧
    gd.free_blocks_count.toNat < 65536 ∧ gd.free_inodes_count.toNat < 65536 ∧ gd.used_dirs_count.toNat < 65536
instance (gd : GroupDescriptor) : Decidable (Narrow gd) := inferInstanceAs (Decidable (_ ∧ _))

/-- What makes the parts an image that opens. -/
structure Assembles (total : Nat) (sb : Superblock) (log : UInt32) (gds : List GroupDescriptor)
    (others : List (Nat × Bytes)) : Prop where
  wide : Superblock.is_64bit sb = false
  logged : Superblock.logBlockSizeOf sb.block_size = some log
  dynamic : Superblock.REV_DYNAMIC ≤ sb.rev_level
  sized : sb.inode_size ≠ 0
  blocks : sb.blocks_count.toNat < 4294967296
  free : sb.free_blocks_count.toNat < 4294967296
  blockGroup : sb.blocks_per_group ≠ 0
  inodeGroup : sb.inodes_per_group ≠ 0
  groups : (Superblock.group_count sb).toNat = gds.length
  narrow : ∀ gd ∈ gds, Narrow gd
  inside : (spans sb gds others).all (fun s => s.1 + s.2 ≤ total) = true
  apart : (spans sb gds others).Pairwise fun s t => spansApart s t = true

theorem descriptor_back {gd : GroupDescriptor} (narrow : Narrow gd) (buf : Bytes) :
    GroupDescriptor.descriptorAt (GroupDescriptor.image gd buf) = gd := by
  obtain ⟨blocks, inodes, table, freeBlocks, freeInodes, dirs⟩ := narrow
  rw [GroupDescriptor.descriptorAt_image, Nat.mod_eq_of_lt blocks, Nat.mod_eq_of_lt inodes, Nat.mod_eq_of_lt table,
    Nat.mod_eq_of_lt freeBlocks, Nat.mod_eq_of_lt freeInodes, Nat.mod_eq_of_lt dirs]
  simp

section
variable {total : Nat} {sb : Superblock} {log : UInt32} {gds : List GroupDescriptor} {others : List (Nat × Bytes)}

theorem sized_table : ∀ b ∈ gds.map (fun gd => GroupDescriptor.image gd (zeros 32)), b.size = 32 := by
  intro b member
  obtain ⟨gd, -, rfl⟩ := List.mem_map.mp member
  exact GroupDescriptor.size_image gd (size_zeros 32)
theorem size_tableBytes : (tableBytes gds).size = gds.length * 32 := by
  rw [tableBytes, size_joined sized_table, List.length_map]
theorem span_parts : (parts sb log gds others).map span = spans sb gds others := by
  simp only [parts, spans, List.map_cons, span, Superblock.size_image, size_tableBytes, SUPERBLOCK_OFFSET]

theorem size_assembled (assembles : Assembles total sb log gds others) : (assembled total sb log gds others).size = total := by
  rw [assembled, size_patches (within_of_spans span_parts assembles.inside) _ (Nat.le_of_eq (size_zeros total).symm), size_zeros]

/-- A part reads back from where it was placed. -/
theorem slice_part (assembles : Assembles total sb log gds others) {offset : Nat} {src : Bytes}
    (member : (offset, src) ∈ parts sb log gds others) :
    (assembled total sb log gds others).slice offset src.size = src :=
  slice_patches_mem (apart_of_spans span_parts assembles.apart) member _
theorem part_inside (assembles : Assembles total sb log gds others) {offset : Nat} {src : Bytes}
    (member : (offset, src) ∈ parts sb log gds others) : offset + src.size ≤ total :=
  within_of_spans span_parts assembles.inside _ member
theorem read_part (assembles : Assembles total sb log gds others) {offset n : Nat} {src : Bytes} (size : src.size = n)
    (member : (offset, src) ∈ others) : read_at (assembled total sb log gds others) offset n = .ok src := by
  have placed : (offset, src) ∈ parts sb log gds others := List.mem_cons_of_mem _ (List.mem_cons_of_mem _ member)
  rw [← size, read_at_ok (by rw [size_assembled assembles]; exact part_inside assembles placed), slice_part assembles placed]

/-- The parts open to the records that they are. -/
theorem open_assembled (assembles : Assembles total sb log gds others) :
    open_image (assembled total sb log gds others) = .ok ⟨assembled total sb log gds others, sb, gds⟩ := by
  have size := size_assembled assembles
  have first : (SUPERBLOCK_OFFSET, Superblock.image sb log) ∈ parts sb log gds others := List.mem_cons_self ..
  have second : (tableOffset sb, tableBytes gds) ∈ parts sb log gds others :=
    List.mem_cons_of_mem _ (List.mem_cons_self ..)
  have record := slice_part assembles first
  have table := slice_part assembles second
  have after := part_inside assembles first
  have after' := part_inside assembles second
  rw [Superblock.size_image] at record after
  rw [size_tableBytes] at table after'
  rw [SUPERBLOCK_OFFSET] at after
  have decoded : Superblock.decode ((assembled total sb log gds others).slice SUPERBLOCK_OFFSET SUPERBLOCK_SIZE) =
      .ok sb := by
    rw [SUPERBLOCK_SIZE, record]
    exact Superblock.decode_image assembles.wide assembles.logged assembles.dynamic assembles.sized assembles.blocks
      assembles.free
  have entries : (List.range' 0 gds.length).map (fun i => GroupDescriptor.descriptorAt
      ((assembled total sb log gds others).slice (tableOffset sb + i * 32) 32)) = gds := by
    apply List.ext_getElem (by simp)
    intro i short inside
    have low : i < gds.length := inside
    have entry : (gds.map fun gd => GroupDescriptor.image gd (zeros 32))[i]? =
        some (GroupDescriptor.image gds[i] (zeros 32)) := by
      rw [List.getElem?_map, List.getElem?_eq_getElem low, Option.map_some]
    rw [List.getElem_map, List.getElem_range', Nat.zero_add, Nat.one_mul, ← slice_slice (n := gds.length * 32) _ (by omega),
      table, tableBytes, slice_joined sized_table entry]
    exact descriptor_back (assembles.narrow _ (List.getElem_mem low)) _
  have groups := assembles.groups
  rw [open_image_ok _ (by omega) decoded assembles.blockGroup assembles.inodeGroup assembles.wide
    (by rw [groups]; rw [tableOffset] at after'; omega), groups]
  exact congrArg (fun gdt => Except.ok (Filesystem.mk _ sb gdt)) entries

/-- An inode placed as a record is read from its slot. -/
theorem read_inode_part (assembles : Assembles total sb log gds others) (size : sb.inode_size.toNat = 256)
    {n : UInt32} {gd : GroupDescriptor} {inode : Inode} (low : n ≠ 0) (high : n ≤ sb.inodes_count)
    (group : gds[(n.toNat - 1) / sb.inodes_per_group.toNat]? = some gd)
    (member : (gd.inode_table.toNat * sb.block_size.toNat + (n.toNat - 1) % sb.inodes_per_group.toNat * 256,
      Inode.record inode 256) ∈ others) (small : total < 18446744073709551616) :
    read_inode ⟨assembled total sb log gds others, sb, gds⟩ n = .ok inode := by
  have sized : (Inode.record inode 256).size = 256 := Inode.size_record inode (by decide)
  have placed : (_, Inode.record inode 256) ∈ parts sb log gds others := List.mem_cons_of_mem _ (List.mem_cons_of_mem _ member)
  have inside := part_inside assembles placed
  have listed : (n.toNat - 1) / sb.inodes_per_group.toNat < gds.length := (List.getElem?_eq_some_iff.mp group).1
  have offset : inode_offset ⟨assembled total sb log gds others, sb, gds⟩ n =
      .ok (gd.inode_table.toNat * sb.block_size.toNat + (n.toNat - 1) % sb.inodes_per_group.toNat * 256) := by
    rw [inode_offset, gdt_at]
    simp only [group, assembles.inodeGroup, ne_eq, not_false_eq_true, decide_true, orPanic_true, res_bind_ok, size]
    rw [in_u64_ok (by omega), res_bind_ok, in_u64_ok (by omega)]
  rw [read_inode, ensure_of ⟨low, high⟩, res_bind_ok]
  simp only [assembles.inodeGroup, ne_eq, not_false_eq_true, decide_true, orPanic_true, res_bind_ok, listed, ensure_true]
  rw [offset, res_bind_ok, size, read_part assembles sized member, res_bind_ok,
    Inode.decode_ok (by omega) (Nat.le_of_eq (by rw [size, sized])), liftErr_ok, Inode.inodeAt_record]
end

end Justext4.Images
