import Justext4.Superblock

/-!
The group descriptor: where the bitmaps and the inode table of a group of
blocks live, and how much of the group is free. An entry is 32 bytes, or 64
with the high halves of every field.
-/
namespace Justext4.GroupDescriptor
open Justext4 Justext4.Fallible Justext4.Fields Bytes
open Justext4.Superblock (Superblock is_64bit group_descriptor_size GDT_ENTRY_SIZE_32)

def OFF_BLOCK_BITMAP_LO : Nat := 0x00
def OFF_INODE_BITMAP_LO : Nat := 0x04
def OFF_INODE_TABLE_LO : Nat := 0x08
def OFF_FREE_BLOCKS_COUNT_LO : Nat := 0x0C
def OFF_FREE_INODES_COUNT_LO : Nat := 0x0E
def OFF_USED_DIRS_COUNT_LO : Nat := 0x10
def OFF_FLAGS : Nat := 0x12
def OFF_CHECKSUM : Nat := 0x1E
def OFF_BLOCK_BITMAP_HI : Nat := 0x20
def OFF_INODE_BITMAP_HI : Nat := 0x24
def OFF_INODE_TABLE_HI : Nat := 0x28
def OFF_FREE_BLOCKS_COUNT_HI : Nat := 0x2C
def OFF_FREE_INODES_COUNT_HI : Nat := 0x2E
def OFF_USED_DIRS_COUNT_HI : Nat := 0x30

inductive GroupDescriptorDecodeError where
  | EntrySizeTooSmall (size : UInt16)
  | InputTooSmall (actual expected : Nat)
  deriving DecidableEq

inductive GroupDescriptorEncodeError where
  | EntrySizeTooSmall (size : UInt16)
  | OutputTooSmall (actual expected : Nat)
  deriving DecidableEq

structure GroupDescriptor where
  block_bitmap : UInt64
  inode_bitmap : UInt64
  inode_table : UInt64
  free_blocks_count : UInt32
  free_inodes_count : UInt32
  used_dirs_count : UInt32
  flags : UInt16
  checksum : UInt16
  deriving DecidableEq

/-- `(hi << 32) | lo`. -/
def combine_addr (hi lo : UInt32) : UInt64 := .ofNat (hi.toNat * 4294967296 + lo.toNat)
/-- `(hi << 16) | lo`. -/
def combine_count (hi lo : UInt16) : UInt32 := .ofNat (hi.toNat * 65536 + lo.toNat)

/-- A high half, zero in an entry too short to hold one. -/
def highWord (buf : Bytes) (entry_size offset : Nat) : Res GroupDescriptorDecodeError UInt32 :=
  if 64 ≤ entry_size then read_u32 buf offset else .ok 0
def highCount (buf : Bytes) (entry_size offset : Nat) : Res GroupDescriptorDecodeError UInt16 :=
  if 64 ≤ entry_size then read_u16 buf offset else .ok 0

def decode (buf : Bytes) (sb : Superblock) : Res GroupDescriptorDecodeError GroupDescriptor := do
  let entry_size := (group_descriptor_size sb).toNat
  ensure (32 ≤ entry_size) (.EntrySizeTooSmall (.ofNat entry_size))
  ensure (entry_size ≤ buf.size) (.InputTooSmall buf.size entry_size)
  let block_bitmap_lo ← read_u32 buf OFF_BLOCK_BITMAP_LO
  let inode_bitmap_lo ← read_u32 buf OFF_INODE_BITMAP_LO
  let inode_table_lo ← read_u32 buf OFF_INODE_TABLE_LO
  let free_blocks_lo ← read_u16 buf OFF_FREE_BLOCKS_COUNT_LO
  let free_inodes_lo ← read_u16 buf OFF_FREE_INODES_COUNT_LO
  let used_dirs_lo ← read_u16 buf OFF_USED_DIRS_COUNT_LO
  let flags ← read_u16 buf OFF_FLAGS
  let checksum ← read_u16 buf OFF_CHECKSUM
  let block_bitmap_hi ← highWord buf entry_size OFF_BLOCK_BITMAP_HI
  let inode_bitmap_hi ← highWord buf entry_size OFF_INODE_BITMAP_HI
  let inode_table_hi ← highWord buf entry_size OFF_INODE_TABLE_HI
  let free_blocks_hi ← highCount buf entry_size OFF_FREE_BLOCKS_COUNT_HI
  let free_inodes_hi ← highCount buf entry_size OFF_FREE_INODES_COUNT_HI
  let used_dirs_hi ← highCount buf entry_size OFF_USED_DIRS_COUNT_HI
  .ok {
    block_bitmap := combine_addr block_bitmap_hi block_bitmap_lo
    inode_bitmap := combine_addr inode_bitmap_hi inode_bitmap_lo
    inode_table := combine_addr inode_table_hi inode_table_lo
    free_blocks_count := combine_count free_blocks_hi free_blocks_lo
    free_inodes_count := combine_count free_inodes_hi free_inodes_lo
    used_dirs_count := combine_count used_dirs_hi used_dirs_lo
    flags
    checksum }

/-- The low halves in the order in which they are written. -/
def fields (self : GroupDescriptor) : List (Nat × Bytes) :=
  [(OFF_BLOCK_BITMAP_LO, le32 (.ofNat self.block_bitmap.toNat)),
    (OFF_INODE_BITMAP_LO, le32 (.ofNat self.inode_bitmap.toNat)),
    (OFF_INODE_TABLE_LO, le32 (.ofNat self.inode_table.toNat)),
    (OFF_FREE_BLOCKS_COUNT_LO, le16 (.ofNat self.free_blocks_count.toNat)),
    (OFF_FREE_INODES_COUNT_LO, le16 (.ofNat self.free_inodes_count.toNat)),
    (OFF_USED_DIRS_COUNT_LO, le16 (.ofNat self.used_dirs_count.toNat)),
    (OFF_FLAGS, le16 self.flags),
    (OFF_CHECKSUM, le16 self.checksum)]
/-- The high halves of a 64-byte entry. -/
def highFields (self : GroupDescriptor) : List (Nat × Bytes) :=
  [(OFF_BLOCK_BITMAP_HI, le32 (.ofNat (self.block_bitmap.toNat / 4294967296))),
    (OFF_INODE_BITMAP_HI, le32 (.ofNat (self.inode_bitmap.toNat / 4294967296))),
    (OFF_INODE_TABLE_HI, le32 (.ofNat (self.inode_table.toNat / 4294967296))),
    (OFF_FREE_BLOCKS_COUNT_HI, le16 (.ofNat (self.free_blocks_count.toNat / 65536))),
    (OFF_FREE_INODES_COUNT_HI, le16 (.ofNat (self.free_inodes_count.toNat / 65536))),
    (OFF_USED_DIRS_COUNT_HI, le16 (.ofNat (self.used_dirs_count.toNat / 65536)))]

def encode_into (self : GroupDescriptor) (buf : Bytes) (sb : Superblock) : Res GroupDescriptorEncodeError Bytes := do
  let entry_size := (group_descriptor_size sb).toNat
  ensure (32 ≤ entry_size) (.EntrySizeTooSmall (.ofNat entry_size))
  ensure (entry_size ≤ buf.size) (.OutputTooSmall buf.size entry_size)
  let buf ← buf.copy 0 (zeros entry_size)
  let buf ← writeAll buf (fields self)
  if 64 ≤ entry_size then writeAll buf (highFields self) else .ok buf

/-! ### Entries of 32-bit images -/

/-- The descriptor that a 32-byte entry holds. -/
def descriptorAt (buf : Bytes) : GroupDescriptor where
  block_bitmap := .ofNat (buf.u32At OFF_BLOCK_BITMAP_LO).toNat
  inode_bitmap := .ofNat (buf.u32At OFF_INODE_BITMAP_LO).toNat
  inode_table := .ofNat (buf.u32At OFF_INODE_TABLE_LO).toNat
  free_blocks_count := .ofNat (buf.u16At OFF_FREE_BLOCKS_COUNT_LO).toNat
  free_inodes_count := .ofNat (buf.u16At OFF_FREE_INODES_COUNT_LO).toNat
  used_dirs_count := .ofNat (buf.u16At OFF_USED_DIRS_COUNT_LO).toNat
  flags := buf.u16At OFF_FLAGS
  checksum := buf.u16At OFF_CHECKSUM

theorem size_narrow {sb : Superblock} (narrow : is_64bit sb = false) : (group_descriptor_size sb).toNat = 32 := by
  simp [group_descriptor_size, narrow, GDT_ENTRY_SIZE_32]

theorem decode_ok {buf : Bytes} {sb : Superblock} (narrow : is_64bit sb = false) (size : 32 ≤ buf.size) :
    decode buf sb = .ok (descriptorAt buf) := by
  have short : ∀ off, off + 2 ≤ 32 → (read_u16 buf off : Res GroupDescriptorDecodeError _) = .ok (buf.u16At off) :=
    fun off le => read_u16_ok (by omega)
  have long : ∀ off, off + 4 ≤ 32 → (read_u32 buf off : Res GroupDescriptorDecodeError _) = .ok (buf.u32At off) :=
    fun off le => read_u32_ok (by omega)
  rw [decode]
  simp only [size_narrow narrow, size, Nat.le_refl, decide_true, ensure_true, res_bind_ok,
    long _ (show OFF_BLOCK_BITMAP_LO + 4 ≤ 32 by decide), long _ (show OFF_INODE_BITMAP_LO + 4 ≤ 32 by decide),
    long _ (show OFF_INODE_TABLE_LO + 4 ≤ 32 by decide), short _ (show OFF_FREE_BLOCKS_COUNT_LO + 2 ≤ 32 by decide),
    short _ (show OFF_FREE_INODES_COUNT_LO + 2 ≤ 32 by decide), short _ (show OFF_USED_DIRS_COUNT_LO + 2 ≤ 32 by decide),
    short _ (show OFF_FLAGS + 2 ≤ 32 by decide), short _ (show OFF_CHECKSUM + 2 ≤ 32 by decide), highWord, highCount,
    show ¬ 64 ≤ 32 by decide, ↓reduceIte, descriptorAt, combine_addr, combine_count]
  simp

theorem spans (self : GroupDescriptor) :
    (fields self).map span = [(0, 4), (4, 4), (8, 4), (12, 2), (14, 2), (16, 2), (18, 2), (30, 2)] := rfl
theorem within (self : GroupDescriptor) : Within 32 (fields self) := within_of_spans (spans self) (by decide)
theorem apart (self : GroupDescriptor) : (fields self).Pairwise Apart := apart_of_spans (spans self) (by decide)

/-- The entry that is written over the 32 bytes of `buf`. -/
def image (self : GroupDescriptor) (buf : Bytes) : Bytes := patches (buf.patch 0 (zeros 32)) (fields self)

theorem size_image (self : GroupDescriptor) {buf : Bytes} (size : buf.size = 32) : (image self buf).size = 32 := by
  have cleared : (buf.patch 0 (zeros 32)).size = 32 := by rw [size_patch _ _ _ (by simp [size]), size]
  rw [image, size_patches (within self) _ (by omega), cleared]

theorem encode_ok (self : GroupDescriptor) {buf : Bytes} {sb : Superblock} (narrow : is_64bit sb = false)
    (size : buf.size = 32) : encode_into self buf sb = .ok (image self buf) := by
  have cleared : (buf.patch 0 (zeros 32)).size = 32 := by rw [size_patch _ _ _ (by simp [size]), size]
  simp only [encode_into, size_narrow narrow, size, Nat.le_refl, decide_true, ensure_true, res_bind_ok,
    copy_ok (show 0 + (zeros 32).size ≤ buf.size by simp [size]),
    writeAll_ok (within self) _ (show 32 ≤ (buf.patch 0 (zeros 32)).size by omega), show ¬ 64 ≤ 32 by decide,
    ↓reduceIte, image]

/-- A 32-byte entry reads back with the addresses cut to 32 bits and the counts to 16. -/
theorem descriptorAt_image (self : GroupDescriptor) (buf : Bytes) :
    descriptorAt (image self buf) =
      { self with
        block_bitmap := .ofNat (self.block_bitmap.toNat % 4294967296)
        inode_bitmap := .ofNat (self.inode_bitmap.toNat % 4294967296)
        inode_table := .ofNat (self.inode_table.toNat % 4294967296)
        free_blocks_count := .ofNat (self.free_blocks_count.toNat % 65536)
        free_inodes_count := .ofNat (self.free_inodes_count.toNat % 65536)
        used_dirs_count := .ofNat (self.used_dirs_count.toNat % 65536) } := by
  have disjoint := apart self
  have long : ∀ {offset : Nat} (value : UInt32), (offset, le32 value) ∈ fields self →
      (image self buf).u32At offset = value := fun _ member => u32At_patches disjoint _ _ member _
  have short : ∀ {offset : Nat} (value : UInt16), (offset, le16 value) ∈ fields self →
      (image self buf).u16At offset = value := fun _ member => u16At_patches disjoint _ _ member _
  rw [descriptorAt, long (.ofNat self.block_bitmap.toNat) (by simp [fields]),
    long (.ofNat self.inode_bitmap.toNat) (by simp [fields]),
    long (.ofNat self.inode_table.toNat) (by simp [fields]),
    short (.ofNat self.free_blocks_count.toNat) (by simp [fields]),
    short (.ofNat self.free_inodes_count.toNat) (by simp [fields]),
    short (.ofNat self.used_dirs_count.toNat) (by simp [fields]),
    short self.flags (by simp [fields]), short self.checksum (by simp [fields])]
  simp only [UInt32.toNat_ofNat', UInt16.toNat_ofNat', Nat.reducePow]

end Justext4.GroupDescriptor
