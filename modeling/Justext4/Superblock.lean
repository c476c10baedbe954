import Justext4.Fields

/-!
The superblock, the 1024 bytes at byte 1024 of an image: the block size, the
counts, the sizes of a group and the fields that other tools inspect.
-/
namespace Justext4.Superblock
open Justext4 Justext4.Fallible Justext4.Fields Bytes

def SUPERBLOCK_OFFSET : Nat := 1024
def SUPERBLOCK_SIZE : Nat := 1024
def EXT4_MAGIC : UInt16 := 0xEF53
def REV_DYNAMIC : UInt32 := 1
def DEFAULT_INODE_SIZE : UInt16 := 128
def FEATURE_INCOMPAT_64BIT : UInt32 := 0x80
def GDT_ENTRY_SIZE_32 : UInt16 := 32
def EXT4_VALID_FS : UInt16 := 0x0001
def EXT4_ERRORS_CONTINUE : UInt16 := 1
def EXT4_OS_LINUX : UInt32 := 0
def FEATURE_INCOMPAT_FILETYPE : UInt32 := 0x0002
def FEATURE_INCOMPAT_EXTENTS : UInt32 := 0x0040
def FEATURE_RO_COMPAT_SPARSE_SUPER : UInt32 := 0x0001
def EXT4_HASH_HALF_MD4 : UInt8 := 1

def OFF_INODES_COUNT : Nat := 0x00
def OFF_BLOCKS_COUNT_LO : Nat := 0x04
def OFF_FREE_BLOCKS_COUNT_LO : Nat := 0x0C
def OFF_FREE_INODES_COUNT : Nat := 0x10
def OFF_FIRST_DATA_BLOCK : Nat := 0x14
def OFF_LOG_BLOCK_SIZE : Nat := 0x18
def OFF_LOG_CLUSTER_SIZE : Nat := 0x1C
def OFF_BLOCKS_PER_GROUP : Nat := 0x20
def OFF_CLUSTERS_PER_GROUP : Nat := 0x24
def OFF_INODES_PER_GROUP : Nat := 0x28
def OFF_MTIME : Nat := 0x2C
def OFF_WTIME : Nat := 0x30
def OFF_MNT_COUNT : Nat := 0x34
def OFF_MAX_MNT_COUNT : Nat := 0x36
def OFF_MAGIC : Nat := 0x38
def OFF_STATE : Nat := 0x3A
def OFF_ERRORS : Nat := 0x3C
def OFF_MINOR_REV_LEVEL : Nat := 0x3E
def OFF_LASTCHECK : Nat := 0x40
def OFF_CHECKINTERVAL : Nat := 0x44
def OFF_CREATOR_OS : Nat := 0x48
def OFF_REV_LEVEL : Nat := 0x4C
def OFF_FIRST_INO : Nat := 0x54
def OFF_INODE_SIZE : Nat := 0x58
def OFF_FEATURE_COMPAT : Nat := 0x5C
def OFF_FEATURE_INCOMPAT : Nat := 0x60
def OFF_FEATURE_RO_COMPAT : Nat := 0x64
def OFF_UUID : Nat := 0x68
def OFF_VOLUME_NAME : Nat := 0x78
def OFF_HASH_SEED : Nat := 0xEC
def OFF_DEF_HASH_VERSION : Nat := 0xFC
def OFF_DESC_SIZE : Nat := 0xFE
def OFF_BLOCKS_COUNT_HI : Nat := 0x150
def OFF_FREE_BLOCKS_COUNT_HI : Nat := 0x158

inductive SuperblockDecodeError where
  | InputTooSmall (actual : Nat)
  | BadMagic (found : UInt16)
  | InvalidBlockSize (log_block_size : UInt32)
  deriving DecidableEq

inductive SuperblockEncodeError where
  | OutputTooSmall (actual : Nat)
  | InvalidBlockSize (block_size : UInt32)
  deriving DecidableEq

structure Superblock where
  block_size : UInt32
  inodes_count : UInt32
  blocks_count : UInt64
  free_blocks_count : UInt64
  free_inodes_count : UInt32
  inode_size : UInt16
  rev_level : UInt32
  feature_compat : UInt32
  feature_incompat : UInt32
  feature_ro_compat : UInt32
  uuid : FixedBytes 16
  volume_name : FixedBytes 16
  desc_size : UInt16
  first_data_block : UInt32
  blocks_per_group : UInt32
  inodes_per_group : UInt32
  mtime : UInt32
  wtime : UInt32
  mount_count : UInt16
  max_mount_count : UInt16
  state : UInt16
  errors : UInt16
  minor_rev_level : UInt16
  last_check : UInt32
  check_interval : UInt32
  creator_os : UInt32
  first_ino : UInt32
  hash_seed : FixedBytes 16
  def_hash_version : UInt8
  deriving DecidableEq

/-- `(hi << 32) | lo` when the 64-bit feature is set, and `lo` otherwise. -/
def combine_hi_lo (hi lo : UInt32) (is_64bit : Bool) : UInt64 :=
  if is_64bit then .ofNat (hi.toNat * 4294967296 + lo.toNat) else .ofNat lo.toNat

/-- `1024 << log_block_size` for the four sizes that the kernel accepts. -/
def blockSizeOf (log_block_size : UInt32) : Option UInt32 :=
  if log_block_size = 0 then some 1024
  else if log_block_size = 1 then some 2048
  else if log_block_size = 2 then some 4096
  else if log_block_size = 6 then some 65536
  else none
/-- The other way around. -/
def logBlockSizeOf (block_size : UInt32) : Option UInt32 :=
  if block_size = 1024 then some 0
  else if block_size = 2048 then some 1
  else if block_size = 4096 then some 2
  else if block_size = 65536 then some 6
  else none

def decode (buf : Bytes) : Res SuperblockDecodeError Superblock := do
  ensure (SUPERBLOCK_SIZE ≤ buf.size) (.InputTooSmall buf.size)
  let magic ← read_u16 buf OFF_MAGIC
  ensure (magic == EXT4_MAGIC) (.BadMagic magic)
  let log_block_size ← read_u32 buf OFF_LOG_BLOCK_SIZE
  let block_size ← okOr (blockSizeOf log_block_size) (.InvalidBlockSize log_block_size)
  let rev_level ← read_u32 buf OFF_REV_LEVEL
  let v ← read_u16 buf OFF_INODE_SIZE
  let inode_size := if REV_DYNAMIC ≤ rev_level then (if v = 0 then DEFAULT_INODE_SIZE else v) else DEFAULT_INODE_SIZE
  let feature_compat ← read_u32 buf OFF_FEATURE_COMPAT
  let feature_incompat ← read_u32 buf OFF_FEATURE_INCOMPAT
  let feature_ro_compat ← read_u32 buf OFF_FEATURE_RO_COMPAT
  let is_64bit := feature_incompat &&& FEATURE_INCOMPAT_64BIT != 0
  let blocks_count := combine_hi_lo (← read_u32 buf OFF_BLOCKS_COUNT_HI) (← read_u32 buf OFF_BLOCKS_COUNT_LO) is_64bit
  let free_blocks_count :=
    combine_hi_lo (← read_u32 buf OFF_FREE_BLOCKS_COUNT_HI) (← read_u32 buf OFF_FREE_BLOCKS_COUNT_LO) is_64bit
  let uuid ← buf.range OFF_UUID (OFF_UUID + 16)
  let volume_name ← buf.range OFF_VOLUME_NAME (OFF_VOLUME_NAME + 16)
  let hash_seed ← buf.range OFF_HASH_SEED (OFF_HASH_SEED + 16)
  .ok {
    block_size
    inodes_count := ← read_u32 buf OFF_INODES_COUNT
    blocks_count
    free_blocks_count
    free_inodes_count := ← read_u32 buf OFF_FREE_INODES_COUNT
    inode_size
    rev_level
    feature_compat
    feature_incompat
    feature_ro_compat
    uuid := .ofSlice uuid 0 16
    volume_name := .ofSlice volume_name 0 16
    desc_size := ← read_u16 buf OFF_DESC_SIZE
    first_data_block := ← read_u32 buf OFF_FIRST_DATA_BLOCK
    blocks_per_group := ← read_u32 buf OFF_BLOCKS_PER_GROUP
    inodes_per_group := ← read_u32 buf OFF_INODES_PER_GROUP
    mtime := ← read_u32 buf OFF_MTIME
    wtime := ← read_u32 buf OFF_WTIME
    mount_count := ← read_u16 buf OFF_MNT_COUNT
    max_mount_count := ← read_u16 buf OFF_MAX_MNT_COUNT
    state := ← read_u16 buf OFF_STATE
    errors := ← read_u16 buf OFF_ERRORS
    minor_rev_level := ← read_u16 buf OFF_MINOR_REV_LEVEL
    last_check := ← read_u32 buf OFF_LASTCHECK
    check_interval := ← read_u32 buf OFF_CHECKINTERVAL
    creator_os := ← read_u32 buf OFF_CREATOR_OS
    first_ino := ← read_u32 buf OFF_FIRST_INO
    hash_seed := .ofSlice hash_seed 0 16
    def_hash_version := ← buf.index OFF_DEF_HASH_VERSION }

def group_count (self : Superblock) : UInt32 :=
  if self.blocks_per_group = 0 then 0
  else .ofNat ((self.blocks_count.toNat + self.blocks_per_group.toNat - 1) / self.blocks_per_group.toNat)

def is_64bit (self : Superblock) : Bool := self.feature_incompat &&& FEATURE_INCOMPAT_64BIT != 0

def group_descriptor_size (self : Superblock) : UInt16 :=
  if is_64bit self then self.desc_size else GDT_ENTRY_SIZE_32

/-- The fields in the order in which they are written. -/
def fields (self : Superblock) (log_block_size : UInt32) : List (Nat × Bytes) :=
  [(OFF_INODES_COUNT, le32 self.inodes_count),
    (OFF_BLOCKS_COUNT_LO, le32 (.ofNat self.blocks_count.toNat)),
    (OFF_FREE_BLOCKS_COUNT_LO, le32 (.ofNat self.free_blocks_count.toNat)),
    (OFF_FREE_INODES_COUNT, le32 self.free_inodes_count),
    (OFF_FIRST_DATA_BLOCK, le32 self.first_data_block),
    (OFF_LOG_BLOCK_SIZE, le32 log_block_size),
    (OFF_LOG_CLUSTER_SIZE, le32 log_block_size),
    (OFF_BLOCKS_PER_GROUP, le32 self.blocks_per_group),
    (OFF_CLUSTERS_PER_GROUP, le32 self.blocks_per_group),
    (OFF_INODES_PER_GROUP, le32 self.inodes_per_group),
    (OFF_MTIME, le32 self.mtime),
    (OFF_WTIME, le32 self.wtime),
    (OFF_MNT_COUNT, le16 self.mount_count),
    (OFF_MAX_MNT_COUNT, le16 self.max_mount_count),
    (OFF_MAGIC, le16 EXT4_MAGIC),
    (OFF_STATE, le16 self.state),
    (OFF_ERRORS, le16 self.errors),
    (OFF_MINOR_REV_LEVEL, le16 self.minor_rev_level),
    (OFF_LASTCHECK, le32 self.last_check),
    (OFF_CHECKINTERVAL, le32 self.check_interval),
    (OFF_CREATOR_OS, le32 self.creator_os),
    (OFF_REV_LEVEL, le32 self.rev_level),
    (OFF_FIRST_INO, le32 self.first_ino),
    (OFF_INODE_SIZE, le16 self.inode_size),
    (OFF_FEATURE_COMPAT, le32 self.feature_compat),
    (OFF_FEATURE_INCOMPAT, le32 self.feature_incompat),
    (OFF_FEATURE_RO_COMPAT, le32 self.feature_ro_compat),
    (OFF_UUID, self.uuid.bytes),
    (OFF_VOLUME_NAME, self.volume_name.bytes),
    (OFF_HASH_SEED, self.hash_seed.bytes),
    (OFF_DEF_HASH_VERSION, ofList [self.def_hash_version]),
    (OFF_DESC_SIZE, le16 self.desc_size)]
/-- The high halves, written on 64-bit images only. -/
def highFields (self : Superblock) : List (Nat × Bytes) :=
  [(OFF_BLOCKS_COUNT_HI, le32 (.ofNat (self.blocks_count.toNat / 4294967296))),
    (OFF_FREE_BLOCKS_COUNT_HI, le32 (.ofNat (self.free_blocks_count.toNat / 4294967296)))]

def encode_into (self : Superblock) (buf : Bytes) : Res SuperblockEncodeError Bytes := do
  ensure (SUPERBLOCK_SIZE ≤ buf.size) (.OutputTooSmall buf.size)
  let buf ← buf.copy 0 (zeros SUPERBLOCK_SIZE)
  let log_block_size ← okOr (logBlockSizeOf self.block_size) (.InvalidBlockSize self.block_size)
  let buf ← writeAll buf (fields self log_block_size)
  if is_64bit self then writeAll buf (highFields self) else .ok buf

/-! ### What the decoder reads and the encoder writes -/

/-- The superblock that a buffer holds, its block size and inode size given. -/
def superblockAt (buf : Bytes) (block_size : UInt32) : Superblock :=
  let rev_level := buf.u32At OFF_REV_LEVEL
  let v := buf.u16At OFF_INODE_SIZE
  let is_64bit := buf.u32At OFF_FEATURE_INCOMPAT &&& FEATURE_INCOMPAT_64BIT != 0
  { block_size
    inodes_count := buf.u32At OFF_INODES_COUNT
    blocks_count := combine_hi_lo (buf.u32At OFF_BLOCKS_COUNT_HI) (buf.u32At OFF_BLOCKS_COUNT_LO) is_64bit
    free_blocks_count :=
      combine_hi_lo (buf.u32At OFF_FREE_BLOCKS_COUNT_HI) (buf.u32At OFF_FREE_BLOCKS_COUNT_LO) is_64bit
    free_inodes_count := buf.u32At OFF_FREE_INODES_COUNT
    inode_size := if REV_DYNAMIC ≤ rev_level then (if v = 0 then DEFAULT_INODE_SIZE else v) else DEFAULT_INODE_SIZE
    rev_level
    feature_compat := buf.u32At OFF_FEATURE_COMPAT
    feature_incompat := buf.u32At OFF_FEATURE_INCOMPAT
    feature_ro_compat := buf.u32At OFF_FEATURE_RO_COMPAT
    uuid := .ofSlice buf OFF_UUID 16
    volume_name := .ofSlice buf OFF_VOLUME_NAME 16
    desc_size := buf.u16At OFF_DESC_SIZE
    first_data_block := buf.u32At OFF_FIRST_DATA_BLOCK
    blocks_per_group := buf.u32At OFF_BLOCKS_PER_GROUP
    inodes_per_group := buf.u32At OFF_INODES_PER_GROUP
    mtime := buf.u32At OFF_MTIME
    wtime := buf.u32At OFF_WTIME
    mount_count := buf.u16At OFF_MNT_COUNT
    max_mount_count := buf.u16At OFF_MAX_MNT_COUNT
    state := buf.u16At OFF_STATE
    errors := buf.u16At OFF_ERRORS
    minor_rev_level := buf.u16At OFF_MINOR_REV_LEVEL
    last_check := buf.u32At OFF_LASTCHECK
    check_interval := buf.u32At OFF_CHECKINTERVAL
    creator_os := buf.u32At OFF_CREATOR_OS
    first_ino := buf.u32At OFF_FIRST_INO
    hash_seed := .ofSlice buf OFF_HASH_SEED 16
    def_hash_version := buf.byte OFF_DEF_HASH_VERSION }

theorem ofSlice_range {buf : Bytes} (start : Nat) :
    FixedBytes.ofSlice (buf.slice start (start + 16 - start)) 0 16 = .ofSlice buf start 16 := by
  apply FixedBytes.ext
  rw [Nat.add_sub_cancel_left]
  exact slice_slice buf (by omega)

/-- A buffer with the magic and a known block size decodes to what it holds. -/
theorem decode_ok {buf : Bytes} (block_size : UInt32) (size : 1024 ≤ buf.size)
    (magic : buf.u16At OFF_MAGIC = EXT4_MAGIC)
    (known : blockSizeOf (buf.u32At OFF_LOG_BLOCK_SIZE) = some block_size) :
    decode buf = .ok (superblockAt buf block_size) := by
  have short : ∀ off, off + 2 ≤ 1024 → (read_u16 buf off : Res SuperblockDecodeError _) = .ok (buf.u16At off) :=
    fun off le => read_u16_ok (by omega)
  have long : ∀ off, off + 4 ≤ 1024 → (read_u32 buf off : Res SuperblockDecodeError _) = .ok (buf.u32At off) :=
    fun off le => read_u32_ok (by omega)
  have run : ∀ off, off + 16 ≤ 1024 →
      (buf.range off (off + 16) : Res SuperblockDecodeError _) = .ok (buf.slice off (off + 16 - off)) :=
    fun off le => range_ok (by omega) (by omega)
  have last : (buf.index OFF_DEF_HASH_VERSION : Res SuperblockDecodeError _) = .ok (buf.byte OFF_DEF_HASH_VERSION) :=
    index_ok (by rw [OFF_DEF_HASH_VERSION]; omega)
  have enough : SUPERBLOCK_SIZE ≤ buf.size := size
  rw [decode]
  simp only [enough, decide_true, ensure_true, res_bind_ok, magic, known, okOr_some, beq_self_eq_true,
    short _ (show OFF_MAGIC + 2 ≤ 1024 by decide), long _ (show OFF_LOG_BLOCK_SIZE + 4 ≤ 1024 by decide),
    long _ (show OFF_REV_LEVEL + 4 ≤ 1024 by decide), short _ (show OFF_INODE_SIZE + 2 ≤ 1024 by decide),
    long _ (show OFF_FEATURE_COMPAT + 4 ≤ 1024 by decide), long _ (show OFF_FEATURE_INCOMPAT + 4 ≤ 1024 by decide),
    long _ (show OFF_FEATURE_RO_COMPAT + 4 ≤ 1024 by decide), long _ (show OFF_BLOCKS_COUNT_HI + 4 ≤ 1024 by decide),
    long _ (show OFF_BLOCKS_COUNT_LO + 4 ≤ 1024 by decide), long _ (show OFF_FREE_BLOCKS_COUNT_HI + 4 ≤ 1024 by decide),
    long _ (show OFF_FREE_BLOCKS_COUNT_LO + 4 ≤ 1024 by decide), run _ (show OFF_UUID + 16 ≤ 1024 by decide),
    run _ (show OFF_VOLUME_NAME + 16 ≤ 1024 by decide), run _ (show OFF_HASH_SEED + 16 ≤ 1024 by decide),
    long _ (show OFF_INODES_COUNT + 4 ≤ 1024 by decide), long _ (show OFF_FREE_INODES_COUNT + 4 ≤ 1024 by decide),
    short _ (show OFF_DESC_SIZE + 2 ≤ 1024 by decide), long _ (show OFF_FIRST_DATA_BLOCK + 4 ≤ 1024 by decide),
    long _ (show OFF_BLOCKS_PER_GROUP + 4 ≤ 1024 by decide), long _ (show OFF_INODES_PER_GROUP + 4 ≤ 1024 by decide),
    long _ (show OFF_MTIME + 4 ≤ 1024 by decide), long _ (show OFF_WTIME + 4 ≤ 1024 by decide),
    short _ (show OFF_MNT_COUNT + 2 ≤ 1024 by decide), short _ (show OFF_MAX_MNT_COUNT + 2 ≤ 1024 by decide),
    short _ (show OFF_STATE + 2 ≤ 1024 by decide), short _ (show OFF_ERRORS + 2 ≤ 1024 by decide),
    short _ (show OFF_MINOR_REV_LEVEL + 2 ≤ 1024 by decide), long _ (show OFF_LASTCHECK + 4 ≤ 1024 by decide),
    long _ (show OFF_CHECKINTERVAL + 4 ≤ 1024 by decide), long _ (show OFF_CREATOR_OS + 4 ≤ 1024 by decide),
    long _ (show OFF_FIRST_INO + 4 ≤ 1024 by decide), last, ofSlice_range, superblockAt]

theorem spans (self : Superblock) (log_block_size : UInt32) :
    (fields self log_block_size).map span =
      [(0, 4), (4, 4), (12, 4), (16, 4), (20, 4), (24, 4), (28, 4), (32, 4), (36, 4), (40, 4), (44, 4), (48, 4),
        (52, 2), (54, 2), (56, 2), (58, 2), (60, 2), (62, 2), (64, 4), (68, 4), (72, 4), (76, 4), (84, 4), (88, 2),
        (92, 4), (96, 4), (100, 4), (104, 16), (120, 16), (236, 16), (252, 1), (254, 2)] := by
  simp only [fields, List.map_cons, List.map_nil, span, size_le16, size_le32, size_ofList, FixedBytes.length,
    List.length_singleton]
  rfl
theorem within (self : Superblock) (log_block_size : UInt32) : Within 1024 (fields self log_block_size) :=
  within_of_spans (spans self log_block_size) (by decide)
theorem apart (self : Superblock) (log_block_size : UInt32) : (fields self log_block_size).Pairwise Apart :=
  apart_of_spans (spans self log_block_size) (by decide)

/-- The 1024 bytes of a superblock of a 32-bit image. -/
def image (self : Superblock) (log_block_size : UInt32) : Bytes :=
  patches ((zeros 1024).patch 0 (zeros 1024)) (fields self log_block_size)

theorem size_image (self : Superblock) (log_block_size : UInt32) : (image self log_block_size).size = 1024 := by
  have cleared : ((zeros 1024).patch 0 (zeros 1024)).size = 1024 := size_patch _ _ _ (by simp)
  rw [image, size_patches (within self log_block_size) _ (by omega), cleared]

theorem encode_ok {self : Superblock} {log_block_size : UInt32} (narrow : is_64bit self = false)
    (known : logBlockSizeOf self.block_size = some log_block_size) :
    encode_into self (zeros SUPERBLOCK_SIZE) = .ok (image self log_block_size) := by
  have cleared : ((zeros 1024).patch 0 (zeros 1024)).size = 1024 := size_patch _ _ _ (by simp)
  simp only [encode_into, SUPERBLOCK_SIZE, size_zeros, Nat.le_refl, decide_true, ensure_true, res_bind_ok,
    copy_ok (show 0 + (zeros 1024).size ≤ (zeros 1024).size by simp), known, okOr_some, narrow,
    writeAll_ok (within self log_block_size) _ (show 1024 ≤ ((zeros 1024).patch 0 (zeros 1024)).size by omega),
    Bool.false_eq_true, ↓reduceIte, image]

theorem blockSizeOf_log {block_size log_block_size : UInt32} (known : logBlockSizeOf block_size = some log_block_size) :
    blockSizeOf log_block_size = some block_size := by
  simp only [logBlockSizeOf] at known
  split at known
  · rename_i same; cases known; subst same; rfl
  split at known
  · rename_i same; cases known; subst same; rfl
  split at known
  · rename_i same; cases known; subst same; rfl
  split at known
  · rename_i same; cases known; subst same; rfl
  · cases known

theorem ofSlice_patches {fields : List (Nat × Bytes)} (apart : fields.Pairwise Apart) {n offset : Nat}
    {value : FixedBytes n} (member : (offset, value.bytes) ∈ fields) (buf : Bytes) :
    FixedBytes.ofSlice (patches buf fields) offset n = value := by
  apply FixedBytes.ext
  have read := slice_patches_mem apart member buf
  rw [value.length] at read
  exact read
theorem byte_patches {fields : List (Nat × Bytes)} (apart : fields.Pairwise Apart) {offset : Nat} {value : UInt8}
    (member : (offset, ofList [value]) ∈ fields) (buf : Bytes) : (patches buf fields).byte offset = value := by
  have read := congrArg (fun b => b.byte 0) (slice_patches_mem apart member buf)
  simpa [byte_slice] using read

/-- A superblock of a 32-bit image reads back as it was written: the counts
    of blocks are 32-bit numbers there, and the inode size is not the default. -/
theorem decode_image {self : Superblock} {log_block_size : UInt32} (narrow : is_64bit self = false)
    (known : logBlockSizeOf self.block_size = some log_block_size) (dynamic : REV_DYNAMIC ≤ self.rev_level)
    (sized : self.inode_size ≠ 0) (blocks : self.blocks_count.toNat < 4294967296)
    (free : self.free_blocks_count.toNat < 4294967296) : decode (image self log_block_size) = .ok self := by
  have disjoint := apart self log_block_size
  have long : ∀ (offset : Nat) (value : UInt32), (offset, le32 value) ∈ fields self log_block_size →
      (image self log_block_size).u32At offset = value := fun _ _ member => u32At_patches disjoint _ _ member _
  have short : ∀ (offset : Nat) (value : UInt16), (offset, le16 value) ∈ fields self log_block_size →
      (image self log_block_size).u16At offset = value := fun _ _ member => u16At_patches disjoint _ _ member _
  have run : ∀ (offset : Nat) (value : FixedBytes 16), (offset, value.bytes) ∈ fields self log_block_size →
      FixedBytes.ofSlice (image self log_block_size) offset 16 = value := fun _ _ member => ofSlice_patches disjoint member _
  have last : (image self log_block_size).byte OFF_DEF_HASH_VERSION = self.def_hash_version :=
    byte_patches disjoint (by simp [fields]) _
  rw [decode_ok self.block_size (Nat.le_of_eq (size_image self log_block_size).symm) (short _ _ (by simp [fields]))
    (by rw [long _ log_block_size (by simp [fields]), blockSizeOf_log known])]
  have wide : ∀ x : UInt64, x.toNat < 4294967296 → UInt64.ofNat (UInt32.ofNat x.toNat).toNat = x := by
    intro x small
    apply UInt64.toNat_inj.mp
    simp only [UInt64.toNat_ofNat', UInt32.toNat_ofNat']
    omega
  have plain : (self.feature_incompat &&& FEATURE_INCOMPAT_64BIT != 0) = false := narrow
  simp only [superblockAt, long OFF_REV_LEVEL self.rev_level (by simp [fields]),
    short OFF_INODE_SIZE self.inode_size (by simp [fields]),
    long OFF_FEATURE_INCOMPAT self.feature_incompat (by simp [fields]), plain,
    long OFF_INODES_COUNT self.inodes_count (by simp [fields]),
    long OFF_BLOCKS_COUNT_LO (.ofNat self.blocks_count.toNat) (by simp [fields]),
    long OFF_FREE_BLOCKS_COUNT_LO (.ofNat self.free_blocks_count.toNat) (by simp [fields]),
    long OFF_FREE_INODES_COUNT self.free_inodes_count (by simp [fields]),
    long OFF_FEATURE_COMPAT self.feature_compat (by simp [fields]),
    long OFF_FEATURE_RO_COMPAT self.feature_ro_compat (by simp [fields]),
    run OFF_UUID self.uuid (by simp [fields]),
    run OFF_VOLUME_NAME self.volume_name (by simp [fields]),
    run OFF_HASH_SEED self.hash_seed (by simp [fields]),
    short OFF_DESC_SIZE self.desc_size (by simp [fields]),
    long OFF_FIRST_DATA_BLOCK self.first_data_block (by simp [fields]),
    long OFF_BLOCKS_PER_GROUP self.blocks_per_group (by simp [fields]),
    long OFF_INODES_PER_GROUP self.inodes_per_group (by simp [fields]),
    long OFF_MTIME self.mtime (by simp [fields]),
    long OFF_WTIME self.wtime (by simp [fields]),
    short OFF_MNT_COUNT self.mount_count (by simp [fields]),
    short OFF_MAX_MNT_COUNT self.max_mount_count (by simp [fields]),
    short OFF_STATE self.state (by simp [fields]),
    short OFF_ERRORS self.errors (by simp [fields]),
    short OFF_MINOR_REV_LEVEL self.minor_rev_level (by simp [fields]),
    long OFF_LASTCHECK self.last_check (by simp [fields]),
    long OFF_CHECKINTERVAL self.check_interval (by simp [fields]),
    long OFF_CREATOR_OS self.creator_os (by simp [fields]),
    long OFF_FIRST_INO self.first_ino (by simp [fields]), last, dynamic, sized,
    combine_hi_lo, wide _ blocks, wide _ free, Bool.false_eq_true, ↓reduceIte]

end Justext4.Superblock
