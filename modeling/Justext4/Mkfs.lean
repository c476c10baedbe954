import Justext4.Filesystem

/-!
Formatting an image. A configuration gives the block size, the number of
blocks and the number of inodes; the layout follows from them: the superblock
in block 0, the descriptor table in block 1, the bitmaps in blocks 2 and 3, the
inode table from block 4 on and the root directory in the block after it.
-/
namespace Justext4.Mkfs
open Justext4 Justext4.Fallible Justext4.Filesystem Bytes
open Justext4.Superblock (Superblock SUPERBLOCK_OFFSET SUPERBLOCK_SIZE EXT4_VALID_FS EXT4_ERRORS_CONTINUE EXT4_OS_LINUX EXT4_HASH_HALF_MD4
  FEATURE_INCOMPAT_EXTENTS FEATURE_INCOMPAT_FILETYPE FEATURE_RO_COMPAT_SPARSE_SUPER)
open Justext4.GroupDescriptor (GroupDescriptor)
open Justext4.Inode (Inode INODE_FLAG_EXTENTS)
open Justext4.DirEntry (DirEntry encode_range)

structure Config where
  block_size : UInt32
  size_blocks : UInt32
  inodes_per_group : UInt32
  volume_label : List UInt8
  deriving DecidableEq

def Config.default : Config where
  block_size := 4096
  size_blocks := 16
  inodes_per_group := 32
  volume_label := [0x6A, 0x75, 0x73, 0x74, 0x65, 0x78, 0x74, 0x34]

def INODE_SIZE : UInt16 := 256
def ROOT_INODE_NUMBER : UInt32 := 2
def PINNED_TIME : UInt32 := 0x65000000
def PINNED_UUID : FixedBytes 16 := ⟨ofList
  [0x6A, 0x75, 0x73, 0x74, 0x65, 0x78, 0x74, 0x34, 0x76, 0x30, 0xDE, 0xAD, 0xBE, 0xEF, 0xCA, 0xFE], rfl⟩
def PINNED_HASH_SEED : FixedBytes 16 := ⟨ofList
  [0xEC, 0xCA, 0xFE, 0xBA, 0xBE, 0xDE, 0xAD, 0xBE, 0xEF, 0x12, 0x34, 0x56, 0x78, 0x9A, 0xBC, 0xDE], rfl⟩

structure Layout where
  block_size : Nat
  inode_table_blocks : Nat
  inode_table_first_block : Nat
  root_dir_block : Nat
  metadata_blocks : Nat
  deriving DecidableEq

def Layout.from_config (config : Config) : Res Ext4Error Layout := do
  ensure (config.block_size = 1024 ∨ config.block_size = 2048 ∨ config.block_size = 4096 ∨ config.block_size = 65536)
    (.InvalidLayout "block_size must be 1024, 2048, 4096, or 65536")
  ensure (11 ≤ config.inodes_per_group.toNat)
    (.InvalidLayout "inodes_per_group must be at least 11 (10 reserved + root)")
  let block_size := config.block_size.toNat
  let inode_table_blocks := div_ceil (config.inodes_per_group.toNat * INODE_SIZE.toNat) block_size
  let inode_table_first_block := 4
  let root_dir_block := inode_table_first_block + inode_table_blocks
  let metadata_blocks := root_dir_block + 1
  ensure (metadata_blocks ≤ config.size_blocks.toNat)
    (.InvalidLayout "size_blocks too small for the metadata + root dir layout")
  .ok { block_size, inode_table_blocks, inode_table_first_block, root_dir_block, metadata_blocks }

/-- The label cut or padded to 16 bytes. -/
def volume_name (config : Config) : FixedBytes 16 :=
  .ofSlice (ofList (config.volume_label.take 16)) 0 16

/-- The superblock that `format` builds. -/
def superblock (config : Config) (layout : Layout) : Superblock where
  block_size := config.block_size
  inodes_count := config.inodes_per_group
  blocks_count := .ofNat config.size_blocks.toNat
  free_blocks_count := .ofNat (config.size_blocks.toNat - layout.metadata_blocks)
  free_inodes_count := .ofNat (config.inodes_per_group.toNat - 10)
  inode_size := INODE_SIZE
  rev_level := 1
  feature_compat := 0
  feature_incompat := FEATURE_INCOMPAT_FILETYPE ||| FEATURE_INCOMPAT_EXTENTS
  feature_ro_compat := FEATURE_RO_COMPAT_SPARSE_SUPER
  uuid := PINNED_UUID
  volume_name := volume_name config
  desc_size := 0
  first_data_block := 0
  blocks_per_group := .ofNat (config.block_size.toNat * 8)
  inodes_per_group := config.inodes_per_group
  mtime := 0
  wtime := PINNED_TIME
  mount_count := 0
  max_mount_count := 0xFFFF
  state := EXT4_VALID_FS
  errors := EXT4_ERRORS_CONTINUE
  minor_rev_level := 0
  last_check := PINNED_TIME
  check_interval := 0
  creator_os := EXT4_OS_LINUX
  first_ino := 11
  hash_seed := PINNED_HASH_SEED
  def_hash_version := EXT4_HASH_HALF_MD4

/-- The group descriptor that `format` builds. -/
def descriptor (config : Config) (layout : Layout) : GroupDescriptor where
  block_bitmap := 2
  inode_bitmap := 3
  inode_table := .ofNat layout.inode_table_first_block
  free_blocks_count := .ofNat (config.size_blocks.toNat - layout.metadata_blocks)
  free_inodes_count := .ofNat (config.inodes_per_group.toNat - 10)
  used_dirs_count := 1
  flags := 0
  checksum := 0

/-- The inode of the root directory, its `i_block` given. -/
def root_inode (config : Config) (layout : Layout) (block : FixedBytes 60) : Inode where
  mode := 0o040755
  uid := 0
  gid := 0
  size := .ofNat layout.block_size
  atime := 0
  ctime := 0
  mtime := 0
  dtime := 0
  links_count := 2
  blocks_lo := .ofNat (config.block_size.toNat / 512)
  blocks_hi := 0
  flags := INODE_FLAG_EXTENTS
  block
  generation := 0
  file_acl_lo := 0
  file_acl_hi := 0

/-- The writes of `format` one after another. -/
def format (writer : Bytes) (config : Config) : Res Ext4Error Bytes := do
  let layout ← Layout.from_config config
  let total_blocks := config.size_blocks.toNat
  let sb := superblock config layout
  let gd := descriptor config layout
  let block ← i_block
    [{ logical_block := 0, len := 1, physical_block := .ofNat layout.root_dir_block, uninit := false }]
  let dot : DirEntry := { inode := ROOT_INODE_NUMBER, rec_len := 12, file_type_raw := 2, name := DOT }
  let dotdot : DirEntry :=
    { inode := ROOT_INODE_NUMBER, rec_len := .ofNat (config.block_size.toNat - 12), file_type_raw := 2, name := DOTDOT }
  let sb_buf ← liftErr .SuperblockEncode (Superblock.encode_into sb (zeros SUPERBLOCK_SIZE))
  let writer := writer.patch SUPERBLOCK_OFFSET sb_buf
  let gd_buf ← liftErr .GroupDescriptorEncode (GroupDescriptor.encode_into gd (zeros 32) sb)
  let writer := writer.patch layout.block_size gd_buf
  let inode_offset :=
    layout.inode_table_first_block * layout.block_size + (ROOT_INODE_NUMBER.toNat - 1) * INODE_SIZE.toNat
  let inode_buf ← liftErr .InodeEncode
    (Inode.encode_into (root_inode config layout block) (zeros INODE_SIZE.toNat) sb)
  let writer := writer.patch inode_offset inode_buf
  let block_buf ← liftErr .DirEntryEncode (encode_range dot (zeros config.block_size.toNat) 0 12)
  let block_buf ← liftErr .DirEntryEncode (encode_range dotdot block_buf 12 config.block_size.toNat)
  let writer := writer.patch (layout.root_dir_block * layout.block_size) block_buf
  let bitmap_capacity_bits := config.block_size.toNat * 8
  let block_bitmap_buf ← Bitmap.set_run (zeros config.block_size.toNat) 0 layout.metadata_blocks
  let block_bitmap_buf ← Bitmap.set_run block_bitmap_buf total_blocks (bitmap_capacity_bits - total_blocks)
  let writer := writer.patch (2 * layout.block_size) block_bitmap_buf
  let inode_bitmap_buf ← Bitmap.set_run (zeros config.block_size.toNat) 0 10
  let inode_bitmap_buf ← Bitmap.set_bit inode_bitmap_buf (ROOT_INODE_NUMBER.toNat - 1)
  let inode_bitmap_buf ← Bitmap.set_run inode_bitmap_buf config.inodes_per_group.toNat
    (bitmap_capacity_bits - config.inodes_per_group.toNat)
  let writer := writer.patch (3 * layout.block_size) inode_bitmap_buf
  let total_size := total_blocks * layout.block_size
  .ok (if 0 < total_size then writer.patch (total_size - 1) (zeros 1) else writer)

end Justext4.Mkfs
