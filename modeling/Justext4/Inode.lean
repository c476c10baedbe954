import Justext4.Superblock

/-!
The inode record. Its first 128 bytes hold the type and the permissions, the
owner, the size, the times, the link count and the 60 bytes that open an
extent tree or hold the target of a symbolic link.
-/
namespace Justext4.Inode
open Justext4 Justext4.Fallible Justext4.Fields Bytes
open Justext4.Superblock (Superblock ofSlice_patches)

def OFF_MODE : Nat := 0x00
def OFF_UID_LO : Nat := 0x02
def OFF_SIZE_LO : Nat := 0x04
def OFF_ATIME : Nat := 0x08
def OFF_CTIME : Nat := 0x0C
def OFF_MTIME : Nat := 0x10
def OFF_DTIME : Nat := 0x14
def OFF_GID_LO : Nat := 0x18
def OFF_LINKS_COUNT : Nat := 0x1A
def OFF_BLOCKS_LO : Nat := 0x1C
def OFF_FLAGS : Nat := 0x20
def OFF_BLOCK : Nat := 0x28
def OFF_GENERATION : Nat := 0x64
def OFF_FILE_ACL_LO : Nat := 0x68
def OFF_SIZE_HI : Nat := 0x6C
def OFF_BLOCKS_HI : Nat := 0x74
def OFF_FILE_ACL_HI : Nat := 0x76
def OFF_UID_HI : Nat := 0x78
def OFF_GID_HI : Nat := 0x7A

def I_BLOCK_LEN : Nat := 60
def MIN_INODE_SIZE : UInt16 := 128
def S_IFMT : UInt16 := 0xF000
def S_IFIFO : UInt16 := 0x1000
def S_IFCHR : UInt16 := 0x2000
def S_IFDIR : UInt16 := 0x4000
def S_IFBLK : UInt16 := 0x6000
def S_IFREG : UInt16 := 0x8000
def S_IFLNK : UInt16 := 0xA000
def S_IFSOCK : UInt16 := 0xC000
def INODE_FLAG_EXTENTS : UInt32 := 0x00080000

inductive InodeDecodeError where
  | SuperblockInodeSizeTooSmall (size : UInt16)
  | InputTooSmall (actual expected : Nat)
  deriving DecidableEq

inductive InodeEncodeError where
  | SuperblockInodeSizeTooSmall (size : UInt16)
  | OutputTooSmall (actual expected : Nat)
  deriving DecidableEq

inductive InodeFileType where
  | Fifo
  | CharacterDevice
  | Directory
  | BlockDevice
  | Regular
  | Symlink
  | Socket
  | Unknown (mode : UInt16)
  deriving DecidableEq

structure Inode where
  mode : UInt16
  uid : UInt32
  gid : UInt32
  size : UInt64
  atime : UInt32
  ctime : UInt32
  mtime : UInt32
  dtime : UInt32
  links_count : UInt16
  blocks_lo : UInt32
  blocks_hi : UInt16
  flags : UInt32
  block : FixedBytes 60
  generation : UInt32
  file_acl_lo : UInt32
  file_acl_hi : UInt16
  deriving DecidableEq

/-- `(hi << 16) | lo` of two 16-bit words. -/
def combine32 (hi lo : UInt16) : UInt32 := .ofNat (hi.toNat * 65536 + lo.toNat)
/-- `(hi << 32) | lo` of two 32-bit words. -/
def combine64 (hi lo : UInt32) : UInt64 := .ofNat (hi.toNat * 4294967296 + lo.toNat)

def decode (buf : Bytes) (sb : Superblock) : Res InodeDecodeError Inode := do
  let inode_size := sb.inode_size.toNat
  ensure (MIN_INODE_SIZE.toNat ≤ inode_size) (.SuperblockInodeSizeTooSmall sb.inode_size)
  ensure (inode_size ≤ buf.size) (.InputTooSmall buf.size inode_size)
  let uid_lo ← read_u16 buf OFF_UID_LO
  let uid_hi ← read_u16 buf OFF_UID_HI
  let gid_lo ← read_u16 buf OFF_GID_LO
  let gid_hi ← read_u16 buf OFF_GID_HI
  let size_lo ← read_u32 buf OFF_SIZE_LO
  let size_hi ← read_u32 buf OFF_SIZE_HI
  let block ← buf.range OFF_BLOCK (OFF_BLOCK + I_BLOCK_LEN)
  .ok {
    mode := ← read_u16 buf OFF_MODE
    uid := combine32 uid_hi uid_lo
    gid := combine32 gid_hi gid_lo
    size := combine64 size_hi size_lo
    atime := ← read_u32 buf OFF_ATIME
    ctime := ← read_u32 buf OFF_CTIME
    mtime := ← read_u32 buf OFF_MTIME
    dtime := ← read_u32 buf OFF_DTIME
    links_count := ← read_u16 buf OFF_LINKS_COUNT
    blocks_lo := ← read_u32 buf OFF_BLOCKS_LO
    blocks_hi := ← read_u16 buf OFF_BLOCKS_HI
    flags := ← read_u32 buf OFF_FLAGS
    block := .ofSlice block 0 60
    generation := ← read_u32 buf OFF_GENERATION
    file_acl_lo := ← read_u32 buf OFF_FILE_ACL_LO
    file_acl_hi := ← read_u16 buf OFF_FILE_ACL_HI }

def file_type (self : Inode) : InodeFileType :=
  let bits := self.mode &&& S_IFMT
  if bits = S_IFIFO then .Fifo
  else if bits = S_IFCHR then .CharacterDevice
  else if bits = S_IFDIR then .Directory
  else if bits = S_IFBLK then .BlockDevice
  else if bits = S_IFREG then .Regular
  else if bits = S_IFLNK then .Symlink
  else if bits = S_IFSOCK then .Socket
  else .Unknown bits

def is_directory (self : Inode) : Bool := file_type self == .Directory
def is_regular (self : Inode) : Bool := file_type self == .Regular
def is_symlink (self : Inode) : Bool := file_type self == .Symlink
def uses_extents (self : Inode) : Bool := self.flags &&& INODE_FLAG_EXTENTS != 0

/-- The fields in the order in which they are written. -/
def fields (self : Inode) : List (Nat × Bytes) :=
  [(OFF_MODE, le16 self.mode),
    (OFF_UID_LO, le16 (.ofNat self.uid.toNat)),
    (OFF_SIZE_LO, le32 (.ofNat self.size.toNat)),
    (OFF_ATIME, le32 self.atime),
    (OFF_CTIME, le32 self.ctime),
    (OFF_MTIME, le32 self.mtime),
    (OFF_DTIME, le32 self.dtime),
    (OFF_GID_LO, le16 (.ofNat self.gid.toNat)),
    (OFF_LINKS_COUNT, le16 self.links_count),
    (OFF_BLOCKS_LO, le32 self.blocks_lo),
    (OFF_FLAGS, le32 self.flags),
    (OFF_BLOCK, self.block.bytes),
    (OFF_GENERATION, le32 self.generation),
    (OFF_FILE_ACL_LO, le32 self.file_acl_lo),
    (OFF_SIZE_HI, le32 (.ofNat (self.size.toNat / 4294967296))),
    (OFF_BLOCKS_HI, le16 self.blocks_hi),
    (OFF_FILE_ACL_HI, le16 self.file_acl_hi),
    (OFF_UID_HI, le16 (.ofNat (self.uid.toNat / 65536))),
    (OFF_GID_HI, le16 (.ofNat (self.gid.toNat / 65536)))]

def encode_into (self : Inode) (buf : Bytes) (sb : Superblock) : Res InodeEncodeError Bytes := do
  let inode_size := sb.inode_size.toNat
  ensure (MIN_INODE_SIZE.toNat ≤ inode_size) (.SuperblockInodeSizeTooSmall sb.inode_size)
  ensure (inode_size ≤ buf.size) (.OutputTooSmall buf.size inode_size)
  let buf ← buf.copy 0 (zeros inode_size)
  writeAll buf (fields self)

/-! ### What the decoder reads and the encoder writes -/

/-- The inode that a record holds. -/
def inodeAt (buf : Bytes) : Inode where
  mode := buf.u16At OFF_MODE
  uid := combine32 (buf.u16At OFF_UID_HI) (buf.u16At OFF_UID_LO)
  gid := combine32 (buf.u16At OFF_GID_HI) (buf.u16At OFF_GID_LO)
  size := combine64 (buf.u32At OFF_SIZE_HI) (buf.u32At OFF_SIZE_LO)
  atime := buf.u32At OFF_ATIME
  ctime := buf.u32At OFF_CTIME
  mtime := buf.u32At OFF_MTIME
  dtime := buf.u32At OFF_DTIME
  links_count := buf.u16At OFF_LINKS_COUNT
  blocks_lo := buf.u32At OFF_BLOCKS_LO
  blocks_hi := buf.u16At OFF_BLOCKS_HI
  flags := buf.u32At OFF_FLAGS
  block := .ofSlice buf OFF_BLOCK 60
  generation := buf.u32At OFF_GENERATION
  file_acl_lo := buf.u32At OFF_FILE_ACL_LO
  file_acl_hi := buf.u16At OFF_FILE_ACL_HI

theorem decode_ok {buf : Bytes} {sb : Superblock} (sized : 128 ≤ sb.inode_size.toNat)
    (size : sb.inode_size.toNat ≤ buf.size) : decode buf sb = .ok (inodeAt buf) := by
  have short : ∀ off, off + 2 ≤ 128 → (read_u16 buf off : Res InodeDecodeError _) = .ok (buf.u16At off) :=
    fun off le => read_u16_ok (by omega)
  have long : ∀ off, off + 4 ≤ 128 → (read_u32 buf off : Res InodeDecodeError _) = .ok (buf.u32At off) :=
    fun off le => read_u32_ok (by omega)
  have run : (buf.range OFF_BLOCK (OFF_BLOCK + I_BLOCK_LEN) : Res InodeDecodeError _) = .ok (buf.slice OFF_BLOCK 60) :=
    range_ok (by decide) (by simp only [OFF_BLOCK, I_BLOCK_LEN]; omega)
  have whole : FixedBytes.ofSlice (buf.slice OFF_BLOCK 60) 0 60 = .ofSlice buf OFF_BLOCK 60 :=
    FixedBytes.ext (slice_slice buf (by decide))
  have enough : MIN_INODE_SIZE.toNat ≤ sb.inode_size.toNat := sized
  rw [decode]
  simp only [enough, size, decide_true, ensure_true, res_bind_ok, run, whole,
    short _ (show OFF_UID_LO + 2 ≤ 128 by decide), short _ (show OFF_UID_HI + 2 ≤ 128 by decide),
    short _ (show OFF_GID_LO + 2 ≤ 128 by decide), short _ (show OFF_GID_HI + 2 ≤ 128 by decide),
    long _ (show OFF_SIZE_LO + 4 ≤ 128 by decide), long _ (show OFF_SIZE_HI + 4 ≤ 128 by decide),
    short _ (show OFF_MODE + 2 ≤ 128 by decide), long _ (show OFF_ATIME + 4 ≤ 128 by decide),
    long _ (show OFF_CTIME + 4 ≤ 128 by decide), long _ (show OFF_MTIME + 4 ≤ 128 by decide),
    long _ (show OFF_DTIME + 4 ≤ 128 by decide), short _ (show OFF_LINKS_COUNT + 2 ≤ 128 by decide),
    long _ (show OFF_BLOCKS_LO + 4 ≤ 128 by decide), short _ (show OFF_BLOCKS_HI + 2 ≤ 128 by decide),
    long _ (show OFF_FLAGS + 4 ≤ 128 by decide), long _ (show OFF_GENERATION + 4 ≤ 128 by decide),
    long _ (show OFF_FILE_ACL_LO + 4 ≤ 128 by decide), short _ (show OFF_FILE_ACL_HI + 2 ≤ 128 by decide), inodeAt]

theorem spans (self : Inode) :
    (fields self).map span =
      [(0, 2), (2, 2), (4, 4), (8, 4), (12, 4), (16, 4), (20, 4), (24, 2), (26, 2), (28, 4), (32, 4), (40, 60),
        (100, 4), (104, 4), (108, 4), (116, 2), (118, 2), (120, 2), (122, 2)] := by
  simp only [fields, List.map_cons, List.map_nil, span, size_le16, size_le32, FixedBytes.length]
  rfl
theorem within (self : Inode) : Within 128 (fields self) := within_of_spans (spans self) (by decide)
theorem apart (self : Inode) : (fields self).Pairwise Apart := apart_of_spans (spans self) (by decide)

/-- The record of `n` bytes that an inode is written as. -/
def record (self : Inode) (n : Nat) : Bytes := patches ((zeros n).patch 0 (zeros n)) (fields self)

theorem size_record (self : Inode) {n : Nat} (sized : 128 ≤ n) : (record self n).size = n := by
  have cleared : ((zeros n).patch 0 (zeros n)).size = n := size_patch _ _ _ (by simp)
  rw [record, size_patches (within self) _ (by omega), cleared]

theorem encode_ok (self : Inode) {sb : Superblock} {n : Nat} (same : sb.inode_size.toNat = n) (sized : 128 ≤ n) :
    encode_into self (zeros n) sb = .ok (record self n) := by
  have cleared : ((zeros n).patch 0 (zeros n)).size = n := size_patch _ _ _ (by simp)
  have copied : ((zeros n).copy 0 (zeros n) : Res InodeEncodeError Bytes) = .ok ((zeros n).patch 0 (zeros n)) :=
    copy_ok (by simp)
  have written := writeAll_ok (ε := InodeEncodeError) (within self) ((zeros n).patch 0 (zeros n)) (by omega)
  have enough : ensure (MIN_INODE_SIZE.toNat ≤ n) (InodeEncodeError.SuperblockInodeSizeTooSmall sb.inode_size) = .ok () :=
    ensure_eq_ok.mpr (decide_eq_true sized)
  have fits : ensure (n ≤ (zeros n).size) (InodeEncodeError.OutputTooSmall (zeros n).size n) = .ok () :=
    ensure_eq_ok.mpr (decide_eq_true (Nat.le_refl n))
  rw [encode_into, same, enough, res_bind_ok, fits, res_bind_ok, copied, res_bind_ok, written, record]

theorem combine32_split (x : UInt32) : combine32 (.ofNat (x.toNat / 65536)) (.ofNat x.toNat) = x := by
  apply UInt32.toNat_inj.mp
  have bound := x.toNat_lt
  simp only [combine32, UInt32.toNat_ofNat', UInt16.toNat_ofNat']
  omega
theorem combine64_split (x : UInt64) : combine64 (.ofNat (x.toNat / 4294967296)) (.ofNat x.toNat) = x := by
  apply UInt64.toNat_inj.mp
  have bound := x.toNat_lt
  simp only [combine64, UInt64.toNat_ofNat', UInt32.toNat_ofNat']
  omega

/-- Every inode reads back as it was written. -/
theorem inodeAt_record (self : Inode) (n : Nat) : inodeAt (record self n) = self := by
  have disjoint := apart self
  have long : ∀ {offset : Nat} (value : UInt32), (offset, le32 value) ∈ fields self →
      (record self n).u32At offset = value := fun _ member => u32At_patches disjoint _ _ member _
  have short : ∀ {offset : Nat} (value : UInt16), (offset, le16 value) ∈ fields self →
      (record self n).u16At offset = value := fun _ member => u16At_patches disjoint _ _ member _
  have run : FixedBytes.ofSlice (record self n) OFF_BLOCK 60 = self.block :=
    ofSlice_patches disjoint (by simp [fields]) _
  rw [inodeAt, run, short self.mode (by simp [fields]),
    short (.ofNat (self.uid.toNat / 65536)) (by simp [fields]),
    short (.ofNat self.uid.toNat) (by simp [fields]),
    short (.ofNat (self.gid.toNat / 65536)) (by simp [fields]),
    short (.ofNat self.gid.toNat) (by simp [fields]),
    long (.ofNat (self.size.toNat / 4294967296)) (by simp [fields]),
    long (.ofNat self.size.toNat) (by simp [fields]),
    long self.atime (by simp [fields]), long self.ctime (by simp [fields]),
    long self.mtime (by simp [fields]), long self.dtime (by simp [fields]),
    short self.links_count (by simp [fields]), long self.blocks_lo (by simp [fields]),
    short self.blocks_hi (by simp [fields]), long self.flags (by simp [fields]),
    long self.generation (by simp [fields]), long self.file_acl_lo (by simp [fields]),
    short self.file_acl_hi (by simp [fields]), combine32_split, combine32_split, combine64_split]

/-- The inode of a record depends on its first 128 bytes only. -/
theorem inodeAt_congr {a b : Bytes} (same : ∀ i < 128, a.byte i = b.byte i) : inodeAt a = inodeAt b := by
  have short : ∀ off, off + 2 ≤ 128 → a.u16At off = b.u16At off :=
    fun off le => u16At_congr fun k small => same _ (by omega)
  have long : ∀ off, off + 4 ≤ 128 → a.u32At off = b.u32At off :=
    fun off le => u32At_congr fun k small => same _ (by omega)
  have run : FixedBytes.ofSlice a OFF_BLOCK 60 = .ofSlice b OFF_BLOCK 60 := by
    refine FixedBytes.ext (ext_inside (a := a.slice OFF_BLOCK 60) (b := b.slice OFF_BLOCK 60) (by simp) ?_)
    intro i inside
    have small : i < 60 := inside
    rw [byte_slice_of_lt _ small, byte_slice_of_lt _ small, same _ (by rw [OFF_BLOCK]; omega)]
  rw [inodeAt, inodeAt, run, short _ (show OFF_UID_LO + 2 ≤ 128 by decide), short _ (show OFF_UID_HI + 2 ≤ 128 by decide),
    short _ (show OFF_GID_LO + 2 ≤ 128 by decide), short _ (show OFF_GID_HI + 2 ≤ 128 by decide),
    long _ (show OFF_SIZE_LO + 4 ≤ 128 by decide), long _ (show OFF_SIZE_HI + 4 ≤ 128 by decide),
    short _ (show OFF_MODE + 2 ≤ 128 by decide), long _ (show OFF_ATIME + 4 ≤ 128 by decide),
    long _ (show OFF_CTIME + 4 ≤ 128 by decide), long _ (show OFF_MTIME + 4 ≤ 128 by decide),
    long _ (show OFF_DTIME + 4 ≤ 128 by decide), short _ (show OFF_LINKS_COUNT + 2 ≤ 128 by decide),
    long _ (show OFF_BLOCKS_LO + 4 ≤ 128 by decide), short _ (show OFF_BLOCKS_HI + 2 ≤ 128 by decide),
    long _ (show OFF_FLAGS + 4 ≤ 128 by decide), long _ (show OFF_GENERATION + 4 ≤ 128 by decide),
    long _ (show OFF_FILE_ACL_LO + 4 ≤ 128 by decide), short _ (show OFF_FILE_ACL_HI + 2 ≤ 128 by decide)]

end Justext4.Inode
