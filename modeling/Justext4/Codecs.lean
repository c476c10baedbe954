import Justext4.Decoders
import Justext4.Images

/-!
The codecs against each other. A record is decoded from its fields and encoded
by writing the same fields over zeros, with the high halves only where the
image has room for them, so what was decoded reads back from its own encoding.
A run of blocks keeps its flag in the bits of its length: the two lengths at
the edge of the flag are the ones that do not come back.
-/
namespace Justext4.Codecs
open Justext4 Justext4.Fallible Justext4.Fields Bytes

theorem patches_append (buf : Bytes) (xs ys : List (Nat × Bytes)) :
    patches buf (xs ++ ys) = patches (patches buf xs) ys := by
  induction xs generalizing buf with
  | nil => rfl
  | cons f xs ih =>
    obtain ⟨offset, src⟩ := f
    rw [List.cons_append, patches, patches, ih]

theorem join_words (x : UInt64) :
    UInt64.ofNat ((UInt32.ofNat (x.toNat / 4294967296)).toNat * 4294967296 + (UInt32.ofNat x.toNat).toNat) = x := by
  apply UInt64.toNat_inj.mp
  have bound := x.toNat_lt
  simp only [UInt64.toNat_ofNat', UInt32.toNat_ofNat']
  omega
theorem join_low {x : UInt64} (small : x.toNat < 4294967296) : UInt64.ofNat (UInt32.ofNat x.toNat).toNat = x := by
  apply UInt64.toNat_inj.mp
  simp only [UInt64.toNat_ofNat', UInt32.toNat_ofNat']
  omega
theorem join_counts (x : UInt32) :
    UInt32.ofNat ((UInt16.ofNat (x.toNat / 65536)).toNat * 65536 + (UInt16.ofNat x.toNat).toNat) = x := by
  apply UInt32.toNat_inj.mp
  have bound := x.toNat_lt
  simp only [UInt32.toNat_ofNat', UInt16.toNat_ofNat']
  omega
theorem join_low_count {x : UInt32} (small : x.toNat < 65536) : UInt32.ofNat (UInt16.ofNat x.toNat).toNat = x := by
  apply UInt32.toNat_inj.mp
  simp only [UInt32.toNat_ofNat', UInt16.toNat_ofNat']
  omega

/-! ### Superblocks -/

section
open Justext4.Superblock (Superblock SUPERBLOCK_SIZE REV_DYNAMIC DEFAULT_INODE_SIZE is_64bit superblockAt blockSizeOf
  logBlockSizeOf combine_hi_lo)

/-- What an accepted buffer has, and the superblock that it holds. -/
theorem superblock_decode_inv {buf : Bytes} {sb : Superblock} (decoded : Superblock.decode buf = .ok sb) :
    1024 ≤ buf.size ∧ buf.u16At Superblock.OFF_MAGIC = Superblock.EXT4_MAGIC ∧
      ∃ block_size, blockSizeOf (buf.u32At Superblock.OFF_LOG_BLOCK_SIZE) = some block_size ∧
        sb = superblockAt buf block_size := by
  have whole : 1024 ≤ buf.size := by
    rw [Superblock.decode] at decoded
    obtain ⟨_, size, -⟩ := res_bind_eq_ok.mp decoded
    exact of_decide_eq_true (ensure_eq_ok.mp size)
  have magic : buf.u16At Superblock.OFF_MAGIC = Superblock.EXT4_MAGIC := by
    rw [Superblock.decode, ensure_of (show SUPERBLOCK_SIZE ≤ buf.size from whole), res_bind_ok,
      read_u16_ok (by simp only [Superblock.OFF_MAGIC]; omega), res_bind_ok] at decoded
    obtain ⟨_, checked, -⟩ := res_bind_eq_ok.mp decoded
    exact eq_of_beq (ensure_eq_ok.mp checked)
  refine ⟨whole, magic, ?_⟩
  cases known : blockSizeOf (buf.u32At Superblock.OFF_LOG_BLOCK_SIZE) with
  | some block_size =>
    rw [Superblock.decode_ok block_size whole magic known] at decoded
    cases decoded
    exact ⟨block_size, rfl, rfl⟩
  | none =>
    rw [Superblock.decode, ensure_of (show SUPERBLOCK_SIZE ≤ buf.size from whole), res_bind_ok,
      read_u16_ok (by simp only [Superblock.OFF_MAGIC]; omega), res_bind_ok, magic, beq_self_eq_true, ensure_true,
      res_bind_ok, read_u32_ok (by simp only [Superblock.OFF_LOG_BLOCK_SIZE]; omega), res_bind_ok, known] at decoded
    cases decoded

theorem logBlockSizeOf_known {log block_size : UInt32} (known : blockSizeOf log = some block_size) :
    logBlockSizeOf block_size = some log := by
  unfold blockSizeOf at known
  split at known
  · rename_i same; cases known; subst same; rfl
  split at known
  · rename_i same; cases known; subst same; rfl
  split at known
  · rename_i same; cases known; subst same; rfl
  split at known
  · rename_i same; cases known; subst same; rfl
  · cases known

/-- Every field that is written, the high halves last. -/
def superblockFields (self : Superblock) (log_block_size : UInt32) : List (Nat × Bytes) :=
  Superblock.fields self log_block_size ++ if is_64bit self then Superblock.highFields self else []

theorem superblock_spans (self : Superblock) (log : UInt32) :
    (superblockFields self log).map span =
      (Superblock.fields self log).map span ++ if is_64bit self then [(336, 4), (344, 4)] else [] := by
  unfold superblockFields
  rw [List.map_append]
  split <;> rfl
theorem superblock_high_spans (self : Superblock) : (Superblock.highFields self).map span = [(336, 4), (344, 4)] := rfl
theorem superblock_high_within (self : Superblock) : Within 1024 (Superblock.highFields self) :=
  within_of_spans (superblock_high_spans self) (by decide)
theorem superblock_within (self : Superblock) (log : UInt32) : Within 1024 (superblockFields self log) := by
  refine within_of_spans (superblock_spans self log) ?_
  rw [Superblock.spans]
  split <;> decide
theorem superblock_apart (self : Superblock) (log : UInt32) : (superblockFields self log).Pairwise Apart := by
  refine apart_of_spans (superblock_spans self log) ?_
  rw [Superblock.spans]
  split <;> decide

/-- The superblock bytes written at the start of a buffer. -/
def superblockImage (self : Superblock) (log_block_size : UInt32) (out : Bytes) : Bytes :=
  patches (out.patch 0 (zeros 1024)) (superblockFields self log_block_size)

theorem size_superblockImage (self : Superblock) (log : UInt32) {out : Bytes} (size : 1024 ≤ out.size) :
    (superblockImage self log out).size = out.size := by
  have cleared : (out.patch 0 (zeros 1024)).size = out.size := size_patch _ _ _ (by simpa using size)
  rw [superblockImage, size_patches (superblock_within self log) _ (by omega), cleared]

theorem superblock_encode {self : Superblock} {log : UInt32} (known : logBlockSizeOf self.block_size = some log)
    {out : Bytes} (size : 1024 ≤ out.size) : Superblock.encode_into self out = .ok (superblockImage self log out) := by
  have cleared : (out.patch 0 (zeros 1024)).size = out.size := size_patch _ _ _ (by simpa using size)
  have enough : SUPERBLOCK_SIZE ≤ out.size := size
  have low := Superblock.within self log
  have lows : (patches (out.patch 0 (zeros 1024)) (Superblock.fields self log)).size = out.size := by
    rw [size_patches low _ (by omega), cleared]
  rw [Superblock.encode_into, ensure_of enough, res_bind_ok, SUPERBLOCK_SIZE, copy_ok (by simpa using size), res_bind_ok,
    known, okOr_some, res_bind_ok, writeAll_ok low _ (by omega), res_bind_ok, superblockImage, superblockFields]
  split
  · rename_i wide
    rw [writeAll_ok (superblock_high_within self) _ (by omega), patches_append]
  · rw [List.append_nil]

/-- The values that come back from their own encoding: an old revision has
    the default inode size, a 32-bit image has 32-bit counts of blocks. -/
structure Storable (sb : Superblock) : Prop where
  sized : REV_DYNAMIC ≤ sb.rev_level → sb.inode_size ≠ 0
  fixed : ¬ REV_DYNAMIC ≤ sb.rev_level → sb.inode_size = DEFAULT_INODE_SIZE
  blocks : is_64bit sb = false → sb.blocks_count.toNat < 4294967296
  free : is_64bit sb = false → sb.free_blocks_count.toNat < 4294967296

theorem superblockAt_storable (buf : Bytes) (block_size : UInt32) : Storable (superblockAt buf block_size) := by
  refine ⟨fun dynamic => ?_, fun fixed => ?_, fun narrow => ?_, fun narrow => ?_⟩
  · have dynamic' : REV_DYNAMIC ≤ buf.u32At Superblock.OFF_REV_LEVEL := dynamic
    simp only [superblockAt, dynamic', ↓reduceIte]
    split
    · decide
    · assumption
  · have fixed' : ¬ REV_DYNAMIC ≤ buf.u32At Superblock.OFF_REV_LEVEL := fixed
    simp only [superblockAt, fixed', ↓reduceIte]
  · have narrow' : (buf.u32At Superblock.OFF_FEATURE_INCOMPAT &&& Superblock.FEATURE_INCOMPAT_64BIT != 0) = false := narrow
    simp only [superblockAt, narrow', combine_hi_lo, Bool.false_eq_true, ↓reduceIte, UInt64.toNat_ofNat']
    have := (buf.u32At Superblock.OFF_BLOCKS_COUNT_LO).toNat_lt
    omega
  · have narrow' : (buf.u32At Superblock.OFF_FEATURE_INCOMPAT &&& Superblock.FEATURE_INCOMPAT_64BIT != 0) = false := narrow
    simp only [superblockAt, narrow', combine_hi_lo, Bool.false_eq_true, ↓reduceIte, UInt64.toNat_ofNat']
    have := (buf.u32At Superblock.OFF_FREE_BLOCKS_COUNT_LO).toNat_lt
    omega

/-- The counts of blocks read back, whichever width they are written with. -/
theorem combine_fields {self : Superblock} {log : UInt32} {buf : Bytes} {lo hi : Nat} {count : UInt64}
    (low : (lo, le32 (.ofNat count.toNat)) ∈ superblockFields self log)
    (high : is_64bit self = true → (hi, le32 (.ofNat (count.toNat / 4294967296))) ∈ superblockFields self log)
    (small : is_64bit self = false → count.toNat < 4294967296) :
    combine_hi_lo ((patches buf (superblockFields self log)).u32At hi) ((patches buf (superblockFields self log)).u32At lo)
      (is_64bit self) = count := by
  have disjoint := superblock_apart self log
  rw [u32At_patches disjoint _ _ low, combine_hi_lo]
  cases wide : is_64bit self with
  | true => rw [u32At_patches disjoint _ _ (high wide), if_pos rfl, join_words]
  | false => rw [if_neg Bool.false_ne_true, join_low (small wide)]

/-- A superblock that its own encoding can hold reads back from it. -/
theorem superblock_decode_image {self : Superblock} {log : UInt32} (known : logBlockSizeOf self.block_size = some log)
    (storable : Storable self) {out : Bytes} (size : 1024 ≤ out.size) :
    Superblock.decode (superblockImage self log out) = .ok self := by
  have disjoint := superblock_apart self log
  have lower : ∀ {f}, f ∈ Superblock.fields self log → f ∈ superblockFields self log :=
    fun member => List.mem_append_left _ member
  have upper : is_64bit self = true → ∀ {f}, f ∈ Superblock.highFields self → f ∈ superblockFields self log :=
    fun wide _ member => List.mem_append_right _ (by rw [if_pos wide]; exact member)
  have long : ∀ (offset : Nat) (value : UInt32), (offset, le32 value) ∈ Superblock.fields self log →
      (superblockImage self log out).u32At offset = value := fun _ _ member => u32At_patches disjoint _ _ (lower member) _
  have short : ∀ (offset : Nat) (value : UInt16), (offset, le16 value) ∈ Superblock.fields self log →
      (superblockImage self log out).u16At offset = value := fun _ _ member => u16At_patches disjoint _ _ (lower member) _
  have run : ∀ (offset : Nat) (value : FixedBytes 16), (offset, value.bytes) ∈ Superblock.fields self log →
      FixedBytes.ofSlice (superblockImage self log out) offset 16 = value :=
    fun _ _ member => Superblock.ofSlice_patches disjoint (lower member) _
  have last : (superblockImage self log out).byte Superblock.OFF_DEF_HASH_VERSION = self.def_hash_version :=
    Superblock.byte_patches disjoint (lower (by simp [Superblock.fields])) _
  have blocks : combine_hi_lo ((superblockImage self log out).u32At Superblock.OFF_BLOCKS_COUNT_HI)
      ((superblockImage self log out).u32At Superblock.OFF_BLOCKS_COUNT_LO) (is_64bit self) = self.blocks_count :=
    combine_fields (lower (by simp [Superblock.fields]))
      (fun wide => upper wide (by simp [Superblock.highFields])) storable.blocks
  have free : combine_hi_lo ((superblockImage self log out).u32At Superblock.OFF_FREE_BLOCKS_COUNT_HI)
      ((superblockImage self log out).u32At Superblock.OFF_FREE_BLOCKS_COUNT_LO) (is_64bit self) =
        self.free_blocks_count :=
    combine_fields (lower (by simp [Superblock.fields]))
      (fun wide => upper wide (by simp [Superblock.highFields])) storable.free
  have inode_size : (if REV_DYNAMIC ≤ self.rev_level then
      (if self.inode_size = 0 then DEFAULT_INODE_SIZE else self.inode_size) else DEFAULT_INODE_SIZE) = self.inode_size := by
    by_cases dynamic : REV_DYNAMIC ≤ self.rev_level
    · rw [if_pos dynamic, if_neg (storable.sized dynamic)]
    · rw [if_neg dynamic, storable.fixed dynamic]
  rw [Superblock.decode_ok self.block_size (by rw [size_superblockImage self log size]; exact size)
    (short _ _ (by simp [Superblock.fields]))
    (by rw [long _ log (by simp [Superblock.fields]), Superblock.blockSizeOf_log known])]
  have flag : (self.feature_incompat &&& Superblock.FEATURE_INCOMPAT_64BIT != 0) = is_64bit self := rfl
  simp only [superblockAt, long Superblock.OFF_REV_LEVEL self.rev_level (by simp [Superblock.fields]),
    short Superblock.OFF_INODE_SIZE self.inode_size (by simp [Superblock.fields]), inode_size,
    long Superblock.OFF_FEATURE_INCOMPAT self.feature_incompat (by simp [Superblock.fields]), flag, blocks, free,
    long Superblock.OFF_INODES_COUNT self.inodes_count (by simp [Superblock.fields]),
    long Superblock.OFF_FREE_INODES_COUNT self.free_inodes_count (by simp [Superblock.fields]),
    long Superblock.OFF_FEATURE_COMPAT self.feature_compat (by simp [Superblock.fields]),
    long Superblock.OFF_FEATURE_RO_COMPAT self.feature_ro_compat (by simp [Superblock.fields]),
    run Superblock.OFF_UUID self.uuid (by simp [Superblock.fields]),
    run Superblock.OFF_VOLUME_NAME self.volume_name (by simp [Superblock.fields]),
    run Superblock.OFF_HASH_SEED self.hash_seed (by simp [Superblock.fields]),
    short Superblock.OFF_DESC_SIZE self.desc_size (by simp [Superblock.fields]),
    long Superblock.OFF_FIRST_DATA_BLOCK self.first_data_block (by simp [Superblock.fields]),
    long Superblock.OFF_BLOCKS_PER_GROUP self.blocks_per_group (by simp [Superblock.fields]),
    long Superblock.OFF_INODES_PER_GROUP self.inodes_per_group (by simp [Superblock.fields]),
    long Superblock.OFF_MTIME self.mtime (by simp [Superblock.fields]),
    long Superblock.OFF_WTIME self.wtime (by simp [Superblock.fields]),
    short Superblock.OFF_MNT_COUNT self.mount_count (by simp [Superblock.fields]),
    short Superblock.OFF_MAX_MNT_COUNT self.max_mount_count (by simp [Superblock.fields]),
    short Superblock.OFF_STATE self.state (by simp [Superblock.fields]),
    short Superblock.OFF_ERRORS self.errors (by simp [Superblock.fields]),
    short Superblock.OFF_MINOR_REV_LEVEL self.minor_rev_level (by simp [Superblock.fields]),
    long Superblock.OFF_LASTCHECK self.last_check (by simp [Superblock.fields]),
    long Superblock.OFF_CHECKINTERVAL self.check_interval (by simp [Superblock.fields]),
    long Superblock.OFF_CREATOR_OS self.creator_os (by simp [Superblock.fields]),
    long Superblock.OFF_FIRST_INO self.first_ino (by simp [Superblock.fields]), last]

end

/-! ### Group descriptors -/

section
open Justext4.Superblock (Superblock group_descriptor_size)
open Justext4.GroupDescriptor (GroupDescriptor GroupDescriptorDecodeError highWord highCount combine_addr combine_count)

/-- The high half in an entry of `n` bytes. -/
def highWordAt (buf : Bytes) (n offset : Nat) : UInt32 := if 64 ≤ n then buf.u32At offset else 0
def highCountAt (buf : Bytes) (n offset : Nat) : UInt16 := if 64 ≤ n then buf.u16At offset else 0

/-- The descriptor that an entry of `n` bytes holds. -/
def descriptorOf (buf : Bytes) (n : Nat) : GroupDescriptor where
  block_bitmap := combine_addr (highWordAt buf n GroupDescriptor.OFF_BLOCK_BITMAP_HI)
    (buf.u32At GroupDescriptor.OFF_BLOCK_BITMAP_LO)
  inode_bitmap := combine_addr (highWordAt buf n GroupDescriptor.OFF_INODE_BITMAP_HI)
    (buf.u32At GroupDescriptor.OFF_INODE_BITMAP_LO)
  inode_table := combine_addr (highWordAt buf n GroupDescriptor.OFF_INODE_TABLE_HI)
    (buf.u32At GroupDescriptor.OFF_INODE_TABLE_LO)
  free_blocks_count := combine_count (highCountAt buf n GroupDescriptor.OFF_FREE_BLOCKS_COUNT_HI)
    (buf.u16At GroupDescriptor.OFF_FREE_BLOCKS_COUNT_LO)
  free_inodes_count := combine_count (highCountAt buf n GroupDescriptor.OFF_FREE_INODES_COUNT_HI)
    (buf.u16At GroupDescriptor.OFF_FREE_INODES_COUNT_LO)
  used_dirs_count := combine_count (highCountAt buf n GroupDescriptor.OFF_USED_DIRS_COUNT_HI)
    (buf.u16At GroupDescriptor.OFF_USED_DIRS_COUNT_LO)
  flags := buf.u16At GroupDescriptor.OFF_FLAGS
  checksum := buf.u16At GroupDescriptor.OFF_CHECKSUM

theorem descriptor_decode {buf : Bytes} {sb : Superblock} {n : Nat} (same : (group_descriptor_size sb).toNat = n)
    (large : 32 ≤ n) (size : n ≤ buf.size) : GroupDescriptor.decode buf sb = .ok (descriptorOf buf n) := by
  have short : ∀ off, off + 2 ≤ 32 → (read_u16 buf off : Res GroupDescriptorDecodeError _) = .ok (buf.u16At off) :=
    fun off le => read_u16_ok (by omega)
  have long : ∀ off, off + 4 ≤ 32 → (read_u32 buf off : Res GroupDescriptorDecodeError _) = .ok (buf.u32At off) :=
    fun off le => read_u32_ok (by omega)
  have word : ∀ off, off + 4 ≤ 64 → highWord buf n off = .ok (highWordAt buf n off) := by
    intro off le
    unfold highWord highWordAt
    split
    · exact read_u32_ok (by omega)
    · rfl
  have count : ∀ off, off + 2 ≤ 64 → highCount buf n off = .ok (highCountAt buf n off) := by
    intro off le
    unfold highCount highCountAt
    split
    · exact read_u16_ok (by omega)
    · rfl
  rw [GroupDescriptor.decode]
  simp only [same, large, size, decide_true, ensure_true, res_bind_ok,
    long _ (show GroupDescriptor.OFF_BLOCK_BITMAP_LO + 4 ≤ 32 by decide),
    long _ (show GroupDescriptor.OFF_INODE_BITMAP_LO + 4 ≤ 32 by decide),
    long _ (show GroupDescriptor.OFF_INODE_TABLE_LO + 4 ≤ 32 by decide),
    short _ (show GroupDescriptor.OFF_FREE_BLOCKS_COUNT_LO + 2 ≤ 32 by decide),
    short _ (show GroupDescriptor.OFF_FREE_INODES_COUNT_LO + 2 ≤ 32 by decide),
    short _ (show GroupDescriptor.OFF_USED_DIRS_COUNT_LO + 2 ≤ 32 by decide),
    short _ (show GroupDescriptor.OFF_FLAGS + 2 ≤ 32 by decide),
    short _ (show GroupDescriptor.OFF_CHECKSUM + 2 ≤ 32 by decide),
    word _ (show GroupDescriptor.OFF_BLOCK_BITMAP_HI + 4 ≤ 64 by decide),
    word _ (show GroupDescriptor.OFF_INODE_BITMAP_HI + 4 ≤ 64 by decide),
    word _ (show GroupDescriptor.OFF_INODE_TABLE_HI + 4 ≤ 64 by decide),
    count _ (show GroupDescriptor.OFF_FREE_BLOCKS_COUNT_HI + 2 ≤ 64 by decide),
    count _ (show GroupDescriptor.OFF_FREE_INODES_COUNT_HI + 2 ≤ 64 by decide),
    count _ (show GroupDescriptor.OFF_USED_DIRS_COUNT_HI + 2 ≤ 64 by decide), descriptorOf]

theorem descriptor_decode_inv {buf : Bytes} {sb : Superblock} {gd : GroupDescriptor}
    (decoded : GroupDescriptor.decode buf sb = .ok gd) :
    32 ≤ (group_descriptor_size sb).toNat ∧ (group_descriptor_size sb).toNat ≤ buf.size ∧
      gd = descriptorOf buf (group_descriptor_size sb).toNat := by
  have parts := decoded
  rw [GroupDescriptor.decode] at parts
  obtain ⟨_, large, parts⟩ := res_bind_eq_ok.mp parts
  obtain ⟨_, size, -⟩ := res_bind_eq_ok.mp parts
  have large' := of_decide_eq_true (ensure_eq_ok.mp large)
  have size' := of_decide_eq_true (ensure_eq_ok.mp size)
  rw [descriptor_decode rfl large' size'] at decoded
  cases decoded
  exact ⟨large', size', rfl⟩

/-- Every field that is written to an entry of `n` bytes, the high halves last. -/
def descriptorFields (self : GroupDescriptor) (n : Nat) : List (Nat × Bytes) :=
  GroupDescriptor.fields self ++ if 64 ≤ n then GroupDescriptor.highFields self else []

theorem descriptor_spans (self : GroupDescriptor) (n : Nat) :
    (descriptorFields self n).map span = (GroupDescriptor.fields self).map span ++
      if 64 ≤ n then [(32, 4), (36, 4), (40, 4), (44, 2), (46, 2), (48, 2)] else [] := by
  unfold descriptorFields
  rw [List.map_append]
  split <;> rfl
theorem descriptor_high_spans (self : GroupDescriptor) :
    (GroupDescriptor.highFields self).map span = [(32, 4), (36, 4), (40, 4), (44, 2), (46, 2), (48, 2)] := rfl
theorem descriptor_high_within (self : GroupDescriptor) : Within 64 (GroupDescriptor.highFields self) :=
  within_of_spans (descriptor_high_spans self) (by decide)
theorem descriptor_within (self : GroupDescriptor) {n : Nat} (large : 32 ≤ n) : Within n (descriptorFields self n) := by
  intro f member
  rcases List.mem_append.mp member with low | high
  · exact Nat.le_trans (GroupDescriptor.within self f low) large
  · split at high
    · exact Nat.le_trans (descriptor_high_within self f high) (by assumption)
    · cases high
theorem descriptor_apart (self : GroupDescriptor) (n : Nat) : (descriptorFields self n).Pairwise Apart := by
  refine apart_of_spans (descriptor_spans self n) ?_
  rw [GroupDescriptor.spans]
  split <;> decide

/-- The entry of `n` bytes written at the start of a buffer. -/
def descriptorImage (self : GroupDescriptor) (n : Nat) (out : Bytes) : Bytes :=
  patches (out.patch 0 (zeros n)) (descriptorFields self n)

theorem size_descriptorImage (self : GroupDescriptor) {n : Nat} (large : 32 ≤ n) {out : Bytes} (size : n ≤ out.size) :
    (descriptorImage self n out).size = out.size := by
  have cleared : (out.patch 0 (zeros n)).size = out.size := size_patch _ _ _ (by simpa using size)
  rw [descriptorImage, size_patches (descriptor_within self large) _ (by omega), cleared]

theorem descriptor_encode (self : GroupDescriptor) {sb : Superblock} {n : Nat}
    (same : (group_descriptor_size sb).toNat = n) (large : 32 ≤ n) {out : Bytes} (size : n ≤ out.size) :
    GroupDescriptor.encode_into self out sb = .ok (descriptorImage self n out) := by
  have cleared : (out.patch 0 (zeros n)).size = out.size := size_patch _ _ _ (by simpa using size)
  have low : Within n (GroupDescriptor.fields self) :=
    fun f member => Nat.le_trans (GroupDescriptor.within self f member) large
  have lows : (patches (out.patch 0 (zeros n)) (GroupDescriptor.fields self)).size = out.size := by
    rw [size_patches low _ (by omega), cleared]
  rw [GroupDescriptor.encode_into, same, ensure_of large, res_bind_ok, ensure_of size, res_bind_ok,
    copy_ok (by simpa using size), res_bind_ok, writeAll_ok low _ (by omega), res_bind_ok, descriptorImage, descriptorFields]
  split
  · rename_i wide
    rw [writeAll_ok (descriptor_high_within self) _ (by omega), patches_append]
  · rw [List.append_nil]

theorem highWordAt_image (self : GroupDescriptor) {n lo hi : Nat} {out : Bytes} (address : UInt64)
    (low : (lo, le32 (.ofNat address.toNat)) ∈ descriptorFields self n)
    (high : 64 ≤ n → (hi, le32 (.ofNat (address.toNat / 4294967296))) ∈ descriptorFields self n)
    (small : ¬ 64 ≤ n → address.toNat < 4294967296) :
    combine_addr (highWordAt (descriptorImage self n out) n hi) ((descriptorImage self n out).u32At lo) = address := by
  have disjoint := descriptor_apart self n
  rw [descriptorImage, u32At_patches disjoint _ _ low, combine_addr, highWordAt]
  by_cases wide : 64 ≤ n
  · rw [if_pos wide, u32At_patches disjoint _ _ (high wide), join_words]
  · rw [if_neg wide, UInt32.toNat_zero, Nat.zero_mul, Nat.zero_add, join_low (small wide)]
theorem highCountAt_image (self : GroupDescriptor) {n lo hi : Nat} {out : Bytes} (count : UInt32)
    (low : (lo, le16 (.ofNat count.toNat)) ∈ descriptorFields self n)
    (high : 64 ≤ n → (hi, le16 (.ofNat (count.toNat / 65536))) ∈ descriptorFields self n)
    (small : ¬ 64 ≤ n → count.toNat < 65536) :
    combine_count (highCountAt (descriptorImage self n out) n hi) ((descriptorImage self n out).u16At lo) = count := by
  have disjoint := descriptor_apart self n
  rw [descriptorImage, u16At_patches disjoint _ _ low, combine_count, highCountAt]
  by_cases wide : 64 ≤ n
  · rw [if_pos wide, u16At_patches disjoint _ _ (high wide), join_counts]
  · rw [if_neg wide, UInt16.toNat_zero, Nat.zero_mul, Nat.zero_add, join_low_count (small wide)]

/-- Values that an entry of `n` bytes has room for. -/
structure Fits (gd : GroupDescriptor) (n : Nat) : Prop where
  block_bitmap : ¬ 64 ≤ n → gd.block_bitmap.toNat < 4294967296
  inode_bitmap : ¬ 64 ≤ n → gd.inode_bitmap.toNat < 4294967296
  inode_table : ¬ 64 ≤ n → gd.inode_table.toNat < 4294967296
  free_blocks_count : ¬ 64 ≤ n → gd.free_blocks_count.toNat < 65536
  free_inodes_count : ¬ 64 ≤ n → gd.free_inodes_count.toNat < 65536
  used_dirs_count : ¬ 64 ≤ n → gd.used_dirs_count.toNat < 65536

theorem combine_addr_narrow (buf : Bytes) {n : Nat} (narrow : ¬ 64 ≤ n) (hi lo : Nat) :
    (combine_addr (highWordAt buf n hi) (buf.u32At lo)).toNat < 4294967296 := by
  have bound := (buf.u32At lo).toNat_lt
  rw [highWordAt, if_neg narrow, combine_addr, UInt32.toNat_zero, UInt64.toNat_ofNat']
  omega
theorem combine_count_narrow (buf : Bytes) {n : Nat} (narrow : ¬ 64 ≤ n) (hi lo : Nat) :
    (combine_count (highCountAt buf n hi) (buf.u16At lo)).toNat < 65536 := by
  have bound := (buf.u16At lo).toNat_lt
  rw [highCountAt, if_neg narrow, combine_count, UInt16.toNat_zero, UInt32.toNat_ofNat']
  omega
theorem descriptorOf_fits (buf : Bytes) (n : Nat) : Fits (descriptorOf buf n) n where
  block_bitmap narrow := combine_addr_narrow buf narrow _ _
  inode_bitmap narrow := combine_addr_narrow buf narrow _ _
  inode_table narrow := combine_addr_narrow buf narrow _ _
  free_blocks_count narrow := combine_count_narrow buf narrow _ _
  free_inodes_count narrow := combine_count_narrow buf narrow _ _
  used_dirs_count narrow := combine_count_narrow buf narrow _ _

/-- A descriptor that fits its entry reads back from it. -/
theorem descriptorOf_image {self : GroupDescriptor} {n : Nat} (fits : Fits self n) (out : Bytes) :
    descriptorOf (descriptorImage self n out) n = self := by
  have disjoint := descriptor_apart self n
  have lower : ∀ {f}, f ∈ GroupDescriptor.fields self → f ∈ descriptorFields self n :=
    fun member => List.mem_append_left _ member
  have upper : ∀ {f}, f ∈ GroupDescriptor.highFields self → 64 ≤ n → f ∈ descriptorFields self n :=
    fun member wide => List.mem_append_right _ (by rw [if_pos wide]; exact member)
  have short : ∀ {offset : Nat} (value : UInt16), (offset, le16 value) ∈ GroupDescriptor.fields self →
      (descriptorImage self n out).u16At offset = value := fun _ member => u16At_patches disjoint _ _ (lower member) _
  rw [descriptorOf,
    highWordAt_image self self.block_bitmap (lower (by simp [GroupDescriptor.fields]))
      (upper (by simp [GroupDescriptor.highFields])) fits.block_bitmap,
    highWordAt_image self self.inode_bitmap (lower (by simp [GroupDescriptor.fields]))
      (upper (by simp [GroupDescriptor.highFields])) fits.inode_bitmap,
    highWordAt_image self self.inode_table (lower (by simp [GroupDescriptor.fields]))
      (upper (by simp [GroupDescriptor.highFields])) fits.inode_table,
    highCountAt_image self self.free_blocks_count (lower (by simp [GroupDescriptor.fields]))
      (upper (by simp [GroupDescriptor.highFields])) fits.free_blocks_count,
    highCountAt_image self self.free_inodes_count (lower (by simp [GroupDescriptor.fields]))
      (upper (by simp [GroupDescriptor.highFields])) fits.free_inodes_count,
    highCountAt_image self self.used_dirs_count (lower (by simp [GroupDescriptor.fields]))
      (upper (by simp [GroupDescriptor.highFields])) fits.used_dirs_count,
    short self.flags (by simp [GroupDescriptor.fields]), short self.checksum (by simp [GroupDescriptor.fields])]

end

/-! ### Inodes -/

section
open Justext4.Superblock (Superblock)
open Justext4.Inode (Inode MIN_INODE_SIZE inodeAt)

/-- The record of `n` bytes written at the start of a buffer. -/
def inodeImage (self : Inode) (n : Nat) (out : Bytes) : Bytes := patches (out.patch 0 (zeros n)) (Inode.fields self)

theorem size_inodeImage (self : Inode) {n : Nat} (sized : 128 ≤ n) {out : Bytes} (size : n ≤ out.size) :
    (inodeImage self n out).size = out.size := by
  have cleared : (out.patch 0 (zeros n)).size = out.size := size_patch _ _ _ (by simpa using size)
  rw [inodeImage, size_patches (Inode.within self) _ (by omega), cleared]

theorem inode_encode (self : Inode) {sb : Superblock} {n : Nat} (same : sb.inode_size.toNat = n) (sized : 128 ≤ n)
    {out : Bytes} (size : n ≤ out.size) : Inode.encode_into self out sb = .ok (inodeImage self n out) := by
  have cleared : (out.patch 0 (zeros n)).size = out.size := size_patch _ _ _ (by simpa using size)
  have enough : MIN_INODE_SIZE.toNat ≤ n := sized
  rw [Inode.encode_into, same, ensure_of enough, res_bind_ok, ensure_of size, res_bind_ok,
    copy_ok (by simpa using size), res_bind_ok, writeAll_ok (Inode.within self) _ (by omega), inodeImage]

/-- What was written over other bytes is what is written over zeros. -/
theorem inodeAt_image (self : Inode) (n : Nat) (out : Bytes) : inodeAt (inodeImage self n out) = self := by
  have disjoint := Inode.apart self
  have long : ∀ {offset : Nat} (value : UInt32), (offset, le32 value) ∈ Inode.fields self →
      (inodeImage self n out).u32At offset = value := fun _ member => u32At_patches disjoint _ _ member _
  have short : ∀ {offset : Nat} (value : UInt16), (offset, le16 value) ∈ Inode.fields self →
      (inodeImage self n out).u16At offset = value := fun _ member => u16At_patches disjoint _ _ member _
  have run : FixedBytes.ofSlice (inodeImage self n out) Inode.OFF_BLOCK 60 = self.block :=
    Superblock.ofSlice_patches disjoint (by simp [Inode.fields]) _
  rw [inodeAt, run, short self.mode (by simp [Inode.fields]),
    short (.ofNat (self.uid.toNat / 65536)) (by simp [Inode.fields]),
    short (.ofNat self.uid.toNat) (by simp [Inode.fields]),
    short (.ofNat (self.gid.toNat / 65536)) (by simp [Inode.fields]),
    short (.ofNat self.gid.toNat) (by simp [Inode.fields]),
    long (.ofNat (self.size.toNat / 4294967296)) (by simp [Inode.fields]),
    long (.ofNat self.size.toNat) (by simp [Inode.fields]),
    long self.atime (by simp [Inode.fields]), long self.ctime (by simp [Inode.fields]),
    long self.mtime (by simp [Inode.fields]), long self.dtime (by simp [Inode.fields]),
    short self.links_count (by simp [Inode.fields]), long self.blocks_lo (by simp [Inode.fields]),
    short self.blocks_hi (by simp [Inode.fields]), long self.flags (by simp [Inode.fields]),
    long self.generation (by simp [Inode.fields]), long self.file_acl_lo (by simp [Inode.fields]),
    short self.file_acl_hi (by simp [Inode.fields]), Inode.combine32_split, Inode.combine32_split,
    Inode.combine64_split]

end

/-! ### The three codecs -/

section
open Justext4.Superblock (Superblock group_descriptor_size)
open Justext4.GroupDescriptor (GroupDescriptor)
open Justext4.Inode (Inode)

theorem superblock_round {buf out : Bytes} {sb : Superblock} (decoded : Superblock.decode buf = .ok sb)
    (size : 1024 ≤ out.size) : ∃ bytes, Superblock.encode_into sb out = .ok bytes ∧ bytes.size = out.size ∧
      Superblock.decode bytes = .ok sb := by
  obtain ⟨-, -, block_size, known, rfl⟩ := superblock_decode_inv decoded
  have inverse : Superblock.logBlockSizeOf (Superblock.superblockAt buf block_size).block_size = some _ :=
    logBlockSizeOf_known known
  refine ⟨_, superblock_encode inverse size, size_superblockImage _ _ size, ?_⟩
  exact superblock_decode_image inverse (superblockAt_storable buf block_size) size

theorem descriptor_round {buf out : Bytes} {sb : Superblock} {gd : GroupDescriptor}
    (decoded : GroupDescriptor.decode buf sb = .ok gd) (size : (group_descriptor_size sb).toNat ≤ out.size) :
    ∃ bytes, GroupDescriptor.encode_into gd out sb = .ok bytes ∧ bytes.size = out.size ∧
      GroupDescriptor.decode bytes sb = .ok gd := by
  obtain ⟨large, -, rfl⟩ := descriptor_decode_inv decoded
  refine ⟨_, descriptor_encode _ rfl large size, size_descriptorImage _ large size, ?_⟩
  rw [descriptor_decode rfl large (by rw [size_descriptorImage _ large size]; exact size),
    descriptorOf_image (descriptorOf_fits buf _)]

theorem inode_round (inode : Inode) {out : Bytes} {sb : Superblock} (sized : 128 ≤ sb.inode_size.toNat)
    (size : sb.inode_size.toNat ≤ out.size) : ∃ bytes, Inode.encode_into inode out sb = .ok bytes ∧
      bytes.size = out.size ∧ Inode.decode bytes sb = .ok inode := by
  refine ⟨_, inode_encode inode rfl sized size, size_inodeImage inode sized size, ?_⟩
  rw [Inode.decode_ok sized (by rw [size_inodeImage inode sized size]; exact size), inodeAt_image]

/-- Whatever was decoded is encoded into any buffer with room for it, and
    decodes from there to the same value; so does every inode. -/
theorem records_agree :
    (∀ (buf out : Bytes) (sb : Superblock), Superblock.decode buf = .ok sb → 1024 ≤ out.size →
      ∃ bytes, Superblock.encode_into sb out = .ok bytes ∧ bytes.size = out.size ∧ Superblock.decode bytes = .ok sb) ∧
    (∀ (buf out : Bytes) (sb : Superblock) (gd : GroupDescriptor), 32 ≤ (group_descriptor_size sb).toNat →
      GroupDescriptor.decode buf sb = .ok gd → (group_descriptor_size sb).toNat ≤ out.size →
      ∃ bytes, GroupDescriptor.encode_into gd out sb = .ok bytes ∧ bytes.size = out.size ∧
        GroupDescriptor.decode bytes sb = .ok gd) ∧
    (∀ (inode : Inode) (out : Bytes) (sb : Superblock), 128 ≤ sb.inode_size.toNat → sb.inode_size.toNat ≤ out.size →
      ∃ bytes, Inode.encode_into inode out sb = .ok bytes ∧ bytes.size = out.size ∧ Inode.decode bytes sb = .ok inode) := by
  refine ⟨?_, ?_, ?_⟩
  · intro buf out sb decoded size
    exact superblock_round decoded size
  · intro buf out sb gd _ decoded size
    exact descriptor_round decoded size
  · intro inode out sb sized size
    exact inode_round inode sized size

/-- A superblock of a 64-bit image with descriptors of 64 bytes. -/
def wideSuperblock : Superblock :=
  { Images.plain 1024 16 4294967304 1 8192 16 with feature_incompat := 0xC2, desc_size := 64 }
def wideDescriptor : GroupDescriptor := ⟨4294967299, 4, 5, 70000, 16, 2, 0, 0⟩
def ownedInode : Inode :=
  { mode := 0x81A4, uid := 70000, gid := 80000, size := 4294967300, atime := 1, ctime := 2, mtime := 3, dtime := 0
    links_count := 1, blocks_lo := 8, blocks_hi := 0, flags := 0x80000, block := .zeros 60, generation := 9
    file_acl_lo := 0, file_acl_hi := 0 }

theorem wide_records_agree :
    (∃ bytes, Superblock.encode_into wideSuperblock (zeros 1024) = .ok bytes ∧ bytes.size = 1024 ∧
      Superblock.decode bytes = .ok wideSuperblock) ∧
    (∃ bytes, GroupDescriptor.encode_into wideDescriptor (zeros 64) wideSuperblock = .ok bytes ∧ bytes.size = 64 ∧
      GroupDescriptor.decode bytes wideSuperblock = .ok wideDescriptor) ∧
    (∃ bytes, Inode.encode_into ownedInode (zeros 256) wideSuperblock = .ok bytes ∧ bytes.size = 256 ∧
      Inode.decode bytes wideSuperblock = .ok ownedInode) := by
  have written : Superblock.decode (superblockImage wideSuperblock 0 (zeros 1024)) = .ok wideSuperblock :=
    superblock_decode_image (by decide)
      ⟨by decide, by decide, by decide, by decide⟩ (by simp)
  have entry : GroupDescriptor.decode (descriptorImage wideDescriptor 64 (zeros 64)) wideSuperblock = .ok wideDescriptor := by
    rw [descriptor_decode (n := 64) (by decide) (by decide) (by rw [size_descriptorImage _ (by decide) (by simp)]; simp),
      descriptorOf_image ⟨by decide, by decide, by decide, by decide, by decide, by decide⟩]
  obtain ⟨superblock, descriptor, inode⟩ := records_agree
  exact ⟨superblock _ _ _ written (by simp), descriptor _ _ _ _ (by decide) entry (by decide),
    inode ownedInode _ _ (by decide) (by decide)⟩

end

/-! ### Runs of blocks -/

section
open Justext4.Extent

/-- The length as it is written, the flag in its top bit. -/
def rawLen (self : Extent) : UInt16 := if self.uninit then self.len + EXTENT_UNINIT_THRESHOLD else self.len

/-- The flag and the length can be told apart when the flag is set on 1 to 32767 blocks. -/
def Expressible (e : Extent) : Prop := e.uninit = true → e.len ≠ 0 ∧ e.len ≠ EXTENT_UNINIT_THRESHOLD
instance (e : Extent) : Decidable (Expressible e) := inferInstanceAs (Decidable (_ → _))

theorem extent_encode {self : Extent} {buf : Bytes} (size : 12 ≤ buf.size) (short : self.len ≤ EXTENT_UNINIT_THRESHOLD)
    (room : self.uninit = true → self.len ≠ EXTENT_UNINIT_THRESHOLD) :
    Extent.encode_into self buf = .ok (patches buf (self.fields (rawLen self))) := by
  have low : self.len.toNat ≤ 32768 := short
  have sum : (!self.uninit || decide (self.len.toNat + EXTENT_UNINIT_THRESHOLD.toNat < 65536)) = true := by
    cases flag : self.uninit with
    | false => rfl
    | true =>
      have other : self.len.toNat ≠ 32768 := fun same => room flag (UInt16.toNat_inj.mp same)
      have apart : self.len.toNat + EXTENT_UNINIT_THRESHOLD.toNat < 65536 := by
        simp only [EXTENT_UNINIT_THRESHOLD]
        have : (32768 : UInt16).toNat = 32768 := rfl
        omega
      simp [apart]
  rw [Extent.encode_into, ensure_of (show EXTENT_ENTRY_SIZE ≤ buf.size from size), res_bind_ok, ensure_of short, res_bind_ok,
    sum, orPanic_true, res_bind_ok]
  exact writeAll_ok (extent_within self _) buf size

/-- What was encoded passed every check on the way. -/
theorem extent_encode_inv {self : Extent} {buf bytes : Bytes} (encoded : Extent.encode_into self buf = .ok bytes) :
    12 ≤ buf.size ∧ self.len ≤ EXTENT_UNINIT_THRESHOLD ∧
      (self.uninit = true → self.len ≠ EXTENT_UNINIT_THRESHOLD) ∧ bytes = patches buf (self.fields (rawLen self)) := by
  have parts := encoded
  rw [Extent.encode_into] at parts
  obtain ⟨_, size, parts⟩ := res_bind_eq_ok.mp parts
  obtain ⟨_, short, parts⟩ := res_bind_eq_ok.mp parts
  obtain ⟨_, sum, -⟩ := res_bind_eq_ok.mp parts
  have size' := of_decide_eq_true (ensure_eq_ok.mp size)
  have short' := of_decide_eq_true (ensure_eq_ok.mp short)
  have room : self.uninit = true → self.len ≠ EXTENT_UNINIT_THRESHOLD := by
    intro flag same
    have passed := orPanic_eq_ok.mp sum
    rw [flag, same] at passed
    exact absurd passed (by decide)
  rw [extent_encode size' short' room] at encoded
  cases encoded
  exact ⟨size', short', room, rfl⟩

/-- The written length and flag, read back. -/
theorem rawLen_back {self : Extent} (short : self.len ≤ EXTENT_UNINIT_THRESHOLD)
    (room : self.uninit = true → self.len ≠ EXTENT_UNINIT_THRESHOLD) :
    (if EXTENT_UNINIT_THRESHOLD < rawLen self then rawLen self - EXTENT_UNINIT_THRESHOLD else rawLen self) = self.len ∧
      decide (EXTENT_UNINIT_THRESHOLD < rawLen self) = self.uninit ↔ Expressible self := by
  have top : EXTENT_UNINIT_THRESHOLD.toNat = 32768 := rfl
  have low : self.len.toNat ≤ 32768 := short
  cases flag : self.uninit with
  | false =>
    have raw : rawLen self = self.len := by rw [rawLen, flag, if_neg Bool.false_ne_true]
    have below : ¬ EXTENT_UNINIT_THRESHOLD < self.len := UInt16.not_lt.mpr short
    rw [raw, if_neg below, decide_eq_false below]
    exact ⟨fun _ set => absurd (flag.symm.trans set) Bool.false_ne_true, fun _ => ⟨rfl, rfl⟩⟩
  | true =>
    have raw : rawLen self = self.len + EXTENT_UNINIT_THRESHOLD := by rw [rawLen, flag, if_pos rfl]
    have other : self.len.toNat ≠ 32768 := fun same => room flag (UInt16.toNat_inj.mp same)
    have sum : (self.len + EXTENT_UNINIT_THRESHOLD).toNat = self.len.toNat + 32768 := by
      rw [UInt16.toNat_add, top]
      omega
    rw [raw]
    by_cases none_ : self.len = 0
    · have below : ¬ EXTENT_UNINIT_THRESHOLD < self.len + EXTENT_UNINIT_THRESHOLD := by
        rw [UInt16.lt_iff_toNat_lt, sum, top, none_]
        decide
      rw [decide_eq_false below]
      exact ⟨fun both => absurd both.2 Bool.false_ne_true, fun told => absurd none_ (told flag).1⟩
    · have some_ : self.len.toNat ≠ 0 := fun same => none_ (UInt16.toNat_inj.mp same)
      have above : EXTENT_UNINIT_THRESHOLD < self.len + EXTENT_UNINIT_THRESHOLD := by
        rw [UInt16.lt_iff_toNat_lt, sum, top]
        omega
      have back : self.len + EXTENT_UNINIT_THRESHOLD - EXTENT_UNINIT_THRESHOLD = self.len := by simp
      rw [if_pos above, decide_eq_true above, back]
      exact ⟨fun _ _ => ⟨none_, room flag⟩, fun _ => ⟨rfl, rfl⟩⟩

/-- An encoded run reads back exactly when its length and its flag can be told apart. -/
theorem extentAt_encoded {self : Extent} (small : self.physical_block.toNat < 281474976710656)
    (short : self.len ≤ EXTENT_UNINIT_THRESHOLD) (room : self.uninit = true → self.len ≠ EXTENT_UNINIT_THRESHOLD)
    (buf : Bytes) : extentAt (patches buf (self.fields (rawLen self))) 0 = self ↔ Expressible self := by
  have apart := extent_apart self (rawLen self)
  have held : extentAt (patches buf (self.fields (rawLen self))) 0 =
      { self with
        len := if EXTENT_UNINIT_THRESHOLD < rawLen self then rawLen self - EXTENT_UNINIT_THRESHOLD else rawLen self
        uninit := decide (EXTENT_UNINIT_THRESHOLD < rawLen self) } := by
    simp only [extentAt, Extent.fields, Nat.zero_add] at *
    rw [u32At_patches apart _ self.logical_block (by simp), u16At_patches apart _ (rawLen self) (by simp),
      u16At_patches apart _ (.ofNat (self.physical_block.toNat / 4294967296)) (by simp),
      u32At_patches apart _ (.ofNat self.physical_block.toNat) (by simp), combine48_split _ small]
  rw [held, ← rawLen_back short room]
  constructor
  · intro same
    exact ⟨congrArg Extent.len same, congrArg Extent.uninit same⟩
  · rintro ⟨len, flag⟩
    rw [len, flag]

/-- Encoding reports an error of its own kind, or leaves twelve bytes that decode to the same run. -/
def RoundTrips (e : Extent) : Prop := ∀ buf : Bytes,
  (∃ error, Extent.encode_into e buf = .error (.err error)) ∨
    ∃ bytes, Extent.encode_into e buf = .ok bytes ∧ bytes.size = buf.size ∧
      (∀ i, 12 ≤ i → bytes.byte i = buf.byte i) ∧ Extent.decode bytes = .ok e

/-- A length past the edge is refused before anything is written. -/
theorem long_refused {e : Extent} (long : ¬ e.len ≤ EXTENT_UNINIT_THRESHOLD) (buf : Bytes) :
    ∃ error, Extent.encode_into e buf = .error (.err error) := by
  rw [Extent.encode_into]
  by_cases size : EXTENT_ENTRY_SIZE ≤ buf.size
  · rw [ensure_of size, res_bind_ok, ensure_not long]
    exact ⟨_, rfl⟩
  · rw [ensure_not size]
    exact ⟨_, rfl⟩
theorem long_neither {e : Extent} (long : ¬ e.len ≤ EXTENT_UNINIT_THRESHOLD) :
    e.len ≠ 0 ∧ e.len ≠ EXTENT_UNINIT_THRESHOLD := by
  constructor
  · intro none_
    rw [none_] at long
    exact long (by decide)
  · intro edge
    rw [edge] at long
    exact long (by decide)

theorem roundTrips_iff {e : Extent} (small : e.physical_block.toNat < 281474976710656) :
    RoundTrips e ↔ Expressible e := by
  by_cases range : ¬ e.len ≤ EXTENT_UNINIT_THRESHOLD
  · exact ⟨fun _ _ => long_neither range, fun _ buf => .inl (long_refused range buf)⟩
  have short : e.len ≤ EXTENT_UNINIT_THRESHOLD := Decidable.not_not.mp range
  constructor
  · intro rounds
    rcases rounds (zeros 12) with ⟨error, refused⟩ | ⟨bytes, encoded, size, -, decoded⟩
    · -- With room for the entry and a length in range only the overflow is left.
      intro flag
      refine absurd refused ?_
      rw [Extent.encode_into, ensure_of (show EXTENT_ENTRY_SIZE ≤ (zeros 12).size from Nat.le_refl 12), res_bind_ok,
        ensure_of short, res_bind_ok]
      cases orPanic_ : (!e.uninit || decide (e.len.toNat + EXTENT_UNINIT_THRESHOLD.toNat < 65536)) with
      | true =>
        rw [orPanic_true, res_bind_ok, writeAll_ok (extent_within e _) _ (by simp)]
        exact fun same => by cases same
      | false => exact fun same => by cases same
    · obtain ⟨-, -, room, rfl⟩ := extent_encode_inv encoded
      rw [extent_decode_ok (by rw [size]; simp)] at decoded
      exact (extentAt_encoded small short room _).mp (Except.ok.inj decoded)
  · intro told buf
    by_cases size : 12 ≤ buf.size
    · have written : (patches buf (e.fields (rawLen e))).size = buf.size := size_patches (extent_within e _) _ size
      refine .inr ⟨_, extent_encode size short fun flag => (told flag).2, written, ?_, ?_⟩
      · intro i past
        exact byte_patches_past (extent_within e _) _ past
      · rw [extent_decode_ok (by omega), (extentAt_encoded small short (fun flag => (told flag).2) _).mpr told]
    · refine .inl ?_
      rw [Extent.encode_into, ensure_not (show ¬ EXTENT_ENTRY_SIZE ≤ buf.size from size)]
      exact ⟨_, rfl⟩

theorem le16_u16At (b : Bytes) (i : Nat) : le16 (b.u16At i) = b.slice i 2 := by
  refine ext_inside (by simp) fun k inside => ?_
  have small : k < 2 := inside
  have first := (b.byte i).toNat_lt
  have second := (b.byte (i + 1)).toNat_lt
  rw [byte_slice_of_lt _ small]
  rcases k with _ | _ | k
  · apply UInt8.toNat_inj.mp
    simp [le16, u16At]
  · apply UInt8.toNat_inj.mp
    simp [le16, u16At]
    omega
  · omega
theorem le32_u32At (b : Bytes) (i : Nat) : le32 (b.u32At i) = b.slice i 4 := by
  refine ext_inside (by simp) fun k inside => ?_
  have small : k < 4 := inside
  have first := (b.byte i).toNat_lt
  have second := (b.byte (i + 1)).toNat_lt
  have third := (b.byte (i + 2)).toNat_lt
  have fourth := (b.byte (i + 3)).toNat_lt
  rw [byte_slice_of_lt _ small]
  rcases k with _ | _ | _ | _ | k
  · apply UInt8.toNat_inj.mp
    simp [le32, u32At]
    omega
  · apply UInt8.toNat_inj.mp
    simp [le32, u32At]
    omega
  · apply UInt8.toNat_inj.mp
    simp [le32, u32At]
    omega
  · apply UInt8.toNat_inj.mp
    simp [le32, u32At]
    omega
  · omega

/-- The four fields of an entry are all of its bytes. -/
theorem entry_covered {self : Extent} {raw_len : UInt16} {a b : Bytes} (size : a.size = 12) (size' : b.size = 12)
    (logical : b.slice 0 4 = le32 self.logical_block) (len : b.slice 4 2 = le16 raw_len)
    (high : b.slice 6 2 = le16 (.ofNat (self.physical_block.toNat / 4294967296)))
    (low : b.slice 8 4 = le32 (.ofNat self.physical_block.toNat)) : patches a (self.fields raw_len) = b := by
  have written : (patches a (self.fields raw_len)).size = 12 := by
    rw [size_patches (extent_within self raw_len) _ (Nat.le_of_eq size.symm), size]
  have apart := extent_apart self raw_len
  have part : ∀ (offset n : Nat) (src : Bytes), b.slice offset n = src → src.size = n →
      (offset, src) ∈ self.fields raw_len →
      ∀ k < n, (patches a (self.fields raw_len)).byte (offset + k) = b.byte (offset + k) := by
    intro offset n src held sized member k inside
    have back := slice_patches_mem apart member a
    rw [sized, ← held] at back
    have same := congrArg (fun bytes => bytes.byte k) back
    simpa only [byte_slice_of_lt _ inside] using same
  refine ext_inside (by rw [written, size']) fun i inside => ?_
  rw [written] at inside
  rcases Nat.lt_or_ge i 4 with first | first
  · simpa using part 0 4 _ logical rfl (by simp [Extent.fields]) i first
  rcases Nat.lt_or_ge i 6 with second | second
  · have same := part 4 2 _ len rfl (by simp [Extent.fields]) (i - 4) (by omega)
    rwa [show 4 + (i - 4) = i by omega] at same
  rcases Nat.lt_or_ge i 8 with third | third
  · have same := part 6 2 _ high rfl (by simp [Extent.fields]) (i - 6) (by omega)
    rwa [show 6 + (i - 6) = i by omega] at same
  · have same := part 8 4 _ low rfl (by simp [Extent.fields]) (i - 8) (by omega)
    rwa [show 8 + (i - 8) = i by omega] at same

theorem high_of_combine (hi : UInt16) (lo : UInt32) :
    UInt16.ofNat ((combine48 hi lo).toNat / 4294967296) = hi ∧ UInt32.ofNat (combine48 hi lo).toNat = lo := by
  have small := hi.toNat_lt
  have low := lo.toNat_lt
  constructor
  · apply UInt16.toNat_inj.mp
    simp only [combine48, UInt64.toNat_ofNat', UInt16.toNat_ofNat']
    omega
  · apply UInt32.toNat_inj.mp
    simp only [combine48, UInt64.toNat_ofNat', UInt32.toNat_ofNat']
    omega

/-- The length that is written for a decoded run is the one that was read. -/
theorem rawLen_extentAt (raw : Bytes) (pos : Nat) : (extentAt raw pos).len ≤ EXTENT_UNINIT_THRESHOLD ∧
    Expressible (extentAt raw pos) ∧ rawLen (extentAt raw pos) = raw.u16At (pos + 4) := by
  have top : EXTENT_UNINIT_THRESHOLD.toNat = 32768 := rfl
  have bound := (raw.u16At (pos + 4)).toNat_lt
  by_cases above : EXTENT_UNINIT_THRESHOLD < raw.u16At (pos + 4)
  · have len : (extentAt raw pos).len = raw.u16At (pos + 4) - EXTENT_UNINIT_THRESHOLD := if_pos above
    have flag : (extentAt raw pos).uninit = true := decide_eq_true above
    have more : 32768 < (raw.u16At (pos + 4)).toNat := above
    have difference : (raw.u16At (pos + 4) - EXTENT_UNINIT_THRESHOLD).toNat = (raw.u16At (pos + 4)).toNat - 32768 :=
      UInt16.toNat_sub_of_le _ _ (UInt16.le_of_lt above)
    refine ⟨?_, fun _ => ⟨?_, ?_⟩, ?_⟩
    · rw [len, UInt16.le_iff_toNat_le, difference, top]
      omega
    · intro none_
      have zero := congrArg UInt16.toNat (len.symm.trans none_)
      rw [difference, UInt16.toNat_zero] at zero
      omega
    · intro edge
      have full := congrArg UInt16.toNat (len.symm.trans edge)
      rw [difference, top] at full
      omega
    · rw [rawLen, flag, if_pos rfl, len]
      simp
  · have len : (extentAt raw pos).len = raw.u16At (pos + 4) := if_neg above
    have flag : (extentAt raw pos).uninit = false := decide_eq_false above
    refine ⟨len ▸ UInt16.not_lt.mp above, fun set => ?_, ?_⟩
    · exact absurd (flag.symm.trans set) Bool.false_ne_true
    · rw [rawLen, flag, if_neg Bool.false_ne_true, len]

/-- Encoding what twelve bytes decode to gives the twelve bytes again. -/
theorem encode_decoded {raw out : Bytes} (size : raw.size = 12) (size' : out.size = 12) :
    Extent.encode_into (extentAt raw 0) out = .ok raw := by
  obtain ⟨short, told, len⟩ := rawLen_extentAt raw 0
  rw [extent_encode (Nat.le_of_eq size'.symm) short (fun flag => (told flag).2), len]
  obtain ⟨high, low⟩ := high_of_combine (raw.u16At 6) (raw.u32At 8)
  have logical : (extentAt raw 0).logical_block = raw.u32At 0 := rfl
  have physical : (extentAt raw 0).physical_block = combine48 (raw.u16At 6) (raw.u32At 8) := rfl
  refine congrArg Except.ok (entry_covered size' size ?_ ?_ ?_ ?_)
  · rw [logical, le32_u32At]
  · rw [le16_u16At]
  · rw [physical, high, le16_u16At]
  · rw [physical, low, le32_u32At]

/-- A header and the runs after it, each in its twelve bytes. -/
structure LaidOut (header : ExtentHeader) (es : List Extent) (buf : Bytes) : Prop where
  size : 12 + es.length * 12 ≤ buf.size
  header : ExtentHeader.encode_into header (zeros 12) = .ok (buf.slice 0 12)
  entries : ∀ i (inside : i < es.length), Extent.encode_into es[i] (zeros 12) = .ok (buf.slice (12 + i * 12) 12)

/-- A node decodes to the runs laid out in it exactly when none of them is at the edge of the flag. -/
theorem decode_laidOut {header : ExtentHeader} {es : List Extent} {buf : Bytes} (depth : header.depth = 0)
    (count : header.entries.toNat = es.length) (small : ∀ e ∈ es, e.physical_block.toNat < 281474976710656)
    (laid : LaidOut header es buf) :
    decode_extent_node buf = .ok (.Leaf header es) ↔ ∀ e ∈ es, Expressible e := by
  have written := laid.header
  rw [header_encode_ok header (by simp)] at written
  have first : buf.slice 0 12 = patches (zeros 12) header.fields := (Except.ok.inj written).symm
  have short : ∀ off, off + 2 ≤ 12 → (buf.slice 0 12).u16At off = buf.u16At off := fun off le =>
    u16At_congr fun k near => by rw [byte_slice_of_lt _ (by omega), Nat.zero_add]
  have long : (buf.slice 0 12).u32At 8 = buf.u32At 8 :=
    u32At_congr fun k near => by rw [byte_slice_of_lt _ (by omega), Nat.zero_add]
  have head : headerAt buf = header := by
    have back := headerAt_patches header (zeros 12)
    rw [← first] at back
    rw [← back, headerAt, headerAt, short 2 (by decide), short 4 (by decide), short 6 (by decide), long]
  have magic : buf.u16At 0 = EXTENT_HEADER_MAGIC := by
    have back := magic_patches header (zeros 12)
    rw [← first, short 0 (by decide)] at back
    exact back
  have entries : (buf.u16At 2).toNat = es.length := by
    rw [← count, ← head, headerAt]
  have leaf : buf.u16At 6 = 0 := by
    rw [← depth, ← head, headerAt]
  rw [decode_leaf laid.size magic entries leaf, head]
  have each : ∀ i (inside : i < es.length), extentAt buf (12 + i * 12) = es[i] ↔ Expressible es[i] := by
    intro i inside
    obtain ⟨-, len, room, held⟩ := extent_encode_inv (laid.entries i inside)
    rw [← extentAt_slice, held]
    exact extentAt_encoded (small _ (List.getElem_mem inside)) len room _
  constructor
  · intro same e member
    obtain ⟨i, inside, rfl⟩ := List.getElem_of_mem member
    have runs := ExtentNode.Leaf.inj (Except.ok.inj same)
    refine (each i inside).mp ?_
    have at_ := congrArg (fun l => l[i]?) runs.2
    simpa [inside] using at_
  · intro told
    refine congrArg (fun l => Except.ok (ExtentNode.Leaf header l)) (List.ext_getElem (by simp) ?_)
    intro i low inside
    rw [List.getElem_map, List.getElem_range', Nat.zero_add, Nat.one_mul]
    exact (each i inside).mpr (told _ (List.getElem_mem inside))

/-- A run of blocks survives its encoding exactly when it is not flagged with
    one of the two lengths at the edge of the flag; the twelve bytes of an
    entry always survive decoding and encoding; and a leaf decodes to the runs
    that were laid out in it exactly when all of them survive. -/
theorem extents_survive (e : Extent) (raw out : Bytes) (header : ExtentHeader) (es : List Extent) (buf : Bytes) :
    (e.physical_block.toNat < 281474976710656 → (RoundTrips e ↔ Expressible e)) ∧
    (raw.size = 12 → out.size = 12 → ∃ e, Extent.decode raw = .ok e ∧ Extent.encode_into e out = .ok raw) ∧
    (header.depth = 0 → header.entries.toNat = es.length →
      (∀ e ∈ es, e.physical_block.toNat < 281474976710656) → LaidOut header es buf →
      (decode_extent_node buf = .ok (.Leaf header es) ↔ ∀ e ∈ es, Expressible e)) := by
  refine ⟨?_, ?_, ?_⟩
  · intro small
    exact roundTrips_iff small
  · intro size size'
    exact ⟨_, extent_decode_ok (Nat.le_of_eq size.symm), encode_decoded size size'⟩
  · intro depth count small laid
    exact decode_laidOut depth count small laid

/-- A leaf of one flagged run of five blocks at block 9, and its 24 bytes. -/
def flaggedHeader : ExtentHeader := ⟨1, 4, 0, 0⟩
def flaggedRun : Extent := ⟨3, 5, 9, true⟩
def flaggedLeaf : Bytes := ofList [0x0A, 0xF3, 1, 0, 4, 0, 0, 0, 0, 0, 0, 0, 3, 0, 0, 0, 5, 0x80, 0, 0, 9, 0, 0, 0]

theorem flaggedLeaf_laidOut : LaidOut flaggedHeader [flaggedRun] flaggedLeaf where
  size := by decide
  header := by
    rw [header_encode_ok flaggedHeader (by simp)]
    exact congrArg Except.ok (by decide)
  entries i inside := by
    have first : i = 0 := by simpa using inside
    subst first
    have encoded : Extent.encode_into flaggedRun (zeros 12) = .ok (patches (zeros 12) (flaggedRun.fields 0x8005)) :=
      extent_encode (by simp) (by decide) (by decide)
    exact encoded.trans (congrArg Except.ok (by decide))

theorem flagged_survives :
    RoundTrips flaggedRun ∧
    (∃ e, Extent.decode (flaggedLeaf.slice 12 12) = .ok e ∧
      Extent.encode_into e (zeros 12) = .ok (flaggedLeaf.slice 12 12)) ∧
    decode_extent_node flaggedLeaf = .ok (.Leaf flaggedHeader [flaggedRun]) := by
  obtain ⟨rounds, entry, leaf⟩ :=
    extents_survive flaggedRun (flaggedLeaf.slice 12 12) (zeros 12) flaggedHeader [flaggedRun] flaggedLeaf
  refine ⟨(rounds (by decide)).mpr (by decide), entry rfl rfl, ?_⟩
  exact (leaf rfl rfl (by decide) flaggedLeaf_laidOut).mpr (by decide)

/-- A flagged run of no blocks decodes as 32768 blocks of data, and one of
    32768 blocks overflows the addition. -/
theorem edge_lost :
    (∃ bytes, Extent.encode_into ⟨0, 0, 7, true⟩ (zeros 12) = .ok bytes ∧
      Extent.decode bytes = .ok ⟨0, 32768, 7, false⟩) ∧
    Extent.encode_into ⟨0, 32768, 7, true⟩ (zeros 12) = .error .panic ∧
    ¬ ∀ e : Extent, e.physical_block.toNat < 281474976710656 → RoundTrips e := by
  refine ⟨⟨_, extent_encode (by simp) (by decide) (by decide), ?_⟩, by rfl, ?_⟩
  · rw [extent_decode_ok (by rw [size_patches (extent_within _ _) _ (by simp)]; simp)]
    rfl
  · intro all
    exact absurd ((roundTrips_iff (by decide)).mp (all ⟨0, 0, 7, true⟩ (by decide))) (by decide)

end
end Justext4.Codecs
