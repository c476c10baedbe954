import Justext4.Filesystem

/-!
The decoders on arbitrary bytes. Each checks the size of its buffer before it
reads from it, so that whatever the bytes are it ends with a record or with a
typed error, and what an accepted image opens to has one of the four block
sizes and a descriptor for every group.
-/
namespace Justext4.Decoders
open Justext4 Justext4.Fallible Justext4.Fields Justext4.Filesystem Bytes
open Justext4.Superblock (Superblock SUPERBLOCK_SIZE blockSizeOf)
open Justext4.GroupDescriptor (GroupDescriptor highWord highCount)
open Justext4.Extent (ExtentHeader ExtentIndex entry_bytes decode_extent_node)
open Justext4.DirEntry (decode_from decode_dir_block DIR_ENTRY_HEADER_SIZE)

section
variable {ε : Type} {buf : Bytes}

theorem noPanic_read_u16 {off : Nat} (inside : off + 2 ≤ buf.size) : NoPanic (read_u16 buf off : Res ε UInt16) := by
  rw [read_u16_ok inside]
  exact noPanic_ok _
theorem noPanic_read_u32 {off : Nat} (inside : off + 4 ≤ buf.size) : NoPanic (read_u32 buf off : Res ε UInt32) := by
  rw [read_u32_ok inside]
  exact noPanic_ok _
theorem noPanic_range {start stop : Nat} (low : start ≤ stop) (high : stop ≤ buf.size) :
    NoPanic (buf.range start stop : Res ε Bytes) := by
  rw [range_ok low high]
  exact noPanic_ok _
theorem noPanic_index {i : Nat} (inside : i < buf.size) : NoPanic (buf.index i : Res ε UInt8) := by
  rw [index_ok inside]
  exact noPanic_ok _
/-- After a check that holds there is more to know. -/
theorem noPanic_ensure_bind {β : Type} {c : Prop} [Decidable c] {e : ε} {f : Unit → Res ε β}
    (then_ : c → NoPanic (f ())) : NoPanic (ensure (decide c) e >>= f) := by
  refine noPanic_bind (noPanic_ensure _ _) fun u checked => ?_
  exact then_ (of_decide_eq_true (ensure_eq_ok.mp checked))
end

/-! ### Records -/

theorem superblock_noPanic (buf : Bytes) : NoPanic (Superblock.decode buf) := by
  rw [Superblock.decode]
  refine noPanic_ensure_bind fun size => ?_
  have whole : 1024 ≤ buf.size := size
  have short : ∀ off, off + 2 ≤ 1024 → NoPanic (read_u16 buf off : Res Superblock.SuperblockDecodeError UInt16) :=
    fun off inside => noPanic_read_u16 (by omega)
  have long : ∀ off, off + 4 ≤ 1024 → NoPanic (read_u32 buf off : Res Superblock.SuperblockDecodeError UInt32) :=
    fun off inside => noPanic_read_u32 (by omega)
  by_cases magic : buf.u16At Superblock.OFF_MAGIC = Superblock.EXT4_MAGIC
  · cases known : blockSizeOf (buf.u32At Superblock.OFF_LOG_BLOCK_SIZE) with
    | some block_size =>
      have decoded := Superblock.decode_ok block_size whole magic known
      rw [Superblock.decode, ensure_of size, res_bind_ok] at decoded
      rw [decoded]
      exact noPanic_ok _
    | none =>
      refine noPanic_bind (short _ (by decide)) fun _ _ => noPanic_bind (noPanic_ensure _ _) fun _ _ => ?_
      rw [read_u32_ok (by simp only [Superblock.OFF_LOG_BLOCK_SIZE]; omega), res_bind_ok, known]
      exact noPanic_err _
  · rw [read_u16_ok (by simp only [Superblock.OFF_MAGIC]; omega), res_bind_ok,
      show (buf.u16At Superblock.OFF_MAGIC == Superblock.EXT4_MAGIC) = false from beq_eq_false_iff_ne.mpr magic]
    exact noPanic_err _

theorem descriptor_noPanic (buf : Bytes) (sb : Superblock) : NoPanic (GroupDescriptor.decode buf sb) := by
  rw [GroupDescriptor.decode]
  refine noPanic_ensure_bind fun large => noPanic_ensure_bind fun size => ?_
  have short : ∀ off, off + 2 ≤ 32 →
      NoPanic (read_u16 buf off : Res GroupDescriptor.GroupDescriptorDecodeError UInt16) :=
    fun off inside => noPanic_read_u16 (by omega)
  have long : ∀ off, off + 4 ≤ 32 →
      NoPanic (read_u32 buf off : Res GroupDescriptor.GroupDescriptorDecodeError UInt32) :=
    fun off inside => noPanic_read_u32 (by omega)
  have word : ∀ off, off + 4 ≤ 64 → NoPanic (highWord buf (Superblock.group_descriptor_size sb).toNat off) := by
    intro off inside
    rw [highWord]
    split
    · exact noPanic_read_u32 (by omega)
    · exact noPanic_ok _
  have count : ∀ off, off + 2 ≤ 64 → NoPanic (highCount buf (Superblock.group_descriptor_size sb).toNat off) := by
    intro off inside
    rw [highCount]
    split
    · exact noPanic_read_u16 (by omega)
    · exact noPanic_ok _
  refine noPanic_bind (long _ (by decide)) fun _ _ => noPanic_bind (long _ (by decide)) fun _ _ => ?_
  refine noPanic_bind (long _ (by decide)) fun _ _ => noPanic_bind (short _ (by decide)) fun _ _ => ?_
  refine noPanic_bind (short _ (by decide)) fun _ _ => noPanic_bind (short _ (by decide)) fun _ _ => ?_
  refine noPanic_bind (short _ (by decide)) fun _ _ => noPanic_bind (short _ (by decide)) fun _ _ => ?_
  refine noPanic_bind (word _ (by decide)) fun _ _ => noPanic_bind (word _ (by decide)) fun _ _ => ?_
  refine noPanic_bind (word _ (by decide)) fun _ _ => noPanic_bind (count _ (by decide)) fun _ _ => ?_
  refine noPanic_bind (count _ (by decide)) fun _ _ => noPanic_bind (count _ (by decide)) fun _ _ => ?_
  exact noPanic_ok _

theorem inode_noPanic (buf : Bytes) (sb : Superblock) : NoPanic (Inode.decode buf sb) := by
  by_cases sized : 128 ≤ sb.inode_size.toNat
  · by_cases size : sb.inode_size.toNat ≤ buf.size
    · rw [Inode.decode_ok sized size]
      exact noPanic_ok _
    · rw [Inode.decode]
      refine noPanic_ensure_bind fun _ => noPanic_ensure_bind fun enough => ?_
      exact absurd enough size
  · rw [Inode.decode]
    exact noPanic_ensure_bind fun enough => absurd enough sized

theorem node_noPanic (buf : Bytes) : NoPanic (decode_extent_node buf) := by
  have header : NoPanic (ExtentHeader.decode buf) := by
    rw [ExtentHeader.decode]
    refine noPanic_ensure_bind fun size => ?_
    have whole : 12 ≤ buf.size := size
    refine noPanic_bind (noPanic_read_u16 (by omega)) fun _ _ => noPanic_bind (noPanic_ensure _ _) fun _ _ => ?_
    refine noPanic_bind (noPanic_read_u16 (by omega)) fun _ _ => noPanic_bind (noPanic_read_u16 (by omega)) fun _ _ => ?_
    refine noPanic_bind (noPanic_read_u16 (by omega)) fun _ _ => noPanic_bind (noPanic_read_u32 (by omega)) fun _ _ => ?_
    exact noPanic_ok _
  rw [decode_extent_node]
  refine noPanic_bind header fun h _ => noPanic_ensure_bind fun size => ?_
  have entry : ∀ i, i < h.entries.toNat → ∃ part : Bytes, entry_bytes buf i = .ok part ∧ part.size = 12 := by
    intro i inside
    simp only [Extent.EXTENT_HEADER_SIZE, Extent.EXTENT_ENTRY_SIZE] at size
    refine ⟨_, range_ok (by omega) ?_, by simp [Extent.EXTENT_ENTRY_SIZE]⟩
    simp only [Extent.EXTENT_HEADER_SIZE, Extent.EXTENT_ENTRY_SIZE]
    omega
  split
  · refine noPanic_bind (noPanic_collect fun i _ inside => ?_) fun _ _ => noPanic_ok _
    obtain ⟨part, sliced, whole⟩ := entry i (by omega)
    rw [sliced, res_bind_ok, Extent.extent_decode_ok (Nat.le_of_eq whole.symm)]
    exact noPanic_ok _
  · refine noPanic_bind (noPanic_collect fun i _ inside => ?_) fun _ _ => noPanic_ok _
    obtain ⟨part, sliced, whole⟩ := entry i (by omega)
    rw [sliced, res_bind_ok, ExtentIndex.decode]
    refine noPanic_ensure_bind fun _ => noPanic_bind (noPanic_read_u32 (by omega)) fun _ _ => ?_
    exact noPanic_bind (noPanic_read_u16 (by omega)) fun _ _ =>
      noPanic_bind (noPanic_read_u32 (by omega)) fun _ _ => noPanic_ok _

theorem entry_noPanic (buf : Bytes) : NoPanic (DirEntry.decode buf) := by
  rw [DirEntry.decode]
  refine noPanic_ensure_bind fun size => ?_
  have whole : 8 ≤ buf.size := size
  refine noPanic_bind (noPanic_read_u32 (by omega)) fun _ _ => noPanic_bind (noPanic_read_u16 (by omega)) fun _ _ => ?_
  refine noPanic_bind (noPanic_index (by omega)) fun _ _ => noPanic_bind (noPanic_index (by omega)) fun _ _ => ?_
  refine noPanic_bind (noPanic_ensure _ _) fun _ _ => noPanic_bind (noPanic_ensure _ _) fun _ _ => ?_
  refine noPanic_bind (noPanic_ensure _ _) fun _ _ => noPanic_ensure_bind fun inside => ?_
  exact noPanic_bind (noPanic_range (by omega) inside) fun _ _ => noPanic_ok _
/-- Every record moves on, so the scan of a directory ends. -/
theorem dir_block_noPanic (buf : Bytes) : NoPanic (decode_dir_block buf) := by
  suffices all : ∀ left offset, buf.size - offset ≤ left → NoPanic (decode_from buf offset) from all buf.size 0 (by omega)
  intro left
  induction left with
  | zero =>
    intro offset past
    unfold decode_from
    rw [if_neg (by omega)]
    exact noPanic_ok _
  | succ left ih =>
    intro offset near
    unfold decode_from
    split
    · split
      · exact noPanic_err _
      · split
        · rename_i fault refused
          intro panicked
          cases panicked
          exact entry_noPanic _ refused
        · rename_i entry decoded
          have moves := DirEntry.decode_moves decoded
          exact noPanic_bind (ih _ (by omega)) fun _ _ => noPanic_ok _
    · exact noPanic_ok _

/-! ### What an image opens to -/

/-- The superblock and the descriptors of an image that opens. -/
structure Opened (image : Bytes) (fs : Filesystem) : Prop where
  reader : fs.reader = image
  known : fs.superblock.block_size.toNat = 1024 ∨ fs.superblock.block_size.toNat = 2048 ∨
    fs.superblock.block_size.toNat = 4096 ∨ fs.superblock.block_size.toNat = 65536
  blockGroup : fs.superblock.blocks_per_group ≠ 0
  inodeGroup : fs.superblock.inodes_per_group ≠ 0
  groups : fs.gdt.length = (Superblock.group_count fs.superblock).toNat

theorem blockSizeOf_known {log block_size : UInt32} (known : blockSizeOf log = some block_size) :
    block_size.toNat = 1024 ∨ block_size.toNat = 2048 ∨ block_size.toNat = 4096 ∨ block_size.toNat = 65536 := by
  rw [blockSizeOf] at known
  split at known
  · cases known
    decide
  split at known
  · cases known
    decide
  split at known
  · cases known
    decide
  split at known
  · cases known
    decide
  · cases known
theorem superblock_known {buf : Bytes} {sb : Superblock} (decoded : Superblock.decode buf = .ok sb) :
    sb.block_size.toNat = 1024 ∨ sb.block_size.toNat = 2048 ∨ sb.block_size.toNat = 4096 ∨
      sb.block_size.toNat = 65536 := by
  have whole : 1024 ≤ buf.size := by
    rw [Superblock.decode] at decoded
    obtain ⟨_, size, -⟩ := res_bind_eq_ok.mp decoded
    exact of_decide_eq_true (ensure_eq_ok.mp size)
  have magic : buf.u16At Superblock.OFF_MAGIC = Superblock.EXT4_MAGIC := by
    rw [Superblock.decode, ensure_of (show SUPERBLOCK_SIZE ≤ buf.size from whole), res_bind_ok,
      read_u16_ok (by simp only [Superblock.OFF_MAGIC]; omega), res_bind_ok] at decoded
    obtain ⟨_, checked, -⟩ := res_bind_eq_ok.mp decoded
    exact eq_of_beq (ensure_eq_ok.mp checked)
  cases known : blockSizeOf (buf.u32At Superblock.OFF_LOG_BLOCK_SIZE) with
  | some block_size =>
    rw [Superblock.decode_ok block_size whole magic known] at decoded
    cases decoded
    exact blockSizeOf_known known
  | none =>
    rw [Superblock.decode, ensure_of (show SUPERBLOCK_SIZE ≤ buf.size from whole), res_bind_ok,
      read_u16_ok (by simp only [Superblock.OFF_MAGIC]; omega), res_bind_ok, magic, beq_self_eq_true, ensure_true,
      res_bind_ok, read_u32_ok (by simp only [Superblock.OFF_LOG_BLOCK_SIZE]; omega), res_bind_ok, known] at decoded
    cases decoded

theorem length_collect {ε α : Type} {f : Nat → Res ε α} {i n : Nat} {as : List α} (collected : collect f i n = .ok as) :
    as.length = n := by
  induction n generalizing i as with
  | zero =>
    cases collected
    rfl
  | succ n ih =>
    rw [collect] at collected
    obtain ⟨first, -, collected⟩ := res_bind_eq_ok.mp collected
    obtain ⟨rest, later, collected⟩ := res_bind_eq_ok.mp collected
    cases collected
    rw [List.length_cons, ih later]

theorem opened_of {image : Bytes} {fs : Filesystem} (opened : open_image image = .ok fs) : Opened image fs := by
  rw [open_image] at opened
  obtain ⟨sb_buf, -, opened⟩ := res_bind_eq_ok.mp opened
  obtain ⟨sb, decoded, opened⟩ := res_bind_eq_ok.mp opened
  obtain ⟨_, blocks, opened⟩ := res_bind_eq_ok.mp opened
  obtain ⟨_, inodes, opened⟩ := res_bind_eq_ok.mp opened
  obtain ⟨gdt_buf, -, opened⟩ := res_bind_eq_ok.mp opened
  obtain ⟨gdt, table, opened⟩ := res_bind_eq_ok.mp opened
  cases opened
  refine ⟨rfl, ?_, of_decide_eq_true (ensure_eq_ok.mp blocks), of_decide_eq_true (ensure_eq_ok.mp inodes), length_collect table⟩
  cases direct : Superblock.decode sb_buf with
  | ok sb' =>
    rw [direct] at decoded
    cases decoded
    exact superblock_known direct
  | error fault =>
    rw [direct] at decoded
    cases fault <;> cases decoded

theorem noPanic_read_at (image : Bytes) (offset len : Nat) : NoPanic (read_at image offset len) := by
  rw [read_at]
  split
  · exact noPanic_ok _
  · exact noPanic_err _
theorem open_noPanic (image : Bytes) : NoPanic (open_image image) := by
  rw [open_image]
  refine noPanic_bind (noPanic_read_at _ _ _) fun sb_buf _ => ?_
  refine noPanic_bind ((noPanic_liftErr _).mpr (superblock_noPanic _)) fun sb _ => ?_
  refine noPanic_bind (noPanic_ensure _ _) fun _ _ => noPanic_bind (noPanic_ensure _ _) fun _ _ => ?_
  refine noPanic_bind (noPanic_read_at _ _ _) fun gdt_buf table => ?_
  refine noPanic_bind (noPanic_collect fun i _ inside => ?_) fun _ _ => noPanic_ok _
  have size : gdt_buf.size = (Superblock.group_count sb).toNat * (Superblock.group_descriptor_size sb).toNat := by
    rw [read_at] at table
    split at table
    · cases table
      rfl
    · cases table
  have last : (i + 1) * (Superblock.group_descriptor_size sb).toNat ≤ gdt_buf.size := by
    rw [size]
    exact Nat.mul_le_mul_right _ (by omega)
  rw [Nat.succ_mul] at last
  exact noPanic_bind (noPanic_range (by omega) last) fun entry _ => (noPanic_liftErr _).mpr (descriptor_noPanic _ _)

end Justext4.Decoders
