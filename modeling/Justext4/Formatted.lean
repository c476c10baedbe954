import Justext4.Entries
import Justext4.Mkfs

/-!
The image that `format` writes. Its parts lie apart from one another, unless
the blocks are so small that the descriptor is written over the superblock;
around them the image is zero.
-/
namespace Justext4.Formatted
open Justext4 Justext4.Fallible Justext4.Filesystem Justext4.Volumes Justext4.Mkfs Bytes
open Justext4.Superblock (Superblock SUPERBLOCK_OFFSET SUPERBLOCK_SIZE)
open Justext4.GroupDescriptor (GroupDescriptor)
open Justext4.Inode (Inode inodeAt)
open Justext4.DirEntry (DirEntry encode_range)
open Justext4.Backing (Lists listing)
open Justext4.Entries (dots_ok tail_room)
open Justext4.Runs (runBlock)

/-! ### Parts written over one another -/

/-- The writes of `format`, given the block size and where the root block and
    the image end. -/
def stacked (d root total : Nat) (sb gd inode dots blocks inodes : Bytes) : Bytes :=
  (((((((zeros 0).patch 1024 sb).patch d gd).patch (4 * d + 256) inode).patch root dots).patch (2 * d) blocks).patch (3 * d)
    inodes).patch (total - 1) (zeros 1)

/-- The sizes of the parts, and that they fit. -/
structure Parts (d root total : Nat) (sb gd inode dots blocks inodes : Bytes) : Prop where
  block : 1024 ≤ d
  table : 4 * d + 512 ≤ root
  inside : root + d ≤ total
  sbSize : sb.size = 1024
  gdSize : gd.size = 32
  inodeSize : inode.size = 256
  dotsSize : dots.size = d
  blocksSize : blocks.size = d
  inodesSize : inodes.size = d
  last : dots.byte (d - 1) = 0

section
variable {d root total : Nat} {sb gd inode dots blocks inodes : Bytes}

theorem max_patch {b src : Bytes} {start : Nat} (some : src.size ≠ 0) :
    (b.patch start src).size = max b.size (start + src.size) := if_neg some

theorem size_stacked (parts : Parts d root total sb gd inode dots blocks inodes) :
    (stacked d root total sb gd inode dots blocks inodes).size = total := by
  obtain ⟨block, table, inside, sbSize, gdSize, inodeSize, dotsSize, blocksSize, inodesSize, -⟩ := parts
  simp only [stacked, max_patch (show sb.size ≠ 0 by omega), max_patch (show gd.size ≠ 0 by omega),
    max_patch (show inode.size ≠ 0 by omega), max_patch (show dots.size ≠ 0 by omega),
    max_patch (show blocks.size ≠ 0 by omega), max_patch (show inodes.size ≠ 0 by omega),
    max_patch (show (zeros 1).size ≠ 0 by simp), size_zeros, sbSize, gdSize, inodeSize, dotsSize, blocksSize, inodesSize]
  omega

/-- Every byte is that of the part it lies in. -/
theorem byte_stacked (parts : Parts d root total sb gd inode dots blocks inodes) (i : Nat) :
    (stacked d root total sb gd inode dots blocks inodes).byte i =
      if d ≤ i ∧ i < d + 32 then gd.byte (i - d)
      else if 1024 ≤ i ∧ i < 2048 then sb.byte (i - 1024)
      else if 2 * d ≤ i ∧ i < 3 * d then blocks.byte (i - 2 * d)
      else if 3 * d ≤ i ∧ i < 4 * d then inodes.byte (i - 3 * d)
      else if 4 * d + 256 ≤ i ∧ i < 4 * d + 512 then inode.byte (i - (4 * d + 256))
      else if root ≤ i ∧ i < root + d then dots.byte (i - root)
      else 0 := by
  obtain ⟨block, table, inside, sbSize, gdSize, inodeSize, dotsSize, blocksSize, inodesSize, last⟩ := parts
  simp only [stacked, byte_patch, size_zeros, byte_zeros, sbSize, gdSize, inodeSize, dotsSize, blocksSize, inodesSize]
  -- The last byte is written as zero, and is zero anyway.
  by_cases final : total - 1 ≤ i ∧ i < total - 1 + 1
  · rw [if_pos final, if_neg (by omega), if_neg (by omega), if_neg (by omega), if_neg (by omega), if_neg (by omega)]
    by_cases within : root ≤ i ∧ i < root + d
    · rw [if_pos within, show i - root = d - 1 by omega, last]
    · rw [if_neg within]
  rw [if_neg final]
  by_cases descriptor : d ≤ i ∧ i < d + 32
  · rw [if_neg (by omega), if_neg (by omega), if_neg (by omega), if_neg (by omega), if_pos descriptor, if_pos descriptor]
  rw [if_neg descriptor, if_neg descriptor]
  by_cases superblock : 1024 ≤ i ∧ i < 2048
  · rw [if_neg (by omega), if_neg (by omega), if_neg (by omega), if_neg (by omega), if_pos (by omega), if_pos superblock]
  rw [if_neg (show ¬ (1024 ≤ i ∧ i < 1024 + 1024) by omega), if_neg superblock]
  by_cases blockBits : 2 * d ≤ i ∧ i < 3 * d
  · rw [if_neg (by omega), if_pos (by omega), if_pos blockBits]
  rw [if_neg (show ¬ (2 * d ≤ i ∧ i < 2 * d + d) by omega), if_neg blockBits]
  by_cases inodeBits : 3 * d ≤ i ∧ i < 4 * d
  · rw [if_pos (by omega), if_pos inodeBits]
  rw [if_neg (show ¬ (3 * d ≤ i ∧ i < 3 * d + d) by omega), if_neg inodeBits]
  by_cases slot : 4 * d + 256 ≤ i ∧ i < 4 * d + 512
  · rw [if_neg (by omega), if_pos (by omega), if_pos slot]
  rw [if_neg (show ¬ (4 * d + 256 ≤ i ∧ i < 4 * d + 256 + 256) by omega), if_neg slot]

theorem slice_eq {b src : Bytes} {start n : Nat} (size : src.size = n)
    (same : ∀ i < n, b.byte (start + i) = src.byte i) : b.slice start n = src := by
  refine ext_inside size.symm fun i small => ?_
  have lt : i < n := small
  rw [byte_slice_of_lt _ lt, same i lt]

/-- The parts are where they have been written. -/
theorem slice_descriptor (parts : Parts d root total sb gd inode dots blocks inodes) :
    (stacked d root total sb gd inode dots blocks inodes).slice d 32 = gd := by
  refine slice_eq parts.gdSize fun i small => ?_
  rw [byte_stacked parts, if_pos (by omega), Nat.add_sub_cancel_left]
theorem slice_superblock (parts : Parts d root total sb gd inode dots blocks inodes) (large : 2048 ≤ d) :
    (stacked d root total sb gd inode dots blocks inodes).slice 1024 1024 = sb := by
  refine slice_eq parts.sbSize fun i small => ?_
  rw [byte_stacked parts, if_neg (by omega), if_pos (by omega), Nat.add_sub_cancel_left]
theorem slice_blocks (parts : Parts d root total sb gd inode dots blocks inodes) :
    (stacked d root total sb gd inode dots blocks inodes).slice (2 * d) d = blocks := by
  have block := parts.block
  refine slice_eq parts.blocksSize fun i small => ?_
  rw [byte_stacked parts, if_neg (by omega), if_neg (by omega), if_pos (by omega),
    Nat.add_sub_cancel_left]
theorem slice_inodes (parts : Parts d root total sb gd inode dots blocks inodes) :
    (stacked d root total sb gd inode dots blocks inodes).slice (3 * d) d = inodes := by
  have block := parts.block
  refine slice_eq parts.inodesSize fun i small => ?_
  rw [byte_stacked parts, if_neg (by omega), if_neg (by omega), if_neg (by omega),
    if_pos (by omega), Nat.add_sub_cancel_left]
theorem slice_inode (parts : Parts d root total sb gd inode dots blocks inodes) :
    (stacked d root total sb gd inode dots blocks inodes).slice (4 * d + 256) 256 = inode := by
  have block := parts.block
  refine slice_eq parts.inodeSize fun i small => ?_
  rw [byte_stacked parts, if_neg (by omega), if_neg (by omega), if_neg (by omega),
    if_neg (by omega), if_pos (by omega), Nat.add_sub_cancel_left]
theorem slice_dots (parts : Parts d root total sb gd inode dots blocks inodes) :
    (stacked d root total sb gd inode dots blocks inodes).slice root d = dots := by
  have block := parts.block
  have table := parts.table
  refine slice_eq parts.dotsSize fun i small => ?_
  rw [byte_stacked parts, if_neg (by omega), if_neg (by omega), if_neg (by omega),
    if_neg (by omega), if_neg (by omega), if_pos (by omega), Nat.add_sub_cancel_left]
/-- The other slots of the inode table are zero. -/
theorem byte_table (parts : Parts d root total sb gd inode dots blocks inodes) {i : Nat} (low : 4 * d ≤ i) (high : i < root)
    (apart : i < 4 * d + 256 ∨ 4 * d + 512 ≤ i) : (stacked d root total sb gd inode dots blocks inodes).byte i = 0 := by
  have block := parts.block
  rw [byte_stacked parts, if_neg (by omega), if_neg (by omega), if_neg (by omega), if_neg (by omega), if_neg (by omega),
    if_neg (by omega)]
/-- In blocks of 1024 bytes the descriptor is over the start of the superblock. -/
theorem byte_superblock_small (parts : Parts 1024 root total sb gd inode dots blocks inodes) {i : Nat} (small : i < 1024) :
    (stacked 1024 root total sb gd inode dots blocks inodes).byte (1024 + i) = if i < 32 then gd.byte i else sb.byte i := by
  rw [byte_stacked parts]
  by_cases early : i < 32
  · rw [if_pos (by omega), if_pos early, Nat.add_sub_cancel_left]
  · rw [if_neg (by omega), if_pos (by omega), if_neg early, Nat.add_sub_cancel_left]
end

/-! ### What `format` writes -/

/-- The bits of the block bitmap: the metadata and what is past the end. -/
def used_block (config : Config) (layout : Layout) (i : Nat) : Bool :=
  decide (i < layout.metadata_blocks) || decide (config.size_blocks.toNat ≤ i)
/-- The bits of the inode bitmap: the reserved inodes and what is past the end. -/
def used_inode (config : Config) (i : Nat) : Bool :=
  decide (i < 10) || decide (config.inodes_per_group.toNat ≤ i)

/-- What `format` accepts, and the layout that it makes of it. -/
structure Accepted (config : Config) (layout : Layout) : Prop where
  known : config.block_size.toNat = 1024 ∨ config.block_size.toNat = 2048 ∨ config.block_size.toNat = 4096 ∨
    config.block_size.toNat = 65536
  inodes : 11 ≤ config.inodes_per_group.toNat
  block_size : layout.block_size = config.block_size.toNat
  first : layout.inode_table_first_block = 4
  root : layout.root_dir_block = 4 + div_ceil (config.inodes_per_group.toNat * 256) config.block_size.toNat
  metadata : layout.metadata_blocks = layout.root_dir_block + 1
  fits : layout.metadata_blocks ≤ config.size_blocks.toNat

theorem accepted_of_layout {config : Config} {layout : Layout} (laid : Layout.from_config config = .ok layout) :
    Accepted config layout := by
  rw [Layout.from_config, res_bind_eq_ok] at laid
  obtain ⟨_, known, laid⟩ := laid
  rw [res_bind_eq_ok] at laid
  obtain ⟨_, inodes, laid⟩ := laid
  rw [res_bind_eq_ok] at laid
  obtain ⟨_, fits, laid⟩ := laid
  rw [ensure_eq_ok, decide_eq_true_iff] at known inodes fits
  cases laid
  refine ⟨?_, inodes, rfl, rfl, rfl, rfl, fits⟩
  rcases known with size | size | size | size
  · exact .inl (by rw [size]; rfl)
  · exact .inr (.inl (by rw [size]; rfl))
  · exact .inr (.inr (.inl (by rw [size]; rfl)))
  · exact .inr (.inr (.inr (by rw [size]; rfl)))

/-- The bits from `start` to the end of a bitmap are set; there may be none. -/
theorem set_tail {buf : Bytes} {d : Nat} (start : Nat) (size : buf.size = d) :
    ∃ buf', (Bitmap.set_run buf start (d * 8 - start) : Res Ext4Error Bytes) = .ok buf' ∧ buf'.size = d ∧
      ∀ i < 8 * d, Bitmap.get_bit buf' i = (Bitmap.get_bit buf i || decide (start ≤ i)) := by
  by_cases inside : start ≤ d * 8
  · obtain ⟨buf', ran, size', bits⟩ :=
      Bitmap.set_run_ok (ε := Ext4Error) buf start (d * 8 - start) (by omega)
    refine ⟨buf', ran, size'.trans size, fun i small => ?_⟩
    have same : decide (start ≤ i ∧ i < start + (d * 8 - start)) = decide (start ≤ i) := by
      rw [decide_eq_decide]
      omega
    rw [bits, same]
  · rw [show d * 8 - start = 0 by omega]
    refine ⟨buf, rfl, size, fun i small => ?_⟩
    rw [decide_eq_false (by omega), Bool.or_false]

section
variable {config : Config} {layout : Layout}

/-- The block bitmap that `format` writes. -/
theorem blocks_ok (config : Config) (covered : layout.metadata_blocks ≤ 8 * config.block_size.toNat) :
    ∃ first blocks, (Bitmap.set_run (zeros config.block_size.toNat) 0 layout.metadata_blocks : Res Ext4Error Bytes) =
        .ok first ∧
      (Bitmap.set_run first config.size_blocks.toNat (config.block_size.toNat * 8 - config.size_blocks.toNat) :
        Res Ext4Error Bytes) = .ok blocks ∧ blocks.size = config.block_size.toNat ∧
      ∀ i < 8 * config.block_size.toNat, Bitmap.get_bit blocks i = used_block config layout i := by
  obtain ⟨first, ran, size, bits⟩ := Bitmap.set_run_ok (ε := Ext4Error) (zeros config.block_size.toNat) 0
    layout.metadata_blocks (by rw [size_zeros]; omega)
  obtain ⟨blocks, ran', size', bits'⟩ := set_tail config.size_blocks.toNat (size.trans (size_zeros _))
  refine ⟨first, blocks, ran, ran', size', fun i small => ?_⟩
  have low : decide (0 ≤ i ∧ i < 0 + layout.metadata_blocks) = decide (i < layout.metadata_blocks) := by
    rw [decide_eq_decide]
    omega
  rw [bits' i small, bits, low, Bitmap.get_bit_eq, byte_zeros, Bitmap.bitOf_zero, Bool.false_or, used_block]
/-- The inode bitmap that `format` writes. -/
theorem inodes_ok (config : Config) (large : 1024 ≤ config.block_size.toNat) :
    ∃ first second inodes, (Bitmap.set_run (zeros config.block_size.toNat) 0 10 : Res Ext4Error Bytes) = .ok first ∧
      (Bitmap.set_bit first (ROOT_INODE_NUMBER.toNat - 1) : Res Ext4Error Bytes) = .ok second ∧
      (Bitmap.set_run second config.inodes_per_group.toNat
        (config.block_size.toNat * 8 - config.inodes_per_group.toNat) : Res Ext4Error Bytes) = .ok inodes ∧
      inodes.size = config.block_size.toNat ∧
      ∀ i < 8 * config.block_size.toNat, Bitmap.get_bit inodes i = used_inode config i := by
  obtain ⟨first, ran, size, bits⟩ := Bitmap.set_run_ok (ε := Ext4Error) (zeros config.block_size.toNat) 0 10
    (by rw [size_zeros]; omega)
  have whole := size.trans (size_zeros _)
  obtain ⟨second, ran', size', bits'⟩ := Bitmap.set_bit_ok (ε := Ext4Error) first
    (ROOT_INODE_NUMBER.toNat - 1) (by rw [whole]; show 1 < _; omega)
  obtain ⟨inodes, ran'', size'', bits''⟩ := set_tail config.inodes_per_group.toNat (size'.trans whole)
  refine ⟨first, second, inodes, ran, ran', ran'', size'', fun i small => ?_⟩
  have low : (decide (0 ≤ i ∧ i < 0 + 10) || decide (i = ROOT_INODE_NUMBER.toNat - 1)) = decide (i < 10) := by
    rw [← Bool.decide_or, decide_eq_decide]
    show (0 ≤ i ∧ i < 0 + 10 ∨ i = 1) ↔ i < 10
    omega
  rw [bits'' i small, bits', bits, Bitmap.get_bit_eq, byte_zeros, Bitmap.bitOf_zero, Bool.false_or, low, used_inode]

theorem log_of_known (known : config.block_size.toNat = 1024 ∨ config.block_size.toNat = 2048 ∨
    config.block_size.toNat = 4096 ∨ config.block_size.toNat = 65536) :
    ∃ log, Superblock.logBlockSizeOf config.block_size = some log := by
  rcases known with size | size | size | size
  · exact ⟨0, by rw [show config.block_size = 1024 from UInt32.toNat_inj.mp size]; rfl⟩
  · exact ⟨1, by rw [show config.block_size = 2048 from UInt32.toNat_inj.mp size]; rfl⟩
  · exact ⟨2, by rw [show config.block_size = 4096 from UInt32.toNat_inj.mp size]; rfl⟩
  · exact ⟨6, by rw [show config.block_size = 65536 from UInt32.toNat_inj.mp size]; rfl⟩

/-- The image of an accepted configuration, its bitmaps and root block given. -/
def formatted (config : Config) (layout : Layout) (log : UInt32) (dots blocks inodes : Bytes) : Bytes :=
  stacked config.block_size.toNat (layout.root_dir_block * config.block_size.toNat)
    (config.size_blocks.toNat * config.block_size.toNat) (Superblock.image (superblock config layout) log)
    (GroupDescriptor.image (descriptor config layout) (zeros 32))
    (Inode.record (root_inode config layout (runBlock layout.root_dir_block 1)) 256) dots blocks inodes

/-- The root block that `format` makes. -/
def root_block (config : Config) : Res Ext4Error Bytes := do
  let dot : DirEntry := { inode := ROOT_INODE_NUMBER, rec_len := 12, file_type_raw := 2, name := DOT }
  let dotdot : DirEntry :=
    { inode := ROOT_INODE_NUMBER, rec_len := .ofNat (config.block_size.toNat - 12), file_type_raw := 2, name := DOTDOT }
  let block_buf ← liftErr .DirEntryEncode (encode_range dot (zeros config.block_size.toNat) 0 12)
  liftErr .DirEntryEncode (encode_range dotdot block_buf 12 config.block_size.toNat)

/-- What is known of the parts. -/
structure Written (config : Config) (layout : Layout) (log : UInt32) (dots blocks inodes : Bytes) : Prop where
  logged : Superblock.logBlockSizeOf config.block_size = some log
  made : root_block config = .ok dots
  parts : Parts config.block_size.toNat (layout.root_dir_block * config.block_size.toNat)
    (config.size_blocks.toNat * config.block_size.toNat) (Superblock.image (superblock config layout) log)
    (GroupDescriptor.image (descriptor config layout) (zeros 32))
    (Inode.record (root_inode config layout (runBlock layout.root_dir_block 1)) 256) dots blocks inodes
  room : tail_room dots = config.block_size.toNat - 24
  dots : Lists dots (listing ROOT_INODE ROOT_INODE [])
  blocks : ∀ i < 8 * config.block_size.toNat, Bitmap.get_bit blocks i = used_block config layout i
  inodes : ∀ i < 8 * config.block_size.toNat, Bitmap.get_bit inodes i = used_inode config i

theorem narrow_superblock (config : Config) (layout : Layout) :
    Superblock.is_64bit (superblock config layout) = false := by
  have bits : (superblock config layout).feature_incompat = 0x42 := by
    simp only [superblock]
    decide
  rw [Superblock.is_64bit, bits]
  decide

/-- The parts before the bitmaps, written over one another. -/
def before_bitmaps (config : Config) (layout : Layout) (log : UInt32) (dots : Bytes) : Bytes :=
  ((((zeros 0).patch 1024 (Superblock.image (superblock config layout) log)).patch config.block_size.toNat
    (GroupDescriptor.image (descriptor config layout) (zeros 32))).patch (4 * config.block_size.toNat + 256)
    (Inode.record (root_inode config layout (runBlock layout.root_dir_block 1)) 256)).patch
    (layout.root_dir_block * config.block_size.toNat) dots

/-- The bitmaps that `format` makes, and the image written with them. -/
def write_bitmaps (config : Config) (layout : Layout) (writer : Bytes) : Res Ext4Error Bytes := do
  let blocks ← Bitmap.set_run (zeros config.block_size.toNat) 0 layout.metadata_blocks
  let blocks ← Bitmap.set_run blocks config.size_blocks.toNat (config.block_size.toNat * 8 - config.size_blocks.toNat)
  let inodes ← Bitmap.set_run (zeros config.block_size.toNat) 0 10
  let inodes ← Bitmap.set_bit inodes (ROOT_INODE_NUMBER.toNat - 1)
  let inodes ← Bitmap.set_run inodes config.inodes_per_group.toNat
    (config.block_size.toNat * 8 - config.inodes_per_group.toNat)
  .ok (((writer.patch (2 * config.block_size.toNat) blocks).patch (3 * config.block_size.toNat) inodes).patch
    (config.size_blocks.toNat * config.block_size.toNat - 1) (zeros 1))

/-- Up to the bitmaps, `format` goes through on every layout. -/
theorem format_start (laid : Layout.from_config config = .ok layout) :
    ∃ log dots, Superblock.logBlockSizeOf config.block_size = some log ∧ dots.size = config.block_size.toNat ∧
      Lists dots (listing ROOT_INODE ROOT_INODE []) ∧ dots.byte (config.block_size.toNat - 1) = 0 ∧
      tail_room dots = config.block_size.toNat - 24 ∧ root_block config = .ok dots ∧
      format (zeros 0) config = write_bitmaps config layout (before_bitmaps config layout log dots) := by
  obtain ⟨known, some, size, first, root, metadata, fits⟩ := accepted_of_layout laid
  obtain ⟨log, logged⟩ := log_of_known known
  obtain ⟨mid, dots, dot, dotdot, dotsSize, lists, last, room⟩ := dots_ok config.block_size.toNat (by omega) (by omega)
    (by omega) ROOT_INODE ROOT_INODE
  refine ⟨log, dots, logged, dotsSize, lists, last, room, ?_, ?_⟩
  · simp only [root_block, show ROOT_INODE_NUMBER = ROOT_INODE from rfl, dot, dotdot, liftErr_ok, res_bind_ok]
  have positive : 0 < config.size_blocks.toNat * config.block_size.toNat := Nat.mul_pos (by omega) (by omega)
  have one : i_block [{ logical_block := 0, len := 1, physical_block := .ofNat layout.root_dir_block, uninit := false }] =
      .ok (runBlock layout.root_dir_block 1) := Runs.i_block_runs _ 1 (by decide)
  have sb : Superblock.encode_into (superblock config layout) (zeros SUPERBLOCK_SIZE) =
      .ok (Superblock.image (superblock config layout) log) := Superblock.encode_ok (narrow_superblock config layout) logged
  have gd : GroupDescriptor.encode_into (descriptor config layout) (zeros 32) (superblock config layout) =
      .ok (GroupDescriptor.image (descriptor config layout) (zeros 32)) :=
    GroupDescriptor.encode_ok _ (narrow_superblock config layout) (size_zeros 32)
  have inode : Inode.encode_into (root_inode config layout (runBlock layout.root_dir_block 1)) (zeros INODE_SIZE.toNat)
      (superblock config layout) = .ok (Inode.record (root_inode config layout (runBlock layout.root_dir_block 1)) 256) :=
    Inode.encode_ok _ rfl (by decide)
  rw [format, laid, res_bind_ok]
  dsimp only
  rw [one, res_bind_ok, sb, liftErr_ok, res_bind_ok, gd, liftErr_ok, res_bind_ok, inode, liftErr_ok, res_bind_ok]
  simp only [show ROOT_INODE_NUMBER = ROOT_INODE from rfl, dot, dotdot, liftErr_ok, res_bind_ok, size, positive,
    ↓reduceIte, first]
  rfl

theorem format_ok (laid : Layout.from_config config = .ok layout)
    (covered : layout.metadata_blocks ≤ 8 * config.block_size.toNat) :
    ∃ log dots blocks inodes, Written config layout log dots blocks inodes ∧
      format (zeros 0) config = .ok (formatted config layout log dots blocks inodes) := by
  obtain ⟨log, dots, logged, dotsSize, lists, last, room, made, ran⟩ := format_start laid
  obtain ⟨known, some, size, first, root, metadata, fits⟩ := accepted_of_layout laid
  have large : 1024 ≤ config.block_size.toNat := by omega
  obtain ⟨bits, blocks, ran₁, ran₂, blocksSize, blockBits⟩ := blocks_ok config covered
  obtain ⟨reserved, used, inodes, ran₃, ran₄, ran₅, inodesSize, inodeBits⟩ := inodes_ok config large
  have table : config.inodes_per_group.toNat * 256 ≤
      div_ceil (config.inodes_per_group.toNat * 256) config.block_size.toNat * config.block_size.toNat :=
    le_div_ceil (by omega)
  have split : layout.root_dir_block * config.block_size.toNat = 4 * config.block_size.toNat +
      div_ceil (config.inodes_per_group.toNat * 256) config.block_size.toNat * config.block_size.toNat := by
    rw [root, Nat.add_mul]
  have inside : layout.root_dir_block * config.block_size.toNat + config.block_size.toNat ≤
      config.size_blocks.toNat * config.block_size.toNat := block_before (by omega)
  have parts : Parts config.block_size.toNat (layout.root_dir_block * config.block_size.toNat)
      (config.size_blocks.toNat * config.block_size.toNat) (Superblock.image (superblock config layout) log)
      (GroupDescriptor.image (descriptor config layout) (zeros 32))
      (Inode.record (root_inode config layout (runBlock layout.root_dir_block 1)) 256) dots blocks inodes :=
    ⟨large, by omega, inside, Superblock.size_image _ _, GroupDescriptor.size_image _ (size_zeros 32),
      Inode.size_record _ (by decide), dotsSize, blocksSize, inodesSize, last⟩
  refine ⟨log, dots, blocks, inodes, ⟨logged, made, parts, room, lists, blockBits, inodeBits⟩, ?_⟩
  rw [ran, write_bitmaps, ran₁, res_bind_ok, ran₂, res_bind_ok, ran₃, res_bind_ok, ran₄, res_bind_ok, ran₅, res_bind_ok]
  rfl

/-- Metadata that the block bitmap does not cover makes `format` panic. -/
theorem format_panics (laid : Layout.from_config config = .ok layout)
    (past : 8 * config.block_size.toNat < layout.metadata_blocks) : format (zeros 0) config = .error .panic := by
  obtain ⟨log, dots, -, -, -, -, -, -, ran⟩ := format_start laid
  rw [ran, write_bitmaps, Bitmap.set_run_panic _ _ (by omega) (by rw [size_zeros]; omega), res_bind_error]
/-- What `format` has written it has laid out, and the block bitmap covers the
    metadata. -/
theorem laid_of_format {image : Bytes} (ran : format (zeros 0) config = .ok image) :
    ∃ layout, Layout.from_config config = .ok layout ∧ layout.metadata_blocks ≤ 8 * config.block_size.toNat := by
  cases laid : Layout.from_config config with
  | error e =>
    rw [format, laid, res_bind_error] at ran
    cases ran
  | ok layout =>
    refine ⟨layout, rfl, ?_⟩
    by_contra past
    rw [format_panics laid (Nat.lt_of_not_le past)] at ran
    cases ran
end

end Justext4.Formatted
