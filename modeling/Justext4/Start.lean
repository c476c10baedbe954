import Justext4.Counts
import Justext4.Formatted

/-!
A fresh image. Opened, it holds a volume whose only node is the root: the first
bits of the bitmaps are set, the other slots of the inode table are empty, and
the counts are right where the 16 bits of a descriptor hold them. In blocks of
1024 bytes the descriptor makes the superblock count two inodes and three
blocks.
-/
namespace Justext4.Start
open Justext4 Justext4.Fallible Justext4.Filesystem Justext4.Volumes Justext4.Mkfs Justext4.Formatted Bytes
open Justext4.Superblock (Superblock SUPERBLOCK_OFFSET SUPERBLOCK_SIZE)
open Justext4.GroupDescriptor (GroupDescriptor)
open Justext4.Inode (Inode inodeAt S_IFMT S_IFDIR)
open Justext4.Nodes
open Justext4.NamedTree
open Justext4.Backing
open Justext4.Counts
open Justext4.Allocation
open Justext4.Runs (runBlock)

/-- What the calls see of an image. -/
def volumeOf (g : Geometry) (fs : Filesystem) : Volume where
  superblock := fs.superblock
  gdt := fs.gdt
  slot := slotAt g fs.reader
  block := blockAt g fs.reader
  inodeBit := Bitmap.get_bit (blockAt g fs.reader 3)
  blockBit := Bitmap.get_bit (blockAt g fs.reader 2)

/-- The tree of a fresh image. -/
def rootOnly (block : Nat) : NodeMap := fun n => if n = ROOT_INODE then some (.dir block ROOT_INODE []) else none

theorem holds_volumeOf {g : Geometry} {fs : Filesystem} (static : Static g fs.superblock fs.gdt)
    (size : fs.reader.size = g.total * g.block_size) : Holds g (volumeOf g fs) fs :=
  ⟨rfl, rfl, static, size, fun _ _ _ => rfl, fun _ _ _ => rfl, fun _ _ => rfl, fun _ _ => rfl⟩

theorem rootOnly_some {block : Nat} {n : UInt32} {x : Node} (found : rootOnly block n = some x) :
    n = ROOT_INODE ∧ x = .dir block ROOT_INODE [] := by
  rw [rootOnly] at found
  split at found
  · cases found
    exact ⟨‹_›, rfl⟩
  · cases found
theorem child_rootOnly (block : Nat) (n : UInt32) (name : List UInt8) : child (rootOnly block) n name = none := by
  cases found : rootOnly block n with
  | none => simp [child, found]
  | some x =>
    obtain ⟨-, rfl⟩ := rootOnly_some found
    exact child_leaf found rfl name
theorem linked_rootOnly (block : Nat) : Linked (rootOnly block) := by
  have kidless : ∀ {n b parent kids}, rootOnly block n = some (.dir b parent kids) → kids = [] := by
    intro n b parent kids found
    obtain ⟨-, same⟩ := rootOnly_some found
    cases same
    rfl
  refine ⟨⟨block, [], if_pos rfl⟩, ⟨?_, ?_, ?_, ?_, ?_⟩, ?_, ?_, ?_⟩
  · rw [Live, rootOnly, if_pos rfl]
    simp
  · intro n name m edge
    rw [child_rootOnly] at edge
    cases edge
  · intro n name edge
    rw [child_rootOnly] at edge
    cases edge
  · intro n n' name name' m edge
    rw [child_rootOnly] at edge
    cases edge
  · intro n live
    cases found : rootOnly block n with
    | none => exact absurd found live
    | some x => exact ⟨[], congrArg some (rootOnly_some found).1.symm⟩
  · intro n b parent kids found
    rw [kidless found]
    simp
  · intro n b parent kids found k member
    rw [kidless found] at member
    cases member
  · intro n b parent kids found k member
    rw [kidless found] at member
    cases member

/-- The geometry fits the configuration. -/
structure Fitting (config : Config) (layout : Layout) (g : Geometry) : Prop where
  block_size : g.block_size = config.block_size.toNat
  per_group : g.per_group = config.inodes_per_group.toNat
  total : g.total = config.size_blocks.toNat
  root : g.root = layout.root_dir_block

section
variable {config : Config} {layout : Layout} {g : Geometry} {log : UInt32} {dots blocks inodes : Bytes}
  {sb : Superblock} {gdt : List GroupDescriptor}

theorem start_blockBit (written : Written config layout log dots blocks inodes) (fitting : Fitting config layout g)
    {b : Nat} (small : b < 8 * g.block_size) :
    (volumeOf g ⟨formatted config layout log dots blocks inodes, sb, gdt⟩).blockBit b = used_block config layout b := by
  have bytes : blockAt g (formatted config layout log dots blocks inodes) 2 = blocks := by
    rw [blockAt, fitting.block_size]
    exact slice_blocks written.parts
  show Bitmap.get_bit (blockAt g _ 2) b = _
  rw [bytes]
  exact written.blocks b (by rw [← fitting.block_size]; exact small)
theorem start_inodeBit (written : Written config layout log dots blocks inodes) (fitting : Fitting config layout g)
    {i : Nat} (small : i < 8 * g.block_size) :
    (volumeOf g ⟨formatted config layout log dots blocks inodes, sb, gdt⟩).inodeBit i = used_inode config i := by
  have bytes : blockAt g (formatted config layout log dots blocks inodes) 3 = inodes := by
    rw [blockAt, fitting.block_size]
    exact slice_inodes written.parts
  show Bitmap.get_bit (blockAt g _ 3) i = _
  rw [bytes]
  exact written.inodes i (by rw [← fitting.block_size]; exact small)
theorem start_root_slot (sb : Superblock) (gdt : List GroupDescriptor) (written : Written config layout log dots blocks inodes) (fitting : Fitting config layout g) :
    (volumeOf g ⟨formatted config layout log dots blocks inodes, sb, gdt⟩).slot ROOT_INODE =
      root_inode config layout (runBlock layout.root_dir_block 1) := by
  have bytes := slice_inode written.parts
  show slotAt g _ ROOT_INODE = _
  rw [slotAt, slotOffset, fitting.block_size, show (ROOT_INODE.toNat - 1) * 256 = 256 from rfl, formatted, bytes,
    Inode.inodeAt_record]
theorem start_empty_slot (written : Written config layout log dots blocks inodes) (fitting : Fitting config layout g)
    {n : UInt32} (low : 11 ≤ n.toNat) (high : n.toNat ≤ g.per_group) :
    ((volumeOf g ⟨formatted config layout log dots blocks inodes, sb, gdt⟩).slot n).links_count = 0 := by
  have reach := slot_end (g := g) (n := n) (by omega) high
  rw [slotOffset, fitting.block_size, fitting.root] at reach
  have zero : inodeAt ((formatted config layout log dots blocks inodes).slice
      (4 * config.block_size.toNat + (n.toNat - 1) * 256) 256) = inodeAt (zeros 256) := by
    refine Inode.inodeAt_congr fun i small => ?_
    rw [byte_slice_of_lt _ (by omega), byte_zeros]
    exact byte_table written.parts (by omega) (by omega) (.inr (by omega))
  show (slotAt g _ n).links_count = 0
  rw [slotAt, slotOffset, fitting.block_size, zero]
  rfl

theorem start_consistent (accepted : Accepted config layout) (written : Written config layout log dots blocks inodes)
    (fitting : Fitting config layout g) :
    Consistent g (volumeOf g ⟨formatted config layout log dots blocks inodes, sb, gdt⟩)
      (rootOnly layout.root_dir_block) := by
  have positive := g.positive
  have inside := g.root_inside
  have covered := g.root_covered
  have low := g.inodes_low
  have rootIs : g.root = 4 + div_ceil (g.per_group * 256) g.block_size := rfl
  have metadata : layout.metadata_blocks = g.root + 1 := by rw [accepted.metadata, fitting.root]
  refine ⟨⟨?_, ?_, ?_, ?_, ?_⟩, linked_rootOnly _⟩
  · intro n x found
    obtain ⟨rfl, rfl⟩ := rootOnly_some found
    refine ⟨.inl rfl, low, ?_, ?_, ?_, ?_⟩
    · show 2 ≤ 8 * g.block_size
      omega
    · rw [start_inodeBit written fitting (by show 1 < 8 * g.block_size; omega)]
      rfl
    · have slot := start_root_slot sb gdt written fitting
      have block : (volumeOf g ⟨formatted config layout log dots blocks inodes, sb, gdt⟩).block layout.root_dir_block =
          dots := by
        show blockAt g _ layout.root_dir_block = _
        rw [blockAt, fitting.block_size]
        exact slice_dots written.parts
      refine ⟨?_, ?_, ?_, ?_, ?_, ?_, size_slice _ _ _, ?_⟩
      · rw [slot]
        exact (by decide : (0o040755 : UInt16) &&& S_IFMT = S_IFDIR)
      · rw [slot]
        rfl
      · rw [slot]
        show (UInt64.ofNat layout.block_size).toNat = g.block_size
        have bounded := g.bounded
        rw [accepted.block_size, ← fitting.block_size, word64 (by omega)]
      · rw [slot]
        rfl
      · rw [slot]
        rfl
      · rw [slot]
        rfl
      · rw [block]
        exact written.dots
    · rintro b rfl
      refine ⟨Nat.le_of_eq fitting.root, ?_, ?_⟩
      · rw [Geometry.limit, ← fitting.root]
        omega
      · rw [start_blockBit written fitting (by rw [← fitting.root]; omega), used_block, metadata, fitting.root]
        simp
  · intro n m x y found found' other
    obtain ⟨rfl, -⟩ := rootOnly_some found
    obtain ⟨rfl, -⟩ := rootOnly_some found'
    exact absurd rfl other
  · intro i small
    rw [start_inodeBit written fitting (by omega), used_inode, decide_eq_true small, Bool.true_or]
  · intro b below
    rw [start_blockBit written fitting (by omega), used_block, decide_eq_true (by omega), Bool.true_or]
  · intro n first last within unset
    rw [start_inodeBit written fitting (by omega), used_inode, Bool.or_eq_false_iff, decide_eq_false_iff_not] at unset
    exact start_empty_slot written fitting (by omega) last

theorem start_tight (accepted : Accepted config layout) (written : Written config layout log dots blocks inodes)
    (fitting : Fitting config layout g) (blocksFit : g.total ≤ 8 * g.block_size) (inodesFit : g.per_group ≤ 8 * g.block_size) :
    Tight g (volumeOf g ⟨formatted config layout log dots blocks inodes, sb, gdt⟩) (rootOnly layout.root_dir_block) := by
  have metadata : layout.metadata_blocks = g.root + 1 := by rw [accepted.metadata, fitting.root]
  have total := fitting.total
  have per_group := fitting.per_group
  refine ⟨fun i small set => ?_, fun b small set => ?_⟩
  · rw [start_inodeBit written fitting (by omega), used_inode, Bool.or_eq_true, decide_eq_true_iff, decide_eq_true_iff] at set
    exact .inl (by omega)
  · rw [start_blockBit written fitting (by omega), used_block, Bool.or_eq_true, decide_eq_true_iff, decide_eq_true_iff] at set
    by_cases below : b < g.root
    · exact .inl below
    · refine .inr ⟨ROOT_INODE, _, if_pos rfl, ?_⟩
      show b = layout.root_dir_block
      rw [← fitting.root]
      omega

/-- The bits below a bound are set, and the others are clear. -/
theorem clearBits_low {bit : Nat → Bool} {k n : Nat} (le : k ≤ n) (low : ∀ i < n, bit i = decide (i < k)) :
    clearBits bit n = n - k := by
  have none : clearBits (fun _ => false) n = n := by simp [clearBits]
  have taken := clearBits_take_inside (fun _ => false) (s := 0) (c := k) (n := n) (fun _ _ _ => rfl) (by omega)
  have same : clearBits bit n = clearBits (fun j => false || decide (0 ≤ j ∧ j < 0 + k)) n := by
    refine clearBits_congr fun i small => ?_
    rw [low i small, Bool.false_or, decide_eq_decide]
    omega
  rw [none] at taken
  rw [same]
  omega
theorem dirs_rootOnly (g : Geometry) (block : Nat) : dirs g (rootOnly block) = 1 := by
  have empty : dirs g (fun _ => none) = 0 := by
    rw [dirs, List.countP_eq_zero]
    intro i _
    simp
  have raised := dirs_raise (g := g) (fun _ => none) (rootOnly block) (n := ROOT_INODE) g.inodes_low rfl
    (by rw [rootOnly, if_pos rfl]; rfl) fun m other => by rw [rootOnly, if_neg other]
  rw [raised, empty]

/-- The counts of a fresh image are right where nothing is cut off. -/
theorem start_counted (accepted : Accepted config layout) (written : Written config layout log dots blocks inodes)
    (fitting : Fitting config layout g) (blocksFit : g.total ≤ 8 * g.block_size) (inodesFit : g.per_group ≤ 8 * g.block_size) :
    Counted g (volumeOf g ⟨formatted config layout log dots blocks inodes, superblock config layout,
      [descriptor config layout]⟩) 1 := by
  have metadata : layout.metadata_blocks = g.root + 1 := by rw [accepted.metadata, fitting.root]
  have fits := accepted.fits
  have some := accepted.inodes
  have total := fitting.total
  have per_group := fitting.per_group
  have word := per_group_word g
  have word' := g.total_high
  have freeBlocks : clearBits (volumeOf g ⟨formatted config layout log dots blocks inodes, superblock config layout,
      [descriptor config layout]⟩).blockBit g.total = config.size_blocks.toNat - layout.metadata_blocks := by
    rw [clearBits_low (k := layout.metadata_blocks) (by omega) fun i small => ?_, total]
    rw [start_blockBit written fitting (by omega), used_block,
      decide_eq_false (show ¬ config.size_blocks.toNat ≤ i by omega), Bool.or_false]
  have freeInodes : clearBits (volumeOf g ⟨formatted config layout log dots blocks inodes, superblock config layout,
      [descriptor config layout]⟩).inodeBit g.per_group = config.inodes_per_group.toNat - 10 := by
    rw [clearBits_low (k := 10) (by omega) fun i small => ?_, per_group]
    rw [start_inodeBit written fitting (by omega), used_inode,
      decide_eq_false (show ¬ config.inodes_per_group.toNat ≤ i by omega), Bool.or_false]
  refine ⟨?_, ?_, fun gd found => ?_⟩
  · rw [freeBlocks]
    exact word64 (by omega)
  · rw [freeInodes]
    exact word32 (by omega)
  · cases found
    refine ⟨?_, ?_, rfl⟩
    · rw [freeBlocks]
      exact word32 (by omega)
    · rw [freeInodes]
      exact word32 (by omega)

/-! ### Opening a fresh image -/

/-- The groups of an image. -/
def groups (config : Config) : Nat := div_ceil config.size_blocks.toNat (config.block_size.toNat * 8)

theorem group_count_superblock (accepted : Accepted config layout) :
    (Superblock.group_count (superblock config layout)).toNat = groups config ∧ 0 < groups config := by
  have known := accepted.known
  have some := accepted.fits
  have metadata := accepted.metadata
  have bound := config.size_blocks.toNat_lt
  have perGroup : (superblock config layout).blocks_per_group.toNat = config.block_size.toNat * 8 :=
    word32 (by omega)
  have nonzero : (superblock config layout).blocks_per_group ≠ 0 := by
    intro zero
    rw [zero] at perGroup
    have zero' : (0 : UInt32).toNat = 0 := rfl
    omega
  have count : (superblock config layout).blocks_count.toNat = config.size_blocks.toNat := word64 (by omega)
  have small : groups config ≤ (config.size_blocks.toNat + config.block_size.toNat * 8 - 1) / 8192 :=
    Nat.div_le_div_left (by omega) (by decide)
  refine ⟨?_, Nat.div_pos (by omega) (by omega)⟩
  rw [Superblock.group_count, if_neg nonzero, count, perGroup]
  exact word32 (by show groups config < _; omega)

/-- The descriptor as its 32 bytes give it. -/
def read_back (config : Config) (layout : Layout) : GroupDescriptor :=
  { descriptor config layout with
    free_blocks_count := .ofNat ((config.size_blocks.toNat - layout.metadata_blocks) % 4294967296 % 65536)
    free_inodes_count := .ofNat ((config.inodes_per_group.toNat - 10) % 4294967296 % 65536) }

theorem descriptor_read_back (accepted : Accepted config layout) :
    GroupDescriptor.descriptorAt (GroupDescriptor.image (descriptor config layout) (zeros 32)) =
      read_back config layout := by
  have first : (descriptor config layout).inode_table = 4 := by
    simp only [descriptor, accepted.first]
    rfl
  rw [GroupDescriptor.descriptorAt_image, first]
  simp only [descriptor, read_back, accepted.first, UInt32.toNat_ofNat']
  rfl

/-- The descriptors of an image that opens. -/
def table (config : Config) (image : Bytes) : List GroupDescriptor :=
  (List.range' 0 (groups config)).map fun i =>
    GroupDescriptor.descriptorAt (image.slice (config.block_size.toNat + i * 32) 32)

theorem table_first (accepted : Accepted config layout) (written : Written config layout log dots blocks inodes) :
    (table config (formatted config layout log dots blocks inodes))[0]? = some (read_back config layout) := by
  have some := (group_count_superblock accepted).2
  rw [table, List.getElem?_map, List.getElem?_range' some, Option.map_some, ← descriptor_read_back accepted]
  have bytes := slice_descriptor written.parts
  rw [show config.block_size.toNat + (0 + 1 * 0) * 32 = config.block_size.toNat by omega, formatted, bytes]

theorem size_formatted (written : Written config layout log dots blocks inodes) :
    (formatted config layout log dots blocks inodes).size = config.size_blocks.toNat * config.block_size.toNat :=
  size_stacked written.parts

theorem open_large (accepted : Accepted config layout) (written : Written config layout log dots blocks inodes)
    (large : config.block_size.toNat ≠ 1024) :
    open_image (formatted config layout log dots blocks inodes) =
      .ok ⟨formatted config layout log dots blocks inodes, superblock config layout,
        table config (formatted config layout log dots blocks inodes)⟩ := by
  have known := accepted.known
  have metadata := accepted.metadata
  have rootIs := accepted.root
  have fits := accepted.fits
  have size := size_formatted written
  have two : 2 * config.block_size.toNat ≤ config.size_blocks.toNat * config.block_size.toNat :=
    Nat.mul_le_mul_right _ (by omega)
  have count := (group_count_superblock accepted).1
  have bound := config.size_blocks.toNat_lt
  have wordBlocks : (superblock config layout).blocks_count.toNat < 4294967296 := by
    show (UInt64.ofNat config.size_blocks.toNat).toNat < _
    rw [word64 (by omega)]
    exact bound
  have wordFree : (superblock config layout).free_blocks_count.toNat < 4294967296 := by
    show (UInt64.ofNat (config.size_blocks.toNat - layout.metadata_blocks)).toNat < _
    rw [word64 (by omega)]
    omega
  have decoded : Superblock.decode ((formatted config layout log dots blocks inodes).slice SUPERBLOCK_OFFSET
      SUPERBLOCK_SIZE) = .ok (superblock config layout) := by
    have bytes := slice_superblock written.parts (by omega)
    rw [SUPERBLOCK_OFFSET, SUPERBLOCK_SIZE, formatted, bytes]
    exact Superblock.decode_image (narrow_superblock config layout) written.logged
      (show Superblock.REV_DYNAMIC ≤ 1 by decide) (show INODE_SIZE ≠ 0 by decide) wordBlocks wordFree
  have perGroup : (superblock config layout).blocks_per_group ≠ 0 := by
    intro zero
    have number := congrArg UInt32.toNat zero
    rw [show (superblock config layout).blocks_per_group.toNat = config.block_size.toNat * 8 from word32 (by omega)] at number
    have zero' : (0 : UInt32).toNat = 0 := rfl
    omega
  have inodesPerGroup : (superblock config layout).inodes_per_group ≠ 0 := by
    intro zero
    have number : config.inodes_per_group.toNat = (0 : UInt32).toNat := congrArg UInt32.toNat zero
    have zero' : (0 : UInt32).toNat = 0 := rfl
    have some := accepted.inodes
    omega
  have offset : ((superblock config layout).first_data_block.toNat + 1) * (superblock config layout).block_size.toNat =
      config.block_size.toNat := by
    show (0 + 1) * config.block_size.toNat = _
    omega
  -- There is at least a block for each descriptor, so the table is inside the image.
  have few : groups config ≤ config.size_blocks.toNat := by
    have most : 16384 * config.size_blocks.toNat ≤ config.block_size.toNat * 8 * config.size_blocks.toNat :=
      Nat.mul_le_mul_right _ (by omega)
    rw [groups, div_ceil]
    refine Nat.le_of_lt_succ (Nat.div_lt_of_lt_mul ?_)
    rw [Nat.mul_succ (config.block_size.toNat * 8)]
    omega
  have spread : 2048 * (config.size_blocks.toNat - 1) ≤ config.block_size.toNat * (config.size_blocks.toNat - 1) :=
    Nat.mul_le_mul_right _ (by omega)
  have whole : config.block_size.toNat + config.block_size.toNat * (config.size_blocks.toNat - 1) =
      config.size_blocks.toNat * config.block_size.toNat := by
    rw [Nat.mul_comm config.size_blocks.toNat, Nat.add_comm, ← Nat.mul_succ]
    congr 1
    omega
  have opened := open_image_ok (formatted config layout log dots blocks inodes) (by omega) decoded perGroup
    inodesPerGroup (narrow_superblock config layout) (by rw [offset, count]; omega)
  rw [opened, offset, count, table]

/-- The superblock with the descriptor over its start. -/
theorem open_small (accepted : Accepted config layout) (written : Written config layout log dots blocks inodes)
    (small : config.block_size.toNat = 1024) :
    ∃ sb gd, open_image (formatted config layout log dots blocks inodes) =
        .ok ⟨formatted config layout log dots blocks inodes, sb, [gd]⟩ ∧
      sb.block_size.toNat = 1024 ∧ sb.inode_size.toNat = 256 ∧ sb.inodes_count.toNat = 2 ∧ sb.blocks_count.toNat = 3 ∧
      sb.inodes_per_group = config.inodes_per_group ∧ Superblock.is_64bit sb = false ∧ sb.first_data_block = 0 ∧
      sb.rev_level = 1 ∧ (Superblock.group_count sb).toNat = 1 ∧ gd.block_bitmap = 2 ∧ gd.inode_bitmap = 3 ∧ gd.inode_table = 4 := by
  have metadata := accepted.metadata
  have rootIs := accepted.root
  have fits := accepted.fits
  have size := size_formatted written
  have two : 2 * config.block_size.toNat ≤ config.size_blocks.toNat * config.block_size.toNat :=
    Nat.mul_le_mul_right _ (by omega)
  have descriptorBytes := slice_descriptor written.parts
  rw [← formatted] at descriptorBytes
  let buf := (formatted config layout log dots blocks inodes).slice 1024 1024
  let gdImage := GroupDescriptor.image (descriptor config layout) (zeros 32)
  let sbImage := Superblock.image (superblock config layout) log
  have bytes : ∀ i < 1024, buf.byte i = if i < 32 then gdImage.byte i else sbImage.byte i := by
    intro i lt
    have parts := written.parts
    rw [small] at parts
    rw [byte_slice_of_lt _ lt, formatted, small]
    exact byte_superblock_small parts lt
  have over32 : ∀ off, off + 4 ≤ 32 → buf.u32At off = gdImage.u32At off := fun off le =>
    u32At_congr fun k lt => by rw [bytes _ (by omega), if_pos (by omega)]
  have kept16 : ∀ off, 32 ≤ off → off + 2 ≤ 1024 → buf.u16At off = sbImage.u16At off := fun off low high =>
    u16At_congr fun k lt => by rw [bytes _ (by omega), if_neg (by omega)]
  have kept32 : ∀ off, 32 ≤ off → off + 4 ≤ 1024 → buf.u32At off = sbImage.u32At off := fun off low high =>
    u32At_congr fun k lt => by rw [bytes _ (by omega), if_neg (by omega)]
  have inSb : ∀ {offset : Nat} (value : UInt32), (offset, le32 value) ∈ Superblock.fields (superblock config layout) log →
      sbImage.u32At offset = value := fun _ member => Fields.u32At_patches (Superblock.apart _ _) _ _ member _
  have inSb16 : ∀ {offset : Nat} (value : UInt16), (offset, le16 value) ∈ Superblock.fields (superblock config layout) log →
      sbImage.u16At offset = value := fun _ member => Fields.u16At_patches (Superblock.apart _ _) _ _ member _
  have inGd : ∀ {offset : Nat} (value : UInt32), (offset, le32 value) ∈ GroupDescriptor.fields (descriptor config layout) →
      gdImage.u32At offset = value := fun _ member => Fields.u32At_patches (GroupDescriptor.apart _) _ _ member _
  -- Between the flags and the checksum a descriptor has nothing.
  have gap : ∀ off, 20 ≤ off → off + 4 ≤ 30 → gdImage.u32At off = 0 := by
    intro off low high
    apply Fields.u32At_of_slice
    show (Fields.patches _ _).slice off 4 = _
    rw [Fields.slice_patches_apart]
    · refine ext_inside rfl fun i lt => ?_
      have short : i < 4 := lt
      have none : (le32 0).byte i = 0 := by
        rcases (show i = 0 ∨ i = 1 ∨ i = 2 ∨ i = 3 by omega) with rfl | rfl | rfl | rfl <;> rfl
      rw [byte_slice_of_lt _ short, none, byte_patch]
      split <;> rfl
    · intro f member
      have span : Fields.span f ∈ _ := List.mem_map_of_mem (f := Fields.span) member
      rw [GroupDescriptor.spans] at span
      have place : f.1 = (Fields.span f).1 ∧ f.2.size = (Fields.span f).2 := ⟨rfl, rfl⟩
      simp only [List.mem_cons, List.not_mem_nil, or_false] at span
      rcases span with same | same | same | same | same | same | same | same <;> rw [same] at place <;> omega
  have magic : buf.u16At Superblock.OFF_MAGIC = Superblock.EXT4_MAGIC := by
    rw [kept16 _ (by decide) (by decide)]
    exact inSb16 _ (by simp [Superblock.fields])
  have logZero : buf.u32At Superblock.OFF_LOG_BLOCK_SIZE = 0 := by
    rw [over32 _ (by decide)]
    exact gap _ (by decide) (by decide)
  have decoded : Superblock.decode buf = .ok (Superblock.superblockAt buf 1024) :=
    Superblock.decode_ok _ (Nat.le_refl _) magic (by rw [logZero]; rfl)
  have features : buf.u32At Superblock.OFF_FEATURE_INCOMPAT = (superblock config layout).feature_incompat := by
    rw [kept32 _ (by decide) (by decide)]
    exact inSb _ (by simp [Superblock.fields])
  have narrow : Superblock.is_64bit (Superblock.superblockAt buf 1024) = false := by
    rw [← narrow_superblock config layout, Superblock.is_64bit, Superblock.is_64bit, ← features]
    rfl
  have plain : (buf.u32At Superblock.OFF_FEATURE_INCOMPAT &&& Superblock.FEATURE_INCOMPAT_64BIT != 0) = false := narrow
  have revision : buf.u32At Superblock.OFF_REV_LEVEL = 1 := by
    rw [kept32 _ (by decide) (by decide)]
    exact inSb (superblock config layout).rev_level (by simp [Superblock.fields])
  have inodeSize : buf.u16At Superblock.OFF_INODE_SIZE = INODE_SIZE := by
    rw [kept16 _ (by decide) (by decide)]
    exact inSb16 (superblock config layout).inode_size (by simp [Superblock.fields])
  have perGroup : buf.u32At Superblock.OFF_BLOCKS_PER_GROUP = 8192 := by
    rw [kept32 _ (by decide) (by decide)]
    have value : (superblock config layout).blocks_per_group = 8192 := by
      show UInt32.ofNat (config.block_size.toNat * 8) = 8192
      rw [small]
      rfl
    rw [← value]
    exact inSb _ (by simp [Superblock.fields])
  have inodesPerGroup : buf.u32At Superblock.OFF_INODES_PER_GROUP = config.inodes_per_group := by
    rw [kept32 _ (by decide) (by decide)]
    exact inSb (superblock config layout).inodes_per_group (by simp [Superblock.fields])
  have inodesCount : buf.u32At Superblock.OFF_INODES_COUNT = 2 := by
    rw [over32 _ (by decide)]
    exact inGd (.ofNat (descriptor config layout).block_bitmap.toNat) (List.mem_cons_self ..)
  have blocksCount : buf.u32At Superblock.OFF_BLOCKS_COUNT_LO = 3 := by
    rw [over32 _ (by decide)]
    exact inGd (.ofNat (descriptor config layout).inode_bitmap.toNat)
      (List.mem_cons_of_mem _ (List.mem_cons_self ..))
  have firstBlock : buf.u32At Superblock.OFF_FIRST_DATA_BLOCK = 0 := by
    rw [over32 _ (by decide)]
    exact gap _ (by decide) (by decide)
  have count : (Superblock.superblockAt buf 1024).blocks_count.toNat = 3 := by
    simp only [Superblock.superblockAt, plain, blocksCount]
    rfl
  have groupCount : (Superblock.group_count (Superblock.superblockAt buf 1024)).toNat = 1 := by
    have bpg : (Superblock.superblockAt buf 1024).blocks_per_group = 8192 := perGroup
    rw [Superblock.group_count, bpg, count]
    rfl
  have offset : ((Superblock.superblockAt buf 1024).first_data_block.toNat + 1) *
      (Superblock.superblockAt buf 1024).block_size.toNat = 1024 := by
    have first : (Superblock.superblockAt buf 1024).first_data_block = 0 := firstBlock
    rw [first]
    rfl
  have some := accepted.inodes
  have opened := open_image_ok (formatted config layout log dots blocks inodes) (by omega) decoded
    (by show buf.u32At Superblock.OFF_BLOCKS_PER_GROUP ≠ 0; rw [perGroup]; decide)
    (by
      show buf.u32At Superblock.OFF_INODES_PER_GROUP ≠ 0
      rw [inodesPerGroup]
      intro zero
      rw [zero] at some
      exact absurd some (by decide))
    narrow (by rw [offset, groupCount]; omega)
  rw [offset, groupCount] at opened
  refine ⟨_, GroupDescriptor.descriptorAt gdImage, ?_, rfl, ?_, ?_, count, inodesPerGroup, narrow, firstBlock, revision,
    groupCount, ?_, ?_, ?_⟩
  · rw [opened]
    rw [small] at descriptorBytes
    rw [List.range'_one, List.map_singleton, Nat.zero_mul, Nat.add_zero, descriptorBytes]
  · simp only [Superblock.superblockAt, revision, inodeSize]
    rfl
  · exact congrArg UInt32.toNat inodesCount
  all_goals
    rw [descriptor_read_back accepted]
    first | rfl | simp only [read_back, descriptor, accepted.first]; rfl

end

/-! ### The first state -/

/-- The block bitmap covers the metadata, and the descriptors fit their block. -/
structure Usable (config : Config) (layout : Layout) : Prop where
  laid : Layout.from_config config = .ok layout
  covered : layout.metadata_blocks ≤ 8 * config.block_size.toNat
  table : config.block_size.toNat ≠ 1024 → 32 * groups config ≤ config.block_size.toNat

section
variable {config : Config} {layout : Layout}

/-- The geometry of an image whose superblock is intact. -/
def largeGeometry (usable : Usable config layout) (large : config.block_size.toNat ≠ 1024) : Geometry where
  block_size := config.block_size.toNat
  per_group := config.inodes_per_group.toNat
  inodes := config.inodes_per_group.toNat
  blocks := config.size_blocks.toNat
  total := config.size_blocks.toNat
  groups := groups config
  known := (accepted_of_layout usable.laid).known
  inodes_low := Nat.le_trans (by decide) (accepted_of_layout usable.laid).inodes
  inodes_high := Nat.le_refl _
  small one := absurd one large
  blocks_high := Nat.le_refl _
  total_high := config.size_blocks.toNat_lt
  root_inside := by
    obtain ⟨-, -, -, -, root, metadata, fits⟩ := accepted_of_layout usable.laid
    omega
  root_covered := by
    obtain ⟨-, -, -, -, root, metadata, -⟩ := accepted_of_layout usable.laid
    have covered := usable.covered
    omega
  table_inside := usable.table large
  one_group := (group_count_superblock (accepted_of_layout usable.laid)).2

/-- The geometry that the superblock gives when the descriptor is over it. -/
def smallGeometry (usable : Usable config layout) (small : config.block_size.toNat = 1024) : Geometry where
  block_size := config.block_size.toNat
  per_group := config.inodes_per_group.toNat
  inodes := 2
  blocks := 3
  total := config.size_blocks.toNat
  groups := 1
  known := .inl small
  inodes_low := Nat.le_refl _
  inodes_high := Nat.le_trans (by decide) (accepted_of_layout usable.laid).inodes
  small _ := rfl
  blocks_high := by
    obtain ⟨-, -, -, -, root, metadata, fits⟩ := accepted_of_layout usable.laid
    omega
  total_high := config.size_blocks.toNat_lt
  root_inside := by
    obtain ⟨-, -, -, -, root, metadata, fits⟩ := accepted_of_layout usable.laid
    omega
  root_covered := by
    obtain ⟨-, -, -, -, root, metadata, -⟩ := accepted_of_layout usable.laid
    have covered := usable.covered
    omega
  table_inside := by omega
  one_group := Nat.one_pos

theorem start_large (usable : Usable config layout) (large : config.block_size.toNat ≠ 1024) :
    ∃ log dots blocks inodes, Written config layout log dots blocks inodes ∧
      format (zeros 0) config = .ok (formatted config layout log dots blocks inodes) ∧
      open_image (formatted config layout log dots blocks inodes) =
        .ok ⟨formatted config layout log dots blocks inodes, superblock config layout,
          table config (formatted config layout log dots blocks inodes)⟩ ∧
      Fitting config layout (largeGeometry usable large) ∧
      Static (largeGeometry usable large) (superblock config layout)
        (table config (formatted config layout log dots blocks inodes)) := by
  have accepted := accepted_of_layout usable.laid
  obtain ⟨log, dots, blocks, inodes, written, ran⟩ := format_ok usable.laid usable.covered
  have first := table_first accepted written
  have bound := config.size_blocks.toNat_lt
  refine ⟨log, dots, blocks, inodes, written, ran, open_large accepted written large,
    ⟨rfl, rfl, rfl, accepted.root.symm⟩, rfl, rfl, rfl, word64 (by omega), rfl, narrow_superblock config layout, rfl, rfl,
    (group_count_superblock accepted).1, ?_, ⟨_, first, rfl, rfl, ?_⟩⟩
  · rw [table, List.length_map, List.length_range']
    rfl
  · simp only [read_back, descriptor, accepted.first]
    rfl

/-- A usable configuration is formatted, opened, and is a tree with nothing but
    the root. -/
theorem start_ok (usable : Usable config layout) :
    ∃ image fs g, format (zeros 0) config = .ok image ∧ open_image image = .ok fs ∧ Fitting config layout g ∧
      Holds g (volumeOf g fs) fs ∧ Consistent g (volumeOf g fs) (rootOnly layout.root_dir_block) := by
  have accepted := accepted_of_layout usable.laid
  by_cases small : config.block_size.toNat = 1024
  · obtain ⟨log, dots, blocks, inodes, written, ran⟩ := format_ok usable.laid usable.covered
    obtain ⟨sb, gd, opened, size, inodeSize, count, blocksCount, perGroup, narrow, first, revision, groupCount, blockBits, inodeBits,
      slots⟩ := open_small accepted written small
    have fitting : Fitting config layout (smallGeometry usable small) := ⟨rfl, rfl, rfl, accepted.root.symm⟩
    have static : Static (smallGeometry usable small) sb [gd] :=
      ⟨size.trans small.symm, inodeSize, count, blocksCount, congrArg UInt32.toNat perGroup, narrow, first, revision,
        groupCount, rfl, ⟨gd, rfl, blockBits, inodeBits, slots⟩⟩
    exact ⟨_, _, smallGeometry usable small, ran, opened, fitting, holds_volumeOf static (size_formatted written),
      start_consistent accepted written fitting⟩
  · obtain ⟨log, dots, blocks, inodes, written, ran, opened, fitting, static⟩ := start_large usable small
    exact ⟨_, _, largeGeometry usable small, ran, opened, fitting, holds_volumeOf static (size_formatted written),
      start_consistent accepted written fitting⟩

/-- The bitmaps cover the image, and the superblock is intact. -/
structure Covered (config : Config) (layout : Layout) : Prop where
  laid : Layout.from_config config = .ok layout
  large : config.block_size.toNat ≠ 1024
  blocks : config.size_blocks.toNat ≤ 8 * config.block_size.toNat
  inodes : config.inodes_per_group.toNat ≤ 8 * config.block_size.toNat

theorem one_group (covered : Covered config layout) : groups config = 1 := by
  have known := (accepted_of_layout covered.laid).known
  have fits := (accepted_of_layout covered.laid).fits
  have metadata := (accepted_of_layout covered.laid).metadata
  have blocks := covered.blocks
  rw [groups, div_ceil]
  exact Nat.div_eq_of_lt_le (by omega) (by omega)
theorem Covered.usable (covered : Covered config layout) : Usable config layout where
  laid := covered.laid
  covered := Nat.le_trans (accepted_of_layout covered.laid).fits covered.blocks
  table _ := by
    have known := (accepted_of_layout covered.laid).known
    rw [one_group covered]
    omega

/-- The free counts fit in the 16 bits of a descriptor. -/
structure Short (config : Config) (layout : Layout) : Prop where
  blocks : config.size_blocks.toNat - layout.metadata_blocks < 65536
  inodes : config.inodes_per_group.toNat - 10 < 65536

/-- The root directory of a fresh image has all of its block left but for the dots. -/
theorem root_room (covered : Covered config layout) {image : Bytes} (ran : format (zeros 0) config = .ok image) :
    Entries.tail_room (image.slice (layout.root_dir_block * config.block_size.toNat) config.block_size.toNat) =
      config.block_size.toNat - 24 := by
  obtain ⟨log, dots, blocks, inodes, written, ran'⟩ := format_ok covered.laid covered.usable.covered
  cases ran.symm.trans ran'
  rw [formatted, slice_dots written.parts]
  exact written.room

/-- A covered image with short counts opens to what `format` has built. -/
theorem start_short (covered : Covered config layout) (short : Short config layout) :
    ∃ image, format (zeros 0) config = .ok image ∧
      open_image image = .ok ⟨image, superblock config layout, [descriptor config layout]⟩ ∧
      Holds (largeGeometry covered.usable covered.large)
        (volumeOf (largeGeometry covered.usable covered.large)
          ⟨image, superblock config layout, [descriptor config layout]⟩)
        ⟨image, superblock config layout, [descriptor config layout]⟩ ∧
      Consistent (largeGeometry covered.usable covered.large)
        (volumeOf (largeGeometry covered.usable covered.large)
          ⟨image, superblock config layout, [descriptor config layout]⟩) (rootOnly layout.root_dir_block) ∧
      Counted (largeGeometry covered.usable covered.large)
        (volumeOf (largeGeometry covered.usable covered.large)
          ⟨image, superblock config layout, [descriptor config layout]⟩) 1 ∧
      Tight (largeGeometry covered.usable covered.large)
        (volumeOf (largeGeometry covered.usable covered.large)
          ⟨image, superblock config layout, [descriptor config layout]⟩) (rootOnly layout.root_dir_block) := by
  have accepted := accepted_of_layout covered.laid
  obtain ⟨log, dots, blocks, inodes, written, ran, opened, fitting, static⟩ := start_large covered.usable covered.large
  have back : read_back config layout = descriptor config layout := by
    have fewBlocks := short.blocks
    have fewInodes := short.inodes
    have same : (config.size_blocks.toNat - layout.metadata_blocks) % 4294967296 % 65536 =
        config.size_blocks.toNat - layout.metadata_blocks := by omega
    have same' : (config.inodes_per_group.toNat - 10) % 4294967296 % 65536 = config.inodes_per_group.toNat - 10 := by omega
    rw [read_back, same, same']
    rfl
  have entries : table config (formatted config layout log dots blocks inodes) = [descriptor config layout] := by
    have first := table_first accepted written
    have length : (table config (formatted config layout log dots blocks inodes)).length = 1 := by
      rw [table, List.length_map, List.length_range', one_group covered]
    obtain ⟨gd, one⟩ := List.length_eq_one_iff.mp length
    rw [one] at first
    rw [one, Option.some.inj first, back]
  rw [entries] at opened static
  exact ⟨_, ran, opened, holds_volumeOf static (size_formatted written), start_consistent accepted written fitting,
    start_counted accepted written fitting covered.blocks covered.inodes,
    start_tight accepted written fitting covered.blocks covered.inodes⟩
end

end Justext4.Start
