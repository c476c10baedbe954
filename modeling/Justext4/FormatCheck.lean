import Justext4.Invariants

/-!
What `format` gives for every configuration. A configuration that the layout
refuses is an error. One that it accepts becomes an image that opens to what
was built when the descriptor table does not lie over the superblock, one
bitmap block covers all blocks and all inodes, and the free counts fit in the
16 bits that a descriptor has for them; otherwise it does not.
-/
namespace Justext4.FormatCheck
open Justext4 Justext4.Fallible Justext4.Fields Justext4.Filesystem Justext4.Volumes Justext4.Mkfs Bytes
open Justext4.DirBlock (Kid kid)
open Justext4.Backing (listing)
open Justext4.Counts
open Justext4.Formatted
open Justext4.Reading (read_dir_ok read_node)
open Justext4.Nodes (live_of)
open Justext4.Start
open Justext4.Invariants

/-- The byte ranges of the superblock, the descriptor, the bitmaps, the inode
    table and the root block, each with its length. -/
def regions (config : Config) (layout : Layout) : List (Nat × Nat) :=
  [(1024, 1024), (config.block_size.toNat, 32), (2 * config.block_size.toNat, config.block_size.toNat),
    (3 * config.block_size.toNat, config.block_size.toNat),
    (4 * config.block_size.toNat, config.inodes_per_group.toNat * 256),
    (layout.root_dir_block * config.block_size.toNat, config.block_size.toNat)]

/-- The image that was opened is the one that was to be built. -/
structure Intact (config : Config) (layout : Layout) (image : Bytes) (fs : Filesystem) : Prop where
  superblock : fs.superblock = superblock config layout
  gdt : fs.gdt = [descriptor config layout]
  apart : (regions config layout).Pairwise fun s t => spansApart s t = true
  inside : ∀ s ∈ regions config layout, s.1 + s.2 ≤ image.size
  root : ∃ inode es, read_inode fs ROOT_INODE = .ok inode ∧ read_dir fs inode = .ok es ∧
    es.map (fun e => (e.name, e.inode)) = [(DOT, ROOT_INODE), (DOTDOT, ROOT_INODE)]
  covered : config.size_blocks.toNat ≤ 8 * config.block_size.toNat ∧
    config.inodes_per_group.toNat ≤ 8 * config.block_size.toNat
  blocks : fs.superblock.free_blocks_count.toNat = clearBits (block_bit fs) config.size_blocks.toNat
  inodes : fs.superblock.free_inodes_count.toNat = clearBits (inode_bit fs) config.inodes_per_group.toNat
  group : ∀ gd ∈ fs.gdt, gd.free_blocks_count.toNat = clearBits (block_bit fs) config.size_blocks.toNat ∧
    gd.free_inodes_count.toNat = clearBits (inode_bit fs) config.inodes_per_group.toNat

/-- `format` refuses the configuration, or ends with an image that opens and is intact. -/
def Formats (config : Config) : Prop :=
  (∃ e, format (zeros 0) config = .error (.err e)) ∨
  ∃ layout image fs, Layout.from_config config = .ok layout ∧ format (zeros 0) config = .ok image ∧
    open_image image = .ok fs ∧ Intact config layout image fs

section
variable {config : Config} {layout : Layout}

theorem regions_apart (covered : Covered config layout) :
    (regions config layout).Pairwise fun s t => spansApart s t = true := by
  obtain ⟨known, -, -, -, root, -, -⟩ := accepted_of_layout covered.laid
  have large := covered.large
  have table := (largeGeometry covered.usable covered.large).table_before_root
  have first : (largeGeometry covered.usable covered.large).root = layout.root_dir_block := root.symm
  rw [first] at table
  have before : 4 * config.block_size.toNat + config.inodes_per_group.toNat * 256 ≤
      layout.root_dir_block * config.block_size.toNat := table
  have apart : ∀ {a n b m : Nat}, a + n ≤ b → spansApart (a, n) (b, m) = true := by
    intro a n b m ends
    simp [spansApart, ends]
  simp only [regions, List.pairwise_cons, List.forall_mem_cons, List.not_mem_nil, false_imp_iff, implies_true, and_true,
    List.Pairwise.nil]
  refine ⟨⟨?_, ?_, ?_, ?_, ?_⟩, ⟨?_, ?_, ?_, ?_⟩, ⟨?_, ?_, ?_⟩, ⟨?_, ?_⟩, ?_⟩ <;> exact apart (by omega)

/-- Covered and with short counts, the image is intact. -/
theorem intact_of_short (covered : Covered config layout) (short : Short config layout) :
    ∃ image fs, format (zeros 0) config = .ok image ∧ open_image image = .ok fs ∧ Intact config layout image fs := by
  obtain ⟨image, ran, opened, holds, consistent, counted, -⟩ := start_short covered short
  obtain ⟨-, -, -, -, root, metadata, fits⟩ := accepted_of_layout covered.laid
  have blocksFit := covered.blocks
  have inodesFit := covered.inodes
  have table := (largeGeometry covered.usable covered.large).table_before_root
  have first : (largeGeometry covered.usable covered.large).root = layout.root_dir_block := root.symm
  have size : image.size = config.size_blocks.toNat * config.block_size.toNat := holds.size
  have last : layout.root_dir_block * config.block_size.toNat + config.block_size.toNat ≤ image.size := by
    rw [size]
    exact block_before (by omega)
  have found : rootOnly layout.root_dir_block ROOT_INODE = some (.dir layout.root_dir_block ROOT_INODE []) := if_pos rfl
  obtain ⟨es, read, -, same⟩ := read_dir_ok holds (consistent.sound found)
  have free : clearBits (block_bit ⟨image, superblock config layout, [descriptor config layout]⟩)
      config.size_blocks.toNat = clearBits (volumeOf (largeGeometry covered.usable covered.large)
        ⟨image, superblock config layout, [descriptor config layout]⟩).blockBit config.size_blocks.toNat :=
    clearBits_congr fun i small => block_bit_eq holds (by show i < 8 * config.block_size.toNat; omega)
  have free' : clearBits (inode_bit ⟨image, superblock config layout, [descriptor config layout]⟩)
      config.inodes_per_group.toNat = clearBits (volumeOf (largeGeometry covered.usable covered.large)
        ⟨image, superblock config layout, [descriptor config layout]⟩).inodeBit config.inodes_per_group.toNat :=
    clearBits_congr fun i small => inode_bit_eq holds (by show i < 8 * config.block_size.toNat; omega)
  obtain ⟨groupBlocks, groupInodes, -⟩ := counted.group (descriptor config layout) rfl
  refine ⟨image, _, ran, opened, rfl, rfl, regions_apart covered, ?_, ?_, ⟨blocksFit, inodesFit⟩, ?_, ?_, ?_⟩
  · rw [first] at table
    have before : 4 * config.block_size.toNat + config.inodes_per_group.toNat * 256 ≤
        layout.root_dir_block * config.block_size.toNat := table
    have positive : 1024 ≤ config.block_size.toNat := (largeGeometry covered.usable covered.large).positive
    have large : config.block_size.toNat ≠ 1024 := covered.large
    have known := (accepted_of_layout covered.laid).known
    intro s member
    simp only [regions, List.mem_cons, List.not_mem_nil, or_false] at member
    rcases member with rfl | rfl | rfl | rfl | rfl | rfl <;> simp only <;> omega
  · refine ⟨_, es, read_node holds consistent (live_of found), read, ?_⟩
    have names := congrArg (List.map fun k : Kid => (k.name, k.inode)) same
    rw [List.map_map] at names
    exact names
  · rw [free]
    exact counted.blocks
  · rw [free']
    exact counted.inodes
  · intro gd member
    rw [List.mem_singleton.mp member, free, free']
    exact ⟨groupBlocks, groupInodes⟩

/-- An intact image is covered and has short counts. -/
theorem short_of_intact {image : Bytes} {fs : Filesystem} (laid : Layout.from_config config = .ok layout)
    (ran : format (zeros 0) config = .ok image) (opened : open_image image = .ok fs) (intact : Intact config layout image fs) :
    Covered config layout ∧ Short config layout := by
  have large : config.block_size.toNat ≠ 1024 := by
    intro small
    have apart := intact.apart
    rw [regions, List.pairwise_cons] at apart
    have overlap := apart.1 _ (List.mem_cons_self ..)
    rw [small] at overlap
    cases overlap
  have covered : Covered config layout := ⟨laid, large, intact.covered.1, intact.covered.2⟩
  obtain ⟨log, dots, blocks, inodes, written, ran', opened', -, -⟩ := start_large covered.usable covered.large
  have accepted := accepted_of_layout laid
  cases ran.symm.trans ran'
  cases opened.symm.trans opened'
  have first := table_first accepted written
  have gdt : table config (formatted config layout log dots blocks inodes) = [descriptor config layout] := intact.gdt
  rw [gdt] at first
  have same : descriptor config layout = read_back config layout := Option.some.inj first
  have some := accepted.inodes
  have blocksBound := config.size_blocks.toNat_lt
  have inodesBound := config.inodes_per_group.toNat_lt
  have freeBlocks := congrArg (fun gd => gd.free_blocks_count.toNat) same
  have freeInodes := congrArg (fun gd => gd.free_inodes_count.toNat) same
  simp only [descriptor, read_back, UInt32.toNat_ofNat'] at freeBlocks freeInodes
  exact ⟨covered, by omega, by omega⟩
end

/-- Which configurations are formatted as they should be. -/
theorem formats_iff (config : Config) : Formats config ↔
    (∃ e, Layout.from_config config = .error (.err e)) ∨
    ∃ layout, Layout.from_config config = .ok layout ∧ config.block_size.toNat ≠ 1024 ∧
      config.size_blocks.toNat ≤ 8 * config.block_size.toNat ∧
      config.inodes_per_group.toNat ≤ 8 * config.block_size.toNat ∧
      config.size_blocks.toNat - layout.metadata_blocks < 65536 ∧ config.inodes_per_group.toNat - 10 < 65536 := by
  constructor
  · rintro (⟨e, refused⟩ | ⟨layout, image, fs, laid, ran, opened, intact⟩)
    · cases laid : Layout.from_config config with
      | error fault =>
        rw [format, laid, res_bind_error] at refused
        cases refused
        exact .inl ⟨e, rfl⟩
      | ok layout =>
        exfalso
        by_cases covered : layout.metadata_blocks ≤ 8 * config.block_size.toNat
        · obtain ⟨log, dots, blocks, inodes, -, ran⟩ := format_ok laid covered
          cases ran.symm.trans refused
        · cases (format_panics laid (by omega)).symm.trans refused
    · obtain ⟨covered, short⟩ := short_of_intact laid ran opened intact
      exact .inr ⟨layout, laid, covered.large, covered.blocks, covered.inodes, short.blocks, short.inodes⟩
  · rintro (⟨e, refused⟩ | ⟨layout, laid, large, blocks, inodes, fewBlocks, fewInodes⟩)
    · exact .inl ⟨e, by rw [format, refused, res_bind_error]⟩
    · obtain ⟨image, fs, ran, opened, intact⟩ :=
        @intact_of_short _ layout ⟨laid, large, blocks, inodes⟩ ⟨fewBlocks, fewInodes⟩
      exact .inr ⟨layout, image, fs, laid, ran, opened, intact⟩

/-- Sixteen blocks of 1 KiB. -/
def smallConfig : Config := { Config.default with block_size := 1024, inodes_per_group := 16 }

/-- On blocks of 1 KiB the descriptor is written over the superblock, and the
    image opens to a filesystem of two inodes. -/
theorem small_overwritten : ¬ Formats smallConfig ∧
    ∃ image fs, format (zeros 0) smallConfig = .ok image ∧ open_image image = .ok fs ∧
      fs.superblock.inodes_count.toNat = 2 := by
  let layout : Layout := ⟨1024, 4, 4, 8, 9⟩
  have laid : Layout.from_config smallConfig = .ok layout := by decide
  obtain ⟨log, dots, blocks, inodes, written, ran⟩ := format_ok laid (by decide)
  obtain ⟨sb, gd, opened, -, -, count, -⟩ := open_small (accepted_of_layout laid) written rfl
  refine ⟨?_, _, _, ran, opened, count⟩
  rintro (⟨e, refused⟩ | ⟨layout', image, fs, laid', ran', opened', intact⟩)
  · cases ran.symm.trans refused
  · exact (short_of_intact laid' ran' opened' intact).1.large rfl

end Justext4.FormatCheck
