import Justext4.Regions

/-!
A check of an image. Its uses are listed with their places, one inode after
another; when every tree is a leaf nothing else is used, and it is enough that
no two places of the list with different uses meet and that every entry of a
directory in use names an inode in use.
-/
namespace Justext4.Survey
open Justext4 Justext4.Fallible Justext4.Fields Justext4.Filesystem Bytes
open Justext4.Superblock (Superblock SUPERBLOCK_OFFSET SUPERBLOCK_SIZE)
open Justext4.GroupDescriptor (GroupDescriptor)
open Justext4.Inode (Inode)
open Justext4.Extent (Extent decode_extent_node)
open Justext4.ExtentMap (Below below_leaf)
open Justext4.FlushedRecords (entrySize)
open Justext4.Images (tableOffset)
open Justext4.DirEntry (DirEntry is_unused)
open Justext4.Regions

/-! ### What is listed -/

instance (fs : Filesystem) (n : UInt32) : Decidable (Live fs n) := inferInstanceAs (Decidable (_ ∧ _ ∧ _))

/-- The numbers that inodes have. -/
def numbers (fs : Filesystem) : List UInt32 :=
  (List.range fs.superblock.inodes_count.toNat).map fun i => .ofNat (i + 1)
/-- The extents of an inode whose tree is a leaf. -/
def extentsOf (fs : Filesystem) (n : UInt32) : List Extent :=
  match read_inode fs n with
  | .ok inode =>
    match Inode.uses_extents inode, decode_extent_node inode.block.bytes with
    | true, .ok (.Leaf _ es) => es
    | _, _ => []
  | .error _ => []
/-- The tree of the inode has no node outside of it. -/
def flat (fs : Filesystem) (n : UInt32) : Bool :=
  match read_inode fs n with
  | .ok inode =>
    match Inode.uses_extents inode, decode_extent_node inode.block.bytes with
    | true, .ok (.Internal _ _) => false
    | _, _ => true
  | .error _ => true
/-- The entries of an inode that is a directory. -/
def entriesOf (fs : Filesystem) (d : UInt32) : List DirEntry :=
  match read_inode fs d with
  | .ok inode =>
    match Inode.is_directory inode, read_dir fs inode with
    | true, .ok entries => entries
    | _, _ => []
  | .error _ => []

/-- A use, the position where its place starts and how long that is. -/
abbrev Place := Use × Nat × Nat

def groupPlaces (fs : Filesystem) (group : Nat) : List Place :=
  match fs.gdt[group]? with
  | some gd =>
    [(.blockBitmap group, gd.block_bitmap.toNat * fs.superblock.block_size.toNat, fs.superblock.block_size.toNat),
      (.inodeBitmap group, gd.inode_bitmap.toNat * fs.superblock.block_size.toNat, fs.superblock.block_size.toNat)]
  | none => []
def slotPlaces (fs : Filesystem) (n : UInt32) : List Place :=
  match inode_offset fs n with
  | .ok offset => [(.slot n, offset, fs.superblock.inode_size.toNat)]
  | .error _ => []
def dataPlaces (fs : Filesystem) (n : UInt32) : List Place :=
  if Live fs n then
    (extentsOf fs n).map fun e => (.data n, e.physical_block.toNat * fs.superblock.block_size.toNat,
      e.len.toNat * fs.superblock.block_size.toNat)
  else []
def places (fs : Filesystem) : List Place :=
  [(.superblock, SUPERBLOCK_OFFSET, SUPERBLOCK_SIZE),
    (.table, tableOffset fs.superblock, fs.gdt.length * entrySize fs)] ++
    (List.range fs.gdt.length).flatMap (groupPlaces fs) ++ (numbers fs).flatMap (slotPlaces fs) ++
      (numbers fs).flatMap (dataPlaces fs)

/-- The places do not meet, unless they are of one use. -/
def Parted (a b : Place) : Prop := a.1 = b.1 ∨ a.2.1 + a.2.2 ≤ b.2.1 ∨ b.2.1 + b.2.2 ≤ a.2.1
instance (a b : Place) : Decidable (Parted a b) := inferInstanceAs (Decidable (_ ∨ _))
theorem parted_symm {a b : Place} (parted : Parted a b) : Parted b a := by
  rcases parted with same | before | after
  · exact .inl same.symm
  · exact .inr (.inr before)
  · exact .inr (.inl after)

/-- What is checked of an image. -/
structure Sound (fs : Filesystem) : Prop where
  flat : ∀ n ∈ numbers fs, flat fs n = true
  parted : (places fs).Pairwise Parted
  root : Live fs ROOT_INODE
  named : ∀ d ∈ numbers fs, Live fs d → ∀ entry ∈ entriesOf fs d, is_unused entry = false → Live fs entry.inode

/-- The check, by going through the lists. -/
def checks (fs : Filesystem) : Bool :=
  (numbers fs).all (flat fs) && decide ((places fs).Pairwise Parted) && decide (Live fs ROOT_INODE) &&
    (numbers fs).all fun d => !decide (Live fs d) ||
      (entriesOf fs d).all fun entry => is_unused entry || decide (Live fs entry.inode)

theorem sound_iff (fs : Filesystem) : Sound fs ↔ checks fs = true := by
  simp only [checks, Bool.and_eq_true, List.all_eq_true, decide_eq_true_eq, Bool.or_eq_true, Bool.not_eq_true',
    decide_eq_false_iff_not]
  constructor
  · rintro ⟨flat, parted, root, named⟩
    refine ⟨⟨⟨flat, parted⟩, root⟩, fun d member => ?_⟩
    by_cases live : Live fs d
    · refine .inr fun entry listed => ?_
      cases used : is_unused entry with
      | true => exact .inl rfl
      | false => exact .inr (named d member live entry listed used)
    · exact .inl live
  · rintro ⟨⟨⟨flat, parted⟩, root⟩, named⟩
    refine ⟨flat, parted, root, fun d member live entry listed used => ?_⟩
    rcases named d member with unused | each
    · exact absurd live unused
    · rcases each entry listed with unused | alive
      · exact absurd (used.symm.trans unused) Bool.false_ne_true
      · exact alive
instance (fs : Filesystem) : Decidable (Sound fs) := decidable_of_iff _ (sound_iff fs).symm

/-! ### Nothing else is used -/

section
variable {fs : Filesystem} {n : UInt32}

theorem mem_numbers : n ∈ numbers fs ↔ n ≠ 0 ∧ n ≤ fs.superblock.inodes_count := by
  have bound := fs.superblock.inodes_count.toNat_lt
  have small := n.toNat_lt
  simp only [numbers, List.mem_map, List.mem_range, UInt32.le_iff_toNat_le]
  constructor
  · rintro ⟨i, inside, rfl⟩
    have number : (UInt32.ofNat (i + 1)).toNat = i + 1 := by
      rw [UInt32.toNat_ofNat']
      omega
    refine ⟨fun zero => ?_, by omega⟩
    rw [zero] at number
    simp at number
  · rintro ⟨some, inside⟩
    have positive : n.toNat ≠ 0 := fun zero => some (UInt32.toNat_inj.mp zero)
    refine ⟨n.toNat - 1, by omega, ?_⟩
    rw [Nat.sub_add_cancel (by omega)]
    exact UInt32.ofNat_toNat

theorem live_number (live : Live fs n) : n ∈ numbers fs := mem_numbers.mpr ⟨live.1, live.2.1⟩

theorem extents_below (flat : ∀ n ∈ numbers fs, flat fs n = true) {inode : Inode} (live : Live fs n)
    (read : read_inode fs n = .ok inode) (based : Inode.uses_extents inode = true) :
    (∀ block, ¬ NodeBelow fs inode.block.bytes block) ∧ ∀ ext, Below fs inode.block.bytes ext → ext ∈ extentsOf fs n := by
  have here := flat n (live_number live)
  rw [Survey.flat, read] at here
  rw [extentsOf, read]
  dsimp only at here ⊢
  rw [based] at here ⊢
  cases decoded : decode_extent_node inode.block.bytes with
  | error fault =>
    constructor
    · intro block below
      cases below with
      | child decoded' => cases decoded.symm.trans decoded'
      | deeper decoded' => cases decoded.symm.trans decoded'
    · intro ext below
      cases below with
      | leaf decoded' => cases decoded.symm.trans decoded'
      | node decoded' => cases decoded.symm.trans decoded'
  | ok node =>
    cases node with
    | Internal header indices =>
      rw [decoded] at here
      cases here
    | Leaf header es =>
      constructor
      · intro block below
        cases below with
        | child decoded' => cases decoded.symm.trans decoded'
        | deeper decoded' => cases decoded.symm.trans decoded'
      · intro ext below
        exact (below_leaf decoded).mp below

theorem occupies_listed (flat : ∀ n ∈ numbers fs, flat fs n = true) {use : Use} {start len : Nat}
    (occupies : Occupies fs use start len) : (use, start, len) ∈ places fs := by
  simp only [places, List.mem_append, List.mem_cons, List.mem_flatMap, List.not_mem_nil, or_false]
  cases occupies with
  | superblock => exact .inl (.inl (.inl (.inl rfl)))
  | table => exact .inl (.inl (.inl (.inr rfl)))
  | blockBitmap found =>
    refine .inl (.inl (.inr ⟨_, List.mem_range.mpr (List.getElem?_eq_some_iff.mp found).1, ?_⟩))
    simp [groupPlaces, found]
  | inodeBitmap found =>
    refine .inl (.inl (.inr ⟨_, List.mem_range.mpr (List.getElem?_eq_some_iff.mp found).1, ?_⟩))
    simp [groupPlaces, found]
  | slot number found =>
    refine .inl (.inr ⟨_, mem_numbers.mpr number, ?_⟩)
    simp [slotPlaces, found]
  | tree live read based below => exact absurd below ((extents_below flat live read based).1 _)
  | data live read based below =>
    refine .inr ⟨_, live_number live, ?_⟩
    have member := (extents_below flat live read based).2 _ below
    simp only [dataPlaces, live, ↓reduceIte, List.mem_map]
    exact ⟨_, member, rfl⟩

theorem Sound.separate (sound : Sound fs) : Separate fs := by
  intro use use' start len start' len' i first second low high low' high'
  have member := occupies_listed sound.flat first
  have member' := occupies_listed sound.flat second
  have symmetric : Std.Symm Parted := ⟨fun _ _ parted => parted_symm parted⟩
  by_cases same : (use, start, len) = (use', start', len')
  · exact congrArg Prod.fst same
  · rcases sound.parted.forall member member' same with equal | before | after
    · exact equal
    · simp only at before
      omega
    · simp only at after
      omega
theorem Sound.consistent (sound : Sound fs) : ConsistentImage fs := by
  refine ⟨sound.separate, sound.root, ?_⟩
  intro d inode entries entry live read directory listed member used
  refine sound.named d (live_number live) live entry ?_ used
  rw [entriesOf, read]
  dsimp only
  rw [directory, listed]
  exact member
end

/-! ### Small images -/

/-- The call has returned. -/
def returned {σ ε α : Type} : Ended σ ε α → Bool
  | .ok _ _ => true
  | _ => false
theorem returned_ok {σ ε α : Type} {ended : Ended σ ε α} (returns : returned ended = true) : ∃ a s, ended = .ok a s := by
  cases ended with
  | ok a s => exact ⟨a, s, rfl⟩
  | err e s => cases returns
  | panic => cases returns

/-- The `i_block` of a leaf with these runs. -/
def leafBlock (es : List Extent) : FixedBytes 60 :=
  match i_block es with
  | .ok block => block
  | .error _ => .zeros 60
/-- An inode with the runs of a leaf. -/
def leafInode (mode links_count : UInt16) (size : UInt64) (es : List Extent) : Inode where
  mode
  uid := 0
  gid := 0
  size
  atime := 0
  ctime := 0
  mtime := 0
  dtime := 0
  links_count
  blocks_lo := .ofNat (total_len es * 4)
  blocks_hi := 0
  flags := Inode.INODE_FLAG_EXTENTS
  block := leafBlock es
  generation := 0
  file_acl_lo := 0
  file_acl_hi := 0
/-- The records of entries one after another. -/
def entryBytes (entries : List DirEntry) : Bytes := joined (entries.map DirEntry.record)
/-- The first block of a root directory of one block of 2048 bytes, with a number of
    entries for files besides the two dots. -/
def rootEntries : List (List UInt8 × UInt32) → List DirEntry
  | [] => [⟨2, 12, 2, DOT⟩, ⟨2, 2036, 2, DOTDOT⟩]
  | files => [⟨2, 12, 2, DOT⟩, ⟨2, 12, 2, DOTDOT⟩] ++
      files.dropLast.map (fun file => ⟨file.2, 12, 1, file.1⟩) ++
      files.getLast?.toList.map fun file => ⟨file.2, .ofNat (2048 - 12 * (files.length + 1)), 1, file.1⟩

/-- A superblock and a descriptor of a single group of 16 blocks of 2048 bytes and 16 inodes. -/
def smallSuperblock (free_blocks : UInt64) (free_inodes : UInt32) : Superblock :=
  { Images.plain 2048 16 16 0 16 16 with free_blocks_count := free_blocks, free_inodes_count := free_inodes }
def smallGroup (free_blocks free_inodes : UInt32) : GroupDescriptor where
  block_bitmap := 2
  inode_bitmap := 3
  inode_table := 4
  free_blocks_count := free_blocks
  free_inodes_count := free_inodes
  used_dirs_count := 1
  flags := 0
  checksum := 0
/-- The bitmaps, the slots and the other blocks of the group. -/
def smallParts (blockBits inodeBits : List UInt8) (slots : List (Nat × Inode)) (contents : List (Nat × Bytes)) :
    List (Nat × Bytes) :=
  (4096, (zeros 2048).patch 0 (ofList blockBits)) :: (6144, (zeros 2048).patch 0 (ofList inodeBits)) ::
    (slots.map fun s => (8192 + (s.1 - 1) * 256, Inode.record s.2 256)) ++ contents.map fun c => (c.1 * 2048, c.2)
def smallState (free_blocks free_inodes : Nat) (parts : List (Nat × Bytes)) : Filesystem where
  reader := Images.assembled 32768 (smallSuperblock (.ofNat free_blocks) (.ofNat free_inodes)) 1
    [smallGroup (.ofNat free_blocks) (.ofNat free_inodes)] parts
  superblock := smallSuperblock (.ofNat free_blocks) (.ofNat free_inodes)
  gdt := [smallGroup (.ofNat free_blocks) (.ofNat free_inodes)]

theorem assembles_iff {total : Nat} {sb : Superblock} {log : UInt32} {gds : List GroupDescriptor} {others : List (Nat × Bytes)} :
    Images.Assembles total sb log gds others ↔ Superblock.is_64bit sb = false ∧
      Superblock.logBlockSizeOf sb.block_size = some log ∧ Superblock.REV_DYNAMIC ≤ sb.rev_level ∧ sb.inode_size ≠ 0 ∧
      sb.blocks_count.toNat < 4294967296 ∧ sb.free_blocks_count.toNat < 4294967296 ∧ sb.blocks_per_group ≠ 0 ∧
      sb.inodes_per_group ≠ 0 ∧ (Superblock.group_count sb).toNat = gds.length ∧ (∀ gd ∈ gds, Images.Narrow gd) ∧
      (Images.spans sb gds others).all (fun s => s.1 + s.2 ≤ total) = true ∧
      (Images.spans sb gds others).Pairwise fun s t => spansApart s t = true :=
  ⟨fun ⟨a, b, c, d, e, f, g, h, i, j, k, l⟩ => ⟨a, b, c, d, e, f, g, h, i, j, k, l⟩,
    fun ⟨a, b, c, d, e, f, g, h, i, j, k, l⟩ => ⟨a, b, c, d, e, f, g, h, i, j, k, l⟩⟩
instance {total : Nat} {sb : Superblock} {log : UInt32} {gds : List GroupDescriptor} {others : List (Nat × Bytes)} :
    Decidable (Images.Assembles total sb log gds others) := decidable_of_iff _ assembles_iff.symm

section
variable {free_blocks free_inodes : Nat} {parts : List (Nat × Bytes)}

theorem small_opens (assembles : Images.Assembles 32768 (smallSuperblock (.ofNat free_blocks) (.ofNat free_inodes)) 1
    [smallGroup (.ofNat free_blocks) (.ofNat free_inodes)] parts) :
    open_image (smallState free_blocks free_inodes parts).reader = .ok (smallState free_blocks free_inodes parts) := by
  unfold smallState
  dsimp only
  exact @Images.open_assembled 32768 _ 1 _ _ assembles
theorem small_reads (assembles : Images.Assembles 32768 (smallSuperblock (.ofNat free_blocks) (.ofNat free_inodes)) 1
    [smallGroup (.ofNat free_blocks) (.ofNat free_inodes)] parts) {n : UInt32} {inode : Inode} (some : n ≠ 0) (few : n ≤ 16)
    (member : (4 * 2048 + (n.toNat - 1) % 16 * 256, Inode.record inode 256) ∈ parts) :
    read_inode (smallState free_blocks free_inodes parts) n = .ok inode := by
  have low : n.toNat ≤ 16 := few
  refine @Images.read_inode_part _ _ _ _ _ assembles rfl n (smallGroup (.ofNat free_blocks) (.ofNat free_inodes)) inode
    some few ?_ member (by decide)
  rw [show (n.toNat - 1) / (smallSuperblock (.ofNat free_blocks) (.ofNat free_inodes)).inodes_per_group.toNat = 0 from
    Nat.div_eq_of_lt (show n.toNat - 1 < 16 by omega)]
  rfl
end

end Justext4.Survey
