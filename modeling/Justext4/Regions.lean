import Justext4.BitmapLimit
import Justext4.ExtentMap
import Justext4.FlushedRecords

/-!
What the bytes of an image are used for. The two records, the bitmaps, the
slots of the inodes, the nodes of their extent trees and the blocks that they
map each have their place, and on a sound image no byte has two uses. What a
call changes is given by the positions it may write; whatever is read from
elsewhere is the same after it as before.
-/
namespace Justext4.Regions
open Justext4 Justext4.Fallible Justext4.Filesystem Bytes
open Justext4.Superblock (Superblock SUPERBLOCK_OFFSET SUPERBLOCK_SIZE logBlockSizeOf)
open Justext4.GroupDescriptor (GroupDescriptor)
open Justext4.Inode (Inode)
open Justext4.Extent (Extent ExtentHeader ExtentIndex decode_extent_node)
open Justext4.ExtentMap (Below Covers mapped child_node find_extent_some resolve_leaf resolve_internal choose_index_some)
open Justext4.FlushedRecords (entrySize write_gdt_run opened_records loaded_opened)
open Justext4.Codecs (superblockImage size_superblockImage superblock_encode superblock_decode_inv)
open Justext4.Slots (InSlot withSlot read_inode_eq slot_withSlot)
open Justext4.Images (tableOffset)
open Justext4.Recounting
open Justext4.Volumes (read_at_ok in_u64_ok)
open Justext4.Decoders (length_collect)
open Justext4.DirEntry (DirEntry is_unused)

/-! ### Uses -/

inductive Use where
  | superblock
  | table
  | blockBitmap (group : Nat)
  | inodeBitmap (group : Nat)
  | slot (n : UInt32)
  | tree (n : UInt32)
  | data (n : UInt32)
  deriving DecidableEq

/-- The bytes of a block. -/
def blockBytes (fs : Filesystem) (block : Nat) : Bytes :=
  fs.reader.slice (block * fs.superblock.block_size.toNat) fs.superblock.block_size.toNat

/-- The bit of an inode in the bitmap of its group. -/
def inodeBit (fs : Filesystem) (n : UInt32) : Bool :=
  match fs.gdt[(n.toNat - 1) / fs.superblock.inodes_per_group.toNat]? with
  | some gd =>
    Bitmap.get_bit (blockBytes fs gd.inode_bitmap.toNat) ((n.toNat - 1) % fs.superblock.inodes_per_group.toNat)
  | none => false
/-- The inode is marked as used. -/
def Live (fs : Filesystem) (n : UInt32) : Prop := n ≠ 0 ∧ n ≤ fs.superblock.inodes_count ∧ inodeBit fs n = true

/-- The block holds a node of the tree, somewhere below the node. -/
inductive NodeBelow (fs : Filesystem) : Bytes → Nat → Prop
  | child {node_buf : Bytes} {header : ExtentHeader} {indices : List ExtentIndex} {idx : ExtentIndex}
      (decoded : decode_extent_node node_buf = .ok (.Internal header indices)) (member : idx ∈ indices) :
      NodeBelow fs node_buf idx.leaf_block.toNat
  | deeper {node_buf child : Bytes} {header : ExtentHeader} {indices : List ExtentIndex} {idx : ExtentIndex} {block : Nat}
      (decoded : decode_extent_node node_buf = .ok (.Internal header indices)) (member : idx ∈ indices)
      (read : child_node fs idx = .ok child) (below : NodeBelow fs child block) : NodeBelow fs node_buf block

/-- The use has the `len` bytes from `start` on. -/
inductive Occupies (fs : Filesystem) : Use → Nat → Nat → Prop
  | superblock : Occupies fs .superblock SUPERBLOCK_OFFSET SUPERBLOCK_SIZE
  | table : Occupies fs .table (tableOffset fs.superblock) (fs.gdt.length * entrySize fs)
  | blockBitmap {group : Nat} {gd : GroupDescriptor} (found : fs.gdt[group]? = some gd) :
      Occupies fs (.blockBitmap group) (gd.block_bitmap.toNat * fs.superblock.block_size.toNat)
        fs.superblock.block_size.toNat
  | inodeBitmap {group : Nat} {gd : GroupDescriptor} (found : fs.gdt[group]? = some gd) :
      Occupies fs (.inodeBitmap group) (gd.inode_bitmap.toNat * fs.superblock.block_size.toNat)
        fs.superblock.block_size.toNat
  | slot {n : UInt32} {offset : Nat} (number : n ≠ 0 ∧ n ≤ fs.superblock.inodes_count)
      (found : inode_offset fs n = .ok offset) : Occupies fs (.slot n) offset fs.superblock.inode_size.toNat
  | tree {n : UInt32} {inode : Inode} {block : Nat} (live : Live fs n) (read : read_inode fs n = .ok inode)
      (based : Inode.uses_extents inode = true) (below : NodeBelow fs inode.block.bytes block) :
      Occupies fs (.tree n) (block * fs.superblock.block_size.toNat) fs.superblock.block_size.toNat
  | data {n : UInt32} {inode : Inode} {ext : Extent} (live : Live fs n) (read : read_inode fs n = .ok inode)
      (based : Inode.uses_extents inode = true) (below : Below fs inode.block.bytes ext) :
      Occupies fs (.data n) (ext.physical_block.toNat * fs.superblock.block_size.toNat)
        (ext.len.toNat * fs.superblock.block_size.toNat)

/-- No byte has two uses. -/
def Separate (fs : Filesystem) : Prop :=
  ∀ {use use' : Use} {start len start' len' i : Nat}, Occupies fs use start len → Occupies fs use' start' len' →
    start ≤ i → i < start + len → start' ≤ i → i < start' + len' → use = use'

/-- The positions of the uses that are listed. -/
def Among (fs : Filesystem) (uses : List Use) (i : Nat) : Prop :=
  ∃ use ∈ uses, ∃ start len, Occupies fs use start len ∧ start ≤ i ∧ i < start + len

/-- None of the `len` positions from `start` on is in `D`. -/
def Clear (D : Nat → Prop) (start len : Nat) : Prop := ∀ i, start ≤ i → i < start + len → ¬ D i

/-- A place of another use is apart from all that are listed. -/
theorem Separate.clear {fs : Filesystem} (separate : Separate fs) {uses : List Use} {use : Use} {start len : Nat}
    (occupies : Occupies fs use start len) (other : use ∉ uses) : Clear (Among fs uses) start len := by
  rintro i low high ⟨use', member, start', len', occupies', low', high'⟩
  have same := separate occupies occupies' low high low' high'
  exact other (same ▸ member)

/-! ### Changes of some positions -/

/-- The records are the same but for their counts, and the image but for the
    positions of `D`. -/
structure Altered (D : Nat → Prop) (fs fs' : Filesystem) : Prop where
  superblock : ∃ blocks inodes, fs'.superblock =
    { fs.superblock with free_blocks_count := blocks, free_inodes_count := inodes }
  gdt : List.Forall₂ SameGroup fs.gdt fs'.gdt
  size : fs'.reader.size = fs.reader.size
  bytes : ∀ i, ¬ D i → fs'.reader.byte i = fs.reader.byte i

section
variable {D D' : Nat → Prop} {fs fs' fs'' : Filesystem} {n : UInt32} {inode : Inode}

theorem altered_refl (D : Nat → Prop) (fs : Filesystem) : Altered D fs fs :=
  ⟨⟨_, _, rfl⟩, List.forall₂_same.mpr fun gd _ => sameGroup_refl gd, rfl, fun _ _ => rfl⟩
theorem Altered.trans (first : Altered D fs fs') (second : Altered D fs' fs'') : Altered D fs fs'' := by
  obtain ⟨blocks, inodes, same⟩ := second.superblock
  obtain ⟨_, _, same'⟩ := first.superblock
  refine ⟨⟨blocks, inodes, by rw [same, same']⟩, forall₂_trans first.gdt second.gdt, second.size.trans first.size, ?_⟩
  intro i out
  rw [second.bytes i out, first.bytes i out]
theorem Altered.wider (altered : Altered D fs fs') (wider : ∀ i, D i → D' i) : Altered D' fs fs' :=
  { altered with bytes := fun i out => altered.bytes i fun inside => out (wider i inside) }
theorem Altered.block_size (altered : Altered D fs fs') : fs'.superblock.block_size = fs.superblock.block_size := by
  obtain ⟨blocks, inodes, same⟩ := altered.superblock
  rw [same]

/-- The positions of a patch are the ones that it may change. -/
theorem altered_patch {offset : Nat} {src : Bytes} (fits : offset + src.size ≤ fs.reader.size)
    (covers : ∀ i, offset ≤ i → i < offset + src.size → D i) :
    Altered D fs { fs with reader := fs.reader.patch offset src } := by
  refine ⟨⟨_, _, rfl⟩, List.forall₂_same.mpr fun gd _ => sameGroup_refl gd, size_patch _ _ _ fits, fun i out => ?_⟩
  refine byte_patch_outside _ ?_
  by_cases low : offset ≤ i
  · by_cases high : i < offset + src.size
    · exact absurd (covers i low high) out
    · exact .inr (Nat.le_of_not_lt high)
  · exact .inl (Nat.lt_of_not_le low)

/-! ### What is read from elsewhere -/

theorem Altered.slice (altered : Altered D fs fs') {start len : Nat} (clear : Clear D start len) :
    fs'.reader.slice start len = fs.reader.slice start len := by
  refine ext_inside rfl fun i inside => ?_
  rw [size_slice] at inside
  rw [byte_slice_of_lt _ inside, byte_slice_of_lt _ inside]
  exact altered.bytes _ (clear _ (by omega) (by omega))
theorem Altered.read_at (altered : Altered D fs fs') {start len : Nat} (clear : Clear D start len) :
    read_at fs'.reader start len = read_at fs.reader start len := by
  rw [Filesystem.read_at, Filesystem.read_at, altered.size, altered.slice clear]
theorem Altered.group (altered : Altered D fs fs') {group : Nat} {gd : GroupDescriptor}
    (found : fs.gdt[group]? = some gd) : ∃ gd', fs'.gdt[group]? = some gd' ∧ SameGroup gd gd' := by
  obtain ⟨length, each⟩ := List.forall₂_iff_get.mp altered.gdt
  obtain ⟨inside, here⟩ := List.getElem?_eq_some_iff.mp found
  have inside' : group < fs'.gdt.length := by omega
  have same := each group inside inside'
  rw [List.get_eq_getElem, List.get_eq_getElem, here] at same
  exact ⟨_, List.getElem?_eq_getElem inside', same⟩
theorem Altered.group_before (altered : Altered D fs fs') {group : Nat} {gd' : GroupDescriptor}
    (found : fs'.gdt[group]? = some gd') : ∃ gd, fs.gdt[group]? = some gd ∧ SameGroup gd gd' := by
  have length := altered.gdt.length_eq
  obtain ⟨inside, -⟩ := List.getElem?_eq_some_iff.mp found
  obtain ⟨gd'', found', same⟩ := altered.group (List.getElem?_eq_getElem (show group < fs.gdt.length by omega))
  cases found.symm.trans found'
  exact ⟨_, List.getElem?_eq_getElem _, same⟩
theorem Altered.no_group (altered : Altered D fs fs') {group : Nat} (missed : fs.gdt[group]? = none) :
    fs'.gdt[group]? = none := by
  have length := altered.gdt.length_eq
  rw [List.getElem?_eq_none_iff] at missed ⊢
  omega

theorem Altered.inode_offset (altered : Altered D fs fs') (n : UInt32) : inode_offset fs' n = inode_offset fs n := by
  obtain ⟨blocks, inodes, same⟩ := altered.superblock
  rw [Filesystem.inode_offset, Filesystem.inode_offset, same]
  dsimp only
  rw [gdt_at, gdt_at]
  cases found : fs.gdt[(n.toNat - 1) / fs.superblock.inodes_per_group.toNat]? with
  | none => rw [altered.no_group found]
  | some gd =>
    obtain ⟨gd', found', _, _, _, rfl⟩ := altered.group found
    rw [found']
    rfl
theorem Altered.read_inode (altered : Altered D fs fs')
    (clear : ∀ offset, Filesystem.inode_offset fs n = .ok offset → Clear D offset fs.superblock.inode_size.toNat) :
    read_inode fs' n = read_inode fs n := by
  obtain ⟨blocks, inodes, same⟩ := altered.superblock
  have length := altered.gdt.length_eq
  rw [Filesystem.read_inode, Filesystem.read_inode, altered.inode_offset, same, ← length]
  dsimp only
  cases found : Filesystem.inode_offset fs n with
  | error fault => rfl
  | ok offset =>
    simp only [res_bind_ok, altered.read_at (clear offset found)]
    rfl

/-- A block is read at an offset of 64 bits. -/
theorem Altered.block_at (altered : Altered D fs fs') {block : Nat}
    (clear : Clear D (block * fs.superblock.block_size.toNat) fs.superblock.block_size.toNat) :
    (do
      let offset ← in_u64 (block * fs'.superblock.block_size.toNat)
      Filesystem.read_at fs'.reader offset fs'.superblock.block_size.toNat) =
    (do
      let offset ← in_u64 (block * fs.superblock.block_size.toNat)
      Filesystem.read_at fs.reader offset fs.superblock.block_size.toNat) := by
  rw [altered.block_size]
  by_cases fits : block * fs.superblock.block_size.toNat < 18446744073709551616
  · rw [in_u64_ok fits, res_bind_ok, res_bind_ok, altered.read_at clear]
  · rw [in_u64, if_neg fits, res_bind_error, res_bind_error]

/-- A mapped block is one of an extent below the node. -/
theorem resolve_below {logical steps : Nat} {node_buf : Bytes} {physical : Nat}
    (resolved : resolve_steps fs logical steps node_buf = .ok (some physical)) :
    ∃ ext, Below fs node_buf ext ∧ Covers ext logical ∧
      physical = ext.physical_block.toNat + (logical - ext.logical_block.toNat) := by
  induction steps generalizing node_buf with
  | zero => cases resolved
  | succ steps ih =>
    cases decoded : decode_extent_node node_buf with
    | error fault =>
      rw [resolve_steps, decoded] at resolved
      cases fault <;> cases resolved
    | ok node =>
      cases node with
      | Leaf header extents =>
        rw [resolve_leaf decoded] at resolved
        cases found : find_extent extents logical with
        | none =>
          rw [found] at resolved
          cases resolved
        | some ext =>
          obtain ⟨member, covers⟩ := find_extent_some found
          rw [found, Option.bind_some, mapped] at resolved
          split at resolved
          · cases resolved
          · cases resolved
            exact ⟨ext, .leaf decoded member, covers, rfl⟩
      | Internal header indices =>
        rw [resolve_internal decoded] at resolved
        cases chosen : choose_index indices logical with
        | none =>
          rw [chosen] at resolved
          cases resolved
        | some idx =>
          obtain ⟨before, after, split, -⟩ := choose_index_some chosen
          rw [chosen] at resolved
          obtain ⟨child, read, resolved⟩ := res_bind_eq_ok.mp resolved
          obtain ⟨ext, below, covers, place⟩ := ih resolved
          exact ⟨ext, .node decoded (by simp [split]) read below, covers, place⟩

/-- The descent is the same when no node below the first is touched. -/
theorem Altered.resolve_steps (altered : Altered D fs fs') (logical steps : Nat) {node_buf : Bytes}
    (clear : ∀ block, NodeBelow fs node_buf block →
      Clear D (block * fs.superblock.block_size.toNat) fs.superblock.block_size.toNat) :
    resolve_steps fs' logical steps node_buf = resolve_steps fs logical steps node_buf := by
  induction steps generalizing node_buf with
  | zero => rfl
  | succ steps ih =>
    cases decoded : decode_extent_node node_buf with
    | error fault =>
      rw [Filesystem.resolve_steps, Filesystem.resolve_steps, decoded]
      cases fault <;> rfl
    | ok node =>
      cases node with
      | Leaf header extents => rw [resolve_leaf decoded, resolve_leaf decoded]
      | Internal header indices =>
        rw [resolve_internal decoded, resolve_internal decoded]
        cases chosen : choose_index indices logical with
        | none => rfl
        | some idx =>
          obtain ⟨before, after, split, -⟩ := choose_index_some chosen
          have member : idx ∈ indices := by simp [split]
          have same : child_node fs' idx = child_node fs idx := altered.block_at (clear _ (.child decoded member))
          dsimp only
          rw [same]
          cases read : child_node fs idx with
          | error fault => rfl
          | ok child => exact ih fun block below => clear block (.deeper decoded member read below)
theorem Altered.resolve_logical_block (altered : Altered D fs fs') (logical : Nat)
    (clear : ∀ block, NodeBelow fs inode.block.bytes block →
      Clear D (block * fs.superblock.block_size.toNat) fs.superblock.block_size.toNat) :
    resolve_logical_block fs' inode logical = resolve_logical_block fs inode logical := by
  rw [Filesystem.resolve_logical_block, Filesystem.resolve_logical_block, altered.resolve_steps _ _ clear]
theorem Altered.load_block (altered : Altered D fs fs') {block : Nat}
    (clear : Clear D (block * fs.superblock.block_size.toNat) fs.superblock.block_size.toNat) :
    load_block fs' block = load_block fs block := by
  rw [Filesystem.load_block, Filesystem.load_block, altered.block_size]
  by_cases fits : block * fs.superblock.block_size.toNat < 18446744073709551616
  · rw [in_u64_ok fits, res_bind_ok, res_bind_ok, altered.read_at clear]
  · rw [in_u64, if_neg fits, res_bind_error, res_bind_error]

/-- Neither the tree of an inode nor what it maps is touched. -/
structure Untouched (D : Nat → Prop) (fs : Filesystem) (inode : Inode) : Prop where
  nodes : ∀ block, NodeBelow fs inode.block.bytes block →
    Clear D (block * fs.superblock.block_size.toNat) fs.superblock.block_size.toNat
  blocks : ∀ ext, Below fs inode.block.bytes ext →
    Clear D (ext.physical_block.toNat * fs.superblock.block_size.toNat)
      (ext.len.toNat * fs.superblock.block_size.toNat)

/-- The block that an extent maps a logical block to is one of its own. -/
theorem clear_mapped {ext : Extent} {logical size : Nat} (covers : Covers ext logical)
    (clear : Clear D (ext.physical_block.toNat * size) (ext.len.toNat * size)) :
    Clear D ((ext.physical_block.toNat + (logical - ext.logical_block.toNat)) * size) size := by
  obtain ⟨low, high⟩ := covers
  have inside : (logical - ext.logical_block.toNat) * size + size ≤ ext.len.toNat * size := by
    rw [← Nat.succ_mul]
    exact Nat.mul_le_mul_right _ (by omega)
  intro i first last
  rw [Nat.add_mul] at first last
  exact clear i (by omega) (by omega)

/-- A block reads the same when neither the nodes nor the block itself are written. -/
theorem Altered.read_block_at (altered : Altered D fs fs') {logical : Nat}
    (nodes : ∀ block, NodeBelow fs inode.block.bytes block →
      Clear D (block * fs.superblock.block_size.toNat) fs.superblock.block_size.toNat)
    (clear : ∀ physical, Filesystem.resolve_logical_block fs inode logical = .ok (some physical) →
      Clear D (physical * fs.superblock.block_size.toNat) fs.superblock.block_size.toNat) :
    read_block fs' inode logical = read_block fs inode logical := by
  rw [Filesystem.read_block, Filesystem.read_block, altered.resolve_logical_block logical nodes]
  cases resolved : Filesystem.resolve_logical_block fs inode logical with
  | error fault => rfl
  | ok result =>
    cases result with
    | none =>
      simp only [res_bind_ok]
      rw [altered.block_size]
    | some physical =>
      simp only [res_bind_ok]
      rw [altered.block_at (clear physical resolved)]
theorem Altered.read_block (altered : Altered D fs fs') (untouched : Untouched D fs inode) (logical : Nat) :
    read_block fs' inode logical = read_block fs inode logical := by
  refine altered.read_block_at untouched.nodes fun physical resolved => ?_
  rw [Filesystem.resolve_logical_block] at resolved
  obtain ⟨_, _, resolved⟩ := res_bind_eq_ok.mp resolved
  obtain ⟨ext, below, covers, rfl⟩ := resolve_below resolved
  exact clear_mapped covers (untouched.blocks ext below)
theorem Altered.read_file (altered : Altered D fs fs') (untouched : Untouched D fs inode) :
    read_file fs' inode = read_file fs inode := by
  have same : Filesystem.read_block fs' inode = Filesystem.read_block fs inode := funext (altered.read_block untouched)
  rw [Filesystem.read_file, Filesystem.read_file, altered.block_size, same]
theorem Altered.read_dir (altered : Altered D fs fs') (untouched : Untouched D fs inode) :
    read_dir fs' inode = read_dir fs inode := by
  rw [Filesystem.read_dir, Filesystem.read_dir, altered.read_file untouched]
theorem Altered.first_block (altered : Altered D fs fs') (untouched : Untouched D fs inode) :
    first_block fs' inode = first_block fs inode := by
  rw [Filesystem.first_block, Filesystem.first_block, altered.resolve_logical_block 0 untouched.nodes]
  cases resolved : Filesystem.resolve_logical_block fs inode 0 with
  | error fault => rfl
  | ok result =>
    cases result with
    | none => rfl
    | some physical =>
      rw [Filesystem.resolve_logical_block] at resolved
      obtain ⟨_, _, resolved⟩ := res_bind_eq_ok.mp resolved
      obtain ⟨ext, below, covers, rfl⟩ := resolve_below resolved
      simp only [res_bind_ok, okOr_some]
      rw [altered.load_block (clear_mapped covers (untouched.blocks ext below))]
end

/-! ### Consistent images -/

/-- No byte has two uses, and what a directory names is in use. -/
structure ConsistentImage (fs : Filesystem) : Prop where
  separate : Separate fs
  root : Live fs ROOT_INODE
  named : ∀ {d : UInt32} {inode : Inode} {entries : List DirEntry} {entry : DirEntry}, Live fs d →
    read_inode fs d = .ok inode → Inode.is_directory inode = true → read_dir fs inode = .ok entries → entry ∈ entries →
    is_unused entry = false → Live fs entry.inode

section
variable {fs fs' : Filesystem} {n : UInt32} {inode : Inode} {uses : List Use}

theorem ConsistentImage.lookup (consistent : ConsistentImage fs) {d : UInt32} (live : Live fs d)
    (read : read_inode fs d = .ok inode) (directory : Inode.is_directory inode = true) {name : List UInt8}
    (found : lookup fs inode name = .ok n) : Live fs n := by
  rw [Filesystem.lookup] at found
  obtain ⟨entries, listed, found⟩ := res_bind_eq_ok.mp found
  cases first : entries.find? fun entry => !is_unused entry && entry.name == name with
  | none =>
    rw [first] at found
    cases found
  | some entry =>
    rw [first] at found
    cases found
    have matching := List.find?_some first
    simp only [Bool.and_eq_true, Bool.not_eq_true'] at matching
    exact consistent.named live read directory listed (List.mem_of_find?_eq_some first) matching.1

/-- What a path leads to is in use. -/
theorem ConsistentImage.open_from (consistent : ConsistentImage fs) {current : UInt32} (live : Live fs current)
    {components : List (List UInt8)} (opened : open_from fs current components = .ok n) : Live fs n := by
  induction components generalizing current with
  | nil =>
    cases opened
    exact live
  | cons component components ih =>
    rw [Filesystem.open_from] at opened
    split at opened
    · exact ih live opened
    · obtain ⟨parent, read, opened⟩ := res_bind_eq_ok.mp opened
      obtain ⟨_, directory, opened⟩ := res_bind_eq_ok.mp opened
      obtain ⟨child, found, opened⟩ := res_bind_eq_ok.mp opened
      exact ih (consistent.lookup live read (ensure_eq_ok.mp directory) found) opened
theorem ConsistentImage.open_path (consistent : ConsistentImage fs) {path : List UInt8}
    (opened : open_path fs path = .ok n) : Live fs n := consistent.open_from consistent.root opened

/-- An inode outside the range is refused in both states. -/
theorem Separate.read_inode (separate : Separate fs) (altered : Altered (Among fs uses) fs fs') (other : .slot n ∉ uses) :
    read_inode fs' n = read_inode fs n := by
  by_cases number : n ≠ 0 ∧ n ≤ fs.superblock.inodes_count
  · exact altered.read_inode fun offset found => separate.clear (.slot number found) other
  · obtain ⟨blocks, inodes, same⟩ := altered.superblock
    rw [Filesystem.read_inode, Filesystem.read_inode, same]
    dsimp only
    rw [ensure_not number, res_bind_error, res_bind_error]
theorem Separate.untouched (separate : Separate fs) (live : Live fs n) (read : Filesystem.read_inode fs n = .ok inode)
    (based : Inode.uses_extents inode = true) (nodes : .tree n ∉ uses) (blocks : .data n ∉ uses) :
    Untouched (Among fs uses) fs inode :=
  ⟨fun _ below => separate.clear (.tree live read based below) nodes,
    fun _ below => separate.clear (.data live read based below) blocks⟩
/-- A file reads the same when none of its places is written. -/
theorem Separate.read_file (separate : Separate fs) (altered : Altered (Among fs uses) fs fs') (live : Live fs n)
    (read : Filesystem.read_inode fs n = .ok inode) (nodes : .tree n ∉ uses) (blocks : .data n ∉ uses) :
    read_file fs' inode = read_file fs inode := by
  cases based : Inode.uses_extents inode with
  | true => exact altered.read_file (separate.untouched live read based nodes blocks)
  | false =>
    -- Without extents every block is refused before anything is read.
    have refused : ∀ fs logical, Filesystem.resolve_logical_block fs inode logical = .error (.err .NotExtentBased) := by
      intro fs logical
      rw [Filesystem.resolve_logical_block, based]
      rfl
    have same : Filesystem.read_block fs' inode = Filesystem.read_block fs inode := by
      funext logical
      rw [Filesystem.read_block, Filesystem.read_block, refused, refused]
      rfl
    rw [Filesystem.read_file, Filesystem.read_file, altered.block_size, same]

/-! ### What is written -/

/-- The place of the use does not depend on what inodes hold. -/
def Use.Fixed : Use → Prop
  | .tree _ | .data _ => False
  | _ => True

theorem Altered.occupies {D : Nat → Prop} (altered : Altered D fs fs') {use : Use} {start len : Nat} (fixed : use.Fixed)
    (occupies : Occupies fs' use start len) : Occupies fs use start len := by
  obtain ⟨blocks, inodes, same⟩ := altered.superblock
  have length := altered.gdt.length_eq
  have size := altered.block_size
  cases occupies with
  | superblock => exact .superblock
  | table =>
    have entry : entrySize fs' = entrySize fs := by
      rw [entrySize, entrySize, same]
      rfl
    have place : tableOffset fs'.superblock = tableOffset fs.superblock := by rw [tableOffset, tableOffset, same]
    rw [place, entry, ← length]
    exact .table
  | @blockBitmap group gd' found =>
    obtain ⟨gd, found', _, _, _, kept⟩ := altered.group_before found
    rw [size, show gd'.block_bitmap = gd.block_bitmap by rw [kept]]
    exact .blockBitmap found'
  | @inodeBitmap group gd' found =>
    obtain ⟨gd, found', _, _, _, kept⟩ := altered.group_before found
    rw [size, show gd'.inode_bitmap = gd.inode_bitmap by rw [kept]]
    exact .inodeBitmap found'
  | slot number found =>
    rw [same] at number ⊢
    rw [altered.inode_offset] at found
    exact .slot number found
  | tree => cases fixed
  | data => cases fixed
theorem Altered.among {D : Nat → Prop} (altered : Altered D fs fs') (fixed : ∀ use ∈ uses, use.Fixed) {i : Nat}
    (among : Among fs' uses i) : Among fs uses i := by
  obtain ⟨use, member, start, len, occupies, low, high⟩ := among
  exact ⟨use, member, start, len, altered.occupies (fixed use member) occupies, low, high⟩
theorem among_more {uses' : List Use} (more : ∀ use ∈ uses, use ∈ uses') {i : Nat} (among : Among fs uses i) :
    Among fs uses' i := by
  obtain ⟨use, member, place⟩ := among
  exact ⟨use, more use member, place⟩

theorem among_mem {use : Use} {start len i : Nat} (member : use ∈ uses) (occupies : Occupies fs use start len)
    (low : start ≤ i) (high : i < start + len) : Among fs uses i := ⟨use, member, start, len, occupies, low, high⟩

/-- The slot of an inode is written. -/
theorem write_inode_altered {offset : Nat} (slot : InSlot fs n offset) (inode : Inode) :
    Altered (Among fs [.slot n]) fs (withSlot fs offset inode) := by
  have size := Inode.size_record inode slot.sized
  refine altered_patch (by rw [size]; exact slot.inside) fun i low high => ?_
  rw [size] at high
  exact among_mem (List.mem_singleton.mpr rfl) (.slot slot.number slot.found) low high

theorem inside_of_read {image b : Bytes} {offset len : Nat} (read : read_at image offset len = .ok b) :
    0 < len → offset + len ≤ image.size := by
  rw [Filesystem.read_at] at read
  split at read
  · rename_i inside
    intro some
    omega
  · cases read

theorem Altered.inSlot {D : Nat → Prop} (altered : Altered D fs fs') {offset : Nat} (slot : InSlot fs n offset) :
    InSlot fs' n offset := by
  obtain ⟨blocks, inodes, same⟩ := altered.superblock
  have length := altered.gdt.length_eq
  refine ⟨?_, ?_, ?_, ?_, ?_, ?_⟩
  · rw [same]
    exact slot.number
  · rw [same]
    exact slot.counted
  · rw [same, ← length]
    exact slot.listed
  · rw [altered.inode_offset]
    exact slot.found
  · rw [altered.size, same]
    exact slot.inside
  · rw [same]
    exact slot.sized

/-- An inode that is written is read, unless its slot is written again. -/
theorem read_written {D : Nat → Prop} {offset : Nat} (slot : InSlot fs n offset) (inode : Inode)
    (altered : Altered D (withSlot fs offset inode) fs') (clear : Clear D offset fs.superblock.inode_size.toNat) :
    Filesystem.read_inode fs' n = .ok inode := by
  have slot' := (write_inode_altered slot inode).inSlot slot
  have same : Filesystem.read_inode fs' n = Filesystem.read_inode (withSlot fs offset inode) n := by
    refine altered.read_inode fun offset' found => ?_
    cases slot'.found.symm.trans found
    exact clear
  rw [same, read_inode_eq slot', slot_withSlot slot, Inode.inodeAt_record]

/-- The records can be written out in place. -/
structure Flushable (fs : Filesystem) : Prop where
  known : ∃ log, logBlockSizeOf fs.superblock.block_size = some log
  large : fs.gdt ≠ [] → 32 ≤ entrySize fs
  record : SUPERBLOCK_OFFSET + SUPERBLOCK_SIZE ≤ fs.reader.size
  table : fs.gdt ≠ [] → tableOffset fs.superblock + fs.gdt.length * entrySize fs ≤ fs.reader.size

theorem flushable_opened {image : Bytes} (opened : open_image image = .ok fs) : Flushable fs := by
  obtain ⟨decoded, -⟩ := opened_records opened
  obtain ⟨-, -, block_size, sized, same⟩ := superblock_decode_inv decoded
  have large := (loaded_opened opened).large
  have known : ∃ log, logBlockSizeOf fs.superblock.block_size = some log :=
    ⟨_, by rw [same]; exact Codecs.logBlockSizeOf_known sized⟩
  rw [open_image] at opened
  obtain ⟨sb_buf, read, opened⟩ := res_bind_eq_ok.mp opened
  obtain ⟨sb, -, opened⟩ := res_bind_eq_ok.mp opened
  obtain ⟨_, -, opened⟩ := res_bind_eq_ok.mp opened
  obtain ⟨_, -, opened⟩ := res_bind_eq_ok.mp opened
  obtain ⟨gdt_buf, read', opened⟩ := res_bind_eq_ok.mp opened
  obtain ⟨gdt, table, opened⟩ := res_bind_eq_ok.mp opened
  cases opened
  have inside := inside_of_read read
  have inside' := inside_of_read read'
  have length := length_collect table
  refine ⟨known, large, inside (by decide), fun some => ?_⟩
  have wide := large some
  have listed : 0 < gdt.length := List.length_pos_iff.mpr some
  have positive : 0 < gdt.length * entrySize ⟨image, sb, gdt⟩ := Nat.mul_pos listed (Nat.lt_of_lt_of_le (by decide) wide)
  rw [length] at positive ⊢
  exact inside' positive
theorem Flushable.altered {D : Nat → Prop} (flushable : Flushable fs) (altered : Altered D fs fs') : Flushable fs' := by
  obtain ⟨blocks, inodes, same⟩ := altered.superblock
  have length := altered.gdt.length_eq
  have entry : entrySize fs' = entrySize fs := by
    rw [entrySize, entrySize, same]
    rfl
  have table : tableOffset fs'.superblock = tableOffset fs.superblock := by
    rw [tableOffset, tableOffset, same]
  refine ⟨?_, fun some => ?_, ?_, ?_⟩
  · rw [altered.block_size]
    exact flushable.known
  · rw [entry]
    exact flushable.large (List.ne_nil_of_length_pos (by rw [length]; exact List.length_pos_iff.mpr some))
  · rw [altered.size]
    exact flushable.record
  · rw [table, entry, altered.size, ← length]
    exact fun some => flushable.table (List.ne_nil_of_length_pos (by rw [length]; exact List.length_pos_iff.mpr some))
/-- Writing the records out changes nothing but them. -/
theorem flush_altered (flushable : Flushable fs) : ∃ r, flush_metadata.run fs = .ok () { fs with reader := r } ∧
    Altered (Among fs [.superblock, .table]) fs { fs with reader := r } := by
  obtain ⟨log, known⟩ := flushable.known
  have record := flushable.record
  have enough : 1024 ≤ (zeros SUPERBLOCK_SIZE).size := Nat.le_refl _
  have size : (superblockImage fs.superblock log (zeros SUPERBLOCK_SIZE)).size = SUPERBLOCK_SIZE := by
    rw [size_superblockImage _ _ enough, size_zeros]
  let mid : Filesystem :=
    { fs with reader := fs.reader.patch SUPERBLOCK_OFFSET (superblockImage fs.superblock log (zeros SUPERBLOCK_SIZE)) }
  have first : Altered (Among fs [.superblock, .table]) fs mid := by
    refine altered_patch (by rw [size]; exact record) fun i low high => ?_
    rw [size] at high
    exact among_mem (List.mem_cons_self ..) .superblock low high
  obtain ⟨r, ran, kept, outside, -⟩ := @write_gdt_run mid (entrySize fs) rfl fs.gdt flushable.large
    (tableOffset fs.superblock) (zeros (entrySize fs)) rfl
  refine ⟨r, ?_, first.trans ⟨⟨_, _, rfl⟩, List.forall₂_same.mpr fun gd _ => sameGroup_refl gd, ?_, fun i out => ?_⟩⟩
  · simp only [flush_metadata, run_bind, run_reads, superblock_encode known enough, liftErr_ok, ofRes_ok,
      andThen_ok, write_at, run_change]
    exact ran
  · exact kept fun some => by rw [first.size]; exact flushable.table some
  · refine outside i ?_
    refine Decidable.byContradiction fun inside => out ?_
    exact among_mem (List.mem_cons_of_mem _ (List.mem_singleton.mpr rfl)) .table (by omega) (by omega)
end

end Justext4.Regions
