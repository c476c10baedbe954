import Justext4.Bitmap
import Justext4.Extent
import Justext4.GroupDescriptor
import Justext4.Inode
import Justext4.DirEntry

/-!
The open filesystem. It holds the image, the superblock and the descriptor
table; a read goes to the image every time, a write goes to the image at once,
and the two records in memory are written out by `flush_metadata`. The calls
that read are functions of the filesystem, the calls that write are programs
over it. A read past the end of the image is the only I/O error there is, and
an addition or a multiplication that overflows is a panic.
-/
namespace Justext4.Filesystem
open Justext4 Justext4.Fallible Bytes
open Justext4.Superblock (Superblock SuperblockDecodeError SuperblockEncodeError SUPERBLOCK_OFFSET SUPERBLOCK_SIZE)
open Justext4.GroupDescriptor (GroupDescriptor GroupDescriptorDecodeError GroupDescriptorEncodeError)
open Justext4.Inode (Inode InodeDecodeError InodeEncodeError I_BLOCK_LEN INODE_FLAG_EXTENTS)
open Justext4.Extent (Extent ExtentHeader ExtentIndex ExtentNode ExtentDecodeError ExtentEncodeError decode_extent_node)
open Justext4.DirEntry (DirEntry DirEntryDecodeError DirEntryEncodeError decode_dir_block walk encode_range is_unused pad4)

def ROOT_INODE : UInt32 := 2
def MAX_EXTENT_DEPTH : UInt16 := 5
def METADATA_CTIME : UInt32 := 0x65000002
/-- The bytes of `/`, `.` and `..`. -/
def SLASH : UInt8 := 47
def DOT : List UInt8 := [46]
def DOTDOT : List UInt8 := [46, 46]

inductive Ext4Error where
  | Io
  | Superblock (e : SuperblockDecodeError)
  | GroupDescriptor (e : GroupDescriptorDecodeError)
  | Inode (e : InodeDecodeError)
  | Extent (e : ExtentDecodeError)
  | DirEntry (e : DirEntryDecodeError)
  | NotFound (name : List UInt8)
  | NotADirectory (inode : UInt32)
  | IsADirectory (inode : UInt32)
  | NotARegularFile (inode : UInt32)
  | DirectoryNotEmpty (inode : UInt32)
  | AlreadyExists (name : List UInt8)
  | NoSpace (what : String)
  | UnsupportedV0 (detail : String)
  | SuperblockEncode (e : SuperblockEncodeError)
  | GroupDescriptorEncode (e : GroupDescriptorEncodeError)
  | InodeEncode (e : InodeEncodeError)
  | ExtentEncode (e : ExtentEncodeError)
  | DirEntryEncode (e : DirEntryEncodeError)
  | NotExtentBased
  | MaxExtentDepthExceeded (max : UInt16)
  | InodeOutOfRange (inode max : UInt32)
  | InvalidLayout (reason : String)
  | SymlinkTargetTooLong (len : Nat)
  deriving DecidableEq

structure Filesystem where
  reader : Bytes
  superblock : Superblock
  gdt : List GroupDescriptor
  deriving DecidableEq

/-- A number that has to fit in 64 bits. -/
def in_u64 (n : Nat) : Res Ext4Error Nat := if n < 18446744073709551616 then .ok n else .error .panic

/-- `seek` to an offset, then `read_exact` of `len` bytes. -/
def read_at (reader : Bytes) (offset len : Nat) : Res Ext4Error Bytes :=
  if len = 0 ∨ offset + len ≤ reader.size then .ok (reader.slice offset len) else .error (.err .Io)

def open_image (reader : Bytes) : Res Ext4Error Filesystem := do
  let sb_buf ← read_at reader SUPERBLOCK_OFFSET SUPERBLOCK_SIZE
  let superblock ← liftErr .Superblock (Superblock.decode sb_buf)
  ensure (superblock.blocks_per_group ≠ 0) (.InvalidLayout "blocks_per_group is 0")
  ensure (superblock.inodes_per_group ≠ 0) (.InvalidLayout "inodes_per_group is 0")
  let gdt_offset := (superblock.first_data_block.toNat + 1) * superblock.block_size.toNat
  let group_count := (Superblock.group_count superblock).toNat
  let entry_size := (Superblock.group_descriptor_size superblock).toNat
  let gdt_buf ← read_at reader gdt_offset (group_count * entry_size)
  let gdt ← collect (fun i => do
    let entry ← gdt_buf.range (i * entry_size) (i * entry_size + entry_size)
    liftErr .GroupDescriptor (GroupDescriptor.decode entry superblock)) 0 group_count
  .ok { reader, superblock, gdt }

/-! ### Reading -/

/-- The descriptor of a group, where indexing past the table panics. -/
def gdt_at (fs : Filesystem) (group : Nat) : Res Ext4Error GroupDescriptor :=
  match fs.gdt[group]? with
  | some gd => .ok gd
  | none => .error .panic

/-- The byte offset of an inode in the table of its group. -/
def inode_offset (fs : Filesystem) (inode_number : UInt32) : Res Ext4Error Nat := do
  let zero_based := inode_number.toNat - 1
  orPanic (fs.superblock.inodes_per_group ≠ 0)
  let gd ← gdt_at fs (zero_based / fs.superblock.inodes_per_group.toNat)
  let start ← in_u64 (gd.inode_table.toNat * fs.superblock.block_size.toNat)
  in_u64 (start + zero_based % fs.superblock.inodes_per_group.toNat * fs.superblock.inode_size.toNat)

def read_inode (fs : Filesystem) (inode_number : UInt32) : Res Ext4Error Inode := do
  ensure (inode_number ≠ 0 ∧ inode_number ≤ fs.superblock.inodes_count)
    (.InodeOutOfRange inode_number fs.superblock.inodes_count)
  orPanic (fs.superblock.inodes_per_group ≠ 0)
  ensure ((inode_number.toNat - 1) / fs.superblock.inodes_per_group.toNat < fs.gdt.length)
    (.InvalidLayout "inode references non-existent group")
  let offset ← inode_offset fs inode_number
  let buf ← read_at fs.reader offset fs.superblock.inode_size.toNat
  liftErr .Inode (Inode.decode buf fs.superblock)

/-- The extent that maps a logical block: the first whose range it lies in. -/
def find_extent (extents : List Extent) (logical : Nat) : Option Extent :=
  extents.find? fun ext => ext.logical_block.toNat ≤ logical ∧ logical < ext.logical_block.toNat + ext.len.toNat

/-- The last index before the first that starts past the logical block. -/
def choose_index (indices : List ExtentIndex) (logical : Nat) : Option ExtentIndex :=
  (indices.takeWhile fun idx => idx.logical_block.toNat ≤ logical).getLast?

/-- The loop of `resolve_logical_block` with `steps` nodes still allowed. -/
def resolve_steps (fs : Filesystem) (logical : Nat) : Nat → Bytes → Res Ext4Error (Option Nat)
  | 0, _ => .error (.err (.MaxExtentDepthExceeded MAX_EXTENT_DEPTH))
  | steps + 1, node_buf => do
    let node ← liftErr .Extent (decode_extent_node node_buf)
    match node with
    | .Leaf _ extents =>
      match find_extent extents logical with
      | some ext =>
        if ext.uninit then .ok none
        else do
          let physical ← in_u64 (ext.physical_block.toNat + (logical - ext.logical_block.toNat))
          .ok (some physical)
      | none => .ok none
    | .Internal _ indices =>
      match choose_index indices logical with
      | none => .ok none
      | some idx => do
        let leaf_offset ← in_u64 (idx.leaf_block.toNat * fs.superblock.block_size.toNat)
        let node_buf ← read_at fs.reader leaf_offset fs.superblock.block_size.toNat
        resolve_steps fs logical steps node_buf

def resolve_logical_block (fs : Filesystem) (inode : Inode) (logical : Nat) : Res Ext4Error (Option Nat) := do
  ensure (Inode.uses_extents inode) .NotExtentBased
  resolve_steps fs logical (MAX_EXTENT_DEPTH.toNat + 1) inode.block.bytes

/-- One block of a file, zeros where nothing is mapped. -/
def read_block (fs : Filesystem) (inode : Inode) (logical : Nat) : Res Ext4Error Bytes := do
  ensure (logical < 4294967296) (.InvalidLayout "file logical block index exceeds u32")
  let physical ← resolve_logical_block fs inode logical
  match physical with
  | some physical => do
    let offset ← in_u64 (physical * fs.superblock.block_size.toNat)
    read_at fs.reader offset fs.superblock.block_size.toNat
  | none => .ok (zeros fs.superblock.block_size.toNat)

def div_ceil (n d : Nat) : Nat := (n + d - 1) / d

/-- The blocks of a file one after another. -/
def joined : List Bytes → Bytes
  | [] => zeros 0
  | block :: blocks => block ++ joined blocks

/-- The capacity of a vector is at most `isize::MAX`. -/
def capacity_ok (n : Nat) : Bool := n < 9223372036854775808

def read_file (fs : Filesystem) (inode : Inode) : Res Ext4Error Bytes :=
  let size := inode.size.toNat
  if size = 0 then .ok (zeros 0)
  else if Inode.is_symlink inode ∧ size ≤ I_BLOCK_LEN then .ok (inode.block.bytes.slice 0 size)
  else do
    orPanic (capacity_ok (div_ceil size fs.superblock.block_size.toNat * fs.superblock.block_size.toNat))
    let blocks ← collect (read_block fs inode) 0 (div_ceil size fs.superblock.block_size.toNat)
    .ok ((joined blocks).truncate size)

def read_dir (fs : Filesystem) (inode : Inode) : Res Ext4Error (List DirEntry) := do
  let bytes ← read_file fs inode
  liftErr .DirEntry (decode_dir_block bytes)

def lookup (fs : Filesystem) (parent_inode : Inode) (name : List UInt8) : Res Ext4Error UInt32 := do
  let entries ← read_dir fs parent_inode
  match entries.find? fun entry => !is_unused entry && entry.name == name with
  | some entry => .ok entry.inode
  | none => .error (.err (.NotFound name))

/-! ### Paths -/

/-- `trim_end_matches('/')`. -/
def trim_end (path : List UInt8) : List UInt8 := (path.reverse.dropWhile (· == SLASH)).reverse

/-- The text before and after the last slash, as `rfind` splits it. -/
def split_last (path : List UInt8) : Option (List UInt8 × List UInt8) :=
  match path.reverse.dropWhile (· != SLASH) with
  | [] => none
  | _ :: before => some (before.reverse, (path.reverse.takeWhile (· != SLASH)).reverse)

def split_path (path : List UInt8) : Res Ext4Error (List UInt8 × List UInt8) := do
  ensure (path.head? == some SLASH) (.InvalidLayout "path must be absolute (start with '/')")
  let (parent, filename) ← okOr (split_last (trim_end path)) (.InvalidLayout "path has no final component")
  ensure (!filename.isEmpty) (.InvalidLayout "path has no final component")
  .ok (if parent.isEmpty then [SLASH] else parent, filename)

/-- `path.split('/')`. -/
def split : List UInt8 → List (List UInt8)
  | [] => [[]]
  | c :: path =>
    if c == SLASH then [] :: split path
    else
      match split path with
      | [] => [[c]]
      | word :: words => (c :: word) :: words

/-- The walk of `open_path` from an inode along the components of a path. -/
def open_from (fs : Filesystem) (current : UInt32) : List (List UInt8) → Res Ext4Error UInt32
  | [] => .ok current
  | component :: components =>
    if component.isEmpty then open_from fs current components
    else do
      let parent ← read_inode fs current
      ensure (Inode.is_directory parent) (.NotADirectory current)
      let child ← lookup fs parent component
      open_from fs child components

def open_path (fs : Filesystem) (path : List UInt8) : Res Ext4Error UInt32 := open_from fs ROOT_INODE (split path)

def join_path (parent_path name : List UInt8) : List UInt8 :=
  if parent_path = [SLASH] then SLASH :: name else parent_path ++ SLASH :: name

/-- The inode at a path and its number, which has to be a directory. -/
def open_directory (fs : Filesystem) (path : List UInt8) : Res Ext4Error (UInt32 × Inode) := do
  let inode_num ← open_path fs path
  let inode ← read_inode fs inode_num
  ensure (Inode.is_directory inode) (.NotADirectory inode_num)
  .ok (inode_num, inode)

/-- The check for a collision that every creation makes. -/
def ensure_absent (fs : Filesystem) (parent_inode : Inode) (name : List UInt8) : Res Ext4Error Unit := do
  let existing ← catchErr (lookup fs parent_inode name)
  match existing with
  | .ok _ => .error (.err (.AlreadyExists name))
  | .error (.NotFound _) => .ok ()
  | .error e => .error (.err e)

/-! ### Writing -/

abbrev Call (α : Type) := Prog Filesystem Ext4Error α

/-- `seek` to an offset, then `write_all`. -/
def write_at (offset : Nat) (src : Bytes) : Call Unit :=
  change fun fs => { fs with reader := fs.reader.patch offset src }

/-- The table with the descriptor of group 0 changed. -/
def on_group0 (f : GroupDescriptor → GroupDescriptor) : List GroupDescriptor → List GroupDescriptor
  | [] => []
  | gd :: rest => f gd :: rest

def change_gdt0 (f : GroupDescriptor → GroupDescriptor) : Call Unit :=
  change fun fs => { fs with gdt := on_group0 f fs.gdt }

/-- The counts of a group and of the superblock under a change of the number. -/
def on_free_inodes (f : Nat → Nat) (gd : GroupDescriptor) : GroupDescriptor :=
  { gd with free_inodes_count := .ofNat (f gd.free_inodes_count.toNat) }
def on_free_blocks (f : Nat → Nat) (gd : GroupDescriptor) : GroupDescriptor :=
  { gd with free_blocks_count := .ofNat (f gd.free_blocks_count.toNat) }
def on_used_dirs (f : Nat → Nat) (gd : GroupDescriptor) : GroupDescriptor :=
  { gd with used_dirs_count := .ofNat (f gd.used_dirs_count.toNat) }
def on_all_free_inodes (f : Nat → Nat) (sb : Superblock) : Superblock :=
  { sb with free_inodes_count := .ofNat (f sb.free_inodes_count.toNat) }
def on_all_free_blocks (f : Nat → Nat) (sb : Superblock) : Superblock :=
  { sb with free_blocks_count := .ofNat (f sb.free_blocks_count.toNat) }

def change_superblock (f : Superblock → Superblock) : Call Unit :=
  change fun fs => { fs with superblock := f fs.superblock }

def write_inode (inode_number : UInt32) (inode : Inode) : Call Unit := do
  reads fun fs => ensure (inode_number ≠ 0 ∧ inode_number ≤ fs.superblock.inodes_count)
    (.InodeOutOfRange inode_number fs.superblock.inodes_count)
  let offset ← reads fun fs => inode_offset fs inode_number
  let buf ← reads fun fs =>
    liftErr .InodeEncode (Inode.encode_into inode (zeros fs.superblock.inode_size.toNat) fs.superblock)
  write_at offset buf

/-- The entries of the descriptor table one after another from an offset. -/
def write_gdt (offset : Nat) (gd_buf : Bytes) : List GroupDescriptor → Call Unit
  | [] => pure ()
  | gd :: rest => do
    let gd_buf ← reads fun fs => liftErr .GroupDescriptorEncode (GroupDescriptor.encode_into gd gd_buf fs.superblock)
    write_at offset gd_buf
    write_gdt (offset + gd_buf.size) gd_buf rest

def flush_metadata : Call Unit := do
  let sb_buf ← reads fun fs => liftErr .SuperblockEncode (Superblock.encode_into fs.superblock (zeros SUPERBLOCK_SIZE))
  write_at SUPERBLOCK_OFFSET sb_buf
  let fs ← reads .ok
  let entry_size := (Superblock.group_descriptor_size fs.superblock).toNat
  let gdt_offset := (fs.superblock.first_data_block.toNat + 1) * fs.superblock.block_size.toNat
  write_gdt gdt_offset (zeros entry_size) fs.gdt

/-- The bytes of a block, and the offset they are at. -/
def load_block (fs : Filesystem) (block : Nat) : Res Ext4Error (Nat × Bytes) := do
  let offset ← in_u64 (block * fs.superblock.block_size.toNat)
  let buf ← read_at fs.reader offset fs.superblock.block_size.toNat
  .ok (offset, buf)

def allocate_inode : Call UInt32 := do
  let gd ← reads fun fs => gdt_at fs 0
  let (offset, buf) ← reads fun fs => load_block fs gd.inode_bitmap.toNat
  let bit ← reads fun fs =>
    okOr (Bitmap.find_first_zero buf fs.superblock.inodes_per_group.toNat) (.NoSpace "inodes")
  let buf ← lift (Bitmap.set_bit buf bit)
  write_at offset buf
  change_gdt0 (on_free_inodes (· - 1))
  change_superblock (on_all_free_inodes (· - 1))
  pure (.ofNat (bit + 1))

def allocate_blocks_contiguous (count : Nat) : Call Nat :=
  if count = 0 then pure 0
  else do
    let gd ← reads fun fs => gdt_at fs 0
    let (offset, buf) ← reads fun fs => load_block fs gd.block_bitmap.toNat
    let start ← reads fun fs =>
      okOr (Bitmap.find_first_zero_run buf count fs.superblock.blocks_count.toNat) (.NoSpace "blocks")
    let buf ← lift (Bitmap.set_run buf start count)
    write_at offset buf
    change_gdt0 (on_free_blocks (· - count))
    change_superblock (on_all_free_blocks (· - count))
    pure start

def free_blocks (start count : Nat) : Call Unit :=
  if count = 0 then pure ()
  else do
    let gd ← reads fun fs => gdt_at fs 0
    let (offset, buf) ← reads fun fs => load_block fs gd.block_bitmap.toNat
    let buf ← lift (Bitmap.clear_run buf start count)
    write_at offset buf
    reads fun fs => do
      let gd ← gdt_at fs 0
      orPanic (gd.free_blocks_count.toNat + count < 4294967296)
    change_gdt0 (on_free_blocks (· + count))
    reads fun fs => orPanic (fs.superblock.free_blocks_count.toNat + count < 18446744073709551616)
    change_superblock (on_all_free_blocks (· + count))

def free_inode (inode_number : UInt32) : Call Unit := do
  let gd ← reads fun fs => gdt_at fs 0
  let (offset, buf) ← reads fun fs => load_block fs gd.inode_bitmap.toNat
  lift (orPanic (inode_number ≠ 0))
  let buf ← lift (Bitmap.clear_bit buf (inode_number.toNat - 1))
  write_at offset buf
  reads fun fs => do
    let gd ← gdt_at fs 0
    orPanic (gd.free_inodes_count.toNat + 1 < 4294967296)
  change_gdt0 (on_free_inodes (· + 1))
  reads fun fs => orPanic (fs.superblock.free_inodes_count.toNat + 1 < 4294967296)
  change_superblock (on_all_free_inodes (· + 1))

/-! ### Directory blocks -/

/-- The block with a new entry in the slack of the last one. -/
def insert_entry (block_buf : Bytes) (name : List UInt8) (child_inode : UInt32) (file_type : UInt8) : Res Ext4Error Bytes := do
  let visited ← liftErr .DirEntry (walk block_buf (fun _ => false) 0)
  let (last_offset, last) ← okOr visited.passed.getLast? (.InvalidLayout "directory block has no entries")
  let last_actual := pad4 (8 + last.name.length) % 65536
  let new_actual := pad4 (8 + name.length) % 65536
  orPanic (last_actual ≤ last.rec_len.toNat)
  ensure (new_actual ≤ last.rec_len.toNat - last_actual)
    (.UnsupportedV0 "directory block full; v0 doesn't allocate a new dir block")
  let shrunk := { last with rec_len := .ofNat last_actual }
  let block_buf ← liftErr .DirEntryEncode (encode_range shrunk block_buf last_offset (last_offset + last_actual))
  let new_offset := last_offset + last_actual
  orPanic (new_offset ≤ block_buf.size)
  let new_entry : DirEntry :=
    { inode := child_inode, rec_len := .ofNat (block_buf.size - new_offset), file_type_raw := file_type, name }
  liftErr .DirEntryEncode (encode_range new_entry block_buf new_offset block_buf.size)

/-- The entry that a removal looks for. -/
def names_target (target_inode : UInt32) (name : List UInt8) (entry : DirEntry) : Bool :=
  !is_unused entry && entry.name == name && entry.inode == target_inode

/-- The block without an entry: its record goes to the one before it, and the
    first record of the block loses its inode number only. -/
def erase_entry (block_buf : Bytes) (target_inode : UInt32) (name : List UInt8) : Res Ext4Error Bytes := do
  let visited ← liftErr .DirEntry (walk block_buf (names_target target_inode name) 0)
  let (target_offset, found) ← okOr visited.found (.NotFound name)
  match visited.passed.getLast? with
  | some (prev_off, _) => do
    let prev_entry ← liftErr .DirEntry (DirEntry.decode (block_buf.rest prev_off))
    orPanic (prev_entry.rec_len.toNat + found.rec_len.toNat < 65536)
    let updated := { prev_entry with rec_len := prev_entry.rec_len + found.rec_len }
    liftErr .DirEntryEncode (encode_range updated block_buf prev_off (prev_off + updated.rec_len.toNat))
  | none => block_buf.copy target_offset (zeros 4)

def is_dotdot (entry : DirEntry) : Bool := !is_unused entry && entry.name == DOTDOT

/-- The block with another inode under the name `..`. -/
def redirect_dotdot (block_buf : Bytes) (new_parent_inode_num : UInt32) : Res Ext4Error Bytes := do
  let visited ← liftErr .DirEntry (walk block_buf is_dotdot 0)
  let (cursor, entry) ← okOr visited.found (.InvalidLayout "directory has no `..` entry")
  let updated := { entry with inode := new_parent_inode_num }
  liftErr .DirEntryEncode (encode_range updated block_buf cursor (cursor + entry.rec_len.toNat))

/-- The first block of a directory and its offset. -/
def first_block (fs : Filesystem) (inode : Inode) : Res Ext4Error (Nat × Bytes) := do
  let resolved ← resolve_logical_block fs inode 0
  let physical ← okOr resolved (.InvalidLayout "directory has no first data block")
  load_block fs physical

def add_dir_entry (parent_inode : Inode) (name : List UInt8) (child_inode : UInt32) (file_type : UInt8) : Call Unit := do
  let (offset, block_buf) ← reads fun fs => first_block fs parent_inode
  let block_buf ← lift (insert_entry block_buf name child_inode file_type)
  write_at offset block_buf

def remove_dir_entry (parent_inode : Inode) (target_inode : UInt32) (name : List UInt8) : Call Unit := do
  let (offset, block_buf) ← reads fun fs => first_block fs parent_inode
  let block_buf ← lift (erase_entry block_buf target_inode name)
  write_at offset block_buf

def update_dotdot (dir_inode : Inode) (new_parent_inode_num : UInt32) : Call Unit := do
  let (offset, block_buf) ← reads fun fs => first_block fs dir_inode
  let block_buf ← lift (redirect_dotdot block_buf new_parent_inode_num)
  write_at offset block_buf

/-! ### Removing -/

/-- Free the blocks of the runs that are initialised. -/
def free_runs : List Extent → Call Unit
  | [] => pure ()
  | ext :: extents => do
    if ext.uninit then pure () else free_blocks ext.physical_block.toNat ext.len.toNat
    free_runs extents

/-- Free the blocks of an inode whose extent tree is a single leaf. -/
def free_data (target_inode : Inode) : Call Unit :=
  if Inode.uses_extents target_inode ∧ 0 < target_inode.size.toNat then do
    let node ← lift (liftErr .Extent (decode_extent_node target_inode.block.bytes))
    match node with
    | .Leaf _ extents => free_runs extents
    | .Internal _ _ => pure ()
  else pure ()

/-- The record that a removed inode leaves in the table. -/
def deleted (target_inode : Inode) : Inode :=
  { target_inode with links_count := 0, dtime := 0x65000001, size := 0, flags := 0, block := .zeros 60 }

/-- Free an inode and its blocks, and take its entry out of the parent. -/
def destroy (parent_inode : Inode) (target_inode_num : UInt32) (target_inode : Inode) (name : List UInt8) :
    Call Unit := do
  free_data target_inode
  free_inode target_inode_num
  write_inode target_inode_num (deleted target_inode)
  remove_dir_entry parent_inode target_inode_num name

def rmdir (path : List UInt8) : Call Unit := do
  let (parent_path, dirname) ← lift (split_path path)
  let (parent_inode_num, parent_inode) ← reads fun fs => open_directory fs parent_path
  let target_inode_num ← reads fun fs => lookup fs parent_inode dirname
  lift (ensure (target_inode_num ≠ ROOT_INODE) (.DirectoryNotEmpty target_inode_num))
  let target_inode ← reads fun fs => read_inode fs target_inode_num
  lift (ensure (Inode.is_directory target_inode) (.NotADirectory target_inode_num))
  let entries ← reads fun fs => read_dir fs target_inode
  lift (ensure (entries.countP (fun e => !is_unused e && e.name != DOT && e.name != DOTDOT) = 0)
    (.DirectoryNotEmpty target_inode_num))
  destroy parent_inode target_inode_num target_inode dirname
  write_inode parent_inode_num { parent_inode with links_count := .ofNat (parent_inode.links_count.toNat - 1) }
  change_gdt0 (on_used_dirs (· - 1))
  flush_metadata

def unlink (path : List UInt8) : Call Unit := do
  let (parent_path, filename) ← lift (split_path path)
  let (_, parent_inode) ← reads fun fs => open_directory fs parent_path
  let target_inode_num ← reads fun fs => lookup fs parent_inode filename
  let target_inode ← reads fun fs => read_inode fs target_inode_num
  lift (ensure (!Inode.is_directory target_inode) (.IsADirectory target_inode_num))
  destroy parent_inode target_inode_num target_inode filename
  flush_metadata

/-! ### Creating -/

/-- The runs of an extent tree from entry `i` on. -/
def encode_extents (block_bytes : Bytes) (i : Nat) : List Extent → Res Ext4Error Bytes
  | [] => .ok block_bytes
  | ext :: extents => do
    let off := 12 + i * 12
    let part ← block_bytes.range off (off + 12)
    let part ← liftErr .ExtentEncode (Extent.Extent.encode_into ext part)
    let block_bytes ← block_bytes.copy off part
    encode_extents block_bytes (i + 1) extents

/-- The `i_block` of an inode: the header of a leaf and its runs. -/
def i_block (extents : List Extent) : Res Ext4Error (FixedBytes 60) := do
  let block_bytes := zeros I_BLOCK_LEN
  let header : ExtentHeader := { entries := .ofNat extents.length, max := 4, depth := 0, generation := 0 }
  let part ← block_bytes.range 0 12
  let part ← liftErr .ExtentEncode (Extent.ExtentHeader.encode_into header part)
  let block_bytes ← block_bytes.copy 0 part
  let block_bytes ← encode_extents block_bytes 0 extents
  .ok (.ofSlice block_bytes 0 60)

def mkdir (path : List UInt8) : Call UInt32 := do
  let (parent_path, dirname) ← lift (split_path path)
  let (parent_inode_num, parent_inode) ← reads fun fs => open_directory fs parent_path
  reads fun fs => ensure_absent fs parent_inode dirname
  let block_size ← reads fun fs => .ok fs.superblock.block_size.toNat
  let new_inode_num ← allocate_inode
  let dir_block ← allocate_blocks_contiguous 1
  let block ← lift (i_block [{ logical_block := 0, len := 1, physical_block := .ofNat dir_block, uninit := false }])
  let new_inode : Inode := {
    mode := 0o040755, uid := 0, gid := 0, size := .ofNat block_size, atime := 0, ctime := 0, mtime := 0, dtime := 0
    links_count := 2, blocks_lo := .ofNat (block_size / 512), blocks_hi := 0, flags := INODE_FLAG_EXTENTS, block
    generation := 0, file_acl_lo := 0, file_acl_hi := 0 }
  write_inode new_inode_num new_inode
  let dot : DirEntry := { inode := new_inode_num, rec_len := 12, file_type_raw := 2, name := DOT }
  lift (orPanic (12 ≤ block_size % 65536))
  let dotdot : DirEntry :=
    { inode := parent_inode_num, rec_len := .ofNat (block_size % 65536 - 12), file_type_raw := 2, name := DOTDOT }
  let data ← lift (liftErr .DirEntryEncode (encode_range dot (zeros block_size) 0 12))
  let data ← lift (liftErr .DirEntryEncode (encode_range dotdot data 12 block_size))
  let offset ← lift (in_u64 (dir_block * block_size))
  write_at offset data
  add_dir_entry parent_inode dirname new_inode_num 2
  lift (orPanic (parent_inode.links_count.toNat + 1 < 65536))
  write_inode parent_inode_num { parent_inode with links_count := .ofNat (parent_inode.links_count.toNat + 1) }
  reads fun fs => do
    let gd ← gdt_at fs 0
    orPanic (gd.used_dirs_count.toNat + 1 < 4294967296)
  change_gdt0 (on_used_dirs (· + 1))
  flush_metadata
  pure new_inode_num

/-- The casts of the number of blocks are to 32 bits for the allocation and to
    16 bits for the length of the extent. -/
def create_file (path : List UInt8) (data : Bytes) : Call UInt32 := do
  let (parent_path, filename) ← lift (split_path path)
  let (_, parent_inode) ← reads fun fs => open_directory fs parent_path
  reads fun fs => ensure_absent fs parent_inode filename
  let block_size ← reads fun fs => .ok fs.superblock.block_size.toNat
  let num_blocks := div_ceil data.size block_size
  let new_inode_num ← allocate_inode
  let physical_start ← allocate_blocks_contiguous (num_blocks % 4294967296)
  let block ← lift (i_block (if 0 < num_blocks then
    [{ logical_block := 0, len := .ofNat num_blocks, physical_block := .ofNat physical_start, uninit := false }] else []))
  let new_inode : Inode := {
    mode := 0o100644, uid := 0, gid := 0, size := .ofNat data.size, atime := 0, ctime := 0, mtime := 0, dtime := 0
    links_count := 1, blocks_lo := .ofNat (num_blocks * block_size / 512), blocks_hi := 0, flags := INODE_FLAG_EXTENTS
    block, generation := 0, file_acl_lo := 0, file_acl_hi := 0 }
  write_inode new_inode_num new_inode
  if 0 < num_blocks then do
    let buf ← lift ((zeros (num_blocks * block_size)).copy 0 data)
    let offset ← lift (in_u64 (physical_start * block_size))
    write_at offset buf
  else pure ()
  add_dir_entry parent_inode filename new_inode_num 1
  flush_metadata
  pure new_inode_num

def symlink (link_path : List UInt8) (target : Bytes) : Call UInt32 := do
  lift (ensure (target.size ≠ 0) (.InvalidLayout "symlink target must not be empty"))
  lift (ensure (target.size ≤ I_BLOCK_LEN) (.SymlinkTargetTooLong target.size))
  let (parent_path, linkname) ← lift (split_path link_path)
  let (_, parent_inode) ← reads fun fs => open_directory fs parent_path
  reads fun fs => ensure_absent fs parent_inode linkname
  let new_inode_num ← allocate_inode
  let block_bytes ← lift ((zeros I_BLOCK_LEN).copy 0 target)
  let new_inode : Inode := {
    mode := 0o120777, uid := 0, gid := 0, size := .ofNat target.size, atime := 0, ctime := 0, mtime := 0, dtime := 0
    links_count := 1, blocks_lo := 0, blocks_hi := 0, flags := 0, block := .ofSlice block_bytes 0 60
    generation := 0, file_acl_lo := 0, file_acl_hi := 0 }
  write_inode new_inode_num new_inode
  add_dir_entry parent_inode linkname new_inode_num 7
  flush_metadata
  pure new_inode_num

/-! ### Changing -/

/-- The sum of the lengths of a list of runs. -/
def total_len : List Extent → Nat
  | [] => 0
  | e :: rest => e.len.toNat + total_len rest

/-- The extents of a leaf, refused with the detail for a deeper tree. -/
def leaf_extents (inode : Inode) (detail : String) : Res Ext4Error (List Extent) := do
  let node ← liftErr .Extent (decode_extent_node inode.block.bytes)
  match node with
  | .Leaf _ extents => .ok extents
  | .Internal _ _ => .error (.err (.UnsupportedV0 detail))

/-- The loop of the shrink path: free every block past the cutoff and return
    the extents that survive. -/
def cut_extents (cutoff_blocks : Nat) : List Extent → Call (List Extent)
  | [] => pure []
  | ext :: extents => do
    let ext_start := ext.logical_block.toNat
    let ext_end := ext_start + ext.len.toNat
    if ext_end ≤ cutoff_blocks then do
      let surviving ← cut_extents cutoff_blocks extents
      pure (ext :: surviving)
    else if cutoff_blocks ≤ ext_start then do
      if ext.uninit then pure () else free_blocks ext.physical_block.toNat ext.len.toNat
      cut_extents cutoff_blocks extents
    else do
      let kept_len := (cutoff_blocks - ext_start) % 65536
      let freed_len := ext_end - cutoff_blocks
      let freed_start := ext.physical_block.toNat + kept_len
      if ext.uninit then pure () else free_blocks freed_start freed_len
      let surviving ← cut_extents cutoff_blocks extents
      pure ({ ext with len := .ofNat kept_len } :: surviving)

def truncate (path : List UInt8) (new_size : UInt64) : Call Unit := do
  let inode_num ← reads fun fs => open_path fs path
  let inode ← reads fun fs => read_inode fs inode_num
  lift (ensure (Inode.is_regular inode) (.NotARegularFile inode_num))
  if new_size = inode.size then pure ()
  else do
    let block_size ← reads fun fs => .ok fs.superblock.block_size.toNat
    if inode.size < new_size then do
      let allocated_blocks ← lift (
        if Inode.uses_extents inode ∧ 0 < inode.size.toNat then do
          let extents ← leaf_extents inode "truncate-grow on depth>0 extent tree not yet supported"
          .ok (total_len extents)
        else .ok 0)
      lift (ensure (new_size.toNat ≤ allocated_blocks * block_size)
        (.UnsupportedV0 "truncate-grow with new block allocation not yet supported"))
      write_inode inode_num { inode with size := new_size, mtime := 0x65000000, ctime := 0x65000000 }
      flush_metadata
    else do
      let cutoff_blocks := div_ceil new_size.toNat block_size
      lift (ensure (Inode.uses_extents inode) .NotExtentBased)
      let extents ← lift (leaf_extents inode "truncate-shrink on depth>0 extent tree not yet supported")
      let surviving ← cut_extents cutoff_blocks extents
      let block ← lift (i_block surviving)
      write_inode inode_num { inode with
        size := new_size, blocks_lo := .ofNat (total_len surviving * block_size / 512), block
        mtime := 0x65000000, ctime := 0x65000000 }
      flush_metadata

/-- The type byte of a directory entry for an inode. -/
def entry_file_type (inode : Inode) : Res Ext4Error UInt8 :=
  if Inode.is_directory inode then .ok 2
  else if Inode.is_symlink inode then .ok 7
  else if Inode.is_regular inode then .ok 1
  else .error (.err (.UnsupportedV0 "rename of non-regular, non-dir, non-symlink inode"))

/-- What is at the destination of a rename. -/
inductive Destination where
  | Free
  | Source
  | Replaced
  deriving DecidableEq

/-- The lookup of the destination and the checks on what is there. -/
def destination (fs : Filesystem) (new_parent_inode : Inode) (new_name : List UInt8) (src_inode_num : UInt32)
    (src_is_dir : Bool) : Res Ext4Error Destination := do
  let dst_lookup ← catchErr (lookup fs new_parent_inode new_name)
  match dst_lookup with
  | .ok dst_inode_num =>
    if dst_inode_num = src_inode_num then .ok .Source
    else do
      let dst_inode ← read_inode fs dst_inode_num
      ensure (!Inode.is_directory dst_inode) (.AlreadyExists new_name)
      ensure (!src_is_dir) (.AlreadyExists new_name)
      .ok .Replaced
  | .error (.NotFound _) => .ok .Free
  | .error e => .error (.err e)

/-- The part of a rename that changes the directories, the destination free. -/
def move_entry (old_parent_inode_num new_parent_inode_num : UInt32) (old_parent_inode new_parent_inode : Inode)
    (old_name new_name : List UInt8) (src_inode_num : UInt32) (src_inode : Inode) (new_file_type : UInt8) :
    Call Unit := do
  add_dir_entry new_parent_inode new_name src_inode_num new_file_type
  let same_parent := old_parent_inode_num = new_parent_inode_num
  remove_dir_entry (if same_parent then new_parent_inode else old_parent_inode) src_inode_num old_name
  if ¬ same_parent ∧ Inode.is_directory src_inode then do
    update_dotdot src_inode new_parent_inode_num
    lift (orPanic (new_parent_inode.links_count.toNat + 1 < 65536))
    write_inode old_parent_inode_num
      { old_parent_inode with links_count := .ofNat (old_parent_inode.links_count.toNat - 1) }
    write_inode new_parent_inode_num
      { new_parent_inode with links_count := .ofNat (new_parent_inode.links_count.toNat + 1) }
  else pure ()
  flush_metadata

def rename (old_path new_path : List UInt8) : Call Unit := do
  let (old_parent_path, old_name) ← lift (split_path old_path)
  let (new_parent_path, new_name) ← lift (split_path new_path)
  let (old_parent_inode_num, old_parent_inode) ← reads fun fs => open_directory fs old_parent_path
  let src_inode_num ← reads fun fs => lookup fs old_parent_inode old_name
  lift (ensure (src_inode_num ≠ ROOT_INODE) (.InvalidLayout "cannot rename the root inode"))
  let src_inode ← reads fun fs => read_inode fs src_inode_num
  let new_file_type ← lift (entry_file_type src_inode)
  let (new_parent_inode_num, new_parent_inode) ← reads fun fs => open_directory fs new_parent_path
  let dst ← reads fun fs =>
    destination fs new_parent_inode new_name src_inode_num (Inode.is_directory src_inode)
  match dst with
  | .Source => pure ()
  | .Free =>
    move_entry old_parent_inode_num new_parent_inode_num old_parent_inode new_parent_inode old_name new_name
      src_inode_num src_inode new_file_type
  | .Replaced => do
    unlink (join_path new_parent_path new_name)
    let new_parent_inode ← reads fun fs => read_inode fs new_parent_inode_num
    let old_parent_inode := if old_parent_inode_num = new_parent_inode_num then new_parent_inode else old_parent_inode
    move_entry old_parent_inode_num new_parent_inode_num old_parent_inode new_parent_inode old_name new_name
      src_inode_num src_inode new_file_type

def with_inode_mut (path : List UInt8) (mutate : Inode → Inode) : Call Unit := do
  let inode_num ← reads fun fs => open_path fs path
  let inode ← reads fun fs => read_inode fs inode_num
  write_inode inode_num { mutate inode with ctime := METADATA_CTIME }

def chmod (path : List UInt8) (mode : UInt16) : Call Unit :=
  with_inode_mut path fun inode => { inode with mode := (inode.mode &&& 0xF000) ||| (mode &&& 0o7777) }

def chown (path : List UInt8) (uid gid : UInt32) : Call Unit :=
  with_inode_mut path fun inode => { inode with uid, gid }

def utime (path : List UInt8) (atime mtime : UInt32) : Call Unit :=
  with_inode_mut path fun inode => { inode with atime, mtime }

end Justext4.Filesystem
