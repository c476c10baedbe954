import Justext4.HostTree
import Justext4.Numerals

/-!
The texts of the errors, as they are shown to a user. An error of a layer is
shown with the text of the error below it; what the operating system says of an
I/O error is given.
-/
namespace Justext4.Display
open Justext4 Justext4.Filesystem Justext4.Numerals
open Justext4.Superblock (SuperblockDecodeError SuperblockEncodeError)
open Justext4.GroupDescriptor (GroupDescriptorDecodeError GroupDescriptorEncodeError)
open Justext4.Inode (InodeDecodeError InodeEncodeError)
open Justext4.Extent (ExtentDecodeError ExtentEncodeError)
open Justext4.DirEntry (DirEntryDecodeError DirEntryEncodeError)
open Justext4.HostTree (CliError Warning)
open Justext4.Utf8

def text (s : String) : Text := s.toUTF8.data.toList
theorem to_str_text (s : String) : to_str (text s) = some (text s) :=
  if_pos (ByteArray.validateUTF8_eq_true_iff.mpr s.isValidUTF8)
def decimal (n : Nat) : Text := numeral 10 n
def octal (n : Nat) : Text := numeral 8 n
/-- A digit of a number in radix sixteen, and the four of a word. -/
def hex (d : Nat) : UInt8 := if d < 10 then digit d else .ofNat (87 + d)
def hex4 (n : UInt16) : Text :=
  [hex (n.toNat / 4096), hex (n.toNat / 256 % 16), hex (n.toNat / 16 % 16), hex (n.toNat % 16)]

/-- A list of bytes as its numbers. -/
def listed : List UInt8 → Text
  | [] => []
  | [b] => decimal b.toNat
  | b :: rest => decimal b.toNat ++ text ", " ++ listed rest
def bytes (name : List UInt8) : Text := text "[" ++ listed name ++ text "]"

/-! ### The layer of the records -/

def superblock_decode : SuperblockDecodeError → Text
  | .InputTooSmall actual => text "input too small to contain a superblock: have " ++ decimal actual ++ text " bytes, need 1024"
  | .BadMagic found => text "bad ext4 magic: found 0x" ++ hex4 found ++ text ", expected 0xef53"
  | .InvalidBlockSize log_block_size =>
    text "invalid s_log_block_size " ++ decimal log_block_size.toNat ++
      text ": only 0, 1, 2, 6 are valid (1 KiB / 2 KiB / 4 KiB / 64 KiB blocks)"
def superblock_encode : SuperblockEncodeError → Text
  | .OutputTooSmall actual => text "output buffer too small: have " ++ decimal actual ++ text " bytes, need 1024"
  | .InvalidBlockSize block_size =>
    text "invalid block_size " ++ decimal block_size.toNat ++ text ": must be 1024, 2048, 4096, or 65536"

/-- The text of an error that several layers have, about two sizes. -/
def have_expected (what : String) (actual expected : Nat) : Text :=
  text what ++ text ": have " ++ decimal actual ++ text " bytes, expected " ++ decimal expected

def group_descriptor_decode : GroupDescriptorDecodeError → Text
  | .EntrySizeTooSmall size =>
    text "group descriptor entry size " ++ decimal size.toNat ++ text " is below the kernel minimum of 32"
  | .InputTooSmall actual expected => have_expected "input too small to contain a group descriptor" actual expected
def group_descriptor_encode : GroupDescriptorEncodeError → Text
  | .EntrySizeTooSmall size =>
    text "group descriptor entry size " ++ decimal size.toNat ++ text " is below the kernel minimum of 32"
  | .OutputTooSmall actual expected => have_expected "output buffer too small" actual expected

def inode_decode : InodeDecodeError → Text
  | .SuperblockInodeSizeTooSmall size =>
    text "superblock reports inode_size " ++ decimal size.toNat ++ text ", below the kernel minimum of 128"
  | .InputTooSmall actual expected => have_expected "input too small to contain an inode" actual expected
def inode_encode : InodeEncodeError → Text
  | .SuperblockInodeSizeTooSmall size =>
    text "superblock reports inode_size " ++ decimal size.toNat ++ text ", below the kernel minimum of 128"
  | .OutputTooSmall actual expected => have_expected "output buffer too small" actual expected

def extent_decode : ExtentDecodeError → Text
  | .InputTooSmall actual expected => have_expected "input too small" actual expected
  | .BadMagic found => text "bad extent header magic: found 0x" ++ hex4 found ++ text ", expected 0xf30a"
def extent_encode : ExtentEncodeError → Text
  | .OutputTooSmall actual expected => have_expected "output buffer too small" actual expected
  | .LengthOutOfRange len =>
    text "extent length " ++ decimal len.toNat ++ text " exceeds 32768 — use the uninit flag, don't pre-shift the length"

def dir_entry_decode : DirEntryDecodeError → Text
  | .InputTooSmall actual expected => have_expected "input too small for a dir entry" actual expected
  | .RecLenBelowHeaderSize rec_len =>
    text "rec_len " ++ decimal rec_len.toNat ++ text " is below the 8-byte header — would loop forever or read past header"
  | .RecLenNotAligned rec_len =>
    text "rec_len " ++ decimal rec_len.toNat ++ text " is not aligned to 4 bytes — kernel rejects mismatched alignment"
  | .NameLenExceedsRecLen name_len rec_len =>
    text "name_len " ++ decimal name_len.toNat ++ text " would extend past rec_len " ++ decimal rec_len.toNat
  | .TrailingBytesBelowHeaderSize trailing =>
    text "trailing " ++ decimal trailing ++ text " bytes after last entry — block didn't end on a record boundary"
def dir_entry_encode : DirEntryEncodeError → Text
  | .OutputTooSmall actual expected => have_expected "output buffer too small" actual expected
  | .RecLenBelowHeaderSize rec_len => text "rec_len " ++ decimal rec_len.toNat ++ text " is below the 8-byte header"
  | .RecLenNotAligned rec_len => text "rec_len " ++ decimal rec_len.toNat ++ text " is not aligned to 4 bytes"
  | .NameTooLong name_len => text "name length " ++ decimal name_len ++ text " exceeds the 255-byte field maximum"
  | .NameLenExceedsRecLen name_len rec_len =>
    text "name_len " ++ decimal name_len.toNat ++ text " would extend past rec_len " ++ decimal rec_len.toNat

/-! ### The layer of the filesystem -/

/-- The text of an error, that of an I/O error given. -/
def ext4_error (io : Text) : Ext4Error → Text
  | .Io => text "I/O error: " ++ io
  | .Superblock e => text "superblock decode: " ++ superblock_decode e
  | .GroupDescriptor e => text "group descriptor decode: " ++ group_descriptor_decode e
  | .Inode e => text "inode decode: " ++ inode_decode e
  | .Extent e => text "extent decode: " ++ extent_decode e
  | .DirEntry e => text "directory entry decode: " ++ dir_entry_decode e
  | .NotFound name => text "not found: " ++ bytes name
  | .NotADirectory inode => text "not a directory: inode " ++ decimal inode.toNat
  | .IsADirectory inode => text "is a directory: inode " ++ decimal inode.toNat
  | .NotARegularFile inode => text "not a regular file: inode " ++ decimal inode.toNat
  | .DirectoryNotEmpty inode => text "directory not empty: inode " ++ decimal inode.toNat
  | .AlreadyExists name => text "already exists: " ++ bytes name
  | .NoSpace what => text "no space: " ++ text what
  | .UnsupportedV0 detail => text "unsupported in v0: " ++ text detail
  | .SuperblockEncode e => text "superblock encode: " ++ superblock_encode e
  | .GroupDescriptorEncode e => text "group descriptor encode: " ++ group_descriptor_encode e
  | .InodeEncode e => text "inode encode: " ++ inode_encode e
  | .ExtentEncode e => text "extent encode: " ++ extent_encode e
  | .DirEntryEncode e => text "directory entry encode: " ++ dir_entry_encode e
  | .NotExtentBased => text "inode does not use extents (legacy block-pointer layout not supported)"
  | .MaxExtentDepthExceeded max => text "extent tree depth exceeded the maximum of " ++ decimal max.toNat
  | .InodeOutOfRange inode max =>
    text "inode " ++ decimal inode.toNat ++ text " out of range [1, " ++ decimal max.toNat ++ text "]"
  | .InvalidLayout reason => text "superblock layout invalid: " ++ text reason
  | .SymlinkTargetTooLong len =>
    text "symlink target too long for v0 fast-symlink (got " ++ decimal len ++ text " bytes, limit is 60)"

def parse_int_error : ParseIntError → Text
  | .Empty => text "cannot parse integer from empty string"
  | .InvalidDigit => text "invalid digit found in string"
  | .PosOverflow => text "number too large to fit in target type"

/-- The text of an error of the copy, with that of an I/O error and the root of
    the tree of the host as it is shown. -/
def cli_error (io host_root : Text) : CliError → Text
  | .not_a_directory => host_root ++ text " is not a directory"
  | .mkdir vfs_child e => text "mkdir " ++ vfs_child ++ text ": " ++ ext4_error io e
  | .create_file vfs_child e => text "create_file " ++ vfs_child ++ text ": " ++ ext4_error io e
  | .symlink vfs_child e => text "symlink " ++ vfs_child ++ text ": " ++ ext4_error io e

/-- The path on the host of a directory of the copy. -/
def host_dir (host_root vfs_dir : Text) : Text :=
  if vfs_dir = [] then host_root else if host_root = [SLASH] then vfs_dir else host_root ++ vfs_dir
/-- A line that warns of what the copy leaves out. -/
def warning (debug : Text → Text) (host_root : Text) : Warning → Text
  | .non_utf8_name vfs_dir => text "warning: skipping non-UTF-8 name in " ++ debug (host_dir host_root vfs_dir) ++ text "\n"
  | .long_symlink vfs_child len =>
    text "warning: skipping symlink " ++ vfs_child ++ text ": target is " ++ decimal len ++
      text " bytes; v0 supports fast symlinks only (target <= 60 bytes)\n"
  | .unsupported vfs_child file_type =>
    text "warning: skipping " ++ vfs_child ++ text ": file type " ++ file_type ++ text " not supported in v0\n"

example : ext4_error [] (.NotFound [97, 98]) = text "not found: [97, 98]" := by decide

end Justext4.Display
