import Justext4.Arguments

/-!
The commands. Every command opens the image of a file anew, makes one call on
it, or none, and reports on the standard output; what a call has written is in
the file whether it returns or fails. The host of a line gives the files that
paths name and the trees that are copied, and what it says when it refuses; it
may be another one for the next line.
-/
namespace Justext4.Commands
open Justext4 Justext4.Fallible Justext4.Filesystem Justext4.Mkfs Justext4.Numerals Justext4.Display Justext4.Arguments Bytes
open Justext4.Superblock (Superblock is_64bit)
open Justext4.DirEntry (DirEntry is_unused)
open Justext4.HostTree (Host Warning populate_from_host_tree)
open Justext4.Utf8

/-- The host while a line runs, as far as the commands ask it. -/
structure World (κ : Type) where
  /-- The file that a path names, or why the path cannot be opened. -/
  locate : Text → Except Text κ
  /-- Why a file that is not there cannot be opened. -/
  absent : Text
  /-- What is said of an I/O error. -/
  io : Text
  /-- A text as `{:?}` shows it. -/
  debug : Text → Text
  /-- What the copy finds at a path, with the path made absolute, or why it
      cannot be told. -/
  tree : Text → Except Text (Text × Host)

/-- The files of the host, and what has been printed. -/
structure Machine (κ : Type) where
  files : κ → Option Bytes
  out : Text
  err : Text

abbrev Command (κ : Type) := Prog (Machine κ) Text

section
variable {κ : Type} [DecidableEq κ] {α : Type}

def Machine.store (m : Machine κ) (k : κ) (image : Bytes) : Machine κ :=
  { m with files := fun j => if j = k then some image else m.files j }

@[simp] theorem store_out (m : Machine κ) (k : κ) (image : Bytes) : (m.store k image).out = m.out := rfl
@[simp] theorem store_err (m : Machine κ) (k : κ) (image : Bytes) : (m.store k image).err = m.err := rfl
@[simp] theorem store_same (m : Machine κ) (k : κ) (image : Bytes) : (m.store k image).files k = some image := if_pos rfl
theorem store_other (m : Machine κ) {j k : κ} (other : j ≠ k) (image : Bytes) : (m.store k image).files j = m.files j :=
  if_neg other
@[simp] theorem store_store (m : Machine κ) (k : κ) (first second : Bytes) :
    (m.store k first).store k second = m.store k second := by
  rw [Machine.store, Machine.store, Machine.store]
  congr 1
  funext j
  by_cases same : j = k
  · rw [if_pos same, if_pos same]
  · rw [if_neg same, if_neg same]
    exact if_neg same

def fails (message : Text) : Command κ α := lift (.error (.err message))
def print (s : Text) : Command κ Unit := change fun m => { m with out := m.out ++ s }
def writeln (s : Text) : Command κ Unit := print (s ++ text "\n")

/-- The message of a failed call. -/
def context (w : World κ) (what : String) (e : Ext4Error) : Text := text what ++ text ": " ++ ext4_error w.io e

/-- The file that a path names. -/
def locate_file (w : World κ) (host_path : Text) : Command κ κ :=
  lift (match w.locate host_path with
    | .ok k => .ok k
    | .error e => .error (.err (text "open " ++ host_path ++ text ": " ++ e)))
/-- A file that is opened, not to be made. -/
def read_image (w : World κ) (what : String) (host_path : Text) (k : κ) : Command κ Bytes :=
  reads fun m => okOr (m.files k) (text what ++ text " " ++ host_path ++ text ": " ++ w.absent)
/-- The filesystem of the image in a file. -/
def open_fs (w : World κ) (host_path : Text) : Command κ (κ × Filesystem) := do
  let k ← locate_file w host_path
  let image ← read_image w "open" host_path k
  let fs ← lift (liftErr (context w "open") (open_image image))
  pure (k, fs)

/-- A call on the filesystem of a file. -/
def on_image (k : κ) (fs : Filesystem) (complaint : Ext4Error → Text) (call : Call α) : Command κ α where
  run m :=
    match call.run fs with
    | .ok a fs' => .ok a (m.store k fs'.reader)
    | .err e fs' => .err (complaint e) (m.store k fs'.reader)
    | .panic => .panic

/-- A file that is made anew and formatted. A configuration that is refused
    leaves it empty. -/
def make_image (w : World κ) (host_path : Text) (config : Config) : Command κ κ := do
  let k ← locate_file w host_path
  change fun m => m.store k (zeros 0)
  let image ← lift (liftErr (context w "format") (format (zeros 0) config))
  change fun m => m.store k image
  pure k

/-! ### The commands -/

def cmd_format (w : World κ) : List Text → Command κ Unit
  | [] => fails (text "format requires a host path argument")
  | host_path :: flags => do
    let config ← lift (match parse_flags format_flags Config.default flags with
      | .ok config => .ok config
      | .error e => .error (.err e))
    let _ ← make_image w host_path config
    writeln (text "formatted " ++ host_path ++ text ": " ++ decimal config.size_blocks.toNat ++ text " blocks of " ++
      decimal config.block_size.toNat ++ text " bytes (" ++ decimal (config.size_blocks.toNat * config.block_size.toNat) ++
      text " bytes total)")

def cmd_touch (w : World κ) : List Text → Command κ Unit
  | host_path :: vfs_path :: content :: _ => do
    let (k, fs) ← open_fs w host_path
    let inode_num ← on_image k fs (context w "create_file") (create_file vfs_path (ofList content))
    writeln (text "created " ++ vfs_path ++ text " (inode " ++ decimal inode_num.toNat ++ text ", " ++
      decimal content.length ++ text " bytes)")
  | _ => fails (text "touch requires <image> <vfs-path> <content>")

def cmd_chmod (w : World κ) : List Text → Command κ Unit
  | host_path :: vfs_path :: arg :: _ => do
    let mode ← lift (match parse_mode arg with
      | .ok mode => .ok mode
      | .error e => .error (.err (text "chmod parse mode " ++ w.debug arg ++ text ": " ++ parse_int_error e)))
    let (k, fs) ← open_fs w host_path
    on_image k fs (context w "chmod") (chmod vfs_path mode)
    writeln (text "chmod " ++ vfs_path ++ text " -> " ++ octal mode.toNat)
  | _ => fails (text "chmod requires <image> <vfs-path> <octal-mode>")

/-- A number among the arguments. -/
def number (w : World κ) (what : String) (arg : Text) : Command κ UInt32 :=
  lift (match parse_u32 arg with
    | .ok n => .ok n
    | .error e => .error (.err (text what ++ text " " ++ w.debug arg ++ text ": " ++ parse_int_error e)))

def cmd_chown (w : World κ) : List Text → Command κ Unit
  | host_path :: vfs_path :: uid :: gid :: _ => do
    let uid ← number w "chown parse uid" uid
    let gid ← number w "chown parse gid" gid
    let (k, fs) ← open_fs w host_path
    on_image k fs (context w "chown") (chown vfs_path uid gid)
    writeln (text "chown " ++ vfs_path ++ text " -> uid=" ++ decimal uid.toNat ++ text " gid=" ++ decimal gid.toNat)
  | _ => fails (text "chown requires <image> <vfs-path> <uid> <gid>")

def cmd_utime (w : World κ) : List Text → Command κ Unit
  | host_path :: vfs_path :: atime :: mtime :: _ => do
    let atime ← number w "utime parse atime" atime
    let mtime ← number w "utime parse mtime" mtime
    let (k, fs) ← open_fs w host_path
    on_image k fs (context w "utime") (utime vfs_path atime mtime)
    writeln (text "utime " ++ vfs_path ++ text " -> atime=" ++ decimal atime.toNat ++ text " mtime=" ++ decimal mtime.toNat)
  | _ => fails (text "utime requires <image> <vfs-path> <atime-epoch> <mtime-epoch>")

def cmd_cat (w : World κ) : List Text → Command κ Unit
  | host_path :: vfs_path :: _ => do
    let (_, fs) ← open_fs w host_path
    let inode_num ← lift (liftErr (context w "open_path") (open_path fs vfs_path))
    let inode ← lift (liftErr (context w "read_inode") (read_inode fs inode_num))
    let bytes ← lift (liftErr (context w "read_file") (read_file fs inode))
    print bytes.toList
  | _ => fails (text "cat requires <image> <vfs-path>")

/-- The label up to the first zero, when it is UTF-8. -/
def volume_label (sb : Superblock) : Text := (to_str (sb.volume_name.bytes.toList.takeWhile (· != 0))).getD []

/-- A text with spaces behind it. -/
def padded (width : Nat) (s : Text) : Text := s ++ List.replicate (width - s.length) 32

def show_entry (w : World κ) (entry : DirEntry) : Text :=
  text "  inode=" ++ padded 5 (decimal entry.inode.toNat) ++ text " type=" ++ decimal entry.file_type_raw.toNat ++ text " " ++
    w.debug (from_utf8_lossy entry.name)

def cmd_inspect (w : World κ) : List Text → Command κ Unit
  | host_path :: _ => do
    let (_, fs) ← open_fs w host_path
    let sb := fs.superblock
    writeln (host_path ++ text ":")
    writeln (text "  block_size:       " ++ decimal sb.block_size.toNat)
    writeln (text "  blocks_count:     " ++ decimal sb.blocks_count.toNat)
    writeln (text "  free_blocks:      " ++ decimal sb.free_blocks_count.toNat)
    writeln (text "  inodes_count:     " ++ decimal sb.inodes_count.toNat)
    writeln (text "  free_inodes:      " ++ decimal sb.free_inodes_count.toNat)
    writeln (text "  blocks_per_group: " ++ decimal sb.blocks_per_group.toNat)
    writeln (text "  inodes_per_group: " ++ decimal sb.inodes_per_group.toNat)
    writeln (text "  inode_size:       " ++ decimal sb.inode_size.toNat)
    writeln (text "  rev_level:        " ++ decimal sb.rev_level.toNat)
    writeln (text "  is_64bit:         " ++ text (if is_64bit sb then "true" else "false"))
    writeln (text "  volume_label:     " ++ w.debug (volume_label sb))
    writeln []
    let root ← lift (liftErr (context w "read root") (read_inode fs ROOT_INODE))
    let entries ← lift (liftErr (context w "read_dir /") (read_dir fs root))
    writeln (text "/ (" ++ decimal (entries.countP fun e => !is_unused e) ++ text " entries):")
    print ((entries.filter fun e => !is_unused e).flatMap fun e => show_entry w e ++ text "\n")
  | [] => fails (text "inspect requires a host path argument")

def Machine.warned (m : Machine κ) (w : World κ) (host_root : Text) (warnings : List Warning) : Machine κ :=
  { m with err := m.err ++ warnings.flatMap (warning w.debug host_root) }
omit [DecidableEq κ] in
@[simp] theorem warned_files (m : Machine κ) (w : World κ) (host_root : Text) (warnings : List Warning) :
    (m.warned w host_root warnings).files = m.files := rfl

/-- The copy of a tree of the host to the filesystem of a file. -/
def populate (w : World κ) (k : κ) (fs : Filesystem) (host_dir : Text) : Command κ Unit where
  run m :=
    match w.tree host_dir with
    | .error e => .err e m
    | .ok (host_root, host) =>
      match (populate_from_host_tree host).run ⟨fs, []⟩ with
      | .ok () c => .ok () ((m.store k c.fs.reader).warned w host_root c.warnings)
      | .err e c => .err (cli_error w.io (w.debug host_root) e) ((m.store k c.fs.reader).warned w host_root c.warnings)
      | .panic => .panic

def cmd_build_from_tree (w : World κ) : List Text → Command κ Unit
  | host_dir :: image_path :: flags => do
    let config ← lift (match parse_flags build_flags Config.default flags with
      | .ok config => .ok config
      | .error e => .error (.err e))
    let k ← make_image w image_path config
    let image ← read_image w "re-open" image_path k
    let fs ← lift (liftErr (context w "open") (open_image image))
    populate w k fs host_dir
    writeln (text "built " ++ image_path ++ text " from " ++ w.debug host_dir ++ text ": " ++ decimal config.size_blocks.toNat ++
      text " blocks of " ++ decimal config.block_size.toNat ++ text " bytes, " ++ decimal config.inodes_per_group.toNat ++
      text " inode slots")
  | _ => fails
    (text "build-from-tree requires <host-dir> <image> [--size-blocks N] [--inodes N] [--label TEXT]")

/-! ### The program -/

inductive ExitCode where
  | SUCCESS
  | FAILURE
  deriving DecidableEq

def usage : Text :=
  text "mkext4-rs — pure-Rust ext4 image tool\n\nUsage:\n" ++
  text "  mkext4-rs format <path> [--size-blocks N] [--block-size N] [--label TEXT]\n" ++
  text "  mkext4-rs inspect <path>\n" ++
  text "  mkext4-rs touch <image> <vfs-path> <content>\n" ++
  text "  mkext4-rs cat <image> <vfs-path>\n" ++
  text "  mkext4-rs chmod <image> <vfs-path> <octal-mode>\n" ++
  text "  mkext4-rs chown <image> <vfs-path> <uid> <gid>\n" ++
  text "  mkext4-rs utime <image> <vfs-path> <atime-epoch> <mtime-epoch>\n" ++
  text "  mkext4-rs build-from-tree <host-dir> <image> [--size-blocks N] [--inodes N] [--label TEXT]\n"

/-- The command of a name. -/
def dispatch (w : World κ) (name : Text) (args : List Text) : Command κ Unit :=
  if name = text "format" then cmd_format w args
  else if name = text "inspect" then cmd_inspect w args
  else if name = text "touch" then cmd_touch w args
  else if name = text "cat" then cmd_cat w args
  else if name = text "chmod" then cmd_chmod w args
  else if name = text "chown" then cmd_chown w args
  else if name = text "utime" then cmd_utime w args
  else if name = text "build-from-tree" then cmd_build_from_tree w args
  else if name = text "--help" ∨ name = text "-h" ∨ name = text "help" then
    change fun m => { m with err := m.err ++ usage }
  else fails (text "unknown command: " ++ name ++ text " (try --help)")

/-- The arguments as texts. -/
def args (argv : List (List UInt8)) : Option (List Text) := argv.mapM to_str
/-- One run of the program. An argument that is not UTF-8 makes it panic before
    anything else; an error of a command is printed. -/
def main (w : World κ) (argv : List (List UInt8)) : Prog (Machine κ) Empty ExitCode where
  run m :=
    match args argv with
    | none => .panic
    | some argv =>
      match argv.tail with
      | [] => .ok .SUCCESS { m with err := m.err ++ usage }
      | name :: args =>
        match (dispatch w name args).run m with
        | .ok () m' => .ok .SUCCESS m'
        | .err e m' => .ok .FAILURE { m' with err := m'.err ++ (text "error: " ++ e ++ text "\n") }
        | .panic => .panic
end

/-- All the arguments are UTF-8. -/
def Spelled (argv : List (List UInt8)) : Prop := ∀ arg ∈ argv, to_str arg ≠ none
instance (argv : List (List UInt8)) : Decidable (Spelled argv) := inferInstanceAs (Decidable (∀ arg ∈ argv, _))

theorem spelled_texts (words : List String) : Spelled (words.map text) := by
  intro arg member
  obtain ⟨s, -, rfl⟩ := List.mem_map.mp member
  rw [to_str_text]
  exact Option.some_ne_none _
theorem args_spelled {argv : List (List UInt8)} (spelled : Spelled argv) : args argv = some argv := by
  induction argv with
  | nil => rfl
  | cons arg argv ih =>
    obtain ⟨text, found⟩ := Option.ne_none_iff_exists'.mp (spelled arg (List.mem_cons_self ..))
    cases to_str_some found
    have rest := ih fun a member => spelled a (List.mem_cons_of_mem _ member)
    rw [args] at rest
    rw [args, List.mapM_cons, found, rest]
    rfl
theorem args_some {argv : List (List UInt8)} {texts : List Text} (found : args argv = some texts) :
    texts = argv ∧ Spelled argv := by
  induction argv generalizing texts with
  | nil =>
    cases found
    exact ⟨rfl, List.forall_mem_nil _⟩
  | cons arg argv ih =>
    rw [args, List.mapM_cons] at found
    cases first : to_str arg with
    | none => rw [first] at found; cases found
    | some text =>
      rw [first] at found
      cases later : List.mapM to_str argv with
      | none => rw [later] at found; cases found
      | some rest =>
        rw [later] at found
        cases found
        obtain ⟨rfl, spelled⟩ := ih later
        cases to_str_some first
        exact ⟨rfl, List.forall_mem_cons.mpr ⟨by rw [first]; exact Option.some_ne_none _, spelled⟩⟩

end Justext4.Commands
