import Justext4.CommandRuns

/-!
What `inspect` prints. Of the superblock a session changes nothing but the free
counts, also through failed calls and when the image is opened again; so the
values of the configuration are printed as they were given, and the entries of
the root are those of the tree that is shown.
-/
namespace Justext4.Inspection
open Justext4 Justext4.Fallible Justext4.Filesystem Justext4.Volumes Justext4.Mkfs Justext4.Numerals Justext4.Display
open Justext4.Commands Justext4.CommandRuns Bytes
open Justext4.Superblock (Superblock)
open Justext4.DirEntry (DirEntry is_unused)
open Justext4.DirBlock (Kid kid)
open Justext4.Utf8
open Justext4.NamedTree
open Justext4.Nodes
open Justext4.Paths
open Justext4.Backing
open Justext4.Reading
open Justext4.View
open Justext4.Calls
open Justext4.Refinement
open Justext4.Recounting
open Justext4.FlushedRecords
open Justext4.Simulation
open Justext4.Sessions

/-! ### The superblock of a session -/

/-- The superblock is the one that `format` builds, but for the free counts. -/
def Headed (config : Config) (layout : Layout) (fs : Filesystem) : Prop :=
  ∃ blocks inodes, fs.superblock = { superblock config layout with free_blocks_count := blocks, free_inodes_count := inodes }

section
variable {config : Config} {layout : Layout} {g : Geometry} {fs fs' : Filesystem}

theorem headed_recounted (headed : Headed config layout fs) (recounted : Recounted fs fs') : Headed config layout fs' := by
  obtain ⟨_, _, same⟩ := headed
  obtain ⟨blocks, inodes, counted⟩ := recounted.superblock
  exact ⟨blocks, inodes, by rw [counted, same]⟩
/-- Opening again reads the superblock that is in memory, but for the free counts. -/
theorem headed_reopened (headed : Headed config layout fs) (loaded : Loaded fs) (opened : open_image fs.reader = .ok fs') :
    Headed config layout fs' := by
  obtain ⟨sb, blocks, inodes, decoded, counted⟩ := loaded.superblock
  obtain ⟨decoded', -⟩ := opened_records opened
  have reader : fs'.reader = fs.reader := (Decoders.opened_of opened).reader
  have same : superblockBytes fs' = superblockBytes fs := by rw [superblockBytes, superblockBytes, reader]
  rw [same] at decoded'
  cases decoded.symm.trans decoded'
  obtain ⟨blocks', inodes', same⟩ := headed
  rw [counted] at same
  refine ⟨fs'.superblock.free_blocks_count, fs'.superblock.free_inodes_count, ?_⟩
  have fields := congrArg (fun sb : Superblock =>
    { sb with free_blocks_count := fs'.superblock.free_blocks_count, free_inodes_count := fs'.superblock.free_inodes_count }) same
  exact fields

theorem session_headed {events : List Event} (small : Calls.Small config) (laid : Layout.from_config config = .ok layout)
    (session : Session config events fs) : Headed config layout fs := by
  obtain ⟨start, opened, run⟩ := session
  obtain ⟨g, whole, durable, -⟩ := opened_durable small opened
  have known := whole.known
  have first : Headed config layout start := by
    rw [opened.unique (fresh_opened small laid)]
    exact ⟨_, _, rfl⟩
  suffices both : Durable g fs ∧ Headed config layout fs from both.2
  refine @Run.keeps _ _ _ _ _ _ (fun fs => Durable g fs ∧ Headed config layout fs) ?_ run ⟨durable, first⟩
  rintro fs e fs' ⟨durable, headed⟩ occurs
  refine ⟨(occurs_shows (by omega) durable occurs).2, ?_⟩
  cases occurs with
  | returned lets ran => exact headed_recounted headed ((keeps_execute _).ends fs |>.ok ran)
  | failed lets ran => exact headed_recounted headed ((keeps_execute _).ends fs |>.err ran)
  | reopened opened =>
    obtain ⟨v, N, -, -, recorded⟩ := durable
    exact headed_reopened headed recorded.loaded opened

theorem padded_list {l : List UInt8} {n : Nat} (short : l.length ≤ n) :
    ((ofList l).slice 0 n).toList = l ++ List.replicate (n - l.length) 0 := by
  rw [← toList_ofList (l ++ _)]
  congr 1
  refine ext_inside (by simp [short]) fun i inside => ?_
  rw [size_slice] at inside
  rw [byte_slice_of_lt _ inside, Nat.zero_add, byte_ofList, byte_ofList,
    List.getD_eq_getElem?_getD, List.getD_eq_getElem?_getD]
  by_cases within : i < l.length
  · rw [List.getElem?_append_left within]
  · rw [List.getElem?_append_right (by omega), List.getElem?_eq_none (by omega), List.getElem?_replicate]
    split <;> rfl
/-- The label that was given, cut to 16 bytes. -/
theorem label_headed (headed : Headed config layout fs) :
    volume_label fs.superblock = (to_str ((config.volume_label.take 16).takeWhile (· != 0))).getD [] := by
  obtain ⟨blocks, inodes, same⟩ := headed
  have short : (config.volume_label.take 16).length ≤ 16 := by simp
  have zero : (List.replicate (16 - (config.volume_label.take 16).length) (0 : UInt8)).takeWhile (· != 0) = [] := by
    rw [List.takeWhile_eq_nil_iff]
    simp
  have cut : (volume_name config).bytes.toList.takeWhile (· != 0) = (config.volume_label.take 16).takeWhile (· != 0) := by
    rw [volume_name, FixedBytes.ofSlice, padded_list short, List.takeWhile_append]
    split
    · rename_i all
      rw [zero, List.append_nil, (List.takeWhile_prefix _).eq_of_length all]
    · rfl
  rw [volume_label, same, ← cut]
  rfl
end

/-! ### The entries of the root -/

def code_of : Content → UInt8
  | .dir => 2
  | .file _ => 1
  | .link _ => 7
/-- The entries are those of the root of a tree, under distinct names. -/
structure Lists (t : FileTree) (kids : List Kid) : Prop where
  names : (kids.map (·.name)).Nodup
  entries : ∀ k, k ∈ kids ↔ ∃ e, t [k.name] = some e ∧ e.inode = k.inode ∧ code_of e.content = k.code

section
variable {g : Geometry} {v : Volume} {N : NodeMap} {fs : Filesystem}

theorem root_lists (holds : Holds g v fs) (consistent : Consistent g v N) : ∃ block kids,
    N ROOT_INODE = some (.dir block ROOT_INODE kids) ∧ Lists (tree fs) kids := by
  obtain ⟨block, kids, root⟩ := consistent.root
  have nodup := consistent.linked.names root
  refine ⟨block, kids, root, nodup, fun k => ?_⟩
  have step : ∀ name, walk (child N) ROOT_INODE [name] = named kids name := fun name => by
    rw [walk, child_dir root]
    cases named kids name <;> rfl
  have codes : ∀ {n : UInt32} {x : Node}, code_of (shown v n x) = x.code := fun {n x} => by cases x <;> rfl
  rw [tree_eq holds consistent, picture, PathTree.view, step]
  constructor
  · intro member
    obtain ⟨x, here, code, -⟩ := consistent.linked.kids root k member
    refine ⟨⟨k.inode, shown v k.inode x⟩, ?_, rfl, codes.trans code.symm⟩
    rw [named_mem nodup member, Option.bind_some, entry_some here]
  · rintro ⟨e, found, inode, code⟩
    obtain ⟨n, hit, here⟩ := Option.bind_eq_some_iff.mp found
    obtain ⟨before, j, after, split, name, same, -⟩ := named_some hit
    have member : j ∈ kids := by simp [split]
    obtain ⟨x, there, code', -⟩ := consistent.linked.kids root j member
    rw [same] at there
    rw [entry_some there] at here
    cases here
    have all : j = k := by
      obtain ⟨name', inode', code''⟩ := j
      obtain ⟨name'', inode'', code'''⟩ := k
      cases name
      cases same.trans inode
      cases code'.trans (codes.symm.trans code)
      rfl
    exact all ▸ member
end

/-! ### What is printed -/

section
variable {κ : Type} {w : World κ}

def show_kid (w : World κ) (k : Kid) : Text :=
  text "  inode=" ++ padded 5 (decimal k.inode.toNat) ++ text " type=" ++ decimal k.code.toNat ++ text " " ++ w.debug (from_utf8_lossy k.name)
/-- The lines of the report on an image of a configuration. -/
def report (w : World κ) (host_path : Text) (config : Config) (free_blocks free_inodes : Nat) (kids : List Kid) : List Text :=
  [host_path ++ text ":",
   text "  block_size:       " ++ decimal config.block_size.toNat,
   text "  blocks_count:     " ++ decimal config.size_blocks.toNat,
   text "  free_blocks:      " ++ decimal free_blocks,
   text "  inodes_count:     " ++ decimal config.inodes_per_group.toNat,
   text "  free_inodes:      " ++ decimal free_inodes,
   text "  blocks_per_group: " ++ decimal (config.block_size.toNat * 8),
   text "  inodes_per_group: " ++ decimal config.inodes_per_group.toNat,
   text "  inode_size:       " ++ decimal 256,
   text "  rev_level:        " ++ decimal 1,
   text "  is_64bit:         " ++ text "false",
   text "  volume_label:     " ++ w.debug ((to_str ((config.volume_label.take 16).takeWhile (· != 0))).getD []),
   [],
   text "/ (" ++ decimal kids.length ++ text " entries):"] ++ kids.map (show_kid w)
def lines (ls : List Text) : Text := ls.flatMap (· ++ text "\n")

/-- The numbers of the superblock are those of the configuration. -/
theorem headed_numbers {layout : Layout} {fs : Filesystem} {config : Config} (small : Calls.Small config) (headed : Headed config layout fs) :
    fs.superblock.block_size = config.block_size ∧ fs.superblock.blocks_count.toNat = config.size_blocks.toNat ∧
      fs.superblock.inodes_count = config.inodes_per_group ∧
      fs.superblock.blocks_per_group.toNat = config.block_size.toNat * 8 ∧
      fs.superblock.inodes_per_group = config.inodes_per_group ∧ fs.superblock.inode_size.toNat = 256 ∧
      fs.superblock.rev_level.toNat = 1 ∧ Superblock.is_64bit fs.superblock = false := by
  obtain ⟨blocks, inodes, same⟩ := headed
  have size := small.size
  have count := config.size_blocks.toNat_lt
  rw [same]
  refine ⟨rfl, ?_, rfl, ?_, rfl, rfl, rfl, Formatted.narrow_superblock config layout⟩
  · show (UInt64.ofNat config.size_blocks.toNat).toNat = _
    rw [UInt64.toNat_ofNat']
    omega
  · show (UInt32.ofNat (config.block_size.toNat * 8)).toNat = _
    rw [UInt32.toNat_ofNat']
    omega
theorem show_entries (w : World κ) {es : List DirEntry} (used : ∀ e ∈ es, e.inode ≠ 0) :
    (es.filter fun e => !is_unused e) = es ∧ (es.countP fun e => !is_unused e) = es.length ∧
      (es.flatMap fun e => show_entry w e ++ text "\n") = lines ((es.map kid).map (show_kid w)) := by
  have live : ∀ e ∈ es, (!is_unused e) = true := fun e member => by simpa [is_unused] using used e member
  refine ⟨List.filter_eq_self.mpr live, List.countP_eq_length.mpr live, ?_⟩
  rw [lines, List.flatMap_map, List.flatMap_map]
  rfl

variable [DecidableEq κ] {m : Machine κ} {k : κ} {config : Config} {fs : Filesystem}

/-- After any session `inspect` prints the values that were given to `format`,
    the label up to its first zero among them, the counts of the image, and the
    dots and the entries of the root in the tree that is shown. -/
theorem inspect_reports {events : List Event} {program host_path : Text} {rest : List Text} (small : Calls.Small config)
    (session : Session config events fs) (located : w.locate host_path = .ok k) (there : m.files k = some fs.reader)
    (spelled : Spelled (program :: text "inspect" :: host_path :: rest)) :
    ∃ fs' kids, open_image fs.reader = .ok fs' ∧ Lists (tree fs) kids ∧
      (main w (program :: text "inspect" :: host_path :: rest)).run m = .ok .SUCCESS { m with
        out := m.out ++ lines (report w host_path config fs'.superblock.free_blocks_count.toNat
          fs'.superblock.free_inodes_count.toNat (listing ROOT_INODE ROOT_INODE kids)) } := by
  obtain ⟨g, whole, durable, -⟩ := session_durable small session
  have known := whole.known
  obtain ⟨layout, laid, -⟩ := whole.laid
  obtain ⟨fs', opened, durable', same⟩ := reopened_shows (by omega) durable
  have headed : Headed config layout fs' := by
    have again : Session config (events ++ [.reopened]) fs' := by
      obtain ⟨start, first, run⟩ := session
      exact ⟨start, first, run.append (.single (.reopened opened))⟩
    exact session_headed small laid again
  have label := label_headed headed
  obtain ⟨v, N, holds, consistent, -⟩ := durable'
  obtain ⟨block, kids, root, lists⟩ := root_lists holds consistent
  obtain ⟨es, read, -, listed⟩ := read_dir_ok holds (consistent.sound root)
  obtain ⟨filtered, counted, shown⟩ := show_entries w (entries_used consistent root listed)
  refine ⟨fs', kids, opened, same ▸ lists, ?_⟩
  have inspect : dispatch w (text "inspect") (host_path :: rest) = cmd_inspect w (host_path :: rest) := by
    rw [dispatch, if_neg (by decide), if_pos rfl]
  have inode : read_inode fs' ROOT_INODE = .ok (v.slot ROOT_INODE) := read_node holds consistent (live_of root)
  obtain ⟨block_size, blocks, inodes, block_group, inode_group, inode_size, revision, narrow⟩ := headed_numbers small headed
  have ran : (cmd_inspect w (host_path :: rest)).run m = .ok () { m with
      out := m.out ++ lines (report w host_path config fs'.superblock.free_blocks_count.toNat
        fs'.superblock.free_inodes_count.toNat (listing ROOT_INODE ROOT_INODE kids)) } := by
    simp only [cmd_inspect, open_fs, locate_file, read_image, writeln, print, located, there, opened, inode, read, filtered,
      counted, shown, listed, label, block_size, blocks, inodes, block_group, inode_group, inode_size, revision, narrow,
      okOr_some, liftErr_ok, run_bind, run_lift, run_reads, run_pure, run_change, ofRes_ok, andThen_ok]
    simp [lines, report, ← listed]
  simp only [main, args_spelled spelled, List.tail_cons, inspect, ran]
end

/-- The report on an image with one directory. -/
theorem inspect_directory : ∃ fs, ∃ m : Machine Unit, m.files () = some fs.reader ∧
    ∃ fs' kids, open_image fs.reader = .ok fs' ∧ Lists (tree fs) kids ∧
      (main lone [text "mkext4-rs", text "inspect", text "i"]).run m = .ok .SUCCESS { m with
        out := m.out ++ lines (report lone (text "i") Config.default fs'.superblock.free_blocks_count.toNat
          fs'.superblock.free_inodes_count.toNat (listing ROOT_INODE ROOT_INODE kids)) } := by
  obtain ⟨n, fs, session⟩ := mkdir_session
  exact ⟨fs, { idle with files := fun _ => some fs.reader }, rfl, inspect_reports default_small session rfl rfl
    (spelled_texts ["mkext4-rs", "inspect", "i"])⟩

end Justext4.Inspection
