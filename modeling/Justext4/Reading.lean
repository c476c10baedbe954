import Justext4.Backing
import Justext4.Paths

/-!
What the calls read from a backed volume. The entries of a directory are its
listing, the contents of a file are its blocks cut to its size, and a walk
along a path goes from node to node, with `.` and `..` as two more names.
-/
namespace Justext4.Reading
open Justext4 Justext4.Fallible Justext4.Filesystem Justext4.Volumes Bytes
open Justext4.Inode (Inode S_IFMT S_IFDIR S_IFREG S_IFLNK INODE_FLAG_EXTENTS I_BLOCK_LEN)
open Justext4.DirEntry (DirEntry is_unused)
open Justext4.DirBlock
open Justext4.Nodes
open Justext4.NamedTree
open Justext4.Backing
open Justext4.Paths
open Justext4.Runs (runBlock)

/-- The inode that a directory has under a name, the dots included. -/
def step (N : NodeMap) (n : UInt32) (name : List UInt8) : Option UInt32 :=
  match N n with
  | some (.dir _ parent kids) => named (listing n parent kids) name
  | _ => none

/-- The contents of a file. -/
def fileBytes (v : Volume) (n : UInt32) (start count : Nat) : Bytes :=
  (joined ((List.range' 0 count).map fun i => v.block (start + i))).truncate (v.slot n).size.toNat
/-- The target of a symbolic link. -/
def linkBytes (v : Volume) (n : UInt32) : Bytes := (v.slot n).block.bytes.slice 0 (v.slot n).size.toNat

section
variable {g : Geometry} {v : Volume} {N : NodeMap} {fs : Filesystem} {n : UInt32}

/-! ### Inodes -/

theorem types_of_dir {inode : Inode} (mode : inode.mode &&& S_IFMT = S_IFDIR) :
    Inode.is_directory inode = true ∧ Inode.is_regular inode = false ∧ Inode.is_symlink inode = false := by
  simp only [Inode.is_directory, Inode.is_regular, Inode.is_symlink, Inode.file_type, mode]
  decide
theorem types_of_file {inode : Inode} (mode : inode.mode &&& S_IFMT = S_IFREG) :
    Inode.is_directory inode = false ∧ Inode.is_regular inode = true ∧ Inode.is_symlink inode = false := by
  simp only [Inode.is_directory, Inode.is_regular, Inode.is_symlink, Inode.file_type, mode]
  decide
theorem types_of_link {inode : Inode} (mode : inode.mode &&& S_IFMT = S_IFLNK) :
    Inode.is_directory inode = false ∧ Inode.is_regular inode = false ∧ Inode.is_symlink inode = true := by
  simp only [Inode.is_directory, Inode.is_regular, Inode.is_symlink, Inode.file_type, mode]
  decide
/-- The mode of an inode is that of its node. -/
theorem types_of_node {x : Node} (backed : Backed g v n x) :
    Inode.is_directory (v.slot n) = (x.code == 2) ∧ Inode.is_regular (v.slot n) = (x.code == 1) ∧
      Inode.is_symlink (v.slot n) = (x.code == 7) := by
  cases x with
  | dir => exact types_of_dir (DirBacked.mode backed)
  | file => exact types_of_file (FileBacked.mode backed)
  | link => exact types_of_link (LinkBacked.mode backed)

theorem read_node (holds : Holds g v fs) (consistent : Consistent g v N) (live : Live N n) :
    read_inode fs n = .ok (v.slot n) := by
  cases found : N n with
  | none => exact absurd found live
  | some x =>
    have sound := consistent.sound found
    exact read_inode_ok holds sound.low sound.listed

/-! ### Contents -/

theorem read_block_run (holds : Holds g v fs) {inode : Inode} {start count logical : Nat}
    (flags : inode.flags = INODE_FLAG_EXTENTS) (run : inode.block = runBlock start count) (short : count ≤ 32768)
    (low : g.root ≤ start) (high : start + count ≤ g.total) (inside : logical < count) :
    read_block fs inode logical = .ok (v.block (start + logical)) := by
  have total := g.total_high
  have fits := g.block_inside (p := start + logical) (by omega)
  have bounded := g.total_small
  have size := holds.size
  rw [read_block, ensure_of (by omega), res_bind_ok, Runs.resolve_runs flags run short (by omega), if_pos inside,
    res_bind_ok]
  dsimp only
  rw [holds.static'.block_size, in_u64_ok (by omega), res_bind_ok, read_at_ok (by omega)]
  exact congrArg Except.ok (holds.blocks _ (by omega) (by omega))

theorem collect_run (holds : Holds g v fs) {inode : Inode} {start : Nat} (count : Nat)
    (flags : inode.flags = INODE_FLAG_EXTENTS) (run : inode.block = runBlock start count) (short : count ≤ 32768)
    (low : 0 < count → g.root ≤ start) (high : 0 < count → start + count ≤ g.total) :
    collect (read_block fs inode) 0 count = .ok ((List.range' 0 count).map fun i => v.block (start + i)) :=
  collect_ok fun j _ lt => read_block_run holds flags run short (low (by omega)) (high (by omega)) (by omega)

theorem joined_one {b : Bytes} : (joined [b]).truncate b.size = b := by
  apply ext_inside (by simp [joined, Bytes.truncate])
  intro i inside
  have short : i < b.size := by simpa [joined, Bytes.truncate] using inside
  rw [Bytes.truncate, byte_slice_of_lt _ (by simp [joined]; omega), Nat.zero_add, joined, byte_append, if_pos short]
theorem div_ceil_self {d : Nat} (positive : 0 < d) : div_ceil d d = 1 := by
  have split : d + d - 1 = (d - 1) + 1 * d := by omega
  rw [div_ceil, split, Nat.add_mul_div_right _ _ positive, Nat.div_eq_of_lt (by omega)]
theorem div_ceil_zero (d : Nat) : div_ceil 0 d = 0 := by
  rw [div_ceil, Nat.zero_add]
  exact Nat.div_eq_zero_iff.mpr (by omega)

/-- A file of one whole block. -/
theorem read_file_one (holds : Holds g v fs) {inode : Inode} {block : Nat} (plain : Inode.is_symlink inode = false)
    (flags : inode.flags = INODE_FLAG_EXTENTS) (run : inode.block = runBlock block 1) (whole : inode.size.toNat = g.block_size)
    (low : g.root ≤ block) (high : block < g.total) : read_file fs inode = .ok (v.block block) := by
  have positive := g.positive
  have size := holds.static'.block_size
  have blocks := collect_run holds 1 flags run (by decide) (fun _ => low) (fun _ => by omega)
  have one : div_ceil inode.size.toNat fs.superblock.block_size.toNat = 1 := by
    rw [whole, size, div_ceil_self (by omega)]
  have bounded := g.bounded
  have capacity : capacity_ok (1 * fs.superblock.block_size.toNat) = true := by
    rw [capacity_ok, size]
    simp
    omega
  have bytes : (v.block block).size = g.block_size := by
    rw [← holds.blocks block low high]
    rfl
  rw [read_file, if_neg (by rw [whole]; omega), if_neg (by simp [plain]), one, capacity, orPanic_true, res_bind_ok,
    blocks, res_bind_ok, whole, ← bytes]
  exact congrArg Except.ok joined_one
theorem read_file_dir (holds : Holds g v fs) {block : Nat} {parent : UInt32} {kids : List Kid}
    (sound : Sound g v n (.dir block parent kids)) : read_file fs (v.slot n) = .ok (v.block block) := by
  have backed : DirBacked g v n block parent kids := sound.backed
  obtain ⟨low, high, -⟩ := sound.owned block rfl
  have total := g.limit_total
  exact read_file_one holds (types_of_dir backed.mode).2.2 backed.flags backed.run backed.size low (by omega)
theorem read_file_file (holds : Holds g v fs) {start count : Nat} (sound : Sound g v n (.file start count)) :
    read_file fs (v.slot n) = .ok (fileBytes v n start count) := by
  have backed : FileBacked g v n start count := sound.backed
  have total := g.limit_total
  have link : Inode.is_symlink (v.slot n) = false := (types_of_file backed.mode).2.2
  have blocks := collect_run holds count backed.flags backed.run backed.short
    (fun some => (sound.owned start ⟨Nat.le_refl _, by omega⟩).1)
    (fun some => by
      have last := (sound.owned (start + count - 1) ⟨by omega, by omega⟩).2.1
      omega)
  have size := holds.static'.block_size
  by_cases empty : (v.slot n).size.toNat = 0
  · rw [read_file, if_pos empty, fileBytes, empty]
    refine congrArg Except.ok (ext_inside (by simp [Bytes.truncate]) fun i inside => ?_)
    simp at inside
  · have bounded := Nat.mul_le_mul backed.short g.bounded
    have capacity : capacity_ok (count * g.block_size) = true := by
      rw [capacity_ok]
      simp
      omega
    rw [read_file, if_neg empty, if_neg (by simp [link]), size, backed.size, capacity, orPanic_true, res_bind_ok, blocks,
      res_bind_ok, fileBytes]
theorem read_file_link (sound : Sound g v n .link) : read_file fs (v.slot n) = .ok (linkBytes v n) := by
  have backed : LinkBacked v n := sound.backed
  obtain ⟨low, high⟩ := backed.size
  have link : Inode.is_symlink (v.slot n) = true := (types_of_link backed.mode).2.2
  rw [read_file, if_neg (by omega), if_pos ⟨link, by rw [I_BLOCK_LEN]; omega⟩, linkBytes]

theorem read_dir_ok (holds : Holds g v fs) {block : Nat} {parent : UInt32} {kids : List Kid}
    (sound : Sound g v n (.dir block parent kids)) :
    ∃ es, read_dir fs (v.slot n) = .ok es ∧ Tiles (v.block block) 0 es (v.block block).size ∧
      es.map kid = listing n parent kids := by
  obtain ⟨es, tiles, same⟩ := DirBacked.lists sound.backed
  exact ⟨es, by rw [read_dir, read_file_dir holds sound, res_bind_ok, decode_dir_block_tiles tiles, liftErr_ok],
    tiles, same⟩

/-! ### Names -/

theorem find_named {es : List DirEntry} (used : ∀ e ∈ es, e.inode ≠ 0) (name : List UInt8) :
    (es.find? fun e => !is_unused e && e.name == name).map (·.inode) = named (es.map kid) name := by
  induction es with
  | nil => rfl
  | cons e es ih =>
    have rest := ih fun x member => used x (List.mem_cons_of_mem _ member)
    have live : is_unused e = false := by simpa [is_unused] using used e (List.mem_cons_self ..)
    by_cases here : e.name = name
    · simp [named, kid, live, here]
    · simp only [named, List.map_cons] at rest ⊢
      rw [List.find?_cons_of_neg (by simp [here]), List.find?_cons_of_neg (by simp [kid, here])]
      exact rest

theorem listing_live (consistent : Consistent g v N) {block : Nat} {parent : UInt32} {kids : List Kid}
    (found : N n = some (.dir block parent kids)) : ∀ k ∈ listing n parent kids, Live N k.inode := by
  intro k member
  rcases List.mem_cons.mp member with first | later
  · exact first ▸ live_of found
  rcases List.mem_cons.mp later with second | later
  · exact second ▸ consistent.parent_live found
  · exact (consistent.linked.kids found k later).live
/-- Names can be looked up in every directory: no child has the name of a dot, and
    every record is in use. -/
structure Readable (N : NodeMap) : Prop where
  proper : ∀ {n block parent kids}, N n = some (.dir block parent kids) → ∀ k ∈ kids, Proper k.name
  used : ∀ {n block parent kids}, N n = some (.dir block parent kids) → ∀ k ∈ listing n parent kids, k.inode ≠ 0

theorem readable_of (consistent : Consistent g v N) : Readable N :=
  ⟨consistent.linked.proper, fun found k member => consistent.live_nonzero (listing_live consistent found k member)⟩
theorem entries_used (consistent : Consistent g v N) {block : Nat} {parent : UInt32} {kids : List Kid}
    (found : N n = some (.dir block parent kids)) {es : List DirEntry} (same : es.map kid = listing n parent kids) :
    ∀ e ∈ es, e.inode ≠ 0 := by
  intro e member
  have listed : kid e ∈ listing n parent kids := same ▸ List.mem_map_of_mem member
  exact consistent.live_nonzero (listing_live consistent found _ listed)

theorem step_dir {block : Nat} {parent : UInt32} {kids : List Kid} (found : N n = some (.dir block parent kids))
    (name : List UInt8) : step N n name = named (listing n parent kids) name := by rw [step, found]
theorem step_some {name : List UInt8} {m : UInt32} (edge : step N n name = some m) :
    ∃ block parent kids, N n = some (.dir block parent kids) ∧ named (listing n parent kids) name = some m := by
  simp only [step] at edge
  split at edge
  · rename_i block parent kids found
    exact ⟨block, parent, kids, found, edge⟩
  · cases edge
theorem step_live (consistent : Consistent g v N) {name : List UInt8} {m : UInt32} (edge : step N n name = some m) :
    Live N m := by
  obtain ⟨block, parent, kids, found, hit⟩ := step_some edge
  obtain ⟨before, k, after, split, -, inode, -⟩ := named_some hit
  exact inode ▸ listing_live consistent found k (by simp [split])
theorem named_listing (parent : UInt32) {kids : List Kid} {name : List UInt8} (first : name ≠ DOT)
    (second : name ≠ DOTDOT) : named (listing n parent kids) name = named kids name := by
  rw [listing, named, List.find?_cons_of_neg (by simpa using first.symm),
    List.find?_cons_of_neg (by simpa using second.symm), named]
theorem named_dot (parent : UInt32) (kids : List Kid) : named (listing n parent kids) DOT = some n := rfl
theorem named_dotdot (parent : UInt32) (kids : List Kid) : named (listing n parent kids) DOTDOT = some parent := rfl
/-- A proper name leads where the tree leads. -/
theorem step_proper {name : List UInt8} (proper : Proper name) : step N n name = child N n name := by
  obtain ⟨-, -, first, second⟩ := proper
  cases found : N n with
  | none => simp only [step, child, found]
  | some x =>
    cases x with
    | dir block parent kids =>
      simp only [step, child, found]
      exact named_listing _ first second
    | file => simp only [step, child, found]
    | link => simp only [step, child, found]
theorem walk_proper {path : List (List UInt8)} (proper : ∀ name ∈ path, Proper name) :
    walk (step N) n path = walk (child N) n path := by
  refine walk_congr fun before name after k split _ => step_proper (proper name ?_)
  rw [split]
  simp

/-- What a lookup finds, whether the nodes are a tree or not. -/
theorem lookup_laid (holds : Holds g v fs) (laid : Laid g v N) (readable : Readable N) {block : Nat} {parent : UInt32}
    {kids : List Kid} (found : N n = some (.dir block parent kids)) (name : List UInt8) :
    lookup fs (v.slot n) name = okOr (named (listing n parent kids) name) (.NotFound name) := by
  obtain ⟨es, read, -, same⟩ := read_dir_ok holds (laid.sound found)
  have used : ∀ e ∈ es, e.inode ≠ 0 := fun e member => readable.used found (kid e) (same ▸ List.mem_map_of_mem member)
  have search := find_named used name
  rw [same] at search
  rw [lookup, read, res_bind_ok, ← search]
  cases es.find? fun e => !is_unused e && e.name == name <;> rfl
theorem lookup_ok (holds : Holds g v fs) (consistent : Consistent g v N) {block : Nat} {parent : UInt32}
    {kids : List Kid} (found : N n = some (.dir block parent kids)) (name : List UInt8) :
    lookup fs (v.slot n) name = okOr (named (listing n parent kids) name) (.NotFound name) :=
  lookup_laid holds consistent.toLaid (readable_of consistent) found name

theorem ensure_absent_ok (holds : Holds g v fs) (consistent : Consistent g v N) {block : Nat} {parent : UInt32}
    {kids : List Kid} (found : N n = some (.dir block parent kids)) (name : List UInt8) :
    ensure_absent fs (v.slot n) name =
      if named (listing n parent kids) name = none then .ok () else .error (.err (.AlreadyExists name)) := by
  rw [ensure_absent, lookup_ok holds consistent found]
  cases named (listing n parent kids) name <;> rfl

/-! ### Paths -/

/-- A walk of the calls goes where the names lead, and ends with an error where
    they lead nowhere. -/
theorem open_from_walk (holds : Holds g v fs) (consistent : Consistent g v N) (live : Live N n)
    (names : List (List UInt8)) :
    (∃ m, walk (step N) n (names.filter (!·.isEmpty)) = some m ∧ open_from fs n names = .ok m) ∨
    (walk (step N) n (names.filter (!·.isEmpty)) = none ∧ ∃ e, open_from fs n names = .error (.err e)) := by
  induction names generalizing n with
  | nil => exact .inl ⟨n, rfl, rfl⟩
  | cons name names ih =>
    cases empty : name.isEmpty with
    | true =>
      rw [List.filter_cons_of_neg (by simp [empty]), open_from, empty, if_pos rfl]
      exact ih live
    | false =>
      rw [List.filter_cons_of_pos (by simp [empty]), open_from, empty, if_neg Bool.false_ne_true,
        read_node holds consistent live, res_bind_ok]
      cases found : N n with
      | none => exact absurd found live
      | some x =>
        have type := (types_of_node (consistent.sound found).backed).1
        have stuck : (x.code == 2) = false → step N n name = none := by
          intro other
          cases x with
          | dir => cases other
          | file => simp only [step, found]
          | link => simp only [step, found]
        cases dir : x.code == 2 with
        | false =>
          refine .inr ⟨?_, .NotADirectory n, ?_⟩
          · simp only [walk, stuck dir]
          · rw [type, dir, ensure_false, res_bind_error]
        | true =>
          cases x with
          | dir block parent kids =>
            rw [type, dir, ensure_true, res_bind_ok, lookup_ok holds consistent found]
            simp only [walk, step_dir found]
            cases edge : named (listing n parent kids) name with
            | none => exact .inr ⟨rfl, _, rfl⟩
            | some m => exact ih (step_live consistent (by rw [step_dir found, edge]))
          | file => cases dir
          | link => cases dir

theorem open_path_walk (holds : Holds g v fs) (consistent : Consistent g v N) (path : List UInt8) :
    (∃ m, walk (step N) ROOT_INODE (components path) = some m ∧ open_path fs path = .ok m) ∨
    (walk (step N) ROOT_INODE (components path) = none ∧ ∃ e, open_path fs path = .error (.err e)) :=
  open_from_walk holds consistent consistent.linked.tree.root_live (split path)

theorem walk_step_live (consistent : Consistent g v N) {m : UInt32} {path : List (List UInt8)} (live : Live N n)
    (walked : walk (step N) n path = some m) : Live N m := by
  induction path generalizing n with
  | nil => cases walked; exact live
  | cons name path ih =>
    obtain ⟨k, edge, later⟩ := walk_cons.mp walked
    exact ih (step_live consistent edge) later

/-- The path leads to a directory with these entries. -/
structure Directory (N : NodeMap) (path : List UInt8) (p : UInt32) (block : Nat) (parent : UInt32) (kids : List Kid) :
    Prop where
  walked : walk (step N) ROOT_INODE (components path) = some p
  found : N p = some (.dir block parent kids)

theorem open_directory_ok (holds : Holds g v fs) (consistent : Consistent g v N) {path : List UInt8} {p : UInt32}
    {block : Nat} {parent : UInt32} {kids : List Kid} (directory : Directory N path p block parent kids) :
    open_directory fs path = .ok (p, v.slot p) := by
  have type := (types_of_dir (DirBacked.mode (consistent.sound directory.found).backed)).1
  rcases open_path_walk holds consistent path with ⟨q, walked, opened⟩ | ⟨nowhere, -⟩
  · rw [directory.walked] at walked
    cases walked
    rw [open_directory, opened, res_bind_ok, read_node holds consistent (live_of directory.found), res_bind_ok, type]
    rfl
  · rw [directory.walked] at nowhere
    cases nowhere
theorem open_directory_ends (holds : Holds g v fs) (consistent : Consistent g v N) (path : List UInt8) :
    (∃ e, open_directory fs path = .error (.err e)) ∨
    ∃ p block parent kids, Directory N path p block parent kids ∧ open_directory fs path = .ok (p, v.slot p) := by
  rcases open_path_walk holds consistent path with ⟨p, walked, opened⟩ | ⟨-, e, refused⟩
  case inr => exact .inl ⟨e, by rw [open_directory, refused, res_bind_error]⟩
  have live := walk_step_live consistent consistent.linked.tree.root_live walked
  have stuck : Inode.is_directory (v.slot p) = false → ∃ e, open_directory fs path = .error (.err e) := by
    intro other
    refine ⟨.NotADirectory p, ?_⟩
    rw [open_directory, opened, res_bind_ok, read_node holds consistent live, res_bind_ok, other]
    rfl
  cases found : N p with
  | none => exact absurd found live
  | some x =>
    have type := (types_of_node (consistent.sound found).backed).1
    cases x with
    | dir block parent kids =>
      have directory : Directory N path p block parent kids := ⟨walked, found⟩
      exact .inr ⟨p, block, parent, kids, directory, open_directory_ok holds consistent directory⟩
    | file start count => exact .inl (stuck type)
    | link => exact .inl (stuck type)
end

end Justext4.Reading
