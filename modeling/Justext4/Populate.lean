import Justext4.HostTree
import Justext4.Complaints
import Justext4.View
import Justext4.Progress

/-!
A copy is a run of creations. It returns exactly when the creations of its
worklist do, one after another, and each of them adds one name and one node to
what the image shows.
-/
namespace Justext4.Populate
open Justext4 Justext4.Fallible Justext4.Filesystem Justext4.Volumes Justext4.Mkfs Bytes
open Justext4.Inode (I_BLOCK_LEN)
open Justext4.DirEntry (DirEntry)
open Justext4.NamedTree
open Justext4.PathTree
open Justext4.DirBlock
open Justext4.Nodes
open Justext4.Paths
open Justext4.Backing
open Justext4.Reading
open Justext4.Leaves
open Justext4.Create
open Justext4.Start
open Justext4.View
open Justext4.Calls
open Justext4.Complaints
open Justext4.Progress
open Justext4.HostTree Justext4.Utf8

/-! ### A copy is a run of creations -/

section
variable {c c' : Copy} {fs fs' : Filesystem} {α : Type} {entries : Entries} {place : List (List UInt8)}

theorem map_err_ok {f : Ext4Error → CliError} {call : Call α} {a : α} (ran : (map_err f call).run c = .ok a c') :
    call.run c.fs = .ok a c'.fs ∧ c'.warnings = c.warnings := by
  simp only [map_err] at ran
  cases ended : call.run c.fs with
  | ok b fs =>
    rw [ended] at ran
    cases ran
    exact ⟨rfl, rfl⟩
  | err e fs => rw [ended] at ran; cases ran
  | panic => rw [ended] at ran; cases ran
theorem map_err_runs {f : Ext4Error → CliError} {call : Call α} {a : α} (ran : call.run c.fs = .ok a fs') :
    (map_err f call).run c = .ok a { c with fs := fs' } := by
  simp only [map_err, ran]
theorem numbered_ok {call : Call UInt32} {n : UInt32} (ran : call.run fs = .ok n fs') :
    (numbered call).run fs = .ok (some n) fs' := by
  rw [numbered, run_bind, ran]
  rfl
/-- A link that is too long is warned of, any other one is created. -/
theorem copy_symlink_long {vfs_child : List UInt8} {target : Bytes} (long : ¬ (target_bytes target).size ≤ I_BLOCK_LEN) :
    (copy_symlink vfs_child target).run c =
      .ok () { c with warnings := c.warnings ++ [.long_symlink vfs_child (target_bytes target).size] } := by
  have some : (target_bytes target).size ≠ 0 := by omega
  simp only [copy_symlink, symlink_eq, run_bind, run_lift, ensure_of some, ofRes_ok, andThen_ok, ensure_not long, ofRes_err,
    andThen_err, warn, run_change]
theorem copy_symlink_ok {vfs_child : List UInt8} {target : Bytes} (ran : (copy_symlink vfs_child target).run c = .ok () c') :
    (I_BLOCK_LEN < (target_bytes target).size ∧
      c' = { c with warnings := c.warnings ++ [.long_symlink vfs_child (target_bytes target).size] }) ∨
    ((target_bytes target).size ≤ I_BLOCK_LEN ∧ (∃ n, (symlink vfs_child (target_bytes target)).run c.fs = .ok n c'.fs) ∧
      c'.warnings = c.warnings) := by
  by_cases short : (target_bytes target).size ≤ I_BLOCK_LEN
  · have sober := (sober_symlink vfs_child short).ends c.fs
    simp only [copy_symlink] at ran
    cases ended : (symlink vfs_child (target_bytes target)).run c.fs with
    | ok n fs₁ =>
      rw [ended] at ran
      cases ran
      exact .inr ⟨short, ⟨n, rfl⟩, rfl⟩
    | err e fs₁ =>
      rw [ended] at ran sober
      cases e with
      | SymlinkTargetTooLong len => exact absurd rfl (sober len)
      | _ => cases ran
    | panic =>
      rw [ended] at ran
      cases ran
  · rw [copy_symlink_long short] at ran
    cases ran
    exact .inl ⟨Nat.lt_of_not_le short, rfl⟩

theorem after_append (first second : List Request) (fs : Filesystem) :
    after (first ++ second) fs = (after first fs).bind (after second) := by
  induction first generalizing fs with
  | nil => rfl
  | cons request first ih =>
    rw [List.cons_append, after, after]
    cases (execute request).run fs with
    | ok answer fs₁ => exact ih fs₁
    | err e fs₁ => rfl
    | panic => rfl
theorem path_of_snoc (place : List (List UInt8)) (name : List UInt8) : path_of (place ++ [name]) = path_of place ++ SLASH :: name := by
  simp [path_of]

/-- The stack of the copy for a stack of places. -/
def spelled (stack : List (Entries × List (List UInt8))) : Stack := stack.map fun top => (top.1, path_of top.2)

/-- What is left out is warned of, and what is copied is not. -/
theorem warning_unnamed {name : List UInt8} (host : Host) (unnamed : to_str name = none) (vfs_dir : List UInt8) :
    warning vfs_dir (name, host) = some (.non_utf8_name vfs_dir) := by
  simp only [warning, unnamed]
theorem warning_kept {name text : List UInt8} {host : Host} (named : to_str name = some text) (copied : host.copied = true)
    (vfs_dir : List UInt8) : warning vfs_dir (name, host) = none := by
  cases host with
  | dir => simp only [warning, named]
  | file => simp only [warning, named]
  | symlink target => simp only [warning, named, copied, ↓reduceIte]
  | special => cases copied

/-- A listing that returns has made its creations, and has warned of what it has
    left out. -/
theorem copy_entries_calls {stack stack' : Stack} (ran : (copy_entries (path_of place) entries stack).run c = .ok stack' c') :
    after (((kept entries).map (item place)).map request) c.fs = some c'.fs ∧
      stack' = spelled (pushed place entries) ++ stack ∧
      c'.warnings = c.warnings ++ entries.filterMap (warning (path_of place)) := by
  induction entries generalizing c stack with
  | nil =>
    cases ran
    exact ⟨rfl, rfl, (List.append_nil _).symm⟩
  | cons e rest ih =>
    obtain ⟨name, host⟩ := e
    -- What is left out leaves the filesystem and the stack to the rest of the listing.
    have skip : ((to_str name).isSome && host.copied) = false → ∀ {left}, warning (path_of place) (name, host) = some left →
        (copy_entries (path_of place) rest stack).run { c with warnings := c.warnings ++ [left] } = .ok stack' c' →
        after (((kept ((name, host) :: rest)).map (item place)).map request) c.fs = some c'.fs ∧
          stack' = spelled (pushed place ((name, host) :: rest)) ++ stack ∧
          c'.warnings = c.warnings ++ ((name, host) :: rest).filterMap (warning (path_of place)) := by
      intro out left warned ran
      have same : kept ((name, host) :: rest) = kept rest := by rw [kept_cons, out, if_neg Bool.false_ne_true]
      obtain ⟨made, stacked, warnings⟩ := ih ran
      rw [same, pushed_skip place same, List.filterMap_cons, warned]
      exact ⟨made, stacked, by rw [warnings, List.append_assoc, List.singleton_append]⟩
    rw [copy_entries] at ran
    cases text : to_str name with
    | none =>
      rw [text] at ran skip
      exact skip rfl (warning_unnamed host text _) ran
    | some name_str =>
      rw [text] at ran skip
      have same := to_str_some text
      subst same
      -- What is copied is one creation before those of the rest.
      have keep : host.copied = true → ∀ {answer c₁ stack₁},
          (execute (request (item place (name_str, host)))).run c.fs = .ok answer c₁.fs → c₁.warnings = c.warnings →
          (copy_entries (path_of place) rest stack₁).run c₁ = .ok stack' c' →
          stack₁ = (host.inner.map fun inner => (inner, path_of (place ++ [name_str]))).toList ++ stack →
          after (((kept ((name_str, host) :: rest)).map (item place)).map request) c.fs = some c'.fs ∧
            stack' = spelled (pushed place ((name_str, host) :: rest)) ++ stack ∧
            c'.warnings = c.warnings ++ ((name_str, host) :: rest).filterMap (warning (path_of place)) := by
        rintro copied answer c₁ stack₁ first quiet later rfl
        have same : kept ((name_str, host) :: rest) = (name_str, host) :: kept rest := by
          rw [kept_cons, text, copied]
          rfl
        obtain ⟨made, stacked, warnings⟩ := ih later
        rw [same, List.map_cons, List.map_cons, after_cons _ first, made, stacked, pushed_snoc place same,
          List.filterMap_cons, warning_kept text copied, warnings, quiet]
        refine ⟨rfl, ?_, rfl⟩
        rw [spelled, spelled, List.map_append, List.append_assoc]
        cases host <;> rfl
      dsimp only at ran
      rw [← path_of_snoc] at ran
      cases host with
      | dir inner =>
        obtain ⟨n, c₁, first, ran⟩ := run_bind_eq_ok.mp ran
        obtain ⟨made, quiet⟩ := map_err_ok first
        exact keep rfl (numbered_ok made) quiet ran rfl
      | file bytes =>
        obtain ⟨n, c₁, first, ran⟩ := run_bind_eq_ok.mp ran
        obtain ⟨made, quiet⟩ := map_err_ok first
        exact keep rfl (numbered_ok made) quiet ran rfl
      | symlink target =>
        obtain ⟨u, c₁, first, ran⟩ := run_bind_eq_ok.mp ran
        rcases copy_symlink_ok first with ⟨long, rfl⟩ | ⟨short, ⟨n, made⟩, quiet⟩
        · have out : Host.copied (.symlink target) = false := decide_eq_false (Nat.not_le_of_lt long)
          refine skip (by rw [out, Bool.and_false]) ?_ ran
          simp only [warning, text, out, Bool.false_eq_true, ↓reduceIte, path_of_snoc]
        · exact keep (decide_eq_true short) (numbered_ok made) quiet ran rfl
      | special file_type =>
        refine skip rfl ?_ ran
        simp only [warning, text, path_of_snoc]

theorem copy_stack_calls {fuel : Nat} (stack : List (Entries × List (List UInt8)))
    (ran : (copy_stack fuel (spelled stack)).run c = .ok () c') :
    after ((items fuel stack).map request) c.fs = some c'.fs ∧ c'.warnings = c.warnings ++ warnings_of fuel stack := by
  induction fuel generalizing c stack with
  | zero =>
    cases stack with
    | nil =>
      cases ran
      exact ⟨rfl, (List.append_nil _).symm⟩
    | cons top stack => cases ran
  | succ fuel ih =>
    cases stack with
    | nil =>
      cases ran
      exact ⟨rfl, (List.append_nil _).symm⟩
    | cons top stack =>
      obtain ⟨entries, place⟩ := top
      obtain ⟨stack₁, c₁, first, later⟩ := run_bind_eq_ok.mp ran
      obtain ⟨made, rfl, warned⟩ := copy_entries_calls first
      obtain ⟨made', warned'⟩ := ih (pushed place entries ++ stack) (by rw [spelled, List.map_append]; exact later)
      rw [items, List.map_append, after_append, made, warnings_of, warned', warned, List.append_assoc]
      exact ⟨made', rfl⟩

/-- A copy that returns has made its creations in a row, and has warned of what it
    has left out. -/
theorem populate_calls {host : Host} (ran : (populate_from_host_tree host).run c = .ok () c') :
    ∃ entries, host = .dir entries ∧
      after ((items (Host.dirs (.dir entries)) [(entries, [])]).map request) c.fs = some c'.fs ∧
      c'.warnings = c.warnings ++ warnings_of (Host.dirs (.dir entries)) [(entries, [])] := by
  cases host with
  | dir entries => exact ⟨entries, rfl, copy_stack_calls [(entries, [])] ran⟩
  | file bytes => cases ran
  | symlink target => cases ran
  | special => cases ran

/-! ### A run of creations is a copy -/

theorem numbered_eq_ok {call : Call UInt32} {answer : Option UInt32} (ran : (numbered call).run fs = .ok answer fs') :
    ∃ n, call.run fs = .ok n fs' := by
  rw [numbered, run_bind] at ran
  cases ended : call.run fs with
  | ok n fs₁ =>
    rw [ended] at ran
    cases ran
    exact ⟨n, rfl⟩
  | err e fs₁ => rw [ended] at ran; cases ran
  | panic => rw [ended] at ran; cases ran
theorem after_cons_some {request : Request} {requests : List Request} (ran : after (request :: requests) fs = some fs') :
    ∃ answer fs₁, (execute request).run fs = .ok answer fs₁ ∧ after requests fs₁ = some fs' := by
  rw [after] at ran
  cases first : (execute request).run fs with
  | ok answer fs₁ =>
    rw [first] at ran
    exact ⟨answer, fs₁, rfl, ran⟩
  | err e fs₁ => rw [first] at ran; cases ran
  | panic => rw [first] at ran; cases ran

theorem copy_entries_runs {stack : Stack} (made : after (((kept entries).map (item place)).map request) c.fs = some fs') :
    ∃ warnings, (copy_entries (path_of place) entries stack).run c = .ok (spelled (pushed place entries) ++ stack) ⟨fs', warnings⟩ := by
  induction entries generalizing c stack with
  | nil =>
    cases made
    exact ⟨c.warnings, rfl⟩
  | cons e rest ih =>
    obtain ⟨name, host⟩ := e
    rw [copy_entries]
    by_cases keep : ((to_str name).isSome && host.copied) = true
    · have same : kept ((name, host) :: rest) = (name, host) :: kept rest := by rw [kept_cons, keep, if_pos rfl]
      rw [same, List.map_cons, List.map_cons] at made
      obtain ⟨answer, fs₁, first, later⟩ := after_cons_some made
      obtain ⟨text, copied⟩ := Bool.and_eq_true_iff.mp keep
      obtain ⟨name_str, found⟩ := Option.isSome_iff_exists.mp text
      have spelling := to_str_some found
      subst spelling
      rw [found, pushed_snoc place same]
      dsimp only
      rw [← path_of_snoc, spelled, List.map_append, List.append_assoc]
      have later' : after (((kept rest).map (item place)).map request) ({ c with fs := fs₁ } : Copy).fs = some fs' := later
      cases host with
      | dir inner =>
        obtain ⟨n, ran⟩ : ∃ n, (mkdir (path_of (place ++ [name_str]))).run c.fs = .ok n fs₁ := numbered_eq_ok first
        rw [run_bind, map_err_runs ran]
        exact ih later'
      | file bytes =>
        obtain ⟨n, ran⟩ : ∃ n, (create_file (path_of (place ++ [name_str])) bytes).run c.fs = .ok n fs₁ := numbered_eq_ok first
        rw [run_bind, map_err_runs ran]
        exact ih later'
      | symlink target =>
        obtain ⟨n, ran⟩ : ∃ n, (symlink (path_of (place ++ [name_str])) (target_bytes target)).run c.fs = .ok n fs₁ :=
          numbered_eq_ok first
        have linked : (copy_symlink (path_of (place ++ [name_str])) target).run c = .ok () { c with fs := fs₁ } := by
          simp only [copy_symlink, ran]
        rw [run_bind, linked]
        exact ih later'
      | special => cases copied
    · have same : kept ((name, host) :: rest) = kept rest := by rw [kept_cons, if_neg keep]
      rw [same] at made
      rw [pushed_skip place same]
      have left : ∀ warning, ∃ warnings, (copy_entries (path_of place) rest stack).run
          { c with warnings := c.warnings ++ [warning] } = .ok (spelled (pushed place rest) ++ stack) ⟨fs', warnings⟩ :=
        fun warning => ih (show after _ ({ c with warnings := c.warnings ++ [warning] } : Copy).fs = some fs' from made)
      cases text : to_str name with
      | none => exact left _
      | some name_str =>
        rw [text] at keep
        cases host with
        | dir inner => exact absurd rfl keep
        | file bytes => exact absurd rfl keep
        | symlink target =>
          have long : ¬ (target_bytes target).size ≤ I_BLOCK_LEN := fun short => keep (decide_eq_true short)
          dsimp only
          rw [run_bind, copy_symlink_long long]
          exact left _
        | special => exact left _
theorem copy_stack_runs {fuel : Nat} (stack : List (Entries × List (List UInt8))) (enough : dirs_of stack ≤ fuel)
    (made : after ((items fuel stack).map request) c.fs = some fs') :
    ∃ warnings, (copy_stack fuel (spelled stack)).run c = .ok () ⟨fs', warnings⟩ := by
  induction fuel generalizing c stack with
  | zero =>
    cases stack with
    | nil =>
      cases made
      exact ⟨c.warnings, rfl⟩
    | cons top stack =>
      have positive := dirs_pos top.1
      rw [dirs_of] at enough
      omega
  | succ fuel ih =>
    cases stack with
    | nil =>
      cases made
      exact ⟨c.warnings, rfl⟩
    | cons top stack =>
      obtain ⟨entries, place⟩ := top
      have fewer := dirs_pushed entries place stack
      rw [items, List.map_append, after_append, Option.bind_eq_some_iff] at made
      obtain ⟨fs₁, first, later⟩ := made
      obtain ⟨warned, listed⟩ := @copy_entries_runs _ _ entries place (spelled stack) first
      obtain ⟨warnings, rest⟩ := ih (c := ⟨fs₁, warned⟩) _ (by omega) later
      rw [spelled, List.map_append] at rest
      simp only [spelled] at listed
      refine ⟨warnings, ?_⟩
      simp only [spelled, List.map_cons, copy_stack, run_bind, listed]
      exact rest
/-- A copy returns when its creations do. -/
theorem populate_runs (made : after ((items (Host.dirs (.dir entries)) [(entries, [])]).map request) c.fs = some fs') :
    ∃ warnings, (populate_from_host_tree (.dir entries)).run c = .ok () ⟨fs', warnings⟩ :=
  copy_stack_runs [(entries, [])] (by simp [dirs_of]) made
end

/-! ### What the image shows -/

/-- The names in a directory in their order, the dots left out, or what a file
    or a link holds, read through a path. -/
def read_back (fs : Filesystem) (path : List UInt8) : Option Shape := do
  let n ← (open_path fs path).toOption
  let inode ← (read_inode fs n).toOption
  if Inode.is_directory inode then do
    let entries ← (read_dir fs inode).toOption
    some (.dir ((entries.map (·.name)).filter fun name => name != DOT && name != DOTDOT))
  else do
    let bytes ← (read_file fs inode).toOption
    some (if Inode.is_symlink inode then .link bytes else .file bytes)

/-- The same of a node. -/
def outline (v : Volume) (n : UInt32) : Node → Shape
  | .dir _ _ kids => .dir (kids.map (·.name))
  | .file start count => .file (fileBytes v n start count)
  | .link => .link (linkBytes v n)
def outlines (v : Volume) (N : NodeMap) : Tree (List UInt8) Shape :=
  view (child N) ROOT_INODE fun n => (N n).map (outline v n)

def Shape.add (name : List UInt8) : Shape → Shape
  | .dir names => .dir (names ++ [name])
  | shape => shape

section
variable {g : Geometry} {v v' : Volume} {N N' : NodeMap} {fs : Filesystem} {n : UInt32} {x : Node}
  {path name : List UInt8} {place : List (List UInt8)}

theorem outline_same (same : SameData v v' n x) : outline v' n x = outline v n x := by
  cases x with
  | dir => rfl
  | file start count => exact congrArg Shape.file same.bytes
  | link => exact congrArg Shape.link same.target
theorem filter_names {p : UInt32} {block : Nat} {parent : UInt32} {kids : List Kid} {es : List DirEntry} (consistent : Consistent g v N)
    (found : N p = some (.dir block parent kids)) (same : es.map kid = listing p parent kids) :
    (es.map (·.name)).filter (fun name => name != DOT && name != DOTDOT) = kids.map (·.name) := by
  have names : es.map (·.name) = DOT :: DOTDOT :: kids.map (·.name) := by
    have all := congrArg (List.map (·.name)) same
    rw [List.map_map] at all
    exact all
  rw [names, List.filter_cons_of_neg (by simp), List.filter_cons_of_neg (by simp), List.filter_eq_self]
  intro name member
  obtain ⟨k, inside, rfl⟩ := List.mem_map.mp member
  have proper := consistent.linked.proper found k inside
  simp [proper.2.2.1, proper.2.2.2]

/-- Reading through a path of names reads the node that the names lead to. -/
theorem read_back_eq (holds : Holds g v fs) (consistent : Consistent g v N) (proper : ∀ name ∈ components path, Proper name) :
    read_back fs path = outlines v N (components path) := by
  have walks := open_path_walk holds consistent path
  rw [walk_proper proper] at walks
  rw [read_back, outlines, view]
  rcases walks with ⟨m, walked, opened⟩ | ⟨nowhere, e, refused⟩
  · have live := walk_live consistent.linked.tree consistent.linked.tree.root_live walked
    rw [opened, walked]
    simp only [Except.toOption, Option.bind_eq_bind, Option.bind_some]
    rw [read_node holds consistent live]
    cases found : N m with
    | none => exact absurd found live
    | some x =>
      have sound := consistent.sound found
      obtain ⟨directory, -, link⟩ := types_of_node sound.backed
      simp only [Option.bind_some, Option.map_some]
      rw [directory, link]
      cases x with
      | dir block parent kids =>
        obtain ⟨es, read, -, same⟩ := read_dir_ok holds sound
        rw [read]
        exact congrArg (fun names => some (Shape.dir names)) (filter_names consistent found same)
      | file start count =>
        rw [read_file_file holds sound]
        rfl
      | link =>
        rw [read_file_link sound]
        rfl
  · rw [refused, nowhere]
    rfl

/-- A new leaf is one more name in its directory and one more node. -/
theorem outlines_grown (consistent : Consistent g v N) (grown : Grown g v v' N N' path n x)
    (split : components path = place ++ [name]) (proper : ∀ a ∈ place, Proper a) :
    (∃ names, outlines v N place = some (.dir names)) ∧ outlines v N (place ++ [name]) = none ∧
      ∀ q, outlines v' N' q = if q = place ++ [name] then some (outline v' n x)
        else if q = place then (outlines v N q).map (Shape.add name) else outlines v N q := by
  obtain ⟨parent_path, name', p, block, parent, kids, at_place, rfl, -⟩ := grown.place
  have halves := (split_path_ok at_place.split).2
  obtain ⟨place_eq, name_eq⟩ := List.append_inj' (split.symm.trans halves) rfl
  cases name_eq
  have placed : walk (child N) ROOT_INODE place = some p := by
    rw [← walk_proper proper, place_eq]
    exact at_place.directory.walked
  have found := at_place.directory.found
  have free := (child_dir found name).trans at_place.unnamed
  have tree := consistent.linked.tree
  refine ⟨⟨kids.map (·.name), ?_⟩, ?_, fun q => ?_⟩
  · rw [outlines, view_at placed, found]
    rfl
  · rw [outlines, view, walk_append_eq placed, walk, free]
    rfl
  rw [outlines, view, walk_added tree (child_withLeaf found at_place.unnamed grown.dead grown.leaf) free
    (fun live => live grown.dead) placed]
  by_cases new : q = place ++ [name]
  · have here : withLeaf N p name n x n = some x := if_pos rfl
    rw [if_pos new, if_pos new, Option.bind_some, here, Option.map_some]
  rw [if_neg new, if_neg new, outlines, view]
  cases walked : walk (child N) ROOT_INODE q with
  | none => simp
  | some m =>
    have live := walk_live tree tree.root_live walked
    have other : m ≠ n := fun same => live (same ▸ grown.dead)
    have here : withLeaf N p name n x m = addKid N p ⟨name, n, x.code⟩ m := if_neg other
    obtain ⟨y, there⟩ := Option.ne_none_iff_exists'.mp live
    rw [Option.bind_some, Option.bind_some, here]
    by_cases at_p : q = place
    · rw [at_p, placed] at walked
      cases walked
      rw [if_pos at_p, found, addKid, modify_at found]
      simp [outline, Shape.add, Node.onKids]
    · have apart : m ≠ p := by
        rintro rfl
        exact at_p (path_unique tree walked placed)
      rw [if_neg at_p, addKid, modify_other _ apart, there, Option.map_some, Option.map_some, outline_same (grown.kept there)]
end

/-! ### One creation after another -/

section
variable {made : List Item} {i : Item} {q : List (List UInt8)}

theorem names_at_snoc (made : List Item) (i : Item) (q : List (List UInt8)) :
    names_at (made ++ [i]) q = if q = i.place then names_at made q ++ [i.name] else names_at made q := by
  rw [names_at, List.filter_append, List.map_append, ← names_at]
  by_cases here : q = i.place
  · rw [if_pos here, List.filter_singleton, here]
    simp
  · have other : ¬ i.place = q := fun same => here same.symm
    rw [if_neg here, List.filter_cons_of_neg (by simpa using other)]
    simp

/-- What is created is not a special file, and is created in a directory. -/
structure Rooted (made : List Item) : Prop where
  plain : ∀ i ∈ made, i.host.copied = true
  directory : ∀ i ∈ made, ∃ names, built made i.place = some (.dir names)

/-- One more creation is one more name in its directory and one more node. -/
theorem built_snoc (rooted : Rooted made) (free : built made (i.place ++ [i.name]) = none) (q : List (List UInt8)) :
    built (made ++ [i]) q = if q = i.place ++ [i.name] then i.host.listed []
      else if q = i.place then (built made q).map (Shape.add i.name) else built made q := by
  have unfound : (made.find? fun j => j.place ++ [j.name] == i.place ++ [i.name]) = none := by
    cases hit : made.find? fun j => j.place ++ [j.name] == i.place ++ [i.name] with
    | none => rfl
    | some j =>
      rw [built, if_neg (by simp), hit, Option.bind_some] at free
      have copied := rooted.plain j (List.mem_of_find?_eq_some hit)
      cases kind : j.host with
      | dir inner => rw [kind] at free; cases free
      | file bytes => rw [kind] at free; cases free
      | symlink target => rw [kind] at free; cases free
      | special => rw [kind] at copied; cases copied
  have empty : names_at made (i.place ++ [i.name]) = [] := by
    rw [names_at, List.map_eq_nil_iff, List.filter_eq_nil_iff]
    intro j member same
    obtain ⟨names, there⟩ := rooted.directory j member
    rw [beq_iff_eq] at same
    rw [same, free] at there
    cases there
  have longer : i.place ++ [i.name] ≠ i.place := by simp
  by_cases root : q = []
  · subst root
    rw [built, if_pos rfl, if_neg (by simp), names_at_snoc, built, if_pos rfl]
    by_cases here : [] = i.place
    · rw [if_pos here, if_pos here]
      rfl
    · rw [if_neg here, if_neg here]
  rw [built, if_neg root, List.find?_append, names_at_snoc]
  by_cases new : q = i.place ++ [i.name]
  · subst new
    rw [unfound, Option.none_or, List.find?_cons_of_pos (by simp), Option.bind_some, if_pos rfl, if_neg longer, empty]
  · have other : ¬ i.place ++ [i.name] = q := fun same => new same.symm
    rw [List.find?_cons_of_neg (by simpa using other), List.find?_nil, Option.or_none, if_neg new, built, if_neg root]
    by_cases here : q = i.place
    · rw [if_pos here, if_pos here, Option.map_bind]
      congr 1
      funext j
      cases kind : j.host <;> simp [kind, Host.listed, Host.shape, Shape.add]
    · rw [if_neg here, if_neg here]
end

/-- The image shows what has been created. -/
structure Copied (g : Geometry) (made : List Item) (fs : Filesystem) (v : Volume) (N : NodeMap) : Prop where
  holds : Holds g v fs
  consistent : Consistent g v N
  rooted : Rooted made
  same : ∀ q, outlines v N q = built made q
/-- The creation is that of a tree with proper names, of a file whose blocks can
    be counted. -/
structure Fit (g : Geometry) (i : Item) : Prop where
  proper : ∀ name ∈ i.place ++ [i.name], Proper name
  copied : i.host.copied = true
  storable : ∀ bytes, i.host = .file bytes → Storable g.block_size (div_ceil bytes.size g.block_size)

section
variable {g : Geometry} {v v' : Volume} {N N' : NodeMap} {fs fs' : Filesystem} {made : List Item} {i : Item} {n : UInt32}
  {x : Node} {answer : Option UInt32}

theorem creation_grown {path : List UInt8} {refusal : Prop} {count : Nat} {new : Volume → UInt32 → Node → Prop}
    {call : Call UInt32} (ended : Creation g v N fs path refusal count new (call.run fs))
    (ran : (numbered call).run fs = .ok answer fs') :
    ∃ n v' N' x, Holds g v' fs' ∧ Grown g v v' N N' path n x ∧ new v' n x := by
  simp only [numbered, run_bind] at ran
  generalize call.run fs = result at ended ran
  cases ended with
  | refused => cases ran
  | panicked => cases ran
  | wasted => cases ran
  | made holds written grown held =>
    cases ran
    exact ⟨_, _, _, _, holds, grown, held⟩
/-- A creation that returns leaves a new node that shows what is created. -/
theorem request_grown (holds : Holds g v fs) (consistent : Consistent g v N) (fit : Fit g i)
    (ran : (execute (request i)).run fs = .ok answer fs') :
    ∃ n v' N' x, Holds g v' fs' ∧ Grown g v v' N N' (path_of (i.place ++ [i.name])) n x ∧
      i.host.listed [] = some (outline v' n x) := by
  rw [request] at ran
  cases kind : i.host with
  | dir inner =>
    rw [kind] at ran
    obtain ⟨n, v', N', x, holds', grown, code, -⟩ := creation_grown (mkdir_ends holds consistent _) ran
    refine ⟨n, v', N', x, holds', grown, ?_⟩
    have leaf := grown.leaf
    cases x with
    | dir block parent kids =>
      have none : kids = [] := leaf
      rw [none]
      rfl
    | file => cases code
    | link => cases code
  | file bytes =>
    rw [kind] at ran
    obtain ⟨n, v', N', x, holds', grown, start, count, rfl, same, -⟩ :=
      creation_grown (create_file_ends holds consistent _ (fit.storable bytes kind)) ran
    exact ⟨n, v', N', _, holds', grown, congrArg (fun bytes => some (Shape.file bytes)) same.symm⟩
  | symlink target =>
    rw [kind] at ran
    obtain ⟨n, v', N', x, holds', grown, rfl, same⟩ := creation_grown (symlink_ends holds consistent _ (target_bytes target)) ran
    exact ⟨n, v', N', _, holds', grown, congrArg (fun target => some (Shape.link target)) same.symm⟩
  | special =>
    have copied := fit.copied
    rw [kind] at copied
    cases copied

/-- What one creation preserves. -/
theorem copied_step (before : Copied g made fs v N) (fit : Fit g i) (ran : (execute (request i)).run fs = .ok answer fs') :
    ∃ v' N', Copied g (made ++ [i]) fs' v' N' := by
  obtain ⟨holds, consistent, rooted, same⟩ := before
  obtain ⟨n, v', N', x, holds', grown, shown⟩ := request_grown holds consistent fit ran
  have split := components_path_of fun name member => component_of_proper (fit.proper name member)
  obtain ⟨⟨names, there⟩, free, after_⟩ := outlines_grown consistent grown split
    fun a member => fit.proper a (List.mem_append_left _ member)
  rw [same] at there free
  have step := built_snoc (i := i) rooted free
  -- Directories stay directories, the new place aside.
  have directory : ∀ {q names}, built made q = some (.dir names) → ∃ names, built (made ++ [i]) q = some (.dir names) := by
    intro q names here
    have other : q ≠ i.place ++ [i.name] := by
      rintro rfl
      rw [free] at here
      cases here
    rw [step, if_neg other, here]
    split
    · exact ⟨_, rfl⟩
    · exact ⟨_, rfl⟩
  refine ⟨v', N', holds', grown.consistent, ⟨?_, ?_⟩, fun q => ?_⟩
  · intro j member
    rcases List.mem_append.mp member with old | new
    · exact rooted.plain j old
    · rw [List.mem_singleton.mp new]
      exact fit.copied
  · intro j member
    rcases List.mem_append.mp member with old | new
    · obtain ⟨names, here⟩ := rooted.directory j old
      exact directory here
    · rw [List.mem_singleton.mp new]
      exact directory there
  · rw [after_, step, shown, same]
/-- What a run of creations preserves. -/
theorem copied_run {rest : List Item} (before : Copied g made fs v N) (fit : ∀ i ∈ rest, Fit g i)
    (ran : after (rest.map request) fs = some fs') : ∃ v' N', Copied g (made ++ rest) fs' v' N' := by
  induction rest generalizing made fs v N with
  | nil =>
    cases ran
    exact ⟨v, N, (List.append_nil made).symm ▸ before⟩
  | cons i rest ih =>
    rw [List.map_cons, after] at ran
    cases first : (execute (request i)).run fs with
    | ok answer fs₁ =>
      rw [first] at ran
      obtain ⟨v₁, N₁, copied⟩ := copied_step before (fit i (List.mem_cons_self ..)) first
      obtain ⟨v', N', copied'⟩ := ih copied (fun j member => fit j (List.mem_cons_of_mem _ member)) ran
      exact ⟨v', N', by rwa [List.append_assoc] at copied'⟩
    | err e fs₁ => rw [first] at ran; cases ran
    | panic => rw [first] at ran; cases ran
end

end Justext4.Populate
