import Mathlib.Data.List.Forall2
import Justext4.Calls
import Justext4.Utf8

/-!
Copying a tree of the host into an image. A stack holds the directories that are
still to be listed; each is listed once, and what a listing gives is created
under the path of the directory, in the order of the enumeration. Names that are
not UTF-8, special files and long links are left out with a warning.
-/
namespace Justext4.HostTree
open Justext4 Justext4.Fallible Justext4.Filesystem Justext4.Utf8
open Justext4.Inode (I_BLOCK_LEN)
open Justext4.Nodes (Proper)
open Justext4.Paths (path_of)
open Justext4.Calls (Request)

/-- What the host has under a name. A directory gives its entries in the order
    in which it is enumerated, a special file its type as `{:?}` shows it. -/
inductive Host where
  | dir (entries : List (List UInt8 × Host))
  | file (bytes : Bytes)
  | symlink (target : Bytes)
  | special (file_type : List UInt8)

abbrev Entries := List (List UInt8 × Host)

/-- The errors that stop the copy, after the call that failed and its path. -/
inductive CliError where
  | not_a_directory
  | mkdir (vfs_child : List UInt8) (e : Ext4Error)
  | create_file (vfs_child : List UInt8) (e : Ext4Error)
  | symlink (vfs_child : List UInt8) (e : Ext4Error)

/-- The warnings for what is left out: a name, with the path of its directory in
    the image, a link, and a file of another type. -/
inductive Warning where
  | non_utf8_name (vfs_dir : List UInt8)
  | long_symlink (vfs_child : List UInt8) (len : Nat)
  | unsupported (vfs_child file_type : List UInt8)

/-- The filesystem that is copied to, and the warnings so far. -/
structure Copy where
  fs : Filesystem
  warnings : List Warning

abbrev Copying := Prog Copy CliError

/-- The directories to be listed, with their paths in the image. -/
abbrev Stack := List (Entries × List UInt8)

def map_err {α : Type} (f : Ext4Error → CliError) (call : Call α) : Copying α where
  run c :=
    match call.run c.fs with
    | .ok a fs => .ok a { c with fs }
    | .err e fs => .err (f e) { c with fs }
    | .panic => .panic
def warn (warning : Warning) : Copying Unit := change fun c => { c with warnings := c.warnings ++ [warning] }

/-- The target of a link as text. -/
def target_bytes (target : Bytes) : Bytes := Bytes.ofList (from_utf8_lossy target.toList)
/-- A link that is too long is left out. -/
def copy_symlink (vfs_child : List UInt8) (target : Bytes) : Copying Unit where
  run c :=
    match (Filesystem.symlink vfs_child (target_bytes target)).run c.fs with
    | .ok _ fs => .ok () { c with fs }
    | .err (.SymlinkTargetTooLong len) fs => (warn (.long_symlink vfs_child len)).run { c with fs }
    | .err e fs => .err (.symlink vfs_child e) { c with fs }
    | .panic => .panic

/-- The loop through the entries of one directory. -/
def copy_entries (vfs_dir : List UInt8) : Entries → Stack → Copying Stack
  | [], stack => pure stack
  | (name, host) :: rest, stack =>
    match to_str name with
    | none => do
      warn (.non_utf8_name vfs_dir)
      copy_entries vfs_dir rest stack
    | some name_str =>
      let vfs_child := vfs_dir ++ SLASH :: name_str
      match host with
      | .dir entries => do
        let _ ← map_err (.mkdir vfs_child) (mkdir vfs_child)
        copy_entries vfs_dir rest ((entries, vfs_child) :: stack)
      | .file bytes => do
        let _ ← map_err (.create_file vfs_child) (create_file vfs_child bytes)
        copy_entries vfs_dir rest stack
      | .symlink target => do
        copy_symlink vfs_child target
        copy_entries vfs_dir rest stack
      | .special file_type => do
        warn (.unsupported vfs_child file_type)
        copy_entries vfs_dir rest stack

/-- The loop through the stack, for as many directories as there are. -/
def copy_stack : Nat → Stack → Copying Unit
  | _, [] => pure ()
  | 0, _ :: _ => lift (orPanic false)
  | fuel + 1, (entries, vfs_dir) :: stack => do
    let stack ← copy_entries vfs_dir entries stack
    copy_stack fuel stack

mutual
/-- The number of directories. -/
def Host.dirs : Host → Nat
  | .dir entries => 1 + dirs_in entries
  | _ => 0
def dirs_in : Entries → Nat
  | [] => 0
  | (_, host) :: rest => host.dirs + dirs_in rest
end

def populate_from_host_tree : Host → Copying Unit
  | .dir entries => copy_stack (Host.dirs (.dir entries)) [(entries, [])]
  | _ => lift (.error (.err .not_a_directory))

/-! ### What is copied -/

def Host.copied : Host → Bool
  | .symlink target => (target_bytes target).size ≤ I_BLOCK_LEN
  | .special _ => false
  | _ => true
/-- The entries that are copied. -/
def kept (entries : Entries) : Entries := entries.filter fun e => (to_str e.1).isSome && e.2.copied

/-- What is at a path, among what is copied. -/
def host_at : Host → List (List UInt8) → Option Host
  | host, [] => some host
  | .dir entries, name :: q => ((kept entries).find? (·.1 == name)).bind fun e => host_at e.2 q
  | _, _ :: _ => none

/-- The names of every directory are names of files, and distinct. -/
def WellNamed (host : Host) : Prop :=
  ∀ q entries, host_at host q = some (.dir entries) →
    ((kept entries).map (·.1)).Nodup ∧ ∀ e ∈ kept entries, Proper e.1

/-! ### The creations -/

/-- One creation: the place of its directory, its name, and what is created. -/
structure Item where
  place : List (List UInt8)
  name : List UInt8
  host : Host

def request (i : Item) : Request :=
  match i.host with
  | .file bytes => .create_file (path_of (i.place ++ [i.name])) bytes
  | .symlink target => .symlink (path_of (i.place ++ [i.name])) (target_bytes target)
  | _ => .mkdir (path_of (i.place ++ [i.name]))
def item (place : List (List UInt8)) (e : List UInt8 × Host) : Item := ⟨place, e.1, e.2⟩
/-- The entries of a directory. -/
def Host.inner : Host → Option Entries
  | .dir entries => some entries
  | _ => none
/-- The directories that a listing puts on the stack, the last one on top. -/
def pushed (place : List (List UInt8)) (entries : Entries) : List (Entries × List (List UInt8)) :=
  (kept entries).reverse.filterMap fun e => e.2.inner.map fun inner => (inner, place ++ [e.1])
/-- The creations for a stack, in their order. -/
def items : Nat → List (Entries × List (List UInt8)) → List Item
  | _, [] => []
  | 0, _ :: _ => []
  | fuel + 1, (entries, place) :: stack => (kept entries).map (item place) ++ items fuel (pushed place entries ++ stack)

/-- The warning for an entry that is left out. -/
def warning (vfs_dir : List UInt8) (e : List UInt8 × Host) : Option Warning :=
  match to_str e.1, e.2 with
  | none, _ => some (.non_utf8_name vfs_dir)
  | some name, .symlink target =>
    if Host.copied (.symlink target) then none
    else some (.long_symlink (vfs_dir ++ SLASH :: name) (target_bytes target).size)
  | some name, .special file_type => some (.unsupported (vfs_dir ++ SLASH :: name) file_type)
  | some _, _ => none
/-- The warnings for a stack, in their order. -/
def warnings_of : Nat → List (Entries × List (List UInt8)) → List Warning
  | _, [] => []
  | 0, _ :: _ => []
  | fuel + 1, (entries, place) :: stack =>
    entries.filterMap (warning (path_of place)) ++ warnings_of fuel (pushed place entries ++ stack)

/-- The directories that a stack leads to. -/
def Leads (stack : List (Entries × List (List UInt8))) (q : List (List UInt8)) (entries : Entries) : Prop :=
  ∃ top ∈ stack, ∃ r, q = top.2 ++ r ∧ host_at (.dir top.1) r = some (.dir entries)
/-- No directory of the stack is below another one. -/
def Apart (stack : List (Entries × List (List UInt8))) : Prop :=
  stack.Pairwise fun a b => ¬ a.2 <+: b.2 ∧ ¬ b.2 <+: a.2
def dirs_of : List (Entries × List (List UInt8)) → Nat
  | [] => 0
  | top :: stack => Host.dirs (.dir top.1) + dirs_of stack

section
variable {entries : Entries} {place q : List (List UInt8)} {name : List UInt8} {host : Host} {e : List UInt8 × Host}
  {stack : List (Entries × List (List UInt8))}

theorem host_at_nil (host : Host) : host_at host [] = some host := by cases host <;> rfl
theorem host_at_cons (entries : Entries) (name : List UInt8) (q : List (List UInt8)) :
    host_at (.dir entries) (name :: q) = ((kept entries).find? (·.1 == name)).bind fun e => host_at e.2 q := rfl
theorem host_at_append (host : Host) (p q : List (List UInt8)) :
    host_at host (p ++ q) = (host_at host p).bind fun h => host_at h q := by
  induction p generalizing host with
  | nil => rw [List.nil_append, host_at_nil, Option.bind_some]
  | cons name p ih =>
    cases host with
    | dir entries =>
      rw [List.cons_append, host_at_cons, host_at_cons, Option.bind_assoc]
      congr 1
      funext e
      exact ih e.2
    | file bytes => rfl
    | symlink target => rfl
    | special => rfl
theorem WellNamed.below (named : WellNamed host) {p : List (List UInt8)} {inner : Host} (there : host_at host p = some inner) :
    WellNamed inner := by
  intro q entries found
  exact named (p ++ q) entries (by rw [host_at_append, there, Option.bind_some, found])
/-- A kept entry is found under its name. -/
theorem find_kept (nodup : ((kept entries).map (·.1)).Nodup) (member : e ∈ kept entries) :
    (kept entries).find? (·.1 == e.1) = some e := by
  obtain ⟨before, after, split⟩ := List.append_of_mem member
  rw [split, List.map_append, List.map_cons] at nodup
  rw [split, List.find?_append, List.find?_eq_none.mpr, Option.none_or, List.find?_cons_of_pos (by simp)]
  intro x inside
  have apart := (List.nodup_append.mp nodup).2.2 x.1 (List.mem_map_of_mem inside) e.1 (List.mem_cons_self ..)
  simpa using apart

theorem mem_pushed {top : Entries × List (List UInt8)} :
    top ∈ pushed place entries ↔ ∃ name inner, (name, Host.dir inner) ∈ kept entries ∧ top = (inner, place ++ [name]) := by
  simp only [pushed, List.mem_filterMap, List.mem_reverse]
  constructor
  · rintro ⟨⟨name, host⟩, member, found⟩
    cases host with
    | dir inner => exact ⟨name, inner, member, (Option.some.inj found).symm⟩
    | file => cases found
    | symlink => cases found
    | special => cases found
  · rintro ⟨name, inner, member, rfl⟩
    exact ⟨(name, .dir inner), member, rfl⟩

/-- What the top of the stack leads to, other than itself, its directories lead to. -/
theorem leads_pushed (nodup : ((kept entries).map (·.1)).Nodup) (other : q ≠ place) {found : Entries} :
    Leads ((entries, place) :: stack) q found ↔ Leads (pushed place entries ++ stack) q found := by
  constructor
  · rintro ⟨top, member, r, rfl, there⟩
    rcases List.mem_cons.mp member with rfl | later
    · cases r with
      | nil => exact absurd (List.append_nil _) other
      | cons name r =>
        rw [host_at_cons] at there
        cases hit : (kept entries).find? (·.1 == name) with
        | none => rw [hit] at there; cases there
        | some e =>
          rw [hit, Option.bind_some] at there
          have same : e.1 = name := by simpa using List.find?_some hit
          obtain ⟨name', host⟩ := e
          cases same
          cases host with
          | dir inner =>
            exact ⟨(inner, place ++ [name']),
              List.mem_append_left _ (mem_pushed.mpr ⟨name', inner, List.mem_of_find?_eq_some hit, rfl⟩), r,
              (List.append_assoc place [name'] r).symm, there⟩
          | file => cases r <;> cases there
          | symlink => cases r <;> cases there
          | special => cases r <;> cases there
    · exact ⟨top, List.mem_append_right _ later, r, rfl, there⟩
  · rintro ⟨top, member, r, rfl, there⟩
    rcases List.mem_append.mp member with first | later
    · obtain ⟨name, inner, inside, rfl⟩ := mem_pushed.mp first
      refine ⟨(entries, place), List.mem_cons_self .., name :: r, List.append_assoc place [name] r, ?_⟩
      rw [host_at_cons, find_kept nodup inside, Option.bind_some]
      exact there
    · exact ⟨top, List.mem_cons_of_mem _ later, r, rfl, there⟩

theorem apart_pushed (nodup : ((kept entries).map (·.1)).Nodup) (apart : Apart ((entries, place) :: stack)) :
    Apart (pushed place entries ++ stack) := by
  obtain ⟨top, rest⟩ := List.pairwise_cons.mp apart
  refine List.pairwise_append.mpr ⟨?_, rest, ?_⟩
  · rw [pushed, List.pairwise_filterMap, List.pairwise_reverse]
    refine List.Pairwise.imp ?_ (List.pairwise_map.mp nodup)
    rintro ⟨name, host⟩ ⟨name', host'⟩ other a found a' found'
    cases host' with
    | dir inner' =>
      cases host with
      | dir inner =>
        cases found
        cases found'
        have distinct : ∀ {x y : List UInt8}, x ≠ y → ¬ place ++ [x] <+: place ++ [y] := by
          intro x y different below
          rw [List.prefix_append_right_inj] at below
          have same := List.prefix_iff_eq_take.mp below
          simp at same
          exact different same
        exact ⟨distinct fun same => other same.symm, distinct other⟩
      | file => cases found'
      | symlink => cases found'
      | special => cases found'
    | file => cases found
    | symlink => cases found
    | special => cases found
  · intro a first b later
    obtain ⟨name, inner, -, rfl⟩ := mem_pushed.mp first
    obtain ⟨below, above⟩ := top b later
    have longer : place <+: place ++ [name] := List.prefix_append ..
    refine ⟨fun under => below (longer.trans under), fun upper => ?_⟩
    rcases List.prefix_concat_iff.mp upper with same | short
    · exact below (same ▸ longer)
    · exact above short

theorem dirs_pos (entries : Entries) : 0 < Host.dirs (.dir entries) := by
  rw [Host.dirs]
  omega
theorem dirs_of_append (first second : List (Entries × List (List UInt8))) :
    dirs_of (first ++ second) = dirs_of first + dirs_of second := by
  induction first with
  | nil => rw [List.nil_append, dirs_of, Nat.zero_add]
  | cons top first ih => rw [List.cons_append, dirs_of, dirs_of, ih, Nat.add_assoc]
theorem kept_cons (e : List UInt8 × Host) (rest : Entries) :
    kept (e :: rest) = if (to_str e.1).isSome && e.2.copied then e :: kept rest else kept rest := by
  rw [kept, List.filter_cons]
  rfl
/-- The last directory of a listing is on top. -/
theorem pushed_snoc (place : List (List UInt8)) {e : List UInt8 × Host} {rest : Entries} (keeps : kept (e :: rest) = e :: kept rest) :
    pushed place (e :: rest) = pushed place rest ++ (e.2.inner.map fun inner => (inner, place ++ [e.1])).toList := by
  rw [pushed, keeps, List.reverse_cons, List.filterMap_append, pushed]
  obtain ⟨name, host⟩ := e
  cases host <;> rfl
theorem pushed_skip (place : List (List UInt8)) {e : List UInt8 × Host} {rest : Entries} (skips : kept (e :: rest) = kept rest) :
    pushed place (e :: rest) = pushed place rest := by rw [pushed, skips, pushed]
theorem dirs_pushed_le (entries : Entries) (place : List (List UInt8)) : dirs_of (pushed place entries) ≤ dirs_in entries := by
  induction entries with
  | nil => exact Nat.zero_le _
  | cons e rest ih =>
    obtain ⟨name, host⟩ := e
    rw [dirs_in]
    by_cases keep : ((to_str name).isSome && host.copied) = true
    · rw [pushed_snoc place ((kept_cons _ _).trans (if_pos keep)), dirs_of_append]
      cases host with
      | dir inner =>
        simp only [Host.inner, Option.map_some, Option.toList_some, dirs_of]
        omega
      | file bytes =>
        simp only [Host.inner, Option.map_none, Option.toList_none, dirs_of]
        omega
      | symlink target =>
        simp only [Host.inner, Option.map_none, Option.toList_none, dirs_of]
        omega
      | special =>
        simp only [Host.inner, Option.map_none, Option.toList_none, dirs_of]
        omega
    · rw [pushed_skip place ((kept_cons _ _).trans (if_neg keep))]
      omega
theorem dirs_pushed (entries : Entries) (place : List (List UInt8)) (stack : List (Entries × List (List UInt8))) :
    dirs_of (pushed place entries ++ stack) < dirs_of ((entries, place) :: stack) := by
  have le := dirs_pushed_le entries place
  have whole : Host.dirs (.dir entries) = 1 + dirs_in entries := by rw [Host.dirs]
  rw [dirs_of_append, dirs_of, whole]
  omega

/-- The creations in a directory are those of its entries, in their order. -/
theorem items_at {fuel : Nat} (enough : dirs_of stack ≤ fuel) (apart : Apart stack)
    (named : ∀ top ∈ stack, WellNamed (.dir top.1)) (q : List (List UInt8)) :
    (∀ entries, Leads stack q entries → (items fuel stack).filter (·.place == q) = (kept entries).map (item q)) ∧
      ((∀ entries, ¬ Leads stack q entries) → (items fuel stack).filter (·.place == q) = []) := by
  induction fuel generalizing stack with
  | zero =>
    cases stack with
    | nil =>
      refine ⟨?_, fun _ => rfl⟩
      rintro entries ⟨top, member, -⟩
      cases member
    | cons top stack =>
      have positive := dirs_pos top.1
      rw [dirs_of] at enough
      omega
  | succ fuel ih =>
    cases stack with
    | nil =>
      refine ⟨?_, fun _ => rfl⟩
      rintro entries ⟨top, member, -⟩
      cases member
    | cons top stack =>
    obtain ⟨entries, place⟩ := top
    have nodup := (named (entries, place) (List.mem_cons_self ..) [] entries rfl).1
    have fewer := dirs_pushed entries place stack
    have named' : ∀ top ∈ pushed place entries ++ stack, WellNamed (.dir top.1) := by
      intro top member
      rcases List.mem_append.mp member with first | later
      · obtain ⟨name, inner, inside, rfl⟩ := mem_pushed.mp first
        refine (named (entries, place) (List.mem_cons_self ..)).below (p := [name]) ?_
        rw [host_at_cons, find_kept nodup inside, Option.bind_some, host_at_nil]
      · exact named top (List.mem_cons_of_mem _ later)
    obtain ⟨there, nowhere⟩ := ih (by omega) (apart_pushed nodup apart) named'
    rw [items, List.filter_append]
    by_cases here : q = place
    · subst here
      have alone : ∀ found, ¬ Leads (pushed q entries ++ stack) q found := by
        rintro found ⟨top, member, r, same, -⟩
        rcases List.mem_append.mp member with first | later
        · obtain ⟨name, inner, -, rfl⟩ := mem_pushed.mp first
          have lengths := congrArg List.length same
          rw [List.length_append, List.length_append, List.length_singleton] at lengths
          omega
        · exact ((List.pairwise_cons.mp apart).1 top later).2 ⟨r, same.symm⟩
      have all : ((kept entries).map (item q)).filter (·.place == q) = (kept entries).map (item q) :=
        List.filter_eq_self.mpr fun i member => by
          obtain ⟨e, -, rfl⟩ := List.mem_map.mp member
          simp [item]
      rw [nowhere alone, all, List.append_nil]
      refine ⟨?_, fun none => absurd ⟨(entries, q), List.mem_cons_self .., [], (List.append_nil q).symm, rfl⟩ (none entries)⟩
      rintro found ⟨top, member, r, same, hit⟩
      rcases List.mem_cons.mp member with rfl | later
      · have short : r = [] := by simpa using same
        subst short
        cases hit
        rfl
      · exact absurd ⟨r, same.symm⟩ ((List.pairwise_cons.mp apart).1 top later).2
    · have none : ((kept entries).map (item place)).filter (·.place == q) = [] := by
        rw [List.filter_eq_nil_iff]
        intro i member
        obtain ⟨e, -, rfl⟩ := List.mem_map.mp member
        simpa [item] using fun same => here same.symm
      rw [none, List.nil_append]
      exact ⟨fun found leads => there found ((leads_pushed nodup here).mp leads),
        fun missing => nowhere fun found leads => missing found ((leads_pushed nodup here).mpr leads)⟩
end

/-! ### Shapes -/

/-- What is at a path: the names in a directory, in their order, or contents. -/
inductive Shape where
  | dir (names : List (List UInt8))
  | file (bytes : Bytes)
  | link (target : Bytes)

def Host.shape : Host → Option Shape
  | .dir entries => some (.dir ((kept entries).map (·.1)))
  | .file bytes => some (.file bytes)
  | .symlink target => some (.link (target_bytes target))
  | .special _ => none
/-- What the copied part of a host tree has at a path. -/
def host_shape (host : Host) (q : List (List UInt8)) : Option Shape := (host_at host q).bind Host.shape

/-- The same, a directory with these names. -/
def Host.listed (names : List (List UInt8)) : Host → Option Shape
  | .dir _ => some (.dir names)
  | host => host.shape

/-- What creations make of an empty root. -/
def names_at (made : List Item) (q : List (List UInt8)) : List (List UInt8) := (made.filter (·.place == q)).map (·.name)
def built (made : List Item) (q : List (List UInt8)) : Option Shape :=
  if q = [] then some (.dir (names_at made []))
  else (made.find? fun i => i.place ++ [i.name] == q).bind fun i => i.host.listed (names_at made q)

section
variable {entries : Entries} {fuel : Nat} {q place : List (List UInt8)} {name : List UInt8}

theorem leads_root {found : Entries} : Leads [(entries, [])] q found ↔ host_at (.dir entries) q = some (.dir found) := by
  constructor
  · rintro ⟨top, member, r, rfl, there⟩
    rw [List.mem_singleton.mp member] at there ⊢
    exact there
  · intro there
    exact ⟨(entries, []), List.mem_singleton.mpr rfl, q, rfl, there⟩
theorem find_place (made : List Item) (place : List (List UInt8)) (name : List UInt8) :
    (made.find? fun i => i.place ++ [i.name] == place ++ [name]) = (made.filter (·.place == place)).find? (·.name == name) := by
  rw [List.find?_filter]
  congr 1
  funext i
  rw [Bool.eq_iff_iff]
  simp only [beq_iff_eq, decide_eq_true_eq]
  constructor
  · intro same
    obtain ⟨first, second⟩ := List.append_inj' same rfl
    exact ⟨first, List.singleton_inj.mp second⟩
  · rintro ⟨rfl, rfl⟩
    rfl

/-- The creations of a stack build the copied part of the host tree. -/
theorem built_items (named : WellNamed (.dir entries)) (enough : Host.dirs (.dir entries) ≤ fuel) (q : List (List UInt8)) :
    built (items fuel [(entries, [])]) q = host_shape (.dir entries) q := by
  have only : ∀ top ∈ [(entries, ([] : List (List UInt8)))], WellNamed (.dir top.1) := fun top member => by
    rw [List.mem_singleton.mp member]
    exact named
  have at_place := items_at enough (List.pairwise_singleton _ (entries, ([] : List (List UInt8)))) only
  have names : ∀ {q found}, host_at (.dir entries) q = some (.dir found) →
      names_at (items fuel [(entries, [])]) q = (kept found).map (·.1) := by
    intro q found there
    rw [names_at, (at_place q).1 found (leads_root.mpr there), List.map_map]
    rfl
  cases q using List.reverseRecOn with
  | nil =>
    rw [built, if_pos rfl, names (host_at_nil _), host_shape, host_at_nil]
    rfl
  | append_singleton place name =>
    rw [built, if_neg (by simp), find_place, host_shape, host_at_append]
    have nothing : (∀ found, host_at (.dir entries) place ≠ some (.dir found)) →
        (items fuel [(entries, [])]).filter (·.place == place) = [] := fun none =>
      (at_place place).2 fun found leads => none found (leads_root.mp leads)
    cases there : host_at (.dir entries) place with
    | none =>
      rw [nothing (by simp [there])]
      rfl
    | some host =>
      cases host with
      | dir found =>
        rw [(at_place place).1 found (leads_root.mpr there), Option.bind_some, host_at_cons]
        have picked : ((kept found).map (item place)).find? (·.name == name) =
            ((kept found).find? (·.1 == name)).map (item place) := by
          rw [List.find?_map]
          rfl
        rw [picked]
        cases hit : (kept found).find? (·.1 == name) with
        | none => rfl
        | some e =>
          obtain ⟨name', host⟩ := e
          have same : name' = name := by simpa using List.find?_some hit
          subst same
          rw [Option.map_some, Option.bind_some, Option.bind_some, host_at_nil, Option.bind_some]
          cases host with
          | dir inner =>
            have below : host_at (.dir entries) (place ++ [name']) = some (.dir inner) := by
              rw [host_at_append, there, Option.bind_some, host_at_cons, hit, Option.bind_some, host_at_nil]
            exact congrArg (fun names => some (Shape.dir names)) (names below)
          | file bytes => rfl
          | symlink target => rfl
          | special => rfl
      | file bytes =>
        rw [nothing (by simp [there])]
        rfl
      | symlink target =>
        rw [nothing (by simp [there])]
        rfl
      | special =>
        rw [nothing (by simp [there])]
        rfl
end

/-! ### Two enumerations -/

/-- Both trees have the same at every path, the copied entries of every
    directory in the same order. -/
def SameOrder (first second : Host) : Prop := ∀ q, host_shape first q = host_shape second q

/-- The same under the same name. -/
def Alike (a b : List UInt8 × Host) : Prop := a.1 = b.1 ∧ SameOrder a.2 b.2
/-- Two directories to be listed under the same path. -/
def Paired (a b : Entries × List (List UInt8)) : Prop :=
  a.2 = b.2 ∧ SameOrder (.dir a.1) (.dir b.1) ∧ WellNamed (.dir a.1) ∧ WellNamed (.dir b.1)

section
variable {entries entries' : Entries} {place : List (List UInt8)} {e e' : List UInt8 × Host}

theorem host_shape_nil (host : Host) : host_shape host [] = host.shape := by rw [host_shape, host_at_nil, Option.bind_some]
theorem host_shape_kept (nodup : ((kept entries).map (·.1)).Nodup) (member : e ∈ kept entries) (q : List (List UInt8)) :
    host_shape (.dir entries) (e.1 :: q) = host_shape e.2 q := by
  rw [host_shape, host_at_cons, find_kept nodup member, Option.bind_some, host_shape]
theorem alike_kept (same : SameOrder (.dir entries) (.dir entries')) (nodup : ((kept entries).map (·.1)).Nodup)
    (nodup' : ((kept entries').map (·.1)).Nodup) : List.Forall₂ Alike (kept entries) (kept entries') := by
  have names : (kept entries).map (·.1) = (kept entries').map (·.1) := by
    have root := same []
    rw [host_shape_nil, host_shape_nil] at root
    exact Shape.dir.inj (Option.some.inj root)
  have part : ∀ {some some' : Entries}, (∀ e ∈ some, e ∈ kept entries) → (∀ e ∈ some', e ∈ kept entries') →
      some.map (·.1) = some'.map (·.1) → List.Forall₂ Alike some some' := by
    intro some
    induction some with
    | nil =>
      intro some' _ _ names
      cases some' with
      | nil => exact .nil
      | cons => cases names
    | cons e rest ih =>
      intro some' inside inside' names
      cases some' with
      | nil => cases names
      | cons e' rest' =>
        obtain ⟨first, later⟩ := List.cons.inj names
        refine .cons ⟨first, fun q => ?_⟩ (ih (fun x member => inside x (List.mem_cons_of_mem _ member))
          (fun x member => inside' x (List.mem_cons_of_mem _ member)) later)
        rw [← host_shape_kept nodup (inside e (List.mem_cons_self ..)) q,
          ← host_shape_kept nodup' (inside' e' (List.mem_cons_self ..)) q, ← show e.1 = e'.1 from first]
        exact same (e.1 :: q)
  exact part (fun _ member => member) (fun _ member => member) names

theorem request_alike (alike : Alike e e') : request (item place e) = request (item place e') := by
  obtain ⟨name, host⟩ := e
  obtain ⟨name', host'⟩ := e'
  obtain ⟨rfl, same⟩ := alike
  have root := same []
  rw [host_shape_nil, host_shape_nil] at root
  cases host with
  | dir inner => cases host' with
    | dir inner' => rfl
    | _ => cases root
  | file bytes => cases host' with
    | file bytes' => cases root; rfl
    | _ => cases root
  | symlink target => cases host' with
    | symlink target' =>
      have texts := Shape.link.inj (Option.some.inj root)
      exact congrArg (Request.symlink (path_of (place ++ [name]))) texts
    | _ => cases root
  | special => cases host' with
    | special => rfl
    | _ => cases root
/-- Directories of the same name are paired. -/
theorem paired_pushed (nodup : ((kept entries).map (·.1)).Nodup) (nodup' : ((kept entries').map (·.1)).Nodup)
    (named : WellNamed (.dir entries)) (named' : WellNamed (.dir entries'))
    (alike : List.Forall₂ Alike (kept entries) (kept entries')) :
    List.Forall₂ Paired (pushed place entries) (pushed place entries') := by
  have part : ∀ {some some' : Entries}, (∀ e ∈ some, e ∈ kept entries) → (∀ e ∈ some', e ∈ kept entries') →
      List.Forall₂ Alike some some' → List.Forall₂ Paired
        (some.filterMap fun e => e.2.inner.map fun inner => (inner, place ++ [e.1]))
        (some'.filterMap fun e => e.2.inner.map fun inner => (inner, place ++ [e.1])) := by
    intro some some' inside inside' both
    induction both with
    | nil => exact .nil
    | @cons e e' rest rest' first later ih =>
      have ih := ih (fun x member => inside x (List.mem_cons_of_mem _ member))
        (fun x member => inside' x (List.mem_cons_of_mem _ member))
      have member := inside e (List.mem_cons_self ..)
      have member' := inside' e' (List.mem_cons_self ..)
      obtain ⟨name, host⟩ := e
      obtain ⟨name', host'⟩ := e'
      obtain ⟨rfl, same⟩ := first
      have root := same []
      rw [host_shape_nil, host_shape_nil] at root
      cases host with
      | dir inner =>
        cases host' with
        | dir inner' =>
          have below : host_at (.dir entries) [name] = Option.some (.dir inner) := by
            rw [host_at_cons, find_kept nodup member, Option.bind_some, host_at_nil]
          have below' : host_at (.dir entries') [name] = Option.some (.dir inner') := by
            rw [host_at_cons, find_kept nodup' member', Option.bind_some, host_at_nil]
          exact .cons ⟨rfl, same, named.below below, named'.below below'⟩ ih
        | file => cases root
        | symlink => cases root
        | special => cases root
      | file => cases host' with
        | dir => cases root
        | _ => exact ih
      | symlink => cases host' with
        | dir => cases root
        | _ => exact ih
      | special => cases host' with
        | dir => cases root
        | _ => exact ih
  refine part (fun e member => List.mem_reverse.mp member) (fun e member => List.mem_reverse.mp member) ?_
  exact List.forall₂_reverse_iff.mpr alike

/-- The same order makes the same creations. -/
theorem items_paired {stack stack' : List (Entries × List (List UInt8))} {fuel fuel' : Nat}
    (paired : List.Forall₂ Paired stack stack') (enough : dirs_of stack ≤ fuel) (enough' : dirs_of stack' ≤ fuel') :
    (items fuel stack).map request = (items fuel' stack').map request := by
  induction fuel generalizing fuel' stack stack' with
  | zero =>
    cases paired with
    | nil => cases fuel' <;> rfl
    | cons =>
      rename_i top _ _ _ _ _
      have positive := dirs_pos top.1
      rw [dirs_of] at enough
      omega
  | succ fuel ih =>
    cases paired with
    | nil => cases fuel' <;> rfl
    | @cons top top' rest rest' first later =>
      obtain ⟨entries, place⟩ := top
      obtain ⟨entries', place'⟩ := top'
      obtain ⟨place_eq, same, named, named'⟩ := first
      cases place_eq
      have nodup := (named [] entries rfl).1
      have nodup' := (named' [] entries' rfl).1
      have alike := alike_kept same nodup nodup'
      cases fuel' with
      | zero =>
        have positive : 0 < dirs_of ((entries', place) :: rest') := Nat.add_pos_left (dirs_pos entries') _
        omega
      | succ fuel' =>
        have fewer := dirs_pushed entries place rest
        have fewer' := dirs_pushed entries' place rest'
        have here : ((kept entries).map (item place)).map request = ((kept entries').map (item place)).map request := by
          rw [List.map_map, List.map_map]
          rw [← List.forall₂_eq_eq_eq, List.forall₂_map_left_iff, List.forall₂_map_right_iff]
          exact alike.imp fun _ _ both => request_alike both
        have paired : List.Forall₂ Paired (pushed place entries ++ rest) (pushed place entries' ++ rest') :=
          List.rel_append (paired_pushed nodup nodup' named named' alike) later
        have deeper : (items fuel (pushed place entries ++ rest)).map request =
            (items fuel' (pushed place entries' ++ rest')).map request := ih paired (by omega) (by omega)
        rw [items, items, List.map_append, List.map_append, here, deeper]
end

end Justext4.HostTree
