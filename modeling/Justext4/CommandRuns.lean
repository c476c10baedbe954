import Mathlib.Logic.Function.Basic
import Justext4.Commands
import Justext4.CopiedTree
import Justext4.Populate
import Justext4.Sessions

/-!
Lines of commands. Each line opens the images that it touches anew, so what
carries from line to line is what the files show. Every line turns the trees of
the files into others as the line says, and leaves images that can be relied on.
-/
namespace Justext4.CommandRuns
open Justext4 Justext4.Fallible Justext4.Filesystem Justext4.Mkfs Justext4.Numerals Justext4.Display Justext4.Arguments
open Justext4.Commands Bytes
open Justext4.Backing
open Justext4.Create
open Justext4.View
open Justext4.Calls
open Justext4.Refinement
open Justext4.HostTree (Item Entries Host Copy request items pushed kept)
open Justext4.Utf8
open Justext4.Progress (after after_cons)
open Justext4.Populate
open Justext4.Simulation
open Justext4.Sessions
open Function (update)

/-! ### What the files show -/

/-- What a file shows: nothing, when it is not there or does not open. -/
def shows (file : Option Bytes) : Option FileTree := file.bind fun image =>
  match open_image image with
  | .ok fs => some (tree fs)
  | .error _ => none

section
variable {κ : Type} [DecidableEq κ] {w : World κ} {m m' : Machine κ} {g : Geometry} {fs fs' : Filesystem} {k : κ} {α : Type}

def pictures (m : Machine κ) (k : κ) : Option FileTree := shows (m.files k)

/-- An image opens to a filesystem that backs a tree, in memory and in the file. -/
def Sturdy (image : Bytes) : Prop :=
  ∀ fs, open_image image = .ok fs → ∃ config g, Calls.Small config ∧ Whole config g ∧ Durable g fs
def Sound (m : Machine κ) : Prop := ∀ k image, m.files k = some image → Sturdy image

omit [DecidableEq κ] in
/-- What has been printed does not matter. -/
theorem pictures_files (same : m'.files = m.files) : pictures m' = pictures m := by
  funext j
  rw [pictures, pictures, same]
omit [DecidableEq κ] in
theorem sound_files (same : m'.files = m.files) (sound : Sound m) : Sound m' :=
  fun k image there => sound k image (same ▸ there)
theorem pictures_store (m : Machine κ) (k : κ) (image : Bytes) :
    pictures (m.store k image) = update (pictures m) k (shows (some image)) := by
  funext j
  by_cases same : j = k
  · subst same
    rw [pictures, store_same, Function.update_self]
  · rw [pictures, store_other m same, Function.update_of_ne same, pictures]
theorem sound_store (sound : Sound m) {image : Bytes} (sturdy : Sturdy image) : Sound (m.store k image) := by
  intro j image' there
  by_cases same : j = k
  · subst same
    rw [store_same] at there
    cases there
    exact sturdy
  · rw [store_other m same] at there
    exact sound j image' there

/-- An image that a filesystem has been kept in. -/
structure Stored (fs : Filesystem) (t : FileTree) : Prop where
  kept : ∃ config g, Calls.Small config ∧ Whole config g ∧ Durable g fs
  same : tree fs = t

theorem Stored.shows {t : FileTree} (stored : Stored fs t) : shows (some fs.reader) = some t ∧ Sturdy fs.reader := by
  obtain ⟨⟨config, g, small, whole, durable⟩, rfl⟩ := stored
  have known := whole.known
  obtain ⟨fs', opened, durable', same⟩ := reopened_shows (by omega) durable
  refine ⟨?_, fun fs₁ opened₁ => ?_⟩
  · simp only [CommandRuns.shows, Option.bind_some, opened, same]
  · cases opened.symm.trans opened₁
    exact ⟨config, g, small, whole, durable'⟩
/-- Storing it shows its tree. -/
theorem Stored.store {t : FileTree} (sound : Sound m) (stored : Stored fs t) :
    pictures (m.store k fs.reader) = update (pictures m) k (some t) ∧ Sound (m.store k fs.reader) := by
  obtain ⟨shown, sturdy⟩ := stored.shows
  exact ⟨by rw [pictures_store, shown], sound_store sound sturdy⟩

/-- The empty file that a refused configuration leaves does not open. -/
theorem empty_closed (fs : Filesystem) : open_image (zeros 0) ≠ .ok fs := by
  intro opened
  rw [open_image, res_bind_eq_ok] at opened
  obtain ⟨buf, read, -⟩ := opened
  rw [read_at, if_neg (by decide)] at read
  cases read
theorem store_empty (sound : Sound m) :
    pictures (m.store k (zeros 0)) = update (pictures m) k none ∧ Sound (m.store k (zeros 0)) := by
  have none : shows (some (zeros 0)) = none := by
    rw [shows, Option.bind_some]
    cases opened : open_image (zeros 0) with
    | ok fs => exact absurd opened (empty_closed fs)
    | error => rfl
  exact ⟨by rw [pictures_store, none], sound_store sound fun fs opened => absurd opened (empty_closed fs)⟩
end

/-! ### A copy that stops -/

/-- Where a call has stopped: in a state, when it has failed, or nowhere, when
    it has panicked. -/
def halt {σ ε α : Type} : Ended σ ε α → Option (Option σ)
  | .ok .. => none
  | .err _ s => some (some s)
  | .panic => some none

theorem halt_err {σ ε α : Type} {r : Ended σ ε α} {s : σ} (stops : halt r = some (some s)) : ∃ e, r = .err e s := by
  cases r with
  | err e s' =>
    cases stops
    exact ⟨e, rfl⟩
  | ok => cases stops
  | panic => cases stops

section
variable {fs mid : Filesystem} {entries : Entries} {place : List (List UInt8)} {requests first second : List Request}
  {left : Option Filesystem} {c : Copy} {ended : Option Copy}

/-- A composed call stops in its first part or in its second. -/
theorem halt_bind {σ ε α β : Type} {x : Prog σ ε α} {f : α → Prog σ ε β} {s : σ} {left : Option σ}
    (stops : halt ((x >>= f).run s) = some left) :
    halt (x.run s) = some left ∨ ∃ a mid, x.run s = .ok a mid ∧ halt ((f a).run mid) = some left := by
  rw [run_bind] at stops
  cases ran : x.run s with
  | ok a mid =>
    rw [ran] at stops
    exact .inr ⟨a, mid, rfl, stops⟩
  | err e mid =>
    rw [ran] at stops
    exact .inl stops
  | panic =>
    rw [ran] at stops
    exact .inl stops

/-- Some of the requests have returned in a row, and the next one has stopped. -/
def Stops (requests : List Request) (fs : Filesystem) (left : Option Filesystem) : Prop :=
  ∃ made r rest mid, requests = made ++ r :: rest ∧ after made fs = some mid ∧ halt ((execute r).run mid) = some left

theorem stops_head {r : Request} (stops : halt ((execute r).run fs) = some left) : Stops (r :: requests) fs left :=
  ⟨[], r, requests, fs, rfl, rfl, stops⟩
theorem stops_right (made : after first fs = some mid) (stops : Stops second mid left) : Stops (first ++ second) fs left := by
  obtain ⟨made', r, rest, mid', rfl, ran, stopped⟩ := stops
  refine ⟨first ++ made', r, rest, mid', (List.append_assoc ..).symm, ?_, stopped⟩
  rw [after_append, made, Option.bind_some, ran]
theorem stops_left (stops : Stops first fs left) : Stops (first ++ second) fs left := by
  obtain ⟨made, r, rest, mid, rfl, ran, stopped⟩ := stops
  exact ⟨made, r, rest ++ second, mid, by rw [List.append_assoc, List.cons_append], ran, stopped⟩
theorem stops_cons {r : Request} {answer : Option UInt32} (ran : (execute r).run fs = .ok answer mid)
    (stops : Stops requests mid left) : Stops (r :: requests) fs left :=
  stops_right (show after [r] fs = some mid by rw [after_cons _ ran]; rfl) stops

theorem halt_numbered (call : Call UInt32) : halt ((numbered call).run fs) = halt (call.run fs) := by
  rw [numbered, run_bind]
  cases call.run fs <;> rfl
theorem halt_warn {α : Type} {warning : HostTree.Warning} {rest : HostTree.Copying α} :
    halt (Prog.run (do
      HostTree.warn warning
      rest) c) = halt (rest.run { c with warnings := c.warnings ++ [warning] }) := rfl
/-- A call of the copy stops where the call on its filesystem does. -/
theorem halt_map_err {α : Type} {f : Ext4Error → HostTree.CliError} {call : Call α}
    (stops : halt ((HostTree.map_err f call).run c) = some ended) : halt (call.run c.fs) = some (ended.map (·.fs)) := by
  simp only [HostTree.map_err] at stops
  cases ran : call.run c.fs with
  | ok a fs₁ => rw [ran] at stops; cases stops
  | err e fs₁ => rw [ran] at stops; cases stops; rfl
  | panic => rw [ran] at stops; cases stops; rfl
theorem halt_copy_symlink {vfs_child : List UInt8} {target : Bytes}
    (stops : halt ((HostTree.copy_symlink vfs_child target).run c) = some ended) :
    (HostTree.target_bytes target).size ≤ Inode.I_BLOCK_LEN ∧
      halt ((symlink vfs_child (HostTree.target_bytes target)).run c.fs) = some (ended.map (·.fs)) := by
  by_cases short : (HostTree.target_bytes target).size ≤ Inode.I_BLOCK_LEN
  · refine ⟨short, ?_⟩
    simp only [HostTree.copy_symlink] at stops
    cases ran : (symlink vfs_child (HostTree.target_bytes target)).run c.fs with
    | ok n fs₁ => rw [ran] at stops; cases stops
    | err e' fs₁ =>
      rw [ran] at stops
      cases e' with
      | SymlinkTargetTooLong => cases stops
      | _ => cases stops; rfl
    | panic => rw [ran] at stops; cases stops; rfl
  · rw [copy_symlink_long short] at stops
    cases stops

/-- A listing that stops has made its creations up to the one that stopped. -/
theorem copy_entries_stops {stack : HostTree.Stack}
    (ran : halt ((HostTree.copy_entries (Paths.path_of place) entries stack).run c) = some ended) :
    Stops (((kept entries).map (HostTree.item place)).map request) c.fs (ended.map (·.fs)) := by
  induction entries generalizing c stack with
  | nil => cases ran
  | cons entry rest ih =>
    obtain ⟨name, host⟩ := entry
    have skip : ((to_str name).isSome && host.copied) = false → ∀ {c₁ : Copy} {stack},
        halt ((HostTree.copy_entries (Paths.path_of place) rest stack).run c₁) = some ended → c₁.fs = c.fs →
        Stops (((kept ((name, host) :: rest)).map (HostTree.item place)).map request) c.fs (ended.map (·.fs)) := by
      intro out c₁ stack ran same
      rw [HostTree.kept_cons, out, if_neg Bool.false_ne_true, ← same]
      exact ih ran
    rw [HostTree.copy_entries] at ran
    cases text : to_str name with
    | none =>
      rw [text] at ran skip
      have later := halt_warn ▸ ran
      exact skip rfl later rfl
    | some name_str =>
      rw [text] at ran skip
      have same := to_str_some text
      subst same
      -- What is copied comes before the rest, and one of the two has stopped.
      have keep : host.copied = true → (kept ((name_str, host) :: rest)) = (name_str, host) :: kept rest := fun copied => by
        rw [HostTree.kept_cons, text, copied]
        rfl
      dsimp only at ran
      rw [← path_of_snoc] at ran
      cases host with
      | dir inner =>
        rw [keep rfl]
        rcases halt_bind ran with stopped | ⟨n, c₁, made, later⟩
        · have stopped' := halt_map_err stopped
          rw [← halt_numbered] at stopped'
          exact stops_head stopped'
        · exact stops_cons (numbered_ok (map_err_ok made).1) (ih later)
      | file bytes =>
        rw [keep rfl]
        rcases halt_bind ran with stopped | ⟨n, c₁, made, later⟩
        · have stopped' := halt_map_err stopped
          rw [← halt_numbered] at stopped'
          exact stops_head stopped'
        · exact stops_cons (numbered_ok (map_err_ok made).1) (ih later)
      | symlink target =>
        rcases halt_bind ran with stopped | ⟨u, c₁, made, later⟩
        · obtain ⟨short, stopped⟩ := halt_copy_symlink stopped
          rw [← halt_numbered] at stopped
          rw [keep (decide_eq_true short)]
          exact stops_head stopped
        · rcases copy_symlink_ok made with ⟨long, same⟩ | ⟨short, ⟨n, made⟩, -⟩
          · refine skip ?_ later (by rw [same])
            simp only [Host.copied, Option.isSome_some, Bool.true_and, decide_eq_false_iff_not]
            omega
          · rw [keep (decide_eq_true short)]
            exact stops_cons (numbered_ok made) (ih later)
      | special file_type =>
        have later := halt_warn ▸ ran
        exact skip rfl later rfl
theorem copy_stack_stops {fuel : Nat} (stack : List (Entries × List (List UInt8))) (enough : HostTree.dirs_of stack ≤ fuel)
    (ran : halt ((HostTree.copy_stack fuel (spelled stack)).run c) = some ended) :
    Stops ((items fuel stack).map request) c.fs (ended.map (·.fs)) := by
  induction fuel generalizing c stack with
  | zero =>
    cases stack with
    | nil => cases ran
    | cons top stack =>
      obtain ⟨entries, place⟩ := top
      have less := HostTree.dirs_pushed entries place stack
      omega
  | succ fuel ih =>
    cases stack with
    | nil => cases ran
    | cons top stack =>
      obtain ⟨entries, place⟩ := top
      have less := HostTree.dirs_pushed entries place stack
      simp only [spelled, List.map_cons, HostTree.copy_stack] at ran
      rw [items, List.map_append]
      rcases halt_bind ran with stopped | ⟨stack₁, c₁, listed, later⟩
      · exact stops_left (copy_entries_stops stopped)
      · obtain ⟨made, rfl, -⟩ := copy_entries_calls listed
        refine stops_right made (ih _ (by omega) ?_)
        rw [spelled, List.map_append]
        exact later

/-- The creations of a copy, in their order. -/
def copied_by : Host → List Request
  | .dir entries => (items (Host.dirs (.dir entries)) [(entries, [])]).map request
  | _ => []

/-- A copy that stops has not begun, or it has made its creations up to the one
    that stopped. -/
theorem populate_stops {host : Host} (ran : halt ((HostTree.populate_from_host_tree host).run c) = some ended) :
    ended = some c ∨ Stops (copied_by host) c.fs (ended.map (·.fs)) := by
  cases host with
  | dir entries => exact .inr (copy_stack_stops [(entries, [])] (Nat.le_refl _) ran)
  | file => cases ran; exact .inl rfl
  | symlink => cases ran; exact .inl rfl
  | special => cases ran; exact .inl rfl
end

/-! ### What a line does -/

/-- The creations, one after another. -/
def Creates : FileTree → List Request → FileTree → Prop := Run fun t r t' => ∃ n, Does t r (some n) t'

section
variable {κ : Type} {w : World κ} {k : κ}

def makes_at (w : World κ) (image_path : Text) (parsed : Except Text Config) : Option (κ × Config) :=
  match parsed, w.locate image_path with
  | .ok config, .ok k => some (k, config)
  | _, _ => none
/-- The file that a line makes anew, and the configuration that it has for it. -/
def makes (w : World κ) (name : Text) (args : List Text) : Option (κ × Config) :=
  if name = text "format" then
    match args with
    | host_path :: flags => makes_at w host_path (parse_flags format_flags Config.default flags)
    | [] => none
  else if name = text "build-from-tree" then
    match args with
    | _ :: image_path :: flags => makes_at w image_path (parse_flags build_flags Config.default flags)
    | _ => none
  else none
/-- What a line creates. -/
def requests (w : World κ) (name : Text) (args : List Text) : List Request :=
  if name = text "touch" then
    match args with
    | _ :: vfs_path :: content :: _ => [.create_file vfs_path (ofList content)]
    | _ => []
  else if name = text "build-from-tree" then
    match args with
    | host_dir :: _ =>
      match w.tree host_dir with
      | .ok (_, host) => copied_by host
      | .error _ => []
    | [] => []
  else []


theorem makes_format (host_path : Text) (flags : List Text) : makes w (text "format") (host_path :: flags) =
    makes_at w host_path (parse_flags format_flags Config.default flags) := if_pos rfl
theorem build_other : text "build-from-tree" ≠ text "format" ∧ text "build-from-tree" ≠ text "touch" := by decide
theorem makes_build (host_dir image_path : Text) (flags : List Text) :
    makes w (text "build-from-tree") (host_dir :: image_path :: flags) =
      makes_at w image_path (parse_flags build_flags Config.default flags) :=
  (if_neg build_other.1).trans (if_pos rfl)
theorem makes_at_some {image_path : Text} {parsed : Except Text Config} {config : Config} (settled : parsed = .ok config)
    (located : w.locate image_path = .ok k) : makes_at w image_path parsed = some (k, config) := by
  simp only [makes_at, settled, located]
theorem makes_at_unparsed {image_path : Text} {parsed : Except Text Config} (refused : ∀ config, parsed ≠ .ok config) :
    makes_at w image_path parsed = none := by
  cases parsed with
  | ok config => exact absurd rfl (refused config)
  | error e => rfl
theorem makes_at_unlocated {image_path : Text} {parsed : Except Text Config} (refused : ∀ k, w.locate image_path ≠ .ok k) :
    makes_at w image_path parsed = none := by
  cases parsed with
  | error e => rfl
  | ok config =>
    cases located : w.locate image_path with
    | ok k => exact absurd located (refused k)
    | error e => simp only [makes_at, located]
theorem requests_build (host_dir image_path : Text) (flags : List Text) {host_root : Text} {host : Host}
    (there : w.tree host_dir = .ok (host_root, host)) :
    requests w (text "build-from-tree") (host_dir :: image_path :: flags) = copied_by host :=
  (if_neg build_other.2).trans ((if_pos rfl).trans (by simp only [there]))

variable [DecidableEq κ]

/-- What a line does to the trees of the files. -/
inductive Turns (w : World κ) (ts : κ → Option FileTree) : List Text × ExitCode → (κ → Option FileTree) → Prop
  | usage : Turns w ts ([], .SUCCESS) ts
  | quiet {name : Text} {args : List Text} {code : ExitCode}
      (other : name ∉ [text "format", text "touch", text "build-from-tree"]) : Turns w ts (name :: args, code) ts
  | refused {name : Text} {args : List Text} (none : makes w name args = none) : Turns w ts (name :: args, .FAILURE) ts
  | emptied {name : Text} {args : List Text} {k : κ} {config : Config} {e : Ext4Error}
      (makes : makes w name args = some (k, config)) (refused : Layout.from_config config = .error (.err e)) :
      Turns w ts (name :: args, .FAILURE) (update ts k none)
  | formatted {args : List Text} {k : κ} {config : Config} (makes : makes w (text "format") args = some (k, config)) :
      Turns w ts (text "format" :: args, .SUCCESS) (update ts k (some bare))
  | touched {host_path vfs_path content : Text} {rest : List Text} {k : κ} {t t' : FileTree} {n : UInt32}
      (located : w.locate host_path = .ok k) (shown : ts k = some t)
      (does : Does t (.create_file vfs_path (ofList content)) (some n) t') :
      Turns w ts (text "touch" :: host_path :: vfs_path :: content :: rest, .SUCCESS) (update ts k (some t'))
  | built {args : List Text} {k : κ} {config : Config} {t : FileTree}
      (makes : makes w (text "build-from-tree") args = some (k, config))
      (creates : Creates bare (requests w (text "build-from-tree") args) t) :
      Turns w ts (text "build-from-tree" :: args, .SUCCESS) (update ts k (some t))
  -- A copy that stops leaves what it has created.
  | unbuilt {args : List Text} {k : κ} {config : Config} {made : List Request} {t : FileTree}
      (makes : makes w (text "build-from-tree") args = some (k, config))
      (begun : made <+: requests w (text "build-from-tree") args) (creates : Creates bare made t) :
      Turns w ts (text "build-from-tree" :: args, .FAILURE) (update ts k (some t))

/-- The blocks of what is created can be counted. -/
def Countable : Request → Prop
  | .create_file _ data => data.size ≤ 2048 * 4294967295
  | .mkdir _ | .symlink _ _ => True
  | _ => False
/-- A configuration that is refused, or of an image that its bitmaps cover. -/
def Proportioned (config : Config) : Prop := Calls.Small config ∨ ∃ e, Layout.from_config config = .error (.err e)
/-- The lines that are followed. -/
def Sane (w : World κ) : List Text → Prop
  | [] => True
  | name :: args => (∀ k config, makes w name args = some (k, config) → Proportioned config) ∧
    ∀ r ∈ requests w name args, Countable r

/-- A line, and the host while it runs. -/
structure Line (κ : Type) where
  world : World κ
  words : List Text
  code : ExitCode

/-- One line of the program. -/
def Ran (m : Machine κ) (line : Line κ) (m' : Machine κ) : Prop :=
  Sane line.world line.words ∧ ∃ program, (main line.world (program :: line.words)).run m = .ok line.code m'
/-- What it does to the trees of the files. -/
def Turned (ts : κ → Option FileTree) (line : Line κ) : (κ → Option FileTree) → Prop :=
  Turns line.world ts (line.words, line.code)
end

/-! ### The calls of a line -/

section
variable {κ : Type} [DecidableEq κ] {w : World κ} {m : Machine κ} {fs fs' : Filesystem} {k : κ} {α : Type} {t : FileTree}
  {name host_path : Text} {args : List Text} {code : ExitCode}

theorem admissible_of_countable (stored : Stored fs t) {r : Request} (countable : Countable r) : Admissible fs r := by
  obtain ⟨⟨config, g, small, whole, v, N, holds, -⟩, -⟩ := stored
  cases r with
  | create_file path data =>
    have countable : data.size ≤ 2048 * 4294967295 := countable
    rw [Admissible, holds.static'.block_size]
    have few : div_ceil data.size g.block_size ≤ 4294967295 := by
      rw [div_ceil]
      rcases whole.known with size | size <;> simp only [size] <;> omega
    rcases whole.known with size | size <;> exact .inr ⟨by omega, by omega⟩
  | mkdir => trivial
  | symlink => trivial
  | _ => exact countable.elim

/-- A call on an image that has been kept leaves one that has been kept. -/
theorem call_stored (stored : Stored fs t) {r : Request} (lets : Admissible fs r) :
    ((execute r).run fs).Within (fun answer fs' => ∃ t', Shows t (.returned r answer) t' ∧ Stored fs' t')
      fun _ fs' => ∃ t', Shows t (.failed r) t' ∧ Stored fs' t' := by
  obtain ⟨⟨config, g, small, whole, durable⟩, rfl⟩ := stored
  have known := whole.known
  cases ran : (execute r).run fs with
  | ok answer fs' =>
    obtain ⟨shows, durable'⟩ := occurs_shows (by omega) durable (.returned lets ran)
    exact ⟨_, shows, ⟨config, g, small, whole, durable'⟩, rfl⟩
  | err e fs' =>
    obtain ⟨shows, durable'⟩ := occurs_shows (by omega) durable (.failed lets ran)
    exact ⟨_, shows, ⟨config, g, small, whole, durable'⟩, rfl⟩
  | panic => trivial

theorem shows_created {r : Request} (countable : Countable r) {answer : Option UInt32} {t' : FileTree}
    (shows : Shows t (.returned r answer) t') : ∃ n, answer = some n ∧ Does t r (some n) t' := by
  cases shows with
  | does does =>
    cases does with
    | create_file names free unused => exact ⟨_, rfl, .create_file names free unused⟩
    | mkdir names free unused => exact ⟨_, rfl, .mkdir names free unused⟩
    | symlink names free unused => exact ⟨_, rfl, .symlink names free unused⟩
    | _ => exact countable.elim
  | resized => exact countable.elim
  | set sets => cases r <;> first | exact countable.elim | exact sets.elim
theorem shows_uncreated {r : Request} (countable : Countable r) {t' : FileTree} (shows : Shows t (.failed r) t') : t' = t := by
  cases shows with
  | failed fails =>
    cases fails with
    | unchanged => rfl
    | lost => exact countable.elim
theorem shows_metadata {path : List UInt8} {r : Request} (sets : Sets path r) {answer : Option UInt32} {t' : FileTree}
    (shows : Shows t (.returned r answer) t') : t' = t := by
  cases shows with
  | does does => cases does <;> exact sets.elim
  | resized => exact sets.elim
  | set => rfl
theorem shows_unset {path : List UInt8} {r : Request} (sets : Sets path r) {t' : FileTree} (shows : Shows t (.failed r) t') :
    t' = t := by
  cases shows with
  | failed fails =>
    cases fails with
    | unchanged => rfl
    | lost => exact sets.elim

/-- Creations in a row. -/
theorem after_creates {requests : List Request} (stored : Stored fs t) (countable : ∀ r ∈ requests, Countable r)
    (made : after requests fs = some fs') : ∃ t', Creates t requests t' ∧ Stored fs' t' := by
  induction requests generalizing fs t with
  | nil =>
    cases made
    exact ⟨t, .start, stored⟩
  | cons r requests ih =>
    have first := countable r (List.mem_cons_self ..)
    obtain ⟨answer, mid, ran, made⟩ := after_cons_some made
    obtain ⟨t₁, shows, stored₁⟩ := (call_stored stored (admissible_of_countable stored first)).ok ran
    obtain ⟨n, -, does⟩ := shows_created first shows
    obtain ⟨t', creates, stored'⟩ := ih stored₁ (fun r member => countable r (List.mem_cons_of_mem _ member)) made
    exact ⟨t', Run.append (.single ⟨n, does⟩) creates, stored'⟩
/-- Creations that stop. -/
theorem stops_creates {requests : List Request} (stored : Stored fs t) (countable : ∀ r ∈ requests, Countable r)
    (stops : Stops requests fs (some fs')) : ∃ made t', made <+: requests ∧ Creates t made t' ∧ Stored fs' t' := by
  obtain ⟨made, r, rest, mid, rfl, ran, stopped⟩ := stops
  obtain ⟨e, failed⟩ := halt_err stopped
  obtain ⟨t', creates, stored'⟩ := after_creates stored (fun r member => countable r (List.mem_append_left _ member)) ran
  have last := countable r (List.mem_append_right _ (List.mem_cons_self ..))
  obtain ⟨t₁, shows, stored₁⟩ := (call_stored stored' (admissible_of_countable stored' last)).err failed
  cases shows_uncreated last shows
  exact ⟨made, _, List.prefix_append .., creates, stored₁⟩

/-! ### The steps of a command -/

section
variable {β : Type} {post : β → Machine κ → Prop} {abort : Text → Machine κ → Prop}

omit [DecidableEq κ] in
theorem within_locate {host_path : Text} {post : κ → Machine κ → Prop} (found : ∀ k, w.locate host_path = .ok k → post k m)
    (refused : (∀ k, w.locate host_path ≠ .ok k) → ∀ e, abort e m) :
    ((locate_file w host_path).run m).Within post abort := by
  rw [locate_file, run_lift]
  cases located : w.locate host_path with
  | ok k => exact found k located
  | error e => exact refused (fun k same => by rw [located] at same; cases same) _
omit [DecidableEq κ] in
theorem within_number {what : String} {arg : Text} {post : UInt32 → Machine κ → Prop} (parsed : ∀ n, post n m)
    (refused : ∀ e, abort e m) : ((number w what arg).run m).Within post abort := by
  rw [number, run_lift]
  exact within_ofRes (fun n _ => parsed n) fun e _ => refused e
omit [DecidableEq κ] in
/-- Opening gives the filesystem of an image that has been kept. -/
theorem within_open_fs {host_path : Text} (sound : Sound m) {post : κ × Filesystem → Machine κ → Prop}
    (opens : ∀ k fs t, w.locate host_path = .ok k → pictures m k = some t → open_image fs.reader = .ok fs → Stored fs t →
      post (k, fs) m)
    (refused : ∀ e, abort e m) : ((open_fs w host_path).run m).Within post abort := by
  rw [open_fs, run_bind, within_andThen]
  refine within_locate (fun k located => ?_) fun _ => refused
  rw [run_bind, within_andThen, read_image, run_reads]
  refine within_ofRes (fun image there => ?_) fun e _ => refused e
  rw [run_bind, within_andThen, run_lift]
  refine within_ofRes (fun fs opened => ?_) fun e _ => refused e
  rw [liftErr_eq_ok] at opened
  have here : m.files k = some image := by
    cases file : m.files k with
    | none => rw [file] at there; cases there
    | some image' => rw [file] at there; cases there; rfl
  have reader : fs.reader = image := (Decoders.opened_of opened).reader
  subst reader
  refine opens k fs (tree fs) located ?_ opened ⟨sound k _ here fs opened, rfl⟩
  rw [pictures, here]
  simp only [shows, Option.bind_some, opened]
theorem within_on_image {call : Call β} {complaint : Ext4Error → Text}
    (ends : (call.run fs).Within (fun a fs' => post a (m.store k fs'.reader))
      fun e fs' => abort (complaint e) (m.store k fs'.reader)) :
    ((on_image k fs complaint call).run m).Within post abort := by
  simp only [on_image]
  generalize call.run fs = result at ends
  cases result with
  | ok a fs' => exact ends
  | err e fs' => exact ends
  | panic => trivial
theorem within_numbered {call : Call UInt32} {post : Option UInt32 → Filesystem → Prop} {abort : Ext4Error → Filesystem → Prop}
    (ends : ((numbered call).run fs).Within post abort) : (call.run fs).Within (fun n fs' => post (some n) fs') abort := by
  rw [numbered, run_bind] at ends
  generalize call.run fs = result at ends
  cases result <;> exact ends
theorem within_silent {call : Call Unit} {post : Option UInt32 → Filesystem → Prop} {abort : Ext4Error → Filesystem → Prop}
    (ends : ((silent call).run fs).Within post abort) : (call.run fs).Within (fun _ fs' => post none fs') abort := by
  rw [silent, run_bind] at ends
  generalize call.run fs = result at ends
  cases result <;> exact ends
end

/-! ### The commands -/

/-- The files show what they showed, and can be relied on. -/
def Kept (m m' : Machine κ) : Prop := pictures m' = pictures m ∧ Sound m'

/-- The metadata of an inode are changed in the file of an image. -/
theorem within_metadata {path : List UInt8} {r : Request} {call : Call Unit} {complaint : Ext4Error → Text} (sound : Sound m)
    (stored : Stored fs t) (shown : pictures m k = some t) (sets : Sets path r) (same : execute r = silent call) :
    ((on_image k fs complaint call).run m).Within (fun _ => Kept m) fun _ => Kept m := by
  have lets : Admissible fs r := by cases r <;> trivial
  have kept : ∀ {fs'}, Stored fs' t → Kept m (m.store k fs'.reader) := fun stored' => by
    obtain ⟨pictured, sound'⟩ := stored'.store (k := k) sound
    exact ⟨by rw [pictured, ← shown, Function.update_eq_self], sound'⟩
  have ends := call_stored stored lets
  rw [same] at ends
  refine within_on_image ((within_silent ends).mono ?_ ?_)
  · rintro - fs' ⟨t', shows, stored'⟩
    cases shows_metadata sets shows
    exact kept stored'
  · rintro e fs' ⟨t', shows, stored'⟩
    cases shows_unset sets shows
    exact kept stored'

theorem metadata_keeps {path : List UInt8} {r : Request} {call : Call Unit} {complaint : Ext4Error → Text} {line : Text}
    (sound : Sound m) (host_path : Text) (sets : Sets path r) (same : execute r = silent call) :
    (Prog.run (do
      let (k, fs) ← open_fs w host_path
      on_image k fs complaint call
      writeln line) m).Within (fun _ => Kept m) fun _ => Kept m := by
  rw [run_bind, within_andThen]
  refine within_open_fs sound (fun k fs t _ shown _ stored => ?_) fun _ => ⟨rfl, sound⟩
  rw [run_bind, within_andThen]
  exact (within_metadata sound stored shown sets same).mono (fun _ _ kept => kept) fun _ _ kept => kept

theorem cmd_chmod_keeps (sound : Sound m) (args : List Text) :
    ((cmd_chmod w args).run m).Within (fun _ => Kept m) fun _ => Kept m := by
  have nothing : Kept m m := ⟨rfl, sound⟩
  rcases args with _ | ⟨host_path, _ | ⟨vfs_path, _ | ⟨arg, rest⟩⟩⟩
  · exact nothing
  · exact nothing
  · exact nothing
  · rw [cmd_chmod, run_bind, within_andThen, run_lift]
    refine within_ofRes (fun mode _ => ?_) fun _ _ => nothing
    exact metadata_keeps (r := .chmod vfs_path mode) sound host_path rfl rfl
theorem cmd_chown_keeps (sound : Sound m) (args : List Text) :
    ((cmd_chown w args).run m).Within (fun _ => Kept m) fun _ => Kept m := by
  have nothing : Kept m m := ⟨rfl, sound⟩
  rcases args with _ | ⟨host_path, _ | ⟨vfs_path, _ | ⟨uid, _ | ⟨gid, rest⟩⟩⟩⟩
  · exact nothing
  · exact nothing
  · exact nothing
  · exact nothing
  · rw [cmd_chown, run_bind, within_andThen]
    refine within_number (fun uid => ?_) fun _ => nothing
    rw [run_bind, within_andThen]
    refine within_number (fun gid => ?_) fun _ => nothing
    exact metadata_keeps (r := .chown vfs_path uid gid) sound host_path rfl rfl
theorem cmd_utime_keeps (sound : Sound m) (args : List Text) :
    ((cmd_utime w args).run m).Within (fun _ => Kept m) fun _ => Kept m := by
  have nothing : Kept m m := ⟨rfl, sound⟩
  rcases args with _ | ⟨host_path, _ | ⟨vfs_path, _ | ⟨atime, _ | ⟨mtime, rest⟩⟩⟩⟩
  · exact nothing
  · exact nothing
  · exact nothing
  · exact nothing
  · rw [cmd_utime, run_bind, within_andThen]
    refine within_number (fun atime => ?_) fun _ => nothing
    rw [run_bind, within_andThen]
    refine within_number (fun mtime => ?_) fun _ => nothing
    exact metadata_keeps (r := .utime vfs_path atime mtime) sound host_path rfl rfl
omit [DecidableEq κ] in
theorem cmd_cat_keeps (sound : Sound m) (args : List Text) :
    ((cmd_cat w args).run m).Within (fun _ => Kept m) fun _ => Kept m := by
  have nothing : Kept m m := ⟨rfl, sound⟩
  rcases args with _ | ⟨host_path, _ | ⟨vfs_path, rest⟩⟩
  · exact nothing
  · exact nothing
  · simp only [cmd_cat, run_bind, within_andThen, run_lift]
    refine within_open_fs sound (fun k fs t _ shown _ stored => ?_) fun _ => nothing
    refine within_ofRes (fun n _ => ?_) fun _ _ => nothing
    refine within_ofRes (fun inode _ => ?_) fun _ _ => nothing
    exact within_ofRes (fun bytes _ => nothing) fun _ _ => nothing
omit [DecidableEq κ] in
theorem cmd_inspect_keeps (sound : Sound m) (args : List Text) :
    ((cmd_inspect w args).run m).Within (fun _ => Kept m) fun _ => Kept m := by
  have nothing : ∀ out, Kept m { m with out } := fun _ => ⟨rfl, sound⟩
  cases args with
  | nil => exact nothing _
  | cons host_path rest =>
    simp only [cmd_inspect, run_bind, within_andThen, run_lift, writeln, print, run_change, within_ok]
    refine within_open_fs sound (fun k fs t _ shown _ stored => ?_) fun _ => nothing _
    refine within_ofRes (fun root _ => ?_) fun _ _ => nothing _
    exact within_ofRes (fun entries _ => nothing _) fun _ _ => nothing _

/-- A file is made anew for an image. -/
theorem within_make_image {host_path : Text} {config : Config} {post : κ → Machine κ → Prop} {abort : Text → Machine κ → Prop}
    (proportioned : ∀ k, w.locate host_path = .ok k → Proportioned config) (sound : Sound m)
    (made : ∀ k fs, w.locate host_path = .ok k → open_image fs.reader = .ok fs → Stored fs bare → post k (m.store k fs.reader))
    (emptied : ∀ k e e' m', w.locate host_path = .ok k → Layout.from_config config = .error (.err e) →
      pictures m' = update (pictures m) k none → Sound m' → abort e' m')
    (refused : (∀ k, w.locate host_path ≠ .ok k) → ∀ e, abort e m) :
    ((make_image w host_path config).run m).Within post abort := by
  rw [make_image, run_bind, within_andThen]
  refine within_locate (fun k located => ?_) refused
  simp only [run_bind, run_change, andThen_ok, within_andThen, run_lift]
  rcases proportioned k located with small | ⟨e, out⟩
  · cases laid : Layout.from_config config with
    | error fault =>
      rw [format, laid, res_bind_error]
      cases fault with
      | err e =>
        obtain ⟨pictured, sound'⟩ := store_empty (k := k) sound
        exact emptied k e _ _ located laid pictured sound'
      | panic => trivial
    | ok layout =>
      obtain ⟨image, ran, opened⟩ := fresh_opened small laid
      obtain ⟨g, whole, durable, first⟩ := opened_durable small ⟨image, ran, opened⟩
      have reader : (fresh config layout).reader = image := (Decoders.opened_of opened).reader
      have stored : Stored (fresh config layout) bare := ⟨⟨config, g, small, whole, durable⟩, first⟩
      rw [ran, liftErr_ok, ofRes_ok, within_ok, run_pure, within_ok, store_store, ← reader]
      exact made k (fresh config layout) located (reader ▸ opened) stored
  · rw [format, out, res_bind_error]
    obtain ⟨pictured, sound'⟩ := store_empty (k := k) sound
    exact emptied k e _ _ located out pictured sound'

/-- What a line leads to. -/
def Leads (w : World κ) (m : Machine κ) (line : List Text × ExitCode) (m' : Machine κ) : Prop :=
  Turns w (pictures m) line (pictures m') ∧ Sound m'

theorem leads_kept {line : List Text × ExitCode} {m' : Machine κ} (turns : Turns w (pictures m) line (pictures m))
    (kept : Kept m m') : Leads w m line m' := by
  obtain ⟨pictured, sound⟩ := kept
  exact ⟨pictured ▸ turns, sound⟩

theorem cmd_format_leads (sane : Sane w (text "format" :: args)) (sound : Sound m) :
    ((cmd_format w args).run m).Within (fun _ => Leads w m (text "format" :: args, .SUCCESS))
      fun _ => Leads w m (text "format" :: args, .FAILURE) := by
  have refused : makes w (text "format") args = none → Leads w m (text "format" :: args, .FAILURE) m :=
    fun none => ⟨.refused none, sound⟩
  cases args with
  | nil => exact refused rfl
  | cons host_path flags =>
    rw [makes_format] at refused
    rw [cmd_format, run_bind, within_andThen, run_lift]
    cases settled : parse_flags format_flags Config.default flags with
    | error e => exact refused (makes_at_unparsed fun config same => by rw [settled] at same; cases same)
    | ok config =>
      have makes : ∀ {k}, w.locate host_path = .ok k → makes w (text "format") (host_path :: flags) = some (k, config) :=
        fun located => (makes_format ..).trans (makes_at_some settled located)
      rw [ofRes_ok, within_ok, run_bind, within_andThen]
      refine within_make_image (fun k located => sane.1 k config (makes located)) sound (fun k fs located _ stored => ?_)
        (fun k e _ m' located out pictured sound' => ?_) fun unlocated _ => refused (makes_at_unlocated unlocated)
      · obtain ⟨pictured, sound'⟩ := stored.store (k := k) sound
        have turns : Turns w (pictures m) (text "format" :: host_path :: flags, .SUCCESS) _ := .formatted (makes located)
        exact ⟨pictured ▸ turns, sound'⟩
      · exact ⟨pictured ▸ .emptied (makes located) out, sound'⟩

theorem cmd_touch_leads (sane : Sane w (text "touch" :: args)) (sound : Sound m) :
    ((cmd_touch w args).run m).Within (fun _ => Leads w m (text "touch" :: args, .SUCCESS))
      fun _ => Leads w m (text "touch" :: args, .FAILURE) := by
  have refused : Leads w m (text "touch" :: args, .FAILURE) m := ⟨.refused rfl, sound⟩
  rcases args with _ | ⟨host_path, _ | ⟨vfs_path, _ | ⟨content, rest⟩⟩⟩
  · exact refused
  · exact refused
  · exact refused
  · rw [cmd_touch, run_bind, within_andThen]
    refine within_open_fs sound (fun k fs t located shown _ stored => ?_) fun _ => refused
    have countable := sane.2 (.create_file vfs_path (ofList content)) (List.mem_singleton_self _)
    have ends := call_stored stored (admissible_of_countable stored countable)
    rw [run_bind, within_andThen]
    refine within_on_image ((within_numbered ends).mono ?_ ?_)
    · rintro n fs' ⟨t', shows, stored'⟩
      obtain ⟨_, same, does⟩ := shows_created countable shows
      cases same
      obtain ⟨pictured, sound'⟩ := stored'.store (k := k) sound
      have turns : Turns w (pictures m) (text "touch" :: host_path :: vfs_path :: content :: rest, .SUCCESS) _ :=
        .touched located shown does
      exact ⟨pictured ▸ turns, sound'⟩
    · rintro e fs' ⟨t', shows, stored'⟩
      cases shows_uncreated countable shows
      obtain ⟨pictured, sound'⟩ := stored'.store (k := k) sound
      rw [← shown, Function.update_eq_self] at pictured
      exact leads_kept (.refused rfl) ⟨pictured, sound'⟩

/-- A copy creates what is there, or stops, and warns of what it leaves out. -/
theorem within_populate {host_dir : Text} {host : Host} {host_root : Text} (there : w.tree host_dir = .ok (host_root, host))
    (countable : ∀ r ∈ copied_by host, Countable r) (stored : Stored fs bare) {post : Unit → Machine κ → Prop}
    {abort : Text → Machine κ → Prop}
    (copied : ∀ t fs' warnings, Creates bare (copied_by host) t → Stored fs' t →
      post () ((m.store k fs'.reader).warned w host_root warnings))
    (stopped : ∀ made t fs' warnings e, made <+: copied_by host → Creates bare made t → Stored fs' t →
      abort e ((m.store k fs'.reader).warned w host_root warnings)) :
    ((populate w k fs host_dir).run m).Within post abort := by
  simp only [populate, there]
  cases ran : (HostTree.populate_from_host_tree host).run ⟨fs, []⟩ with
  | ok u c =>
    obtain ⟨entries, rfl, made, -⟩ := populate_calls ran
    obtain ⟨t, creates, stored'⟩ := after_creates stored countable made
    exact copied t c.fs c.warnings creates stored'
  | err e c =>
    have stopped' : halt ((HostTree.populate_from_host_tree host).run ⟨fs, []⟩) = some (some c) := by
      rw [ran]
      rfl
    rcases populate_stops stopped' with same | stops
    · cases same
      exact stopped [] bare _ _ _ (List.nil_prefix) .start stored
    · obtain ⟨made, t, begun, creates, stored'⟩ := stops_creates stored countable stops
      exact stopped made t c.fs c.warnings _ begun creates stored'
  | panic => trivial

theorem cmd_build_leads (sane : Sane w (text "build-from-tree" :: args)) (sound : Sound m) :
    ((cmd_build_from_tree w args).run m).Within (fun _ => Leads w m (text "build-from-tree" :: args, .SUCCESS))
      fun _ => Leads w m (text "build-from-tree" :: args, .FAILURE) := by
  have refused : makes w (text "build-from-tree") args = none → Leads w m (text "build-from-tree" :: args, .FAILURE) m :=
    fun none => ⟨.refused none, sound⟩
  rcases args with _ | ⟨host_dir, _ | ⟨image_path, flags⟩⟩
  · exact refused rfl
  · exact refused rfl
  · rw [makes_build] at refused
    rw [cmd_build_from_tree, run_bind, within_andThen, run_lift]
    cases settled : parse_flags build_flags Config.default flags with
    | error e => exact refused (makes_at_unparsed fun config same => by rw [settled] at same; cases same)
    | ok config =>
      have makes : ∀ {k}, w.locate image_path = .ok k →
          makes w (text "build-from-tree") (host_dir :: image_path :: flags) = some (k, config) :=
        fun located => (makes_build ..).trans (makes_at_some settled located)
      rw [ofRes_ok, within_ok, run_bind, within_andThen]
      refine within_make_image (fun k located => sane.1 k config (makes located)) sound (fun k fs located opened stored => ?_)
        (fun k e _ m' located out pictured sound' => ?_) fun unlocated _ => refused (makes_at_unlocated unlocated)
      · simp only [run_bind, read_image, run_reads, store_same, okOr_some, ofRes_ok, andThen_ok, run_lift, opened, liftErr_ok,
          within_andThen]
        -- Whatever the copy has come to is in the file.
        have reached : ∀ {fs' : Filesystem} {t : FileTree} {code : ExitCode} {m' : Machine κ}, Stored fs' t →
            m'.files = (m.store k fs'.reader).files →
            Turns w (pictures m) (text "build-from-tree" :: host_dir :: image_path :: flags, code)
              (update (pictures m) k (some t)) →
            Leads w m (text "build-from-tree" :: host_dir :: image_path :: flags, code) m' := by
          intro fs' t code m' stored' same turns
          obtain ⟨pictured, sound'⟩ := stored'.store (k := k) sound
          rw [← pictures_files same] at pictured
          exact ⟨pictured ▸ turns, sound_files same sound'⟩
        cases there : w.tree host_dir with
        | error e =>
          simp only [populate, there]
          exact reached stored rfl (.unbuilt (makes located) List.nil_prefix .start)
        | ok found =>
          obtain ⟨host_root, host⟩ := found
          have created := requests_build (w := w) host_dir image_path flags there
          refine within_populate there (fun r member => sane.2 r (created ▸ member)) stored
            (fun t fs' warnings creates stored' => ?_) fun made t fs' warnings e begun creates stored' => ?_
          · rw [store_store]
            exact reached stored' rfl (.built (makes located) (created ▸ creates))
          · rw [store_store]
            exact reached stored' rfl (.unbuilt (makes located) (created ▸ begun) creates)
      · exact ⟨pictured ▸ .emptied (makes located) out, sound'⟩

/-! ### Lines of commands -/

theorem dispatch_leads (sane : Sane w (name :: args)) (sound : Sound m) :
    ((dispatch w name args).run m).Within (fun _ => Leads w m (name :: args, .SUCCESS))
      fun _ => Leads w m (name :: args, .FAILURE) := by
  have quiet : name ∉ [text "format", text "touch", text "build-from-tree"] → ∀ {r : Ended (Machine κ) Text Unit},
      r.Within (fun _ => Kept m) (fun _ => Kept m) →
      r.Within (fun _ => Leads w m (name :: args, .SUCCESS)) fun _ => Leads w m (name :: args, .FAILURE) :=
    fun other _ keeps => keeps.mono (fun _ _ kept => leads_kept (.quiet other) kept) fun _ _ kept => leads_kept (.quiet other) kept
  have nothing : ∀ err, Kept m { m with err } := fun _ => ⟨rfl, sound⟩
  rw [dispatch]
  split
  · subst name
    exact cmd_format_leads sane sound
  rename_i format
  split
  · subst name
    exact quiet (by decide) (cmd_inspect_keeps sound args)
  split
  · subst name
    exact cmd_touch_leads sane sound
  rename_i touch
  split
  · subst name
    exact quiet (by decide) (cmd_cat_keeps sound args)
  split
  · subst name
    exact quiet (by decide) (cmd_chmod_keeps sound args)
  split
  · subst name
    exact quiet (by decide) (cmd_chown_keeps sound args)
  split
  · subst name
    exact quiet (by decide) (cmd_utime_keeps sound args)
  split
  · subst name
    exact cmd_build_leads sane sound
  rename_i build
  have other : name ∉ [text "format", text "touch", text "build-from-tree"] := by simp [format, touch, build]
  split
  · exact quiet other (nothing _)
  · exact quiet other (nothing _)

/-- One line turns the trees of the files as it says. -/
theorem ran_leads {line : Line κ} {m' : Machine κ} (sound : Sound m) (ran : Ran m line m') :
    Leads line.world m (line.words, line.code) m' := by
  obtain ⟨w, words, code⟩ := line
  obtain ⟨sane, program, ran⟩ := ran
  cases argued : Commands.args (program :: words) with
  | none =>
    simp only [main, argued] at ran
    cases ran
  | some argv =>
    obtain ⟨rfl, -⟩ := args_some argued
    simp only [main, argued, List.tail_cons] at ran
    cases words with
    | nil =>
      cases ran
      exact ⟨.usage, sound⟩
    | cons name args =>
      have leads := dispatch_leads (m := m) sane sound
      dsimp only at ran
      generalize (dispatch w name args).run m = result at leads ran
      cases result with
      | ok u m₁ =>
        cases ran
        exact leads
      | err e m₁ =>
        cases ran
        exact leads
      | panic => cases ran

theorem lines_follow : Follows (Ran (κ := κ)) Turned fun m ts => Sound m ∧ pictures m = ts := by
  rintro m ts line m' ⟨sound, rfl⟩ ran
  obtain ⟨turns, sound'⟩ := ran_leads sound ran
  exact ⟨_, turns, sound', rfl⟩

/-- A file is formatted. -/
theorem format_runs (program host_path : Text) (flags : List Text) {config : Config} {image : Bytes}
    (settled : parse_flags format_flags Config.default flags = .ok config) (located : w.locate host_path = .ok k)
    (formatted : format (zeros 0) config = .ok image)
    (sane : Sane w (text "format" :: host_path :: flags)) (spelled : Spelled (program :: text "format" :: host_path :: flags)) :
    ∃ m', Ran m ⟨w, text "format" :: host_path :: flags, .SUCCESS⟩ m' ∧ m'.files k = some image := by
  have ran : ∃ m', (cmd_format w (host_path :: flags)).run m = .ok () m' ∧ m'.files k = some image := by
    simp only [cmd_format, make_image, locate_file, settled, located, formatted, writeln, print, liftErr_ok, run_bind, run_lift,
      run_change, run_pure, ofRes_ok, andThen_ok]
    exact ⟨_, rfl, store_same ..⟩
  obtain ⟨m', ran, there⟩ := ran
  have format : dispatch w (text "format") (host_path :: flags) = cmd_format w (host_path :: flags) := if_pos rfl
  exact ⟨m', ⟨sane, program, by simp only [main, args_spelled spelled, List.tail_cons, format, ran]⟩, there⟩
/-- A file is created in an image. -/
theorem touch_runs (program host_path vfs_path content : Text) {n : UInt32} (located : w.locate host_path = .ok k)
    (there : m.files k = some fs.reader) (opened : open_image fs.reader = .ok fs)
    (created : (create_file vfs_path (ofList content)).run fs = .ok n fs')
    (sane : Sane w [text "touch", host_path, vfs_path, content])
    (spelled : Spelled [program, text "touch", host_path, vfs_path, content]) :
    ∃ m', Ran m ⟨w, [text "touch", host_path, vfs_path, content], .SUCCESS⟩ m' ∧ m'.files k = some fs'.reader := by
  have ran : ∃ m', (cmd_touch w [host_path, vfs_path, content]).run m = .ok () m' ∧ m'.files k = some fs'.reader := by
    simp only [cmd_touch, open_fs, locate_file, read_image, on_image, located, there, opened, created, writeln, print, liftErr_ok,
      okOr_some, run_bind, run_lift, run_reads, run_change, run_pure, ofRes_ok, andThen_ok]
    exact ⟨_, rfl, store_same ..⟩
  obtain ⟨m', ran, there⟩ := ran
  have touch : dispatch w (text "touch") [host_path, vfs_path, content] = cmd_touch w [host_path, vfs_path, content] :=
    (if_neg (by decide)).trans ((if_neg (by decide)).trans (if_pos rfl))
  exact ⟨m', ⟨sane, program, by simp only [main, args_spelled spelled, List.tail_cons, touch, ran]⟩, there⟩
end

/-- A host of one file, and of a directory with two links. -/
def lone : World Unit where
  locate _ := .ok ()
  absent := text "not found"
  io := text "I/O error"
  debug s := s
  tree _ := .ok (text "/d", .dir (CopiedTree.linked (ofList [116]) [[97], [98]]))
def idle : Machine Unit where
  files _ := none
  out := []
  err := []
def format_line : Line Unit := ⟨lone, [text "format", text "i"], .SUCCESS⟩
def touch_line : Line Unit := ⟨lone, [text "touch", text "i", text "/a", text "hi"], .SUCCESS⟩

theorem idle_sound : Sound idle := fun _ _ there => nomatch there
theorem sane_format : Sane lone [text "format", text "i"] := by
  constructor
  · intro k config made
    rw [makes_format] at made
    cases made
    exact .inl default_small
  · intro r member
    cases member
theorem sane_touch : Sane lone [text "touch", text "i", text "/a", text "hi"] := by
  constructor
  · intro k config made
    cases made
  · intro r member
    rw [List.mem_singleton.mp member]
    show (ofList (text "hi")).size ≤ _
    decide
theorem lone_lines : ∃ m m', Ran idle format_line m ∧ Ran m touch_line m' := by
  obtain ⟨image, formatted, opened⟩ := id default_opened
  have reader : (fresh Config.default defaultLayout).reader = image := (Decoders.opened_of opened).reader
  obtain ⟨m, ran, there⟩ := format_runs (w := lone) (m := idle) (k := ()) (text "mkext4-rs") (text "i") [] rfl rfl formatted
    sane_format (spelled_texts ["mkext4-rs", "format", "i"])
  obtain ⟨g, v, whole, blocks, clear, row⟩ :=
    Progress.fresh_row default_small (show Layout.from_config Config.default = .ok defaultLayout from rfl)
  have numbers : g.per_group = 32 := whole.per_group
  have total : g.total = 16 := whole.total
  have size : g.block_size = 4096 := whole.block_size
  have one : div_ceil (ofList (text "hi")).size g.block_size = 1 := by rw [size]; decide
  obtain ⟨n, fs', v', N', x, created, -⟩ := row.file whole (by rw [numbers]; decide) (show Nodes.Proper [97] by decide)
    (by decide) (by decide) (by decide) (show div_ceil (ofList (text "hi")).size g.block_size ≤ 32768 by rw [one]; decide)
    (by rw [one]; exact ⟨7, by rw [blocks, total, size]; decide, fun j low high => clear j (by omega) low⟩)
  obtain ⟨m', touched, -⟩ := touch_runs (w := lone) (m := m) (k := ()) (text "mkext4-rs") (text "i") (text "/a") (text "hi") rfl
    (by rw [there, reader]) (reader ▸ opened) created sane_touch (spelled_texts ["mkext4-rs", "touch", "i", "/a", "hi"])
  exact ⟨m, m', ran, touched⟩

section
variable {κ : Type} [DecidableEq κ] {w : World κ} {m m' : Machine κ} {k : κ}

/-- Whatever lines are run, one after another, and however each of them ends,
    the trees of the files are turned as the lines say. -/
theorem lines_refine {lines : List (Line κ)} {m' : Machine κ} (sound : Sound m) (run : Run Ran m lines m') :
    Run Turned (pictures m) lines (pictures m') ∧ Sound m' := by
  obtain ⟨ts, run', sound', rfl⟩ := run.simulates lines_follow ⟨sound, rfl⟩
  exact ⟨run', sound'⟩
/-- An image is formatted, and a file is created in it. -/
theorem touch_refines : ∃ m', Run Ran idle [format_line, touch_line] m' ∧
    Run Turned (pictures idle) [format_line, touch_line] (pictures m') ∧ Sound m' := by
  obtain ⟨m, m', formatted, touched⟩ := lone_lines
  have run : Run Ran idle ([format_line] ++ [touch_line]) m' := .next (.single formatted) touched
  exact ⟨m', run, lines_refine idle_sound run⟩

/-- After any lines, what a file shows has sound bitmaps and directories. -/
theorem lines_sound {lines : List (Line κ)} {m' : Machine κ} (sound : Sound m) (run : Run Ran m lines m')
    {t : FileTree} (shown : pictures m' k = some t) : ∃ image fs config, m'.files k = some image ∧
      open_image image = .ok fs ∧ tree fs = t ∧ Invariants.Allocated config fs ∧ Invariants.Checked fs := by
  obtain ⟨-, sound'⟩ := lines_refine sound run
  rw [pictures, shows, Option.bind_eq_some_iff] at shown
  obtain ⟨image, there, opens⟩ := shown
  cases opened : open_image image with
  | error e => rw [opened] at opens; cases opens
  | ok fs =>
    rw [opened] at opens
    cases opens
    obtain ⟨config, g, small, whole, v, N, holds, consistent, -⟩ := sound' k image there fs opened
    exact ⟨image, fs, config, there, opened, rfl, Invariants.allocated_of_backs whole holds consistent,
      Invariants.checked_of_backs holds consistent⟩
end

/-- The image that the file has been created in is sound. -/
theorem touch_sound : ∃ m' t, Run Ran idle [format_line, touch_line] m' ∧ pictures m' () = some t ∧
    ∃ image fs config, m'.files () = some image ∧ open_image image = .ok fs ∧ tree fs = t ∧ Invariants.Allocated config fs ∧
      Invariants.Checked fs := by
  obtain ⟨m, m', formatted, touched⟩ := lone_lines
  have run : Run Ran idle ([format_line] ++ [touch_line]) m' := .next (.single formatted) touched
  obtain ⟨t, shown⟩ : ∃ t, pictures m' () = some t := by
    obtain ⟨turns, -⟩ := ran_leads (ran_leads idle_sound formatted).2 touched
    rw [touch_line] at turns
    generalize pictures m' = after at turns
    cases turns with
    | quiet other => exact absurd (by decide) other
    | touched _ _ _ => exact ⟨_, Function.update_self ..⟩
  exact ⟨m', t, run, shown, lines_sound idle_sound run shown⟩

end Justext4.CommandRuns
