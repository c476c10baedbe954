import Justext4.CalmCalls
import Justext4.CommandRuns
import Justext4.Headroom

/-!
The program does not panic. While every file holds what a session on a small
image may have left, or what does not open, each command returns or fails and
leaves such files, so that a line that is let always ends with an exit code.
-/
namespace Justext4.CommandEnds
open Justext4 Justext4.Fallible Justext4.Filesystem Justext4.Mkfs Justext4.Numerals Justext4.Display Justext4.Arguments
open Justext4.Commands Bytes
open Justext4.Nodes
open Justext4.Backing
open Justext4.Change (open_node)
open Justext4.Reading
open Justext4.Leaves
open Justext4.Calls
open Justext4.Progress (after after_cons)
open Justext4.Populate (after_cons_some)
open Justext4.HostTree (Host)
open Justext4.Simulation (Run)
open Justext4.Sessions (Sets)
open Justext4.Ledger
open Justext4.Headroom
open Justext4.CommandRuns
open Justext4.CalmCalls

/-! ### What the files hold -/

/-- The filesystem backs a tree of a small image, and counts no more than it leaves. -/
def Lasts (fs : Filesystem) : Prop := ∃ config g, Calls.Small config ∧ Whole config g ∧ Balanced g fs
/-- An image that opens to such a filesystem, if it opens. -/
def Opens (image : Bytes) : Prop := ∀ fs, open_image image = .ok fs → Lasts fs

section
variable {κ : Type} [DecidableEq κ] {w : World κ} {m : Machine κ} {fs : Filesystem} {k : κ}

def Solvent (m : Machine κ) : Prop := ∀ k image, m.files k = some image → Opens image

theorem lasts_opens (lasts : Lasts fs) : Opens fs.reader := by
  obtain ⟨config, g, small, whole, balanced⟩ := lasts
  have known := whole.known
  exact fun fs' opened => ⟨config, g, small, whole, reopened_balanced (by omega) balanced opened⟩
theorem solvent_store (solvent : Solvent m) {image : Bytes} (opens : Opens image) : Solvent (m.store k image) := by
  intro j image' there
  by_cases same : j = k
  · rw [same, store_same] at there
    cases there
    exact opens
  · rw [store_other m same] at there
    exact solvent j image' there

/-! ### Calls on an image -/

theorem call_answers (lasts : Lasts fs) {r : Request} (lets : Admissible fs r) :
    Answers Lasts (fun _ => True) ((execute r).run fs) := by
  obtain ⟨config, g, small, whole, balanced⟩ := lasts
  have known := whole.known
  have large : 2048 ≤ g.block_size := by omega
  rcases execute_answers whole balanced lets with ⟨answer, fs', ran⟩ | ⟨e, fs', ran⟩
  · rw [ran]
    exact ⟨⟨config, g, small, whole, occurs_balanced large balanced (.returned lets ran)⟩, trivial⟩
  · rw [ran]
    exact ⟨config, g, small, whole, occurs_balanced large balanced (.failed lets ran)⟩
theorem answers_numbered {call : Call UInt32} (answers : Answers Lasts (fun _ => True) ((numbered call).run fs)) :
    Answers Lasts (fun _ => True) (call.run fs) := by
  rw [numbered, run_bind] at answers
  cases ran : call.run fs <;> rw [ran] at answers <;> exact answers
theorem answers_silent {call : Call Unit} (answers : Answers Lasts (fun _ => True) ((silent call).run fs)) :
    Answers Lasts (fun _ => True) (call.run fs) := by
  rw [silent, run_bind] at answers
  cases ran : call.run fs <;> rw [ran] at answers <;> exact answers

theorem lets_countable (lasts : Lasts fs) {r : Request} (countable : Countable r) : Admissible fs r := by
  obtain ⟨config, g, small, whole, v, N, holds, consistent, kept⟩ := lasts
  exact admissible_of_countable ⟨⟨config, g, small, whole, v, N, holds, consistent, kept.recorded⟩, rfl⟩ countable
theorem lasts_after {requests : List Request} {fs' : Filesystem} (lasts : Lasts fs) (countable : ∀ r ∈ requests, Countable r)
    (made : after requests fs = some fs') : Lasts fs' := by
  induction requests generalizing fs with
  | nil =>
    cases made
    exact lasts
  | cons r requests ih =>
    obtain ⟨answer, mid, ran, made⟩ := after_cons_some made
    have answers := call_answers lasts (lets_countable lasts (countable r (List.mem_cons_self ..)))
    rw [ran] at answers
    exact ih answers.1 (fun r member => countable r (List.mem_cons_of_mem _ member)) made
/-- Creations in a row do not stop in a panic. -/
theorem stops_lasts {requests : List Request} {left : Option Filesystem} (lasts : Lasts fs)
    (countable : ∀ r ∈ requests, Countable r) (stops : Stops requests fs left) : ∃ fs', left = some fs' ∧ Lasts fs' := by
  obtain ⟨made, r, rest, mid, rfl, ran, stopped⟩ := stops
  have lasts' := lasts_after lasts (fun r member => countable r (List.mem_append_left _ member)) ran
  have last := countable r (List.mem_append_right _ (List.mem_cons_self ..))
  have answers := call_answers lasts' (lets_countable lasts' last)
  cases ended : (execute r).run mid with
  | ok answer fs' =>
    rw [ended] at stopped
    cases stopped
  | err e fs' =>
    rw [ended] at stopped answers
    cases stopped
    exact ⟨fs', rfl, answers⟩
  | panic =>
    rw [ended] at answers
    exact answers.elim
theorem populate_answers {host : Host} (lasts : Lasts fs) (countable : ∀ r ∈ copied_by host, Countable r) :
    Answers (fun c => Lasts c.fs) (fun _ => True) ((HostTree.populate_from_host_tree host).run ⟨fs, []⟩) := by
  have stopping : ∀ {ended}, halt ((HostTree.populate_from_host_tree host).run ⟨fs, []⟩) = some ended →
      ∃ c : HostTree.Copy, ended = some c ∧ Lasts c.fs := by
    intro ended stops
    rcases populate_stops stops with same | stops
    · exact ⟨_, same, lasts⟩
    · obtain ⟨fs', same, lasts'⟩ := stops_lasts lasts countable stops
      obtain ⟨c, rfl, rfl⟩ := Option.map_eq_some_iff.mp same
      exact ⟨c, rfl, lasts'⟩
  cases ran : (HostTree.populate_from_host_tree host).run ⟨fs, []⟩ with
  | ok u c =>
    obtain ⟨entries, rfl, made, -⟩ := Populate.populate_calls ran
    exact ⟨lasts_after lasts countable made, trivial⟩
  | err e c =>
    obtain ⟨_, same, lasts'⟩ := stopping (by rw [ran]; rfl)
    cases same
    exact lasts'
  | panic =>
    obtain ⟨_, same, -⟩ := stopping (by rw [ran]; rfl)
    cases same

/-! ### The steps of a command -/

omit [DecidableEq κ] in
theorem calm_locate {host_path : Text} : Calm Solvent (fun k => w.locate host_path = .ok k) (locate_file w host_path) := by
  refine calm_lift ?_ fun k value => ?_
  · cases w.locate host_path <;> simp
  · cases located : w.locate host_path with
    | ok k' => rw [located] at value; cases value; rfl
    | error e => rw [located] at value; cases value
omit [DecidableEq κ] in
theorem calm_read_image {what : String} {host_path : Text} : Calm Solvent Opens (read_image w what host_path k) := by
  refine calm_reads (fun m _ => noPanic_okOr _ _) fun m image solvent there => solvent k image ?_
  cases file : m.files k with
  | none => rw [file] at there; cases there
  | some image' => rw [file] at there; cases there; rfl
omit [DecidableEq κ] in
theorem calm_open {image : Bytes} {f : Ext4Error → Text} (opens : Opens image) :
    Calm (σ := Machine κ) Solvent Lasts (lift (liftErr f (open_image image))) :=
  calm_lift ((noPanic_liftErr _).mpr (Decoders.open_noPanic image)) fun fs opened => opens fs (liftErr_eq_ok.mp opened)
omit [DecidableEq κ] in
theorem calm_open_fs {host_path : Text} : Calm Solvent (fun found => Lasts found.2) (open_fs w host_path) :=
  calm_bind calm_locate fun _ _ => calm_bind calm_read_image fun _ opens => calm_bind (calm_open opens) fun _ lasts =>
    calm_pure lasts
theorem calm_on_image {α : Type} {call : Call α} {complaint : Ext4Error → Text}
    (answers : Answers Lasts (fun _ => True) (call.run fs)) : Calm Solvent (fun _ => True) (on_image k fs complaint call) := by
  constructor
  intro m solvent
  simp only [on_image]
  cases ran : call.run fs with
  | ok a fs' =>
    rw [ran] at answers
    exact ⟨solvent_store solvent (lasts_opens answers.1), trivial⟩
  | err e fs' =>
    rw [ran] at answers
    exact solvent_store solvent (lasts_opens answers)
  | panic =>
    rw [ran] at answers
    exact answers
omit [DecidableEq κ] in
theorem calm_writeln (s : Text) : Calm (σ := Machine κ) Solvent (fun _ => True) (writeln s) :=
  calm_change fun _ solvent => solvent

theorem layout_noPanic (config : Config) : NoPanic (Layout.from_config config) :=
  noPanic_bind (noPanic_ensure _ _) fun _ _ => noPanic_bind (noPanic_ensure _ _) fun _ _ =>
    noPanic_bind (noPanic_ensure _ _) fun _ _ => noPanic_ok _
/-- A file is made anew for an image. -/
theorem calm_make_image {host_path : Text} {config : Config}
    (proportioned : ∀ k, w.locate host_path = .ok k → Proportioned config) :
    Calm Solvent (fun _ => True) (make_image w host_path config) := by
  have empty : Opens (zeros 0) := fun fs opened => absurd opened (empty_closed fs)
  refine calm_bind calm_locate fun k located => calm_bind (calm_change fun m solvent => solvent_store solvent empty) fun _ _ => ?_
  have formatted : ∀ image, format (zeros 0) config = .ok image → Opens image := by
    intro image ran fs opened
    rcases proportioned k located with small | ⟨e, out⟩
    · obtain ⟨g, whole, balanced⟩ := opened_balanced small ⟨image, ran, opened⟩
      exact ⟨config, g, small, whole, balanced⟩
    · rw [format, out, res_bind_error] at ran
      cases ran
  have quiet : NoPanic (format (zeros 0) config) := by
    rcases proportioned k located with small | ⟨e, out⟩
    · cases laid : Layout.from_config config with
      | ok layout =>
        obtain ⟨image, ran, -⟩ := fresh_opened small laid
        rw [ran]
        exact noPanic_ok _
      | error fault =>
        cases fault with
        | err e =>
          rw [format, laid, res_bind_error]
          exact noPanic_err _
        | panic => exact absurd laid (layout_noPanic config)
    · rw [format, out, res_bind_error]
      exact noPanic_err _
  refine calm_bind (calm_lift ((noPanic_liftErr _).mpr quiet) fun image ran => formatted image (liftErr_eq_ok.mp ran)) fun image opens => ?_
  exact calm_bind (calm_change fun m solvent => solvent_store solvent opens) fun _ _ => calm_pure trivial

/-! ### The commands -/

omit [DecidableEq κ] in
theorem calm_fails {α : Type} {known : α → Prop} (message : Text) : Calm (σ := Machine κ) Solvent known (fails message) :=
  calm_lift (noPanic_err _) fun _ value => nomatch value
omit [DecidableEq κ] in
/-- What is parsed is there or is refused. -/
theorem calm_parsed {α δ : Type} {parsed : Except δ α} {r : Res Text α} (taken : ∀ a, parsed = .ok a → r = .ok a)
    (refused : ∀ e, parsed = .error e → ∃ message, r = .error (.err message)) :
    Calm (σ := Machine κ) Solvent (fun a => parsed = .ok a) (lift r) := by
  cases settled : parsed with
  | ok a =>
    rw [taken a settled]
    exact calm_lift (noPanic_ok _) fun a' value => by cases value; rfl
  | error e =>
    obtain ⟨message, same⟩ := refused e settled
    rw [same]
    exact calm_lift (noPanic_err _) fun a' value => nomatch value
omit [DecidableEq κ] in
theorem calm_number (what : String) (arg : Text) : Calm Solvent (fun _ => True) (number w what arg) :=
  calm_lift (by cases parse_u32 arg <;> simp) fun _ _ => trivial

/-- The metadata of an inode are changed in the file of an image. -/
theorem calm_metadata {host_path : Text} {path : List UInt8} {r : Request} {call : Call Unit} {complaint : Ext4Error → Text}
    {line : Text} (sets : Sets path r) (same : execute r = silent call) : Calm Solvent (fun _ => True)
    (do let (k, fs) ← open_fs w host_path; on_image k fs complaint call; writeln line : Command κ Unit) := by
  have lets : ∀ fs, Admissible fs r := fun fs => by cases r <;> trivial
  refine calm_bind calm_open_fs fun (k, fs) lasts => calm_bind (calm_on_image (answers_silent ?_)) fun _ _ => calm_writeln _
  rw [← same]
  exact call_answers lasts (lets fs)

theorem cmd_format_calm {args : List Text} (sane : Sane w (text "format" :: args)) :
    Calm Solvent (fun _ => True) (cmd_format w args) := by
  cases args with
  | nil => exact calm_fails _
  | cons host_path flags =>
    refine calm_bind (calm_parsed (fun config settled => ?_) fun e refused => ?_)
      fun config (settled : parse_flags format_flags Config.default flags = .ok config) => ?_
    · rw [settled]
    · rw [refused]
      exact ⟨e, rfl⟩
    refine calm_bind (calm_make_image fun k located => sane.1 k config ?_) fun _ _ => calm_writeln _
    exact (makes_format ..).trans (makes_at_some settled located)
theorem cmd_touch_calm {args : List Text} (sane : Sane w (text "touch" :: args)) :
    Calm Solvent (fun _ => True) (cmd_touch w args) := by
  rcases args with _ | ⟨host_path, _ | ⟨vfs_path, _ | ⟨content, rest⟩⟩⟩
  · exact calm_fails _
  · exact calm_fails _
  · exact calm_fails _
  · have countable := sane.2 (.create_file vfs_path (ofList content)) (List.mem_singleton_self _)
    refine calm_bind calm_open_fs fun (k, fs) lasts => ?_
    exact calm_bind (calm_on_image (answers_numbered (call_answers lasts (lets_countable lasts countable)))) fun _ _ =>
      calm_writeln _
theorem cmd_chmod_calm (args : List Text) : Calm Solvent (fun _ => True) (cmd_chmod w args) := by
  rcases args with _ | ⟨host_path, _ | ⟨vfs_path, _ | ⟨arg, rest⟩⟩⟩
  · exact calm_fails _
  · exact calm_fails _
  · exact calm_fails _
  · exact calm_bind (calm_lift (by cases parse_mode arg <;> simp) fun _ _ => trivial) fun mode _ =>
      calm_metadata (r := .chmod vfs_path mode) rfl rfl
theorem cmd_chown_calm (args : List Text) : Calm Solvent (fun _ => True) (cmd_chown w args) := by
  rcases args with _ | ⟨host_path, _ | ⟨vfs_path, _ | ⟨uid, _ | ⟨gid, rest⟩⟩⟩⟩
  · exact calm_fails _
  · exact calm_fails _
  · exact calm_fails _
  · exact calm_fails _
  · exact calm_bind (calm_number _ _) fun uid _ => calm_bind (calm_number _ _) fun gid _ =>
      calm_metadata (r := .chown vfs_path uid gid) rfl rfl
theorem cmd_utime_calm (args : List Text) : Calm Solvent (fun _ => True) (cmd_utime w args) := by
  rcases args with _ | ⟨host_path, _ | ⟨vfs_path, _ | ⟨atime, _ | ⟨mtime, rest⟩⟩⟩⟩
  · exact calm_fails _
  · exact calm_fails _
  · exact calm_fails _
  · exact calm_fails _
  · exact calm_bind (calm_number _ _) fun atime _ => calm_bind (calm_number _ _) fun mtime _ =>
      calm_metadata (r := .utime vfs_path atime mtime) rfl rfl

/-- Every path opens a node that is read, or is refused. -/
theorem path_reads (lasts : Lasts fs) (path : List UInt8) : NoPanic (open_path fs path) ∧
    ∀ n, open_path fs path = .ok n → ∃ inode bytes, read_inode fs n = .ok inode ∧ read_file fs inode = .ok bytes := by
  obtain ⟨config, g, small, whole, v, N, holds, consistent, kept⟩ := lasts
  rcases open_node holds consistent path with ⟨e, refused⟩ | ⟨n, x, opened, here, -⟩
  · rw [refused]
    exact ⟨noPanic_err _, fun n value => nomatch value⟩
  · rw [opened]
    refine ⟨noPanic_ok _, fun m same => ?_⟩
    cases same
    have sound := consistent.sound here
    have read := read_node holds consistent (live_of here)
    cases x with
    | dir => exact ⟨_, _, read, read_file_dir holds sound⟩
    | file => exact ⟨_, _, read, read_file_file holds sound⟩
    | link => exact ⟨_, _, read, read_file_link sound⟩
omit [DecidableEq κ] in
theorem cmd_cat_calm (args : List Text) : Calm Solvent (fun _ => True) (cmd_cat w args) := by
  rcases args with _ | ⟨host_path, _ | ⟨vfs_path, rest⟩⟩
  · exact calm_fails _
  · exact calm_fails _
  · refine calm_bind calm_open_fs fun (k, fs) lasts => ?_
    obtain ⟨quiet, reads⟩ := path_reads lasts vfs_path
    refine calm_bind (calm_lift ((noPanic_liftErr _).mpr quiet) fun n opened => reads n (liftErr_eq_ok.mp opened)) fun n found => ?_
    obtain ⟨inode, bytes, read, file⟩ := found
    rw [read, liftErr_ok]
    refine calm_bind (calm_lift (noPanic_ok _) fun a (same : _ = Except.ok a) => Except.ok.inj same) fun _ same => ?_
    subst same
    rw [file, liftErr_ok]
    exact calm_bind (calm_lift (noPanic_ok _) fun _ _ => trivial) fun _ _ => calm_change fun _ solvent => solvent
omit [DecidableEq κ] in
theorem cmd_inspect_calm (args : List Text) : Calm Solvent (fun _ => True) (cmd_inspect w args) := by
  cases args with
  | nil => exact calm_fails _
  | cons host_path rest =>
    refine calm_bind calm_open_fs fun (k, fs) lasts => ?_
    obtain ⟨config, g, small, whole, v, N, holds, consistent, kept⟩ := lasts
    obtain ⟨block, kids, found⟩ := consistent.linked.root
    obtain ⟨entries, listed, -⟩ := read_dir_ok holds (consistent.sound found)
    iterate 13 refine calm_bind (calm_writeln _) fun _ _ => ?_
    rw [read_node holds consistent (live_of found), liftErr_ok]
    refine calm_bind (calm_lift (noPanic_ok _) fun a (same : _ = Except.ok a) => Except.ok.inj same) fun _ same => ?_
    subst same
    rw [listed, liftErr_ok]
    refine calm_bind (calm_lift (noPanic_ok _) fun _ _ => trivial) fun _ _ => ?_
    exact calm_bind (calm_writeln _) fun _ _ => calm_change fun _ solvent => solvent

/-- The copy of a tree of the host. -/
theorem populate_calm {host_dir : Text} (lasts : Lasts fs)
    (countable : ∀ host_root host, w.tree host_dir = .ok (host_root, host) → ∀ r ∈ copied_by host, Countable r) :
    Calm Solvent (fun _ => True) (populate w k fs host_dir) := by
  constructor
  intro m solvent
  simp only [populate]
  cases there : w.tree host_dir with
  | error e => exact solvent
  | ok found =>
    obtain ⟨host_root, host⟩ := found
    have answers := populate_answers lasts (countable host_root host there)
    dsimp only
    cases ran : (HostTree.populate_from_host_tree host).run ⟨fs, []⟩ with
    | ok u c =>
      rw [ran] at answers
      exact ⟨solvent_store solvent (lasts_opens answers.1), trivial⟩
    | err e c =>
      rw [ran] at answers
      exact solvent_store solvent (lasts_opens answers)
    | panic =>
      rw [ran] at answers
      exact answers.elim
theorem cmd_build_calm {args : List Text} (sane : Sane w (text "build-from-tree" :: args)) :
    Calm Solvent (fun _ => True) (cmd_build_from_tree w args) := by
  rcases args with _ | ⟨host_dir, _ | ⟨image_path, flags⟩⟩
  · exact calm_fails _
  · exact calm_fails _
  · refine calm_bind (calm_parsed (fun config settled => ?_) fun e refused => ?_)
      fun config (settled : parse_flags build_flags Config.default flags = .ok config) => ?_
    · rw [settled]
    · rw [refused]
      exact ⟨e, rfl⟩
    refine calm_bind (calm_make_image fun k located => sane.1 k config ?_) fun k _ => ?_
    · exact (makes_build ..).trans (makes_at_some settled located)
    refine calm_bind calm_read_image fun image opens => calm_bind (calm_open opens) fun fs lasts => ?_
    refine calm_bind (populate_calm lasts fun host_root host there r member => sane.2 r ?_) fun _ _ => calm_writeln _
    rw [requests_build (w := w) host_dir image_path flags there]
    exact member

/-! ### The program -/

theorem dispatch_calm {name : Text} {args : List Text} (sane : Sane w (name :: args)) :
    Calm Solvent (fun _ => True) (dispatch w name args) := by
  rw [dispatch]
  split
  · subst name
    exact cmd_format_calm sane
  split
  · exact cmd_inspect_calm args
  split
  · subst name
    exact cmd_touch_calm sane
  split
  · exact cmd_cat_calm args
  split
  · exact cmd_chmod_calm args
  split
  · exact cmd_chown_calm args
  split
  · exact cmd_utime_calm args
  split
  · subst name
    exact cmd_build_calm sane
  split
  · exact calm_change fun _ solvent => solvent
  · exact calm_fails _

/-- A line that is let ends with an exit code. -/
theorem main_answers {words : List Text} {program : Text} (solvent : Solvent m) (sane : Sane w words)
    (spelled : Spelled (program :: words)) : ∃ code m', (main w (program :: words)).run m = .ok code m' ∧ Solvent m' := by
  simp only [main, args_spelled spelled, List.tail_cons]
  cases words with
  | nil => exact ⟨.SUCCESS, _, rfl, solvent⟩
  | cons name args =>
    have ends := (dispatch_calm sane).ends m solvent
    dsimp only
    cases ran : (dispatch w name args).run m with
    | ok u m' =>
      rw [ran] at ends
      exact ⟨.SUCCESS, m', rfl, ends.1⟩
    | err e m' =>
      rw [ran] at ends
      exact ⟨.FAILURE, _, rfl, ends⟩
    | panic =>
      rw [ran] at ends
      exact ends.elim
theorem ran_spelled {line : Line κ} {m' : Machine κ} {program : Text}
    (ran : (main line.world (program :: line.words)).run m = .ok line.code m') : Spelled (program :: line.words) := by
  cases argued : Commands.args (program :: line.words) with
  | none =>
    simp only [main, argued] at ran
    cases ran
  | some argv => exact (args_some argued).2
theorem ran_solvent {line : Line κ} {m' : Machine κ} (solvent : Solvent m) (ran : Ran m line m') : Solvent m' := by
  obtain ⟨sane, program, ran⟩ := ran
  obtain ⟨code, m₁, ran', solvent'⟩ := main_answers solvent sane (ran_spelled ran)
  cases ran.symm.trans ran'
  exact solvent'

/-- After any lines the next one that is let ends with an exit code, and leads on,
    when its arguments are UTF-8. -/
theorem lines_end {lines : List (Line κ)} {m' : Machine κ} (solvent : Solvent m) (run : Run Ran m lines m')
    {words : List Text} {program : Text} (sane : Sane w words) (spelled : Spelled (program :: words)) :
    ∃ code m'', (main w (program :: words)).run m' = .ok code m'' ∧ Run Ran m (lines ++ [⟨w, words, code⟩]) m'' := by
  have solvent' : Solvent m' := run.keeps (fun solvent ran => ran_solvent solvent ran) solvent
  obtain ⟨code, m'', ran, -⟩ := main_answers solvent' sane spelled
  exact ⟨code, m'', ran, run.next ⟨sane, program, ran⟩⟩
end

theorem idle_solvent : Solvent idle := fun _ _ there => nomatch there
/-- On a host without files an image is formatted, and then a file is created in it. -/
theorem touch_ends : ∃ m code m', Run Ran idle [format_line] m ∧
    (main lone [text "mkext4-rs", text "touch", text "i", text "/a", text "hi"]).run m = .ok code m' ∧
    Run Ran idle ([format_line] ++ [⟨lone, [text "touch", text "i", text "/a", text "hi"], code⟩]) m' := by
  obtain ⟨m, _, formatted, -⟩ := lone_lines
  have run : Run Ran idle [format_line] m := .single formatted
  obtain ⟨code, m', ran, run'⟩ := lines_end idle_solvent run sane_touch
    (spelled_texts ["mkext4-rs", "touch", "i", "/a", "hi"])
  exact ⟨m, code, m', run, ran, run'⟩

end Justext4.CommandEnds
