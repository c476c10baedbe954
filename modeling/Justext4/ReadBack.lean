import Justext4.CommandRuns
import Justext4.CopiedTree

/-!
What comes out of an image again. A file that a line has put into an image is
printed as it was, after any other lines, until its image is made anew; a tree
that has been built is in the file, and opens.
-/
namespace Justext4.ReadBack
open Justext4 Justext4.Fallible Justext4.Filesystem Justext4.Mkfs Justext4.Numerals Justext4.Display Justext4.Arguments
open Justext4.Commands Justext4.CommandRuns Bytes
open Justext4.Nodes (Proper)
open Justext4.PathTree
open Justext4.Paths
open Justext4.Start (groups)
open Justext4.View
open Justext4.Calls
open Justext4.Refinement
open Justext4.Simulation
open Justext4.Sessions
open Function (update)

/-! ### A file that stays -/

section
variable {t t' : FileTree} {path : List UInt8} {data : Bytes} {n : UInt32}

/-- A path leads to a file with these bytes. -/
def Reads (t : FileTree) (path : List UInt8) (data : Bytes) : Prop :=
  ∃ q n, resolved t path = some q ∧ t q = some ⟨n, .file data⟩

/-- What has been created reads back. -/
theorem reads_created (does : Does t (.create_file path data) (some n) t') : Reads t' path data := by
  cases does with
  | @create_file _ _ place name _ names free unused =>
    obtain ⟨parent_path, split, leads⟩ := names.split
    have larger : ∀ q x, t q = some x → add t (place ++ [name]) ⟨n, .file data⟩ q = some x := by
      intro q x here
      rw [add, if_neg, here]
      rintro rfl
      rw [free] at here
      cases here
    have there : add t (place ++ [name]) ⟨n, .file data⟩ (place ++ [name]) = some ⟨n, .file data⟩ := if_pos rfl
    have proper := names.proper
    obtain ⟨e, here, enters⟩ := (Option.any_eq_true ..).mp names.directory
    refine ⟨place ++ [name], n, ?_, there⟩
    rw [resolved, (split_path_ok split).2]
    refine resolve_snoc (resolve_mono larger leads) ?_ proper.2.2.1 proper.2.2.2 ?_
    · rw [larger _ _ here]
      exact enters
    · rw [there]
      rfl
/-- Another creation does not change what reads back. -/
theorem reads_kept {path' : List UInt8} {data' : Bytes} (reads : Reads t path data)
    (does : Does t (.create_file path' data') (some n) t') : Reads t' path data := by
  cases does with
  | @create_file _ _ place name _ names free unused =>
    obtain ⟨q, m, leads, here⟩ := reads
    have larger : ∀ q x, t q = some x → add t (place ++ [name]) ⟨n, .file data'⟩ q = some x := by
      intro q x here
      rw [add, if_neg, here]
      rintro rfl
      rw [free] at here
      cases here
    exact ⟨q, m, resolve_mono larger leads, larger _ _ here⟩
end

section
variable {κ : Type} [DecidableEq κ] {w : World κ} {m m' : Machine κ} {k : κ} {ts ts' : κ → Option FileTree}
  {line : Line κ} {path : List UInt8} {data : Bytes}

/-- The line makes the file of an image anew. -/
def Remakes (w : World κ) (line : List Text) (k : κ) : Prop :=
  ∃ name args config, line = name :: args ∧ makes w name args = some (k, config)
/-- The image of a file has the bytes at a path. -/
def Keeps (path : List UInt8) (data : Bytes) (t : Option FileTree) : Prop := ∃ s, t = some s ∧ Reads s path data

theorem turned_keeps (turned : Turned ts line ts') (other : ¬ Remakes line.world line.words k) (keeps : Keeps path data (ts k)) :
    Keeps path data (ts' k) := by
  obtain ⟨w, words, code⟩ := line
  have elsewhere : ∀ {name args j config t}, words = name :: args → makes w name args = some (j, config) →
      Keeps path data (update ts j t k) := by
    intro name args j config t same made
    have apart : k ≠ j := fun at_k => other ⟨name, args, config, same, at_k ▸ made⟩
    rw [Function.update_of_ne apart]
    exact keeps
  cases turned with
  | usage => exact keeps
  | quiet => exact keeps
  | refused => exact keeps
  | emptied made => exact elsewhere rfl made
  | formatted made => exact elsewhere rfl made
  | @touched _ _ _ _ j _ _ _ located shown does =>
    by_cases same : k = j
    · subst same
      obtain ⟨s, here, reads⟩ := keeps
      cases shown.symm.trans here
      rw [Function.update_self]
      exact ⟨_, rfl, reads_kept reads does⟩
    · rw [Function.update_of_ne same]
      exact keeps
  | built made => exact elsewhere rfl made
  | unbuilt made => exact elsewhere rfl made
theorem run_keeps {lines : List (Line κ)} (run : Run Turned ts lines ts')
    (others : ∀ line ∈ lines, ¬ Remakes line.world line.words k) (keeps : Keeps path data (ts k)) : Keeps path data (ts' k) := by
  induction run with
  | start => exact keeps
  | next _ last ih =>
    have before := ih fun line member => others line (List.mem_append_left _ member)
    exact turned_keeps last (others _ (List.mem_append_right _ (List.mem_singleton_self _))) before

/-- What a path leads to is printed. -/
theorem cat_prints (sound : Sound m) {program host_path vfs_path : Text} {rest : List Text} (located : w.locate host_path = .ok k)
    (keeps : Keeps vfs_path data (pictures m k)) (spelled : Spelled (program :: text "cat" :: host_path :: vfs_path :: rest)) :
    (main w (program :: text "cat" :: host_path :: vfs_path :: rest)).run m =
      .ok .SUCCESS { m with out := m.out ++ data.toList } := by
  obtain ⟨t, shown, q, n, leads, here⟩ := keeps
  obtain ⟨image, fs, there, opened, same⟩ : ∃ image fs, m.files k = some image ∧ open_image image = .ok fs ∧ tree fs = t := by
    rw [pictures, shows, Option.bind_eq_some_iff] at shown
    obtain ⟨image, there, opens⟩ := shown
    cases opened : open_image image with
    | error e => rw [opened] at opens; cases opens
    | ok fs =>
      rw [opened] at opens
      exact ⟨image, fs, there, opened, Option.some.inj opens⟩
  subst same
  obtain ⟨config, g, small, whole, v, N, holds, consistent, -⟩ := sound k image there fs opened
  have opens := (open_path_resolved holds consistent vfs_path).mpr ⟨q, _, leads, here, rfl⟩
  -- What is shown there has been read.
  obtain ⟨inode, read, bytes⟩ : ∃ inode, read_inode fs n = .ok inode ∧ read_file fs inode = .ok data := by
    rw [tree, view_some] at here
    obtain ⟨m, -, entered⟩ := here
    rw [entry_of, Option.map_eq_some_iff] at entered
    obtain ⟨content, held, same⟩ := entered
    cases same
    rw [content_of] at held
    cases read : read_inode fs n with
    | error e => rw [read] at held; cases held
    | ok inode =>
      refine ⟨inode, rfl, ?_⟩
      rw [read] at held
      simp only [Except.toOption, Option.bind_eq_bind, Option.bind_some] at held
      split at held
      · cases held
      · cases bytes : read_file fs inode with
        | error e => rw [bytes] at held; cases held
        | ok found =>
          rw [bytes] at held
          simp only [Option.bind_some, Option.some.injEq] at held
          split at held
          · cases held
          · cases held
            rfl
  have cat : dispatch w (text "cat") (host_path :: vfs_path :: rest) = cmd_cat w (host_path :: vfs_path :: rest) := by
    rw [dispatch, if_neg (by decide), if_neg (by decide), if_neg (by decide), if_pos rfl]
  have ran : (cmd_cat w (host_path :: vfs_path :: rest)).run m = .ok () { m with out := m.out ++ data.toList } := by
    simp only [cmd_cat, open_fs, locate_file, read_image, print, located, there, opened, opens, read, bytes, okOr_some, liftErr_ok,
      run_bind, run_lift, run_reads, run_pure, run_change, ofRes_ok, andThen_ok]
  simp only [main, args_spelled spelled, List.tail_cons, cat, ran]

/-- A file that a line has put into an image is printed as it was after any
    other lines, until one makes the image anew. -/
theorem touch_cat {w' : World κ} {m₁ m₂ : Machine κ} {program host_path image_path vfs_path content : Text} {rest rest' : List Text}
    {lines : List (Line κ)} (sound : Sound m) (located : w.locate host_path = .ok k)
    (touch : Ran m ⟨w, text "touch" :: host_path :: vfs_path :: content :: rest, .SUCCESS⟩ m₁) (run : Run Ran m₁ lines m₂)
    (others : ∀ line ∈ lines, ¬ Remakes line.world line.words k) (located' : w'.locate image_path = .ok k)
    (spelled : Spelled (program :: text "cat" :: image_path :: vfs_path :: rest')) :
    (main w' (program :: text "cat" :: image_path :: vfs_path :: rest')).run m₂ =
      .ok .SUCCESS { m₂ with out := m₂.out ++ content } := by
  obtain ⟨turns, sound₁⟩ := ran_leads sound touch
  obtain ⟨turned, sound₂⟩ := lines_refine sound₁ run
  have stored : Keeps vfs_path (ofList content) (pictures m₁ k) := by
    generalize pictures m₁ = after at turns
    cases turns with
    | quiet other => exact absurd (by decide) other
    | touched located' shown does =>
      cases located.symm.trans located'
      rw [Function.update_self]
      exact ⟨_, rfl, reads_created does⟩
  rw [← toList_ofList content]
  exact cat_prints sound₂ located' (run_keeps turned others stored) spelled
end

def cat_line : Line Unit := ⟨lone, [text "cat", text "i", text "/a"], .SUCCESS⟩
theorem spelled_cat : Spelled [text "mkext4-rs", text "cat", text "i", text "/a"] :=
  spelled_texts ["mkext4-rs", "cat", "i", "/a"]
/-- A line that makes no file anew and creates nothing has run. -/
theorem ran_other {w : World Unit} {m m' : Machine Unit} {program name : Text} {args : List Text} {code : ExitCode}
    (other : ∀ k config, makes w name args ≠ some (k, config)) (none : requests w name args = [])
    (ran : (main w (program :: name :: args)).run m = .ok code m') : Ran m ⟨w, name :: args, code⟩ m' := by
  refine ⟨⟨fun k config made => absurd made (other k config), ?_⟩, program, ran⟩
  rw [none]
  exact List.forall_mem_nil _

/-- The file that has been created is printed, and once more. -/
theorem touch_cat_twice : ∃ m m₁ m₂, Ran m touch_line m₁ ∧ Run Ran m₁ [cat_line] m₂ ∧
    (main lone [text "mkext4-rs", text "cat", text "i", text "/a"]).run m₂ =
      .ok .SUCCESS { m₂ with out := m₂.out ++ text "hi" } := by
  obtain ⟨m, m₁, formatted, touched⟩ := lone_lines
  obtain ⟨-, sound⟩ := ran_leads idle_sound formatted
  have once := touch_cat (k := ()) sound rfl touched .start (List.forall_mem_nil _) (show lone.locate (text "i") = .ok () from rfl)
    spelled_cat
  have cat : Ran m₁ cat_line { m₁ with out := m₁.out ++ text "hi" } := ran_other (fun _ _ made => nomatch made) rfl once
  refine ⟨m, m₁, _, touched, .single cat, touch_cat (k := ()) sound rfl touched (.single cat) ?_ rfl spelled_cat⟩
  intro line member
  rw [List.mem_singleton.mp member]
  rintro ⟨name, args, config, same, made⟩
  cases same
  cases made

/-! ### A tree that is built -/

section
variable {config : Config} {g : Volumes.Geometry} {fs fs' : Filesystem}

/-- An image that is opened again reads back as it did. -/
theorem read_back_reopened (large : 2048 ≤ g.block_size) (durable : Durable g fs) (opened : open_image fs.reader = .ok fs')
    {path : List UInt8} (proper : ∀ name ∈ components path, Proper name) :
    Populate.read_back fs' path = Populate.read_back fs path := by
  obtain ⟨v, N, holds, consistent, recorded⟩ := durable
  obtain ⟨sb, gdt, opened', holds', -⟩ := OnDisk.reopens holds recorded large
  cases opened.symm.trans opened'
  have consistent' := OnDisk.consistent_records consistent sb gdt
  rw [Populate.read_back_eq holds consistent proper, Populate.read_back_eq holds' consistent' proper]
  rfl
theorem contained_of_small (small : Calls.Small config) : Contained config := by
  obtain ⟨size, blocks, -⟩ := small
  intro _
  rw [groups, div_ceil]
  rcases size with size | size <;> rw [size] at blocks ⊢ <;> omega
end

/-- The blocks of what a copy creates can be counted when those of the files can. -/
theorem countable_of_limited {entries : HostTree.Entries} (named : HostTree.WellNamed (.dir entries))
    (limited : CopiedTree.Limited 2048 4294967295 (.dir entries)) : ∀ r ∈ copied_by (.dir entries), Countable r := by
  intro r member
  obtain ⟨i, inside, rfl⟩ := List.mem_map.mp member
  obtain ⟨there, copied⟩ := CopiedTree.item_host named (Nat.le_refl _) inside
  rw [HostTree.request]
  cases kind : i.host with
  | file bytes =>
    have shape : HostTree.host_shape (.dir entries) (i.place ++ [i.name]) = some (.file bytes) := by
      rw [HostTree.host_shape, there, kind]
      rfl
    have few := limited _ bytes shape
    rw [div_ceil] at few
    show bytes.size ≤ 2048 * 4294967295
    omega
  | dir => trivial
  | symlink => trivial
  | special => trivial

section
variable {κ : Type} [DecidableEq κ] {w : World κ} {m m' : Machine κ} {config : Config} {host : HostTree.Host}

theorem dispatch_build (args : List Text) : dispatch w (text "build-from-tree") args = cmd_build_from_tree w args := by
  rw [dispatch, if_neg (by decide), if_neg (by decide), if_neg (by decide), if_neg (by decide), if_neg (by decide),
    if_neg (by decide), if_neg (by decide), if_pos rfl]
theorem make_image_ok {host_path : Text} {k : κ} (ran : (make_image w host_path config).run m = .ok k m') :
    w.locate host_path = .ok k ∧ ∃ image, format (zeros 0) config = .ok image ∧ m' = m.store k image := by
  obtain ⟨k', located, rest⟩ := lift_then_eq_ok.mp ran
  obtain ⟨_, m₂, emptied, later⟩ := run_bind_eq_ok.mp rest
  obtain ⟨image, formatted, stored⟩ := lift_then_eq_ok.mp later
  rw [liftErr_eq_ok] at formatted
  cases emptied
  cases stored
  refine ⟨?_, image, formatted, store_store ..⟩
  cases found : w.locate host_path with
  | ok k => rw [found] at located; cases located; rfl
  | error e => rw [found] at located; cases located
theorem populate_ok {k : κ} {fs : Filesystem} {host_dir host_root : Text} (there : w.tree host_dir = .ok (host_root, host))
    (ran : (populate w k fs host_dir).run m = .ok () m') :
    ∃ c, (HostTree.populate_from_host_tree host).run ⟨fs, []⟩ = .ok () c ∧
      m' = (m.store k c.fs.reader).warned w host_root c.warnings := by
  simp only [populate, there] at ran
  cases copied : (HostTree.populate_from_host_tree host).run ⟨fs, []⟩ with
  | ok u c =>
    rw [copied] at ran
    cases ran
    exact ⟨c, rfl, rfl⟩
  | err e c => rw [copied] at ran; cases ran
  | panic => rw [copied] at ran; cases ran

theorem build_runs {k : κ} {image : Bytes} {fs : Filesystem} {c : HostTree.Copy} (program host_dir image_path : Text) (flags : List Text)
    {host_root : Text} (settled : parse_flags build_flags Config.default flags = .ok config)
    (located : w.locate image_path = .ok k) (formatted : format (zeros 0) config = .ok image)
    (opened : open_image image = .ok fs) (there : w.tree host_dir = .ok (host_root, host))
    (copied : (HostTree.populate_from_host_tree host).run ⟨fs, []⟩ = .ok () c)
    (spelled : Spelled (program :: text "build-from-tree" :: host_dir :: image_path :: flags)) :
    ∃ m', (main w (program :: text "build-from-tree" :: host_dir :: image_path :: flags)).run m = .ok .SUCCESS m' := by
  have built : ∃ m', (cmd_build_from_tree w (host_dir :: image_path :: flags)).run m = .ok () m' := by
    simp only [cmd_build_from_tree, make_image, locate_file, settled, located, formatted, read_image, store_same, opened, populate,
      there, copied, writeln, print, liftErr_ok, okOr_some, run_bind, run_lift, run_reads, run_change, run_pure, ofRes_ok,
      andThen_ok]
    exact ⟨_, rfl⟩
  obtain ⟨m', built⟩ := built
  exact ⟨m', by simp only [main, args_spelled spelled, List.tail_cons, dispatch_build, built]⟩

/-- The warnings for what a copy leaves out, in their order. -/
def left_out : HostTree.Host → List HostTree.Warning
  | .dir entries => HostTree.warnings_of (HostTree.Host.dirs (.dir entries)) [(entries, [])]
  | _ => []

/-- A tree that has been built is in the file: its image opens, and every path
    reads back what the copied part of the tree has there. What has been left out
    is warned of. -/
theorem build_replicates {program host_dir image_path host_root : Text} {flags : List Text} (small : Calls.Small config)
    (settled : parse_flags build_flags Config.default flags = .ok config) (there : w.tree host_dir = .ok (host_root, host))
    (named : HostTree.WellNamed host) (limited : CopiedTree.Limited 2048 4294967295 host)
    (ran : (main w (program :: text "build-from-tree" :: host_dir :: image_path :: flags)).run m = .ok .SUCCESS m') :
    ∃ k image fs, w.locate image_path = .ok k ∧ m'.files k = some image ∧ open_image image = .ok fs ∧
      CopiedTree.Replicates fs host ∧ (∀ j, j ≠ k → m'.files j = m.files j) ∧
      m'.err = m.err ++ (left_out host).flatMap (Display.warning w.debug host_root) := by
  cases argued : Commands.args (program :: text "build-from-tree" :: host_dir :: image_path :: flags) with
  | none => simp only [main, argued] at ran; cases ran
  | some argv =>
  obtain ⟨rfl, -⟩ := args_some argued
  simp only [main, argued, List.tail_cons, dispatch_build] at ran
  cases built : (cmd_build_from_tree w (host_dir :: image_path :: flags)).run m with
  | err e m₁ => rw [built] at ran; cases ran
  | panic => rw [built] at ran; cases ran
  | ok _ m₁ =>
    rw [built] at ran
    cases ran
    obtain ⟨config', parsed, rest⟩ := lift_then_eq_ok.mp built
    rw [settled] at parsed
    cases parsed
    obtain ⟨k, m₃, made, rest₁⟩ := run_bind_eq_ok.mp rest
    obtain ⟨located, image, formatted, rfl⟩ := make_image_ok made
    obtain ⟨image', reread, rest₂⟩ := reads_then_eq_ok.mp rest₁
    rw [store_same] at reread
    cases reread
    obtain ⟨fs, m₅, lifted', rest₃⟩ := run_bind_eq_ok.mp rest₂
    obtain ⟨opened, rfl⟩ := run_lift_eq_ok.mp lifted'
    rw [liftErr_eq_ok] at opened
    obtain ⟨_, m₆, populated, printed⟩ := run_bind_eq_ok.mp rest₃
    obtain ⟨⟨fs', warnings⟩, copied, rfl⟩ := populate_ok there populated
    cases printed
    -- The image is that of a copy to a fresh image, and opens to what it reads back.
    have fresh : Opened config fs := ⟨_, formatted, opened⟩
    obtain ⟨g, whole, durable, first⟩ := opened_durable small fresh
    have storable : ∀ q bytes, HostTree.host_shape host q = some (.file bytes) →
        Create.Storable config.block_size.toNat (div_ceil bytes.size config.block_size.toNat) := by
      intro q bytes found
      have few := limited q bytes found
      rw [div_ceil] at few ⊢
      rcases small.size with size | size <;> rw [size] <;> exact .inr ⟨by omega, by omega⟩
    have replicates := CopiedTree.replicates_of_storable (contained_of_small small) fresh named storable copied
    obtain ⟨entries, rfl, creations, warned⟩ := Populate.populate_calls copied
    have stored : Stored fs bare := ⟨⟨config, g, small, whole, durable⟩, first⟩
    obtain ⟨t, -, ⟨config', g', -, whole', durable'⟩, -⟩ := after_creates stored (countable_of_limited named limited) creations
    have known := whole'.known
    obtain ⟨fs₁, opened₁, -⟩ := reopened_shows (by omega) durable'
    refine ⟨k, fs'.reader, fs₁, located, ?_, opened₁, fun path proper => ?_, fun j other => ?_, ?_⟩
    · rw [store_store]
      exact store_same ..
    · rw [read_back_reopened (by omega) durable' opened₁ proper, replicates path proper]
    · rw [store_store]
      exact store_other _ other _
    · rw [show warnings = [] ++ left_out (.dir entries) from warned, List.nil_append]
      rfl
end

/-- Two links of the host are built and read back. -/
theorem build_links : ∃ m',
    (main lone (text "mkext4-rs" :: text "build-from-tree" :: text "/d" :: text "i" :: ([] : List Text))).run idle =
      .ok .SUCCESS m' ∧
    ∃ k image fs, lone.locate (text "i") = .ok k ∧ m'.files k = some image ∧ open_image image = .ok fs ∧
      CopiedTree.Replicates fs (.dir (CopiedTree.linked (ofList [116]) [[97], [98]])) ∧
      (∀ j, j ≠ k → m'.files j = idle.files j) ∧
      m'.err = idle.err ++ (left_out (.dir (CopiedTree.linked (ofList [116]) [[97], [98]]))).flatMap
        (Display.warning lone.debug (text "/d")) := by
  have whole : HostTree.kept (CopiedTree.linked (ofList [116]) [[97], [98]]) = CopiedTree.linked (ofList [116]) [[97], [98]] :=
    CopiedTree.kept_linked (by decide) (by decide)
  obtain ⟨fs', made⟩ := CopiedTree.fresh_links [[97], [98]] (by decide) (by decide) (by decide) (by decide)
  obtain ⟨warnings, copied⟩ := CopiedTree.copy_links whole made
  obtain ⟨image, formatted, opened⟩ := id default_opened
  obtain ⟨m', ran⟩ := build_runs (w := lone) (m := idle) (k := ()) (text "mkext4-rs") (text "/d") (text "i") [] rfl rfl formatted
    opened rfl copied (spelled_texts ["mkext4-rs", "build-from-tree", "/d", "i"])
  exact ⟨m', ran, build_replicates default_small rfl rfl (CopiedTree.wellNamed_linked whole (by decide) (by decide))
    (fun q bytes found => absurd found (CopiedTree.no_files_linked whole q bytes)) ran⟩

end Justext4.ReadBack
