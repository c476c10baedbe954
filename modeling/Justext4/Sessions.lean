import Justext4.FileHistory
import Justext4.OnDisk
import Justext4.Simulation

/-!
Sessions. An image is changed by calls that return or fail, and at any time it
may be closed and opened again, with whatever has not been written out lost. A
session is followed, event by event, by a file tree: what the image shows is
never anything but the tree that the calls which returned have made.
-/
namespace Justext4.Sessions
open Justext4 Justext4.Fallible Justext4.Filesystem Justext4.Volumes Justext4.Mkfs Bytes
open Justext4.NamedTree
open Justext4.PathTree
open Justext4.Nodes
open Justext4.Paths
open Justext4.Backing
open Justext4.Reading
open Justext4.Leaves
open Justext4.Change
open Justext4.Start
open Justext4.View
open Justext4.Calls
open Justext4.Refinement
open Justext4.Simulation
open Justext4.OnDisk

/-- What happens to an image. -/
inductive Event where
  | returned (request : Request) (answer : Option UInt32)
  | failed (request : Request)
  | reopened

/-- What happens to a filesystem. -/
inductive Occurs (fs : Filesystem) : Event → Filesystem → Prop
  | returned {request : Request} {answer : Option UInt32} {fs' : Filesystem} (lets : Admissible fs request)
      (ran : (execute request).run fs = .ok answer fs') : Occurs fs (.returned request answer) fs'
  | failed {request : Request} {e : Ext4Error} {fs' : Filesystem} (lets : Admissible fs request)
      (ran : (execute request).run fs = .err e fs') : Occurs fs (.failed request) fs'
  | reopened {fs' : Filesystem} (opened : open_image fs.reader = .ok fs') : Occurs fs .reopened fs'

/-- The calls that set the metadata of an inode. -/
def Sets (path : List UInt8) : Request → Prop
  | .chmod p _ | .chown p _ _ | .utime p _ _ => p = path
  | _ => False

/-- What happens to the tree that is shown. -/
inductive Shows (t : FileTree) : Event → FileTree → Prop
  | does {request : Request} {answer : Option UInt32} {t' : FileTree} (does : Does t request answer t') :
      Shows t (.returned request answer) t'
  -- Behind the old end of a file may be anything.
  | resized {path : List UInt8} {new_size : UInt64} {q : List (List UInt8)} {n : UInt32} {data data' : Bytes}
      (leads : resolved t path = some q) (here : t q = some ⟨n, .file data⟩) (size : data'.size = new_size.toNat)
      (same : ∀ i, i < data.size → i < data'.size → data'.byte i = data.byte i) :
      Shows t (.returned (.truncate path new_size) none) (add t q ⟨n, .file data'⟩)
  | set {request : Request} {path : List UInt8} {q : List (List UInt8)} {e : Entry} (sets : Sets path request)
      (leads : resolved t path = some q) (here : t q = some e) : Shows t (.returned request none) t
  | failed {request : Request} {t' : FileTree} (fails : Fails t request t') : Shows t (.failed request) t'
  | reopened : Shows t .reopened t

/-- The tree of a fresh image. -/
def bare : FileTree := fun q => if q = [] then some ⟨ROOT_INODE, .dir⟩ else none

/-- The filesystem backs a tree, in memory and on the image. -/
def Durable (g : Geometry) (fs : Filesystem) : Prop := ∃ v N, Holds g v fs ∧ Consistent g v N ∧ Recorded g fs

/-! ### The start -/

theorem picture_rootOnly (v : Volume) (block : Nat) : picture v (rootOnly block) = bare := by
  funext q
  rw [picture, view, bare]
  cases q with
  | nil => rfl
  | cons name q =>
    have none : walk (child (rootOnly block)) ROOT_INODE (name :: q) = none := by
      rw [walk, child_dir (show rootOnly block ROOT_INODE = some (.dir block ROOT_INODE []) from rfl)]
      rfl
    rw [none, if_neg (List.cons_ne_nil _ _)]
    rfl
theorem opened_durable {config : Config} {start : Filesystem} (small : Small config) (opened : Opened config start) :
    ∃ g, Whole config g ∧ Durable g start ∧ tree start = bare := by
  obtain ⟨image, ran, opens⟩ := id opened
  obtain ⟨layout, laid, -⟩ := Formatted.laid_of_format ran
  obtain ⟨g, v, whole, -, holds, consistent, -⟩ := Progress.fresh_backs small laid
  rw [← opened.unique (fresh_opened small laid)] at holds
  exact ⟨g, whole, ⟨v, _, holds, consistent, holds.static', holds.size, FlushedRecords.loaded_opened opens⟩,
    (tree_eq holds consistent).trans (picture_rootOnly v _)⟩

/-! ### One event -/

section
variable {g : Geometry} {v v' : Volume} {N N' : NodeMap} {fs fs' : Filesystem} {n : UInt32} {path : List UInt8}

/-- A path leads to the node that it opens. -/
theorem leads_of_open (holds : Holds g v fs) (consistent : Consistent g v N) (opened : open_path fs path = .ok n) :
    ∃ q, resolved (tree fs) path = some q ∧ walk (child N) ROOT_INODE q = some n := by
  rcases open_path_walk holds consistent path with ⟨m, walked, opened'⟩ | ⟨-, e, refused⟩
  · cases opened.symm.trans opened'
    exact (resolved_walk holds consistent path).mp walked
  · rw [refused] at opened
    cases opened
theorem shown_leads (holds : Holds g v fs) (consistent : Consistent g v N) {x : Node} {q : List (List UInt8)}
    (placed : walk (child N) ROOT_INODE q = some n) (here : N n = some x) : tree fs q = some ⟨n, shown v n x⟩ := by
  rw [tree_eq holds consistent, picture, view_at placed, entry_some here]

/-- What is in the blocks of a file, as one buffer. -/
theorem file_data (holds : Holds g v fs) (consistent : Consistent g v N) {start count : Nat}
    (here : N n = some (.file start count)) :
    ∃ data : Bytes, ∀ i < count, v.block (start + i) = data.slice (i * g.block_size) g.block_size := by
  refine ⟨fs.reader.slice (start * g.block_size) (count * g.block_size), fun i inside => ?_⟩
  have owned := (consistent.sound here).owned (start + i) ⟨Nat.le_add_right _ _, by omega⟩
  rw [← holds.blocks (start + i) owned.1 (Nat.lt_of_lt_of_le owned.2.1 g.limit_total), blockAt]
  have before : i * g.block_size + g.block_size ≤ count * g.block_size := by
    rw [← Nat.succ_mul]
    exact Nat.mul_le_mul_right _ inside
  apply ext_inside (by rw [size_slice, size_slice])
  intro j short
  rw [size_slice] at short
  rw [byte_slice_of_lt _ short, byte_slice_of_lt _ short, byte_slice_of_lt _ (by omega), Nat.add_mul, Nat.add_assoc]

/-- A truncation gives the file another size, and keeps what is before both ends. -/
theorem shows_resized (holds : Holds g v fs) (consistent : Consistent g v N) (holds' : Holds g v' fs')
    (consistent' : Consistent g v' N') (touched : Touched v v' N N' n) {new_size : UInt64}
    (resized : Resized fs path new_size N n v' N') :
    Shows (tree fs) (.returned (.truncate path new_size) none) (tree fs') := by
  obtain ⟨opened, start, count, kept, here, there, le, size⟩ := resized
  obtain ⟨q, leads, placed⟩ := leads_of_open holds consistent opened
  obtain ⟨data, blocks⟩ := file_data holds consistent here
  have positive := g.positive
  have fits : ∀ {v : Volume} {c : Nat}, FileBacked g v n start c → (v.slot n).size.toNat ≤ c * g.block_size :=
    fun backed => by
      rw [← backed.size]
      exact le_div_ceil (by omega)
  have before : fileBytes v n start count = data.slice 0 (v.slot n).size.toNat :=
    Create.fileBytes_slices (fits (consistent.sound here).backed) blocks
  have after : fileBytes v' n start kept = data.slice 0 new_size.toNat := by
    rw [Create.fileBytes_slices (fits (consistent'.sound there).backed) fun i inside => ?_, size]
    rw [touched.blocks, blocks i (by omega)]
  have edges : child N' = child N := by
    funext m name
    by_cases same : m = n
    · rw [same, child_leaf here trivial, child_leaf there trivial]
    · simp only [child, touched.nodes m same]
  have changed : tree fs' = add (tree fs) q ⟨n, .file (fileBytes v' n start kept)⟩ := by
    rw [tree_eq holds' consistent', tree_eq holds consistent, picture, edges]
    refine view_set consistent.linked.tree placed (fun m live other => ?_) (entry_some there)
    rw [entry, entry, touched.nodes m other]
    cases found : N m with
    | none => rfl
    | some x =>
      refine congrArg some (congrArg (Entry.mk m) (shown_same ?_))
      cases x with
      | dir => trivial
      | file => exact ⟨touched.slots m other, fun b _ _ => congrFun touched.blocks b⟩
      | link => exact touched.slots m other
  rw [changed]
  refine .resized leads (shown_leads holds consistent placed here) (by rw [after, size_slice]) fun i inside inside' => ?_
  rw [before, size_slice] at inside
  rw [after, size_slice] at inside'
  rw [before, after, byte_slice_of_lt _ inside, byte_slice_of_lt _ inside']

/-- Setting the metadata of an inode is not seen in the tree. -/
theorem shows_set (holds : Holds g v fs) (consistent : Consistent g v N) {request : Request} {answer : Option UInt32}
    (ran : (execute request).run fs = .ok answer fs') {mutate : Inode.Inode → Inode.Inode}
    (same : execute request = silent (with_inode_mut path mutate)) (sets : Sets path request)
    (alike : ∀ inode, Alike inode { mutate inode with ctime := METADATA_CTIME }) :
    Shows (tree fs) (.returned request answer) (tree fs') := by
  rw [same, silent, run_bind] at ran
  rcases open_node holds consistent path with ⟨e, refused⟩ | ⟨n, x, opened, here, -⟩
  · rw [with_inode_mut, run_bind, run_reads, refused] at ran
    cases ran
  obtain ⟨q, leads, placed⟩ := leads_of_open holds consistent opened
  have ended := with_inode_mut_records holds consistent path alike
  generalize (with_inode_mut path mutate).run fs = result at ended ran
  cases ended with
  | refused => cases ran
  | panicked => cases ran
  | same => cases ran; exact .set sets leads (shown_leads holds consistent placed here)
  | @changed m _ v' N' holds' written consistent' counted tight touched done =>
    cases ran
    obtain ⟨⟨opened', rfl, size⟩, record⟩ := done
    cases opened.symm.trans opened'
    have same : tree fs' = tree fs := by
      rw [tree_eq holds' consistent', tree_eq holds consistent]
      refine view_congr consistent.linked.tree fun m live => ?_
      cases found : N' m with
      | none => rw [entry, entry, found]; rfl
      | some y =>
        rw [entry_some found, entry_some found]
        refine congrArg some (congrArg (Entry.mk m) ?_)
        cases y with
        | dir => rfl
        | file start count =>
          have sized : (v'.slot m).size = (v.slot m).size := by
            by_cases other : m = n
            · rw [other, size]
            · rw [touched.slots m other]
          rw [shown, shown, fileBytes, fileBytes, touched.blocks, sized]
        | link =>
          have target : (v'.slot m).size = (v.slot m).size ∧ (v'.slot m).block = (v.slot m).block := by
            by_cases other : m = n
            · rw [other, record]
              exact ⟨(alike _).size, (alike _).block⟩
            · rw [touched.slots m other]
              exact ⟨rfl, rfl⟩
          rw [shown, shown, linkBytes, linkBytes, target.1, target.2]
    rw [same]
    exact .set sets leads (shown_leads holds consistent placed here)

/-- A failed call of those that do not change the names leaves the tree. -/
theorem fails_changing {refusal flushes : Prop} {effect : UInt32 → Volume → NodeMap → Prop}
    {call : Call Unit} {request : Request} {e : Ext4Error} (ended : Changing g v N fs refusal flushes effect (call.run fs))
    (ran : (silent call).run fs = .err e fs') : Shows (tree fs) (.failed request) (tree fs') := by
  rw [silent, run_bind] at ran
  generalize call.run fs = result at ended ran
  cases ended with
  | refused => cases ran; exact .failed .unchanged
  | panicked => cases ran
  | same => cases ran
  | changed => cases ran

/-- What a call does that returns. -/
theorem returns_shows (holds : Holds g v fs) (consistent : Consistent g v N) {request : Request} {answer : Option UInt32}
    (lets : Admissible fs request) (ran : (execute request).run fs = .ok answer fs') :
    Shows (tree fs) (.returned request answer) (tree fs') := by
  by_cases renames : Renames request
  · have refines := execute_refines holds consistent renames lets
    rw [ran] at refines
    cases refines with
    | returned does => exact .does does
  cases request with
  | truncate path new_size =>
    have ended := truncate_ends holds consistent path new_size
    rw [execute, silent, run_bind] at ran
    generalize (Filesystem.truncate path new_size).run fs = result at ended ran
    cases ended with
    | refused => cases ran
    | panicked => cases ran
    | same quiet done =>
      cases ran
      exact shows_resized holds consistent holds consistent ⟨fun _ _ => rfl, rfl, fun _ _ => rfl⟩ done
    | changed holds' written consistent' counted tight touched done =>
      cases ran
      exact shows_resized holds consistent holds' consistent' touched done
  | chmod path mode =>
    exact shows_set holds consistent ran rfl rfl fun inode => ⟨mode_kept inode.mode mode, rfl, rfl, rfl, rfl, rfl⟩
  | chown path uid gid => exact shows_set holds consistent ran rfl rfl fun _ => ⟨rfl, rfl, rfl, rfl, rfl, rfl⟩
  | utime path atime mtime => exact shows_set holds consistent ran rfl rfl fun _ => ⟨rfl, rfl, rfl, rfl, rfl, rfl⟩
  | _ => exact absurd trivial renames
/-- What a call does that fails. -/
theorem fails_shows (holds : Holds g v fs) (consistent : Consistent g v N) {request : Request} {e : Ext4Error}
    (lets : Admissible fs request) (ran : (execute request).run fs = .err e fs') :
    Shows (tree fs) (.failed request) (tree fs') := by
  by_cases renames : Renames request
  · have refines := execute_refines holds consistent renames lets
    rw [ran] at refines
    cases refines with
    | failed fails => exact .failed fails
  cases request with
  | truncate path new_size => exact fails_changing (truncate_ends holds consistent path new_size) ran
  | chmod path mode => exact fails_changing (chmod_ends holds consistent path mode) ran
  | chown path uid gid => exact fails_changing (chown_ends holds consistent path uid gid) ran
  | utime path atime mtime => exact fails_changing (utime_ends holds consistent path atime mtime) ran
  | _ => exact absurd trivial renames

/-- An image that is opened again shows what it showed. -/
theorem reopened_shows (large : 2048 ≤ g.block_size) (durable : Durable g fs) :
    ∃ fs', open_image fs.reader = .ok fs' ∧ Durable g fs' ∧ tree fs' = tree fs := by
  obtain ⟨v, N, holds, consistent, recorded⟩ := durable
  obtain ⟨sb, gdt, opened, holds', recorded'⟩ := reopens holds recorded large
  have consistent' := consistent_records consistent sb gdt
  refine ⟨_, opened, ⟨_, N, holds', consistent', recorded'⟩, ?_⟩
  rw [tree_eq holds' consistent', tree_eq holds consistent]
  rfl

/-- An event happens to the tree as it happens to the image. -/
theorem occurs_shows (large : 2048 ≤ g.block_size) {e : Event} (durable : Durable g fs) (occurs : Occurs fs e fs') :
    Shows (tree fs) e (tree fs') ∧ Durable g fs' := by
  have carried : ∀ {fs'}, Step Admissible fs fs' → Recorded g fs' → Durable g fs' := fun step recorded' => by
    obtain ⟨v, N, holds, consistent, -⟩ := durable
    obtain ⟨v', N', carried⟩ := step_carried holds consistent step
    exact ⟨v', N', carried.holds, carried.consistent, recorded'⟩
  obtain ⟨v, N, holds, consistent, recorded⟩ := id durable
  cases occurs with
  | returned lets ran =>
    have ends := execute_recorded holds consistent recorded large lets
    exact ⟨returns_shows holds consistent lets ran, carried (.returns lets ran) (ends.ok ran)⟩
  | failed lets ran =>
    have ends := execute_recorded holds consistent recorded large lets
    exact ⟨fails_shows holds consistent lets ran, carried (.fails lets ran) (ends.err ran)⟩
  | reopened opened =>
    obtain ⟨fs₁, opened₁, durable', same⟩ := reopened_shows large durable
    cases opened.symm.trans opened₁
    rw [same]
    exact ⟨.reopened, durable'⟩
end

/-! ### Whole sessions -/

/-- A session on a fresh image. -/
def Session (config : Config) (events : List Event) (fs : Filesystem) : Prop :=
  ∃ start, Opened config start ∧ Run Occurs start events fs

theorem session_durable {config : Config} {events : List Event} {fs : Filesystem} (small : Small config)
    (session : Session config events fs) :
    ∃ g, Whole config g ∧ Durable g fs ∧ Run Shows bare events (tree fs) := by
  obtain ⟨start, opened, run⟩ := session
  obtain ⟨g, whole, durable, first⟩ := opened_durable small opened
  have known := whole.known
  have large : 2048 ≤ g.block_size := by omega
  have follows : Follows Occurs Shows fun fs t => Durable g fs ∧ tree fs = t := by
    rintro fs t e fs' ⟨durable, rfl⟩ occurs
    obtain ⟨shows, durable'⟩ := occurs_shows large durable occurs
    exact ⟨_, shows, durable', rfl⟩
  obtain ⟨t, run', durable', rfl⟩ := run.simulates follows ⟨durable, first⟩
  exact ⟨g, whole, durable', run'⟩

/-- What happens in a session, whichever calls fail and whenever the image is
    opened again, happens to the tree that is shown. -/
theorem sessions_refine {config : Config} {events : List Event} {fs : Filesystem} (small : Small config)
    (session : Session config events fs) : Run Shows bare events (tree fs) := by
  obtain ⟨g, whole, durable, run⟩ := session_durable small session
  exact run

/-- After any session the bitmaps and the directories are sound, and the image
    opens again to what it showed. -/
theorem sessions_sound {config : Config} {events : List Event} {fs : Filesystem} (small : Small config)
    (session : Session config events fs) : Invariants.Allocated config fs ∧ Invariants.Checked fs ∧
      ∃ fs', open_image fs.reader = .ok fs' ∧ tree fs' = tree fs ∧
        ∀ path n, open_path fs' path = .ok n ↔ open_path fs path = .ok n := by
  obtain ⟨g, whole, durable, -⟩ := session_durable small session
  have known := whole.known
  obtain ⟨fs', opened, durable', same⟩ := reopened_shows (by omega) durable
  obtain ⟨v, N, holds, consistent, -⟩ := durable
  obtain ⟨v', N', holds', consistent', -⟩ := durable'
  refine ⟨Invariants.allocated_of_backs whole holds consistent, Invariants.checked_of_backs holds consistent, fs', opened,
    same, fun path n => ?_⟩
  rw [open_path_resolved holds' consistent', open_path_resolved holds consistent, same]

/-- A directory is made on a fresh image, which is then opened again. -/
theorem mkdir_session : ∃ n fs, Session Config.default [.returned (.mkdir [SLASH, 97]) (some n), .reopened] fs := by
  obtain ⟨g, v, whole, blocks, clear, row⟩ :=
    Progress.fresh_row default_small (show Layout.from_config Config.default = .ok defaultLayout from rfl)
  have numbers : g.per_group = 32 := whole.per_group
  have total : g.total = 16 := whole.total
  have size : g.block_size = 4096 := whole.block_size
  obtain ⟨n, fs₁, v₁, N₁, ran, -⟩ := row.dir whole (by rw [numbers]; decide) (show Proper [97] by decide) (by decide)
    (by decide) (by decide) ⟨7, by rw [blocks, total, size]; decide, fun j low high => clear j (by omega) low⟩
  have first : Run Occurs (fresh Config.default defaultLayout) [.returned (.mkdir [SLASH, 97]) (some n)] fs₁ :=
    .single (.returned trivial ran)
  obtain ⟨g, whole, durable, -⟩ := session_durable default_small ⟨_, default_opened, first⟩
  have known := whole.known
  obtain ⟨fs₂, opened, -⟩ := reopened_shows (by omega) durable
  exact ⟨n, fs₂, _, default_opened, first.append (.single (.reopened opened))⟩
theorem mkdir_session_refines : ∃ n fs, Session Config.default [.returned (.mkdir [SLASH, 97]) (some n), .reopened] fs ∧
    Run Shows bare [.returned (.mkdir [SLASH, 97]) (some n), .reopened] (tree fs) := by
  obtain ⟨n, fs, session⟩ := mkdir_session
  exact ⟨n, fs, session, sessions_refine default_small session⟩
theorem mkdir_session_sound : ∃ n fs, Session Config.default [.returned (.mkdir [SLASH, 97]) (some n), .reopened] fs ∧
    Invariants.Allocated Config.default fs ∧ Invariants.Checked fs ∧ ∃ fs', open_image fs.reader = .ok fs' ∧
      tree fs' = tree fs ∧ ∀ path n, open_path fs' path = .ok n ↔ open_path fs path = .ok n := by
  obtain ⟨n, fs, session⟩ := mkdir_session
  exact ⟨n, fs, session, sessions_sound default_small session⟩

end Justext4.Sessions
