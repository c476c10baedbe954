import Justext4.Ledger

/-!
What is left in a session on a small image. Whatever calls have failed and
whenever the image has been opened again, the counts never say that more is free
than what the tree that is shown leaves, so no call runs one of them over: every
call returns or fails, and the session goes on.
-/
namespace Justext4.Headroom
open Justext4 Justext4.Fallible Justext4.Filesystem Justext4.Volumes Justext4.Mkfs Bytes
open Justext4.NamedTree
open Justext4.Nodes
open Justext4.Backing
open Justext4.Counts
open Justext4.Reading
open Justext4.Leaves
open Justext4.Allocation
open Justext4.Start
open Justext4.View
open Justext4.Calls
open Justext4.Refinement (FileTree)
open Justext4.Simulation (Run)
open Justext4.OnDisk
open Justext4.Sessions
open Justext4.Ledger

/-! ### A session goes on -/

section
variable {config : Config} {g : Geometry} {fs : Filesystem}

theorem opened_balanced (small : Calls.Small config) (opened : Opened config fs) :
    ∃ g, Whole config g ∧ Balanced g fs := by
  obtain ⟨image, ran, opens⟩ := id opened
  obtain ⟨layout, laid, -⟩ := Formatted.laid_of_format ran
  obtain ⟨g, v, whole, -, holds, consistent, counted, -⟩ := Progress.fresh_backs small laid
  rw [← opened.unique (fresh_opened small laid)] at holds
  have within := within_counted holds consistent counted
  have reader : fs.reader = image := (Decoders.opened_of opens).reader
  refine ⟨g, whole, v, _, holds, consistent, ⟨holds.static', holds.size, FlushedRecords.loaded_opened opens⟩, within, ?_⟩
  intro after again
  rw [reader] at again
  cases opens.symm.trans again
  exact within
theorem session_balanced {events : List Event} (small : Calls.Small config) (session : Session config events fs) :
    ∃ g, Whole config g ∧ Balanced g fs := by
  obtain ⟨start, opened, run⟩ := session
  obtain ⟨g, whole, balanced⟩ := opened_balanced small opened
  have known := whole.known
  have large : 2048 ≤ g.block_size := by omega
  exact ⟨g, whole, run.keeps (occurs_balanced large) balanced⟩

/-- Counts that are within what a tree leaves are far from the ends of their words. -/
theorem modest_within {v : Volume} {N : NodeMap} (whole : Whole config g) (holds : Holds g v fs)
    (within : Within (room g N) fs) : Modest g v := by
  obtain ⟨known, -, -, -, inodes, -, blocks_fit, inodes_fit, -⟩ := whole
  obtain ⟨blocks, numbers, group⟩ := within
  have all_blocks : (room g N).blocks ≤ g.total := clearBits_le _ _
  have all_inodes : (room g N).inodes ≤ g.per_group := clearBits_le _ _
  have all_dirs : (room g N).dirs ≤ g.inodes + 1 := dirs_le g N
  rw [holds.superblock] at blocks numbers
  rw [holds.gdt] at group
  refine ⟨blocks_fit, inodes_fit, by omega, by omega, by omega, fun gd found => ?_⟩
  obtain ⟨group_blocks, group_inodes, used⟩ := group gd found
  omega
/-- A call goes through or fails. -/
theorem execute_answers (whole : Whole config g) (balanced : Balanced g fs) {request : Request}
    (lets : Admissible fs request) :
    (∃ answer fs', (execute request).run fs = .ok answer fs') ∨ ∃ e fs', (execute request).run fs = .err e fs' := by
  obtain ⟨v, N, holds, consistent, kept⟩ := balanced
  have outcome := execute_ends holds consistent lets
  cases ran : (execute request).run fs with
  | ok answer fs' => exact .inl ⟨answer, fs', rfl⟩
  | err e fs' => exact .inr ⟨e, fs', rfl⟩
  | panic =>
    rw [ran] at outcome
    cases outcome with
    | panicked immodest => exact absurd (modest_within whole holds kept.within) immodest
end

/-- After any session every call that is let returns or fails, the image can be
    opened again, and the session goes on with either. -/
theorem sessions_go_on {config : Config} {events : List Event} {fs : Filesystem} (small : Calls.Small config)
    (session : Session config events fs) :
    (∀ request, Admissible fs request → ∃ e fs', Session config (events ++ [e]) fs' ∧
      ((∃ answer, e = .returned request answer ∧ (execute request).run fs = .ok answer fs') ∨
        ∃ error, e = .failed request ∧ (execute request).run fs = .err error fs')) ∧
    ∃ fs', open_image fs.reader = .ok fs' ∧ Session config (events ++ [.reopened]) fs' := by
  obtain ⟨g, whole, balanced⟩ := session_balanced small session
  obtain ⟨start, opened, run⟩ := session
  have goes_on : ∀ {e fs'}, Occurs fs e fs' → Session config (events ++ [e]) fs' := fun occurs =>
    ⟨start, opened, run.next occurs⟩
  constructor
  · intro request lets
    rcases execute_answers whole balanced lets with ⟨answer, fs', ran⟩ | ⟨error, fs', ran⟩
    · exact ⟨_, fs', goes_on (.returned lets ran), .inl ⟨answer, rfl, ran⟩⟩
    · exact ⟨_, fs', goes_on (.failed lets ran), .inr ⟨error, rfl, ran⟩⟩
  · have known := whole.known
    obtain ⟨v, N, holds, consistent, kept⟩ := balanced
    obtain ⟨sb, gdt, again, -⟩ := reopens holds kept.recorded (by omega)
    exact ⟨_, again, goes_on (.reopened again)⟩
/-- The image in which a directory has been made is opened once more. -/
theorem mkdir_session_goes_on : ∃ n, ∃ fs fs' : Filesystem, open_image fs.reader = .ok fs' ∧
    Session Config.default ([.returned (.mkdir [SLASH, 97]) (some n), .reopened] ++ [.reopened]) fs' := by
  obtain ⟨n, fs, session⟩ := mkdir_session
  obtain ⟨-, fs', again, session'⟩ := sessions_go_on default_small session
  exact ⟨n, fs, fs', again, session'⟩

/-! ### What the tree takes -/

/-- The blocks that something at a path takes. -/
def blocks_of (block_size : Nat) : Content → Nat
  | .dir => 1
  | .file data => div_ceil data.size block_size
  | .link _ => 0
/-- The blocks and the inodes of what is at these paths, but for the inode of the root. -/
def blocks_taken (block_size : Nat) (t : FileTree) (paths : List (List (List UInt8))) : Nat :=
  (paths.map fun q => ((t q).map fun e => blocks_of block_size e.content).getD 0).sum
def inodes_taken (t : FileTree) (paths : List (List (List UInt8))) : Nat :=
  paths.countP fun q => q ≠ [] ∧ (t q).isSome

/-- The blocks of a node, as where they start and how many there are. -/
def span : Node → Nat × Nat
  | .dir block _ _ => (block, 1)
  | .file start count => if count = 0 then (0, 0) else (start, count)
  | .link => (0, 0)

def Inside (run : Nat × Nat) (j : Nat) : Prop := run.1 ≤ j ∧ j < run.1 + run.2

/-- Runs of set bits that have none in common are off the count, all of them. -/
theorem clearBits_runs {ι : Type} (bit : Nat → Bool) {n : Nat} {run : ι → Nat × Nat} {items : List ι} (distinct : items.Nodup)
    (set : ∀ i ∈ items, ∀ j, Inside (run i) j → bit j = true) (fits : ∀ i ∈ items, (run i).1 + (run i).2 ≤ n)
    (apart : ∀ i ∈ items, ∀ k ∈ items, i ≠ k → ∀ j, Inside (run i) j → ¬ Inside (run k) j) :
    clearBits bit n + (items.map fun i => (run i).2).sum ≤ n := by
  induction items generalizing bit with
  | nil => exact clearBits_le bit n
  | cons first items ih =>
    obtain ⟨new, distinct⟩ := List.nodup_cons.mp distinct
    have head := List.mem_cons_self (a := first) (l := items)
    have later : ∀ i ∈ items, i ∈ first :: items := fun i member => List.mem_cons_of_mem _ member
    have given := clearBits_give bit (fun j low high => set first head j ⟨low, high⟩) (fits first head)
    have rest := ih (fun j => bit j && !decide ((run first).1 ≤ j ∧ j < (run first).1 + (run first).2)) distinct
      (fun i member j inside => ?_) (fun i member => fits i (later i member))
      fun i member k member' => apart i (later i member) k (later k member')
    · rw [List.map_cons, List.sum_cons]
      omega
    · have other : first ≠ i := fun same => new (same ▸ member)
      have outside := fun hit => apart first head i (later i member) other j hit inside
      rw [Bool.and_eq_true, Bool.not_eq_true', decide_eq_false_iff_not]
      exact ⟨set i (later i member) j inside, outside⟩
/-- The same above so many bits that are all set. -/
theorem clearBits_above {ι : Type} (bit : Nat → Bool) {n low : Nat} {run : ι → Nat × Nat} {items : List ι}
    (distinct : items.Nodup) (reserved : ∀ j < low, bit j = true) (within : low ≤ n)
    (set : ∀ i ∈ items, ∀ j, Inside (run i) j → low ≤ j ∧ bit j = true) (fits : ∀ i ∈ items, (run i).1 + (run i).2 ≤ n)
    (apart : ∀ i ∈ items, ∀ k ∈ items, i ≠ k → ∀ j, Inside (run i) j → ¬ Inside (run k) j) :
    clearBits bit n + low + (items.map fun i => (run i).2).sum ≤ n := by
  have given := clearBits_give bit (s := 0) (c := low) (n := n) (fun j _ high => reserved j (by omega)) (by omega)
  have rest := clearBits_runs (fun j => bit j && !decide (0 ≤ j ∧ j < 0 + low)) distinct (fun i member j inside => ?_)
    fits apart
  · omega
  · obtain ⟨above, taken⟩ := set i member j inside
    rw [taken, Bool.true_and, Bool.not_eq_true', decide_eq_false_iff_not]
    omega

section
variable {g : Geometry} {v : Volume} {N : NodeMap} {fs : Filesystem} {n : UInt32} {x : Node}

theorem inside_span (x : Node) (j : Nat) : Inside (span x) j ↔ x.Owns j := by
  cases x with
  | dir block parent kids => exact ⟨fun ⟨low, high⟩ => show j = block by simp only [span] at low high; omega,
      fun (same : j = block) => ⟨Nat.le_of_eq same.symm, by simp only [span]; omega⟩⟩
  | file start count =>
    rw [Inside, span]
    split
    · rename_i none
      rw [none]
      exact ⟨fun inside => by omega, fun (owns : _ ∧ _) => by omega⟩
    · exact Iff.rfl
  | link => exact ⟨fun ⟨_, high⟩ => by simp only [span] at high; omega, fun owns => owns.elim⟩
theorem span_fits (sound : Sound g v n x) : (span x).1 + (span x).2 ≤ g.total := by
  have total := g.limit_total
  by_cases some : 0 < (span x).2
  · have last := (sound.owned ((span x).1 + (span x).2 - 1) ((inside_span x _).mp ⟨by omega, by omega⟩)).2.1
    omega
  · cases x with
    | dir => exact absurd Nat.one_pos some
    | file start count =>
      have none : count = 0 := by
        by_contra other
        rw [span, if_neg other] at some
        omega
      rw [span, if_pos none]
      omega
    | link => exact Nat.zero_le _
theorem size_fileBytes (holds : Holds g v fs) (consistent : Consistent g v N) {start count : Nat}
    (here : N n = some (.file start count)) : (fileBytes v n start count).size = (v.slot n).size.toNat := by
  have backed : FileBacked g v n start count := (consistent.sound here).backed
  have positive := g.positive
  obtain ⟨data, blocks⟩ := file_data holds consistent here
  rw [Create.fileBytes_slices (by rw [← backed.size]; exact le_div_ceil (by omega)) blocks, size_slice]
theorem blocks_of_shown (holds : Holds g v fs) (consistent : Consistent g v N) (here : N n = some x) :
    blocks_of g.block_size (shown v n x) = (span x).2 := by
  cases x with
  | dir => rfl
  | file start count =>
    have backed : FileBacked g v n start count := (consistent.sound here).backed
    rw [shown, blocks_of, size_fileBytes holds consistent here, backed.size, span]
    split
    · assumption
    · rfl
  | link => rfl

/-- The node at a path. -/
def spot (N : NodeMap) (q : List (List UInt8)) : Option Node := (walk (child N) ROOT_INODE q).bind N

theorem spot_cases (holds : Holds g v fs) (consistent : Consistent g v N) (q : List (List UInt8)) :
    (tree fs q = none ∧ spot N q = none) ∨
    ∃ n x, walk (child N) ROOT_INODE q = some n ∧ N n = some x ∧ spot N q = some x ∧ tree fs q = some ⟨n, shown v n x⟩ := by
  rw [tree_eq holds consistent, picture, PathTree.view, spot]
  cases walked : walk (child N) ROOT_INODE q with
  | none => exact .inl ⟨rfl, rfl⟩
  | some n =>
    obtain ⟨x, here⟩ := Option.ne_none_iff_exists'.mp (walk_live consistent.linked.tree consistent.linked.tree.root_live walked)
    exact .inr ⟨n, x, rfl, here, here, entry_some here⟩

open Classical in
/-- The blocks that are left and those of what is at some paths. -/
theorem room_blocks (holds : Holds g v fs) (consistent : Consistent g v N) {paths : List (List (List UInt8))}
    (distinct : paths.Nodup) : (room g N).blocks + g.root + blocks_taken g.block_size (tree fs) paths ≤ g.total := by
  let run (q : List (List UInt8)) : Nat × Nat := ((spot N q).map span).getD (0, 0)
  have owned : ∀ {q j}, Inside (run q) j → ∃ n x, walk (child N) ROOT_INODE q = some n ∧ N n = some x ∧ x.Owns j := by
    intro q j inside
    rcases spot_cases holds consistent q with ⟨-, nowhere⟩ | ⟨n, x, walked, here, found, -⟩
    · rw [show run q = (0, 0) by simp [run, nowhere], Inside] at inside
      omega
    · rw [show run q = span x by simp [run, found], inside_span] at inside
      exact ⟨n, x, walked, here, inside⟩
  have taken : (paths.map fun q => (run q).2).sum = blocks_taken g.block_size (tree fs) paths := by
    refine congrArg List.sum (List.map_congr_left fun q _ => ?_)
    rcases spot_cases holds consistent q with ⟨nothing, nowhere⟩ | ⟨n, x, -, here, found, shows⟩
    · simp [run, nowhere, nothing]
    · simp [run, found, shows, blocks_of_shown holds consistent here]
  rw [← taken]
  refine clearBits_above (fun b => decide (Held g N b)) distinct (fun b low => decide_eq_true (.inl low))
    (Nat.le_of_lt g.root_inside) (fun q _ b inside => ?_) (fun q _ => ?_) fun p _ q _ other b inside inside' => ?_
  · obtain ⟨n, x, -, here, owns⟩ := owned inside
    exact ⟨((consistent.sound here).owned b owns).1, decide_eq_true (.inr ⟨n, x, here, owns⟩)⟩
  · rcases spot_cases holds consistent q with ⟨-, nowhere⟩ | ⟨n, x, -, here, found, -⟩
    · simp [run, nowhere]
    · rw [show run q = span x by simp [run, found]]
      exact span_fits (consistent.sound here)
  · obtain ⟨n, x, walked, here, owns⟩ := owned inside
    obtain ⟨m, y, walked', here', owns'⟩ := owned inside'
    by_cases same : n = m
    · exact other (path_unique consistent.linked.tree walked (same ▸ walked'))
    · exact consistent.apart here here' same b owns owns'
open Classical in
/-- The inodes that are left and those of what is at some paths. -/
theorem room_inodes (holds : Holds g v fs) (consistent : Consistent g v N) (whole : g.inodes = g.per_group)
    (reserved : 10 ≤ g.per_group) {paths : List (List (List UInt8))} (distinct : paths.Nodup) :
    (room g N).inodes + 10 + inodes_taken (tree fs) paths ≤ g.per_group := by
  let run (q : List (List UInt8)) : Nat × Nat :=
    ((walk (child N) ROOT_INODE q).map fun n => (n.toNat - 1, 1)).getD (0, 0)
  have numbered : ∀ {q}, q ∈ paths.filter (fun q => q ≠ [] ∧ (tree fs q).isSome) →
      ∃ n x, walk (child N) ROOT_INODE q = some n ∧ N n = some x ∧ run q = (n.toNat - 1, 1) ∧ 11 ≤ n.toNat := by
    intro q member
    obtain ⟨below, shows⟩ := of_decide_eq_true (List.mem_filter.mp member).2
    rcases spot_cases holds consistent q with ⟨nothing, -⟩ | ⟨n, x, walked, here, -⟩
    · rw [nothing] at shows
      cases shows
    refine ⟨n, x, walked, here, by simp [run, walked], ?_⟩
    rcases (consistent.sound here).number with root | large
    · exact absurd (path_unique consistent.linked.tree walked (root ▸ rfl)) below
    · exact large
  have inside_number : ∀ {n j : Nat}, Inside (n - 1, 1) j ↔ j = n - 1 := by
    intro n j
    rw [Inside]
    omega
  have taken : ((paths.filter fun q => q ≠ [] ∧ (tree fs q).isSome).map fun q => (run q).2).sum =
      inodes_taken (tree fs) paths := by
    have ones : (paths.filter fun q => q ≠ [] ∧ (tree fs q).isSome).map (fun q => (run q).2) =
        (paths.filter fun q => q ≠ [] ∧ (tree fs q).isSome).map fun _ => 1 := by
      refine List.map_congr_left fun q member => ?_
      obtain ⟨n, x, -, -, same, -⟩ := numbered member
      rw [same]
    rw [ones, List.map_const', List.sum_replicate_nat, Nat.mul_one, inodes_taken, List.countP_eq_length_filter]
  rw [← taken]
  refine clearBits_above (fun i => decide (Numbered N i)) (distinct.filter _) (fun i low => decide_eq_true (.inl low))
    reserved (fun q member i inside => ?_) (fun q member => ?_) fun p member q member' other i inside inside' => ?_
  · obtain ⟨n, x, -, here, same, large⟩ := numbered member
    rw [same, inside_number] at inside
    refine ⟨by omega, decide_eq_true (.inr ?_)⟩
    rw [inside, Nat.sub_add_cancel (by omega), UInt32.ofNat_toNat]
    exact live_of here
  · obtain ⟨n, x, -, here, same, large⟩ := numbered member
    have listed := (consistent.sound here).listed
    rw [same]
    show n.toNat - 1 + 1 ≤ _
    omega
  · obtain ⟨n, x, walked, -, same, large⟩ := numbered member
    obtain ⟨m, y, walked', -, same', large'⟩ := numbered member'
    rw [same, inside_number] at inside
    rw [same', inside_number] at inside'
    have one : n = m := UInt32.toNat_inj.mp (by omega)
    exact other (path_unique consistent.linked.tree walked (one ▸ walked'))
end

/-- So many free blocks and inodes are within the image, beside its metadata and
    what is at some paths. -/
def Affords (config : Config) (layout : Layout) (t : FileTree) (paths : List (List (List UInt8))) (blocks inodes : Nat) :
    Prop :=
  blocks + layout.root_dir_block + blocks_taken config.block_size.toNat t paths ≤ config.size_blocks.toNat ∧
    inodes + 10 + inodes_taken t paths ≤ config.inodes_per_group.toNat

/-- After any session the counts never say that more is free than what the tree
    that is shown leaves of the image. -/
theorem sessions_afford {config : Config} {layout : Layout} {events : List Event} {fs : Filesystem}
    (small : Calls.Small config) (laid : Layout.from_config config = .ok layout) (session : Session config events fs)
    (paths : List (List (List UInt8))) (distinct : paths.Nodup) :
    Affords config layout (tree fs) paths fs.superblock.free_blocks_count.toNat fs.superblock.free_inodes_count.toNat ∧
      ∀ gd ∈ fs.gdt, Affords config layout (tree fs) paths gd.free_blocks_count.toNat gd.free_inodes_count.toNat := by
  obtain ⟨g, whole, v, N, holds, consistent, kept⟩ := session_balanced small session
  have most := (Formatted.accepted_of_layout laid).inodes
  have numbers := whole.per_group
  have blocks := room_blocks holds consistent distinct
  have inodes := room_inodes holds consistent whole.inodes (by omega) distinct
  obtain ⟨layout', laid', root⟩ := whole.laid
  cases laid.symm.trans laid'
  rw [root, whole.block_size, whole.total] at blocks
  rw [whole.per_group] at inodes
  obtain ⟨free_blocks, free_inodes, group⟩ := kept.within
  have affords : ∀ {b i}, b ≤ (room g N).blocks → i ≤ (room g N).inodes → Affords config layout (tree fs) paths b i := by
    intro b i fewer fewer'
    constructor <;> omega
  refine ⟨affords free_blocks free_inodes, fun gd member => ?_⟩
  obtain ⟨only, list⟩ := List.length_eq_one_iff.mp (kept.recorded.static.length.trans whole.groups)
  have first : fs.gdt[0]? = some gd := by
    rw [list, List.mem_singleton] at member
    rw [list, member]
    rfl
  obtain ⟨group_blocks, group_inodes, -⟩ := group gd first
  exact affords group_blocks group_inodes
/-- A directory has been made: it and the root are at two paths. -/
theorem mkdir_session_affords : ∃ n fs, Session Config.default [.returned (.mkdir [SLASH, 97]) (some n), .reopened] fs ∧
    Affords Config.default defaultLayout (tree fs) [[], [[97]]] fs.superblock.free_blocks_count.toNat
      fs.superblock.free_inodes_count.toNat := by
  obtain ⟨n, fs, session⟩ := mkdir_session
  exact ⟨n, fs, session, (sessions_afford default_small rfl session [[], [[97]]] (by decide)).1⟩

end Justext4.Headroom
