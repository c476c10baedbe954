import Justext4.Calls

/-!
Calls that go through. A creation lacks nothing when an inode, a run of blocks
and room for the name are there; the counts of a small image are modest, so it
does not panic either. What a fresh image holds is known, and names in its root
are found and entered.
-/
namespace Justext4.Progress
open Justext4 Justext4.Fallible Justext4.Filesystem Justext4.Volumes Justext4.Mkfs
open Justext4.Bytes (zeros)
open Justext4.NamedTree (walk walk_cons)
open Justext4.DirBlock
open Justext4.Nodes
open Justext4.Backing
open Justext4.Counts
open Justext4.Reading
open Justext4.Allocation
open Justext4.Entries
open Justext4.Create
open Justext4.Paths
open Justext4.Start
open Justext4.Formatted (accepted_of_layout)
open Justext4.Calls

/-- What a fresh image of a small configuration holds. -/
theorem fresh_backs {config : Config} {layout : Layout} (small : Small config)
    (laid : Layout.from_config config = .ok layout) :
    ∃ g v, Whole config g ∧ g.blocks = g.total ∧ Holds g v (fresh config layout) ∧ Consistent g v (rootOnly layout.root_dir_block) ∧
      Counted g v (dirs g (rootOnly layout.root_dir_block)) ∧ Tight g v (rootOnly layout.root_dir_block) ∧
      tail_room (v.block layout.root_dir_block) = config.block_size.toNat - 24 := by
  obtain ⟨size, fewBlocks, fewInodes⟩ := small
  have covered : Covered config layout := ⟨laid, by omega, fewBlocks, fewInodes⟩
  obtain ⟨image, ran, opened, holds, consistent, counted, tight⟩ := start_short covered ⟨by omega, by omega⟩
  have same : image_of config = image := by rw [image_of, ran]
  rw [← same] at holds consistent counted tight ran
  rw [← dirs_rootOnly _ layout.root_dir_block] at counted
  exact ⟨largeGeometry covered.usable covered.large, _, ⟨size, rfl, rfl, rfl, rfl, one_group covered, fewBlocks, fewInodes,
    layout, laid, (accepted_of_layout laid).root.symm⟩, rfl, holds, consistent, counted, tight, root_room covered ran⟩

section
variable {g : Geometry} {v : Volume} {N : NodeMap} {fs : Filesystem} {config : Config} {path name : List UInt8}

/-- The counts of a small image are far from the ends of their words. -/
theorem modest (whole : Whole config g) (counted : Counted g v (dirs g N)) : Modest g v := by
  obtain ⟨known, -, -, -, inodes, -, blocks_fit, inodes_fit, -⟩ := whole
  have blocks := clearBits_le v.blockBit g.total
  have numbers := clearBits_le v.inodeBit g.per_group
  have used := dirs_le g N
  refine ⟨blocks_fit, inodes_fit, by omega, ?_, ?_, ?_⟩
  · rw [counted.blocks]
    omega
  · rw [counted.inodes]
    omega
  · intro gd found
    obtain ⟨groupBlocks, groupInodes, groupDirs⟩ := counted.group gd found
    omega

/-- A creation that is not refused and lacks nothing goes through. -/
theorem creation_made {refusal : Prop} {count : Nat} {new : Volume → UInt32 → Node → Prop}
    {ended : Ended Filesystem Ext4Error UInt32} (creation : Creation g v N fs path refusal count new ended)
    (heard : ¬ refusal) (modest : Modest g v) (enough : ¬ Shortage g v N path count) :
    ∃ n fs' v' N' x, ended = .ok n fs' ∧ Holds g v' fs' ∧ WrittenOut g fs' ∧ Grown g v v' N N' path n x ∧ new v' n x := by
  cases creation with
  | refused why => exact absurd why heard
  | panicked immodest => exact absurd modest immodest
  | wasted _ _ lacks => exact absurd lacks enough
  | made holds written grown held => exact ⟨_, _, _, _, _, rfl, holds, written, grown, held⟩

/-! ### Names in the root -/

theorem split_root {name : List UInt8} (component : Component name) : split_path (SLASH :: name) = .ok ([SLASH], name) := by
  have last := split_last_join component.2 []
  have trimmed := trim_end_name component []
  have full : name.isEmpty = false := by simpa using component.1
  rw [List.nil_append] at last trimmed
  rw [split_path, trimmed, last]
  show (do ensure (!name.isEmpty) _; Except.ok _ : Res Ext4Error _) = _
  rw [full]
  rfl

theorem component_of_proper {name : List UInt8} (proper : Proper name) : Component name := ⟨proper.1, proper.2.1⟩

variable {block : Nat} {parent : UInt32} {kids : List Kid}

theorem root_directory (found : N ROOT_INODE = some (.dir block parent kids)) :
    Directory N [SLASH] ROOT_INODE block parent kids := ⟨rfl, found⟩
theorem root_place (found : N ROOT_INODE = some (.dir block parent kids)) (proper : Proper name)
    (free : named kids name = none) : Place g v N (SLASH :: name) [SLASH] name ROOT_INODE block parent kids := by
  refine ⟨split_root (component_of_proper proper), root_directory found, ?_⟩
  rw [named_listing _ proper.2.2.1 proper.2.2.2]
  exact free

/-- A path to a free name is not refused while there is an inode. -/
theorem not_refused {parent_path : List UInt8} {p : UInt32} (holds : Holds g v fs) (consistent : Consistent g v N)
    (place : Place g v N path parent_path name p block parent kids) {i : Nat} (inside : i < g.per_group)
    (covered : i < 8 * g.block_size) (clear : v.inodeBit i = false) : ¬ Refused fs path := by
  intro refused
  have absent := ensure_absent_ok holds consistent place.directory.found name
  rw [if_pos place.free] at absent
  have none := refused _ _ _ _ place.split (open_directory_ok holds consistent place.directory) absent
  rcases allocate_inode_spec holds with ⟨used, -⟩ | ⟨i, fs', -, -, -, ran, -⟩
  · rw [used i (by omega)] at clear
    cases clear
  · rw [allocate_inode_none none] at ran
    cases ran

/-- A run of clear bits of the block bitmap. -/
def FreeRun (g : Geometry) (v : Volume) (count : Nat) : Prop :=
  ∃ t, t + count ≤ min g.blocks (8 * g.block_size) ∧ ∀ j, t ≤ j → j < t + count → v.blockBit j = false

theorem freeRun_zero (g : Geometry) (v : Volume) : FreeRun g v 0 := ⟨0, by omega, by omega⟩

/-- A creation lacks nothing while there are blocks and room. -/
theorem enough_room {parent_path : List UInt8} {p : UInt32} {count : Nat} (whole : g.inodes = g.per_group)
    (place : Place g v N path parent_path name p block parent kids) (room : has_room (v.block block) name = true)
    (short : count ≤ 32768) (run : FreeRun g v count) : ¬ Shortage g v N path count := by
  intro lacks
  cases lacks with
  | inodes few => omega
  | blocks none =>
    obtain ⟨t, inside, clear⟩ := run
    obtain ⟨j, low, high, set⟩ := none t inside
    rw [clear j low high] at set
    cases set
  | extent long => omega
  | room place' full =>
    cases place.split.symm.trans place'.split
    have same := Option.some.inj (place.directory.walked.symm.trans place'.directory.walked)
    subst same
    cases place.directory.found.symm.trans place'.directory.found
    rw [room] at full
    cases full
end

/-! ### Filling the root -/

/-- The entries of new inodes in a row, the first one with the number `n`. -/
def lined (n : Nat) : List (List UInt8 × UInt8) → List Kid
  | [] => []
  | (name, code) :: items => ⟨name, .ofNat n, code⟩ :: lined (n + 1) items

theorem lined_snoc (n : Nat) (items : List (List UInt8 × UInt8)) (name : List UInt8) (code : UInt8) :
    lined n (items ++ [(name, code)]) = lined n items ++ [⟨name, .ofNat (n + items.length), code⟩] := by
  induction items generalizing n with
  | nil => simp [lined]
  | cons item items ih =>
    rw [List.cons_append, lined, lined, ih, List.cons_append, List.length_cons, show n + 1 + items.length =
      n + (items.length + 1) by omega]
theorem lined_names (n : Nat) (items : List (List UInt8 × UInt8)) :
    (lined n items).map (·.name) = items.map (·.1) := by
  induction items generalizing n with
  | nil => rfl
  | cons item items ih => rw [lined, List.map_cons, List.map_cons, ih]
theorem lined_mem {n : Nat} {items : List (List UInt8 × UInt8)} {item : List UInt8 × UInt8} (member : item ∈ items) :
    ∃ k ∈ lined n items, k.name = item.1 ∧ k.code = item.2 := by
  induction items generalizing n with
  | nil => cases member
  | cons first items ih =>
    rcases List.mem_cons.mp member with rfl | later
    · exact ⟨_, List.mem_cons_self .., rfl, rfl⟩
    · obtain ⟨k, inside, facts⟩ := ih (n := n + 1) later
      exact ⟨k, List.mem_cons_of_mem _ inside, facts⟩
theorem named_lined {n : Nat} {items : List (List UInt8 × UInt8)} {name : List UInt8} (new : name ∉ items.map (·.1)) :
    named (lined n items) name = none := by
  rw [named_none]
  rintro k member rfl
  exact new (lined_names n items ▸ List.mem_map_of_mem member)

/-- The root holds these entries, of as many inodes in a row, and has this much
    room left. -/
structure Row (g : Geometry) (items : List (List UInt8 × UInt8)) (left : Nat) (fs : Filesystem) (v : Volume) (N : NodeMap) :
    Prop where
  holds : Holds g v fs
  consistent : Consistent g v N
  counted : Counted g v (dirs g N)
  tight : Tight g v N
  root : ∃ block, N ROOT_INODE = some (.dir block ROOT_INODE (lined 11 items)) ∧ tail_room (v.block block) = left
  bits : ∀ i < g.per_group, v.inodeBit i = decide (i < 10 + items.length)

/-- A fresh image has an empty row. -/
theorem fresh_row {config : Config} {layout : Layout} (small : Small config)
    (laid : Layout.from_config config = .ok layout) :
    ∃ g v, Whole config g ∧ g.blocks = g.total ∧ (∀ b < g.total, layout.root_dir_block < b → v.blockBit b = false) ∧
      Row g [] (config.block_size.toNat - 24) (fresh config layout) v (rootOnly layout.root_dir_block) := by
  obtain ⟨g, v, whole, blocks, holds, consistent, counted, tight, room⟩ := fresh_backs small laid
  refine ⟨g, v, whole, blocks, ?_, holds, consistent, counted, tight, ⟨_, if_pos rfl, room⟩, ?_⟩
  · intro b inside past
    cases bit : v.blockBit b with
    | false => rfl
    | true =>
      obtain ⟨layout', laid', root⟩ := whole.laid
      cases laid.symm.trans laid'
      rcases tight.blocks b inside bit with metadata | ⟨n, x, found, owns⟩
      · omega
      · obtain ⟨-, rfl⟩ := rootOnly_some found
        have same : b = layout.root_dir_block := owns
        omega
  · intro i inside
    cases bit : v.inodeBit i with
    | false =>
      rw [eq_comm, decide_eq_false_iff_not]
      intro low
      rw [consistent.reserved i low] at bit
      cases bit
    | true =>
      rw [eq_comm, decide_eq_true_eq]
      rcases tight.inodes i inside bit with low | live
      · exact low
      · cases found : rootOnly layout.root_dir_block (.ofNat (i + 1)) with
        | none => exact absurd found live
        | some x =>
          have word := per_group_word g
          have number := congrArg UInt32.toNat (rootOnly_some found).1
          rw [word32 (by omega)] at number
          have two : ROOT_INODE.toNat = 2 := rfl
          show i < 10
          omega

section
variable {g : Geometry} {v v' : Volume} {N N' : NodeMap} {fs fs' : Filesystem} {name : List UInt8}
  {items : List (List UInt8 × UInt8)} {left : Nat} {n : UInt32} {x : Node}

theorem Row.free (row : Row g items left fs v N) (few : 10 + items.length < g.per_group) :
    v.inodeBit (10 + items.length) = false := by
  rw [row.bits _ few, decide_eq_false (Nat.lt_irrefl _)]

/-- A link of the row is a node. -/
theorem Row.linked (row : Row g items left fs v N) (nodup : (items.map (·.1)).Nodup) (member : (name, 7) ∈ items) :
    ∃ k, named (lined 11 items) name = some k ∧ N k = some .link := by
  obtain ⟨block, root, -⟩ := row.root
  obtain ⟨k, inside, rfl, code⟩ := lined_mem (n := 11) member
  obtain ⟨x, here, same, -⟩ := row.consistent.linked.kids root k inside
  rw [code] at same
  refine ⟨k.inode, named_mem (by rw [lined_names]; exact nodup) inside, ?_⟩
  cases x with
  | dir => cases same
  | file => cases same
  | link => exact here

/-- A new entry of the root goes to the end of the row. -/
theorem Row.grow (row : Row g items left fs v N) (whole : g.inodes = g.per_group) (few : 10 + items.length < g.per_group)
    (proper : Proper name) (holds : Holds g v' fs') (grown : Grown g v v' N N' (SLASH :: name) n x) :
    Row g (items ++ [(name, x.code)]) (left - DirEntry.pad4 (8 + name.length)) fs' v' N' ∧
      n.toNat = 11 + items.length ∧ N' n = some x := by
  obtain ⟨block, root, room⟩ := row.root
  obtain ⟨⟨parent_path, name', p, block', parent, kids, place, nodes, -, entered⟩, dead, leaf, consistent, counted, tight, -,
    number, first, inodeBit⟩ := grown
  cases place.split.symm.trans (split_root (component_of_proper proper))
  have same : p = ROOT_INODE := by
    have walked : walk (step N) ROOT_INODE (components [SLASH]) = some p := place.directory.walked
    exact (Option.some.inj walked).symm
  subst same
  cases place.directory.found.symm.trans root
  have here : N' n = some x := by rw [nodes, withLeaf, Nodes.insert, if_pos rfl]
  have inside : n.toNat ≤ g.per_group := whole ▸ (consistent.sound here).listed
  have word := per_group_word g
  -- The inode is the first one that no node has.
  have next : n.toNat = 11 + items.length := by
    have low : n.toNat - 1 ≤ 10 + items.length := by
      apply Nat.le_of_not_lt
      intro past
      have set := first _ past
      rw [row.free few] at set
      cases set
    have high : ¬ n.toNat - 1 < 10 + items.length := by
      intro below
      have set : v.inodeBit (n.toNat - 1) = true := by
        rw [row.bits _ (by omega), decide_eq_true below]
      rcases row.tight.inodes _ (by omega) set with low | live
      · omega
      · rw [Nat.sub_add_cancel (by omega), UInt32.ofNat_toNat] at live
        exact live dead
    omega
  refine ⟨⟨holds, consistent, counted row.counted, tight row.tight, ⟨block, ?_, ?_⟩, ?_⟩, next, here⟩
  · have other : ROOT_INODE ≠ n := by
      rintro rfl
      rw [root] at dead
      cases dead
    rw [nodes, withLeaf, Nodes.insert, if_neg other, addKid, modify_at root, lined_snoc, ← next, UInt32.ofNat_toNat]
    rfl
  · have taken := entered.room
    omega
  · intro i small
    rw [inodeBit, row.bits i small, List.length_append, List.length_singleton, next]
    rw [Bool.eq_iff_iff, Bool.or_eq_true, decide_eq_true_eq, decide_eq_true_eq, decide_eq_true_eq]
    omega

/-- A path to a name that the row does not have lacks nothing. -/
theorem Row.ready (row : Row g items left fs v N) {config : Config} (whole : Whole config g)
    (few : 10 + items.length < g.per_group) (proper : Proper name) (new : name ∉ items.map (·.1))
    (short : name.length ≤ 255) (room : DirEntry.pad4 (8 + name.length) ≤ left) {count : Nat} (fits : count ≤ 32768)
    (run : FreeRun g v count) : ¬ Refused fs (SLASH :: name) ∧ ¬ Shortage g v N (SLASH :: name) count := by
  obtain ⟨block, root, left_room⟩ := row.root
  have covered := whole.inodes_fit
  have place : Place g v N (SLASH :: name) [SLASH] name ROOT_INODE block ROOT_INODE _ :=
    root_place root proper (named_lined new)
  have roomy : has_room (v.block block) name = true := by
    rw [has_room_eq, decide_eq_true_eq]
    omega
  exact ⟨not_refused row.holds row.consistent place few (by omega) (row.free few),
    enough_room whole.inodes place roomy fits run⟩

/-- A new directory goes to the end of the row. -/
theorem Row.dir (row : Row g items left fs v N) {config : Config} (whole : Whole config g)
    (few : 10 + items.length < g.per_group) (proper : Proper name) (new : name ∉ items.map (·.1))
    (short : name.length ≤ 255) (room : DirEntry.pad4 (8 + name.length) ≤ left) (run : FreeRun g v 1) :
    ∃ n fs' v' N', (execute (.mkdir (SLASH :: name))).run fs = .ok (some n) fs' ∧
      Row g (items ++ [(name, 2)]) (left - DirEntry.pad4 (8 + name.length)) fs' v' N' ∧ n.toNat = 11 + items.length ∧
      ∃ block, N' n = some (.dir block ROOT_INODE []) ∧ tail_room (v'.block block) = g.block_size - 24 := by
  obtain ⟨heard, enough⟩ := row.ready whole few proper new short room (by decide) run
  obtain ⟨n, fs', v', N', x, ran, holds, -, grown, code, bare⟩ := creation_made
    (mkdir_ends row.holds row.consistent (SLASH :: name)) heard (modest whole row.counted) enough
  obtain ⟨row', number, here⟩ := row.grow whole.inodes few proper holds grown
  rw [code] at row'
  refine ⟨n, fs', v', N', ?_, row', number, ?_⟩
  · rw [execute, numbered, run_bind, ran]
    rfl
  · obtain ⟨⟨parent_path, name', p, block, parent, kids, place, -, back, -⟩, -, leaf, -⟩ := grown
    cases place.split.symm.trans (split_root (component_of_proper proper))
    have walked : walk (step N) ROOT_INODE (components [SLASH]) = some p := place.directory.walked
    cases walked
    cases x with
    | dir b q ks =>
      cases show ks = [] from leaf
      cases back q rfl
      exact ⟨b, here, bare b rfl⟩
    | file => cases code
    | link => cases code

/-- A new file goes to the end of the row. -/
theorem Row.file (row : Row g items left fs v N) {config : Config} (whole : Whole config g)
    (few : 10 + items.length < g.per_group) (proper : Proper name) (new : name ∉ items.map (·.1))
    (short : name.length ≤ 255) (room : DirEntry.pad4 (8 + name.length) ≤ left) {data : Bytes}
    (fits : div_ceil data.size g.block_size ≤ 32768) (run : FreeRun g v (div_ceil data.size g.block_size)) :
    ∃ n fs' v' N' x, (create_file (SLASH :: name) data).run fs = .ok n fs' ∧
      Row g (items ++ [(name, 1)]) (left - DirEntry.pad4 (8 + name.length)) fs' v' N' ∧ n.toNat = 11 + items.length ∧
      N' n = some x ∧ Filled g data v' n x := by
  obtain ⟨heard, enough⟩ := row.ready whole few proper new short room fits run
  obtain ⟨n, fs', v', N', x, ran, holds, -, grown, filled⟩ := creation_made
    (create_file_ends row.holds row.consistent (SLASH :: name) (.inl (by omega))) heard (modest whole row.counted) enough
  obtain ⟨row', number, here⟩ := row.grow whole.inodes few proper holds grown
  obtain ⟨start, count, rfl, content⟩ := filled
  exact ⟨n, fs', v', N', _, ran, row', number, here, start, count, rfl, content⟩

/-- A new link goes to the end of the row. -/
theorem Row.link (row : Row g items left fs v N) {config : Config} (whole : Whole config g)
    (few : 10 + items.length < g.per_group) (proper : Proper name) (new : name ∉ items.map (·.1))
    (short : name.length ≤ 255) (room : DirEntry.pad4 (8 + name.length) ≤ left) {target : Bytes} (text : target.size ≠ 0)
    (fits : target.size ≤ 60) :
    ∃ answer fs' v' N', (execute (.symlink (SLASH :: name) target)).run fs = .ok answer fs' ∧
      Row g (items ++ [(name, 7)]) (left - DirEntry.pad4 (8 + name.length)) fs' v' N' := by
  obtain ⟨heard, enough⟩ := row.ready whole few proper new short room (by decide) (freeRun_zero g v)
  have heard : ¬ RefusedLink fs (SLASH :: name) target := by
    rintro (empty | long | refused)
    · exact text empty
    · omega
    · exact heard refused
  obtain ⟨n, fs', v', N', x, ran, holds, -, grown, rfl, -⟩ := creation_made
    (symlink_ends row.holds row.consistent (SLASH :: name) target) heard (modest whole row.counted) enough
  refine ⟨some n, fs', v', N', ?_, (row.grow whole.inodes few proper holds grown).1⟩
  rw [execute, numbered, run_bind, ran]
  rfl

/-- The state after a list of calls, when all of them return. -/
def after : List Request → Filesystem → Option Filesystem
  | [], fs => some fs
  | request :: requests, fs =>
    match (execute request).run fs with
    | .ok _ fs' => after requests fs'
    | _ => none

theorem after_cons {request : Request} {answer : Option UInt32} {fs₁ : Filesystem} (requests : List Request)
    (ran : (execute request).run fs = .ok answer fs₁) : after (request :: requests) fs = after requests fs₁ := by
  rw [after, ran]
theorem after_reached {config : Config} {requests : List Request} (reached : Reached config Admissible fs)
    (lets : ∀ request ∈ requests, ∀ fs, Admissible fs request) (ran : after requests fs = some fs') :
    Reached config Admissible fs' := by
  induction requests generalizing fs with
  | nil =>
    cases ran
    exact reached
  | cons request requests ih =>
    cases first : (execute request).run fs with
    | ok answer fs₁ =>
      rw [after_cons _ first] at ran
      obtain ⟨start, opened, run⟩ := reached
      exact ih ⟨start, opened, run.tail (.returns (lets _ (List.mem_cons_self ..) _) first)⟩
        (fun request member => lets request (List.mem_cons_of_mem _ member)) ran
    | err e fs₁ =>
      rw [after, first] at ran
      cases ran
    | panic =>
      rw [after, first] at ran
      cases ran

/-- What the entries of a list of names take. -/
def taken : List (List UInt8) → Nat
  | [] => 0
  | name :: names => DirEntry.pad4 (8 + name.length) + taken names
/-- Links under these names, each to the same target. -/
def links (target : Bytes) (names : List (List UInt8)) : List Request :=
  names.map fun name => .symlink (SLASH :: name) target

/-- A row of links. -/
theorem Row.links {config : Config} (whole : Whole config g) {target : Bytes} (text : target.size ≠ 0)
    (fits : target.size ≤ 60) {names : List (List UInt8)} (row : Row g items left fs v N)
    (few : 10 + items.length + names.length ≤ g.per_group) (each : ∀ name ∈ names, Proper name ∧ name.length ≤ 255)
    (nodup : (items.map (·.1) ++ names).Nodup) (room : taken names ≤ left) :
    ∃ fs' v' N', after (links target names) fs = some fs' ∧
      Row g (items ++ names.map fun name => (name, 7)) (left - taken names) fs' v' N' := by
  induction names generalizing items left fs v N with
  | nil => exact ⟨fs, v, N, rfl, by simpa [taken] using row⟩
  | cons name names ih =>
    rw [List.length_cons] at few
    rw [taken] at room
    obtain ⟨proper, short⟩ := each name (List.mem_cons_self ..)
    have new : name ∉ items.map (·.1) := fun member =>
      (List.nodup_append.mp nodup).2.2 name member name (List.mem_cons_self ..) rfl
    obtain ⟨answer, fs₁, v₁, N₁, ran, row₁⟩ := row.link whole (by omega) proper new short (by omega) text fits
    obtain ⟨fs', v', N', later, row'⟩ := ih row₁ (by rw [List.length_append, List.length_singleton]; omega)
      (fun name member => each name (List.mem_cons_of_mem _ member)) (by simpa using nodup) (by omega)
    refine ⟨fs', v', N', (after_cons _ ran).trans later, ?_⟩
    rw [List.append_assoc, Nat.sub_sub] at row'
    exact row'
end

/-! ### A directory, and a file that is lost -/

/-- The default image after `mkdir("/a")`. -/
theorem one_directory : ∃ g v N fs left block b, Whole Config.default g ∧
    (execute (.mkdir [SLASH, 97])).run (fresh Config.default defaultLayout) = .ok (some 11) fs ∧ Row g [([97], 2)] left fs v N ∧
    N ROOT_INODE = some (.dir block ROOT_INODE [⟨[97], 11, 2⟩]) ∧ N 11 = some (.dir b ROOT_INODE []) ∧
    has_room (v.block block) [98] = true ∧ has_room (v.block b) [98] = true := by
  obtain ⟨g, v, whole, blocks, clear, row⟩ := fresh_row default_small (show Layout.from_config Config.default = .ok defaultLayout from rfl)
  have numbers : g.per_group = 32 := whole.per_group
  have total : g.total = 16 := whole.total
  have size : g.block_size = 4096 := whole.block_size
  have run : FreeRun g v 1 := ⟨7, by rw [blocks, total, size]; decide, fun j low high => clear j (by omega) low⟩
  obtain ⟨n, fs, v', N', ran, row', number, b, here, room⟩ := row.dir whole (by rw [numbers]; decide)
    (show Proper [97] by decide) (by decide) (by decide) (by decide) run
  obtain ⟨block, root, rootRoom⟩ := row'.root
  have number' : n = 11 := UInt32.toNat_inj.mp number
  subst number'
  refine ⟨g, v', N', fs, _, block, b, whole, ran, row', root, here, ?_, ?_⟩
  · rw [has_room_eq, rootRoom]
    decide
  · rw [has_room_eq, room, size]
    decide
theorem opens_directory {N : NodeMap} {block b : Nat} (root : N ROOT_INODE = some (.dir block ROOT_INODE [⟨[97], 11, 2⟩]))
    (here : N 11 = some (.dir b ROOT_INODE [])) : Directory N [SLASH, 97] 11 b ROOT_INODE [] := by
  have walked : walk (step N) ROOT_INODE [[97]] = some 11 := by
    rw [walk_cons]
    exact ⟨11, (step_dir root [97]).trans rfl, rfl⟩
  exact ⟨walked, here⟩

/-- A file of more blocks than the image has is refused when its inode is taken. -/
theorem large_file_refused {g : Geometry} {v : Volume} {N : NodeMap} {fs : Filesystem} {path parent_path name : List UInt8}
    {p : UInt32} {block : Nat} {parent : UInt32} {kids : List Kid} {data : Bytes} {i : Nat} (holds : Holds g v fs)
    (consistent : Consistent g v N) (modest : Modest g v) (place : Place g v N path parent_path name p block parent kids)
    (inside : i < g.per_group) (covered : i < 8 * g.block_size) (clear : v.inodeBit i = false)
    (large : g.total < div_ceil data.size g.block_size % 4294967296) :
    ∃ fs', (execute (.create_file path data)).run fs = .err (.NoSpace "blocks") fs' ∧ fs' ≠ fs := by
  rcases under_ends path holds consistent (fun _ parent_inode filename => create_file_at data parent_inode filename) with
    ⟨refused, -⟩ | ⟨_, name, p, _, _, _, -, ran⟩
  · exact absurd refused (not_refused holds consistent place inside covered clear)
  rcases allocate_fresh holds consistent with ⟨used, -⟩ | ⟨n, fs₁, fresh, taken, holds₁⟩
  · rw [used i (by omega)] at clear
    cases clear
  rcases allocate_blocks_spec holds₁ _ (Nat.zero_lt_of_lt large) with ⟨none, -⟩ | ⟨-, past⟩ | ⟨start, _, fits, -⟩
  · refine ⟨fs₁, ?_, (Wasted.inode fresh).differs holds holds₁⟩
    have block_size : fs.superblock.block_size.toNat = g.block_size := holds.static'.block_size
    have late : (create_file_at data (v.slot p) name).run fs = .err (.NoSpace "blocks") fs₁ := by
      simp only [create_file_at, run_bind, run_reads, ofRes_ok, andThen_ok, taken, block_size, none, andThen_err]
    rw [execute, numbered, create_file_eq, run_bind, ran, late, andThen_err]
  · exact absurd modest.blocks_fit (Nat.not_le_of_lt past)
  · have high := g.blocks_high
    omega

/-- A file that is too large for the image fails after a directory has been made,
    and its inode stays taken. -/
theorem lost_file : ∃ fs fs', (execute (.mkdir [SLASH, 97])).run (fresh Config.default defaultLayout) = .ok (some 11) fs ∧
    ReachedOk Config.default Admissible fs ∧ Admissible fs (.create_file [SLASH, 98] (zeros 65537)) ∧
    (execute (.create_file [SLASH, 98] (zeros 65537))).run fs = .err (.NoSpace "blocks") fs' ∧ fs' ≠ fs ∧
    Reached Config.default Admissible fs' := by
  obtain ⟨g, v, N, fs, left, block, b, whole, ran, row, root, -⟩ := one_directory
  have sized : g.block_size = 4096 := whole.block_size
  have total : g.total = 16 := whole.total
  have numbers : g.per_group = 32 := whole.per_group
  have place : Place g v N [SLASH, 98] [SLASH] [98] ROOT_INODE block ROOT_INODE _ :=
    root_place root (show Proper [98] by decide) rfl
  have blocks : div_ceil (zeros 65537).size g.block_size = 17 := by
    rw [sized]
    rfl
  obtain ⟨fs', failed, differs⟩ : ∃ fs', (execute (.create_file [SLASH, 98] (zeros 65537))).run fs =
      .err (.NoSpace "blocks") fs' ∧ fs' ≠ fs :=
    large_file_refused row.holds row.consistent (modest whole row.counted) place (by rw [numbers]; decide)
      (by rw [sized]; decide) (row.free (by rw [numbers]; decide)) (by rw [total, blocks]; decide)
  have made : Admissible (fresh Config.default defaultLayout) (.mkdir [SLASH, 97]) := trivial
  have reached : ReachedOk Config.default Admissible fs := ⟨_, default_opened, .single (.returns made ran)⟩
  obtain ⟨start, opened, run⟩ := reached.reached
  have storable : Admissible fs (.create_file [SLASH, 98] (zeros 65537)) := by
    have size : fs.superblock.block_size.toNat = g.block_size := row.holds.static'.block_size
    rw [Admissible, size, blocks]
    exact .inl (by decide)
  exact ⟨fs, fs', ran, reached, storable, failed, differs, start, opened, run.tail (.fails storable failed)⟩

end Justext4.Progress
