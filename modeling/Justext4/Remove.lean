import Justext4.Leaves

/-!
Removing files, links and directories. Both calls look first and refuse what
they have to; from there on nothing but an overflow of a count stops them. The
blocks and the inode are given back, the slot is marked as deleted and the
entry is taken out, so that one leaf of the tree has gone.
-/
namespace Justext4.Remove
open Justext4 Justext4.Fallible Justext4.Filesystem Justext4.Volumes Bytes
open Justext4.Inode (Inode)
open Justext4.DirEntry (DirEntry is_unused)
open Justext4.DirBlock
open Justext4.Nodes
open Justext4.NamedTree
open Justext4.Paths
open Justext4.Backing
open Justext4.Reading
open Justext4.Entries
open Justext4.Counts
open Justext4.Leaves
open Justext4.Allocation
open Justext4.Runs (runBlock run runs)

section
variable {g : Geometry} {v v' : Volume} {N : NodeMap} {fs : Filesystem} {n p : UInt32} {x : Node} {block : Nat}
  {parent : UInt32} {kids : List Kid} {name : List UInt8}

/-! ### Giving the blocks back -/

theorem freeBlocks_none (v : Volume) (s : Nat) : v.freeBlocks s 0 = v := by
  have group : on_group0 (on_free_blocks (· + 0)) v.gdt = v.gdt := by
    cases v.gdt with
    | nil => rfl
    | cons gd rest => simp [on_group0, on_free_blocks]
  have record : on_all_free_blocks (· + 0) v.superblock = v.superblock := by simp [on_all_free_blocks]
  have bits : (fun j => v.blockBit j && !decide (s ≤ j ∧ j < s + 0)) = v.blockBit := by
    funext j
    rw [decide_eq_false (by omega), Bool.not_false, Bool.and_true]
  rw [Volume.freeBlocks, bits, group, record]

/-- The blocks of an inode with one run go back, unless a count overflows. -/
theorem free_data_run (holds : Holds g v fs) {inode : Inode} {start count : Nat}
    (flags : inode.flags = Inode.INODE_FLAG_EXTENTS) (block : inode.block = runBlock start count)
    (size : 0 < inode.size.toNat) (short : count ≤ 32768) (small : start < 281474976710656)
    (inside : 0 < count → start + count ≤ 8 * g.block_size) :
    ((free_data inode).run fs = .panic ∧ ¬ Modest g v) ∨
    ∃ fs', (free_data inode).run fs = .ok () fs' ∧ Holds g (v.freeBlocks start count) fs' := by
  obtain ⟨h, decoded⟩ := Runs.decode_runs count short small
  have extents : Inode.uses_extents inode = true := by rw [Inode.uses_extents, flags]; decide
  have node : liftErr Ext4Error.Extent (Extent.decode_extent_node inode.block.bytes) =
      .ok (.Leaf h (runs start count)) := by rw [block, decoded, liftErr_ok]
  by_cases some : 0 < count
  case neg =>
    have none : count = 0 := by omega
    subst none
    refine .inr ⟨fs, ?_, by rw [freeBlocks_none]; exact holds⟩
    simp only [free_data, extents, size, and_self, ↓reduceIte, run_bind, run_lift, node, ofRes_ok, andThen_ok, runs,
      Nat.lt_irrefl, free_runs, run_pure]
  case pos =>
    have length : (run start count).len.toNat = count := toNat_ofNat16 (by omega)
    have physical : (run start count).physical_block.toNat = start := by
      show (UInt64.ofNat start).toNat = start
      rw [UInt64.toNat_ofNat']
      omega
    have init : (run start count).uninit = false := rfl
    have ran : (free_data inode).run fs = (free_blocks start count).run fs := by
      simp only [free_data, extents, size, and_self, ↓reduceIte, run_bind, run_lift, node, ofRes_ok, andThen_ok, runs,
        some, free_runs, init, Bool.false_eq_true, length, physical]
      cases (free_blocks start count).run fs <;> rfl
    rw [ran]
    exact free_blocks_spec holds _ _ (inside some)

/-- The blocks of a node go back, unless a count overflows. -/
theorem free_data_ok (holds : Holds g v fs) (sound : Sound g v n x) :
    ∃ s c, (∀ b, x.Owns b ↔ s ≤ b ∧ b < s + c) ∧ (((free_data (v.slot n)).run fs = .panic ∧ ¬ Modest g v) ∨
      ∃ fs', (free_data (v.slot n)).run fs = .ok () fs' ∧ Holds g (v.freeBlocks s c) fs') := by
  have bitmap := g.limit_bitmap
  have total := g.limit_total
  have words := g.total_high
  cases x with
  | dir b q ks =>
    have backed : DirBacked g v n b q ks := sound.backed
    have high := (sound.owned b rfl).2.1
    have positive := g.positive
    refine ⟨b, 1, fun c => ?_, free_data_run holds backed.flags backed.run (by rw [backed.size]; omega) (by decide)
      (by omega) fun _ => by omega⟩
    show c = b ↔ _
    omega
  | file start count =>
    have backed : FileBacked g v n start count := sound.backed
    refine ⟨start, count, fun _ => Iff.rfl, ?_⟩
    by_cases size : 0 < (v.slot n).size.toNat
    · refine free_data_run holds backed.flags backed.run size backed.short backed.small fun some => ?_
      have last := (sound.owned (start + count - 1) ⟨by omega, by omega⟩).2.1
      omega
    · have none : count = 0 := by
        rw [← backed.size, show (v.slot n).size.toNat = 0 by omega, div_ceil_zero]
      subst none
      refine .inr ⟨fs, ?_, by rw [freeBlocks_none]; exact holds⟩
      simp only [free_data, size, and_false, ↓reduceIte, run_pure]
  | link =>
    have backed : LinkBacked v n := sound.backed
    have extents : Inode.uses_extents (v.slot n) = false := by rw [Inode.uses_extents, backed.flags]; decide
    refine ⟨0, 0, fun b => ⟨fun owns => owns.elim, fun inside => by omega⟩, .inr ⟨fs, ?_, ?_⟩⟩
    · simp only [free_data, extents, Bool.false_eq_true, false_and, ↓reduceIte, run_pure]
    · rw [freeBlocks_none]
      exact holds

/-! ### Giving a node back -/

/-- The volume without the blocks, the bit and the record of an inode. -/
def without (v : Volume) (n : UInt32) (s c : Nat) : Volume :=
  ((v.freeBlocks s c).freeInode (n.toNat - 1)).setSlot n (deleted (v.slot n))

theorem released_without {s c : Nat} (owns : ∀ b, x.Owns b ↔ s ≤ b ∧ b < s + c) : Released v (without v n s c) n x := by
  refine ⟨?_, fun m other => if_neg other, rfl, fun i => rfl, fun b => ?_⟩
  · have slot : (without v n s c).slot n = deleted (v.slot n) := if_pos rfl
    rw [slot]
    rfl
  · simp only [without, Volume.setSlot, Volume.freeInode, Volume.freeBlocks, Bool.and_eq_true, Bool.not_eq_true',
      decide_eq_false_iff_not, owns]
theorem counted_without {used : Nat} (counted : Counted g v used) (sound : Sound g v n x) {s c : Nat}
    (owns : ∀ b, x.Owns b ↔ s ≤ b ∧ b < s + c) : Counted g (without v n s c) used := by
  have low := sound.low
  have listed := sound.listed
  have inodes := g.inodes_high
  have total := g.limit_total
  have inside : 0 < c → s + c ≤ g.total := by
    intro some
    have last := (sound.owned (s + c - 1) ((owns _).mpr ⟨by omega, by omega⟩)).2.1
    omega
  have blocks : Counted g (v.freeBlocks s c) used := by
    by_cases some : 0 < c
    · exact counted.freeBlocks (inside some) fun j from_ below => (sound.owned j ((owns j).mpr ⟨from_, below⟩)).2.2
    · rw [show c = 0 by omega, freeBlocks_none]
      exact counted
  exact (blocks.freeInode (i := n.toNat - 1) (by omega) sound.taken).setSlot n _

/-- The steps after the checks: only a panic can stop them. -/
theorem destroy_ok (holds : Holds g v fs) (consistent : Consistent g v N) (found : N p = some (.dir block parent kids))
    (proper : Proper name) (edge : named kids name = some n) (here : N n = some x) :
    ((destroy (v.slot p) n (v.slot n) name).run fs = .panic ∧ ¬ Modest g v) ∨
    ∃ s c block_buf fs', (∀ b, x.Owns b ↔ s ≤ b ∧ b < s + c) ∧
      (destroy (v.slot p) n (v.slot n) name).run fs = .ok () fs' ∧
      Holds g ((without v n s c).setBlock block block_buf) fs' ∧ block_buf.size = g.block_size ∧
      Lists block_buf (listing p parent (kids.filter (·.name != name))) ∧
      has_room block_buf name = (is_last (v.block block) name || has_room (v.block block) name) := by
  have sound := consistent.sound here
  have low := sound.low
  have directory := consistent.sound found
  have other := child_ne consistent.linked ((child_dir found name).trans edge)
  obtain ⟨s, c, owns, freed⟩ := free_data_ok holds sound
  rcases freed with ⟨panicked, immodest⟩ | ⟨fs₁, freed, holds₁⟩
  · exact .inl ⟨by simp only [destroy, run_bind, panicked, andThen_panic], immodest⟩
  rcases free_inode_spec holds₁ low sound.covered with ⟨panicked, many⟩ | ⟨fs₂, given, holds₂⟩
  · exact .inl ⟨by simp only [destroy, run_bind, freed, andThen_ok, panicked, andThen_panic],
      fun modest => many (modest.freeBlocks s c)⟩
  obtain ⟨fs₃, marked, holds₃⟩ := write_inode_ok holds₂ low sound.listed (deleted (v.slot n))
  have lists : Lists (v.block block) (listing p parent kids) := DirBacked.lists directory.backed
  obtain ⟨block_buf, fs₄, removed, holds₄, size, lists', room⟩ :=
    remove_dir_entry_ok holds₃ (oneBlock directory) lists (consistent.linked.names found) proper edge
      (consistent.live_nonzero (live_of here))
  refine .inr ⟨s, c, block_buf, fs₄, owns, ?_, holds₄, size, lists', room⟩
  simp only [destroy, run_bind, freed, given, marked, removed, andThen_ok]
end

/-! ### The two calls -/

/-- The tree has lost a leaf, and nothing else has changed. -/
structure Pruned (g : Geometry) (v v' : Volume) (N N' : NodeMap) (p : UInt32) (block : Nat) (parent : UInt32)
    (kids : List Kid) (name : List UInt8) (n : UInt32) (x : Node) : Prop where
  found : N p = some (.dir block parent kids)
  proper : Proper name
  edge : named kids name = some n
  here : N n = some x
  leaf : x.Leaf
  nodes : N' = withoutLeaf N p name n
  consistent : Consistent g v' N'
  counted : Counted g v (dirs g N) → Counted g v' (dirs g N')
  tight : Tight g v N → Tight g v' N'
  kept : ∀ {m y}, N m = some y → m ≠ n → SameData v v' m y
  slot : v'.slot n = deleted (v.slot n)
  blockBit : ∀ b, v'.blockBit b = true ↔ v.blockBit b = true ∧ ¬ x.Owns b
  inodeBit : ∀ i, v'.inodeBit i = (v.inodeBit i && !decide (i = n.toNat - 1))
  room : has_room (v'.block block) name = (is_last (v.block block) name || has_room (v.block block) name)

/-- How a call that removes an entry ends. -/
inductive Removal (g : Geometry) (v : Volume) (N : NodeMap) (fs : Filesystem) (path : List UInt8) (kind : Node → Prop) :
    Ended Filesystem Ext4Error Unit → Prop
  | refused {e : Ext4Error} : Removal g v N fs path kind (.err e fs)
  | panicked (immodest : ¬ Modest g v) : Removal g v N fs path kind .panic
  | removed {fs' : Filesystem} {v' : Volume} {N' : NodeMap} {parent_path name : List UInt8} {p : UInt32} {block : Nat}
      {parent : UInt32} {kids : List Kid} {n : UInt32} {x : Node} (split : split_path path = .ok (parent_path, name))
      (directory : Directory N parent_path p block parent kids) (holds : Holds g v' fs') (written : WrittenOut g fs')
      (pruned : Pruned g v v' N N' p block parent kids name n x) (of_kind : kind x) :
      Removal g v N fs path kind (.ok () fs')

section
variable {g : Geometry} {v v' : Volume} {N : NodeMap} {fs : Filesystem} {n p : UInt32} {x : Node} {block : Nat}
  {parent : UInt32} {kids : List Kid} {path name : List UInt8}

theorem pruned_without {v'' : Volume} {s c : Nat} {block_buf : Bytes} (consistent : Consistent g v N)
    (found : N p = some (.dir block parent kids)) (proper : Proper name) (edge : named kids name = some n)
    (here : N n = some x) (leaf : x.Leaf) (owns : ∀ b, x.Owns b ↔ s ≤ b ∧ b < s + c)
    (relisted : Relisted g (without v n s c) v'' p block parent (kids.filter (·.name != name)))
    (content : v''.block block = block_buf)
    (room : has_room block_buf name = (is_last (v.block block) name || has_room (v.block block) name))
    (counted : ∀ used, Counted g (without v n s c) (used + if x.code = 2 then 1 else 0) → Counted g v'' used) :
    Pruned g v v'' N (withoutLeaf N p name n) p block parent kids name n x := by
  have edge' := (child_dir found name).trans edge
  have other := child_ne consistent.linked edge'
  have sound := consistent.sound here
  have released := released_without (v := v) (n := n) owns
  refine ⟨found, proper, edge, here, leaf, rfl,
    consistent_withoutLeaf consistent found edge' here leaf released relisted, fun old => ?_, fun old => ?_, ?_, ?_, ?_, ?_, ?_⟩
  · have split := dirs_withoutLeaf p name sound.listed here
    apply counted
    rw [← split]
    exact counted_without old sound owns
  · exact tight_withoutLeaf old here sound.low released relisted.inodeBit relisted.blockBit
  · intro m y there distinct
    have first := released.data (y := y) distinct
    refine first.trans ?_
    by_cases same : m = p
    · subst same
      rw [found] at there
      cases there
      trivial
    · refine .of_eq (relisted.slots m same) fun b has => relisted.blocks b ?_
      rintro rfl
      exact consistent.apart there found same b has rfl
  · rw [relisted.slots n other]
    exact if_pos rfl
  · intro b
    rw [relisted.blockBit]
    exact released.blockBit b
  · intro i
    rw [relisted.inodeBit]
    exact released.inodeBit i
  · rw [content]
    exact room

/-- The entry that gives a name gives the kind of the node. -/
theorem kid_code (consistent : Consistent g v N) (found : N p = some (.dir block parent kids))
    (edge : named kids name = some n) (here : N n = some x) :
    ∃ before k after, kids = before ++ k :: after ∧ k.name = name ∧ k.code = x.code := by
  obtain ⟨before, k, after, split, names, inode, -⟩ := named_some edge
  obtain ⟨y, there, code, -⟩ := consistent.linked.kids found k (by simp [split])
  rw [inode, here] at there
  cases there
  exact ⟨before, k, after, split, names, code⟩
theorem subdirs_without (consistent : Consistent g v N) (found : N p = some (.dir block parent kids))
    (edge : named kids name = some n) (here : N n = some x) :
    subdirs (kids.filter (·.name != name)) + (if x.code = 2 then 1 else 0) = subdirs kids := by
  obtain ⟨before, k, after, split, names, code⟩ := kid_code consistent found edge here
  have nodup := consistent.linked.names found
  rw [split] at nodup
  have counted := subdirs_filter nodup
  rwa [← split, names, code] at counted

/-- A node that an entry names is not the root, so that there are inodes for it. -/
theorem large_of_edge (consistent : Consistent g v N) (edge : child N p name = some n) (here : N n = some x) :
    2048 ≤ g.block_size := by
  have sound := consistent.sound here
  have number : 11 ≤ n.toNat := by
    rcases sound.number with root | large
    · exact absurd (root ▸ edge) (consistent.linked.tree.top p name)
    · exact large
  have listed := sound.listed
  have small := g.small
  rcases g.known with size | size | size | size
  · have few := small size
    omega
  all_goals omega

/-- Where a name leads from a directory. -/
theorem named_listing_cases {parent : UInt32} {kids : List Kid} (found : N p = some (.dir block parent kids))
    (component : Component name) (edge : named (listing p parent kids) name = some n) :
    (name = DOT ∧ n = p) ∨ (name = DOTDOT ∧ n = parent) ∨ (Proper name ∧ named kids name = some n) := by
  by_cases first : name = DOT
  · subst first
    rw [named_dot] at edge
    cases edge
    exact .inl ⟨rfl, rfl⟩
  by_cases second : name = DOTDOT
  · subst second
    rw [named_dotdot] at edge
    cases edge
    exact .inr (.inl ⟨rfl, rfl⟩)
  · rw [named_listing _ first second] at edge
    exact .inr (.inr ⟨⟨component.1, component.2, first, second⟩, edge⟩)

/-- A file or a link that a path names goes, unless a count overflows. -/
theorem unlink_found (holds : Holds g v fs) (consistent : Consistent g v N) {parent_path : List UInt8}
    (split : split_path path = .ok (parent_path, name)) (directory : Directory N parent_path p block parent kids)
    (proper : Proper name) (edge : named kids name = some n) (here : N n = some x) (file : x.code ≠ 2) :
    ((unlink path).run fs = .panic ∧ ¬ Modest g v) ∨
    ∃ fs' v', (unlink path).run fs = .ok () fs' ∧ Holds g v' fs' ∧ WrittenOut g fs' ∧
      Pruned g v v' N (withoutLeaf N p name n) p block parent kids name n x ∧ ∀ m, m ≠ n → v'.slot m = v.slot m := by
  have found := directory.found
  have opened := open_directory_ok holds consistent directory
  have looked := lookup_ok holds consistent found name
  rw [named_listing _ proper.2.2.1 proper.2.2.2, edge, okOr_some] at looked
  have read := read_node holds consistent (live_of here)
  have type := (types_of_node (consistent.sound here).backed).1
  have allowed : ensure (!Inode.is_directory (v.slot n)) (Ext4Error.IsADirectory n) = .ok () := by
    rw [type, ensure_eq_ok]
    simpa using file
  have leaf : x.Leaf := by
    cases x with
    | dir => exact absurd rfl file
    | file => trivial
    | link => trivial
  rcases destroy_ok holds consistent found proper edge here with ⟨panicked, immodest⟩ |
    ⟨s, c, block_buf, fs₁, owns, destroyed, holds₁, size, lists, room⟩
  · refine .inl ⟨?_, immodest⟩
    simp only [unlink, run_bind, run_lift, split, ofRes_ok, andThen_ok, run_reads, opened, looked, read, allowed, panicked,
      andThen_panic]
  obtain ⟨fs₂, flushed, holds₂, written⟩ :=
    flush_metadata_ok holds₁ (large_of_edge consistent ((child_dir found name).trans edge) here)
  have released := released_without (v := v) (n := n) owns
  have other := child_ne consistent.linked ((child_dir found name).trans edge)
  have same := subdirs_without consistent found edge here
  rw [if_neg file, Nat.add_zero] at same
  have relisted := relisted_plain _ (released.other consistent here found other.symm) size lists same
  refine .inr ⟨fs₂, _, ?_, holds₂, written, pruned_without consistent found proper edge here leaf owns relisted (if_pos rfl)
    room fun used old => ?_, fun m distinct => released.slots m distinct⟩
  · simp only [unlink, run_bind, run_lift, split, ofRes_ok, andThen_ok, run_reads, opened, looked, read, allowed,
      destroyed, flushed]
  · rw [if_neg file, Nat.add_zero] at old
    exact old.setBlock block block_buf

theorem unlink_ends (holds : Holds g v fs) (consistent : Consistent g v N) (path : List UInt8) :
    Removal g v N fs path (fun x => x.code ≠ 2) ((unlink path).run fs) := by
  rcases split_path_ends path with ⟨parent_path, name, split⟩ | ⟨e, split⟩
  case inr =>
    simp only [unlink, run_bind, run_lift, split, ofRes_err, andThen_err]
    exact .refused
  rcases open_directory_ends holds consistent parent_path with ⟨e, refused⟩ | ⟨p, block, parent, kids, directory, opened⟩
  case inl =>
    simp only [unlink, run_bind, run_lift, split, ofRes_ok, andThen_ok, run_reads, refused, ofRes_err, andThen_err]
    exact .refused
  have found := directory.found
  have looked := lookup_ok holds consistent found name
  cases edge : named (listing p parent kids) name with
  | none =>
    rw [edge, okOr_none] at looked
    simp only [unlink, run_bind, run_lift, split, ofRes_ok, andThen_ok, run_reads, opened, looked, ofRes_err, andThen_err]
    exact .refused
  | some n =>
  rw [edge, okOr_some] at looked
  have live : Live N n := step_live consistent ((step_dir found name).trans edge)
  cases here : N n with
  | none => exact absurd here live
  | some x =>
  by_cases dir : x.code = 2
  case pos =>
    have type := (types_of_node (consistent.sound here).backed).1
    have refused : ensure (!Inode.is_directory (v.slot n)) (Ext4Error.IsADirectory n) = .error (.err (.IsADirectory n)) := by
      rw [type, dir]
      rfl
    simp only [unlink, run_bind, run_lift, split, ofRes_ok, andThen_ok, run_reads, opened, looked,
      read_node holds consistent live, refused, ofRes_err, andThen_err]
    exact .refused
  -- The two dots name directories.
  obtain ⟨proper, edge'⟩ : Proper name ∧ named kids name = some n := by
    rcases named_listing_cases found (split_path_ok split).1 edge with ⟨-, same⟩ | ⟨-, same⟩ | facts
    · rw [same, found] at here
      cases here
      exact absurd rfl dir
    · obtain ⟨b, q, ks, above, -⟩ := parent_dir consistent found
      rw [same, above] at here
      cases here
      exact absurd rfl dir
    · exact facts
  rcases unlink_found holds consistent split directory proper edge' here dir with ⟨panicked, immodest⟩ |
    ⟨fs', v', ran, holds', written, pruned, -⟩
  · rw [panicked]
    exact .panicked immodest
  · rw [ran]
    exact .removed split directory holds' written pruned dir

/-- The entries that `rmdir` counts are the ones next to the two dots. -/
theorem entries_left (consistent : Consistent g v N) (found : N n = some (.dir block parent kids)) {es : List DirEntry}
    (same : es.map kid = listing n parent kids) :
    es.countP (fun e => !is_unused e && e.name != DOT && e.name != DOTDOT) = kids.length := by
  have used := entries_used consistent found same
  obtain ⟨dot, more, rfl, dotSame, moreSame⟩ := List.map_eq_cons_iff.mp same
  obtain ⟨dotdot, rest, rfl, dotdotSame, rfl⟩ := List.map_eq_cons_iff.mp moreSame
  have first : dot.name = DOT := congrArg Kid.name dotSame
  have second : dotdot.name = DOTDOT := congrArg Kid.name dotdotSame
  have all : ∀ e ∈ rest, (!is_unused e && e.name != DOT && e.name != DOTDOT) = true := by
    intro e member
    have live : is_unused e = false := by simpa [is_unused] using used e (by simp [member])
    obtain ⟨-, -, other, other'⟩ := consistent.linked.proper found (kid e) (List.mem_map_of_mem member)
    have notDot : e.name ≠ DOT := other
    have notDotdot : e.name ≠ DOTDOT := other'
    simp [live, notDot, notDotdot]
  rw [List.countP_cons, List.countP_cons, List.countP_eq_length.mpr all, first, second, List.length_map]
  simp

theorem rmdir_ends (holds : Holds g v fs) (consistent : Consistent g v N) (path : List UInt8)
    (named_entry : ∀ parent_path name, split_path path = .ok (parent_path, name) → name ≠ DOT) :
    Removal g v N fs path (fun x => x.code = 2) ((rmdir path).run fs) := by
  rcases split_path_ends path with ⟨parent_path, name, split⟩ | ⟨e, split⟩
  case inr =>
    simp only [rmdir, run_bind, run_lift, split, ofRes_err, andThen_err]
    exact .refused
  rcases open_directory_ends holds consistent parent_path with ⟨e, refused⟩ | ⟨p, block, parent, kids, directory, opened⟩
  case inl =>
    simp only [rmdir, run_bind, run_lift, split, ofRes_ok, andThen_ok, run_reads, refused, ofRes_err, andThen_err]
    exact .refused
  have found := directory.found
  have looked := lookup_ok holds consistent found name
  cases edge : named (listing p parent kids) name with
  | none =>
    rw [edge, okOr_none] at looked
    simp only [rmdir, run_bind, run_lift, split, ofRes_ok, andThen_ok, run_reads, opened, looked, ofRes_err, andThen_err]
    exact .refused
  | some n =>
  rw [edge, okOr_some] at looked
  by_cases root : n ≠ ROOT_INODE
  case neg =>
    simp only [rmdir, run_bind, run_lift, split, ofRes_ok, andThen_ok, run_reads, opened, looked, ensure_not root,
      ofRes_err, andThen_err]
    exact .refused
  have live : Live N n := step_live consistent ((step_dir found name).trans edge)
  have read := read_node holds consistent live
  cases here : N n with
  | none => exact absurd here live
  | some x =>
  have type := (types_of_node (consistent.sound here).backed).1
  have file : x.code ≠ 2 → Removal g v N fs path (fun x => x.code = 2) ((rmdir path).run fs) := by
    intro other
    have refused : ensure (Inode.is_directory (v.slot n)) (Ext4Error.NotADirectory n) =
        .error (.err (.NotADirectory n)) := by
      rw [type, ensure_eq_err]
      exact ⟨by simpa using other, rfl⟩
    simp only [rmdir, run_bind, run_lift, split, ofRes_ok, andThen_ok, run_reads, opened, looked, ensure_of root, read,
      refused, ofRes_err, andThen_err]
    exact .refused
  cases x with
  | file => exact file (show (1 : UInt8) ≠ 2 by decide)
  | link => exact file (show (7 : UInt8) ≠ 2 by decide)
  | dir b q ks =>
  have allowed : ensure (Inode.is_directory (v.slot n)) (Ext4Error.NotADirectory n) = .ok () := by
    rw [type]
    rfl
  obtain ⟨es, listed, -, same⟩ := read_dir_ok holds (consistent.sound here)
  have left := entries_left consistent here same
  by_cases empty : ks.length = 0
  case neg =>
    simp only [rmdir, run_bind, run_lift, split, ofRes_ok, andThen_ok, run_reads, opened, looked, ensure_of root, read,
      allowed, listed, left, ensure_not empty, ofRes_err, andThen_err]
    exact .refused
  have none : ks = [] := List.length_eq_zero_iff.mp empty
  -- The parent of a directory is the root or has an entry.
  obtain ⟨proper, edge'⟩ : Proper name ∧ named kids name = some n := by
    rcases named_listing_cases found (split_path_ok split).1 edge with ⟨dot, -⟩ | ⟨-, same⟩ | facts
    · exact absurd dot (named_entry parent_path name split)
    · obtain ⟨b', q', ks', above, back⟩ := parent_dir consistent found
      rw [← same, here] at above
      cases above
      rcases back with top | ⟨k, member, -⟩
      · obtain ⟨_, _, root'⟩ := consistent.root
        rw [top, root'] at found
        cases found
        exact absurd same root
      · rw [none] at member
        cases member
    · exact facts
  rcases destroy_ok holds consistent found proper edge' here with ⟨panicked, immodest⟩ |
    ⟨s, c, block_buf, fs₁, owns, destroyed, holds₁, size, lists, room⟩
  · simp only [rmdir, run_bind, run_lift, split, ofRes_ok, andThen_ok, run_reads, opened, looked, ensure_of root, read,
      allowed, listed, left, ensure_of empty, panicked, andThen_panic]
    exact .panicked immodest
  have directory' := consistent.sound found
  have released := released_without (v := v) (n := n) owns
  have other := child_ne consistent.linked ((child_dir found name).trans edge')
  obtain ⟨fs₂, linked, holds₂⟩ := write_inode_ok holds₁ (n := p) directory'.low directory'.listed
    { v.slot p with links_count := .ofNat ((v.slot p).links_count.toNat - 1) }
  have counted := holds₂.onGroup0 (f := on_used_dirs (· - 1)) fun _ => ⟨rfl, rfl, rfl⟩
  obtain ⟨fs₃, flushed, holds₃, written⟩ :=
    flush_metadata_ok counted (large_of_edge consistent ((child_dir found name).trans edge') here)
  simp only [rmdir, run_bind, run_lift, split, ofRes_ok, andThen_ok, run_reads, opened, looked, ensure_of root, read,
    allowed, listed, left, ensure_of empty, destroyed, linked, change_gdt0, run_change, flushed]
  have links : (UInt16.ofNat ((v.slot p).links_count.toNat - 1)).toNat = 2 + subdirs (kids.filter (·.name != name)) := by
    have old : DirBacked g v p block parent kids := directory'.backed
    have count := old.links
    have fewer := subdirs_without consistent found edge' here
    have bound := (v.slot p).links_count.toNat_lt
    rw [show (Node.dir b q ks).code = 2 from rfl, if_pos rfl] at fewer
    rw [toNat_ofNat16 (by omega)]
    omega
  have relisted := (relisted_links (without v n s c) p block _ size lists links).onGroup0
    (on_used_dirs (· - 1))
  rw [show (without v n s c).slot p = v.slot p from released.slots p other.symm] at relisted
  refine .removed split directory holds₃ written (pruned_without consistent found proper edge' here none owns relisted
    (if_pos rfl) room fun used old => ?_) rfl
  rw [show (Node.dir b q ks).code = 2 from rfl, if_pos rfl] at old
  exact ((old.setBlock block block_buf).setSlot p _).useDirs (f := (· - 1)) fun small => by omega
end

end Justext4.Remove
