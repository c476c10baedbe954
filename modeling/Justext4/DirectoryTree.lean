import Justext4.Astray
import Justext4.Invariants
import Justext4.Progress

/-!
The directory graph of a filesystem. It is a tree when every inode that is in
use is reached from the root by one chain of names and the two dots of every
directory lead to itself and to its parent. A rename keeps it a tree unless it
moves one of the dots or a directory beneath itself, and `rmdir` removes just
the directory it is given unless the path ends in `.`.
-/
namespace Justext4.DirectoryTree
open Justext4 Justext4.Fallible Justext4.Filesystem Justext4.Volumes Justext4.Mkfs
open Justext4.Inode (Inode)
open Justext4.DirEntry (DirEntry is_unused)
open Justext4.DirBlock
open Justext4.NamedTree
open Justext4.Nodes
open Justext4.Paths
open Justext4.Backing
open Justext4.Reading
open Justext4.Allocation
open Justext4.Entries
open Justext4.Leaves
open Justext4.Create
open Justext4.Remove
open Justext4.Rename
open Justext4.Astray
open Justext4.View
open Justext4.Start
open Justext4.Invariants
open Justext4.Calls
open Justext4.Progress

/-- An inode of the first group that is in use: its bit is set, and it is the
    root or not reserved. -/
def Alive (fs : Filesystem) (n : UInt32) : Prop :=
  (n = ROOT_INODE ∨ 11 ≤ n.toNat) ∧ n.toNat ≤ fs.superblock.inodes_per_group.toNat ∧ inode_bit fs (n.toNat - 1) = true
/-- The inode is a directory. -/
def IsDir (fs : Filesystem) (n : UInt32) : Prop := ∃ inode, read_inode fs n = .ok inode ∧ Inode.is_directory inode = true
/-- The inode that a directory names, the dots among the names. -/
def entry_in (fs : Filesystem) (n : UInt32) (name : List UInt8) : Option UInt32 := do
  let inode ← (read_inode fs n).toOption
  if Inode.is_directory inode then (lookup fs inode name).toOption else none

/-- The directory graph is a tree with its dots in place. -/
structure IsTree (fs : Filesystem) : Prop where
  root : Alive fs ROOT_INODE
  closed : ∀ n name m, Alive fs n → child_of fs n name = some m → Alive fs m
  top : ∀ n name, Alive fs n → child_of fs n name ≠ some ROOT_INODE
  once : ∀ n n' name name' m, Alive fs n → Alive fs n' → child_of fs n name = some m → child_of fs n' name' = some m →
    n = n' ∧ name = name'
  reached : ∀ n, Alive fs n → Reaches fs n
  dot : ∀ n, Alive fs n → IsDir fs n → entry_in fs n DOT = some n
  dotdot : entry_in fs ROOT_INODE DOTDOT = some ROOT_INODE ∧
    ∀ p name n, Alive fs p → child_of fs p name = some n → IsDir fs n → entry_in fs n DOTDOT = some p

section
variable {g : Geometry} {v v' : Volume} {N N' : NodeMap} {fs fs' : Filesystem} {n p : UInt32} {x : Node}

theorem alive_bit (holds : Holds g v fs) (alive : Alive fs n) :
    (n = ROOT_INODE ∨ 11 ≤ n.toNat) ∧ n.toNat ≤ g.per_group ∧ n.toNat - 1 < 8 * g.block_size ∧
      v.inodeBit (n.toNat - 1) = true := by
  obtain ⟨number, inside, bit⟩ := alive
  rw [holds.static'.inodes_per_group] at inside
  have covered : n.toNat - 1 < 8 * g.block_size := by
    by_contra past
    have size : (blockAt g fs.reader 3).size = g.block_size := rfl
    rw [(bit_of_eq holds _).2, Bitmap.get_bit_past (by omega)] at bit
    cases bit
  rw [inode_bit_eq holds covered] at bit
  exact ⟨number, inside, covered, bit⟩
theorem alive_of_bit (holds : Holds g v fs) (number : n = ROOT_INODE ∨ 11 ≤ n.toNat) (inside : n.toNat ≤ g.per_group)
    (covered : n.toNat - 1 < 8 * g.block_size) (bit : v.inodeBit (n.toNat - 1) = true) : Alive fs n :=
  ⟨number, holds.static'.inodes_per_group ▸ inside, by rw [inode_bit_eq holds covered, bit]⟩
theorem alive_of_live (holds : Holds g v fs) (consistent : Consistent g v N) (live : Live N n) : Alive fs n := by
  cases found : N n with
  | none => exact absurd found live
  | some x =>
    have sound := consistent.sound found
    have listed := sound.listed
    have low := sound.low
    have covered := sound.covered
    have high := g.inodes_high
    refine ⟨sound.number, ?_, ?_⟩
    · rw [holds.static'.inodes_per_group]
      omega
    · rw [inode_bit_eq holds (by omega)]
      exact sound.taken

theorem isDir_iff (holds : Holds g v fs) (consistent : Consistent g v N) (found : N n = some x) :
    IsDir fs n ↔ x.code = 2 := by
  have read := read_node holds consistent (live_of found)
  have type := (types_of_node (consistent.sound found).backed).1
  constructor
  · rintro ⟨inode, here, dir⟩
    cases read.symm.trans here
    rw [type] at dir
    simpa using dir
  · intro code
    exact ⟨_, read, by rw [type, code]; rfl⟩
/-- The names of a directory lead where the calls step. -/
theorem entry_in_eq (holds : Holds g v fs) (consistent : Consistent g v N) (live : Live N n) (name : List UInt8) :
    entry_in fs n name = Reading.step N n name := by
  cases found : N n with
  | none => exact absurd found live
  | some x =>
    have type := (types_of_node (consistent.sound found).backed).1
    rw [entry_in, read_node holds consistent live, Except.toOption, Option.bind_eq_bind, Option.bind_some, type]
    cases x with
    | dir block parent kids =>
      rw [step_dir found, lookup_ok holds consistent found]
      cases named (listing n parent kids) name <;> rfl
    | file => rw [Reading.step, found]; rfl
    | link => rw [Reading.step, found]; rfl

/-- Where nothing but the nodes is in use, the directory graph is a tree. -/
theorem isTree_of_backs (holds : Holds g v fs) (consistent : Consistent g v N) (used : ∀ n, Alive fs n → Live N n) :
    IsTree fs := by
  have linked := consistent.linked
  have edges : ∀ n, Alive fs n → ∀ name, child_of fs n name = child N n name := fun n alive name =>
    child_of_eq holds consistent (used n alive) name
  have dir : ∀ n, Live N n → IsDir fs n → ∃ block parent kids, N n = some (.dir block parent kids) := by
    intro n live directory
    cases found : N n with
    | none => exact absurd found live
    | some x =>
      have code := (isDir_iff holds consistent found).mp directory
      cases x with
      | dir block parent kids => exact ⟨block, parent, kids, rfl⟩
      | file => cases code
      | link => cases code
  refine ⟨alive_of_live holds consistent linked.tree.root_live, ?_, ?_, ?_, ?_, ?_, ?_, ?_⟩
  · intro n name m alive edge
    rw [edges n alive] at edge
    exact alive_of_live holds consistent (linked.tree.closed edge).2
  · intro n name alive
    rw [edges n alive]
    exact linked.tree.top n name
  · intro n n' name name' m alive alive' edge edge'
    rw [edges n alive] at edge
    rw [edges n' alive'] at edge'
    exact linked.tree.once edge edge'
  · intro n alive
    exact (reaches_iff holds consistent).mpr (used n alive)
  · intro n alive directory
    obtain ⟨block, parent, kids, found⟩ := dir n (used n alive) directory
    rw [entry_in_eq holds consistent (used n alive), step_dir found, named_dot]
  · obtain ⟨block, kids, found⟩ := consistent.root
    rw [entry_in_eq holds consistent (live_of found), step_dir found, named_dotdot]
  · intro p name n alive edge directory
    rw [edges p alive] at edge
    obtain ⟨block, parent, kids, source, hit⟩ := child_some edge
    obtain ⟨before, k, after, split, -, rfl, -⟩ := named_some hit
    have live := (linked.tree.closed edge).2
    obtain ⟨b, q, ks, found⟩ := dir k.inode live directory
    obtain ⟨y, there, -, back⟩ := linked.kids source k (by simp [split])
    rw [found] at there
    cases there
    rw [entry_in_eq holds consistent live, step_dir found, named_dotdot, back q rfl]
theorem live_of_alive (holds : Holds g v fs) (consistent : Consistent g v N) (tree : IsTree fs) (alive : Alive fs n) :
    Live N n := (reaches_iff holds consistent).mp (tree.reached n alive)
end

/-! ### Renames -/

/-- A file or a link that is at the destination of a rename. -/
def Overwritten (fs : Filesystem) (new_path : List UInt8) (n : UInt32) : Prop :=
  open_path fs new_path = .ok n ∧ ¬ IsDir fs n

section
variable {g : Geometry} {v v' : Volume} {N : NodeMap} {fs fs' : Filesystem} {n m p parent : UInt32} {block : Nat}
  {kids : List Kid} {name old_path new_path : List UInt8}

/-- What leads to the root is the root. -/
theorem above_root (consistent : Consistent g v N) (below : Beneath (child N) n ROOT_INODE) :
    n = ROOT_INODE := by
  obtain ⟨path, walked⟩ := below
  cases path using List.reverseRecOn with
  | nil => exact Option.some.inj walked
  | append_singleton path name =>
    obtain ⟨k, -, edge⟩ := walk_snoc.mp walked
    exact absurd edge (consistent.linked.tree.top k name)
theorem leads_beneath (holds : Holds g v fs) (consistent : Consistent g v N) (live : Live N n) {m : UInt32}
    (leads : Leads fs n m) : Beneath (child N) n m := by
  obtain ⟨names, proper, opened⟩ := leads
  have full : names.filter (!·.isEmpty) = names :=
    List.filter_eq_self.mpr fun name member => by simpa using (proper name member).1
  rcases open_from_walk holds consistent live names with ⟨k, walked, opened'⟩ | ⟨-, e, refused⟩
  · cases opened.symm.trans opened'
    rw [full, walk_proper proper] at walked
    exact ⟨names, walked⟩
  · rw [refused] at opened
    cases opened

/-- What is not the root has a parent in the tree. -/
theorem IsTree.above (tree : IsTree fs) (alive : Alive fs n) (other : n ≠ ROOT_INODE) :
    ∃ q name, Alive fs q ∧ child_of fs q name = some n := by
  have used : ∀ path {k}, walk (child_of fs) ROOT_INODE path = some k → Alive fs k := by
    intro path
    induction path using List.reverseRecOn with
    | nil =>
      intro k here
      cases here
      exact tree.root
    | append_singleton path name ih =>
      intro k here
      obtain ⟨q, before, edge⟩ := walk_snoc.mp here
      exact tree.closed q name k (ih before) edge
  obtain ⟨path, walked⟩ := tree.reached n alive
  cases path using List.reverseRecOn with
  | nil => exact absurd (Option.some.inj walked).symm other
  | append_singleton path name =>
    obtain ⟨q, before, edge⟩ := walk_snoc.mp walked
    exact ⟨q, name, used path before, edge⟩

/-- A directory that a name has been moved out of is still one, without the name. -/
theorem bereft_reads (consistent : Consistent g v N) (found : N p = some (.dir block parent kids))
    (bereft : Bereft g v fs' p block name) : Alive fs' p ∧ IsDir fs' p ∧ entry_in fs' p name = none := by
  obtain ⟨v', kids', holds', inodeBit, ⟨links, slot⟩, held, gone⟩ := bereft
  have sound := consistent.sound found
  have low := sound.low
  have listed := sound.listed
  have covered := sound.covered
  have high := g.inodes_high
  have type : Inode.is_directory (v.slot p) = true := (types_of_node sound.backed).1
  have plain : Inode.is_symlink (v.slot p) = false := (types_of_node sound.backed).2.2
  have one := oneBlock sound
  have read := read_inode_ok holds' low listed
  rw [slot] at read
  have looked : lookup fs' { v.slot p with links_count := links } name = okOr (named kids' name) (.NotFound name) :=
    lookup_held holds' ⟨one.flags, one.run, one.low, one.high⟩ plain (DirBacked.size sound.backed) held name
  rw [gone, okOr_none] at looked
  refine ⟨alive_of_bit holds' sound.number (by omega) (by omega) (inodeBit ▸ sound.taken), ⟨_, read, type⟩, ?_⟩
  have here : Inode.is_directory { v.slot p with links_count := links } = true := type
  rw [entry_in, read, Except.toOption, Option.bind_eq_bind, Option.bind_some, if_pos here, looked]
  rfl

/-- A rename that goes astray leaves no tree. -/
theorem astray_spoils (holds : Holds g v fs) (consistent : Consistent g v N) (astray : Astray fs old_path new_path)
    (ran : (rename old_path new_path).run fs = .ok () fs') : ¬ IsTree fs' := by
  obtain ⟨aim, dst, roomy, why⟩ := astray
  obtain ⟨p, block, parent, kids, m, x, p', block', parent', kids', aimed⟩ := aimed holds consistent aim
  obtain ⟨free, moves⟩ := free_moves holds consistent aimed dst
  rw [moves] at ran
  rw [aimed.inode', roomy_iff holds consistent aimed.directory'.found] at roomy
  have not_root : m ≠ ROOT_INODE := aimed.moving ▸ aim.not_root
  have found := aimed.directory.found
  have edge := aimed.edge
  have bereft := fun own => move_entry_bereft holds consistent found aimed.directory'.found aimed.here not_root free roomy own ran
  intro tree
  by_cases dot : aim.old_name = DOT
  · rw [dot] at bereft
    obtain ⟨alive, dir, gone⟩ := bereft_reads consistent found (bereft fun _ => by decide)
    rw [tree.dot p alive dir] at gone
    cases gone
  by_cases dotdot : aim.old_name = DOTDOT
  · rw [dotdot, named_dotdot] at edge
    have up : parent = m := Option.some.inj edge
    subst up
    have top : p ≠ ROOT_INODE := by
      rintro rfl
      obtain ⟨b, ks, root⟩ := consistent.root
      cases found.symm.trans root
      exact not_root rfl
    have apart : parent ≠ p := by
      rintro rfl
      obtain ⟨_, _, _, above, root | ⟨k, member, down⟩⟩ := parent_dir consistent found
      · exact top root
      · cases found.symm.trans above
        have loop := (child_dir found k.name).trans (named_mem (consistent.linked.names found) member)
        exact child_ne consistent.linked loop down
    rw [dotdot] at bereft
    obtain ⟨alive, dir, gone⟩ := bereft_reads consistent found (bereft fun self => absurd self apart)
    obtain ⟨q, name, above, down⟩ := tree.above alive top
    rw [tree.dotdot.2 q name p above down dir] at gone
    cases gone
  rw [aimed.moving, aimed.number'] at why
  have below := leads_beneath holds consistent (live_of aimed.here) ((why.resolve_left dot).resolve_left dotdot)
  rw [named_listing _ dot dotdot] at edge
  obtain ⟨b, q, ks, rfl⟩ := dir_above below aimed.directory'.found aimed.here
  obtain ⟨proper', free'⟩ := proper_of_free (split_path_ok aim.new_split).1 free
  obtain ⟨fs₁, v₁, moved, holds₁, inodeBit, lost⟩ := lost_moved ⟨consistent, found, aimed.directory'.found, edge, aimed.here,
    ⟨(split_path_ok aim.old_split).1.1, (split_path_ok aim.old_split).1.2, dot, dotdot⟩, free', proper'⟩ holds roomy below
  cases moved.symm.trans ran
  obtain ⟨number, inside, covered, bit⟩ := alive_bit holds (alive_of_live holds consistent (live_of aimed.here))
  exact lost (tree.reached m (alive_of_bit holds₁ number inside covered (inodeBit ▸ bit)))
end

/-- A rename that returns keeps the directory graph a tree and all that was
    reached, but for what it has overwritten, just when it neither moves one of
    the dots nor a directory beneath itself. -/
theorem rename_keeps_tree_iff {config : Config} (contained : Contained config) {fs fs' : Filesystem}
    (reached : Reached config Admissible fs) (tree : IsTree fs) {old_path new_path : List UInt8}
    (ran : (rename old_path new_path).run fs = .ok () fs') :
    (IsTree fs' ∧ ∀ n, Reaches fs n → Reaches fs' n ∨ Overwritten fs new_path n) ↔ ¬ Astray fs old_path new_path := by
  obtain ⟨layout, g, -, -, v, N, holds, consistent⟩ := reached_backs contained reached
  refine ⟨fun kept astray => astray_spoils holds consistent astray ran kept.1, fun sane => ?_⟩
  have used : ∀ n, Alive fs n → Live N n := fun n => live_of_alive holds consistent tree
  have ended := rename_ends holds consistent old_path new_path sane
  rw [ran] at ended
  cases ended with
  | same => exact ⟨tree, fun n there => .inl there⟩
  | @moved fs' v₁ v' N₁ N' _ _ _ new_name p p' m x harmless split split' walked walked' edge here cleared holds' written
      relocated =>
    have live' : Live N' = Live N₁ := relocated.nodes ▸ live_moved x.code
    cases cleared with
    | free =>
      refine ⟨isTree_of_backs holds' relocated.consistent fun n alive => ?_, fun n there => .inl ?_⟩
      · obtain ⟨number, inside, covered, bit⟩ := alive_bit holds' alive
        rw [relocated.inodeBit] at bit
        rw [live']
        exact used n (alive_of_bit holds number inside covered bit)
      · rw [reaches_iff holds' relocated.consistent, live']
        exact (reaches_iff holds consistent).mp there
    | @replaced _ _ block' parent' kids' k y other file file' pruned =>
      have left : ∀ {n}, Live N' n ↔ Live N n ∧ n ≠ k := fun {n} => by
        rw [live', pruned.nodes]
        exact withoutLeaf_live
      refine ⟨isTree_of_backs holds' relocated.consistent fun n alive => ?_, fun n there => ?_⟩
      · obtain ⟨number, inside, covered, bit⟩ := alive_bit holds' alive
        rw [relocated.inodeBit, pruned.inodeBit, Bool.and_eq_true] at bit
        obtain ⟨bit, apart⟩ := bit
        refine left.mpr ⟨used n (alive_of_bit holds number inside covered bit), ?_⟩
        rintro rfl
        simp at apart
      · have live := (reaches_iff holds consistent).mp there
        by_cases gone : n = k
        · subst gone
          have walked : walk (step N) ROOT_INODE (components new_path) = some n := by
            rw [(split_path_ok split').2]
            refine walk_snoc.mpr ⟨p', walked', ?_⟩
            rw [step_dir pruned.found, named_listing _ pruned.proper.2.2.1 pruned.proper.2.2.2, pruned.edge]
          rcases open_path_walk holds consistent new_path with ⟨n', walked'', opened⟩ | ⟨nowhere, -⟩
          · cases walked.symm.trans walked''
            exact .inr ⟨opened, fun dir => file ((isDir_iff holds consistent pruned.here).mp dir)⟩
          · rw [walked] at nowhere
            cases nowhere
        · exact .inl ((reaches_iff holds' relocated.consistent).mpr (left.mpr ⟨live, gone⟩))

section
variable {g : Geometry} {v : Volume} {N : NodeMap} {fs : Filesystem} {n : UInt32} {block b : Nat} {name name' : List UInt8}

/-- A free destination makes a rename that moves the entry. -/
theorem free_aim (holds : Holds g v fs) (consistent : Consistent g v N) {old_path new_path old_parent new_parent : List UInt8}
    {p p' m parent parent' : UInt32} {block block' : Nat} {kids kids' : List Kid} {old_name new_name : List UInt8} {x : Node}
    (old_split : split_path old_path = .ok (old_parent, old_name)) (new_split : split_path new_path = .ok (new_parent, new_name))
    (directory : Directory N old_parent p block parent kids) (directory' : Directory N new_parent p' block' parent' kids')
    (edge : named (listing p parent kids) old_name = some m) (not_root : m ≠ ROOT_INODE) (here : N m = some x)
    (free : named (listing p' parent' kids') new_name = none) :
    ∃ aim : Aim fs old_path new_path, aim.old_name = old_name ∧ aim.src_inode_num = m ∧ aim.new_parent_inode_num = p' ∧
      (rename old_path new_path).run fs =
        (move_entry p p' (v.slot p) (v.slot p') old_name new_name m (v.slot m) x.code).run fs := by
  have looked := lookup_ok holds consistent directory.found old_name
  rw [edge, okOr_some] at looked
  have looked' := lookup_ok holds consistent directory'.found new_name
  rw [free, okOr_none] at looked'
  have nothing : destination fs (v.slot p') new_name m (Inode.is_directory (v.slot m)) = .ok .Free := by
    rw [destination, looked', catchErr_err, res_bind_ok]
  let aim : Aim fs old_path new_path := ⟨_, _, _, _, _, _, _, _, _, _, _, old_split, new_split,
    open_directory_ok holds consistent directory, looked, not_root, read_node holds consistent (live_of here),
    open_directory_ok holds consistent directory', nothing⟩
  exact ⟨aim, rfl, rfl, rfl, rename_aim aim (entry_file_type_ok consistent here)⟩

/-- In a row nothing but the nodes is in use. -/
theorem live_of_row {items : List (List UInt8 × UInt8)} {left : Nat} (row : Row g items left fs v N) (alive : Alive fs n) :
    Live N n := by
  obtain ⟨number, inside, covered, bit⟩ := alive_bit row.holds alive
  rcases number with rfl | high
  · exact row.consistent.linked.tree.root_live
  · rcases row.tight.inodes _ (by omega) bit with low | live
    · omega
    · rwa [Nat.sub_add_cancel (by omega), UInt32.ofNat_toNat] at live
end

/-- Moving a directory into itself takes it out of the tree. -/
theorem rename_into_itself : ∃ fs, after [.mkdir [SLASH, 97]] (fresh Config.default defaultLayout) = some fs ∧ IsTree fs ∧
    ∃ fs', (rename [SLASH, 97] [SLASH, 97, SLASH, 98]).run fs = .ok () fs' ∧ ¬ IsTree fs' ∧
      Reaches fs 11 ∧ ¬ Reaches fs' 11 ∧ ¬ Overwritten fs [SLASH, 97, SLASH, 98] 11 := by
  obtain ⟨g, v, N, fs, left, block, b, whole, ran, row, root, here, -, room⟩ := one_directory
  have holds := row.holds
  have consistent := row.consistent
  obtain ⟨aim, -, -, -, moving⟩ := free_aim holds consistent (split_root ⟨by decide, by decide⟩)
    (show split_path [SLASH, 97, SLASH, 98] = .ok ([SLASH, 97], [98]) from rfl) (root_directory root) (opens_directory root here)
    (show named _ [97] = some 11 from rfl) (by decide) here rfl
  have track : Track g v N ROOT_INODE block ROOT_INODE [⟨[97], 11, 2⟩] [97] 11 b ROOT_INODE [] [98] 11 (.dir b ROOT_INODE []) :=
    ⟨consistent, root, here, rfl, here, by decide, rfl, by decide⟩
  obtain ⟨fs', v', moved, holds', inodeBit, lost⟩ := lost_moved track holds room (.refl 11)
  refine ⟨fs, (after_cons _ ran).trans rfl, isTree_of_backs holds consistent fun n alive => live_of_row row alive, fs', moving.trans moved, ?_,
    (reaches_iff holds consistent).mpr (live_of here), lost, fun covered => covered.2 ((isDir_iff holds consistent here).mpr rfl)⟩
  intro tree
  obtain ⟨number, inside, covered, bit⟩ := alive_bit holds (alive_of_live holds consistent (live_of here))
  exact lost (tree.reached 11 (alive_of_bit holds' number inside covered (inodeBit ▸ bit)))

/-- A new name in the same directory. -/
theorem rename_in_place : ∃ fs, after [.mkdir [SLASH, 97]] (fresh Config.default defaultLayout) = some fs ∧
    ∃ fs', (rename [SLASH, 97] [SLASH, 98]).run fs = .ok () fs' ∧ ¬ Astray fs [SLASH, 97] [SLASH, 98] ∧ IsTree fs' ∧
      ∀ n, Reaches fs n → Reaches fs' n ∨ Overwritten fs [SLASH, 98] n := by
  obtain ⟨g, v, N, fs, left, block, b, whole, ran, row, root, here, room, -⟩ := one_directory
  have holds := row.holds
  have consistent := row.consistent
  obtain ⟨aim, name, moving, target, runs⟩ := free_aim holds consistent (split_root ⟨by decide, by decide⟩)
    (split_root ⟨by decide, by decide⟩) (root_directory root) (root_directory root)
    (show named _ [97] = some 11 from rfl) (by decide) here (show named _ [98] = none from rfl)
  have edge : child N ROOT_INODE [97] = some 11 := (child_dir root [97]).trans rfl
  have route : Route g v N ROOT_INODE block ROOT_INODE [⟨[97], 11, 2⟩] [97] ROOT_INODE block ROOT_INODE [⟨[97], 11, 2⟩] [98]
      11 (.dir b ROOT_INODE []) :=
    ⟨⟨consistent, root, root, rfl, here, by decide, rfl, by decide⟩, fun below =>
      absurd (above_root consistent below) (by decide)⟩
  obtain ⟨fs', v', moved, -⟩ := move_same route holds room
  have sane : ¬ Astray fs [SLASH, 97] [SLASH, 98] := by
    rintro ⟨aim', -, -, dot | dotdot | ⟨names, proper, opened⟩⟩
    · exact absurd (name.symm.trans ((congrArg Aim.old_name (aim.unique aim')).trans dot)) (by decide)
    · exact absurd (name.symm.trans ((congrArg Aim.old_name (aim.unique aim')).trans dotdot)) (by decide)
    · rw [aim'.unique aim, moving, target] at opened
      exact absurd (above_root consistent (leads_beneath holds consistent (live_of here) ⟨names, proper, opened⟩))
        (by decide)
  have done : after [.mkdir [SLASH, 97]] (fresh Config.default defaultLayout) = some fs := (after_cons _ ran).trans rfl
  have reached := after_reached default_opened.reached (by simp [Admissible]) done
  have tree : IsTree fs := isTree_of_backs holds consistent fun n alive => live_of_row row alive
  exact ⟨fs, done, fs', runs.trans moved, sane,
    (rename_keeps_tree_iff (fun _ => by decide) reached tree (runs.trans moved)).mpr sane⟩

/-! ### Removed directories -/

/-- The directory `n` that `p` had under a name is gone, and nothing else. -/
structure Removed (fs fs' : Filesystem) (p : UInt32) (name : List UInt8) (n : UInt32) : Prop where
  freed : ¬ Alive fs' n
  unnamed : ∀ q name', Alive fs' q → entry_in fs' q name' ≠ some n
  unmapped : ∀ q b, Alive fs' q → Maps fs n b → ¬ Maps fs' q b
  kept : ∀ name', name' ≠ name → entry_in fs' p name' = entry_in fs p name'
  links : ∃ inode inode', read_inode fs p = .ok inode ∧ read_inode fs' p = .ok inode' ∧
    inode'.links_count.toNat + 1 = inode.links_count.toNat
  slot : ∃ inode, read_inode fs' n = .ok inode ∧ inode.links_count = 0 ∧ inode.dtime ≠ 0 ∧ inode.size = 0 ∧
    inode.block = .zeros 60

section
variable {g : Geometry} {v v' : Volume} {N N' : NodeMap} {fs fs' : Filesystem} {n p : UInt32} {block : Nat} {parent : UInt32}
  {kids : List Kid} {path name : List UInt8}

theorem removed_of_pruned {x : Node} (holds : Holds g v fs) (consistent : Consistent g v N) (holds' : Holds g v' fs')
    (used : ∀ m, Alive fs m → Live N m) (pruned : Pruned g v v' N N' p block parent kids name n x) (dir : x.code = 2) :
    Removed fs fs' p name n := by
  have consistent' := pruned.consistent
  have sound := consistent.sound pruned.here
  have other := child_ne consistent.linked ((child_dir pruned.found name).trans pruned.edge)
  have left : ∀ {m}, Live N' m ↔ Live N m ∧ m ≠ n := by
    intro m
    rw [pruned.nodes]
    exact withoutLeaf_live
  have freed : ¬ Alive fs' n := by
    intro alive
    obtain ⟨-, -, -, bit⟩ := alive_bit holds' alive
    rw [pruned.inodeBit] at bit
    simp at bit
  have used' : ∀ m, Alive fs' m → Live N' m := by
    intro m alive
    obtain ⟨number, inside, covered, bit⟩ := alive_bit holds' alive
    rw [pruned.inodeBit, Bool.and_eq_true] at bit
    refine left.mpr ⟨used m (alive_of_bit holds number inside covered bit.1), ?_⟩
    rintro rfl
    exact freed alive
  have found' : N' p = some (.dir block parent (kids.filter (·.name != name))) := by
    rw [pruned.nodes, withoutLeaf, erase, if_neg other.symm, dropKid, modify_at pruned.found]
    rfl
  have proper := pruned.proper
  refine ⟨freed, ?_, ?_, ?_, ?_, ?_⟩
  · intro q name' alive edge
    rw [entry_in_eq holds' consistent' (used' q alive)] at edge
    exact (left.mp (step_live consistent' edge)).2 rfl
  · intro q b alive old new
    cases there : N' q with
    | none => exact used' q alive there
    | some y =>
      rw [maps_iff holds consistent pruned.here] at old
      rw [maps_iff holds' consistent' there] at new
      exact ((pruned.blockBit b).mp ((consistent'.sound there).owned b new).2.2).2 old
  · intro name' distinct
    rw [entry_in_eq holds' consistent' (live_of found'), entry_in_eq holds consistent (live_of pruned.found),
      step_dir found', step_dir pruned.found]
    by_cases first : name' = DOT
    · rw [first, named_dot, named_dot]
    by_cases second : name' = DOTDOT
    · rw [second, named_dotdot, named_dotdot]
    rw [named_listing _ first second, named_listing _ first second, named_filter, if_neg distinct]
  · have count := DirBacked.links (consistent.sound pruned.found).backed
    have count' := DirBacked.links (consistent'.sound found').backed
    have fewer := subdirs_without consistent pruned.found pruned.edge pruned.here
    rw [if_pos dir] at fewer
    exact ⟨_, _, read_node holds consistent (live_of pruned.found), read_node holds' consistent' (live_of found'), by omega⟩
  · have read := read_inode_ok holds' sound.low sound.listed
    rw [pruned.slot] at read
    exact ⟨_, read, rfl, by show (0x65000001 : UInt32) ≠ 0; decide, rfl, rfl⟩

theorem directory_opened (holds : Holds g v fs) (consistent : Consistent g v N)
    (directory : Directory N path p block parent kids) : open_path fs path = .ok p := by
  rcases open_path_walk holds consistent path with ⟨q, walked, opened⟩ | ⟨nowhere, -⟩
  · cases directory.walked.symm.trans walked
    exact opened
  · rw [directory.walked] at nowhere
    cases nowhere
/-- A path that `rmdir` does not refuse names an entry of a directory. -/
theorem rmdir_names (holds : Holds g v fs) (consistent : Consistent g v N) (ran : (rmdir path).run fs = .ok () fs') :
    ∃ parent_path name p block parent kids n, split_path path = .ok (parent_path, name) ∧
      Directory N parent_path p block parent kids ∧ named (listing p parent kids) name = some n := by
  rcases split_path_ends path with ⟨parent_path, name, split⟩ | ⟨e, split⟩
  case inr =>
    simp only [rmdir, run_bind, run_lift, split, ofRes_err, andThen_err] at ran
    cases ran
  rcases open_directory_ends holds consistent parent_path with ⟨e, refused⟩ | ⟨p, block, parent, kids, directory, opened⟩
  case inl =>
    simp only [rmdir, run_bind, run_lift, split, ofRes_ok, andThen_ok, run_reads, refused, ofRes_err, andThen_err] at ran
    cases ran
  have looked := lookup_ok holds consistent directory.found name
  cases edge : named (listing p parent kids) name with
  | none =>
    rw [edge, okOr_none] at looked
    simp only [rmdir, run_bind, run_lift, split, ofRes_ok, andThen_ok, run_reads, opened, looked, ofRes_err, andThen_err] at ran
    cases ran
  | some n => exact ⟨parent_path, name, p, block, parent, kids, n, split, directory, edge⟩
end

/-- `rmdir` removes just the directory it is given, unless the path ends in `.`. -/
theorem rmdir_removes_iff {config : Config} (contained : Contained config) {fs fs' : Filesystem}
    (reached : Reached config Admissible fs) (tree : IsTree fs) {path : List UInt8} (ran : (rmdir path).run fs = .ok () fs') :
    ∃ parent_path name p n, split_path path = .ok (parent_path, name) ∧ open_path fs parent_path = .ok p ∧
      entry_in fs p name = some n ∧ (Removed fs fs' p name n ↔ name ≠ DOT) := by
  obtain ⟨layout, g, -, -, v, N, holds, consistent⟩ := reached_backs contained reached
  have used : ∀ n, Alive fs n → Live N n := fun n => live_of_alive holds consistent tree
  obtain ⟨parent_path, name, p, block, parent, kids, n, split, directory, edge⟩ := rmdir_names holds consistent ran
  have opened := directory_opened holds consistent directory
  have entry : entry_in fs p name = some n := by
    rw [entry_in_eq holds consistent (live_of directory.found), step_dir directory.found, edge]
  refine ⟨parent_path, name, p, n, split, opened, entry, ?_, fun other => ?_⟩
  · rintro removed rfl
    rw [named_dot] at edge
    cases edge
    obtain ⟨inode, inode', read, read', fewer⟩ := removed.links
    obtain ⟨slot, read'', none, -⟩ := removed.slot
    cases read'.symm.trans read''
    cases (read_node holds consistent (live_of directory.found)).symm.trans read
    have count := DirBacked.links (consistent.sound directory.found).backed
    rw [none] at fewer
    have zero : (0 : UInt16).toNat = 0 := rfl
    omega
  · have ended := rmdir_ends holds consistent path fun parent_path' name' split' => by
      cases split.symm.trans split'
      exact other
    rw [ran] at ended
    cases ended with
    | removed split' directory' holds' written pruned dir =>
      cases split.symm.trans split'
      cases directory.walked.symm.trans directory'.walked
      cases directory.found.symm.trans directory'.found
      have same := edge
      rw [named_listing _ pruned.proper.2.2.1 pruned.proper.2.2.2, pruned.edge] at same
      cases same
      exact removed_of_pruned holds consistent holds' used pruned dir

section
variable {g : Geometry} {v v₁ : Volume} {N : NodeMap} {fs fs₁ : Filesystem} {n p q parent : UInt32} {block b : Nat}
  {kids : List Kid} {path parent_path name : List UInt8}

/-- The call takes all its steps when `destroy` does. -/
theorem rmdir_runs (holds : Holds g v fs) (consistent : Consistent g v N) (large : 2048 ≤ g.block_size)
    (split : split_path path = .ok (parent_path, name)) (directory : Directory N parent_path p block parent kids)
    (edge : named (listing p parent kids) name = some n) (root : n ≠ ROOT_INODE) (here : N n = some (.dir b q []))
    (destroyed : (destroy (v.slot p) n (v.slot n) name).run fs = .ok () fs₁) (holds₁ : Holds g v₁ fs₁) :
    ∃ fs', (rmdir path).run fs = .ok () fs' ∧ Holds g
      ((v₁.setSlot p { v.slot p with links_count := .ofNat ((v.slot p).links_count.toNat - 1) }).onGroup0
        (on_used_dirs (· - 1))) fs' := by
  have found := consistent.sound directory.found
  have opened := open_directory_ok holds consistent directory
  have looked := lookup_ok holds consistent directory.found name
  rw [edge, okOr_some] at looked
  have read := read_node holds consistent (live_of here)
  have allowed : ensure (Inode.is_directory (v.slot n)) (Ext4Error.NotADirectory n) = .ok () := by
    rw [(types_of_node (consistent.sound here).backed).1]
    rfl
  obtain ⟨es, listed, -, same⟩ := read_dir_ok holds (consistent.sound here)
  have left := entries_left consistent here same
  obtain ⟨fs₂, linked, holds₂⟩ := write_inode_ok holds₁ (n := p) found.low found.listed
    { v.slot p with links_count := .ofNat ((v.slot p).links_count.toNat - 1) }
  have counted := holds₂.onGroup0 (f := on_used_dirs (· - 1)) fun _ => ⟨rfl, rfl, rfl⟩
  obtain ⟨fs₃, flushed, holds₃, -⟩ := flush_metadata_ok counted large
  refine ⟨fs₃, ?_, holds₃⟩
  simp only [rmdir, run_bind, run_lift, split, ofRes_ok, andThen_ok, run_reads, opened, looked, ensure_of root, read,
    allowed, listed, left, ensure_of (show List.length ([] : List Kid) = 0 from rfl), destroyed, linked, change_gdt0,
    run_change, flushed]

/-- Nothing stops the steps of a removal that goes by the dot. -/
theorem destroy_dot (holds : Holds g v fs) (consistent : Consistent g v N) (modest : Modest g v)
    (here : N n = some (.dir b q [])) :
    ∃ fs' v', (destroy (v.slot n) n (v.slot n) DOT).run fs = .ok () fs' ∧ Holds g v' fs' := by
  have sound := consistent.sound here
  have low := sound.low
  obtain ⟨s, c, -, freed⟩ := free_data_ok holds sound
  rcases freed with ⟨-, immodest⟩ | ⟨fs₁, freed, holds₁⟩
  · exact absurd modest immodest
  rcases free_inode_spec holds₁ low sound.covered with ⟨-, many⟩ | ⟨fs₂, given, holds₂⟩
  · exact absurd (modest.freeBlocks s c) many
  obtain ⟨fs₃, marked, holds₃⟩ := write_inode_ok holds₂ low sound.listed (deleted (v.slot n))
  obtain ⟨es, tiles, same⟩ := DirBacked.lists sound.backed
  obtain ⟨dot, rest, rfl, first, -⟩ := List.map_eq_cons_iff.mp same
  have nonzero := consistent.live_nonzero (live_of here)
  have inode : dot.inode = n := congrArg Kid.inode first
  have target : names_target n DOT dot = true := by
    have name : dot.name = DOT := congrArg Kid.name first
    simp [names_target, is_unused, inode, name, nonzero]
  obtain ⟨bytes, erased, size, -⟩ := erase_entry_first tiles target
  have one := oneBlock sound
  obtain ⟨fs₄, written, holds₄⟩ := write_block_ok holds₃ (size.trans (DirBacked.bytes sound.backed)) one.low one.high
  have removed : (remove_dir_entry (v.slot n) n DOT).run fs₃ = .ok () fs₄ := by
    simp only [remove_dir_entry, run_bind, run_reads, first_block_ok holds₃ one, ofRes_ok, andThen_ok, run_lift]
    rw [show ((((v.freeBlocks s c).freeInode (n.toNat - 1)).setSlot n (deleted (v.slot n))).block b) = v.block b from rfl,
      erased, ofRes_ok, andThen_ok]
    exact written
  refine ⟨fs₄, _, ?_, holds₄⟩
  simp only [destroy, run_bind, freed, given, marked, removed, andThen_ok]
end

/-- Removing the directory by its name. -/
theorem rmdir_by_name : ∃ fs, after [.mkdir [SLASH, 97]] (fresh Config.default defaultLayout) = some fs ∧ IsTree fs ∧
    ∃ fs', (rmdir [SLASH, 97]).run fs = .ok () fs' ∧ ∃ parent_path name p n, split_path [SLASH, 97] = .ok (parent_path, name) ∧
      open_path fs parent_path = .ok p ∧ entry_in fs p name = some n ∧ (Removed fs fs' p name n ↔ name ≠ DOT) := by
  obtain ⟨g, v, N, fs, left, block, b, whole, ran, row, root, here, -⟩ := one_directory
  have holds := row.holds
  have consistent := row.consistent
  have size : g.block_size = 4096 := whole.block_size
  have proper : Proper [97] := by decide
  rcases destroy_ok holds consistent root proper (show named _ [97] = some 11 from rfl) here with
    ⟨-, immodest⟩ | ⟨s, c, bytes, fs₁, -, destroyed, holds₁, -⟩
  · exact absurd (modest whole row.counted) immodest
  obtain ⟨fs', removed, -⟩ := rmdir_runs holds consistent (by omega) (split_root ⟨by decide, by decide⟩) (root_directory root)
    (show named _ [97] = some 11 from rfl) (by decide) here destroyed holds₁
  have tree : IsTree fs := isTree_of_backs holds consistent fun n alive => live_of_row row alive
  have done : after [.mkdir [SLASH, 97]] (fresh Config.default defaultLayout) = some fs := (after_cons _ ran).trans rfl
  have reached := after_reached default_opened.reached (by simp [Admissible]) done
  exact ⟨fs, done, tree, fs', removed, rmdir_removes_iff (fun _ => by decide) reached tree removed⟩

/-- Removing it by its dot leaves its name in the root and its record in use. -/
theorem rmdir_by_dot : ∃ fs, after [.mkdir [SLASH, 97]] (fresh Config.default defaultLayout) = some fs ∧ IsTree fs ∧
    ∃ fs', (rmdir [SLASH, 97, SLASH, 46]).run fs = .ok () fs' ∧ split_path [SLASH, 97, SLASH, 46] = .ok ([SLASH, 97], DOT) ∧
      open_path fs [SLASH, 97] = .ok 11 ∧ entry_in fs 11 DOT = some 11 ∧ ¬ Removed fs fs' 11 DOT 11 := by
  obtain ⟨g, v, N, fs, left, block, b, whole, ran, row, root, here, -⟩ := one_directory
  have holds := row.holds
  have consistent := row.consistent
  have size : g.block_size = 4096 := whole.block_size
  have split : split_path [SLASH, 97, SLASH, 46] = .ok ([SLASH, 97], DOT) := rfl
  have directory := opens_directory root here
  obtain ⟨fs₁, v₁, destroyed, holds₁⟩ := destroy_dot holds consistent (modest whole row.counted) here
  obtain ⟨fs', removed, -⟩ := rmdir_runs holds consistent (by omega) split directory (named_dot _ _) (by decide) here
    destroyed holds₁
  have tree : IsTree fs := isTree_of_backs holds consistent fun n alive => live_of_row row alive
  have done : after [.mkdir [SLASH, 97]] (fresh Config.default defaultLayout) = some fs := (after_cons _ ran).trans rfl
  have reached := after_reached default_opened.reached (by simp [Admissible]) done
  obtain ⟨parent_path, name, p, n, split', opened, entry, iff⟩ := rmdir_removes_iff (fun _ => by decide) reached tree removed
  cases split.symm.trans split'
  have opened' := directory_opened holds consistent directory
  cases opened.symm.trans opened'
  have entry' : entry_in fs 11 DOT = some 11 := by
    rw [entry_in_eq holds consistent (live_of here), step_dir here, named_dot]
  cases entry.symm.trans entry'
  exact ⟨fs, done, tree, fs', removed, split, opened', entry', fun gone => iff.mp gone rfl⟩

end Justext4.DirectoryTree
