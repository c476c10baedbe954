import Justext4.Remove

/-!
Moving an entry. The new name is entered before the old one is taken out, in
another directory or in the same one; a directory that comes under another
parent is led to it by its `..`, and the two parents count one link less and one
more. A file or a link at the destination is removed first.
-/
namespace Justext4.Rename
open Justext4 Justext4.Fallible Justext4.Filesystem Justext4.Volumes Bytes
open Justext4.Inode (Inode)
open Justext4.DirBlock
open Justext4.Nodes
open Justext4.NamedTree
open Justext4.Paths
open Justext4.Backing
open Justext4.Reading
open Justext4.Entries
open Justext4.Counts
open Justext4.Leaves
open Justext4.Allocation
open Justext4.Remove

section
variable {g : Geometry} {v v₁ v₂ v' : Volume} {N : NodeMap} {fs : Filesystem} {n m p p' : UInt32} {x y : Node}
  {block block' : Nat} {parent parent' : UInt32} {kids kids' : List Kid} {old_name new_name : List UInt8}

/-! ### The volume -/

theorem setBlock_again (v : Volume) (b : Nat) (first second : Bytes) :
    (v.setBlock b first).setBlock b second = v.setBlock b second := by
  have blocks : ((v.setBlock b first).setBlock b second).block = (v.setBlock b second).block := by
    funext q
    simp only [Volume.setBlock]
    split <;> rfl
  exact congrArg (fun block => { v with block }) blocks
theorem setSlot_comm (other : n ≠ m) (first second : Inode) :
    (v.setSlot n first).setSlot m second = (v.setSlot m second).setSlot n first := by
  have slots : ((v.setSlot n first).setSlot m second).slot = ((v.setSlot m second).setSlot n first).slot := by
    funext q
    simp only [Volume.setSlot]
    by_cases left : q = n
    · rw [if_pos left, if_neg fun right => other (left.symm.trans right), if_pos left]
    · rw [if_neg left, if_neg left]
  exact congrArg (fun slot => { v with slot }) slots

/-! ### The nodes -/

/-- A node that is not a directory stays when a directory gets other entries. -/
theorem modify_plain {f : Node → Node} (found : N p = some (.dir block parent kids)) (there : N m = some y)
    (plain : y.code ≠ 2) : modify N p f m = some y := by
  have other : m ≠ p := by
    rintro rfl
    rw [found] at there
    cases there
    exact plain rfl
  rw [modify_other _ other, there]
theorem modify_same {f : Node → Node} (here : N m = some x) (same : f x = x) : modify N m f = N := by
  funext q
  by_cases hit : q = m
  · subst hit
    rw [modify_at here, same, here]
  · exact modify_other f hit
theorem modify_modify (f h : Node → Node) : modify (modify N p f) p h = modify N p (fun z => h (f z)) := by
  funext q
  by_cases hit : q = p
  · subst hit
    cases there : N q <;> simp [Nodes.modify, there]
  · rw [modify_other _ hit, modify_other _ hit, modify_other _ hit]
/-- Of a directory there is nothing to compare. -/
theorem sameData_plain (data : y.code ≠ 2 → SameData v v' n y) : SameData v v' n y := by
  cases y with
  | dir => trivial
  | file => exact data (show (1 : UInt8) ≠ 2 by decide)
  | link => exact data (show (7 : UInt8) ≠ 2 by decide)
/-- The blocks belong to the same nodes. -/
theorem owned_modify {f : Node → Node} (keeps : ∀ z b, (f z).Owns b ↔ z.Owns b) {b : Nat}
    (owned : ∃ n y, N n = some y ∧ y.Owns b) : ∃ n y, modify N p f n = some y ∧ y.Owns b := by
  obtain ⟨n, y, there, owns⟩ := owned
  by_cases same : n = p
  · subst same
    exact ⟨n, f y, modify_at there, (keeps y b).mpr owns⟩
  · exact ⟨n, y, by rw [modify_other _ same, there], owns⟩
theorem kind_withParent (q m : UInt32) : (setParent N n q m).map (·.code) = (N m).map (·.code) := by
  rw [setParent, Nodes.modify]
  split
  · cases N m <;> simp
  · rfl
/-- A move changes neither the kinds of the nodes nor their blocks. -/
theorem dirs_moved (code : UInt8) : dirs g (moved N p old_name p' new_name m code) = dirs g N :=
  dirs_congr fun q => by rw [moved, kind_withParent, dropKid, kind_modify, addKid, kind_modify]
theorem live_moved (code : UInt8) : Live (moved N p old_name p' new_name m code) = Live N := by
  rw [moved, setParent, live_modify, dropKid, live_modify, addKid, live_modify]
theorem tight_moved (tight : Tight g v N) (code : UInt8) (inodeBit : v'.inodeBit = v.inodeBit)
    (blockBit : v'.blockBit = v.blockBit) : Tight g v' (moved N p old_name p' new_name m code) := by
  refine ⟨fun i small set => ?_, fun b small set => ?_⟩
  · rw [live_moved]
    rw [inodeBit] at set
    exact tight.inodes i small set
  · rw [blockBit] at set
    rcases tight.blocks b small set with metadata | owned
    · exact .inl metadata
    · exact .inr (owned_modify (by simp) (owned_modify (by simp) (owned_modify (by simp) owned)))

/-! ### What a move leaves -/

/-- An entry has moved, and nothing else has changed. -/
structure Relocated (g : Geometry) (v v' : Volume) (N N' : NodeMap) (p : UInt32) (old_name : List UInt8) (p' : UInt32)
    (new_name : List UInt8) (m : UInt32) (x : Node) : Prop where
  source : ∃ block parent kids, N p = some (.dir block parent kids)
  target : ∃ block parent kids, N p' = some (.dir block parent kids)
  edge : child N p old_name = some m
  free : child N p' new_name = none
  here : N m = some x
  proper : Proper old_name
  proper' : Proper new_name
  apart : ¬ Beneath (child N) m p'
  nodes : N' = moved N p old_name p' new_name m x.code
  consistent : Consistent g v' N'
  counted : Counted g v (dirs g N) → Counted g v' (dirs g N')
  tight : Tight g v N → Tight g v' N'
  kept : ∀ {n y}, N n = some y → SameData v v' n y
  inodeBit : v'.inodeBit = v.inodeBit

/-- A volume that is laid as the nodes say after a move is one where the entry has moved. -/
theorem relocated_of_laid (consistent : Consistent g v N) (found : N p = some (.dir block parent kids))
    (found' : N p' = some (.dir block' parent' kids')) (edge : named kids old_name = some m) (here : N m = some x)
    (proper : Proper old_name) (free : named kids' new_name = none) (proper' : Proper new_name)
    (apart : ¬ Beneath (child N) m p') (laid : Laid g v' (moved N p old_name p' new_name m x.code))
    (kept : ∀ {n y}, N n = some y → SameData v v' n y) (counted : ∀ used, Counted g v used → Counted g v' used)
    (inodeBit : v'.inodeBit = v.inodeBit) (blockBit : v'.blockBit = v.blockBit) :
    Relocated g v v' N (moved N p old_name p' new_name m x.code) p old_name p' new_name m x := by
  have edge' := (child_dir found old_name).trans edge
  refine ⟨⟨_, _, _, found⟩, ⟨_, _, _, found'⟩, edge', (child_dir found' new_name).trans free, here, proper, proper', apart,
    rfl, ⟨laid, linked_moved consistent.linked found found' edge' here free proper' apart⟩, ?_, ?_, kept, inodeBit⟩
  · rw [dirs_moved]
    exact counted _
  · exact fun tight => tight_moved tight x.code inodeBit blockBit

theorem relocated_same (consistent : Consistent g v N) (found : N p = some (.dir block parent kids))
    (edge : named kids old_name = some m) (here : N m = some x) (proper : Proper old_name)
    (free : named kids new_name = none) (proper' : Proper new_name) (apart : ¬ Beneath (child N) m p)
    (relisted : Relisted g v v' p block parent ((kids ++ [(⟨new_name, m, x.code⟩ : Kid)]).filter (·.name != old_name)))
    (counted : ∀ used, Counted g v used → Counted g v' used) :
    Relocated g v v' N (moved N p old_name p new_name m x.code) p old_name p new_name m x := by
  have edge' := (child_dir found old_name).trans edge
  have away := child_ne consistent.linked edge'
  -- The parent of the moved node is the directory already.
  have same : x.withParent p = x := by
    obtain ⟨before, k, after, split, -, inode, -⟩ := named_some edge
    obtain ⟨z, there, -, back⟩ := consistent.linked.kids found k (by simp [split])
    rw [inode, here] at there
    cases there
    exact withParent_same back
  have stays : dropKid (addKid N p ⟨new_name, m, x.code⟩) p old_name m = some x := by
    rw [dropKid, modify_other _ away, addKid, modify_other _ away, here]
  have once : moved N p old_name p new_name m x.code = modify N p fun z : Node =>
      (z.onKids (· ++ [(⟨new_name, m, x.code⟩ : Kid)])).onKids (·.filter (·.name != old_name)) := by
    rw [moved, setParent, modify_same stays same, dropKid, addKid, modify_modify]
  have laid : Laid g v' (moved N p old_name p new_name m x.code) := by
    rw [once]
    exact laid_relisted consistent.toLaid found rfl relisted
  exact relocated_of_laid consistent found found edge here proper free proper' apart laid
    (relisted.data consistent.toLaid found) counted relisted.inodeBit relisted.blockBit

/-! ### The steps of a move -/

/-- The directories of a move whose destination is free. -/
structure Track (g : Geometry) (v : Volume) (N : NodeMap) (p : UInt32) (block : Nat) (parent : UInt32) (kids : List Kid)
    (old_name : List UInt8) (p' : UInt32) (block' : Nat) (parent' : UInt32) (kids' : List Kid) (new_name : List UInt8)
    (m : UInt32) (x : Node) : Prop where
  consistent : Consistent g v N
  found : N p = some (.dir block parent kids)
  found' : N p' = some (.dir block' parent' kids')
  edge : named kids old_name = some m
  here : N m = some x
  proper : Proper old_name
  free : named kids' new_name = none
  proper' : Proper new_name
/-- The new place is not beneath what moves. -/
structure Route (g : Geometry) (v : Volume) (N : NodeMap) (p : UInt32) (block : Nat) (parent : UInt32) (kids : List Kid)
    (old_name : List UInt8) (p' : UInt32) (block' : Nat) (parent' : UInt32) (kids' : List Kid) (new_name : List UInt8)
    (m : UInt32) (x : Node) : Prop
    extends Track g v N p block parent kids old_name p' block' parent' kids' new_name m x where
  apart : ¬ Beneath (child N) m p'

/-- The end of a move that goes through. -/
def Done (g : Geometry) (v : Volume) (N : NodeMap) (p : UInt32) (old_name : List UInt8) (p' : UInt32)
    (new_name : List UInt8) (m : UInt32) (x : Node) (ended : Ended Filesystem Ext4Error Unit) : Prop :=
  ∃ fs' v', ended = .ok () fs' ∧ Holds g v' fs' ∧ WrittenOut g fs' ∧
    Relocated g v v' N (moved N p old_name p' new_name m x.code) p old_name p' new_name m x

/-- Without room for the new name nothing happens. -/
theorem move_full (old_name : List UInt8) (holds : Holds g v fs) (consistent : Consistent g v N) (found' : N p' = some (.dir block' parent' kids'))
    (full : has_room (v.block block') new_name = false) (old_parent_inode src_inode : Inode) (code : UInt8) :
    ∃ e, (move_entry p p' old_parent_inode (v.slot p') old_name new_name m src_inode code).run fs = .err e fs := by
  have sound' := consistent.sound found'
  obtain ⟨e, refused⟩ := add_dir_entry_full holds (oneBlock sound') (DirBacked.lists sound'.backed) full m code
  exact ⟨e, by simp only [move_entry, run_bind, refused, andThen_err]⟩

section
variable (route : Track g v N p block parent kids old_name p' block' parent' kids' new_name m x)
include route

theorem Track.nonzero : m ≠ 0 := route.consistent.live_nonzero (live_of route.here)
theorem Track.is_directory : Inode.is_directory (v.slot m) = (x.code == 2) :=
  (types_of_node (route.consistent.sound route.here).backed).1
theorem Track.large : 2048 ≤ g.block_size :=
  large_of_edge route.consistent ((child_dir route.found old_name).trans route.edge) route.here
/-- The new name is entered. -/
theorem Track.enter (holds : Holds g v fs) (room : has_room (v.block block') new_name = true) :
    ∃ bytes fs', (add_dir_entry (v.slot p') new_name m x.code).run fs = .ok () fs' ∧
      Holds g (v.setBlock block' bytes) fs' ∧ bytes.size = g.block_size ∧
      Lists bytes (listing p' parent' (kids' ++ [⟨new_name, m, x.code⟩])) := by
  have sound' := route.consistent.sound route.found'
  obtain ⟨bytes, fs', entered, holds', size, lists, -⟩ :=
    add_dir_entry_ok holds (oneBlock sound') (DirBacked.lists sound'.backed) room m x.code
  exact ⟨bytes, fs', entered, holds', size, lists⟩
/-- The old name is taken out of another directory. -/
theorem Track.take {v₁ : Volume} (holds : Holds g v₁ fs) (lists : Lists (v₁.block block) (listing p parent kids)) :
    ∃ bytes fs', (remove_dir_entry (v.slot p) m old_name).run fs = .ok () fs' ∧ Holds g (v₁.setBlock block bytes) fs' ∧
      bytes.size = g.block_size ∧ Lists bytes (listing p parent (kids.filter (·.name != old_name))) := by
  obtain ⟨bytes, fs', removed, holds', size, left, -⟩ :=
    remove_dir_entry_ok holds (oneBlock (route.consistent.sound route.found)) lists
      (route.consistent.linked.names route.found) route.proper route.edge route.nonzero
  exact ⟨bytes, fs', removed, holds', size, left⟩

/-- The number of directories among the entries of the old directory. -/
theorem Track.fewer :
    subdirs (kids.filter (·.name != old_name)) + (if x.code = 2 then 1 else 0) = subdirs kids :=
  subdirs_without route.consistent route.found route.edge route.here
end

theorem move_same (route : Route g v N p block parent kids old_name p block parent kids new_name m x)
    (holds : Holds g v fs) (room : has_room (v.block block) new_name = true) :
    Done g v N p old_name p new_name m x
      ((move_entry p p (v.slot p) (v.slot p) old_name new_name m (v.slot m) x.code).run fs) := by
  obtain ⟨first, fs₁, entered, holds₁, -, lists₁⟩ := route.enter holds room
  have sound := route.consistent.sound route.found
  have other : old_name ≠ new_name := by
    rintro rfl
    have edge := route.edge
    rw [route.free] at edge
    cases edge
  have edge : named (kids ++ [⟨new_name, m, x.code⟩]) old_name = some m := by
    rw [named_append route.free, if_neg other, route.edge]
  have here : (v.setBlock block first).block block = first := if_pos rfl
  have nodup : ((kids ++ [(⟨new_name, m, x.code⟩ : Kid)]).map (·.name)).Nodup :=
    nodup_snoc (route.consistent.linked.names route.found) route.free
  obtain ⟨second, fs₂, removed, holds₂, size, lists₂, -⟩ :=
    remove_dir_entry_ok holds₁ (oneBlock sound) (here ▸ lists₁) nodup route.proper edge route.nonzero
  rw [setBlock_again] at holds₂
  obtain ⟨fs₃, flushed, holds₃, written⟩ := flush_metadata_ok holds₂ route.large
  have subs : subdirs ((kids ++ [(⟨new_name, m, x.code⟩ : Kid)]).filter (·.name != old_name)) = subdirs kids := by
    have fewer := route.fewer
    have split : (kids ++ [(⟨new_name, m, x.code⟩ : Kid)]).filter (·.name != old_name) =
        kids.filter (·.name != old_name) ++ [⟨new_name, m, x.code⟩] := by
      rw [List.filter_append, List.filter_cons_of_pos (by simpa using other.symm), List.filter_nil]
    rw [split, subdirs_append]
    exact fewer
  refine ⟨fs₃, _, ?_, holds₃, written, relocated_same route.consistent route.found route.edge route.here route.proper
    route.free route.proper' route.apart (relisted_plain _ sound size lists₂ subs) fun used old => old.setBlock block second⟩
  simp only [move_entry, run_bind, entered, removed, andThen_ok, ↓reduceIte, not_true_eq_false, false_and, flushed]

/-- The entry of a file or a link goes from one directory to another. -/
theorem move_plain (route : Route g v N p block parent kids old_name p' block' parent' kids' new_name m x)
    (holds : Holds g v fs) (other : p ≠ p') (plain : x.code ≠ 2) (room : has_room (v.block block') new_name = true) :
    Done g v N p old_name p' new_name m x
      ((move_entry p p' (v.slot p) (v.slot p') old_name new_name m (v.slot m) x.code).run fs) := by
  obtain ⟨first, fs₁, entered, holds₁, size₁, lists₁⟩ := route.enter holds room
  have consistent := route.consistent
  have apart : block ≠ block' := fun same => consistent.apart route.found route.found' other block rfl same
  have here : (v.setBlock block' first).block block = v.block block := if_neg apart
  obtain ⟨second, fs₂, removed, holds₂, size₂, lists₂⟩ :=
    route.take holds₁ (here ▸ DirBacked.lists (consistent.sound route.found).backed)
  obtain ⟨fs₃, flushed, holds₃, written⟩ := flush_metadata_ok holds₂ route.large
  have type := route.is_directory
  have dir : Inode.is_directory (v.slot m) = false := by simpa [type] using plain
  have relisted₁ := relisted_plain (kids' ++ [⟨new_name, m, x.code⟩]) (consistent.sound route.found') size₁ lists₁
    (by rw [subdirs_append, if_neg plain, Nat.add_zero])
  have laid₁ := laid_relisted (f := .onKids (· ++ [⟨new_name, m, x.code⟩])) consistent.toLaid route.found' rfl relisted₁
  have found₁ : addKid N p' ⟨new_name, m, x.code⟩ p = some (.dir block parent kids) := by
    rw [addKid, modify_other _ other, route.found]
  have fewer := route.fewer
  rw [if_neg plain, Nat.add_zero] at fewer
  have relisted₂ := relisted_plain _ (laid₁.sound found₁) size₂ lists₂ fewer
  have laid₂ := laid_relisted (f := .onKids (·.filter (·.name != old_name))) laid₁ found₁ rfl relisted₂
  -- What is not a directory has no parent to be led to.
  have stays : setParent (dropKid (addKid N p' ⟨new_name, m, x.code⟩) p old_name) m p' =
      dropKid (addKid N p' ⟨new_name, m, x.code⟩) p old_name := by
    have there : addKid N p' ⟨new_name, m, x.code⟩ m = some x := modify_plain route.found' route.here plain
    have there' : dropKid (addKid N p' ⟨new_name, m, x.code⟩) p old_name m = some x := modify_plain found₁ there plain
    refine modify_same there' ?_
    cases x with
    | dir => exact absurd rfl plain
    | file => rfl
    | link => rfl
  have kept : ∀ {n y}, N n = some y → SameData v ((v.setBlock block' first).setBlock block second) n y := fun there =>
    sameData_plain fun plain => (relisted₁.data consistent.toLaid route.found' there).trans
      (relisted₂.data laid₁ found₁ (modify_plain route.found' there plain))
  refine ⟨fs₃, _, ?_, holds₃, written, relocated_of_laid consistent route.found route.found' route.edge route.here
    route.proper route.free route.proper' route.apart (by rw [moved, stays]; exact laid₂) kept
    (fun used old => (old.setBlock block' first).setBlock block second) rfl rfl⟩
  simp only [move_entry, run_bind, entered, other, removed, andThen_ok, ↓reduceIte, dir, Bool.false_eq_true, and_false,
    flushed]

/-- A directory that has gone from one directory to another, itself or one below
    it among them. -/
structure Shifted (g : Geometry) (v v' : Volume) (N N' : NodeMap) : Prop where
  laid : Laid g v' N'
  kept : ∀ {n y}, N n = some y → SameData v v' n y
  counted : ∀ used, Counted g v used → Counted g v' used
  inodeBit : v'.inodeBit = v.inodeBit
  blockBit : v'.blockBit = v.blockBit

theorem Track.shifts {b : Nat} {q : UInt32} {ks : List Kid}
    (route : Track g v N p block parent kids old_name p' block' parent' kids' new_name m (.dir b q ks))
    (holds : Holds g v fs) (other : p ≠ p') (room : has_room (v.block block') new_name = true) :
    ∃ fs' v', (move_entry p p' (v.slot p) (v.slot p') old_name new_name m (v.slot m) 2).run fs = .ok () fs' ∧
      Holds g v' fs' ∧ WrittenOut g fs' ∧ Shifted g v v' N (moved N p old_name p' new_name m 2) := by
  have code : (Node.dir b q ks).code = 2 := rfl
  obtain ⟨first, fs₁, entered, holds₁, size₁, lists₁⟩ := route.enter holds room
  rw [code] at entered
  have consistent := route.consistent
  have sound := consistent.sound route.found
  have sound' := consistent.sound route.found'
  have moving := consistent.sound route.here
  have away' : m ≠ p := child_ne consistent.linked ((child_dir route.found old_name).trans route.edge)
  have apart : block ≠ block' := fun same => consistent.apart route.found route.found' other block rfl same
  have apart'' : b ≠ block := fun same => consistent.apart route.here route.found away' b rfl same
  have here : (v.setBlock block' first).block block = v.block block := if_neg apart
  obtain ⟨second, fs₂, removed, holds₂, size₂, lists₂⟩ := route.take holds₁ (here ▸ DirBacked.lists sound.backed)
  -- What moves has its own new entry in it when it moves into itself.
  obtain ⟨ks', here₂, lists_m⟩ : ∃ ks', dropKid (addKid N p' ⟨new_name, m, 2⟩) p old_name m = some (.dir b q ks') ∧
      Lists (((v.setBlock block' first).setBlock block second).block b) (listing m q ks') := by
    rw [show ((v.setBlock block' first).setBlock block second).block b = (v.setBlock block' first).block b from if_neg apart'',
      dropKid, modify_other _ away']
    by_cases self : m = p'
    · subst self
      have found' := route.found'
      rw [route.here] at found'
      cases found'
      exact ⟨_, modify_at route.here, by rw [show (v.setBlock block' first).block block' = first from if_pos rfl]; exact lists₁⟩
    · have apart' : b ≠ block' := fun same => consistent.apart route.here route.found' self b rfl same
      exact ⟨ks, by rw [addKid, modify_other _ self, route.here],
        by rw [show (v.setBlock block' first).block b = v.block b from if_neg apart']; exact DirBacked.lists moving.backed⟩
  have back : q ≠ 0 := consistent.live_nonzero (consistent.parent_live route.here)
  obtain ⟨third, fs₃, led, holds₃, size₃, lists₃⟩ := update_dotdot_ok holds₂ (oneBlock moving) lists_m back p'
  have type : Inode.is_directory (v.slot m) = true := route.is_directory
  have few := links_few consistent route.found'
  obtain ⟨fs₄, less, holds₄⟩ := write_inode_ok holds₃ (n := p) sound.low sound.listed
    { v.slot p with links_count := .ofNat ((v.slot p).links_count.toNat - 1) }
  obtain ⟨fs₅, more, holds₅⟩ := write_inode_ok holds₄ (n := p') sound'.low sound'.listed
    { v.slot p' with links_count := .ofNat ((v.slot p').links_count.toNat + 1) }
  obtain ⟨fs₆, flushed, holds₆, written⟩ := flush_metadata_ok holds₅ route.large
  have backed : DirBacked g v p block parent kids := sound.backed
  have backed' : DirBacked g v p' block' parent' kids' := sound'.backed
  have relisted₁ := relisted_links v p' block' (.ofNat ((v.slot p').links_count.toNat + 1)) size₁ lists₁ (by
      have count := backed'.links
      rw [toNat_ofNat16 few, subdirs_append, if_pos code]
      omega)
  have relisted₂ := relisted_links ((v.setBlock block' first).setSlot p'
      { v.slot p' with links_count := .ofNat ((v.slot p').links_count.toNat + 1) }) p block
    (.ofNat ((v.slot p).links_count.toNat - 1)) size₂ lists₂ (by
      have count := backed.links
      have fewer := route.fewer
      have bound := (v.slot p).links_count.toNat_lt
      rw [if_pos code] at fewer
      rw [toNat_ofNat16 (by omega)]
      omega)
  have unchanged : ((v.setBlock block' first).setSlot p'
      { v.slot p' with links_count := .ofNat ((v.slot p').links_count.toNat + 1) }).slot p = v.slot p := if_neg other
  rw [unchanged] at relisted₂
  have laid₁ := laid_relisted (f := .onKids (· ++ [⟨new_name, m, 2⟩])) consistent.toLaid route.found' rfl relisted₁
  have found₁ : addKid N p' ⟨new_name, m, 2⟩ p = some (.dir block parent kids) := by
    rw [addKid, modify_other _ other, route.found]
  have laid₂ := laid_relisted (f := .onKids (·.filter (·.name != old_name))) laid₁ found₁ rfl relisted₂
  have relisted₃ := relisted_plain _ (laid₂.sound here₂) size₃ lists₃ rfl
  have laid₃ := laid_relisted (f := .withParent p') laid₂ here₂ rfl relisted₃
  -- The volume is the same whether the links are counted last or on the way.
  rw [setSlot_comm other] at holds₆
  refine ⟨fs₆, _, ?_, holds₆, written, laid₃, fun there => sameData_plain fun plain => ?_, fun used old => ?_, rfl, rfl⟩
  · simp only [move_entry, run_bind, entered, other, removed, andThen_ok, ↓reduceIte, type, not_false_eq_true, and_self, led,
      run_lift, decide_eq_true few, orPanic_true, ofRes_ok, less, more, flushed]
  · rename_i n y
    have there₁ : addKid N p' ⟨new_name, m, 2⟩ n = some y := modify_plain route.found' there plain
    exact ((relisted₁.data consistent.toLaid route.found' there).trans (relisted₂.data laid₁ found₁ there₁)).trans
      (relisted₃.data laid₂ here₂ (modify_plain found₁ there₁ plain))
  · exact ((((old.setBlock block' first).setSlot p' _).setBlock block second).setSlot p _).setBlock b third

theorem move_dir {b : Nat} {q : UInt32} {ks : List Kid}
    (route : Route g v N p block parent kids old_name p' block' parent' kids' new_name m (.dir b q ks))
    (holds : Holds g v fs) (other : p ≠ p') (room : has_room (v.block block') new_name = true) :
    Done g v N p old_name p' new_name m (.dir b q ks)
      ((move_entry p p' (v.slot p) (v.slot p') old_name new_name m (v.slot m) 2).run fs) := by
  obtain ⟨fs', v', ran, holds', written, laid, kept, counted, inodeBit, blockBit⟩ := route.shifts holds other room
  exact ⟨fs', v', ran, holds', written, relocated_of_laid route.consistent route.found route.found' route.edge route.here
    route.proper route.free route.proper' route.apart laid kept counted inodeBit blockBit⟩

/-! ### What the checks find -/

/-- What the checks of a rename find. -/
structure Aim (fs : Filesystem) (old_path new_path : List UInt8) where
  old_parent_path : List UInt8
  old_name : List UInt8
  new_parent_path : List UInt8
  new_name : List UInt8
  old_parent_inode_num : UInt32
  old_parent_inode : Inode
  src_inode_num : UInt32
  src_inode : Inode
  new_parent_inode_num : UInt32
  new_parent_inode : Inode
  dst : Destination
  old_split : split_path old_path = .ok (old_parent_path, old_name)
  new_split : split_path new_path = .ok (new_parent_path, new_name)
  old_opened : open_directory fs old_parent_path = .ok (old_parent_inode_num, old_parent_inode)
  looked : lookup fs old_parent_inode old_name = .ok src_inode_num
  not_root : src_inode_num ≠ ROOT_INODE
  read : read_inode fs src_inode_num = .ok src_inode
  new_opened : open_directory fs new_parent_path = .ok (new_parent_inode_num, new_parent_inode)
  dst_found : destination fs new_parent_inode new_name src_inode_num (Inode.is_directory src_inode) = .ok dst

/-- Whether the first block of a directory has room for a name, and whether the
    name is the last one in it. -/
def Roomy (fs : Filesystem) (inode : Inode) (name : List UInt8) : Prop :=
  ∃ offset buf, first_block fs inode = .ok (offset, buf) ∧ has_room buf name = true
def Ends (fs : Filesystem) (inode : Inode) (name : List UInt8) : Prop :=
  ∃ offset buf, first_block fs inode = .ok (offset, buf) ∧ is_last buf name = true
/-- Names other than the dots lead from an inode to another one. -/
def Leads (fs : Filesystem) (n m : UInt32) : Prop :=
  ∃ names, (∀ name ∈ names, Proper name) ∧ open_from fs n names = .ok m

/-- A rename that goes on to move one of the dots, or a directory beneath itself. -/
def Astray (fs : Filesystem) (old_path new_path : List UInt8) : Prop :=
  ∃ aim : Aim fs old_path new_path, aim.dst = .Free ∧ Roomy fs aim.new_parent_inode aim.new_name ∧
    (aim.old_name = DOT ∨ aim.old_name = DOTDOT ∨ Leads fs aim.src_inode_num aim.new_parent_inode_num)
/-- A rename that removes what is at the destination and then finds no room for
    the new name. -/
def Lossy (fs : Filesystem) (old_path new_path : List UInt8) : Prop :=
  ∃ aim : Aim fs old_path new_path, aim.dst = .Replaced ∧ ¬ Ends fs aim.new_parent_inode aim.new_name ∧
    ¬ Roomy fs aim.new_parent_inode aim.new_name

theorem Aim.unique {old_path new_path : List UInt8} (a b : Aim fs old_path new_path) : a = b := by
  obtain ⟨_, _, _, _, _, _, _, _, _, _, _, split, split', opened, looked, _, read, opened', found⟩ := a
  obtain ⟨_, _, _, _, _, _, _, _, _, _, _, split₂, split₂', opened₂, looked₂, _, read₂, opened₂', found₂⟩ := b
  cases split.symm.trans split₂
  cases split'.symm.trans split₂'
  cases opened.symm.trans opened₂
  cases looked.symm.trans looked₂
  cases read.symm.trans read₂
  cases opened'.symm.trans opened₂'
  cases found.symm.trans found₂
  rfl

theorem entry_file_type_ok (consistent : Consistent g v N) (here : N m = some x) :
    entry_file_type (v.slot m) = .ok x.code := by
  obtain ⟨directory, regular, link⟩ := types_of_node (consistent.sound here).backed
  rw [entry_file_type, directory, regular, link]
  cases x <;> rfl

/-- What the lookup of a destination finds. -/
theorem destination_ok (holds : Holds g v fs) (consistent : Consistent g v N)
    (found' : N p' = some (.dir block' parent' kids')) (here : N m = some x) (new_name : List UInt8) :
    (named (listing p' parent' kids') new_name = none ∧
      destination fs (v.slot p') new_name m (Inode.is_directory (v.slot m)) = .ok .Free) ∨
    (named (listing p' parent' kids') new_name = some m ∧
      destination fs (v.slot p') new_name m (Inode.is_directory (v.slot m)) = .ok .Source) ∨
    (∃ k y, named (listing p' parent' kids') new_name = some k ∧ k ≠ m ∧ N k = some y ∧ y.code ≠ 2 ∧ x.code ≠ 2 ∧
      destination fs (v.slot p') new_name m (Inode.is_directory (v.slot m)) = .ok .Replaced) ∨
    ∃ e, destination fs (v.slot p') new_name m (Inode.is_directory (v.slot m)) = .error (.err e) := by
  have looked := lookup_ok holds consistent found' new_name
  cases edge : named (listing p' parent' kids') new_name with
  | none =>
    rw [edge, okOr_none] at looked
    exact .inl ⟨rfl, by rw [destination, looked, catchErr_err, res_bind_ok]⟩
  | some k =>
    rw [edge, okOr_some] at looked
    by_cases same : k = m
    · subst same
      exact .inr (.inl ⟨rfl, by rw [destination, looked, catchErr_ok, res_bind_ok]; exact if_pos rfl⟩)
    have live : Live N k := step_live consistent ((step_dir found' new_name).trans edge)
    cases there : N k with
    | none => exact absurd there live
    | some y =>
      have read := read_node holds consistent live
      have source : Inode.is_directory (v.slot m) = (x.code == 2) := (types_of_node (consistent.sound here).backed).1
      have target : Inode.is_directory (v.slot k) = (y.code == 2) := (types_of_node (consistent.sound there).backed).1
      have checks : destination fs (v.slot p') new_name m (Inode.is_directory (v.slot m)) = (do
          ensure (!(y.code == 2)) (.AlreadyExists new_name)
          ensure (!(x.code == 2)) (.AlreadyExists new_name)
          .ok .Replaced) := by
        rw [destination, looked, catchErr_ok, res_bind_ok]
        dsimp only
        rw [if_neg same, read, res_bind_ok, target, source]
      rw [checks]
      cases dir : y.code == 2 with
      | true => exact .inr (.inr (.inr ⟨_, rfl⟩))
      | false =>
        cases dir' : x.code == 2 with
        | true => exact .inr (.inr (.inr ⟨_, rfl⟩))
        | false => exact .inr (.inr (.inl ⟨k, y, rfl, same, there, by simpa using dir, by simpa using dir', rfl⟩))

/-- The nodes that the checks of a rename have found. -/
structure Aimed (v : Volume) (N : NodeMap) {old_path new_path : List UInt8} (aim : Aim fs old_path new_path) (p : UInt32)
    (block : Nat) (parent : UInt32) (kids : List Kid) (m : UInt32) (x : Node) (p' : UInt32) (block' : Nat)
    (parent' : UInt32) (kids' : List Kid) : Prop where
  number : aim.old_parent_inode_num = p
  inode : aim.old_parent_inode = v.slot p
  directory : Directory N aim.old_parent_path p block parent kids
  number' : aim.new_parent_inode_num = p'
  inode' : aim.new_parent_inode = v.slot p'
  directory' : Directory N aim.new_parent_path p' block' parent' kids'
  moving : aim.src_inode_num = m
  src_inode : aim.src_inode = v.slot m
  edge : named (listing p parent kids) aim.old_name = some m
  here : N m = some x

/-- The directory that a path opens is a node. -/
theorem directory_of_open (holds : Holds g v fs) (consistent : Consistent g v N) {path : List UInt8} {inode : Inode}
    (opened : open_directory fs path = .ok (p, inode)) :
    ∃ block parent kids, Directory N path p block parent kids ∧ inode = v.slot p := by
  rcases open_directory_ends holds consistent path with ⟨e, refused⟩ | ⟨q, block, parent, kids, directory, opened'⟩
  · rw [refused] at opened
    cases opened
  · rw [opened'] at opened
    cases opened
    exact ⟨block, parent, kids, directory, rfl⟩
theorem aimed (holds : Holds g v fs) (consistent : Consistent g v N) {old_path new_path : List UInt8}
    (aim : Aim fs old_path new_path) : ∃ p block parent kids m x p' block' parent' kids',
    Aimed v N aim p block parent kids m x p' block' parent' kids' := by
  obtain ⟨block, parent, kids, directory, inode⟩ := directory_of_open holds consistent aim.old_opened
  obtain ⟨block', parent', kids', directory', inode'⟩ := directory_of_open holds consistent aim.new_opened
  have looked := lookup_ok holds consistent directory.found aim.old_name
  rw [← inode, aim.looked] at looked
  cases edge : named (listing aim.old_parent_inode_num parent kids) aim.old_name with
  | none => rw [edge] at looked; cases looked
  | some m =>
    rw [edge, okOr_some] at looked
    have live : Live N m := step_live consistent ((step_dir directory.found aim.old_name).trans edge)
    cases here : N m with
    | none => exact absurd here live
    | some x =>
      have same : aim.src_inode_num = m := Except.ok.inj looked
      have read := aim.read
      rw [same, read_node holds consistent live] at read
      exact ⟨_, block, parent, kids, m, x, _, block', parent', kids', rfl, inode, directory, rfl, inode', directory', same,
        (Except.ok.inj read).symm, edge, here⟩

/-- What a rename does after its checks. -/
def after_checks {old_path new_path : List UInt8} (aim : Aim fs old_path new_path) (code : UInt8) : Call Unit :=
  match aim.dst with
  | .Source => pure ()
  | .Free =>
    move_entry aim.old_parent_inode_num aim.new_parent_inode_num aim.old_parent_inode aim.new_parent_inode aim.old_name
      aim.new_name aim.src_inode_num aim.src_inode code
  | .Replaced => do
    unlink (join_path aim.new_parent_path aim.new_name)
    let new_parent_inode ← reads fun fs => read_inode fs aim.new_parent_inode_num
    let old_parent_inode :=
      if aim.old_parent_inode_num = aim.new_parent_inode_num then new_parent_inode else aim.old_parent_inode
    move_entry aim.old_parent_inode_num aim.new_parent_inode_num old_parent_inode new_parent_inode aim.old_name aim.new_name
      aim.src_inode_num aim.src_inode code

theorem rename_aim {old_path new_path : List UInt8} (aim : Aim fs old_path new_path) {code : UInt8}
    (type : entry_file_type aim.src_inode = .ok code) :
    (rename old_path new_path).run fs = (after_checks aim code).run fs := by
  obtain ⟨_, _, _, _, _, _, _, _, _, _, dst, split, split', opened, looked, root, read, opened', found⟩ := aim
  simp only [rename, run_bind, run_lift, split, split', ofRes_ok, andThen_ok, run_reads, opened, looked, ensure_of root, read,
    type, opened', found]
  cases dst <;> rfl

/-- Without an aim the rename is refused. -/
theorem rename_refused (holds : Holds g v fs) (consistent : Consistent g v N) {old_path new_path : List UInt8}
    (none : ¬ Nonempty (Aim fs old_path new_path)) : ∃ e, (rename old_path new_path).run fs = .err e fs := by
  rcases split_path_ends old_path with ⟨old_parent_path, old_name, split⟩ | ⟨e, split⟩
  case inr => exact ⟨e, by simp only [rename, run_bind, run_lift, split, ofRes_err, andThen_err]⟩
  rcases split_path_ends new_path with ⟨new_parent_path, new_name, split'⟩ | ⟨e, split'⟩
  case inr => exact ⟨e, by simp only [rename, run_bind, run_lift, split, ofRes_ok, andThen_ok, split', ofRes_err, andThen_err]⟩
  rcases open_directory_ends holds consistent old_parent_path with ⟨e, opened⟩ | ⟨p, block, parent, kids, directory, opened⟩
  case inl =>
    exact ⟨e, by simp only [rename, run_bind, run_lift, split, ofRes_ok, andThen_ok, split', run_reads, opened, ofRes_err,
      andThen_err]⟩
  have looked := lookup_ok holds consistent directory.found old_name
  cases edge : named (listing p parent kids) old_name with
  | none =>
    rw [edge, okOr_none] at looked
    exact ⟨.NotFound old_name, by simp only [rename, run_bind, run_lift, split, ofRes_ok, andThen_ok, split', run_reads,
      opened, looked, ofRes_err, andThen_err]⟩
  | some m =>
  rw [edge, okOr_some] at looked
  by_cases root : m ≠ ROOT_INODE
  case neg =>
    exact ⟨.InvalidLayout "cannot rename the root inode", by simp only [rename, run_bind, run_lift, split, ofRes_ok,
      andThen_ok, split', run_reads, opened, looked, ensure_not root, ofRes_err, andThen_err]⟩
  have live : Live N m := step_live consistent ((step_dir directory.found old_name).trans edge)
  cases here : N m with
  | none => exact absurd here live
  | some x =>
  have read := read_node holds consistent live
  have type := entry_file_type_ok consistent here
  rcases open_directory_ends holds consistent new_parent_path with
    ⟨e, opened'⟩ | ⟨p', block', parent', kids', directory', opened'⟩
  case inl =>
    exact ⟨e, by simp only [rename, run_bind, run_lift, split, ofRes_ok, andThen_ok, split', run_reads, opened, looked,
      ensure_of root, read, type, opened', ofRes_err, andThen_err]⟩
  have aims : ∀ dst, destination fs (v.slot p') new_name m (Inode.is_directory (v.slot m)) ≠ .ok dst := fun dst found =>
    none ⟨⟨_, _, _, _, _, _, _, _, _, _, dst, split, split', opened, looked, root, read, opened', found⟩⟩
  rcases destination_ok holds consistent directory'.found here new_name with
    ⟨-, dst⟩ | ⟨-, dst⟩ | ⟨k, y, -, -, -, -, -, dst⟩ | ⟨e, dst⟩
  · exact absurd dst (aims _)
  · exact absurd dst (aims _)
  · exact absurd dst (aims _)
  · exact ⟨e, by simp only [rename, run_bind, run_lift, split, ofRes_ok, andThen_ok, split', run_reads, opened, looked,
      ensure_of root, read, type, opened', dst, ofRes_err, andThen_err]⟩

/-! ### How a rename ends -/

/-- With room for the new name nothing can stop the move. -/
theorem Route.ends (route : Route g v N p block parent kids old_name p' block' parent' kids' new_name m x)
    (holds : Holds g v fs) (room : has_room (v.block block') new_name = true) :
    Done g v N p old_name p' new_name m x
      ((move_entry p p' (v.slot p) (v.slot p') old_name new_name m (v.slot m) x.code).run fs) := by
  by_cases same : p = p'
  · subst same
    have found' := route.found'
    rw [route.found] at found'
    cases found'
    exact move_same route holds room
  · cases x with
    | dir => exact move_dir route holds same room
    | file => exact move_plain route holds same (show (1 : UInt8) ≠ 2 by decide) room
    | link => exact move_plain route holds same (show (7 : UInt8) ≠ 2 by decide) room

theorem first_block_dir (holds : Holds g v fs) (consistent : Consistent g v N)
    (found : N p = some (.dir block parent kids)) :
    first_block fs (v.slot p) = .ok (block * g.block_size, v.block block) :=
  first_block_ok holds (oneBlock (consistent.sound found))
theorem roomy_iff (holds : Holds g v fs) (consistent : Consistent g v N) (found : N p = some (.dir block parent kids))
    (name : List UInt8) : Roomy fs (v.slot p) name ↔ has_room (v.block block) name = true := by
  have first := first_block_dir holds consistent found
  constructor
  · rintro ⟨offset, buf, here, room⟩
    cases first.symm.trans here
    exact room
  · exact fun room => ⟨_, _, first, room⟩
theorem ends_iff (holds : Holds g v fs) (consistent : Consistent g v N) (found : N p = some (.dir block parent kids))
    (name : List UInt8) : Ends fs (v.slot p) name ↔ is_last (v.block block) name = true := by
  have first := first_block_dir holds consistent found
  constructor
  · rintro ⟨offset, buf, here, last⟩
    cases first.symm.trans here
    exact last
  · exact fun last => ⟨_, _, first, last⟩

/-- The tree has proper names only. -/
theorem child_proper (linked : Linked N) {name : List UInt8} (edge : child N n name = some m) : Proper name := by
  obtain ⟨block, parent, kids, found, hit⟩ := child_some edge
  obtain ⟨before, k, after, split, same, -, -⟩ := named_some hit
  exact same ▸ linked.proper found k (by simp [split])
theorem walk_names (linked : Linked N) {path : List (List UInt8)} (walked : walk (child N) n path = some m) :
    ∀ name ∈ path, Proper name := by
  induction path generalizing n with
  | nil => intro name member; cases member
  | cons first path ih =>
    obtain ⟨k, edge, later⟩ := walk_cons.mp walked
    intro name member
    rcases List.mem_cons.mp member with rfl | inside
    · exact child_proper linked edge
    · exact ih later name inside
/-- The calls find a way to what is beneath a node. -/
theorem leads_of_beneath (holds : Holds g v fs) (consistent : Consistent g v N) (live : Live N n)
    (below : Beneath (child N) n m) : Leads fs n m := by
  obtain ⟨path, walked⟩ := below
  have proper := walk_names consistent.linked walked
  have full : path.filter (!·.isEmpty) = path := by
    rw [List.filter_eq_self]
    intro name member
    simpa using (proper name member).1
  refine ⟨path, proper, ?_⟩
  rcases open_from_walk holds consistent live path with ⟨k, walked', opened⟩ | ⟨nowhere, -⟩
  · rw [full, walk_proper proper, walked] at walked'
    cases walked'
    exact opened
  · rw [full, walk_proper proper, walked] at nowhere
    cases nowhere

/-- The tree before the entry moves: as it was, or without what was at the
    destination. -/
inductive Cleared (g : Geometry) (v : Volume) (N : NodeMap) (p' : UInt32) (new_name : List UInt8) (m : UInt32) (x : Node) :
    Volume → NodeMap → Prop
  | free : Cleared g v N p' new_name m x v N
  | replaced {v₁ : Volume} {N₁ : NodeMap} {block' : Nat} {parent' : UInt32} {kids' : List Kid} {k : UInt32} {y : Node}
      (other : k ≠ m) (file : y.code ≠ 2) (file' : x.code ≠ 2)
      (pruned : Pruned g v v₁ N N₁ p' block' parent' kids' new_name k y) : Cleared g v N p' new_name m x v₁ N₁

/-- How a rename ends. -/
inductive Renaming (g : Geometry) (v : Volume) (N : NodeMap) (fs : Filesystem) (old_path new_path : List UInt8) :
    Ended Filesystem Ext4Error Unit → Prop
  | refused {e : Ext4Error} (harmless : ¬ Lossy fs old_path new_path) : Renaming g v N fs old_path new_path (.err e fs)
  | panicked (immodest : ¬ Modest g v) : Renaming g v N fs old_path new_path .panic
  | same {m : UInt32} (aim : Aim fs old_path new_path) (source : aim.dst = .Source)
      (resolved : walk (step N) ROOT_INODE (components old_path) = some m)
      (resolved' : walk (step N) ROOT_INODE (components new_path) = some m) :
      Renaming g v N fs old_path new_path (.ok () fs)
  | lost {e : Ext4Error} {fs' : Filesystem} {v' : Volume} {N' : NodeMap} {parent_path name : List UInt8} {p' : UInt32}
      {block' : Nat} {parent' : UInt32} {kids' : List Kid} {k : UInt32} {y : Node} (lossy : Lossy fs old_path new_path)
      (split : split_path new_path = .ok (parent_path, name)) (directory : Directory N parent_path p' block' parent' kids')
      (holds : Holds g v' fs') (pruned : Pruned g v v' N N' p' block' parent' kids' name k y) (file : y.code ≠ 2) :
      Renaming g v N fs old_path new_path (.err e fs')
  | moved {fs' : Filesystem} {v₁ v' : Volume} {N₁ N' : NodeMap}
      {old_parent_path old_name new_parent_path new_name : List UInt8} {p p' m : UInt32} {x : Node}
      (harmless : ¬ Lossy fs old_path new_path) (split : split_path old_path = .ok (old_parent_path, old_name))
      (split' : split_path new_path = .ok (new_parent_path, new_name))
      (walked : walk (step N) ROOT_INODE (components old_parent_path) = some p)
      (walked' : walk (step N) ROOT_INODE (components new_parent_path) = some p')
      (edge : child N p old_name = some m) (here : N m = some x) (cleared : Cleared g v N p' new_name m x v₁ N₁)
      (holds : Holds g v' fs') (written : WrittenOut g fs')
      (relocated : Relocated g v₁ v' N₁ N' p old_name p' new_name m x) :
      Renaming g v N fs old_path new_path (.ok () fs')

theorem not_lossy {old_path new_path : List UInt8} (aim : Aim fs old_path new_path) (other : aim.dst ≠ .Replaced) :
    ¬ Lossy fs old_path new_path := by
  rintro ⟨aim', replaced, -⟩
  rw [aim'.unique aim] at replaced
  exact other replaced

/-- What is at the destination of an aim. -/
theorem aimed_destination (holds : Holds g v fs) (consistent : Consistent g v N) {old_path new_path : List UInt8}
    {aim : Aim fs old_path new_path} (aimed : Aimed v N aim p block parent kids m x p' block' parent' kids') :
    (aim.dst = .Free ∧ named (listing p' parent' kids') aim.new_name = none) ∨
    (aim.dst = .Source ∧ named (listing p' parent' kids') aim.new_name = some m) ∨
    ∃ k y, aim.dst = .Replaced ∧ named (listing p' parent' kids') aim.new_name = some k ∧ k ≠ m ∧ N k = some y ∧
      y.code ≠ 2 ∧ x.code ≠ 2 := by
  have found := aim.dst_found
  rw [aimed.inode', aimed.moving, aimed.src_inode] at found
  rcases destination_ok holds consistent aimed.directory'.found aimed.here aim.new_name with
    ⟨edge, dst⟩ | ⟨edge, dst⟩ | ⟨k, y, edge, other, there, file, file', dst⟩ | ⟨e, dst⟩
  · rw [dst] at found
    exact .inl ⟨(Except.ok.inj found).symm, edge⟩
  · rw [dst] at found
    exact .inr (.inl ⟨(Except.ok.inj found).symm, edge⟩)
  · rw [dst] at found
    exact .inr (.inr ⟨k, y, (Except.ok.inj found).symm, edge, other, there, file, file'⟩)
  · rw [dst] at found
    cases found

/-- A name that a directory does not have is none of the dots. -/
theorem proper_of_free (component : Component new_name) (free : named (listing p' parent' kids') new_name = none) :
    Proper new_name ∧ named kids' new_name = none := by
  have first : new_name ≠ DOT := by
    rintro rfl
    rw [named_dot] at free
    cases free
  have second : new_name ≠ DOTDOT := by
    rintro rfl
    rw [named_dotdot] at free
    cases free
  exact ⟨⟨component.1, component.2, first, second⟩, by rw [← named_listing _ first second]; exact free⟩

section
variable {old_path new_path : List UInt8} {aim : Aim fs old_path new_path}

theorem free_ends (holds : Holds g v fs) (consistent : Consistent g v N)
    (aimed : Aimed v N aim p block parent kids m x p' block' parent' kids') (dst : aim.dst = .Free)
    (free : named (listing p' parent' kids') aim.new_name = none) (sane : ¬ Astray fs old_path new_path) :
    Renaming g v N fs old_path new_path ((after_checks aim x.code).run fs) := by
  obtain ⟨number, inode, directory, number', inode', directory', moving, src_inode, edge, here⟩ := aimed
  have found := directory.found
  have found' := directory'.found
  have ran : (after_checks aim x.code).run fs =
      (move_entry p p' (v.slot p) (v.slot p') aim.old_name aim.new_name m (v.slot m) x.code).run fs := by
    simp only [after_checks, dst, number, inode, number', inode', moving, src_inode]
  rw [ran]
  cases room : has_room (v.block block') aim.new_name with
  | false =>
    obtain ⟨e, refused⟩ := move_full aim.old_name holds consistent found' room (v.slot p) (v.slot m) x.code
    rw [refused]
    exact .refused (not_lossy aim (by rw [dst]; decide))
  | true =>
    have roomy : Roomy fs aim.new_parent_inode aim.new_name := by
      rw [inode']
      exact (roomy_iff holds consistent found' aim.new_name).mpr room
    obtain ⟨proper, edge'⟩ : Proper aim.old_name ∧ named kids aim.old_name = some m := by
      rcases named_listing_cases found (split_path_ok aim.old_split).1 edge with ⟨dot, -⟩ | ⟨dotdot, -⟩ | facts
      · exact absurd ⟨aim, dst, roomy, .inl dot⟩ sane
      · exact absurd ⟨aim, dst, roomy, .inr (.inl dotdot)⟩ sane
      · exact facts
    obtain ⟨proper', free'⟩ := proper_of_free (split_path_ok aim.new_split).1 free
    have apart : ¬ Beneath (child N) m p' := fun below =>
      sane ⟨aim, dst, roomy, .inr (.inr (by rw [moving, number']; exact leads_of_beneath holds consistent (live_of here) below))⟩
    have route : Route g v N p block parent kids aim.old_name p' block' parent' kids' aim.new_name m x :=
      ⟨⟨consistent, found, found', edge', here, proper, free', proper'⟩, apart⟩
    obtain ⟨fs', v', ended, holds', written, relocated⟩ := route.ends holds room
    rw [ended]
    exact .moved (not_lossy aim (by rw [dst]; decide)) aim.old_split aim.new_split directory.walked directory'.walked
      ((child_dir found _).trans edge') here .free holds' written relocated

/-- What is at the destination is removed, and the move goes on without it. -/
theorem replaced_run (holds : Holds g v fs) (consistent : Consistent g v N)
    (aimed : Aimed v N aim p block parent kids m x p' block' parent' kids') (dst : aim.dst = .Replaced) {k : UInt32}
    (taken : named (listing p' parent' kids') aim.new_name = some k) (other : k ≠ m) (there : N k = some y)
    (file : y.code ≠ 2) (file' : x.code ≠ 2) :
    ((after_checks aim x.code).run fs = .panic ∧ ¬ Modest g v) ∨
    ∃ fs₁ v₁ kids₁, Holds g v₁ fs₁ ∧
      Pruned g v v₁ N (withoutLeaf N p' aim.new_name k) p' block' parent' kids' aim.new_name k y ∧
      child N p aim.old_name = some m ∧
      Route g v₁ (withoutLeaf N p' aim.new_name k) p block parent kids₁ aim.old_name p' block' parent'
        (kids'.filter (·.name != aim.new_name)) aim.new_name m x ∧
      (after_checks aim x.code).run fs =
        (move_entry p p' (v₁.slot p) (v₁.slot p') aim.old_name aim.new_name m (v₁.slot m) x.code).run fs₁ := by
  obtain ⟨number, inode, directory, number', inode', directory', moving, src_inode, edge, here⟩ := aimed
  have found := directory.found
  have found' := directory'.found
  have distinct : ∀ {q b r ks}, N q = some (.dir b r ks) → q ≠ k ∧ q ≠ m := by
    refine fun {q b r ks} dir => ⟨?_, ?_⟩
    · rintro rfl
      rw [there] at dir
      cases dir
      exact file rfl
    · rintro rfl
      rw [here] at dir
      cases dir
      exact file' rfl
  obtain ⟨b, r, ks, above, -⟩ := parent_dir consistent found
  obtain ⟨b', r', ks', above', -⟩ := parent_dir consistent found'
  obtain ⟨proper, edge'⟩ : Proper aim.old_name ∧ named kids aim.old_name = some m := by
    rcases named_listing_cases found (split_path_ok aim.old_split).1 edge with ⟨-, same⟩ | ⟨-, same⟩ | facts
    · exact absurd same.symm (distinct found).2
    · exact absurd same.symm (distinct above).2
    · exact facts
  obtain ⟨proper', taken'⟩ : Proper aim.new_name ∧ named kids' aim.new_name = some k := by
    rcases named_listing_cases found' (split_path_ok aim.new_split).1 taken with ⟨-, same⟩ | ⟨-, same⟩ | facts
    · exact absurd same.symm (distinct found').1
    · exact absurd same.symm (distinct above').1
    · exact facts
  rcases unlink_found holds consistent (split_path_join aim.new_split) directory' proper' taken' there file with
    ⟨panicked, immodest⟩ | ⟨fs₁, v₁, unlinked, holds₁, -, pruned, slots⟩
  · refine .inl ⟨?_, immodest⟩
    simp only [after_checks, dst, run_bind, panicked, andThen_panic]
  have consistent₁ := pruned.consistent
  have leaf : x.Leaf := by
    cases x with
    | dir => exact absurd rfl file'
    | file => trivial
    | link => trivial
  have kept : ∀ {q}, q ≠ k → withoutLeaf N p' aim.new_name k q = dropKid N p' aim.new_name q := fun away => if_neg away
  have found₁' : withoutLeaf N p' aim.new_name k p' = some (.dir block' parent' (kids'.filter (·.name != aim.new_name))) := by
    rw [kept (distinct found').1]
    exact modify_at found'
  have here₁ : withoutLeaf N p' aim.new_name k m = some x := by
    rw [kept other.symm, dropKid, modify_other _ (distinct found').2.symm, here]
  obtain ⟨kids₁, found₁, edge₁⟩ : ∃ kids₁, withoutLeaf N p' aim.new_name k p = some (.dir block parent kids₁) ∧
      named kids₁ aim.old_name = some m := by
    by_cases same : p = p'
    · subst same
      rw [found] at found'
      cases found'
      refine ⟨_, found₁', ?_⟩
      rw [named_filter, if_neg, edge']
      intro names
      rw [names, taken'] at edge'
      exact other (Option.some.inj edge')
    · exact ⟨kids, by rw [kept (distinct found).1, dropKid, modify_other _ same, found], edge'⟩
  have free₁ : named (kids'.filter (·.name != aim.new_name)) aim.new_name = none := by rw [named_filter, if_pos rfl]
  -- A file and a link have nothing beneath them.
  have apart : ¬ Beneath (child (withoutLeaf N p' aim.new_name k)) m p' := by
    rintro ⟨path, walked⟩
    cases path with
    | nil => exact (distinct found').2 (Option.some.inj walked).symm
    | cons first path =>
      obtain ⟨l, down, -⟩ := walk_cons.mp walked
      rw [child_leaf here₁ leaf] at down
      cases down
  have route : Route g v₁ (withoutLeaf N p' aim.new_name k) p block parent kids₁ aim.old_name p' block' parent'
      (kids'.filter (·.name != aim.new_name)) aim.new_name m x :=
    ⟨⟨consistent₁, found₁, found₁', edge₁, here₁, proper, free₁, proper'⟩, apart⟩
  have read : read_inode fs₁ p' = .ok (v₁.slot p') := read_node holds₁ consistent₁ (live_of found₁')
  have ran : (after_checks aim x.code).run fs =
      (move_entry p p' (v₁.slot p) (v₁.slot p') aim.old_name aim.new_name m (v₁.slot m) x.code).run fs₁ := by
    simp only [after_checks, dst, number, inode, number', moving, src_inode, run_bind, unlinked, andThen_ok, run_reads, read,
      ofRes_ok]
    rw [slots m other.symm, slots p (distinct found).1, slots p' (distinct found').1]
    by_cases same : p = p'
    · rw [if_pos same, same]
    · rw [if_neg same]
  exact .inr ⟨fs₁, v₁, kids₁, holds₁, pruned, (child_dir found _).trans edge', route, ran⟩

theorem replaced_ends (holds : Holds g v fs) (consistent : Consistent g v N)
    (aimed : Aimed v N aim p block parent kids m x p' block' parent' kids') (dst : aim.dst = .Replaced) {k : UInt32}
    (taken : named (listing p' parent' kids') aim.new_name = some k) (other : k ≠ m) (there : N k = some y)
    (file : y.code ≠ 2) (file' : x.code ≠ 2) :
    Renaming g v N fs old_path new_path ((after_checks aim x.code).run fs) := by
  have inode' := aimed.inode'
  have directory := aimed.directory
  have directory' := aimed.directory'
  have found' := directory'.found
  have here := aimed.here
  rcases replaced_run holds consistent aimed dst taken other there file file' with
    ⟨panicked, immodest⟩ | ⟨fs₁, v₁, kids₁, holds₁, pruned, edge', route, ran⟩
  · rw [panicked]
    exact .panicked immodest
  rw [ran]
  cases room : has_room (v₁.block block') aim.new_name with
  | false =>
    obtain ⟨e, refused⟩ := move_full aim.old_name holds₁ pruned.consistent route.found' room (v₁.slot p) (v₁.slot m) x.code
    rw [refused]
    have full := pruned.room
    rw [room, eq_comm, Bool.or_eq_false_iff] at full
    refine .lost ⟨aim, dst, ?_, ?_⟩ aim.new_split directory' holds₁ pruned file
    · rw [inode', ends_iff holds consistent found', full.1]
      exact Bool.false_ne_true
    · rw [inode', roomy_iff holds consistent found', full.2]
      exact Bool.false_ne_true
  | true =>
    obtain ⟨fs', v', ended, holds', written, relocated⟩ := route.ends holds₁ room
    have harmless : ¬ Lossy fs old_path new_path := by
      rintro ⟨aim', -, not_last, not_roomy⟩
      rw [aim'.unique aim, inode', ends_iff holds consistent found'] at not_last
      rw [aim'.unique aim, inode', roomy_iff holds consistent found'] at not_roomy
      have full := pruned.room
      rw [room, eq_comm, Bool.or_eq_true] at full
      exact full.elim not_last not_roomy
    rw [ended]
    exact .moved harmless aim.old_split aim.new_split directory.walked directory'.walked
      edge' here (.replaced other file file' pruned) holds' written relocated
end

theorem rename_ends (holds : Holds g v fs) (consistent : Consistent g v N) (old_path new_path : List UInt8)
    (sane : ¬ Astray fs old_path new_path) :
    Renaming g v N fs old_path new_path ((rename old_path new_path).run fs) := by
  by_cases some : Nonempty (Aim fs old_path new_path)
  case neg =>
    obtain ⟨e, refused⟩ := rename_refused holds consistent some
    rw [refused]
    exact .refused fun ⟨aim, _⟩ => some ⟨aim⟩
  obtain ⟨aim⟩ := some
  obtain ⟨p, block, parent, kids, m, x, p', block', parent', kids', aimed⟩ := aimed holds consistent aim
  rw [rename_aim aim (aimed.src_inode ▸ entry_file_type_ok consistent aimed.here)]
  rcases aimed_destination holds consistent aimed with ⟨dst, free⟩ | ⟨dst, same⟩ | ⟨k, y, dst, taken, other, there, file, file'⟩
  · exact free_ends holds consistent aimed dst free sane
  · have stopped : (after_checks aim x.code).run fs = .ok () fs := by
      simp only [after_checks, dst, run_pure]
    rw [stopped]
    refine .same (m := m) aim dst ?_ ?_
    · rw [(split_path_ok aim.old_split).2]
      exact walk_snoc.mpr ⟨p, aimed.directory.walked, (step_dir aimed.directory.found _).trans aimed.edge⟩
    · rw [(split_path_ok aim.new_split).2]
      exact walk_snoc.mpr ⟨p', aimed.directory'.walked, (step_dir aimed.directory'.found _).trans same⟩
  · exact replaced_ends holds consistent aimed dst taken other there file file'
end

end Justext4.Rename
