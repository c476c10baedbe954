import Mathlib.Data.List.Nodup
import Justext4.BlockEdits
import Justext4.Create
import Justext4.Rename
import Justext4.View

/-!
Moves that go astray. A rename that has found its destination free and room for
the name in it moves whatever it is told to. A directory that one of the dots
is moved out of no longer has it, and to a directory that is moved beneath
itself no path leads any more.
-/
namespace Justext4.Astray
open Justext4 Justext4.Fallible Justext4.Filesystem Justext4.Volumes
open Justext4.Inode (Inode)
open Justext4.DirEntry (DirEntry is_unused)
open Justext4.DirBlock
open Justext4.BlockEdits (lives lives_append lives_removed erase_tiles)
open Justext4.DirScan (first_stop)
open Justext4.NamedTree
open Justext4.Nodes
open Justext4.Paths
open Justext4.Backing
open Justext4.Counts
open Justext4.Reading
open Justext4.Allocation
open Justext4.Create
open Justext4.Entries
open Justext4.Remove
open Justext4.Rename
open Justext4.View

/-! ### What is live in a block -/

/-- These are the records of the block that are in use, in their order. -/
def Held (bytes : Bytes) (kids : List Kid) : Prop := ∃ es, Tiles bytes 0 es bytes.size ∧ lives es = kids

section
variable {g : Geometry} {v : Volume} {fs fs' : Filesystem} {bytes : Bytes} {kids : List Kid} {inode : Inode} {block : Nat}
  {n child parent : UInt32} {name : List UInt8}

theorem held_of_lists (lists : Lists bytes kids) (used : ∀ k ∈ kids, k.inode ≠ 0) : Held bytes kids := by
  obtain ⟨es, tiles, same⟩ := lists
  refine ⟨es, tiles, ?_⟩
  rw [lives, List.filter_eq_self.mpr fun e member => ?_, same]
  have live : e.inode ≠ 0 := used (kid e) (same ▸ List.mem_map_of_mem member)
  simp [is_unused, live]

theorem named_lives (es : List DirEntry) (name : List UInt8) :
    (es.find? fun e => !is_unused e && e.name == name).map (·.inode) = named (lives es) name := by
  have same : ∀ e : DirEntry, (!is_unused e && e.name == name) =
      decide ((!is_unused e) = true ∧ ((fun x : Kid => x.name == name) ∘ kid) e = true) := by
    intro e
    rw [Bool.eq_iff_iff, Bool.and_eq_true, decide_eq_true_iff]
    rfl
  simp only [lives, named, List.find?_map, List.find?_filter, Option.map_map, same]
  rfl
/-- A name that stood for one record stands for none when the record is gone. -/
theorem named_without {earlier later : List Kid} {k : Kid} (nodup : ((earlier ++ k :: later).map (·.name)).Nodup) :
    named (earlier ++ later) k.name = none := by
  rw [List.map_append, List.map_cons, List.nodup_middle, List.nodup_cons, ← List.map_append] at nodup
  exact named_none.mpr fun j member same => nodup.1 (List.mem_map.mpr ⟨j, member, same⟩)

theorem erase_held {bytes' : Bytes} (held : Held bytes kids) (erased : erase_entry bytes n name = .ok bytes') :
    bytes'.size = bytes.size ∧ ∃ earlier code later, kids = earlier ++ ⟨name, n, code⟩ :: later ∧ Held bytes' (earlier ++ later) := by
  obtain ⟨es, tiles, rfl⟩ := held
  obtain ⟨size, es', tiles', removed⟩ := erase_tiles tiles erased
  obtain ⟨earlier, code, later, split, rest, -⟩ := lives_removed removed
  exact ⟨size, earlier, code, later, split, es', tiles', rest⟩
/-- Leading the second dot elsewhere leaves every other name where it leads. -/
theorem redirect_held {bytes' : Bytes} (held : Held bytes kids) (redirected : redirect_dotdot bytes n = .ok bytes') :
    bytes'.size = bytes.size ∧ ∃ kids', Held bytes' kids' ∧ ∀ name, name ≠ DOTDOT → named kids' name = named kids name := by
  obtain ⟨es, tiles, rfl⟩ := held
  rcases first_stop is_dotdot es with none | ⟨before, e, after, rfl, earlier, here⟩
  · rw [redirect_dotdot, walk_through tiles none, liftErr_ok, res_bind_ok, okOr_none, res_bind_error] at redirected
    cases redirected
  obtain ⟨bytes'', ran, size, tiles'⟩ := redirect_dotdot_ok before n tiles earlier here
  cases ran.symm.trans redirected
  refine ⟨size, _, ⟨_, size ▸ tiles', rfl⟩, fun name other => ?_⟩
  have away : e.name ≠ name := by
    simp only [is_dotdot, Bool.and_eq_true, beq_iff_eq] at here
    exact fun same => other (same.symm.trans here.2)
  rw [← named_lives, ← named_lives, List.find?_append, List.find?_append, List.find?_cons_of_neg (by simp [away]),
    List.find?_cons_of_neg (by simp [away])]

/-- What a lookup finds in a directory of one block. -/
theorem lookup_held (holds : Holds g v fs) (one : OneBlock g inode block) (plain : Inode.is_symlink inode = false)
    (whole : inode.size.toNat = g.block_size) (held : Held (v.block block) kids) (name : List UInt8) :
    lookup fs inode name = okOr (named kids name) (.NotFound name) := by
  obtain ⟨es, tiles, rfl⟩ := held
  have read : read_dir fs inode = .ok es := by
    rw [read_dir, read_file_one holds plain one.flags one.run whole one.low one.high, res_bind_ok,
      decode_dir_block_tiles tiles, liftErr_ok]
  rw [lookup, read, res_bind_ok, ← named_lives]
  cases es.find? fun e => !is_unused e && e.name == name <;> rfl

/-! ### The edits of a block -/

theorem remove_dir_entry_held (holds : Holds g v fs) (one : OneBlock g inode block) (held : Held (v.block block) kids)
    (ran : (remove_dir_entry inode child name).run fs = .ok () fs') :
    ∃ bytes earlier code later, kids = earlier ++ ⟨name, child, code⟩ :: later ∧ Held bytes (earlier ++ later) ∧
      Holds g (v.setBlock block bytes) fs' := by
  simp only [remove_dir_entry, run_bind, run_reads, first_block_ok holds one, ofRes_ok, andThen_ok, run_lift] at ran
  cases erased : erase_entry (v.block block) child name with
  | ok bytes =>
    rw [erased, ofRes_ok, andThen_ok] at ran
    obtain ⟨size, earlier, code, later, split, held'⟩ := erase_held held erased
    obtain ⟨fs₁, written, holds'⟩ := write_block_ok holds (size.trans (Holds.size_block holds one.low one.high)) one.low one.high
    cases written.symm.trans ran
    exact ⟨bytes, earlier, code, later, split, held', holds'⟩
  | error fault =>
    rw [erased] at ran
    cases fault <;> cases ran
theorem update_dotdot_held (holds : Holds g v fs) (one : OneBlock g inode block) (held : Held (v.block block) kids)
    (ran : (update_dotdot inode parent).run fs = .ok () fs') :
    ∃ bytes kids', Held bytes kids' ∧ (∀ name, name ≠ DOTDOT → named kids' name = named kids name) ∧
      Holds g (v.setBlock block bytes) fs' := by
  simp only [update_dotdot, run_bind, run_reads, first_block_ok holds one, ofRes_ok, andThen_ok, run_lift] at ran
  cases redirected : redirect_dotdot (v.block block) parent with
  | ok bytes =>
    rw [redirected, ofRes_ok, andThen_ok] at ran
    obtain ⟨size, kids', held', same⟩ := redirect_held held redirected
    obtain ⟨fs₁, written, holds'⟩ := write_block_ok holds (size.trans (Holds.size_block holds one.low one.high)) one.low one.high
    cases written.symm.trans ran
    exact ⟨bytes, kids', held', same, holds'⟩
  | error fault =>
    rw [redirected] at ran
    cases fault <;> cases ran
end

/-! ### What goes astray -/

section
variable {g : Geometry} {v : Volume} {N : NodeMap} {fs : Filesystem} {p m p' parent parent' : UInt32} {block block' : Nat}
  {kids kids' : List Kid} {x : Node} {old_path new_path : List UInt8} {aim : Aim fs old_path new_path}

/-- A rename to a free destination moves the entry. -/
theorem free_moves (holds : Holds g v fs) (consistent : Consistent g v N)
    (aimed : Aimed v N aim p block parent kids m x p' block' parent' kids') (dst : aim.dst = .Free) :
    named (listing p' parent' kids') aim.new_name = none ∧ (rename old_path new_path).run fs =
      (move_entry p p' (v.slot p) (v.slot p') aim.old_name aim.new_name m (v.slot m) x.code).run fs := by
  constructor
  · rcases aimed_destination holds consistent aimed with ⟨-, free⟩ | ⟨other, -⟩ | ⟨k, y, other, -⟩
    · exact free
    · rw [dst] at other
      cases other
    · rw [dst] at other
      cases other
  · rw [rename_aim aim (aimed.src_inode ▸ entry_file_type_ok consistent aimed.here)]
    simp only [after_checks, dst, aimed.number, aimed.inode, aimed.number', aimed.inode', aimed.moving, aimed.src_inode]

/-- What has a directory beneath it is one. -/
theorem dir_above (below : Beneath (child N) m p') (found' : N p' = some (.dir block' parent' kids')) (here : N m = some x) :
    ∃ b q ks, x = .dir b q ks := by
  obtain ⟨path, walked⟩ := below
  cases path with
  | nil =>
    cases walked
    cases here.symm.trans found'
    exact ⟨block', parent', kids', rfl⟩
  | cons name path =>
    obtain ⟨k, edge, -⟩ := walk_cons.mp walked
    obtain ⟨b, q, ks, there, -⟩ := child_some edge
    cases here.symm.trans there
    exact ⟨b, q, ks, rfl⟩
end

/-! ### A dot that is moved -/

section
variable {g : Geometry} {v : Volume} {N : NodeMap} {fs fs' : Filesystem} {n m p p' parent parent' : UInt32} {x : Node}
  {inode : Inode} {block block' : Nat} {kids kids' : List Kid} {old_name new_name : List UInt8}

theorem held_listing (consistent : Consistent g v N) (found : N n = some (.dir block parent kids)) :
    Held (v.block block) (listing n parent kids) :=
  held_of_lists (DirBacked.lists (consistent.sound found).backed) ((readable_of consistent).used found)
theorem nodup_listing (consistent : Consistent g v N) (found : N n = some (.dir block parent kids)) :
    ((listing n parent kids).map (·.name)).Nodup := by
  have proper := consistent.linked.proper found
  have undotted : ∀ dot, (∀ k ∈ kids, k.name ≠ dot) → dot ∉ kids.map (·.name) := fun dot other member => by
    obtain ⟨k, inside, same⟩ := List.mem_map.mp member
    exact other k inside same
  refine List.nodup_cons.mpr ⟨?_, List.nodup_cons.mpr ⟨?_, consistent.linked.names found⟩⟩
  · rw [List.map_cons, List.mem_cons, not_or]
    exact ⟨show DOT ≠ DOTDOT by decide, undotted _ fun k member => (proper k member).2.2.1⟩
  · exact undotted _ fun k member => (proper k member).2.2.2

/-- The directory that a name is moved out of no longer has it, whatever the name
    stands for. -/
def Bereft (g : Geometry) (v : Volume) (fs' : Filesystem) (p : UInt32) (block : Nat) (name : List UInt8) : Prop :=
  ∃ v' kids', Holds g v' fs' ∧ v'.inodeBit = v.inodeBit ∧ (∃ links, v'.slot p = { v.slot p with links_count := links }) ∧
    Held (v'.block block) kids' ∧ named kids' name = none

/-- A new entry stands behind the others. -/
theorem entered_held (holds : Holds g v fs) (consistent : Consistent g v N) (found' : N p' = some (.dir block' parent' kids'))
    (used : m ≠ 0) (room : has_room (v.block block') new_name = true) (code : UInt8) :
    ∃ first fs₁, (add_dir_entry (v.slot p') new_name m code).run fs = .ok () fs₁ ∧ Holds g (v.setBlock block' first) fs₁ ∧
      Held first (listing p' parent' kids' ++ [⟨new_name, m, code⟩]) := by
  have sound' := consistent.sound found'
  have lists' : Lists (v.block block') (⟨DOT, p', 2⟩ :: ⟨DOTDOT, parent', 2⟩ :: kids') := DirBacked.lists sound'.backed
  obtain ⟨first, fs₁, entered, holds₁, -, lists₁, -⟩ := add_dir_entry_ok holds (oneBlock sound') lists' room m code
  refine ⟨first, fs₁, entered, holds₁, held_of_lists lists₁ fun k member => ?_⟩
  rcases List.mem_append.mp member with old | new
  · exact (readable_of consistent).used found' k old
  · rw [List.mem_singleton.mp new]
    exact used

/-- Within one directory the old name is taken out of the block that has the new one. -/
theorem same_bereft {fs₁ fs₂ : Filesystem} {first : Bytes} {code : UInt8} (consistent : Consistent g v N)
    (found : N p = some (.dir block parent kids)) (large : 2048 ≤ g.block_size) (holds₁ : Holds g (v.setBlock block first) fs₁)
    (held₁ : Held first (listing p parent kids ++ [⟨new_name, m, code⟩])) (free : named (listing p parent kids) new_name = none)
    (removed : (remove_dir_entry (v.slot p) m old_name).run fs₁ = .ok () fs₂) (flushed : flush_metadata.run fs₂ = .ok () fs') :
    Bereft g v fs' p block old_name := by
  have there : (v.setBlock block first).block block = first := if_pos rfl
  obtain ⟨second, earlier, code', later, split, held₂, holds₂⟩ :=
    remove_dir_entry_held holds₁ (oneBlock (consistent.sound found)) (by rw [there]; exact held₁) removed
  obtain ⟨fs₃, flushed', holds₃, -⟩ := flush_metadata_ok holds₂ large
  cases flushed'.symm.trans flushed
  have nodup : ((listing p parent kids ++ [(⟨new_name, m, code⟩ : Kid)]).map (·.name)).Nodup :=
    nodup_snoc (nodup_listing consistent found) free
  rw [split] at nodup
  refine ⟨_, _, holds₃, rfl, ⟨(v.slot p).links_count, rfl⟩, ?_, named_without nodup⟩
  rw [show ((v.setBlock block first).setBlock block second).block block = second from if_pos rfl]
  exact held₂

/-- A name that is gone stays gone when a second dot is led elsewhere, in that block or in another. -/
theorem redirected_held {b : Nat} (holds : Holds g v fs) (one : OneBlock g inode b) (held : Held (v.block block) kids)
    (without : named kids old_name = none) (own : b = block → old_name ≠ DOTDOT) (moving : ∃ ks, Held (v.block b) ks)
    (led : (update_dotdot inode p').run fs = .ok () fs') :
    ∃ bytes, Holds g (v.setBlock b bytes) fs' ∧
      ∃ kids', Held ((v.setBlock b bytes).block block) kids' ∧ named kids' old_name = none := by
  by_cases same : b = block
  · subst same
    obtain ⟨bytes, kids', held', named', holds'⟩ := update_dotdot_held holds one held led
    refine ⟨bytes, holds', kids', ?_, (named' _ (own rfl)).trans without⟩
    rw [show (v.setBlock b bytes).block b = bytes from if_pos rfl]
    exact held'
  · obtain ⟨ks, held_m⟩ := moving
    obtain ⟨bytes, -, -, -, holds'⟩ := update_dotdot_held holds one held_m led
    refine ⟨bytes, holds', kids, ?_, without⟩
    rw [show (v.setBlock b bytes).block block = v.block block from if_neg (Ne.symm same)]
    exact held

/-- Every directory still has records after two blocks have been edited. -/
theorem edited_held {b : Nat} {q : UInt32} {ks : List Kid} {first second : Bytes} (consistent : Consistent g v N)
    (here : N m = some (.dir b q ks)) (held₁ : ∃ ks', Held first ks') (held₂ : ∃ ks', Held second ks') :
    ∃ ks', Held (((v.setBlock block' first).setBlock block second).block b) ks' := by
  by_cases out_of : b = block
  · rw [show ((v.setBlock block' first).setBlock block second).block b = second from if_pos out_of]
    exact held₂
  · rw [show ((v.setBlock block' first).setBlock block second).block b = (v.setBlock block' first).block b from if_neg out_of]
    by_cases into : b = block'
    · rw [show (v.setBlock block' first).block b = first from if_pos into]
      exact held₁
    · rw [show (v.setBlock block' first).block b = v.block b from if_neg into]
      exact ⟨_, held_listing consistent here⟩

/-- The counts of both directories are written, and then the metadata. -/
theorem relinked {fs₁ fs₂ : Filesystem} {after after' : Inode} (low : 1 ≤ p.toNat) (listed : p.toNat ≤ g.inodes)
    (low' : 1 ≤ p'.toNat) (listed' : p'.toNat ≤ g.inodes) (large : 2048 ≤ g.block_size) (other : p ≠ p')
    (holds : Holds g v fs) (less : (write_inode p after).run fs = .ok () fs₁)
    (more : (write_inode p' after').run fs₁ = .ok () fs₂) (flushed : flush_metadata.run fs₂ = .ok () fs') :
    ∃ v', Holds g v' fs' ∧ v'.inodeBit = v.inodeBit ∧ v'.block = v.block ∧ v'.slot p = after := by
  obtain ⟨_, less', holds₁⟩ := write_inode_ok holds low listed after
  cases less.symm.trans less'
  obtain ⟨_, more', holds₂⟩ := write_inode_ok holds₁ low' listed' after'
  cases more.symm.trans more'
  obtain ⟨_, flushed', holds₃, -⟩ := flush_metadata_ok holds₂ large
  cases flushed.symm.trans flushed'
  exact ⟨_, holds₃, rfl, rfl, (if_neg other).trans (if_pos rfl)⟩

theorem move_entry_bereft (holds : Holds g v fs) (consistent : Consistent g v N) (found : N p = some (.dir block parent kids))
    (found' : N p' = some (.dir block' parent' kids')) (here : N m = some x) (not_root : m ≠ ROOT_INODE)
    (free : named (listing p' parent' kids') new_name = none) (room : has_room (v.block block') new_name = true)
    (own : m = p → old_name ≠ DOTDOT) {code : UInt8}
    (ran : (move_entry p p' (v.slot p) (v.slot p') old_name new_name m (v.slot m) code).run fs = .ok () fs') :
    Bereft g v fs' p block old_name := by
  have sound := consistent.sound found
  have sound' := consistent.sound found'
  have moving := consistent.sound here
  have large : 2048 ≤ g.block_size := large_of_listed (moving.number.resolve_left not_root) moving.listed
  obtain ⟨first, fs₁, entered, holds₁, held₁⟩ :=
    entered_held holds consistent found' (consistent.live_nonzero (live_of here)) room code
  rw [move_entry] at ran
  obtain ⟨⟨⟩, mid, entered', ran⟩ := run_bind_eq_ok.mp ran
  cases entered.symm.trans entered'
  obtain ⟨⟨⟩, fs₂, removed, ran⟩ := run_bind_eq_ok.mp ran
  by_cases same : p = p'
  case pos =>
    subst same
    rw [found] at found'
    cases found'
    rw [if_pos rfl] at removed
    rw [if_neg (fun both => both.1 rfl)] at ran
    exact same_bereft consistent found large holds₁ held₁ free removed ran
  rw [if_neg same] at removed
  have apart : block ≠ block' := fun both => consistent.apart found found' same block rfl both
  have there : (v.setBlock block' first).block block = v.block block := if_neg apart
  obtain ⟨second, earlier, code', later, split, held₂, holds₂⟩ :=
    remove_dir_entry_held holds₁ (oneBlock sound) (by rw [there]; exact held_listing consistent found) removed
  have nodup := nodup_listing consistent found
  rw [split] at nodup
  have without := named_without nodup
  have here₂ : ((v.setBlock block' first).setBlock block second).block block = second := if_pos rfl
  rw [← here₂] at held₂
  by_cases dir : Inode.is_directory (v.slot m) = true
  case neg =>
    rw [if_neg (fun both => dir both.2)] at ran
    obtain ⟨fs₃, flushed', holds₃, -⟩ := flush_metadata_ok holds₂ large
    cases flushed'.symm.trans ran
    exact ⟨_, _, holds₃, rfl, ⟨(v.slot p).links_count, rfl⟩, held₂, without⟩
  rw [if_pos ⟨same, dir⟩] at ran
  obtain ⟨b, q, ks, rfl⟩ : ∃ b q ks, x = .dir b q ks := by
    have type := (types_of_node moving.backed).1
    rw [dir] at type
    cases x with
    | dir b q ks => exact ⟨b, q, ks, rfl⟩
    | file => cases type
    | link => cases type
  obtain ⟨⟨⟩, fs₃, led, ran⟩ := run_bind_eq_ok.mp ran
  obtain ⟨⟨⟩, -, ran⟩ := lift_then_eq_ok.mp ran
  obtain ⟨⟨⟩, fs₅, less, ran⟩ := run_bind_eq_ok.mp ran
  obtain ⟨⟨⟩, fs₆, more, flushed⟩ := run_bind_eq_ok.mp ran
  -- The block of what moves may be the one that the name has been taken out of.
  have alone : b = block → m = p := by
    rintro rfl
    by_contra other
    exact consistent.apart here found other b rfl rfl
  obtain ⟨third, holds₃, kids₃, held₃, named₃⟩ := redirected_held holds₂ (oneBlock moving) held₂ without
    (fun out_of => own (alone out_of)) (edited_held consistent here ⟨_, held₁⟩ ⟨_, here₂ ▸ held₂⟩) led
  obtain ⟨v', holds₄, bits, blocks, slot⟩ := relinked sound.low sound.listed sound'.low sound'.listed large same holds₃ less
    more flushed
  exact ⟨v', kids₃, holds₄, bits, ⟨_, slot⟩, congrFun blocks block ▸ held₃, named₃⟩
end

/-! ### A directory that is moved beneath itself -/

section
variable {g : Geometry} {v : Volume} {N : NodeMap} {fs : Filesystem} {n m p p' parent parent' : UInt32} {block block' b : Nat}
  {q : UInt32} {kids kids' ks : List Kid} {old_name new_name : List UInt8}

theorem readable_onKids {h : List Kid → List Kid} (readable : Readable N)
    (keeps : ∀ ks, ∀ k ∈ h ks, k ∈ ks ∨ (Proper k.name ∧ k.inode ≠ 0)) : Readable (modify N n (.onKids h)) := by
  have dir : ∀ {m block parent kids}, modify N n (.onKids h) m = some (.dir block parent kids) →
      ∃ old, N m = some (.dir block parent old) ∧ ∀ k ∈ kids, k ∈ old ∨ (Proper k.name ∧ k.inode ≠ 0) := by
    intro m block parent kids found
    rcases modify_some found with ⟨-, same⟩ | ⟨rfl, x, here, shape⟩
    · exact ⟨kids, same, fun _ member => .inl member⟩
    · cases x with
      | dir b q ks =>
        cases shape
        exact ⟨ks, here, keeps ks⟩
      | file => cases shape
      | link => cases shape
  constructor
  · intro m block parent kids found k member
    obtain ⟨old, here, kept⟩ := dir found
    exact (kept k member).elim (readable.proper here k) And.left
  · intro m block parent kids found k member
    obtain ⟨old, here, kept⟩ := dir found
    have used := readable.used here
    simp only [listing, List.mem_cons] at member used
    rcases member with dot | dotdot | member
    · exact used k (.inl dot)
    · exact used k (.inr (.inl dotdot))
    · exact (kept k member).elim (fun before => used k (.inr (.inr before))) And.right
theorem readable_setParent (readable : Readable N) (nonzero : p ≠ 0) : Readable (setParent N n p) := by
  have dir : ∀ {m block parent kids}, setParent N n p m = some (.dir block parent kids) →
      ∃ old, N m = some (.dir block old kids) ∧ (parent = old ∨ parent = p) := by
    intro m block parent kids found
    rcases modify_some found with ⟨-, same⟩ | ⟨rfl, x, here, shape⟩
    · exact ⟨parent, same, .inl rfl⟩
    · cases x with
      | dir b q ks =>
        cases shape
        exact ⟨q, here, .inr rfl⟩
      | file => cases shape
      | link => cases shape
  constructor
  · intro m block parent kids found
    obtain ⟨old, here, -⟩ := dir found
    exact readable.proper here
  · intro m block parent kids found k member
    obtain ⟨old, here, up⟩ := dir found
    have used := readable.used here
    simp only [listing, List.mem_cons] at member used
    rcases member with dot | dotdot | member
    · exact used k (.inl dot)
    · rcases up with rfl | rfl
      · exact used k (.inr (.inl dotdot))
      · exact dotdot ▸ nonzero
    · exact used k (.inr (.inr member))
theorem readable_moved {code : UInt8} (readable : Readable N) (proper : Proper new_name) (used : m ≠ 0) (nonzero : p' ≠ 0) :
    Readable (moved N p old_name p' new_name m code) := by
  refine readable_setParent (readable_onKids (readable_onKids readable ?_) ?_) nonzero
  · intro ks k member
    rcases List.mem_append.mp member with old | new
    · exact .inl old
    · rw [List.mem_singleton.mp new]
      exact .inr ⟨proper, used⟩
  · exact fun ks k member => .inl (List.mem_of_mem_filter member)

/-- No path leads to a directory that has been moved beneath itself. -/
theorem lost_moved (track : Track g v N p block parent kids old_name p' block' parent' kids' new_name m (.dir b q ks))
    (holds : Holds g v fs) (room : has_room (v.block block') new_name = true) (below : Beneath (child N) m p') :
    ∃ fs' v', (move_entry p p' (v.slot p) (v.slot p') old_name new_name m (v.slot m) 2).run fs = .ok () fs' ∧
      Holds g v' fs' ∧ v'.inodeBit = v.inodeBit ∧ ¬ Reaches fs' m := by
  have consistent := track.consistent
  have linked := consistent.linked
  have edge := (child_dir track.found old_name).trans track.edge
  have other : p ≠ p' := by
    rintro rfl
    obtain ⟨path, walked⟩ := below
    have round := no_cycle (path ++ [old_name]) linked.tree (live_of track.here) (walk_snoc.mpr ⟨p, walked, edge⟩)
    simp at round
  obtain ⟨fs', v', ran, holds', -, shifted⟩ := track.shifts holds other room
  have edges : Moved (child N) (child (moved N p old_name p' new_name m 2)) p old_name p' new_name m :=
    child_moved 2 track.found track.found' track.free fun both => other both.1
  have readable : Readable (moved N p old_name p' new_name m 2) :=
    readable_moved (readable_of consistent) track.proper' track.nonzero (consistent.live_nonzero (live_of track.found'))
  refine ⟨fs', v', ran, holds', shifted.inodeBit, fun ⟨path, walked⟩ => lost_beneath linked.tree edges edge below path ?_⟩
  -- What the names lead to stays in use, so that it can be read.
  have live : ∀ {before k}, walk (child (moved N p old_name p' new_name m 2)) ROOT_INODE before = some k → Live N k := by
    intro before
    induction before using List.reverseRecOn with
    | nil =>
      intro k here
      cases here
      exact linked.tree.root_live
    | append_singleton before name ih =>
      intro k here
      obtain ⟨l, -, last⟩ := walk_snoc.mp here
      rcases moved_cases edges last with ⟨-, -, rfl⟩ | ⟨old, -⟩
      · exact live_of track.here
      · exact (linked.tree.closed old).2
  rw [← walked]
  refine (walk_congr fun before name after k split reached => ?_).symm
  exact child_of_laid holds' shifted.laid readable (by rw [live_moved]; exact live reached) name
end

end Justext4.Astray
