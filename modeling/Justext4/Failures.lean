import Justext4.Astray
import Justext4.Invariants
import Justext4.Progress

/-!
What calls that fail leave behind. A creation that is refused by its checks
leaves no trace, and one that fails once it has taken an inode always does; a
rename that fails leaves everything as it was unless it has removed what was at
its destination.
-/
namespace Justext4.Failures
open Justext4 Justext4.Fallible Justext4.Filesystem Justext4.Volumes Justext4.Mkfs
open Justext4.Bytes (zeros)
open Justext4.Inode (Inode)
open Justext4.DirEntry (DirEntry is_unused)
open Justext4.DirBlock
open Justext4.DirScan (erase_entry_wide)
open Justext4.Nodes
open Justext4.Backing
open Justext4.Counts
open Justext4.Allocation
open Justext4.Entries
open Justext4.Reading
open Justext4.Create
open Justext4.Remove
open Justext4.Rename
open Justext4.Astray (free_moves)
open Justext4.Paths
open Justext4.View
open Justext4.Invariants (block_bit inode_bit)
open Justext4.NamedTree (walk walk_snoc)
open Justext4.Start
open Justext4.Calls
open Justext4.Progress

/-! ### Creations -/

/-- The calls that create an inode. -/
def Creates : Request → Prop
  | .create_file .. | .mkdir .. | .symlink .. => True
  | _ => False

/-- The checks before an inode is taken refuse the call, or there is no inode to take. -/
def Blocked (fs : Filesystem) : Request → Prop
  | .create_file path _ => Refused fs path
  | .mkdir path => Refused fs path
  | .symlink link_path target => RefusedLink fs link_path target
  | _ => False

/-- The call ends without a value and with the state it has begun with. -/
def Stops {α : Type} (fs : Filesystem) (ended : Ended Filesystem Ext4Error α) : Prop :=
  ended = .panic ∨ ∃ e, ended = .err e fs

section
variable {fs : Filesystem} {α β : Type}

/-- A call that begins by reading stops when it stops after what it reads. -/
theorem stops_reads {f : Filesystem → Res Ext4Error β} {next : β → Call α}
    (later : ∀ b, f fs = .ok b → Stops fs ((next b).run fs)) : Stops fs ((reads f >>= next).run fs) := by
  rw [run_bind, run_reads]
  cases found : f fs with
  | ok b => exact later b found
  | error fault =>
    cases fault with
    | err e => exact .inr ⟨e, rfl⟩
    | panic => exact .inl rfl

/-- What the checks refuse stops before anything is written. -/
theorem under_stops {path : List UInt8} {next : UInt32 → Inode → List UInt8 → Call α} (refused : Refused fs path)
    (full : ∀ num inode name, NoInode fs → Stops fs ((next num inode name).run fs)) :
    Stops fs ((under path next).run fs) := by
  refine stops_reads fun ⟨parent_path, name⟩ split => ?_
  refine stops_reads fun ⟨num, inode⟩ opened => ?_
  refine stops_reads fun _ absent => ?_
  exact full num inode name (refused parent_path name num inode split opened absent)

/-- What is blocked leaves no trace, whatever the state is. -/
theorem blocked_stops {request : Request} (blocked : Blocked fs request) : Stops fs ((execute request).run fs) := by
  have numbered_stops : ∀ {call : Call UInt32}, Stops fs (call.run fs) → Stops fs ((numbered call).run fs) := by
    intro call stops
    simp only [numbered, run_bind]
    rcases stops with panicked | ⟨e, failed⟩
    · rw [panicked]
      exact .inl rfl
    · rw [failed]
      exact .inr ⟨e, rfl⟩
  have full_stops : NoInode fs → ∀ next : UInt32 → Call UInt32, Stops fs ((allocate_inode >>= next).run fs) := by
    intro none next
    rw [run_bind, allocate_inode_none none]
    exact .inr ⟨_, rfl⟩
  cases request with
  | create_file path data =>
    refine numbered_stops ?_
    rw [create_file_eq]
    refine under_stops blocked fun num inode name none => ?_
    exact stops_reads fun _ _ => full_stops none _
  | mkdir path =>
    refine numbered_stops ?_
    rw [mkdir_eq]
    refine under_stops blocked fun num inode name none => ?_
    exact stops_reads fun _ _ => full_stops none _
  | symlink link_path target =>
    refine numbered_stops ?_
    rw [symlink_eq]
    refine stops_reads fun _ some => ?_
    refine stops_reads fun _ short => ?_
    rw [ensure_eq_ok, decide_eq_true_eq] at some short
    rcases blocked with empty | long | refused
    · exact absurd empty some
    · exact absurd short (Nat.not_le_of_lt long)
    · exact under_stops refused fun num inode name none => full_stops none _
  | _ => exact blocked.elim
end

/-- On a tree that is backed a creation that fails without a trace was blocked. -/
theorem blocked_of_same {g : Geometry} {v : Volume} {N : NodeMap} {fs : Filesystem} {path : List UInt8} {refusal : Prop}
    {count : Nat} {new : Volume → UInt32 → Node → Prop} {call : Call UInt32} {e : Ext4Error} (holds : Holds g v fs)
    (ended : Creation g v N fs path refusal count new (call.run fs)) (failed : (numbered call).run fs = .err e fs) :
    refusal := by
  simp only [numbered, run_bind] at failed
  generalize call.run fs = result at ended failed
  cases ended with
  | refused why => exact why
  | panicked => cases failed
  | wasted holds' wasted =>
    simp only [andThen_err] at failed
    cases failed
    exact absurd rfl (wasted.differs holds holds')
  | made => cases failed

/-- A creation that fails leaves the image and the records in memory as they
    were when it is blocked before it takes an inode, in any state; in a state
    that calls have led to from a fresh image, only then. -/
theorem failed_creation {request : Request} (creates : Creates request) {fs fs' : Filesystem} {e : Ext4Error}
    (failed : (execute request).run fs = .err e fs') :
    (Blocked fs request → fs' = fs) ∧ ∀ config, Contained config → Reached config Admissible fs →
      Admissible fs request → (fs' = fs ↔ Blocked fs request) := by
  have same : Blocked fs request → fs' = fs := by
    intro blocked
    rcases blocked_stops blocked with panicked | ⟨e', stopped⟩
    · cases panicked.symm.trans failed
    · cases stopped.symm.trans failed
      rfl
  refine ⟨same, fun config contained reached admissible => ⟨?_, same⟩⟩
  rintro rfl
  obtain ⟨layout, g, -, -, v, N, holds, consistent⟩ := reached_backs contained reached
  cases request with
  | create_file path data =>
    rw [Admissible, holds.static'.block_size] at admissible
    exact blocked_of_same holds (create_file_ends holds consistent path admissible) failed
  | mkdir path => exact blocked_of_same holds (mkdir_ends holds consistent path) failed
  | symlink link_path target => exact blocked_of_same holds (symlink_ends holds consistent link_path target) failed
  | _ => exact creates.elim

/-- A directory that is there already is refused, and a file that is too large
    fails later. -/
theorem second_directory_blocked : ∃ fs fs',
    (execute (.mkdir [SLASH, 97])).run (fresh Config.default defaultLayout) = .ok (some 11) fs ∧
    (execute (.mkdir [SLASH, 97])).run fs = .err (.AlreadyExists [97]) fs ∧ Blocked fs (.mkdir [SLASH, 97]) ∧
    (execute (.create_file [SLASH, 98] (zeros 65537))).run fs = .err (.NoSpace "blocks") fs' ∧
    ¬ Blocked fs (.create_file [SLASH, 98] (zeros 65537)) := by
  obtain ⟨g, v, N, fs, left, block, b, -, ran, row, root, -⟩ := one_directory
  obtain ⟨fs₁, fs', made, reachedOk, storable, failed, differs, -⟩ := lost_file
  cases ran.symm.trans made
  have contained : Contained Config.default := fun _ => by decide
  have opened := open_directory_ok row.holds row.consistent (root_directory root)
  have absent := ensure_absent_ok row.holds row.consistent root [97]
  rw [if_neg (show named (listing ROOT_INODE ROOT_INODE [⟨[97], 11, 2⟩]) [97] ≠ none by decide)] at absent
  have again : (execute (.mkdir [SLASH, 97])).run fs = .err (.AlreadyExists [97]) fs := by
    simp only [execute, numbered, mkdir_eq, under, run_bind, run_lift,
      show split_path [SLASH, 97] = .ok ([SLASH], [97]) from rfl, ofRes_ok, andThen_ok, run_reads, opened, absent, ofRes_err,
      andThen_err]
  refine ⟨fs, fs', made, again, ?_, failed, fun blocked => differs ?_⟩
  · exact ((failed_creation (by trivial) again).2 _ contained reachedOk.reached trivial).mp rfl
  · exact (failed_creation (by trivial) failed).1 blocked

/-- The inode of a file that is too large for the image stays taken. -/
theorem large_file_wastes : ∃ fs', (execute (.create_file [SLASH, 97] (zeros 65537))).run
    (fresh Config.default defaultLayout) = .err (.NoSpace "blocks") fs' ∧ fs' ≠ fresh Config.default defaultLayout := by
  obtain ⟨g, v, whole, -, holds, consistent, counted, tight, -⟩ := fresh_backs default_small
    (show Layout.from_config Config.default = .ok defaultLayout from rfl)
  have small := modest whole counted
  have total : g.total = 16 := whole.total
  have sized : g.block_size = 4096 := whole.block_size
  have numbers : g.per_group = 32 := whole.per_group
  have clear : v.inodeBit 10 = false := by
    cases bit : v.inodeBit 10 with
    | false => rfl
    | true =>
      rcases tight.inodes 10 (by omega) bit with small | live
      · omega
      · exact absurd rfl live
  have root : rootOnly defaultLayout.root_dir_block ROOT_INODE = some (.dir defaultLayout.root_dir_block ROOT_INODE []) := rfl
  refine large_file_refused holds consistent small (root_place root ⟨by decide, by decide, by decide, by decide⟩ rfl)
    (i := 10) (by omega) (by omega) clear ?_
  rw [total, sized]
  decide

/-! ### Moves -/

section
variable {g : Geometry} {v : Volume} {N : NodeMap} {fs : Filesystem} {bytes : Bytes} {es : List DirEntry}
  {inode : Inode} {block : Nat} {child : UInt32} {name : List UInt8}

/-- An entry that is there is taken out, unless the record before it grows too
    long, and a live `..` of another name stays. -/
theorem erase_entry_runs (tiles : Tiles bytes 0 es bytes.size) (target : ∃ e ∈ es, names_target child name e = true) :
    erase_entry bytes child name = .error .panic ∨
    ∃ bytes' es', erase_entry bytes child name = .ok bytes' ∧ bytes'.size = bytes.size ∧ Tiles bytes' 0 es' bytes'.size ∧
      (name ≠ DOTDOT → (∃ e ∈ es, is_dotdot e = true) → ∃ e ∈ es', is_dotdot e = true) := by
  cases found : es.find? (names_target child name) with
  | none =>
    obtain ⟨e, member, here⟩ := target
    rw [List.find?_eq_none] at found
    exact absurd here (found e member)
  | some e =>
  obtain ⟨here, before, after, rfl, earlier⟩ := List.find?_eq_some_iff_append.mp found
  have none : ∀ x ∈ before, names_target child name x = false := fun x member => by simpa using earlier x member
  have named : name ≠ DOTDOT → is_dotdot e = false := by
    intro other
    simp only [names_target, Bool.and_eq_true, beq_iff_eq] at here
    simp only [is_dotdot, here.1.2, Bool.and_eq_false_iff, beq_eq_false_iff_ne]
    exact .inr other
  cases before using List.reverseRecOn with
  | nil =>
    obtain ⟨bytes', erased, size, tiles'⟩ := erase_entry_first tiles here
    refine .inr ⟨bytes', _, erased, size, size ▸ tiles', ?_⟩
    rintro other ⟨x, member, dotdot⟩
    rcases List.mem_cons.mp member with rfl | later
    · rw [named other] at dotdot
      cases dotdot
    · exact ⟨x, List.mem_cons_of_mem _ later, dotdot⟩
  | append_singleton before prev =>
    have split : Tiles bytes 0 (before ++ [prev, e] ++ after) bytes.size := by simpa using tiles
    by_cases narrow : prev.rec_len.toNat + e.rec_len.toNat < 65536
    · obtain ⟨bytes', erased, size, tiles'⟩ := erase_entry_merges split none here narrow
      refine .inr ⟨bytes', _, erased, size, size ▸ tiles', ?_⟩
      rintro other ⟨x, member, dotdot⟩
      rcases List.mem_append.mp member with first | later
      · rcases List.mem_append.mp first with inside | last
        · exact ⟨x, by simp [inside], dotdot⟩
        · rw [List.mem_singleton.mp last] at dotdot
          exact ⟨{ prev with rec_len := prev.rec_len + e.rec_len }, by simp, dotdot⟩
      · rcases List.mem_cons.mp later with rfl | later
        · rw [named other] at dotdot
          cases dotdot
        · exact ⟨x, by simp [later], dotdot⟩
    · exact .inl (erase_entry_wide split none here (by omega))

theorem redirect_dotdot_runs (tiles : Tiles bytes 0 es bytes.size) (target : ∃ e ∈ es, is_dotdot e = true)
    (parent : UInt32) : ∃ bytes', redirect_dotdot bytes parent = .ok bytes' ∧ bytes'.size = bytes.size := by
  cases found : es.find? is_dotdot with
  | none =>
    obtain ⟨e, member, here⟩ := target
    rw [List.find?_eq_none] at found
    exact absurd here (found e member)
  | some e =>
    obtain ⟨here, before, after, rfl, earlier⟩ := List.find?_eq_some_iff_append.mp found
    obtain ⟨bytes', redirected, size, -⟩ := redirect_dotdot_ok before parent tiles
      (fun x member => by simpa using earlier x member) here
    exact ⟨bytes', redirected, size⟩

theorem remove_dir_entry_runs (holds : Holds g v fs) (one : OneBlock g inode block)
    (tiles : Tiles (v.block block) 0 es (v.block block).size) (target : ∃ e ∈ es, names_target child name e = true) :
    (remove_dir_entry inode child name).run fs = .panic ∨
    ∃ bytes' es' fs', (remove_dir_entry inode child name).run fs = .ok () fs' ∧ Holds g (v.setBlock block bytes') fs' ∧
      Tiles bytes' 0 es' bytes'.size ∧
      (name ≠ DOTDOT → (∃ e ∈ es, is_dotdot e = true) → ∃ e ∈ es', is_dotdot e = true) := by
  have whole := Holds.size_block holds one.low one.high
  rcases erase_entry_runs tiles target with panicked | ⟨bytes', es', erased, size, tiles', stays⟩
  · refine .inl ?_
    simp only [remove_dir_entry, run_bind, run_reads, first_block_ok holds one, ofRes_ok, andThen_ok, run_lift, panicked,
      ofRes_panic, andThen_panic]
  · obtain ⟨fs', written, holds'⟩ := write_block_ok holds (size.trans whole) one.low one.high
    refine .inr ⟨bytes', es', fs', ?_, holds', tiles', stays⟩
    simp only [remove_dir_entry, run_bind, run_reads, first_block_ok holds one, ofRes_ok, andThen_ok, run_lift, erased]
    exact written

theorem update_dotdot_runs (holds : Holds g v fs) (one : OneBlock g inode block)
    (tiles : Tiles (v.block block) 0 es (v.block block).size) (target : ∃ e ∈ es, is_dotdot e = true) (parent : UInt32) :
    ∃ bytes' fs', (update_dotdot inode parent).run fs = .ok () fs' ∧ Holds g (v.setBlock block bytes') fs' := by
  have whole := Holds.size_block holds one.low one.high
  obtain ⟨bytes', redirected, size⟩ := redirect_dotdot_runs tiles target parent
  obtain ⟨fs', written, holds'⟩ := write_block_ok holds (size.trans whole) one.low one.high
  refine ⟨bytes', fs', ?_, holds'⟩
  simp only [update_dotdot, run_bind, run_reads, first_block_ok holds one, ofRes_ok, andThen_ok, run_lift, redirected]
  exact written

/-- An entry that a block lists is found in it. -/
theorem listed_target {kids : List Kid} (lists : Lists bytes kids) (edge : named kids name = some child) (used : child ≠ 0) :
    ∃ es, Tiles bytes 0 es bytes.size ∧ es.map kid = kids ∧ ∃ e ∈ es, names_target child name e = true := by
  obtain ⟨es, tiles, same⟩ := lists
  obtain ⟨before, k, after, split, rfl, rfl, -⟩ := named_some edge
  have member : k ∈ es.map kid := by simp [same, split]
  obtain ⟨e, inside, rfl⟩ := List.mem_map.mp member
  have live : e.inode ≠ 0 := used
  exact ⟨es, tiles, same, e, inside, by simp [names_target, is_unused, kid, live]⟩
theorem listed_dotdot {es : List DirEntry} {n parent : UInt32} {kids : List Kid}
    (same : es.map kid = listing n parent kids) (used : parent ≠ 0) : ∃ e ∈ es, is_dotdot e = true := by
  have member : ⟨DOTDOT, parent, 2⟩ ∈ es.map kid := by simp [same, listing]
  obtain ⟨e, inside, here⟩ := List.mem_map.mp member
  have number : e.inode = parent := congrArg Kid.inode here
  have named : e.name = DOTDOT := congrArg Kid.name here
  exact ⟨e, inside, by simp [is_dotdot, is_unused, number, named, used]⟩

variable {p p' m parent parent' : UInt32} {block' : Nat} {kids kids' : List Kid} {old_name new_name : List UInt8} {x : Node}

/-- A move that finds room for the new name does not fail, whatever it moves. -/
theorem move_entry_runs (holds : Holds g v fs) (consistent : Consistent g v N) (found : N p = some (.dir block parent kids))
    (found' : N p' = some (.dir block' parent' kids')) (component : Component old_name)
    (edge : named (listing p parent kids) old_name = some m) (here : N m = some x) (not_root : m ≠ ROOT_INODE)
    (free : named (listing p' parent' kids') new_name = none) (room : has_room (v.block block') new_name = true)
    (e : Ext4Error) (fs' : Filesystem) :
    (move_entry p p' (v.slot p) (v.slot p') old_name new_name m (v.slot m) x.code).run fs ≠ .err e fs' := by
  have sound := consistent.sound found
  have sound' := consistent.sound found'
  have moving := consistent.sound here
  have used : m ≠ 0 := consistent.live_nonzero (live_of here)
  have number : 11 ≤ m.toNat := moving.number.resolve_left not_root
  have large : 2048 ≤ g.block_size := large_of_listed number moving.listed
  have type : Inode.is_directory (v.slot m) = (x.code == 2) := (types_of_node moving.backed).1
  have lists' : Lists (v.block block') (⟨DOT, p', 2⟩ :: ⟨DOTDOT, parent', 2⟩ :: kids') := DirBacked.lists sound'.backed
  have lists : Lists (v.block block) (listing p parent kids) := DirBacked.lists sound.backed
  obtain ⟨first, fs₁, entered, holds₁, -, lists₁, -⟩ := add_dir_entry_ok holds (oneBlock sound') lists' room m x.code
  by_cases same : p = p'
  case pos =>
    subst same
    rw [found] at found'
    cases found'
    have edge₁ : named (listing p parent kids ++ [⟨new_name, m, x.code⟩]) old_name = some m := by
      rw [named_append free]
      split
      · rfl
      · exact edge
    have here₁ : (v.setBlock block first).block block = first := if_pos rfl
    obtain ⟨es, tiles, -, target⟩ := listed_target lists₁ edge₁ used
    rcases remove_dir_entry_runs holds₁ (oneBlock sound) (by rw [here₁]; exact tiles) target with panicked | ⟨_, _, fs₂, removed, holds₂, -⟩
    · simp only [move_entry, run_bind, entered, andThen_ok, ↓reduceIte, panicked, andThen_panic]
      intro failed
      cases failed
    · obtain ⟨fs₃, flushed, -⟩ := flush_metadata_ok holds₂ large
      simp only [move_entry, run_bind, entered, removed, andThen_ok, ↓reduceIte, not_true_eq_false, false_and, flushed]
      intro failed
      cases failed
  have apart : block ≠ block' := fun both => consistent.apart found found' same block rfl both
  have there : (v.setBlock block' first).block block = v.block block := if_neg apart
  obtain ⟨es, tiles, listed, target⟩ := listed_target lists edge used
  rcases remove_dir_entry_runs holds₁ (oneBlock sound) (by rw [there]; exact tiles) target with
    panicked | ⟨second, es', fs₂, removed, holds₂, tiles₂, stays⟩
  · simp only [move_entry, run_bind, entered, andThen_ok, same, ↓reduceIte, panicked, andThen_panic]
    intro failed
    cases failed
  cases x with
  | file start count =>
    obtain ⟨fs₃, flushed, -⟩ := flush_metadata_ok holds₂ large
    have type : Inode.is_directory (v.slot m) = false := type
    simp only [move_entry, run_bind, entered, same, removed, andThen_ok, ↓reduceIte, type, Bool.false_eq_true, and_false, flushed]
    intro failed
    cases failed
  | link =>
    obtain ⟨fs₃, flushed, -⟩ := flush_metadata_ok holds₂ large
    have type : Inode.is_directory (v.slot m) = false := type
    simp only [move_entry, run_bind, entered, same, removed, andThen_ok, ↓reduceIte, type, Bool.false_eq_true, and_false, flushed]
    intro failed
    cases failed
  | dir b q ks =>
    have type : Inode.is_directory (v.slot m) = true := type
    -- The block of the moved directory may be the one of either parent.
    obtain ⟨es₃, tiles₃, dotdot⟩ : ∃ es₃, Tiles (((v.setBlock block' first).setBlock block second).block b) 0 es₃
        (((v.setBlock block' first).setBlock block second).block b).size ∧ ∃ e ∈ es₃, is_dotdot e = true := by
      by_cases own : b = block
      · subst own
        have self : m = p := by
          by_contra other
          exact consistent.apart here found other b rfl rfl
        subst self
        rw [found] at here
        cases here
        have up : old_name ≠ DOTDOT := by
          rintro rfl
          rw [named_dotdot] at edge
          cases edge
          obtain ⟨_, _, _, above, root | ⟨k, member, down⟩⟩ := parent_dir consistent found
          · exact not_root root
          · rw [found] at above
            cases above
            have loop := (child_dir found k.name).trans (named_mem (consistent.linked.names found) member)
            exact child_ne consistent.linked loop down
        refine ⟨es', ?_, stays up (listed_dotdot listed (consistent.live_nonzero (consistent.parent_live found)))⟩
        rw [show ((v.setBlock block' first).setBlock b second).block b = second from if_pos rfl]
        exact tiles₂
      · by_cases into : b = block'
        · subst into
          have self : m = p' := by
            by_contra other
            exact consistent.apart here found' other b rfl rfl
          rw [show ((v.setBlock b first).setBlock block second).block b = first from (if_neg own).trans (if_pos rfl)]
          obtain ⟨es₃, tiles₃, listed₃⟩ := lists₁
          have shape : es₃.map kid = listing p' parent' (kids' ++ [⟨new_name, m, 2⟩]) := listed₃
          exact ⟨es₃, tiles₃, listed_dotdot shape (consistent.live_nonzero (consistent.parent_live found'))⟩
        · rw [show ((v.setBlock block' first).setBlock block second).block b = v.block b from (if_neg own).trans (if_neg into)]
          obtain ⟨es₃, tiles₃, listed₃⟩ := DirBacked.lists moving.backed
          exact ⟨es₃, tiles₃, listed_dotdot listed₃ (consistent.live_nonzero (consistent.parent_live here))⟩
    obtain ⟨third, fs₃, led, holds₃⟩ := update_dotdot_runs holds₂ (oneBlock moving) tiles₃ dotdot p'
    have few := links_few consistent found'
    obtain ⟨fs₄, less, holds₄⟩ := write_inode_ok holds₃ (n := p) sound.low sound.listed
      { v.slot p with links_count := .ofNat ((v.slot p).links_count.toNat - 1) }
    obtain ⟨fs₅, more, holds₅⟩ := write_inode_ok holds₄ (n := p') sound'.low sound'.listed
      { v.slot p' with links_count := .ofNat ((v.slot p').links_count.toNat + 1) }
    obtain ⟨fs₆, flushed, -⟩ := flush_metadata_ok holds₅ large
    simp only [move_entry, run_bind, entered, same, removed, andThen_ok, ↓reduceIte, type, not_false_eq_true, and_self, led,
      run_lift, decide_eq_true few, orPanic_true, ofRes_ok, less, more, flushed]
    intro failed
    cases failed

/-- A rename that moves a directory astray does not fail. -/
theorem astray_runs (holds : Holds g v fs) (consistent : Consistent g v N) {old_path new_path : List UInt8}
    (astray : Astray fs old_path new_path) (e : Ext4Error) (fs' : Filesystem) :
    (rename old_path new_path).run fs ≠ .err e fs' := by
  obtain ⟨aim, dst, roomy, -⟩ := astray
  obtain ⟨p, block, parent, kids, m, x, p', block', parent', kids', aimed⟩ := aimed holds consistent aim
  obtain ⟨free, moves⟩ := free_moves holds consistent aimed dst
  rw [moves]
  rw [aimed.inode', roomy_iff holds consistent aimed.directory'.found] at roomy
  exact move_entry_runs holds consistent aimed.directory.found aimed.directory'.found (split_path_ok aim.old_split).1 aimed.edge
    aimed.here (aimed.moving ▸ aim.not_root) free roomy e fs'

/-- Nothing of what a rename is about has changed. -/
structure Survives (fs fs' : Filesystem) (old_path new_path : List UInt8) : Prop where
  source : open_path fs' old_path = open_path fs old_path
  target : ∀ n, open_path fs new_path = .ok n → open_path fs' new_path = .ok n ∧ entry_of fs' n = entry_of fs n
  inodes : ∀ n, read_inode fs' n = read_inode fs n
  entries : ∀ n inode, read_inode fs n = .ok inode → Inode.is_directory inode = true →
    read_dir fs' inode = read_dir fs inode
  bits : ∀ i, block_bit fs' i = block_bit fs i ∧ inode_bit fs' i = inode_bit fs i

/-- What has been unlinked at the destination is gone. -/
theorem lost_target {v' : Volume} {N' : NodeMap} {fs' : Filesystem} {old_path new_path parent_path : List UInt8} {k : UInt32}
    (holds : Holds g v fs) (consistent : Consistent g v N) (split : split_path new_path = .ok (parent_path, name))
    (directory : Directory N parent_path p block parent kids) (holds' : Holds g v' fs')
    (pruned : Pruned g v v' N N' p block parent kids name k x) : ¬ Survives fs fs' old_path new_path := by
  intro survives
  have down : step N p name = some k := by
    rw [step_proper pruned.proper]
    exact (child_dir pruned.found name).trans pruned.edge
  have walked : walk (step N) ROOT_INODE (components new_path) = some k := by
    rw [(split_path_ok split).2]
    exact walk_snoc.mpr ⟨p, directory.walked, down⟩
  rcases open_path_walk holds consistent new_path with ⟨k', walked', opened⟩ | ⟨nowhere, -⟩
  · cases walked.symm.trans walked'
    obtain ⟨opened', -⟩ := survives.target k opened
    rcases open_path_walk holds' pruned.consistent new_path with ⟨k', walked', again⟩ | ⟨-, e, refused⟩
    · cases opened'.symm.trans again
      have live := walk_step_live pruned.consistent pruned.consistent.linked.tree.root_live walked'
      rw [Live, pruned.nodes, withoutLeaf, erase, if_pos rfl] at live
      exact live rfl
    · rw [refused] at opened'
      cases opened'
  · rw [walked] at nowhere
    cases nowhere

/-- In a state that calls have led to from a fresh image, a rename that fails
    leaves the image and the records in memory as they were unless it has
    removed what was at the destination and then found no room. -/
theorem failed_rename {config : Config} (contained : Contained config) {fs fs' : Filesystem}
    (reached : Reached config Admissible fs) {old_path new_path : List UInt8} {e : Ext4Error}
    (failed : (rename old_path new_path).run fs = .err e fs') :
    (¬ Lossy fs old_path new_path → fs' = fs) ∧
      (Survives fs fs' old_path new_path ↔ ¬ Lossy fs old_path new_path) := by
  obtain ⟨layout, g, -, -, v, N, holds, consistent⟩ := reached_backs contained reached
  have sane : ¬ Astray fs old_path new_path := fun astray => astray_runs holds consistent astray e fs' failed
  have ended := rename_ends holds consistent old_path new_path sane
  rw [failed] at ended
  cases ended with
  | refused harmless =>
    exact ⟨fun _ => rfl, fun _ => harmless, fun _ => ⟨rfl, fun n opened => ⟨opened, rfl⟩, fun _ => rfl, fun _ _ _ _ => rfl,
      fun _ => ⟨rfl, rfl⟩⟩⟩
  | lost lossy split directory holds' pruned file =>
    exact ⟨fun harmless => absurd lossy harmless,
      fun survives => absurd survives (lost_target holds consistent split directory holds' pruned),
      fun harmless => absurd lossy harmless⟩

/-- A rename to a directory that is there leaves everything as it was. -/
theorem rename_to_parent_survives : ∃ fs,
    (execute (.mkdir [SLASH, 97])).run (fresh Config.default defaultLayout) = .ok (some 11) fs ∧
    (rename [SLASH, 97] [SLASH, 97, SLASH, 46, 46]).run fs = .err (.AlreadyExists DOTDOT) fs ∧
    Survives fs fs [SLASH, 97] [SLASH, 97, SLASH, 46, 46] := by
  obtain ⟨g, v, N, fs, left, block, b, -, ran, row, root, here, -⟩ := one_directory
  have holds := row.holds
  have consistent := row.consistent
  have opened := open_directory_ok holds consistent (root_directory root)
  have looked := lookup_ok holds consistent root [97]
  have moving := read_node holds consistent (live_of here)
  have type := entry_file_type_ok consistent here
  have opened' := open_directory_ok holds consistent (opens_directory root here)
  have above := lookup_ok holds consistent here DOTDOT
  rw [named_dotdot, okOr_some] at above
  have dir : Inode.is_directory (v.slot ROOT_INODE) = true := (types_of_node (consistent.sound root).backed).1
  have dst : destination fs (v.slot 11) DOTDOT 11 (Inode.is_directory (v.slot 11)) = .error (.err (.AlreadyExists DOTDOT)) := by
    rw [destination, above, catchErr_ok, res_bind_ok]
    dsimp only
    rw [if_neg (by decide), read_node holds consistent (live_of root), res_bind_ok, dir]
    rfl
  have old_split : split_path [SLASH, 97] = .ok ([SLASH], [97]) := rfl
  have new_split : split_path [SLASH, 97, SLASH, 46, 46] = .ok ([SLASH, 97], DOTDOT) := rfl
  have found : lookup fs (v.slot ROOT_INODE) [97] = .ok 11 := looked
  have failed : (rename [SLASH, 97] [SLASH, 97, SLASH, 46, 46]).run fs = .err (.AlreadyExists DOTDOT) fs := by
    simp only [rename, run_bind, run_lift, old_split, new_split, ofRes_ok, andThen_ok, run_reads, opened, found,
      ensure_of (show (11 : UInt32) ≠ ROOT_INODE by decide), moving, type, opened', dst, ofRes_err, andThen_err]
  have harmless : ¬ Lossy fs [SLASH, 97] [SLASH, 97, SLASH, 46, 46] := by
    rintro ⟨⟨_, _, _, _, _, _, _, _, _, _, _, split, split', first, source, -, read, second, target⟩, -⟩
    cases old_split.symm.trans split
    cases new_split.symm.trans split'
    cases opened.symm.trans first
    cases found.symm.trans source
    cases moving.symm.trans read
    cases opened'.symm.trans second
    cases dst.symm.trans target
  have lets : Admissible (fresh Config.default defaultLayout) (.mkdir [SLASH, 97]) := trivial
  have reached : Reached Config.default Admissible fs := ⟨_, default_opened, .single (.returns lets ran)⟩
  exact ⟨fs, ran, failed, (failed_rename (fun _ => by decide) reached failed).2.mpr harmless⟩
end

/-! ### A rename that loses its destination -/

/-- The result is not an error of input or output. -/
def Calm {α : Type} (r : Res Ext4Error α) : Prop := r ≠ .error (.err .Io)

section
variable {α β : Type} {e : Ext4Error}

theorem calm_bind {x : Res Ext4Error α} {f : α → Res Ext4Error β} (first : Calm x) (then_ : ∀ a, Calm (f a)) :
    Calm (x >>= f) := by
  intro stopped
  rcases res_bind_eq_error.mp stopped with early | ⟨a, -, late⟩
  · exact first early
  · exact then_ a late
theorem calm_liftErr {ε : Type} (f : ε → Ext4Error) (other : ∀ e, f e ≠ .Io) (r : Res ε α) : Calm (liftErr f r) := by
  cases r with
  | ok a => simp [Calm]
  | error fault => cases fault <;> simp [Calm, other]
theorem calm_okOr (other : e ≠ .Io) (o : Option α) : Calm (okOr o e) := by cases o <;> simp [Calm, other]
theorem calm_ensure (other : e ≠ .Io) (c : Bool) : Calm (ensure c e) := by cases c <;> simp [Calm, other]
theorem calm_orPanic (c : Bool) : Calm (orPanic c) := by cases c <;> simp [Calm]
end

/-- Entering a name in a block is no input or output. -/
theorem insert_entry_calm (buf : Bytes) (name : List UInt8) (child : UInt32) (code : UInt8) :
    Calm (insert_entry buf name child code) := by
  refine calm_bind (calm_liftErr _ (by simp) _) fun visited => ?_
  refine calm_bind (calm_okOr (by simp) _) fun ⟨last_offset, last⟩ => ?_
  refine calm_bind (calm_orPanic _) fun _ => ?_
  refine calm_bind (calm_ensure (by simp) _) fun _ => ?_
  refine calm_bind (calm_liftErr _ (by simp) _) fun block_buf => ?_
  refine calm_bind (calm_orPanic _) fun _ => ?_
  exact calm_liftErr _ (by simp) _

section
variable {g : Geometry} {v : Volume} {N : NodeMap} {fs : Filesystem} {p p' m parent' : UInt32} {block' : Nat}
  {kids' : List Kid} {new_name : List UInt8}

/-- Without room for the new name a move fails, and not for input or output. -/
theorem move_full_calm (old_name : List UInt8) (holds : Holds g v fs) (consistent : Consistent g v N)
    (found' : N p' = some (.dir block' parent' kids')) (full : has_room (v.block block') new_name = false)
    (old_parent_inode src_inode : Inode) (code : UInt8) :
    ∃ e, (move_entry p p' old_parent_inode (v.slot p') old_name new_name m src_inode code).run fs = .err e fs ∧ e ≠ .Io := by
  have sound' := consistent.sound found'
  obtain ⟨e, refused⟩ := add_dir_entry_full holds (oneBlock sound') (DirBacked.lists sound'.backed) full m code
  refine ⟨e, by simp only [move_entry, run_bind, refused, andThen_err], ?_⟩
  rintro rfl
  simp only [add_dir_entry, run_bind, run_reads, first_block_ok holds (oneBlock sound'), ofRes_ok, andThen_ok, run_lift] at refused
  cases inserted : insert_entry (v.block block') new_name m code with
  | ok bytes =>
    rw [inserted] at refused
    cases refused
  | error fault =>
    rw [inserted] at refused
    cases fault with
    | err e =>
      cases refused
      exact insert_entry_calm _ _ _ _ inserted
    | panic => cases refused

variable {old_path new_path : List UInt8}

theorem lossy_calm (holds : Holds g v fs) (consistent : Consistent g v N) (lossy : Lossy fs old_path new_path)
    (fs' : Filesystem) : (rename old_path new_path).run fs ≠ .err .Io fs' := by
  obtain ⟨aim, dst, not_last, not_roomy⟩ := lossy
  obtain ⟨p, block, parent, kids, m, x, p', block', parent', kids', aimed⟩ := aimed holds consistent aim
  rw [rename_aim aim (aimed.src_inode ▸ entry_file_type_ok consistent aimed.here)]
  rcases aimed_destination holds consistent aimed with ⟨other, -⟩ | ⟨other, -⟩ | ⟨k, y, -, taken, other, there, file, file'⟩
  · rw [dst] at other
    cases other
  · rw [dst] at other
    cases other
  rcases replaced_run holds consistent aimed dst taken other there file file' with
    ⟨panicked, -⟩ | ⟨fs₁, v₁, kids₁, holds₁, pruned, -, route, ran⟩
  · rw [panicked]
    intro failed
    cases failed
  rw [aimed.inode', ends_iff holds consistent aimed.directory'.found, Bool.not_eq_true] at not_last
  rw [aimed.inode', roomy_iff holds consistent aimed.directory'.found, Bool.not_eq_true] at not_roomy
  have full := pruned.room
  rw [not_last, not_roomy, Bool.or_false] at full
  obtain ⟨e, refused, calm⟩ := move_full_calm aim.old_name holds₁ pruned.consistent route.found' full (v₁.slot p) (v₁.slot m)
    x.code
  rw [ran, refused]
  rintro failed
  cases failed
  exact calm rfl

/-- A rename that loses its destination fails, and something has changed. -/
theorem lossy_fails (holds : Holds g v fs) (consistent : Consistent g v N) (modest : Modest g v)
    (lossy : Lossy fs old_path new_path) :
    ∃ e fs', (rename old_path new_path).run fs = .err e fs' ∧ e ≠ .Io ∧ ¬ Survives fs fs' old_path new_path := by
  have calm := lossy_calm holds consistent lossy
  have sane : ¬ Astray fs old_path new_path := by
    rintro ⟨aim, free, -⟩
    obtain ⟨aim', replaced, -⟩ := lossy
    rw [aim.unique aim', replaced] at free
    cases free
  have ended := rename_ends holds consistent old_path new_path sane
  generalize (rename old_path new_path).run fs = result at ended calm
  cases ended with
  | refused harmless => exact absurd lossy harmless
  | panicked immodest => exact absurd modest immodest
  | same aim source =>
    obtain ⟨aim', replaced, -⟩ := lossy
    rw [aim.unique aim', replaced] at source
    cases source
  | @lost e fs' _ _ _ _ _ _ _ _ _ _ _ split directory holds' pruned =>
    refine ⟨e, fs', rfl, ?_, lost_target holds consistent split directory holds' pruned⟩
    rintro rfl
    exact calm fs' rfl
  | moved harmless => exact absurd lossy harmless

/-- Two names of the root that are links make a rename that replaces one of them. -/
theorem replacing_aim {block : Nat} {parent k : UInt32} {kids : List Kid} {old_name new_name : List UInt8}
    (holds : Holds g v fs) (consistent : Consistent g v N) (root : N ROOT_INODE = some (.dir block parent kids))
    (proper : Proper old_name) (proper' : Proper new_name) (edge : named kids old_name = some m)
    (edge' : named kids new_name = some k) (other : k ≠ m) (here : N m = some .link) (there : N k = some .link) :
    ∃ aim : Aim fs (SLASH :: old_name) (SLASH :: new_name), aim.dst = .Replaced ∧
      aim.new_parent_inode = v.slot ROOT_INODE ∧ aim.new_name = new_name := by
  have opened := open_directory_ok holds consistent (root_directory root)
  have looked := lookup_ok holds consistent root old_name
  rw [named_listing _ proper.2.2.1 proper.2.2.2, edge, okOr_some] at looked
  have not_root : m ≠ ROOT_INODE := by
    rintro rfl
    rw [root] at here
    cases here
  have replaced : destination fs (v.slot ROOT_INODE) new_name m (Inode.is_directory (v.slot m)) = .ok .Replaced := by
    have edge'' : named (listing ROOT_INODE parent kids) new_name = some k := by
      rw [named_listing _ proper'.2.2.1 proper'.2.2.2, edge']
    have looked' := lookup_ok holds consistent root new_name
    rw [edge'', okOr_some] at looked'
    have source : Inode.is_directory (v.slot m) = false := (types_of_node (consistent.sound here).backed).1
    have target : Inode.is_directory (v.slot k) = false := (types_of_node (consistent.sound there).backed).1
    rw [destination, looked', catchErr_ok, res_bind_ok]
    dsimp only
    rw [if_neg other, read_node holds consistent (live_of there), res_bind_ok, target, source]
    rfl
  exact ⟨⟨_, _, _, _, _, _, _, _, _, _, _, split_root (component_of_proper proper), split_root (component_of_proper proper'),
    opened, looked, not_root, read_node holds consistent (live_of here), opened, replaced⟩, rfl, rfl, rfl⟩

/-- Renaming the last link of a full root onto an earlier one loses the earlier one. -/
theorem full_root_lossy {items : List (List UInt8 × UInt8)} {old_name new_name : List UInt8}
    (row : Row g (items ++ [(old_name, 7)]) 0 fs v N) (earlier : (new_name, 7) ∈ items) (proper : Proper old_name)
    (proper' : Proper new_name) (nodup : ((items ++ [(old_name, (7 : UInt8))]).map (·.1)).Nodup) :
    Lossy fs (SLASH :: old_name) (SLASH :: new_name) := by
  obtain ⟨block, root, room⟩ := row.root
  have consistent := row.consistent
  have distinct : old_name ≠ new_name := by
    rintro rfl
    rw [List.map_append, List.nodup_append] at nodup
    exact nodup.2.2 _ (List.mem_map_of_mem earlier) _ (List.mem_singleton.mpr rfl) rfl
  obtain ⟨m, edge, here⟩ := row.linked nodup (List.mem_append_right _ (List.mem_singleton.mpr rfl))
  obtain ⟨k, edge', there⟩ := row.linked nodup (List.mem_append_left _ earlier)
  have other : k ≠ m := by
    rintro rfl
    have same := consistent.linked.tree.once ((child_dir root old_name).trans edge) ((child_dir root new_name).trans edge')
    exact distinct same.2
  obtain ⟨aim, dst, inode, new⟩ := replacing_aim row.holds consistent root proper proper' edge edge' other here there
  refine ⟨aim, dst, ?_, ?_⟩
  · -- The last record is that of the entry that moves.
    rw [inode, new, ends_iff row.holds consistent root]
    obtain ⟨before, last, tiles, same⟩ := lists_snoc (DirBacked.lists (consistent.sound root).backed)
    rw [is_last_tiles tiles, beq_iff_eq]
    rw [lined_snoc, List.map_append, ← List.cons_append, ← List.cons_append] at same
    have ends := List.append_inj_right' same rfl
    have named : last.name = old_name := congrArg Kid.name (List.singleton_inj.mp ends)
    rw [named]
    exact distinct
  · rw [inode, new, roomy_iff row.holds consistent root, has_room_eq, room, decide_eq_true_eq]
    have long := DirEntry.pad4_ge (8 + new_name.length)
    omega
end

/-- Sixteen blocks of 2 KiB. -/
def narrowConfig : Config := { Config.default with block_size := 2048 }
def narrowLayout : Layout := ⟨2048, 4, 4, 8, 9⟩
/-- Names whose entries fill a directory of one such block. -/
def fillers : List (List UInt8) :=
  (List.range 7).map (fun i => List.replicate 254 120 ++ [.ofNat (48 + i)])
def lastName : List UInt8 := List.replicate 156 122

/-- Renaming a file onto another one in a full directory fails when the other
    one is gone. -/
theorem full_rename_loses : ∃ fs, after (links (Bytes.ofList [116]) ([97] :: fillers ++ [lastName])) (fresh narrowConfig narrowLayout) =
    some fs ∧ ∃ e fs', (rename (SLASH :: lastName) [SLASH, 97]).run fs = .err e fs' ∧ e ≠ .Io ∧
      ¬ Survives fs fs' (SLASH :: lastName) [SLASH, 97] := by
  have small : Small narrowConfig := ⟨.inl rfl, by decide, by decide⟩
  obtain ⟨g, v, whole, -, -, row⟩ := fresh_row small (show Layout.from_config narrowConfig = .ok narrowLayout from rfl)
  have numbers : g.per_group = 32 := whole.per_group
  have each : ∀ name ∈ [97] :: fillers ++ [lastName], Proper name ∧ name.length ≤ 255 := by
    decide +kernel
  have nodup : ([97] :: fillers ++ [lastName]).Nodup := by decide +kernel
  have room : taken ([97] :: fillers ++ [lastName]) = narrowConfig.block_size.toNat - 24 := by decide +kernel
  obtain ⟨fs, v', N', ran, full⟩ := row.links whole (show (Bytes.ofList [116]).size ≠ 0 by decide) (by decide) (by
    rw [numbers]; decide) each nodup (Nat.le_of_eq room)
  rw [room, Nat.sub_self, List.map_append, List.nil_append] at full
  refine ⟨fs, ran, lossy_fails full.holds full.consistent (modest whole full.counted) ?_⟩
  refine full_root_lossy full (by simp) (each lastName (by simp)).1 (each [97] (by simp)).1 ?_
  simpa [Function.comp_def] using nodup

end Justext4.Failures
