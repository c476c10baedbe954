import Mathlib.Logic.Relation
import Justext4.Change
import Justext4.Create
import Justext4.Rename
import Justext4.Start

/-!
Runs of calls. A call that is let through leaves a volume that backs a tree,
whether it returns or fails; so does every run of such calls on a fresh image.
What is not let through are files whose length does not fit an extent, the
removal of a directory by its own `.`, and moves of the dots or of a directory
beneath itself.
-/
namespace Justext4.Calls
open Justext4 Justext4.Fallible Justext4.Filesystem Justext4.Volumes Justext4.Mkfs
open Justext4.Nodes
open Justext4.Backing
open Justext4.Counts
open Justext4.Leaves
open Justext4.Allocation
open Justext4.Create
open Justext4.Remove
open Justext4.Rename
open Justext4.Change
open Justext4.Start
open Justext4.Formatted (laid_of_format accepted_of_layout)

/-- The calls that change a filesystem. -/
inductive Request where
  | create_file (path : List UInt8) (data : Bytes)
  | mkdir (path : List UInt8)
  | symlink (link_path : List UInt8) (target : Bytes)
  | unlink (path : List UInt8)
  | rmdir (path : List UInt8)
  | rename (old_path new_path : List UInt8)
  | truncate (path : List UInt8) (new_size : UInt64)
  | chmod (path : List UInt8) (mode : UInt16)
  | chown (path : List UInt8) (uid gid : UInt32)
  | utime (path : List UInt8) (atime mtime : UInt32)
  deriving DecidableEq

/-- A call that returns nothing. -/
def silent (call : Call Unit) : Call (Option UInt32) := do
  call
  pure none
/-- A call that returns the number of a new inode. -/
def numbered (call : Call UInt32) : Call (Option UInt32) := do
  let inode_num ← call
  pure (some inode_num)

def execute : Request → Call (Option UInt32)
  | .create_file path data => numbered (create_file path data)
  | .mkdir path => numbered (mkdir path)
  | .symlink link_path target => numbered (symlink link_path target)
  | .unlink path => silent (unlink path)
  | .rmdir path => silent (rmdir path)
  | .rename old_path new_path => silent (rename old_path new_path)
  | .truncate path new_size => silent (Filesystem.truncate path new_size)
  | .chmod path mode => silent (chmod path mode)
  | .chown path uid gid => silent (chown path uid gid)
  | .utime path atime mtime => silent (utime path atime mtime)

/-- The calls that are let through. -/
def Admissible (fs : Filesystem) : Request → Prop
  | .create_file _ data =>
    Storable fs.superblock.block_size.toNat (div_ceil data.size fs.superblock.block_size.toNat)
  | .rmdir path => ∀ parent_path name, split_path path = .ok (parent_path, name) → name ≠ DOT
  | .rename old_path new_path => ¬ Astray fs old_path new_path
  | _ => True

/-- The call ends in `flush_metadata` when it returns. -/
def Flushes (fs : Filesystem) : Request → Prop
  | .truncate path new_size => Resizes fs path new_size
  | .rename old_path new_path => ∀ aim : Aim fs old_path new_path, aim.dst ≠ .Source
  | .chmod .. | .chown .. | .utime .. => False
  | _ => True

/-- What every call leaves behind. -/
structure Carried (g : Geometry) (v : Volume) (N : NodeMap) (fs' : Filesystem) (v' : Volume) (N' : NodeMap) : Prop where
  holds : Holds g v' fs'
  consistent : Consistent g v' N'
  counted : Counted g v (dirs g N) → Counted g v' (dirs g N')

inductive Outcome (g : Geometry) (v : Volume) (N : NodeMap) (flushes : Prop) :
    Ended Filesystem Ext4Error (Option UInt32) → Prop
  | panicked (immodest : ¬ Modest g v) : Outcome g v N flushes .panic
  | failed {e : Ext4Error} {fs' : Filesystem} {v' : Volume} {N' : NodeMap} (carried : Carried g v N fs' v' N') :
      Outcome g v N flushes (.err e fs')
  | done {answer : Option UInt32} {fs' : Filesystem} {v' : Volume} {N' : NodeMap} (carried : Carried g v N fs' v' N')
      (tight : Tight g v N → Tight g v' N') (written : flushes → WrittenOut g fs') :
      Outcome g v N flushes (.ok answer fs')

section
variable {g : Geometry} {v : Volume} {N : NodeMap} {fs : Filesystem} {path old_path new_path : List UInt8} {flushes : Prop}

theorem carried_refl (holds : Holds g v fs) (consistent : Consistent g v N) : Carried g v N fs v N :=
  ⟨holds, consistent, fun counted => counted⟩
theorem carried_pruned {fs' : Filesystem} {v' : Volume} {N' : NodeMap} {p n : UInt32} {block : Nat} {parent : UInt32}
    {kids : List DirBlock.Kid} {name : List UInt8} {x : Node} (holds : Holds g v' fs')
    (pruned : Pruned g v v' N N' p block parent kids name n x) : Carried g v N fs' v' N' :=
  ⟨holds, pruned.consistent, pruned.counted⟩

theorem outcome_creation (holds : Holds g v fs) (consistent : Consistent g v N) {refusal : Prop} {count : Nat}
    {new : Volume → UInt32 → Node → Prop} {call : Call UInt32}
    (ended : Creation g v N fs path refusal count new (call.run fs)) :
    Outcome g v N flushes ((numbered call).run fs) := by
  simp only [numbered, run_bind]
  generalize call.run fs = result at ended
  cases ended with
  | refused => exact .failed (carried_refl holds consistent)
  | panicked immodest => exact .panicked immodest
  | wasted holds' wasted => exact .failed ⟨holds', consistent.spared wasted.spared, wasted.counted _⟩
  | made holds' written grown =>
    exact .done ⟨holds', grown.consistent, grown.counted⟩ grown.tight fun _ => written
theorem outcome_removal (holds : Holds g v fs) (consistent : Consistent g v N) {kind : Node → Prop} {call : Call Unit}
    (ended : Removal g v N fs path kind (call.run fs)) : Outcome g v N flushes ((silent call).run fs) := by
  simp only [silent, run_bind]
  generalize call.run fs = result at ended
  cases ended with
  | refused => exact .failed (carried_refl holds consistent)
  | panicked immodest => exact .panicked immodest
  | removed _ _ holds' written pruned => exact .done (carried_pruned holds' pruned) pruned.tight fun _ => written
theorem outcome_renaming (holds : Holds g v fs) (consistent : Consistent g v N) {call : Call Unit}
    (ended : Renaming g v N fs old_path new_path (call.run fs)) :
    Outcome g v N (∀ aim : Aim fs old_path new_path, aim.dst ≠ .Source) ((silent call).run fs) := by
  simp only [silent, run_bind]
  generalize call.run fs = result at ended
  cases ended with
  | refused => exact .failed (carried_refl holds consistent)
  | panicked immodest => exact .panicked immodest
  | same aim source =>
    exact .done (carried_refl holds consistent) (fun tight => tight) fun flushes => absurd source (flushes aim)
  | lost _ _ _ holds' pruned => exact .failed (carried_pruned holds' pruned)
  | moved _ _ _ _ _ _ _ cleared holds' written relocated =>
    cases cleared with
    | free => exact .done ⟨holds', relocated.consistent, relocated.counted⟩ relocated.tight fun _ => written
    | replaced _ _ _ pruned =>
      exact .done ⟨holds', relocated.consistent, fun old => relocated.counted (pruned.counted old)⟩
        (fun old => relocated.tight (pruned.tight old)) fun _ => written
theorem outcome_changing (holds : Holds g v fs) (consistent : Consistent g v N) {refusal : Prop}
    {effect : UInt32 → Volume → NodeMap → Prop} {call : Call Unit}
    (ended : Changing g v N fs refusal flushes effect (call.run fs)) : Outcome g v N flushes ((silent call).run fs) := by
  simp only [silent, run_bind]
  generalize call.run fs = result at ended
  cases ended with
  | refused => exact .failed (carried_refl holds consistent)
  | panicked immodest => exact .panicked immodest
  | same quiet => exact .done (carried_refl holds consistent) (fun tight => tight) fun flushes => absurd flushes quiet
  | changed holds' written consistent' counted tight => exact .done ⟨holds', consistent', counted⟩ tight written

/-- What one call preserves. -/
theorem execute_ends (holds : Holds g v fs) (consistent : Consistent g v N) {request : Request}
    (admissible : Admissible fs request) : Outcome g v N (Flushes fs request) ((execute request).run fs) := by
  cases request with
  | create_file path data =>
    rw [Admissible, holds.static'.block_size] at admissible
    exact outcome_creation holds consistent (create_file_ends holds consistent path admissible)
  | mkdir path => exact outcome_creation holds consistent (mkdir_ends holds consistent path)
  | symlink link_path target => exact outcome_creation holds consistent (symlink_ends holds consistent link_path target)
  | unlink path => exact outcome_removal holds consistent (unlink_ends holds consistent path)
  | rmdir path => exact outcome_removal holds consistent (rmdir_ends holds consistent path admissible)
  | rename old_path new_path =>
    exact outcome_renaming holds consistent (rename_ends holds consistent old_path new_path admissible)
  | truncate path new_size => exact outcome_changing holds consistent (truncate_ends holds consistent path new_size)
  | chmod path mode => exact outcome_changing holds consistent (chmod_ends holds consistent path mode)
  | chown path uid gid => exact outcome_changing holds consistent (chown_ends holds consistent path uid gid)
  | utime path atime mtime => exact outcome_changing holds consistent (utime_ends holds consistent path atime mtime)
end

/-! ### Runs -/

/-- One call, whether it returns or fails. -/
inductive Step (allowed : Filesystem → Request → Prop) (fs : Filesystem) : Filesystem → Prop
  | returns {request : Request} {answer : Option UInt32} {fs' : Filesystem} (lets : allowed fs request)
      (ran : (execute request).run fs = .ok answer fs') : Step allowed fs fs'
  | fails {request : Request} {e : Ext4Error} {fs' : Filesystem} (lets : allowed fs request)
      (ran : (execute request).run fs = .err e fs') : Step allowed fs fs'
/-- One call that returns. -/
inductive Success (allowed : Filesystem → Request → Prop) (fs : Filesystem) : Filesystem → Prop
  | returns {request : Request} {answer : Option UInt32} {fs' : Filesystem} (lets : allowed fs request)
      (ran : (execute request).run fs = .ok answer fs') : Success allowed fs fs'

/-- The filesystem of a fresh image. -/
def Opened (config : Config) (fs : Filesystem) : Prop :=
  ∃ image, format (Bytes.zeros 0) config = .ok image ∧ open_image image = .ok fs
/-- A filesystem that calls have led to from a fresh image. -/
def Reached (config : Config) (allowed : Filesystem → Request → Prop) (fs : Filesystem) : Prop :=
  ∃ start, Opened config start ∧ Relation.ReflTransGen (Step allowed) start fs
/-- The same when every call has returned. -/
def ReachedOk (config : Config) (allowed : Filesystem → Request → Prop) (fs : Filesystem) : Prop :=
  ∃ start, Opened config start ∧ Relation.ReflTransGen (Success allowed) start fs

theorem ReachedOk.reached {config : Config} {allowed : Filesystem → Request → Prop} {fs : Filesystem}
    (reached : ReachedOk config allowed fs) : Reached config allowed fs := by
  obtain ⟨start, opened, run⟩ := reached
  refine ⟨start, opened, Relation.ReflTransGen.mono (fun _ _ success => ?_) _ _ run⟩
  obtain ⟨lets, ran⟩ := success
  exact .returns lets ran
theorem Reached.mono {config : Config} {allowed allowed' : Filesystem → Request → Prop} {fs : Filesystem}
    (reached : Reached config allowed fs) (wider : ∀ fs request, allowed fs request → allowed' fs request) :
    Reached config allowed' fs := by
  obtain ⟨start, opened, run⟩ := reached
  refine ⟨start, opened, Relation.ReflTransGen.mono (fun _ _ step => ?_) _ _ run⟩
  cases step with
  | returns lets ran => exact .returns (wider _ _ lets) ran
  | fails lets ran => exact .fails (wider _ _ lets) ran

/-! ### What holds in every state reached -/

/-- The descriptor table stays within its block. -/
def Contained (config : Config) : Prop :=
  config.block_size.toNat ≠ 1024 → 32 * groups config ≤ config.block_size.toNat

theorem usable_of_opened {config : Config} {fs : Filesystem} (contained : Contained config) (opened : Opened config fs) :
    ∃ layout, Usable config layout := by
  obtain ⟨image, ran, -⟩ := opened
  obtain ⟨layout, laid, covered⟩ := laid_of_format ran
  exact ⟨layout, laid, covered, contained⟩
/-- A fresh image opens to one filesystem only. -/
theorem Opened.unique {config : Config} {a b : Filesystem} (first : Opened config a) (second : Opened config b) :
    a = b := by
  obtain ⟨image, ran, opened⟩ := first
  obtain ⟨image', ran', opened'⟩ := second
  cases ran.symm.trans ran'
  cases opened.symm.trans opened'
  rfl

/-- The filesystem holds a volume that backs a tree. -/
def Backs (g : Geometry) (fs : Filesystem) : Prop := ∃ v N, Holds g v fs ∧ Consistent g v N
/-- The same, and the counts in memory are right. -/
def BacksCounted (g : Geometry) (fs : Filesystem) : Prop :=
  ∃ v N, Holds g v fs ∧ Consistent g v N ∧ Counted g v (dirs g N)
/-- The same, and every bit that is set is accounted for. -/
def BacksTight (g : Geometry) (fs : Filesystem) : Prop :=
  ∃ v N, Holds g v fs ∧ Consistent g v N ∧ Counted g v (dirs g N) ∧ Tight g v N

section
variable {g : Geometry} {fs fs' : Filesystem}

/-- What one call leaves, whether it returns or fails. -/
theorem step_carried {v : Volume} {N : NodeMap} (holds : Holds g v fs) (consistent : Consistent g v N)
    (moved : Step Admissible fs fs') : ∃ v' N', Carried g v N fs' v' N' := by
  cases moved with
  | returns lets ran =>
    have ended := execute_ends holds consistent lets
    rw [ran] at ended
    cases ended with
    | done carried => exact ⟨_, _, carried⟩
  | fails lets ran =>
    have ended := execute_ends holds consistent lets
    rw [ran] at ended
    cases ended with
    | failed carried => exact ⟨_, _, carried⟩
theorem backs_step (backs : Backs g fs) (moved : Step Admissible fs fs') : Backs g fs' := by
  obtain ⟨v, N, holds, consistent⟩ := backs
  obtain ⟨v', N', carried⟩ := step_carried holds consistent moved
  exact ⟨v', N', carried.holds, carried.consistent⟩
theorem backsCounted_step (backs : BacksCounted g fs) (moved : Step Admissible fs fs') : BacksCounted g fs' := by
  obtain ⟨v, N, holds, consistent, counted⟩ := backs
  obtain ⟨v', N', carried⟩ := step_carried holds consistent moved
  exact ⟨v', N', carried.holds, carried.consistent, carried.counted counted⟩
theorem backsTight_step (backs : BacksTight g fs) (moved : Success Admissible fs fs') : BacksTight g fs' := by
  obtain ⟨v, N, holds, consistent, counted, tight⟩ := backs
  obtain ⟨lets, ran⟩ := moved
  have ended := execute_ends holds consistent lets
  rw [ran] at ended
  cases ended with
  | done carried tight' => exact ⟨_, _, carried.holds, carried.consistent, carried.counted counted, tight' tight⟩

/-- What every step keeps holds at the end of a run. -/
theorem run_keeps {step : Filesystem → Filesystem → Prop} {kept : Filesystem → Prop}
    (keeps : ∀ {a b}, kept a → step a b → kept b) (run : Relation.ReflTransGen step fs fs') (start : kept fs) : kept fs' := by
  induction run with
  | refl => exact start
  | tail _ last ih => exact keeps ih last
end

/-- Every state reached by calls that are let through backs a tree. -/
theorem reached_backs {config : Config} {fs : Filesystem} (contained : Contained config)
    (reached : Reached config Admissible fs) : ∃ layout g, Layout.from_config config = .ok layout ∧
      Fitting config layout g ∧ Backs g fs := by
  obtain ⟨start, opened, run⟩ := reached
  obtain ⟨layout, usable⟩ := usable_of_opened contained opened
  obtain ⟨image, fs₀, g, ran, opened₀, fitting, holds, consistent⟩ := start_ok usable
  rw [← opened.unique ⟨image, ran, opened₀⟩] at holds consistent
  exact ⟨layout, g, usable.laid, fitting, run_keeps backs_step run ⟨_, _, holds, consistent⟩⟩

/-- The configurations whose bitmaps cover the image, in blocks of two or four
    kilobytes. -/
structure Small (config : Config) : Prop where
  size : config.block_size.toNat = 2048 ∨ config.block_size.toNat = 4096
  blocks : config.size_blocks.toNat ≤ 8 * config.block_size.toNat
  inodes : config.inodes_per_group.toNat ≤ 8 * config.block_size.toNat

/-- The geometry of such an image. -/
structure Whole (config : Config) (g : Geometry) : Prop where
  known : g.block_size = 2048 ∨ g.block_size = 4096
  block_size : g.block_size = config.block_size.toNat
  total : g.total = config.size_blocks.toNat
  per_group : g.per_group = config.inodes_per_group.toNat
  inodes : g.inodes = g.per_group
  groups : g.groups = 1
  blocks_fit : g.total ≤ 8 * g.block_size
  inodes_fit : g.per_group ≤ 8 * g.block_size
  laid : ∃ layout, Layout.from_config config = .ok layout ∧ g.root = layout.root_dir_block

theorem start_small {config : Config} {fs : Filesystem} (small : Small config) (opened : Opened config fs) :
    ∃ g, Whole config g ∧ BacksTight g fs := by
  obtain ⟨size, fewBlocks, fewInodes⟩ := small
  obtain ⟨image, ran, -⟩ := id opened
  obtain ⟨layout, laid, -⟩ := laid_of_format ran
  have covered : Covered config layout := ⟨laid, by omega, fewBlocks, fewInodes⟩
  obtain ⟨image, ran, opened', holds, consistent, counted, tight⟩ := start_short covered ⟨by omega, by omega⟩
  rw [← opened.unique ⟨image, ran, opened'⟩] at holds consistent counted tight
  refine ⟨largeGeometry covered.usable covered.large, ⟨size, rfl, rfl, rfl, rfl, one_group covered, fewBlocks, fewInodes,
    layout, laid, (accepted_of_layout laid).root.symm⟩, _, _, holds, consistent, ?_, tight⟩
  rw [dirs_rootOnly]
  exact counted
/-- In every state reached from such an image the counts are right. -/
theorem reached_counted {config : Config} {fs : Filesystem} (small : Small config)
    (reached : Reached config Admissible fs) : ∃ g, Whole config g ∧ BacksCounted g fs := by
  obtain ⟨start, opened, run⟩ := reached
  obtain ⟨g, whole, v, N, holds, consistent, counted, -⟩ := start_small small opened
  exact ⟨g, whole, run_keeps backsCounted_step run ⟨v, N, holds, consistent, counted⟩⟩
/-- Where no call has failed, every bit that is set is accounted for as well. -/
theorem reached_tight {config : Config} {fs : Filesystem} (small : Small config)
    (reached : ReachedOk config Admissible fs) : ∃ g, Whole config g ∧ BacksTight g fs := by
  obtain ⟨start, opened, run⟩ := reached
  obtain ⟨g, whole, backs⟩ := start_small small opened
  exact ⟨g, whole, run_keeps backsTight_step run backs⟩

/-- The image of a configuration, and the filesystem that it opens to. -/
def image_of (config : Config) : Bytes :=
  match format (Bytes.zeros 0) config with
  | .ok image => image
  | .error _ => Bytes.zeros 0
def fresh (config : Config) (layout : Layout) : Filesystem :=
  ⟨image_of config, superblock config layout, [descriptor config layout]⟩

theorem fresh_opened {config : Config} {layout : Layout} (small : Small config)
    (laid : Layout.from_config config = .ok layout) : Opened config (fresh config layout) := by
  obtain ⟨size, fewBlocks, fewInodes⟩ := small
  have covered : Covered config layout := ⟨laid, by omega, fewBlocks, fewInodes⟩
  obtain ⟨image, ran, opened, -⟩ := start_short covered ⟨by omega, by omega⟩
  have same : image_of config = image := by rw [image_of, ran]
  rw [← same] at ran opened
  exact ⟨_, ran, opened⟩
theorem Opened.reached {config : Config} {fs : Filesystem} (opened : Opened config fs)
    {allowed : Filesystem → Request → Prop} : Reached config allowed fs := ⟨fs, opened, .refl⟩
theorem Opened.reachedOk {config : Config} {fs : Filesystem} (opened : Opened config fs)
    {allowed : Filesystem → Request → Prop} : ReachedOk config allowed fs := ⟨fs, opened, .refl⟩

/-- The layout of the default configuration. -/
def defaultLayout : Layout := ⟨4096, 2, 4, 6, 7⟩
theorem default_small : Small Config.default := ⟨.inr rfl, by decide, by decide⟩
theorem default_opened : Opened Config.default (fresh Config.default defaultLayout) := fresh_opened default_small rfl

/-! ### Opening what has been written out -/

theorem narrow64 {n : UInt64} (small : n.toNat < 4294967296) : UInt64.ofNat (n.toNat % 4294967296) = n := by
  rw [Nat.mod_eq_of_lt small, UInt64.ofNat_toNat]
theorem narrow32 {n : UInt32} (small : n.toNat < 65536) : UInt32.ofNat (n.toNat % 65536) = n := by
  rw [Nat.mod_eq_of_lt small, UInt32.ofNat_toNat]

/-- An image to which the records in memory have been written opens to them. -/
theorem reopen_ok {config : Config} {g : Geometry} {v : Volume} {N : NodeMap} {fs : Filesystem} (whole : Whole config g)
    (holds : Holds g v fs) (counted : Counted g v (dirs g N)) (written : WrittenOut g fs) :
    open_image fs.reader = .ok fs := by
  have static := holds.static'
  have known := whole.known
  have groups := whole.groups
  have inodes := whole.inodes
  have blocks_fit := whole.blocks_fit
  have inodes_fit := whole.inodes_fit
  have root := g.root_inside
  have size := holds.size
  have two : 2 * g.block_size ≤ g.total * g.block_size := Nat.mul_le_mul_right _ (by omega)
  obtain ⟨⟨log, logged, superblock⟩, entries⟩ := written
  have freeBlocks := counted.blocks
  rw [← holds.superblock] at freeBlocks
  have fewBlocks := clearBits_le v.blockBit g.total
  have fewInodes := clearBits_le v.inodeBit g.per_group
  have fewDirs := dirs_le g N
  have nonzero : ∀ {n : UInt32} {k : Nat}, n.toNat = k → 0 < k → n ≠ 0 := by
    rintro n k same some rfl
    have zero : (0 : UInt32).toNat = 0 := rfl
    omega
  have sized : fs.superblock.inode_size ≠ 0 := by
    intro zero
    have inode_size := static.inode_size
    rw [zero] at inode_size
    cases inode_size
  have blocksPerGroup : fs.superblock.blocks_per_group ≠ 0 := by
    intro zero
    have count := static.group_count
    rw [Superblock.group_count, if_pos zero, groups] at count
    cases count
  have decoded : Superblock.decode (fs.reader.slice Superblock.SUPERBLOCK_OFFSET Superblock.SUPERBLOCK_SIZE) =
      .ok fs.superblock := by
    rw [show Superblock.SUPERBLOCK_SIZE = 1024 from rfl, superblock]
    exact Superblock.decode_image static.narrow logged (by rw [static.rev_level]; decide) sized
      (by rw [static.blocks_count]; have high := g.blocks_high; omega) (by omega)
  have first : fs.superblock.first_data_block.toNat = 0 := by rw [static.first_data_block]; rfl
  have offset : (fs.superblock.first_data_block.toNat + 1) * fs.superblock.block_size.toNat = g.block_size := by
    rw [first, static.block_size, Nat.zero_add, Nat.one_mul]
  have opened := open_image_ok _ (by omega) decoded blocksPerGroup
    (nonzero static.inodes_per_group (by have low := g.inodes_low; omega)) static.narrow
    (by rw [offset, static.group_count, groups]; omega)
  rw [opened, offset, static.group_count, groups, List.range'_one, List.map_singleton, Nat.zero_mul, Nat.add_zero]
  -- The one descriptor is read back, since its counts fit in 16 bits.
  obtain ⟨gd, found, blockBits, inodeBits, slots⟩ := static.group0
  obtain ⟨buf, -, bytes⟩ := entries 0 gd found
  rw [Nat.mul_zero, Nat.add_zero] at bytes
  obtain ⟨countedBlocks, countedInodes, countedDirs⟩ := counted.group gd (holds.gdt ▸ found)
  have same : GroupDescriptor.descriptorAt (fs.reader.slice g.block_size 32) = gd := by
    rw [bytes, GroupDescriptor.descriptorAt_image, narrow32 (by omega), narrow32 (by omega), narrow32 (by omega),
      narrow64 (by rw [blockBits]; decide), narrow64 (by rw [inodeBits]; decide), narrow64 (by rw [slots]; decide)]
  obtain ⟨head, only⟩ := List.length_eq_one_iff.mp (static.length.trans groups)
  rw [only] at found
  cases found
  rw [same, ← only]

end Justext4.Calls
