import Justext4.Create
import Justext4.Remove

/-!
Changing an inode in place. The calls that set the mode, the owner and the
times keep what the tree depends on; a truncation gives back the blocks behind
the new end of a file, or stays within the blocks it has.
-/
namespace Justext4.Change
open Justext4 Justext4.Fallible Justext4.Filesystem Justext4.Volumes Bytes
open Justext4.Inode (Inode S_IFMT)
open Justext4.DirBlock
open Justext4.Nodes
open Justext4.NamedTree
open Justext4.Paths
open Justext4.Backing
open Justext4.Reading
open Justext4.Counts
open Justext4.Leaves
open Justext4.Allocation
open Justext4.Create (large_of_listed)
open Justext4.Remove
open Justext4.Runs (runBlock run runs)

/-- The two records differ in nothing that backs a node. -/
structure Alike (a b : Inode) : Prop where
  mode : b.mode &&& S_IFMT = a.mode &&& S_IFMT
  flags : b.flags = a.flags
  size : b.size = a.size
  block : b.block = a.block
  links : b.links_count = a.links_count
  dtime : b.dtime = a.dtime

/-- A truncation to another size than the file has. -/
def Resizes (fs : Filesystem) (path : List UInt8) (new_size : UInt64) : Prop :=
  ∀ inode_num inode, open_path fs path = .ok inode_num → read_inode fs inode_num = .ok inode → new_size ≠ inode.size

/-- Nothing but one inode is another than before. -/
structure Touched (v v' : Volume) (N N' : NodeMap) (n : UInt32) : Prop where
  slots : ∀ m, m ≠ n → v'.slot m = v.slot m
  blocks : v'.block = v.block
  nodes : ∀ m, m ≠ n → N' m = N m
/-- The inode of a path keeps its size and its node. -/
def SameSize (fs : Filesystem) (path : List UInt8) (v : Volume) (N : NodeMap) (n : UInt32) (v' : Volume) (N' : NodeMap) :
    Prop := open_path fs path = .ok n ∧ N' = N ∧ (v'.slot n).size = (v.slot n).size
/-- The file of a path has another size, within the blocks it had. -/
def Resized (fs : Filesystem) (path : List UInt8) (new_size : UInt64) (N : NodeMap) (n : UInt32) (v' : Volume)
    (N' : NodeMap) : Prop :=
  open_path fs path = .ok n ∧ ∃ start count kept, N n = some (.file start count) ∧ N' n = some (.file start kept) ∧
    kept ≤ count ∧ (v'.slot n).size = new_size

/-- The path opens nothing. -/
def Nowhere (fs : Filesystem) (path : List UInt8) : Prop := ∀ n, open_path fs path ≠ .ok n
/-- The path opens no file whose blocks reach as far as the new size. -/
def Unfit (g : Geometry) (N : NodeMap) (fs : Filesystem) (path : List UInt8) (new_size : UInt64) : Prop :=
  ∀ n start count, open_path fs path = .ok n → N n = some (.file start count) → count * g.block_size < new_size.toNat

/-- How a call that changes an inode ends. -/
inductive Changing (g : Geometry) (v : Volume) (N : NodeMap) (fs : Filesystem) (refusal flushes : Prop)
    (effect : UInt32 → Volume → NodeMap → Prop) : Ended Filesystem Ext4Error Unit → Prop
  | refused {e : Ext4Error} (why : refusal) : Changing g v N fs refusal flushes effect (.err e fs)
  | panicked (immodest : ¬ Modest g v) : Changing g v N fs refusal flushes effect .panic
  | same {n : UInt32} (quiet : ¬ flushes) (done : effect n v N) : Changing g v N fs refusal flushes effect (.ok () fs)
  | changed {n : UInt32} {fs' : Filesystem} {v' : Volume} {N' : NodeMap} (holds : Holds g v' fs')
      (written : flushes → WrittenOut g fs') (consistent : Consistent g v' N')
      (counted : Counted g v (dirs g N) → Counted g v' (dirs g N')) (tight : Tight g v N → Tight g v' N')
      (touched : Touched v v' N N' n) (done : effect n v' N') : Changing g v N fs refusal flushes effect (.ok () fs')

section
variable {g : Geometry} {v v' : Volume} {N : NodeMap} {fs : Filesystem} {n m : UInt32} {x y : Node} {inode : Inode}

/-! ### The metadata of an inode -/

theorem Alike.backed (alike : Alike (v.slot n) inode) (backed : Backed g v n x) :
    Backed g (v.setSlot n inode) n x := by
  obtain ⟨mode, flags, size, block, links, dtime⟩ := alike
  have slot : (v.setSlot n inode).slot n = inode := if_pos rfl
  cases x with
  | dir b q ks =>
    obtain ⟨mode', flags', size', run, links', dtime', bytes, lists⟩ := backed
    exact ⟨by rw [slot, mode, mode'], by rw [slot, flags, flags'], by rw [slot, size, size'], by rw [slot, block, run],
      by rw [slot, links, links'], by rw [slot, dtime, dtime'], bytes, lists⟩
  | file start count =>
    obtain ⟨mode', flags', size', run, short, small, links', dtime'⟩ := backed
    exact ⟨by rw [slot, mode, mode'], by rw [slot, flags, flags'], by rw [slot, size, size'], by rw [slot, block, run],
      short, small, by rw [slot, links, links'], by rw [slot, dtime, dtime']⟩
  | link =>
    obtain ⟨mode', flags', size', links', dtime'⟩ := backed
    exact ⟨by rw [slot, mode, mode'], by rw [slot, flags, flags'], by rw [slot, size]; exact size', by rw [slot, links, links'],
      by rw [slot, dtime, dtime']⟩

/-- A slot may change to one that backs the same node. -/
theorem laid_setSlot (laid : Laid g v N) (here : N n = some x) (backed : Backed g (v.setSlot n inode) n x) :
    Laid g (v.setSlot n inode) N := by
  refine ⟨fun {m y} there => ?_, laid.apart, laid.reserved, laid.metadata, fun m low high inside unset => ?_⟩
  · by_cases same : m = n
    · subst same
      rw [here] at there
      cases there
      exact { laid.sound here with backed }
    · exact (laid.sound there).congr (if_neg same) (fun b owns => ⟨rfl, ((laid.sound there).owned b owns).2.2⟩)
        (laid.sound there).taken
  · have other : m ≠ n := by
      rintro rfl
      have taken : v.inodeBit (m.toNat - 1) = true := (laid.sound here).taken
      rw [show v.inodeBit (m.toNat - 1) = false from unset] at taken
      cases taken
    rw [show (v.setSlot n inode).slot m = v.slot m from if_neg other]
    exact laid.clear m low high inside unset
theorem Tight.setSlot (tight : Tight g v N) (n : UInt32) (inode : Inode) : Tight g (v.setSlot n inode) N :=
  ⟨tight.inodes, tight.blocks⟩

theorem touched_setSlot (n : UInt32) (inode : Inode) : Touched v (v.setSlot n inode) N N n :=
  ⟨fun _ other => if_neg other, rfl, fun _ _ => rfl⟩

/-- The inode that a path leads to is a node. -/
theorem open_node (holds : Holds g v fs) (consistent : Consistent g v N) (path : List UInt8) :
    (∃ e, open_path fs path = .error (.err e)) ∨
    ∃ n x, open_path fs path = .ok n ∧ N n = some x ∧ read_inode fs n = .ok (v.slot n) := by
  rcases open_path_walk holds consistent path with ⟨n, walked, opened⟩ | ⟨-, e, refused⟩
  case inr => exact .inl ⟨e, refused⟩
  have live := walk_step_live consistent consistent.linked.tree.root_live walked
  cases here : N n with
  | none => exact absurd here live
  | some x => exact .inr ⟨n, x, opened, here, read_node holds consistent live⟩

theorem Changing.mono {refusal flushes : Prop} {effect effect' : UInt32 → Volume → NodeMap → Prop}
    {r : Ended Filesystem Ext4Error Unit} (ended : Changing g v N fs refusal flushes effect r)
    (weaker : ∀ n v' N', effect n v' N' → effect' n v' N') : Changing g v N fs refusal flushes effect' r := by
  cases ended with
  | refused why => exact .refused why
  | panicked immodest => exact .panicked immodest
  | same quiet done => exact .same quiet (weaker _ _ _ done)
  | changed holds written consistent counted tight touched done =>
    exact .changed holds written consistent counted tight touched (weaker _ _ _ done)

theorem with_inode_mut_records (holds : Holds g v fs) (consistent : Consistent g v N) (path : List UInt8)
    {mutate : Inode → Inode} (alike : ∀ inode, Alike inode { mutate inode with ctime := METADATA_CTIME }) :
    Changing g v N fs (Nowhere fs path) False
      (fun n v' N' => SameSize fs path v N n v' N' ∧ v'.slot n = { mutate (v.slot n) with ctime := METADATA_CTIME })
      ((with_inode_mut path mutate).run fs) := by
  rcases open_node holds consistent path with ⟨e, refused⟩ | ⟨n, x, opened, here, read⟩
  · simp only [with_inode_mut, run_bind, run_reads, refused, ofRes_err, andThen_err]
    exact .refused fun n opened => by rw [refused] at opened; cases opened
  have sound := consistent.sound here
  obtain ⟨fs', written, holds'⟩ := write_inode_ok holds sound.low sound.listed
    { mutate (v.slot n) with ctime := METADATA_CTIME }
  simp only [with_inode_mut, run_bind, run_reads, opened, ofRes_ok, andThen_ok, read, written]
  exact .changed holds' False.elim
    ⟨laid_setSlot consistent.toLaid here ((alike (v.slot n)).backed sound.backed), consistent.linked⟩
    (fun old => old.setSlot n _) (fun old => Tight.setSlot old n _) (touched_setSlot n _)
    ⟨⟨opened, rfl, (congrArg Inode.size (if_pos rfl)).trans (alike (v.slot n)).size⟩, if_pos rfl⟩
theorem with_inode_mut_ends (holds : Holds g v fs) (consistent : Consistent g v N) (path : List UInt8)
    {mutate : Inode → Inode} (alike : ∀ inode, Alike inode { mutate inode with ctime := METADATA_CTIME }) :
    Changing g v N fs (Nowhere fs path) False (SameSize fs path v N) ((with_inode_mut path mutate).run fs) :=
  (with_inode_mut_records holds consistent path alike).mono fun _ _ _ done => done.1

/-- The type of an inode is in the bits that `chmod` keeps. -/
theorem mode_kept (old mode : UInt16) : ((old &&& 0xF000) ||| (mode &&& 0o7777)) &&& S_IFMT = old &&& S_IFMT := by
  have distributed : ∀ a b c : UInt16, (a ||| b) &&& c = (a &&& c) ||| (b &&& c) := fun a b c =>
    UInt16.eq_of_toBitVec_eq (by
      simp only [UInt16.toBitVec_and, UInt16.toBitVec_or]
      exact BitVec.and_or_distrib_right)
  have apart : (0o7777 : UInt16) &&& S_IFMT = 0 := by decide
  have whole : (0xF000 : UInt16) &&& S_IFMT = S_IFMT := by decide
  rw [distributed, UInt16.and_assoc, UInt16.and_assoc, apart, whole, UInt16.and_zero, UInt16.or_zero]

theorem chmod_ends (holds : Holds g v fs) (consistent : Consistent g v N) (path : List UInt8) (mode : UInt16) :
    Changing g v N fs (Nowhere fs path) False (SameSize fs path v N) ((chmod path mode).run fs) :=
  with_inode_mut_ends holds consistent path fun inode => ⟨mode_kept inode.mode mode, rfl, rfl, rfl, rfl, rfl⟩
theorem chown_ends (holds : Holds g v fs) (consistent : Consistent g v N) (path : List UInt8) (uid gid : UInt32) :
    Changing g v N fs (Nowhere fs path) False (SameSize fs path v N) ((chown path uid gid).run fs) :=
  with_inode_mut_ends holds consistent path fun _ => ⟨rfl, rfl, rfl, rfl, rfl, rfl⟩
theorem utime_ends (holds : Holds g v fs) (consistent : Consistent g v N) (path : List UInt8) (atime mtime : UInt32) :
    Changing g v N fs (Nowhere fs path) False (SameSize fs path v N) ((utime path atime mtime).run fs) :=
  with_inode_mut_ends holds consistent path fun _ => ⟨rfl, rfl, rfl, rfl, rfl, rfl⟩

/-! ### The size of a file -/

/-- A file with other blocks behind the same start. -/
def resized (count : Nat) : Node → Node
  | .file start _ => .file start count
  | x => x

theorem child_resized (N : NodeMap) (n : UInt32) (count : Nat) : child (modify N n (resized count)) = child N := by
  funext q a
  by_cases same : q = n
  · subst same
    cases found : N q with
    | none => simp [child, Nodes.modify, found]
    | some x => cases x <;> simp [child, Nodes.modify, found, resized]
  · simp only [child, modify_other _ same]
theorem resized_similar (count : Nat) (here : N m = some x) :
    ∃ y, modify N n (resized count) m = some y ∧ y.code = x.code ∧ y.parent = x.parent := by
  by_cases same : m = n
  · subst same
    exact ⟨_, modify_at here, by cases x <;> rfl, by cases x <;> rfl⟩
  · exact ⟨x, by rw [modify_other _ same, here], rfl, rfl⟩
theorem resized_dir {count block : Nat} {parent : UInt32} {kids : List Kid}
    (found : modify N n (resized count) m = some (.dir block parent kids)) : N m = some (.dir block parent kids) := by
  rcases modify_some found with ⟨-, old⟩ | ⟨rfl, y, old, shape⟩
  · exact old
  · cases y with
    | dir => cases shape; exact old
    | file => cases shape
    | link => cases shape
theorem linked_resized (linked : Linked N) (n : UInt32) (count : Nat) :
    Linked (modify N n (resized count)) := by
  refine ⟨?_, ?_, fun found => linked.names (resized_dir found), fun found => linked.proper (resized_dir found),
    fun found k member => (linked.kids (resized_dir found) k member).mono fun _ here => resized_similar _ here⟩
  · obtain ⟨block, kids, root⟩ := linked.root
    refine ⟨block, kids, ?_⟩
    by_cases same : ROOT_INODE = n
    · subst same
      exact modify_at root
    · rw [modify_other _ same, root]
  · rw [child_resized, live_modify]
    exact linked.tree
theorem dirs_resized (n : UInt32) (count : Nat) : dirs g (modify N n (resized count)) = dirs g N := by
  refine dirs_congr fun m => ?_
  cases here : N m with
  | none =>
    rw [Nodes.modify, here]
    split <;> rfl
  | some x =>
    obtain ⟨y, there, code, -⟩ := resized_similar (n := n) count here
    rw [there]
    exact congrArg some code

/-- The volume after a file has been cut. -/
def cut (v : Volume) (n : UInt32) (start count kept : Nat) (inode : Inode) : Volume :=
  (v.freeBlocks (start + kept) (count - kept)).setSlot n inode

section
variable {start count kept : Nat}

theorem cut_bit {b : Nat} : (cut v n start count kept inode).blockBit b = true ↔
    v.blockBit b = true ∧ ¬ (start + kept ≤ b ∧ b < start + kept + (count - kept)) := by
  simp only [cut, Volume.setSlot, Volume.freeBlocks, Bool.and_eq_true, Bool.not_eq_true', decide_eq_false_iff_not]
theorem owns_resized (here : N n = some (.file start count)) (le : kept ≤ count)
    (there : modify N n (resized kept) m = some y) : ∃ z, N m = some z ∧ (∀ b, y.Owns b → z.Owns b) ∧
      ∀ b, y.Owns b → ¬ (start + kept ≤ b ∧ b < start + kept + (count - kept)) ∨ m ≠ n := by
  rcases modify_some there with ⟨other, old⟩ | ⟨rfl, z, old, rfl⟩
  · exact ⟨y, old, fun b owns => owns, fun b _ => .inr other⟩
  · rw [here] at old
    cases old
    refine ⟨_, here, fun b owns => ?_, fun b owns => .inl ?_⟩
    · have inside : start ≤ b ∧ b < start + kept := owns
      exact ⟨inside.1, by omega⟩
    · have inside : start ≤ b ∧ b < start + kept := owns
      omega
theorem laid_cut (laid : Laid g v N) (here : N n = some (.file start count)) (le : kept ≤ count)
    (backed : FileBacked g (cut v n start count kept inode) n start kept) :
    Laid g (cut v n start count kept inode) (modify N n (resized kept)) := by
  have bit : ∀ {m z b}, N m = some z → z.Owns b → (¬ (start + kept ≤ b ∧ b < start + kept + (count - kept)) ∨ m ≠ n) →
      (cut v n start count kept inode).blockBit b = true := by
    intro m z b there owns apart
    have set := ((laid.sound there).owned b owns).2.2
    have outside : ¬ (start + kept ≤ b ∧ b < start + kept + (count - kept)) := by
      rcases apart with apart | other
      · exact apart
      · exact fun inside => laid.apart there here other b owns ⟨by omega, by omega⟩
    exact cut_bit.mpr ⟨set, outside⟩
  refine ⟨fun {m y} there => ?_, fun {m k y z} there there' distinct b owns owns' => ?_, laid.reserved, fun b low => ?_,
    fun m low high inside unset => ?_⟩
  · obtain ⟨z, old, wider, apart⟩ := owns_resized here le there
    have sound := laid.sound old
    have owned : ∀ b, y.Owns b → g.root ≤ b ∧ b < g.limit ∧ (cut v n start count kept inode).blockBit b = true :=
      fun b owns => ⟨(sound.owned b (wider b owns)).1, (sound.owned b (wider b owns)).2.1,
        bit old (wider b owns) (apart b owns)⟩
    refine ⟨sound.number, sound.listed, sound.covered, sound.taken, ?_, owned⟩
    rcases modify_some there with ⟨other, same⟩ | ⟨rfl, w, same, rfl⟩
    · rw [old] at same
      cases same
      exact sound.backed.congr (if_neg other) fun _ _ => rfl
    · rw [here] at same
      cases same
      exact backed
  · obtain ⟨y', old, wider, -⟩ := owns_resized here le there
    obtain ⟨z', old', wider', -⟩ := owns_resized here le there'
    exact laid.apart old old' distinct b (wider b owns) (wider' b owns')
  · have set := laid.metadata b low
    have outside : ¬ (start + kept ≤ b ∧ b < start + kept + (count - kept)) := by
      intro inside
      have high := ((laid.sound here).owned b ⟨by omega, by omega⟩).1
      omega
    exact cut_bit.mpr ⟨set, outside⟩
  · have other : m ≠ n := by
      rintro rfl
      have taken : v.inodeBit (m.toNat - 1) = true := (laid.sound here).taken
      rw [show v.inodeBit (m.toNat - 1) = false from unset] at taken
      cases taken
    rw [show (cut v n start count kept inode).slot m = v.slot m from if_neg other]
    exact laid.clear m low high inside unset
theorem tight_cut (tight : Tight g v N) (here : N n = some (.file start count)) (le : kept ≤ count) :
    Tight g (cut v n start count kept inode) (modify N n (resized kept)) := by
  refine ⟨fun i small set => ?_, fun b small set => ?_⟩
  · rw [live_modify]
    exact tight.inodes i small set
  · have split := cut_bit.mp set
    rcases tight.blocks b small split.1 with metadata | ⟨m, y, there, owns⟩
    · exact .inl metadata
    · refine .inr ?_
      by_cases same : m = n
      · subst same
        rw [here] at there
        cases there
        have inside : start ≤ b ∧ b < start + count := owns
        exact ⟨m, .file start kept, modify_at here, ⟨inside.1, by omega⟩⟩
      · exact ⟨m, y, by rw [modify_other _ same, there], owns⟩

/-! ### Truncation -/

theorem total_runs {start count : Nat} (short : count ≤ 32768) : total_len (runs start count) = count := by
  by_cases some : 0 < count
  · rw [runs, if_pos some, total_len]
    show (UInt16.ofNat count).toNat + 0 = count
    rw [toNat_ofNat16 (by omega), Nat.add_zero]
  · rw [runs, if_neg some, show count = 0 by omega]
    rfl
theorem leaf_extents_ok (backed : FileBacked g v n start count) (detail : String) :
    leaf_extents (v.slot n) detail = .ok (runs start count) := by
  obtain ⟨h, decoded⟩ := Runs.decode_runs count backed.short backed.small
  rw [leaf_extents, backed.run, decoded, liftErr_ok, res_bind_ok]
theorem div_ceil_mono {a b : Nat} (le : a ≤ b) (d : Nat) : div_ceil a d ≤ div_ceil b d :=
  Nat.div_le_div_right (by omega)
/-- A size within the same last block takes as many blocks. -/
theorem div_ceil_between {a b d : Nat} (positive : 0 < d) (le : a ≤ b) (fits : b ≤ div_ceil a d * d) :
    div_ceil b d = div_ceil a d := by
  apply Nat.le_antisymm
  · have small : b + d - 1 < (div_ceil a d + 1) * d := by
      rw [Nat.add_mul]
      omega
    exact Nat.le_of_lt_succ ((Nat.div_lt_iff_lt_mul positive).mpr small)
  · exact div_ceil_mono le d

theorem cut_extents_ok (holds : Holds g v fs) (some : 0 < count) (le : kept ≤ count) (short : count ≤ 32768)
    (small : start < 281474976710656) (inside : start + count ≤ 8 * g.block_size) :
    ((cut_extents kept (runs start count)).run fs = .panic ∧ ¬ Modest g v) ∨
    ∃ fs', (cut_extents kept (runs start count)).run fs = .ok (runs start kept) fs' ∧
      Holds g (v.freeBlocks (start + kept) (count - kept)) fs' := by
  have length : (run start count).len.toNat = count := toNat_ofNat16 (by omega)
  have physical : (run start count).physical_block.toNat = start := by
    show (UInt64.ofNat start).toNat = start
    rw [UInt64.toNat_ofNat']
    omega
  have first : (run start count).logical_block.toNat = 0 := rfl
  have init : (run start count).uninit = false := rfl
  have one : runs start count = [run start count] := if_pos some
  rw [one]
  by_cases whole : count ≤ kept
  · have same : kept = count := by omega
    subst same
    refine .inr ⟨fs, ?_, ?_⟩
    · simp only [cut_extents, first, length, Nat.zero_add, Nat.le_refl, ↓reduceIte, run_bind, run_pure, andThen_ok, one]
    · rw [Nat.sub_self, freeBlocks_none]
      exact holds
  by_cases empty : kept = 0
  · subst empty
    rcases free_blocks_spec holds _ _ inside with ⟨panicked, immodest⟩ | ⟨fs', freed, holds'⟩
    · refine .inl ⟨?_, immodest⟩
      simp only [cut_extents, first, length, Nat.zero_add, whole, Nat.le_refl, ↓reduceIte, init, Bool.false_eq_true, physical,
        run_bind, panicked, andThen_panic]
    · refine .inr ⟨fs', ?_, holds'⟩
      simp only [cut_extents, first, length, Nat.zero_add, whole, Nat.le_refl, ↓reduceIte, init, Bool.false_eq_true, physical,
        run_bind, freed, andThen_ok, run_pure, runs, Nat.lt_irrefl]
  · have left : (kept - 0) % 65536 = kept := by omega
    have positive : 0 < kept := by omega
    rcases free_blocks_spec holds (start + kept) (count - kept) (by omega) with
      ⟨panicked, immodest⟩ | ⟨fs', freed, holds'⟩
    · refine .inl ⟨?_, immodest⟩
      simp only [cut_extents, first, length, Nat.zero_add, whole, Nat.le_zero, empty, ↓reduceIte, init, Bool.false_eq_true,
        physical, left, run_bind, panicked, andThen_panic]
    · refine .inr ⟨fs', ?_, holds'⟩
      simp only [cut_extents, first, length, Nat.zero_add, whole, Nat.le_zero, empty, ↓reduceIte, init, Bool.false_eq_true,
        physical, left, run_bind, freed, andThen_ok, run_pure, runs, positive]
      rfl
end

/-- The sectors of a file are those of its blocks, or are as they were, for as
    many blocks. -/
def Recharged (g : Geometry) (v : Volume) (N : NodeMap) (n : UInt32) (v' : Volume) (N' : NodeMap) : Prop :=
  ∀ start count, N' n = some (.file start count) → (v'.slot n).blocks_lo = .ofNat (count * g.block_size / 512) ∨
    (N n = some (.file start count) ∧ (v'.slot n).blocks_lo = (v.slot n).blocks_lo)

theorem truncate_records (holds : Holds g v fs) (consistent : Consistent g v N) (path : List UInt8) (new_size : UInt64) :
    Changing g v N fs (Unfit g N fs path new_size) (Resizes fs path new_size)
      (fun n v' N' => Resized fs path new_size N n v' N' ∧ Recharged g v N n v' N')
      ((Filesystem.truncate path new_size).run fs) := by
  rcases open_node holds consistent path with ⟨e, refused⟩ | ⟨n, x, opened, here, read⟩
  · simp only [Filesystem.truncate, run_bind, run_reads, refused, ofRes_err, andThen_err]
    exact .refused fun n start count opened => by rw [refused] at opened; cases opened
  have sound := consistent.sound here
  have type : Inode.is_regular (v.slot n) = (x.code == 1) := (types_of_node sound.backed).2.1
  have other : (x.code == 1) = false → Changing g v N fs (Unfit g N fs path new_size) (Resizes fs path new_size)
      (fun n v' N' => Resized fs path new_size N n v' N' ∧ Recharged g v N n v' N')
      ((Filesystem.truncate path new_size).run fs) := by
    intro different
    simp only [Filesystem.truncate, run_bind, run_reads, opened, ofRes_ok, andThen_ok, read, run_lift, type, different, ensure_false,
      ofRes_err, andThen_err]
    refine .refused fun m start count opened' there => ?_
    cases opened.symm.trans opened'
    cases here.symm.trans there
    cases different
  cases x with
  | dir => exact other rfl
  | link => exact other rfl
  | file start count =>
  have backed : FileBacked g v n start count := sound.backed
  have regular : ensure (Inode.is_regular (v.slot n)) (Ext4Error.NotARegularFile n) = .ok () := by
    rw [type]
    rfl
  have number : 11 ≤ n.toNat := by
    rcases sound.number with root | large
    · obtain ⟨_, _, dir⟩ := consistent.root
      rw [root, dir] at here
      cases here
    · exact large
  have large : 2048 ≤ g.block_size := large_of_listed number sound.listed
  have size : fs.superblock.block_size.toNat = g.block_size := holds.static'.block_size
  have extents : Inode.uses_extents (v.slot n) = true := by rw [Inode.uses_extents, backed.flags]; decide
  by_cases same : new_size = (v.slot n).size
  · subst same
    simp only [Filesystem.truncate, run_bind, run_reads, opened, ofRes_ok, andThen_ok, read, run_lift, regular, ↓reduceIte,
      run_pure]
    exact .same (fun resizes => resizes n _ opened read rfl)
      ⟨⟨opened, start, count, count, here, here, Nat.le_refl _, rfl⟩, fun _ _ there => .inr ⟨there, rfl⟩⟩
  by_cases grow : (v.slot n).size < new_size
  case pos =>
    have more : (v.slot n).size.toNat < new_size.toNat := UInt64.lt_iff_toNat_lt.mp grow
    have allocated : (if Inode.uses_extents (v.slot n) = true ∧ 0 < (v.slot n).size.toNat then do
          let extents ← leaf_extents (v.slot n) "truncate-grow on depth>0 extent tree not yet supported"
          .ok (total_len extents)
        else (.ok 0 : Res Ext4Error Nat)) = .ok count := by
      by_cases some : 0 < (v.slot n).size.toNat
      · rw [if_pos ⟨extents, some⟩, leaf_extents_ok backed, res_bind_ok, total_runs backed.short]
      · rw [if_neg fun both => some both.2, ← backed.size, show (v.slot n).size.toNat = 0 by omega, div_ceil_zero]
    by_cases fits : new_size.toNat ≤ count * g.block_size
    case neg =>
      simp only [Filesystem.truncate, run_bind, run_reads, opened, ofRes_ok, andThen_ok, read, run_lift, regular, same, ↓reduceIte, grow,
        size, allocated, ensure_not fits, ofRes_err, andThen_err]
      refine .refused fun m start' count' opened' there => ?_
      cases opened.symm.trans opened'
      cases here.symm.trans there
      exact Nat.lt_of_not_le fits
    obtain ⟨fs₁, written, holds₁⟩ := write_inode_ok holds sound.low sound.listed
      { v.slot n with size := new_size, mtime := 0x65000000, ctime := 0x65000000 }
    obtain ⟨fs₂, flushed, holds₂, out⟩ := flush_metadata_ok holds₁ large
    simp only [Filesystem.truncate, run_bind, run_reads, opened, ofRes_ok, andThen_ok, read, run_lift, regular, same, ↓reduceIte, grow,
      size, allocated, ensure_of fits, written, flushed]
    have slot : (v.setSlot n { v.slot n with size := new_size, mtime := 0x65000000, ctime := 0x65000000 }).slot n =
        { v.slot n with size := new_size, mtime := 0x65000000, ctime := 0x65000000 } := if_pos rfl
    have longer : div_ceil new_size.toNat g.block_size = count := by
      have whole := backed.size
      rw [← whole] at fits
      rw [← whole]
      exact div_ceil_between (by omega) (by omega) fits
    have backed' : FileBacked g (v.setSlot n { v.slot n with size := new_size, mtime := 0x65000000, ctime := 0x65000000 }) n
        start count :=
      ⟨by rw [slot]; exact backed.mode, by rw [slot]; exact backed.flags, by rw [slot]; exact longer,
        by rw [slot]; exact backed.run, backed.short, backed.small, by rw [slot]; exact backed.links,
        by rw [slot]; exact backed.dtime⟩
    exact .changed holds₂ (fun _ => out) ⟨laid_setSlot consistent.toLaid here backed', consistent.linked⟩
      (fun old => old.setSlot n _) (fun old => Tight.setSlot old n _) (touched_setSlot n _)
      ⟨⟨opened, start, count, count, here, here, Nat.le_refl _, congrArg Inode.size slot⟩,
        fun _ _ there => .inr ⟨there, (congrArg Inode.blocks_lo slot).trans rfl⟩⟩
  have less : new_size.toNat < (v.slot n).size.toNat := by
    have different : new_size.toNat ≠ (v.slot n).size.toNat := fun hit => same (UInt64.toNat_inj.mp hit)
    have notMore : ¬ (v.slot n).size.toNat < new_size.toNat := fun more => grow (UInt64.lt_iff_toNat_lt.mpr more)
    omega
  have some : 0 < count := by
    rw [← backed.size]
    exact Nat.div_pos (by omega) (by omega)
  have le : div_ceil new_size.toNat g.block_size ≤ count := by
    rw [← backed.size]
    exact div_ceil_mono (by omega) g.block_size
  have last := (sound.owned (start + count - 1) ⟨by omega, by omega⟩).2.1
  have bitmap := g.limit_bitmap
  have total := g.limit_total
  rcases cut_extents_ok holds some le backed.short backed.small (by omega) with
    ⟨panicked, immodest⟩ | ⟨fs₁, cutoff, holds₁⟩
  · simp only [Filesystem.truncate, run_bind, run_reads, opened, ofRes_ok, andThen_ok, read, run_lift, regular, same, ↓reduceIte, grow,
      size, extents, ensure_true, leaf_extents_ok backed, panicked, andThen_panic]
    exact .panicked immodest
  obtain ⟨fs₂, written, holds₂⟩ := write_inode_ok holds₁ sound.low sound.listed
    { v.slot n with
      size := new_size
      blocks_lo := .ofNat (total_len (runs start (div_ceil new_size.toNat g.block_size)) * g.block_size / 512)
      block := runBlock start (div_ceil new_size.toNat g.block_size), mtime := 0x65000000, ctime := 0x65000000 }
  obtain ⟨fs₃, flushed, holds₃, out⟩ := flush_metadata_ok holds₂ large
  have short := backed.short
  simp only [Filesystem.truncate, run_bind, run_reads, opened, ofRes_ok, andThen_ok, read, run_lift, regular, same, ↓reduceIte, grow,
    size, extents, ensure_true, leaf_extents_ok backed, cutoff, Runs.i_block_runs _ _ (Nat.le_trans le short), written, flushed]
  have linked := linked_resized consistent.linked n (div_ceil new_size.toNat g.block_size)
  refine .changed holds₃ (fun _ => out) ⟨laid_cut consistent.toLaid here le ?_, linked⟩ (fun old => ?_)
    (fun old => tight_cut old here le) ⟨fun m other => if_neg other, rfl, fun m other => modify_other _ other⟩
    ⟨⟨opened, start, count, _, here, modify_at here, le, congrArg Inode.size (if_pos rfl)⟩, fun a b there => .inl ?_⟩
  rotate_right
  · cases (modify_at here).symm.trans there
    exact (congrArg Inode.blocks_lo (if_pos rfl)).trans (by rw [total_runs (Nat.le_trans le short)])
  · have slot : ∀ inode, (cut v n start count (div_ceil new_size.toNat g.block_size) inode).slot n = inode := fun _ => if_pos rfl
    exact ⟨by rw [slot]; exact backed.mode, by rw [slot]; exact backed.flags, by rw [slot], by rw [slot],
      by omega, backed.small, by rw [slot]; exact backed.links, by rw [slot]; exact backed.dtime⟩
  · rw [dirs_resized]
    exact (old.freeBlocks (by omega) fun j low high => (sound.owned j ⟨by omega, by omega⟩).2.2).setSlot n _
theorem truncate_ends (holds : Holds g v fs) (consistent : Consistent g v N) (path : List UInt8) (new_size : UInt64) :
    Changing g v N fs (Unfit g N fs path new_size) (Resizes fs path new_size) (Resized fs path new_size N)
      ((Filesystem.truncate path new_size).run fs) :=
  (truncate_records holds consistent path new_size).mono fun _ _ _ done => done.1
end

end Justext4.Change
