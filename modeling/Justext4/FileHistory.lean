import Justext4.Invariants
import Justext4.Progress

/-!
What a file holds over a run of calls. A truncation moves the end of a file and
leaves its blocks as they are, so what is read afterwards is the first data of
the file up to the new end, with whatever had been cut off before.
-/
namespace Justext4.FileHistory
open Justext4 Justext4.Fallible Justext4.Filesystem Justext4.Volumes Justext4.Mkfs Bytes
open Justext4.DirBlock
open Justext4.NamedTree
open Justext4.Nodes
open Justext4.Backing
open Justext4.Counts
open Justext4.Allocation
open Justext4.Reading
open Justext4.Leaves
open Justext4.Create
open Justext4.Remove
open Justext4.Rename
open Justext4.Change
open Justext4.View
open Justext4.Calls

/-! ### Contents and sizes -/

/-- The contents with another size: cut off, or filled up with zeros. -/
def resize (contents : Bytes) (new_size : UInt64) : Bytes := contents.slice 0 new_size.toNat
/-- The contents after a list of sizes. -/
def contents_after (data : Bytes) (sizes : List UInt64) : Bytes := sizes.foldl resize data
/-- The last size of a file and the lowest one. -/
def last_size (data : Bytes) (sizes : List UInt64) : Nat := (sizes.getLast?.map (·.toNat)).getD data.size
def low_size (data : Bytes) (sizes : List UInt64) : Nat := sizes.foldl (fun low size => min low size.toNat) data.size

theorem last_snoc (data : Bytes) (sizes : List UInt64) (new_size : UInt64) :
    last_size data (sizes ++ [new_size]) = new_size.toNat := by simp [last_size]
theorem low_snoc (data : Bytes) (sizes : List UInt64) (new_size : UInt64) :
    low_size data (sizes ++ [new_size]) = min (low_size data sizes) new_size.toNat := by simp [low_size]
theorem after_snoc (data : Bytes) (sizes : List UInt64) (new_size : UInt64) :
    contents_after data (sizes ++ [new_size]) = (contents_after data sizes).slice 0 new_size.toNat := by
  simp [contents_after, resize]

theorem size_after (data : Bytes) (sizes : List UInt64) : (contents_after data sizes).size = last_size data sizes := by
  induction sizes using List.reverseRecOn with
  | nil => rfl
  | append_singleton sizes new_size => rw [after_snoc, last_snoc, size_slice]
/-- Behind the lowest size the contents are zeros. -/
theorem byte_after (data : Bytes) (sizes : List UInt64) (i : Nat) :
    (contents_after data sizes).byte i = if i < low_size data sizes then data.byte i else 0 := by
  induction sizes using List.reverseRecOn with
  | nil =>
    split
    · rfl
    · exact data.beyond i (by simpa [low_size] using ‹¬ i < low_size data []›)
  | append_singleton sizes new_size ih =>
    rw [after_snoc, low_snoc, byte_slice, Nat.zero_add, ih]
    by_cases inside : i < new_size.toNat
    · by_cases low : i < low_size data sizes
      · rw [if_pos inside, if_pos low, if_pos (by omega)]
      · rw [if_pos inside, if_neg low, if_neg (by omega)]
    · rw [if_neg inside, if_neg (by omega)]

/-- The data is zero from the lowest size to the last one. -/
def Blank (data : Bytes) (sizes : List UInt64) : Prop :=
  ∀ i, low_size data sizes ≤ i → i < last_size data sizes → data.byte i = 0

theorem blank_iff (data : Bytes) (sizes : List UInt64) :
    data.slice 0 (last_size data sizes) = contents_after data sizes ↔ Blank data sizes := by
  constructor
  · intro same i low inside
    have byte := congrArg (fun b : Bytes => b.byte i) same
    simp only [byte_after, byte_slice_of_lt _ inside, Nat.zero_add] at byte
    rw [byte, if_neg (by omega)]
  · intro blank
    apply ext_inside (by rw [size_slice, size_after])
    intro i inside
    rw [size_slice] at inside
    rw [byte_slice_of_lt _ inside, Nat.zero_add, byte_after]
    split
    · rfl
    · exact blank i (by omega) inside

/-! ### One call -/

section
variable {g : Geometry} {v v' : Volume} {N N' : NodeMap} {fs fs' : Filesystem} {n : UInt32} {start count : Nat}
  {path : List UInt8}

/-- The file is where it was and holds what it held. -/
structure Unmoved (v v' : Volume) (N' : NodeMap) (n : UInt32) (start count : Nat) : Prop where
  here : N' n = some (.file start count)
  size : (v'.slot n).size = (v.slot n).size
  blocks : ∀ b, start ≤ b → b < start + count → v'.block b = v.block b

/-- The file is unmoved where it has not been removed. -/
def Remains (g : Geometry) (v : Volume) (n : UInt32) (start count : Nat) (fs' : Filesystem) : Prop :=
  ∃ v' N', Holds g v' fs' ∧ Consistent g v' N' ∧ (Live N' n → Unmoved v v' N' n start count)

theorem remains_refl (holds : Holds g v fs) (consistent : Consistent g v N) (here : N n = some (.file start count)) :
    Remains g v n start count fs := ⟨v, N, holds, consistent, fun _ => ⟨here, rfl, fun _ _ _ => rfl⟩⟩
theorem Unmoved.of_same (here : N' n = some (.file start count)) (same : SameData v v' n (.file start count)) :
    Unmoved v v' N' n start count := ⟨here, congrArg Inode.Inode.size same.1, same.2⟩
theorem Unmoved.trans {v'' : Volume} {N'' : NodeMap} (first : Unmoved v v' N' n start count)
    (second : Unmoved v' v'' N'' n start count) : Unmoved v v'' N'' n start count :=
  ⟨second.here, second.size.trans first.size, fun b low high => (second.blocks b low high).trans (first.blocks b low high)⟩

/-- A change that leaves files alone leaves this one. -/
theorem modify_file {f : Node → Node} {p : UInt32} (fixed : f (.file start count) = .file start count)
    (here : N n = some (.file start count)) : modify N p f n = some (.file start count) := by
  by_cases same : n = p
  · subst same
    rw [modify_at here, fixed]
  · rw [modify_other _ same, here]

theorem unmoved_grown {m : UInt32} {x : Node} (here : N n = some (.file start count))
    (grown : Grown g v v' N N' path m x) : Unmoved v v' N' n start count := by
  obtain ⟨parent_path, name, p, block, parent, kids, place, nodes, -⟩ := grown.place
  refine .of_same ?_ (grown.kept here)
  have other : n ≠ m := by
    rintro rfl
    rw [grown.dead] at here
    cases here
  rw [nodes, withLeaf, Nodes.insert, if_neg other]
  exact modify_file rfl here
theorem unmoved_pruned {m p parent : UInt32} {block : Nat} {kids : List Kid} {name : List UInt8} {x : Node}
    (here : N n = some (.file start count)) (pruned : Pruned g v v' N N' p block parent kids name m x) (live : Live N' n) :
    Unmoved v v' N' n start count := by
  rw [pruned.nodes] at live
  have other := (withoutLeaf_live.mp live).2
  refine .of_same ?_ (pruned.kept here other)
  rw [pruned.nodes, withoutLeaf, erase, if_neg other]
  exact modify_file rfl here
theorem unmoved_relocated {m p p' : UInt32} {old_name new_name : List UInt8} {x : Node}
    (here : N n = some (.file start count)) (relocated : Relocated g v v' N N' p old_name p' new_name m x) :
    Unmoved v v' N' n start count := by
  refine .of_same ?_ (relocated.kept here)
  rw [relocated.nodes, moved]
  exact modify_file rfl (modify_file rfl (modify_file rfl here))

/-- What holds of the state that a call leaves. -/
def Leaving {α : Type} (Q : Filesystem → Prop) : Ended Filesystem Ext4Error α → Prop
  | .ok _ fs' => Q fs'
  | .err _ fs' => Q fs'
  | .panic => True

theorem leaving_numbered {Q : Filesystem → Prop} {call : Call UInt32} (leaving : Leaving Q (call.run fs)) :
    Leaving Q ((numbered call).run fs) := by
  rw [numbered, run_bind]
  cases ended : call.run fs <;> rw [ended] at leaving <;> exact leaving
theorem leaving_silent {Q : Filesystem → Prop} {call : Call Unit} (leaving : Leaving Q (call.run fs)) :
    Leaving Q ((silent call).run fs) := by
  rw [silent, run_bind]
  cases ended : call.run fs <;> rw [ended] at leaving <;> exact leaving

theorem remains_creation (holds : Holds g v fs) (consistent : Consistent g v N) (here : N n = some (.file start count))
    {refusal : Prop} {blocks : Nat} {new : Volume → UInt32 → Node → Prop} {ended : Ended Filesystem Ext4Error UInt32}
    (how : Creation g v N fs path refusal blocks new ended) : Leaving (Remains g v n start count) ended := by
  cases how with
  | refused => exact remains_refl holds consistent here
  | panicked => trivial
  | wasted holds' wasted =>
    exact ⟨_, N, holds', consistent.spared wasted.spared, fun _ => .of_same here (SameData.spared wasted.spared here)⟩
  | made holds' written grown => exact ⟨_, _, holds', grown.consistent, fun _ => unmoved_grown here grown⟩
theorem remains_removal (holds : Holds g v fs) (consistent : Consistent g v N) (here : N n = some (.file start count))
    {kind : Node → Prop} {ended : Ended Filesystem Ext4Error Unit} (how : Removal g v N fs path kind ended) :
    Leaving (Remains g v n start count) ended := by
  cases how with
  | refused => exact remains_refl holds consistent here
  | panicked => trivial
  | removed split directory holds' written pruned =>
    exact ⟨_, _, holds', pruned.consistent, fun live => unmoved_pruned here pruned live⟩
theorem remains_renaming (holds : Holds g v fs) (consistent : Consistent g v N) (here : N n = some (.file start count))
    {old_path new_path : List UInt8} {ended : Ended Filesystem Ext4Error Unit}
    (how : Renaming g v N fs old_path new_path ended) : Leaving (Remains g v n start count) ended := by
  cases how with
  | refused => exact remains_refl holds consistent here
  | panicked => trivial
  | same => exact remains_refl holds consistent here
  | lost lossy split directory holds' pruned =>
    exact ⟨_, _, holds', pruned.consistent, fun live => unmoved_pruned here pruned live⟩
  | @moved _ _ _ N₁ N' _ _ _ _ _ _ _ x harmless split split' walked walked' edge there cleared holds' written relocated =>
    refine ⟨_, _, holds', relocated.consistent, fun live => ?_⟩
    cases cleared with
    | free => exact unmoved_relocated here relocated
    | replaced other file file' pruned =>
      rw [relocated.nodes, live_moved] at live
      have first := unmoved_pruned here pruned live
      exact first.trans (unmoved_relocated first.here relocated)
/-- A change of another inode, or of what is not the size. -/
theorem remains_changing (holds : Holds g v fs) (consistent : Consistent g v N) (here : N n = some (.file start count))
    {refusal flushes : Prop} {effect : UInt32 → Volume → NodeMap → Prop} {ended : Ended Filesystem Ext4Error Unit}
    (how : Changing g v N fs refusal flushes effect ended)
    (aside : ∀ v' N', effect n v' N' → N' = N ∧ (v'.slot n).size = (v.slot n).size) :
    Leaving (Remains g v n start count) ended := by
  cases how with
  | refused => exact remains_refl holds consistent here
  | panicked => trivial
  | same => exact remains_refl holds consistent here
  | @changed m fs' v' N' holds' written consistent' counted tight touched done =>
    refine ⟨_, _, holds', consistent', fun live => ?_⟩
    by_cases same : n = m
    · subst same
      obtain ⟨rfl, size⟩ := aside _ _ done
      exact ⟨here, size, fun b _ _ => congrFun touched.blocks b⟩
    · exact ⟨(touched.nodes n same).trans here, congrArg Inode.Inode.size (touched.slots n same),
        fun b _ _ => congrFun touched.blocks b⟩

/-- The call is a truncation of this inode. -/
def Truncates (fs : Filesystem) (n : UInt32) (request : Request) : Prop :=
  ∃ path new_size, request = .truncate path new_size ∧ open_path fs path = .ok n

/-- Calls that do not truncate a file leave it alone or remove it. -/
theorem execute_remains (holds : Holds g v fs) (consistent : Consistent g v N) (here : N n = some (.file start count))
    {request : Request} (admissible : Admissible fs request) (aside : ¬ Truncates fs n request) :
    Leaving (Remains g v n start count) ((execute request).run fs) := by
  have meta_ : ∀ {path : List UInt8} (v' : Volume) (N' : NodeMap), SameSize fs path v N n v' N' →
      N' = N ∧ (v'.slot n).size = (v.slot n).size := fun _ _ same => same.2
  cases request with
  | create_file path data =>
    rw [Admissible, holds.static'.block_size] at admissible
    exact leaving_numbered (remains_creation holds consistent here (create_file_ends holds consistent path admissible))
  | mkdir path => exact leaving_numbered (remains_creation holds consistent here (mkdir_ends holds consistent path))
  | symlink link_path target =>
    exact leaving_numbered (remains_creation holds consistent here (symlink_ends holds consistent link_path target))
  | unlink path => exact leaving_silent (remains_removal holds consistent here (unlink_ends holds consistent path))
  | rmdir path => exact leaving_silent (remains_removal holds consistent here (rmdir_ends holds consistent path admissible))
  | rename old_path new_path =>
    exact leaving_silent (remains_renaming holds consistent here (rename_ends holds consistent old_path new_path admissible))
  | truncate path new_size =>
    refine leaving_silent (remains_changing holds consistent here (truncate_ends holds consistent path new_size) ?_)
    rintro v' N' ⟨opened, -⟩
    exact absurd ⟨path, new_size, rfl, opened⟩ aside
  | chmod path mode =>
    exact leaving_silent (remains_changing holds consistent here (chmod_ends holds consistent path mode) meta_)
  | chown path uid gid =>
    exact leaving_silent (remains_changing holds consistent here (chown_ends holds consistent path uid gid) meta_)
  | utime path atime mtime =>
    exact leaving_silent (remains_changing holds consistent here (utime_ends holds consistent path atime mtime) meta_)

/-! ### A run of calls -/

/-- The file has its first data in its blocks, and the last of the sizes. -/
structure Keeps (g : Geometry) (v : Volume) (N : NodeMap) (n : UInt32) (data : Bytes) (sizes : List UInt64) : Prop where
  here : ∃ start count, N n = some (.file start count) ∧
    ∀ i < count, v.block (start + i) = data.slice (i * g.block_size) g.block_size
  size : (v.slot n).size.toNat = last_size data sizes

theorem keeps_remains {data : Bytes} {sizes : List UInt64} (keeps : Keeps g v N n data sizes)
    (remains : ∀ start count, N n = some (.file start count) → Remains g v n start count fs') (reaches : Reaches fs' n) :
    ∃ v' N', Holds g v' fs' ∧ Consistent g v' N' ∧ Keeps g v' N' n data sizes := by
  obtain ⟨start, count, here, blocks⟩ := keeps.here
  obtain ⟨v', N', holds', consistent', unmoved⟩ := remains start count here
  have same := unmoved ((reaches_iff holds' consistent').mp reaches)
  refine ⟨v', N', holds', consistent', ⟨start, count, same.here, fun i inside => ?_⟩, ?_⟩
  · rw [same.blocks _ (by omega) (by omega), blocks i inside]
  · rw [same.size, keeps.size]
/-- A truncation keeps the first blocks. -/
theorem keeps_truncate {data : Bytes} {sizes : List UInt64} {new_size : UInt64} (holds : Holds g v fs)
    (consistent : Consistent g v N) (keeps : Keeps g v N n data sizes) (opened : open_path fs path = .ok n)
    (ran : (Filesystem.truncate path new_size).run fs = .ok () fs') :
    ∃ v' N', Holds g v' fs' ∧ Consistent g v' N' ∧ Keeps g v' N' n data (sizes ++ [new_size]) := by
  have ended := truncate_ends holds consistent path new_size
  rw [ran] at ended
  obtain ⟨start, count, here, blocks⟩ := keeps.here
  cases ended with
  | same quiet done =>
    obtain ⟨opened', -, -, -, -, -, -, size⟩ := done
    cases opened.symm.trans opened'
    refine ⟨v, N, holds, consistent, ⟨start, count, here, blocks⟩, ?_⟩
    rw [size, last_snoc]
  | @changed m _ v' N' holds' written consistent' counted tight touched done =>
    obtain ⟨opened', start', count', kept, here', there, le, size⟩ := done
    cases opened.symm.trans opened'
    cases here.symm.trans here'
    refine ⟨v', N', holds', consistent', ⟨start, kept, there, fun i inside => ?_⟩, ?_⟩
    · rw [touched.blocks, blocks i (by omega)]
    · rw [size, last_snoc]

/-- A run of calls that the file `n` comes through, with the sizes that
    truncations give it on the way. -/
inductive History (n : UInt32) (fs : Filesystem) : List UInt64 → Filesystem → Prop
  | start : History n fs [] fs
  | truncates {sizes : List UInt64} {fs₁ fs' : Filesystem} {path : List UInt8} {new_size : UInt64}
      (earlier : History n fs sizes fs₁) (opened : open_path fs₁ path = .ok n)
      (ran : (Filesystem.truncate path new_size).run fs₁ = .ok () fs') : History n fs (sizes ++ [new_size]) fs'
  | other {sizes : List UInt64} {fs₁ fs' : Filesystem} {request : Request} (earlier : History n fs sizes fs₁)
      (lets : Admissible fs₁ request) (aside : ¬ Truncates fs₁ n request)
      (ran : (∃ answer, (execute request).run fs₁ = .ok answer fs') ∨ ∃ e, (execute request).run fs₁ = .err e fs')
      (stays : Reaches fs' n) : History n fs sizes fs'

theorem history_keeps {data : Bytes} {sizes : List UInt64} (holds : Holds g v fs) (consistent : Consistent g v N)
    (keeps : Keeps g v N n data []) (history : History n fs sizes fs') :
    ∃ v' N', Holds g v' fs' ∧ Consistent g v' N' ∧ Keeps g v' N' n data sizes := by
  induction history with
  | start => exact ⟨v, N, holds, consistent, keeps⟩
  | truncates earlier opened ran ih =>
    obtain ⟨v₁, N₁, holds₁, consistent₁, keeps₁⟩ := ih
    exact keeps_truncate holds₁ consistent₁ keeps₁ opened ran
  | other earlier lets aside ran stays ih =>
    obtain ⟨v₁, N₁, holds₁, consistent₁, keeps₁⟩ := ih
    refine keeps_remains keeps₁ (fun start count here => ?_) stays
    have leaving := execute_remains holds₁ consistent₁ here lets aside
    rcases ran with ⟨answer, ran⟩ | ⟨e, ran⟩
    · rw [ran] at leaving
      exact leaving
    · rw [ran] at leaving
      exact leaving

/-- Such a file reads as its first data up to the last size. -/
theorem keeps_read {data : Bytes} {sizes : List UInt64} (holds : Holds g v fs) (consistent : Consistent g v N)
    (keeps : Keeps g v N n data sizes) : ∃ inode, read_inode fs n = .ok inode ∧
      read_file fs inode = .ok (data.slice 0 (last_size data sizes)) := by
  obtain ⟨start, count, here, blocks⟩ := keeps.here
  have sound := consistent.sound here
  have size := FileBacked.size sound.backed
  have positive := g.positive
  have fits := le_div_ceil (n := (v.slot n).size.toNat) (d := g.block_size) (by omega)
  rw [size] at fits
  refine ⟨_, read_node holds consistent (live_of here), ?_⟩
  rw [read_file_file holds sound, fileBytes_slices fits blocks, keeps.size]
end

/-- What is read after a run of truncations is what they should leave where the
    data is zero from the lowest size of the run to the last one, and nowhere else. -/
theorem truncated_contents {config : Config} (contained : Contained config) {fs fs₁ fs' : Filesystem}
    (reached : Reached config Admissible fs) {path : List UInt8} {data : Bytes} {n : UInt32} {sizes : List UInt64}
    (admissible : Admissible fs (.create_file path data)) (created : (create_file path data).run fs = .ok n fs₁)
    (history : History n fs₁ sizes fs') :
    ∃ inode bytes, read_inode fs' n = .ok inode ∧ read_file fs' inode = .ok bytes ∧
      (bytes = contents_after data sizes ↔ Blank data sizes) := by
  obtain ⟨layout, g, -, -, v, N, holds, consistent⟩ := reached_backs contained reached
  rw [Admissible, holds.static'.block_size] at admissible
  have ended := create_file_ends holds consistent path admissible
  rw [created] at ended
  cases ended with
  | @made _ _ v₁ N₁ _ holds₁ written grown filled =>
    obtain ⟨start, count, rfl, -, size, blocks⟩ := filled
    obtain ⟨parent_path, name, p, block, parent, kids, place, nodes, -⟩ := grown.place
    have keeps : Keeps g v₁ N₁ n data [] :=
      ⟨⟨start, count, by rw [nodes, withLeaf, Nodes.insert, if_pos rfl], blocks⟩, size⟩
    obtain ⟨v', N', holds', consistent', keeps'⟩ := history_keeps holds₁ grown.consistent keeps history
    obtain ⟨inode, read, bytes⟩ := keeps_read holds' consistent' keeps'
    exact ⟨inode, _, read, bytes, blank_iff data sizes⟩

/-! ### A file that is cut and grows again -/

section
variable {g : Geometry} {v : Volume} {N : NodeMap} {fs : Filesystem} {n : UInt32} {start count block : Nat}
  {path : List UInt8}

/-- A truncation within the blocks of a file returns. -/
theorem truncate_returns (new_size : UInt64) (holds : Holds g v fs) (consistent : Consistent g v N) (modest : Modest g v)
    (opened : open_path fs path = .ok n) (here : N n = some (.file start count))
    (fits : new_size.toNat ≤ count * g.block_size) : ∃ fs' v' N' kept, (Filesystem.truncate path new_size).run fs = .ok () fs' ∧
      Holds g v' fs' ∧ Consistent g v' N' ∧ (Counted g v (dirs g N) → Counted g v' (dirs g N')) ∧
      N' n = some (.file start kept) ∧ (∀ m, m ≠ n → N' m = N m) ∧ (v'.slot n).size = new_size := by
  have ended := truncate_ends holds consistent path new_size
  generalize (Filesystem.truncate path new_size).run fs = result at ended
  cases ended with
  | refused why => exact absurd fits (Nat.not_le_of_lt (why n start count opened here))
  | panicked immodest => exact absurd modest immodest
  | same quiet done =>
    obtain ⟨opened', -, -, -, -, -, -, size⟩ := done
    cases opened.symm.trans opened'
    exact ⟨fs, v, N, count, rfl, holds, consistent, fun counted => counted, here, fun _ _ => rfl, size⟩
  | @changed m fs' v' N' holds' written consistent' counted tight touched done =>
    obtain ⟨opened', start', count', kept, here', there, le, size⟩ := done
    cases opened.symm.trans opened'
    cases here.symm.trans here'
    exact ⟨fs', v', N', kept, rfl, holds', consistent', counted, there, touched.nodes, size⟩

theorem open_only (holds : Holds g v fs) (consistent : Consistent g v N)
    (root : N ROOT_INODE = some (.dir block ROOT_INODE [⟨[97], n, 1⟩])) : open_path fs [SLASH, 97] = .ok n := by
  have walked : walk (step N) ROOT_INODE (Paths.components [SLASH, 97]) = some n := by
    show walk (step N) ROOT_INODE [[97]] = some n
    rw [walk_cons]
    exact ⟨n, (step_dir root [97]).trans rfl, rfl⟩
  rcases open_path_walk holds consistent [SLASH, 97] with ⟨m, walked', opened⟩ | ⟨nowhere, -⟩
  · cases walked.symm.trans walked'
    exact opened
  · rw [walked] at nowhere
    cases nowhere
end

/-- A file of two bytes is cut to one byte and grows again. -/
theorem shrink_and_grow {data : Bytes} (two : data.size = 2) : ∃ fs₁ fs' n,
    Admissible (fresh Config.default defaultLayout) (.create_file [SLASH, 97] data) ∧
      (create_file [SLASH, 97] data).run (fresh Config.default defaultLayout) = .ok n fs₁ ∧ History n fs₁ [1, 2] fs' := by
  obtain ⟨g, v, whole, blocks, clear, row⟩ :=
    Progress.fresh_row default_small (show Layout.from_config Config.default = .ok defaultLayout from rfl)
  have numbers : g.per_group = 32 := whole.per_group
  have total : g.total = 16 := whole.total
  have size : g.block_size = 4096 := whole.block_size
  have one : div_ceil data.size g.block_size = 1 := by rw [two, size]; decide
  obtain ⟨n, fs₁, v₁, N₁, x, ran, row₁, number, here, start, count, rfl, -, whole_size, -⟩ := row.file whole
    (by rw [numbers]; decide) (show Proper [97] by decide) (by decide) (by decide) (by decide) (by rw [one]; decide)
    ⟨7, by rw [one, blocks, total, size]; decide, fun j low high => clear j (by omega) low⟩
  obtain ⟨block, root, -⟩ := row₁.root
  have name : Progress.lined 11 [([97], (1 : UInt8))] = [⟨[97], n, 1⟩] := by
    have same : n = 11 := UInt32.toNat_inj.mp number
    rw [same]
    rfl
  rw [List.nil_append, name] at root
  have other : ROOT_INODE ≠ n := by
    rintro rfl
    rw [here] at root
    cases root
  have backed : FileBacked g v₁ n start count := (row₁.consistent.sound here).backed
  have full : count = 1 := by rw [← backed.size, whole_size, one]
  subst full
  have opened := open_only row₁.holds row₁.consistent root
  obtain ⟨fs₂, v₂, N₂, kept, cut, holds₂, consistent₂, counted₂, here₂, rest₂, size₂⟩ := truncate_returns 1
    row₁.holds row₁.consistent (Progress.modest whole row₁.counted) opened here (by rw [size]; decide)
  have backed₂ : FileBacked g v₂ n start kept := (consistent₂.sound here₂).backed
  have full₂ : kept = 1 := by
    rw [← backed₂.size, size₂, size]
    decide
  subst full₂
  have opened₂ := open_only holds₂ consistent₂ ((rest₂ ROOT_INODE other).trans root)
  obtain ⟨fs₃, v₃, N₃, -, grown, -⟩ := truncate_returns 2 holds₂ consistent₂
    (Progress.modest whole (counted₂ row₁.counted)) opened₂ here₂ (by rw [size]; decide)
  have admissible : Admissible (fresh Config.default defaultLayout) (.create_file [SLASH, 97] data) := by
    have block_size := row.holds.static'.block_size
    rw [Admissible, block_size, one]
    exact .inl (by decide)
  exact ⟨fs₁, fs₃, n, admissible, ran, .truncates (.truncates .start opened cut) opened₂ grown⟩

/-- A zero that is cut off comes back as a zero. -/
theorem zero_reappears : ∃ fs₁ fs' n, (create_file [SLASH, 97] (ofList [1, 0])).run (fresh Config.default defaultLayout) = .ok n fs₁ ∧
    History n fs₁ [1, 2] fs' ∧ Blank (ofList [1, 0]) [1, 2] ∧ ∃ inode bytes, read_inode fs' n = .ok inode ∧
      read_file fs' inode = .ok bytes ∧ (bytes = contents_after (ofList [1, 0]) [1, 2] ↔ Blank (ofList [1, 0]) [1, 2]) := by
  obtain ⟨fs₁, fs', n, admissible, ran, history⟩ := shrink_and_grow (show (ofList [1, 0]).size = 2 from rfl)
  refine ⟨fs₁, fs', n, ran, history, fun i low high => ?_,
    truncated_contents (fun _ => by decide) default_opened.reached admissible ran history⟩
  have low : 1 ≤ i := low
  have high : i < 2 := high
  have same : i = 1 := by omega
  subst same
  rfl

/-- Any other byte that is cut off comes back as well. -/
theorem byte_reappears : ∃ fs₁ fs' n, (create_file [SLASH, 97] (ofList [1, 2])).run (fresh Config.default defaultLayout) = .ok n fs₁ ∧
    History n fs₁ [1, 2] fs' ∧ ∃ inode bytes, read_inode fs' n = .ok inode ∧ read_file fs' inode = .ok bytes ∧
      bytes ≠ contents_after (ofList [1, 2]) [1, 2] := by
  obtain ⟨fs₁, fs', n, admissible, ran, history⟩ := shrink_and_grow (show (ofList [1, 2]).size = 2 from rfl)
  obtain ⟨inode, bytes, read, content, blank⟩ :=
    truncated_contents (fun _ => by decide) default_opened.reached admissible ran history
  refine ⟨fs₁, fs', n, ran, history, inode, bytes, read, content, fun same => ?_⟩
  have zero : (2 : UInt8) = 0 := blank.mp same 1 (by decide) (by decide)
  exact absurd zero (by decide)

end Justext4.FileHistory
