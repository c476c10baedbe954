import Justext4.FileHistory

/-!
Files have exactly the blocks that their sizes need. Whatever calls have run on a
fresh image, a file without data has a leaf without runs, any other file one run
of as many blocks as its size takes, and its record counts the sectors of that
run; a directory has one block. So the test that `unlink` makes of the size skips
no block, and `truncate` leaves no block of a file without a place.
-/
namespace Justext4.FileSectors
open Justext4 Justext4.Fallible Justext4.Filesystem Justext4.Volumes Justext4.Mkfs
open Justext4.Inode (Inode)
open Justext4.Extent
open Justext4.Nodes
open Justext4.Backing
open Justext4.Reading
open Justext4.Leaves
open Justext4.Create
open Justext4.Remove
open Justext4.Rename
open Justext4.Change
open Justext4.View
open Justext4.Start
open Justext4.Calls
open Justext4.FileHistory (Leaving leaving_numbered leaving_silent)
open Justext4.DirBlock (toNat_ofNat16)
open Justext4.Runs (run runs runBlock decode_runs short_len)

/-! ### The sectors of the files in a tree -/

/-- The record of every file counts the sectors of its blocks. -/
def Sectored (g : Geometry) (v : Volume) (N : NodeMap) : Prop :=
  ∀ n start count, N n = some (.file start count) → (v.slot n).blocks_lo = .ofNat (count * g.block_size / 512)
/-- The filesystem backs a tree whose files have their sectors counted. -/
def BacksSectored (g : Geometry) (fs : Filesystem) : Prop :=
  ∃ v N, Holds g v fs ∧ Consistent g v N ∧ Sectored g v N

section
variable {g : Geometry} {v v' : Volume} {N N' : NodeMap} {fs fs' : Filesystem} {n m p : UInt32} {x : Node}
  {start count : Nat} {path name : List UInt8}

/-- A change of directories alone leaves the files what they were. -/
theorem file_modify {f : Node → Node} (keeps : ∀ z, f z = .file start count → z = .file start count)
    (there : modify N p f m = some (.file start count)) : N m = some (.file start count) := by
  rcases modify_some there with ⟨-, old⟩ | ⟨rfl, z, old, shape⟩
  · exact old
  · rw [old, keeps z shape.symm]
theorem file_onKids {f : List DirBlock.Kid → List DirBlock.Kid} (z : Node) (shape : z.onKids f = .file start count) :
    z = .file start count := by
  cases z with
  | dir => cases shape
  | file => exact shape
  | link => cases shape
theorem file_withParent (z : Node) (shape : z.withParent p = .file start count) : z = .file start count := by
  cases z with
  | dir => cases shape
  | file => exact shape
  | link => cases shape
theorem file_withoutLeaf (there : withoutLeaf N p name n m = some (.file start count)) :
    m ≠ n ∧ N m = some (.file start count) := by
  rw [withoutLeaf, Nodes.erase] at there
  split at there
  · cases there
  · rename_i other
    exact ⟨other, file_modify file_onKids there⟩
theorem file_moved {p' : UInt32} {name' : List UInt8} {code : UInt8}
    (there : moved N p name p' name' n code m = some (.file start count)) : N m = some (.file start count) :=
  file_modify file_onKids (file_modify file_onKids (file_modify file_withParent there))

theorem sectored_spared (sectored : Sectored g v N) (spared : Spared g v v' N) : Sectored g v' N := by
  intro m start count found
  rw [spared.slot m (live_of found)]
  exact sectored m start count found
theorem sectored_grown (sectored : Sectored g v N) (grown : Grown g v v' N N' path n x)
    (own : ∀ start count, x = .file start count → (v'.slot n).blocks_lo = .ofNat (count * g.block_size / 512)) :
    Sectored g v' N' := by
  intro m start count there
  obtain ⟨parent_path, name, p, block, parent, kids, place, same, -⟩ := grown.place
  rw [same] at there
  rcases withLeaf_cases place.directory.found there with ⟨rfl, leaf⟩ | ⟨-, dir⟩ | ⟨-, old⟩
  · exact own start count leaf.symm
  · cases dir
  · rw [(grown.kept old).1]
    exact sectored m start count old
theorem sectored_pruned (sectored : Sectored g v N) {block : Nat} {parent : UInt32} {kids : List DirBlock.Kid}
    (pruned : Pruned g v v' N N' p block parent kids name n x) : Sectored g v' N' := by
  intro m start count there
  rw [pruned.nodes] at there
  obtain ⟨other, old⟩ := file_withoutLeaf there
  rw [(pruned.kept old other).1]
  exact sectored m start count old
theorem sectored_relocated (sectored : Sectored g v N) {p' : UInt32} {old_name new_name : List UInt8}
    (relocated : Relocated g v v' N N' p old_name p' new_name n x) : Sectored g v' N' := by
  intro m start count there
  rw [relocated.nodes] at there
  have old := file_moved there
  rw [(relocated.kept old).1]
  exact sectored m start count old
theorem sectored_touched (sectored : Sectored g v N) (touched : Touched v v' N N' n)
    (own : Recharged g v N n v' N') : Sectored g v' N' := by
  intro m start count there
  by_cases same : m = n
  · subst same
    rcases own start count there with counted | ⟨old, kept⟩
    · exact counted
    · rw [kept]
      exact sectored m start count old
  · rw [touched.slots m same]
    exact sectored m start count (touched.nodes m same ▸ there)

/-! ### What each call leaves -/

section
variable (holds : Holds g v fs) (consistent : Consistent g v N) (sectored : Sectored g v N)
include holds consistent sectored

theorem backs_creation {refusal : Prop} {blocks : Nat} {new : Volume → UInt32 → Node → Prop}
    {r : Ended Filesystem Ext4Error UInt32} (ended : Creation g v N fs path refusal blocks new r)
    (own : ∀ v' n start count, new v' n (.file start count) →
      Backed g v' n (.file start count) → (v'.slot n).blocks_lo = .ofNat (count * g.block_size / 512)) :
    Leaving (BacksSectored g) r := by
  cases ended with
  | refused => exact ⟨v, N, holds, consistent, sectored⟩
  | panicked => trivial
  | wasted holds' wasted =>
    exact ⟨_, N, holds', consistent.spared wasted.spared, sectored_spared sectored wasted.spared⟩
  | @made n fs' v' N' x holds' written grown held =>
    refine ⟨v', N', holds', grown.consistent, sectored_grown sectored grown fun start count leaf => ?_⟩
    obtain ⟨_, _, _, _, _, _, -, same, -⟩ := grown.place
    have live : N' n = some x := by
      rw [same]
      exact if_pos rfl
    subst leaf
    exact own v' n start count held (grown.consistent.sound live).backed
theorem backs_removal {kind : Node → Prop} {r : Ended Filesystem Ext4Error Unit}
    (ended : Removal g v N fs path kind r) : Leaving (BacksSectored g) r := by
  cases ended with
  | refused => exact ⟨v, N, holds, consistent, sectored⟩
  | panicked => trivial
  | removed _ _ holds' _ pruned => exact ⟨_, _, holds', pruned.consistent, sectored_pruned sectored pruned⟩
theorem backs_renaming {new_path : List UInt8} {r : Ended Filesystem Ext4Error Unit}
    (ended : Renaming g v N fs path new_path r) : Leaving (BacksSectored g) r := by
  cases ended with
  | refused => exact ⟨v, N, holds, consistent, sectored⟩
  | panicked => trivial
  | same => exact ⟨v, N, holds, consistent, sectored⟩
  | lost _ _ _ holds' pruned => exact ⟨_, _, holds', pruned.consistent, sectored_pruned sectored pruned⟩
  | moved _ _ _ _ _ _ _ cleared holds' _ relocated =>
    refine ⟨_, _, holds', relocated.consistent, ?_⟩
    cases cleared with
    | free => exact sectored_relocated sectored relocated
    | replaced _ _ _ pruned => exact sectored_relocated (sectored_pruned sectored pruned) relocated
theorem backs_changing {refusal flushes : Prop} {effect : UInt32 → Volume → NodeMap → Prop}
    {r : Ended Filesystem Ext4Error Unit} (ended : Changing g v N fs refusal flushes effect r)
    (own : ∀ n v' N', effect n v' N' → Recharged g v N n v' N') : Leaving (BacksSectored g) r := by
  cases ended with
  | refused => exact ⟨v, N, holds, consistent, sectored⟩
  | panicked => trivial
  | same => exact ⟨v, N, holds, consistent, sectored⟩
  | changed holds' _ consistent' _ _ touched done =>
    exact ⟨_, _, holds', consistent', sectored_touched sectored touched (own _ _ _ done)⟩

/-- A change of other fields than the sectors. -/
theorem backs_metadata {mutate : Inode → Inode} (alike : ∀ inode, Alike inode { mutate inode with ctime := METADATA_CTIME })
    (kept : ∀ inode, (mutate inode).blocks_lo = inode.blocks_lo) :
    Leaving (BacksSectored g) ((with_inode_mut path mutate).run fs) := by
  refine backs_changing holds consistent sectored (with_inode_mut_records holds consistent path alike) ?_
  rintro n v' N' ⟨⟨-, rfl, -⟩, record⟩ start count there
  refine .inr ⟨there, ?_⟩
  rw [record]
  exact kept _

/-- What one call preserves. -/
theorem execute_sectored {request : Request} (admissible : Admissible fs request) :
    Leaving (BacksSectored g) ((execute request).run fs) := by
  cases request with
  | create_file path data =>
    rw [Admissible, holds.static'.block_size] at admissible
    refine leaving_numbered (backs_creation holds consistent sectored (create_file_records holds consistent path admissible) ?_)
    rintro v' n start count ⟨⟨_, _, same, -, size, -⟩, block, record⟩ backed
    cases same
    have whole := FileBacked.size backed
    rw [size] at whole
    rw [record, ← whole]
    rfl
  | mkdir path =>
    refine leaving_numbered (backs_creation holds consistent sectored (mkdir_ends holds consistent path) ?_)
    rintro v' n start count ⟨directory, -⟩
    cases directory
  | symlink link_path target =>
    refine leaving_numbered (backs_creation holds consistent sectored (symlink_ends holds consistent link_path target) ?_)
    rintro v' n start count ⟨link, -⟩
    cases link
  | unlink path => exact leaving_silent (backs_removal holds consistent sectored (unlink_ends holds consistent path))
  | rmdir path =>
    exact leaving_silent (backs_removal holds consistent sectored (rmdir_ends holds consistent path admissible))
  | rename old_path new_path =>
    exact leaving_silent (backs_renaming holds consistent sectored
      (rename_ends holds consistent old_path new_path admissible))
  | truncate path new_size =>
    exact leaving_silent (backs_changing holds consistent sectored (truncate_records holds consistent path new_size)
      fun _ _ _ done => done.2)
  | chmod path mode =>
    exact leaving_silent (backs_metadata holds consistent sectored
      (fun inode => ⟨mode_kept inode.mode mode, rfl, rfl, rfl, rfl, rfl⟩) fun _ => rfl)
  | chown path uid gid =>
    exact leaving_silent (backs_metadata holds consistent sectored
      (fun _ => ⟨rfl, rfl, rfl, rfl, rfl, rfl⟩) fun _ => rfl)
  | utime path atime mtime =>
    exact leaving_silent (backs_metadata holds consistent sectored
      (fun _ => ⟨rfl, rfl, rfl, rfl, rfl, rfl⟩) fun _ => rfl)
end

theorem backsSectored_step (backs : BacksSectored g fs) (moved : Step Admissible fs fs') : BacksSectored g fs' := by
  obtain ⟨v, N, holds, consistent, sectored⟩ := backs
  cases moved with
  | returns lets ran =>
    have leaving := execute_sectored holds consistent sectored lets
    rw [ran] at leaving
    exact leaving
  | fails lets ran =>
    have leaving := execute_sectored holds consistent sectored lets
    rw [ran] at leaving
    exact leaving
end

/-- In every state reached, the records of files count the sectors of their blocks. -/
theorem reached_sectored {config : Config} {fs : Filesystem} (contained : Contained config)
    (reached : Reached config Admissible fs) : ∃ layout g, Layout.from_config config = .ok layout ∧
      Fitting config layout g ∧ BacksSectored g fs := by
  obtain ⟨start, opened, run⟩ := reached
  obtain ⟨layout, usable⟩ := usable_of_opened contained opened
  obtain ⟨image, fs₀, g, ran, opened₀, fitting, holds, consistent⟩ := start_ok usable
  rw [← opened.unique ⟨image, ran, opened₀⟩] at holds consistent
  refine ⟨layout, g, usable.laid, fitting, run_keeps backsSectored_step run ⟨_, _, holds, consistent, ?_⟩⟩
  intro n first count found
  rw [rootOnly] at found
  split at found
  · cases found
  · cases found

/-! ### The records of reachable inodes -/

/-- The extent tree is one leaf with these runs. -/
def SingleLeaf (inode : Inode) (extents : List Extent) : Prop :=
  Inode.uses_extents inode = true ∧
    ∃ header, header.depth = 0 ∧ decode_extent_node inode.block.bytes = .ok (.Leaf header extents)
/-- The run maps this many blocks from logical block 0 on, and is not preallocated. -/
def FromStart (ext : Extent) (count : Nat) : Prop :=
  ext.logical_block = 0 ∧ ext.len.toNat = count ∧ ext.uninit = false

/-- A regular file has no run when it is empty, and else one run of as many
    blocks as its size takes; its record counts their sectors. -/
def ExactFile (block_size : Nat) (inode : Inode) : Prop :=
  (inode.size = 0 → SingleLeaf inode [] ∧ inode.blocks_lo = 0) ∧
  (inode.size ≠ 0 → ∃ ext, SingleLeaf inode [ext] ∧ FromStart ext (div_ceil inode.size.toNat block_size) ∧
    inode.blocks_lo.toNat = ext.len.toNat * block_size / 512)
/-- A directory has one block. -/
def ExactDir (block_size : Nat) (inode : Inode) : Prop :=
  inode.size.toNat = block_size ∧ ∃ ext, SingleLeaf inode [ext] ∧ FromStart ext 1
/-- Every block up to the size of the file has a place, and is written. -/
def Mapped (block_size : Nat) (inode : Inode) : Prop :=
  ∃ extents, SingleLeaf inode extents ∧ ∀ i < div_ceil inode.size.toNat block_size,
    ∃ ext ∈ extents, ext.uninit = false ∧ ext.logical_block.toNat ≤ i ∧ i < ext.logical_block.toNat + ext.len.toNat

section
variable {g : Geometry} {v : Volume} {N : NodeMap} {fs fs' : Filesystem} {n : UInt32} {start count : Nat}

theorem leaf_depth {buf : Bytes} {header : ExtentHeader} {extents : List Extent}
    (decoded : decode_extent_node buf = .ok (.Leaf header extents)) : header.depth = 0 := by
  rw [decode_extent_node] at decoded
  obtain ⟨header', -, decoded⟩ := res_bind_eq_ok.mp decoded
  obtain ⟨-, -, decoded⟩ := res_bind_eq_ok.mp decoded
  split at decoded
  · rename_i leaf
    obtain ⟨extents', -, decoded⟩ := res_bind_eq_ok.mp decoded
    cases decoded
    exact beq_iff_eq.mp leaf
  · obtain ⟨indices, -, decoded⟩ := res_bind_eq_ok.mp decoded
    cases decoded

theorem single_runs {inode : Inode} (flags : inode.flags = Inode.INODE_FLAG_EXTENTS) (run : inode.block = runBlock start count)
    (short : count ≤ 32768) (small : start < 281474976710656) : SingleLeaf inode (runs start count) := by
  obtain ⟨header, decoded⟩ := decode_runs count short small
  refine ⟨?_, header, leaf_depth decoded, by rw [run, decoded]⟩
  rw [Inode.uses_extents, flags]
  decide
theorem run_from_start (start : Nat) (short : count ≤ 32768) : FromStart (run start count) count :=
  ⟨rfl, toNat_ofNat16 (by omega), rfl⟩

theorem exact_dir {block : Nat} {parent : UInt32} {kids : List DirBlock.Kid}
    (backed : DirBacked g v n block parent kids) (small : block < 281474976710656) : ExactDir g.block_size (v.slot n) :=
  ⟨backed.size, run block 1, single_runs backed.flags backed.run (by omega) small, run_from_start block (by omega)⟩
theorem exact_file (backed : FileBacked g v n start count)
    (sectors : (v.slot n).blocks_lo = .ofNat (count * g.block_size / 512)) : ExactFile g.block_size (v.slot n) := by
  have leaf := single_runs backed.flags backed.run backed.short backed.small
  have size := backed.size
  have short := backed.short
  have positive : 0 < g.block_size := by rcases g.known with known | known | known | known <;> omega
  have bounded : g.block_size ≤ 65536 := by rcases g.known with known | known | known | known <;> omega
  constructor
  · intro empty
    have none : count = 0 := by rw [← size, empty]; exact div_ceil_zero _
    subst none
    exact ⟨leaf, by rw [sectors, Nat.zero_mul]; rfl⟩
  · intro full
    have some : 0 < count := by
      rw [← size]
      have nonzero : (v.slot n).size.toNat ≠ 0 := fun zero => full (UInt64.toNat_inj.mp zero)
      exact Nat.div_pos (by omega) positive
    have one : runs start count = [run start count] := if_pos some
    rw [one] at leaf
    refine ⟨run start count, leaf, by rw [size]; exact run_from_start start short, ?_⟩
    have reach : count * g.block_size ≤ 32768 * 65536 := Nat.mul_le_mul short bounded
    rw [sectors, (run_from_start start short).2.1, UInt32.toNat_ofNat']
    omega
theorem ExactFile.mapped {block_size : Nat} {inode : Inode} (exact_ : ExactFile block_size inode) :
    Mapped block_size inode := by
  by_cases empty : inode.size = 0
  · obtain ⟨leaf, -⟩ := exact_.1 empty
    refine ⟨[], leaf, fun i inside => ?_⟩
    rw [empty] at inside
    simp [div_ceil_zero] at inside
  · obtain ⟨ext, leaf, ⟨first, length, written⟩, -⟩ := exact_.2 empty
    refine ⟨[ext], leaf, fun i inside => ⟨ext, .head _, written, ?_, ?_⟩⟩
    · rw [first]
      exact Nat.zero_le i
    · rw [first, length]
      simpa using inside

/-- The record of a node. -/
theorem exact_node (holds : Holds g v fs) (consistent : Consistent g v N) (sectored : Sectored g v N) (live : Live N n) :
    read_inode fs n = .ok (v.slot n) ∧
    (Inode.is_regular (v.slot n) = true → ExactFile fs.superblock.block_size.toNat (v.slot n)) ∧
    (Inode.is_directory (v.slot n) = true → ExactDir fs.superblock.block_size.toNat (v.slot n)) := by
  refine ⟨read_node holds consistent live, ?_⟩
  obtain ⟨x, here⟩ := Option.ne_none_iff_exists'.mp live
  have sound := consistent.sound here
  obtain ⟨directory, regular, -⟩ := types_of_node sound.backed
  rw [directory, regular, holds.static'.block_size]
  cases x with
  | dir block parent kids =>
    have owned := (sound.owned block rfl).2.1
    have total := g.limit_total
    have high := g.total_high
    exact ⟨fun other => absurd other (by decide : ¬ ((2 : UInt8) == 1) = true), fun _ => exact_dir sound.backed (by omega)⟩
  | file start count =>
    exact ⟨fun _ => exact_file sound.backed (sectored n start count here),
      fun other => absurd other (by decide : ¬ ((1 : UInt8) == 2) = true)⟩
  | link =>
    exact ⟨fun other => absurd other (by decide : ¬ ((7 : UInt8) == 1) = true),
      fun other => absurd other (by decide : ¬ ((7 : UInt8) == 2) = true)⟩
end

/-! ### Every state reached -/

/-- Images of one group. -/
structure OneGroup (config : Config) : Prop where
  size : config.block_size.toNat = 2048 ∨ config.block_size.toNat = 4096
  one : groups config = 1

theorem OneGroup.contained {config : Config} (single : OneGroup config) : Contained config := by
  obtain ⟨size, one⟩ := single
  intro _
  omega

/-- In every state that calls lead to from a fresh image of one group, each
    regular file has the blocks and the sectors that its size needs and each
    directory has one block; the blocks of a file that `unlink` takes for empty
    are none, and a file that `truncate` has set to a size has a place for every
    block of it. -/
theorem files_exact {config : Config} (single : OneGroup config) {fs : Filesystem}
    (reached : Reached config Admissible fs) :
    (∀ n, Reaches fs n → ∃ inode, read_inode fs n = .ok inode ∧
      (Inode.is_regular inode = true → ExactFile config.block_size.toNat inode) ∧
      (Inode.is_directory inode = true → ExactDir config.block_size.toNat inode)) ∧
    (∀ path n inode, open_path fs path = .ok n → read_inode fs n = .ok inode → Inode.is_directory inode = false →
      Inode.uses_extents inode = true → ¬ 0 < inode.size.toNat → SingleLeaf inode []) ∧
    (∀ path new_size fs', (Filesystem.truncate path new_size).run fs = .ok () fs' → ∃ n inode,
      open_path fs path = .ok n ∧ read_inode fs' n = .ok inode ∧ inode.size = new_size ∧
      Mapped config.block_size.toNat inode) := by
  obtain ⟨layout, g, -, fitting, v, N, holds, consistent, sectored⟩ := reached_sectored single.contained reached
  have size : fs.superblock.block_size.toNat = config.block_size.toNat := holds.static'.block_size.trans fitting.block_size
  refine ⟨fun n reaches => ?_, fun path n inode opened read file extents empty => ?_, fun path new_size fs' ran => ?_⟩
  · rw [← size]
    exact ⟨v.slot n, exact_node holds consistent sectored ((reaches_iff holds consistent).mp reaches)⟩
  · rcases open_node holds consistent path with ⟨e, refused⟩ | ⟨m, x, opened', here, read'⟩
    · cases opened.symm.trans refused
    cases opened.symm.trans opened'
    cases read.symm.trans read'
    have zero : (v.slot n).size = 0 := by
      apply UInt64.toNat_inj.mp
      simpa using empty
    have sound := consistent.sound here
    cases x with
    | dir =>
      rw [(types_of_node sound.backed).1] at file
      cases file
    | file start count => exact ((exact_file sound.backed (sectored n start count here)).1 zero).1
    | link =>
      rw [Inode.uses_extents, LinkBacked.flags sound.backed] at extents
      cases extents
  · have ended := truncate_records holds consistent path new_size
    rw [ran] at ended
    rw [← fitting.block_size]
    cases ended with
    | @same n quiet done =>
      obtain ⟨⟨opened, start, count, kept, -, here, -, resized⟩, -⟩ := done
      exact ⟨n, _, opened, read_node holds consistent (live_of here), resized,
        (exact_file (consistent.sound here).backed (sectored n start kept here)).mapped⟩
    | @changed n _ v' N' holds' _ consistent' _ _ touched done =>
      obtain ⟨⟨opened, start, count, kept, -, here, -, resized⟩, recharged⟩ := done
      have sectored' := sectored_touched sectored touched recharged
      exact ⟨n, _, opened, read_node holds' consistent' (live_of here), resized,
        (exact_file (consistent'.sound here).backed (sectored' n start kept here)).mapped⟩

theorem default_single : OneGroup Config.default := ⟨.inr rfl, by decide⟩

/-- A file of two bytes has one block. -/
theorem two_bytes_exact : ∃ fs n inode, (create_file [SLASH, 97] (Bytes.ofList [1, 0])).run (fresh Config.default defaultLayout) =
    .ok n fs ∧ read_inode fs n = .ok inode ∧ inode.size = 2 ∧ ExactFile 4096 inode := by
  obtain ⟨g, v, whole, blocks, clear, row⟩ :=
    Progress.fresh_row default_small (show Layout.from_config Config.default = .ok defaultLayout from rfl)
  have numbers : g.per_group = 32 := whole.per_group
  have total : g.total = 16 := whole.total
  have size : g.block_size = 4096 := whole.block_size
  have one : div_ceil (Bytes.ofList [1, 0]).size g.block_size = 1 := by rw [size]; decide
  obtain ⟨n, fs₁, v₁, N₁, x, ran, row₁, -, here, start, count, rfl, -, whole_size, -⟩ := row.file whole
    (by rw [numbers]; decide) (show Proper [97] by decide) (by decide) (by decide) (by decide)
    (by rw [one]; decide) ⟨7, by rw [one, blocks, total, size]; decide, fun j low high => clear j (by omega) low⟩
  have admissible : Admissible (fresh Config.default defaultLayout) (.create_file [SLASH, 97] (Bytes.ofList [1, 0])) := by
    rw [Admissible, row.holds.static'.block_size, one]
    exact .inl (by decide)
  have created : Step Admissible (fresh Config.default defaultLayout) fs₁ :=
    @Step.returns _ _ _ (some n) _ admissible (by rw [execute, numbered, run_bind, ran]; rfl)
  have reached : Reached Config.default Admissible fs₁ := ⟨_, default_opened, .single created⟩
  have reaches : Reaches fs₁ n := (reaches_iff row₁.holds row₁.consistent).mpr (live_of here)
  obtain ⟨inode, read, regular, -⟩ := (files_exact default_single reached).1 n reaches
  cases read.symm.trans (read_node row₁.holds row₁.consistent (live_of here))
  have file := (types_of_node (row₁.consistent.sound here).backed).2.1
  exact ⟨fs₁, n, _, ran, read, UInt64.toNat_inj.mp whole_size, regular file⟩

end Justext4.FileSectors
