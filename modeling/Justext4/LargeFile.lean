import Justext4.CopiedTree
import Justext4.Agreement

/-!
A file of more than 2^32 blocks. The number of its blocks is cut to 32 bits for
the allocation, so one block is taken, the data runs over the end of the image,
and the call returns; the file is never read back.
-/
namespace Justext4.LargeFile
open Justext4 Justext4.Fallible Justext4.Filesystem Justext4.Volumes Justext4.Mkfs Bytes
open Justext4.Inode (Inode)
open Justext4.DirBlock
open Justext4.Nodes
open Justext4.Backing
open Justext4.Reading
open Justext4.Entries
open Justext4.Allocation
open Justext4.Counts
open Justext4.Create
open Justext4.Start
open Justext4.Calls
open Justext4.Progress
open Justext4.HostTree
open Justext4.Populate
open Justext4.CopiedTree
open Justext4.TwoRuns
open Justext4.Agreement (patched write_at_run flush_same)
open Justext4.Runs (runBlock runs)

section
variable {g : Geometry} {v : Volume} {N : NodeMap} {fs fs' : Filesystem} {inode : Inode} {block : Nat}

/-- The records in memory are the same. -/
def SameRecords (s t : Filesystem) : Prop := s.superblock = t.superblock ∧ s.gdt = t.gdt

/-- What is written out depends on the records alone. -/
theorem flush_records {s t : Filesystem} (same : SameRecords s t) :
    Same SameRecords SameRecords (flush_metadata.run s) (flush_metadata.run t) :=
  flush_same (fun _ _ same => ⟨same.1.symm, same.2.symm⟩) (fun _ _ _ _ same => same) same

/-- The block of a directory is there when the image has grown behind it. -/
theorem first_block_before (holds : Holds g v fs) (one : OneBlock g inode block) {offset : Nat} {src : Bytes}
    (behind : (block + 1) * g.block_size ≤ offset) :
    first_block (patched fs offset src) inode = .ok (block * g.block_size, v.block block) := by
  have total := g.total_high
  have high := one.high
  have fits := g.block_inside one.high
  have small := g.total_small
  have size := holds.size
  rw [Nat.add_mul, Nat.one_mul] at behind
  have grown : fs.reader.size ≤ (fs.reader.patch offset src).size := by
    simp only [Bytes.patch]
    split <;> omega
  have readable : block * g.block_size + g.block_size ≤ (patched fs offset src).reader.size := Nat.le_trans (by omega) grown
  have size' : (patched fs offset src).superblock.block_size.toNat = g.block_size := holds.static'.block_size
  rw [first_block, Runs.resolve_runs one.flags one.run (by decide) (by omega), if_pos (by decide), res_bind_ok,
    okOr_some, res_bind_ok, Nat.add_zero, load_block, size', in_u64_ok (by omega), res_bind_ok,
    read_at_ok readable, res_bind_ok, ← holds.blocks block one.low one.high, blockAt]
  refine congrArg (fun bytes => Except.ok (_, bytes)) (ext_inside rfl fun i inside => ?_)
  rw [size_slice] at inside
  rw [byte_slice_of_lt _ inside, byte_slice_of_lt _ inside]
  exact byte_patch_outside _ (by omega)

/-- The extent of a file keeps the low 16 bits of the number of its blocks. -/
theorem runs_cut (start : Nat) {num_blocks : Nat} (cut : num_blocks % 65536 = 1) : runs start num_blocks = runs start 1 := by
  have len : UInt16.ofNat num_blocks = UInt16.ofNat 1 := by
    apply UInt16.toNat_inj.mp
    rw [UInt16.toNat_ofNat', cut]
    rfl
  rw [runs, runs, if_pos (by omega), if_pos (by decide), Runs.run, Runs.run, len]

/-- A file whose number of blocks ends in 1 is created with an extent of one block,
    when there is room for as many as the low 32 bits of the number say. -/
theorem large_file_runs (holds : Holds g v fs) (consistent : Consistent g v N) {path parent_path name : List UInt8}
    {p parent : UInt32} {kids : List Kid} (place : Place g v N path parent_path name p block parent kids)
    (room : has_room (v.block block) name = true) (fit : g.total ≤ 8 * g.block_size) (all : g.inodes = g.per_group)
    (large : 2048 ≤ g.block_size) {i : Nat} (inside : i < g.per_group) (covered : i < 8 * g.block_size)
    (clear : v.inodeBit i = false) (first : block = g.root) {data : Bytes} {num_blocks : Nat}
    (free : FreeRun g v (num_blocks % 4294967296)) (blocks : div_ceil data.size g.block_size = num_blocks)
    (cut : num_blocks % 65536 = 1) : ∃ n fs', (create_file path data).run fs = .ok n fs' := by
  have size := holds.static'.block_size
  have found := place.directory.found
  have sound := consistent.sound found
  have one := oneBlock sound
  have absent := ensure_absent_ok holds consistent found name
  rw [if_pos place.free] at absent
  -- An inode and one block are taken.
  rcases allocate_fresh holds consistent with ⟨used, -, -⟩ | ⟨n, fs₁, fresh, taken, holds₁⟩
  case inl =>
    rw [used i (by omega)] at clear
    cases clear
  have consistent₁ := consistent.spared (Wasted.inode fresh).spared
  have some : 0 < num_blocks % 4294967296 := by omega
  rcases allocate_run holds₁ consistent₁ (num_blocks % 4294967296) with
    ⟨none, -⟩ | ⟨-, past⟩ | ⟨start, fs₂, low, high, unset, ran, holds₂⟩
  · obtain ⟨t, fits, zero⟩ := free
    obtain ⟨j, above, below, set⟩ := none t fits
    rw [show (v.takeInode (n.toNat - 1)).blockBit j = v.blockBit j from rfl, zero j above below] at set
    cases set
  · exact absurd fit (Nat.not_le_of_lt past)
  have number := fresh.number
  have listed : n.toNat ≤ g.inodes := all ▸ fresh.inside
  obtain ⟨fs₃, written, holds₃⟩ := write_inode_ok holds₂ (n := n) (by omega) listed
    (file_inode data.size g.block_size num_blocks (runBlock start 1))
  -- The block of the directory comes before the one that is taken.
  have behind : (block + 1) * g.block_size ≤ start * g.block_size := by
    have owned := (sound.owned block rfl).2.2
    have clear := unset start (Nat.le_refl _) (by omega)
    have other : start ≠ block := by
      rintro rfl
      rw [show (v.takeInode (n.toNat - 1)).blockBit start = v.blockBit start from rfl, owned] at clear
      cases clear
    have low := low some
    exact Nat.mul_le_mul_right _ (by omega)
  have fits := le_div_ceil (n := data.size) (d := g.block_size) (by omega)
  rw [blocks] at fits
  have copied : (zeros (num_blocks * g.block_size)).copy 0 data =
      (.ok (file_blocks data num_blocks g.block_size) : Res Ext4Error Bytes) := copy_ok (by simpa using fits)
  have bounded := g.total_small
  have total := g.limit_total
  have inside := g.block_inside (p := start) (by omega)
  have entered : first_block (patched fs₃ (start * g.block_size) (file_blocks data num_blocks g.block_size)) (v.slot p) =
      .ok (block * g.block_size, v.block block) := first_block_before holds₃ one behind
  obtain ⟨before, last, tiles, -⟩ := lists_snoc (DirBacked.lists sound.backed)
  have roomy : Fits last name := by simpa [has_room_tiles tiles] using room
  obtain ⟨bytes, inserted, -⟩ := insert_entry_fits n 1 tiles roomy
  obtain ⟨fs₅, flushed, -⟩ := flush_metadata_ok holds₃ large
  have same : ∀ r, SameRecords fs₃ { fs₃ with reader := r } := fun r => ⟨rfl, rfl⟩
  obtain ⟨fs₆, flushed', -⟩ := (flush_records (same _)).ok_run flushed
  refine ⟨n, fs₆, ?_⟩
  rw [create_file_eq]
  have len : i_block (runs start num_blocks) = .ok (runBlock start 1) := by
    rw [runs_cut start cut]
    exact Runs.i_block_runs start 1 (by decide)
  simp only [under, run_bind, run_lift, place.split, ofRes_ok, andThen_ok, run_reads,
    open_directory_ok holds consistent place.directory, absent, create_file_at, taken, size, blocks,
    ran, len, written, show 0 < num_blocks by omega, ↓reduceIte, copied,
    in_u64_ok (show start * g.block_size < _ by omega), write_at_run, add_dir_entry, entered, inserted]
  rw [patched, patched, flushed']
  rfl
end

/-- A file of 2^44 + 1 bytes is copied, and is not what is read back. -/
theorem large_not_replicated : ∃ fs' warnings, (populate_from_host_tree (.dir [([97], .file (zeros 17592186044417))])).run
    ⟨fresh Config.default defaultLayout, []⟩ = .ok () ⟨fs', warnings⟩ ∧
      ¬ Replicates fs' (.dir [([97], .file (zeros 17592186044417))]) := by
  have laid : Layout.from_config Config.default = .ok defaultLayout := rfl
  obtain ⟨g, v, whole, blocks, clear, row⟩ := fresh_row default_small laid
  have inodes : g.per_group = 32 := whole.per_group
  have size : g.block_size = 4096 := whole.block_size
  have total : g.total = 16 := whole.total
  obtain ⟨layout, laid', root⟩ := whole.laid
  cases laid.symm.trans laid'
  have place : Place g v (rootOnly 6) (SLASH :: [97]) [SLASH] [97] ROOT_INODE 6 ROOT_INODE [] :=
    root_place (if_pos rfl) (by decide) rfl
  obtain ⟨block, here, room⟩ := row.root
  cases (rfl : rootOnly 6 ROOT_INODE = some (.dir 6 ROOT_INODE [])).symm.trans here
  have roomy : has_room (v.block 6) [97] = true := by
    rw [has_room_eq, room]
    decide
  have free : FreeRun g v 1 := ⟨7, by omega, fun j low high => clear j (by omega) (by show 6 < j; omega)⟩
  have blocks : div_ceil (zeros 17592186044417).size g.block_size = 4294967297 := by
    rw [size]
    rfl
  obtain ⟨n, fs', ran⟩ := large_file_runs row.holds row.consistent place roomy (by omega) whole.inodes
    (by omega) (i := 10) (by omega) (by omega) (row.free (by rw [List.length_nil]; omega)) root.symm free blocks (by decide)
  have whole' : kept [([97], .file (zeros 17592186044417))] = [([97], .file (zeros 17592186044417))] := rfl
  obtain ⟨warnings, copied⟩ : ∃ warnings, (populate_from_host_tree (.dir [([97], .file (zeros 17592186044417))])).run
      ⟨fresh Config.default defaultLayout, []⟩ = .ok () ⟨fs', warnings⟩ := by
    refine populate_runs ?_
    have calls : (items (Host.dirs (.dir [([97], .file (zeros 17592186044417))])) [([([97], .file (zeros 17592186044417))], [])]).map
        request = [.create_file (SLASH :: [97]) (zeros 17592186044417)] := rfl
    have first : (execute (.create_file (SLASH :: [97]) (zeros 17592186044417))).run (fresh Config.default defaultLayout) =
        .ok (some n) fs' := numbered_ok ran
    rw [calls, after_cons _ first]
    rfl
  refine ⟨fs', warnings, copied, fun replicates => ?_⟩
  have named : WellNamed (.dir [([97], .file (zeros 17592186044417))]) := by
    intro q entries there
    cases q with
    | nil =>
      cases there
      exact ⟨by decide, fun e member => by rw [List.mem_singleton.mp member]; decide⟩
    | cons name q =>
      rw [host_at_cons, Option.bind_eq_some_iff] at there
      obtain ⟨e, hit, below⟩ := there
      have same := List.mem_singleton.mp (List.mem_of_find?_eq_some hit)
      subst same
      cases q <;> cases below
  have limited := limited_of_replicates (fun _ => by decide) default_opened named copied replicates [[97]]
    (zeros 17592186044417) rfl
  have few : div_ceil (zeros 17592186044417).size 4096 ≤ 4294967296 := limited
  rw [show div_ceil (zeros 17592186044417).size 4096 = 4294967297 from rfl] at few
  omega

end Justext4.LargeFile
