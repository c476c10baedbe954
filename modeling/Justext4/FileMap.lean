import Justext4.ExtentMap
import Justext4.Reading

/-!
The contents of a file as the extent map gives them. Each logical block is the
block of the image that it maps to, or zeros, and the contents are these blocks
cut to the size; where one of them cannot be read there are no contents.
-/
namespace Justext4.FileMap
open Justext4 Justext4.Fallible Justext4.Filesystem Justext4.Volumes Bytes
open Justext4.Inode (Inode I_BLOCK_LEN)
open Justext4.Decoders
open Justext4.ExtentMap
open Justext4.Images
open Justext4.Runs (runBlock resolve_runs size_joined slice_joined)

/-- The first failure of a row is the failure of the row. -/
theorem collect_fails {ε α : Type} {f : Nat → Res ε α} {i j n : Nat} (low : i ≤ j) (high : j < i + n)
    (fails : ∃ e, f j = .error (.err e)) (before : ∀ k, i ≤ k → k < j → NoPanic (f k)) :
    ∃ e, collect f i n = .error (.err e) := by
  induction n generalizing i with
  | zero => omega
  | succ n ih =>
    rw [collect]
    cases first : f i with
    | error fault =>
      cases fault with
      | err e => exact ⟨e, rfl⟩
      | panic =>
        by_cases here : i = j
        · obtain ⟨e, failed⟩ := fails
          rw [here, failed] at first
          cases first
        · exact absurd first (before i (Nat.le_refl i) (by omega))
    | ok a =>
      have later : i ≠ j := by
        rintro rfl
        obtain ⟨e, failed⟩ := fails
        rw [failed] at first
        cases first
      obtain ⟨e, failed⟩ := ih (i := i + 1) (by omega) (by omega) fun k low high => before k (by omega) high
      exact ⟨e, by rw [res_bind_ok, failed, res_bind_error]⟩

/-! ### One block -/

/-- A block of the file, zeros where nothing is mapped. -/
def mappedBlock (fs : Filesystem) (inode : Inode) (logical : Nat) : Bytes :=
  match resolve_logical_block fs inode logical with
  | .ok (some physical) =>
    fs.reader.slice (physical * fs.superblock.block_size.toNat) fs.superblock.block_size.toNat
  | _ => zeros fs.superblock.block_size.toNat

/-- The logical block is a hole or is mapped to a block inside the image. -/
def Readable (fs : Filesystem) (inode : Inode) (logical : Nat) : Prop :=
  ∃ resolved, resolve_logical_block fs inode logical = .ok resolved ∧ ∀ physical ∈ resolved,
    physical * fs.superblock.block_size.toNat + fs.superblock.block_size.toNat ≤ fs.reader.size
/-- The logical block does not resolve, or is mapped past the end of the image. -/
def Unreadable (fs : Filesystem) (inode : Inode) (logical : Nat) : Prop :=
  (∃ e, resolve_logical_block fs inode logical = .error e) ∨
  ∃ physical, resolve_logical_block fs inode logical = .ok (some physical) ∧
    fs.reader.size < physical * fs.superblock.block_size.toNat + fs.superblock.block_size.toNat
/-- The offset that the logical block is mapped to has 64 bits. -/
def Addressed (fs : Filesystem) (inode : Inode) (logical : Nat) : Prop :=
  ∀ physical, resolve_logical_block fs inode logical = .ok (some physical) →
    physical * fs.superblock.block_size.toNat < 18446744073709551616

section
variable {fs : Filesystem} {inode : Inode} {logical : Nat}

theorem size_mappedBlock : (mappedBlock fs inode logical).size = fs.superblock.block_size.toNat := by
  rw [mappedBlock]
  split <;> rfl

theorem read_block_ok (small : logical < 4294967296) (readable : Readable fs inode logical)
    (addressed : Addressed fs inode logical) : read_block fs inode logical = .ok (mappedBlock fs inode logical) := by
  obtain ⟨resolved, same, inside⟩ := readable
  rw [read_block, ensure_of small, res_bind_ok, same, res_bind_ok, mappedBlock, same]
  cases resolved with
  | none => rfl
  | some physical =>
    dsimp only
    rw [in_u64_ok (addressed physical same), res_bind_ok, read_at_ok (inside physical rfl)]
theorem read_block_noPanic (bounded : fs.superblock.block_size.toNat ≤ 65536) (addressed : Addressed fs inode logical) :
    NoPanic (read_block fs inode logical) := by
  rw [read_block]
  refine noPanic_bind (noPanic_ensure _ _) fun _ _ => noPanic_bind (resolve_noPanic bounded _ _) fun resolved same => ?_
  cases resolved with
  | none => exact noPanic_ok _
  | some physical =>
    dsimp only
    rw [in_u64_ok (addressed physical same), res_bind_ok]
    exact noPanic_read_at _ _ _
theorem read_block_fails (positive : 0 < fs.superblock.block_size.toNat)
    (bounded : fs.superblock.block_size.toNat ≤ 65536) (small : logical < 4294967296)
    (addressed : Addressed fs inode logical) (unreadable : Unreadable fs inode logical) :
    ∃ e, read_block fs inode logical = .error (.err e) := by
  rw [read_block, ensure_of small, res_bind_ok]
  rcases unreadable with ⟨fault, failed⟩ | ⟨physical, same, outside⟩
  · cases fault with
    | err e => exact ⟨e, by rw [failed, res_bind_error]⟩
    | panic => exact absurd failed (resolve_noPanic bounded inode logical)
  · refine ⟨.Io, ?_⟩
    rw [same, res_bind_ok]
    dsimp only
    rw [in_u64_ok (addressed physical same), res_bind_ok, read_at, if_neg (by omega)]
end

/-! ### All blocks -/

section
variable {image : Bytes} {fs : Filesystem} {inode : Inode}

theorem Opened.positive (opened : Opened image fs) : 1024 ≤ fs.superblock.block_size.toNat := by
  have known := opened.known
  omega
theorem Opened.bounded (opened : Opened image fs) : fs.superblock.block_size.toNat ≤ 65536 := by
  have known := opened.known
  omega

/-- A file below 2^32 blocks has as many blocks as its size takes, and a buffer for them. -/
theorem few_blocks (opened : Opened image fs)
    (small : inode.size.toNat < 4294967296 * fs.superblock.block_size.toNat) :
    div_ceil inode.size.toNat fs.superblock.block_size.toNat ≤ 4294967296 ∧
      capacity_ok (div_ceil inode.size.toNat fs.superblock.block_size.toNat * fs.superblock.block_size.toNat) = true := by
  have positive := Opened.positive opened
  have few : div_ceil inode.size.toNat fs.superblock.block_size.toNat ≤ 4294967296 := by
    rw [div_ceil]
    exact Nat.le_of_lt_succ ((Nat.div_lt_iff_lt_mul (by omega)).mpr (by omega))
  have product := Nat.mul_le_mul few (Opened.bounded opened)
  exact ⟨few, decide_eq_true (by omega)⟩

theorem read_file_whole (opened : Opened image fs)
    (small : inode.size.toNat < 4294967296 * fs.superblock.block_size.toNat)
    (long : ¬ (Inode.is_symlink inode ∧ inode.size.toNat ≤ I_BLOCK_LEN))
    (readable : ∀ logical < div_ceil inode.size.toNat fs.superblock.block_size.toNat, Readable fs inode logical)
    (addressed : ∀ logical < div_ceil inode.size.toNat fs.superblock.block_size.toNat, Addressed fs inode logical) :
    ∃ data, read_file fs inode = .ok data ∧ data.size = inode.size.toNat ∧ ∀ i < inode.size.toNat,
      data.byte i = (mappedBlock fs inode (i / fs.superblock.block_size.toNat)).byte
        (i % fs.superblock.block_size.toNat) := by
  obtain ⟨few, capacity⟩ := few_blocks opened small
  have positive := Opened.positive opened
  by_cases empty : inode.size.toNat = 0
  · exact ⟨zeros 0, by rw [read_file, if_pos empty], empty.symm, by omega⟩
  have blocks : collect (read_block fs inode) 0 (div_ceil inode.size.toNat fs.superblock.block_size.toNat) =
      .ok ((List.range' 0 (div_ceil inode.size.toNat fs.superblock.block_size.toNat)).map (mappedBlock fs inode)) :=
    collect_ok fun j _ inside => read_block_ok (by omega) (readable j (by omega)) (addressed j (by omega))
  have sized : ∀ b ∈ (List.range' 0 (div_ceil inode.size.toNat fs.superblock.block_size.toNat)).map
      (mappedBlock fs inode), b.size = fs.superblock.block_size.toNat := by
    intro b member
    obtain ⟨j, -, rfl⟩ := List.mem_map.mp member
    exact size_mappedBlock
  have enough := le_div_ceil (n := inode.size.toNat) (d := fs.superblock.block_size.toNat) (by omega)
  have whole := size_joined sized
  rw [List.length_map, List.length_range'] at whole
  have cut : min inode.size.toNat (joined ((List.range' 0 (div_ceil inode.size.toNat
      fs.superblock.block_size.toNat)).map (mappedBlock fs inode))).size = inode.size.toNat := by omega
  refine ⟨_, by
    rw [read_file, if_neg empty, if_neg long, capacity, orPanic_true, res_bind_ok, blocks, res_bind_ok], ?_, ?_⟩
  · rw [Bytes.truncate, size_slice, cut]
  · intro i inside
    have place : i / fs.superblock.block_size.toNat < div_ceil inode.size.toNat fs.superblock.block_size.toNat :=
      (Nat.div_lt_iff_lt_mul (by omega)).mpr (by omega)
    have found : ((List.range' 0 (div_ceil inode.size.toNat fs.superblock.block_size.toNat)).map
        (mappedBlock fs inode))[i / fs.superblock.block_size.toNat]? =
        some (mappedBlock fs inode (i / fs.superblock.block_size.toNat)) := by
      rw [List.getElem?_map, List.getElem?_range' place, Option.map_some, Nat.zero_add, Nat.one_mul]
    have rest : i % fs.superblock.block_size.toNat < fs.superblock.block_size.toNat := Nat.mod_lt _ (by omega)
    have split := Nat.div_add_mod' i fs.superblock.block_size.toNat
    rw [Bytes.truncate, cut, byte_slice_of_lt _ inside, Nat.zero_add, ← slice_joined sized found, byte_slice_of_lt _ rest,
      split]
theorem read_file_fails (opened : Opened image fs)
    (small : inode.size.toNat < 4294967296 * fs.superblock.block_size.toNat)
    (long : ¬ (Inode.is_symlink inode ∧ inode.size.toNat ≤ I_BLOCK_LEN)) {logical : Nat}
    (needed : logical < div_ceil inode.size.toNat fs.superblock.block_size.toNat)
    (unreadable : Unreadable fs inode logical) (addressed : ∀ before ≤ logical, Addressed fs inode before) :
    ∃ e, read_file fs inode = .error (.err e) := by
  obtain ⟨few, capacity⟩ := few_blocks opened small
  have positive := Opened.positive opened
  have bounded := Opened.bounded opened
  have some : inode.size.toNat ≠ 0 := by
    intro empty
    rw [empty, div_ceil, Nat.zero_add, Nat.div_eq_of_lt (by omega)] at needed
    omega
  have failed := read_block_fails (by omega) bounded (by omega) (addressed logical (Nat.le_refl _)) unreadable
  obtain ⟨e, stopped⟩ := collect_fails (n := div_ceil inode.size.toNat fs.superblock.block_size.toNat) (Nat.zero_le _)
    (by omega) failed fun k _ before => read_block_noPanic bounded (addressed k (by omega))
  exact ⟨e, by
    rw [read_file, if_neg some, if_neg long, capacity, orPanic_true, res_bind_ok, stopped, res_bind_error]⟩
end

/-- What `read_file` returns for an inode below 2^32 blocks. -/
theorem read_file_bytes {image : Bytes} {fs : Filesystem} {inode : Inode} (opened : open_image image = .ok fs)
    (memory : image.size < 18446744073709551616)
    (small : inode.size.toNat < 4294967296 * fs.superblock.block_size.toNat) :
    (¬ (Inode.is_symlink inode ∧ inode.size.toNat ≤ I_BLOCK_LEN) →
      (∀ logical < div_ceil inode.size.toNat fs.superblock.block_size.toNat, Readable fs inode logical) →
      ∃ data, read_file fs inode = .ok data ∧ data.size = inode.size.toNat ∧ ∀ i < inode.size.toNat,
        (∀ physical, resolve_logical_block fs inode (i / fs.superblock.block_size.toNat) = .ok (some physical) →
          data.byte i = image.byte (physical * fs.superblock.block_size.toNat + i % fs.superblock.block_size.toNat)) ∧
        (resolve_logical_block fs inode (i / fs.superblock.block_size.toNat) = .ok none → data.byte i = 0)) ∧
    (Inode.is_symlink inode ∧ inode.size.toNat ≤ I_BLOCK_LEN →
      read_file fs inode = .ok (inode.block.bytes.slice 0 inode.size.toNat)) ∧
    (¬ (Inode.is_symlink inode ∧ inode.size.toNat ≤ I_BLOCK_LEN) →
      ∀ logical < div_ceil inode.size.toNat fs.superblock.block_size.toNat, Unreadable fs inode logical →
        (∀ before ≤ logical, Addressed fs inode before) → ∃ e, read_file fs inode = .error (.err e)) := by
  have accepted := opened_of opened
  have positive := Opened.positive accepted
  refine ⟨?_, ?_, fun long logical needed unreadable => read_file_fails accepted small long needed unreadable⟩
  · intro long readable
    have addressed : ∀ logical < div_ceil inode.size.toNat fs.superblock.block_size.toNat, Addressed fs inode logical := by
      intro logical needed physical mapped
      obtain ⟨resolved, same, inside⟩ := readable logical needed
      rw [mapped] at same
      cases same
      have ends := inside physical rfl
      rw [accepted.reader] at ends
      omega
    obtain ⟨data, read, size, bytes⟩ := read_file_whole accepted small long readable addressed
    refine ⟨data, read, size, fun i inside => ⟨?_, ?_⟩⟩
    · intro physical mapped
      have rest : i % fs.superblock.block_size.toNat < fs.superblock.block_size.toNat := Nat.mod_lt _ (by omega)
      rw [bytes i inside, mappedBlock, mapped, ← accepted.reader]
      exact byte_slice_of_lt _ rest
    · intro hole
      rw [bytes i inside, mappedBlock, hole]
      rfl
  · intro short
    by_cases empty : inode.size.toNat = 0
    · rw [read_file, if_pos empty, empty]
      exact congrArg Except.ok (ext_inside rfl fun i inside => by cases inside)
    · rw [read_file, if_neg empty, if_pos short]

/-- A block that holds a node is read as a file, and a block past the end is not. -/
theorem reads_nodes :
    (∃ data, read_file (nodesOpen [(3072, nodeBlock (pointing 3))]) (mapping (runBlock 3 1)) = .ok data ∧
      data.size = 1024 ∧ data.byte 0 = 0x0A) ∧
    ∃ e, read_file (nodesOpen [(3072, nodeBlock (pointing 3))]) (mapping (runBlock 9 1)) = .error (.err e) := by
  have assembles : Assembles 8192 chainSuperblock 0 [chainDescriptor] [(3072, nodeBlock (pointing 3))] :=
    nodes_assemble (by decide) (by decide)
  have opened : open_image (nodesImage [(3072, nodeBlock (pointing 3))]) = .ok (nodesOpen [(3072, nodeBlock (pointing 3))]) :=
    open_assembled assembles
  have size : (nodesImage [(3072, nodeBlock (pointing 3))]).size = 8192 := size_assembled assembles
  have placed := slice_part assembles (List.mem_cons_of_mem _ (List.mem_cons_of_mem _ (List.mem_singleton.mpr rfl)))
  have maps : ∀ start, start < 100 → resolve_logical_block (nodesOpen [(3072, nodeBlock (pointing 3))])
      (mapping (runBlock start 1)) 0 = .ok (some start) := fun start few =>
    (resolve_runs rfl rfl (by decide) (by omega) 0).trans (by rw [if_pos (by decide)]; rfl)
  have one : ∀ start, div_ceil (mapping (runBlock start 1)).size.toNat
      (nodesOpen [(3072, nodeBlock (pointing 3))]).superblock.block_size.toNat = 1 := fun _ =>
    Reading.div_ceil_self (show 0 < 1024 by decide)
  constructor
  · obtain ⟨data, read, length, bytes⟩ := (@read_file_bytes _ _ (mapping (runBlock 3 1)) opened (by omega)
      (by decide)).1 (by decide) (fun logical needed => by
        rw [one] at needed
        obtain rfl : logical = 0 := by omega
        refine ⟨some 3, maps 3 (by decide), fun physical found => ?_⟩
        cases found
        show 3 * 1024 + 1024 ≤ (nodesImage [(3072, nodeBlock (pointing 3))]).size
        omega)
    refine ⟨data, read, length, ?_⟩
    rw [(bytes 0 (by decide)).1 3 (maps 3 (by decide))]
    have head := congrArg (fun b => b.byte 0) placed
    simp only [byte_slice_of_lt _ (show 0 < (nodeBlock (pointing 3)).size by decide)] at head
    exact head
  · refine (@read_file_bytes _ _ (mapping (runBlock 9 1)) opened (by omega) (by decide)).2.2 (by decide) 0
      (by rw [one]; decide) (.inr ⟨9, maps 9 (by decide), ?_⟩) ?_
    · show (nodesImage [(3072, nodeBlock (pointing 3))]).size < 9 * 1024 + 1024
      omega
    · intro before first physical mapped
      obtain rfl : before = 0 := by omega
      rw [maps 9 (by decide)] at mapped
      cases mapped
      decide

end Justext4.FileMap
