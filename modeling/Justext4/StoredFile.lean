import Justext4.BitmapLimit
import Justext4.LargeFile

/-!
What `create_file` stores. The extent of a new file is to have all of its
blocks, each of them taken for it, and the file is to read as the data. The
length of the extent is a word of 16 bits and the number of blocks is cut to
it, so this comes down to the number of blocks.
-/
namespace Justext4.StoredFile
open Justext4 Justext4.Fallible Justext4.Filesystem Justext4.Volumes Justext4.Mkfs Bytes
open Justext4.Inode (Inode)
open Justext4.Extent (Extent ExtentHeader decode_extent_node)
open Justext4.Nodes
open Justext4.Backing
open Justext4.Reading
open Justext4.Allocation
open Justext4.Create
open Justext4.Start
open Justext4.Calls
open Justext4.Progress
open Justext4.Formatted (accepted_of_layout used_block used_inode)
open Justext4.BitmapLimit (bitmap bitmapOffset)
open Justext4.LargeFile (large_file_runs)
open Justext4.Runs (run runs)

/-- The extent has all of a number of blocks, from the first one on, and they have
    been taken. -/
structure Covers (fs fs' : Filesystem) (num_blocks : Nat) (e : Extent) : Prop where
  whole : e.logical_block = 0 ∧ e.len.toNat = num_blocks ∧ e.uninit = false
  clear : ∀ j < num_blocks, Bitmap.get_bit (bitmap fs) (e.physical_block.toNat + j) = false
  set : ∀ j < num_blocks, Bitmap.get_bit (bitmap fs') (e.physical_block.toNat + j) = true

/-- The file that has been created from the data. -/
structure Stored (fs fs' : Filesystem) (n : UInt32) (data : Bytes) : Prop where
  inode : ∃ inode h extents, read_inode fs' n = .ok inode ∧
    decode_extent_node inode.block.bytes = .ok (.Leaf h extents) ∧
    extents.length = (if 0 < div_ceil data.size fs.superblock.block_size.toNat then 1 else 0) ∧
    (∀ e ∈ extents, Covers fs fs' (div_ceil data.size fs.superblock.block_size.toNat) e) ∧
    read_file fs' inode = .ok data

section
variable {g : Geometry} {v v' : Volume} {N N' : NodeMap} {fs fs' : Filesystem} {data : Bytes} {n : UInt32}

/-- More blocks than the length of an extent counts are not in one. -/
theorem stored_few (stored : Stored fs fs' n data) : div_ceil data.size fs.superblock.block_size.toNat < 65536 := by
  obtain ⟨inode, h, extents, -, -, length, covers, -⟩ := stored.inode
  by_contra many
  rw [if_pos (by omega)] at length
  obtain ⟨e, rfl⟩ := List.length_eq_one_iff.mp length
  have len := (covers e (List.mem_singleton.mpr rfl)).whole.2.1
  have bound := e.len.toNat_lt
  omega

/-- The bitmap that allocations go by is that of the volume. -/
theorem bitmap_bit (holds : Holds g v fs) {j : Nat} (inside : j < 8 * g.block_size) :
    Bitmap.get_bit (bitmap fs) j = v.blockBit j := by
  obtain ⟨gd, found, two, -⟩ := gdt_at_ok holds
  have size := holds.static'.block_size
  rw [← holds.block_bits j inside, bitmap, bitmapOffset, found, size]
  simp only [two]
  rfl

/-- The run that is handed out to a file was clear. -/
theorem placed_clear (holds : Holds g v fs) (consistent : Consistent g v N) {count start : Nat}
    (placed : Placed fs count n start) {j : Nat} (low : start ≤ j) (high : j < start + count) : v.blockBit j = false := by
  obtain ⟨fs₁, fs₂, taken, ran⟩ := placed
  rcases allocate_fresh holds consistent with ⟨-, -, full⟩ | ⟨m, fs₁', -, taken', holds₁⟩
  · cases taken.symm.trans full
  cases taken.symm.trans taken'
  rcases allocate_blocks_spec holds₁ count (by omega) with ⟨refused, -⟩ | ⟨panicked, -⟩ | ⟨start', fs₂', -, clear, ran', -⟩
  · cases ran.symm.trans refused
  · cases ran.symm.trans panicked
  · cases ran.symm.trans ran'
    exact clear j low high

theorem create_file_takes (holds : Holds g v fs) (consistent : Consistent g v N) (path : List UInt8)
    (storable : Storable g.block_size (div_ceil data.size g.block_size)) :
    Creation g v N fs path True (div_ceil data.size g.block_size)
      (fun v' n x => Filled g data v' n x ∧ Takes fs (div_ceil data.size g.block_size) n x)
      ((create_file path data).run fs) := by
  rw [create_file_eq]
  rcases under_ends path holds consistent (fun _ parent_inode filename => create_file_at data parent_inode filename)
    with ⟨-, e, refused⟩ | ⟨parent_path, name, p, block, parent, kids, place, ran⟩
  · rw [refused]
    exact .refused trivial
  · rw [ran]
    exact create_file_at_takes holds consistent storable place fun _ => trivial

/-- A file is stored whole when its number of blocks is not cut. -/
theorem few_stored (holds : Holds g v fs) (consistent : Consistent g v N) {path : List UInt8}
    (few : div_ceil data.size g.block_size < 65536) (ran : (create_file path data).run fs = .ok n fs') :
    Stored fs fs' n data := by
  have ended : Creation g v N fs path True _ _ ((create_file path data).run fs) :=
    create_file_takes holds consistent path (.inl few)
  rw [ran] at ended
  cases ended with
  | @made _ _ v' N' x holds' written grown held =>
  obtain ⟨⟨start, count, rfl, bytes, size, -⟩, start', placed, owns⟩ := held
  have live : N' n = some (.file start count) := by
    obtain ⟨_, _, _, _, _, _, -, same, -⟩ := grown.place
    rw [same]
    exact if_pos rfl
  have sound := grown.consistent.sound live
  have backed : FileBacked g v' n start count := sound.backed
  have same := holds.static'.block_size
  have all : count = div_ceil data.size g.block_size := by rw [← backed.size, size]
  obtain ⟨h, decoded⟩ := Runs.decode_runs count backed.short backed.small
  refine ⟨⟨v'.slot n, h, runs start count, read_inode_ok holds' sound.low sound.listed, by rw [backed.run, decoded], ?_,
    ?_, by rw [read_file_file holds' sound, bytes]⟩⟩
  · rw [same, ← all, runs]
    split <;> rfl
  · intro e member
    rw [same, ← all]
    have some : 0 < count := by
      by_contra none
      rw [runs, if_neg none] at member
      cases member
    rw [runs, if_pos some, List.mem_singleton] at member
    subst member
    have short := backed.short
    have small := backed.small
    have physical : (run start count).physical_block.toNat = start := by
      show (UInt64.ofNat start).toNat = start
      rw [UInt64.toNat_ofNat']
      omega
    have length : (run start count).len.toNat = count := by
      show (UInt16.ofNat count).toNat = count
      rw [UInt16.toNat_ofNat']
      omega
    refine ⟨⟨rfl, length, rfl⟩, fun j inside => ?_, fun j inside => ?_⟩
    · obtain ⟨-, below, -⟩ := sound.owned (start + j) ⟨by omega, by omega⟩
      obtain ⟨from_, to_⟩ := owns (start + j) ⟨by omega, by omega⟩
      rw [physical, bitmap_bit holds (Nat.lt_of_lt_of_le below g.limit_bitmap)]
      exact placed_clear holds consistent placed from_ to_
    · obtain ⟨-, below, taken⟩ := sound.owned (start + j) ⟨by omega, by omega⟩
      rw [physical, bitmap_bit holds' (Nat.lt_of_lt_of_le below g.limit_bitmap), taken]

/-- In every state that calls lead to, a file that `create_file` returns is stored
    whole exactly when its number of blocks fits the length of an extent. -/
theorem stored_iff {config : Config} (contained : Contained config) (reached : Reached config Admissible fs)
    {path : List UInt8} (ran : (create_file path data).run fs = .ok n fs') :
    Stored fs fs' n data ↔ div_ceil data.size fs.superblock.block_size.toNat < 65536 := by
  constructor
  · exact stored_few
  · intro few
    obtain ⟨_, g, -, -, v, N, holds, consistent⟩ := reached_backs contained reached
    rw [holds.static'.block_size] at few
    exact few_stored holds consistent few ran
end

/-- A file of two blocks on a fresh image. -/
theorem two_blocks_stored : ∃ n fs', (create_file [SLASH, 97] (zeros 5000)).run (fresh Config.default defaultLayout) =
    .ok n fs' ∧ Stored (fresh Config.default defaultLayout) fs' n (zeros 5000) := by
  obtain ⟨g, v, whole, blocks, clear, row⟩ :=
    fresh_row default_small (show Layout.from_config Config.default = .ok defaultLayout from rfl)
  have numbers : g.per_group = 32 := whole.per_group
  have total : g.total = 16 := whole.total
  have size : g.block_size = 4096 := whole.block_size
  have two : div_ceil (zeros 5000).size g.block_size = 2 := by
    rw [size]
    rfl
  have few : div_ceil (zeros 5000).size g.block_size ≤ 32768 := by omega
  have free : FreeRun g v (div_ceil (zeros 5000).size g.block_size) :=
    ⟨7, by rw [two, blocks, total, size]; decide, fun j low high => clear j (by omega) low⟩
  obtain ⟨n, fs', _, _, _, ran, -⟩ := row.file whole (by rw [numbers]; decide) (show Proper [97] by decide) (by decide)
    (by decide) (by decide) few free
  have contained : Contained Config.default := fun _ => by decide
  exact ⟨n, fs', ran, (stored_iff contained default_opened.reached ran).mpr (by decide)⟩

/-- A fresh image with nothing but the root, whatever the counts are. -/
theorem start_bits {config : Config} {layout : Layout} (covered : Covered config layout) :
    ∃ fs g, Opened config fs ∧ Fitting config layout g ∧ g.blocks = g.total ∧ g.inodes = g.per_group ∧
      Holds g (volumeOf g fs) fs ∧ Consistent g (volumeOf g fs) (rootOnly layout.root_dir_block) ∧
      Entries.tail_room ((volumeOf g fs).block layout.root_dir_block) = config.block_size.toNat - 24 ∧
      (∀ b < 8 * g.block_size, (volumeOf g fs).blockBit b = used_block config layout b) ∧
      ∀ i < 8 * g.block_size, (volumeOf g fs).inodeBit i = used_inode config i := by
  obtain ⟨log, dots, blocks, inodes, written, ran, opened, fitting, static⟩ := start_large covered.usable covered.large
  exact ⟨_, _, ⟨_, ran, opened⟩, fitting, rfl, rfl, holds_volumeOf static (size_formatted written),
    start_consistent (accepted_of_layout covered.laid) written fitting, root_room covered ran,
    fun _ small => start_blockBit written fitting small, fun _ small => start_inodeBit written fitting small⟩

/-- Blocks of 64 KiB, and more than 2^16 of them. -/
def largeBlocks : Config := { Config.default with block_size := 65536, size_blocks := 70000 }
def largeLayout : Layout := ⟨65536, 1, 4, 5, 6⟩

/-- A file of 65537 blocks gets an extent of one. -/
theorem large_unmapped : ∃ fs n fs', Opened largeBlocks fs ∧
    (create_file [SLASH, 97] (zeros 4295032832)).run fs = .ok n fs' ∧ ¬ Stored fs fs' n (zeros 4295032832) := by
  have covered : Covered largeBlocks largeLayout := ⟨rfl, by decide, by decide, by decide⟩
  obtain ⟨fs, g, opened, fitting, all, listed, holds, consistent, room, blocks, inodes⟩ := start_bits covered
  have size : g.block_size = 65536 := fitting.block_size
  have total : g.total = 70000 := fitting.total
  have numbers : g.per_group = 32 := fitting.per_group
  have place : Place g (volumeOf g fs) (rootOnly 5) (SLASH :: [97]) [SLASH] [97] ROOT_INODE 5 ROOT_INODE [] :=
    root_place (if_pos rfl) (by decide) rfl
  have roomy : Entries.has_room ((volumeOf g fs).block 5) [97] = true := by
    rw [Entries.has_room_eq, show Entries.tail_room ((volumeOf g fs).block 5) = 65536 - 24 from room]
    decide
  have unused : ∀ j, 6 ≤ j → j < 6 + 65537 → (volumeOf g fs).blockBit j = false := by
    intro j low high
    have before : ¬ j < largeLayout.metadata_blocks := Nat.not_lt_of_le low
    have inside : ¬ largeBlocks.size_blocks.toNat ≤ j := Nat.not_le_of_lt (Nat.lt_trans high (by decide))
    rw [blocks j (by omega), used_block, decide_eq_false before, decide_eq_false inside, Bool.or_false]
  have clear : (volumeOf g fs).inodeBit 10 = false := inodes 10 (by omega)
  have count : div_ceil (zeros 4295032832).size g.block_size = 65537 := by
    rw [size]
    rfl
  obtain ⟨n, fs', created⟩ := large_file_runs holds consistent place roomy (by omega) listed (by omega) (i := 10)
    (by omega) (by omega) clear fitting.root.symm ⟨6, by omega, unused⟩ count (by decide)
  refine ⟨fs, n, fs', opened, created, fun stored => ?_⟩
  have few := stored_few stored
  rw [holds.static'.block_size, count] at few
  omega

end Justext4.StoredFile
