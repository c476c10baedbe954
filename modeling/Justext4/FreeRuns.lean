import Justext4.Creating
import Justext4.Unmapping

/-!
The blocks that a creation hands out. Bit `i` of the bitmap stands for the
block `i` past the first data block, and the allocation takes it for the block
`i`. The run that is taken is free before and used after exactly when the first
data block is 0, and then no block in use is written besides the ones that a
creation is there to write.
-/
namespace Justext4.FreeRuns
open Justext4 Justext4.Fallible Justext4.Filesystem Bytes
open Justext4.Inode (Inode)
open Justext4.Extent (Extent)
open Justext4.BitmapLimit (bitmap bitmapOffset capacity)
open Justext4.BlockEdits (wrote)
open Justext4.Slots (InSlot withSlot)
open Justext4.Recounting
open Justext4.Runs (run runs)
open Justext4.Regions
open Justext4.Releasing
open Justext4.Unlinking (first_block_inv)
open Justext4.Creating

/-! ### A run that nothing uses -/

/-- No byte in use lies in the run. -/
def Unused (fs : Filesystem) (start count : Nat) : Prop :=
  ∀ {use : Use} {first len i : Nat}, Occupies fs use first len → first ≤ i → i < first + len → ¬ InRun fs start count i

/-- The positions that a creation writes besides the run: those of the records, and the
    first block of the directory. -/
def Written (fs : Filesystem) (p n : UInt32) (pos : Nat) (i : Nat) : Prop :=
  Among fs [.inodeBitmap 0, .blockBitmap 0, .slot n, .slot p, .superblock, .table] i ∨
    (pos ≤ i ∧ i < pos + fs.superblock.block_size.toNat)

section
variable {fs fs' : Filesystem} {p n : UInt32} {parent inode : Inode} {start count : Nat}

theorem Unused.clear (unused : Unused fs start count) {use : Use} {first len : Nat} (occupies : Occupies fs use first len) :
    Clear (InRun fs start count) first len := fun _ low high => unused occupies low high
theorem clear_or {D D' : Nat → Prop} {first len : Nat} (left : Clear D first len) (right : Clear D' first len) :
    Clear (fun i => D i ∨ D' i) first len :=
  fun i low high either => either.elim (left i low high) (right i low high)

theorem Altered.or {D D' : Nat → Prop} {mid : Filesystem} (left : Altered D fs mid) (right : Altered D' mid fs') :
    Altered (fun i => D i ∨ D' i) fs fs' := (left.wider fun _ => .inl).trans (right.wider fun _ => .inr)

/-- The first block of a directory is one of its own. -/
theorem first_block_among (live : Live fs p) (read : read_inode fs p = .ok parent) {pos : Nat} {buf : Bytes}
    (held : first_block fs parent = .ok (pos, buf)) {i : Nat} (low : pos ≤ i)
    (high : i < pos + fs.superblock.block_size.toNat) : Among fs [.data p] i := by
  obtain ⟨based, -, -, ext, physical, below, left, right, rfl, -⟩ := first_block_inv held
  have before := Nat.mul_le_mul_right fs.superblock.block_size.toNat left
  have behind := Nat.mul_le_mul_right fs.superblock.block_size.toNat (Nat.succ_le_of_lt right)
  rw [Nat.succ_mul, Nat.add_mul] at behind
  exact among_mem (List.mem_singleton.mpr rfl) (.data live read based below) (by omega) (by omega)

/-- The bits that are taken were clear. -/
theorem Creates.fresh (creates : Creates fs fs' p parent n inode start count) (separate : Separate fs)
    (few : count < 4294967296) {gd : GroupDescriptor.GroupDescriptor} (found : gdt_at fs 0 = .ok gd) :
    (0 < count → start + count ≤ capacity fs) ∧
      ∀ j, start ≤ j → j < start + count → Bitmap.get_bit (bitmap fs) j = false := by
  obtain ⟨mid, prepares, -⟩ := creates.steps
  obtain ⟨mid₁, mid₂, offset, data, pos, buf, buf', first, takes, -⟩ := prepares.steps
  rw [Nat.mod_eq_of_lt few] at takes
  obtain ⟨place, -⟩ := bitmap_first found
  have before : bitmap mid₁ = bitmap fs := by
    refine (Unlinking.Altered.bitmap first found ?_).1
    rw [place]
    exact separate.clear (.blockBitmap (gdt_at_eq_ok.mp found)) (by simp)
  have size : capacity mid₁ = capacity fs := by rw [capacity, capacity, first.block_size]
  exact ⟨fun some => size ▸ (takes.inside some).2, fun j low high => by rw [← before]; exact takes.clear j low high⟩

/-- What a creation writes when its run is not used by anything. -/
theorem Creates.exact (creates : Creates fs fs' p parent n inode start count) (separate : Separate fs)
    (unused : Unused fs start count) (live : Live fs p) (read : read_inode fs p = .ok parent)
    (positive : 0 < fs.superblock.block_size.toNat) (few : count < 4294967296)
    (whole : fs.superblock.blocks_count.toNat * fs.superblock.block_size.toNat ≤ fs.reader.size)
    {gd : GroupDescriptor.GroupDescriptor} (found : gdt_at fs 0 = .ok gd) :
    ∃ pos buf, first_block fs parent = .ok (pos, buf) ∧
      Altered (fun i => Written fs p n pos i ∨ InRun fs start count i) fs fs' ∧ ∀ j, Bitmap.get_bit (bitmap fs') j = (Bitmap.get_bit (bitmap fs) j || decide (start ≤ j ∧ j < start + count)) := by
  obtain ⟨mid, prepares, tail⟩ := creates.steps
  obtain ⟨mid₁, mid₂, offset, data, pos, buf, buf', first, takes, slot, sized, held, size, rfl⟩ := prepares.steps
  rw [Nat.mod_eq_of_lt few] at takes
  have fixed : ∀ use : Use, use.Fixed → ∀ use' ∈ [use], use'.Fixed := by
    intro use kept use' member
    rw [List.mem_singleton.mp member]
    exact kept
  have second : Altered (Among fs [.blockBitmap 0]) mid₁ mid₂ :=
    takes.altered.wider fun i => first.among (fixed (.blockBitmap 0) trivial)
  have third : Altered (Among fs [.slot n]) mid₂ (withSlot mid₂ offset inode) :=
    (write_inode_altered slot inode).wider fun i among =>
      first.among (fixed (.slot n) trivial) (second.among (fixed (.slot n) trivial) among)
  have up_to : Altered (Among fs [.inodeBitmap 0, .blockBitmap 0, .slot n]) fs (withSlot mid₂ offset inode) :=
    ((first.wider fun i => among_more (by simp)).trans (second.wider fun i => among_more (by simp))).trans
      (third.wider fun i => among_more (by simp))
  have same := up_to.block_size
  -- The data goes to the run, where the directory is not.
  have fourth : Altered (InRun fs start count) (withSlot mid₂ offset inode)
      (wrote (withSlot mid₂ offset inode) (start * fs.superblock.block_size.toNat) data) := by
    rw [← same] at sized ⊢
    refine (run_altered sized fun some => ?_).wider fun i within => by rwa [InRun, same] at within
    rw [same, up_to.size]
    obtain ⟨_, _, counted⟩ := first.superblock
    obtain ⟨inside, -⟩ := takes.inside some
    rw [counted] at inside
    exact Nat.le_trans (Nat.mul_le_mul_right _ inside) whole
  have so_far := Altered.or up_to fourth
  obtain ⟨based, -⟩ := first_block_inv held
  have untouched : Untouched (fun i => Among fs [.inodeBitmap 0, .blockBitmap 0, .slot n] i ∨ InRun fs start count i) fs parent := by
    have own : Untouched (Among fs [.inodeBitmap 0, .blockBitmap 0, .slot n]) fs parent :=
      separate.untouched live read based (by simp) (by simp)
    exact ⟨fun block below => clear_or (own.nodes block below) (unused.clear (.tree live read based below)),
      fun ext below => clear_or (own.blocks ext below) (unused.clear (.data live read based below))⟩
  have held' := held
  rw [so_far.first_block untouched] at held'
  have fifth := block_altered (by rw [so_far.block_size]; exact positive) held size
  rw [so_far.block_size] at fifth
  have entered := Altered.or so_far fifth
  have sixth : Altered (Among fs [.slot p, .superblock, .table]) _ fs' :=
    tail.wider fun i => entered.among (by simp [Use.Fixed])
  obtain ⟨offset_same, -⟩ := bitmap_first found
  have apart : ∀ uses, Use.blockBitmap 0 ∉ uses → Clear (Among fs uses) (bitmapOffset fs) fs.superblock.block_size.toNat := by
    intro uses other
    rw [offset_same]
    exact separate.clear (.blockBitmap (gdt_at_eq_ok.mp found)) other
  have before : bitmap mid₁ = bitmap fs := (Unlinking.Altered.bitmap first found (apart _ (by simp))).1
  refine ⟨pos, buf, held', ?_, ?_⟩
  · refine (entered.wider ?_).trans (sixth.wider fun i among => .inl (.inl (among_more (by simp) among)))
    rintro i ((among | within) | block)
    · exact .inl (.inl (among_more (by simp) among))
    · exact .inr within
    · exact .inl (.inr block)
  · intro j
    have later := Altered.or (Altered.or (Altered.or third fourth) fifth) sixth
    obtain ⟨gd₁, found₁, -⟩ := first.group (gdt_at_eq_ok.mp found)
    obtain ⟨gd₂, found₂, -⟩ := second.group found₁
    have moved : bitmapOffset mid₂ = bitmapOffset fs :=
      (Unlinking.Altered.bitmapOffset second (gdt_at_eq_ok.mpr found₁)).trans (Unlinking.Altered.bitmapOffset first found)
    have after : bitmap fs' = bitmap mid₂ := by
      refine (Unlinking.Altered.bitmap later (gdt_at_eq_ok.mpr found₂) ?_).1
      rw [moved, second.block_size, first.block_size]
      refine clear_or (clear_or (clear_or (apart _ (by simp)) ?_) fun i low high block => ?_) (apart _ (by simp))
      · rw [offset_same]
        exact unused.clear (.blockBitmap (gdt_at_eq_ok.mp found))
      · exact apart [.data p] (by simp) i low high (first_block_among live read held' block.1 block.2)
    rw [after, takes.bits, before]
end

/-! ### What the bits stand for -/

/-- The block has a bit in the bitmap, and that is clear. -/
def MarkedFree (fs : Filesystem) (b : Nat) : Prop :=
  fs.superblock.first_data_block.toNat ≤ b ∧ Bitmap.get_bit (bitmap fs) (b - fs.superblock.first_data_block.toNat) = false
/-- The block has a bit in the bitmap, and that is set. -/
def MarkedUsed (fs : Filesystem) (b : Nat) : Prop :=
  fs.superblock.first_data_block.toNat ≤ b ∧ Bitmap.get_bit (bitmap fs) (b - fs.superblock.first_data_block.toNat) = true

/-- A sound image of one group that lies in its blocks, where the blocks of all bytes in
    use are marked as used. -/
structure MarkedImage (fs : Filesystem) : Prop where
  consistent : ConsistentImage fs
  one : fs.gdt.length = 1
  whole : fs.superblock.blocks_count.toNat * fs.superblock.block_size.toNat ≤ fs.reader.size
  placed : Placed fs
  marked : ∀ {use : Use} {first len i : Nat}, Occupies fs use first len → first ≤ i → i < first + len →
    fs.superblock.first_data_block.toNat ≤ i / fs.superblock.block_size.toNat → MarkedUsed fs (i / fs.superblock.block_size.toNat)

/-- The blocks of the extents were free and are used, and of what was in use nothing is
    changed but the bitmaps, the records, the slots of the inode and of its directory,
    and the first block of the directory. -/
structure HandsOut (fs fs' : Filesystem) (p n : UInt32) (parent : Inode) (es : List Extent) : Prop where
  fresh : ∀ e ∈ es, ∀ b, e.physical_block.toNat ≤ b → b < e.physical_block.toNat + e.len.toNat →
    MarkedFree fs b ∧ MarkedUsed fs' b
  kept : ∀ {use : Use} {first len i : Nat}, Occupies fs use first len → first ≤ i → i < first + len →
    use ∉ [.inodeBitmap 0, .blockBitmap 0, .slot n, .slot p, .superblock, .table] →
    (∀ pos buf, first_block fs parent = .ok (pos, buf) → ¬ (pos ≤ i ∧ i < pos + fs.superblock.block_size.toNat)) →
    fs'.reader.byte i = fs.reader.byte i

section
variable {fs fs' : Filesystem} {p n : UInt32} {parent inode : Inode} {start count : Nat}

theorem MarkedImage.group (image : MarkedImage fs) : ∃ gd, gdt_at fs 0 = .ok gd := by
  have inside : 0 < fs.gdt.length := by
    rw [image.one]
    decide
  exact ⟨_, gdt_at_eq_ok.mpr (List.getElem?_eq_getElem inside)⟩
/-- A run of free blocks has no byte in use. -/
theorem MarkedImage.unused (image : MarkedImage fs) (positive : 0 < fs.superblock.block_size.toNat)
    (free : ∀ b, start ≤ b → b < start + count → MarkedFree fs b) : Unused fs start count := by
  intro use first len i occupies low high within
  have above : start ≤ i / fs.superblock.block_size.toNat := (Nat.le_div_iff_mul_le positive).mpr within.1
  have below : i / fs.superblock.block_size.toNat < start + count := (Nat.div_lt_iff_lt_mul positive).mpr within.2
  obtain ⟨described, clear⟩ := free _ above below
  obtain ⟨-, set⟩ := image.marked occupies low high described
  exact Bool.false_ne_true (clear.symm.trans set)

/-- The extents of a creation are one run, when they are not cut to 16 bits. -/
theorem mem_runs {e : Extent} (small : start < 18446744073709551616) (member : e ∈ runs start count) :
    0 < count ∧ e.physical_block.toNat = start ∧ e.len.toNat = count % 65536 := by
  rw [runs] at member
  split at member
  · rename_i some
    cases List.mem_singleton.mp member
    refine ⟨some, ?_, UInt16.toNat_ofNat'⟩
    rw [run, UInt64.toNat_ofNat', Nat.mod_eq_of_lt small]
  · cases member

theorem hands_out_of (creates : Creates fs fs' p parent n inode start count) (image : MarkedImage fs) (live : Live fs p)
    (read : read_inode fs p = .ok parent) (known : 0 < fs.superblock.block_size.toNat ∧ fs.superblock.block_size.toNat ≤ 65536)
    (few : count < 4294967296) (condition : fs.superblock.first_data_block = 0 ∨ count = 0) :
    HandsOut fs fs' p n parent (runs start count) := by
  have separate : Separate fs := image.consistent.separate
  obtain ⟨gd, found⟩ := image.group
  obtain ⟨bound, clear⟩ := Creates.fresh creates separate few found
  have free : ∀ b, start ≤ b → b < start + count → MarkedFree fs b := by
    intro b low high
    rcases condition with zero | none
    · refine ⟨by rw [zero]; exact Nat.zero_le b, ?_⟩
      rw [zero]
      exact clear b low high
    · omega
  obtain ⟨pos, buf, held, altered, bits⟩ := Creates.exact creates separate (image.unused known.1 free) live read known.1 few
    image.whole found
  constructor
  · intro e member b low high
    have small : start < 18446744073709551616 := by
      by_cases some : 0 < count
      · have limit := bound some
        rw [capacity] at limit
        omega
      · rw [runs, if_neg some] at member
        cases member
    obtain ⟨some, place, length⟩ := mem_runs small member
    have inside : start ≤ b ∧ b < start + count := by
      have less := Nat.mod_le count 65536
      omega
    have here := free b inside.1 inside.2
    obtain ⟨_, _, same⟩ := altered.superblock
    refine ⟨here, ?_, ?_⟩
    · rw [same]
      exact here.1
    · rw [same, bits]
      rcases condition with zero | none
      · rw [zero, show b - (0 : UInt32).toNat = b from rfl, decide_eq_true inside, Bool.or_true]
      · omega
  · intro use first len i occupies low high other elsewhere
    refine altered.bytes i ?_
    rintro ((among | block) | within)
    · exact separate.clear occupies other i low high among
    · exact elsewhere pos buf held block
    · exact image.unused known.1 free occupies low high within

/-- A run whose first block was free and is used has its bits at the numbers of its blocks. -/
theorem first_of_hands_out (creates : Creates fs fs' p parent n inode start count) (image : MarkedImage fs) (live : Live fs p)
    (read : read_inode fs p = .ok parent) (known : 0 < fs.superblock.block_size.toNat ∧ fs.superblock.block_size.toNat ≤ 65536)
    (few : count < 65536) (hands : HandsOut fs fs' p n parent (runs start count)) :
    fs.superblock.first_data_block = 0 ∨ count = 0 := by
  have separate : Separate fs := image.consistent.separate
  obtain ⟨gd, found⟩ := image.group
  obtain ⟨bound, -⟩ := Creates.fresh creates separate (by omega) found
  by_cases none : count = 0
  · exact .inr none
  have limit := bound (by omega)
  rw [capacity] at limit
  have member : run start count ∈ runs start count := by
    rw [runs, if_pos (by omega)]
    exact List.mem_singleton.mpr rfl
  obtain ⟨-, place, length⟩ := mem_runs (show start < 18446744073709551616 by omega) member
  rw [Nat.mod_eq_of_lt few] at length
  have each := hands.fresh _ member
  rw [place, length] at each
  obtain ⟨pos, buf, -, altered, bits⟩ := Creates.exact creates separate
    (image.unused known.1 fun b low high => (each b low high).1) live read known.1 (by omega) image.whole found
  obtain ⟨⟨described, clear⟩, -, set⟩ := each start (Nat.le_refl _) (by omega)
  obtain ⟨_, _, same⟩ := altered.superblock
  rw [same, bits, clear, Bool.false_or, decide_eq_true_eq] at set
  dsimp only at set
  refine .inl (UInt32.toNat_inj.mp ?_)
  rw [UInt32.toNat_zero]
  omega
end

/-! ### The calls -/

section
variable {fs fs' : Filesystem} {p n : UInt32} {parent inode : Inode} {start count : Nat}

theorem opened_alive (consistent : ConsistentImage fs) {path : List UInt8} (opened : open_directory fs path = .ok (p, parent)) :
    Live fs p ∧ read_inode fs p = .ok parent := by
  rw [open_directory] at opened
  obtain ⟨q, reached, opened⟩ := res_bind_eq_ok.mp opened
  obtain ⟨parent', read, opened⟩ := res_bind_eq_ok.mp opened
  obtain ⟨_, -, opened⟩ := res_bind_eq_ok.mp opened
  cases opened
  exact ⟨consistent.open_path reached, read⟩

/-- The extents that a creation writes into the inode, and where it takes them from. -/
def Makes (fs fs' : Filesystem) (n : UInt32) (count : Nat) (holds : UInt32 → Inode → List Extent → Prop) : Prop :=
  ∃ p parent inode start, Creates fs fs' p parent n inode start count ∧ Inode.uses_extents inode = true ∧
    holds p parent (runs start count)

theorem roomy_of {image : Bytes} (accepted : open_image image = .ok fs) (marked : MarkedImage fs) : Roomy fs where
  positive := Nat.lt_of_lt_of_le (by decide) (FileMap.Opened.positive (Decoders.opened_of accepted))
  flushable := flushable_opened accepted
  placed := marked.placed
  whole := marked.whole

/-- A file has no blocks exactly when it has no data. -/
theorem no_blocks (positive : 0 < fs.superblock.block_size.toNat) (data : Bytes) :
    div_ceil data.size fs.superblock.block_size.toNat = 0 ↔ data.size = 0 := by
  have enough := Volumes.le_div_ceil (n := data.size) positive
  constructor
  · intro none
    rw [none] at enough
    omega
  · intro empty
    rw [empty]
    exact Reading.div_ceil_zero _

theorem file_hands_out_iff {image : Bytes} (accepted : open_image image = .ok fs) (marked : MarkedImage fs)
    {path : List UInt8} {data : Bytes} (few : div_ceil data.size fs.superblock.block_size.toNat < 4294967296)
    (ran : (create_file path data).run fs = .ok n fs') :
    Makes fs fs' n (div_ceil data.size fs.superblock.block_size.toNat) fun p parent es =>
      (fs.superblock.first_data_block = 0 ∨ data.size = 0 → HandsOut fs fs' p n parent es) ∧
      (div_ceil data.size fs.superblock.block_size.toNat < 65536 → HandsOut fs fs' p n parent es →
        fs.superblock.first_data_block = 0 ∨ data.size = 0) := by
  have opened := Decoders.opened_of accepted
  have known : 0 < fs.superblock.block_size.toNat ∧ fs.superblock.block_size.toNat ≤ 65536 :=
    ⟨(roomy_of accepted marked).positive, FileMap.Opened.bounded opened⟩
  obtain ⟨parent_path, name, p, parent, start, inode, -, reached, based, creates⟩ :=
    create_file_ok (roomy_of accepted marked) few ran
  obtain ⟨live, read⟩ := opened_alive marked.consistent reached
  refine ⟨p, parent, inode, start, creates, based, fun condition => ?_, fun small hands => ?_⟩
  · exact hands_out_of creates marked live read known few (condition.imp_right (no_blocks known.1 data).mpr)
  · exact (first_of_hands_out creates marked live read known small hands).imp_right (no_blocks known.1 data).mp
theorem dir_hands_out_iff {image : Bytes} (accepted : open_image image = .ok fs) (marked : MarkedImage fs)
    {path : List UInt8} (ran : (mkdir path).run fs = .ok n fs') :
    Makes fs fs' n 1 fun p parent es => HandsOut fs fs' p n parent es ↔ fs.superblock.first_data_block = 0 := by
  have opened := Decoders.opened_of accepted
  have known : 0 < fs.superblock.block_size.toNat ∧ fs.superblock.block_size.toNat ≤ 65536 :=
    ⟨(roomy_of accepted marked).positive, FileMap.Opened.bounded opened⟩
  obtain ⟨parent_path, name, p, parent, start, inode, -, reached, based, creates⟩ := mkdir_ok (roomy_of accepted marked) ran
  obtain ⟨live, read⟩ := opened_alive marked.consistent reached
  refine ⟨p, parent, inode, start, creates, based, fun hands => ?_, fun zero => ?_⟩
  · exact (first_of_hands_out creates marked live read known (by decide) hands).resolve_right (by decide)
  · exact hands_out_of creates marked live read known (by decide) (.inl zero)

/-- A creation hands out free blocks exactly when the first data block is 0, or it has no
    data to store. -/
theorem creations_hand_out_iff {image : Bytes} (accepted : open_image image = .ok fs) (marked : MarkedImage fs) :
    (∀ path data n fs', div_ceil data.size fs.superblock.block_size.toNat < 4294967296 →
      (create_file path data).run fs = .ok n fs' →
      Makes fs fs' n (div_ceil data.size fs.superblock.block_size.toNat) fun p parent es =>
        (fs.superblock.first_data_block = 0 ∨ data.size = 0 → HandsOut fs fs' p n parent es) ∧
        (div_ceil data.size fs.superblock.block_size.toNat < 65536 → HandsOut fs fs' p n parent es →
          fs.superblock.first_data_block = 0 ∨ data.size = 0)) ∧
    (∀ path n fs', (mkdir path).run fs = .ok n fs' →
      Makes fs fs' n 1 fun p parent es => HandsOut fs fs' p n parent es ↔ fs.superblock.first_data_block = 0) :=
  ⟨fun _ _ _ _ few ran => file_hands_out_iff accepted marked few ran, fun _ _ _ ran => dir_hands_out_iff accepted marked ran⟩
end

/-! ### A first data block of 1 -/

/-- All places lie in the image, and every block that one of them meets is marked as used. -/
def placesMarked (fs : Filesystem) : Bool :=
  (Survey.places fs).all fun place => place.2.1 + place.2.2 ≤ fs.reader.size &&
    (List.range (fs.reader.size / fs.superblock.block_size.toNat + 1)).all fun b =>
      !(decide (place.2.1 < (b + 1) * fs.superblock.block_size.toNat) &&
        decide (b * fs.superblock.block_size.toNat < place.2.1 + place.2.2)) ||
        decide (b < fs.superblock.first_data_block.toNat) ||
        Bitmap.get_bit (bitmap fs) (b - fs.superblock.first_data_block.toNat)

theorem marked_of_places {fs : Filesystem} (sound : Survey.Sound fs) (one : fs.gdt.length = 1)
    (positive : 0 < fs.superblock.block_size.toNat)
    (whole : fs.superblock.blocks_count.toNat * fs.superblock.block_size.toNat ≤ fs.reader.size)
    (checked : placesMarked fs = true) : MarkedImage fs := by
  have each : ∀ {use first len}, Occupies fs use first len → first + len ≤ fs.reader.size ∧
      ∀ b ≤ fs.reader.size / fs.superblock.block_size.toNat, first < (b + 1) * fs.superblock.block_size.toNat →
        b * fs.superblock.block_size.toNat < first + len → fs.superblock.first_data_block.toNat ≤ b →
        Bitmap.get_bit (bitmap fs) (b - fs.superblock.first_data_block.toNat) = true := by
    intro use first len occupies
    have here := List.all_eq_true.mp checked _ (Survey.occupies_listed sound.flat occupies)
    simp only [Bool.and_eq_true, decide_eq_true_eq, List.all_eq_true, List.mem_range, Bool.or_eq_true, Bool.not_eq_true',
      Bool.and_eq_false_iff, decide_eq_false_iff_not] at here
    refine ⟨here.1, fun b small left right described => ?_⟩
    rcases here.2 b (by omega) with (apart | before) | set
    · omega
    · omega
    · exact set
  refine ⟨sound.consistent, one, whole, fun occupies => (each occupies).1, fun {use first len i} occupies low high described => ?_⟩
  obtain ⟨inside, set⟩ := each occupies
  have below := Nat.div_mul_le_self i fs.superblock.block_size.toNat
  have above := Nat.lt_div_mul_add positive (a := i)
  refine ⟨described, set _ (Nat.div_le_div_right (by omega)) ?_ (by omega) described⟩
  rw [Nat.add_mul, Nat.one_mul]
  omega

/-- An image of 23 blocks of 1024 bytes from block 1 on, with a file in block 10. -/
def shiftedSuperblock : Superblock.Superblock := Images.plain 1024 16 24 1 24 16
def shiftedGroups : List GroupDescriptor.GroupDescriptor := [⟨3, 4, 5, 13, 14, 1, 0, 0⟩]
def shiftedRoot : Inode := Survey.leafInode 0x41ED 2 1024 [⟨0, 1, 9, false⟩]
def shiftedFile : Inode := Survey.leafInode 0x81A4 1 1024 [⟨0, 1, 10, false⟩]
def shiftedParts : List (Nat × Bytes) :=
  [(3072, (zeros 1024).patch 0 (ofList [255, 3])), (4096, (zeros 1024).patch 0 (ofList [2, 4])),
    (5376, Inode.record shiftedRoot 256), (7680, Inode.record shiftedFile 256),
    (9216, Survey.entryBytes [⟨2, 12, 2, DOT⟩, ⟨2, 12, 2, DOTDOT⟩, ⟨11, 1000, 1, [97]⟩]),
    (10240, (zeros 1024).patch 0 (ofList [111, 108, 100]))]
def shiftedState : Filesystem := ⟨Images.assembled 24576 shiftedSuperblock 0 shiftedGroups shiftedParts, shiftedSuperblock, shiftedGroups⟩

theorem shifted_assembles : Images.Assembles 24576 shiftedSuperblock 0 shiftedGroups shiftedParts := by decide +kernel
theorem shifted_opens : open_image shiftedState.reader = .ok shiftedState := by
  unfold shiftedState
  dsimp only
  exact Images.open_assembled shifted_assembles
theorem shifted_marked : MarkedImage shiftedState :=
  marked_of_places (by decide +kernel) rfl (by decide) (by decide +kernel) (by decide +kernel)

/-- The call has returned, and the byte is another one. -/
def returned_changing {α : Type} (fs : Filesystem) (pos : Nat) : Ended Filesystem Ext4Error α → Bool
  | .ok _ fs' => fs'.reader.byte pos != fs.reader.byte pos
  | _ => false

/-- A new file gets the block of the old one, whose data is overwritten. -/
theorem shifted_overwrites : open_image shiftedState.reader = .ok shiftedState ∧ MarkedImage shiftedState ∧
    ∃ n fs', (create_file [SLASH, 98] (ofList [120])).run shiftedState = .ok n fs' ∧
      Makes shiftedState fs' n 1 (fun p parent es => ¬ HandsOut shiftedState fs' p n parent es) ∧
      fs'.reader.byte 10240 ≠ shiftedState.reader.byte 10240 := by
  have changes : returned_changing shiftedState 10240 ((create_file [SLASH, 98] (ofList [120])).run shiftedState) = true := by
    decide +kernel
  cases ends : (create_file [SLASH, 98] (ofList [120])).run shiftedState with
  | ok n fs' =>
    rw [ends] at changes
    obtain ⟨p, parent, inode, start, creates, based, -, only⟩ := file_hands_out_iff shifted_opens shifted_marked (by decide) ends
    refine ⟨shifted_opens, shifted_marked, n, fs', rfl, ⟨p, parent, inode, start, creates, based, fun hands => ?_⟩, ?_⟩
    · exact absurd (only (by decide) hands) (by decide)
    · simpa [returned_changing] using changes
  | err e fs' =>
    rw [ends] at changes
    cases changes
  | panic =>
    rw [ends] at changes
    cases changes

/-- With a first data block of 0 a new file of one block and a new directory get free ones. -/
theorem unshifted_hands_out : (∃ n fs', (create_file [SLASH, 98] (ofList [120])).run Unmapping.writtenState = .ok n fs' ∧
      Makes Unmapping.writtenState fs' n 1 (HandsOut Unmapping.writtenState fs' · n · ·)) ∧
    ∃ n fs', (mkdir [SLASH, 98]).run Unmapping.writtenState = .ok n fs' ∧
      Makes Unmapping.writtenState fs' n 1 (HandsOut Unmapping.writtenState fs' · n · ·) := by
  have marked : MarkedImage Unmapping.writtenState :=
    marked_of_places (by decide +kernel) rfl (by decide) (by decide +kernel) (by decide +kernel)
  obtain ⟨files, directories⟩ := creations_hand_out_iff Unmapping.written_opens marked
  have returns : Survey.returned ((create_file [SLASH, 98] (ofList [120])).run Unmapping.writtenState) = true := by decide +kernel
  have returns' : Survey.returned ((mkdir [SLASH, 98]).run Unmapping.writtenState) = true := by decide +kernel
  obtain ⟨n, fs', ran⟩ := Survey.returned_ok returns
  obtain ⟨m, fs'', ran'⟩ := Survey.returned_ok returns'
  obtain ⟨p, parent, inode, start, creates, based, hands, -⟩ := files _ _ n fs' (by decide) ran
  obtain ⟨p', parent', inode', start', creates', based', hands'⟩ := directories _ m fs'' ran'
  exact ⟨⟨n, fs', ran, p, parent, inode, start, creates, based, hands (.inl rfl)⟩, m, fs'', ran', p', parent', inode', start',
    creates', based', hands'.mpr rfl⟩

end Justext4.FreeRuns
