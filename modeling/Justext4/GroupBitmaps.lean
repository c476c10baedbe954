import Justext4.Unmapping

/-!
The bitmaps of the groups. An inode and a block have a group and a bit in the
bitmap of that group. A release clears, in the bitmap of the first group, the bit
that has the number of the inode or of the block, which is the right one for the
first group of an image whose first data block is 0, and for nothing else.
-/
namespace Justext4.GroupBitmaps
open Justext4 Justext4.Fallible Justext4.Filesystem Bytes
open Justext4.GroupDescriptor (GroupDescriptor)
open Justext4.Inode (Inode)
open Justext4.Extent (Extent ExtentHeader decode_extent_node)
open Justext4.ExtentMap (Below below_leaf)
open Justext4.BitmapLimit (bitmap bitmapOffset capacity)
open Justext4.FlushedRecords (InSpans)
open Justext4.Counts (clearBits)
open Justext4.Recounting
open Justext4.Regions
open Justext4.Releasing
open Justext4.Unlinking
open Justext4.Survey (Sound numbers extentsOf extents_below)
open Justext4.Unmapping (Within Parted runOf count_runs within_past)

/-! ### A row of bitmaps -/

section
variable {bit bit' : Nat → Nat → Bool} {shift size : Nat} {runs : List (Nat × Nat)}

/-- The bits of the numbers in the runs are cleared in the first bitmap. -/
def InOne (bit bit' : Nat → Nat → Bool) (runs : List (Nat × Nat)) : Prop :=
  ∀ group j, bit' group j = true ↔ bit group j = true ∧ ¬ (group = 0 ∧ InSpans runs j)
/-- The bits of the numbers in the runs are cleared where they are, when the bitmaps have
    `size` bits each and the first bit is that of `shift`. -/
def InEach (bit bit' : Nat → Nat → Bool) (shift size : Nat) (runs : List (Nat × Nat)) : Prop :=
  ∀ group j, bit' group j = true ↔
    bit group j = true ∧ ¬ ∃ i, InSpans runs i ∧ (i - shift) / size = group ∧ (i - shift) % size = j
/-- The numbers in the runs have bits in the row, and these are set. -/
def AllSet (bit : Nat → Nat → Bool) (shift size : Nat) (runs : List (Nat × Nat)) : Prop :=
  ∀ i, InSpans runs i → shift ≤ i ∧ bit ((i - shift) / size) ((i - shift) % size) = true
/-- The numbers in the runs are those of bits of the first bitmap. -/
def Unshifted (shift size : Nat) (runs : List (Nat × Nat)) : Prop := ∀ i, InSpans runs i → shift = 0 ∧ i / size = 0

theorem unshifted_place {i : Nat} (first : i / size = 0) : i % size = i := by
  have split := Nat.div_add_mod i size
  rw [first, Nat.mul_zero, Nat.zero_add] at split
  exact split
/-- Clearing in the first bitmap does what it should exactly when all is there. -/
theorem inEach_iff (cleared : InOne bit bit' runs) (set : AllSet bit shift size runs) :
    InEach bit bit' shift size runs ↔ Unshifted shift size runs := by
  constructor
  · intro each
    -- The bit of a number is cleared, so it is a bit of the first bitmap that is the
    -- number of another one that is not larger.
    have lands : ∀ i, InSpans runs i → (i - shift) / size = 0 ∧ InSpans runs ((i - shift) % size) := by
      intro i member
      have gone : ¬ bit' ((i - shift) / size) ((i - shift) % size) = true := fun kept =>
        ((each _ _).mp kept).2 ⟨i, member, rfl, rfl⟩
      rw [cleared] at gone
      exact Decidable.byContradiction fun other => gone ⟨(set i member).2, other⟩
    -- Downwards along these, to one whose bit has its own number.
    have down : ∀ i, InSpans runs i → shift = 0 := by
      intro i
      induction i using Nat.strongRecOn with
      | ind i ih =>
        intro member
        obtain ⟨first, member'⟩ := lands i member
        rw [unshifted_place first] at member'
        have low := (set i member).1
        by_cases zero : shift = 0
        · exact zero
        · exact ih (i - shift) (by omega) member'
    intro i member
    have zero := down i member
    obtain ⟨first, -⟩ := lands i member
    rw [zero] at first
    exact ⟨zero, first⟩
  · intro unshifted group j
    rw [cleared]
    refine and_congr_right fun _ => not_congr ⟨?_, ?_⟩
    · rintro ⟨rfl, member⟩
      obtain ⟨rfl, first⟩ := unshifted j member
      exact ⟨j, member, first, unshifted_place first⟩
    · rintro ⟨i, member, rfl, rfl⟩
      obtain ⟨rfl, first⟩ := unshifted i member
      rw [Nat.sub_zero, unshifted_place first]
      exact ⟨first, member⟩

/-- The number of bits of a bitmap that were set and are clear. -/
def clearedIn (bit bit' : Nat → Nat → Bool) (capacity group : Nat) : Nat :=
  (List.range capacity).countP fun j => bit group j && !bit' group j
/-- As many bits are cleared as the runs have numbers. -/
theorem clearedIn_eq {capacity : Nat} (cleared : InOne bit bit' runs) (set : AllSet bit shift size runs)
    (unshifted : Unshifted shift size runs) (parted : runs.Pairwise Parted)
    (inside : ∀ r ∈ runs, 0 < r.2 → r.1 + r.2 ≤ capacity) (group : Nat) :
    clearedIn bit bit' capacity group = if group = 0 then total runs else 0 := by
  have same : ∀ j, (bit group j && !bit' group j) = decide (group = 0 ∧ InSpans runs j) := by
    intro j
    have here := cleared group j
    by_cases one : group = 0 ∧ InSpans runs j
    · obtain ⟨rfl, member⟩ := one
      obtain ⟨rfl, first⟩ := unshifted j member
      have was := (set j member).2
      rw [Nat.sub_zero, unshifted_place first, first] at was
      have now : bit' 0 j = false := Bool.eq_false_iff.mpr fun kept => (here.mp kept).2 ⟨rfl, member⟩
      rw [was, now, decide_eq_true ⟨rfl, member⟩]
      rfl
    · rw [decide_eq_false one]
      cases was : bit group j with
      | false => rfl
      | true => rw [here.mpr ⟨was, one⟩, Bool.not_true, Bool.and_false]
  rw [clearedIn, List.countP_congr fun j _ => by rw [same j]]
  split
  · rename_i zero
    rw [← count_runs parted inside, clearBits]
    simp [zero]
  · rename_i other
    simp [other]
end

/-! ### The bitmaps of the groups -/

/-- A bit of the bitmap that the descriptor of the group gives. -/
def groupBit (fs : Filesystem) (block : GroupDescriptor → UInt64) (group j : Nat) : Bool :=
  match fs.gdt[group]? with
  | some gd => Bitmap.get_bit (blockBytes fs (block gd).toNat) j
  | none => false
/-- The bits of blocks and of inodes, group by group. -/
def blockBits (fs : Filesystem) : Nat → Nat → Bool := groupBit fs (·.block_bitmap)
def inodeBits (fs : Filesystem) : Nat → Nat → Bool := groupBit fs (·.inode_bitmap)
/-- The bits of inodes, counted from the first one. -/
def numberRuns (inodes : List UInt32) : List (Nat × Nat) := inodes.map fun n => (n.toNat - 1, 1)

/-- The bits of the blocks and of the inodes are cleared in the bitmaps of the groups that
    they belong to, no other bit of a bitmap is changed, and the counts of each group go
    up by what is cleared in it. -/
structure Returned (fs fs' : Filesystem) (runs : List (Nat × Nat)) (inodes : List UInt32) : Prop where
  ofBlocks : InEach (blockBits fs) (blockBits fs') fs.superblock.first_data_block.toNat
    fs.superblock.blocks_per_group.toNat runs
  ofInodes : InEach (inodeBits fs) (inodeBits fs') 0 fs.superblock.inodes_per_group.toNat (numberRuns inodes)
  counts : ∀ (group : Nat) (gd : GroupDescriptor), fs.gdt[group]? = some gd → ∃ gd', fs'.gdt[group]? = some gd' ∧
    gd'.free_blocks_count.toNat = gd.free_blocks_count.toNat + clearedIn (blockBits fs) (blockBits fs') (capacity fs) group ∧
    gd'.free_inodes_count.toNat = gd.free_inodes_count.toNat + clearedIn (inodeBits fs) (inodeBits fs') (capacity fs) group
/-- What the calls do: the bits and the counts are those of the first group. -/
structure Cleared (fs fs' : Filesystem) (runs : List (Nat × Nat)) (inodes : List UInt32) : Prop where
  ofBlocks : InOne (blockBits fs) (blockBits fs') runs
  ofInodes : InOne (inodeBits fs) (inodeBits fs') (numberRuns inodes)
  inside : ∀ r ∈ runs, 0 < r.2 → r.1 + r.2 ≤ capacity fs
  covered : ∀ n ∈ inodes, n.toNat - 1 < capacity fs
  counts : ∀ (group : Nat) (gd : GroupDescriptor), fs.gdt[group]? = some gd → ∃ gd', fs'.gdt[group]? = some gd' ∧
    gd'.free_blocks_count.toNat = gd.free_blocks_count.toNat + (if group = 0 then total runs else 0) ∧
    gd'.free_inodes_count.toNat = gd.free_inodes_count.toNat + (if group = 0 then inodes.length else 0)

/-- A sound image of any number of groups, where the blocks of an inode in use are marked
    in the bitmaps of their groups, and none of them is there twice. -/
structure Grouped (fs : Filesystem) : Prop where
  consistent : ConsistentImage fs
  marked : ∀ {n : UInt32} {inode : Inode} {ext : Extent} {b : Nat}, Live fs n → read_inode fs n = .ok inode →
    Inode.uses_extents inode = true → Below fs inode.block.bytes ext → Within (runOf ext) b →
    fs.superblock.first_data_block.toNat ≤ b ∧
      blockBits fs ((b - fs.superblock.first_data_block.toNat) / fs.superblock.blocks_per_group.toNat)
        ((b - fs.superblock.first_data_block.toNat) % fs.superblock.blocks_per_group.toNat) = true
  once : ∀ {n : UInt32} {inode : Inode} {header : ExtentHeader} {es : List Extent}, Live fs n → read_inode fs n = .ok inode →
    Inode.uses_extents inode = true → decode_extent_node inode.block.bytes = .ok (.Leaf header es) →
    es.Pairwise fun a b => Parted (runOf a) (runOf b)

/-- The blocks are marked and apart, and the inodes are in use. -/
structure Held (fs : Filesystem) (runs : List (Nat × Nat)) (inodes : List UInt32) : Prop where
  set : AllSet (blockBits fs) fs.superblock.first_data_block.toNat fs.superblock.blocks_per_group.toNat runs
  parted : runs.Pairwise Parted
  live : ∀ n ∈ inodes, Live fs n
  few : inodes.length ≤ 1
/-- The inodes and the blocks are those of the first group, and blocks are counted from 0. -/
structure InFirst (fs : Filesystem) (runs : List (Nat × Nat)) (inodes : List UInt32) : Prop where
  ofBlocks : ∀ b, InSpans runs b → fs.superblock.first_data_block = 0 ∧ b / fs.superblock.blocks_per_group.toNat = 0
  ofInodes : ∀ n ∈ inodes, (n.toNat - 1) / fs.superblock.inodes_per_group.toNat = 0

section
variable {fs fs' : Filesystem} {runs : List (Nat × Nat)} {inodes : List UInt32}

theorem inSpans_numbers {i : Nat} : InSpans (numberRuns inodes) i ↔ ∃ n ∈ inodes, i = n.toNat - 1 := by
  simp only [numberRuns, InSpans, List.mem_map]
  constructor
  · rintro ⟨_, ⟨n, member, rfl⟩, low, high⟩
    exact ⟨n, member, by simp only at low high; omega⟩
  · rintro ⟨n, member, rfl⟩
    exact ⟨_, ⟨n, member, rfl⟩, Nat.le_refl _, Nat.lt_succ_self _⟩
theorem total_numbers (inodes : List UInt32) : total (numberRuns inodes) = inodes.length := by
  induction inodes with
  | nil => rfl
  | cons n inodes ih =>
    rw [numberRuns, List.map_cons, total_cons, ← numberRuns, ih, List.length_cons, Nat.add_comm]
theorem Held.numbers_set (held : Held fs runs inodes) :
    AllSet (inodeBits fs) 0 fs.superblock.inodes_per_group.toNat (numberRuns inodes) := by
  intro i member
  obtain ⟨n, listed, rfl⟩ := inSpans_numbers.mp member
  exact ⟨Nat.zero_le _, (held.live n listed).2.2⟩
theorem Held.numbers_parted (held : Held fs runs inodes) : (numberRuns inodes).Pairwise Parted := by
  have few := held.few
  match inodes with
  | [] => exact .nil
  | [n] => exact List.pairwise_singleton ..
  | _ :: _ :: _ =>
    simp only [List.length_cons] at few
    omega
theorem inFirst_iff : InFirst fs runs inodes ↔
    Unshifted fs.superblock.first_data_block.toNat fs.superblock.blocks_per_group.toNat runs ∧
      Unshifted 0 fs.superblock.inodes_per_group.toNat (numberRuns inodes) := by
  have zero : fs.superblock.first_data_block = 0 ↔ fs.superblock.first_data_block.toNat = 0 := UInt32.toNat_inj.symm
  constructor
  · rintro ⟨blocks, numbers⟩
    refine ⟨fun b member => (blocks b member).imp_left zero.mp, fun i member => ⟨rfl, ?_⟩⟩
    obtain ⟨n, listed, rfl⟩ := inSpans_numbers.mp member
    exact numbers n listed
  · rintro ⟨blocks, numbers⟩
    exact ⟨fun b member => (blocks b member).imp_left zero.mpr,
      fun n listed => (numbers _ (inSpans_numbers.mpr ⟨n, listed, rfl⟩)).2⟩

/-- What is cleared in the first bitmaps is what was to be cleared exactly when all of it
    is of the first group. -/
theorem Cleared.returned_iff (cleared : Cleared fs fs' runs inodes) (held : Held fs runs inodes) :
    Returned fs fs' runs inodes ↔ InFirst fs runs inodes := by
  rw [inFirst_iff]
  constructor
  · exact fun returned => ⟨(inEach_iff cleared.ofBlocks held.set).mp returned.ofBlocks,
      (inEach_iff cleared.ofInodes held.numbers_set).mp returned.ofInodes⟩
  · rintro ⟨blocks, numbers⟩
    refine ⟨(inEach_iff cleared.ofBlocks held.set).mpr blocks, (inEach_iff cleared.ofInodes held.numbers_set).mpr numbers, ?_⟩
    intro group gd found
    have covered : ∀ r ∈ numberRuns inodes, 0 < r.2 → r.1 + r.2 ≤ capacity fs := by
      intro r member _
      obtain ⟨n, listed, rfl⟩ := List.mem_map.mp member
      exact cleared.covered n listed
    rw [clearedIn_eq cleared.ofBlocks held.set blocks held.parted cleared.inside,
      clearedIn_eq cleared.ofInodes held.numbers_set numbers held.numbers_parted covered, total_numbers]
    exact cleared.counts group gd found
end

/-! ### What is cleared -/

section
variable {fs mid fs' : Filesystem} {runs : List (Nat × Nat)} {uses : List Use} {block : GroupDescriptor → UInt64}

theorem groupBit_found {group : Nat} {gd : GroupDescriptor} (found : fs.gdt[group]? = some gd) (j : Nat) :
    groupBit fs block group j = Bitmap.get_bit (blockBytes fs (block gd).toNat) j := by
  rw [groupBit, found]
/-- A bitmap that is not among the places that are written stays. -/
theorem groupBit_kept {D : Nat → Prop} {use : Use} {group : Nat} (separate : Separate fs) (before : Altered D fs mid)
    (after : Altered (Among fs uses) mid fs') (kept : ∀ gd gd', SameGroup gd gd' → block gd' = block gd)
    (occupies : ∀ gd, fs.gdt[group]? = some gd →
      Occupies fs use ((block gd).toNat * fs.superblock.block_size.toNat) fs.superblock.block_size.toNat)
    (other : use ∉ uses) (j : Nat) : groupBit fs' block group j = groupBit mid block group j := by
  cases found : mid.gdt[group]? with
  | none => rw [groupBit, groupBit, after.no_group found, found]
  | some gd₁ =>
    obtain ⟨gd, found₀, same⟩ := before.group_before found
    obtain ⟨gd₂, found₂, same'⟩ := after.group found
    rw [groupBit_found found, groupBit_found found₂, kept gd₁ gd₂ same', kept gd gd₁ same]
    have clear := separate.clear (occupies gd found₀) other
    rw [← before.block_size] at clear
    rw [Altered.blockBytes after clear]
theorem blockBits_kept {D : Nat → Prop} {group : Nat} (separate : Separate fs) (before : Altered D fs mid)
    (after : Altered (Among fs uses) mid fs') (other : .blockBitmap group ∉ uses) (j : Nat) :
    blockBits fs' group j = blockBits mid group j :=
  groupBit_kept separate before after same_block_bitmap (fun _ found => .blockBitmap found) other j
theorem inodeBits_kept {D : Nat → Prop} {group : Nat} (separate : Separate fs) (before : Altered D fs mid)
    (after : Altered (Among fs uses) mid fs') (other : .inodeBitmap group ∉ uses) (j : Nat) :
    inodeBits fs' group j = inodeBits mid group j :=
  groupBit_kept separate before after same_inode_bitmap (fun _ found => .inodeBitmap found) other j

/-- The bits of the blocks that are released. -/
theorem Frees.inOne (frees : Frees fs mid runs) (separate : Separate fs) {gd : GroupDescriptor} (found : gdt_at fs 0 = .ok gd)
    (after : Altered (Among fs uses) mid fs') (other : ∀ group, .blockBitmap group ∉ uses) :
    InOne (blockBits fs) (blockBits fs') runs := by
  intro group j
  rw [blockBits_kept separate frees.altered after (other group)]
  by_cases zero : group = 0
  · rw [zero]
    obtain ⟨gd₁, found₁, same⟩ := frees.altered.group (gdt_at_eq_ok.mp found)
    have bits := frees.bits j
    rw [(bitmap_first found).2, (bitmap_first (gdt_at_eq_ok.mpr found₁)).2] at bits
    rw [blockBits, blockBits, groupBit_found (gdt_at_eq_ok.mp found), groupBit_found found₁, bits]
    simp
  · rw [blockBits_kept separate (altered_refl (fun _ => False) fs) frees.altered (by simpa using zero)]
    simp [zero]
/-- The bit of the inode that is released between other changes. -/
theorem FreesInode.inOne {mid₁ mid₂ : Filesystem} {n : UInt32} {uses' : List Use} (frees : FreesInode mid₁ mid₂ n)
    (separate : Separate fs) (before : Altered (Among fs uses) fs mid₁) (here : Altered (Among fs [.inodeBitmap 0]) mid₁ mid₂)
    (after : Altered (Among fs uses') mid₂ fs') (other : ∀ group, .inodeBitmap group ∉ uses)
    (other' : ∀ group, .inodeBitmap group ∉ uses') : InOne (inodeBits fs) (inodeBits fs') (numberRuns [n]) := by
  intro group j
  have start := inodeBits_kept separate (altered_refl (fun _ => False) fs) before (other group) j
  have whole : Altered (fun _ => True) fs mid₂ := (before.wider fun _ _ => trivial).trans (here.wider fun _ _ => trivial)
  rw [inodeBits_kept separate whole after (other' group), ← start, inSpans_numbers]
  by_cases zero : group = 0
  · rw [zero]
    obtain ⟨gd₁, found, bits⟩ := frees.bits
    obtain ⟨gd₂, found₂, same⟩ := here.group (gdt_at_eq_ok.mp found)
    rw [inodeBits, inodeBits, groupBit_found (gdt_at_eq_ok.mp found), groupBit_found found₂, same_inode_bitmap gd₁ gd₂ same,
      bits j]
    simp
  · rw [inodeBits_kept separate before here (by simpa using zero)]
    simp [zero]

/-- The table with the counts of the first group changed. -/
theorem on_group0_get (f : GroupDescriptor → GroupDescriptor) (gdt : List GroupDescriptor) (group : Nat) :
    (on_group0 f gdt)[group]? = gdt[group]?.map fun gd => if group = 0 then f gd else gd := by
  cases gdt with
  | nil => rfl
  | cons gd rest =>
    cases group with
    | zero => rfl
    | succ group =>
      rw [on_group0, List.getElem?_cons_succ, List.getElem?_cons_succ]
      simp
end

/-! ### What is released is in use -/

section
variable {fs : Filesystem} {n : UInt32} {inode : Inode} {header : ExtentHeader} {es : List Extent}

theorem Grouped.found (grouped : Grouped fs) : ∃ gd, gdt_at fs 0 = .ok gd := by
  have root := grouped.consistent.root.2.2
  cases table : fs.gdt with
  | nil =>
    rw [inodeBit, table] at root
    cases root
  | cons gd rest => exact ⟨gd, gdt_at_eq_ok.mpr (by rw [table]; rfl)⟩
/-- Of a leaf any extents may be chosen, and of each the end. -/
theorem Grouped.held (grouped : Grouped fs) (live : Live fs n) (read : read_inode fs n = .ok inode)
    (based : Inode.uses_extents inode = true) (decoded : decode_extent_node inode.block.bytes = .ok (.Leaf header es)) (c : Nat)
    (chosen : Extent → Bool) {inodes : List UInt32} (alive : ∀ m ∈ inodes, Live fs m) (few : inodes.length ≤ 1) :
    Held fs ((es.filter chosen).map (past c)) inodes := by
  refine ⟨fun b member => ?_, ?_, alive, few⟩
  · obtain ⟨e, listed, -, within⟩ := Unmapping.inSpans_chosen.mp member
    exact grouped.marked live read based ((below_leaf decoded).mpr listed) (within_past within)
  · rw [List.pairwise_map]
    exact ((grouped.once live read based decoded).filter _).imp fun parted j both =>
      parted j ⟨within_past both.1, within_past both.2⟩
theorem Grouped.held_freed (grouped : Grouped fs) (live : Live fs n) (read : read_inode fs n = .ok inode) :
    Held fs (freedRuns inode) [n] := by
  have alive : ∀ m ∈ [n], Live fs m := fun m listed => List.mem_singleton.mp listed ▸ live
  have nothing : Held fs [] [n] := ⟨fun b member => by simp [InSpans] at member, .nil, alive, Nat.le_refl 1⟩
  by_cases based : Inode.uses_extents inode = true ∧ 0 < inode.size.toNat
  · cases decoded : decode_extent_node inode.block.bytes with
    | error fault =>
      rw [freedRuns, if_pos based, decoded]
      exact nothing
    | ok node =>
      cases node with
      | Leaf header es =>
        rw [Unmapping.freedRuns_leaf based.1 decoded]
        exact grouped.held live read based.1 decoded 0 _ alive (Nat.le_refl 1)
      | Internal header indices =>
        rw [freedRuns, if_pos based, decoded]
        exact nothing
  · rw [freedRuns, if_neg based]
    exact nothing
end

end Justext4.GroupBitmaps
