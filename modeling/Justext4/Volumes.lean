import Justext4.DirBlock

/-!
The volume an image holds. Of an image that `format` has laid out, the calls
see the slots of the inode table, the blocks from the root directory on and the
bits of the two bitmaps. Each call that writes changes one of them, and leaves
the others as they are.
-/
namespace Justext4.Volumes
open Justext4 Justext4.Fallible Justext4.Filesystem Bytes
open Justext4.Superblock (Superblock)
open Justext4.GroupDescriptor (GroupDescriptor)
open Justext4.Inode (Inode inodeAt)

/-- The numbers of a formatted image: the blocks of the image and the counts
    that its superblock gives, which are too small where the descriptor table
    has been written over the superblock. -/
structure Geometry where
  block_size : Nat
  per_group : Nat
  inodes : Nat
  blocks : Nat
  total : Nat
  groups : Nat
  known : block_size = 1024 ∨ block_size = 2048 ∨ block_size = 4096 ∨ block_size = 65536
  inodes_low : 2 ≤ inodes
  inodes_high : inodes ≤ per_group
  small : block_size = 1024 → inodes = 2
  blocks_high : blocks ≤ total
  total_high : total < 4294967296
  root_inside : 4 + div_ceil (per_group * 256) block_size < total
  root_covered : 4 + div_ceil (per_group * 256) block_size < 8 * block_size
  table_inside : 32 * groups ≤ block_size
  one_group : 0 < groups

/-- The block of the root directory, the first after the inode table. -/
def Geometry.root (g : Geometry) : Nat := 4 + div_ceil (g.per_group * 256) g.block_size
/-- The end of the blocks that the block bitmap covers. -/
def Geometry.limit (g : Geometry) : Nat := min g.total (8 * g.block_size)

theorem Geometry.positive (g : Geometry) : 1024 ≤ g.block_size := by
  rcases g.known with h | h | h | h <;> omega
theorem Geometry.bounded (g : Geometry) : g.block_size ≤ 65536 := by
  rcases g.known with h | h | h | h <;> omega
theorem Geometry.limit_total (g : Geometry) : g.limit ≤ g.total := Nat.min_le_left ..
theorem Geometry.limit_bitmap (g : Geometry) : g.limit ≤ 8 * g.block_size := Nat.min_le_right ..
theorem le_div_ceil {n d : Nat} (positive : 0 < d) : n ≤ div_ceil n d * d := by
  have split := Nat.div_add_mod (n + d - 1) d
  have small := Nat.mod_lt (n + d - 1) positive
  rw [div_ceil, Nat.mul_comm]
  omega
theorem Geometry.table_before_root (g : Geometry) : 4 * g.block_size + g.per_group * 256 ≤ g.root * g.block_size := by
  have covered : g.per_group * 256 ≤ div_ceil (g.per_group * 256) g.block_size * g.block_size :=
    le_div_ceil (by have positive := g.positive; omega)
  rw [root, Nat.add_mul]
  omega

/-- A block ends where the next one starts. -/
theorem block_before {p q d : Nat} (before : p < q) : p * d + d ≤ q * d := by
  rw [← Nat.succ_mul]
  exact Nat.mul_le_mul_right d before
theorem Geometry.block_inside (g : Geometry) {p : Nat} (inside : p < g.total) :
    p * g.block_size + g.block_size ≤ g.total * g.block_size := block_before inside
theorem Geometry.total_small (g : Geometry) : g.total * g.block_size < 18446744073709551616 :=
  Nat.lt_of_le_of_lt (Nat.mul_le_mul (Nat.le_of_lt g.total_high) g.bounded) (by decide)

/-- What the calls see of an image, and the two records in memory. -/
structure Volume where
  superblock : Superblock
  gdt : List GroupDescriptor
  slot : UInt32 → Inode
  block : Nat → Bytes
  inodeBit : Nat → Bool
  blockBit : Nat → Bool

/-- The records in memory agree with the geometry. -/
structure Static (g : Geometry) (sb : Superblock) (gdt : List GroupDescriptor) : Prop where
  block_size : sb.block_size.toNat = g.block_size
  inode_size : sb.inode_size.toNat = 256
  inodes_count : sb.inodes_count.toNat = g.inodes
  blocks_count : sb.blocks_count.toNat = g.blocks
  inodes_per_group : sb.inodes_per_group.toNat = g.per_group
  narrow : Superblock.is_64bit sb = false
  first_data_block : sb.first_data_block = 0
  rev_level : sb.rev_level = 1
  group_count : (Superblock.group_count sb).toNat = g.groups
  length : gdt.length = g.groups
  group0 : ∃ gd, gdt[0]? = some gd ∧ gd.block_bitmap = 2 ∧ gd.inode_bitmap = 3 ∧ gd.inode_table = 4

/-- The bytes of a block of an image. -/
def blockAt (g : Geometry) (image : Bytes) (p : Nat) : Bytes := image.slice (p * g.block_size) g.block_size
/-- The offset of the slot of an inode. -/
def slotOffset (g : Geometry) (n : UInt32) : Nat := 4 * g.block_size + (n.toNat - 1) * 256
/-- The inode in a slot of the inode table. -/
def slotAt (g : Geometry) (image : Bytes) (n : UInt32) : Inode := inodeAt (image.slice (slotOffset g n) 256)

/-- The filesystem holds the volume. -/
structure Holds (g : Geometry) (v : Volume) (fs : Filesystem) : Prop where
  superblock : fs.superblock = v.superblock
  gdt : fs.gdt = v.gdt
  static : Static g v.superblock v.gdt
  size : fs.reader.size = g.total * g.block_size
  slots : ∀ n : UInt32, 1 ≤ n.toNat → n.toNat ≤ g.per_group → slotAt g fs.reader n = v.slot n
  blocks : ∀ p, g.root ≤ p → p < g.total → blockAt g fs.reader p = v.block p
  inode_bits : ∀ i, i < 8 * g.block_size → Bitmap.get_bit (blockAt g fs.reader 3) i = v.inodeBit i
  block_bits : ∀ i, i < 8 * g.block_size → Bitmap.get_bit (blockAt g fs.reader 2) i = v.blockBit i

/-! ### Patches of an image -/

section
variable {g : Geometry} {image src : Bytes}

theorem blockAt_patch_same {p : Nat} (size : src.size = g.block_size) :
    blockAt g (image.patch (p * g.block_size) src) p = src := by
  rw [blockAt, ← size, slice_patch_same]
theorem blockAt_patch_run {p q count : Nat} (size : src.size = count * g.block_size) (low : p ≤ q)
    (high : q < p + count) :
    blockAt g (image.patch (p * g.block_size) src) q = src.slice ((q - p) * g.block_size) g.block_size := by
  have reach : (q - p) * g.block_size + g.block_size ≤ count * g.block_size := block_before (by omega)
  have place : q * g.block_size = p * g.block_size + (q - p) * g.block_size := by
    rw [← Nat.add_mul]
    congr 1
    omega
  apply ext_inside (by simp [blockAt])
  intro i inside
  have short : i < g.block_size := by simpa [blockAt] using inside
  rw [blockAt, byte_slice_of_lt _ short, byte_slice_of_lt _ short, place, Nat.add_assoc,
    byte_patch_inside _ _ _ (by omega)]
theorem blockAt_patch_apart {p q count : Nat} (size : src.size = count * g.block_size) (apart : q < p ∨ p + count ≤ q) :
    blockAt g (image.patch (p * g.block_size) src) q = blockAt g image q := by
  rw [blockAt, slice_patch_apart _ _ _, blockAt]
  rcases apart with before | after
  · exact .inl (block_before before)
  · exact .inr (by rw [size, ← Nat.add_mul]; exact Nat.mul_le_mul_right _ after)
theorem blockAt_patch_before {start q : Nat} (before : start + src.size ≤ q * g.block_size) :
    blockAt g (image.patch start src) q = blockAt g image q := by
  rw [blockAt, slice_patch_apart _ _ (.inr before), blockAt]
theorem blockAt_patch_after {start q : Nat} (after : q * g.block_size + g.block_size ≤ start) :
    blockAt g (image.patch start src) q = blockAt g image q := by
  rw [blockAt, slice_patch_apart _ _ (.inl after), blockAt]
theorem slotAt_patch_before {start : Nat} {n : UInt32} (before : start + src.size ≤ 4 * g.block_size) :
    slotAt g (image.patch start src) n = slotAt g image n := by
  rw [slotAt, slice_patch_apart _ _ (.inr (by rw [slotOffset]; omega)), slotAt]
theorem slot_end {n : UInt32} (low : 1 ≤ n.toNat) (high : n.toNat ≤ g.per_group) :
    slotOffset g n + 256 ≤ g.root * g.block_size := by
  have fits := g.table_before_root
  rw [slotOffset]
  omega
theorem slotAt_patch_after {start : Nat} {n : UInt32} (low : 1 ≤ n.toNat) (high : n.toNat ≤ g.per_group)
    (after : g.root * g.block_size ≤ start) : slotAt g (image.patch start src) n = slotAt g image n := by
  have fits := slot_end low high
  rw [slotAt, slice_patch_apart _ _ (.inl (by omega)), slotAt]
theorem slotAt_patch_same {n : UInt32} (size : src.size = 256) :
    slotAt g (image.patch (slotOffset g n) src) n = inodeAt src := by
  rw [slotAt, ← size, slice_patch_same]
theorem slotAt_patch_other {n m : UInt32} (size : src.size = 256) (low : 1 ≤ n.toNat) (low' : 1 ≤ m.toNat)
    (other : m ≠ n) : slotAt g (image.patch (slotOffset g n) src) m = slotAt g image m := by
  have different : m.toNat ≠ n.toNat := fun same => other (UInt32.toNat_inj.mp same)
  rw [slotAt, slice_patch_apart _ _ (by rw [slotOffset, slotOffset]; omega), slotAt]
end

/-! ### Reading -/

section
variable {g : Geometry} {v : Volume} {fs : Filesystem}

theorem Holds.static' (holds : Holds g v fs) : Static g fs.superblock fs.gdt := by
  rw [holds.superblock, holds.gdt]
  exact holds.static
theorem in_u64_ok {n : Nat} (small : n < 18446744073709551616) : in_u64 n = .ok n := if_pos small
theorem read_at_ok {image : Bytes} {offset len : Nat} (inside : offset + len ≤ image.size) :
    read_at image offset len = .ok (image.slice offset len) := if_pos (.inr inside)

theorem Static.gdt_at {sb : Superblock} {gdt : List GroupDescriptor} (static : Static g sb gdt) (image : Bytes) :
    ∃ gd, gdt_at ⟨image, sb, gdt⟩ 0 = .ok gd ∧ gd.block_bitmap = 2 ∧ gd.inode_bitmap = 3 ∧ gd.inode_table = 4 := by
  obtain ⟨gd, found, facts⟩ := static.group0
  exact ⟨gd, by simp only [Filesystem.gdt_at, found], facts⟩

theorem load_block_ok (static : Static g fs.superblock fs.gdt) (size : fs.reader.size = g.total * g.block_size)
    {p : Nat} (inside : p < g.total) :
    load_block fs p = .ok (p * g.block_size, blockAt g fs.reader p) := by
  have fits := g.block_inside inside
  have total := g.total_small
  rw [load_block, static.block_size, in_u64_ok (by omega), res_bind_ok, read_at_ok (by omega), res_bind_ok, blockAt]

theorem inode_offset_ok (static : Static g fs.superblock fs.gdt) {n : UInt32} (low : 1 ≤ n.toNat)
    (high : n.toNat ≤ g.inodes) : inode_offset fs n = .ok (slotOffset g n) := by
  obtain ⟨gd, found, -, -, table⟩ := static.gdt_at fs.reader
  have inodes := g.inodes_high
  have fits := slot_end (g := g) low (by omega)
  have root := g.root_inside
  have bounded := g.total_small
  have before : g.root * g.block_size ≤ g.total * g.block_size := Nat.mul_le_mul_right _ (Nat.le_of_lt root)
  have nonzero : fs.superblock.inodes_per_group ≠ 0 := by
    intro zero
    have count := static.inodes_per_group
    rw [zero] at count
    have zero' : (0 : UInt32).toNat = 0 := rfl
    omega
  have group : (n.toNat - 1) / fs.superblock.inodes_per_group.toNat = 0 :=
    Nat.div_eq_of_lt (by rw [static.inodes_per_group]; omega)
  have index : (n.toNat - 1) % fs.superblock.inodes_per_group.toNat = n.toNat - 1 :=
    Nat.mod_eq_of_lt (by rw [static.inodes_per_group]; omega)
  have four : gd.inode_table.toNat = 4 := by rw [table]; rfl
  rw [slotOffset] at fits ⊢
  rw [inode_offset, decide_eq_true nonzero, orPanic_true, res_bind_ok, group, found, res_bind_ok, four, static.block_size, index,
    static.inode_size, in_u64_ok (by omega), res_bind_ok, in_u64_ok (by omega)]

theorem inode_in_range (static : Static g fs.superblock fs.gdt) {n : UInt32} :
    (n ≠ 0 ∧ n ≤ fs.superblock.inodes_count) ↔ 1 ≤ n.toNat ∧ n.toNat ≤ g.inodes := by
  rw [← static.inodes_count, UInt32.le_iff_toNat_le]
  have zero : n ≠ 0 ↔ 1 ≤ n.toNat := by
    rw [Ne, ← UInt32.toNat_inj]
    show ¬ n.toNat = 0 ↔ _
    omega
  rw [zero]

theorem read_inode_ok (holds : Holds g v fs) {n : UInt32} (low : 1 ≤ n.toNat) (high : n.toNat ≤ g.inodes) :
    read_inode fs n = .ok (v.slot n) := by
  have static := holds.static'
  have inodes := g.inodes_high
  have fits := slot_end (g := g) low (by omega)
  have root := g.root_inside
  have before : g.root * g.block_size ≤ g.total * g.block_size := Nat.mul_le_mul_right _ (Nat.le_of_lt root)
  have nonzero : fs.superblock.inodes_per_group ≠ 0 := by
    intro zero
    have count := static.inodes_per_group
    rw [zero] at count
    have zero' : (0 : UInt32).toNat = 0 := rfl
    omega
  have group : (n.toNat - 1) / fs.superblock.inodes_per_group.toNat = 0 :=
    Nat.div_eq_of_lt (by rw [static.inodes_per_group]; omega)
  have one := g.one_group
  have size := holds.size
  rw [read_inode, ensure_of ((inode_in_range static).mpr ⟨low, high⟩), res_bind_ok, decide_eq_true nonzero,
    orPanic_true, res_bind_ok, ensure_of (by rw [group, static.length]; exact one), res_bind_ok,
    inode_offset_ok static low high, res_bind_ok, static.inode_size, read_at_ok (by omega), res_bind_ok,
    Inode.decode_ok (by rw [static.inode_size]; decide) (by simp [static.inode_size]), liftErr_ok]
  exact congrArg Except.ok (holds.slots n low (by omega))

end

/-! ### Writing -/

def Volume.setSlot (v : Volume) (n : UInt32) (inode : Inode) : Volume :=
  { v with slot := fun m => if m = n then inode else v.slot m }
def Volume.setBlock (v : Volume) (p : Nat) (bytes : Bytes) : Volume :=
  { v with block := fun q => if q = p then bytes else v.block q }
/-- The blocks from `start` on hold the bytes, one block after another. -/
def Volume.setBlocks (v : Volume) (d start count : Nat) (bytes : Bytes) : Volume :=
  { v with block := fun q => if start ≤ q ∧ q < start + count then bytes.slice ((q - start) * d) d else v.block q }
def Volume.onGroup0 (v : Volume) (f : GroupDescriptor → GroupDescriptor) : Volume :=
  { v with gdt := on_group0 f v.gdt }
/-- A bit of the inode bitmap set, and the counts that go with it. -/
def Volume.takeInode (v : Volume) (i : Nat) : Volume :=
  { v with
    inodeBit := fun j => v.inodeBit j || decide (j = i)
    gdt := on_group0 (on_free_inodes (· - 1)) v.gdt
    superblock := on_all_free_inodes (· - 1) v.superblock }
def Volume.freeInode (v : Volume) (i : Nat) : Volume :=
  { v with
    inodeBit := fun j => v.inodeBit j && !decide (j = i)
    gdt := on_group0 (on_free_inodes (· + 1)) v.gdt
    superblock := on_all_free_inodes (· + 1) v.superblock }
/-- A run of bits of the block bitmap set, and the counts that go with it. -/
def Volume.takeBlocks (v : Volume) (start count : Nat) : Volume :=
  { v with
    blockBit := fun j => v.blockBit j || decide (start ≤ j ∧ j < start + count)
    gdt := on_group0 (on_free_blocks (· - count)) v.gdt
    superblock := on_all_free_blocks (· - count) v.superblock }
def Volume.freeBlocks (v : Volume) (start count : Nat) : Volume :=
  { v with
    blockBit := fun j => v.blockBit j && !decide (start ≤ j ∧ j < start + count)
    gdt := on_group0 (on_free_blocks (· + count)) v.gdt
    superblock := on_all_free_blocks (· + count) v.superblock }

/-- The counts of a descriptor may change. -/
theorem Static.group {g : Geometry} {sb : Superblock} {gdt : List GroupDescriptor} (static : Static g sb gdt)
    {f : GroupDescriptor → GroupDescriptor}
    (kept : ∀ gd, (f gd).block_bitmap = gd.block_bitmap ∧ (f gd).inode_bitmap = gd.inode_bitmap ∧
      (f gd).inode_table = gd.inode_table) : Static g sb (on_group0 f gdt) := by
  obtain ⟨gd, found, blocks, inodes, table⟩ := static.group0
  cases gdt with
  | nil => cases found
  | cons head rest =>
    cases found
    obtain ⟨one, two, three⟩ := kept gd
    exact { static with
      length := static.length
      group0 := ⟨f gd, rfl, one.trans blocks, two.trans inodes, three.trans table⟩ }

section
variable {g : Geometry} {v : Volume} {fs : Filesystem}

theorem Holds.onGroup0 (holds : Holds g v fs) {f : GroupDescriptor → GroupDescriptor}
    (kept : ∀ gd, (f gd).block_bitmap = gd.block_bitmap ∧ (f gd).inode_bitmap = gd.inode_bitmap ∧
      (f gd).inode_table = gd.inode_table) :
    Holds g (v.onGroup0 f) { fs with gdt := on_group0 f fs.gdt } :=
  { holds with
    gdt := congrArg (on_group0 f) holds.gdt
    static := holds.static.group kept }

theorem group_change {f : GroupDescriptor → GroupDescriptor} {gdt : List GroupDescriptor} {gd : GroupDescriptor}
    (found : (on_group0 f gdt)[0]? = some gd) : ∃ gd₀, gdt[0]? = some gd₀ ∧ gd = f gd₀ := by
  cases gdt with
  | nil => cases found
  | cons gd₀ rest => cases found; exact ⟨gd₀, rfl, rfl⟩

/-- The bytes before the block bitmap are not part of the volume. -/
theorem Holds.congr_head (holds : Holds g v fs) {fs' : Filesystem} (superblock : fs'.superblock = fs.superblock)
    (gdt : fs'.gdt = fs.gdt) (size : fs'.reader.size = fs.reader.size)
    (same : ∀ i, 2 * g.block_size ≤ i → fs'.reader.byte i = fs.reader.byte i) : Holds g v fs' := by
  have slice : ∀ start n, 2 * g.block_size ≤ start → fs'.reader.slice start n = fs.reader.slice start n := by
    intro start n past
    apply ext_inside (by simp)
    intro i inside
    have short : i < n := by simpa using inside
    rw [byte_slice_of_lt _ short, byte_slice_of_lt _ short, same _ (by omega)]
  have block : ∀ p, 2 ≤ p → blockAt g fs'.reader p = blockAt g fs.reader p := fun p le =>
    slice _ _ (Nat.mul_le_mul_right _ le)
  refine ⟨superblock.trans holds.superblock, gdt.trans holds.gdt, holds.static, size.trans holds.size, ?_, ?_, ?_, ?_⟩
  · intro n low high
    rw [← holds.slots n low high, slotAt, slotAt, slice _ _ (by rw [slotOffset]; omega)]
  · intro p low high
    rw [← holds.blocks p low high, block p (by rw [Geometry.root] at low; omega)]
  · intro i small
    rw [← holds.inode_bits i small, block 3 (by decide)]
  · intro i small
    rw [← holds.block_bits i small, block 2 (by decide)]

theorem write_inode_ok (holds : Holds g v fs) {n : UInt32} (low : 1 ≤ n.toNat) (high : n.toNat ≤ g.inodes)
    (inode : Inode) :
    ∃ fs', (write_inode n inode).run fs = .ok () fs' ∧ Holds g (v.setSlot n inode) fs' := by
  have static := holds.static'
  have inodes := g.inodes_high
  have fits := slot_end (g := g) low (by omega)
  have before : g.root * g.block_size ≤ g.total * g.block_size :=
    Nat.mul_le_mul_right _ (Nat.le_of_lt g.root_inside)
  have positive := g.positive
  have size : (Inode.record inode 256).size = 256 := Inode.size_record inode (by decide)
  have total := holds.size
  have encoded : Inode.encode_into inode (zeros fs.superblock.inode_size.toNat) fs.superblock =
      .ok (Inode.record inode 256) := by
    rw [static.inode_size]
    exact Inode.encode_ok inode static.inode_size (by decide)
  have apart : ∀ p, p < 4 → p * g.block_size + g.block_size ≤ slotOffset g n := by
    intro p lt
    have reach : p * g.block_size + g.block_size ≤ 4 * g.block_size := block_before lt
    rw [slotOffset]
    omega
  refine ⟨{ fs with reader := fs.reader.patch (slotOffset g n) (Inode.record inode 256) }, ?_, holds.superblock,
    holds.gdt, holds.static, ?_, ?_, ?_, ?_, ?_⟩
  · simp only [write_inode, run_bind, run_reads, ensure_of ((inode_in_range static).mpr ⟨low, high⟩), ofRes_ok,
      andThen_ok, inode_offset_ok static low high, encoded, liftErr_ok, write_at, run_change]
  · rw [← total]
    exact size_patch _ _ _ (by omega)
  · intro m low' high'
    by_cases same : m = n
    · subst same
      rw [slotAt_patch_same size, Inode.inodeAt_record]
      simp [Volume.setSlot]
    · rw [slotAt_patch_other size low low' same, holds.slots m low' high']
      simp [Volume.setSlot, same]
  · intro p low' high'
    rw [blockAt_patch_before, holds.blocks p low' high', Volume.setSlot]
    rw [size]
    exact Nat.le_trans fits (Nat.mul_le_mul_right _ low')
  · intro i small
    rw [blockAt_patch_after (apart 3 (by decide))]
    exact holds.inode_bits i small
  · intro i small
    rw [blockAt_patch_after (apart 2 (by decide))]
    exact holds.block_bits i small

/-- A write of whole blocks at or after the root directory. -/
theorem write_blocks_ok (holds : Holds g v fs) {start count : Nat} {src : Bytes} (size : src.size = count * g.block_size)
    (low : g.root ≤ start) (high : start + count ≤ g.total) :
    ∃ fs', (write_at (start * g.block_size) src).run fs = .ok () fs' ∧
      Holds g (v.setBlocks g.block_size start count src) fs' := by
  have reach : start * g.block_size + src.size ≤ g.total * g.block_size := by
    rw [size, ← Nat.add_mul]
    exact Nat.mul_le_mul_right _ high
  have root : g.root * g.block_size ≤ start * g.block_size := Nat.mul_le_mul_right _ low
  have four : 4 ≤ g.root := by rw [Geometry.root]; omega
  refine ⟨{ fs with reader := fs.reader.patch (start * g.block_size) src }, rfl, holds.superblock, holds.gdt,
    holds.static, ?_, ?_, ?_, ?_, ?_⟩
  · rw [← holds.size]
    exact size_patch _ _ _ (by rw [holds.size]; exact reach)
  · intro n low' high'
    rw [slotAt_patch_after low' high' root, holds.slots n low' high', Volume.setBlocks]
  · intro q low' high'
    by_cases inside : start ≤ q ∧ q < start + count
    · rw [blockAt_patch_run size inside.1 inside.2, Volume.setBlocks]
      simp only [inside, and_self, ↓reduceIte]
    · rw [blockAt_patch_apart size (by omega), holds.blocks q low' high', Volume.setBlocks]
      simp only [inside, ↓reduceIte]
  · intro i small
    rw [blockAt_patch_apart size (by omega)]
    exact holds.inode_bits i small
  · intro i small
    rw [blockAt_patch_apart size (by omega)]
    exact holds.block_bits i small

theorem setBlocks_one {v : Volume} {p d : Nat} {src : Bytes} (size : src.size = d) :
    v.setBlocks d p 1 src = v.setBlock p src := by
  simp only [Volume.setBlocks, Volume.setBlock]
  congr 1
  funext q
  by_cases same : q = p
  · subst same
    rw [if_pos ⟨Nat.le_refl _, Nat.lt_succ_self _⟩, if_pos rfl, Nat.sub_self, Nat.zero_mul, ← size, slice_self]
  · rw [if_neg (by omega), if_neg same]

theorem write_block_ok (holds : Holds g v fs) {p : Nat} {src : Bytes} (size : src.size = g.block_size)
    (low : g.root ≤ p) (high : p < g.total) :
    ∃ fs', (write_at (p * g.block_size) src).run fs = .ok () fs' ∧ Holds g (v.setBlock p src) fs' := by
  have whole : src.size = 1 * g.block_size := by omega
  have written := write_blocks_ok holds whole low (by omega)
  rwa [setBlocks_one size] at written

/-- A write of the inode bitmap. -/
theorem Holds.patch_inode_bitmap (holds : Holds g v fs) (src : Bytes) (size : src.size = g.block_size) :
    Holds g { v with inodeBit := Bitmap.get_bit src } { fs with reader := fs.reader.patch (3 * g.block_size) src } := by
  have four : 4 ≤ g.root := by rw [Geometry.root]; omega
  have one : src.size = 1 * g.block_size := by omega
  have inside := g.block_inside (p := 3) (by have root := g.root_inside; omega)
  refine ⟨holds.superblock, holds.gdt, holds.static, ?_, ?_, ?_, ?_, ?_⟩
  · rw [← holds.size]
    exact size_patch _ _ _ (by rw [holds.size]; omega)
  · intro n low high
    rw [slotAt_patch_before (by omega), holds.slots n low high]
  · intro p low high
    rw [blockAt_patch_apart one (by omega), holds.blocks p low high]
  · intro i small
    rw [blockAt_patch_same size]
  · intro i small
    rw [blockAt_patch_apart one (by omega)]
    exact holds.block_bits i small

/-- A write of the block bitmap. -/
theorem Holds.patch_block_bitmap (holds : Holds g v fs) (src : Bytes) (size : src.size = g.block_size) :
    Holds g { v with blockBit := Bitmap.get_bit src } { fs with reader := fs.reader.patch (2 * g.block_size) src } := by
  have four : 4 ≤ g.root := by rw [Geometry.root]; omega
  have one : src.size = 1 * g.block_size := by omega
  have inside := g.block_inside (p := 2) (by have root := g.root_inside; omega)
  refine ⟨holds.superblock, holds.gdt, holds.static, ?_, ?_, ?_, ?_, ?_⟩
  · rw [← holds.size]
    exact size_patch _ _ _ (by rw [holds.size]; omega)
  · intro n low high
    rw [slotAt_patch_before (by omega), holds.slots n low high]
  · intro p low high
    rw [blockAt_patch_apart one (by omega), holds.blocks p low high]
  · intro i small
    rw [blockAt_patch_apart one (by omega)]
    exact holds.inode_bits i small
  · intro i small
    rw [blockAt_patch_same size]

/-- The bits of the volume may be given by any function that agrees below the
    size of a bitmap. -/
theorem Holds.congr_bits (holds : Holds g v fs) (inodeBit blockBit : Nat → Bool)
    (inodes : ∀ i, i < 8 * g.block_size → v.inodeBit i = inodeBit i)
    (blocks : ∀ i, i < 8 * g.block_size → v.blockBit i = blockBit i) :
    Holds g { v with inodeBit, blockBit } fs :=
  { holds with
    static := holds.static
    inode_bits := fun i small => (holds.inode_bits i small).trans (inodes i small)
    block_bits := fun i small => (holds.block_bits i small).trans (blocks i small) }

/-- The counts of the superblock may change. -/
theorem Static.superblock {sb : Superblock} {gdt : List GroupDescriptor} (static : Static g sb gdt) (f : Nat → Nat) :
    Static g (on_all_free_inodes f sb) gdt ∧ Static g (on_all_free_blocks f sb) gdt := by
  obtain ⟨h1, h2, h3, h4, h5, h6, h7, h8, h9, h10, h11⟩ := static
  exact ⟨⟨h1, h2, h3, h4, h5, h6, h7, h8, h9, h10, h11⟩, ⟨h1, h2, h3, h4, h5, h6, h7, h8, h9, h10, h11⟩⟩
theorem Holds.onSuperblock (holds : Holds g v fs) {f : Superblock → Superblock} (static : Static g (f v.superblock) v.gdt) :
    Holds g { v with superblock := f v.superblock } { fs with superblock := f fs.superblock } :=
  { holds with
    superblock := congrArg f holds.superblock
    static := static }
end

end Justext4.Volumes
