import Mathlib.Data.List.Pairwise
import Justext4.Codecs
import Justext4.Images
import Justext4.Populate
import Justext4.Recounting
import Justext4.Slots

/-!
What writing the records out does to their bytes. The superblock and every
entry of the descriptor table are encoded over zeros, last of all in a call, so
what comes of a byte depends on the record in memory alone: the fields are
written, and everything between them is erased.
-/
namespace Justext4.FlushedRecords
open Justext4 Justext4.Fallible Justext4.Fields Justext4.Filesystem Bytes
open Justext4.Superblock (Superblock is_64bit group_descriptor_size SUPERBLOCK_OFFSET SUPERBLOCK_SIZE superblockAt
  blockSizeOf logBlockSizeOf)
open Justext4.GroupDescriptor (GroupDescriptor)
open Justext4.Calls (Request execute Flushes Whole image_of fresh default_small default_opened defaultLayout)
open Justext4.Codecs
open Justext4.Images (tableOffset)
open Justext4.Mkfs Justext4.Volumes Justext4.Nodes Justext4.Create Justext4.Progress
open Justext4.Allocation (open_image_ok)
open Justext4.Decoders (opened_of)
open Justext4.Populate (numbered_ok)
open Justext4.Recounting
open Justext4.Slots (combine64_low combine64_high)

/-! ### Records written over zeros -/

/-- The byte is in one of the spans. -/
def InSpans (spans : List (Nat × Nat)) (k : Nat) : Prop := ∃ s ∈ spans, s.1 ≤ k ∧ k < s.1 + s.2
instance (spans : List (Nat × Nat)) (k : Nat) : Decidable (InSpans spans k) := inferInstanceAs (Decidable (∃ _ ∈ _, _))

/-- The fields and zeros between them. -/
def encoded (n : Nat) (fields : List (Nat × Bytes)) : Bytes := patches (zeros n) fields

theorem encoded_over {n : Nat} {out : Bytes} (size : out.size = n) (fields : List (Nat × Bytes)) :
    patches (out.patch 0 (zeros n)) fields = encoded n fields := by
  have kept : (out.patch 0 (zeros n)).size = n := by rw [size_patch _ _ _ (by simp [size]), size]
  have cleared : out.patch 0 (zeros n) = zeros n := by
    refine ext_inside kept fun i inside => ?_
    rw [kept] at inside
    have written := byte_patch_inside out 0 (zeros n) (show i < (zeros n).size from inside)
    rwa [Nat.zero_add] at written
  rw [cleared, encoded]

section
variable {fields : List (Nat × Bytes)} {owned : List (Nat × Nat)} {old : Bytes} {n k : Nat}

theorem encoded_gap (gap : ¬ InSpans (fields.map span) k) : (encoded n fields).byte k = 0 := by
  rw [encoded, byte_patches_gap, byte_zeros]
  intro f member
  rcases Nat.lt_or_ge k f.1 with before | low
  · exact .inl before
  rcases Nat.lt_or_ge k (f.1 + f.2.size) with high | past
  · exact absurd ⟨span f, List.mem_map_of_mem member, low, high⟩ gap
  · exact .inr past
instance : Std.Symm Apart := ⟨fun _ _ apart => apart.symm⟩

/-- A record written over zeros differs from what was there in the spans that
    it may change only, exactly when there was nothing between the fields and
    the other fields were the same. -/
theorem encoded_owned (apart : fields.Pairwise Apart) (within : Within n fields)
    (listed : ∀ s ∈ owned, s ∈ fields.map span) :
    (∀ k < n, (encoded n fields).byte k ≠ old.byte k → InSpans owned k) ↔
      (∀ k < n, ¬ InSpans (fields.map span) k → old.byte k = 0) ∧
        ∀ f ∈ fields, span f ∉ owned → old.slice f.1 f.2.size = f.2 := by
  constructor
  · intro only
    refine ⟨fun k inside gap => ?_, fun f member other => ?_⟩
    · refine Decidable.byContradiction fun some => ?_
      obtain ⟨s, mine, here⟩ := only k inside (by rw [encoded_gap gap]; exact Ne.symm some)
      exact gap ⟨s, listed s mine, here⟩
    · refine ext_inside rfl fun i inside => ?_
      rw [size_slice] at inside
      rw [byte_slice_of_lt _ inside]
      refine Decidable.byContradiction fun differs => ?_
      have fits := within f member
      have written := byte_patches_mem apart member (zeros n) (Nat.le_add_right f.1 i) (by omega)
      rw [Nat.add_sub_cancel_left] at written
      obtain ⟨s, mine, low, high⟩ := only (f.1 + i) (by omega) (by rw [encoded, written]; exact Ne.symm differs)
      obtain ⟨g, member', rfl⟩ := List.mem_map.mp (listed s mine)
      -- The field that may be changed is another one, and they share no byte.
      have distinct : f ≠ g := fun same => other (same ▸ mine)
      have disjoint : Apart f g := apart.forall member member' distinct
      simp only [span] at low high
      rcases disjoint with before | after <;> omega
  · rintro ⟨blank, same⟩ k inside differs
    by_cases gap : InSpans (fields.map span) k
    case neg => exact absurd ((encoded_gap gap).trans (blank k inside gap).symm) differs
    obtain ⟨s, member, low, high⟩ := gap
    obtain ⟨f, listed', rfl⟩ := List.mem_map.mp member
    by_cases mine : span f ∈ owned
    case pos => exact ⟨span f, mine, low, high⟩
    simp only [span] at low high
    rw [encoded, byte_patches_mem apart listed' _ low high, ← same f listed' mine,
      byte_slice_of_lt _ (by omega), Nat.add_sub_cancel' low] at differs
    exact absurd rfl differs
end

/-! ### What writing out leaves in the image -/

/-- The bytes of the superblock. -/
def superblockBytes (fs : Filesystem) : Bytes := fs.reader.slice SUPERBLOCK_OFFSET SUPERBLOCK_SIZE
/-- The size of an entry of the descriptor table, and the bytes of one. -/
def entrySize (fs : Filesystem) : Nat := (group_descriptor_size fs.superblock).toNat
def entryBytes (fs : Filesystem) (i : Nat) : Bytes :=
  fs.reader.slice (tableOffset fs.superblock + i * entrySize fs) (entrySize fs)
/-- The descriptor table and the superblock share no byte. -/
def TableApart (fs : Filesystem) : Prop :=
  tableOffset fs.superblock + fs.gdt.length * entrySize fs ≤ SUPERBLOCK_OFFSET ∨
    SUPERBLOCK_OFFSET + SUPERBLOCK_SIZE ≤ tableOffset fs.superblock

/-- The records in memory are encoded in the image. -/
structure Encoded (fs : Filesystem) (log : UInt32) : Prop where
  superblock : superblockBytes fs = encoded SUPERBLOCK_SIZE (superblockFields fs.superblock log)
  gdt : ∀ i gd, fs.gdt[i]? = some gd → entryBytes fs i = encoded (entrySize fs) (descriptorFields gd (entrySize fs))

/-- The table is written entry by entry from an offset, and nothing else is. -/
theorem write_gdt_run {fs : Filesystem} {n : Nat} (same : (group_descriptor_size fs.superblock).toNat = n)
    (gds : List GroupDescriptor) (large : gds ≠ [] → 32 ≤ n) (offset : Nat) {gd_buf : Bytes} (size : gd_buf.size = n) :
    ∃ r, (write_gdt offset gd_buf gds).run fs = .ok () { fs with reader := r } ∧
      ((gds ≠ [] → offset + gds.length * n ≤ fs.reader.size) → r.size = fs.reader.size) ∧
      (∀ i, i < offset ∨ offset + gds.length * n ≤ i → r.byte i = fs.reader.byte i) ∧
      ∀ i gd, gds[i]? = some gd → r.slice (offset + i * n) n = encoded n (descriptorFields gd n) := by
  induction gds generalizing offset gd_buf fs with
  | nil => exact ⟨fs.reader, rfl, fun _ => rfl, fun _ _ => rfl, fun i gd found => by simp at found⟩
  | cons gd rest ih =>
    have wide : 32 ≤ n := large (List.cons_ne_nil _ _)
    have written : descriptorImage gd n gd_buf = encoded n (descriptorFields gd n) := encoded_over size _
    have whole : (encoded n (descriptorFields gd n)).size = n := by
      rw [← written, size_descriptorImage gd wide (Nat.le_of_eq size.symm), size]
    obtain ⟨r, ran, kept, outside, entries⟩ := @ih { fs with reader := fs.reader.patch offset (encoded n (descriptorFields gd n)) }
      same (fun _ => wide) (offset + n) _ whole
    have length : (gd :: rest).length * n = n + rest.length * n := by rw [List.length_cons, Nat.add_mul, Nat.one_mul, Nat.add_comm]
    refine ⟨r, ?_, fun fits => ?_, fun i out => ?_, fun i gd' found => ?_⟩
    · simp only [write_gdt, run_bind, run_reads, descriptor_encode gd same wide (Nat.le_of_eq size.symm), liftErr_ok,
        ofRes_ok, andThen_ok, write_at, run_change, written, whole]
      exact ran
    · have room := fits (List.cons_ne_nil _ _)
      have same : (fs.reader.patch offset (encoded n (descriptorFields gd n))).size = fs.reader.size :=
        size_patch _ _ _ (by omega)
      exact (kept fun _ => by rw [same]; omega).trans same
    · rw [outside i (by omega)]
      exact byte_patch_outside _ (by omega)
    · cases i with
      | zero =>
        cases found
        rw [Nat.zero_mul, Nat.add_zero]
        refine ext_inside whole.symm fun i inside => ?_
        rw [size_slice] at inside
        rw [byte_slice_of_lt _ inside, outside _ (by omega)]
        exact byte_patch_inside _ _ _ (by omega)
      | succ i =>
        have later := entries i gd' found
        rwa [show offset + n + i * n = offset + (i + 1) * n by rw [Nat.add_mul]; omega] at later

/-- Writing the records out encodes them, and changes nothing else. -/
theorem flush_run {fs : Filesystem} {log : UInt32} (known : logBlockSizeOf fs.superblock.block_size = some log)
    (large : fs.gdt ≠ [] → 32 ≤ entrySize fs) (apart : TableApart fs) :
    ∃ r, flush_metadata.run fs = .ok () { fs with reader := r } ∧ Encoded { fs with reader := r } log := by
  have written : superblockImage fs.superblock log (zeros SUPERBLOCK_SIZE) =
      encoded SUPERBLOCK_SIZE (superblockFields fs.superblock log) := encoded_over rfl _
  have enough : 1024 ≤ (zeros SUPERBLOCK_SIZE).size := Nat.le_refl _
  have whole : (encoded SUPERBLOCK_SIZE (superblockFields fs.superblock log)).size = SUPERBLOCK_SIZE := by
    rw [← written, size_superblockImage _ _ enough, size_zeros]
  let mid : Filesystem :=
    { fs with reader := fs.reader.patch SUPERBLOCK_OFFSET (encoded SUPERBLOCK_SIZE (superblockFields fs.superblock log)) }
  obtain ⟨r, ran, -, outside, entries⟩ := @write_gdt_run mid (entrySize fs) rfl fs.gdt large (tableOffset fs.superblock)
    (zeros (entrySize fs)) rfl
  refine ⟨r, ?_, ?_, entries⟩
  · simp only [flush_metadata, run_bind, run_reads, superblock_encode known enough, liftErr_ok, ofRes_ok,
      andThen_ok, write_at, run_change, written]
    exact ran
  · refine ext_inside whole.symm fun i inside => ?_
    have short : i < SUPERBLOCK_SIZE := inside
    rw [superblockBytes, byte_slice_of_lt _ short, outside _ (by rcases apart with before | after <;> omega)]
    exact byte_patch_inside _ _ _ (by rw [whole]; exact short)

/-! ### The fields that count what is free -/

/-- The counts of a superblock, with the high half on 64-bit images. -/
def superblockCounts (sb : Superblock) : List (Nat × Nat) :=
  [(Superblock.OFF_FREE_BLOCKS_COUNT_LO, 4), (Superblock.OFF_FREE_INODES_COUNT, 4)] ++
    if is_64bit sb then [(Superblock.OFF_FREE_BLOCKS_COUNT_HI, 4)] else []
/-- The counts of an entry of `n` bytes. -/
def descriptorCounts (n : Nat) : List (Nat × Nat) :=
  [(GroupDescriptor.OFF_FREE_BLOCKS_COUNT_LO, 2), (GroupDescriptor.OFF_FREE_INODES_COUNT_LO, 2),
    (GroupDescriptor.OFF_USED_DIRS_COUNT_LO, 2)] ++
    if 64 ≤ n then [(GroupDescriptor.OFF_FREE_BLOCKS_COUNT_HI, 2), (GroupDescriptor.OFF_FREE_INODES_COUNT_HI, 2),
      (GroupDescriptor.OFF_USED_DIRS_COUNT_HI, 2)] else []

/-- The fields of a superblock, and those of an entry of `n` bytes. -/
def superblockSpans (sb : Superblock) : List (Nat × Nat) :=
  [(0, 4), (4, 4), (12, 4), (16, 4), (20, 4), (24, 4), (28, 4), (32, 4), (36, 4), (40, 4), (44, 4), (48, 4), (52, 2),
    (54, 2), (56, 2), (58, 2), (60, 2), (62, 2), (64, 4), (68, 4), (72, 4), (76, 4), (84, 4), (88, 2), (92, 4), (96, 4),
    (100, 4), (104, 16), (120, 16), (236, 16), (252, 1), (254, 2)] ++ if is_64bit sb then [(336, 4), (344, 4)] else []
def descriptorSpans (n : Nat) : List (Nat × Nat) :=
  [(0, 4), (4, 4), (8, 4), (12, 2), (14, 2), (16, 2), (18, 2), (30, 2)] ++
    if 64 ≤ n then [(32, 4), (36, 4), (40, 4), (44, 2), (46, 2), (48, 2)] else []

theorem spans_of_superblock (sb : Superblock) (log : UInt32) : (superblockFields sb log).map span = superblockSpans sb := by
  rw [Codecs.superblock_spans, Superblock.spans, superblockSpans]
theorem spans_of_descriptor (gd : GroupDescriptor) (n : Nat) : (descriptorFields gd n).map span = descriptorSpans n := by
  rw [Codecs.descriptor_spans, GroupDescriptor.spans, descriptorSpans]
theorem superblockCounts_listed (sb : Superblock) : ∀ s ∈ superblockCounts sb, s ∈ superblockSpans sb := by
  unfold superblockCounts superblockSpans
  cases is_64bit sb <;> decide
theorem descriptorCounts_listed (n : Nat) : ∀ s ∈ descriptorCounts n, s ∈ descriptorSpans n := by
  unfold descriptorCounts descriptorSpans
  by_cases wide : 64 ≤ n
  · rw [if_pos wide, if_pos wide]
    decide
  · rw [if_neg wide, if_neg wide]
    decide

theorem slice_eq_le32 {b : Bytes} {offset : Nat} {value : UInt32} :
    b.slice offset 4 = le32 value ↔ b.u32At offset = value := by
  refine ⟨u32At_of_slice, ?_⟩
  rintro rfl
  exact (le32_u32At b offset).symm
theorem slice_eq_le16 {b : Bytes} {offset : Nat} {value : UInt16} :
    b.slice offset 2 = le16 value ↔ b.u16At offset = value := by
  refine ⟨u16At_of_slice, ?_⟩
  rintro rfl
  exact (le16_u16At b offset).symm
theorem slice_eq_byte {b : Bytes} {offset : Nat} : b.slice offset 1 = ofList [b.byte offset] := by
  refine ext_inside rfl fun i inside => ?_
  rw [size_slice] at inside
  have first : i = 0 := by omega
  subst first
  rw [byte_slice_of_lt _ inside]
  rfl

theorem low_half (hi lo : UInt32) (wide : Bool) : UInt32.ofNat (Superblock.combine_hi_lo hi lo wide).toNat = lo := by
  cases wide with
  | true => exact combine64_low hi lo
  | false =>
    apply UInt32.toNat_inj.mp
    have low := lo.toNat_lt
    simp only [Superblock.combine_hi_lo, Bool.false_eq_true, ↓reduceIte, UInt64.toNat_ofNat', UInt32.toNat_ofNat']
    omega
theorem high_half (hi lo : UInt32) : UInt32.ofNat ((Superblock.combine_hi_lo hi lo true).toNat / 4294967296) = hi :=
  combine64_high hi lo
theorem address_low (hi lo : UInt32) : UInt32.ofNat (GroupDescriptor.combine_addr hi lo).toNat = lo := combine64_low hi lo
theorem address_high (hi lo : UInt32) : UInt32.ofNat ((GroupDescriptor.combine_addr hi lo).toNat / 4294967296) = hi :=
  combine64_high hi lo

/-- What is written of a decoded superblock is what was read of it, but for
    the two fields that are written from others and a size that was defaulted. -/
theorem superblock_rewritten {buf : Bytes} {block_size log : UInt32} (blocks : UInt64) (inodes : UInt32)
    (magic : buf.u16At Superblock.OFF_MAGIC = Superblock.EXT4_MAGIC)
    (logged : buf.u32At Superblock.OFF_LOG_BLOCK_SIZE = log) :
    (∀ f ∈ superblockFields { superblockAt buf block_size with free_blocks_count := blocks, free_inodes_count := inodes } log,
      span f ∉ superblockCounts (superblockAt buf block_size) → buf.slice f.1 f.2.size = f.2) ↔
      buf.u32At Superblock.OFF_LOG_CLUSTER_SIZE = buf.u32At Superblock.OFF_LOG_BLOCK_SIZE ∧
        buf.u32At Superblock.OFF_CLUSTERS_PER_GROUP = buf.u32At Superblock.OFF_BLOCKS_PER_GROUP ∧
        buf.u16At Superblock.OFF_INODE_SIZE = (superblockAt buf block_size).inode_size := by
  have flag : is_64bit { superblockAt buf block_size with free_blocks_count := blocks, free_inodes_count := inodes } =
      is_64bit (superblockAt buf block_size) := rfl
  unfold superblockFields superblockCounts
  rw [flag]
  cases wide : is_64bit (superblockAt buf block_size) with
  | false =>
    simp +decide only [↓reduceIte, List.append_nil, Superblock.fields, List.forall_mem_cons, span,
      size_le32, size_le16, FixedBytes.ofSlice, size_slice, size_ofList, List.length_singleton, superblockAt,
      slice_eq_le32, slice_eq_le16, slice_eq_byte, low_half, logged, magic]
    simp
  | true =>
    have flag' : (buf.u32At Superblock.OFF_FEATURE_INCOMPAT &&& Superblock.FEATURE_INCOMPAT_64BIT != 0) = true := wide
    simp +decide only [↓reduceIte, Superblock.fields, Superblock.highFields, List.forall_mem_append,
      List.forall_mem_cons, span, size_le32, size_le16, FixedBytes.ofSlice, size_slice, size_ofList,
      List.length_singleton, superblockAt, slice_eq_le32, slice_eq_le16, slice_eq_byte, low_half, high_half, logged, magic,
      flag']
    simp

/-- What is written of a decoded entry is what was read of it. -/
theorem descriptor_rewritten {buf : Bytes} {n : Nat} {gd : GroupDescriptor} (same : SameGroup (descriptorOf buf n) gd) :
    ∀ f ∈ descriptorFields gd n, span f ∉ descriptorCounts n → buf.slice f.1 f.2.size = f.2 := by
  obtain ⟨blocks, inodes, dirs, rfl⟩ := same
  unfold descriptorFields descriptorCounts
  by_cases wide : 64 ≤ n
  · simp +decide only [wide, ↓reduceIte, GroupDescriptor.fields, GroupDescriptor.highFields, List.forall_mem_append,
      List.forall_mem_cons, span, size_le32, size_le16, descriptorOf, highWordAt, slice_eq_le32, slice_eq_le16,
      address_low, address_high]
    simp
  · simp +decide only [wide, ↓reduceIte, List.append_nil, GroupDescriptor.fields, List.forall_mem_cons, span, size_le32,
      size_le16, descriptorOf, highWordAt, slice_eq_le32, slice_eq_le16, address_low]
    simp

/-! ### Loaded records -/

/-- The records in memory are those of the image but for their counts. -/
structure Loaded (fs : Filesystem) : Prop where
  superblock : ∃ sb blocks inodes, Superblock.decode (superblockBytes fs) = .ok sb ∧
    fs.superblock = { sb with free_blocks_count := blocks, free_inodes_count := inodes }
  large : fs.gdt ≠ [] → 32 ≤ entrySize fs
  gdt : ∀ i gd, fs.gdt[i]? = some gd → SameGroup (descriptorOf (entryBytes fs i) (entrySize fs)) gd

/-- Nothing of the records has changed but what they count. -/
structure CountsOnly (fs fs' : Filesystem) : Prop where
  superblock : ∀ k < SUPERBLOCK_SIZE, (superblockBytes fs').byte k ≠ (superblockBytes fs).byte k →
    InSpans (superblockCounts fs.superblock) k
  gdt : ∀ i < fs.gdt.length, ∀ k < entrySize fs, (entryBytes fs' i).byte k ≠ (entryBytes fs i).byte k →
    InSpans (descriptorCounts (entrySize fs)) k

/-- There is nothing between the fields of the records, and the fields that are
    written from others are as those say. -/
structure Reproducible (fs : Filesystem) : Prop where
  superblock : ∀ k < SUPERBLOCK_SIZE, ¬ InSpans (superblockSpans fs.superblock) k → (superblockBytes fs).byte k = 0
  cluster_size : (superblockBytes fs).u32At Superblock.OFF_LOG_CLUSTER_SIZE =
    (superblockBytes fs).u32At Superblock.OFF_LOG_BLOCK_SIZE
  clusters : (superblockBytes fs).u32At Superblock.OFF_CLUSTERS_PER_GROUP =
    (superblockBytes fs).u32At Superblock.OFF_BLOCKS_PER_GROUP
  inode_size : (superblockBytes fs).u16At Superblock.OFF_INODE_SIZE = fs.superblock.inode_size
  gdt : ∀ i < fs.gdt.length, ∀ k < entrySize fs, ¬ InSpans (descriptorSpans (entrySize fs)) k → (entryBytes fs i).byte k = 0

section
variable {fs mid fs' : Filesystem} {log : UInt32}

theorem recounted_entry (recounted : Recounted fs mid) {i : Nat} (inside : i < fs.gdt.length) :
    ∃ gd gd', fs.gdt[i]? = some gd ∧ mid.gdt[i]? = some gd' ∧ SameGroup gd gd' := by
  obtain ⟨length, each⟩ := List.forall₂_iff_get.mp recounted.gdt
  have inside' : i < mid.gdt.length := by omega
  exact ⟨_, _, List.getElem?_eq_getElem inside, List.getElem?_eq_getElem inside', each i inside inside'⟩

/-- The bytes of the superblock, from the fields that are written. -/
theorem superblock_counts_iff (loaded : Loaded fs) (recounted : Recounted fs mid)
    (known : logBlockSizeOf mid.superblock.block_size = some log)
    (written : superblockBytes fs' = encoded SUPERBLOCK_SIZE (superblockFields mid.superblock log)) :
    (∀ k < SUPERBLOCK_SIZE, (superblockBytes fs').byte k ≠ (superblockBytes fs).byte k →
      InSpans (superblockCounts fs.superblock) k) ↔
      (∀ k < SUPERBLOCK_SIZE, ¬ InSpans (superblockSpans fs.superblock) k → (superblockBytes fs).byte k = 0) ∧
        (superblockBytes fs).u32At Superblock.OFF_LOG_CLUSTER_SIZE =
          (superblockBytes fs).u32At Superblock.OFF_LOG_BLOCK_SIZE ∧
        (superblockBytes fs).u32At Superblock.OFF_CLUSTERS_PER_GROUP =
          (superblockBytes fs).u32At Superblock.OFF_BLOCKS_PER_GROUP ∧
        (superblockBytes fs).u16At Superblock.OFF_INODE_SIZE = fs.superblock.inode_size := by
  obtain ⟨sb, _, _, decoded, loaded⟩ := loaded.superblock
  obtain ⟨blocks, inodes, counted⟩ := recounted.superblock
  obtain ⟨-, magic, block_size, sized, rfl⟩ := superblock_decode_inv decoded
  rw [counted, loaded] at known written
  cases known.symm.trans (logBlockSizeOf_known sized)
  have apart := superblock_apart { superblockAt (superblockBytes fs) block_size with
    free_blocks_count := blocks, free_inodes_count := inodes } ((superblockBytes fs).u32At Superblock.OFF_LOG_BLOCK_SIZE)
  have within := superblock_within { superblockAt (superblockBytes fs) block_size with
    free_blocks_count := blocks, free_inodes_count := inodes } ((superblockBytes fs).u32At Superblock.OFF_LOG_BLOCK_SIZE)
  have listed := superblockCounts_listed { superblockAt (superblockBytes fs) block_size with
    free_blocks_count := blocks, free_inodes_count := inodes }
  rw [← spans_of_superblock _ ((superblockBytes fs).u32At Superblock.OFF_LOG_BLOCK_SIZE)] at listed
  have owned := @encoded_owned _ _ (superblockBytes fs) _ apart within listed
  rw [spans_of_superblock] at owned
  have rewritten := @superblock_rewritten _ block_size _ blocks inodes magic rfl
  rw [written, loaded]
  exact owned.trans (and_congr_right fun _ => rewritten)

/-- The bytes of an entry, from the fields that are written. -/
theorem descriptor_counts_iff (loaded : Loaded fs) (recounted : Recounted fs mid) {i : Nat} (inside : i < fs.gdt.length)
    (written : ∀ gd, mid.gdt[i]? = some gd → entryBytes fs' i = encoded (entrySize fs) (descriptorFields gd (entrySize fs))) :
    (∀ k < entrySize fs, (entryBytes fs' i).byte k ≠ (entryBytes fs i).byte k →
      InSpans (descriptorCounts (entrySize fs)) k) ↔
      ∀ k < entrySize fs, ¬ InSpans (descriptorSpans (entrySize fs)) k → (entryBytes fs i).byte k = 0 := by
  obtain ⟨gd, gd', found, found', same⟩ := recounted_entry recounted inside
  have large := loaded.large (List.ne_nil_of_length_pos (by omega))
  have same' := sameGroup_trans (loaded.gdt i gd found) same
  have listed := descriptorCounts_listed (entrySize fs)
  rw [← spans_of_descriptor gd'] at listed
  have owned := @encoded_owned _ _ (entryBytes fs i) _ (descriptor_apart gd' _) (descriptor_within gd' large) listed
  rw [spans_of_descriptor, ← written gd' found'] at owned
  exact owned.trans (and_iff_left (descriptor_rewritten same'))
end

/-! ### Calls that end by writing the records out -/

theorem sliced_of_read {image b : Bytes} {offset len : Nat} (read : read_at image offset len = .ok b) :
    b = image.slice offset len := by
  rw [read_at] at read
  split at read
  · exact (Except.ok.inj read).symm
  · cases read

theorem sliced_of_range {ε : Type} {b part : Bytes} {start stop : Nat} (ranged : (b.range start stop : Res ε Bytes) = .ok part) :
    part = b.slice start (stop - start) := by
  rw [Bytes.range] at ranged
  split at ranged
  · exact (Except.ok.inj ranged).symm
  · cases ranged

/-- An image opens to the records that it holds. -/
theorem opened_records {image : Bytes} {fs : Filesystem} (opened : open_image image = .ok fs) :
    Superblock.decode (superblockBytes fs) = .ok fs.superblock ∧
      ∀ i gd, fs.gdt[i]? = some gd → 32 ≤ entrySize fs ∧ gd = descriptorOf (entryBytes fs i) (entrySize fs) := by
  rw [open_image] at opened
  obtain ⟨sb_buf, read, opened⟩ := res_bind_eq_ok.mp opened
  obtain ⟨sb, decoded, opened⟩ := res_bind_eq_ok.mp opened
  obtain ⟨_, -, opened⟩ := res_bind_eq_ok.mp opened
  obtain ⟨_, -, opened⟩ := res_bind_eq_ok.mp opened
  obtain ⟨gdt_buf, read', opened⟩ := res_bind_eq_ok.mp opened
  obtain ⟨gdt, table, opened⟩ := res_bind_eq_ok.mp opened
  cases opened
  rw [liftErr_eq_ok, sliced_of_read read] at decoded
  refine ⟨decoded, fun i gd found => ?_⟩
  obtain ⟨inside, value⟩ := collect_entry table found
  rw [Nat.zero_add] at value
  obtain ⟨entry, part, value⟩ := res_bind_eq_ok.mp value
  obtain ⟨large, -, value⟩ := descriptor_decode_inv (liftErr_eq_ok.mp value)
  refine ⟨large, ?_⟩
  rw [value, sliced_of_range part, sliced_of_read read', Nat.add_sub_cancel_left, slice_slice]
  · rfl
  · rw [← Nat.succ_mul]
    exact Nat.mul_le_mul_right _ inside
theorem loaded_opened {image : Bytes} {fs : Filesystem} (opened : open_image image = .ok fs) : Loaded fs := by
  obtain ⟨decoded, entries⟩ := opened_records opened
  refine ⟨⟨fs.superblock, _, _, decoded, rfl⟩, fun some => ?_, fun i gd found => ?_⟩
  · obtain ⟨gd, rest, listed⟩ := List.exists_cons_of_ne_nil some
    exact (entries 0 gd (by rw [listed]; rfl)).1
  · obtain ⟨-, same⟩ := entries i gd found
    rw [same]
    exact sameGroup_refl _

/-- The counts as an image can hold them. -/
def storedCounts (sb : Superblock) : Superblock :=
  { sb with free_blocks_count := if is_64bit sb then sb.free_blocks_count else .ofNat (sb.free_blocks_count.toNat % 4294967296) }
def storedGroup (gd : GroupDescriptor) (n : Nat) : GroupDescriptor :=
  if 64 ≤ n then gd
  else { gd with
    free_blocks_count := .ofNat (gd.free_blocks_count.toNat % 65536)
    free_inodes_count := .ofNat (gd.free_inodes_count.toNat % 65536)
    used_dirs_count := .ofNat (gd.used_dirs_count.toNat % 65536) }

theorem fields_storedCounts (sb : Superblock) (log : UInt32) :
    superblockFields (storedCounts sb) log = superblockFields sb log := by
  have flag : is_64bit (storedCounts sb) = is_64bit sb := rfl
  have same : UInt32.ofNat (UInt64.ofNat (sb.free_blocks_count.toNat % 4294967296)).toNat =
      UInt32.ofNat sb.free_blocks_count.toNat := by
    apply UInt32.toNat_inj.mp
    simp only [UInt32.toNat_ofNat', UInt64.toNat_ofNat']
    omega
  unfold superblockFields
  rw [flag]
  cases wide : is_64bit sb with
  | true => simp only [storedCounts, wide, ↓reduceIte, Superblock.fields, Superblock.highFields]
  | false => simp only [storedCounts, wide, Bool.false_eq_true, ↓reduceIte, Superblock.fields, same]
theorem fields_storedGroup (gd : GroupDescriptor) (n : Nat) : descriptorFields (storedGroup gd n) n = descriptorFields gd n := by
  have cut : ∀ count : UInt32, UInt16.ofNat (UInt32.ofNat (count.toNat % 65536)).toNat = UInt16.ofNat count.toNat := by
    intro count
    apply UInt16.toNat_inj.mp
    simp only [UInt16.toNat_ofNat', UInt32.toNat_ofNat']
    omega
  unfold storedGroup descriptorFields
  by_cases wide : 64 ≤ n
  · simp only [wide, ↓reduceIte]
  · simp only [wide, ↓reduceIte, GroupDescriptor.fields, cut]

section
variable {fs mid fs' : Filesystem} {log : UInt32} {r : Bytes}

theorem storable_stored (loaded : Loaded fs) (recounted : Recounted fs mid) :
    Codecs.Storable (storedCounts mid.superblock) := by
  obtain ⟨sb, _, _, decoded, loaded⟩ := loaded.superblock
  obtain ⟨blocks, inodes, counted⟩ := recounted.superblock
  obtain ⟨-, -, block_size, -, rfl⟩ := superblock_decode_inv decoded
  have back := superblockAt_storable (superblockBytes fs) block_size
  rw [counted, loaded]
  refine ⟨back.sized, back.fixed, back.blocks, fun narrow => ?_⟩
  have cut := Nat.mod_lt blocks.toNat (show 0 < 4294967296 by decide)
  have narrow' : is_64bit { superblockAt (superblockBytes fs) block_size with
    free_blocks_count := blocks, free_inodes_count := inodes } = false := narrow
  rw [storedCounts, if_neg (by rw [narrow']; exact Bool.false_ne_true), UInt64.toNat_ofNat']
  exact Nat.lt_of_le_of_lt (Nat.mod_le _ _) cut
theorem fits_stored {buf : Bytes} {n : Nat} {gd : GroupDescriptor} (same : SameGroup (descriptorOf buf n) gd) :
    Codecs.Fits (storedGroup gd n) n := by
  obtain ⟨blocks, inodes, dirs, rfl⟩ := same
  have back := descriptorOf_fits buf n
  have cut : ∀ count : UInt32, (UInt32.ofNat (count.toNat % 65536)).toNat < 65536 := by
    intro count
    rw [UInt32.toNat_ofNat']
    omega
  unfold storedGroup
  split
  · rename_i wide
    exact ⟨back.block_bitmap, back.inode_bitmap, back.inode_table, fun narrow => absurd wide narrow,
      fun narrow => absurd wide narrow, fun narrow => absurd wide narrow⟩
  · exact ⟨back.block_bitmap, back.inode_bitmap, back.inode_table, fun _ => cut _, fun _ => cut _, fun _ => cut _⟩

/-- Records that have been written out are loaded again, whatever their counts are. -/
theorem loaded_flushed (loaded : Loaded fs) (recounted : Recounted fs mid)
    (known : logBlockSizeOf mid.superblock.block_size = some log) (written : Encoded { mid with reader := r } log) :
    Loaded { mid with reader := r } := by
  have size : entrySize { mid with reader := r } = entrySize fs := by
    obtain ⟨blocks, inodes, counted⟩ := recounted.superblock
    simp only [entrySize, counted]
    rfl
  have length : mid.gdt.length = fs.gdt.length := recounted.gdt.length_eq.symm
  refine ⟨⟨storedCounts mid.superblock, mid.superblock.free_blocks_count, mid.superblock.free_inodes_count, ?_, rfl⟩,
    fun some => ?_, fun i gd found => ?_⟩
  · have enough : 1024 ≤ (zeros SUPERBLOCK_SIZE).size := Nat.le_refl _
    have image : superblockImage (storedCounts mid.superblock) log (zeros SUPERBLOCK_SIZE) =
        superblockBytes { mid with reader := r } := by
      rw [written.superblock, ← fields_storedCounts]
      exact encoded_over rfl _
    have known' : logBlockSizeOf (storedCounts mid.superblock).block_size = some log := known
    have back := superblock_decode_image known' (storable_stored loaded recounted) enough
    rw [image] at back
    exact back
  · rw [size]
    refine loaded.large (List.ne_nil_of_length_pos ?_)
    rw [← length]
    exact List.length_pos_iff.mpr some
  · have found' : mid.gdt[i]? = some gd := found
    have inside : i < fs.gdt.length := by
      rw [← length]
      exact (List.getElem?_eq_some_iff.mp found').1
    obtain ⟨gd₀, gd', found₀, found₁, same⟩ := recounted_entry recounted inside
    cases found'.symm.trans found₁
    have fits := fits_stored (sameGroup_trans (loaded.gdt i gd₀ found₀) same)
    have back := descriptorOf_image fits (zeros (entrySize fs))
    rw [descriptorImage, encoded_over (size_zeros _), fields_storedGroup] at back
    rw [written.gdt i gd found, size, back]
    unfold storedGroup
    split
    · exact sameGroup_refl gd
    · exact ⟨_, _, _, rfl⟩

/-- Written-out records are reproduced from then on. -/
theorem counts_only_iff (loaded : Loaded fs) (recounted : Recounted fs mid)
    (known : logBlockSizeOf mid.superblock.block_size = some log) (written : Encoded { mid with reader := r } log) :
    CountsOnly fs { mid with reader := r } ↔ Reproducible fs := by
  obtain ⟨blocks, inodes, counted⟩ := recounted.superblock
  have size : entrySize { mid with reader := r } = entrySize fs := by
    simp only [entrySize, counted]
    rfl
  have entries : ∀ i < fs.gdt.length, ∀ gd, mid.gdt[i]? = some gd →
      entryBytes { mid with reader := r } i = encoded (entrySize fs) (descriptorFields gd (entrySize fs)) := by
    intro i _ gd found
    rw [written.gdt i gd found, size]
  have first := superblock_counts_iff loaded recounted known written.superblock
  have table := fun i inside => descriptor_counts_iff loaded recounted (i := i) inside (entries i inside)
  constructor
  · intro only
    obtain ⟨blank, cluster_size, clusters, inode_size⟩ := first.mp only.superblock
    exact ⟨blank, cluster_size, clusters, inode_size, fun i inside => (table i inside).mp (only.gdt i inside)⟩
  · intro kept
    exact ⟨first.mpr ⟨kept.superblock, kept.cluster_size, kept.clusters, kept.inode_size⟩,
      fun i inside => (table i inside).mpr (kept.gdt i inside)⟩
end

/-! ### Any number of calls -/

/-- A call that returned and wrote the records out. -/
def Flushed (fs fs' : Filesystem) : Prop :=
  ∃ request answer, Flushes fs request ∧ (execute request).run fs = .ok answer fs'

section
variable {image : Bytes} {start fs fs' : Filesystem} {request : Request} {answer : Option UInt32}

theorem tableApart_recounted (apart : TableApart fs) (recounted : Recounted fs fs') : TableApart fs' := by
  obtain ⟨blocks, inodes, counted⟩ := recounted.superblock
  have length := recounted.gdt.length_eq
  unfold TableApart tableOffset entrySize at apart ⊢
  rw [← length, counted]
  exact apart

/-- The end of a call that flushes: the records of a state in the middle of it,
    which differ from those before in their counts, are encoded in the image. -/
theorem flushed_encoded (loaded : Loaded fs) (apart : TableApart fs) (flushes : Flushes fs request)
    (ran : (execute request).run fs = .ok answer fs') :
    ∃ mid r log, Recounted fs mid ∧ fs' = { mid with reader := r } ∧
      logBlockSizeOf mid.superblock.block_size = some log ∧ Encoded { mid with reader := r } log := by
  obtain ⟨mid, recounted, last⟩ := execute_flushes flushes ran
  obtain ⟨sb, _, _, decoded, same⟩ := loaded.superblock
  obtain ⟨blocks, inodes, counted⟩ := recounted.superblock
  obtain ⟨-, -, block_size, sized, rfl⟩ := superblock_decode_inv decoded
  have known : logBlockSizeOf mid.superblock.block_size =
      some ((superblockBytes fs).u32At Superblock.OFF_LOG_BLOCK_SIZE) := by
    rw [counted, same]
    exact logBlockSizeOf_known sized
  have large : mid.gdt ≠ [] → 32 ≤ entrySize mid := by
    intro some
    have length := recounted.gdt.length_eq
    have size : entrySize mid = entrySize fs := by
      simp only [entrySize, counted]
      rfl
    rw [size]
    exact loaded.large (List.ne_nil_of_length_pos (by rw [length]; exact List.length_pos_iff.mpr some))
  obtain ⟨r, flushed, written⟩ := flush_run known large (tableApart_recounted apart recounted)
  rw [flushed] at last
  exact ⟨mid, r, _, recounted, (Ended.ok.inj last).2.symm, known, written⟩

/-- After any calls that flush the records are loaded. -/
theorem loaded_run (loaded : Loaded start) (apart : TableApart start) (run : Relation.ReflTransGen Flushed start fs) :
    Loaded fs ∧ TableApart fs := by
  induction run with
  | refl => exact ⟨loaded, apart⟩
  | tail _ last ih =>
    obtain ⟨loaded, apart⟩ := ih
    obtain ⟨request, answer, flushes, ran⟩ := last
    obtain ⟨mid, r, log, recounted, rfl, known, written⟩ := flushed_encoded loaded apart flushes ran
    have kept : TableApart mid := tableApart_recounted apart recounted
    exact ⟨loaded_flushed loaded recounted known written, kept⟩

/-- A call that returns and flushes has changed nothing of the records but what
    they count, exactly when they could be reproduced from what was read. -/
theorem counts_only_exact (opened : open_image image = .ok start) (apart : TableApart start)
    (run : Relation.ReflTransGen Flushed start fs) (flushes : Flushes fs request)
    (ran : (execute request).run fs = .ok answer fs') : CountsOnly fs fs' ↔ Reproducible fs := by
  obtain ⟨loaded, apart⟩ := loaded_run (loaded_opened opened) apart run
  obtain ⟨mid, r, log, recounted, rfl, known, written⟩ := flushed_encoded loaded apart flushes ran
  exact counts_only_iff loaded recounted known written
end

/-! ### An image with a field that is not decoded -/

/-- Records that have been written out are what they are written from. -/
theorem reproducible_encoded {fs : Filesystem} {log : UInt32} (written : Encoded fs log) : Reproducible fs := by
  have disjoint := superblock_apart fs.superblock log
  have lower : ∀ {f}, f ∈ Superblock.fields fs.superblock log → f ∈ superblockFields fs.superblock log :=
    fun member => List.mem_append_left _ member
  have long : ∀ (offset : Nat) (value : UInt32), (offset, le32 value) ∈ Superblock.fields fs.superblock log →
      (superblockBytes fs).u32At offset = value := by
    intro offset value member
    rw [written.superblock]
    exact u32At_patches disjoint _ _ (lower member) _
  refine ⟨fun k inside gap => ?_, ?_, ?_, ?_, fun i inside k short gap => ?_⟩
  · rw [written.superblock]
    exact encoded_gap (by rwa [spans_of_superblock])
  · rw [long _ log (by simp [Superblock.fields]), long _ log (by simp [Superblock.fields])]
  · rw [long _ fs.superblock.blocks_per_group (by simp [Superblock.fields]),
      long _ fs.superblock.blocks_per_group (by simp [Superblock.fields])]
  · rw [written.superblock]
    exact u16At_patches disjoint _ _ (lower (by simp [Superblock.fields])) _
  · rw [written.gdt i fs.gdt[i] (List.getElem?_eq_getElem inside)]
    exact encoded_gap (by rwa [spans_of_descriptor])

/-- A count of unused inodes in the first descriptor, of a table at block 1 of 4096 bytes. -/
def withUnused (fs : Filesystem) : Filesystem := { fs with reader := fs.reader.patch 4124 (le16 21) }

section
variable {fs : Filesystem} {g : Geometry} {v : Volume} {N : NodeMap}

theorem withUnused_held (holds : Holds g v fs) (size : g.block_size = 4096) (total : g.total = 16) :
    Holds g v (withUnused fs) := by
  have whole := holds.size
  rw [size, total] at whole
  refine holds.congr_head rfl rfl ?_ fun i past => ?_
  · exact size_patch _ _ _ (by rw [whole, size_le16]; decide)
  · exact byte_patch_outside _ (by rw [size_le16]; omega)

theorem withUnused_byte (fs : Filesystem) : (withUnused fs).reader.byte 4124 = 21 := by
  have first := byte_patch_inside fs.reader 4124 (le16 21) (show 0 < (le16 21).size by decide)
  rw [Nat.add_zero] at first
  exact first.trans (by decide)
/-- The count is not decoded, so the image opens to the same records. -/
theorem withUnused_open (opened : open_image fs.reader = .ok fs) (size : fs.reader.size = 65536)
    (table : tableOffset fs.superblock = 4096) (entry : (Superblock.group_count fs.superblock).toNat = 1)
    (narrow : is_64bit fs.superblock = false) : open_image (withUnused fs).reader = .ok (withUnused fs) := by
  obtain ⟨reader, -, blocks, inodes, -⟩ := opened_of opened
  obtain ⟨decoded, -⟩ := opened_records opened
  have kept : (withUnused fs).reader.size = 65536 := by
    rw [← size]
    exact size_patch _ _ _ (by rw [size, size_le16]; decide)
  have same : (withUnused fs).reader.slice SUPERBLOCK_OFFSET SUPERBLOCK_SIZE = superblockBytes fs :=
    slice_patch_apart _ _ (.inl (by decide))
  have here : (fs.superblock.first_data_block.toNat + 1) * fs.superblock.block_size.toNat = 4096 := table
  have before := open_image_ok fs.reader (by omega) decoded blocks inodes narrow (by rw [here, entry]; omega)
  have after := open_image_ok (withUnused fs).reader (by omega) (by rw [same]; exact decoded) blocks inodes narrow
    (by rw [here, entry]; omega)
  rw [entry, here] at before after
  have listed := congrArg Filesystem.gdt (Except.ok.inj (opened.symm.trans before))
  have each : GroupDescriptor.descriptorAt ((withUnused fs).reader.slice 4096 32) =
      GroupDescriptor.descriptorAt (fs.reader.slice 4096 32) := by
    have bytes : ∀ k < 32, k < 28 ∨ 30 ≤ k →
        ((withUnused fs).reader.slice 4096 32).byte k = (fs.reader.slice 4096 32).byte k := by
      intro k short out
      rw [byte_slice_of_lt _ short, byte_slice_of_lt _ short]
      exact byte_patch_outside _ (by rw [size_le16]; omega)
    have long : ∀ o, o + 4 ≤ 28 → ((withUnused fs).reader.slice 4096 32).u32At o = (fs.reader.slice 4096 32).u32At o :=
      fun o le => u32At_congr fun k lt => bytes _ (by omega) (by omega)
    have short : ∀ o, o + 2 ≤ 28 ∨ o = 30 →
        ((withUnused fs).reader.slice 4096 32).u16At o = (fs.reader.slice 4096 32).u16At o :=
      fun o le => u16At_congr fun k lt => bytes _ (by omega) (by omega)
    simp only [GroupDescriptor.descriptorAt, long _ (show GroupDescriptor.OFF_BLOCK_BITMAP_LO + 4 ≤ 28 by decide),
      long _ (show GroupDescriptor.OFF_INODE_BITMAP_LO + 4 ≤ 28 by decide),
      long _ (show GroupDescriptor.OFF_INODE_TABLE_LO + 4 ≤ 28 by decide),
      short _ (show GroupDescriptor.OFF_FREE_BLOCKS_COUNT_LO + 2 ≤ 28 ∨ _ by decide),
      short _ (show GroupDescriptor.OFF_FREE_INODES_COUNT_LO + 2 ≤ 28 ∨ _ by decide),
      short _ (show GroupDescriptor.OFF_USED_DIRS_COUNT_LO + 2 ≤ 28 ∨ _ by decide),
      short _ (show GroupDescriptor.OFF_FLAGS + 2 ≤ 28 ∨ _ by decide),
      short _ (show GroupDescriptor.OFF_CHECKSUM + 2 ≤ 28 ∨ GroupDescriptor.OFF_CHECKSUM = 30 by decide)]
  rw [after]
  simp only [List.range'_one, List.map_cons, List.map_nil, Nat.zero_mul, Nat.add_zero] at listed ⊢
  rw [each, ← listed]
  rfl

/-- Two files are created, one after the other. -/
theorem two_created {config : Config} (whole : Whole config g) (numbers : g.per_group = 32)
    (row : Row g [] 4072 fs v N) : ∃ n fs₁ n' fs₂, (create_file [SLASH, 97] (zeros 0)).run fs = .ok n fs₁ ∧
      (create_file [SLASH, 98] (zeros 0)).run fs₁ = .ok n' fs₂ := by
  have none : div_ceil (zeros 0).size g.block_size = 0 := by
    have low := g.positive
    rw [size_zeros, div_ceil]
    exact Nat.div_eq_of_lt (by omega)
  have few : div_ceil (zeros 0).size g.block_size ≤ 32768 := by omega
  have free : ∀ v, FreeRun g v (div_ceil (zeros 0).size g.block_size) := by
    intro v
    rw [none]
    exact freeRun_zero g v
  obtain ⟨n, fs₁, v₁, _, _, ran, next, -⟩ := row.file whole (by rw [numbers]; decide) (show Proper [97] by decide)
    (by decide) (by decide) (by decide) few (free v)
  obtain ⟨n', fs₂, _, _, _, ran', -⟩ := next.file whole (by rw [numbers]; decide) (show Proper [98] by decide)
    (by decide) (by decide) (by decide) few (free v₁)
  exact ⟨n, fs₁, n', fs₂, ran, ran'⟩
end

/-- The default image with the count. -/
def unusedStart : Filesystem := withUnused (fresh Config.default defaultLayout)

theorem unused_start : open_image unusedStart.reader = .ok unusedStart ∧ TableApart unusedStart ∧
    (entryBytes unusedStart 0).byte 28 = 21 ∧ ∃ n fs₁ n' fs₂,
      (create_file [SLASH, 97] (zeros 0)).run unusedStart = .ok n fs₁ ∧
      (create_file [SLASH, 98] (zeros 0)).run fs₁ = .ok n' fs₂ := by
  obtain ⟨g, v, whole, -, -, row⟩ :=
    fresh_row default_small (show Layout.from_config Config.default = .ok defaultLayout from rfl)
  have size : g.block_size = 4096 := whole.block_size
  have total : g.total = 16 := whole.total
  have held := row.holds.size
  rw [size, total] at held
  obtain ⟨image, -, opened⟩ := default_opened
  have reader : (fresh Config.default defaultLayout).reader = image := (opened_of opened).reader
  rw [← reader] at opened
  refine ⟨withUnused_open opened held (by decide) (by decide) (by decide), .inr (by decide), ?_, ?_⟩
  · have start : tableOffset unusedStart.superblock + 0 * entrySize unusedStart = 4096 := by decide
    have wide : entrySize unusedStart = 32 := by decide
    rw [entryBytes, start, wide, byte_slice_of_lt _ (by decide), unusedStart,
      show 4096 + 28 = 4124 from rfl, withUnused_byte]
  · exact two_created whole whole.per_group { row with holds := withUnused_held row.holds size total }

/-- The first call that flushes has erased the count, so the second one keeps
    all there is. -/
theorem unused_kept : ∃ fs₁ n' fs₂, Flushed unusedStart fs₁ ∧
    (execute (.create_file [SLASH, 98] (zeros 0))).run fs₁ = .ok (some n') fs₂ ∧ CountsOnly fs₁ fs₂ := by
  obtain ⟨opened, apart, -, n, fs₁, n', fs₂, first, second⟩ := unused_start
  have ran : (execute (.create_file [SLASH, 97] (zeros 0))).run unusedStart = .ok (some n) fs₁ := numbered_ok first
  have ran' : (execute (.create_file [SLASH, 98] (zeros 0))).run fs₁ = .ok (some n') fs₂ := numbered_ok second
  have flushes : ∀ fs name, Flushes fs (.create_file name (zeros 0)) := fun _ _ => trivial
  obtain ⟨mid, r, log, -, rfl, -, written⟩ := flushed_encoded (loaded_opened opened) apart (flushes _ _) ran
  have step : Flushed unusedStart { mid with reader := r } := ⟨_, _, flushes _ _, ran⟩
  have exact_ := counts_only_exact opened apart (.single step) (flushes _ _) ran'
  exact ⟨_, n', fs₂, step, ran', exact_.mpr (reproducible_encoded written)⟩

/-- The count of unused inodes is erased. -/
theorem unused_erased : ∃ image start n fs', open_image image = .ok start ∧ TableApart start ∧
    (execute (.create_file [SLASH, 97] (zeros 0))).run start = .ok (some n) fs' ∧ ¬ CountsOnly start fs' := by
  obtain ⟨opened, apart, unused, n, fs₁, _, _, first, -⟩ := unused_start
  have ran : (execute (.create_file [SLASH, 97] (zeros 0))).run unusedStart = .ok (some n) fs₁ := numbered_ok first
  have flushes : Flushes unusedStart (.create_file [SLASH, 97] (zeros 0)) := trivial
  obtain ⟨mid, r, log, recounted, rfl, known, written⟩ := flushed_encoded (loaded_opened opened) apart flushes ran
  refine ⟨_, unusedStart, n, _, opened, apart, ran, fun only => ?_⟩
  have kept := (counts_only_iff (loaded_opened opened) recounted known written).mp only
  have blank := kept.gdt 0 (by decide) 28 (by decide) (by decide)
  rw [unused] at blank
  exact absurd blank (by decide)

end Justext4.FlushedRecords
