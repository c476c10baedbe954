import Justext4.Volumes

/-!
Inodes with one run of blocks. The extent tree that the calls build is a leaf
with one run or none, so a logical block of the inode is at that distance from
the first block of the run, and the contents are the blocks of the run one
after another, cut to the size of the inode.
-/
namespace Justext4.Runs
open Justext4 Justext4.Fallible Justext4.Fields Justext4.Filesystem Justext4.Volumes Bytes
open Justext4.Extent (Extent ExtentHeader ExtentNode headerAt extentAt decode_extent_node EXTENT_HEADER_MAGIC
  EXTENT_UNINIT_THRESHOLD)
open Justext4.Inode (Inode INODE_FLAG_EXTENTS I_BLOCK_LEN)

/-- The header of a leaf with `n` runs. -/
def header (n : Nat) : ExtentHeader := { entries := .ofNat n, max := 4, depth := 0, generation := 0 }
/-- The run of `count` blocks from `start` on that a file begins with. -/
def run (start count : Nat) : Extent :=
  { logical_block := 0, len := .ofNat count, physical_block := .ofNat start, uninit := false }
/-- The runs of an inode that has `count` blocks. -/
def runs (start count : Nat) : List Extent := if 0 < count then [run start count] else []

def leafBytes (n : Nat) : Bytes := (zeros 60).patch 0 (patches ((zeros 60).slice 0 12) (header n).fields)
def runBytes (start count : Nat) : Bytes :=
  (leafBytes 1).patch 12 (patches ((leafBytes 1).slice 12 12) ((run start count).fields (.ofNat count)))
/-- The `i_block` with one run, or with none. -/
def runBlock (start count : Nat) : FixedBytes 60 :=
  .ofSlice (if 0 < count then runBytes start count else leafBytes 0) 0 60

theorem size_header (n : Nat) : (patches ((zeros 60).slice 0 12) (header n).fields).size = 12 :=
  size_patches (Extent.header_within (header n)) _ (by simp)
theorem size_leafBytes (n : Nat) : (leafBytes n).size = 60 := size_patch _ _ _ (by rw [size_header]; simp)
theorem size_run (start count : Nat) (len : UInt16) :
    (patches ((leafBytes 1).slice 12 12) ((run start count).fields len)).size = 12 :=
  size_patches (Extent.extent_within (run start count) len) _ (by simp)
theorem size_runBytes (start count : Nat) : (runBytes start count).size = 60 := by
  rw [runBytes, size_patch _ _ _ (by rw [size_run, size_leafBytes]; decide), size_leafBytes]

theorem short_len {count : Nat} (short : count ≤ 32768) : (UInt16.ofNat count) ≤ EXTENT_UNINIT_THRESHOLD := by
  rw [UInt16.le_iff_toNat_le, UInt16.toNat_ofNat']
  show count % 65536 ≤ 32768
  omega

theorem encode_header (n : Nat) : ExtentHeader.encode_into (header n) ((zeros 60).slice 0 12) =
    .ok (patches ((zeros 60).slice 0 12) (header n).fields) := Extent.header_encode_ok _ (by simp)

theorem first_part : (zeros I_BLOCK_LEN).range 0 12 = (.ok ((zeros 60).slice 0 12) : Res Ext4Error Bytes) :=
  range_ok (by decide) (by decide)
theorem copy_header (n : Nat) : (zeros I_BLOCK_LEN).copy 0 (patches ((zeros 60).slice 0 12) (header n).fields) =
    (.ok (leafBytes n) : Res Ext4Error Bytes) := copy_ok (by rw [size_header]; decide)
theorem i_block_none (start : Nat) : i_block [] = .ok (runBlock start 0) := by
  rw [i_block, first_part, res_bind_ok]
  show liftErr Ext4Error.ExtentEncode (ExtentHeader.encode_into (header 0) _) >>= _ = _
  rw [encode_header, liftErr_ok, res_bind_ok, copy_header, res_bind_ok]
  rfl
theorem i_block_one (start count : Nat) :
    i_block [run start count] =
      (liftErr Ext4Error.ExtentEncode (Extent.Extent.encode_into (run start count) ((leafBytes 1).slice 12 12)) >>= fun part =>
        (leafBytes 1).copy 12 part >>= fun bytes => .ok (.ofSlice bytes 0 60)) := by
  have second : (leafBytes 1).range (12 + 0 * 12) (12 + 0 * 12 + 12) =
      (.ok ((leafBytes 1).slice 12 12) : Res Ext4Error Bytes) := range_ok (by decide) (by rw [size_leafBytes]; decide)
  rw [i_block, first_part, res_bind_ok]
  show liftErr Ext4Error.ExtentEncode (ExtentHeader.encode_into (header 1) _) >>= _ = _
  rw [encode_header, liftErr_ok, res_bind_ok, copy_header, res_bind_ok, encode_extents, second, res_bind_ok]
  cases Extent.Extent.encode_into (run start count) ((leafBytes 1).slice 12 12) with
  | error fault => cases fault <;> rfl
  | ok part =>
    rw [liftErr_ok, res_bind_ok, res_bind_ok]
    cases (leafBytes 1).copy 12 part with
    | error fault => rfl
    | ok bytes => rfl

/-- An inode with no block or with one run gets its `i_block`. -/
theorem i_block_runs (start count : Nat) (short : count ≤ 32768) :
    i_block (runs start count) = .ok (runBlock start count) := by
  by_cases some : 0 < count
  · have encoded : Extent.Extent.encode_into (run start count) ((leafBytes 1).slice 12 12) =
        .ok (patches ((leafBytes 1).slice 12 12) ((run start count).fields (.ofNat count))) :=
      Extent.extent_encode_ok (by simp) rfl (short_len short)
    rw [runs, if_pos some, i_block_one, encoded, liftErr_ok, res_bind_ok,
      copy_ok (by rw [size_run, size_leafBytes]; decide), res_bind_ok, runBlock, if_pos some, runBytes]
  · have none : count = 0 := by omega
    rw [none]
    exact i_block_none start
/-- A run of more than 32768 blocks is refused. -/
theorem i_block_long (start : Nat) {count : Nat} (long : 32768 < count) (small : count < 65536) :
    ∃ e, i_block (runs start count) = .error (.err e) := by
  have refused : ¬ (run start count).len ≤ EXTENT_UNINIT_THRESHOLD := by
    rw [UInt16.le_iff_toNat_le]
    show ¬ (UInt16.ofNat count).toNat ≤ 32768
    rw [UInt16.toNat_ofNat']
    omega
  refine ⟨.ExtentEncode (.LengthOutOfRange (run start count).len), ?_⟩
  rw [runs, if_pos (by omega), i_block_one, Extent.Extent.encode_into, ensure_of (by decide), res_bind_ok,
    ensure_not refused]
  rfl

/-! ### Blocks one after another -/

theorem size_joined {d : Nat} {blocks : List Bytes} (sized : ∀ b ∈ blocks, b.size = d) :
    (joined blocks).size = blocks.length * d := by
  induction blocks with
  | nil => simp [joined]
  | cons b blocks ih =>
    rw [joined, size_append, sized b (List.mem_cons_self ..), ih fun b member => sized b (List.mem_cons_of_mem _ member),
      List.length_cons, Nat.succ_mul, Nat.add_comm]
theorem slice_joined {d i : Nat} {blocks : List Bytes} {b : Bytes} (sized : ∀ b ∈ blocks, b.size = d)
    (found : blocks[i]? = some b) : (joined blocks).slice (i * d) d = b := by
  induction blocks generalizing i with
  | nil => cases found
  | cons first blocks ih =>
    have size := sized first (List.mem_cons_self ..)
    cases i with
    | zero =>
      cases found
      rw [joined, Nat.zero_mul, ← size, slice_append_left]
    | succ i =>
      rw [joined, Nat.succ_mul, Nat.add_comm, ← size, slice_append_right, size]
      exact ih (fun b member => sized b (List.mem_cons_of_mem _ member)) found

/-! ### What the runs map -/

theorem slice_whole {b : Bytes} (size : b.size = 60) : b.slice 0 60 = b := by rw [← size, slice_self]
theorem u16At_header {b : Bytes} (n : Nat) {i : Nat} (inside : i + 2 ≤ 12)
    (same : ∀ j < 12, b.byte j = (patches ((zeros 60).slice 0 12) (header n).fields).byte j) :
    b.u16At i = (patches ((zeros 60).slice 0 12) (header n).fields).u16At i :=
  u16At_congr fun k small => same _ (by omega)

/-- A block that starts with a header has the header's fields. -/
theorem header_read {b : Bytes} {n : Nat} (small : n < 65536)
    (same : ∀ j < 12, b.byte j = (patches ((zeros 60).slice 0 12) (header n).fields).byte j) :
    b.u16At 0 = EXTENT_HEADER_MAGIC ∧ (b.u16At 2).toNat = n ∧ b.u16At 6 = 0 := by
  have whole := Extent.headerAt_patches (header n) ((zeros 60).slice 0 12)
  refine ⟨?_, ?_, ?_⟩
  · rw [u16At_header n (by omega) same]
    exact Extent.magic_patches (header n) _
  · rw [u16At_header n (by omega) same]
    have entries := congrArg ExtentHeader.entries whole
    have value : (patches ((zeros 60).slice 0 12) (header n).fields).u16At 2 = .ofNat n := entries
    rw [value, UInt16.toNat_ofNat']
    omega
  · rw [u16At_header n (by omega) same]
    exact congrArg ExtentHeader.depth whole

theorem extentAt_congr {a b : Bytes} {i j : Nat} (same : ∀ k < 12, a.byte (i + k) = b.byte (j + k)) :
    extentAt a i = extentAt b j := by
  have short : ∀ off, off + 2 ≤ 12 → a.u16At (i + off) = b.u16At (j + off) := fun off le =>
    u16At_congr fun k small => by rw [Nat.add_assoc, Nat.add_assoc]; exact same _ (by omega)
  have long : ∀ off, off + 4 ≤ 12 → a.u32At (i + off) = b.u32At (j + off) := fun off le =>
    u32At_congr fun k small => by rw [Nat.add_assoc, Nat.add_assoc]; exact same _ (by omega)
  have first : a.u32At i = b.u32At j := long 0 (by omega)
  simp only [extentAt, first, short 4 (by omega), short 6 (by omega), long 8 (by omega)]

theorem decode_runs {start : Nat} (count : Nat) (short : count ≤ 32768) (small : start < 281474976710656) :
    ∃ h, decode_extent_node (runBlock start count).bytes = .ok (.Leaf h (runs start count)) := by
  by_cases some : 0 < count
  case neg =>
    have bytes : (runBlock start count).bytes = leafBytes 0 := by
      rw [runBlock, if_neg some]
      exact slice_whole (size_leafBytes 0)
    have same : ∀ j < 12, (leafBytes 0).byte j = (patches ((zeros 60).slice 0 12) (header 0).fields).byte j := by
      intro j lt
      have hit := byte_patch_inside (zeros 60) 0 (patches ((zeros 60).slice 0 12) (header 0).fields)
        (i := j) (by rw [size_header]; exact lt)
      rwa [Nat.zero_add] at hit
    obtain ⟨magic, entries, depth⟩ := header_read (by decide) same
    refine ⟨headerAt (leafBytes 0), ?_⟩
    rw [bytes, Extent.decode_leaf (n := 0) (by rw [size_leafBytes]; decide) magic entries depth, runs, if_neg some]
    rfl
  case pos =>
    have bytes : (runBlock start count).bytes = runBytes start count := by
      rw [runBlock, if_pos some]
      exact slice_whole (size_runBytes start count)
    have same : ∀ j < 12, (runBytes start count).byte j = (patches ((zeros 60).slice 0 12) (header 1).fields).byte j := by
      intro j lt
      rw [runBytes, byte_patch_outside _ (.inl lt)]
      have hit := byte_patch_inside (zeros 60) 0 (patches ((zeros 60).slice 0 12) (header 1).fields)
        (i := j) (by rw [size_header]; exact lt)
      rwa [Nat.zero_add] at hit
    obtain ⟨magic, entries, depth⟩ := header_read (by decide) same
    have entry : extentAt (runBytes start count) 12 = run start count := by
      have physical : (run start count).physical_block.toNat < 281474976710656 := by
        show (UInt64.ofNat start).toNat < _
        rw [UInt64.toNat_ofNat']
        omega
      have back := Extent.extentAt_patches (run start count) rfl (short_len short) physical
        ((leafBytes 1).slice 12 12)
      rw [← back]
      refine extentAt_congr fun k lt => ?_
      rw [Nat.zero_add, runBytes]
      exact byte_patch_inside (leafBytes 1) _ _ (by rw [size_run]; exact lt)
    refine ⟨headerAt (runBytes start count), ?_⟩
    rw [bytes, Extent.decode_leaf (n := 1) (by rw [size_runBytes]; decide) magic entries depth, runs, if_pos some]
    simp [List.range', entry]

/-- The logical blocks of a run are the blocks from its start on. -/
theorem resolve_runs {fs : Filesystem} {inode : Inode} {start count : Nat} (flags : inode.flags = INODE_FLAG_EXTENTS)
    (block : inode.block = runBlock start count) (short : count ≤ 32768) (small : start < 281474976710656)
    (logical : Nat) :
    resolve_logical_block fs inode logical = .ok (if logical < count then some (start + logical) else none) := by
  obtain ⟨h, decoded⟩ := decode_runs count short small
  have extents : Inode.uses_extents inode = true := by rw [Inode.uses_extents, flags]; decide
  have length : (run start count).len.toNat = count := by
    show (UInt16.ofNat count).toNat = count
    rw [UInt16.toNat_ofNat']
    omega
  have first : (run start count).logical_block.toNat = 0 := rfl
  have physical : (run start count).physical_block.toNat = start := by
    show (UInt64.ofNat start).toNat = start
    rw [UInt64.toNat_ofNat']
    omega
  rw [resolve_logical_block, extents, ensure_true, res_bind_ok, block]
  show resolve_steps fs logical (5 + 1) (runBlock start count).bytes = _
  rw [resolve_steps, decoded, liftErr_ok, res_bind_ok]
  dsimp only
  by_cases some : 0 < count
  · rw [runs, if_pos some]
    by_cases inside : logical < count
    · have hit : find_extent [run start count] logical = .some (run start count) := by
        rw [find_extent, List.find?_singleton, if_pos]
        rw [first, length]
        simp [inside]
      rw [hit, if_pos inside]
      dsimp only
      rw [if_neg (show ¬ (run start count).uninit = true from Bool.false_ne_true), physical, first, in_u64_ok (by omega), res_bind_ok, Nat.sub_zero]
    · have miss : find_extent [run start count] logical = none := by
        rw [find_extent, List.find?_singleton, if_neg]
        rw [first, length]
        simp [inside]
      rw [miss, if_neg inside]
  · rw [runs, if_neg some, if_neg (by omega)]
    rfl

end Justext4.Runs
