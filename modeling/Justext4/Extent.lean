import Justext4.Fields

/-!
The extent tree: a node is a 12-byte header and its entries, 12 bytes each.
At depth zero an entry maps a run of logical blocks to physical ones, above it
points to the next node. A length above 32768 marks a run that is allocated
but not yet written.
-/
namespace Justext4.Extent
open Justext4 Justext4.Fallible Justext4.Fields Bytes

def EXTENT_HEADER_MAGIC : UInt16 := 0xF30A
def EXTENT_HEADER_SIZE : Nat := 12
def EXTENT_ENTRY_SIZE : Nat := 12
def EXTENT_UNINIT_THRESHOLD : UInt16 := 32768

inductive ExtentDecodeError where
  | InputTooSmall (actual expected : Nat)
  | BadMagic (found : UInt16)
  deriving DecidableEq

inductive ExtentEncodeError where
  | OutputTooSmall (actual expected : Nat)
  | LengthOutOfRange (len : UInt16)
  deriving DecidableEq

structure ExtentHeader where
  entries : UInt16
  max : UInt16
  depth : UInt16
  generation : UInt32
  deriving DecidableEq

structure Extent where
  logical_block : UInt32
  len : UInt16
  physical_block : UInt64
  uninit : Bool
  deriving DecidableEq

structure ExtentIndex where
  logical_block : UInt32
  leaf_block : UInt64
  deriving DecidableEq

inductive ExtentNode where
  | Leaf (header : ExtentHeader) (extents : List Extent)
  | Internal (header : ExtentHeader) (indices : List ExtentIndex)
  deriving DecidableEq

/-- `(hi << 32) | lo` of a 16-bit and a 32-bit word. -/
def combine48 (hi : UInt16) (lo : UInt32) : UInt64 := .ofNat (hi.toNat * 4294967296 + lo.toNat)

def ExtentHeader.decode (buf : Bytes) : Res ExtentDecodeError ExtentHeader := do
  ensure (EXTENT_HEADER_SIZE ≤ buf.size) (.InputTooSmall buf.size EXTENT_HEADER_SIZE)
  let magic ← read_u16 buf 0
  ensure (magic == EXTENT_HEADER_MAGIC) (.BadMagic magic)
  let entries ← read_u16 buf 2
  let max ← read_u16 buf 4
  let depth ← read_u16 buf 6
  let generation ← read_u32 buf 8
  .ok { entries, max, depth, generation }

def ExtentHeader.is_leaf (self : ExtentHeader) : Bool := self.depth == 0

def ExtentHeader.fields (self : ExtentHeader) : List (Nat × Bytes) :=
  [(0, le16 EXTENT_HEADER_MAGIC), (2, le16 self.entries), (4, le16 self.max), (6, le16 self.depth),
    (8, le32 self.generation)]

def ExtentHeader.encode_into (self : ExtentHeader) (buf : Bytes) : Res ExtentEncodeError Bytes := do
  ensure (EXTENT_HEADER_SIZE ≤ buf.size) (.OutputTooSmall buf.size EXTENT_HEADER_SIZE)
  writeAll buf self.fields

def Extent.decode (buf : Bytes) : Res ExtentDecodeError Extent := do
  ensure (EXTENT_ENTRY_SIZE ≤ buf.size) (.InputTooSmall buf.size EXTENT_ENTRY_SIZE)
  let logical_block ← read_u32 buf 0
  let raw_len ← read_u16 buf 4
  let start_hi ← read_u16 buf 6
  let start_lo ← read_u32 buf 8
  let (len, uninit) :=
    if EXTENT_UNINIT_THRESHOLD < raw_len then (raw_len - EXTENT_UNINIT_THRESHOLD, true) else (raw_len, false)
  .ok { logical_block, len, physical_block := combine48 start_hi start_lo, uninit }

def Extent.fields (self : Extent) (raw_len : UInt16) : List (Nat × Bytes) :=
  [(0, le32 self.logical_block), (4, le16 raw_len), (6, le16 (.ofNat (self.physical_block.toNat / 4294967296))),
    (8, le32 (.ofNat self.physical_block.toNat))]

/-- The addition of the threshold overflows at length 32768. -/
def Extent.encode_into (self : Extent) (buf : Bytes) : Res ExtentEncodeError Bytes := do
  ensure (EXTENT_ENTRY_SIZE ≤ buf.size) (.OutputTooSmall buf.size EXTENT_ENTRY_SIZE)
  ensure (self.len ≤ EXTENT_UNINIT_THRESHOLD) (.LengthOutOfRange self.len)
  orPanic (!self.uninit || self.len.toNat + EXTENT_UNINIT_THRESHOLD.toNat < 65536)
  let raw_len := if self.uninit then self.len + EXTENT_UNINIT_THRESHOLD else self.len
  writeAll buf (self.fields raw_len)

def ExtentIndex.decode (buf : Bytes) : Res ExtentDecodeError ExtentIndex := do
  ensure (EXTENT_ENTRY_SIZE ≤ buf.size) (.InputTooSmall buf.size EXTENT_ENTRY_SIZE)
  let leaf_lo ← read_u32 buf 4
  let leaf_hi ← read_u16 buf 8
  let logical_block ← read_u32 buf 0
  .ok { logical_block, leaf_block := combine48 leaf_hi leaf_lo }

def ExtentIndex.fields (self : ExtentIndex) : List (Nat × Bytes) :=
  [(0, le32 self.logical_block), (4, le32 (.ofNat self.leaf_block.toNat)),
    (8, le16 (.ofNat (self.leaf_block.toNat / 4294967296))), (10, le16 0)]

def ExtentIndex.encode_into (self : ExtentIndex) (buf : Bytes) : Res ExtentEncodeError Bytes := do
  ensure (EXTENT_ENTRY_SIZE ≤ buf.size) (.OutputTooSmall buf.size EXTENT_ENTRY_SIZE)
  writeAll buf self.fields

/-- `&buf[off..off + 12]` of entry `i`. -/
def entry_bytes (buf : Bytes) (i : Nat) : Res ExtentDecodeError Bytes :=
  buf.range (EXTENT_HEADER_SIZE + i * EXTENT_ENTRY_SIZE)
    (EXTENT_HEADER_SIZE + i * EXTENT_ENTRY_SIZE + EXTENT_ENTRY_SIZE)

def decode_extent_node (buf : Bytes) : Res ExtentDecodeError ExtentNode := do
  let header ← ExtentHeader.decode buf
  let entries := header.entries.toNat
  let body_size := entries * EXTENT_ENTRY_SIZE
  ensure (EXTENT_HEADER_SIZE + body_size ≤ buf.size) (.InputTooSmall buf.size (EXTENT_HEADER_SIZE + body_size))
  if header.is_leaf then do
    let extents ← collect (fun i => do Extent.decode (← entry_bytes buf i)) 0 entries
    .ok (.Leaf header extents)
  else do
    let indices ← collect (fun i => do ExtentIndex.decode (← entry_bytes buf i)) 0 entries
    .ok (.Internal header indices)

/-! ### What the decoders read -/

/-- The header that the first twelve bytes hold. -/
def headerAt (buf : Bytes) : ExtentHeader := ⟨buf.u16At 2, buf.u16At 4, buf.u16At 6, buf.u32At 8⟩
/-- The run that the twelve bytes from a position hold. -/
def extentAt (buf : Bytes) (pos : Nat) : Extent :=
  let raw_len := buf.u16At (pos + 4)
  { logical_block := buf.u32At pos
    len := if EXTENT_UNINIT_THRESHOLD < raw_len then raw_len - EXTENT_UNINIT_THRESHOLD else raw_len
    physical_block := combine48 (buf.u16At (pos + 6)) (buf.u32At (pos + 8))
    uninit := EXTENT_UNINIT_THRESHOLD < raw_len }

theorem header_decode_ok {buf : Bytes} (size : 12 ≤ buf.size) (magic : buf.u16At 0 = EXTENT_HEADER_MAGIC) :
    ExtentHeader.decode buf = .ok (headerAt buf) := by
  simp [ExtentHeader.decode, EXTENT_HEADER_SIZE, size, magic, headerAt,
    read_u16_ok (show 0 + 2 ≤ buf.size by omega), read_u16_ok (show 2 + 2 ≤ buf.size by omega),
    read_u16_ok (show 4 + 2 ≤ buf.size by omega), read_u16_ok (show 6 + 2 ≤ buf.size by omega),
    read_u32_ok (show 8 + 4 ≤ buf.size by omega)]

theorem extent_decode_ok {buf : Bytes} (size : 12 ≤ buf.size) : Extent.decode buf = .ok (extentAt buf 0) := by
  simp only [Extent.decode, EXTENT_ENTRY_SIZE, size, decide_true, ensure_true, res_bind_ok, extentAt,
    read_u32_ok (show 0 + 4 ≤ buf.size by omega), read_u16_ok (show 4 + 2 ≤ buf.size by omega),
    read_u16_ok (show 6 + 2 ≤ buf.size by omega), read_u32_ok (show 8 + 4 ≤ buf.size by omega)]
  split <;> rename_i above <;> simp [above]

theorem extentAt_slice (buf : Bytes) (pos : Nat) : extentAt (buf.slice pos 12) 0 = extentAt buf pos := by
  have near : ∀ i, i < 12 → (buf.slice pos 12).byte i = buf.byte (pos + i) := fun i lt => byte_slice_of_lt _ lt
  have short : ∀ off, off + 2 ≤ 12 → (buf.slice pos 12).u16At off = buf.u16At (pos + off) := fun off le =>
    u16At_congr fun k small => by rw [near _ (by omega), Nat.add_assoc]
  have long : ∀ off, off + 4 ≤ 12 → (buf.slice pos 12).u32At off = buf.u32At (pos + off) := fun off le =>
    u32At_congr fun k small => by rw [near _ (by omega), Nat.add_assoc]
  simp only [extentAt, Nat.zero_add, short 4 (by decide), short 6 (by decide), long 0 (by decide),
    long 8 (by decide), Nat.add_zero]

/-- A leaf node decodes to the runs that its entries hold. -/
theorem decode_leaf {buf : Bytes} {n : Nat} (size : 12 + n * 12 ≤ buf.size)
    (magic : buf.u16At 0 = EXTENT_HEADER_MAGIC) (entries : (buf.u16At 2).toNat = n) (depth : buf.u16At 6 = 0) :
    decode_extent_node buf = .ok (.Leaf (headerAt buf)
      ((List.range' 0 n).map fun i => extentAt buf (12 + i * 12))) := by
  have each : ∀ i, 0 ≤ i → i < 0 + n →
      (do Extent.decode (← entry_bytes buf i)) = Except.ok (extentAt buf (12 + i * 12)) := by
    intro i _ lt
    rw [entry_bytes, range_ok (by omega) (by simp only [EXTENT_HEADER_SIZE, EXTENT_ENTRY_SIZE]; omega), res_bind_ok]
    simp only [EXTENT_HEADER_SIZE, EXTENT_ENTRY_SIZE, Nat.add_sub_cancel_left]
    rw [extent_decode_ok (by simp), extentAt_slice]
  have count : (headerAt buf).entries.toNat = n := entries
  have leaf : (headerAt buf).is_leaf = true := by simp [ExtentHeader.is_leaf, headerAt, depth]
  rw [decode_extent_node, header_decode_ok (by omega) magic, res_bind_ok]
  simp only [count, EXTENT_HEADER_SIZE, EXTENT_ENTRY_SIZE, size, decide_true, ensure_true, res_bind_ok, leaf, ↓reduceIte]
  rw [collect_ok each, res_bind_ok]

/-! ### What the encoders write -/

theorem header_spans (self : ExtentHeader) : self.fields.map span = [(0, 2), (2, 2), (4, 2), (6, 2), (8, 4)] := rfl
theorem header_within (self : ExtentHeader) : Within 12 self.fields := within_of_spans (header_spans self) (by decide)
theorem header_apart (self : ExtentHeader) : self.fields.Pairwise Apart := apart_of_spans (header_spans self) (by decide)
theorem extent_spans (self : Extent) (raw_len : UInt16) :
    (self.fields raw_len).map span = [(0, 4), (4, 2), (6, 2), (8, 4)] := rfl
theorem extent_within (self : Extent) (raw_len : UInt16) : Within 12 (self.fields raw_len) :=
  within_of_spans (extent_spans self raw_len) (by decide)
theorem extent_apart (self : Extent) (raw_len : UInt16) : (self.fields raw_len).Pairwise Apart :=
  apart_of_spans (extent_spans self raw_len) (by decide)

theorem header_encode_ok (self : ExtentHeader) {buf : Bytes} (size : 12 ≤ buf.size) :
    self.encode_into buf = .ok (patches buf self.fields) := by
  simp only [ExtentHeader.encode_into, EXTENT_HEADER_SIZE, size, decide_true, ensure_true, res_bind_ok]
  exact writeAll_ok (header_within self) buf size

/-- An initialised run is encoded as it is. -/
theorem extent_encode_ok {self : Extent} {buf : Bytes} (size : 12 ≤ buf.size) (init : self.uninit = false)
    (short : self.len ≤ EXTENT_UNINIT_THRESHOLD) :
    self.encode_into buf = .ok (patches buf (self.fields self.len)) := by
  simp only [Extent.encode_into, EXTENT_ENTRY_SIZE, size, short, init, decide_true, ensure_true, res_bind_ok,
    Bool.not_false, Bool.true_or, orPanic_true, Bool.false_eq_true, ↓reduceIte]
  exact writeAll_ok (extent_within self _) buf size

theorem combine48_split (x : UInt64) (small : x.toNat < 281474976710656) :
    combine48 (.ofNat (x.toNat / 4294967296)) (.ofNat x.toNat) = x := by
  apply UInt64.toNat_inj.mp
  simp only [combine48, UInt64.toNat_ofNat', UInt16.toNat_ofNat', UInt32.toNat_ofNat']
  omega

theorem headerAt_patches (self : ExtentHeader) (buf : Bytes) : headerAt (patches buf self.fields) = self := by
  have apart := header_apart self
  simp only [headerAt, ExtentHeader.fields] at *
  rw [u16At_patches apart _ self.entries (by simp), u16At_patches apart _ self.max (by simp),
    u16At_patches apart _ self.depth (by simp), u32At_patches apart _ self.generation (by simp)]
theorem magic_patches (self : ExtentHeader) (buf : Bytes) :
    (patches buf self.fields).u16At 0 = EXTENT_HEADER_MAGIC :=
  u16At_patches (header_apart self) _ _ (by simp [ExtentHeader.fields]) buf

/-- An initialised run reads back as it was written. -/
theorem extentAt_patches (self : Extent) (init : self.uninit = false) (short : self.len ≤ EXTENT_UNINIT_THRESHOLD)
    (small : self.physical_block.toNat < 281474976710656) (buf : Bytes) :
    extentAt (patches buf (self.fields self.len)) 0 = self := by
  have apart := extent_apart self self.len
  have below : ¬ EXTENT_UNINIT_THRESHOLD < self.len := UInt16.not_lt.mpr short
  simp only [extentAt, Extent.fields, Nat.zero_add] at *
  rw [u32At_patches apart _ self.logical_block (by simp), u16At_patches apart _ self.len (by simp),
    u16At_patches apart _ (.ofNat (self.physical_block.toNat / 4294967296)) (by simp),
    u32At_patches apart _ (.ofNat self.physical_block.toNat) (by simp), combine48_split _ small]
  rw [if_neg below, decide_eq_false below, ← init]

end Justext4.Extent
