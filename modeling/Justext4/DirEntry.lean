import Justext4.Fields

/-!
Directory entries. A directory block is a row of records, each `rec_len` bytes
long: the number of an inode, the lengths, the type and the name. A reader
steps from record to record; a record changes by being written again over its
own bytes.
-/
namespace Justext4.DirEntry
open Justext4 Justext4.Fallible Justext4.Fields Bytes

def DIR_ENTRY_HEADER_SIZE : Nat := 8
def DIR_ENTRY_ALIGNMENT : Nat := 4
def DIR_ENTRY_NAME_MAX : Nat := 255

inductive DirEntryDecodeError where
  | InputTooSmall (actual expected : Nat)
  | RecLenBelowHeaderSize (rec_len : UInt16)
  | RecLenNotAligned (rec_len : UInt16)
  | NameLenExceedsRecLen (name_len : UInt8) (rec_len : UInt16)
  | TrailingBytesBelowHeaderSize (trailing : Nat)
  deriving DecidableEq

inductive DirEntryEncodeError where
  | OutputTooSmall (actual expected : Nat)
  | RecLenBelowHeaderSize (rec_len : UInt16)
  | RecLenNotAligned (rec_len : UInt16)
  | NameTooLong (name_len : Nat)
  | NameLenExceedsRecLen (name_len : UInt8) (rec_len : UInt16)
  deriving DecidableEq

structure DirEntry where
  inode : UInt32
  rec_len : UInt16
  file_type_raw : UInt8
  name : List UInt8
  deriving DecidableEq

def decode (buf : Bytes) : Res DirEntryDecodeError DirEntry := do
  ensure (DIR_ENTRY_HEADER_SIZE ≤ buf.size) (.InputTooSmall buf.size DIR_ENTRY_HEADER_SIZE)
  let inode ← read_u32 buf 0
  let rec_len ← read_u16 buf 4
  let name_len ← buf.index 6
  let file_type_raw ← buf.index 7
  ensure (DIR_ENTRY_HEADER_SIZE ≤ rec_len.toNat) (.RecLenBelowHeaderSize rec_len)
  ensure (rec_len.toNat % DIR_ENTRY_ALIGNMENT = 0) (.RecLenNotAligned rec_len)
  ensure (DIR_ENTRY_HEADER_SIZE + name_len.toNat ≤ rec_len.toNat) (.NameLenExceedsRecLen name_len rec_len)
  ensure (DIR_ENTRY_HEADER_SIZE + name_len.toNat ≤ buf.size)
    (.InputTooSmall buf.size (DIR_ENTRY_HEADER_SIZE + name_len.toNat))
  let name ← buf.range DIR_ENTRY_HEADER_SIZE (DIR_ENTRY_HEADER_SIZE + name_len.toNat)
  .ok { inode, rec_len, file_type_raw, name := name.toList }

def is_unused (self : DirEntry) : Bool := self.inode == 0

/-- The fields in the order in which they are written. -/
def fields (self : DirEntry) : List (Nat × Bytes) :=
  [(0, le32 self.inode), (4, le16 self.rec_len), (6, ofList [.ofNat self.name.length]),
    (7, ofList [self.file_type_raw]), (DIR_ENTRY_HEADER_SIZE, ofList self.name)]

def encode_into (self : DirEntry) (buf : Bytes) : Res DirEntryEncodeError Bytes := do
  let rec_len := self.rec_len.toNat
  ensure (DIR_ENTRY_HEADER_SIZE ≤ rec_len) (.RecLenBelowHeaderSize self.rec_len)
  ensure (rec_len % DIR_ENTRY_ALIGNMENT = 0) (.RecLenNotAligned self.rec_len)
  ensure (self.name.length ≤ DIR_ENTRY_NAME_MAX) (.NameTooLong self.name.length)
  ensure (DIR_ENTRY_HEADER_SIZE + self.name.length ≤ rec_len)
    (.NameLenExceedsRecLen (.ofNat self.name.length) self.rec_len)
  ensure (rec_len ≤ buf.size) (.OutputTooSmall buf.size rec_len)
  let buf ← buf.copy 0 (zeros rec_len)
  writeAll buf (fields self)

/-- `self.encode_into(&mut buf[start..stop])`. -/
def encode_range (self : DirEntry) (buf : Bytes) (start stop : Nat) : Res DirEntryEncodeError Bytes := do
  let part ← buf.range start stop
  let part ← encode_into self part
  buf.copy start part

/-- Only records of at least a header are decoded, so every step moves on. -/
theorem decode_moves {buf : Bytes} {entry : DirEntry} (decoded : decode buf = .ok entry) :
    8 ≤ entry.rec_len.toNat := by
  simp only [decode, res_bind_eq_ok] at decoded
  obtain ⟨_, -, _, -, rec_len, -, _, -, _, -, _, long, _, -, _, -, _, -, _, -, same⟩ := decoded
  have large : DIR_ENTRY_HEADER_SIZE ≤ rec_len.toNat := of_decide_eq_true (ensure_eq_ok.mp long)
  cases same
  exact large

/-- The records from `offset` to the end of the block. -/
def decode_from (buf : Bytes) (offset : Nat) : Res DirEntryDecodeError (List DirEntry) :=
  if offset < buf.size then
    if (buf.rest offset).size < DIR_ENTRY_HEADER_SIZE then
      .error (.err (.TrailingBytesBelowHeaderSize (buf.rest offset).size))
    else
      match _decoded : decode (buf.rest offset) with
      | .error fault => .error fault
      | .ok entry => do
        let entries ← decode_from buf (offset + entry.rec_len.toNat)
        .ok (entry :: entries)
  else .ok []
termination_by buf.size - offset
decreasing_by
  have moves := decode_moves _decoded
  omega

def decode_dir_block (buf : Bytes) : Res DirEntryDecodeError (List DirEntry) := decode_from buf 0

/-- What a walk along the records of a block has seen: the ones it passed,
    each with its offset, and the one at which it stopped. -/
structure Visited where
  passed : List (Nat × DirEntry)
  found : Option (Nat × DirEntry)
  deriving DecidableEq

/-- `while cursor < block_size`: decode the record at the cursor, leave the
    loop when it is the one looked for, and step over it otherwise. -/
def walk (buf : Bytes) (stop : DirEntry → Bool) (cursor : Nat) : Res DirEntryDecodeError Visited :=
  if cursor < buf.size then
    match _decoded : decode (buf.rest cursor) with
    | .error fault => .error fault
    | .ok entry =>
      if stop entry then .ok ⟨[], some (cursor, entry)⟩
      else do
        let later ← walk buf stop (cursor + entry.rec_len.toNat)
        .ok ⟨(cursor, entry) :: later.passed, later.found⟩
  else .ok ⟨[], none⟩
termination_by buf.size - cursor
decreasing_by
  have moves := decode_moves _decoded
  omega

def pad4 (n : Nat) : Nat := (n + 3) / 4 * 4

/-! ### Records in a block -/

/-- The lengths of a record agree with one another. -/
structure WellFormed (e : DirEntry) : Prop where
  aligned : e.rec_len.toNat % 4 = 0
  room : 8 + e.name.length ≤ e.rec_len.toNat
  short : e.name.length ≤ 255

theorem WellFormed.padded {e : DirEntry} (formed : WellFormed e) : pad4 (8 + e.name.length) ≤ e.rec_len.toNat := by
  obtain ⟨aligned, room, -⟩ := formed
  rw [pad4]
  omega
theorem pad4_ge (n : Nat) : n ≤ pad4 n := by rw [pad4]; omega
theorem pad4_aligned (n : Nat) : pad4 n % 4 = 0 := by rw [pad4]; omega

/-- The block holds the record of the entry at a position. -/
structure EntryAt (buf : Bytes) (pos : Nat) (e : DirEntry) : Prop where
  formed : WellFormed e
  inside : pos + e.rec_len.toNat ≤ buf.size
  inode : buf.u32At pos = e.inode
  rec_len : buf.u16At (pos + 4) = e.rec_len
  name_len : buf.byte (pos + 6) = .ofNat e.name.length
  file_type : buf.byte (pos + 7) = e.file_type_raw
  name : ∀ i < e.name.length, buf.byte (pos + 8 + i) = e.name.getD i 0

theorem rest_u16At (buf : Bytes) (pos i : Nat) : (buf.rest pos).u16At i = buf.u16At (pos + i) :=
  u16At_congr fun k _ => by rw [byte_rest, Nat.add_assoc]
theorem rest_u32At (buf : Bytes) (pos i : Nat) : (buf.rest pos).u32At i = buf.u32At (pos + i) :=
  u32At_congr fun k _ => by rw [byte_rest, Nat.add_assoc]

theorem decode_ok {buf : Bytes} {pos : Nat} {e : DirEntry} (held : EntryAt buf pos e) :
    decode (buf.rest pos) = .ok e := by
  obtain ⟨⟨aligned, room, short⟩, inside, inode, rec_len, name_len, file_type, name⟩ := held
  have size : (buf.rest pos).size = buf.size - pos := rfl
  have length : (UInt8.ofNat e.name.length).toNat = e.name.length := by
    rw [UInt8.toNat_ofNat']
    omega
  have sliced : ((buf.rest pos).slice 8 (8 + e.name.length - 8)).toList = e.name := by
    apply List.ext_getElem (by simp)
    intro i low high
    have same := name i high
    rw [List.getD_eq_getElem?_getD, List.getElem?_eq_getElem high, Option.getD_some] at same
    simp only [toList, size_slice, List.getElem_map, List.getElem_range]
    rw [byte_slice_of_lt _ (by omega), byte_rest, ← Nat.add_assoc, same]
  have number : (buf.rest pos).u32At 0 = e.inode := by rw [rest_u32At]; exact inode
  rw [decode, ensure_of (by rw [size, DIR_ENTRY_HEADER_SIZE]; omega), res_bind_ok, read_u32_ok (by omega), res_bind_ok,
    read_u16_ok (by omega), res_bind_ok, index_ok (by omega), res_bind_ok, index_ok (by omega), res_bind_ok, number,
    rest_u16At, byte_rest, byte_rest, rec_len, name_len, file_type, length,
    ensure_of (by rw [DIR_ENTRY_HEADER_SIZE]; omega), res_bind_ok,
    ensure_of (show e.rec_len.toNat % DIR_ENTRY_ALIGNMENT = 0 from aligned), res_bind_ok, ensure_of (show DIR_ENTRY_HEADER_SIZE + e.name.length ≤ e.rec_len.toNat from room), res_bind_ok, ensure_of (by rw [size, DIR_ENTRY_HEADER_SIZE]; omega), res_bind_ok,
    range_ok (Nat.le_add_right _ _) (by rw [size, DIR_ENTRY_HEADER_SIZE]; omega), res_bind_ok]
  simp only [DIR_ENTRY_HEADER_SIZE, sliced]

/-- A record depends on its own bytes only. -/
theorem EntryAt.congr {a b : Bytes} {pos : Nat} {e : DirEntry} (held : EntryAt a pos e) (size : b.size = a.size)
    (same : ∀ i, pos ≤ i → i < pos + e.rec_len.toNat → b.byte i = a.byte i) : EntryAt b pos e := by
  obtain ⟨formed, inside, inode, rec_len, name_len, file_type, name⟩ := held
  have room := formed.room
  refine ⟨formed, by omega, ?_, ?_, ?_, ?_, ?_⟩
  · rw [← inode]; exact u32At_congr fun k _ => same _ (by omega) (by omega)
  · rw [← rec_len]; exact u16At_congr fun k _ => same _ (by omega) (by omega)
  · rw [← name_len]; exact same _ (by omega) (by omega)
  · rw [← file_type]; exact same _ (by omega) (by omega)
  · intro i lt
    rw [← name i lt]; exact same _ (by omega) (by omega)

/-- The bytes of a record. -/
def record (self : DirEntry) : Bytes := patches (zeros self.rec_len.toNat) (fields self)

theorem spans (self : DirEntry) :
    (fields self).map span = [(0, 4), (4, 2), (6, 1), (7, 1), (8, self.name.length)] := rfl
theorem within {self : DirEntry} (formed : WellFormed self) : Within self.rec_len.toNat (fields self) := by
  have room := formed.room
  exact within_of_spans (spans self) (by simp; omega)
theorem apart (self : DirEntry) : (fields self).Pairwise Apart :=
  apart_of_spans (spans self) (by simp [spansApart])

theorem size_record {self : DirEntry} (formed : WellFormed self) : (record self).size = self.rec_len.toNat :=
  size_patches (within formed) _ (by simp)

theorem patch_whole {b src : Bytes} (size : b.size = src.size) : b.patch 0 src = src := by
  apply ext_inside (by rw [size_patch _ _ _ (by omega), size])
  intro i inside
  rw [size_patch _ _ _ (by omega)] at inside
  have hit := byte_patch_inside b 0 src (i := i) (by omega)
  rwa [Nat.zero_add] at hit

/-- A record is written over exactly its own bytes. -/
theorem encode_ok {self : DirEntry} (formed : WellFormed self) {buf : Bytes} (size : buf.size = self.rec_len.toNat) :
    encode_into self buf = .ok (record self) := by
  have room := formed.room
  have cleared : buf.patch 0 (zeros self.rec_len.toNat) = zeros self.rec_len.toNat := patch_whole (by simp [size])
  rw [encode_into, ensure_of (by rw [DIR_ENTRY_HEADER_SIZE]; omega), res_bind_ok,
    ensure_of (show self.rec_len.toNat % DIR_ENTRY_ALIGNMENT = 0 from formed.aligned), res_bind_ok,
    ensure_of (show self.name.length ≤ DIR_ENTRY_NAME_MAX from formed.short), res_bind_ok,
    ensure_of (show DIR_ENTRY_HEADER_SIZE + self.name.length ≤ self.rec_len.toNat from room), res_bind_ok,
    ensure_of (by omega), res_bind_ok, copy_ok (by simp [size]), res_bind_ok, cleared,
    writeAll_ok (within formed) _ (by simp), record]
theorem encode_range_ok {self : DirEntry} (formed : WellFormed self) {buf : Bytes} {start stop : Nat}
    (width : start + self.rec_len.toNat = stop) (inside : stop ≤ buf.size) :
    encode_range self buf start stop = .ok (buf.patch start (record self)) := by
  rw [encode_range, range_ok (by omega) inside, res_bind_ok, encode_ok formed (by simp; omega), res_bind_ok,
    copy_ok (by rw [size_record formed]; omega)]
theorem encode_range_size {self : DirEntry} {buf out : Bytes} {start stop : Nat}
    (encoded : encode_range self buf start stop = .ok out) : out.size = buf.size := by
  rw [encode_range] at encoded
  obtain ⟨part, -, encoded⟩ := res_bind_eq_ok.mp encoded
  obtain ⟨part', -, encoded⟩ := res_bind_eq_ok.mp encoded
  obtain ⟨fits, rfl⟩ := copy_inv encoded
  exact size_patch _ _ _ fits

/-- A name that is too long is refused, whatever the record length. -/
theorem encode_long (self : DirEntry) (long : 255 < self.name.length) (buf : Bytes) :
    ∃ e, encode_into self buf = .error (.err e) := by
  have refused : ensure (self.name.length ≤ DIR_ENTRY_NAME_MAX) (.NameTooLong self.name.length) =
      (.error (.err (.NameTooLong self.name.length)) : Res DirEntryEncodeError Unit) :=
    ensure_not (by rw [DIR_ENTRY_NAME_MAX]; omega) _
  rw [encode_into]
  cases first : decide (DIR_ENTRY_HEADER_SIZE ≤ self.rec_len.toNat) with
  | false => exact ⟨_, rfl⟩
  | true =>
    cases second : decide (self.rec_len.toNat % DIR_ENTRY_ALIGNMENT = 0) with
    | false => exact ⟨_, rfl⟩
    | true => exact ⟨_, by rw [ensure_true, res_bind_ok, ensure_true, res_bind_ok, refused, res_bind_error]⟩

theorem entryAt_record {self : DirEntry} (formed : WellFormed self) {buf : Bytes} {pos : Nat}
    (inside : pos + self.rec_len.toNat ≤ buf.size) : EntryAt (buf.patch pos (record self)) pos self := by
  have width := size_record formed
  have room := formed.room
  have disjoint := apart self
  have near : ∀ i < self.rec_len.toNat, (buf.patch pos (record self)).byte (pos + i) = (record self).byte i :=
    fun i lt => byte_patch_inside buf _ _ (by omega)
  have single : ∀ {offset : Nat} {value : UInt8}, (offset, ofList [value]) ∈ fields self →
      (record self).byte offset = value := by
    intro offset value member
    have read := congrArg (fun b => b.byte 0) (slice_patches_mem disjoint member (zeros self.rec_len.toNat))
    simpa [byte_slice, record] using read
  refine ⟨formed, by rw [size_patch _ _ _ (by omega)]; exact inside, ?_, ?_, ?_, ?_, ?_⟩
  · have read : (record self).u32At 0 = self.inode := u32At_patches disjoint _ _ (by simp [fields]) _
    rw [← read]
    exact u32At_congr fun k _ => by rw [near k (by omega), Nat.zero_add]
  · have read : (record self).u16At 4 = self.rec_len := u16At_patches disjoint _ _ (by simp [fields]) _
    rw [← read]
    exact u16At_congr fun k _ => by rw [Nat.add_assoc, near _ (by omega)]
  · rw [near 6 (by omega)]
    exact single (by simp [fields])
  · rw [near 7 (by omega)]
    exact single (by simp [fields])
  · intro i lt
    have member : (8, ofList self.name) ∈ fields self := by simp [fields, DIR_ENTRY_HEADER_SIZE]
    have read := slice_patches_mem disjoint member (zeros self.rec_len.toNat)
    have here := congrArg (fun b => b.byte i) read
    simp only [size_ofList, byte_ofList] at here
    rw [byte_slice_of_lt _ lt] at here
    rw [Nat.add_assoc, near _ (by omega)]
    exact here

end Justext4.DirEntry
