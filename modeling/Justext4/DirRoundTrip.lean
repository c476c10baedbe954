import Mathlib.Data.List.Forall2
import Justext4.Ownership
import Justext4.Survey

/-!
Directory blocks written and read back. The records of a list of entries,
encoded one after another, tile their block, tiled blocks in a row are tiled by
all their records, and reading returns the entries in order.
-/
namespace Justext4.DirRoundTrip
open Justext4 Justext4.Fallible Justext4.Fields Justext4.Filesystem Justext4.DirBlock Bytes
open Justext4.DirEntry
open Justext4.Inode (Inode)
open Justext4.Decoders (opened_of)
open Justext4.Runs (size_joined)
open Justext4.Survey
open Justext4.Ownership (entry_encode_inv)

/-- The entry is accepted in a buffer of exactly its record length. -/
def Accepted (e : DirEntry) : Prop := ∃ buf out : Bytes, buf.size = e.rec_len.toNat ∧ encode_into e buf = .ok out

/-- The records of the entries written end to end from a position. -/
def write_row (buf : Bytes) (pos : Nat) : List DirEntry → Res DirEntryEncodeError Bytes
  | [] => .ok buf
  | e :: es => do
    let buf ← encode_range e buf pos (pos + e.rec_len.toNat)
    write_row buf (pos + e.rec_len.toNat) es

/-- A block of exactly the records of the entries, written over any bytes. -/
def Built (es : List DirEntry) (block : Bytes) : Prop :=
  ∃ blank : Bytes, blank.size = width es ∧ write_row blank 0 es = .ok block

/-! ### Writing a row -/

/-- An entry is accepted exactly when its lengths agree. -/
theorem accepted_iff (e : DirEntry) : Accepted e ↔ WellFormed e := by
  constructor
  · intro ⟨buf, out, _, encoded⟩
    exact (entry_encode_inv encoded).1
  · intro formed
    exact ⟨zeros e.rec_len.toNat, record e, by simp, encode_ok formed (by simp)⟩

/-- Entries whose lengths agree are written end to end, and their records tile
    the bytes that they were written to. -/
theorem write_row_ok {es : List DirEntry} (formed : ∀ e ∈ es, WellFormed e) {buf : Bytes} {pos : Nat}
    (inside : pos + width es ≤ buf.size) : ∃ out, write_row buf pos es = .ok out ∧ out.size = buf.size ∧
      (∀ i < pos, out.byte i = buf.byte i) ∧ Tiles out pos es (pos + width es) := by
  induction es generalizing buf pos with
  | nil => exact ⟨buf, rfl, rfl, fun _ _ => rfl, rfl⟩
  | cons e es ih =>
    rw [width] at inside ⊢
    have first := formed e (.head _)
    have long := size_record first
    have size : (buf.patch pos (record e)).size = buf.size := size_patch _ _ _ (by omega)
    obtain ⟨out, written, sized, before, tiles⟩ := @ih (fun x member => formed x (.tail _ member)) (buf.patch pos (record e))
      (pos + e.rec_len.toNat) (by omega)
    refine ⟨out, ?_, by omega, fun i lt => ?_, ?_⟩
    · rw [write_row, encode_range_ok first rfl (by omega), res_bind_ok, written]
    · rw [before i (by omega), byte_patch_outside _ (.inl lt)]
    · refine ⟨(entryAt_record first (by omega)).congr (by omega) fun i _ high => before i high, ?_⟩
      rw [← Nat.add_assoc]
      exact tiles

/-- Only entries whose lengths agree are written. -/
theorem formed_of_written {es : List DirEntry} {buf out : Bytes} {pos : Nat} (written : write_row buf pos es = .ok out) :
    ∀ e ∈ es, WellFormed e := by
  induction es generalizing buf pos with
  | nil => simp
  | cons e es ih =>
    obtain ⟨next, first, later⟩ := res_bind_eq_ok.mp written
    rw [encode_range] at first
    obtain ⟨part, -, first⟩ := res_bind_eq_ok.mp first
    obtain ⟨coded, encoded, -⟩ := res_bind_eq_ok.mp first
    intro x member
    rcases List.mem_cons.mp member with here | rest
    · exact here ▸ (entry_encode_inv encoded).1
    · exact ih later x rest

theorem Built.tiles {es : List DirEntry} {block : Bytes} (built : Built es block) :
    block.size = width es ∧ Tiles block 0 es block.size := by
  obtain ⟨blank, size, written⟩ := built
  obtain ⟨out, again, sized, -, tiles⟩ := @write_row_ok _ (formed_of_written written) blank 0 (by omega)
  rw [again] at written
  cases written
  rw [Nat.zero_add] at tiles
  have whole : block.size = width es := by omega
  rw [← whole] at tiles
  exact ⟨whole, tiles⟩

/-! ### Blocks in a row -/

/-- The same bytes elsewhere hold the same record. -/
theorem entryAt_moved {a b : Bytes} {pos pos' : Nat} {e : DirEntry} (held : EntryAt a pos e)
    (inside : pos' + e.rec_len.toNat ≤ b.size) (same : ∀ i < e.rec_len.toNat, b.byte (pos' + i) = a.byte (pos + i)) :
    EntryAt b pos' e := by
  obtain ⟨formed, -, inode, rec_len, name_len, file_type, name⟩ := held
  have room := formed.room
  refine ⟨formed, inside, ?_, ?_, ?_, ?_, fun i lt => ?_⟩
  · rw [← inode]
    exact u32At_congr fun k _ => same k (by omega)
  · rw [← rec_len]
    exact u16At_congr fun k _ => by rw [Nat.add_assoc, Nat.add_assoc, same _ (by omega)]
  · rw [← name_len, same 6 (by omega)]
  · rw [← file_type, same 7 (by omega)]
  · rw [← name i lt, Nat.add_assoc, Nat.add_assoc, same _ (by omega)]
theorem tiles_moved {a b : Bytes} {shift pos stop : Nat} {es : List DirEntry} (tiles : Tiles a pos es stop)
    (inside : shift + stop ≤ b.size) (same : ∀ i, pos ≤ i → i < stop → b.byte (shift + i) = a.byte i) :
    Tiles b (shift + pos) es (shift + stop) := by
  induction es generalizing pos with
  | nil => exact congrArg (shift + ·) tiles
  | cons e es ih =>
    obtain ⟨held, later⟩ := tiles
    have reach := tiles_stop later
    refine ⟨entryAt_moved held (by omega) fun i lt => ?_, ?_⟩
    · rw [Nat.add_assoc, same _ (by omega) (by omega)]
    · rw [Nat.add_assoc]
      exact ih later fun i low high => same i (by omega) high

/-- Two tiled blocks in a row are tiled by the records of both. -/
theorem tiles_concat {a b : Bytes} {xs ys : List DirEntry} (left : Tiles a 0 xs a.size) (right : Tiles b 0 ys b.size) :
    Tiles (a ++ b) 0 (xs ++ ys) (a ++ b).size := by
  have reach := tiles_stop left
  have size := size_append a b
  have front : Tiles (a ++ b) (0 + 0) xs (0 + a.size) :=
    tiles_moved left (by omega) fun i _ high => by rw [Nat.zero_add, byte_append, if_pos high]
  have back : Tiles (a ++ b) (a.size + 0) ys (a.size + b.size) :=
    tiles_moved right (by omega) fun i _ _ => by rw [byte_append, if_neg (by omega), Nat.add_sub_cancel_left]
  rw [tiles_append, ← reach, size]
  rw [Nat.zero_add, Nat.zero_add] at front
  exact ⟨front, back⟩

/-- Any number of blocks that hold lists of entries, read as one. -/
theorem tiles_joined {blocks : List Bytes} {rows : List (List DirEntry)}
    (each : List.Forall₂ (fun block es => Tiles block 0 es block.size) blocks rows) :
    Tiles (joined blocks) 0 rows.flatten (joined blocks).size := by
  induction each with
  | nil => rfl
  | cons first _ ih => exact tiles_concat first ih

/-- The concatenation of two blocks decodes to the entries of both. -/
theorem Built.concat {xs ys : List DirEntry} {a b : Bytes} (left : Built xs a) (right : Built ys b) :
    decode_dir_block (a ++ b) = .ok (xs ++ ys) :=
  decode_dir_block_tiles (tiles_concat left.tiles.2 right.tiles.2)

/-! ### Directories of many blocks -/

/-- Logical block `i` of the inode is mapped to a block of the image that holds
    the entries. -/
structure HoldsRow (fs : Filesystem) (inode : Inode) (i : Nat) (es : List DirEntry) (p : Nat) : Prop where
  numbered : i < 4294967296
  mapped : resolve_logical_block fs inode i = .ok (some p)
  addressed : p * fs.superblock.block_size.toNat < 18446744073709551616
  inside : p * fs.superblock.block_size.toNat + fs.superblock.block_size.toNat ≤ fs.reader.size
  built : Built es (fs.reader.slice (p * fs.superblock.block_size.toNat) fs.superblock.block_size.toNat)

theorem HoldsRow.read {fs : Filesystem} {inode : Inode} {i p : Nat} {es : List DirEntry} (row : HoldsRow fs inode i es p) :
    read_block fs inode i =
      .ok (fs.reader.slice (p * fs.superblock.block_size.toNat) fs.superblock.block_size.toNat) := by
  rw [read_block, ensure_of row.numbered, res_bind_ok, row.mapped, res_bind_ok]
  simp only
  rw [in_u64, if_pos row.addressed, res_bind_ok, read_at, if_pos (.inr row.inside)]

/-- The blocks of a directory are read one for each list of entries. -/
theorem collect_rows {f : Nat → Res Ext4Error Bytes} {k : Nat} {rows : List (List DirEntry)} {P : Bytes → List DirEntry → Prop}
    (each : ∀ i es, rows[i]? = some es → ∃ block, f (k + i) = .ok block ∧ P block es) :
    ∃ blocks, collect f k rows.length = .ok blocks ∧ List.Forall₂ P blocks rows := by
  induction rows generalizing k with
  | nil => exact ⟨[], rfl, .nil⟩
  | cons es rows ih =>
    obtain ⟨block, read, holds⟩ := each 0 es rfl
    obtain ⟨blocks, later, all⟩ := @ih (k + 1) fun i es found => by
      rw [Nat.add_assoc, Nat.add_comm 1 i]
      exact each (i + 1) es found
    refine ⟨block :: blocks, ?_, .cons holds all⟩
    rw [List.length_cons, collect, show f k = .ok block from read, res_bind_ok, later, res_bind_ok]

/-- A directory of tiled blocks is read as all their entries in order. -/
theorem read_dir_tiled {fs : Filesystem} {inode : Inode} {rows : List (List DirEntry)}
    (known : 1024 ≤ fs.superblock.block_size.toNat ∧ fs.superblock.block_size.toNat ≤ 65536)
    (few : rows.length ≤ 4294967296) (size : inode.size.toNat = rows.length * fs.superblock.block_size.toNat)
    (each : ∀ i es, rows[i]? = some es → ∃ block, read_block fs inode i = .ok block ∧
      block.size = fs.superblock.block_size.toNat ∧ Tiles block 0 es block.size) :
    read_dir fs inode = .ok rows.flatten := by
  obtain ⟨blocks, collected, all⟩ := @collect_rows (read_block fs inode) 0 rows
    (fun block es => block.size = fs.superblock.block_size.toNat ∧ Tiles block 0 es block.size) fun i es found => by
      rw [Nat.zero_add]
      exact each i es found
  obtain ⟨sized, tiled⟩ := (List.forall₂_and_left _ _).mp all
  have whole : (joined blocks).size = inode.size.toNat := by rw [size_joined sized, all.length_eq, size]
  have count : div_ceil inode.size.toNat fs.superblock.block_size.toNat = rows.length := by
    have split : rows.length * fs.superblock.block_size.toNat + fs.superblock.block_size.toNat - 1 =
        fs.superblock.block_size.toNat - 1 + rows.length * fs.superblock.block_size.toNat := by omega
    rw [div_ceil, size, split, Nat.add_mul_div_right _ _ (by omega), Nat.div_eq_of_lt (by omega), Nat.zero_add]
  have decoded := decode_dir_block_tiles (tiles_joined tiled)
  rw [read_dir, read_file]
  by_cases empty : inode.size.toNat = 0
  · have none : rows = [] := by
      cases rows with
      | nil => rfl
      | cons es rows =>
        rw [size, List.length_cons, Nat.succ_mul] at empty
        omega
    subst none
    cases tiled
    have nothing : decode_dir_block (zeros 0) = .ok [] := decoded
    rw [if_pos empty, res_bind_ok, nothing, liftErr_ok, List.flatten_nil]
  · have plain : ¬ (Inode.is_symlink inode = true ∧ inode.size.toNat ≤ Inode.I_BLOCK_LEN) := by
      rintro ⟨-, short⟩
      have some : rows.length ≠ 0 := by
        intro zero
        rw [size, zero, Nat.zero_mul] at empty
        exact empty rfl
      have least : fs.superblock.block_size.toNat ≤ rows.length * fs.superblock.block_size.toNat :=
        Nat.le_mul_of_pos_left _ (Nat.pos_of_ne_zero some)
      have limit : inode.size.toNat ≤ 60 := short
      omega
    have capacity : capacity_ok (rows.length * fs.superblock.block_size.toNat) = true := by
      have bound : rows.length * fs.superblock.block_size.toNat ≤ 4294967296 * 65536 := Nat.mul_le_mul few (by omega)
      rw [capacity_ok, decide_eq_true_eq]
      omega
    rw [if_neg empty, if_neg plain, count, capacity, orPanic_true, res_bind_ok, collected, res_bind_ok, res_bind_ok, ← whole,
      Bytes.truncate, Nat.min_self, slice_self, decoded, liftErr_ok]

theorem read_dir_rows {image : Bytes} {fs : Filesystem} (opened : open_image image = .ok fs) {inode : Inode}
    {rows : List (List DirEntry)} (size : inode.size.toNat = rows.length * fs.superblock.block_size.toNat)
    (each : ∀ i es, rows[i]? = some es → ∃ p, HoldsRow fs inode i es p) : read_dir fs inode = .ok rows.flatten := by
  have known := (opened_of opened).known
  have few : rows.length ≤ 4294967296 := by
    cases last : rows.length with
    | zero => omega
    | succ n =>
      obtain ⟨p, row⟩ := each n _ (List.getElem?_eq_getElem (by omega))
      exact row.numbered
  refine read_dir_tiled (by omega) few size fun i es found => ?_
  obtain ⟨p, row⟩ := each i es found
  exact ⟨_, row.read, size_slice _ _ _, row.built.tiles.2⟩

/-! ### The round trip -/

/-- Entries that are accepted survive being written and read, blocks of them
    can be put in a row, and a directory of such blocks has all their entries. -/
theorem dir_blocks_survive :
    (∀ e : DirEntry, Accepted e ↔
      e.name.length ≤ 255 ∧ e.rec_len.toNat % 4 = 0 ∧ 8 + e.name.length ≤ e.rec_len.toNat) ∧
    (∀ es : List DirEntry, (∀ e ∈ es, Accepted e) → ∀ blank : Bytes, blank.size = width es →
      ∃ block, write_row blank 0 es = .ok block ∧ decode_dir_block block = .ok es) ∧
    (∀ xs ys a b, Built xs a → Built ys b → decode_dir_block (a ++ b) = .ok (xs ++ ys)) ∧
    (∀ image fs inode (rows : List (List DirEntry)), open_image image = .ok fs →
      inode.size.toNat = rows.length * fs.superblock.block_size.toNat →
      (∀ i es, rows[i]? = some es → ∃ p, HoldsRow fs inode i es p) → read_dir fs inode = .ok rows.flatten) := by
  refine ⟨fun e => ?_, fun es accepted blank size => ?_, fun xs ys a b left right => left.concat right,
    fun image fs inode rows opened size each => read_dir_rows opened size each⟩
  · rw [accepted_iff]
    constructor
    · intro formed
      exact ⟨formed.short, formed.aligned, formed.room⟩
    · intro ⟨short, aligned, room⟩
      exact ⟨aligned, room, short⟩
  · have formed : ∀ e ∈ es, WellFormed e := fun e member => (accepted_iff e).mp (accepted e member)
    obtain ⟨block, written, -, -, -⟩ := @write_row_ok _ formed blank 0 (by omega)
    have built : Built es block := ⟨blank, size, written⟩
    exact ⟨block, written, decode_dir_block_tiles built.tiles.2⟩

/-! ### A directory of two blocks -/

def firstRow : List DirEntry := rootEntries [([97], 11)]
def secondRow : List DirEntry := [⟨12, 2048, 1, [98]⟩]
def wideRoot : Inode := leafInode 0x41ED 2 4096 [⟨0, 2, 6, false⟩]
/-- The root has the file 11 in its first block and the file 12 in its second. -/
def wideParts : List (Nat × Bytes) :=
  smallParts [255] [2, 12] [(2, wideRoot), (11, leafInode 0x81A4 1 0 []), (12, leafInode 0x81A4 1 0 [])]
    [(6, entryBytes firstRow), (7, entryBytes secondRow)]
def wideState : Filesystem := smallState 8 13 wideParts

theorem wide_assembles : Images.Assembles 32768 (smallSuperblock 8 13) 1 [smallGroup 8 13] wideParts := by
  decide +kernel
theorem wide_opens : open_image wideState.reader = .ok wideState := small_opens wide_assembles
theorem wide_holds : ∀ i es, [firstRow, secondRow][i]? = some es → ∃ p, HoldsRow wideState wideRoot i es p := by
  intro i es found
  match i, found with
  | 0, found =>
    cases found
    exact ⟨6, by decide, by decide +kernel, by decide, by decide +kernel, zeros 2048, by decide, by decide +kernel⟩
  | 1, found =>
    cases found
    exact ⟨7, by decide, by decide +kernel, by decide, by decide +kernel, zeros 2048, by decide, by decide +kernel⟩

theorem wide_survives : read_dir wideState wideRoot = .ok [firstRow, secondRow].flatten :=
  dir_blocks_survive.2.2.2 wideState.reader wideState wideRoot [firstRow, secondRow] wide_opens (by decide) wide_holds

end Justext4.DirRoundTrip
