import Justext4.FileMap
import Justext4.Survey

/-!
Reading an arbitrary image. Opening never panics and neither does the descent
in an extent tree, whatever the bytes are. Reading an inode panics when its
place in the inode table is past 64 bits, and reading a file when its buffer
cannot be that large or when a block that comes before any failure is mapped
past 64 bits. There is nothing else that makes a reading call panic.
-/
namespace Justext4.ReadSafety
open Justext4 Justext4.Fallible Justext4.Fields Justext4.Filesystem Justext4.Volumes Bytes
open Justext4.Superblock (Superblock)
open Justext4.GroupDescriptor (GroupDescriptor)
open Justext4.Extent (Extent ExtentHeader ExtentIndex decode_extent_node)
open Justext4.Inode (Inode I_BLOCK_LEN inodeAt)
open Justext4.Decoders
open Justext4.ExtentMap
open Justext4.FileMap
open Justext4.Images
open Justext4.Runs (runBlock)
open Justext4.Survey

/-! ### Rows of calls -/

section
variable {ε α : Type} {f : Nat → Res ε α} {i j n : Nat}

theorem collect_panics (low : i ≤ j) (high : j < i + n) (panics : f j = .error .panic)
    (before : ∀ k, i ≤ k → k < j → ∃ a, f k = .ok a) : collect f i n = .error .panic := by
  induction n generalizing i with
  | zero => omega
  | succ n ih =>
    rw [collect]
    by_cases here : i = j
    · rw [here, panics, res_bind_error]
    · obtain ⟨a, first⟩ := before i (Nat.le_refl i) (by omega)
      rw [first, res_bind_ok, ih (i := i + 1) (by omega) (by omega) fun k low high => before k (by omega) high,
        res_bind_error]
/-- Only a call that is reached can make the row panic. -/
theorem noPanic_collect_reached
    (each : ∀ j, i ≤ j → j < i + n → (∀ k, i ≤ k → k < j → ∃ a, f k = .ok a) → NoPanic (f j)) :
    NoPanic (collect f i n) := by
  induction n generalizing i with
  | zero => exact noPanic_ok _
  | succ n ih =>
    rw [collect]
    refine noPanic_bind (each i (Nat.le_refl i) (by omega) fun k low high => by omega) fun a first => ?_
    refine noPanic_bind (ih (i := i + 1) fun j low high reached => ?_) fun rest _ => noPanic_ok _
    refine each j (by omega) (by omega) fun k low' high' => ?_
    by_cases here : k = i
    · exact ⟨a, by rw [here, first]⟩
    · exact reached k (by omega) high'
end

/-! ### Where a logical block is -/

/-- The descent with so many steps left goes from the node to this place, or to a hole. -/
inductive Lands (fs : Filesystem) (logical : Nat) : Nat → Bytes → Option Nat → Prop
  | leaf {steps : Nat} {node_buf : Bytes} {header : ExtentHeader} {extents : List Extent}
      (decoded : decode_extent_node node_buf = .ok (.Leaf header extents)) :
      Lands fs logical (steps + 1) node_buf ((find_extent extents logical).bind fun ext => mapped ext logical)
  | front {steps : Nat} {node_buf : Bytes} {header : ExtentHeader} {indices : List ExtentIndex}
      (decoded : decode_extent_node node_buf = .ok (.Internal header indices))
      (unchosen : choose_index indices logical = none) : Lands fs logical (steps + 1) node_buf none
  | down {steps : Nat} {node_buf child : Bytes} {header : ExtentHeader} {indices : List ExtentIndex} {idx : ExtentIndex}
      {place : Option Nat} (decoded : decode_extent_node node_buf = .ok (.Internal header indices))
      (chosen : choose_index indices logical = some idx) (read : child_node fs idx = .ok child)
      (lands : Lands fs logical steps child place) : Lands fs logical (steps + 1) node_buf place

/-- The extent tree of an inode has the logical block in this place, or in a hole. -/
def Maps (fs : Filesystem) (inode : Inode) (logical : Nat) (place : Option Nat) : Prop :=
  Inode.uses_extents inode = true ∧ Lands fs logical 6 inode.block.bytes place

theorem resolve_steps_iff {fs : Filesystem} {logical steps : Nat} {node_buf : Bytes} {place : Option Nat} :
    resolve_steps fs logical steps node_buf = .ok place ↔ Lands fs logical steps node_buf place := by
  constructor
  · intro resolved
    induction steps generalizing node_buf with
    | zero => cases resolved
    | succ steps ih =>
      cases decoded : decode_extent_node node_buf with
      | error fault =>
        rw [resolve_steps, decoded] at resolved
        cases fault <;> cases resolved
      | ok node =>
        cases node with
        | Leaf header extents =>
          rw [resolve_leaf decoded] at resolved
          cases resolved
          exact .leaf decoded
        | Internal header indices =>
          rw [resolve_internal decoded] at resolved
          cases chosen : choose_index indices logical with
          | none =>
            rw [chosen] at resolved
            cases resolved
            exact .front decoded chosen
          | some idx =>
            rw [chosen] at resolved
            obtain ⟨child, read, later⟩ := res_bind_eq_ok.mp resolved
            exact .down decoded chosen read (ih later)
  · intro lands
    induction lands with
    | leaf decoded => exact resolve_leaf decoded
    | front decoded unchosen => rw [resolve_internal decoded, unchosen]
    | down decoded chosen read lands ih =>
      rw [resolve_internal decoded, chosen]
      dsimp only
      rw [read, res_bind_ok, ih]
theorem resolve_iff {fs : Filesystem} {inode : Inode} {logical : Nat} {place : Option Nat} :
    resolve_logical_block fs inode logical = .ok place ↔ Maps fs inode logical place := by
  cases based : Inode.uses_extents inode with
  | true =>
    rw [resolve_descends based, resolve_steps_iff, Maps, based]
    simp
  | false =>
    rw [resolve_logical_block, based, Maps, based]
    simp

/-! ### What overflows -/

/-- The record of an inode is at this offset. -/
def SlotAt (fs : Filesystem) (n : UInt32) (offset : Nat) : Prop :=
  n ≠ 0 ∧ n ≤ fs.superblock.inodes_count ∧
    ∃ gd, fs.gdt[(n.toNat - 1) / fs.superblock.inodes_per_group.toNat]? = some gd ∧
      offset = gd.inode_table.toNat * fs.superblock.block_size.toNat +
        (n.toNat - 1) % fs.superblock.inodes_per_group.toNat * fs.superblock.inode_size.toNat
/-- An inode of the table, its record inside the image. -/
def Stored (fs : Filesystem) (inode : Inode) : Prop :=
  ∃ n offset, SlotAt fs n offset ∧ offset + fs.superblock.inode_size.toNat ≤ fs.reader.size ∧
    128 ≤ fs.superblock.inode_size.toNat ∧ inode = inodeAt (fs.reader.slice offset fs.superblock.inode_size.toNat)
/-- The contents of the inode are in blocks. -/
def InBlocks (inode : Inode) : Prop :=
  inode.size.toNat ≠ 0 ∧ ¬ (Inode.is_symlink inode ∧ inode.size.toNat ≤ I_BLOCK_LEN)

def TableOverflow (fs : Filesystem) : Prop := ∃ n offset, SlotAt fs n offset ∧ 18446744073709551616 ≤ offset
/-- The blocks of the inode are more bytes than a vector may have. -/
def SizeOverflow (fs : Filesystem) (inode : Inode) : Prop :=
  9223372036854775808 ≤ div_ceil inode.size.toNat fs.superblock.block_size.toNat * fs.superblock.block_size.toNat
/-- A block of the inode is mapped past 64 bits, and those before it can be read. -/
def AddressOverflow (fs : Filesystem) (inode : Inode) : Prop :=
  ∃ logical place, logical < div_ceil inode.size.toNat fs.superblock.block_size.toNat ∧ logical < 4294967296 ∧
    Maps fs inode logical (some place) ∧ 18446744073709551616 ≤ place * fs.superblock.block_size.toNat ∧
    ∀ before < logical, ∃ resolved, Maps fs inode before resolved ∧ ∀ earlier ∈ resolved,
      earlier * fs.superblock.block_size.toNat < 18446744073709551616 ∧
      earlier * fs.superblock.block_size.toNat + fs.superblock.block_size.toNat ≤ fs.reader.size
def Overflows (fs : Filesystem) : Prop :=
  TableOverflow fs ∨ ∃ inode, Stored fs inode ∧ InBlocks inode ∧ (SizeOverflow fs inode ∨ AddressOverflow fs inode)

/-- None of the calls that read panics. -/
structure SafeReads (fs : Filesystem) : Prop where
  inodes : ∀ n, NoPanic (read_inode fs n)
  blocks : ∀ inode logical, NoPanic (resolve_logical_block fs inode logical)
  files : ∀ n inode, read_inode fs n = .ok inode → NoPanic (read_file fs inode)
  directories : ∀ n inode, read_inode fs n = .ok inode → NoPanic (read_dir fs inode)
  names : ∀ n inode name, read_inode fs n = .ok inode → NoPanic (lookup fs inode name)
  paths : ∀ path, NoPanic (open_path fs path)

section
variable {image : Bytes} {fs : Filesystem} {n : UInt32} {inode : Inode} {offset logical : Nat}

/-! ### Inodes -/

theorem inode_offset_slot (opened : Opened image fs) (slot : SlotAt fs n offset) :
    inode_offset fs n = if offset < 18446744073709551616 then .ok offset else .error .panic := by
  obtain ⟨-, -, gd, group, rfl⟩ := slot
  rw [inode_offset, gdt_at, group, decide_eq_true opened.inodeGroup, orPanic_true, res_bind_ok]
  dsimp only
  rw [res_bind_ok, in_u64]
  split
  · rw [res_bind_ok, in_u64]
  · rw [res_bind_error, if_neg (by omega)]
theorem read_inode_slot (opened : Opened image fs) (slot : SlotAt fs n offset) :
    read_inode fs n = if offset < 18446744073709551616 then
      read_at fs.reader offset fs.superblock.inode_size.toNat >>= fun buf => liftErr .Inode (Inode.decode buf fs.superblock)
      else .error .panic := by
  have same := inode_offset_slot opened slot
  obtain ⟨low, high, gd, group, -⟩ := slot
  have listed := (List.getElem?_eq_some_iff.mp group).1
  rw [read_inode, ensure_of ⟨low, high⟩, res_bind_ok, decide_eq_true opened.inodeGroup, orPanic_true, res_bind_ok,
    ensure_of listed, res_bind_ok, same]
  split
  · rw [res_bind_ok]
  · rw [res_bind_error]
/-- Without a slot there is no inode, and with one there is no overflow. -/
theorem read_inode_noPanic (opened : Opened image fs) (fits : ¬ TableOverflow fs) (n : UInt32) :
    NoPanic (read_inode fs n) := by
  rw [read_inode]
  refine noPanic_ensure_bind fun range => ?_
  rw [decide_eq_true opened.inodeGroup, orPanic_true, res_bind_ok]
  refine noPanic_ensure_bind fun listed => ?_
  have slot : SlotAt fs n _ := ⟨range.1, range.2, _, List.getElem?_eq_getElem listed, rfl⟩
  have low := Nat.lt_of_not_le fun past => fits ⟨n, _, slot, past⟩
  rw [inode_offset_slot opened slot, if_pos low, res_bind_ok]
  exact noPanic_bind (noPanic_read_at _ _ _) fun _ _ => (noPanic_liftErr _).mpr (inode_noPanic _ _)
theorem read_inode_panics (opened : Opened image fs) (past : TableOverflow fs) : ∃ n, read_inode fs n = .error .panic := by
  obtain ⟨n, offset, slot, past⟩ := past
  exact ⟨n, by rw [read_inode_slot opened slot, if_neg (by omega)]⟩

theorem stored_of_read (opened : Opened image fs) (read : read_inode fs n = .ok inode) : Stored fs inode := by
  have checked := read
  rw [read_inode] at checked
  obtain ⟨_, range, checked⟩ := res_bind_eq_ok.mp checked
  rw [decide_eq_true opened.inodeGroup, orPanic_true, res_bind_ok] at checked
  obtain ⟨_, listed, -⟩ := res_bind_eq_ok.mp checked
  have inRange := of_decide_eq_true (ensure_eq_ok.mp range)
  have slot : SlotAt fs n _ :=
    ⟨inRange.1, inRange.2, _, List.getElem?_eq_getElem (of_decide_eq_true (ensure_eq_ok.mp listed)), rfl⟩
  rw [read_inode_slot opened slot] at read
  split at read
  · obtain ⟨buf, bytes, decoded⟩ := res_bind_eq_ok.mp read
    by_cases sized : 128 ≤ fs.superblock.inode_size.toNat
    · rw [read_at] at bytes
      split at bytes
      · rename_i inside
        cases bytes
        rw [Inode.decode_ok sized (by simp), liftErr_ok] at decoded
        cases decoded
        exact ⟨n, _, slot, by omega, sized, rfl⟩
      · cases bytes
    · rw [Inode.decode, ensure_not (show ¬ Inode.MIN_INODE_SIZE.toNat ≤ fs.superblock.inode_size.toNat from sized),
        res_bind_error] at decoded
      cases decoded
  · cases read
theorem read_of_stored (opened : Opened image fs) (fits : ¬ TableOverflow fs) (stored : Stored fs inode) :
    ∃ n, (n ≠ 0 ∧ n ≤ fs.superblock.inodes_count) ∧ read_inode fs n = .ok inode := by
  obtain ⟨n, offset, slot, inside, sized, rfl⟩ := stored
  have low := Nat.lt_of_not_le fun past => fits ⟨n, _, slot, past⟩
  exact ⟨n, ⟨slot.1, slot.2.1⟩, by
    rw [read_inode_slot opened slot, if_pos low, read_at_ok inside, res_bind_ok,
      Inode.decode_ok sized (by simp), liftErr_ok]⟩

/-! ### Blocks and files -/

theorem read_block_readable (small : logical < 4294967296) {resolved : Option Nat} (maps : Maps fs inode logical resolved)
    (inside : ∀ place ∈ resolved, place * fs.superblock.block_size.toNat < 18446744073709551616 ∧
      place * fs.superblock.block_size.toNat + fs.superblock.block_size.toNat ≤ fs.reader.size) :
    ∃ block, read_block fs inode logical = .ok block := by
  have same := resolve_iff.mpr maps
  refine ⟨_, read_block_ok small ⟨resolved, same, fun place found => (inside place found).2⟩ fun place found => ?_⟩
  rw [same] at found
  cases found
  exact (inside place rfl).1
theorem readable_of_read {block : Bytes} (read : read_block fs inode logical = .ok block) (positive : 0 < fs.superblock.block_size.toNat) :
    ∃ resolved, Maps fs inode logical resolved ∧ ∀ place ∈ resolved,
      place * fs.superblock.block_size.toNat < 18446744073709551616 ∧
      place * fs.superblock.block_size.toNat + fs.superblock.block_size.toNat ≤ fs.reader.size := by
  rw [read_block] at read
  obtain ⟨_, -, read⟩ := res_bind_eq_ok.mp read
  obtain ⟨resolved, same, read⟩ := res_bind_eq_ok.mp read
  refine ⟨resolved, resolve_iff.mp same, fun place found => ?_⟩
  cases found
  obtain ⟨offset, fits, read⟩ := res_bind_eq_ok.mp read
  rw [in_u64] at fits
  split at fits
  · rename_i low
    cases fits
    rw [read_at] at read
    split at read
    · rename_i inside
      exact ⟨low, by omega⟩
    · cases read
  · cases fits
theorem read_block_panics (small : logical < 4294967296) {place : Nat} (maps : Maps fs inode logical (some place))
    (past : 18446744073709551616 ≤ place * fs.superblock.block_size.toNat) :
    read_block fs inode logical = .error .panic := by
  rw [read_block, ensure_of small, res_bind_ok, resolve_iff.mpr maps, res_bind_ok]
  dsimp only
  rw [in_u64, if_neg (by omega), res_bind_error]

theorem read_file_noPanic (opened : Opened image fs) (fits : ¬ SizeOverflow fs inode) (addressed : ¬ AddressOverflow fs inode) :
    NoPanic (read_file fs inode) := by
  have positive := Opened.positive opened
  have bounded := Opened.bounded opened
  have capacity : capacity_ok (div_ceil inode.size.toNat fs.superblock.block_size.toNat *
      fs.superblock.block_size.toNat) = true := decide_eq_true (Nat.lt_of_not_le fits)
  rw [read_file, capacity, orPanic_true, res_bind_ok]
  split
  · exact noPanic_ok _
  split
  · exact noPanic_ok _
  refine noPanic_bind (noPanic_collect_reached fun logical _ needed reached => ?_) fun _ _ => noPanic_ok _
  by_cases small : logical < 4294967296
  · refine read_block_noPanic bounded fun place found => Nat.lt_of_not_le fun past => addressed ?_
    refine ⟨logical, place, by omega, small, resolve_iff.mp found, past, fun before earlier => ?_⟩
    obtain ⟨block, read⟩ := reached before (Nat.zero_le _) earlier
    exact readable_of_read read (by omega)
  · rw [read_block, ensure_not small, res_bind_error]
    exact noPanic_err _
theorem read_file_panics (inBlocks : InBlocks inode) (past : SizeOverflow fs inode ∨ AddressOverflow fs inode) :
    read_file fs inode = .error .panic := by
  obtain ⟨some, long⟩ := inBlocks
  rw [read_file, if_neg some, if_neg long]
  cases capacity : capacity_ok (div_ceil inode.size.toNat fs.superblock.block_size.toNat *
      fs.superblock.block_size.toNat) with
  | false => rw [orPanic_false, res_bind_error]
  | true =>
    rcases past with large | ⟨logical, place, needed, small, maps, past, before⟩
    · have fits := of_decide_eq_true capacity
      rw [SizeOverflow] at large
      omega
    · rw [orPanic_true, res_bind_ok, collect_panics (Nat.zero_le logical) (by omega) (read_block_panics small maps past),
        res_bind_error]
      intro k _ earlier
      obtain ⟨resolved, maps', inside⟩ := before k earlier
      exact read_block_readable (by omega) maps' inside

/-! ### Directories and paths -/

theorem read_dir_noPanic (file : NoPanic (read_file fs inode)) : NoPanic (read_dir fs inode) :=
  noPanic_bind file fun bytes _ => (noPanic_liftErr _).mpr (dir_block_noPanic bytes)
theorem lookup_noPanic (file : NoPanic (read_file fs inode)) (name : List UInt8) : NoPanic (lookup fs inode name) := by
  refine noPanic_bind (read_dir_noPanic file) fun entries _ => ?_
  cases entries.find? fun entry => !DirEntry.is_unused entry && entry.name == name with
  | none => exact noPanic_err _
  | some entry => exact noPanic_ok _
theorem open_from_noPanic (inodes : ∀ n, NoPanic (read_inode fs n))
    (files : ∀ n inode, read_inode fs n = .ok inode → NoPanic (read_file fs inode)) (current : UInt32)
    (components : List (List UInt8)) : NoPanic (open_from fs current components) := by
  induction components generalizing current with
  | nil => exact noPanic_ok _
  | cons component components ih =>
    rw [open_from]
    split
    · exact ih current
    · refine noPanic_bind (inodes current) fun parent read => noPanic_bind (noPanic_ensure _ _) fun _ _ => ?_
      exact noPanic_bind (lookup_noPanic (files current parent read) component) fun child _ => ih child
end

/-- Opening an image does not panic, and the calls that read what it opens to
    do so exactly when one of its sums or products overflows. -/
theorem reads_safe_iff (image : Bytes) : NoPanic (open_image image) ∧
    ∀ fs, open_image image = .ok fs → (SafeReads fs ↔ ¬ Overflows fs) := by
  refine ⟨open_noPanic image, fun fs opened => ?_⟩
  have accepted := opened_of opened
  constructor
  · rintro safe (past | ⟨inode, stored, inBlocks, past⟩)
    · obtain ⟨n, panics⟩ := read_inode_panics accepted past
      exact safe.inodes n panics
    · have fits : ¬ TableOverflow fs := by
        intro overflow
        obtain ⟨n, panics⟩ := read_inode_panics accepted overflow
        exact safe.inodes n panics
      obtain ⟨n, -, read⟩ := read_of_stored accepted fits stored
      exact safe.files n inode read (read_file_panics inBlocks past)
  · intro within
    have fits : ¬ TableOverflow fs := fun overflow => within (.inl overflow)
    have inodes := read_inode_noPanic accepted fits
    have files : ∀ n inode, read_inode fs n = .ok inode → NoPanic (read_file fs inode) := by
      intro n inode read
      have stored := stored_of_read accepted read
      by_cases inBlocks : InBlocks inode
      · exact read_file_noPanic accepted (fun past => within (.inr ⟨inode, stored, inBlocks, .inl past⟩))
          fun past => within (.inr ⟨inode, stored, inBlocks, .inr past⟩)
      · rw [read_file]
        split
        · exact noPanic_ok _
        · rename_i some
          rw [if_pos (Classical.byContradiction fun long => inBlocks ⟨some, long⟩)]
          exact noPanic_ok _
    exact {
      inodes
      blocks := resolve_noPanic (Opened.bounded accepted)
      files
      directories := fun n inode read => read_dir_noPanic (files n inode read)
      names := fun n inode name read => lookup_noPanic (files n inode read) name
      paths := fun path => open_from_noPanic inodes files ROOT_INODE (split path) }

/-- An inode whose size is the largest 64-bit number. -/
def hugeInode : Inode := { mapping (runBlock 3 1) with size := 18446744073709551615 }
/-- Its place in the inode table. -/
def hugeSlot : List (Nat × Bytes) := [(7680, Inode.record hugeInode 256)]

theorem huge_assembles : Assembles 8192 chainSuperblock 0 [chainDescriptor] hugeSlot := by
  have sized : (Inode.record hugeInode 256).size = 256 := Inode.size_record _ (by decide)
  apply nodes_assemble
  · simp only [spans, hugeSlot, List.map_cons, List.map_nil, span, sized]
    decide
  · simp only [spans, hugeSlot, List.map_cons, List.map_nil, span, sized]
    decide

/-- Rounding the size up to whole blocks overflows 64 bits, and reading the file panics. -/
theorem huge_panics : ∃ fs, open_image (nodesImage hugeSlot) = .ok fs ∧ read_inode fs 11 = .ok hugeInode ∧
    18446744073709551616 ≤ div_ceil hugeInode.size.toNat fs.superblock.block_size.toNat *
      fs.superblock.block_size.toNat ∧ read_file fs hugeInode = .error .panic := by
  have large : 18446744073709551616 ≤ div_ceil hugeInode.size.toNat (nodesOpen hugeSlot).superblock.block_size.toNat *
      (nodesOpen hugeSlot).superblock.block_size.toNat := by decide
  refine ⟨nodesOpen hugeSlot, open_assembled huge_assembles, ?_, large, ?_⟩
  · exact read_inode_part huge_assembles rfl (by decide) (by decide) (show [chainDescriptor][_]? = some chainDescriptor from rfl)
      (List.mem_singleton.mpr rfl) (by decide)
  · refine read_file_panics ⟨by decide, by decide⟩ (.inl ?_)
    rw [SizeOverflow]
    omega

/-! ### An image that is read without a panic -/

/-- A file whose only block is mapped by a leaf in block 7. -/
def mappedFile : Inode := { leafInode 0x81A4 1 2048 [] with block := .ofSlice (ofList (pointing 7)) 0 60 }
/-- The file, its directory and the leaf. -/
def mappedParts : List (Nat × Bytes) :=
  smallParts [255, 1] [2, 4] [(2, leafInode 0x41ED 2 2048 [⟨0, 1, 6, false⟩]), (11, mappedFile)]
    [(6, entryBytes (rootEntries [([97], 11)])), (7, (leafBlock [⟨0, 1, 8, false⟩]).bytes)]
def mappedState : Filesystem := smallState 7 14 mappedParts

theorem mapped_assembles : Assembles 32768 (smallSuperblock 7 14) 1 [smallGroup 7 14] mappedParts := by decide +kernel

/-- A place has 48 bits, and the distance from the first block of the extent comes on top. -/
theorem lands_low {fs : Filesystem} {logical steps place : Nat} {node_buf : Bytes}
    (lands : Lands fs logical steps node_buf (some place)) : place < 281474976710656 + logical := by
  generalize found : some place = result at lands
  induction lands with
  | leaf decoded =>
    obtain ⟨ext, hit, mapped⟩ := Option.bind_eq_some_iff.mp found.symm
    have address := decoded_leaf decoded ext (find_extent_some hit).1
    rw [ExtentMap.mapped] at mapped
    split at mapped
    · cases mapped
    · cases mapped
      omega
  | front => cases found
  | down decoded chosen read lands ih => exact ih found

/-- Blocks of at most 32 KiB are never mapped past 64 bits. -/
theorem addresses_fit {fs : Filesystem} (bounded : fs.superblock.block_size.toNat ≤ 32768) (inode : Inode) :
    ¬ AddressOverflow fs inode := by
  rintro ⟨logical, place, -, small, maps, past, -⟩
  have low : place ≤ 281474976710655 + 4294967296 := by
    have before := lands_low maps.2
    omega
  have product := Nat.mul_le_mul low bounded
  omega

/-- A directory and a file with an internal node are found and read, and no
    number of the image overflows. -/
theorem mapped_safe : open_image mappedState.reader = .ok mappedState ∧ open_path mappedState [SLASH, 97] = .ok 11 ∧
    read_inode mappedState 11 = .ok mappedFile ∧ resolve_logical_block mappedState mappedFile 0 = .ok (some 8) ∧
    SafeReads mappedState := by
  have opened : open_image mappedState.reader = .ok mappedState := small_opens mapped_assembles
  have accepted := opened_of opened
  have table : ¬ TableOverflow mappedState := by
    rintro ⟨n, offset, ⟨-, -, gd, group, rfl⟩, past⟩
    have within : (n.toNat - 1) % 16 < 16 := Nat.mod_lt _ (by decide)
    have only : gd = smallGroup 7 14 := List.mem_singleton.mp (List.mem_of_getElem? group)
    subst only
    change 18446744073709551616 ≤ 4 * 2048 + (n.toNat - 1) % 16 * 256 at past
    omega
  have sizes : (numbers mappedState).all (fun n =>
      (read_inode mappedState n).toOption.all (fun inode => decide (inode.size.toNat ≤ 2048))) = true := by decide +kernel
  refine ⟨opened, by decide +kernel, small_reads mapped_assembles (by decide) (by decide) (by simp [mappedParts, smallParts]),
    by decide +kernel, ((reads_safe_iff _).2 _ opened).mpr ?_⟩
  rintro (past | ⟨inode, stored, -, past | past⟩)
  · exact table past
  · obtain ⟨n, range, read⟩ := read_of_stored accepted table stored
    have small := List.all_eq_true.mp sizes n (mem_numbers.mpr range)
    rw [read] at small
    have one : div_ceil inode.size.toNat 2048 ≤ 1 := by
      rw [div_ceil]
      have bound := of_decide_eq_true small
      omega
    change 9223372036854775808 ≤ div_ceil inode.size.toNat 2048 * 2048 at past
    omega
  · exact addresses_fit (by decide) inode past

end Justext4.ReadSafety
