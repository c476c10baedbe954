import Justext4.Change
import Justext4.Images
import Justext4.Slots

/-!
The calls that change the permissions, the owner and the times of an inode. A
call decodes the slot, changes the fields it names and the change time, and
encodes the slot again; since the encoder starts from zeros, it leaves all else
as it was exactly where what it does not decode is zero.
-/
namespace Justext4.MetadataCalls
open Justext4 Justext4.Fallible Justext4.Fields Justext4.Filesystem Bytes
open Justext4.Superblock (Superblock)
open Justext4.GroupDescriptor (GroupDescriptor)
open Justext4.Inode
open Justext4.Change (mode_kept)
open Justext4.Volumes (in_u64_ok)
open Justext4.Slots
open Justext4.Images

/-- What is to be changed of an inode. -/
inductive Change where
  | chmod (mode : UInt16)
  | chown (uid gid : UInt32)
  | utime (atime mtime : UInt32)

def call (path : List UInt8) : Change → Call Unit
  | .chmod mode => chmod path mode
  | .chown uid gid => chown path uid gid
  | .utime atime mtime => utime path atime mtime

/-- The inode with the change made, and the time of it. -/
def changed (inode : Inode) : Change → Inode
  | .chmod mode => { inode with mode := (inode.mode &&& 0xF000) ||| (mode &&& 0o7777), ctime := METADATA_CTIME }
  | .chown uid gid => { inode with uid, gid, ctime := METADATA_CTIME }
  | .utime atime mtime => { inode with atime, mtime, ctime := METADATA_CTIME }

/-- The offsets and the widths of the fields that a change names. -/
def named : Change → List (Nat × Nat)
  | .chmod .. => [(OFF_MODE, 2)]
  | .chown .. => [(OFF_UID_LO, 2), (OFF_GID_LO, 2), (OFF_UID_HI, 2), (OFF_GID_HI, 2)]
  | .utime .. => [(OFF_ATIME, 4), (OFF_MTIME, 4)]
/-- The fields that a call may write: those that are named, and the change time. -/
def owned (change : Change) : List (Nat × Nat) := (OFF_CTIME, 4) :: named change

/-- Nothing of the image has changed but the fields that the call may write, and
    the kind of the inode is the same. -/
structure ChangesOnly (fs fs' : Filesystem) (offset : Nat) (change : Change) : Prop where
  size : fs'.reader.size = fs.reader.size
  bytes : ∀ i, fs'.reader.byte i ≠ fs.reader.byte i → ∃ f ∈ owned change, offset + f.1 ≤ i ∧ i < offset + f.1 + f.2
  kind : (inodeAt (slotBytes fs' offset)).mode &&& S_IFMT = (inodeAt (slotBytes fs offset)).mode &&& S_IFMT

section
variable {fs fs' : Filesystem} {path : List UInt8} {change : Change} {n : UInt32} {offset : Nat}

/-- The three calls differ in the change alone. -/
theorem call_eq (path : List UInt8) (change : Change) :
    call path change = (do
      let inode_num ← reads fun fs => open_path fs path
      let inode ← reads fun fs => read_inode fs inode_num
      write_inode inode_num (changed inode change)) := by
  cases change <;> rfl

theorem call_runs (ran : (call path change).run fs = .ok () fs') :
    ∃ n offset, open_path fs path = .ok n ∧ InSlot fs n offset ∧
      fs' = withSlot fs offset (changed (inodeAt (slotBytes fs offset)) change) := by
  rw [call_eq] at ran
  obtain ⟨n, opened, rest⟩ := reads_then_eq_ok.mp ran
  obtain ⟨inode, read, last⟩ := reads_then_eq_ok.mp rest
  obtain ⟨offset, slot, rfl⟩ := slot_of_read read
  rw [write_inode_run slot] at last
  exact ⟨n, offset, opened, slot, (Ended.ok.inj last).2.symm⟩

theorem owned_listed (change : Change) : ∀ f ∈ owned change, f ∈ fieldSpans := by
  cases change with
  | chmod => exact (by decide : ∀ f ∈ [(OFF_CTIME, 4), (OFF_MODE, 2)], f ∈ fieldSpans)
  | chown =>
    exact (by decide : ∀ f ∈ [(OFF_CTIME, 4), (OFF_UID_LO, 2), (OFF_GID_LO, 2), (OFF_UID_HI, 2), (OFF_GID_HI, 2)],
      f ∈ fieldSpans)
  | utime => exact (by decide : ∀ f ∈ [(OFF_CTIME, 4), (OFF_ATIME, 4), (OFF_MTIME, 4)], f ∈ fieldSpans)

/-- A field is the one that was read, unless the call may write it. -/
theorem changed_fields (inode : Inode) (change : Change) :
    ∀ f ∈ fields (changed inode change), f ∈ fields inode ∨ span f ∈ owned change := by
  cases change <;> simp [fields, changed, owned, named, span]

/-- The kind of an inode is in the four bits above the permissions. -/
theorem kind_kept (inode : Inode) (change : Change) : (changed inode change).mode &&& S_IFMT = inode.mode &&& S_IFMT := by
  cases change with
  | chmod mode => exact mode_kept inode.mode mode
  | chown => rfl
  | utime => rfl

/-- The bytes of the slot that the decoder does not read are zero. -/
def Blank (fs : Filesystem) (offset : Nat) : Prop :=
  ∀ k < fs.superblock.inode_size.toNat, ¬ Interpreted k → fs.reader.byte (offset + k) = 0

theorem changes_only_iff (slot : InSlot fs n offset) (change : Change) :
    ChangesOnly fs (withSlot fs offset (changed (inodeAt (slotBytes fs offset)) change)) offset change ↔
      Blank fs offset := by
  constructor
  · rintro ⟨-, bytes, -⟩ k inside gap
    refine Decidable.byContradiction fun other => ?_
    obtain ⟨f, member, low, high⟩ := bytes (offset + k) (by
      rw [byte_withSlot slot _ inside, record_gap gap]
      exact Ne.symm other)
    exact gap ⟨f, owned_listed change f member, by omega, by omega⟩
  · intro blank
    refine ⟨size_withSlot slot _, fun i differs => ?_, ?_⟩
    · by_cases outside : i < offset ∨ offset + fs.superblock.inode_size.toNat ≤ i
      case pos => exact absurd (byte_outside_slot slot _ outside) differs
      obtain ⟨k, rfl⟩ : ∃ k, i = offset + k := ⟨i - offset, by omega⟩
      have inside : k < fs.superblock.inode_size.toNat := by omega
      rw [byte_withSlot slot _ inside] at differs
      by_cases gap : Interpreted k
      case neg => exact absurd ((record_gap gap).trans (blank k inside gap).symm) differs
      -- The byte is one of a field, which is the old one or may be written.
      obtain ⟨s, listed, low, high⟩ := gap
      rw [← show _ = fieldSpans from spans (changed (inodeAt (slotBytes fs offset)) change)] at listed
      obtain ⟨f, member, rfl⟩ := List.mem_map.mp listed
      rcases changed_fields _ change f member with same | owns
      · rw [record_kept member same low high, slotBytes, byte_slice_of_lt _ inside] at differs
        exact absurd rfl differs
      · exact ⟨span f, owns, by omega, by omega⟩
    · rw [slot_withSlot slot, inodeAt_record]
      exact kind_kept _ change

/-- A call that returns has changed nothing but what it names, and the time,
    exactly when what the decoder does not read of the slot is zero. -/
theorem metadata_calls_exact (ran : (call path change).run fs = .ok () fs') :
    ∃ n offset, open_path fs path = .ok n ∧ InSlot fs n offset ∧
      (ChangesOnly fs fs' offset change ↔ Blank fs offset) := by
  obtain ⟨n, offset, opened, slot, rfl⟩ := call_runs ran
  exact ⟨n, offset, opened, slot, changes_only_iff slot change⟩
end

/-! ### The slot of the root on a small image -/

def rootSuperblock : Superblock := plain 1024 16 8 1 8192 16
def rootDescriptor : GroupDescriptor := ⟨3, 4, 5, 0, 0, 0, 0, 0⟩
/-- The slot of a directory with a byte of its own at offset 128. -/
def rootSlot (extra : UInt8) : Bytes :=
  ((zeros 256).patch 0 (ofList [0xED, 0x41])).patch 128 (ofList [extra])
def rootImage (extra : UInt8) : Bytes := assembled 8192 rootSuperblock 0 [rootDescriptor] [(5376, rootSlot extra)]
def rootOpen (extra : UInt8) : Filesystem := ⟨rootImage extra, rootSuperblock, [rootDescriptor]⟩

theorem root_assembles (extra : UInt8) :
    Assembles 8192 rootSuperblock 0 [rootDescriptor] [(5376, rootSlot extra)] where
  wide := rfl
  logged := rfl
  dynamic := by decide
  sized := by decide
  blocks := by decide
  free := by decide
  blockGroup := by decide
  inodeGroup := by decide
  groups := by decide
  narrow := by decide
  inside := rfl
  apart := (by decide : ([(1024, 1024), (2048, 32), (5376, 256)] : List (Nat × Nat)).Pairwise fun s t =>
    spansApart s t = true)

/-- The inode tables of the image are where its records say. -/
theorem root_slot {fs : Filesystem} (superblock : fs.superblock = rootSuperblock) (gdt : fs.gdt = [rootDescriptor])
    (size : fs.reader.size = 8192) : InSlot fs 2 5376 := by
  refine ⟨?_, ?_, ?_, ?_, ?_, ?_⟩
  · rw [superblock]
    decide
  · rw [superblock]
    decide
  · rw [superblock, gdt]
    decide
  · have counted : rootSuperblock.inodes_per_group ≠ 0 := by decide
    have group : gdt_at fs ((UInt32.toNat 2 - 1) / rootSuperblock.inodes_per_group.toNat) = .ok rootDescriptor := by
      rw [gdt_at, gdt]
      rfl
    rw [inode_offset, superblock, decide_eq_true counted, orPanic_true, res_bind_ok, group, res_bind_ok,
      in_u64_ok (by decide), res_bind_ok, in_u64_ok (by decide)]
    rfl
  · rw [superblock, size]
    decide
  · rw [superblock]
    decide
theorem root_open (extra : UInt8) : open_image (rootImage extra) = .ok (rootOpen extra) ∧ InSlot (rootOpen extra) 2 5376 ∧
    ∀ k < 256, (rootOpen extra).reader.byte (5376 + k) = (rootSlot extra).byte k := by
  have assembles := root_assembles extra
  have size : (rootImage extra).size = 8192 := by rw [rootImage, size_assembled assembles]
  refine ⟨open_assembled assembles, root_slot rfl rfl size, fun k inside => ?_⟩
  have placed : (5376, rootSlot extra) ∈ parts rootSuperblock 0 [rootDescriptor] [(5376, rootSlot extra)] := by
    simp [parts]
  have whole : (rootImage extra).slice 5376 256 = rootSlot extra := slice_part assembles placed
  rw [← whole, byte_slice_of_lt _ inside]
  rfl
theorem root_chmod (extra : UInt8) (mode : UInt16) : (call [SLASH] (.chmod mode)).run (rootOpen extra) =
    .ok () (withSlot (rootOpen extra) 5376 (changed (inodeAt (slotBytes (rootOpen extra) 5376)) (.chmod mode))) := by
  have slot := (root_open extra).2.1
  have opened : open_path (rootOpen extra) [SLASH] = .ok 2 := rfl
  rw [call_eq, run_bind, run_reads, opened, ofRes_ok, andThen_ok, run_bind, run_reads, read_inode_eq slot, ofRes_ok,
    andThen_ok, write_inode_run slot]

/-- Where the slot has nothing but what the decoder reads, `chmod` changes what
    it names. -/
theorem blank_chmod : ∃ fs', (chmod [SLASH] 0o700).run (rootOpen 0) = .ok () fs' ∧
    ChangesOnly (rootOpen 0) fs' 5376 (.chmod 0o700) := by
  obtain ⟨-, here, bytes⟩ := root_open 0
  obtain ⟨n, offset, opened, slot, blank⟩ := metadata_calls_exact (root_chmod 0 0o700)
  cases (show open_path (rootOpen 0) [SLASH] = .ok 2 from rfl).symm.trans opened
  cases here.found.symm.trans slot.found
  refine ⟨_, root_chmod 0 0o700, blank.mpr fun k inside gap => ?_⟩
  rw [bytes k inside]
  rw [interpreted_iff] at gap
  by_cases last : k = 128
  · rw [last]
    decide
  · have past : (ofList [(0 : UInt8)]).size = 1 := rfl
    have before : (ofList [(0xED : UInt8), 0x41]).size = 2 := rfl
    rw [rootSlot, byte_patch_outside _ (by omega), byte_patch_outside _ (by omega), byte_zeros]

/-- The byte at offset 128 of the slot is erased. -/
theorem extra_erased : ∃ fs fs', open_image (rootImage 32) = .ok fs ∧ (chmod [SLASH] 0o700).run fs = .ok () fs' ∧
    InSlot fs 2 5376 ∧ ¬ ChangesOnly fs fs' 5376 (.chmod 0o700) := by
  obtain ⟨opened, slot, bytes⟩ := root_open 32
  refine ⟨_, _, opened, root_chmod 32 0o700, slot, fun only => ?_⟩
  have erased := (changes_only_iff slot _).mp only 128 (by decide) (by decide)
  rw [bytes 128 (by decide)] at erased
  revert erased
  decide

end Justext4.MetadataCalls
