import Justext4.Creating
import Justext4.FlushedRecords
import Justext4.Refinement
import Justext4.TakenSpace

/-!
The records that an image holds. Between two calls the superblock and the
descriptors of the image are those in memory but for their counts: a call writes
past both of them until it writes them out, whether it returns or fails. So an
image can be opened again at any time.
-/
namespace Justext4.OnDisk
open Justext4 Justext4.Fallible Justext4.Fields Justext4.Filesystem Justext4.Volumes Bytes
open Justext4.Superblock (Superblock SUPERBLOCK_OFFSET SUPERBLOCK_SIZE)
open Justext4.GroupDescriptor (GroupDescriptor)
open Justext4.Inode (Inode)
open Justext4.Images (tableOffset)
open Justext4.Recounting
open Justext4.FlushedRecords
open Justext4.Nodes
open Justext4.Backing
open Justext4.Allocation
open Justext4.Create
open Justext4.Remove
open Justext4.Reading
open Justext4.Rename (directory_of_open)
open Justext4.Calls
open Justext4.FreeBytes
open Justext4.Entries (OneBlock)

/-- The records in memory agree with the geometry, and with those of the image
    but for their counts. -/
structure Recorded (g : Geometry) (fs : Filesystem) : Prop where
  static : Static g fs.superblock fs.gdt
  size : fs.reader.size = g.total * g.block_size
  loaded : Loaded fs

section
variable {g : Geometry} {fs fs' : Filesystem}

theorem static_recounted (static : Static g fs.superblock fs.gdt) (recounted : Recounted fs fs') :
    Static g fs'.superblock fs'.gdt := by
  obtain ⟨⟨blocks, inodes, counted⟩, same, -⟩ := recounted
  obtain ⟨gd, found, addresses⟩ := static.group0
  have length := same.length_eq
  have first : ∃ gd', fs'.gdt[0]? = some gd' ∧ SameGroup gd gd' := by
    generalize fs.gdt = before at found same
    generalize fs'.gdt = after at same ⊢
    cases same with
    | nil => cases found
    | cons head tail =>
      cases found
      exact ⟨_, rfl, head⟩
  obtain ⟨gd', found', _, _, _, rfl⟩ := first
  rw [counted]
  exact ⟨static.block_size, static.inode_size, static.inodes_count, static.blocks_count, static.inodes_per_group,
    static.narrow, static.first_data_block, static.rev_level, static.group_count, length ▸ static.length,
    _, found', addresses⟩

theorem entrySize_narrow (static : Static g fs.superblock fs.gdt) : entrySize fs = 32 :=
  GroupDescriptor.size_narrow static.narrow
theorem tableOffset_static (static : Static g fs.superblock fs.gdt) : tableOffset fs.superblock = g.block_size := by
  rw [tableOffset, static.first_data_block, static.block_size]
  show (0 + 1) * _ = _
  omega
theorem tableApart (static : Static g fs.superblock fs.gdt) (large : 2048 ≤ g.block_size) : TableApart fs := by
  right
  rw [tableOffset_static static]
  exact large

/-- What is in the first two blocks is the records. -/
theorem Recorded.congr (recorded : Recorded g fs) (large : 2048 ≤ g.block_size) (recounted : Recounted fs fs')
    (size : fs'.reader.size = fs.reader.size)
    (head : ∀ i, i < 2 * g.block_size → fs'.reader.byte i = fs.reader.byte i) : Recorded g fs' := by
  have static := static_recounted recorded.static recounted
  have slice : ∀ start len, start + len ≤ 2 * g.block_size → fs'.reader.slice start len = fs.reader.slice start len := by
    intro start len before
    refine ext_inside (by simp) fun i inside => ?_
    have short : i < len := by simpa using inside
    rw [byte_slice_of_lt _ short, byte_slice_of_lt _ short, head _ (by omega)]
  refine ⟨static, size.trans recorded.size, ?_⟩
  obtain ⟨⟨sb, _, _, decoded, loaded⟩, wide, entries⟩ := recorded.loaded
  obtain ⟨⟨blocks, inodes, counted⟩, same, -⟩ := recounted
  refine ⟨⟨sb, blocks, inodes, ?_, by rw [counted, loaded]⟩, fun _ => Nat.le_of_eq (entrySize_narrow static).symm,
    fun i gd' found' => ?_⟩
  · have bytes : superblockBytes fs' = superblockBytes fs :=
      slice _ _ (by rw [SUPERBLOCK_OFFSET, SUPERBLOCK_SIZE]; omega)
    rw [bytes]
    exact decoded
  · have length := same.length_eq
    have inside : i < fs.gdt.length := length ▸ (List.getElem?_eq_some_iff.mp found').1
    obtain ⟨gd, after, found, found'', group⟩ := recounted_entry ⟨⟨blocks, inodes, counted⟩, same, Nat.le_of_eq size.symm⟩ inside
    cases found'.symm.trans found''
    have table := g.table_inside
    have groups := recorded.static.length
    have bytes : entryBytes fs' i = entryBytes fs i := by
      rw [entryBytes, entryBytes, entrySize_narrow static, entrySize_narrow recorded.static, tableOffset_static static,
        tableOffset_static recorded.static]
      exact slice _ _ (by omega)
    have before := entries i gd found
    rw [entrySize_narrow recorded.static] at before
    rw [bytes, entrySize_narrow static]
    exact sameGroup_trans before group
end

/-! ### Rules -/

/-- None of the counts has gone up. -/
structure Fewer (gd gd' : GroupDescriptor) : Prop where
  blocks : gd'.free_blocks_count.toNat ≤ gd.free_blocks_count.toNat
  inodes : gd'.free_inodes_count.toNat ≤ gd.free_inodes_count.toNat
  dirs : gd'.used_dirs_count.toNat ≤ gd.used_dirs_count.toNat
structure Lowered (fs fs' : Filesystem) : Prop where
  blocks : fs'.superblock.free_blocks_count.toNat ≤ fs.superblock.free_blocks_count.toNat
  inodes : fs'.superblock.free_inodes_count.toNat ≤ fs.superblock.free_inodes_count.toNat
  group : ∀ gd', fs'.gdt[0]? = some gd' → ∃ gd, fs.gdt[0]? = some gd ∧ Fewer gd gd'

/-- What stays through writes past the first two blocks while no count goes up,
    and through writing the records out. -/
structure Lasting (g : Geometry) (kept : Filesystem → Prop) : Prop where
  large : 2048 ≤ g.block_size
  recorded : ∀ {fs}, kept fs → Recorded g fs
  past : ∀ {fs fs'}, kept fs → Recounted fs fs' → Lowered fs fs' → fs'.reader.size = fs.reader.size →
    (∀ i, i < 2 * g.block_size → fs'.reader.byte i = fs.reader.byte i) → kept fs'
  flushed : ∀ {fs fs'}, kept fs → flush_metadata.run fs = .ok () fs' → kept fs'

/-- However the call ends, what was kept still is. -/
abbrev Maintains {α : Type} (kept : Filesystem → Prop) (call : Call α) : Prop :=
  Follows (fun fs fs' => kept fs → kept fs') call

section
variable {α β : Type} {g : Geometry} {kept : Filesystem → Prop}

theorem Fewer.refl (gd : GroupDescriptor) : Fewer gd gd := ⟨Nat.le_refl _, Nat.le_refl _, Nat.le_refl _⟩
theorem lowered_same {fs fs' : Filesystem} (superblock : fs'.superblock = fs.superblock) (gdt : fs'.gdt = fs.gdt) :
    Lowered fs fs' := by
  constructor
  · rw [superblock]
  · rw [superblock]
  · exact fun gd found => ⟨gd, gdt ▸ found, .refl gd⟩
theorem less32 (n : UInt32) (c : Nat) : (UInt32.ofNat (n.toNat - c)).toNat ≤ n.toNat := by
  rw [UInt32.toNat_ofNat']
  exact Nat.le_trans (Nat.mod_le _ _) (Nat.sub_le _ _)
theorem less64 (n : UInt64) (c : Nat) : (UInt64.ofNat (n.toNat - c)).toNat ≤ n.toNat := by
  rw [UInt64.toNat_ofNat']
  exact Nat.le_trans (Nat.mod_le _ _) (Nat.sub_le _ _)

theorem maintains_reads (f : Filesystem → Res Ext4Error α) : Maintains kept (reads f) := follows_reads (fun _ => id) f
theorem maintains_pure (a : α) : Maintains kept (pure a : Call α) := follows_pure (fun _ => id) a
theorem maintains_bind {x : Call α} {f : α → Call β} (first : Maintains kept x) (later : ∀ a, Maintains kept (f a)) :
    Maintains kept (x >>= f) := follows_bind (fun _ _ _ first second before => second (first before)) first later
/-- What is read of such states is known in what comes after. -/
theorem maintains_read {f : Filesystem → Res Ext4Error α} (known : α → Prop) {next : α → Call β}
    (gives : ∀ fs a, kept fs → f fs = .ok a → known a) (later : ∀ a, known a → Maintains kept (next a)) :
    Maintains kept (reads f >>= next) := by
  constructor
  intro fs
  rw [run_bind, run_reads, within_andThen]
  refine within_ofRes (fun a value => ?_) fun _ _ => id
  by_cases before : kept fs
  · exact (later a (gives fs a before value)).ends fs
  · cases (next a).run fs with
    | ok _ _ => exact fun other => absurd other before
    | err _ _ => exact fun other => absurd other before
    | panic => trivial
theorem maintains_lift {r : Res Ext4Error α} {next : α → Call β} (later : ∀ a, r = .ok a → Maintains kept (next a)) :
    Maintains kept (lift r >>= next) := maintains_read _ (fun _ _ _ value => value) later

/-- The first descriptor gives the place of the bitmaps. -/
theorem bitmaps_known {fs : Filesystem} {gd : GroupDescriptor} (recorded : Recorded g fs) (found : gdt_at fs 0 = .ok gd) :
    gd.block_bitmap.toNat = 2 ∧ gd.inode_bitmap.toNat = 3 := by
  obtain ⟨gd', found', blocks, inodes, -⟩ := recorded.static.gdt_at fs.reader
  cases found.symm.trans found'
  rw [blocks, inodes]
  exact ⟨rfl, rfl⟩
theorem loaded_known {fs : Filesystem} {b : Nat} {loaded : Nat × Bytes} (recorded : Recorded g fs)
    (read : load_block fs b = .ok loaded) : loaded.1 = b * g.block_size ∧ loaded.2.size = g.block_size := by
  obtain ⟨place, -, bytes⟩ := @Releasing.load_block_inv _ _ loaded.1 loaded.2 read
  rw [recorded.static.block_size] at place
  refine ⟨place, ?_⟩
  rw [bytes]
  exact recorded.static.block_size
theorem redirect_dotdot_size {buf out : Bytes} {n : UInt32} (redirected : redirect_dotdot buf n = .ok out) :
    out.size = buf.size := by
  rw [redirect_dotdot] at redirected
  obtain ⟨visited, -, redirected⟩ := res_bind_eq_ok.mp redirected
  obtain ⟨⟨cursor, entry⟩, -, redirected⟩ := res_bind_eq_ok.mp redirected
  exact DirEntry.encode_range_size (liftErr_eq_ok.mp redirected)

variable (lasting : Lasting g kept)
include lasting

/-- A write past the first two blocks leaves the records. -/
theorem maintains_write_at {offset : Nat} {src : Bytes} (past : 2 * g.block_size ≤ offset)
    (inside : offset + src.size ≤ g.total * g.block_size) : Maintains kept (write_at offset src) := by
  refine follows_change fun fs before => lasting.past before ?_ (lowered_same rfl rfl) ?_ fun i first => ?_
  · exact (keeps_write_at offset src).ends fs |>.ok rfl
  · exact size_patch _ _ _ (by rw [(lasting.recorded before).size]; exact inside)
  · exact byte_patch_outside _ (by omega)
theorem maintains_gdt0 {f : GroupDescriptor → GroupDescriptor} (same : ∀ gd, SameGroup gd (f gd))
    (fewer : ∀ gd, Fewer gd (f gd)) : Maintains kept (change_gdt0 f) := by
  refine follows_change fun fs before => lasting.past before ((keeps_gdt0 same).ends fs |>.ok rfl) ?_ rfl fun _ _ => rfl
  refine ⟨Nat.le_refl _, Nat.le_refl _, fun gd' found => ?_⟩
  obtain ⟨gd, there, rfl⟩ := group_change found
  exact ⟨gd, there, fewer gd⟩
theorem maintains_free_inodes (c : Nat) :
    Maintains kept (change_gdt0 (on_free_inodes (· - c))) ∧ Maintains kept (change_superblock (on_all_free_inodes (· - c))) :=
  ⟨maintains_gdt0 lasting (fun _ => ⟨_, _, _, rfl⟩) fun _ => ⟨Nat.le_refl _, less32 _ c, Nat.le_refl _⟩,
    follows_change fun fs before => lasting.past before ((keeps_free_inodes _).ends fs |>.ok rfl)
      ⟨Nat.le_refl _, less32 _ c, fun gd found => ⟨gd, found, .refl gd⟩⟩ rfl fun _ _ => rfl⟩
theorem maintains_free_blocks (c : Nat) :
    Maintains kept (change_gdt0 (on_free_blocks (· - c))) ∧ Maintains kept (change_superblock (on_all_free_blocks (· - c))) :=
  ⟨maintains_gdt0 lasting (fun _ => ⟨_, _, _, rfl⟩) fun _ => ⟨less32 _ c, Nat.le_refl _, Nat.le_refl _⟩,
    follows_change fun fs before => lasting.past before ((keeps_free_blocks _).ends fs |>.ok rfl)
      ⟨less64 _ c, Nat.le_refl _, fun gd found => ⟨gd, found, .refl gd⟩⟩ rfl fun _ _ => rfl⟩
omit lasting

/-! ### The parts of the calls -/

variable {n : UInt32} {block : Nat} {inode : Inode} {name : List UInt8} {code : UInt8}

/-- Recorded states can be written out. -/
theorem flush_recorded {fs : Filesystem} (recorded : Recorded g fs) (large : 2048 ≤ g.block_size) :
    ∃ fs', flush_metadata.run fs = .ok () fs' ∧ Recorded g fs' := by
  obtain ⟨fs', ran, holds, -⟩ := flush_metadata_ok (Start.holds_volumeOf recorded.static recorded.size) large
  obtain ⟨log, known⟩ := log_known recorded.static
  obtain ⟨r, ran', written⟩ := flush_run known (fun _ => Nat.le_of_eq (entrySize_narrow recorded.static).symm)
    (tableApart recorded.static large)
  have same : fs' = { fs with reader := r } := by
    rw [ran] at ran'
    exact (Ended.ok.inj ran').2
  refine ⟨fs', ran, holds.static', holds.size, ?_⟩
  rw [same]
  exact loaded_flushed recorded.loaded (recounted_refl fs) known written

include lasting

theorem maintains_flush : Maintains kept flush_metadata := by
  constructor
  intro fs
  by_cases before : kept fs
  · obtain ⟨fs', ran, -⟩ := flush_recorded (lasting.recorded before) lasting.large
    rw [ran]
    exact fun _ => lasting.flushed before ran
  · cases flush_metadata.run fs with
    | ok _ _ => exact fun other => absurd other before
    | err _ _ => exact fun other => absurd other before
    | panic => trivial

theorem maintains_write_inode (n : UInt32) (inode : Inode) :
    Maintains kept (write_inode n inode) := by
  refine maintains_read (fun _ => 1 ≤ n.toNat ∧ n.toNat ≤ g.inodes) (fun fs _ before number => ?_)
    fun _ listed => ?_
  · exact (inode_in_range (lasting.recorded before).static).mp (of_decide_eq_true (ensure_eq_ok.mp number))
  refine maintains_read (fun offset => offset = slotOffset g n) (fun fs _ before found => ?_) fun offset place => ?_
  · rw [inode_offset_ok (lasting.recorded before).static listed.1 listed.2] at found
    exact (Except.ok.inj found).symm
  refine maintains_read (fun buf => buf.size = 256) (fun fs buf before encoded => ?_) fun buf size => ?_
  · have sized := (lasting.recorded before).static.inode_size
    rw [sized, Inode.encode_ok inode sized (by decide), liftErr_ok] at encoded
    rw [← Except.ok.inj encoded]
    exact Inode.size_record inode (by decide)
  subst place
  have inodes := g.inodes_high
  have fits := slot_end (g := g) listed.1 (by omega)
  have before : g.root * g.block_size ≤ g.total * g.block_size := Nat.mul_le_mul_right _ (Nat.le_of_lt g.root_inside)
  have low : 2 * g.block_size ≤ slotOffset g n := by
    rw [slotOffset]
    omega
  exact maintains_write_at lasting low (by omega)

/-- A block that is read and written back with the same size is inside. -/
theorem maintains_write_block {b : Nat} (low : 2 ≤ b) (high : b < g.total) {offset : Nat}
    {src : Bytes} (place : offset = b * g.block_size) (size : src.size = g.block_size) :
    Maintains kept (write_at offset src) := by
  subst place
  have fits := g.block_inside high
  exact maintains_write_at lasting (Nat.mul_le_mul_right _ low) (by rw [size]; exact fits)

theorem maintains_allocate_inode : Maintains kept allocate_inode := by
  refine maintains_read (fun gd => gd.inode_bitmap.toNat = 3)
    (fun fs gd before found => (bitmaps_known (lasting.recorded before) found).2) fun gd place => ?_
  refine maintains_read (fun loaded => loaded.1 = 3 * g.block_size ∧ loaded.2.size = g.block_size)
    (fun fs loaded before read => place ▸ loaded_known (lasting.recorded before) read) fun (offset, buf) known => ?_
  refine maintains_bind (maintains_reads _) fun bit => maintains_lift fun buf' set => ?_
  have size : buf'.size = g.block_size := by
    by_cases within : bit < 8 * buf.size
    · obtain ⟨_, ran, size, -⟩ := Bitmap.set_bit_ok (ε := Ext4Error) buf bit within
      cases set.symm.trans ran
      exact size.trans known.2
    · rw [Bitmap.set_bit_panic (Nat.le_of_not_lt within)] at set
      cases set
  refine maintains_bind (maintains_write_block lasting (by decide) (bitmaps_inside g) known.1 size) fun _ => ?_
  obtain ⟨group, superblock⟩ := maintains_free_inodes lasting 1
  exact maintains_bind group fun _ => maintains_bind superblock fun _ => maintains_pure _
theorem maintains_allocate_blocks (count : Nat) :
    Maintains kept (allocate_blocks_contiguous count) := by
  unfold allocate_blocks_contiguous
  split
  · exact maintains_pure _
  refine maintains_read (fun gd => gd.block_bitmap.toNat = 2)
    (fun fs gd before found => (bitmaps_known (lasting.recorded before) found).1) fun gd place => ?_
  refine maintains_read (fun loaded => loaded.1 = 2 * g.block_size ∧ loaded.2.size = g.block_size)
    (fun fs loaded before read => place ▸ loaded_known (lasting.recorded before) read) fun (offset, buf) known => ?_
  refine maintains_bind (maintains_reads _) fun start => maintains_lift fun buf' set => ?_
  have size : buf'.size = g.block_size := (Creating.set_run_inv set (by omega)).2.1.trans known.2
  have inside := bitmaps_inside g
  refine maintains_bind (maintains_write_block lasting (by decide) (by omega) known.1 size) fun _ => ?_
  obtain ⟨group, superblock⟩ := maintains_free_blocks lasting count
  exact maintains_bind group fun _ => maintains_bind superblock fun _ => maintains_pure _

/-- The first block of a directory of one block is written back. -/
theorem maintains_edit (one : OneBlock g inode block) (edit : Bytes → Res Ext4Error Bytes)
    (same : ∀ buf out, edit buf = .ok out → out.size = buf.size) : Maintains kept (Agreement.edit_block inode edit) := by
  refine maintains_read (fun loaded => loaded.1 = block * g.block_size ∧ loaded.2.size = g.block_size)
    (fun fs loaded before read => ?_) fun (offset, buf) known => maintains_lift fun buf' edited => ?_
  · have recorded := lasting.recorded before
    rw [Entries.first_block_ok (Start.holds_volumeOf recorded.static recorded.size) one] at read
    rw [← Except.ok.inj read]
    exact ⟨rfl, size_slice _ _ _⟩
  · have low : 2 ≤ block := Nat.le_trans (by rw [Geometry.root]; omega) one.low
    exact maintains_write_block lasting low one.high known.1 ((same buf buf' edited).trans known.2)
theorem maintains_add_dir_entry (one : OneBlock g inode block) (name : List UInt8)
    (n : UInt32) (code : UInt8) : Maintains kept (add_dir_entry inode name n code) :=
  maintains_edit lasting one (fun buf => insert_entry buf name n code) fun _ _ => Creating.insert_entry_size
theorem maintains_remove_dir_entry (one : OneBlock g inode block) (n : UInt32)
    (name : List UInt8) : Maintains kept (remove_dir_entry inode n name) :=
  maintains_edit lasting one (fun buf => erase_entry buf n name) fun _ _ => Unlinking.erase_entry_size
theorem maintains_update_dotdot (one : OneBlock g inode block) (n : UInt32) :
    Maintains kept (update_dotdot inode n) :=
  maintains_edit lasting one (fun buf => redirect_dotdot buf n) fun _ _ => redirect_dotdot_size

theorem maintains_move_entry {p q : UInt32} {old new src : Inode} {block' : Nat}
    (one : OneBlock g old block) (one' : OneBlock g new block')
    (inner : Inode.is_directory src = true → ∃ b, OneBlock g src b) (old_name new_name : List UInt8) (n : UInt32)
    (code : UInt8) : Maintains kept (move_entry p q old new old_name new_name n src code) := by
  refine maintains_bind (maintains_add_dir_entry lasting one' ..) fun _ => ?_
  have single : ∃ b, OneBlock g (if p = q then new else old) b := by
    split
    · exact ⟨block', one'⟩
    · exact ⟨block, one⟩
  obtain ⟨b, single⟩ := single
  refine maintains_bind (maintains_remove_dir_entry lasting single ..) fun _ => ?_
  dsimp only
  split
  · rename_i both
    obtain ⟨b, single⟩ := inner both.2
    refine maintains_bind (maintains_update_dotdot lasting single _) fun _ => maintains_lift fun _ _ => ?_
    refine maintains_bind (maintains_write_inode lasting ..) fun _ => ?_
    exact maintains_bind (maintains_write_inode lasting ..) fun _ => maintains_flush lasting
  · exact maintains_flush lasting
end

/-! ### The calls -/

theorem lasting_recorded {g : Geometry} (large : 2048 ≤ g.block_size) : Lasting g (Recorded g) where
  large := large
  recorded := id
  past recorded recounted _ size head := recorded.congr large recounted size head
  flushed recorded ran := by
    obtain ⟨fs', ran', recorded'⟩ := flush_recorded recorded large
    cases ran.symm.trans ran'
    exact recorded'

/-- A call that returns is done, and one that fails leaves what was kept. -/
def Ends {α : Type} (done kept : Filesystem → Prop) (r : Ended Filesystem Ext4Error α) : Prop :=
  r.Within (fun _ fs => done fs) fun _ fs => kept fs

section
variable {α β : Type} {g : Geometry} {done kept : Filesystem → Prop} {v : Volume} {N : NodeMap} {fs : Filesystem}

theorem ends_of_maintains {call : Call α} (gives : ∀ {fs}, kept fs → done fs) (maintains : Maintains kept call)
    (before : kept fs) : Ends done kept (call.run fs) :=
  (maintains.ends fs).mono (fun _ _ after => gives (after before)) fun _ _ after => after before
theorem ends_bind {call : Call β} {next : β → Call α} {b : β} {fs' : Filesystem} (ran : call.run fs = .ok b fs')
    (later : Ends done kept ((next b).run fs')) : Ends done kept ((call >>= next).run fs) := by
  rw [run_bind, ran]
  exact later
theorem ends_bind_err {call : Call β} {next : β → Call α} {e : Ext4Error} {fs' : Filesystem}
    (ran : call.run fs = .err e fs') (before : kept fs') : Ends done kept ((call >>= next).run fs) := by
  rw [run_bind, ran]
  exact before
theorem ends_read {f : Filesystem → Res Ext4Error β} {next : β → Call α} (before : kept fs)
    (later : ∀ b, f fs = .ok b → Ends done kept ((next b).run fs)) : Ends done kept ((reads f >>= next).run fs) := by
  rw [run_bind, run_reads]
  exact within_andThen.mpr (within_ofRes later fun _ _ => before)
theorem ends_under {path : List UInt8} {next : UInt32 → Inode → List UInt8 → Call α} (holds : Holds g v fs)
    (consistent : Consistent g v N) (before : kept fs)
    (later : ∀ name p block, OneBlock g (v.slot p) block → Ends done kept ((next p (v.slot p) name).run fs)) :
    Ends done kept ((under path next).run fs) := by
  rcases under_ends path holds consistent next with ⟨-, e, refused⟩ | ⟨_, name, p, block, _, _, place, ran⟩
  · rw [refused]
    exact before
  · rw [ran]
    exact later name p block (Entries.oneBlock (consistent.sound place.directory.found))
theorem ends_numbered {call : Call UInt32} (ends : Ends done kept (call.run fs)) : Ends done kept ((numbered call).run fs) := by
  rw [numbered, run_bind]
  exact within_andThen.mpr ends
theorem ends_silent {call : Call Unit} (ends : Ends done kept (call.run fs)) : Ends done kept ((silent call).run fs) := by
  rw [silent, run_bind]
  exact within_andThen.mpr ends

variable {inode : Inode} {block : Nat}

/-- The end of the calls that create a file or a link. -/
theorem maintains_enter (lasting : Lasting g kept) (one : OneBlock g inode block) (name : List UInt8) (n : UInt32)
    (code : UInt8) : Maintains kept (do add_dir_entry inode name n code; flush_metadata; pure n : Call UInt32) :=
  maintains_bind (maintains_add_dir_entry lasting one name n code) fun _ =>
    maintains_bind (maintains_flush lasting) fun _ => maintains_pure _

theorem create_file_at_ends (lasting : Lasting g kept) (holds : Holds g v fs) (consistent : Consistent g v N)
    (before : kept fs) (one : OneBlock g inode block) {data : Bytes}
    (few : div_ceil data.size g.block_size < 4294967296) (name : List UInt8) :
    Ends (Recorded g) kept ((create_file_at data inode name).run fs) := by
  refine ends_read before fun _ read => ?_
  cases read
  rw [(lasting.recorded before).static.block_size]
  rcases allocate_fresh holds consistent with ⟨-, -, full⟩ | ⟨n, fs₁, fresh, taken, holds₁⟩
  · exact ends_bind_err full before
  have before₁ := ((maintains_allocate_inode lasting).ends fs).ok taken before
  refine ends_bind taken ?_
  rcases allocate_run holds₁ (consistent.spared (Wasted.inode fresh).spared)
    (div_ceil data.size g.block_size % 4294967296) with
    ⟨-, e, full⟩ | ⟨panicked, -⟩ | ⟨start, fs₂, low, high, -, ran, -⟩
  · exact ends_bind_err full before₁
  · rw [run_bind, panicked]
    trivial
  rw [Nat.mod_eq_of_lt few] at low high
  have before₂ := ((maintains_allocate_blocks lasting _).ends fs₁).ok ran before₁
  refine ends_bind ran (ends_of_maintains lasting.recorded ?_ before₂)
  refine maintains_lift fun tree _ => maintains_bind (maintains_write_inode lasting ..) fun _ => ?_
  split
  · rename_i some
    refine maintains_lift fun buf copied => maintains_lift fun offset value => ?_
    obtain rfl := TakenSpace.in_u64_eq value
    have size : buf.size = div_ceil data.size g.block_size * g.block_size := TakenSpace.copy_size copied
    have root : 2 ≤ start := Nat.le_trans (by rw [Geometry.root]; omega) (low some)
    have inside : (start + div_ceil data.size g.block_size) * g.block_size ≤ g.total * g.block_size :=
      Nat.mul_le_mul_right _ (Nat.le_trans high g.limit_total)
    rw [Nat.add_mul] at inside
    refine maintains_bind (maintains_write_at lasting (Nat.mul_le_mul_right _ root) (by omega)) fun _ => ?_
    exact maintains_enter lasting one ..
  · exact maintains_enter lasting one ..
theorem symlink_at_ends (lasting : Lasting g kept) (before : kept fs) (one : OneBlock g inode block)
    (target : Bytes) (name : List UInt8) : Ends (Recorded g) kept ((symlink_at target inode name).run fs) := by
  refine ends_of_maintains lasting.recorded (maintains_bind (maintains_allocate_inode lasting) fun n => ?_) before
  refine maintains_lift fun bytes _ => maintains_bind (maintains_write_inode lasting ..) fun _ => ?_
  exact maintains_enter lasting one ..

/-- One more directory is counted, and the records are written out. -/
theorem count_dir_ends {n : UInt32} (recorded : Recorded g fs) (large : 2048 ≤ g.block_size) :
    Ends (Recorded g) kept ((do change_gdt0 (on_used_dirs (· + 1)); flush_metadata; pure n : Call UInt32).run fs) := by
  have counted : Recorded g { fs with gdt := on_group0 (on_used_dirs (· + 1)) fs.gdt } :=
    recorded.congr large ((keeps_gdt0 (f := on_used_dirs (· + 1)) fun _ => ⟨_, _, _, rfl⟩).ends fs |>.ok rfl) rfl fun _ _ => rfl
  obtain ⟨fs', ran, recorded'⟩ := flush_recorded counted large
  refine ends_bind rfl (ends_bind ran ?_)
  exact recorded'
theorem ends_step {call : Call β} {next : β → Call α} (maintains : Maintains kept call) (before : kept fs)
    (later : ∀ b fs', kept fs' → Ends done kept ((next b).run fs')) : Ends done kept ((call >>= next).run fs) := by
  rw [run_bind]
  exact within_andThen.mpr ((maintains.ends fs).mono (fun b fs' after => later b fs' (after before)) fun _ _ after => after before)

theorem mkdir_at_ends (lasting : Lasting g kept) (holds : Holds g v fs) (consistent : Consistent g v N) (before : kept fs)
    (one : OneBlock g inode block) (p : UInt32) (name : List UInt8) : Ends (Recorded g) kept ((mkdir_at p inode name).run fs) := by
  refine ends_read before fun _ read => ?_
  cases read
  rw [(lasting.recorded before).static.block_size]
  rcases allocate_fresh holds consistent with ⟨-, -, full⟩ | ⟨n, fs₁, fresh, taken, holds₁⟩
  · exact ends_bind_err full before
  have before₁ := ((maintains_allocate_inode lasting).ends fs).ok taken before
  refine ends_bind taken ?_
  rcases allocate_run holds₁ (consistent.spared (Wasted.inode fresh).spared) 1 with
    ⟨-, e, full⟩ | ⟨panicked, -⟩ | ⟨start, fs₂, low, high, -, ran, -⟩
  · exact ends_bind_err full before₁
  · rw [run_bind, panicked]
    trivial
  have before₂ := ((maintains_allocate_blocks lasting _).ends fs₁).ok ran before₁
  have root : 2 ≤ start := Nat.le_trans (by rw [Geometry.root]; omega) (low Nat.one_pos)
  have inside : start < g.total := Nat.lt_of_lt_of_le high g.limit_total
  refine ends_bind ran (ends_read before₂ fun tree _ => ?_)
  refine ends_step (maintains_write_inode lasting ..) before₂ fun _ fs₃ before₃ => ?_
  refine ends_read before₃ fun _ narrow => ends_read before₃ fun mid dot => ends_read before₃ fun data dotdot => ?_
  refine ends_read before₃ fun offset value => ?_
  rw [liftErr_eq_ok] at dot dotdot
  have size := TakenSpace.dots_size g.known (of_decide_eq_true (orPanic_eq_ok.mp narrow)) dot dotdot
  refine ends_step (maintains_write_block lasting root inside (TakenSpace.in_u64_eq value) size) before₃ fun _ fs₄ before₄ => ?_
  refine ends_step (maintains_add_dir_entry lasting one name n 2) before₄ fun _ fs₅ before₅ => ends_read before₅ fun _ _ => ?_
  refine ends_step (maintains_write_inode lasting ..) before₅ fun _ fs₆ before₆ => ends_read before₆ fun _ _ => ?_
  exact count_dir_ends (lasting.recorded before₆) lasting.large

/-- A call that returns and has written the records out, if it has changed anything. -/
theorem flushed_ends {call : Call α} (may : MayFlush call) (recorded : Recorded g fs) (large : 2048 ≤ g.block_size)
    {a : α} {fs' : Filesystem} (ran : call.run fs = .ok a fs') (size : fs'.reader.size = g.total * g.block_size) :
    Recorded g fs' := by
  rcases (may.ends fs).ok ran with rfl | ⟨mid, recounted, flushed⟩
  · exact recorded
  have static := static_recounted recorded.static recounted
  obtain ⟨log, known⟩ := log_known static
  obtain ⟨r, flushed', written⟩ := flush_run known (fun _ => Nat.le_of_eq (entrySize_narrow static).symm)
    (tableApart static large)
  rw [flushed] at flushed'
  cases flushed'
  exact ⟨static, size, loaded_flushed recorded.loaded recounted known written⟩

theorem removal_recorded {kind : Node → Prop} {call : Call Unit} {path : List UInt8} (closes : Flushing call)
    (recorded : Recorded g fs) (large : 2048 ≤ g.block_size) (ended : Removal g v N fs path kind (call.run fs)) :
    Ends (Recorded g) (Recorded g) (call.run fs) := by
  cases ran : call.run fs with
  | ok _ fs' =>
    rw [ran] at ended
    cases ended with
    | removed _ _ holds' => exact flushed_ends (mayEnd_of_ends closes) recorded large ran holds'.size
  | err e fs' =>
    rw [ran] at ended
    cases ended
    exact recorded
  | panic => trivial
theorem unlink_recorded (holds : Holds g v fs) (consistent : Consistent g v N) (recorded : Recorded g fs)
    (large : 2048 ≤ g.block_size) (path : List UInt8) : Ends (Recorded g) (Recorded g) ((unlink path).run fs) :=
  removal_recorded (flushing_unlink path) recorded large (unlink_ends holds consistent path)
theorem truncate_recorded (holds : Holds g v fs) (consistent : Consistent g v N) (recorded : Recorded g fs)
    (large : 2048 ≤ g.block_size) (path : List UInt8) (new_size : UInt64) :
    Ends (Recorded g) (Recorded g) ((Filesystem.truncate path new_size).run fs) := by
  have ended := Change.truncate_ends holds consistent path new_size
  cases ran : (Filesystem.truncate path new_size).run fs with
  | ok _ fs' =>
    rw [ran] at ended
    cases ended with
    | same => exact recorded
    | changed holds' => exact flushed_ends (mayFlush_truncate path new_size) recorded large ran holds'.size
  | err e fs' =>
    rw [ran] at ended
    cases ended
    exact recorded
  | panic => trivial
theorem maintains_with_inode_mut (lasting : Lasting g kept) (path : List UInt8) (mutate : Inode → Inode) :
    Maintains kept (with_inode_mut path mutate) :=
  maintains_bind (maintains_reads _) fun _ => maintains_bind (maintains_reads _) fun _ => maintains_write_inode lasting ..

/-- A rename keeps what the removal at its destination keeps. -/
theorem rename_kept (lasting : Lasting g kept) (holds : Holds g v fs) (consistent : Consistent g v N) (before : kept fs)
    (old_path new_path : List UInt8)
    (unlinked : ∀ parent_path name, split_path new_path = .ok (parent_path, name) →
      Ends kept kept ((unlink (join_path parent_path name)).run fs)) :
    Ends kept kept ((rename old_path new_path).run fs) := by
  refine ends_read before fun old_halves _ => ends_read before fun (new_parent_path, new_name) split => ?_
  refine ends_read before fun (p, inode) opened => ?_
  obtain ⟨block, parent, kids, directory, rfl⟩ := directory_of_open holds consistent opened
  have one := Entries.oneBlock (consistent.sound directory.found)
  refine ends_read before fun m looked => ?_
  have live := lookup_live holds consistent directory.found looked
  refine ends_read before fun _ _ => ends_read before fun src_inode read => ?_
  obtain rfl := inode_of_read holds consistent live read
  refine ends_read before fun code _ => ends_read before fun (p', inode') opened' => ?_
  obtain ⟨block', parent', kids', directory', rfl⟩ := directory_of_open holds consistent opened'
  have found' := directory'.found
  have inner : Inode.is_directory (v.slot m) = true → ∃ b, OneBlock g (v.slot m) b := by
    intro directory
    obtain ⟨x, here⟩ := Option.ne_none_iff_exists'.mp live
    rw [(types_of_node (consistent.sound here).backed).1] at directory
    cases x with
    | dir b q ks => exact ⟨b, Entries.oneBlock (consistent.sound here)⟩
    | file => cases directory
    | link => cases directory
  refine ends_read before fun dst _ => ?_
  cases dst with
  | Source => exact before
  | Free =>
    exact ends_of_maintains id (maintains_move_entry lasting one (Entries.oneBlock (consistent.sound found')) inner ..) before
  | Replaced =>
    have unlinked := unlinked _ _ split
    have ended := unlink_ends holds consistent (join_path new_parent_path new_name)
    cases ran : (unlink (join_path new_parent_path new_name)).run fs with
    | err e fs' => exact ends_bind_err ran (unlinked.err ran)
    | panic =>
      rw [run_bind, ran]
      trivial
    | ok _ fs' =>
      rw [ran] at ended
      cases ended with
      | removed _ _ holds' _ pruned file =>
        have before' := unlinked.ok ran
        refine ends_bind ran (ends_read before' fun inode read' => ?_)
        -- The directory that is read again has its block as before.
        obtain ⟨ks, there⟩ := dir_without found' pruned.here file _ _
        rw [← pruned.nodes] at there
        have one' : OneBlock g inode block' := by
          rw [inode_of_read holds' pruned.consistent (live_of there) read']
          exact Entries.oneBlock (pruned.consistent.sound there)
        have single : ∃ b, OneBlock g (if p = p' then inode else v.slot p) b := by
          split
          · exact ⟨block', one'⟩
          · exact ⟨block, one⟩
        obtain ⟨b, single⟩ := single
        exact ends_of_maintains id (maintains_move_entry lasting single one' inner ..) before'
theorem rename_recorded (holds : Holds g v fs) (consistent : Consistent g v N) (recorded : Recorded g fs)
    (large : 2048 ≤ g.block_size) (old_path new_path : List UInt8) :
    Ends (Recorded g) (Recorded g) ((rename old_path new_path).run fs) :=
  rename_kept (lasting_recorded large) holds consistent recorded old_path new_path fun _ _ _ =>
    unlink_recorded holds consistent recorded large _

/-- The calls that make an inode. -/
def Adds : Request → Prop
  | .create_file .. | .mkdir .. | .symlink .. => True
  | _ => False

/-- What is kept is kept by a call that makes an inode and fails. -/
theorem adds_ends (lasting : Lasting g kept) (holds : Holds g v fs) (consistent : Consistent g v N) (before : kept fs)
    {request : Request} (adds : Adds request) (admissible : Admissible fs request) :
    Ends (Recorded g) kept ((execute request).run fs) := by
  cases request with
  | create_file path data =>
    rw [Admissible, holds.static'.block_size] at admissible
    have few : div_ceil data.size g.block_size < 4294967296 := by
      rcases admissible with small | ⟨-, small⟩ <;> omega
    rw [execute, create_file_eq]
    exact ends_numbered (ends_under holds consistent before fun name p block one =>
      create_file_at_ends lasting holds consistent before one few name)
  | mkdir path =>
    rw [execute, mkdir_eq]
    exact ends_numbered (ends_under holds consistent before fun name p block one =>
      mkdir_at_ends lasting holds consistent before one p name)
  | symlink link_path target =>
    rw [execute, symlink_eq]
    refine ends_numbered (ends_read before fun _ _ => ends_read before fun _ _ => ?_)
    exact ends_under holds consistent before fun name p block one => symlink_at_ends lasting before one target name
  | _ => exact adds.elim

/-- What every call leaves of the records, whether it returns or fails. -/
theorem execute_recorded (holds : Holds g v fs) (consistent : Consistent g v N) (recorded : Recorded g fs)
    (large : 2048 ≤ g.block_size) {request : Request} (admissible : Admissible fs request) :
    Ends (Recorded g) (Recorded g) ((execute request).run fs) := by
  have lasting := lasting_recorded large
  cases request with
  | unlink path => exact ends_silent (unlink_recorded holds consistent recorded large path)
  | rmdir path =>
    exact ends_silent (removal_recorded (flushing_rmdir path) recorded large (rmdir_ends holds consistent path admissible))
  | rename old_path new_path => exact ends_silent (rename_recorded holds consistent recorded large old_path new_path)
  | truncate path new_size => exact ends_silent (truncate_recorded holds consistent recorded large path new_size)
  | chmod path mode => exact ends_silent (ends_of_maintains lasting.recorded (maintains_with_inode_mut lasting ..) recorded)
  | chown path uid gid => exact ends_silent (ends_of_maintains lasting.recorded (maintains_with_inode_mut lasting ..) recorded)
  | utime path atime mtime => exact ends_silent (ends_of_maintains lasting.recorded (maintains_with_inode_mut lasting ..) recorded)
  | _ => exact adds_ends lasting holds consistent recorded trivial admissible
end

/-! ### Opening again -/

section
variable {g : Geometry} {v : Volume} {N : NodeMap} {fs : Filesystem}

theorem opens_recorded (recorded : Recorded g fs) (large : 2048 ≤ g.block_size) :
    ∃ sb gdt, open_image fs.reader = .ok ⟨fs.reader, sb, gdt⟩ ∧ Static g sb gdt := by
  have static := recorded.static
  obtain ⟨⟨sb, blocks, inodes, decoded, counted⟩, -, entries⟩ := recorded.loaded
  have root := g.root_inside
  have one := g.one_group
  have low := g.inodes_low
  have high := g.inodes_high
  have table := g.table_inside
  have two : 2 * g.block_size ≤ g.total * g.block_size := Nat.mul_le_mul_right _ (by omega)
  have size := recorded.size
  rw [counted] at static
  have group_count : (Superblock.group_count sb).toNat = g.groups := static.group_count
  have start : (sb.first_data_block.toNat + 1) * sb.block_size.toNat = g.block_size := by
    have first : sb.first_data_block = 0 := static.first_data_block
    have sized : sb.block_size.toNat = g.block_size := static.block_size
    rw [first, sized]
    show (0 + 1) * _ = _
    omega
  have grouped : sb.blocks_per_group ≠ 0 := by
    intro zero
    rw [Superblock.group_count, if_pos zero] at group_count
    have none : g.groups = 0 := group_count.symm
    omega
  have numbered : sb.inodes_per_group ≠ 0 := by
    intro zero
    have per_group : sb.inodes_per_group.toNat = g.per_group := static.inodes_per_group
    rw [zero] at per_group
    have none : g.per_group = 0 := per_group.symm
    omega
  have opened := open_image_ok fs.reader (by omega) decoded grouped numbered static.narrow
    (by rw [start, group_count]; omega)
  refine ⟨_, _, opened, ⟨static.block_size, static.inode_size, static.inodes_count, static.blocks_count,
    static.inodes_per_group, static.narrow, static.first_data_block, static.rev_level, static.group_count, ?_, ?_⟩⟩
  · rw [List.length_map, List.length_range', group_count]
  -- The first descriptor has the addresses of the one in memory.
  obtain ⟨gd, found, addresses⟩ := static.group0
  have some : 0 < (Superblock.group_count sb).toNat := by omega
  refine ⟨_, by rw [List.getElem?_map, List.getElem?_range' some]; rfl, ?_⟩
  obtain ⟨-, same⟩ := (opened_records opened).2 0 _ (by rw [List.getElem?_map, List.getElem?_range' some]; rfl)
  rw [same]
  have before := entries 0 gd found
  have place : tableOffset fs.superblock = tableOffset sb := by rw [counted]; rfl
  have sized : entrySize fs = entrySize ⟨fs.reader, sb, (List.range' 0 (Superblock.group_count sb).toNat).map fun i =>
      GroupDescriptor.descriptorAt
        (fs.reader.slice ((sb.first_data_block.toNat + 1) * sb.block_size.toNat + i * 32) 32)⟩ := by
    rw [entrySize, counted]
    rfl
  rw [entryBytes, place, sized] at before
  obtain ⟨_, _, _, rfl⟩ := before
  exact addresses
/-- A filesystem that is opened again holds the same volume but for the counts. -/
theorem reopens (holds : Holds g v fs) (recorded : Recorded g fs) (large : 2048 ≤ g.block_size) :
    ∃ sb gdt, open_image fs.reader = .ok ⟨fs.reader, sb, gdt⟩ ∧
      Holds g { v with superblock := sb, gdt } ⟨fs.reader, sb, gdt⟩ ∧ Recorded g ⟨fs.reader, sb, gdt⟩ := by
  obtain ⟨sb, gdt, opened, static⟩ := opens_recorded recorded large
  exact ⟨sb, gdt, opened, ⟨rfl, rfl, static, holds.size, holds.slots, holds.blocks, holds.inode_bits, holds.block_bits⟩,
    static, recorded.size, loaded_opened opened⟩
theorem consistent_records (consistent : Consistent g v N) (sb : Superblock) (gdt : List GroupDescriptor) :
    Consistent g { v with superblock := sb, gdt } N :=
  consistent.spared ⟨fun _ _ => rfl, fun _ _ _ _ _ => rfl, fun _ set => set, fun _ set => set, fun _ _ _ _ _ => rfl⟩
end

end Justext4.OnDisk
