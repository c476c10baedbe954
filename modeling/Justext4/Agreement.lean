import Justext4.TwoRuns
import Justext4.Rename

/-!
Two filesystems that agree but for some positions of their images. A call that
reads none of these positions ends in the same way in both, and what it writes
is the same in both from then on.
-/
namespace Justext4.Agreement
open Justext4 Justext4.Fallible Justext4.Filesystem Justext4.Volumes Bytes
open Justext4.Superblock (Superblock)
open Justext4.GroupDescriptor (GroupDescriptor)
open Justext4.Inode (Inode)
open Justext4.Extent (Extent)
open Justext4.Entries
open Justext4.Runs (runBlock)
open Justext4.TwoRuns

/-- The two filesystems have the same records in memory, and images of the same
    size that differ in the positions of `D` only. -/
structure Agree (g : Geometry) (D : Nat → Prop) (s t : Filesystem) : Prop where
  superblock : t.superblock = s.superblock
  gdt : t.gdt = s.gdt
  size : t.reader.size = s.reader.size
  bytes : ∀ i, ¬ D i → t.reader.byte i = s.reader.byte i
  static : Static g s.superblock s.gdt

/-- None of the `len` positions from `start` on is in `D`. -/
def Clear (D : Nat → Prop) (start len : Nat) : Prop := ∀ i, start ≤ i → i < start + len → ¬ D i

/-- The filesystem with bytes written to its image. -/
def patched (fs : Filesystem) (offset : Nat) (src : Bytes) : Filesystem := { fs with reader := fs.reader.patch offset src }

theorem write_at_run (offset : Nat) (src : Bytes) (fs : Filesystem) :
    (write_at offset src).run fs = .ok () (patched fs offset src) := rfl

section
variable {g : Geometry} {D D' : Nat → Prop} {E : Filesystem → Filesystem → Prop} {s t : Filesystem} {inode : Inode}
  {block : Nat}

theorem Agree.wider (agree : Agree g D s t) (wider : ∀ i, D i → D' i) : Agree g D' s t :=
  { agree with bytes := fun i out => agree.bytes i fun inside => out (wider i inside), static := agree.static }

/-! ### Reading -/

theorem Agree.read_at (agree : Agree g D s t) {start len : Nat} (clear : Clear D start len) :
    read_at t.reader start len = read_at s.reader start len := by
  have same : t.reader.slice start len = s.reader.slice start len := by
    apply ext_inside (by simp)
    intro i inside
    rw [size_slice] at inside
    rw [byte_slice_of_lt _ inside, byte_slice_of_lt _ inside]
    exact agree.bytes _ (clear _ (by omega) (by omega))
  rw [Filesystem.read_at, Filesystem.read_at, agree.size, same]
theorem Agree.gdt_at (agree : Agree g D s t) (group : Nat) : gdt_at t group = gdt_at s group := by
  rw [Filesystem.gdt_at, Filesystem.gdt_at, agree.gdt]
theorem Agree.inode_offset (agree : Agree g D s t) (n : UInt32) : inode_offset t n = inode_offset s n := by
  simp only [Filesystem.inode_offset, agree.gdt_at, agree.superblock]
theorem Agree.load_block (agree : Agree g D s t) (clear : Clear D (block * g.block_size) g.block_size) :
    load_block t block = load_block s block := by
  rw [Filesystem.load_block, Filesystem.load_block, agree.superblock, agree.static.block_size]
  by_cases fits : block * g.block_size < 18446744073709551616
  · rw [in_u64_ok fits, res_bind_ok, res_bind_ok, agree.read_at clear]
  · rw [in_u64, if_neg fits, res_bind_error, res_bind_error]
/-- The descriptor of the one group, and the blocks that it gives. -/
theorem Agree.group0 (agree : Agree g D s t) {gd : GroupDescriptor} (found : Filesystem.gdt_at s 0 = .ok gd) :
    gd.block_bitmap = 2 ∧ gd.inode_bitmap = 3 := by
  obtain ⟨gd', there, blocks, inodes, -⟩ := agree.static.gdt_at s.reader
  cases found.symm.trans there
  exact ⟨blocks, inodes⟩
theorem Agree.read_inode (agree : Agree g D s t) {n : UInt32} (clear : Clear D (slotOffset g n) 256) :
    read_inode t n = read_inode s n := by
  have static := agree.static
  rw [Filesystem.read_inode, Filesystem.read_inode, agree.superblock, agree.gdt, agree.inode_offset]
  by_cases inside : n ≠ 0 ∧ n ≤ s.superblock.inodes_count
  · obtain ⟨low, high⟩ := (inode_in_range static).mp inside
    rw [inode_offset_ok static low high, static.inode_size]
    simp only [res_bind_ok, agree.read_at clear]
  · rw [ensure_not inside, res_bind_error, res_bind_error]

theorem Agree.first_block (agree : Agree g D s t) (one : OneBlock g inode block)
    (clear : Clear D (block * g.block_size) g.block_size) : first_block t inode = first_block s inode := by
  have total := g.total_high
  have high := one.high
  have resolve : ∀ fs, resolve_logical_block fs inode 0 = .ok (some (block + 0)) := fun fs => by
    rw [Runs.resolve_runs one.flags one.run (by decide) (by omega), if_pos (by decide)]
  rw [Filesystem.first_block, Filesystem.first_block, resolve, resolve]
  simp only [res_bind_ok, okOr_some, Nat.add_zero, agree.load_block clear]

/-- The blocks of an inode with one run are read alike. -/
theorem Agree.read_file (agree : Agree g D s t) {start count : Nat} (flags : inode.flags = Inode.INODE_FLAG_EXTENTS)
    (run : inode.block = runBlock start count) (short : count ≤ 32768) (small : start < 281474976710656)
    (clear : ∀ b, start ≤ b → b < start + count → Clear D (b * g.block_size) g.block_size) :
    read_file t inode = read_file s inode := by
  have same : read_block t inode = read_block s inode := by
    funext logical
    rw [read_block, read_block, Runs.resolve_runs flags run short small, Runs.resolve_runs flags run short small,
      agree.superblock, agree.static.block_size]
    by_cases inside : logical < count
    · have clear' := clear (start + logical) (by omega) (by omega)
      rw [if_pos inside]
      by_cases fits : (start + logical) * g.block_size < 18446744073709551616
      · simp only [res_bind_ok, in_u64_ok fits, agree.read_at clear']
      · simp only [res_bind_ok, in_u64, if_neg fits, res_bind_error]
    · simp only [if_neg inside, res_bind_ok]
  rw [Filesystem.read_file, Filesystem.read_file, agree.superblock, same]

/-! ### Writing -/

theorem agree_write (agree : Agree g D s t) {offset : Nat} {src : Bytes}
    (covers : ∀ i, D i → (offset ≤ i ∧ i < offset + src.size) ∨ D' i) :
    Agree g D' (patched s offset src) (patched t offset src) := by
  refine ⟨agree.superblock, agree.gdt, ?_, fun i out => ?_, agree.static⟩
  · simp only [patched, Bytes.patch, agree.size]
  · simp only [patched, byte_patch]
    by_cases inside : offset ≤ i ∧ i < offset + src.size
    · rw [if_pos inside, if_pos inside]
    · rw [if_neg inside, if_neg inside]
      exact agree.bytes i fun differs => (covers i differs).elim inside out
theorem write_at_same (agree : Agree g D s t) {offset : Nat} {src : Bytes}
    (covers : ∀ i, D i → (offset ≤ i ∧ i < offset + src.size) ∨ D' i) :
    Same (Agree g D') E ((write_at offset src).run s) ((write_at offset src).run t) :=
  same_change (agree_write agree covers)
theorem change_gdt0_same (agree : Agree g D s t) {f : GroupDescriptor → GroupDescriptor}
    (kept : ∀ gd, (f gd).block_bitmap = gd.block_bitmap ∧ (f gd).inode_bitmap = gd.inode_bitmap ∧
      (f gd).inode_table = gd.inode_table) :
    Same (Agree g D) E ((change_gdt0 f).run s) ((change_gdt0 f).run t) :=
  same_change { agree with gdt := congrArg (on_group0 f) agree.gdt, static := agree.static.group kept }
theorem change_superblock_same (agree : Agree g D s t) {f : Superblock → Superblock}
    (static : Static g (f s.superblock) s.gdt) :
    Same (Agree g D) E ((change_superblock f).run s) ((change_superblock f).run t) :=
  same_change { agree with superblock := congrArg f agree.superblock, static := static }

/-- What is written out depends on the records alone. -/
theorem flush_same {R : Filesystem → Filesystem → Prop}
    (records : ∀ s t, R s t → t.superblock = s.superblock ∧ t.gdt = s.gdt)
    (writes : ∀ offset src s t, R s t → R (patched s offset src) (patched t offset src)) (related : R s t) :
    Same R R (flush_metadata.run s) (flush_metadata.run t) := by
  have write : ∀ (offset : Nat) (src : Bytes) {s t : Filesystem}, R s t →
      Same R R ((write_at offset src).run s) ((write_at offset src).run t) := fun offset src _ _ related =>
    same_change (writes offset src _ _ related)
  have table : ∀ (gdt : List GroupDescriptor) (offset : Nat) (gd_buf : Bytes) {s t : Filesystem}, R s t →
      Same R R ((write_gdt offset gd_buf gdt).run s) ((write_gdt offset gd_buf gdt).run t) := by
    intro gdt
    induction gdt with
    | nil => exact fun _ _ _ _ related => same_pure related ()
    | cons gd rest ih =>
      intro offset gd_buf s t related
      refine same_reads_bind related (by rw [(records _ _ related).1]) fun buf _ => ?_
      exact same_bind (write _ _ related) fun _ s t _ _ related => ih _ _ related
  refine same_reads_bind related (by rw [(records _ _ related).1]) fun buf _ => ?_
  refine same_bind (write _ _ related) fun _ s t _ _ related => ?_
  obtain ⟨superblock, gdt⟩ := records _ _ related
  simp only [run_bind, run_reads, ofRes_ok, andThen_ok]
  rw [superblock, gdt]
  exact table _ _ _ related
theorem flush_agree (agree : Agree g D s t) : Same (Agree g D) (Agree g D) (flush_metadata.run s) (flush_metadata.run t) :=
  flush_same (fun _ _ agree => ⟨agree.superblock, agree.gdt⟩)
    (fun _ _ _ _ agree => agree_write agree fun _ differs => .inr differs) agree

/-! ### Bitmaps -/

/-- The superblock, the descriptors and the bitmaps are not in `D`. -/
def Late (g : Geometry) (D : Nat → Prop) : Prop := ∀ i, D i → 4 * g.block_size ≤ i

theorem Late.clear (late : Late g D) {p : Nat} (before : p < 4) : Clear D (p * g.block_size) g.block_size := by
  intro i low high differs
  have le := late i differs
  have end' : p * g.block_size + g.block_size ≤ 4 * g.block_size := block_before before
  omega
theorem Agree.load_block_bitmap (agree : Agree g D s t) (late : Late g D) {gd : GroupDescriptor}
    (found : Filesystem.gdt_at s 0 = .ok gd) :
    Filesystem.load_block t gd.block_bitmap.toNat = Filesystem.load_block s gd.block_bitmap.toNat := by
  rw [(agree.group0 found).1]
  exact agree.load_block (late.clear (show 2 < 4 by decide))
theorem Agree.load_inode_bitmap (agree : Agree g D s t) (late : Late g D) {gd : GroupDescriptor}
    (found : Filesystem.gdt_at s 0 = .ok gd) :
    Filesystem.load_block t gd.inode_bitmap.toNat = Filesystem.load_block s gd.inode_bitmap.toNat := by
  rw [(agree.group0 found).2]
  exact agree.load_block (late.clear (show 3 < 4 by decide))

variable (late : Late g D)
include late

theorem allocate_inode_same (agree : Agree g D s t) :
    Same (Agree g D) (Agree g D) (allocate_inode.run s) (allocate_inode.run t) := by
  refine same_reads_bind agree (agree.gdt_at 0) fun gd found => ?_
  refine same_reads_bind agree (agree.load_inode_bitmap late found) fun loaded _ => ?_
  refine same_reads_bind agree (by rw [agree.superblock]) fun bit _ => ?_
  refine same_lift_bind agree fun buf _ => ?_
  refine same_bind (write_at_same agree fun _ => .inr) fun _ s t _ _ agree => ?_
  refine same_bind (change_gdt0_same agree fun _ => ⟨rfl, rfl, rfl⟩) fun _ s t _ _ agree => ?_
  refine same_bind (change_superblock_same agree (agree.static.superblock _).1) fun _ s t _ _ agree => ?_
  exact same_pure agree _
theorem allocate_blocks_same (agree : Agree g D s t) (count : Nat) :
    Same (Agree g D) (Agree g D) ((allocate_blocks_contiguous count).run s) ((allocate_blocks_contiguous count).run t) := by
  rw [allocate_blocks_contiguous]
  split
  · exact same_pure agree 0
  refine same_reads_bind agree (agree.gdt_at 0) fun gd found => ?_
  refine same_reads_bind agree (agree.load_block_bitmap late found) fun loaded _ => ?_
  refine same_reads_bind agree (by rw [agree.superblock]) fun start _ => ?_
  refine same_lift_bind agree fun buf _ => ?_
  refine same_bind (write_at_same agree fun _ => .inr) fun _ s t _ _ agree => ?_
  refine same_bind (change_gdt0_same agree fun _ => ⟨rfl, rfl, rfl⟩) fun _ s t _ _ agree => ?_
  refine same_bind (change_superblock_same agree (agree.static.superblock _).2) fun _ s t _ _ agree => ?_
  exact same_pure agree _
theorem free_blocks_same (agree : Agree g D s t) (start count : Nat) :
    Same (Agree g D) (Agree g D) ((free_blocks start count).run s) ((free_blocks start count).run t) := by
  rw [free_blocks]
  split
  · exact same_pure agree ()
  refine same_reads_bind agree (agree.gdt_at 0) fun gd found => ?_
  refine same_reads_bind agree (agree.load_block_bitmap late found) fun loaded _ => ?_
  refine same_lift_bind agree fun buf _ => ?_
  refine same_bind (write_at_same agree fun _ => .inr) fun _ s t _ _ agree => ?_
  refine same_reads_bind agree (by rw [agree.gdt_at]) fun _ _ => ?_
  refine same_bind (change_gdt0_same agree fun _ => ⟨rfl, rfl, rfl⟩) fun _ s t _ _ agree => ?_
  refine same_reads_bind agree (by rw [agree.superblock]) fun _ _ => ?_
  exact change_superblock_same agree (agree.static.superblock _).2
theorem free_inode_same (agree : Agree g D s t) (n : UInt32) :
    Same (Agree g D) (Agree g D) ((free_inode n).run s) ((free_inode n).run t) := by
  refine same_reads_bind agree (agree.gdt_at 0) fun gd found => ?_
  refine same_reads_bind agree (agree.load_inode_bitmap late found) fun loaded _ => ?_
  refine same_lift_bind agree fun _ _ => ?_
  refine same_lift_bind agree fun buf _ => ?_
  refine same_bind (write_at_same agree fun _ => .inr) fun _ s t _ _ agree => ?_
  refine same_reads_bind agree (by rw [agree.gdt_at]) fun _ _ => ?_
  refine same_bind (change_gdt0_same agree fun _ => ⟨rfl, rfl, rfl⟩) fun _ s t _ _ agree => ?_
  refine same_reads_bind agree (by rw [agree.superblock]) fun _ _ => ?_
  exact change_superblock_same agree (agree.static.superblock _).1
theorem free_runs_same (agree : Agree g D s t) (extents : List Extent) :
    Same (Agree g D) (Agree g D) ((free_runs extents).run s) ((free_runs extents).run t) := by
  induction extents generalizing s t with
  | nil => exact same_pure agree ()
  | cons ext extents ih =>
    rw [free_runs]
    cases ext.uninit with
    | true => exact same_bind (same_pure agree ()) fun _ s t _ _ agree => ih agree
    | false => exact same_bind (free_blocks_same late agree _ _) fun _ s t _ _ agree => ih agree
theorem free_data_same (agree : Agree g D s t) (inode : Inode) :
    Same (Agree g D) (Agree g D) ((free_data inode).run s) ((free_data inode).run t) := by
  rw [free_data]
  split
  · refine same_lift_bind agree fun node _ => ?_
    cases node with
    | Leaf header extents => exact free_runs_same late agree extents
    | Internal header indices => exact same_pure agree ()
  · exact same_pure agree ()
theorem cut_extents_same (agree : Agree g D s t) (cutoff_blocks : Nat) (extents : List Extent) :
    Same (Agree g D) (Agree g D) ((cut_extents cutoff_blocks extents).run s) ((cut_extents cutoff_blocks extents).run t) := by
  induction extents generalizing s t with
  | nil => exact same_pure agree []
  | cons ext extents ih =>
    have kept : ∀ ext : Extent, ∀ {s t : Filesystem}, Agree g D s t → Same (Agree g D) (Agree g D)
        ((do let surviving ← cut_extents cutoff_blocks extents; pure (ext :: surviving) : Call (List Extent)).run s)
        ((do let surviving ← cut_extents cutoff_blocks extents; pure (ext :: surviving) : Call (List Extent)).run t) :=
      fun _ _ _ agree => same_bind (ih agree) fun surviving s t _ _ agree => same_pure agree _
    simp only [cut_extents]
    split
    · exact kept _ agree
    split
    · split
      · exact ih agree
      · exact same_bind (free_blocks_same late agree _ _) fun _ s t _ _ agree => ih agree
    · split
      · exact kept _ agree
      · exact same_bind (free_blocks_same late agree _ _) fun _ s t _ _ agree => kept _ agree
omit late

/-! ### Inodes and directories -/

/-- A record that is written is the same in both images. -/
theorem write_inode_same (agree : Agree g D s t) {n : UInt32} (written : Inode)
    (covers : ∀ i, D i → (slotOffset g n ≤ i ∧ i < slotOffset g n + 256) ∨ D' i) :
    Same (Agree g D') (Agree g D) ((write_inode n written).run s) ((write_inode n written).run t) := by
  refine same_reads_bind agree (by rw [agree.superblock]) fun _ inside => ?_
  obtain ⟨low, high⟩ := (inode_in_range agree.static).mp (of_decide_eq_true (ensure_eq_ok.mp inside))
  refine same_reads_bind agree (agree.inode_offset n) fun offset found => ?_
  rw [inode_offset_ok agree.static low high] at found
  cases found
  refine same_reads_bind agree (by rw [agree.superblock]) fun buf encoded => ?_
  rw [agree.static.inode_size, Inode.encode_ok written agree.static.inode_size (by decide), liftErr_ok] at encoded
  cases encoded
  refine write_at_same agree ?_
  rw [Inode.size_record written (by decide)]
  exact covers
theorem write_inode_agree (agree : Agree g D s t) (n : UInt32) (written : Inode) :
    Same (Agree g D) (Agree g D) ((write_inode n written).run s) ((write_inode n written).run t) :=
  write_inode_same agree written fun _ => .inr

/-- The first block of a directory, read, changed and written back. -/
def edit_block (inode : Inode) (edit : Bytes → Res Ext4Error Bytes) : Call Unit := do
  let (offset, block_buf) ← reads fun fs => Filesystem.first_block fs inode
  let block_buf ← lift (edit block_buf)
  write_at offset block_buf

theorem edit_block_same (agree : Agree g D s t) (one : OneBlock g inode block)
    (clear : Clear D (block * g.block_size) g.block_size) (edit : Bytes → Res Ext4Error Bytes) :
    Same (Agree g D) (Agree g D) ((edit_block inode edit).run s) ((edit_block inode edit).run t) := by
  refine same_reads_bind agree (agree.first_block one clear) fun loaded _ => ?_
  refine same_lift_bind agree fun buf _ => ?_
  exact write_at_same agree fun _ => .inr
theorem add_dir_entry_same (agree : Agree g D s t) (one : OneBlock g inode block)
    (clear : Clear D (block * g.block_size) g.block_size) (name : List UInt8) (child : UInt32) (code : UInt8) :
    Same (Agree g D) (Agree g D) ((add_dir_entry inode name child code).run s) ((add_dir_entry inode name child code).run t) :=
  edit_block_same agree one clear fun buf => insert_entry buf name child code
theorem remove_dir_entry_same (agree : Agree g D s t) (one : OneBlock g inode block)
    (clear : Clear D (block * g.block_size) g.block_size) (target : UInt32) (name : List UInt8) :
    Same (Agree g D) (Agree g D) ((remove_dir_entry inode target name).run s) ((remove_dir_entry inode target name).run t) :=
  edit_block_same agree one clear fun buf => erase_entry buf target name
theorem update_dotdot_same (agree : Agree g D s t) (one : OneBlock g inode block)
    (clear : Clear D (block * g.block_size) g.block_size) (parent : UInt32) :
    Same (Agree g D) (Agree g D) ((update_dotdot inode parent).run s) ((update_dotdot inode parent).run t) :=
  edit_block_same agree one clear fun buf => redirect_dotdot buf parent

/-- The steps of a removal after its checks. -/
theorem destroy_same (agree : Agree g D s t) (late : Late g D) (one : OneBlock g inode block)
    (clear : Clear D (block * g.block_size) g.block_size) (target : UInt32) (target_inode : Inode) (name : List UInt8) :
    Same (Agree g D) (Agree g D) ((destroy inode target target_inode name).run s)
      ((destroy inode target target_inode name).run t) := by
  refine same_bind (free_data_same late agree target_inode) fun _ s t _ _ agree => ?_
  refine same_bind (free_inode_same late agree target) fun _ s t _ _ agree => ?_
  refine same_bind (write_inode_agree agree target (deleted target_inode)) fun _ s t _ _ agree => ?_
  exact remove_dir_entry_same agree one clear target name
end

end Justext4.Agreement
