import Justext4.Create

/-!
What the creations never do. None of them changes the block size, and only a
link that is too long makes a call complain about the length of a link.
-/
namespace Justext4.Complaints
open Justext4 Justext4.Fallible Justext4.Filesystem
open Justext4.Inode (I_BLOCK_LEN)
open Justext4.Create

/-- The result is not the complaint about a long link. -/
structure Mild {α : Type} (r : Res Ext4Error α) : Prop where
  never : ∀ len, r ≠ .error (.err (.SymlinkTargetTooLong len))
/-- The call keeps the block size when it returns, and does not complain about a
    long link. -/
structure Sober {α : Type} (call : Call α) : Prop where
  ends : ∀ fs, (call.run fs).Within (fun _ fs' => fs'.superblock.block_size = fs.superblock.block_size)
    fun e _ => ∀ len, e ≠ .SymlinkTargetTooLong len

section
variable {α β : Type} {e : Ext4Error}

theorem mild_ok (a : α) : Mild (.ok a) := ⟨fun _ => by simp⟩
theorem mild_panic : Mild (.error .panic : Res Ext4Error α) := ⟨fun _ => by simp⟩
theorem mild_err (other : ∀ len, e ≠ .SymlinkTargetTooLong len) : Mild (.error (.err e) : Res Ext4Error α) :=
  ⟨fun len => by simpa using other len⟩
theorem mild_bind {x : Res Ext4Error α} {f : α → Res Ext4Error β} (first : Mild x) (then_ : ∀ a, Mild (f a)) :
    Mild (x >>= f) := by
  refine ⟨fun len stopped => ?_⟩
  rcases res_bind_eq_error.mp stopped with early | ⟨a, -, late⟩
  · exact first.never len early
  · exact (then_ a).never len late
theorem mild_liftErr {ε : Type} (f : ε → Ext4Error) (other : ∀ e len, f e ≠ .SymlinkTargetTooLong len) (r : Res ε α) :
    Mild (liftErr f r) := by
  cases r with
  | ok a => exact mild_ok a
  | error fault =>
    cases fault with
    | err e => exact mild_err (other e)
    | panic => exact mild_panic
theorem mild_okOr (other : ∀ len, e ≠ .SymlinkTargetTooLong len) (o : Option α) : Mild (okOr o e) := by
  cases o with
  | none => exact mild_err other
  | some a => exact mild_ok a
theorem mild_ensure (other : ∀ len, e ≠ .SymlinkTargetTooLong len) (c : Bool) : Mild (ensure c e) := by
  cases c with
  | false => exact mild_err other
  | true => exact mild_ok _
theorem mild_orPanic (c : Bool) : Mild (orPanic c) := by
  cases c with
  | false => exact mild_panic
  | true => exact mild_ok _
theorem mild_in_u64 (n : Nat) : Mild (in_u64 n) := by
  rw [in_u64]
  split
  · exact mild_ok _
  · exact mild_panic
theorem mild_read_at (reader : Bytes) (offset len : Nat) : Mild (read_at reader offset len) := by
  rw [read_at]
  split
  · exact mild_ok _
  · exact mild_err (by simp)
theorem mild_collect {f : Nat → Res Ext4Error α} (each : ∀ i, Mild (f i)) (i n : Nat) : Mild (collect f i n) := by
  induction n generalizing i with
  | zero => exact mild_ok _
  | succ n ih => exact mild_bind (each i) fun a => mild_bind (ih (i + 1)) fun rest => mild_ok _

/-! ### Reading -/

theorem mild_gdt_at (fs : Filesystem) (group : Nat) : Mild (gdt_at fs group) := by
  rw [gdt_at]
  split
  · exact mild_ok _
  · exact mild_panic
theorem mild_inode_offset (fs : Filesystem) (n : UInt32) : Mild (inode_offset fs n) := by
  refine mild_bind (mild_orPanic _) fun _ => ?_
  refine mild_bind (mild_gdt_at ..) fun _ => ?_
  exact mild_bind (mild_in_u64 _) fun _ => mild_in_u64 _
theorem mild_read_inode (fs : Filesystem) (n : UInt32) : Mild (read_inode fs n) := by
  refine mild_bind (mild_ensure (by simp) _) fun _ => ?_
  refine mild_bind (mild_orPanic _) fun _ => ?_
  refine mild_bind (mild_ensure (by simp) _) fun _ => ?_
  refine mild_bind (mild_inode_offset ..) fun _ => ?_
  exact mild_bind (mild_read_at ..) fun _ => mild_liftErr _ (by simp) _
theorem mild_resolve_steps (fs : Filesystem) (logical steps : Nat) (node_buf : Bytes) :
    Mild (resolve_steps fs logical steps node_buf) := by
  induction steps generalizing node_buf with
  | zero => exact mild_err (by simp)
  | succ steps ih =>
    refine mild_bind (mild_liftErr _ (by simp) _) fun node => ?_
    cases node with
    | Leaf header extents =>
      dsimp only
      split
      · split
        · exact mild_ok _
        · exact mild_bind (mild_in_u64 _) fun _ => mild_ok _
      · exact mild_ok _
    | Internal header indices =>
      dsimp only
      split
      · exact mild_ok _
      · exact mild_bind (mild_in_u64 _) fun _ => mild_bind (mild_read_at ..) fun _ => ih _
theorem mild_resolve (fs : Filesystem) (inode : Inode.Inode) (logical : Nat) :
    Mild (resolve_logical_block fs inode logical) :=
  mild_bind (mild_ensure (by simp) _) fun _ => mild_resolve_steps ..
theorem mild_read_block (fs : Filesystem) (inode : Inode.Inode) (logical : Nat) : Mild (read_block fs inode logical) := by
  refine mild_bind (mild_ensure (by simp) _) fun _ => mild_bind (mild_resolve ..) fun physical => ?_
  cases physical with
  | none => exact mild_ok _
  | some physical => exact mild_bind (mild_in_u64 _) fun _ => mild_read_at ..
theorem mild_read_file (fs : Filesystem) (inode : Inode.Inode) : Mild (read_file fs inode) := by
  rw [read_file]
  split
  · exact mild_ok _
  · split
    · exact mild_ok _
    · exact mild_bind (mild_orPanic _) fun _ => mild_bind (mild_collect (mild_read_block fs inode) ..) fun _ => mild_ok _
theorem mild_lookup (fs : Filesystem) (inode : Inode.Inode) (name : List UInt8) : Mild (lookup fs inode name) := by
  refine mild_bind (mild_bind (mild_read_file ..) fun _ => mild_liftErr _ (by simp) _) fun entries => ?_
  split
  · exact mild_ok _
  · exact mild_err (by simp)
theorem mild_split_path (path : List UInt8) : Mild (split_path path) := by
  refine mild_bind (mild_ensure (by simp) _) fun _ => ?_
  refine mild_bind (mild_okOr (by simp) _) fun ⟨parent, filename⟩ => ?_
  exact mild_bind (mild_ensure (by simp) _) fun _ => mild_ok _
theorem mild_open_from (fs : Filesystem) (current : UInt32) (components : List (List UInt8)) :
    Mild (open_from fs current components) := by
  induction components generalizing current with
  | nil => exact mild_ok _
  | cons component components ih =>
    rw [open_from]
    split
    · exact ih current
    · refine mild_bind (mild_read_inode ..) fun parent => ?_
      exact mild_bind (mild_ensure (by simp) _) fun _ => mild_bind (mild_lookup ..) fun child => ih child
theorem mild_open_directory (fs : Filesystem) (path : List UInt8) : Mild (open_directory fs path) := by
  refine mild_bind (mild_open_from ..) fun num => mild_bind (mild_read_inode ..) fun inode => ?_
  exact mild_bind (mild_ensure (by simp) _) fun _ => mild_ok _
theorem mild_ensure_absent (fs : Filesystem) (inode : Inode.Inode) (name : List UInt8) : Mild (ensure_absent fs inode name) := by
  have mild := mild_lookup fs inode name
  rw [ensure_absent]
  cases found : lookup fs inode name with
  | ok child => exact mild_err (by simp)
  | error fault =>
    rw [found] at mild
    cases fault with
    | panic => exact mild_panic
    | err e =>
      rw [catchErr_err, res_bind_ok]
      cases e with
      | NotFound name => exact mild_ok _
      | SymlinkTargetTooLong len => exact absurd rfl (mild.never len)
      | _ => exact mild_err (by simp)
theorem mild_load_block (fs : Filesystem) (block : Nat) : Mild (load_block fs block) :=
  mild_bind (mild_in_u64 _) fun _ => mild_bind (mild_read_at ..) fun _ => mild_ok _
theorem mild_first_block (fs : Filesystem) (inode : Inode.Inode) : Mild (first_block fs inode) := by
  refine mild_bind (mild_resolve ..) fun resolved => ?_
  exact mild_bind (mild_okOr (by simp) _) fun physical => mild_load_block ..
theorem mild_insert_entry (buf : Bytes) (name : List UInt8) (child : UInt32) (code : UInt8) :
    Mild (insert_entry buf name child code) := by
  refine mild_bind (mild_liftErr _ (by simp) _) fun visited => ?_
  refine mild_bind (mild_okOr (by simp) _) fun ⟨last_offset, last⟩ => ?_
  refine mild_bind (mild_orPanic _) fun _ => ?_
  refine mild_bind (mild_ensure (by simp) _) fun _ => ?_
  refine mild_bind (mild_liftErr _ (by simp) _) fun block_buf => ?_
  exact mild_bind (mild_orPanic _) fun _ => mild_liftErr _ (by simp) _
theorem mild_copy (b : Bytes) (start : Nat) (src : Bytes) : Mild (b.copy start src) := by
  rw [Bytes.copy]
  split
  · exact mild_ok _
  · exact mild_panic
theorem mild_range (b : Bytes) (start stop : Nat) : Mild (b.range start stop) := by
  rw [Bytes.range]
  split
  · exact mild_ok _
  · exact mild_panic
theorem mild_set_bit (b : Bytes) (bit : Nat) : Mild (Bitmap.set_bit b bit) := by
  refine mild_bind ?_ fun old => ?_
  · rw [Bytes.index]
    split
    · exact mild_ok _
    · exact mild_panic
  · rw [Bytes.setIndex]
    split
    · exact mild_ok _
    · exact mild_panic
theorem mild_set_run (b : Bytes) (start count : Nat) : Mild (Bitmap.set_run b start count) := by
  induction count with
  | zero => exact mild_ok _
  | succ count ih => exact mild_bind ih fun buf => mild_set_bit ..
theorem mild_encode_extents (block_bytes : Bytes) (i : Nat) (extents : List Extent.Extent) :
    Mild (encode_extents block_bytes i extents) := by
  induction extents generalizing block_bytes i with
  | nil => exact mild_ok _
  | cons ext extents ih =>
    refine mild_bind (mild_range ..) fun part => mild_bind (mild_liftErr _ (by simp) _) fun part => ?_
    exact mild_bind (mild_copy ..) fun block_bytes => ih ..
theorem mild_i_block (extents : List Extent.Extent) : Mild (i_block extents) := by
  refine mild_bind (mild_range ..) fun part => mild_bind (mild_liftErr _ (by simp) _) fun part => ?_
  exact mild_bind (mild_copy ..) fun block_bytes => mild_bind (mild_encode_extents ..) fun block_bytes => mild_ok _

/-! ### Writing -/

theorem sober_pure (a : α) : Sober (pure a : Call α) := ⟨fun _ => rfl⟩
theorem sober_bind {call : Call β} {next : β → Call α} (first : Sober call) (later : ∀ b, Sober (next b)) :
    Sober (call >>= next) := by
  refine ⟨fun fs => ?_⟩
  rw [run_bind, within_andThen]
  refine (first.ends fs).mono (fun b fs' same => ?_) fun _ _ other => other
  rw [← same]
  exact (later b).ends fs'
theorem sober_reads {f : Filesystem → Res Ext4Error α} (mild : ∀ fs, Mild (f fs)) : Sober (reads f) := by
  refine ⟨fun fs => ?_⟩
  rw [run_reads]
  refine within_ofRes (fun _ _ => rfl) fun e found len same => (mild fs).never len ?_
  rw [found, same]
theorem sober_lift {r : Res Ext4Error α} (mild : Mild r) : Sober (lift r) := sober_reads fun _ => mild
theorem sober_write_at (offset : Nat) (src : Bytes) : Sober (write_at offset src) := ⟨fun _ => rfl⟩
theorem sober_gdt0 (f : GroupDescriptor.GroupDescriptor → GroupDescriptor.GroupDescriptor) : Sober (change_gdt0 f) :=
  ⟨fun _ => rfl⟩

theorem sober_write_inode (n : UInt32) (inode : Inode.Inode) : Sober (write_inode n inode) := by
  refine sober_bind (sober_reads fun fs => mild_ensure (by simp) _) fun _ => ?_
  refine sober_bind (sober_reads fun fs => mild_inode_offset ..) fun offset => ?_
  exact sober_bind (sober_reads fun fs => mild_liftErr _ (by simp) _) fun buf => sober_write_at ..
theorem sober_write_gdt (offset : Nat) (gd_buf : Bytes) (gdt : List GroupDescriptor.GroupDescriptor) :
    Sober (write_gdt offset gd_buf gdt) := by
  induction gdt generalizing offset gd_buf with
  | nil => exact sober_pure _
  | cons gd rest ih =>
    refine sober_bind (sober_reads fun fs => mild_liftErr _ (by simp) _) fun gd_buf => ?_
    exact sober_bind (sober_write_at ..) fun _ => ih ..
theorem sober_flush : Sober flush_metadata := by
  refine sober_bind (sober_reads fun fs => mild_liftErr _ (by simp) _) fun sb_buf => ?_
  refine sober_bind (sober_write_at ..) fun _ => sober_bind (sober_reads fun fs => mild_ok _) fun fs => ?_
  exact sober_write_gdt ..
theorem sober_allocate_inode : Sober allocate_inode := by
  refine sober_bind (sober_reads fun fs => mild_gdt_at ..) fun gd => ?_
  refine sober_bind (sober_reads fun fs => mild_load_block ..) fun ⟨offset, buf⟩ => ?_
  refine sober_bind (sober_reads fun fs => mild_okOr (by simp) _) fun bit => ?_
  refine sober_bind (sober_lift (mild_set_bit ..)) fun buf => sober_bind (sober_write_at ..) fun _ => ?_
  exact sober_bind (sober_gdt0 _) fun _ => sober_bind ⟨fun _ => rfl⟩ fun _ => sober_pure _
theorem sober_allocate_blocks (count : Nat) : Sober (allocate_blocks_contiguous count) := by
  rw [allocate_blocks_contiguous]
  split
  · exact sober_pure _
  · refine sober_bind (sober_reads fun fs => mild_gdt_at ..) fun gd => ?_
    refine sober_bind (sober_reads fun fs => mild_load_block ..) fun loaded => ?_
    refine sober_bind (sober_reads fun fs => mild_okOr (by simp) _) fun start => ?_
    refine sober_bind (sober_lift (mild_set_run ..)) fun buf => sober_bind (sober_write_at ..) fun _ => ?_
    exact sober_bind (sober_gdt0 _) fun _ => sober_bind ⟨fun _ => rfl⟩ fun _ => sober_pure _
theorem sober_add_dir_entry (inode : Inode.Inode) (name : List UInt8) (child : UInt32) (code : UInt8) :
    Sober (add_dir_entry inode name child code) := by
  refine sober_bind (sober_reads fun fs => mild_first_block ..) fun ⟨offset, block_buf⟩ => ?_
  exact sober_bind (sober_lift (mild_insert_entry ..)) fun block_buf => sober_write_at ..
theorem sober_under (path : List UInt8) {next : UInt32 → Inode.Inode → List UInt8 → Call α}
    (later : ∀ num inode name, Sober (next num inode name)) : Sober (under path next) := by
  refine sober_bind (sober_lift (mild_split_path _)) fun ⟨parent_path, name⟩ => ?_
  refine sober_bind (sober_reads fun fs => mild_open_directory ..) fun ⟨num, inode⟩ => ?_
  exact sober_bind (sober_reads fun fs => mild_ensure_absent ..) fun _ => later num inode name

theorem sober_create_file (path : List UInt8) (data : Bytes) : Sober (create_file path data) := by
  rw [create_file_eq]
  refine sober_under path fun num inode name => ?_
  refine sober_bind (sober_reads fun fs => mild_ok _) fun block_size => ?_
  refine sober_bind sober_allocate_inode fun n => sober_bind (sober_allocate_blocks _) fun start => ?_
  refine sober_bind (sober_lift (mild_i_block _)) fun block => sober_bind (sober_write_inode ..) fun _ => ?_
  have rest : Sober (do add_dir_entry inode name n 1; flush_metadata; pure n : Call UInt32) :=
    sober_bind (sober_add_dir_entry ..) fun _ => sober_bind sober_flush fun _ => sober_pure _
  dsimp only
  split
  · refine sober_bind (sober_lift (mild_copy ..)) fun buf => ?_
    exact sober_bind (sober_lift (mild_in_u64 _)) fun offset => sober_bind (sober_write_at ..) fun _ => rest
  · exact rest
theorem sober_mkdir (path : List UInt8) : Sober (mkdir path) := by
  rw [mkdir_eq]
  refine sober_under path fun num inode name => ?_
  refine sober_bind (sober_reads fun fs => mild_ok _) fun block_size => ?_
  refine sober_bind sober_allocate_inode fun n => sober_bind (sober_allocate_blocks _) fun start => ?_
  refine sober_bind (sober_lift (mild_i_block _)) fun block => sober_bind (sober_write_inode ..) fun _ => ?_
  refine sober_bind (sober_lift (mild_orPanic _)) fun _ => ?_
  refine sober_bind (sober_lift (mild_liftErr _ (by simp) _)) fun data => ?_
  refine sober_bind (sober_lift (mild_liftErr _ (by simp) _)) fun data => ?_
  refine sober_bind (sober_lift (mild_in_u64 _)) fun offset => sober_bind (sober_write_at ..) fun _ => ?_
  refine sober_bind (sober_add_dir_entry ..) fun _ => sober_bind (sober_lift (mild_orPanic _)) fun _ => ?_
  refine sober_bind (sober_write_inode ..) fun _ => ?_
  refine sober_bind (sober_reads fun fs => mild_bind (mild_gdt_at ..) fun _ => mild_orPanic _) fun _ => ?_
  exact sober_bind (sober_gdt0 _) fun _ => sober_bind sober_flush fun _ => sober_pure _
theorem sober_symlink (path : List UInt8) {target : Bytes} (short : target.size ≤ I_BLOCK_LEN) : Sober (symlink path target) := by
  rw [symlink_eq]
  refine sober_bind (sober_lift (mild_ensure (by simp) _)) fun _ => ?_
  rw [ensure_of short]
  refine sober_bind (sober_lift (mild_ok _)) fun _ => sober_under path fun num inode name => ?_
  refine sober_bind sober_allocate_inode fun n => sober_bind (sober_lift (mild_copy ..)) fun bytes => ?_
  refine sober_bind (sober_write_inode ..) fun _ => sober_bind (sober_add_dir_entry ..) fun _ => ?_
  exact sober_bind sober_flush fun _ => sober_pure _
end

end Justext4.Complaints
