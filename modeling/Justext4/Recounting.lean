import Mathlib.Data.List.Forall2
import Justext4.Calls

/-!
What no call changes. Whether it returns or fails, a call leaves the two kinds
of records in memory as they were but for their counts, and the image is not
shorter than before; and the calls that end by writing the records out do that
last of all.
-/
namespace Justext4.Recounting
open Justext4 Justext4.Fallible Justext4.Filesystem
open Justext4.Superblock (Superblock)
open Justext4.GroupDescriptor (GroupDescriptor)
open Justext4.Inode (Inode)
open Justext4.Create (under create_file_eq mkdir_eq symlink_eq)
open Justext4.Calls (Request execute Flushes Step numbered silent)

/-! ### Rules for a relation that composes -/

section
variable {σ ε α β : Type}

/-- The call goes from a state to a related one, whether it returns or fails. -/
structure Follows (R : σ → σ → Prop) (call : Prog σ ε α) : Prop where
  ends : ∀ s, (call.run s).Within (fun _ s' => R s s') fun _ s' => R s s'
/-- A call that returns has run `last` at its end, from a related state. -/
structure EndsWith (R : σ → σ → Prop) (last : Prog σ ε Unit) (call : Prog σ ε α) : Prop where
  ends : ∀ s, (call.run s).Within (fun _ s' => ∃ mid, R s mid ∧ last.run mid = .ok () s') fun _ s' => R s s'

/-- The same of a call that may also return with nothing done. -/
structure MayEndWith (R : σ → σ → Prop) (last : Prog σ ε Unit) (call : Prog σ ε α) : Prop where
  ends : ∀ s, (call.run s).Within (fun _ s' => s' = s ∨ ∃ mid, R s mid ∧ last.run mid = .ok () s') fun _ s' => R s s'

variable {R : σ → σ → Prop} {last : Prog σ ε Unit}

theorem follows_reads (refl : ∀ s, R s s) (f : σ → Res ε α) : Follows R (reads f) := by
  constructor
  intro s
  rw [run_reads]
  exact within_ofRes (fun _ _ => refl s) fun _ _ => refl s
theorem follows_pure (refl : ∀ s, R s s) (a : α) : Follows R (pure a : Prog σ ε α) := ⟨fun s => refl s⟩
theorem follows_change {f : σ → σ} (moves : ∀ s, R s (f s)) : Follows R (change f : Prog σ ε Unit) :=
  ⟨fun s => moves s⟩
theorem follows_bind (trans : ∀ a b c, R a b → R b c → R a c) {x : Prog σ ε α} {f : α → Prog σ ε β}
    (first : Follows R x) (later : ∀ a, Follows R (f a)) : Follows R (x >>= f) := by
  constructor
  intro s
  rw [run_bind, within_andThen]
  refine (first.ends s).mono (fun a mid there => ?_) fun _ _ there => there
  exact ((later a).ends mid).mono (fun _ _ next => trans _ _ _ there next) fun _ _ next => trans _ _ _ there next

theorem endsWith_bind (trans : ∀ a b c, R a b → R b c → R a c) {x : Prog σ ε α} {f : α → Prog σ ε β}
    (first : Follows R x) (later : ∀ a, EndsWith R last (f a)) : EndsWith R last (x >>= f) := by
  constructor
  intro s
  rw [run_bind, within_andThen]
  refine (first.ends s).mono (fun a mid there => ?_) fun _ _ there => there
  refine ((later a).ends mid).mono (fun _ _ closed => ?_) fun _ _ next => trans _ _ _ there next
  obtain ⟨near, next, ran⟩ := closed
  exact ⟨near, trans _ _ _ there next, ran⟩
theorem endsWith_last (refl : ∀ s, R s s) (follows : Follows R last) : EndsWith R last last := by
  constructor
  intro s
  have kept := follows.ends s
  cases ran : last.run s with
  | ok u s' => exact ⟨s, refl s, ran⟩
  | err e s' => exact kept.err ran
  | panic => trivial
theorem mayEnd_of_ends {call : Prog σ ε α} (closes : EndsWith R last call) : MayEndWith R last call := by
  constructor
  intro s
  exact (closes.ends s).mono (fun _ _ closed => .inr closed) fun _ _ there => there
theorem mayEnd_pure (a : α) : MayEndWith R last (pure a : Prog σ ε α) := ⟨fun _ => .inl rfl⟩
theorem mayEnd_reads (refl : ∀ s, R s s) {f : σ → Res ε β} {g : β → Prog σ ε α} (later : ∀ b, MayEndWith R last (g b)) :
    MayEndWith R last (reads f >>= g) := by
  constructor
  intro s
  rw [run_bind, run_reads, within_andThen]
  exact within_ofRes (fun b _ => (later b).ends s) fun _ _ => refl s
theorem mayEnd_then_pure {call : Prog σ ε β} (closes : MayEndWith R last call) (a : β → α) :
    MayEndWith R last (do let b ← call; pure (a b) : Prog σ ε α) := by
  constructor
  intro s
  rw [run_bind, within_andThen]
  exact (closes.ends s).mono (fun _ _ closed => closed) fun _ _ there => there
theorem follows_of_mayEnd (refl : ∀ s, R s s) (trans : ∀ a b c, R a b → R b c → R a c) {call : Prog σ ε α}
    (follows : Follows R last) (closes : MayEndWith R last call) : Follows R call := by
  constructor
  intro s
  refine (closes.ends s).mono (fun _ s' closed => ?_) fun _ _ there => there
  rcases closed with same | ⟨mid, there, ran⟩
  · rw [same]
    exact refl s
  · exact trans _ _ _ there ((follows.ends mid).ok ran)
theorem follows_of_endsWith (trans : ∀ a b c, R a b → R b c → R a c) {call : Prog σ ε α} (follows : Follows R last)
    (closes : EndsWith R last call) : Follows R call := by
  constructor
  intro s
  refine (closes.ends s).mono (fun _ s' closed => ?_) fun _ _ there => there
  obtain ⟨mid, there, ran⟩ := closed
  exact trans _ _ _ there ((follows.ends mid).ok ran)
theorem endsWith_then_pure {call : Prog σ ε β} (closes : EndsWith R last call) (a : β → α) :
    EndsWith R last (do let b ← call; pure (a b) : Prog σ ε α) := by
  constructor
  intro s
  rw [run_bind, within_andThen]
  exact (closes.ends s).mono (fun _ _ closed => closed) fun _ _ there => there
end

/-! ### The records but for their counts -/

/-- The same descriptor but for what it counts. -/
def SameGroup (gd gd' : GroupDescriptor) : Prop :=
  ∃ blocks inodes dirs, gd' =
    { gd with free_blocks_count := blocks, free_inodes_count := inodes, used_dirs_count := dirs }

structure Recounted (fs fs' : Filesystem) : Prop where
  superblock : ∃ blocks inodes, fs'.superblock =
    { fs.superblock with free_blocks_count := blocks, free_inodes_count := inodes }
  gdt : List.Forall₂ SameGroup fs.gdt fs'.gdt
  size : fs.reader.size ≤ fs'.reader.size

theorem sameGroup_refl (gd : GroupDescriptor) : SameGroup gd gd := ⟨_, _, _, rfl⟩
theorem sameGroup_trans {a b c : GroupDescriptor} (first : SameGroup a b) (second : SameGroup b c) : SameGroup a c := by
  obtain ⟨_, _, _, rfl⟩ := first
  obtain ⟨blocks, inodes, dirs, rfl⟩ := second
  exact ⟨blocks, inodes, dirs, rfl⟩

theorem same_block_bitmap (gd gd' : GroupDescriptor) (same : SameGroup gd gd') : gd'.block_bitmap = gd.block_bitmap := by
  obtain ⟨_, _, _, rfl⟩ := same
  rfl
theorem same_inode_bitmap (gd gd' : GroupDescriptor) (same : SameGroup gd gd') : gd'.inode_bitmap = gd.inode_bitmap := by
  obtain ⟨_, _, _, rfl⟩ := same
  rfl
theorem recounted_refl (fs : Filesystem) : Recounted fs fs :=
  ⟨⟨_, _, rfl⟩, List.forall₂_same.mpr fun gd _ => sameGroup_refl gd, Nat.le_refl _⟩
theorem forall₂_trans {xs ys zs : List GroupDescriptor} (first : List.Forall₂ SameGroup xs ys)
    (second : List.Forall₂ SameGroup ys zs) : List.Forall₂ SameGroup xs zs := by
  induction first generalizing zs with
  | nil => exact second
  | cons head _ ih =>
    cases second with
    | cons head' tail' => exact .cons (sameGroup_trans head head') (ih tail')
theorem recounted_trans (a b c : Filesystem) (first : Recounted a b) (second : Recounted b c) : Recounted a c := by
  obtain ⟨blocks, inodes, same⟩ := second.superblock
  obtain ⟨_, _, same'⟩ := first.superblock
  refine ⟨⟨blocks, inodes, ?_⟩, forall₂_trans first.gdt second.gdt, Nat.le_trans first.size second.size⟩
  rw [same, same']

/-- The call leaves the records as they were but for their counts. -/
abbrev Keeps {α : Type} (call : Call α) : Prop := Follows Recounted call
/-- The same up to the records being written out at the end. -/
abbrev Flushing {α : Type} (call : Call α) : Prop := EndsWith Recounted flush_metadata call

section
variable {α β : Type}

theorem keeps_pure (a : α) : Keeps (pure a : Call α) := follows_pure recounted_refl a
theorem keeps_reads (f : Filesystem → Res Ext4Error α) : Keeps (reads f) := follows_reads recounted_refl f
theorem keeps_lift (r : Res Ext4Error α) : Keeps (lift r) := keeps_reads fun _ => r
theorem keeps_bind {x : Call α} {f : α → Call β} (first : Keeps x) (later : ∀ a, Keeps (f a)) : Keeps (x >>= f) :=
  follows_bind recounted_trans first later
theorem flushing_bind {x : Call α} {f : α → Call β} (first : Keeps x) (later : ∀ a, Flushing (f a)) :
    Flushing (x >>= f) := endsWith_bind recounted_trans first later

theorem keeps_write_at (offset : Nat) (src : Bytes) : Keeps (write_at offset src) := by
  refine follows_change fun fs => ⟨⟨_, _, rfl⟩, List.forall₂_same.mpr fun gd _ => sameGroup_refl gd, ?_⟩
  simp only [Bytes.patch]
  split <;> omega
theorem keeps_gdt0 {f : GroupDescriptor → GroupDescriptor} (same : ∀ gd, SameGroup gd (f gd)) : Keeps (change_gdt0 f) := by
  refine follows_change fun fs => ⟨⟨_, _, rfl⟩, ?_, Nat.le_refl _⟩
  have each : ∀ gdt : List GroupDescriptor, List.Forall₂ SameGroup gdt (on_group0 f gdt) := by
    intro gdt
    cases gdt with
    | nil => exact .nil
    | cons gd rest => exact .cons (same gd) (List.forall₂_same.mpr fun gd _ => sameGroup_refl gd)
  exact each fs.gdt
theorem keeps_free_inodes (f : Nat → Nat) : Keeps (change_superblock (on_all_free_inodes f)) :=
  follows_change fun _ => ⟨⟨_, _, rfl⟩, List.forall₂_same.mpr fun gd _ => sameGroup_refl gd, Nat.le_refl _⟩
theorem keeps_free_blocks (f : Nat → Nat) : Keeps (change_superblock (on_all_free_blocks f)) :=
  follows_change fun _ => ⟨⟨_, _, rfl⟩, List.forall₂_same.mpr fun gd _ => sameGroup_refl gd, Nat.le_refl _⟩

/-! ### The parts of the calls -/

theorem keeps_write_inode (n : UInt32) (inode : Inode) : Keeps (write_inode n inode) := by
  refine keeps_bind (keeps_reads _) fun _ => keeps_bind (keeps_reads _) fun offset => ?_
  exact keeps_bind (keeps_reads _) fun buf => keeps_write_at ..
theorem keeps_write_gdt (offset : Nat) (gd_buf : Bytes) (gdt : List GroupDescriptor) :
    Keeps (write_gdt offset gd_buf gdt) := by
  induction gdt generalizing offset gd_buf with
  | nil => exact keeps_pure _
  | cons gd rest ih => exact keeps_bind (keeps_reads _) fun gd_buf => keeps_bind (keeps_write_at ..) fun _ => ih ..
theorem keeps_flush : Keeps flush_metadata := by
  refine keeps_bind (keeps_reads _) fun sb_buf => keeps_bind (keeps_write_at ..) fun _ => ?_
  exact keeps_bind (keeps_reads _) fun fs => keeps_write_gdt ..
theorem flushing_flush : Flushing flush_metadata := endsWith_last recounted_refl keeps_flush
theorem keeps_allocate_inode : Keeps allocate_inode := by
  refine keeps_bind (keeps_reads _) fun gd => keeps_bind (keeps_reads _) fun loaded => ?_
  refine keeps_bind (keeps_reads _) fun bit => keeps_bind (keeps_lift _) fun buf => ?_
  refine keeps_bind (keeps_write_at ..) fun _ => keeps_bind (keeps_gdt0 fun _ => ⟨_, _, _, rfl⟩) fun _ => ?_
  exact keeps_bind (keeps_free_inodes _) fun _ => keeps_pure _
theorem keeps_allocate_blocks (count : Nat) : Keeps (allocate_blocks_contiguous count) := by
  unfold allocate_blocks_contiguous
  split
  · exact keeps_pure _
  · refine keeps_bind (keeps_reads _) fun gd => keeps_bind (keeps_reads _) fun loaded => ?_
    refine keeps_bind (keeps_reads _) fun start => keeps_bind (keeps_lift _) fun buf => ?_
    refine keeps_bind (keeps_write_at ..) fun _ => keeps_bind (keeps_gdt0 fun _ => ⟨_, _, _, rfl⟩) fun _ => ?_
    exact keeps_bind (keeps_free_blocks _) fun _ => keeps_pure _
theorem keeps_free_blocks_call (start count : Nat) : Keeps (free_blocks start count) := by
  unfold free_blocks
  split
  · exact keeps_pure _
  · refine keeps_bind (keeps_reads _) fun gd => keeps_bind (keeps_reads _) fun loaded => ?_
    refine keeps_bind (keeps_lift _) fun buf => keeps_bind (keeps_write_at ..) fun _ => ?_
    refine keeps_bind (keeps_reads _) fun _ => keeps_bind (keeps_gdt0 fun _ => ⟨_, _, _, rfl⟩) fun _ => ?_
    exact keeps_bind (keeps_reads _) fun _ => keeps_free_blocks _
theorem keeps_free_inode (n : UInt32) : Keeps (free_inode n) := by
  refine keeps_bind (keeps_reads _) fun gd => keeps_bind (keeps_reads _) fun loaded => ?_
  refine keeps_bind (keeps_lift _) fun _ => keeps_bind (keeps_lift _) fun buf => keeps_bind (keeps_write_at ..) fun _ => ?_
  refine keeps_bind (keeps_reads _) fun _ => keeps_bind (keeps_gdt0 fun _ => ⟨_, _, _, rfl⟩) fun _ => ?_
  exact keeps_bind (keeps_reads _) fun _ => keeps_free_inodes _
theorem keeps_add_dir_entry (inode : Inode) (name : List UInt8) (child : UInt32) (code : UInt8) :
    Keeps (add_dir_entry inode name child code) := by
  refine keeps_bind (keeps_reads _) fun loaded => keeps_bind (keeps_lift _) fun block_buf => ?_
  exact keeps_write_at ..
theorem keeps_remove_dir_entry (inode : Inode) (n : UInt32) (name : List UInt8) :
    Keeps (remove_dir_entry inode n name) := by
  refine keeps_bind (keeps_reads _) fun loaded => keeps_bind (keeps_lift _) fun block_buf => ?_
  exact keeps_write_at ..
theorem keeps_update_dotdot (inode : Inode) (n : UInt32) : Keeps (update_dotdot inode n) := by
  refine keeps_bind (keeps_reads _) fun loaded => keeps_bind (keeps_lift _) fun block_buf => ?_
  exact keeps_write_at ..
theorem keeps_free_runs (extents : List Extent.Extent) : Keeps (free_runs extents) := by
  induction extents with
  | nil => exact keeps_pure _
  | cons ext extents ih =>
    unfold free_runs
    split
    · exact ih
    · exact keeps_bind (keeps_free_blocks_call ..) fun _ => ih
theorem keeps_free_data (inode : Inode) : Keeps (free_data inode) := by
  unfold free_data
  split
  · refine keeps_bind (keeps_lift _) fun node => ?_
    cases node with
    | Leaf header extents => exact keeps_free_runs _
    | Internal header indices => exact keeps_pure _
  · exact keeps_pure _
theorem keeps_destroy (parent : Inode) (n : UInt32) (inode : Inode) (name : List UInt8) :
    Keeps (destroy parent n inode name) := by
  refine keeps_bind (keeps_free_data _) fun _ => keeps_bind (keeps_free_inode _) fun _ => ?_
  exact keeps_bind (keeps_write_inode ..) fun _ => keeps_remove_dir_entry ..
theorem keeps_cut_extents (cutoff : Nat) (extents : List Extent.Extent) : Keeps (cut_extents cutoff extents) := by
  induction extents with
  | nil => exact keeps_pure _
  | cons ext extents ih =>
    unfold cut_extents
    dsimp only
    split
    · exact keeps_bind ih fun surviving => keeps_pure _
    split
    · split
      · exact ih
      · exact keeps_bind (keeps_free_blocks_call ..) fun _ => ih
    · split
      · exact keeps_bind ih fun surviving => keeps_pure _
      · exact keeps_bind (keeps_free_blocks_call ..) fun _ => keeps_bind ih fun surviving => keeps_pure _
theorem flushing_under (path : List UInt8) {next : UInt32 → Inode → List UInt8 → Call α}
    (later : ∀ num inode name, Flushing (next num inode name)) : Flushing (under path next) := by
  refine flushing_bind (keeps_lift _) fun names => flushing_bind (keeps_reads _) fun parent => ?_
  exact flushing_bind (keeps_reads _) fun _ => later ..

/-! ### The calls that flush -/

theorem flushing_create_file (path : List UInt8) (data : Bytes) : Flushing (create_file path data) := by
  rw [create_file_eq]
  refine flushing_under path fun num inode name => ?_
  refine flushing_bind (keeps_reads _) fun block_size => flushing_bind keeps_allocate_inode fun n => ?_
  refine flushing_bind (keeps_allocate_blocks _) fun start => flushing_bind (keeps_lift _) fun block => ?_
  refine flushing_bind (keeps_write_inode ..) fun _ => ?_
  have rest : Flushing (do add_dir_entry inode name n 1; flush_metadata; pure n : Call UInt32) :=
    flushing_bind (keeps_add_dir_entry ..) fun _ => endsWith_then_pure flushing_flush fun _ => n
  dsimp only
  split
  · refine flushing_bind (keeps_lift _) fun buf => flushing_bind (keeps_lift _) fun offset => ?_
    exact flushing_bind (keeps_write_at ..) fun _ => rest
  · exact rest
theorem flushing_mkdir (path : List UInt8) : Flushing (mkdir path) := by
  rw [mkdir_eq]
  refine flushing_under path fun num inode name => ?_
  refine flushing_bind (keeps_reads _) fun block_size => flushing_bind keeps_allocate_inode fun n => ?_
  refine flushing_bind (keeps_allocate_blocks _) fun start => flushing_bind (keeps_lift _) fun block => ?_
  refine flushing_bind (keeps_write_inode ..) fun _ => flushing_bind (keeps_lift _) fun _ => ?_
  refine flushing_bind (keeps_lift _) fun data => flushing_bind (keeps_lift _) fun data => ?_
  refine flushing_bind (keeps_lift _) fun offset => flushing_bind (keeps_write_at ..) fun _ => ?_
  refine flushing_bind (keeps_add_dir_entry ..) fun _ => flushing_bind (keeps_lift _) fun _ => ?_
  refine flushing_bind (keeps_write_inode ..) fun _ => flushing_bind (keeps_reads _) fun _ => ?_
  refine flushing_bind (keeps_gdt0 fun _ => ⟨_, _, _, rfl⟩) fun _ => ?_
  exact endsWith_then_pure flushing_flush fun _ => n
theorem flushing_symlink (path : List UInt8) (target : Bytes) : Flushing (symlink path target) := by
  rw [symlink_eq]
  refine flushing_bind (keeps_lift _) fun _ => flushing_bind (keeps_lift _) fun _ => ?_
  refine flushing_under path fun num inode name => flushing_bind keeps_allocate_inode fun n => ?_
  refine flushing_bind (keeps_lift _) fun bytes => flushing_bind (keeps_write_inode ..) fun _ => ?_
  refine flushing_bind (keeps_add_dir_entry ..) fun _ => endsWith_then_pure flushing_flush fun _ => n
theorem flushing_unlink (path : List UInt8) : Flushing (unlink path) := by
  refine flushing_bind (keeps_lift _) fun names => flushing_bind (keeps_reads _) fun parent => ?_
  refine flushing_bind (keeps_reads _) fun n => flushing_bind (keeps_reads _) fun inode => ?_
  refine flushing_bind (keeps_lift _) fun _ => flushing_bind (keeps_destroy ..) fun _ => flushing_flush
theorem flushing_rmdir (path : List UInt8) : Flushing (rmdir path) := by
  refine flushing_bind (keeps_lift _) fun names => flushing_bind (keeps_reads _) fun parent => ?_
  refine flushing_bind (keeps_reads _) fun n => flushing_bind (keeps_lift _) fun _ => ?_
  refine flushing_bind (keeps_reads _) fun inode => flushing_bind (keeps_lift _) fun _ => ?_
  refine flushing_bind (keeps_reads _) fun entries => flushing_bind (keeps_lift _) fun _ => ?_
  refine flushing_bind (keeps_destroy ..) fun _ => flushing_bind (keeps_write_inode ..) fun _ => ?_
  exact flushing_bind (keeps_gdt0 fun _ => ⟨_, _, _, rfl⟩) fun _ => flushing_flush
theorem flushing_move_entry (p q : UInt32) (old new : Inode) (old_name new_name : List UInt8) (n : UInt32)
    (inode : Inode) (code : UInt8) : Flushing (move_entry p q old new old_name new_name n inode code) := by
  refine flushing_bind (keeps_add_dir_entry ..) fun _ => flushing_bind (keeps_remove_dir_entry ..) fun _ => ?_
  dsimp only
  split
  · refine flushing_bind (keeps_update_dotdot ..) fun _ => flushing_bind (keeps_lift _) fun _ => ?_
    refine flushing_bind (keeps_write_inode ..) fun _ => flushing_bind (keeps_write_inode ..) fun _ => ?_
    exact flushing_flush
  · exact flushing_flush
/-- The same of a call that may also return with nothing done. -/
abbrev MayFlush {α : Type} (call : Call α) : Prop := MayEndWith Recounted flush_metadata call

theorem mayFlush_reads {f : Filesystem → Res Ext4Error α} {g : α → Call β} (later : ∀ a, MayFlush (g a)) :
    MayFlush (reads f >>= g) := mayEnd_reads recounted_refl later
theorem mayFlush_lift {r : Res Ext4Error α} {g : α → Call β} (later : ∀ a, MayFlush (g a)) :
    MayFlush (lift r >>= g) := mayFlush_reads later

/-- The end of `rename`, when it is known what is at the destination. -/
def rename_onto (dst : Destination) (old_parent_inode_num new_parent_inode_num : UInt32)
    (old_parent_inode new_parent_inode : Inode) (old_name new_parent_path new_name : List UInt8) (src_inode_num : UInt32)
    (src_inode : Inode) (new_file_type : UInt8) : Call Unit :=
  match dst with
  | .Source => pure ()
  | .Free =>
    move_entry old_parent_inode_num new_parent_inode_num old_parent_inode new_parent_inode old_name new_name
      src_inode_num src_inode new_file_type
  | .Replaced => do
    unlink (join_path new_parent_path new_name)
    let new_parent_inode ← reads fun fs => read_inode fs new_parent_inode_num
    let old_parent_inode := if old_parent_inode_num = new_parent_inode_num then new_parent_inode else old_parent_inode
    move_entry old_parent_inode_num new_parent_inode_num old_parent_inode new_parent_inode old_name new_name
      src_inode_num src_inode new_file_type
/-- The end of `truncate`, when the size is another one. -/
def resize (inode_num : UInt32) (inode : Inode) (new_size : UInt64) : Call Unit := do
  let block_size ← reads fun fs => .ok fs.superblock.block_size.toNat
  if inode.size < new_size then do
    let allocated_blocks ← lift (
      if Inode.uses_extents inode ∧ 0 < inode.size.toNat then do
        let extents ← leaf_extents inode "truncate-grow on depth>0 extent tree not yet supported"
        .ok (total_len extents)
      else .ok 0)
    lift (ensure (new_size.toNat ≤ allocated_blocks * block_size)
      (.UnsupportedV0 "truncate-grow with new block allocation not yet supported"))
    write_inode inode_num { inode with size := new_size, mtime := 0x65000000, ctime := 0x65000000 }
    flush_metadata
  else do
    let cutoff_blocks := div_ceil new_size.toNat block_size
    lift (ensure (Inode.uses_extents inode) .NotExtentBased)
    let extents ← lift (leaf_extents inode "truncate-shrink on depth>0 extent tree not yet supported")
    let surviving ← cut_extents cutoff_blocks extents
    let block ← lift (i_block surviving)
    write_inode inode_num { inode with
      size := new_size, blocks_lo := .ofNat (total_len surviving * block_size / 512), block
      mtime := 0x65000000, ctime := 0x65000000 }
    flush_metadata

theorem rename_eq (old_path new_path : List UInt8) : rename old_path new_path = (do
    let (old_parent_path, old_name) ← lift (split_path old_path)
    let (new_parent_path, new_name) ← lift (split_path new_path)
    let (old_parent_inode_num, old_parent_inode) ← reads fun fs => open_directory fs old_parent_path
    let src_inode_num ← reads fun fs => lookup fs old_parent_inode old_name
    lift (ensure (src_inode_num ≠ ROOT_INODE) (.InvalidLayout "cannot rename the root inode"))
    let src_inode ← reads fun fs => read_inode fs src_inode_num
    let new_file_type ← lift (entry_file_type src_inode)
    let (new_parent_inode_num, new_parent_inode) ← reads fun fs => open_directory fs new_parent_path
    let dst ← reads fun fs =>
      destination fs new_parent_inode new_name src_inode_num (Inode.is_directory src_inode)
    rename_onto dst old_parent_inode_num new_parent_inode_num old_parent_inode new_parent_inode old_name
      new_parent_path new_name src_inode_num src_inode new_file_type) := rfl
theorem truncate_eq (path : List UInt8) (new_size : UInt64) : Filesystem.truncate path new_size = (do
    let inode_num ← reads fun fs => open_path fs path
    let inode ← reads fun fs => read_inode fs inode_num
    lift (ensure (Inode.is_regular inode) (.NotARegularFile inode_num))
    if new_size = inode.size then pure () else resize inode_num inode new_size) := rfl

theorem flushing_rename_onto {dst : Destination} (other : dst ≠ .Source) (p q : UInt32) (old new : Inode)
    (old_name new_parent_path new_name : List UInt8) (n : UInt32) (inode : Inode) (code : UInt8) :
    Flushing (rename_onto dst p q old new old_name new_parent_path new_name n inode code) := by
  cases dst with
  | Source => exact absurd rfl other
  | Free => exact flushing_move_entry ..
  | Replaced =>
    refine flushing_bind (follows_of_endsWith recounted_trans keeps_flush (flushing_unlink _)) fun _ => ?_
    exact flushing_bind (keeps_reads _) fun _ => flushing_move_entry ..
theorem flushing_resize (n : UInt32) (inode : Inode) (new_size : UInt64) : Flushing (resize n inode new_size) := by
  refine flushing_bind (keeps_reads _) fun block_size => ?_
  split
  · refine flushing_bind (keeps_lift _) fun allocated => flushing_bind (keeps_lift _) fun _ => ?_
    exact flushing_bind (keeps_write_inode ..) fun _ => flushing_flush
  · refine flushing_bind (keeps_lift _) fun _ => flushing_bind (keeps_lift _) fun extents => ?_
    refine flushing_bind (keeps_cut_extents ..) fun surviving => flushing_bind (keeps_lift _) fun block => ?_
    exact flushing_bind (keeps_write_inode ..) fun _ => flushing_flush

theorem mayFlush_rename (old_path new_path : List UInt8) : MayFlush (rename old_path new_path) := by
  rw [rename_eq]
  refine mayFlush_lift fun old => mayFlush_lift fun new => mayFlush_reads fun old_parent => ?_
  refine mayFlush_reads fun n => mayFlush_lift fun _ => mayFlush_reads fun inode => mayFlush_lift fun code => ?_
  refine mayFlush_reads fun new_parent => mayFlush_reads fun dst => ?_
  by_cases same : dst = .Source
  · rw [same]
    exact mayEnd_pure _
  · exact mayEnd_of_ends (flushing_rename_onto same ..)
theorem mayFlush_truncate (path : List UInt8) (new_size : UInt64) : MayFlush (Filesystem.truncate path new_size) := by
  rw [truncate_eq]
  refine mayFlush_reads fun n => mayFlush_reads fun inode => mayFlush_lift fun _ => ?_
  split
  · exact mayEnd_pure _
  · exact mayEnd_of_ends (flushing_resize ..)
theorem keeps_with_inode_mut (path : List UInt8) (mutate : Inode → Inode) : Keeps (with_inode_mut path mutate) :=
  keeps_bind (keeps_reads _) fun _ => keeps_bind (keeps_reads _) fun _ => keeps_write_inode ..

/-- What every call leaves of the records. -/
theorem keeps_execute (request : Request) : Keeps (execute request) := by
  have flushes : ∀ {call : Call UInt32}, Flushing call → Keeps (numbered call) := fun closes =>
    follows_of_endsWith recounted_trans keeps_flush (endsWith_then_pure closes _)
  have may : ∀ {call : Call Unit}, MayFlush call → Keeps (silent call) := fun closes =>
    follows_of_mayEnd recounted_refl recounted_trans keeps_flush (mayEnd_then_pure closes fun _ => none)
  cases request with
  | create_file path data => exact flushes (flushing_create_file path data)
  | mkdir path => exact flushes (flushing_mkdir path)
  | symlink link_path target => exact flushes (flushing_symlink link_path target)
  | unlink path => exact may (mayEnd_of_ends (flushing_unlink path))
  | rmdir path => exact may (mayEnd_of_ends (flushing_rmdir path))
  | rename old_path new_path => exact may (mayFlush_rename old_path new_path)
  | truncate path new_size => exact may (mayFlush_truncate path new_size)
  | chmod path mode => exact keeps_bind (keeps_with_inode_mut ..) fun _ => keeps_pure _
  | chown path uid gid => exact keeps_bind (keeps_with_inode_mut ..) fun _ => keeps_pure _
  | utime path atime mtime => exact keeps_bind (keeps_with_inode_mut ..) fun _ => keeps_pure _
end

/-- A call that returns and flushes has written out records that differ from
    the ones before in their counts. -/
theorem execute_flushes {fs fs' : Filesystem} {request : Request} {answer : Option UInt32}
    (flushes : Flushes fs request) (ran : (execute request).run fs = .ok answer fs') :
    ∃ mid, Recounted fs mid ∧ flush_metadata.run mid = .ok () fs' := by
  have ends : ∀ {call : Call (Option UInt32)}, Flushing call → call.run fs = .ok answer fs' →
      ∃ mid, Recounted fs mid ∧ flush_metadata.run mid = .ok () fs' := fun closes ran => (closes.ends fs).ok ran
  cases request with
  | create_file path data => exact ends (endsWith_then_pure (flushing_create_file path data) _) ran
  | mkdir path => exact ends (endsWith_then_pure (flushing_mkdir path) _) ran
  | symlink link_path target => exact ends (endsWith_then_pure (flushing_symlink link_path target) _) ran
  | unlink path => exact ends (endsWith_then_pure (flushing_unlink path) fun _ => none) ran
  | rmdir path => exact ends (endsWith_then_pure (flushing_rmdir path) fun _ => none) ran
  | rename old_path new_path =>
    obtain ⟨_, last, ran, answered⟩ := run_bind_eq_ok.mp ran
    cases answered
    rw [rename_eq] at ran
    obtain ⟨⟨old_parent_path, old_name⟩, old_split, ran₁⟩ := lift_then_eq_ok.mp ran
    obtain ⟨⟨new_parent_path, new_name⟩, new_split, ran₂⟩ := lift_then_eq_ok.mp ran₁
    obtain ⟨⟨p, old_parent⟩, old_opened, ran₃⟩ := reads_then_eq_ok.mp ran₂
    obtain ⟨n, looked, ran₄⟩ := reads_then_eq_ok.mp ran₃
    obtain ⟨_, checked, ran₅⟩ := lift_then_eq_ok.mp ran₄
    obtain ⟨inode, read, ran₆⟩ := reads_then_eq_ok.mp ran₅
    obtain ⟨code, -, ran₇⟩ := lift_then_eq_ok.mp ran₆
    obtain ⟨⟨q, new_parent⟩, new_opened, ran₈⟩ := reads_then_eq_ok.mp ran₇
    obtain ⟨dst, dst_found, ran₉⟩ := reads_then_eq_ok.mp ran₈
    have not_root : n ≠ ROOT_INODE := of_decide_eq_true (ensure_eq_ok.mp checked)
    have other := flushes ⟨old_parent_path, old_name, new_parent_path, new_name, p, old_parent, n, inode, q, new_parent,
      dst, old_split, new_split, old_opened, looked, not_root, read, new_opened, dst_found⟩
    exact ((flushing_rename_onto other ..).ends _).ok ran₉
  | truncate path new_size =>
    obtain ⟨_, last, ran, answered⟩ := run_bind_eq_ok.mp ran
    cases answered
    rw [truncate_eq] at ran
    obtain ⟨n, opened, ran₁⟩ := reads_then_eq_ok.mp ran
    obtain ⟨inode, read, ran₂⟩ := reads_then_eq_ok.mp ran₁
    obtain ⟨_, -, ran₃⟩ := lift_then_eq_ok.mp ran₂
    rw [if_neg (flushes n inode opened read)] at ran₃
    exact ((flushing_resize ..).ends _).ok ran₃
  | chmod path mode => exact absurd flushes id
  | chown path uid gid => exact absurd flushes id
  | utime path atime mtime => exact absurd flushes id

/-- What every step of a run leaves of them, whatever calls are let through. -/
theorem step_recounted {allowed : Filesystem → Request → Prop} {fs fs' : Filesystem} (moved : Step allowed fs fs') :
    Recounted fs fs' := by
  cases moved with
  | @returns request _ _ _ ran => exact ((keeps_execute request).ends fs).ok ran
  | @fails request _ _ _ ran => exact ((keeps_execute request).ends fs).err ran
theorem run_recounted {allowed : Filesystem → Request → Prop} {fs fs' : Filesystem}
    (run : Relation.ReflTransGen (Step allowed) fs fs') : Recounted fs fs' := by
  induction run with
  | refl => exact recounted_refl fs
  | tail _ last ih => exact recounted_trans _ _ _ ih (step_recounted last)

end Justext4.Recounting
