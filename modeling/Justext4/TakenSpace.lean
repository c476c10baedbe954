import Justext4.FreeBytes

/-!
What a creation takes into use it writes whole. The record of an inode fills its
slot, the data of a file is written in whole blocks with zeros behind it, and
the two dots fill the block of a directory; so two filesystems that differ in
free space only agree in all of it from then on.
-/
namespace Justext4.TakenSpace
open Justext4 Justext4.Fallible Justext4.Filesystem Justext4.Volumes Bytes
open Justext4.Inode (Inode)
open Justext4.DirEntry (encode_range)
open Justext4.Nodes
open Justext4.Backing
open Justext4.Entries
open Justext4.Create
open Justext4.TwoRuns
open Justext4.Agreement
open Justext4.FreeBytes
open Justext4.Runs (run runs)

/-- The positions that are left when an inode and a run of blocks have been
    written. -/
def remaining (g : Geometry) (D : Nat → Prop) (m : UInt32) (start count : Nat) (i : Nat) : Prop :=
  D i ∧ ¬ (slotOffset g m ≤ i ∧ i < slotOffset g m + 256) ∧
    ¬ (start * g.block_size ≤ i ∧ i < start * g.block_size + count * g.block_size)
/-- The two filesystems agree in what has been handed out first. -/
def Settled (g : Geometry) (D : Nat → Prop) (fs : Filesystem) (count : Nat) (s t : Filesystem) : Prop :=
  ∀ m start, Placed fs count m start → Agree g (remaining g D m start count) s t

theorem placed_unique {fs : Filesystem} {count : Nat} {m m' : UInt32} {start start' : Nat} (first : Placed fs count m start)
    (second : Placed fs count m' start') : m = m' ∧ start = start' := by
  obtain ⟨_, _, inode, blocks⟩ := first
  obtain ⟨_, _, inode', blocks'⟩ := second
  cases inode.symm.trans inode'
  cases blocks.symm.trans blocks'
  exact ⟨rfl, rfl⟩

section
variable {g : Geometry} {D : Nat → Prop} {fs s t : Filesystem} {inode : Inode} {block count start : Nat} {m : UInt32}

theorem clear_remaining {from_ len : Nat} (clear : Clear D from_ len) : Clear (remaining g D m start count) from_ len :=
  fun i low high rest => clear i low high rest.1
theorem agree_remaining (agree : Agree g (remaining g D m start count) s t) : Agree g D s t :=
  agree.wider fun _ rest => rest.1
/-- Of the record that is written nothing is left. -/
theorem covers_slot (i : Nat) (differs : D i) :
    (slotOffset g m ≤ i ∧ i < slotOffset g m + 256) ∨ remaining g D m 0 0 i := by
  by_cases inside : slotOffset g m ≤ i ∧ i < slotOffset g m + 256
  · exact .inl inside
  · exact .inr ⟨differs, inside, by omega⟩
/-- Nor of the blocks. -/
theorem covers_blocks {size : Nat} (whole : size = count * g.block_size) (i : Nat) (rest : remaining g D m 0 0 i) :
    (start * g.block_size ≤ i ∧ i < start * g.block_size + size) ∨ remaining g D m start count i := by
  subst whole
  by_cases inside : start * g.block_size ≤ i ∧ i < start * g.block_size + count * g.block_size
  · exact .inl inside
  · exact .inr ⟨rest.1, rest.2.1, inside⟩
theorem settled_end {α : Type} {r r' : Ended Filesystem Ext4Error α} (placed : Placed fs count m start)
    (same : Same (Agree g (remaining g D m start count)) (Agree g (remaining g D m start count)) r r') :
    Same (Settled g D fs count) (Agree g D) r r' := by
  refine same.mono (fun _ _ agree m' start' other => ?_) fun _ _ => agree_remaining
  obtain ⟨rfl, rfl⟩ := placed_unique placed other
  exact agree

/-- The end of the calls that create a file or a link. -/
theorem enter_same (agree : Agree g D s t) (one : OneBlock g inode block) (clear : Clear D (block * g.block_size) g.block_size)
    (name : List UInt8) (n : UInt32) (code : UInt8) :
    Same (Agree g D) (Agree g D) ((do add_dir_entry inode name n code; flush_metadata; pure n : Call UInt32).run s)
      ((do add_dir_entry inode name n code; flush_metadata; pure n : Call UInt32).run t) := by
  refine same_bind (add_dir_entry_same agree one clear name n code) fun _ s t _ _ agree => ?_
  refine same_bind (flush_agree agree) fun _ s t _ _ agree => ?_
  exact same_pure agree n

theorem copy_size {b src buf : Bytes} {offset : Nat} (copied : b.copy offset src = (.ok buf : Res Ext4Error Bytes)) :
    buf.size = b.size := by
  rw [copy] at copied
  split at copied
  · rename_i fits
    cases copied
    exact size_patch _ _ _ fits
  · cases copied
theorem in_u64_eq {n k : Nat} (value : in_u64 n = .ok k) : k = n := by
  rw [in_u64] at value
  split at value
  · exact (Except.ok.inj value).symm
  · cases value

/-- The two dots fill a block. -/
theorem dots_size {n parent : UInt32} {size : Nat} (known : size = 1024 ∨ size = 2048 ∨ size = 4096 ∨ size = 65536)
    (narrow : 12 ≤ size % 65536) {mid data : Bytes}
    (dot : encode_range ⟨n, 12, 2, DOT⟩ (zeros size) 0 12 = .ok mid)
    (dotdot : encode_range ⟨parent, .ofNat (size % 65536 - 12), 2, DOTDOT⟩ mid 12 size = .ok data) : data.size = size := by
  have whole : size % 65536 = size := by omega
  obtain ⟨mid', data', dot', dotdot', filled, -⟩ := dots_ok size (by omega) (by omega) (by omega) n parent
  rw [whole] at dotdot
  cases dot.symm.trans dot'
  cases dotdot.symm.trans dotdot'
  exact filled

/-! ### The three calls -/

section
variable (late : Late g D) (agree : Agree g D s t) (one : OneBlock g inode block)
  (clear : Clear D (block * g.block_size) g.block_size)
include late agree one clear

theorem create_file_at_same {data : Bytes} (few : div_ceil data.size g.block_size < 4294967296) (name : List UInt8) :
    Same (Settled g D s (div_ceil data.size g.block_size)) (Agree g D) ((create_file_at data inode name).run s)
      ((create_file_at data inode name).run t) := by
  have size := agree.static.block_size
  refine same_reads_bind agree (by rw [agree.superblock]) fun block_size same => ?_
  obtain rfl : g.block_size = block_size := by rw [← size]; exact Except.ok.inj same
  refine same_bind (allocate_inode_same late agree) fun m s₁ t₁ inode_taken _ agree => ?_
  refine same_bind (allocate_blocks_same late agree _) fun start s₂ t₂ blocks_taken _ agree => ?_
  rw [Nat.mod_eq_of_lt few] at blocks_taken
  have placed : Placed s (div_ceil data.size g.block_size) m start := ⟨s₁, s₂, inode_taken, blocks_taken⟩
  refine same_lift_bind agree fun extents _ => ?_
  refine same_bind (write_inode_same agree _ covers_slot) fun _ s₃ t₃ _ _ agree => ?_
  by_cases some : 0 < div_ceil data.size g.block_size
  · rw [if_pos some]
    refine same_lift_bind (agree_remaining agree) fun buf copied => ?_
    refine same_lift_bind (agree_remaining agree) fun offset value => ?_
    obtain rfl := in_u64_eq value
    refine same_bind (write_at_same agree (covers_blocks (copy_size copied))) fun _ s₄ t₄ _ _ agree => ?_
    exact settled_end placed (enter_same agree one (clear_remaining clear) name m 1)
  · rw [if_neg some]
    have none : div_ceil data.size g.block_size = 0 := by omega
    refine settled_end placed (enter_same (agree.wider fun i rest => ?_) one (clear_remaining clear) name m 1)
    rw [none]
    exact ⟨rest.1, rest.2.1, by omega⟩

theorem symlink_at_same (target : Bytes) (name : List UInt8) :
    Same (Settled g D s 0) (Agree g D) ((symlink_at target inode name).run s) ((symlink_at target inode name).run t) := by
  refine same_bind (allocate_inode_same late agree) fun m s₁ t₁ inode_taken _ agree => ?_
  have placed : Placed s 0 m 0 := ⟨s₁, s₁, inode_taken, Allocation.allocate_none s₁⟩
  refine same_lift_bind agree fun block_bytes _ => ?_
  refine same_bind (write_inode_same agree _ covers_slot) fun _ s₂ t₂ _ _ agree => ?_
  exact settled_end placed (enter_same agree one (clear_remaining clear) name m 7)

theorem mkdir_at_same (parent : UInt32) (name : List UInt8) :
    Same (Settled g D s 1) (Agree g D) ((mkdir_at parent inode name).run s) ((mkdir_at parent inode name).run t) := by
  have size := agree.static.block_size
  refine same_reads_bind agree (by rw [agree.superblock]) fun block_size same => ?_
  obtain rfl : g.block_size = block_size := by rw [← size]; exact Except.ok.inj same
  refine same_bind (allocate_inode_same late agree) fun m s₁ t₁ inode_taken _ agree => ?_
  refine same_bind (allocate_blocks_same late agree 1) fun start s₂ t₂ blocks_taken _ agree => ?_
  have placed : Placed s 1 m start := ⟨s₁, s₂, inode_taken, blocks_taken⟩
  refine same_lift_bind agree fun extents _ => ?_
  refine same_bind (write_inode_same agree _ covers_slot) fun _ s₃ t₃ _ _ agree => ?_
  have wide := agree_remaining agree
  refine same_lift_bind wide fun _ narrow => ?_
  refine same_lift_bind wide fun mid dot => ?_
  refine same_lift_bind wide fun data dotdot => ?_
  refine same_lift_bind wide fun offset value => ?_
  obtain rfl := in_u64_eq value
  have whole : data.size = g.block_size :=
    dots_size g.known (of_decide_eq_true (orPanic_eq_ok.mp narrow)) (liftErr_eq_ok.mp dot) (liftErr_eq_ok.mp dotdot)
  refine same_bind (write_at_same agree (covers_blocks (by rw [whole, Nat.one_mul]))) fun _ s₄ t₄ _ _ agree => ?_
  refine settled_end placed ?_
  refine same_bind (add_dir_entry_same agree one (clear_remaining clear) name m 2) fun _ s t _ _ agree => ?_
  refine same_lift_bind agree fun _ _ => ?_
  refine same_bind (write_inode_agree agree parent _) fun _ s t _ _ agree => ?_
  refine same_reads_bind agree (by rw [agree.gdt_at]) fun _ _ => ?_
  refine same_bind (change_gdt0_same agree fun _ => ⟨rfl, rfl, rfl⟩) fun _ s t _ _ agree => ?_
  refine same_bind (flush_agree agree) fun _ s t _ _ agree => ?_
  exact same_pure agree m
end
end

end Justext4.TakenSpace
