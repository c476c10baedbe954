import Justext4.Sessions
import Justext4.StoredFile

/-!
The counts of what is free, over whole sessions. A call that fails may leave an
inode and blocks taken that nothing uses, and an image that is opened again has
the counts that were written out last. So the counts need not be those of the
bitmaps. But neither in memory nor on the image do they ever say that more is
free than the tree leaves, and so no call runs a count over.
-/
namespace Justext4.Ledger
open Justext4 Justext4.Fallible Justext4.Filesystem Justext4.Volumes Justext4.Mkfs Bytes
open Justext4.Superblock (Superblock SUPERBLOCK_OFFSET SUPERBLOCK_SIZE)
open Justext4.GroupDescriptor (GroupDescriptor)
open Justext4.Inode (Inode)
open Justext4.Images (tableOffset)
open Justext4.Recounting
open Justext4.FlushedRecords
open Justext4.DirBlock
open Justext4.NamedTree
open Justext4.Nodes
open Justext4.Backing
open Justext4.Counts
open Justext4.Reading
open Justext4.Leaves
open Justext4.Allocation
open Justext4.Create
open Justext4.Remove
open Justext4.Paths
open Justext4.Rename (Renaming Cleared Relocated Aim Astray directory_of_open rename_ends)
open Justext4.Change
open Justext4.Calls
open Justext4.Simulation (Run)
open Justext4.OnDisk
open Justext4.Sessions

/-! ### What a tree leaves -/

/-- How many blocks and inodes are left, and how many directories there are. -/
structure Room where
  blocks : Nat
  inodes : Nat
  dirs : Nat

/-- The blocks and the inodes that something has. -/
def Held (g : Geometry) (N : NodeMap) (b : Nat) : Prop := b < g.root ∨ ∃ n x, N n = some x ∧ x.Owns b
def Numbered (N : NodeMap) (i : Nat) : Prop := i < 10 ∨ Live N (.ofNat (i + 1))

open Classical in
/-- What a tree leaves. -/
noncomputable def room (g : Geometry) (N : NodeMap) : Room where
  blocks := clearBits (fun b => decide (Held g N b)) g.total
  inodes := clearBits (fun i => decide (Numbered N i)) g.per_group
  dirs := dirs g N

structure Room.Le (small large : Room) : Prop where
  blocks : small.blocks ≤ large.blocks
  inodes : small.inodes ≤ large.inodes
  dirs : small.dirs ≤ large.dirs

/-- What is left when so much is taken, or given back. -/
def Room.less (room : Room) (blocks inodes : Nat) : Room := ⟨room.blocks - blocks, room.inodes - inodes, room.dirs⟩
def Room.more (room : Room) (blocks inodes : Nat) : Room := ⟨room.blocks + blocks, room.inodes + inodes, room.dirs⟩
/-- The same with another number of directories. -/
def Room.onDirs (room : Room) (f : Nat → Nat) : Room := { room with dirs := f room.dirs }

theorem clearBits_mono {bit bit' : Nat → Bool} {n : Nat} (more : ∀ i < n, bit' i = true → bit i = true) :
    clearBits bit n ≤ clearBits bit' n := by
  rw [clearBits, clearBits]
  refine List.countP_mono_left fun i member clear => ?_
  have inside := List.mem_range.mp member
  cases set : bit' i with
  | false => rfl
  | true =>
    rw [more i inside set] at clear
    cases clear
/-- Setting a run takes no more than its length off the count. -/
theorem clearBits_run (bit : Nat → Bool) (s c n : Nat) :
    clearBits bit n ≤ clearBits (fun j => bit j || decide (s ≤ j ∧ j < s + c)) n + c := by
  have bound : ∀ n, clearBits bit n ≤ clearBits (fun j => bit j || decide (s ≤ j ∧ j < s + c)) n + (min n (s + c) - min n s) := by
    intro n
    induction n with
    | zero => simp [clearBits]
    | succ n ih =>
      rw [clearBits_succ, clearBits_succ]
      by_cases inside : s ≤ n ∧ n < s + c
      · rw [decide_eq_true inside]
        simp only [Bool.or_true, ↓reduceIte]
        split <;> omega
      · rw [decide_eq_false inside, Bool.or_false]
        split <;> omega
  have bound := bound n
  omega

section
variable {g : Geometry} {N N' : NodeMap}

open Classical in
/-- A tree that takes a run of blocks at most leaves the rest. -/
theorem held_taken {s c : Nat} (taken : ∀ b, Held g N' b → Held g N b ∨ s ≤ b ∧ b < s + c) :
    (room g N).blocks - c ≤ (room g N').blocks := by
  have run := clearBits_run (fun b => decide (Held g N b)) s c g.total
  have mono : clearBits (fun j => decide (Held g N j) || decide (s ≤ j ∧ j < s + c)) g.total ≤ (room g N').blocks := by
    refine clearBits_mono fun b _ held => ?_
    rw [Bool.or_eq_true, decide_eq_true_eq, decide_eq_true_eq]
    exact taken b (of_decide_eq_true held)
  have whole : (room g N).blocks = clearBits (fun b => decide (Held g N b)) g.total := rfl
  omega
open Classical in
/-- A tree that gives a run of its blocks back leaves those as well. -/
theorem held_given {s c : Nat} (inside : s + c ≤ g.total) (had : ∀ b, s ≤ b → b < s + c → Held g N b)
    (given : ∀ b, Held g N' b → Held g N b ∧ ¬ (s ≤ b ∧ b < s + c)) : (room g N).blocks + c ≤ (room g N').blocks := by
  have run := clearBits_give (fun b => decide (Held g N b)) (fun b low high => decide_eq_true (had b low high)) inside
  have mono : clearBits (fun j => decide (Held g N j) && !decide (s ≤ j ∧ j < s + c)) g.total ≤ (room g N').blocks := by
    refine clearBits_mono fun b _ held => ?_
    obtain ⟨kept, outside⟩ := given b (of_decide_eq_true held)
    rw [Bool.and_eq_true, Bool.not_eq_true', decide_eq_true_eq, decide_eq_false_iff_not]
    exact ⟨kept, outside⟩
  have whole : (room g N).blocks = clearBits (fun b => decide (Held g N b)) g.total := rfl
  omega
open Classical in
/-- The same for the number of an inode. -/
theorem numbered_taken {i : Nat} (taken : ∀ j < g.per_group, Numbered N' j → Numbered N j ∨ j = i) :
    (room g N).inodes - 1 ≤ (room g N').inodes := by
  have run := clearBits_run (fun j => decide (Numbered N j)) i 1 g.per_group
  have mono : clearBits (fun j => decide (Numbered N j) || decide (i ≤ j ∧ j < i + 1)) g.per_group ≤ (room g N').inodes := by
    refine clearBits_mono fun j inside held => ?_
    rw [Bool.or_eq_true, decide_eq_true_eq, decide_eq_true_eq]
    exact (taken j inside (of_decide_eq_true held)).imp_right fun same => by omega
  have whole : (room g N).inodes = clearBits (fun j => decide (Numbered N j)) g.per_group := rfl
  omega
open Classical in
theorem numbered_given {i : Nat} (inside : i < g.per_group) (had : Numbered N i)
    (given : ∀ j < g.per_group, Numbered N' j → Numbered N j ∧ j ≠ i) : (room g N).inodes + 1 ≤ (room g N').inodes := by
  have run := clearBits_give (fun j => decide (Numbered N j)) (s := i) (c := 1) (n := g.per_group)
    (fun j low high => decide_eq_true (show j = i by omega ▸ had)) (by omega)
  have mono : clearBits (fun j => decide (Numbered N j) && !decide (i ≤ j ∧ j < i + 1)) g.per_group ≤ (room g N').inodes := by
    refine clearBits_mono fun j small held => ?_
    obtain ⟨kept, other⟩ := given j small (of_decide_eq_true held)
    rw [Bool.and_eq_true, Bool.not_eq_true', decide_eq_true_eq, decide_eq_false_iff_not]
    exact ⟨kept, fun both => other (by omega)⟩
  have whole : (room g N).inodes = clearBits (fun j => decide (Numbered N j)) g.per_group := rfl
  omega
end

/-! ### What a change of the tree does to it -/

section
variable {g : Geometry} {v v' : Volume} {N N' : NodeMap} {n p : UInt32} {x : Node} {s c : Nat}

theorem Room.Le.refl (room : Room) : room.Le room := ⟨Nat.le_refl _, Nat.le_refl _, Nat.le_refl _⟩
theorem Room.Le.trans {a b c : Room} (first : a.Le b) (second : b.Le c) : a.Le c :=
  ⟨Nat.le_trans first.blocks second.blocks, Nat.le_trans first.inodes second.inodes, Nat.le_trans first.dirs second.dirs⟩

theorem number_of {n : UInt32} {i : Nat} (inside : i < g.per_group) (low : 1 ≤ n.toNat) :
    UInt32.ofNat (i + 1) = n ↔ i = n.toNat - 1 := by
  have word := per_group_word g
  rw [← UInt32.toNat_inj, word32 (by omega)]
  omega
theorem held_modify {f : Node → Node} (keeps : ∀ z b, (f z).Owns b → z.Owns b) {b : Nat} (held : Held g (modify N p f) b) :
    Held g N b := by
  rcases held with low | ⟨m, y, there, owns⟩
  · exact .inl low
  · rcases modify_some there with ⟨-, old⟩ | ⟨rfl, z, old, rfl⟩
    · exact .inr ⟨m, y, old, owns⟩
    · exact .inr ⟨m, z, old, keeps z b owns⟩

theorem room_grown {path : List UInt8} (grown : Grown g v v' N N' path n x) (run : ∀ b, x.Owns b → s ≤ b ∧ b < s + c) :
    (((room g N).less c 1).onDirs (· + if x.code = 2 then 1 else 0)).Le (room g N') := by
  have number := grown.number
  have listed : n.toNat ≤ g.inodes := by
    obtain ⟨_, name, p, block, parent, kids, place, nodes, -⟩ := grown.place
    exact (grown.consistent.sound (show N' n = some x by rw [nodes]; exact if_pos rfl)).listed
  obtain ⟨_, name, p, block, parent, kids, place, rfl, -⟩ := grown.place
  refine ⟨held_taken (s := s) fun b held => ?_, numbered_taken (i := n.toNat - 1) fun j inside numbered => ?_, ?_⟩
  · rcases held with low | ⟨m, y, there, owns⟩
    · exact .inl (.inl low)
    · rcases withLeaf_cases place.directory.found there with ⟨-, rfl⟩ | ⟨rfl, rfl⟩ | ⟨-, old⟩
      · exact .inr (run b owns)
      · exact .inl (.inr ⟨_, _, place.directory.found, owns⟩)
      · exact .inl (.inr ⟨m, y, old, owns⟩)
  · rcases numbered with low | live
    · exact .inl (.inl low)
    · exact (withLeaf_live.mp live).imp (fun old => .inr old) (number_of inside (by omega)).mp
  · exact Nat.le_of_eq (dirs_withLeaf listed grown.dead).symm
/-- A tree without a leaf has the blocks of the other nodes. -/
theorem held_withoutLeaf (consistent : Consistent g v N) (here : N n = some x) {name : List UInt8} {b : Nat}
    (held : Held g (withoutLeaf N p name n) b) : Held g N b ∧ ¬ x.Owns b := by
  have sound := consistent.sound here
  rcases held with low | ⟨m, y, there, owns⟩
  · exact ⟨.inl low, fun owns => Nat.not_lt.mpr (sound.owned b owns).1 low⟩
  · have other : m ≠ n := by
      rintro rfl
      rw [withoutLeaf, erase, if_pos rfl] at there
      cases there
    rw [withoutLeaf, erase, if_neg other, dropKid] at there
    rcases modify_some there with ⟨-, old⟩ | ⟨rfl, z, old, rfl⟩
    · exact ⟨.inr ⟨m, y, old, owns⟩, fun owns' => consistent.apart old here other b owns owns'⟩
    · have owns : z.Owns b := by simpa using owns
      exact ⟨.inr ⟨m, z, old, owns⟩, fun owns' => consistent.apart old here other b owns owns'⟩
theorem room_pruned {block : Nat} {parent : UInt32} {kids : List Kid} {name : List UInt8} (consistent : Consistent g v N)
    (pruned : Pruned g v v' N N' p block parent kids name n x) (run : ∀ b, x.Owns b ↔ s ≤ b ∧ b < s + c) :
    (((room g N).more c 1).onDirs (· - if x.code = 2 then 1 else 0)).Le (room g N') := by
  have sound := consistent.sound pruned.here
  have low := sound.low
  have listed := sound.listed
  have inodes := g.inodes_high
  have total := g.limit_total
  have large : 11 ≤ n.toNat := by
    rcases sound.number with root | large
    · exact absurd (root ▸ (child_dir pruned.found name).trans pruned.edge) (consistent.linked.tree.top p name)
    · exact large
  rw [pruned.nodes]
  constructor
  · by_cases some : 0 < c
    · have last := (sound.owned (s + c - 1) ((run _).mpr ⟨by omega, by omega⟩)).2.1
      refine held_given (s := s) (by omega) (fun b low high => .inr ⟨n, x, pruned.here, (run b).mpr ⟨low, high⟩⟩)
        fun b held => ?_
      rw [← run]
      exact held_withoutLeaf consistent pruned.here held
    · have kept : (room g N).blocks - 0 ≤ (room g (withoutLeaf N p name n)).blocks := held_taken (s := 0) fun b held =>
        .inl (held_withoutLeaf consistent pruned.here held).1
      show (room g N).blocks + c ≤ _
      omega
  · refine numbered_given (i := n.toNat - 1) (by omega) (.inr ?_) fun j inside numbered => ?_
    · rw [Nat.sub_add_cancel low, UInt32.ofNat_toNat]
      exact live_of pruned.here
    · rcases numbered with early | live
      · exact ⟨.inl early, by omega⟩
      · obtain ⟨old, other⟩ := withoutLeaf_live.mp live
        exact ⟨.inr old, fun same => other ((number_of inside low).mpr same)⟩
  · have fewer := dirs_withoutLeaf p name listed pruned.here
    show dirs g N - _ ≤ dirs g (withoutLeaf N p name n)
    omega

open Classical in
/-- A tree whose nodes have no more blocks leaves no less. -/
theorem room_same (held : ∀ b, Held g N' b → Held g N b) (live : Live N' = Live N) (same : dirs g N' = dirs g N) :
    (room g N).Le (room g N') := by
  have blocks : (room g N).blocks - 0 ≤ (room g N').blocks := held_taken (s := 0) fun b there => .inl (held b there)
  refine ⟨by omega, clearBits_mono fun i _ set => ?_, Nat.le_of_eq same.symm⟩
  rw [decide_eq_true_eq] at set ⊢
  rwa [Numbered, live] at set
theorem room_moved (N : NodeMap) (p : UInt32) (old_name : List UInt8) (p' : UInt32) (new_name : List UInt8) (m : UInt32)
    (code : UInt8) : (room g N).Le (room g (moved N p old_name p' new_name m code)) :=
  room_same (fun _ held => held_modify (by simp) (held_modify (by simp) (held_modify (by simp) held))) (Rename.live_moved code)
    (Rename.dirs_moved code)
/-- A file that is cut gives back what is behind the cut. -/
theorem room_cut {start count kept : Nat} (consistent : Consistent g v N) (here : N n = some (.file start count))
    (there : N' n = some (.file start kept)) (le : kept ≤ count) (others : ∀ m, m ≠ n → N' m = N m) :
    ((room g N).more (count - kept) 0).Le (room g N') := by
  have sound := consistent.sound here
  have total := g.limit_total
  have held : ∀ b, Held g N' b → Held g N b ∧ ¬ (start + kept ≤ b ∧ b < start + kept + (count - kept)) := by
    rintro b (low | ⟨m, y, found, owns⟩)
    · refine ⟨.inl low, fun inside => ?_⟩
      have high := (sound.owned b ⟨by omega, by omega⟩).1
      omega
    · by_cases same : m = n
      · subst same
        cases there.symm.trans found
        obtain ⟨first, last⟩ : start ≤ b ∧ b < start + kept := owns
        exact ⟨.inr ⟨m, _, here, ⟨first, by omega⟩⟩, by omega⟩
      · rw [others m same] at found
        exact ⟨.inr ⟨m, y, found, owns⟩, fun inside => consistent.apart found here same b owns ⟨by omega, by omega⟩⟩
  have kinds : ∀ m, (N' m).map (·.code) = (N m).map (·.code) := by
    intro m
    by_cases same : m = n
    · rw [same, here, there]
      rfl
    · rw [others m same]
  have live : Live N' = Live N := by
    funext m
    by_cases same : m = n
    · rw [Live, Live, same, here, there]
      simp
    · rw [Live, Live, others m same]
  obtain ⟨-, inodes, directories⟩ := room_same (fun b inside => (held b inside).1) live (dirs_congr kinds)
  refine ⟨?_, inodes, directories⟩
  by_cases some : kept < count
  · have last := (sound.owned (start + count - 1) ⟨by omega, by omega⟩).2.1
    refine held_given (s := start + kept) (by omega) (fun b low high => .inr ⟨n, _, here, ⟨by omega, by omega⟩⟩) held
  · have same : (room g N).blocks - 0 ≤ (room g N').blocks := held_taken (s := 0) fun b inside => .inl (held b inside).1
    show (room g N).blocks + (count - kept) ≤ _
    omega
end

/-! ### What a call charges -/

/-- The counts in memory say no more than that. -/
structure Within (room : Room) (fs : Filesystem) : Prop where
  blocks : fs.superblock.free_blocks_count.toNat ≤ room.blocks
  inodes : fs.superblock.free_inodes_count.toNat ≤ room.inodes
  group : ∀ gd, fs.gdt[0]? = some gd → gd.free_blocks_count.toNat ≤ room.blocks ∧ gd.free_inodes_count.toNat ≤ room.inodes ∧
    gd.used_dirs_count.toNat ≤ room.dirs

/-- The call leaves the records in memory as they are. -/
abbrev Steady {α : Type} (call : Call α) : Prop :=
  Follows (fun fs fs' => fs'.superblock = fs.superblock ∧ fs'.gdt = fs.gdt) call
/-- A call that returns has taken so much, or given it back. -/
structure Charges {α : Type} (f : Room → Room) (call : Call α) : Prop where
  ran : ∀ {room fs a fs'}, Within room fs → call.run fs = .ok a fs' → Within (f room) fs'

section
variable {α β : Type} {f h : Room → Room} {fs fs' : Filesystem}

theorem Within.mono {small large : Room} (within : Within small fs) (le : small.Le large) : Within large fs := by
  refine ⟨Nat.le_trans within.blocks le.blocks, Nat.le_trans within.inodes le.inodes, fun gd found => ?_⟩
  obtain ⟨blocks, inodes, dirs⟩ := within.group gd found
  exact ⟨Nat.le_trans blocks le.blocks, Nat.le_trans inodes le.inodes, Nat.le_trans dirs le.dirs⟩
theorem Within.records {room : Room} (within : Within room fs) (superblock : fs'.superblock = fs.superblock)
    (gdt : fs'.gdt = fs.gdt) : Within room fs' := by
  obtain ⟨blocks, inodes, group⟩ := within
  exact ⟨superblock ▸ blocks, superblock ▸ inodes, gdt ▸ group⟩
theorem Within.lowered {room : Room} (within : Within room fs) (lowered : Lowered fs fs') : Within room fs' := by
  refine ⟨Nat.le_trans lowered.blocks within.blocks, Nat.le_trans lowered.inodes within.inodes, fun gd' found => ?_⟩
  obtain ⟨gd, there, fewer⟩ := lowered.group gd' found
  obtain ⟨blocks, inodes, dirs⟩ := within.group gd there
  exact ⟨Nat.le_trans fewer.blocks blocks, Nat.le_trans fewer.inodes inodes, Nat.le_trans fewer.dirs dirs⟩

theorem steady_reads (r : Filesystem → Res Ext4Error α) : Steady (reads r) := follows_reads (fun _ => ⟨rfl, rfl⟩) r
theorem steady_pure (a : α) : Steady (pure a : Call α) := follows_pure (fun _ => ⟨rfl, rfl⟩) a
theorem steady_bind {x : Call α} {k : α → Call β} (first : Steady x) (later : ∀ a, Steady (k a)) : Steady (x >>= k) :=
  follows_bind (fun _ _ _ first second => ⟨second.1.trans first.1, second.2.trans first.2⟩) first later
theorem steady_write_at (offset : Nat) (src : Bytes) : Steady (write_at offset src) := follows_change fun _ => ⟨rfl, rfl⟩
theorem steady_write_inode (n : UInt32) (inode : Inode) : Steady (write_inode n inode) :=
  steady_bind (steady_reads _) fun _ => steady_bind (steady_reads _) fun _ => steady_bind (steady_reads _) fun _ =>
    steady_write_at ..
theorem steady_edit (inode : Inode) (edit : Bytes → Res Ext4Error Bytes) : Steady (Agreement.edit_block inode edit) :=
  steady_bind (steady_reads _) fun _ => steady_bind (steady_reads _) fun _ => steady_write_at ..
theorem steady_add_dir_entry (inode : Inode) (name : List UInt8) (n : UInt32) (code : UInt8) :
    Steady (add_dir_entry inode name n code) := steady_edit inode fun buf => insert_entry buf name n code
theorem steady_remove_dir_entry (inode : Inode) (n : UInt32) (name : List UInt8) : Steady (remove_dir_entry inode n name) :=
  steady_edit inode fun buf => erase_entry buf n name
theorem steady_write_gdt (offset : Nat) (buf : Bytes) (gds : List GroupDescriptor) : Steady (write_gdt offset buf gds) := by
  induction gds generalizing offset buf with
  | nil => exact steady_pure _
  | cons gd rest ih => exact steady_bind (steady_reads _) fun _ => steady_bind (steady_write_at ..) fun _ => ih ..
theorem steady_flush : Steady flush_metadata :=
  steady_bind (steady_reads _) fun _ => steady_bind (steady_write_at ..) fun _ => steady_bind (steady_reads _) fun _ =>
    steady_write_gdt ..
theorem Steady.within {call : Call α} (steady : Steady call) {room : Room} {a : α} (within : Within room fs)
    (ran : call.run fs = .ok a fs') : Within room fs' := by
  obtain ⟨superblock, gdt⟩ := (steady.ends fs).ok ran
  exact within.records superblock gdt

theorem charges_steady {call : Call α} (steady : Steady call) : Charges id call := ⟨fun within ran => steady.within within ran⟩
theorem charges_bind {x : Call α} {k : α → Call β} (first : Charges f x) (later : ∀ a, Charges h (k a)) :
    Charges (h ∘ f) (x >>= k) := by
  constructor
  intro room fs b fs' within ran
  obtain ⟨a, mid, ran₁, ran₂⟩ := run_bind_eq_ok.mp ran
  exact (later a).ran (first.ran within ran₁) ran₂
/-- What leaves the records as they are does not count. -/
theorem charges_after {x : Call α} {k : α → Call β} (first : Steady x) (later : ∀ a, Charges f (k a)) :
    Charges f (x >>= k) := charges_bind (charges_steady first) later
theorem charges_before {x : Call α} {k : α → Call β} (first : Charges f x) (later : ∀ a, Steady (k a)) :
    Charges f (x >>= k) := charges_bind (f := f) (h := id) first fun a => charges_steady (later a)

theorem word32_le (n : Nat) : (UInt32.ofNat n).toNat ≤ n := by
  rw [UInt32.toNat_ofNat']
  exact Nat.mod_le _ _
theorem word64_le (n : Nat) : (UInt64.ofNat n).toNat ≤ n := by
  rw [UInt64.toNat_ofNat']
  exact Nat.mod_le _ _

theorem charges_allocate_inode : Charges (·.less 0 1) allocate_inode := by
  refine charges_after (steady_reads _) fun gd => charges_after (steady_reads _) fun (offset, buf) => ?_
  refine charges_after (steady_reads _) fun bit => charges_after (steady_reads _) fun buf' => ?_
  refine charges_after (steady_write_at ..) fun _ => ⟨fun {room fs n fs'} within ran => ?_⟩
  cases ran
  refine ⟨within.blocks, Nat.le_trans (word32_le _) (Nat.sub_le_sub_right within.inodes 1), fun gd found => ?_⟩
  obtain ⟨old, there, rfl⟩ := group_change found
  obtain ⟨blocks, inodes, dirs⟩ := within.group old there
  exact ⟨blocks, Nat.le_trans (word32_le _) (Nat.sub_le_sub_right inodes 1), dirs⟩
theorem charges_allocate_blocks (count : Nat) : Charges (·.less count 0) (allocate_blocks_contiguous count) := by
  unfold allocate_blocks_contiguous
  split
  · rename_i none
    rw [none]
    exact charges_steady (steady_pure _)
  refine charges_after (steady_reads _) fun gd => charges_after (steady_reads _) fun (offset, buf) => ?_
  refine charges_after (steady_reads _) fun start => charges_after (steady_reads _) fun buf' => ?_
  refine charges_after (steady_write_at ..) fun _ => ⟨fun {room fs n fs'} within ran => ?_⟩
  cases ran
  refine ⟨Nat.le_trans (word64_le _) (Nat.sub_le_sub_right within.blocks count), within.inodes, fun gd found => ?_⟩
  obtain ⟨old, there, rfl⟩ := group_change found
  obtain ⟨blocks, inodes, dirs⟩ := within.group old there
  exact ⟨Nat.le_trans (word32_le _) (Nat.sub_le_sub_right blocks count), inodes, dirs⟩
theorem charges_free_inode (n : UInt32) : Charges (·.more 0 1) (free_inode n) := by
  refine charges_after (steady_reads _) fun gd => charges_after (steady_reads _) fun (offset, buf) => ?_
  refine charges_after (steady_reads _) fun _ => charges_after (steady_reads _) fun buf' => ?_
  refine charges_after (steady_write_at ..) fun _ => charges_after (steady_reads _) fun _ => ?_
  refine ⟨fun {room fs u fs'} within ran => ?_⟩
  obtain ⟨_, mid, counted, ran⟩ := run_bind_eq_ok.mp ran
  cases counted
  obtain ⟨_, -, ran⟩ := reads_then_eq_ok.mp ran
  cases ran
  refine ⟨within.blocks, Nat.le_trans (word32_le _) (Nat.add_le_add_right within.inodes 1), fun gd found => ?_⟩
  obtain ⟨old, there, rfl⟩ := group_change found
  obtain ⟨blocks, inodes, dirs⟩ := within.group old there
  exact ⟨blocks, Nat.le_trans (word32_le _) (Nat.add_le_add_right inodes 1), dirs⟩
theorem charges_used_dirs {f : Nat → Nat} (mono : ∀ {a b}, a ≤ b → f a ≤ f b) :
    Charges (·.onDirs f) (change_gdt0 (on_used_dirs f)) := by
  constructor
  intro room fs u fs' within ran
  cases ran
  refine ⟨within.blocks, within.inodes, fun gd found => ?_⟩
  obtain ⟨old, there, rfl⟩ := group_change found
  obtain ⟨blocks, inodes, dirs⟩ := within.group old there
  exact ⟨blocks, inodes, Nat.le_trans (word32_le _) (mono dirs)⟩

/-! ### The calls that make an inode -/

/-- What is read before leaves everything as it is. -/
theorem read_ran {r : Filesystem → Res Ext4Error β} {next : β → Call α} {a : α}
    (ran : (reads r >>= next).run fs = .ok a fs') : ∃ b, r fs = .ok b ∧ (next b).run fs = .ok a fs' := by
  obtain ⟨b, value, later⟩ := reads_then_eq_ok.mp ran
  exact ⟨b, value, later⟩
theorem under_ran {path : List UInt8} {next : UInt32 → Inode → List UInt8 → Call α} {a : α}
    (ran : (under path next).run fs = .ok a fs') : ∃ p inode name, (next p inode name).run fs = .ok a fs' := by
  obtain ⟨⟨parent_path, name⟩, -, ran₁⟩ := read_ran ran
  obtain ⟨⟨p, inode⟩, -, ran₂⟩ := read_ran ran₁
  obtain ⟨_, -, ran₃⟩ := read_ran ran₂
  exact ⟨p, inode, name, ran₃⟩

variable {inode : Inode} {name : List UInt8} {n : UInt32} {room : Room}

theorem steady_enter (inode : Inode) (name : List UInt8) (n : UInt32) (code : UInt8) :
    Steady (do add_dir_entry inode name n code; flush_metadata; pure n : Call UInt32) :=
  steady_bind (steady_add_dir_entry ..) fun _ => steady_bind steady_flush fun _ => steady_pure _
theorem create_file_at_charges {data : Bytes} {d : Nat} (size : fs.superblock.block_size.toNat = d)
    (few : div_ceil data.size d < 4294967296) (within : Within room fs)
    (ran : (create_file_at data inode name).run fs = .ok n fs') : Within (room.less (div_ceil data.size d) 1) fs' := by
  obtain ⟨_, value, ran₁⟩ := read_ran ran
  cases value
  rw [size] at ran₁
  obtain ⟨m, fs₁, numbered, ran₂⟩ := run_bind_eq_ok.mp ran₁
  have within₁ := charges_allocate_inode.ran within numbered
  obtain ⟨start, fs₂, taken, ran₃⟩ := run_bind_eq_ok.mp ran₂
  have within₂ := (charges_allocate_blocks _).ran within₁ taken
  rw [Nat.mod_eq_of_lt few] at within₂
  refine (charges_steady ?_).ran within₂ ran₃
  refine steady_bind (steady_reads _) fun block => steady_bind (steady_write_inode ..) fun _ => ?_
  split
  · refine steady_bind (steady_reads _) fun _ => steady_bind (steady_reads _) fun _ => ?_
    exact steady_bind (steady_write_at ..) fun _ => steady_enter ..
  · exact steady_enter ..
theorem symlink_at_charges (target : Bytes) (inode : Inode) (name : List UInt8) :
    Charges (·.less 0 1) (symlink_at target inode name) :=
  charges_before charges_allocate_inode fun _ => steady_bind (steady_reads _) fun _ =>
    steady_bind (steady_write_inode ..) fun _ => steady_enter ..
theorem mkdir_at_charges (p : UInt32) (inode : Inode) (name : List UInt8) :
    Charges (fun room => (room.less 1 1).onDirs (· + 1)) (mkdir_at p inode name) := by
  have counted : Charges (·.onDirs (· + 1)) (change_gdt0 (on_used_dirs (· + 1))) := charges_used_dirs fun le => by omega
  refine charges_after (steady_reads _) fun d => ?_
  refine charges_bind (h := fun room => (room.less 1 0).onDirs (· + 1)) charges_allocate_inode fun m => ?_
  refine charges_bind (h := fun room => room.onDirs (· + 1)) (charges_allocate_blocks 1) fun b => ?_
  refine charges_after (steady_reads _) fun block => charges_after (steady_write_inode ..) fun _ => ?_
  refine charges_after (steady_reads _) fun _ => charges_after (steady_reads _) fun _ => ?_
  refine charges_after (steady_reads _) fun _ => charges_after (steady_reads _) fun _ => ?_
  refine charges_after (steady_write_at ..) fun _ => charges_after (steady_add_dir_entry ..) fun _ => ?_
  refine charges_after (steady_reads _) fun _ => charges_after (steady_write_inode ..) fun _ => ?_
  refine charges_after (steady_reads _) fun _ => charges_before counted fun _ => ?_
  exact steady_bind steady_flush fun _ => steady_pure _
end

/-! ### The calls that remove an inode -/

section
variable {g : Geometry} {v v' : Volume} {N N' : NodeMap} {fs fs' : Filesystem} {n p : UInt32} {x : Node} {block : Nat}
  {parent : UInt32} {kids : List Kid} {name parent_path path : List UInt8} {given : Room}

theorem within_freeBlocks {s c : Nat} (holds : Holds g v fs) (holds' : Holds g (v.freeBlocks s c) fs')
    (within : Within given fs) : Within (given.more c 0) fs' := by
  obtain ⟨blocks, inodes, group⟩ := within
  rw [holds.superblock] at blocks inodes
  rw [holds.gdt] at group
  constructor
  · rw [holds'.superblock]
    exact Nat.le_trans (word64_le _) (Nat.add_le_add_right blocks c)
  · rw [holds'.superblock]
    exact inodes
  · intro gd found
    rw [holds'.gdt] at found
    obtain ⟨old, there, rfl⟩ := group_change found
    obtain ⟨blocks, inodes, dirs⟩ := group old there
    exact ⟨Nat.le_trans (word32_le _) (Nat.add_le_add_right blocks c), inodes, dirs⟩

/-- A node gives its blocks and its inode back. -/
theorem destroy_charges (holds : Holds g v fs) (sound : Sound g v n x) (within : Within given fs) {inode : Inode}
    (ran : (destroy inode n (v.slot n) name).run fs = .ok () fs') :
    ∃ s c, (∀ b, x.Owns b ↔ s ≤ b ∧ b < s + c) ∧ Within (given.more c 1) fs' := by
  obtain ⟨s, c, owns, freed⟩ := free_data_ok holds sound
  obtain ⟨_, fs₁, freed', ran₁⟩ := run_bind_eq_ok.mp ran
  rcases freed with ⟨panicked, -⟩ | ⟨fs₁', freed, holds₁⟩
  · cases panicked.symm.trans freed'
  cases freed.symm.trans freed'
  obtain ⟨_, fs₂, gone, ran₂⟩ := run_bind_eq_ok.mp ran₁
  have within₂ := (charges_free_inode n).ran (within_freeBlocks holds holds₁ within) gone
  refine ⟨s, c, owns, Steady.within ?_ within₂ ran₂⟩
  exact steady_bind (steady_write_inode ..) fun _ => steady_remove_dir_entry ..

/-- What a removal reads on its way to the node. -/
theorem target_read (holds : Holds g v fs) (consistent : Consistent g v N)
    (directory : Directory N parent_path p block parent kids) (pruned : Pruned g v v' N N' p block parent kids name n x) :
    open_directory fs parent_path = .ok (p, v.slot p) ∧ lookup fs (v.slot p) name = .ok n ∧
      read_inode fs n = .ok (v.slot n) := by
  have looked := lookup_ok holds consistent pruned.found name
  rw [named_listing _ pruned.proper.2.2.1 pruned.proper.2.2.2, pruned.edge, okOr_some] at looked
  exact ⟨open_directory_ok holds consistent directory, looked, read_node holds consistent (live_of pruned.here)⟩

theorem unlink_charges (holds : Holds g v fs) (consistent : Consistent g v N) (split : split_path path = .ok (parent_path, name))
    (directory : Directory N parent_path p block parent kids) (pruned : Pruned g v v' N N' p block parent kids name n x)
    (file : x.code ≠ 2) (within : Within (room g N) fs) (ran : (unlink path).run fs = .ok () fs') :
    Within (room g N') fs' := by
  obtain ⟨opened, looked, read⟩ := target_read holds consistent directory pruned
  obtain ⟨_, split', ran₁⟩ := read_ran ran
  cases split.symm.trans split'
  obtain ⟨_, opened', ran₂⟩ := read_ran ran₁
  cases opened.symm.trans opened'
  obtain ⟨_, looked', ran₃⟩ := read_ran ran₂
  cases looked.symm.trans looked'
  obtain ⟨_, read', ran₄⟩ := read_ran ran₃
  cases read.symm.trans read'
  obtain ⟨_, -, ran₅⟩ := read_ran ran₄
  obtain ⟨_, fs₁, destroyed, flushed⟩ := run_bind_eq_ok.mp ran₅
  obtain ⟨s, c, owns, within₁⟩ := destroy_charges holds (consistent.sound pruned.here) within destroyed
  have le := room_pruned consistent pruned owns
  rw [if_neg file] at le
  exact (steady_flush.within within₁ flushed).mono le
theorem rmdir_charges (holds : Holds g v fs) (consistent : Consistent g v N) (split : split_path path = .ok (parent_path, name))
    (directory : Directory N parent_path p block parent kids) (pruned : Pruned g v v' N N' p block parent kids name n x)
    (dir : x.code = 2) (within : Within (room g N) fs) (ran : (rmdir path).run fs = .ok () fs') :
    Within (room g N') fs' := by
  obtain ⟨opened, looked, read⟩ := target_read holds consistent directory pruned
  obtain ⟨_, split', ran₁⟩ := read_ran ran
  cases split.symm.trans split'
  obtain ⟨_, opened', ran₂⟩ := read_ran ran₁
  cases opened.symm.trans opened'
  obtain ⟨_, looked', ran₃⟩ := read_ran ran₂
  cases looked.symm.trans looked'
  obtain ⟨_, -, ran₄⟩ := read_ran ran₃
  obtain ⟨_, read', ran₅⟩ := read_ran ran₄
  cases read.symm.trans read'
  obtain ⟨_, -, ran₆⟩ := read_ran ran₅
  obtain ⟨_, -, ran₇⟩ := read_ran ran₆
  obtain ⟨_, -, ran₈⟩ := read_ran ran₇
  obtain ⟨_, fs₁, destroyed, ran₉⟩ := run_bind_eq_ok.mp ran₈
  obtain ⟨s, c, owns, within₁⟩ := destroy_charges holds (consistent.sound pruned.here) within destroyed
  have le := room_pruned consistent pruned owns
  rw [if_pos dir] at le
  have fewer : Charges (·.onDirs (· - 1)) (change_gdt0 (on_used_dirs (· - 1))) := charges_used_dirs fun le => by omega
  have rest := charges_after (steady_write_inode p { v.slot p with links_count := .ofNat ((v.slot p).links_count.toNat - 1) })
    fun _ => charges_before fewer fun _ => steady_flush
  exact (rest.ran within₁ ran₉).mono le

/-! ### The calls that change an inode -/

theorem Room.le_more (room : Room) (blocks inodes : Nat) : room.Le (room.more blocks inodes) :=
  ⟨Nat.le_add_right _ _, Nat.le_add_right _ _, Nat.le_refl _⟩

/-- The extents of a file that are cut give back what is behind the cut. -/
theorem cut_extents_charges {start count kept : Nat} (holds : Holds g v fs) (consistent : Consistent g v N)
    (here : N n = some (.file start count)) (le : kept ≤ count) {surviving : List Extent.Extent} (within : Within given fs)
    (ran : (cut_extents kept (Runs.runs start count)).run fs = .ok surviving fs') :
    Within (given.more (count - kept) 0) fs' := by
  have sound := consistent.sound here
  have backed : FileBacked g v n start count := sound.backed
  have bitmap := g.limit_bitmap
  by_cases some : 0 < count
  · have last := (sound.owned (start + count - 1) ⟨by omega, by omega⟩).2.1
    rcases cut_extents_ok holds some le backed.short backed.small (by omega) with ⟨panicked, -⟩ | ⟨fs₁, cut, holds₁⟩
    · cases panicked.symm.trans ran
    · cases cut.symm.trans ran
      exact within_freeBlocks holds holds₁ within
  · have none : Runs.runs start count = [] := if_neg some
    rw [none] at ran
    cases ran
    exact within.mono (given.le_more _ _)

theorem truncate_charges {new_size : UInt64} (holds : Holds g v fs) (consistent : Consistent g v N)
    (consistent' : Consistent g v' N') (others : ∀ m, m ≠ n → N' m = N m) (resized : Resized fs path new_size N n v' N')
    (within : Within (room g N) fs) (ran : (Filesystem.truncate path new_size).run fs = .ok () fs') :
    Within (room g N') fs' := by
  obtain ⟨opened, start, count, kept, here, there, le, size⟩ := resized
  have backed : FileBacked g v n start count := (consistent.sound here).backed
  have more := room_cut consistent here there le others
  have least := ((room g N).le_more (count - kept) 0).trans more
  have cutoff : div_ceil new_size.toNat g.block_size = kept := by
    have backed' : FileBacked g v' n start kept := (consistent'.sound there).backed
    rw [← size]
    exact backed'.size
  obtain ⟨_, opened', ran₁⟩ := read_ran ran
  cases opened.symm.trans opened'
  obtain ⟨_, read, ran₂⟩ := read_ran ran₁
  cases (read_node holds consistent (live_of here)).symm.trans read
  obtain ⟨_, -, ran₃⟩ := read_ran ran₂
  split at ran₃
  · cases ran₃
    exact within.mono least
  obtain ⟨_, value, ran₄⟩ := read_ran ran₃
  cases value
  split at ran₄
  · refine (Steady.within ?_ within ran₄).mono least
    refine steady_bind (steady_reads _) fun _ => steady_bind (steady_reads _) fun _ => ?_
    exact steady_bind (steady_write_inode ..) fun _ => steady_flush
  · obtain ⟨_, -, ran₅⟩ := read_ran ran₄
    obtain ⟨_, extents, ran₆⟩ := read_ran ran₅
    cases (leaf_extents_ok backed _).symm.trans extents
    obtain ⟨_, fs₁, cut, ran₇⟩ := run_bind_eq_ok.mp ran₆
    rw [holds.static'.block_size, cutoff] at cut
    have within₁ := cut_extents_charges holds consistent here le within cut
    refine (Steady.within ?_ within₁ ran₇).mono more
    exact steady_bind (steady_reads _) fun _ => steady_bind (steady_write_inode ..) fun _ => steady_flush
end

/-! ### The counts on the image -/

/-- The counts that an image opens to say no more than that. -/
def Stated (room : Room) (fs : Filesystem) : Prop := ∀ fs', open_image fs.reader = .ok fs' → Within room fs'

section
variable {g : Geometry} {fs fs' after : Filesystem} {room : Room}

/-- A descriptor of 32 bytes, whichever way it is decoded. -/
theorem descriptorOf_narrow {sb : Superblock} (narrow : Superblock.is_64bit sb = false) {buf : Bytes} (size : 32 ≤ buf.size) :
    Codecs.descriptorOf buf 32 = GroupDescriptor.descriptorAt buf := by
  have decoded := Codecs.descriptor_decode (GroupDescriptor.size_narrow narrow) (by decide) size
  exact Except.ok.inj (decoded.symm.trans (GroupDescriptor.decode_ok narrow size))

/-- What a recorded image opens to is in its first two blocks. -/
theorem opened_first (large : 2048 ≤ g.block_size) (recorded : Recorded g fs) (opens : open_image fs.reader = .ok after) :
    Superblock.decode (fs.reader.slice SUPERBLOCK_OFFSET SUPERBLOCK_SIZE) = .ok after.superblock ∧
      after.gdt[0]? = some (GroupDescriptor.descriptorAt (fs.reader.slice g.block_size 32)) := by
  obtain ⟨sb, gdt, opens', static⟩ := opens_recorded recorded large
  cases opens.symm.trans opens'
  obtain ⟨decoded, entries⟩ := opened_records opens
  refine ⟨decoded, ?_⟩
  obtain ⟨gd, there, -⟩ := static.group0
  have place : tableOffset sb = g.block_size := @tableOffset_static g ⟨fs.reader, sb, gdt⟩ static
  have sized : entrySize ⟨fs.reader, sb, gdt⟩ = 32 := GroupDescriptor.size_narrow static.narrow
  have entry : entryBytes ⟨fs.reader, sb, gdt⟩ 0 = fs.reader.slice g.block_size 32 := by
    rw [entryBytes, sized]
    show fs.reader.slice (tableOffset sb + 0 * 32) 32 = _
    rw [place]
    rfl
  obtain ⟨-, same⟩ := entries 0 gd there
  rw [sized, entry, descriptorOf_narrow static.narrow (by simp)] at same
  rw [there, same]

theorem stated_head (large : 2048 ≤ g.block_size) (recorded : Recorded g fs) (recorded' : Recorded g fs')
    (head : ∀ i, i < 2 * g.block_size → fs'.reader.byte i = fs.reader.byte i) (stated : Stated room fs) : Stated room fs' := by
  intro after opens'
  obtain ⟨sb, gdt, opens, -⟩ := opens_recorded recorded large
  have slice : ∀ start len, start + len ≤ 2 * g.block_size → fs'.reader.slice start len = fs.reader.slice start len := by
    intro start len before
    refine ext_inside (by simp) fun i inside => ?_
    have short : i < len := by simpa using inside
    rw [byte_slice_of_lt _ short, byte_slice_of_lt _ short, head _ (by omega)]
  obtain ⟨decoded, entry⟩ := opened_first large recorded opens
  obtain ⟨decoded', entry'⟩ := opened_first large recorded' opens'
  rw [slice _ _ (by rw [SUPERBLOCK_OFFSET, SUPERBLOCK_SIZE]; omega), decoded] at decoded'
  rw [slice _ _ (by omega), ← entry] at entry'
  obtain ⟨blocks, inodes, group⟩ := stated _ opens
  have same : sb = after.superblock := Except.ok.inj decoded'
  exact ⟨same ▸ blocks, same ▸ inodes, fun gd found => group gd (entry' ▸ found)⟩
/-- Records that have been written out say what those in memory say. -/
theorem stated_written (large : 2048 ≤ g.block_size) (recorded : Recorded g fs) (small : room.blocks < 4294967296)
    (written : WrittenOut g fs) (within : Within room fs) : Stated room fs := by
  intro after opens
  have static := recorded.static
  obtain ⟨blocks, inodes, group⟩ := within
  obtain ⟨decoded, entry⟩ := opened_first large recorded opens
  obtain ⟨⟨log, known, superblock⟩, entries⟩ := written
  have sized : fs.superblock.inode_size ≠ 0 := by
    intro zero
    have inode_size := static.inode_size
    rw [zero] at inode_size
    cases inode_size
  have same : fs.superblock = after.superblock := by
    rw [show SUPERBLOCK_SIZE = 1024 from rfl, superblock, Superblock.decode_image static.narrow known
      (by rw [static.rev_level]; decide) sized (by rw [static.blocks_count]; have high := g.blocks_high; have total := g.total_high; omega)
      (by omega)] at decoded
    exact Except.ok.inj decoded
  refine ⟨same ▸ blocks, same ▸ inodes, fun gd found => ?_⟩
  obtain ⟨gd₀, there, -⟩ := static.group0
  obtain ⟨buf, -, bytes⟩ := entries 0 gd₀ there
  rw [Nat.mul_zero, Nat.add_zero] at bytes
  rw [bytes, GroupDescriptor.descriptorAt_image, found] at entry
  cases entry
  obtain ⟨blocks, inodes, dirs⟩ := group gd₀ there
  have cut : ∀ {n : UInt32} {k : Nat}, n.toNat ≤ k → (UInt32.ofNat (n.toNat % 65536)).toNat ≤ k := fun le =>
    Nat.le_trans (word32_le _) (Nat.le_trans (Nat.mod_le _ _) le)
  exact ⟨cut blocks, cut inodes, cut dirs⟩

/-- The records, and what they say is left, in memory and on the image. -/
structure Kept (g : Geometry) (room : Room) (fs : Filesystem) : Prop where
  recorded : Recorded g fs
  within : Within room fs
  stated : Stated room fs

theorem lasting_kept (large : 2048 ≤ g.block_size) (small : room.blocks < 4294967296) : Lasting g (Kept g room) where
  large := large
  recorded kept := kept.recorded
  past kept recounted lowered size head := by
    have recorded' := kept.recorded.congr large recounted size head
    exact ⟨recorded', kept.within.lowered lowered, stated_head large kept.recorded recorded' head kept.stated⟩
  flushed kept ran := by
    obtain ⟨fs', ran', recorded'⟩ := flush_recorded kept.recorded large
    cases ran.symm.trans ran'
    obtain ⟨fs', ran', -, written⟩ := flush_metadata_ok (Start.holds_volumeOf kept.recorded.static kept.recorded.size) large
    cases ran.symm.trans ran'
    have within' := steady_flush.within kept.within ran
    exact ⟨recorded', within', stated_written large recorded' small written within'⟩
theorem Kept.mono {room' : Room} (kept : Kept g room fs) (le : room.Le room') : Kept g room' fs :=
  ⟨kept.recorded, kept.within.mono le, fun fs' opens => (kept.stated fs' opens).mono le⟩
end

/-! ### One event -/

/-- The filesystem backs a tree, and counts no more than it leaves. -/
def Balanced (g : Geometry) (fs : Filesystem) : Prop :=
  ∃ v N, Holds g v fs ∧ Consistent g v N ∧ Kept g (room g N) fs
/-- However the call ends, it is so. -/
def Stays {α : Type} (g : Geometry) (r : Ended Filesystem Ext4Error α) : Prop :=
  r.Within (fun _ fs => Balanced g fs) fun _ fs => Balanced g fs

section
variable {g : Geometry} {v v' : Volume} {N N' : NodeMap} {fs fs' : Filesystem} {path : List UInt8} {α : Type}

theorem room_small (g : Geometry) (N : NodeMap) : (room g N).blocks < 4294967296 :=
  Nat.lt_of_le_of_lt (clearBits_le _ _) g.total_high
theorem balanced_written (large : 2048 ≤ g.block_size) (holds : Holds g v fs) (consistent : Consistent g v N)
    (recorded : Recorded g fs) (written : WrittenOut g fs) (within : Within (room g N) fs) : Balanced g fs :=
  ⟨v, N, holds, consistent, recorded, within, stated_written large recorded (room_small g N) written within⟩

theorem stays_numbered {call : Call UInt32} (stays : Stays g (call.run fs)) : Stays g ((numbered call).run fs) := by
  rw [numbered, run_bind]
  exact within_andThen.mpr stays
theorem stays_silent {call : Call Unit} (stays : Stays g (call.run fs)) : Stays g ((silent call).run fs) := by
  rw [silent, run_bind]
  exact within_andThen.mpr stays

/-- A creation that is charged for what the new node has. -/
theorem creation_stays (large : 2048 ≤ g.block_size) (holds : Holds g v fs) (consistent : Consistent g v N) {refusal : Prop}
    {count : Nat} {new : Volume → UInt32 → Node → Prop} {call : Call UInt32}
    (ended : Creation g v N fs path refusal count new (call.run fs)) (ends : Ends (Recorded g) (Kept g (room g N)) (call.run fs))
    (charged : ∀ n fs' v' x, call.run fs = .ok n fs' → new v' n x → ∃ s c, (∀ b, x.Owns b → s ≤ b ∧ b < s + c) ∧
      Within (((room g N).less c 1).onDirs (· + if x.code = 2 then 1 else 0)) fs') : Stays g (call.run fs) := by
  cases ran : call.run fs with
  | panic => trivial
  | err e fs' =>
    have kept' := ends.err ran
    rw [ran] at ended
    cases ended with
    | refused => exact ⟨v, N, holds, consistent, kept'⟩
    | wasted holds' wasted => exact ⟨_, N, holds', consistent.spared wasted.spared, kept'⟩
  | ok n fs' =>
    have recorded' := ends.ok ran
    rw [ran] at ended
    cases ended with
    | @made _ _ v' N' x holds' written grown held =>
      obtain ⟨s, c, owns, within⟩ := charged n fs' v' x ran held
      exact balanced_written large holds' grown.consistent recorded' written (within.mono (room_grown grown owns))

theorem create_file_stays (large : 2048 ≤ g.block_size) (holds : Holds g v fs) (consistent : Consistent g v N)
    (kept : Kept g (room g N) fs) (path : List UInt8) {data : Bytes}
    (storable : Storable g.block_size (div_ceil data.size g.block_size)) : Stays g ((create_file path data).run fs) := by
  have lasting := lasting_kept large (room_small g N)
  have few : div_ceil data.size g.block_size < 4294967296 := by
    rcases storable with small | ⟨-, small⟩ <;> omega
  have ends : Ends (Recorded g) (Kept g (room g N)) ((create_file path data).run fs) := by
    rw [create_file_eq]
    exact ends_under holds consistent kept fun name p block one =>
      create_file_at_ends lasting holds consistent kept one few name
  refine creation_stays large holds consistent (StoredFile.create_file_takes holds consistent path storable) ends ?_
  rintro n fs' v' x ran ⟨⟨start, count, rfl, -⟩, start', -, owns⟩
  rw [create_file_eq] at ran
  obtain ⟨p, inode, name, ran'⟩ := under_ran ran
  exact ⟨start', _, owns, create_file_at_charges holds.static'.block_size few kept.within ran'⟩
theorem symlink_stays (large : 2048 ≤ g.block_size) (holds : Holds g v fs) (consistent : Consistent g v N)
    (kept : Kept g (room g N) fs) (path : List UInt8) (target : Bytes) : Stays g ((symlink path target).run fs) := by
  have lasting := lasting_kept large (room_small g N)
  have ends : Ends (Recorded g) (Kept g (room g N)) ((symlink path target).run fs) := by
    rw [symlink_eq]
    refine ends_read kept fun _ _ => ends_read kept fun _ _ => ?_
    exact ends_under holds consistent kept fun name p block one => symlink_at_ends lasting kept one target name
  refine creation_stays large holds consistent (symlink_ends holds consistent path target) ends ?_
  rintro n fs' v' x ran ⟨rfl, -⟩
  rw [symlink_eq] at ran
  obtain ⟨_, -, ran₁⟩ := read_ran ran
  obtain ⟨_, -, ran₂⟩ := read_ran ran₁
  obtain ⟨p, inode, name, ran₃⟩ := under_ran ran₂
  exact ⟨0, 0, fun b owns => owns.elim, (symlink_at_charges target inode name).ran kept.within ran₃⟩
theorem mkdir_stays (large : 2048 ≤ g.block_size) (holds : Holds g v fs) (consistent : Consistent g v N)
    (kept : Kept g (room g N) fs) (path : List UInt8) : Stays g ((mkdir path).run fs) := by
  have lasting := lasting_kept large (room_small g N)
  have ends : Ends (Recorded g) (Kept g (room g N)) ((mkdir path).run fs) := by
    rw [mkdir_eq]
    exact ends_under holds consistent kept fun name p block one => mkdir_at_ends lasting holds consistent kept one p name
  refine creation_stays large holds consistent (mkdir_ends holds consistent path) ends ?_
  rintro n fs' v' x ran ⟨dir, -⟩
  rw [mkdir_eq] at ran
  obtain ⟨p, inode, name, ran'⟩ := under_ran ran
  have within := (mkdir_at_charges p inode name).ran kept.within ran'
  rw [dir]
  cases x with
  | dir b q ks =>
    refine ⟨b, 1, fun c owns => ?_, within⟩
    have same : c = b := owns
    omega
  | file => cases dir
  | link => cases dir

/-- What is left when the file or the link that a path names is removed. -/
def Emptied (g : Geometry) (N : NodeMap) (path : List UInt8) (left : Room) : Prop :=
  ∃ parent_path name p n, split_path path = .ok (parent_path, name) ∧
    walk (step N) ROOT_INODE (components parent_path) = some p ∧ child N p name = some n ∧
    left = room g (withoutLeaf N p name n)

theorem unlink_kept (large : 2048 ≤ g.block_size) (holds : Holds g v fs) (consistent : Consistent g v N)
    (kept : Kept g (room g N) fs) (path : List UInt8) :
    Ends (fun fs' => ∃ v' N' left, Holds g v' fs' ∧ Consistent g v' N' ∧ left = room g N' ∧ Emptied g N path left ∧
      Kept g left fs') (· = fs) ((unlink path).run fs) := by
  have ended := unlink_ends holds consistent path
  have ends := unlink_recorded holds consistent kept.recorded large path
  cases ran : (unlink path).run fs with
  | panic => trivial
  | err e fs' =>
    rw [ran] at ended
    cases ended
    exact rfl
  | ok u fs' =>
    have recorded' := ends.ok ran
    rw [ran] at ended
    cases ended with
    | @removed _ v' N' parent_path name p _ _ _ n x split directory holds' written pruned file =>
      have within := unlink_charges holds consistent split directory pruned file kept.within ran
      refine ⟨v', N', _, holds', pruned.consistent, rfl, ⟨parent_path, name, p, n, split, directory.walked, ?_, ?_⟩, ?_⟩
      · exact (child_dir pruned.found name).trans pruned.edge
      · rw [pruned.nodes]
      · exact ⟨recorded', within, stated_written large recorded' (room_small g N') written within⟩
theorem unlink_stays (large : 2048 ≤ g.block_size) (holds : Holds g v fs) (consistent : Consistent g v N)
    (kept : Kept g (room g N) fs) (path : List UInt8) : Stays g ((unlink path).run fs) := by
  refine (unlink_kept large holds consistent kept path).mono ?_ ?_
  · rintro _ fs' ⟨v', N', _, holds', consistent', rfl, -, kept'⟩
    exact ⟨v', N', holds', consistent', kept'⟩
  · rintro _ fs' rfl
    exact ⟨v, N, holds, consistent, kept⟩
theorem rmdir_stays (large : 2048 ≤ g.block_size) (holds : Holds g v fs) (consistent : Consistent g v N)
    (kept : Kept g (room g N) fs) (path : List UInt8)
    (named_entry : ∀ parent_path name, split_path path = .ok (parent_path, name) → name ≠ DOT) :
    Stays g ((rmdir path).run fs) := by
  have ended := rmdir_ends holds consistent path named_entry
  have ends := removal_recorded (flushing_rmdir path) kept.recorded large ended
  cases ran : (rmdir path).run fs with
  | panic => trivial
  | err e fs' =>
    rw [ran] at ended
    cases ended
    exact ⟨v, N, holds, consistent, kept⟩
  | ok u fs' =>
    have recorded' := ends.ok ran
    rw [ran] at ended
    cases ended with
    | removed split directory holds' written pruned dir =>
      exact balanced_written large holds' pruned.consistent recorded' written
        (rmdir_charges holds consistent split directory pruned dir kept.within ran)
/-- A truncation to the size that the file has leaves all as it is. -/
theorem truncate_quiet {new_size : UInt64} (quiet : ¬ Resizes fs path new_size)
    (ran : (Filesystem.truncate path new_size).run fs = .ok () fs') : fs' = fs := by
  obtain ⟨n, opened, ran₁⟩ := read_ran ran
  obtain ⟨inode, read, ran₂⟩ := read_ran ran₁
  obtain ⟨_, -, ran₃⟩ := read_ran ran₂
  have same : new_size = inode.size := by
    by_contra other
    refine quiet fun n' inode' opened' read' => ?_
    cases opened.symm.trans opened'
    cases read.symm.trans read'
    exact other
  rw [if_pos same] at ran₃
  cases ran₃
  rfl
theorem truncate_stays (large : 2048 ≤ g.block_size) (holds : Holds g v fs) (consistent : Consistent g v N)
    (kept : Kept g (room g N) fs) (path : List UInt8) (new_size : UInt64) :
    Stays g ((Filesystem.truncate path new_size).run fs) := by
  have ended := truncate_ends holds consistent path new_size
  have ends := truncate_recorded holds consistent kept.recorded large path new_size
  cases ran : (Filesystem.truncate path new_size).run fs with
  | panic => trivial
  | err e fs' =>
    rw [ran] at ended
    cases ended
    exact ⟨v, N, holds, consistent, kept⟩
  | ok u fs' =>
    have recorded' := ends.ok ran
    rw [ran] at ended
    cases ended with
    | same => exact ⟨v, N, holds, consistent, kept⟩
    | changed holds' written consistent' counted tight touched done =>
      by_cases resizes : Resizes fs path new_size
      · exact balanced_written large holds' consistent' recorded' (written resizes)
          (truncate_charges holds consistent consistent' touched.nodes done kept.within ran)
      · cases truncate_quiet resizes ran
        exact ⟨v, N, holds, consistent, kept⟩
theorem with_inode_mut_stays (large : 2048 ≤ g.block_size) (holds : Holds g v fs) (consistent : Consistent g v N)
    (kept : Kept g (room g N) fs) (path : List UInt8) {mutate : Inode → Inode}
    (alike : ∀ inode, Alike inode { mutate inode with ctime := METADATA_CTIME }) :
    Stays g ((with_inode_mut path mutate).run fs) := by
  have ended := with_inode_mut_ends holds consistent path alike
  have maintained := (maintains_with_inode_mut (lasting_kept large (room_small g N)) path mutate).ends fs
  cases ran : (with_inode_mut path mutate).run fs with
  | panic => trivial
  | err e fs' =>
    rw [ran] at ended
    cases ended
    exact ⟨v, N, holds, consistent, kept⟩
  | ok u fs' =>
    have kept' := maintained.ok ran kept
    rw [ran] at ended
    cases ended with
    | same => exact ⟨v, N, holds, consistent, kept⟩
    | changed holds' written consistent' counted tight touched done =>
      obtain ⟨-, rfl, -⟩ := done
      exact ⟨_, _, holds', consistent', kept'⟩

/-! ### Renaming -/

theorem owns_run (x : Node) : ∃ s c, ∀ b, x.Owns b ↔ s ≤ b ∧ b < s + c := by
  cases x with
  | dir b q ks => exact ⟨b, 1, fun c => ⟨fun (same : c = b) => by omega, fun inside => show c = b by omega⟩⟩
  | file start count => exact ⟨start, count, fun _ => Iff.rfl⟩
  | link => exact ⟨0, 0, fun b => ⟨fun owns => owns.elim, fun inside => by omega⟩⟩
theorem room_unlinked {block : Nat} {parent p n : UInt32} {kids : List Kid} {name : List UInt8} {x : Node}
    (consistent : Consistent g v N) (pruned : Pruned g v v' N N' p block parent kids name n x) (file : x.code ≠ 2) :
    (room g N).Le (room g N') := by
  obtain ⟨s, c, owns⟩ := owns_run x
  have le := room_pruned consistent pruned owns
  rw [if_neg file] at le
  exact ((room g N).le_more c 1).trans le

/-- One of several rooms is kept to. -/
theorem lasting_some (possible : Room → Prop) (large : 2048 ≤ g.block_size)
    (small : ∀ left, possible left → left.blocks < 4294967296) :
    Lasting g (fun fs => ∃ left, possible left ∧ Kept g left fs) where
  large := large
  recorded := fun ⟨_, _, kept⟩ => kept.recorded
  past := fun ⟨left, may, kept⟩ recounted lowered size head =>
    ⟨left, may, (lasting_kept large (small left may)).past kept recounted lowered size head⟩
  flushed := fun ⟨left, may, kept⟩ ran => ⟨left, may, (lasting_kept large (small left may)).flushed kept ran⟩

/-- What a rename may keep to before its end. -/
def Clearing (g : Geometry) (N : NodeMap) (new_path : List UInt8) (left : Room) : Prop :=
  left = room g N ∨ Emptied g N new_path left

theorem clearing_small {new_path : List UInt8} {left : Room} (clearing : Clearing g N new_path left) :
    left.blocks < 4294967296 := by
  rcases clearing with rfl | ⟨_, _, _, _, -, -, -, rfl⟩
  · exact room_small g N
  · exact room_small g _
theorem clearing_pruned {block : Nat} {parent p n : UInt32} {kids : List Kid} {new_path parent_path name : List UInt8} {x : Node}
    {left : Room} (consistent : Consistent g v N) (split : split_path new_path = .ok (parent_path, name))
    (walked : walk (step N) ROOT_INODE (components parent_path) = some p)
    (pruned : Pruned g v v' N N' p block parent kids name n x) (file : x.code ≠ 2) (clearing : Clearing g N new_path left) :
    left.Le (room g N') := by
  rcases clearing with rfl | ⟨_, _, p', n', split', walked', edge, rfl⟩
  · exact room_unlinked consistent pruned file
  · cases split.symm.trans split'
    cases walked.symm.trans walked'
    cases ((child_dir pruned.found name).trans pruned.edge).symm.trans edge
    rw [pruned.nodes]
    exact .refl _

theorem rename_stays (large : 2048 ≤ g.block_size) (holds : Holds g v fs) (consistent : Consistent g v N)
    (kept : Kept g (room g N) fs) (old_path new_path : List UInt8) (sane : ¬ Astray fs old_path new_path) :
    Stays g ((rename old_path new_path).run fs) := by
  have ended := rename_ends holds consistent old_path new_path sane
  have lasting := lasting_some (Clearing g N new_path) large fun _ => clearing_small
  have ends := rename_kept lasting holds consistent ⟨_, .inl rfl, kept⟩ old_path new_path fun parent_path name split => by
    refine (unlink_kept large holds consistent kept (join_path parent_path name)).mono ?_ ?_
    · rintro _ fs' ⟨_, _, left, -, -, -, ⟨parent_path', name', p, n, split', facts⟩, kept'⟩
      cases (split_path_join split).symm.trans split'
      exact ⟨left, .inr ⟨parent_path, name, p, n, split, facts⟩, kept'⟩
    · rintro _ fs' rfl
      exact ⟨_, .inl rfl, kept⟩
  cases ran : (rename old_path new_path).run fs with
  | panic => trivial
  | err e fs' =>
    obtain ⟨left, clearing, kept'⟩ := ends.err ran
    rw [ran] at ended
    cases ended with
    | refused => exact ⟨v, N, holds, consistent, kept⟩
    | lost lossy split directory holds' pruned file =>
      exact ⟨_, _, holds', pruned.consistent, kept'.mono (clearing_pruned consistent split directory.walked pruned file clearing)⟩
  | ok u fs' =>
    obtain ⟨left, clearing, kept'⟩ := ends.ok ran
    rw [ran] at ended
    cases ended with
    | same => exact ⟨v, N, holds, consistent, kept⟩
    | @moved _ v₁ v' N₁ N' _ _ _ _ p p' m x harmless split split' walked walked' edge here cleared holds' written relocated =>
      refine ⟨v', N', holds', relocated.consistent, kept'.mono (Room.Le.trans ?_ (relocated.nodes ▸ room_moved ..))⟩
      cases cleared with
      | free =>
        rcases clearing with rfl | ⟨_, _, q, n, split'', walked'', taken, -⟩
        · exact .refl _
        · cases split'.symm.trans split''
          cases walked'.symm.trans walked''
          cases relocated.free.symm.trans taken
      | replaced other file file' pruned => exact clearing_pruned consistent split' walked' pruned file clearing

/-- What every call leaves, whether it returns or fails. -/
theorem execute_stays (large : 2048 ≤ g.block_size) (holds : Holds g v fs) (consistent : Consistent g v N)
    (kept : Kept g (room g N) fs) {request : Request} (lets : Admissible fs request) :
    Stays g ((execute request).run fs) := by
  cases request with
  | create_file path data =>
    rw [Admissible, holds.static'.block_size] at lets
    exact stays_numbered (create_file_stays large holds consistent kept path lets)
  | mkdir path => exact stays_numbered (mkdir_stays large holds consistent kept path)
  | symlink link_path target => exact stays_numbered (symlink_stays large holds consistent kept link_path target)
  | unlink path => exact stays_silent (unlink_stays large holds consistent kept path)
  | rmdir path => exact stays_silent (rmdir_stays large holds consistent kept path lets)
  | rename old_path new_path => exact stays_silent (rename_stays large holds consistent kept old_path new_path lets)
  | truncate path new_size => exact stays_silent (truncate_stays large holds consistent kept path new_size)
  | chmod path mode =>
    exact stays_silent (with_inode_mut_stays large holds consistent kept path fun inode =>
      ⟨mode_kept inode.mode mode, rfl, rfl, rfl, rfl, rfl⟩)
  | chown path uid gid =>
    exact stays_silent (with_inode_mut_stays large holds consistent kept path fun _ => ⟨rfl, rfl, rfl, rfl, rfl, rfl⟩)
  | utime path atime mtime =>
    exact stays_silent (with_inode_mut_stays large holds consistent kept path fun _ => ⟨rfl, rfl, rfl, rfl, rfl, rfl⟩)

/-- An image that is opened again counts no more than it did. -/
theorem reopened_balanced (large : 2048 ≤ g.block_size) (balanced : Balanced g fs)
    (opened : open_image fs.reader = .ok fs') : Balanced g fs' := by
  obtain ⟨v, N, holds, consistent, kept⟩ := balanced
  obtain ⟨sb, gdt, opened', holds', recorded'⟩ := reopens holds kept.recorded large
  cases opened.symm.trans opened'
  exact ⟨_, N, holds', consistent_records consistent sb gdt, recorded', kept.stated _ opened, fun _ => kept.stated _⟩
theorem occurs_balanced (large : 2048 ≤ g.block_size) {e : Event} (balanced : Balanced g fs) (occurs : Occurs fs e fs') :
    Balanced g fs' := by
  obtain ⟨v, N, holds, consistent, kept⟩ := id balanced
  cases occurs with
  | returned lets ran => exact (execute_stays large holds consistent kept lets).ok ran
  | failed lets ran => exact (execute_stays large holds consistent kept lets).err ran
  | reopened opened => exact reopened_balanced large balanced opened

open Classical in
/-- Right counts say no more than what the tree leaves. -/
theorem within_counted (holds : Holds g v fs) (consistent : Consistent g v N) (counted : Counted g v (dirs g N)) :
    Within (room g N) fs := by
  have blocks : clearBits v.blockBit g.total ≤ (room g N).blocks := by
    refine clearBits_mono fun b _ held => ?_
    rcases of_decide_eq_true held with low | ⟨n, x, here, owns⟩
    · exact consistent.metadata b low
    · exact ((consistent.sound here).owned b owns).2.2
  have inodes : clearBits v.inodeBit g.per_group ≤ (room g N).inodes := by
    refine clearBits_mono fun i inside numbered => ?_
    rcases of_decide_eq_true numbered with low | live
    · exact consistent.reserved i low
    · obtain ⟨x, here⟩ := Option.ne_none_iff_exists'.mp live
      have taken := (consistent.sound here).taken
      have word := per_group_word g
      rwa [word32 (by omega), Nat.add_sub_cancel] at taken
  obtain ⟨free_blocks, free_inodes, group⟩ := counted
  rw [← holds.superblock] at free_blocks free_inodes
  rw [← holds.gdt] at group
  refine ⟨by omega, by omega, fun gd found => ?_⟩
  obtain ⟨group_blocks, group_inodes, used⟩ := group gd found
  exact ⟨by omega, by omega, Nat.le_of_eq used⟩
end

end Justext4.Ledger
