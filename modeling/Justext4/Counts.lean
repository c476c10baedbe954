import Justext4.Backing

/-!
The counts of what is free. The numbers in the superblock and in the first
descriptor are those of the clear bits of the bitmaps, and of the directories;
every change of bits changes the numbers by as much. When nothing has leaked,
every set bit is that of a node or of the metadata.
-/
namespace Justext4.Counts
open Justext4 Justext4.Fallible Justext4.Filesystem Justext4.Volumes Bytes
open Justext4.Superblock (Superblock)
open Justext4.GroupDescriptor (GroupDescriptor)
open Justext4.Inode (Inode)
open Justext4.Nodes
open Justext4.Backing

/-- The number of clear bits below a bound. -/
def clearBits (bit : Nat → Bool) (n : Nat) : Nat := (List.range n).countP (!bit ·)
/-- The number of directories. -/
def dirs (g : Geometry) (N : NodeMap) : Nat :=
  (List.range (g.inodes + 1)).countP fun i => (N (.ofNat i)).any (·.code == 2)

/-- The counts in memory are those of the bitmaps. -/
structure Counted (g : Geometry) (v : Volume) (used : Nat) : Prop where
  blocks : v.superblock.free_blocks_count.toNat = clearBits v.blockBit g.total
  inodes : v.superblock.free_inodes_count.toNat = clearBits v.inodeBit g.per_group
  group : ∀ gd, v.gdt[0]? = some gd →
    gd.free_blocks_count.toNat = clearBits v.blockBit g.total ∧
    gd.free_inodes_count.toNat = clearBits v.inodeBit g.per_group ∧ gd.used_dirs_count.toNat = used

/-- Every set bit is accounted for. -/
structure Tight (g : Geometry) (v : Volume) (N : NodeMap) : Prop where
  inodes : ∀ i < g.per_group, v.inodeBit i = true → i < 10 ∨ Live N (.ofNat (i + 1))
  blocks : ∀ b < g.total, v.blockBit b = true → b < g.root ∨ ∃ n x, N n = some x ∧ x.Owns b

/-! ### Counting bits -/

theorem clearBits_le (bit : Nat → Bool) (n : Nat) : clearBits bit n ≤ n := by
  have bound := List.countP_le_length (p := fun i => !bit i) (l := List.range n)
  rwa [List.length_range] at bound
theorem clearBits_succ (bit : Nat → Bool) (n : Nat) :
    clearBits bit (n + 1) = clearBits bit n + if bit n then 0 else 1 := by
  rw [clearBits, List.range_succ, List.countP_append, clearBits]
  cases set : bit n <;> simp [set]
theorem clearBits_congr {bit bit' : Nat → Bool} {n : Nat} (same : ∀ i < n, bit i = bit' i) :
    clearBits bit n = clearBits bit' n := by
  rw [clearBits, clearBits]
  apply List.countP_congr
  intro i member
  rw [same i (List.mem_range.mp member)]
/-- Setting a run of clear bits takes as many off the count. -/
theorem clearBits_take {bit : Nat → Bool} {s c : Nat} (clear : ∀ j, s ≤ j → j < s + c → bit j = false) (n : Nat) :
    clearBits (fun j => bit j || decide (s ≤ j ∧ j < s + c)) n + (min n (s + c) - min n s) = clearBits bit n := by
  induction n with
  | zero => simp [clearBits]
  | succ n ih =>
    rw [clearBits_succ, clearBits_succ]
    by_cases inside : s ≤ n ∧ n < s + c
    · rw [clear n inside.1 inside.2, decide_eq_true inside]
      simp only [Bool.or_true, ↓reduceIte, Bool.false_eq_true]
      omega
    · rw [decide_eq_false inside, Bool.or_false]
      split <;> omega
theorem clearBits_take_inside (bit : Nat → Bool) {s c n : Nat} (clear : ∀ j, s ≤ j → j < s + c → bit j = false)
    (inside : s + c ≤ n) :
    clearBits (fun j => bit j || decide (s ≤ j ∧ j < s + c)) n + c = clearBits bit n := by
  have taken := clearBits_take clear n
  rwa [Nat.min_eq_right inside, Nat.min_eq_right (Nat.le_trans (Nat.le_add_right _ _) inside),
    Nat.add_sub_cancel_left] at taken
/-- Clearing a run of set bits adds as many to the count. -/
theorem clearBits_give (bit : Nat → Bool) {s c n : Nat} (set : ∀ j, s ≤ j → j < s + c → bit j = true)
    (inside : s + c ≤ n) :
    clearBits bit n + c = clearBits (fun j => bit j && !decide (s ≤ j ∧ j < s + c)) n := by
  have clear : ∀ j, s ≤ j → j < s + c → (bit j && !decide (s ≤ j ∧ j < s + c)) = false := by
    intro j low high
    simp [low, high]
  have whole : (fun j => (bit j && !decide (s ≤ j ∧ j < s + c)) || decide (s ≤ j ∧ j < s + c)) = bit := by
    funext j
    by_cases hit : s ≤ j ∧ j < s + c
    · rw [decide_eq_true hit, set j hit.1 hit.2]
      rfl
    · rw [decide_eq_false hit, Bool.not_false, Bool.and_true, Bool.or_false]
  have taken := clearBits_take_inside _ clear inside
  rwa [whole] at taken

theorem single (i j : Nat) : decide (j = i) = decide (i ≤ j ∧ j < i + 1) := by
  rw [decide_eq_decide]
  omega
theorem total_word {g : Geometry} (bit : Nat → Bool) : clearBits bit g.total < 4294967296 :=
  Nat.lt_of_le_of_lt (clearBits_le bit g.total) g.total_high
theorem per_group_word (g : Geometry) : g.per_group < 4294967296 := by
  have covered := g.root_covered
  have rounded := le_div_ceil (n := g.per_group * 256) (d := g.block_size) (by have positive := g.positive; omega)
  rcases g.known with size | size | size | size <;> rw [size] at covered rounded <;> omega

section
variable {g : Geometry} {v : Volume} {used : Nat}

theorem word32 {n : Nat} (small : n < 4294967296) : (UInt32.ofNat n).toNat = n := by
  rw [UInt32.toNat_ofNat']
  omega
theorem word64 {n : Nat} (small : n < 4294967296) : (UInt64.ofNat n).toNat = n := by
  rw [UInt64.toNat_ofNat']
  omega

theorem Counted.takeInode (counted : Counted g v used) {i : Nat} (inside : i < g.per_group)
    (clear : v.inodeBit i = false) : Counted g (v.takeInode i) used := by
  have taken : clearBits (v.takeInode i).inodeBit g.per_group + 1 = clearBits v.inodeBit g.per_group := by
    have run := clearBits_take_inside v.inodeBit (s := i) (c := 1) (n := g.per_group)
      (fun j low high => by rw [show j = i by omega, clear]) (by omega)
    simpa only [Volume.takeInode, single] using run
  have word := per_group_word g
  have bound := clearBits_le v.inodeBit g.per_group
  refine ⟨counted.blocks, ?_, fun gd found => ?_⟩
  · show (UInt32.ofNat (v.superblock.free_inodes_count.toNat - 1)).toNat = _
    rw [counted.inodes, word32 (by omega)]
    omega
  · obtain ⟨gd₀, before, rfl⟩ := group_change found
    obtain ⟨blocks, inodes, dirs⟩ := counted.group gd₀ before
    refine ⟨blocks, ?_, dirs⟩
    show (UInt32.ofNat (gd₀.free_inodes_count.toNat - 1)).toNat = _
    rw [inodes, word32 (by omega)]
    omega
theorem Counted.takeBlocks (counted : Counted g v used) {start count : Nat} (inside : start + count ≤ g.total)
    (clear : ∀ j, start ≤ j → j < start + count → v.blockBit j = false) :
    Counted g (v.takeBlocks start count) used := by
  have taken : clearBits (v.takeBlocks start count).blockBit g.total + count = clearBits v.blockBit g.total :=
    clearBits_take_inside _ clear inside
  have word := total_word (g := g) v.blockBit
  refine ⟨?_, counted.inodes, fun gd found => ?_⟩
  · show (UInt64.ofNat (v.superblock.free_blocks_count.toNat - count)).toNat = _
    rw [counted.blocks, word64 (by omega)]
    omega
  · obtain ⟨gd₀, before, rfl⟩ := group_change found
    obtain ⟨blocks, inodes, dirs⟩ := counted.group gd₀ before
    refine ⟨?_, inodes, dirs⟩
    show (UInt32.ofNat (gd₀.free_blocks_count.toNat - count)).toNat = _
    rw [blocks, word32 (by omega)]
    omega
theorem Counted.freeInode (counted : Counted g v used) {i : Nat} (inside : i < g.per_group)
    (set : v.inodeBit i = true) : Counted g (v.freeInode i) used := by
  have given : clearBits v.inodeBit g.per_group + 1 = clearBits (v.freeInode i).inodeBit g.per_group := by
    have run := clearBits_give v.inodeBit (s := i) (c := 1) (n := g.per_group)
      (fun j low high => by rw [show j = i by omega, set]) (by omega)
    simpa only [Volume.freeInode, single] using run
  have word := per_group_word g
  have bound := clearBits_le (v.freeInode i).inodeBit g.per_group
  refine ⟨counted.blocks, ?_, fun gd found => ?_⟩
  · show (UInt32.ofNat (v.superblock.free_inodes_count.toNat + 1)).toNat = _
    rw [counted.inodes, word32 (by omega)]
    exact given
  · obtain ⟨gd₀, before, rfl⟩ := group_change found
    obtain ⟨blocks, inodes, dirs⟩ := counted.group gd₀ before
    refine ⟨blocks, ?_, dirs⟩
    show (UInt32.ofNat (gd₀.free_inodes_count.toNat + 1)).toNat = _
    rw [inodes, word32 (by omega)]
    exact given
theorem Counted.freeBlocks (counted : Counted g v used) {start count : Nat} (inside : start + count ≤ g.total)
    (set : ∀ j, start ≤ j → j < start + count → v.blockBit j = true) :
    Counted g (v.freeBlocks start count) used := by
  have given : clearBits v.blockBit g.total + count = clearBits (v.freeBlocks start count).blockBit g.total :=
    clearBits_give _ set inside
  have word := total_word (g := g) (v.freeBlocks start count).blockBit
  refine ⟨?_, counted.inodes, fun gd found => ?_⟩
  · show (UInt64.ofNat (v.superblock.free_blocks_count.toNat + count)).toNat = _
    rw [counted.blocks, word64 (by omega)]
    exact given
  · obtain ⟨gd₀, before, rfl⟩ := group_change found
    obtain ⟨blocks, inodes, dirs⟩ := counted.group gd₀ before
    refine ⟨?_, inodes, dirs⟩
    show (UInt32.ofNat (gd₀.free_blocks_count.toNat + count)).toNat = _
    rw [blocks, word32 (by omega)]
    exact given
theorem Counted.setSlot (counted : Counted g v used) (n : UInt32) (inode : Inode) :
    Counted g (v.setSlot n inode) used := ⟨counted.blocks, counted.inodes, counted.group⟩
theorem Counted.setBlock (counted : Counted g v used) (p : Nat) (bytes : Bytes) :
    Counted g (v.setBlock p bytes) used := ⟨counted.blocks, counted.inodes, counted.group⟩
theorem Counted.setBlocks (counted : Counted g v used) (d start count : Nat) (bytes : Bytes) :
    Counted g (v.setBlocks d start count bytes) used := ⟨counted.blocks, counted.inodes, counted.group⟩
theorem Counted.useDirs (counted : Counted g v used) {f : Nat → Nat}
    (small : used < 4294967296 → f used < 4294967296) :
    Counted g (v.onGroup0 (on_used_dirs f)) (f used) := by
  refine ⟨counted.blocks, counted.inodes, fun gd found => ?_⟩
  obtain ⟨gd₀, before, rfl⟩ := group_change found
  obtain ⟨blocks, inodes, dirs⟩ := counted.group gd₀ before
  refine ⟨blocks, inodes, ?_⟩
  show (UInt32.ofNat (f gd₀.used_dirs_count.toNat)).toNat = _
  rw [dirs, word32 (small (dirs ▸ gd₀.used_dirs_count.toNat_lt))]
end

/-! ### Counting directories -/

section
variable {g : Geometry} {N N' : NodeMap} {n : UInt32}

theorem dirs_le (g : Geometry) (N : NodeMap) : dirs g N ≤ g.inodes + 1 := by
  have bound := List.countP_le_length (p := fun i => (N (.ofNat i)).any (·.code == 2)) (l := List.range (g.inodes + 1))
  rwa [List.length_range] at bound
/-- The number of directories depends on the kinds of the nodes. -/
theorem dirs_congr (same : ∀ m, (N' m).map (·.code) = (N m).map (·.code)) : dirs g N' = dirs g N := by
  have kind : ∀ m, (N' m).any (·.code == 2) = (N m).any (·.code == 2) := by
    intro m
    have here := same m
    cases first : N' m <;> cases second : N m <;> rw [first, second] at here <;> simp_all
  simp only [dirs, kind]

theorem countP_raise {p q : Nat → Bool} {m n : Nat} (inside : m < n) (before : p m = false) (after : q m = true)
    (same : ∀ i < n, i ≠ m → q i = p i) : (List.range n).countP q = (List.range n).countP p + 1 := by
  induction n with
  | zero => omega
  | succ n ih =>
    rw [List.range_succ, List.countP_append, List.countP_append]
    by_cases last : m = n
    · subst last
      have below : (List.range m).countP q = (List.range m).countP p := by
        apply List.countP_congr
        intro i member
        have lt := List.mem_range.mp member
        rw [same i (by omega) (by omega)]
      simp [below, before, after]
    · rw [ih (by omega) fun i lt other => same i (by omega) other]
      have end' : q n = p n := same n (by omega) (by omega)
      simp only [List.countP_singleton, end']
      omega

/-- One more directory is one more in the count. -/
theorem dirs_raise (N N' : NodeMap) (listed : n.toNat ≤ g.inodes) (before : (N n).any (·.code == 2) = false)
    (after : (N' n).any (·.code == 2) = true) (same : ∀ m, m ≠ n → (N' m).map (·.code) = (N m).map (·.code)) :
    dirs g N' = dirs g N + 1 := by
  have back : UInt32.ofNat n.toNat = n := UInt32.ofNat_toNat
  have word : g.inodes < 4294967296 := Nat.lt_of_le_of_lt g.inodes_high (per_group_word g)
  refine countP_raise (m := n.toNat) (by omega) (by rw [back]; exact before) (by rw [back]; exact after) ?_
  intro i lt other
  have distinct : UInt32.ofNat i ≠ n := by
    intro hit
    have number := congrArg UInt32.toNat hit
    rw [word32 (by omega)] at number
    exact other number
  have here := same _ distinct
  cases first : N' (.ofNat i) <;> cases second : N (.ofNat i) <;> rw [first, second] at here <;> simp_all
end

end Justext4.Counts
