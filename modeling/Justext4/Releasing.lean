import Justext4.Counts
import Justext4.Regions

/-!
What releasing blocks and inodes does. A run of blocks goes back by its bits in
the bitmap of the first group and by the counts of what is free, wherever the
run came from; a list of runs does the same with all of their bits and the sum
of their lengths.
-/
namespace Justext4.Releasing
open Justext4 Justext4.Fallible Justext4.Filesystem Bytes
open Justext4.Superblock (Superblock)
open Justext4.GroupDescriptor (GroupDescriptor)
open Justext4.Inode (Inode)
open Justext4.Extent (Extent)
open Justext4.BitmapLimit (bitmap bitmapOffset capacity Loadable load_bitmap size_bitmap)
open Justext4.FlushedRecords (InSpans)
open Justext4.Volumes (in_u64_ok)
open Justext4.Recounting
open Justext4.Regions

/-! ### Runs -/

/-- The number of blocks of runs. -/
def total : List (Nat × Nat) → Nat
  | [] => 0
  | r :: rest => r.2 + total rest

@[simp] theorem total_nil : total [] = 0 := rfl
@[simp] theorem total_cons (r : Nat × Nat) (rest : List (Nat × Nat)) : total (r :: rest) = r.2 + total rest := rfl
theorem total_append (first later : List (Nat × Nat)) : total (first ++ later) = total first + total later := by
  induction first with
  | nil => simp
  | cons r rest ih =>
    rw [List.cons_append, total_cons, total_cons, ih]
    omega
theorem inSpans_append (first later : List (Nat × Nat)) (j : Nat) :
    InSpans (first ++ later) j ↔ InSpans first j ∨ InSpans later j := by
  simp only [InSpans, List.mem_append, or_and_right, exists_or]
theorem inSpans_single (r : Nat × Nat) (j : Nat) : InSpans [r] j ↔ r.1 ≤ j ∧ j < r.1 + r.2 := by
  simp [InSpans]

/-! ### Bits that go back -/

/-- The bits of the runs are clear, the counts are more by their lengths, and
    nothing else is changed. -/
structure Frees (fs fs' : Filesystem) (runs : List (Nat × Nat)) : Prop where
  superblock : fs'.superblock = on_all_free_blocks (· + total runs) fs.superblock
  gdt : fs'.gdt = on_group0 (on_free_blocks (· + total runs)) fs.gdt
  fits : fs.superblock.free_blocks_count.toNat + total runs < 18446744073709551616
  group_fits : ∀ gd, gdt_at fs 0 = .ok gd → gd.free_blocks_count.toNat + total runs < 4294967296
  size : fs'.reader.size = fs.reader.size
  bytes : ∀ i, ¬ Among fs [.blockBitmap 0] i → fs'.reader.byte i = fs.reader.byte i
  inside : ∀ r ∈ runs, 0 < r.2 → r.1 + r.2 ≤ capacity fs
  bits : ∀ j, Bitmap.get_bit (bitmap fs') j = (Bitmap.get_bit (bitmap fs) j && !decide (InSpans runs j))

section
variable {fs fs' fs'' : Filesystem} {runs runs' : List (Nat × Nat)}

theorem gdt_at_eq_ok {group : Nat} {gd : GroupDescriptor} : gdt_at fs group = .ok gd ↔ fs.gdt[group]? = some gd := by
  rw [gdt_at]
  cases fs.gdt[group]? <;> simp
theorem on_group0_same {f : GroupDescriptor → GroupDescriptor} (same : ∀ gd, f gd = gd) (gdt : List GroupDescriptor) :
    on_group0 f gdt = gdt := by
  cases gdt with
  | nil => rfl
  | cons gd rest => rw [on_group0, same]
theorem on_group0_twice (f g : GroupDescriptor → GroupDescriptor) (gdt : List GroupDescriptor) :
    on_group0 g (on_group0 f gdt) = on_group0 (fun gd => g (f gd)) gdt := by
  cases gdt <;> rfl
theorem first_on_group0 {f : GroupDescriptor → GroupDescriptor} {gd : GroupDescriptor} (found : gdt_at fs 0 = .ok gd)
    (changed : fs'.gdt = on_group0 f fs.gdt) : gdt_at fs' 0 = .ok (f gd) := by
  rw [gdt_at] at found
  rw [gdt_at, changed]
  cases table : fs.gdt with
  | nil =>
    rw [table] at found
    cases found
  | cons head rest =>
    rw [table] at found
    cases found
    rfl
theorem no_first_on_group0 {f : GroupDescriptor → GroupDescriptor} (missed : ∀ gd, gdt_at fs 0 ≠ .ok gd)
    (changed : fs'.gdt = on_group0 f fs.gdt) : fs'.gdt = fs.gdt := by
  rw [changed]
  cases table : fs.gdt with
  | nil => rfl
  | cons head rest => exact absurd (show gdt_at fs 0 = .ok head by rw [gdt_at, table]; rfl) (missed head)

/-- The bitmap of the first group stays where it is. -/
theorem bitmapOffset_on_group0 {f : GroupDescriptor → GroupDescriptor} (kept : ∀ gd, (f gd).block_bitmap = gd.block_bitmap)
    (size : fs'.superblock.block_size = fs.superblock.block_size) (changed : fs'.gdt = on_group0 f fs.gdt) :
    bitmapOffset fs' = bitmapOffset fs := by
  cases found : gdt_at fs 0 with
  | ok gd =>
    rw [bitmapOffset, bitmapOffset, first_on_group0 found changed, found, size]
    simp only [kept]
  | error fault =>
    have same := no_first_on_group0 (fun gd here => by cases found.symm.trans here) changed
    rw [bitmapOffset, bitmapOffset, gdt_at, same, ← gdt_at, found]

theorem Frees.block_size (frees : Frees fs fs' runs) : fs'.superblock.block_size = fs.superblock.block_size := by
  rw [frees.superblock]
  rfl
theorem Frees.bitmapOffset (frees : Frees fs fs' runs) : bitmapOffset fs' = bitmapOffset fs :=
  @bitmapOffset_on_group0 _ _ (on_free_blocks (· + total runs)) (fun _ => rfl) frees.block_size frees.gdt
theorem Frees.capacity (frees : Frees fs fs' runs) : capacity fs' = capacity fs := by
  rw [BitmapLimit.capacity, BitmapLimit.capacity, frees.block_size]
theorem forall₂_on_group0 {f : GroupDescriptor → GroupDescriptor} (same : ∀ gd, SameGroup gd (f gd))
    (gdt : List GroupDescriptor) : List.Forall₂ SameGroup gdt (on_group0 f gdt) := by
  cases gdt with
  | nil => exact .nil
  | cons gd rest => exact .cons (same gd) (List.forall₂_same.mpr fun gd _ => sameGroup_refl gd)
theorem Frees.altered (frees : Frees fs fs' runs) : Altered (Among fs [.blockBitmap 0]) fs fs' :=
  ⟨⟨_, _, frees.superblock⟩, frees.gdt ▸ forall₂_on_group0 (fun _ => ⟨_, _, _, rfl⟩) _, frees.size, frees.bytes⟩

theorem on_free_blocks_nothing (gd : GroupDescriptor) : on_free_blocks (· + 0) gd = gd := by
  simp [on_free_blocks]
theorem frees_refl (fs : Filesystem) {runs : List (Nat × Nat)} (none : ∀ r ∈ runs, r.2 = 0) : Frees fs fs runs := by
  have zero : total runs = 0 := by
    induction runs with
    | nil => rfl
    | cons r rest ih =>
      rw [total_cons, none r (List.mem_cons_self ..), ih fun r member => none r (List.mem_cons_of_mem _ member)]
  have nowhere : ∀ j, ¬ InSpans runs j := by
    rintro j ⟨r, member, low, high⟩
    have empty := none r member
    omega
  refine ⟨?_, ?_, ?_, fun gd _ => ?_, rfl, fun _ _ => rfl, ?_, fun j => ?_⟩
  · rw [zero, on_all_free_blocks]
    simp
  · rw [zero, on_group0_same on_free_blocks_nothing]
  · rw [zero]
    exact fs.superblock.free_blocks_count.toNat_lt
  · rw [zero]
    exact gd.free_blocks_count.toNat_lt
  · intro r member some
    have empty := none r member
    omega
  · rw [decide_eq_false (nowhere j)]
    simp

theorem more_twice {a b : Nat} {x : UInt64} (fits : x.toNat + a < 18446744073709551616) :
    UInt64.ofNat ((UInt64.ofNat (x.toNat + a)).toNat + b) = UInt64.ofNat (x.toNat + (a + b)) := by
  rw [UInt64.toNat_ofNat', Nat.mod_eq_of_lt fits, Nat.add_assoc]
theorem more_twice_group {a b : Nat} {x : UInt32} (fits : x.toNat + a < 4294967296) :
    UInt32.ofNat ((UInt32.ofNat (x.toNat + a)).toNat + b) = UInt32.ofNat (x.toNat + (a + b)) := by
  rw [UInt32.toNat_ofNat', Nat.mod_eq_of_lt fits, Nat.add_assoc]

theorem Frees.append (first : Frees fs fs' runs) (later : Frees fs' fs'' runs') : Frees fs fs'' (runs ++ runs') := by
  have sum := total_append runs runs'
  refine ⟨?_, ?_, ?_, fun gd found => ?_, later.size.trans first.size, fun i out => ?_, ?_, fun j => ?_⟩
  · rw [later.superblock, first.superblock, sum]
    simp only [on_all_free_blocks]
    rw [more_twice first.fits]
  · rw [later.gdt, first.gdt, on_group0_twice, sum]
    cases table : fs.gdt with
    | nil => rfl
    | cons gd rest =>
      have fits := first.group_fits gd (by rw [gdt_at, table]; rfl)
      simp only [on_group0, on_free_blocks]
      rw [more_twice_group fits]
  · have fits := later.fits
    rw [first.superblock, on_all_free_blocks, UInt64.toNat_ofNat', Nat.mod_eq_of_lt first.fits] at fits
    omega
  · have fits := later.group_fits _ (first_on_group0 found first.gdt)
    rw [on_free_blocks, UInt32.toNat_ofNat', Nat.mod_eq_of_lt (first.group_fits gd found)] at fits
    omega
  · have kept := later.bytes i fun among =>
      out (first.altered.among (fun use member => by rw [List.mem_singleton.mp member]; trivial) among)
    rw [kept, first.bytes i out]
  · intro r member some
    rcases List.mem_append.mp member with here | there
    · exact first.inside r here some
    · rw [← first.capacity]
      exact later.inside r there some
  · rw [later.bits, first.bits, Bool.and_assoc, ← Bool.not_or, ← Bool.decide_or]
    congr 2
    exact decide_eq_decide.mpr (inSpans_append runs runs' j).symm
end

/-! ### The calls that release -/

section
variable {fs fs' : Filesystem}

theorem load_block_inv {block offset : Nat} {buf : Bytes} (loaded : load_block fs block = .ok (offset, buf)) :
    offset = block * fs.superblock.block_size.toNat ∧ (0 < fs.superblock.block_size.toNat →
      block * fs.superblock.block_size.toNat + fs.superblock.block_size.toNat ≤ fs.reader.size) ∧
      buf = blockBytes fs block := by
  rw [load_block] at loaded
  obtain ⟨_, fits, loaded⟩ := res_bind_eq_ok.mp loaded
  obtain ⟨_, slice, loaded⟩ := res_bind_eq_ok.mp loaded
  rw [in_u64] at fits
  split at fits
  case isFalse => cases fits
  cases fits
  rw [read_at] at slice
  split at slice
  case isFalse => cases slice
  rename_i inside
  cases slice
  cases loaded
  exact ⟨rfl, fun some => by omega, rfl⟩
theorem bitmap_first {gd : GroupDescriptor} (found : gdt_at fs 0 = .ok gd) :
    bitmapOffset fs = gd.block_bitmap.toNat * fs.superblock.block_size.toNat ∧
      bitmap fs = blockBytes fs gd.block_bitmap.toNat := by
  have offset : bitmapOffset fs = gd.block_bitmap.toNat * fs.superblock.block_size.toNat := by rw [bitmapOffset, found]
  exact ⟨offset, by rw [bitmap, offset, blockBytes]⟩
theorem clear_run_inv {buf buf' : Bytes} {start count : Nat}
    (cleared : (Bitmap.clear_run buf start count : Res Ext4Error Bytes) = .ok buf') :
    (0 < count → start + count ≤ 8 * buf.size) ∧ buf'.size = buf.size ∧
      ∀ j, Bitmap.get_bit buf' j = (Bitmap.get_bit buf j && !decide (start ≤ j ∧ j < start + count)) := by
  by_cases inside : start + count ≤ 8 * buf.size
  · obtain ⟨buf'', ran, size, bits⟩ := Bitmap.clear_run_ok (ε := Ext4Error) buf start count inside
    cases cleared.symm.trans ran
    exact ⟨fun _ => inside, size, bits⟩
  · by_cases some : 0 < count
    · rw [Bitmap.clear_run_panic buf start some (Nat.lt_of_not_le inside)] at cleared
      cases cleared
    · have zero : count = 0 := by omega
      subst zero
      cases cleared
      refine ⟨fun more => absurd more some, rfl, fun j => ?_⟩
      rw [decide_eq_false (show ¬ (start ≤ j ∧ j < start + 0) by omega)]
      simp

/-- What is in the bitmap when it alone has been written. -/
theorem bitmap_patched {f : GroupDescriptor → GroupDescriptor} {buf : Bytes} (size : buf.size = fs.superblock.block_size.toNat)
    (kept : ∀ gd, (f gd).block_bitmap = gd.block_bitmap) (same : fs'.superblock.block_size = fs.superblock.block_size)
    (changed : fs'.gdt = on_group0 f fs.gdt) (written : fs'.reader = fs.reader.patch (bitmapOffset fs) buf) :
    bitmap fs' = buf := by
  have whole := slice_patch_same fs.reader buf (bitmapOffset fs)
  rw [size] at whole
  rw [bitmap, bitmapOffset_on_group0 kept same changed, written, same, whole]

theorem free_blocks_ok {start count : Nat} (ran : (free_blocks start count).run fs = .ok () fs') :
    Frees fs fs' [(start, count)] := by
  unfold free_blocks at ran
  split at ran
  · rename_i zero
    cases ran
    exact frees_refl fs (by simpa using zero)
  rename_i some
  obtain ⟨gd, found, ran₁⟩ := reads_then_eq_ok.mp ran
  obtain ⟨⟨offset, buf⟩, loaded, ran₂⟩ := reads_then_eq_ok.mp ran₁
  obtain ⟨buf', cleared, ran₃⟩ := lift_then_eq_ok.mp ran₂
  obtain ⟨_, _, fourth, ran₄⟩ := run_bind_eq_ok.mp ran₃
  cases fourth
  obtain ⟨_, checked, ran₅⟩ := reads_then_eq_ok.mp ran₄
  obtain ⟨_, _, sixth, ran₆⟩ := run_bind_eq_ok.mp ran₅
  cases sixth
  obtain ⟨_, checked', ran₇⟩ := reads_then_eq_ok.mp ran₆
  cases ran₇
  obtain ⟨rfl, inside, rfl⟩ := load_block_inv loaded
  obtain ⟨place, content⟩ := bitmap_first found
  obtain ⟨limit, size, bits⟩ := clear_run_inv cleared
  have length : buf'.size = fs.superblock.block_size.toNat := size
  have positive : 0 < fs.superblock.block_size.toNat := by
    have enough := limit (by omega)
    simp only [blockBytes, size_slice] at enough
    omega
  refine ⟨?_, ?_, ?_, ?_, ?_, ?_, ?_, ?_⟩
  · rfl
  · rfl
  · rw [orPanic_eq_ok] at checked'
    exact of_decide_eq_true checked'
  · intro gd' found'
    cases found'.symm.trans found
    obtain ⟨_, here, checked⟩ := res_bind_eq_ok.mp checked
    cases here.symm.trans found
    exact of_decide_eq_true (orPanic_eq_ok.mp checked)
  · exact size_patch _ _ _ (by rw [length]; exact inside positive)
  · intro i out
    refine byte_patch_outside _ ?_
    refine Decidable.byContradiction fun inside => out ?_
    exact among_mem (List.mem_singleton.mpr rfl) (.blockBitmap (gdt_at_eq_ok.mp found)) (by omega) (by omega)
  · intro r member some
    rw [List.mem_singleton.mp member] at some ⊢
    exact limit some
  · intro j
    have moved := congrArg (fs.reader.patch · buf') place.symm
    refine Eq.trans (b := Bitmap.get_bit buf' j) (congrArg (Bitmap.get_bit · j)
      (@bitmap_patched fs _ (on_free_blocks (· + count)) _ length (fun _ => rfl) rfl rfl moved)) ?_
    rw [bits, content]
    congr 2
    exact decide_eq_decide.mpr (inSpans_single (start, count) j).symm

/-- The blocks of an extent go back unless it is only reserved, before the rest. -/
theorem frees_unless {β : Type} {b : β} {start count : Nat} {reserved : Bool} {rest : Call β}
    (ran : (if reserved then rest else do free_blocks start count; rest : Call β).run fs = .ok b fs') :
    ∃ mid, Frees fs mid (if reserved then [] else [(start, count)]) ∧ rest.run mid = .ok b fs' := by
  cases reserved with
  | true => exact ⟨fs, frees_refl fs (by simp), ran⟩
  | false =>
    obtain ⟨_, mid, first, later⟩ := run_bind_eq_ok.mp ran
    exact ⟨mid, free_blocks_ok first, later⟩

/-- The runs that are given back with extents. -/
def initialised (es : List Extent) : List (Nat × Nat) :=
  (es.filter fun e => !e.uninit).map fun e => (e.physical_block.toNat, e.len.toNat)

theorem initialised_cons (e : Extent) (es : List Extent) : initialised (e :: es) =
    (if e.uninit then [] else [(e.physical_block.toNat, e.len.toNat)]) ++ initialised es := by
  cases reserved : e.uninit <;> simp [initialised, reserved]
theorem free_runs_ok {es : List Extent} (ran : (free_runs es).run fs = .ok () fs') : Frees fs fs' (initialised es) := by
  induction es generalizing fs with
  | nil =>
    cases ran
    exact frees_refl fs' (by simp [initialised])
  | cons e es ih =>
    obtain ⟨mid, frees, later⟩ := frees_unless ran
    rw [initialised_cons]
    exact frees.append (ih later)

/-! ### Cutting extents off -/

/-- What is left of an extent below the cutoff. -/
def survivor (cutoff_blocks : Nat) (e : Extent) : Option Extent :=
  if e.logical_block.toNat + e.len.toNat ≤ cutoff_blocks then some e
  else if cutoff_blocks ≤ e.logical_block.toNat then none
  else some { e with len := .ofNat (cutoff_blocks - e.logical_block.toNat) }
def survivors (cutoff_blocks : Nat) (es : List Extent) : List Extent := es.filterMap (survivor cutoff_blocks)

/-- The blocks of an extent that lie past the cutoff. -/
def past (cutoff_blocks : Nat) (e : Extent) : Nat × Nat :=
  (e.physical_block.toNat + (cutoff_blocks - e.logical_block.toNat),
    e.logical_block.toNat + e.len.toNat - max cutoff_blocks e.logical_block.toNat)
/-- The runs that shrinking gives back. -/
def released (cutoff_blocks : Nat) (es : List Extent) : List (Nat × Nat) :=
  (es.filter fun e => !e.uninit).map (past cutoff_blocks)

theorem released_cons (cutoff_blocks : Nat) (e : Extent) (es : List Extent) : released cutoff_blocks (e :: es) =
    (if e.uninit then [] else [past cutoff_blocks e]) ++ released cutoff_blocks es := by
  cases reserved : e.uninit <;> simp [released, reserved]
/-- Nothing is given back of an extent below the cutoff. -/
theorem frees_past {cutoff_blocks : Nat} {e : Extent} (below : e.logical_block.toNat + e.len.toNat ≤ cutoff_blocks)
    (fs : Filesystem) : Frees fs fs (if e.uninit then [] else [past cutoff_blocks e]) := by
  refine frees_refl fs fun r member => ?_
  split at member
  · cases member
  · rw [List.mem_singleton.mp member, past]
    omega
theorem cut_extents_ok {cutoff_blocks : Nat} {es surviving : List Extent}
    (ran : (cut_extents cutoff_blocks es).run fs = .ok surviving fs') :
    surviving = survivors cutoff_blocks es ∧ Frees fs fs' (released cutoff_blocks es) := by
  induction es generalizing fs surviving with
  | nil =>
    cases ran
    exact ⟨rfl, frees_refl fs' (by simp [released])⟩
  | cons e es ih =>
    unfold cut_extents at ran
    dsimp only at ran
    rw [released_cons, survivors, List.filterMap_cons, survivor]
    split at ran
    · rename_i below
      obtain ⟨rest, mid, later, last⟩ := run_bind_eq_ok.mp ran
      cases last
      obtain ⟨rfl, frees⟩ := ih later
      exact ⟨by rw [if_pos below]; rfl, (frees_past below fs).append frees⟩
    rename_i above
    rw [if_neg above]
    split at ran
    · rename_i behind
      obtain ⟨mid, first, later⟩ := frees_unless ran
      obtain ⟨rfl, frees⟩ := ih later
      have whole : past cutoff_blocks e = (e.physical_block.toNat, e.len.toNat) := by
        rw [past, Nat.max_eq_right behind, Nat.sub_eq_zero_of_le behind]
        simp
      rw [if_pos behind, whole]
      exact ⟨rfl, first.append frees⟩
    · rename_i across
      obtain ⟨mid, first, ran⟩ := frees_unless ran
      obtain ⟨rest, mid', later, last⟩ := run_bind_eq_ok.mp ran
      cases last
      obtain ⟨rfl, frees⟩ := ih later
      have short := e.len.toNat_lt
      have kept : (cutoff_blocks - e.logical_block.toNat) % 65536 = cutoff_blocks - e.logical_block.toNat :=
        Nat.mod_eq_of_lt (by omega)
      rw [kept] at first ⊢
      rw [if_neg across, past, Nat.max_eq_left (Nat.le_of_not_le across)]
      exact ⟨rfl, first.append frees⟩

/-! ### The bit of an inode -/

/-- The bit of the inode in the bitmap of the first group is clear, the counts of
    inodes are one more, and nothing else is changed. -/
structure FreesInode (fs fs' : Filesystem) (n : UInt32) : Prop where
  superblock : fs'.superblock = on_all_free_inodes (· + 1) fs.superblock
  gdt : fs'.gdt = on_group0 (on_free_inodes (· + 1)) fs.gdt
  number : n ≠ 0
  size : fs'.reader.size = fs.reader.size
  bytes : ∀ gd, gdt_at fs 0 = .ok gd → ∀ i, (i < gd.inode_bitmap.toNat * fs.superblock.block_size.toNat ∨
    gd.inode_bitmap.toNat * fs.superblock.block_size.toNat + fs.superblock.block_size.toNat ≤ i) →
    fs'.reader.byte i = fs.reader.byte i
  inside : n.toNat - 1 < capacity fs
  bits : ∃ gd, gdt_at fs 0 = .ok gd ∧ ∀ j, Bitmap.get_bit (blockBytes fs' gd.inode_bitmap.toNat) j =
    (Bitmap.get_bit (blockBytes fs gd.inode_bitmap.toNat) j && !decide (j = n.toNat - 1))
end

section
variable {fs fs' : Filesystem} {n : UInt32}

theorem clear_bit_inv {buf buf' : Bytes} {i : Nat} (cleared : (Bitmap.clear_bit buf i : Res Ext4Error Bytes) = .ok buf') :
    i < 8 * buf.size ∧ buf'.size = buf.size ∧
      ∀ j, Bitmap.get_bit buf' j = (Bitmap.get_bit buf j && !decide (j = i)) := by
  by_cases inside : i < 8 * buf.size
  · obtain ⟨buf'', ran, size, bits⟩ := Bitmap.clear_bit_ok (ε := Ext4Error) buf i inside
    cases cleared.symm.trans ran
    exact ⟨inside, size, bits⟩
  · rw [Bitmap.clear_bit_panic (Nat.le_of_not_lt inside)] at cleared
    cases cleared

theorem free_inode_ok (ran : (free_inode n).run fs = .ok () fs') : FreesInode fs fs' n := by
  unfold free_inode at ran
  obtain ⟨gd, found, ran₁⟩ := reads_then_eq_ok.mp ran
  obtain ⟨⟨offset, buf⟩, loaded, ran₂⟩ := reads_then_eq_ok.mp ran₁
  obtain ⟨_, number, ran₃⟩ := lift_then_eq_ok.mp ran₂
  obtain ⟨buf', cleared, ran₄⟩ := lift_then_eq_ok.mp ran₃
  obtain ⟨_, _, fifth, ran₅⟩ := run_bind_eq_ok.mp ran₄
  cases fifth
  obtain ⟨_, -, ran₆⟩ := reads_then_eq_ok.mp ran₅
  obtain ⟨_, _, seventh, ran₇⟩ := run_bind_eq_ok.mp ran₆
  cases seventh
  obtain ⟨_, -, ran₈⟩ := reads_then_eq_ok.mp ran₇
  cases ran₈
  obtain ⟨rfl, inside, rfl⟩ := load_block_inv loaded
  obtain ⟨limit, size, bits⟩ := clear_bit_inv cleared
  have length : buf'.size = fs.superblock.block_size.toNat := size
  have covered : n.toNat - 1 < capacity fs := limit
  have positive : 0 < fs.superblock.block_size.toNat := by
    rw [capacity] at covered
    omega
  refine ⟨rfl, rfl, of_decide_eq_true (orPanic_eq_ok.mp number), ?_, ?_, covered, gd, found, fun j => ?_⟩
  · exact size_patch _ _ _ (by rw [length]; exact inside positive)
  · intro gd' found' i out
    cases found.symm.trans found'
    exact byte_patch_outside _ (by rw [length]; omega)
  · have whole := slice_patch_same fs.reader buf' (gd.inode_bitmap.toNat * fs.superblock.block_size.toNat)
    rw [length] at whole
    exact (congrArg (Bitmap.get_bit · j) whole).trans (bits j)

theorem FreesInode.altered (frees : FreesInode fs fs' n) : Altered (Among fs [.inodeBitmap 0]) fs fs' := by
  obtain ⟨gd, found, -⟩ := frees.bits
  refine ⟨⟨_, _, frees.superblock⟩, frees.gdt ▸ forall₂_on_group0 (fun _ => ⟨_, _, _, rfl⟩) _, frees.size, fun i out => ?_⟩
  refine frees.bytes gd found i ?_
  by_cases low : gd.inode_bitmap.toNat * fs.superblock.block_size.toNat ≤ i
  · by_cases high : i < gd.inode_bitmap.toNat * fs.superblock.block_size.toNat + fs.superblock.block_size.toNat
    · exact absurd (among_mem (List.mem_singleton.mpr rfl) (.inodeBitmap (gdt_at_eq_ok.mp found)) low high) out
    · exact .inr (Nat.le_of_not_lt high)
  · exact .inl (Nat.lt_of_not_le low)
end

end Justext4.Releasing
