import Justext4.Unlinking

/-!
Whether removing or shrinking a file gives back every block that it unmaps. The
bits that are to be cleared are those of the runs past the cutoff, where a
removal cuts at the start; the runs that are given back are those of them that
are initialised, and for a removal only when the file has a size.
-/
namespace Justext4.Unmapping
open Justext4 Justext4.Fallible Justext4.Filesystem Bytes
open Justext4.Inode (Inode)
open Justext4.Extent (Extent ExtentHeader decode_extent_node)
open Justext4.ExtentMap (Below below_leaf)
open Justext4.BitmapLimit (bitmap capacity)
open Justext4.FlushedRecords (InSpans)
open Justext4.Counts (clearBits clearBits_give)
open Justext4.Recounting
open Justext4.Regions
open Justext4.Releasing
open Justext4.Shrinking
open Justext4.Survey
open Justext4.Unlinking

/-! ### Runs of bits -/

/-- The run has the position. -/
def Within (r : Nat × Nat) (j : Nat) : Prop := r.1 ≤ j ∧ j < r.1 + r.2
instance (r : Nat × Nat) (j : Nat) : Decidable (Within r j) := inferInstanceAs (Decidable (_ ∧ _))
/-- No position is in both runs. -/
def Parted (r s : Nat × Nat) : Prop := ∀ j, ¬ (Within r j ∧ Within s j)

theorem inSpans_iff {runs : List (Nat × Nat)} {j : Nat} : InSpans runs j ↔ ∃ r ∈ runs, Within r j := Iff.rfl
theorem inSpans_cons (r : Nat × Nat) (rest : List (Nat × Nat)) (j : Nat) : InSpans (r :: rest) j ↔ Within r j ∨ InSpans rest j := by
  simp [inSpans_iff]

/-- Runs that are parted have as many positions as their lengths say. -/
theorem count_runs {runs : List (Nat × Nat)} {n : Nat} (parted : runs.Pairwise Parted)
    (inside : ∀ r ∈ runs, 0 < r.2 → r.1 + r.2 ≤ n) : clearBits (fun j => !decide (InSpans runs j)) n = total runs := by
  induction runs with
  | nil => simp [clearBits, InSpans]
  | cons r rest ih =>
    obtain ⟨first, others⟩ := List.pairwise_cons.mp parted
    have before := ih others fun s member => inside s (List.mem_cons_of_mem r member)
    have set : ∀ j, r.1 ≤ j → j < r.1 + r.2 → (!decide (InSpans rest j)) = true := by
      intro j low high
      rw [Bool.not_eq_true', decide_eq_false_iff_not]
      rintro ⟨s, member, within⟩
      exact first s member j ⟨⟨low, high⟩, within⟩
    have split : (fun j => !decide (InSpans (r :: rest) j)) =
        fun j => (!decide (InSpans rest j)) && !decide (r.1 ≤ j ∧ j < r.1 + r.2) := by
      funext j
      rw [← Bool.not_or, ← Bool.decide_or]
      exact congrArg (!·) (decide_eq_decide.mpr ((inSpans_cons r rest j).trans or_comm))
    rw [split, total_cons]
    by_cases some : 0 < r.2
    · rw [← clearBits_give _ set (inside r (List.mem_cons_self ..) some), before]
      omega
    · have none : (fun j => (!decide (InSpans rest j)) && !decide (r.1 ≤ j ∧ j < r.1 + r.2)) =
          fun j => !decide (InSpans rest j) := by
        funext j
        rw [decide_eq_false (show ¬ (r.1 ≤ j ∧ j < r.1 + r.2) by omega)]
        simp
      rw [none, before]
      omega

/-! ### What is to happen -/

/-- The blocks of an extent. -/
def runOf (e : Extent) : Nat × Nat := (e.physical_block.toNat, e.len.toNat)
/-- The leaf of the inode maps some block of the file to the block, written or only
    reserved. -/
def Maps (fs : Filesystem) (n : UInt32) (b : Nat) : Prop :=
  ∃ inode header es, read_inode fs n = .ok inode ∧ Inode.uses_extents inode = true ∧
    decode_extent_node inode.block.bytes = .ok (.Leaf header es) ∧ ∃ e ∈ es, Within (runOf e) b
/-- The number of bits of blocks that have been cleared. -/
def cleared (fs fs' : Filesystem) : Nat :=
  (List.range (capacity fs)).countP fun b => Bitmap.get_bit (bitmap fs) b && !Bitmap.get_bit (bitmap fs') b

/-- The blocks that the inode no longer maps are given back, no others, and the
    counts say so. -/
structure FreesUnmapped (fs fs' : Filesystem) (n : UInt32) : Prop where
  bits : ∀ b, Bitmap.get_bit (bitmap fs') b = true ↔
    Bitmap.get_bit (bitmap fs) b = true ∧ ¬ (Maps fs n b ∧ ¬ Maps fs' n b)
  total : fs'.superblock.free_blocks_count.toNat = fs.superblock.free_blocks_count.toNat + cleared fs fs'
  group : ∃ gd gd', gdt_at fs 0 = .ok gd ∧ gdt_at fs' 0 = .ok gd' ∧
    gd'.free_blocks_count.toNat = gd.free_blocks_count.toNat + cleared fs fs'

/-- An image of one group that starts with the first block, whose inodes have their
    blocks marked and map each once. -/
structure SingleGroup (fs : Filesystem) : Prop where
  consistent : ConsistentImage fs
  one : fs.gdt.length = 1
  first : fs.superblock.first_data_block = 0
  marked : ∀ {n : UInt32} {inode : Inode} {ext : Extent} {b : Nat}, Live fs n → read_inode fs n = .ok inode →
    Inode.uses_extents inode = true → Below fs inode.block.bytes ext → Within (runOf ext) b →
    Bitmap.get_bit (bitmap fs) b = true
  once : ∀ {n : UInt32} {inode : Inode} {header : ExtentHeader} {es : List Extent}, Live fs n → read_inode fs n = .ok inode →
    Inode.uses_extents inode = true → decode_extent_node inode.block.bytes = .ok (.Leaf header es) →
    es.Pairwise fun a b => Parted (runOf a) (runOf b)

/-! ### The runs past a cutoff -/

section
variable {es : List Extent} {e e' : Extent} {c j : Nat}

theorem past_start (e : Extent) : past 0 e = runOf e := by simp [past, runOf]
theorem within_past (within : Within (past c e) j) : Within (runOf e) j := by
  simp only [Within, past, runOf] at within ⊢
  omega
/-- A block of an extent is left or past the cutoff, and not both. -/
theorem within_split : Within (runOf e) j ↔ (∃ e', survivor c e = some e' ∧ Within (runOf e') j) ∨ Within (past c e) j := by
  have bound := e.len.toNat_lt
  simp only [Within, past, runOf, survivor]
  by_cases below : e.logical_block.toNat + e.len.toNat ≤ c
  · rw [if_pos below]
    constructor
    · exact fun within => .inl ⟨e, rfl, within⟩
    · rintro (⟨e', left, within⟩ | within)
      · cases left
        exact within
      · omega
  rw [if_neg below]
  by_cases behind : c ≤ e.logical_block.toNat
  · rw [if_pos behind]
    constructor
    · exact fun within => .inr (by omega)
    · rintro (⟨e', left, -⟩ | within)
      · cases left
      · omega
  rw [if_neg behind]
  have kept : (UInt16.ofNat (c - e.logical_block.toNat)).toNat = c - e.logical_block.toNat := by
    rw [UInt16.toNat_ofNat']
    omega
  constructor
  · intro within
    by_cases low : j < e.physical_block.toNat + (c - e.logical_block.toNat)
    · exact .inl ⟨_, rfl, within.1, by dsimp only; omega⟩
    · exact .inr (by omega)
  · rintro (⟨e', left, within⟩ | within)
    · cases left
      dsimp only at within
      omega
    · omega
theorem survivor_apart (left : survivor c e = some e') (within : Within (runOf e') j) : ¬ Within (past c e) j := by
  have bound := e.len.toNat_lt
  simp only [Within, past, runOf, survivor] at left within ⊢
  split at left
  · cases left
    omega
  split at left
  · cases left
  · cases left
    have kept : (UInt16.ofNat (c - e.logical_block.toNat)).toNat = c - e.logical_block.toNat := by
      rw [UInt16.toNat_ofNat']
      omega
    dsimp only at within
    omega

/-- A block is in one extent only. -/
theorem same_extent (once : es.Pairwise fun a b => Parted (runOf a) (runOf b)) (member : e ∈ es) (member' : e' ∈ es)
    (within : Within (runOf e) j) (within' : Within (runOf e') j) : e = e' := by
  have symmetric : Std.Symm (fun a b : Extent => Parted (runOf a) (runOf b)) :=
    ⟨fun _ _ parted j both => parted j ⟨both.2, both.1⟩⟩
  refine Decidable.byContradiction fun other => ?_
  exact once.forall member member' other j ⟨within, within'⟩

/-- The blocks that are mapped before a cut and not after it are those past it. -/
theorem unmapped_iff (once : es.Pairwise fun a b => Parted (runOf a) (runOf b)) :
    ((∃ e ∈ es, Within (runOf e) j) ∧ ¬ ∃ e ∈ survivors c es, Within (runOf e) j) ↔ ∃ e ∈ es, Within (past c e) j := by
  constructor
  · rintro ⟨⟨e, member, within⟩, gone⟩
    rcases within_split.mp within with ⟨e', left, within'⟩ | past
    · exact absurd ⟨e', List.mem_filterMap.mpr ⟨e, member, left⟩, within'⟩ gone
    · exact ⟨e, member, past⟩
  · rintro ⟨e, member, past⟩
    refine ⟨⟨e, member, within_past past⟩, ?_⟩
    rintro ⟨e', member', within'⟩
    obtain ⟨e₀, member₀, left⟩ := List.mem_filterMap.mp member'
    have same := same_extent once member member₀ (within_past past) (within_split.mpr (.inl ⟨e', left, within'⟩))
    subst same
    exact survivor_apart left within' past
end

/-! ### What is given back -/

/-- What a call has done that gives back, of the runs past a cutoff, those of some
    extents. -/
structure GivesBack (fs fs' : Filesystem) (n : UInt32) (es : List Extent) (c : Nat) (chosen : Extent → Bool) : Prop where
  once : es.Pairwise fun a b => Parted (runOf a) (runOf b)
  marked : ∀ e ∈ es, ∀ b, Within (runOf e) b → Bitmap.get_bit (bitmap fs) b = true
  unmapped : ∀ b, (Maps fs n b ∧ ¬ Maps fs' n b) ↔ ∃ e ∈ es, Within (past c e) b
  freed : ∃ mid, Frees fs mid ((es.filter chosen).map (past c))
  bits : ∀ j, Bitmap.get_bit (bitmap fs') j =
    (Bitmap.get_bit (bitmap fs) j && !decide (InSpans ((es.filter chosen).map (past c)) j))
  total : fs'.superblock.free_blocks_count =
    .ofNat (fs.superblock.free_blocks_count.toNat + total ((es.filter chosen).map (past c)))
  group : ∃ gd gd', gdt_at fs 0 = .ok gd ∧ gdt_at fs' 0 = .ok gd' ∧
    gd'.free_blocks_count = .ofNat (gd.free_blocks_count.toNat + Releasing.total ((es.filter chosen).map (past c)))

section
variable {fs fs' : Filesystem} {n : UInt32} {es : List Extent} {c : Nat} {chosen : Extent → Bool}

theorem inSpans_chosen {j : Nat} : InSpans ((es.filter chosen).map (past c)) j ↔
    ∃ e ∈ es, chosen e = true ∧ Within (past c e) j := by
  simp only [inSpans_iff, List.mem_map, List.mem_filter]
  constructor
  · rintro ⟨r, ⟨e, ⟨member, taken⟩, rfl⟩, within⟩
    exact ⟨e, member, taken, within⟩
  · rintro ⟨e, member, taken, within⟩
    exact ⟨_, ⟨e, ⟨member, taken⟩, rfl⟩, within⟩

/-- As many bits are cleared as the runs have blocks. -/
theorem GivesBack.cleared (gives : GivesBack fs fs' n es c chosen) :
    cleared fs fs' = Releasing.total ((es.filter chosen).map (past c)) := by
  obtain ⟨mid, freed⟩ := gives.freed
  have parted : ((es.filter chosen).map (past c)).Pairwise Parted := by
    rw [List.pairwise_map]
    exact (gives.once.filter _).imp fun parted j both => parted j ⟨within_past both.1, within_past both.2⟩
  rw [← count_runs parted freed.inside, clearBits, Unmapping.cleared]
  refine List.countP_congr fun j _ => ?_
  rw [gives.bits]
  by_cases span : InSpans ((es.filter chosen).map (past c)) j
  · obtain ⟨e, member, -, within⟩ := inSpans_chosen.mp span
    rw [gives.marked e member j (within_past within), decide_eq_true span]
    decide
  · rw [decide_eq_false span]
    simp

/-- All that is unmapped is given back exactly when no extent is left out that has
    blocks past the cutoff. -/
theorem GivesBack.frees_iff (gives : GivesBack fs fs' n es c chosen) :
    FreesUnmapped fs fs' n ↔ ∀ e ∈ es, chosen e = false → (past c e).2 = 0 := by
  constructor
  · intro frees e member left
    refine Decidable.byContradiction fun some => ?_
    have within : Within (past c e) (past c e).1 := ⟨Nat.le_refl _, by omega⟩
    have out := (gives.unmapped _).mpr ⟨e, member, within⟩
    have set := gives.marked e member _ (within_past within)
    have gone : ¬ Bitmap.get_bit (bitmap fs') (past c e).1 = true := fun kept => ((frees.bits _).mp kept).2 out
    rw [gives.bits, set, Bool.true_and, Bool.not_eq_true', decide_eq_false_iff_not, Decidable.not_not, inSpans_chosen] at gone
    obtain ⟨e', member', taken, within'⟩ := gone
    have same := same_extent gives.once member member' (within_past within) (within_past within')
    subst same
    exact absurd (left.symm.trans taken) Bool.false_ne_true
  · intro all
    obtain ⟨mid, freed⟩ := gives.freed
    refine ⟨fun b => ?_, ?_, ?_⟩
    · rw [gives.unmapped, gives.bits, Bool.and_eq_true, Bool.not_eq_true', decide_eq_false_iff_not, inSpans_chosen]
      refine and_congr_right fun _ => not_congr ⟨?_, ?_⟩
      · rintro ⟨e, member, -, within⟩
        exact ⟨e, member, within⟩
      · rintro ⟨e, member, within⟩
        refine ⟨e, member, ?_, within⟩
        cases taken : chosen e with
        | true => rfl
        | false =>
          have none := all e member taken
          have high := within.2
          have low := within.1
          omega
    · rw [gives.total, gives.cleared, UInt64.toNat_ofNat']
      exact Nat.mod_eq_of_lt freed.fits
    · obtain ⟨gd, gd', found, found', count⟩ := gives.group
      refine ⟨gd, gd', found, found', ?_⟩
      rw [count, gives.cleared, UInt32.toNat_ofNat']
      exact Nat.mod_eq_of_lt (freed.group_fits gd found)
end

/-! ### The two calls -/

section
variable {fs fs' : Filesystem} {n p : UInt32} {inode parent : Inode} {header : ExtentHeader} {es : List Extent}
  {path name : List UInt8} {new_size : UInt64} {block : FixedBytes 60}

theorem SingleGroup.found (single : SingleGroup fs) : ∃ gd, gdt_at fs 0 = .ok gd := by
  have one := single.one
  cases table : fs.gdt with
  | nil =>
    rw [table] at one
    cases one
  | cons gd rest => exact ⟨gd, gdt_at_eq_ok.mpr (by rw [table]; rfl)⟩
theorem SingleGroup.marked_leaf (single : SingleGroup fs) (live : Live fs n) (read : read_inode fs n = .ok inode)
    (based : Inode.uses_extents inode = true) (decoded : decode_extent_node inode.block.bytes = .ok (.Leaf header es)) :
    ∀ e ∈ es, ∀ b, Within (runOf e) b → Bitmap.get_bit (bitmap fs) b = true :=
  fun _ member _ within => single.marked live read based ((below_leaf decoded).mpr member) within

/-- What the inode maps is what its leaf does. -/
theorem maps_iff {b : Nat} (read : read_inode fs n = .ok inode) (based : Inode.uses_extents inode = true)
    (decoded : decode_extent_node inode.block.bytes = .ok (.Leaf header es)) :
    Maps fs n b ↔ ∃ e ∈ es, Within (runOf e) b := by
  constructor
  · rintro ⟨inode', header', es', read', -, decoded', mapped⟩
    cases read.symm.trans read'
    cases decoded.symm.trans decoded'
    exact mapped
  · exact fun mapped => ⟨inode, header, es, read, based, decoded, mapped⟩

theorem gives_shrunk (single : SingleGroup fs) (live : Live fs n) (read : read_inode fs n = .ok inode)
    (decoded : decode_extent_node inode.block.bytes = .ok (.Leaf header es))
    (shrinks : Shrinks fs fs' n inode new_size es block) :
    GivesBack fs fs' n es (div_ceil new_size.toNat fs.superblock.block_size.toNat) fun e => !e.uninit := by
  have separate : Separate fs := single.consistent.separate
  have once := single.once live read shrinks.based decoded
  obtain ⟨gd, found⟩ := single.found
  have read' := shrinks.read separate
  obtain ⟨mid, offset, r, frees, slot, same, records⟩ := shrinks.steps
  have first := frees.altered
  have later : Altered (Among fs [.slot n, .superblock, .table]) mid fs' :=
    ((write_inode_altered (first.inSlot slot) _).wider fun i among =>
      among_more (by simp) (first.among (by simp [Use.Fixed]) among)).trans (records.wider fun i => among_more (by simp))
  have found₁ := first_on_group0 found frees.gdt
  have kept : bitmap fs' = bitmap mid := (Altered.bitmap later found₁ (by
    rw [frees.bitmapOffset, frees.block_size, (bitmap_first found).1]
    exact separate.clear (.blockBitmap (gdt_at_eq_ok.mp found)) (by simp))).1
  refine ⟨once, single.marked_leaf live read shrinks.based decoded, fun b => ?_, ⟨mid, frees⟩, fun j => ?_, ?_,
    gd, on_free_blocks (· + total (released (div_ceil new_size.toNat fs.superblock.block_size.toNat) es)) gd, found, ?_, rfl⟩
  · rw [maps_iff read shrinks.based decoded,
      maps_iff read' (show Inode.uses_extents (shrunk ..) = true from shrinks.based) (survivors_decoded decoded shrinks.encoded)]
    exact unmapped_iff once
  · rw [kept]
    exact frees.bits j
  · rw [same]
    simp only [Slots.withSlot_superblock, frees.superblock]
    rfl
  · rw [gdt_at, same]
    simp only [Slots.withSlot_gdt]
    exact found₁

theorem freedRuns_leaf (based : Inode.uses_extents inode = true)
    (decoded : decode_extent_node inode.block.bytes = .ok (.Leaf header es)) :
    freedRuns inode = (es.filter fun e => !e.uninit && decide (0 < inode.size.toNat)).map (past 0) := by
  rw [freedRuns, decoded, based]
  by_cases some : 0 < inode.size.toNat
  · rw [if_pos ⟨rfl, some⟩, decide_eq_true some]
    simp only [initialised, Bool.and_true]
    exact List.map_congr_left fun e _ => (past_start e).symm
  · rw [if_neg fun both => some both.2, decide_eq_false some]
    simp
theorem gives_unlinked (single : SingleGroup fs) (positive : 0 < fs.superblock.block_size.toNat)
    (based : Inode.uses_extents inode = true) (decoded : decode_extent_node inode.block.bytes = .ok (.Leaf header es))
    (unlinks : Unlinks fs fs' path name p parent n inode) :
    GivesBack fs fs' n es 0 fun e => !e.uninit && decide (0 < inode.size.toNat) := by
  have gone := unlinks.gone single.consistent positive
  obtain ⟨-, -, -, live⟩ := unlinks.found.alive single.consistent
  have read := unlinks.found.read
  have runs := freedRuns_leaf based decoded
  obtain ⟨gd, found⟩ := single.found
  have freed := gone.freed
  have bits := gone.bits
  have superblock := gone.superblock
  have gdt := gone.gdt
  rw [runs] at freed bits superblock gdt
  rw [on_group0_twice] at gdt
  refine ⟨single.once live read based decoded, single.marked_leaf live read based decoded, fun b => ?_, freed, bits, ?_,
    gd, _, found, first_on_group0 found gdt, rfl⟩
  · have none : ¬ Maps fs' n b := by
      rintro ⟨inode', header', es', read', based', -⟩
      cases gone.read.symm.trans read'
      simp [Inode.uses_extents, deleted, Inode.INODE_FLAG_EXTENTS] at based'
    simp only [maps_iff read based decoded, past_start]
    exact ⟨fun both => both.1, fun mapped => ⟨mapped, none⟩⟩
  · rw [superblock]
    rfl

theorem unlink_frees_iff {image : Bytes} (accepted : open_image image = .ok fs) (single : SingleGroup fs)
    (opened : open_path fs path = .ok n) (read : read_inode fs n = .ok inode) (based : Inode.uses_extents inode = true)
    (decoded : decode_extent_node inode.block.bytes = .ok (.Leaf header es)) (ran : (unlink path).run fs = .ok () fs') :
    FreesUnmapped fs fs' n ↔ ∀ e ∈ es, e.len ≠ 0 → e.uninit = false ∧ 0 < inode.size.toNat := by
  have positive : 0 < fs.superblock.block_size.toNat :=
    Nat.lt_of_lt_of_le (by decide) (FileMap.Opened.positive (Decoders.opened_of accepted))
  obtain ⟨name, p, parent, n', inode', unlinks⟩ := unlink_ok (flushable_opened accepted) positive ran
  cases opened.symm.trans unlinks.found.open_path
  cases read.symm.trans unlinks.found.read
  rw [(gives_unlinked single positive based decoded unlinks).frees_iff]
  refine forall₂_congr fun e _ => ?_
  rw [past_start, runOf]
  have zero : e.len.toNat = 0 ↔ e.len = 0 := by
    rw [← UInt16.toNat_inj]
    rfl
  cases e.uninit with
  | true => simp [zero]
  | false =>
    by_cases some : 0 < inode.size.toNat
    · simp [some]
    · simp [some, zero]
theorem truncate_frees_iff {image : Bytes} (accepted : open_image image = .ok fs) (single : SingleGroup fs)
    (opened : open_path fs path = .ok n) (read : read_inode fs n = .ok inode)
    (decoded : decode_extent_node inode.block.bytes = .ok (.Leaf header es)) (smaller : new_size < inode.size)
    (ran : (Filesystem.truncate path new_size).run fs = .ok () fs') :
    FreesUnmapped fs fs' n ↔ ∀ e ∈ es, e.uninit = true → e.len ≠ 0 →
      e.logical_block.toNat + e.len.toNat ≤ div_ceil new_size.toNat fs.superblock.block_size.toNat := by
  obtain ⟨es', block, shrinks⟩ := truncate_shrinks (flushable_opened accepted) opened read smaller ran
  obtain ⟨header', decoded'⟩ := shrinks.leaf
  cases decoded.symm.trans decoded'
  rw [(gives_shrunk single (single.consistent.open_path opened) read decoded shrinks).frees_iff]
  refine forall₂_congr fun e _ => ?_
  have zero : e.len.toNat = 0 ↔ e.len = 0 := by
    rw [← UInt16.toNat_inj]
    rfl
  rw [Bool.not_eq_false', past, ne_eq, ← zero]
  refine imp_congr_right fun _ => ?_
  dsimp only
  omega

/-- A removal gives back all blocks of a file exactly when each extent with blocks is
    initialised and the file has a size, and a truncation all blocks that it unmaps
    exactly when no preallocated extent with blocks reaches past the cutoff. -/
theorem releases_unmapped_iff {image : Bytes} (accepted : open_image image = .ok fs) (single : SingleGroup fs)
    (opened : open_path fs path = .ok n) (read : read_inode fs n = .ok inode) (based : Inode.uses_extents inode = true)
    (decoded : decode_extent_node inode.block.bytes = .ok (.Leaf header es)) :
    (∀ fs', (unlink path).run fs = .ok () fs' →
      (FreesUnmapped fs fs' n ↔ ∀ e ∈ es, e.len ≠ 0 → e.uninit = false ∧ 0 < inode.size.toNat)) ∧
    (∀ new_size fs', new_size < inode.size → (Filesystem.truncate path new_size).run fs = .ok () fs' →
      (FreesUnmapped fs fs' n ↔ ∀ e ∈ es, e.uninit = true → e.len ≠ 0 →
        e.logical_block.toNat + e.len.toNat ≤ div_ceil new_size.toNat fs.superblock.block_size.toNat)) :=
  ⟨fun _ ran => unlink_frees_iff accepted single opened read based decoded ran,
    fun _ _ smaller ran => truncate_frees_iff accepted single opened read decoded smaller ran⟩
end

/-! ### Files of four blocks -/

/-- The blocks of the inodes in use are marked, and no inode has one twice. -/
def marks (fs : Filesystem) : Bool :=
  (numbers fs).all fun n => !decide (Live fs n) || ((extentsOf fs n).all fun e =>
    (List.range' e.physical_block.toNat e.len.toNat).all (Bitmap.get_bit (bitmap fs) ·)) &&
      decide ((extentsOf fs n).Pairwise fun a b => (runOf a).1 + (runOf a).2 ≤ (runOf b).1 ∨
        (runOf b).1 + (runOf b).2 ≤ (runOf a).1)

/-- What goes through the lists says it of every inode in use. -/
theorem marked_of_all {fs : Filesystem} {mark : Nat → Bool} (marked : ((numbers fs).all fun n => !decide (Live fs n) ||
    ((extentsOf fs n).all fun e => (List.range' e.physical_block.toNat e.len.toNat).all mark) &&
      decide ((extentsOf fs n).Pairwise fun a b => (runOf a).1 + (runOf a).2 ≤ (runOf b).1 ∨
        (runOf b).1 + (runOf b).2 ≤ (runOf a).1)) = true) {n : UInt32} (live : Live fs n) :
    (∀ e ∈ extentsOf fs n, ∀ b, Within (runOf e) b → mark b = true) ∧
      (extentsOf fs n).Pairwise fun a b => Parted (runOf a) (runOf b) := by
  have here := List.all_eq_true.mp marked n (live_number live)
  simp only [live, decide_true, Bool.not_true, Bool.false_or, Bool.and_eq_true, List.all_eq_true, decide_eq_true_eq] at here
  refine ⟨fun e member b within => here.1 e member b ?_, here.2.imp fun apart j both => ?_⟩
  · exact List.mem_range'_1.mpr within
  · have left := both.1
    have right := both.2
    simp only [Within] at left right
    omega
theorem extents_leaf {fs : Filesystem} {n : UInt32} {inode : Inode} {header : ExtentHeader} {es : List Extent}
    (read : read_inode fs n = .ok inode) (based : Inode.uses_extents inode = true)
    (decoded : decode_extent_node inode.block.bytes = .ok (.Leaf header es)) : extentsOf fs n = es := by
  rw [extentsOf, read]
  dsimp only
  rw [based, decoded]

theorem single_of_marks {fs : Filesystem} (sound : Sound fs) (one : fs.gdt.length = 1)
    (first : fs.superblock.first_data_block = 0) (marked : marks fs = true) : SingleGroup fs := by
  refine ⟨sound.consistent, one, first, fun {n _ ext b} live read based below within => ?_,
    fun {n inode header es} live read based decoded => ?_⟩
  · exact (marked_of_all marked live).1 ext ((extents_below sound.flat live read based).2 ext below) b within
  · exact extents_leaf read based decoded ▸ (marked_of_all marked live).2

theorem reserved_single : SingleGroup reservedState :=
  single_of_marks reserved_sound rfl rfl (by decide +kernel)
theorem reserved_decoded : ∃ header, decode_extent_node (leafInode 0x81A4 1 8192 reservedRuns).block.bytes =
    .ok (.Leaf header reservedRuns) := ⟨⟨2, 4, 0, 0⟩, by decide +kernel⟩

/-- The blocks that are only reserved stay marked when the file goes or is cut. -/
theorem reserved_leaks : open_image reservedState.reader = .ok reservedState ∧ SingleGroup reservedState ∧
    open_path reservedState [SLASH, 97] = .ok 11 ∧
    (∃ fs', (unlink [SLASH, 97]).run reservedState = .ok () fs' ∧ ¬ FreesUnmapped reservedState fs' 11) ∧
    ∃ fs', (Filesystem.truncate [SLASH, 97] 2048).run reservedState = .ok () fs' ∧ ¬ FreesUnmapped reservedState fs' 11 := by
  obtain ⟨header, decoded⟩ := reserved_decoded
  have opened : open_path reservedState [SLASH, 97] = .ok 11 := by decide +kernel
  have returns : returned ((unlink [SLASH, 97]).run reservedState) = true := by decide +kernel
  have returns' : returned ((Filesystem.truncate [SLASH, 97] 2048).run reservedState) = true := by decide +kernel
  obtain ⟨_, fs', ran⟩ := returned_ok returns
  obtain ⟨_, fs'', ran'⟩ := returned_ok returns'
  refine ⟨reserved_opens, reserved_single, opened, ⟨fs', ran, fun frees => ?_⟩, fs'', ran', fun frees => ?_⟩
  · have all := (unlink_frees_iff reserved_opens reserved_single opened reserved_reads rfl decoded ran).mp frees
    exact absurd (all ⟨2, 2, 9, true⟩ (by decide) (by decide)).1 (by decide)
  · have all := (truncate_frees_iff reserved_opens reserved_single opened reserved_reads decoded (by decide) ran').mp frees
    exact absurd (all ⟨2, 2, 9, true⟩ (by decide) rfl (by decide)) (by decide)

/-- The same file with its last blocks written. -/
def writtenRuns : List Extent := [⟨0, 2, 7, false⟩, ⟨2, 2, 9, false⟩]
def writtenParts : List (Nat × Bytes) :=
  smallParts [255, 7] [2, 4] [(2, leafInode 0x41ED 2 2048 [⟨0, 1, 6, false⟩]), (11, leafInode 0x81A4 1 8192 writtenRuns)]
    [(6, entryBytes (rootEntries [([97], 11)]))]
def writtenState : Filesystem := smallState 5 14 writtenParts

theorem written_assembles : Images.Assembles 32768 (smallSuperblock 5 14) 1 [smallGroup 5 14] writtenParts := by
  decide +kernel
theorem written_opens : open_image writtenState.reader = .ok writtenState := small_opens written_assembles
theorem written_reads : read_inode writtenState 11 = .ok (leafInode 0x81A4 1 8192 writtenRuns) :=
  small_reads written_assembles (by decide) (by decide) (by simp [writtenParts, smallParts])
theorem written_single : SingleGroup writtenState :=
  single_of_marks (by decide +kernel) rfl rfl (by decide +kernel)

/-- All four blocks go back when it is removed, and three when it is cut to one. -/
theorem written_frees : (∃ fs', (unlink [SLASH, 97]).run writtenState = .ok () fs' ∧ FreesUnmapped writtenState fs' 11) ∧
    ∃ fs', (Filesystem.truncate [SLASH, 97] 2048).run writtenState = .ok () fs' ∧ FreesUnmapped writtenState fs' 11 := by
  have decoded : decode_extent_node (leafInode 0x81A4 1 8192 writtenRuns).block.bytes =
    .ok (.Leaf ⟨2, 4, 0, 0⟩ writtenRuns) := by decide +kernel
  have opened : open_path writtenState [SLASH, 97] = .ok 11 := by decide +kernel
  have returns : returned ((unlink [SLASH, 97]).run writtenState) = true := by decide +kernel
  have returns' : returned ((Filesystem.truncate [SLASH, 97] 2048).run writtenState) = true := by decide +kernel
  obtain ⟨_, fs', ran⟩ := returned_ok returns
  obtain ⟨_, fs'', ran'⟩ := returned_ok returns'
  obtain ⟨removal, cut⟩ := releases_unmapped_iff written_opens written_single opened written_reads rfl decoded
  exact ⟨⟨fs', ran, (removal fs' ran).mpr (by decide)⟩, fs'', ran', (cut 2048 fs'' (by decide) ran').mpr (by decide)⟩

end Justext4.Unmapping
