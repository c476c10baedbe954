import Mathlib.Algebra.BigOperators.Group.List.Basic
import Mathlib.Algebra.GroupWithZero.Nat
import Mathlib.Data.List.Nodup
import Justext4.DirRoundTrip
import Justext4.Unlinking

/-!
Files with several names. A removal takes one entry out of its directory and
frees the inode whatever else names it, so no entry is left behind that names a
freed inode exactly when the inode had one link.
-/
namespace Justext4.HardLinks
open Justext4 Justext4.Fallible Justext4.Filesystem Bytes
open Justext4.Inode (Inode)
open Justext4.DirEntry (DirEntry is_unused)
open Justext4.DirBlock (Tiles Kid kid)
open Justext4.BlockEdits
open Justext4.Decoders (opened_of)
open Justext4.DirRoundTrip (HoldsRow read_dir_tiled)
open Justext4.Shrinking (size_read_block)
open Justext4.Regions
open Justext4.Releasing
open Justext4.Survey
open Justext4.Volumes (read_at_ok)
open Justext4.Unlinking

/-! ### The names of an inode -/

/-- The number of live entries of a directory that name the inode. -/
def namesIn (fs : Filesystem) (m d : UInt32) : Nat := (lives (entriesOf fs d)).countP (·.inode == m)
/-- The number of live entries that name the inode, in all directories in use. -/
def names (fs : Filesystem) (m : UInt32) : Nat :=
  (((numbers fs).filter fun d => decide (Live fs d)).map (namesIn fs m)).sum

section
variable {fs : Filesystem} {m d e : UInt32}

theorem numbers_nodup (fs : Filesystem) : (numbers fs).Nodup := by
  have bound := fs.superblock.inodes_count.toNat_lt
  refine List.Nodup.map_on (fun i inside j inside' same => ?_) List.nodup_range
  have first := List.mem_range.mp inside
  have second := List.mem_range.mp inside'
  have numbers := congrArg UInt32.toNat same
  rw [UInt32.toNat_ofNat', UInt32.toNat_ofNat'] at numbers
  omega
theorem mem_live (live : Live fs d) : d ∈ (numbers fs).filter fun d => decide (Live fs d) :=
  List.mem_filter.mpr ⟨live_number live, decide_eq_true live⟩
/-- The names in one directory and those in the others. -/
theorem names_split (live : Live fs d) (m : UInt32) : names fs m = namesIn fs m d +
    ((((numbers fs).filter fun d => decide (Live fs d)).erase d).map (namesIn fs m)).sum :=
  (List.sum_map_erase (namesIn fs m) (mem_live live)).symm
theorem namesIn_le (live : Live fs d) : namesIn fs m d ≤ names fs m := by
  rw [names_split live m]
  omega
theorem namesIn_two (live : Live fs d) (live' : Live fs e) (other : e ≠ d) : namesIn fs m d + namesIn fs m e ≤ names fs m := by
  rw [names_split live m]
  have member := (List.mem_erase_of_ne other).mpr (mem_live live')
  have part := List.sum_map_erase (namesIn fs m) member
  omega
/-- When no other directory names the inode, one has all its names. -/
theorem names_only (live : Live fs d) (none : ∀ e, Live fs e → e ≠ d → namesIn fs m e = 0) : names fs m = namesIn fs m d := by
  rw [names_split live m]
  have zero : ((((numbers fs).filter fun d => decide (Live fs d)).erase d).map (namesIn fs m)).sum = 0 := by
    refine List.sum_eq_zero fun k member => ?_
    obtain ⟨e, inside, rfl⟩ := List.mem_map.mp member
    obtain ⟨other, listed⟩ := (List.Nodup.mem_erase_iff ((numbers_nodup fs).filter _)).mp inside
    exact none e (of_decide_eq_true (List.mem_filter.mp listed).2) other
  rw [zero, Nat.add_zero]

/-- The entries of a directory that is read. -/
theorem entriesOf_read {inode : Inode} {entries : List DirEntry} (read : read_inode fs d = .ok inode)
    (directory : Inode.is_directory inode = true) (listed : read_dir fs inode = .ok entries) : entriesOf fs d = entries := by
  rw [entriesOf, read]
  dsimp only
  rw [directory, listed]
theorem entriesOf_mem {entry : DirEntry} (member : entry ∈ entriesOf fs d) : ∃ inode entries, read_inode fs d = .ok inode ∧
    Inode.is_directory inode = true ∧ read_dir fs inode = .ok entries ∧ entry ∈ entries := by
  rw [entriesOf] at member
  cases read : read_inode fs d with
  | error fault =>
    rw [read] at member
    cases member
  | ok inode =>
    rw [read] at member
    dsimp only at member
    cases directory : Inode.is_directory inode with
    | false =>
      rw [directory] at member
      cases member
    | true =>
      cases listed : read_dir fs inode with
      | error fault =>
        rw [directory, listed] at member
        cases member
      | ok entries =>
        rw [directory, listed] at member
        exact ⟨inode, entries, rfl, directory, listed, member⟩
theorem mem_lives {es : List DirEntry} {k : Kid} : k ∈ lives es ↔ ∃ entry ∈ es, is_unused entry = false ∧ kid entry = k := by
  simp only [lives, List.mem_map, List.mem_filter, Bool.not_eq_true']
  constructor
  · rintro ⟨entry, ⟨member, used⟩, same⟩
    exact ⟨entry, member, used, same⟩
  · rintro ⟨entry, member, used, same⟩
    exact ⟨entry, ⟨member, used⟩, same⟩
theorem namesIn_pos : 0 < namesIn fs m d ↔ ∃ entry ∈ entriesOf fs d, is_unused entry = false ∧ entry.inode = m := by
  rw [namesIn, List.countP_pos_iff]
  constructor
  · rintro ⟨k, member, same⟩
    obtain ⟨entry, listed, used, rfl⟩ := mem_lives.mp member
    exact ⟨entry, listed, used, beq_iff_eq.mp same⟩
  · rintro ⟨entry, listed, used, same⟩
    exact ⟨kid entry, mem_lives.mpr ⟨entry, listed, used, rfl⟩, beq_iff_eq.mpr same⟩
theorem lookup_entry {inode : Inode} {name : List UInt8} (read : read_inode fs d = .ok inode)
    (directory : Inode.is_directory inode = true) (looked : lookup fs inode name = .ok m) :
    ∃ entry ∈ entriesOf fs d, is_unused entry = false ∧ entry.name = name ∧ entry.inode = m := by
  rw [lookup] at looked
  obtain ⟨entries, listed, looked⟩ := res_bind_eq_ok.mp looked
  cases found : entries.find? fun entry => !is_unused entry && entry.name == name with
  | none =>
    rw [found] at looked
    cases looked
  | some entry =>
    rw [found] at looked
    cases looked
    have matching := List.find?_some found
    simp only [Bool.and_eq_true, Bool.not_eq_true', beq_iff_eq] at matching
    refine ⟨entry, ?_, matching.1, matching.2, rfl⟩
    rw [entriesOf_read read directory listed]
    exact List.mem_of_find?_eq_some found
end

/-! ### Images with hard links -/

/-- The blocks of a directory are filled by records, and the first is no other one. -/
structure Whole (fs : Filesystem) (inode : Inode) (rows : List (List DirEntry)) : Prop where
  size : inode.size.toNat = rows.length * fs.superblock.block_size.toNat
  few : rows.length ≤ 4294967296
  each : ∀ i es, rows[i]? = some es → ∃ block, read_block fs inode i = .ok block ∧ Tiles block 0 es block.size
  once : ∀ i block, i ≠ 0 → resolve_logical_block fs inode 0 = .ok (some block) →
    resolve_logical_block fs inode i ≠ .ok (some block)

/-- A sound image where the link count of what has a name is the number of its live
    entries. -/
structure HardLinked (fs : Filesystem) : Prop where
  consistent : ConsistentImage fs
  counted : ∀ {m : UInt32} {inode : Inode}, Live fs m → read_inode fs m = .ok inode → names fs m ≠ 0 →
    inode.links_count.toNat = names fs m
  whole : ∀ {d : UInt32} {inode : Inode}, Live fs d → read_inode fs d = .ok inode → Inode.is_directory inode = true →
    ∃ rows, Whole fs inode rows

/-- No live entry names an inode whose bit is clear or that has no links, and any other
    name of the file leads to it with what it held. -/
structure KeepsNames (fs fs' : Filesystem) (p : UInt32) (name : List UInt8) (n : UInt32) (inode : Inode) : Prop where
  alive : ∀ d entry, Live fs' d → entry ∈ entriesOf fs' d → is_unused entry = false →
    inodeBit fs' entry.inode = true ∧ ∀ target, read_inode fs' entry.inode = .ok target → target.links_count ≠ 0
  others : ∀ path d other parent, Found fs path other d parent n inode → ¬ (d = p ∧ other = name) →
    open_path fs' path = .ok n ∧ ∃ target, read_inode fs' n = .ok target ∧ read_file fs' target = read_file fs inode

/-! ### The directory afterwards -/

section
variable {fs fs' : Filesystem} {path name : List UInt8} {p n : UInt32} {parent inode : Inode}

/-- The first block is what logical block 0 reads as. -/
theorem first_block_read {pos : Nat} {buf : Bytes} (held : first_block fs parent = .ok (pos, buf)) :
    ∃ physical, resolve_logical_block fs parent 0 = .ok (some physical) ∧ pos = physical * fs.superblock.block_size.toNat ∧
      pos < 18446744073709551616 ∧ read_block fs parent 0 = .ok buf := by
  rw [first_block] at held
  obtain ⟨resolved, first, held⟩ := res_bind_eq_ok.mp held
  obtain ⟨physical, second, loaded⟩ := res_bind_eq_ok.mp held
  cases resolved with
  | none => cases second
  | some block =>
    cases second
    rw [load_block] at loaded
    obtain ⟨offset, fits, loaded⟩ := res_bind_eq_ok.mp loaded
    obtain ⟨buf', slice, loaded⟩ := res_bind_eq_ok.mp loaded
    cases loaded
    have same : pos = physical * fs.superblock.block_size.toNat ∧ pos < 18446744073709551616 := by
      rw [in_u64] at fits
      split at fits
      · cases fits
        exact ⟨rfl, by assumption⟩
      · cases fits
    refine ⟨physical, first, same.1, same.2, ?_⟩
    rw [read_block, ensure_of (by decide), res_bind_ok, first, res_bind_ok]
    dsimp only
    rw [fits, res_bind_ok, slice]

/-- The directory is read without the entry, and in it nothing else has changed. -/
theorem parent_after (unlinks : Unlinks fs fs' path name p parent n inode) (consistent : ConsistentImage fs)
    (known : 1024 ≤ fs.superblock.block_size.toNat ∧ fs.superblock.block_size.toNat ≤ 65536)
    {rows : List (List DirEntry)} (whole : Whole fs parent rows) : ∃ first first' rest, BlockEdits.Removed n name first first' ∧
      read_dir fs parent = .ok (first ++ rest) ∧ read_dir fs' parent = .ok (first' ++ rest) := by
  have separate : Separate fs := consistent.separate
  obtain ⟨live, read, -, -⟩ := unlinks.found.alive consistent
  obtain ⟨pos, buf, buf', held, erased, written, altered⟩ := unlinks.block consistent (by omega)
  obtain ⟨physical, resolved, rfl, fits, first_read⟩ := first_block_read held
  obtain ⟨based, sized, inside, ext, physical', below, low, high, place, -⟩ := Unlinking.first_block_inv held
  have same : physical' = physical := (Nat.eq_of_mul_eq_mul_right (by omega) place).symm
  subst same
  have listed : read_dir fs parent = .ok rows.flatten :=
    read_dir_tiled known whole.few whole.size fun i es found => by
      obtain ⟨block, here, tiles⟩ := whole.each i es found
      exact ⟨block, here, size_read_block here, tiles⟩
  cases rows with
  | nil =>
    have looked := unlinks.found.looked
    rw [lookup, listed] at looked
    cases looked
  | cons first rest =>
    obtain ⟨block, here, tiles⟩ := whole.each 0 first rfl
    cases first_read.symm.trans here
    obtain ⟨size, first', tiles', removed⟩ := BlockEdits.erase_tiles tiles erased
    refine ⟨first, first', rest.flatten, removed, listed, ?_⟩
    -- The nodes of the tree and the other blocks are not written.
    have own : ∀ i, physical' * fs.superblock.block_size.toNat ≤ i →
        i < physical' * fs.superblock.block_size.toNat + fs.superblock.block_size.toNat →
        ext.physical_block.toNat * fs.superblock.block_size.toNat ≤ i ∧
        i < ext.physical_block.toNat * fs.superblock.block_size.toNat + ext.len.toNat * fs.superblock.block_size.toNat := by
      intro i left right
      have before := Nat.mul_le_mul_right fs.superblock.block_size.toNat low
      have behind := Nat.mul_le_mul_right fs.superblock.block_size.toNat (Nat.succ_le_of_lt high)
      rw [Nat.succ_mul, Nat.add_mul] at behind
      omega
    have nodes : ∀ block, NodeBelow fs parent.block.bytes block → Clear
        (fun i => Among fs [.blockBitmap 0, .inodeBitmap 0, .slot n, .superblock, .table] i ∨
          (physical' * fs.superblock.block_size.toNat ≤ i ∧
            i < physical' * fs.superblock.block_size.toNat + fs.superblock.block_size.toNat))
        (block * fs.superblock.block_size.toNat) fs.superblock.block_size.toNat := by
      intro block node i left right touched
      rcases touched with among | ⟨left', right'⟩
      · exact separate.clear (.tree live read based node) (by simp) i left right among
      · obtain ⟨start, stop⟩ := own i left' right'
        cases separate (.tree live read based node) (.data live read based below) left right start stop
    have others : ∀ i, i ≠ 0 → read_block fs' parent i = read_block fs parent i := by
      intro i some
      refine altered.read_block_at nodes fun block at_ j left right touched => ?_
      rcases touched with among | ⟨left', right'⟩
      · rw [resolve_logical_block] at at_
        obtain ⟨_, _, at_⟩ := res_bind_eq_ok.mp at_
        obtain ⟨ext', below', covers, rfl⟩ := resolve_below at_
        exact clear_mapped covers (separate.clear (.data live read based below') (by simp)) j left right among
      · refine whole.once i block some ?_ at_
        have equal : block = physical' := by
          rcases Nat.lt_trichotomy block physical' with less | equal | more
          · have step := Nat.mul_le_mul_right fs.superblock.block_size.toNat (Nat.succ_le_of_lt less)
            rw [Nat.succ_mul] at step
            omega
          · exact equal
          · have step := Nat.mul_le_mul_right fs.superblock.block_size.toNat (Nat.succ_le_of_lt more)
            rw [Nat.succ_mul] at step
            omega
        rw [equal]
        exact resolved
    have now : read_block fs' parent 0 = .ok buf' := by
      rw [read_block, ensure_of (by decide), res_bind_ok, altered.resolve_logical_block 0 nodes, resolved, res_bind_ok]
      dsimp only
      have fits' : physical' * fs.superblock.block_size.toNat + fs.superblock.block_size.toNat ≤ fs'.reader.size := by
        rw [altered.size]
        exact inside (by omega)
      rw [altered.block_size, in_u64, if_pos fits, res_bind_ok, read_at_ok fits', written]
    have block_size := altered.block_size
    have total : parent.size.toNat = (first' :: rest).length * fs'.superblock.block_size.toNat := by
      rw [block_size, whole.size, List.length_cons, List.length_cons]
    refine @read_dir_tiled _ _ (first' :: rest) (by rw [block_size]; exact known) whole.few total fun i es found => ?_
    rw [block_size]
    cases i with
    | zero =>
      cases found
      exact ⟨buf', now, size.trans sized, tiles'⟩
    | succ i =>
      obtain ⟨block, here, tiles⟩ := whole.each (i + 1) es found
      exact ⟨block, (others _ (Nat.succ_ne_zero i)).trans here, size_read_block here, tiles⟩

/-- The bits of the other inodes stay. -/
theorem bit_after (gone : Gone fs fs' p n inode) (separate : Separate fs) {m : UInt32} (some : m ≠ 0) (other : m ≠ n) :
    inodeBit fs' m = inodeBit fs m := by
  have altered := gone.altered
  obtain ⟨blocks, inodes, same⟩ := altered.superblock
  rw [inodeBit, inodeBit, same]
  dsimp only
  cases found : fs.gdt[(m.toNat - 1) / fs.superblock.inodes_per_group.toNat]? with
  | none => rw [altered.no_group found]
  | some gd =>
    obtain ⟨gd', found', _, _, _, rfl⟩ := altered.group found
    rw [found']
    dsimp only
    by_cases first : (m.toNat - 1) / fs.superblock.inodes_per_group.toNat = 0
    · obtain ⟨gd₀, found₀, bits⟩ := gone.inodeBits
      rw [gdt_at_eq_ok, ← first, found] at found₀
      cases found₀
      -- The bit is another one than that of the inode, as both are counted from 1.
      have apart : (m.toNat - 1) % fs.superblock.inodes_per_group.toNat ≠ n.toNat - 1 := by
        have one : m.toNat ≠ 0 := fun zero => some (UInt32.toNat_inj.mp zero)
        have one' : n.toNat ≠ 0 := fun zero => gone.number (UInt32.toNat_inj.mp zero)
        have differ : m.toNat ≠ n.toNat := fun equal => other (UInt32.toNat_inj.mp equal)
        have whole := Nat.div_add_mod (m.toNat - 1) fs.superblock.inodes_per_group.toNat
        rw [first, Nat.mul_zero, Nat.zero_add] at whole
        omega
      rw [bits, decide_eq_false apart, Bool.not_false, Bool.and_true]
    · rw [Altered.blockBytes altered (separate.clear (.inodeBitmap found) (by simp [destroyed, first]))]
theorem live_after (gone : Gone fs fs' p n inode) (separate : Separate fs) {m : UInt32} (other : m ≠ n) :
    Live fs' m ↔ Live fs m := by
  obtain ⟨blocks, inodes, same⟩ := gone.altered.superblock
  rw [Live, Live, same]
  constructor
  · rintro ⟨some, inside, bit⟩
    exact ⟨some, inside, (bit_after gone separate some other).symm.trans bit⟩
  · rintro ⟨some, inside, bit⟩
    exact ⟨some, inside, (bit_after gone separate some other).trans bit⟩
/-- The inodes of the others are read as before. -/
theorem inode_after (gone : Gone fs fs' p n inode) (separate : Separate fs) {m : UInt32} (other : m ≠ n) :
    read_inode fs' m = read_inode fs m := by
  have unlisted : Use.slot m ∉ destroyed n p ++ [.superblock, .table] := by simp [destroyed, other]
  exact separate.read_inode gone.altered unlisted

/-- The other directories have the entries that they had. -/
theorem entries_after (gone : Gone fs fs' p n inode) (separate : Separate fs) {d : UInt32} (live : Live fs d)
    (other : d ≠ n) (elsewhere : d ≠ p) : entriesOf fs' d = entriesOf fs d := by
  rw [entriesOf, entriesOf, inode_after gone separate other]
  cases read : read_inode fs d with
  | error fault => rfl
  | ok holder =>
    dsimp only
    have same : read_file fs' holder = read_file fs holder :=
      separate.read_file gone.altered live read (by simp [destroyed]) (by simp [destroyed, elsewhere])
    rw [read_dir, read_dir, same]
/-- An inode that is not a directory has no entries, also when it is marked as deleted. -/
theorem entries_gone (gone : Gone fs fs' p n inode) (plain : Inode.is_directory inode = false) : entriesOf fs' n = [] := by
  have still : Inode.is_directory (deleted inode) = false := plain
  rw [entriesOf, gone.read]
  dsimp only
  rw [still]
end

/-! ### Names afterwards -/

/-- What the entries of the directory are before and after. -/
structure TakesOne (fs fs' : Filesystem) (p n : UInt32) (name : List UInt8) : Prop where
  split : ∃ earlier code later, lives (entriesOf fs p) = earlier ++ ⟨name, n, code⟩ :: later ∧
    lives (entriesOf fs' p) = earlier ++ later

section
variable {fs fs' : Filesystem} {path name : List UInt8} {p n : UInt32} {parent inode : Inode}

theorem takes_one (unlinks : Unlinks fs fs' path name p parent n inode) (linked : HardLinked fs)
    (known : 1024 ≤ fs.superblock.block_size.toNat ∧ fs.superblock.block_size.toNat ≤ 65536) : TakesOne fs fs' p n name := by
  have consistent := linked.consistent
  have separate : Separate fs := consistent.separate
  have gone := unlinks.gone consistent (by omega)
  obtain ⟨live, read, directory, -⟩ := unlinks.found.alive consistent
  obtain ⟨rows, whole⟩ := linked.whole live read directory
  obtain ⟨first, first', rest, removed, before, after⟩ := parent_after unlinks consistent known whole
  -- The directory is not the file, so that its own inode is as it was.
  have other : p ≠ n := by
    rintro rfl
    cases read.symm.trans unlinks.found.read
    exact Bool.false_ne_true (unlinks.plain.symm.trans directory)
  have read' := (inode_after gone separate other).trans read
  obtain ⟨earlier, code, later, split, split', -⟩ := lives_removed removed
  refine ⟨earlier, code, later ++ lives rest, ?_, ?_⟩
  · rw [entriesOf_read read directory before, lives_append, split, List.append_assoc, List.cons_append]
  · rw [entriesOf_read read' directory after, lives_append, split', List.append_assoc]

theorem TakesOne.names (takes : TakesOne fs fs' p n name) : namesIn fs n p = namesIn fs' n p + 1 := by
  obtain ⟨earlier, code, later, split, split'⟩ := takes.split
  simp only [namesIn, split, split', List.countP_append, List.countP_cons, beq_self_eq_true, ↓reduceIte]
  omega
/-- What the directory still names it named before. -/
theorem TakesOne.member (takes : TakesOne fs fs' p n name) {k : Kid} (member : k ∈ lives (entriesOf fs' p)) :
    k ∈ lives (entriesOf fs p) := by
  obtain ⟨earlier, code, later, split, split'⟩ := takes.split
  rw [split'] at member
  rw [split]
  simp only [List.mem_append, List.mem_cons] at member ⊢
  rcases member with first | last
  · exact .inl first
  · exact .inr (.inr last)

/-- With one link the name that goes is the only one. -/
theorem keeps_of_one (unlinks : Unlinks fs fs' path name p parent n inode) (linked : HardLinked fs)
    (known : 1024 ≤ fs.superblock.block_size.toNat ∧ fs.superblock.block_size.toNat ≤ 65536)
    (one : names fs n = 1) : KeepsNames fs fs' p name n inode := by
  have consistent := linked.consistent
  have separate : Separate fs := consistent.separate
  have gone := unlinks.gone consistent (by omega)
  have takes := takes_one unlinks linked known
  obtain ⟨live, read, directory, -⟩ := unlinks.found.alive consistent
  have here := takes.names
  have most := @namesIn_le fs n p live
  -- Elsewhere nothing names the file, before or after.
  have elsewhere : ∀ d, Live fs d → d ≠ p → namesIn fs n d = 0 := by
    intro d live' other
    have both := @namesIn_two fs n p d live live' other
    omega
  constructor
  · intro d entry live' member used
    have away : d ≠ n := by
      rintro rfl
      rw [entries_gone gone unlinks.plain] at member
      cases member
    have before := (live_after gone separate away).mp live'
    have listed : kid entry ∈ lives (entriesOf fs' d) := mem_lives.mpr ⟨entry, member, used, rfl⟩
    have there : ∃ entry₀ ∈ entriesOf fs d, is_unused entry₀ = false ∧ entry₀.inode = entry.inode ∧ entry.inode ≠ n := by
      by_cases same : d = p
      · subst same
        obtain ⟨entry₀, member₀, used₀, equal⟩ := mem_lives.mp (takes.member listed)
        refine ⟨entry₀, member₀, used₀, congrArg Kid.inode equal, fun names_it => ?_⟩
        have some := namesIn_pos.mpr ⟨entry, member, used, names_it⟩
        omega
      · rw [entries_after gone separate before away same] at member
        refine ⟨entry, member, used, rfl, fun names_it => ?_⟩
        have some := namesIn_pos.mpr ⟨entry, member, used, names_it⟩
        have none := elsewhere d before same
        omega
    obtain ⟨entry₀, member₀, used₀, same, other⟩ := there
    obtain ⟨holder, entries, read₀, directory₀, listed₀, member₁⟩ := entriesOf_mem member₀
    have target_live : Live fs entry.inode := same ▸ consistent.named before read₀ directory₀ listed₀ member₁ used₀
    refine ⟨(bit_after gone separate target_live.1 other).trans target_live.2.2, fun target read' zero => ?_⟩
    rw [inode_after gone separate other] at read'
    have some := namesIn_pos.mpr ⟨entry₀, member₀, used₀, same⟩
    have counted := @namesIn_le fs entry.inode d before
    have links := linked.counted target_live read' (by omega)
    rw [zero] at links
    simp only [UInt16.toNat_zero] at links
    omega
  · intro path' d other parent' found differs
    obtain ⟨live', read', directory', -⟩ := found.alive consistent
    obtain ⟨entry, member, used, called, number⟩ := lookup_entry read' directory' found.looked
    by_cases same : d = p
    · -- The same directory has one entry for the file, with one name.
      subst same
      obtain ⟨entry', member', used', called', number'⟩ := lookup_entry read directory unlinks.found.looked
      obtain ⟨earlier, code, later, split, split'⟩ := takes.split
      have none : namesIn fs' n d = 0 := by omega
      rw [namesIn, split', List.countP_eq_zero] at none
      have listed : kid entry ∈ lives (entriesOf fs d) := mem_lives.mpr ⟨entry, member, used, rfl⟩
      rw [split, List.mem_append, List.mem_cons] at listed
      rcases listed with first | here | last
      · exact absurd (beq_iff_eq.mpr number) (none _ (List.mem_append_left _ first))
      · exact absurd ⟨rfl, called.symm.trans (congrArg Kid.name here)⟩ differs
      · exact absurd (beq_iff_eq.mpr number) (none _ (List.mem_append_right _ last))
    · have some := namesIn_pos.mpr ⟨entry, member, used, number⟩
      have none := elsewhere d live' same
      omega

/-- An entry that is left names what is deleted. -/
theorem one_of_keeps (unlinks : Unlinks fs fs' path name p parent n inode) (linked : HardLinked fs)
    (known : 1024 ≤ fs.superblock.block_size.toNat ∧ fs.superblock.block_size.toNat ≤ 65536)
    (keeps : KeepsNames fs fs' p name n inode) : names fs n = 1 := by
  have consistent := linked.consistent
  have separate : Separate fs := consistent.separate
  have gone := unlinks.gone consistent (by omega)
  have takes := takes_one unlinks linked known
  obtain ⟨live, read, directory, -⟩ := unlinks.found.alive consistent
  have dead : ∀ d, Live fs' d → namesIn fs' n d = 0 := by
    intro d live'
    refine Nat.eq_zero_of_not_pos fun some => ?_
    obtain ⟨entry, member, used, number⟩ := namesIn_pos.mp some
    have alive := (keeps.alive d entry live' member used).2 (deleted inode)
    rw [number] at alive
    exact alive gone.read rfl
  have plain : ∀ {d : UInt32} {holder : Inode}, read_inode fs d = .ok holder → Inode.is_directory holder = true → d ≠ n := by
    rintro d holder read' directory' rfl
    cases read'.symm.trans unlinks.found.read
    exact Bool.false_ne_true (unlinks.plain.symm.trans directory')
  have here := takes.names
  have none := dead p ((live_after gone separate (plain read directory)).mpr live)
  have only : names fs n = namesIn fs n p := by
    refine names_only live fun d live' other => Nat.eq_zero_of_not_pos fun some => ?_
    obtain ⟨entry, member, used, number⟩ := namesIn_pos.mp some
    obtain ⟨holder, entries, read', directory', -, -⟩ := entriesOf_mem member
    have away := plain read' directory'
    have zero := dead d ((live_after gone separate away).mpr live')
    rw [namesIn, entries_after gone separate live' away other] at zero
    rw [namesIn] at some
    omega
  omega

/-- The link count says how many names there are. -/
theorem one_link (found : Found fs path name p parent n inode) (linked : HardLinked fs) :
    inode.links_count = 1 ↔ names fs n = 1 := by
  obtain ⟨live, read, directory, alive⟩ := found.alive linked.consistent
  obtain ⟨entry, member, used, -, number⟩ := lookup_entry read directory found.looked
  have some := namesIn_pos.mpr ⟨entry, member, used, number⟩
  have most := @namesIn_le fs n p live
  have counted := linked.counted alive found.read (by omega)
  rw [← counted, ← UInt16.toNat_inj]
  rfl

theorem keeps_names_iff (unlinks : Unlinks fs fs' path name p parent n inode) (linked : HardLinked fs)
    (known : 1024 ≤ fs.superblock.block_size.toNat ∧ fs.superblock.block_size.toNat ≤ 65536) :
    KeepsNames fs fs' p name n inode ↔ inode.links_count = 1 := by
  rw [one_link unlinks.found linked]
  constructor
  · intro keeps
    exact one_of_keeps unlinks linked known keeps
  · intro one
    exact keeps_of_one unlinks linked known one

/-- A removal that returns leaves every name that stays in order exactly when the file had
    one link. -/
theorem unlink_keeps_names_iff {image : Bytes} (accepted : open_image image = .ok fs) (linked : HardLinked fs)
    (ran : (unlink path).run fs = .ok () fs') : ∃ name p parent n inode, Found fs path name p parent n inode ∧
      (KeepsNames fs fs' p name n inode ↔ inode.links_count = 1) := by
  have known := (opened_of accepted).known
  obtain ⟨name, p, parent, n, inode, unlinks⟩ := unlink_ok (flushable_opened accepted) (by omega) ran
  exact ⟨name, p, parent, n, inode, unlinks.found, keeps_names_iff unlinks linked (by omega)⟩
end

/-! ### A file with two names -/

/-- The root is the only directory, and the link counts are those of the entries. -/
def counts (fs : Filesystem) : Bool :=
  (numbers fs).all fun m => !decide (Live fs m) ||
    match read_inode fs m with
    | .ok inode => (names fs m == 0 || inode.links_count.toNat == names fs m) && (m == ROOT_INODE || !Inode.is_directory inode)
    | .error _ => true

section
variable {fs : Filesystem} {root : Inode} {es : List DirEntry} {block : Nat}

/-- A root directory of one block. -/
theorem linked_of_counts (sound : Sound fs) (counted : counts fs = true) (read : read_inode fs ROOT_INODE = .ok root)
    (based : Inode.uses_extents root = true) (sized : root.size = fs.superblock.block_size.toUInt64)
    (holds : HoldsRow fs root 0 es block) (extents : extentsOf fs ROOT_INODE = [⟨0, 1, .ofNat block, false⟩]) :
    HardLinked fs := by
  have each : ∀ {m inode}, Live fs m → read_inode fs m = .ok inode → (names fs m = 0 ∨
      inode.links_count.toNat = names fs m) ∧ (m = ROOT_INODE ∨ Inode.is_directory inode = false) := by
    intro m inode live read
    have here := List.all_eq_true.mp counted m (live_number live)
    rw [read] at here
    simpa [live] using here
  refine ⟨sound.consistent, fun live read some => (each live read).1.resolve_left some, ?_⟩
  intro d inode live read' directory
  rcases (each live read').2 with rfl | plain
  · cases read.symm.trans read'
    refine ⟨[es], ?_, by simp, ?_, ?_⟩
    · rw [sized]
      simp
    · intro i es' found
      cases i with
      | zero =>
        cases found
        exact ⟨_, holds.read, by rw [size_slice]; exact holds.built.tiles.2⟩
      | succ i => cases found
    · intro i block' some resolved again
      -- The only extent has no other block.
      rw [resolve_logical_block] at again
      obtain ⟨_, _, again⟩ := res_bind_eq_ok.mp again
      obtain ⟨ext, below, ⟨low, high⟩, -⟩ := resolve_below again
      have member := (extents_below sound.flat live read based).2 _ below
      rw [extents, List.mem_singleton] at member
      subst member
      simp only [UInt32.toNat_zero, Nat.zero_add] at high
      exact some (Nat.lt_one_iff.mp high)
  · exact absurd (directory.symm.trans plain) (by decide)
end

def namedRoot : Inode := leafInode 0x41ED 2 2048 [⟨0, 1, 6, false⟩]
/-- A file of the root with a number of names. -/
def namedParts (files : List (List UInt8)) : List (Nat × Bytes) :=
  smallParts [127] [2, 4] [(2, namedRoot), (11, leafInode 0x81A4 (.ofNat files.length) 0 [])]
    [(6, entryBytes (rootEntries (files.map fun name => (name, 11))))]
def namedState (files : List (List UInt8)) : Filesystem := smallState 9 14 (namedParts files)

theorem twice_assembles : Images.Assembles 32768 (smallSuperblock 9 14) 1 [smallGroup 9 14] (namedParts [[97], [98]]) := by
  decide +kernel
theorem once_assembles : Images.Assembles 32768 (smallSuperblock 9 14) 1 [smallGroup 9 14] (namedParts [[97]]) := by
  decide +kernel
theorem twice_reads : read_inode (namedState [[97], [98]]) 11 = .ok (leafInode 0x81A4 2 0 []) :=
  small_reads twice_assembles (by decide) (by decide) (by simp [namedParts, smallParts])
theorem twice_root : read_inode (namedState [[97], [98]]) ROOT_INODE = .ok namedRoot :=
  small_reads twice_assembles (by decide) (by decide) (by simp [namedParts, smallParts, ROOT_INODE])
theorem twice_linked : HardLinked (namedState [[97], [98]]) :=
  @linked_of_counts _ namedRoot (rootEntries [([97], 11), ([98], 11)]) 6 (by decide +kernel) (by decide +kernel) twice_root (by decide) (by decide)
    ⟨by decide, by decide +kernel, by decide, by decide +kernel, zeros 2048, by decide, by decide +kernel⟩ (by decide +kernel)
theorem once_reads : read_inode (namedState [[97]]) 11 = .ok (leafInode 0x81A4 1 0 []) :=
  small_reads once_assembles (by decide) (by decide) (by simp [namedParts, smallParts])
theorem once_root : read_inode (namedState [[97]]) ROOT_INODE = .ok namedRoot :=
  small_reads once_assembles (by decide) (by decide) (by simp [namedParts, smallParts, ROOT_INODE])
theorem once_linked : HardLinked (namedState [[97]]) :=
  @linked_of_counts _ namedRoot (rootEntries [([97], 11)]) 6 (by decide +kernel) (by decide +kernel) once_root (by decide) (by decide)
    ⟨by decide, by decide +kernel, by decide, by decide +kernel, zeros 2048, by decide, by decide +kernel⟩ (by decide +kernel)

/-- When one of two names goes the other names an inode that is free. -/
theorem second_name_dangles : open_image (namedState [[97], [98]]).reader = .ok (namedState [[97], [98]]) ∧
    HardLinked (namedState [[97], [98]]) ∧ ∃ fs' name p parent n inode,
      (unlink [SLASH, 97]).run (namedState [[97], [98]]) = .ok () fs' ∧
      Found (namedState [[97], [98]]) [SLASH, 97] name p parent n inode ∧
      ¬ KeepsNames (namedState [[97], [98]]) fs' p name n inode := by
  have accepted := small_opens twice_assembles
  have returns : returned ((unlink [SLASH, 97]).run (namedState [[97], [98]])) = true := by decide +kernel
  obtain ⟨_, fs', ran⟩ := returned_ok returns
  obtain ⟨name, p, parent, n, inode, unlinks⟩ := unlink_ok (flushable_opened accepted) (by decide) ran
  refine ⟨accepted, twice_linked, fs', name, p, parent, n, inode, ran, unlinks.found, fun keeps => ?_⟩
  have one := (keeps_names_iff unlinks twice_linked (by decide)).mp keeps
  have opened : open_path (namedState [[97], [98]]) [SLASH, 97] = .ok 11 := by decide +kernel
  cases opened.symm.trans unlinks.found.open_path
  cases twice_reads.symm.trans unlinks.found.read
  exact absurd one (by decide)

/-- The only name goes with its file. -/
theorem only_name_goes : ∃ fs' name p parent n inode, (unlink [SLASH, 97]).run (namedState [[97]]) = .ok () fs' ∧
    Found (namedState [[97]]) [SLASH, 97] name p parent n inode ∧ KeepsNames (namedState [[97]]) fs' p name n inode := by
  have returns : returned ((unlink [SLASH, 97]).run (namedState [[97]])) = true := by decide +kernel
  obtain ⟨_, fs', ran⟩ := returned_ok returns
  obtain ⟨name, p, parent, n, inode, found, keeps⟩ := unlink_keeps_names_iff (small_opens once_assembles) once_linked ran
  refine ⟨fs', name, p, parent, n, inode, ran, found, keeps.mpr ?_⟩
  have opened : open_path (namedState [[97]]) [SLASH, 97] = .ok 11 := by decide +kernel
  cases opened.symm.trans found.open_path
  cases once_reads.symm.trans found.read
  rfl

end Justext4.HardLinks
