import Justext4.DirScan
import Justext4.Images

/-!
The two edits of a directory block, each exactly. A block that its records tile
goes to a block that its records tile: a new entry takes the slack of the last
record, a removed one leaves its bytes to the record before it, and when there
is no room or no such entry the state is left as it was. Of the live entries
one is gained or lost, the others stay in their order.
-/
namespace Justext4.BlockEdits
open Justext4 Justext4.Fallible Justext4.Filesystem Bytes
open Justext4.DirEntry
open Justext4.DirBlock
open Justext4.DirScan (first_stop tiles_of_width erase_entry_wide)
open Justext4.Inode (Inode)
open Justext4.Volumes (read_at_ok in_u64_ok)

/-- A block of one of the smaller sizes whose records fill it. -/
structure Filled (buf : Bytes) (es : List DirEntry) : Prop where
  size : buf.size = 1024 ∨ buf.size = 2048 ∨ buf.size = 4096
  decoded : decode_dir_block buf = .ok es
  exact_ : width es = buf.size

/-- What the live entries say, in their order. -/
def lives (es : List DirEntry) : List Kid := (es.filter fun e => !is_unused e).map kid

/-- The state after a block is written. -/
def wrote (fs : Filesystem) (offset : Nat) (buf : Bytes) : Filesystem :=
  { fs with reader := fs.reader.patch offset buf }

section
variable {buf : Bytes} {es before after : List DirEntry} {last : DirEntry}

theorem Filled.tiles (filled : Filled buf es) : Tiles buf 0 es buf.size :=
  tiles_of_width filled.decoded (by rw [filled.exact_]; omega)
theorem filled_of_tiles {buf' : Bytes} {es' : List DirEntry} (filled : Filled buf es) (size : buf'.size = buf.size)
    (tiles : Tiles buf' 0 es' buf.size) : Filled buf' es' := by
  have reach := tiles_stop tiles
  refine ⟨?_, decode_dir_block_tiles (size ▸ tiles), ?_⟩
  · rw [size]
    exact filled.size
  · omega
theorem Filled.nonempty (filled : Filled buf es) : ∃ before last, es = before ++ [last] := by
  cases es using List.reverseRecOn with
  | nil =>
    have sum := filled.exact_
    have size := filled.size
    simp only [width] at sum
    omega
  | append_singleton before last => exact ⟨before, last, rfl⟩

theorem lives_append (xs ys : List DirEntry) : lives (xs ++ ys) = lives xs ++ lives ys := by
  simp [lives]
theorem lives_cons (e : DirEntry) (es : List DirEntry) :
    lives (e :: es) = (if is_unused e then [] else [kid e]) ++ lives es := by
  cases unused : is_unused e <;> simp [lives, unused]
/-- The length of a record says nothing about its entry. -/
theorem lives_resized (e : DirEntry) (len : UInt16) : lives [{ e with rec_len := len }] = lives [e] := by
  cases unused : is_unused e with
  | true =>
    have unused' : is_unused { e with rec_len := len } = true := unused
    simp [lives, unused, unused']
  | false =>
    have unused' : is_unused { e with rec_len := len } = false := unused
    simp [lives, unused, unused', kid]

/-! ### A new entry -/

/-- The slack of the last record is too short for the new one. -/
def Full (last : DirEntry) (name : List UInt8) : Prop := slack last < pad4 (8 + name.length)
instance (last : DirEntry) (name : List UInt8) : Decidable (Full last name) := inferInstanceAs (Decidable (_ < _))

variable {name : List UInt8} {child : UInt32} {code : UInt8}

theorem insert_full (filled : Filled buf (before ++ [last])) (short : name.length ≤ 255) (full : Full last name) :
    insert_entry buf name child code =
      .error (.err (.UnsupportedV0 "directory block full; v0 doesn't allocate a new dir block")) := by
  have tiles := filled.tiles
  have formed := tiles_formed tiles last (by simp)
  have padded := formed.padded
  have own := pad4_short formed.short
  have new := pad4_short short
  have none : ¬ pad4 (8 + name.length) ≤ last.rec_len.toNat - pad4 (8 + last.name.length) := by
    unfold Full slack at full
    omega
  rw [insert_entry, walk_through tiles (by simp), liftErr_ok, res_bind_ok, getLast_located, okOr_some, res_bind_ok]
  simp only [Nat.mod_eq_of_lt (show pad4 (8 + last.name.length) < 65536 by omega),
    Nat.mod_eq_of_lt (show pad4 (8 + name.length) < 65536 by omega), padded, decide_true, orPanic_true, res_bind_ok]
  rw [ensure_not none, res_bind_error]

theorem insert_exact (filled : Filled buf (before ++ [last])) (short : name.length ≤ 255) (room : ¬ Full last name)
    (child : UInt32) (code : UInt8) : ∃ buf', insert_entry buf name child code = .ok buf' ∧ buf'.size = buf.size ∧
      Filled buf' (before ++ [shrunk last, added last name child code]) := by
  have fits : Fits last name := ⟨short, Nat.not_lt.mp room⟩
  obtain ⟨buf', inserted, size, tiles⟩ := insert_entry_fits child code filled.tiles fits
  exact ⟨buf', inserted, size, filled_of_tiles filled size tiles⟩

theorem lives_added (named : child ≠ 0) : lives (before ++ [shrunk last, added last name child code]) =
    lives (before ++ [last]) ++ [⟨name, child, code⟩] := by
  have cut : lives [shrunk last] = lives [last] := lives_resized last _
  have new : lives [added last name child code] = [⟨name, child, code⟩] := by
    simp [lives, is_unused, added, kid, named]
  rw [show before ++ [shrunk last, added last name child code] =
    before ++ [shrunk last] ++ [added last name child code] by simp, lives_append, lives_append, new, cut, lives_append]

/-! ### A removed entry -/

/-- The records without the first one that names the inode: its bytes go to
    the record before it, and without one it is marked unused. -/
def Removed (inode : UInt32) (name : List UInt8) (es es' : List DirEntry) : Prop :=
  (∃ e after, es = e :: after ∧ names_target inode name e = true ∧ es' = { e with inode := 0 } :: after) ∨
  ∃ before prev e after, es = before ++ prev :: e :: after ∧ (∀ x ∈ before ++ [prev], names_target inode name x = false) ∧
    names_target inode name e = true ∧ prev.rec_len.toNat + e.rec_len.toNat < 65536 ∧
    es' = before ++ { prev with rec_len := prev.rec_len + e.rec_len } :: after

theorem erase_none {inode : UInt32} (filled : Filled buf es) (none : ∀ e ∈ es, names_target inode name e = false) :
    erase_entry buf inode name = .error (.err (.NotFound name)) := by
  rw [erase_entry, walk_through filled.tiles none]
  simp

theorem erase_exact {inode : UInt32} (filled : Filled buf es) (some_ : ¬ ∀ e ∈ es, names_target inode name e = false) :
    ∃ buf' es', erase_entry buf inode name = .ok buf' ∧ buf'.size = buf.size ∧ Filled buf' es' ∧
      Removed inode name es es' := by
  have tiles := filled.tiles
  rcases first_stop (names_target inode name) es with none | ⟨before, e, after, rfl, earlier, here⟩
  · exact absurd none some_
  cases before using List.reverseRecOn with
  | nil =>
    obtain ⟨buf', erased, size, tiled⟩ := erase_entry_first tiles here
    exact ⟨buf', _, erased, size, filled_of_tiles filled size tiled, .inl ⟨e, after, rfl, here, rfl⟩⟩
  | append_singleton before prev =>
    have sum := filled.exact_
    have size := filled.size
    simp only [width_append, width] at sum
    have split : Tiles buf 0 (before ++ [prev, e] ++ after) buf.size := by simpa using tiles
    obtain ⟨buf', erased, same, tiled⟩ := erase_entry_merges split earlier here (by omega)
    refine ⟨buf', _, erased, same, filled_of_tiles filled same tiled, .inr ⟨before, prev, e, after, ?_⟩⟩
    exact ⟨by simp, earlier, here, by omega, rfl⟩

/-- A removal that goes through takes the lengths of two records together. -/
theorem erase_short {inode : UInt32} {prev target : DirEntry} {buf' : Bytes}
    (tiles : Tiles buf 0 (before ++ [prev, target] ++ after) buf.size)
    (earlier : ∀ e ∈ before ++ [prev], names_target inode name e = false) (here : names_target inode name target = true)
    (erased : erase_entry buf inode name = .ok buf') : prev.rec_len.toNat + target.rec_len.toNat < 65536 := by
  by_contra wide
  rw [erase_entry_wide tiles earlier here (Nat.not_lt.mp wide)] at erased
  cases erased
/-- What a removal makes of a tiled block, whatever its size. -/
theorem erase_tiles {inode : UInt32} {buf' : Bytes} (tiles : Tiles buf 0 es buf.size)
    (erased : erase_entry buf inode name = .ok buf') :
    buf'.size = buf.size ∧ ∃ es', Tiles buf' 0 es' buf'.size ∧ Removed inode name es es' := by
  rcases first_stop (names_target inode name) es with none | ⟨before, e, after, rfl, earlier, here⟩
  · rw [erase_entry, walk_through tiles none, liftErr_ok, res_bind_ok, okOr_none, res_bind_error] at erased
    cases erased
  cases before using List.reverseRecOn with
  | nil =>
    obtain ⟨out, ran, size, tiled⟩ := erase_entry_first tiles here
    cases ran.symm.trans erased
    exact ⟨size, _, size ▸ tiled, .inl ⟨e, after, rfl, here, rfl⟩⟩
  | append_singleton before prev =>
    have split : Tiles buf 0 (before ++ [prev, e] ++ after) buf.size := by simpa using tiles
    have short := erase_short split earlier here erased
    obtain ⟨out, ran, size, tiled⟩ := erase_entry_merges split earlier here short
    cases ran.symm.trans erased
    exact ⟨size, _, size ▸ tiled, .inr ⟨before, prev, e, after, by simp, earlier, here, short, rfl⟩⟩

/-- Of the live entries exactly the first one of that name and inode is gone. -/
theorem lives_removed {inode : UInt32} {es' : List DirEntry} (removed : Removed inode name es es') :
    ∃ earlier code later, lives es = earlier ++ ⟨name, inode, code⟩ :: later ∧ lives es' = earlier ++ later ∧
      ∀ code, ⟨name, inode, code⟩ ∉ earlier := by
  have named : ∀ e, names_target inode name e = true →
      lives [e] = [⟨name, inode, e.file_type_raw⟩] := by
    intro e here
    simp only [names_target, Bool.and_eq_true, Bool.not_eq_true', beq_iff_eq] at here
    obtain ⟨⟨live, called⟩, number⟩ := here
    simp [lives, live, kid, called, number]
  have apart : ∀ xs : List DirEntry, (∀ x ∈ xs, names_target inode name x = false) →
      ∀ code, ⟨name, inode, code⟩ ∉ lives xs := by
    intro xs none code member
    obtain ⟨e, kept, same⟩ := List.mem_map.mp member
    obtain ⟨here, live⟩ := List.mem_filter.mp kept
    have other := none e here
    cases same
    simp [names_target, live] at other
  rcases removed with ⟨e, after, rfl, here, rfl⟩ | ⟨before, prev, e, after, rfl, earlier, here, -, rfl⟩
  · refine ⟨[], e.file_type_raw, lives after, ?_, ?_, by simp⟩
    · rw [← List.singleton_append, lives_append, named e here]
      rfl
    · rw [lives_cons]
      rfl
  · refine ⟨lives (before ++ [prev]), e.file_type_raw, lives after, ?_, ?_, apart _ earlier⟩
    · rw [show before ++ prev :: e :: after = before ++ [prev] ++ ([e] ++ after) by simp, lives_append, lives_append [e],
        named e here]
      rfl
    · rw [show before ++ { prev with rec_len := prev.rec_len + e.rec_len } :: after =
        before ++ ([{ prev with rec_len := prev.rec_len + e.rec_len }] ++ after) by simp, lives_append, lives_append,
        lives_resized, ← List.append_assoc, ← lives_append]
/-- An entry that nothing in the block matched is the one that a removal finds
    behind the others, and the record before it gets its length back. -/
theorem erase_added (filled : Filled buf (before ++ [shrunk last, added last name child code]))
    (formed : WellFormed last) (named : child ≠ 0)
    (fresh : ∀ e ∈ before ++ [last], names_target child name e = false) :
    ∃ buf', erase_entry buf child name = .ok buf' ∧ buf'.size = buf.size ∧ Filled buf' (before ++ [last]) := by
  have own : names_target child name (added last name child code) = true := by
    simp [names_target, is_unused, added, named]
  have cut : names_target child name (shrunk last) = false := fresh last (by simp)
  have padded := formed.padded
  have length := shrunk_len formed
  have rest : (added last name child code).rec_len.toNat = slack last := toNat_ofNat16 (slack_bound last)
  have sum : (shrunk last).rec_len.toNat + (added last name child code).rec_len.toNat = last.rec_len.toNat := by
    rw [length, rest, slack]
    omega
  have bound := last.rec_len.toNat_lt
  have tiles : Tiles buf 0 (before ++ [shrunk last, added last name child code] ++ []) buf.size := by
    simpa using filled.tiles
  have earlier : ∀ e ∈ before ++ [shrunk last], names_target child name e = false := by
    intro e member
    rcases List.mem_append.mp member with old | here
    · exact fresh e (by simp [old])
    · rw [List.mem_singleton.mp here]
      exact cut
  obtain ⟨buf', erased, size, tiled⟩ := erase_entry_merges tiles earlier own (by omega)
  have back : { shrunk last with rec_len := (shrunk last).rec_len + (added last name child code).rec_len } = last := by
    have len : (shrunk last).rec_len + (added last name child code).rec_len = last.rec_len := by
      apply UInt16.toNat_inj.mp
      rw [UInt16.toNat_add, sum]
      omega
    rw [len]
    rfl
  rw [back] at tiled
  exact ⟨buf', erased, size, filled_of_tiles filled size tiled⟩

/-! ### The calls -/

variable {fs : Filesystem} {parent : Inode} {offset : Nat}

theorem add_run (held : first_block fs parent = .ok (offset, buf)) (name : List UInt8) (child : UInt32) (code : UInt8) :
    (add_dir_entry parent name child code).run fs =
      ((lift (insert_entry buf name child code) : Call Bytes).run fs).andThen fun buf' s =>
        (write_at offset buf').run s := by
  simp [add_dir_entry, held]
theorem remove_run (held : first_block fs parent = .ok (offset, buf)) (inode : UInt32) (name : List UInt8) :
    (remove_dir_entry parent inode name).run fs =
      ((lift (erase_entry buf inode name) : Call Bytes).run fs).andThen fun buf' s => (write_at offset buf').run s := by
  simp [remove_dir_entry, held]

theorem add_refused (held : first_block fs parent = .ok (offset, buf)) {e : Ext4Error}
    (refused : insert_entry buf name child code = .error (.err e)) :
    (add_dir_entry parent name child code).run fs = .err e fs := by
  rw [add_run held, refused]
  rfl
theorem add_written (held : first_block fs parent = .ok (offset, buf)) {buf' : Bytes}
    (inserted : insert_entry buf name child code = .ok buf') :
    (add_dir_entry parent name child code).run fs = .ok () (wrote fs offset buf') := by
  rw [add_run held, inserted]
  rfl
theorem remove_refused (held : first_block fs parent = .ok (offset, buf)) {inode : UInt32} {e : Ext4Error}
    (refused : erase_entry buf inode name = .error (.err e)) :
    (remove_dir_entry parent inode name).run fs = .err e fs := by
  rw [remove_run held, refused]
  rfl
theorem remove_written (held : first_block fs parent = .ok (offset, buf)) {inode : UInt32} {buf' : Bytes}
    (erased : erase_entry buf inode name = .ok buf') :
    (remove_dir_entry parent inode name).run fs = .ok () (wrote fs offset buf') := by
  rw [remove_run held, erased]
  rfl

/-- Removing the entry from a directory that has this first block gives the live entries back. -/
def Restored (buf' : Bytes) (es : List DirEntry) (name : List UInt8) (child : UInt32) : Prop :=
  ∀ fs parent offset, first_block fs parent = .ok (offset, buf') →
    ∃ buf'' es'', (remove_dir_entry parent child name).run fs = .ok () (wrote fs offset buf'') ∧ Filled buf'' es'' ∧
      lives es'' = lives es

/-- Adding to a block: refused exactly when the slack of the last record is
    too short, and otherwise the last record is cut and the new one follows. -/
def AddsExactly (fs : Filesystem) (parent : Inode) (offset : Nat) (buf : Bytes) (es : List DirEntry) (name : List UInt8)
    (child : UInt32) (code : UInt8) : Prop :=
  ∃ before last, es = before ++ [last] ∧
    ((add_dir_entry parent name child code).run fs =
      .err (.UnsupportedV0 "directory block full; v0 doesn't allocate a new dir block") fs ↔ Full last name) ∧
    (¬ Full last name → ∃ buf', (add_dir_entry parent name child code).run fs = .ok () (wrote fs offset buf') ∧
      buf'.size = buf.size ∧ Filled buf' (before ++ [shrunk last, added last name child code]) ∧
      lives (before ++ [shrunk last, added last name child code]) = lives es ++ [⟨name, child, code⟩] ∧
      ((∀ e ∈ es, names_target child name e = false) → Restored buf' es name child))

/-- Removing from a block: refused exactly when no live record matches, and
    otherwise the first one that does is gone and its bytes are the neighbour's. -/
def RemovesExactly (fs : Filesystem) (parent : Inode) (offset : Nat) (buf : Bytes) (es : List DirEntry) (inode : UInt32)
    (name : List UInt8) : Prop :=
  ((remove_dir_entry parent inode name).run fs = .err (.NotFound name) fs ↔
    ∀ e ∈ es, names_target inode name e = false) ∧
  ((¬ ∀ e ∈ es, names_target inode name e = false) →
    ∃ buf' es', (remove_dir_entry parent inode name).run fs = .ok () (wrote fs offset buf') ∧ buf'.size = buf.size ∧
      Filled buf' es' ∧ Removed inode name es es' ∧
      ∃ earlier code later, lives es = earlier ++ ⟨name, inode, code⟩ :: later ∧ lives es' = earlier ++ later ∧
        ∀ code, ⟨name, inode, code⟩ ∉ earlier)

theorem adds_exactly (held : first_block fs parent = .ok (offset, buf)) (filled : Filled buf es)
    (short : name.length ≤ 255) (named : child ≠ 0) : AddsExactly fs parent offset buf es name child code := by
  obtain ⟨before, last, rfl⟩ := filled.nonempty
  refine ⟨before, last, rfl, ⟨?_, ?_⟩, ?_⟩
  · intro refused
    by_cases full : Full last name
    · exact full
    · obtain ⟨buf', inserted, -⟩ := insert_exact filled short full child code
      rw [add_written held inserted] at refused
      cases refused
  · intro full
    exact add_refused held (insert_full filled short full)
  · intro room
    obtain ⟨buf', inserted, size, filled'⟩ := insert_exact filled short room child code
    refine ⟨buf', add_written held inserted, size, filled', lives_added named, ?_⟩
    intro fresh fs₂ parent₂ offset₂ held₂
    have formed := tiles_formed filled.tiles last (by simp)
    obtain ⟨buf'', erased, -, filled''⟩ := erase_added filled' formed named fresh
    exact ⟨buf'', _, remove_written held₂ erased, filled'', rfl⟩

theorem removes_exactly (held : first_block fs parent = .ok (offset, buf)) (filled : Filled buf es) (inode : UInt32)
    (name : List UInt8) : RemovesExactly fs parent offset buf es inode name := by
  refine ⟨⟨?_, ?_⟩, ?_⟩
  · intro refused
    by_cases none : ∀ e ∈ es, names_target inode name e = false
    · exact none
    · obtain ⟨buf', es', erased, -⟩ := erase_exact filled none
      rw [remove_written held erased] at refused
      cases refused
  · intro none
    exact remove_refused held (erase_none filled none)
  · intro some_
    obtain ⟨buf', es', erased, size, filled', removed⟩ := erase_exact filled some_
    exact ⟨buf', es', remove_written held erased, size, filled', removed, lives_removed removed⟩

/-- Both edits of the first block of a directory are exact, and an entry that
    no live record matched before goes again without a trace. -/
theorem block_edits_exact (held : first_block fs parent = .ok (offset, buf)) (filled : Filled buf es)
    (short : name.length ≤ 255) (named : child ≠ 0) (code : UInt8) :
    AddsExactly fs parent offset buf es name child code ∧ RemovesExactly fs parent offset buf es child name := by
  constructor
  · exact adds_exactly held filled short named
  · exact removes_exactly held filled child name
end

/-! ### A directory with one block -/

/-- A block with the record of `a` only, and a state and a directory that have it as block 2. -/
def soleRecord : DirEntry := ⟨5, 1024, 1, [97]⟩
def soleBlock : Bytes := record soleRecord
def soleState : Filesystem :=
  ⟨(zeros 4096).patch 2048 soleBlock, Images.plain 1024 16 4 1 8192 16, []⟩
def soleParent : Inode :=
  { mode := 0x41ED, uid := 0, gid := 0, size := 1024, atime := 0, ctime := 0, mtime := 0, dtime := 0, links_count := 2
    blocks_lo := 2, blocks_hi := 0, flags := 0x80000, block := Runs.runBlock 2 1, generation := 0, file_acl_lo := 0
    file_acl_hi := 0 }

theorem sole_formed : WellFormed soleRecord := ⟨by decide, by decide, by decide⟩
theorem size_soleBlock : soleBlock.size = 1024 := size_record sole_formed

theorem sole_filled : Filled soleBlock [soleRecord] := by
  have size := size_soleBlock
  have whole : soleBlock.patch 0 (record soleRecord) = soleBlock := patch_whole rfl
  have held : EntryAt (soleBlock.patch 0 (record soleRecord)) 0 soleRecord :=
    entryAt_record sole_formed (by rw [size]; decide)
  rw [whole] at held
  have stop : Tiles soleBlock (0 + soleRecord.rec_len.toNat) [] soleBlock.size := by
    rw [size]
    rfl
  exact ⟨.inl size, decode_dir_block_tiles ⟨held, stop⟩, by rw [size]; decide⟩

/-- Whatever block is written there is the first block of the directory. -/
theorem sole_first_block {fs : Filesystem} {buf : Bytes} (superblock : fs.superblock = soleState.superblock)
    (whole : fs.reader.size = 4096) (slice : fs.reader.slice 2048 1024 = buf) :
    first_block fs soleParent = .ok (2048, buf) := by
  have runs : soleParent.block = Runs.runBlock 2 1 := rfl
  have resolved : resolve_logical_block fs soleParent 0 = .ok (some 2) :=
    Runs.resolve_runs rfl runs (by decide) (by decide) 0
  have length : fs.superblock.block_size.toNat = 1024 := by rw [superblock]; rfl
  have read : read_at fs.reader 2048 1024 = .ok buf := by rw [read_at_ok (by rw [whole]; decide), slice]
  rw [first_block, resolved, res_bind_ok, okOr_some, res_bind_ok, load_block, length, in_u64_ok (by decide), res_bind_ok,
    read]
  rfl
theorem sole_written (b : Bytes) {buf : Bytes} (whole : b.size = 4096) (size : buf.size = 1024) :
    (b.patch 2048 buf).size = 4096 ∧ (b.patch 2048 buf).slice 2048 1024 = buf := by
  constructor
  · rw [size_patch _ _ _ (by rw [size, whole]; decide), whole]
  · exact size ▸ slice_patch_same b buf 2048

theorem sole_held : first_block soleState soleParent = .ok (2048, soleBlock) := by
  obtain ⟨whole, slice⟩ := sole_written (zeros 4096) rfl size_soleBlock
  exact sole_first_block rfl whole slice

theorem sole_edits : AddsExactly soleState soleParent 2048 soleBlock [soleRecord] [98] 6 2 ∧
    RemovesExactly soleState soleParent 2048 soleBlock [soleRecord] 6 [98] :=
  block_edits_exact sole_held sole_filled (by decide) (by decide) 2

/-- A second entry with the name and the inode of the first: the removal takes
    the first, and the live entries are not those of the beginning. -/
theorem twin_replaces :
    ∃ fs₁ fs₂ buf₂ es₂, (add_dir_entry soleParent [97] 5 2).run soleState = .ok () fs₁ ∧
      (remove_dir_entry soleParent 5 [97]).run fs₁ = .ok () fs₂ ∧ first_block fs₂ soleParent = .ok (2048, buf₂) ∧
      Filled buf₂ es₂ ∧ lives [soleRecord] = [⟨[97], 5, 1⟩] ∧ lives es₂ = [⟨[97], 5, 2⟩] := by
  have filled : Filled soleBlock ([] ++ [soleRecord]) := sole_filled
  have room : ¬ Full soleRecord [97] := by decide
  obtain ⟨buf₁, inserted, size₁, filled₁⟩ := insert_exact filled (by decide) room 5 2
  have first : names_target 5 [97] (shrunk soleRecord) = true := by decide
  obtain ⟨buf₂, erased, size₂, tiles₂⟩ := erase_entry_first filled₁.tiles first
  have small₁ : buf₁.size = 1024 := size₁.trans size_soleBlock
  have small₂ : buf₂.size = 1024 := size₂.trans small₁
  obtain ⟨whole, -⟩ := sole_written (zeros 4096) rfl size_soleBlock
  obtain ⟨whole₁, slice₁⟩ := sole_written soleState.reader whole small₁
  obtain ⟨whole₂, slice₂⟩ := sole_written (wrote soleState 2048 buf₁).reader whole₁ small₂
  have held₁ : first_block (wrote soleState 2048 buf₁) soleParent = .ok (2048, buf₁) :=
    sole_first_block rfl whole₁ slice₁
  have held₂ : first_block (wrote (wrote soleState 2048 buf₁) 2048 buf₂) soleParent = .ok (2048, buf₂) :=
    sole_first_block rfl whole₂ slice₂
  refine ⟨_, _, buf₂, _, add_written sole_held inserted, remove_written held₁ erased, held₂,
    filled_of_tiles filled₁ size₂ tiles₂, by decide, by decide⟩

end Justext4.BlockEdits
