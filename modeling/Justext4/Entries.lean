import Justext4.Reading

/-!
Changing the entries of a directory. An entry that fits is added behind the
others, an entry is taken out by its name, and the second of the two dots is
led to another inode. Each of these writes the one block of the directory.
-/
namespace Justext4.Entries
open Justext4 Justext4.Fallible Justext4.Filesystem Justext4.Volumes Bytes
open Justext4.Inode (Inode INODE_FLAG_EXTENTS)
open Justext4.DirEntry (DirEntry WellFormed is_unused decode_dir_block encode_range encode_range_ok pad4)
open Justext4.DirBlock
open Justext4.Nodes
open Justext4.Backing
open Justext4.Reading
open Justext4.Runs (runBlock)

/-- The last entry of a block leaves room for another one. -/
def has_room (bytes : Bytes) (name : List UInt8) : Bool :=
  match decode_dir_block bytes with
  | .ok es => es.getLast?.any fun last => decide (Fits last name)
  | .error _ => false
/-- The last entry of a block has the name. -/
def is_last (bytes : Bytes) (name : List UInt8) : Bool :=
  match decode_dir_block bytes with
  | .ok es => es.getLast?.any fun last => last.name == name
  | .error _ => false

theorem has_room_tiles {bytes : Bytes} {before : List DirEntry} {last : DirEntry}
    (tiles : Tiles bytes 0 (before ++ [last]) bytes.size) (name : List UInt8) :
    has_room bytes name = decide (Fits last name) := by
  rw [has_room, decode_dir_block_tiles tiles]
  simp
theorem is_last_tiles {bytes : Bytes} {before : List DirEntry} {last : DirEntry}
    (tiles : Tiles bytes 0 (before ++ [last]) bytes.size) (name : List UInt8) :
    is_last bytes name = (last.name == name) := by
  rw [is_last, decode_dir_block_tiles tiles]
  simp

/-- What the last entry of a block leaves for another one. -/
def tail_room (bytes : Bytes) : Nat :=
  match decode_dir_block bytes with
  | .ok es => (es.getLast?.map slack).getD 0
  | .error _ => 0

theorem tail_room_tiles {bytes : Bytes} {before : List DirEntry} {last : DirEntry}
    (tiles : Tiles bytes 0 (before ++ [last]) bytes.size) : tail_room bytes = slack last := by
  rw [tail_room, decode_dir_block_tiles tiles]
  simp
/-- A name has room when its record, padded, fits in what is left. -/
theorem has_room_eq (bytes : Bytes) (name : List UInt8) :
    has_room bytes name = decide (name.length ≤ 255 ∧ DirEntry.pad4 (8 + name.length) ≤ tail_room bytes) := by
  have padded := DirEntry.pad4_ge (8 + name.length)
  rw [has_room, tail_room]
  cases decode_dir_block bytes with
  | error e =>
    dsimp only
    rw [eq_comm, decide_eq_false_iff_not]
    omega
  | ok es =>
    cases found : es.getLast? with
    | none =>
      simp only [found, Option.any_none, Option.map_none, Option.getD_none]
      rw [eq_comm, decide_eq_false_iff_not]
      omega
    | some last =>
      simp only [found, Option.any_some, Option.map_some, Option.getD_some]
      rfl

/-- A name has been entered at the end of a block, and takes its room. -/
structure Entered (old new : Bytes) (name : List UInt8) : Prop where
  last : is_last new name = true
  room : tail_room new + DirEntry.pad4 (8 + name.length) = tail_room old

/-- The inode of a directory of one block. -/
structure OneBlock (g : Geometry) (inode : Inode) (block : Nat) : Prop where
  flags : inode.flags = INODE_FLAG_EXTENTS
  run : inode.block = runBlock block 1
  low : g.root ≤ block
  high : block < g.total

section
variable {g : Geometry} {v : Volume} {fs : Filesystem} {inode : Inode} {block : Nat}

theorem Holds.size_block (holds : Holds g v fs) {p : Nat} (low : g.root ≤ p) (high : p < g.total) :
    (v.block p).size = g.block_size := by
  rw [← holds.blocks p low high]
  rfl

theorem oneBlock {n parent : UInt32} {kids : List Kid} (sound : Sound g v n (.dir block parent kids)) :
    OneBlock g (v.slot n) block := by
  have backed : DirBacked g v n block parent kids := sound.backed
  obtain ⟨low, high, -⟩ := sound.owned block rfl
  exact ⟨backed.flags, backed.run, low, Nat.lt_of_lt_of_le high g.limit_total⟩

theorem first_block_ok (holds : Holds g v fs) (one : OneBlock g inode block) :
    first_block fs inode = .ok (block * g.block_size, v.block block) := by
  have total := g.total_high
  have high := one.high
  rw [first_block, Runs.resolve_runs one.flags one.run (by decide) (by omega), if_pos (by decide), res_bind_ok,
    okOr_some, res_bind_ok, Nat.add_zero, load_block_ok holds.static' holds.size one.high,
    holds.blocks block one.low one.high]

/-! ### Adding an entry -/

theorem lists_snoc {bytes : Bytes} {k : Kid} {ks : List Kid} (lists : Lists bytes (k :: ks)) :
    ∃ before last, Tiles bytes 0 (before ++ [last]) bytes.size ∧ (before ++ [last]).map kid = k :: ks := by
  obtain ⟨es, tiles, same⟩ := lists
  cases es using List.reverseRecOn with
  | nil => cases same
  | append_singleton before last => exact ⟨before, last, tiles, same⟩

theorem add_dir_entry_ok (holds : Holds g v fs) (one : OneBlock g inode block) {k : Kid} {ks : List Kid}
    (lists : Lists (v.block block) (k :: ks)) {name : List UInt8} (room : has_room (v.block block) name = true)
    (child : UInt32) (code : UInt8) :
    ∃ bytes fs', (add_dir_entry inode name child code).run fs = .ok () fs' ∧ Holds g (v.setBlock block bytes) fs' ∧
      bytes.size = g.block_size ∧ Lists bytes (k :: ks ++ [⟨name, child, code⟩]) ∧ Entered (v.block block) bytes name := by
  obtain ⟨before, last, tiles, same⟩ := lists_snoc lists
  have fits : Fits last name := by simpa [has_room_tiles tiles] using room
  obtain ⟨bytes, inserted, size, tiles'⟩ := insert_entry_fits child code tiles fits
  have whole := size.trans (Holds.size_block holds one.low one.high)
  obtain ⟨fs', written, holds'⟩ := write_block_ok holds whole one.low one.high
  have split : before ++ [shrunk last, added last name child code] =
      before ++ [shrunk last] ++ [added last name child code] := by simp
  have ends := split ▸ (size ▸ tiles' : Tiles bytes 0 (before ++ [shrunk last, added last name child code]) bytes.size)
  have entered : Entered (v.block block) bytes name := by
    refine ⟨by rw [is_last_tiles ends]; simp [added], ?_⟩
    have rest : (added last name child code).rec_len.toNat = slack last := toNat_ofNat16 (slack_bound last)
    have taken := fits.2
    rw [tail_room_tiles ends, tail_room_tiles tiles, slack, rest]
    show slack last - DirEntry.pad4 (8 + name.length) + _ = _
    omega
  refine ⟨bytes, fs', ?_, holds', whole, ⟨_, size ▸ tiles', ?_⟩, entered⟩
  · simp only [add_dir_entry, run_bind, run_reads, first_block_ok holds one, ofRes_ok, andThen_ok, run_lift, inserted]
    exact written
  · rw [← same]
    simp [kid, shrunk, added]
theorem add_dir_entry_full (holds : Holds g v fs) (one : OneBlock g inode block) {k : Kid} {ks : List Kid}
    (lists : Lists (v.block block) (k :: ks)) {name : List UInt8} (full : has_room (v.block block) name = false)
    (child : UInt32) (code : UInt8) : ∃ e, (add_dir_entry inode name child code).run fs = .err e fs := by
  obtain ⟨before, last, tiles, -⟩ := lists_snoc lists
  have refused : ¬ Fits last name := by simpa [has_room_tiles tiles] using full
  obtain ⟨e, stopped⟩ := insert_entry_refused child code tiles refused
  refine ⟨e, ?_⟩
  simp only [add_dir_entry, run_bind, run_reads, first_block_ok holds one, ofRes_ok, andThen_ok, run_lift, stopped,
    ofRes_err, andThen_err]

/-! ### Taking an entry out -/

/-- A listing has the two dots, what is before an entry, the entry and what is
    after it. -/
theorem lists_split {bytes : Bytes} {n parent : UInt32} {kids : List Kid} {name : List UInt8} {child : UInt32}
    (lists : Lists bytes (listing n parent kids)) (edge : named kids name = some child) :
    ∃ dot before prev target after, Tiles bytes 0 (dot :: before ++ [prev, target] ++ after) bytes.size ∧
      (∃ first kb, (dot :: before ++ [prev]).map kid = first :: ⟨DOTDOT, parent, 2⟩ :: kb ∧
        first = ⟨DOT, n, 2⟩ ∧ kids = kb ++ kid target :: after.map kid ∧ ∀ k ∈ kb, k.name ≠ name) ∧
      target.name = name ∧ target.inode = child := by
  obtain ⟨es, tiles, same⟩ := lists
  obtain ⟨kb, k, ka, split, names, inode, earlier⟩ := named_some edge
  have shape : es.map kid = (⟨DOT, n, 2⟩ :: ⟨DOTDOT, parent, 2⟩ :: kb) ++ k :: ka := by rw [same, split]; rfl
  obtain ⟨front, back, rfl, frontSame, backSame⟩ := List.map_eq_append_iff.mp shape
  obtain ⟨target, after, rfl, targetSame, afterSame⟩ := List.map_eq_cons_iff.mp backSame
  obtain ⟨dot, more, rfl, dotSame, moreSame⟩ := List.map_eq_cons_iff.mp frontSame
  cases more using List.reverseRecOn with
  | nil => cases moreSame
  | append_singleton before prev =>
    refine ⟨dot, before, prev, target, after, by simpa using tiles, ⟨_, kb, ?_, rfl, ?_, earlier⟩, ?_, ?_⟩
    · rw [← frontSame]
      rfl
    · rw [split, targetSame, afterSame]
    · rw [← names, ← targetSame]
      rfl
    · rw [← inode, ← targetSame]
      rfl

/-- What is left of a listing without one of its entries, and whether the name
    that has gone fits again. -/
theorem erase_entry_listing {bytes : Bytes} (small : bytes.size ≤ 65536) {n parent : UInt32} {kids : List Kid}
    {name : List UInt8} {child : UInt32} (lists : Lists bytes (listing n parent kids))
    (nodup : (kids.map (·.name)).Nodup) (proper : Proper name) (edge : named kids name = some child) (used : child ≠ 0) :
    ∃ bytes', erase_entry bytes child name = .ok bytes' ∧ bytes'.size = bytes.size ∧
      Lists bytes' (listing n parent (kids.filter (·.name != name))) ∧
      has_room bytes' name = (is_last bytes name || has_room bytes name) := by
  obtain ⟨dot, before, prev, target, after, tiles, ⟨first, kb, front, dotIs, kidsIs, earlier⟩, names, inode⟩ :=
    lists_split lists edge
  have formed := tiles_formed tiles
  have reach := tiles_stop tiles
  rw [Nat.zero_add, width_append, width_append] at reach
  simp only [width] at reach
  have dotRoom := (formed dot (by simp)).room
  have narrow : prev.rec_len.toNat + target.rec_len.toNat < 65536 := by omega
  have passed : ∀ e ∈ dot :: before ++ [prev], names_target child name e = false := by
    intro e member
    have listed : kid e ∈ first :: ⟨DOTDOT, parent, 2⟩ :: kb := front ▸ List.mem_map_of_mem member
    have other : e.name ≠ name := by
      rcases List.mem_cons.mp listed with here | later
      · exact fun same => proper.2.2.1 (same ▸ congrArg Kid.name (here.trans dotIs))
      rcases List.mem_cons.mp later with here | later
      · exact fun same => proper.2.2.2 (same ▸ congrArg Kid.name here)
      · exact earlier _ later
    simp [names_target, other]
  have hit : names_target child name target = true := by simp [names_target, names, inode, is_unused, used]
  obtain ⟨bytes', erased, size, tiles'⟩ := erase_entry_merges tiles passed hit narrow
  have left : (dot :: before ++ { prev with rec_len := prev.rec_len + target.rec_len } :: after).map kid =
      listing n parent (kids.filter (·.name != name)) := by
    have gone : kids.filter (·.name != name) = kb ++ after.map kid := by
      have whole := filter_split (kidsIs ▸ nodup)
      rw [show (kid target).name = name from names] at whole
      rw [kidsIs, whole]
    rw [gone, listing, ← dotIs]
    have split : (dot :: before ++ [prev]).map kid ++ after.map kid =
        first :: ⟨DOTDOT, parent, 2⟩ :: (kb ++ after.map kid) := by rw [front]; rfl
    rw [← split]
    simp [kid]
  refine ⟨bytes', erased, size, ⟨_, size ▸ tiles', left⟩, ?_⟩
  have length : (prev.rec_len + target.rec_len).toNat = prev.rec_len.toNat + target.rec_len.toNat := by
    rw [UInt16.toNat_add]
    omega
  cases after using List.reverseRecOn with
  | nil =>
    -- The predecessor becomes the last record, with the room of the one that has gone.
    have old : Tiles bytes 0 ((dot :: before ++ [prev]) ++ [target]) bytes.size := by simpa using tiles
    have new : Tiles bytes' 0 (dot :: before ++ [{ prev with rec_len := prev.rec_len + target.rec_len }])
      bytes'.size := size ▸ tiles'
    have fits : Fits { prev with rec_len := prev.rec_len + target.rec_len } name := by
      have targetFormed := formed target (by simp)
      have space := targetFormed.padded
      have prevSpace := (formed prev (by simp)).padded
      rw [names] at space
      refine ⟨names ▸ targetFormed.short, ?_⟩
      rw [slack]
      dsimp only
      rw [length]
      omega
    rw [has_room_tiles new, is_last_tiles old, names, decide_eq_true fits]
    simp
  | append_singleton after last =>
    -- The last record stays the last one.
    have old : Tiles bytes 0 ((dot :: before ++ [prev, target] ++ after) ++ [last]) bytes.size := by simpa using tiles
    have new : Tiles bytes' 0 ((dot :: before ++ { prev with rec_len := prev.rec_len + target.rec_len } :: after) ++
      [last]) bytes'.size := by
        rw [← size] at tiles'
        simpa using tiles'
    have other : last.name ≠ name := by
      rw [kidsIs, List.map_append, List.nodup_append, List.map_cons, List.nodup_cons] at nodup
      have out := nodup.2.1.1
      rw [show (kid target).name = name from names] at out
      intro same
      exact out (by simp [kid, ← same])
    rw [has_room_tiles new, is_last_tiles old, has_room_tiles old]
    simp [other]

theorem remove_dir_entry_ok (holds : Holds g v fs) (one : OneBlock g inode block) {n parent : UInt32}
    {kids : List Kid} {name : List UInt8} {child : UInt32} (lists : Lists (v.block block) (listing n parent kids))
    (nodup : (kids.map (·.name)).Nodup) (proper : Proper name) (edge : named kids name = some child) (used : child ≠ 0) :
    ∃ bytes fs', (remove_dir_entry inode child name).run fs = .ok () fs' ∧ Holds g (v.setBlock block bytes) fs' ∧
      bytes.size = g.block_size ∧ Lists bytes (listing n parent (kids.filter (·.name != name))) ∧
      has_room bytes name = (is_last (v.block block) name || has_room (v.block block) name) := by
  have whole := Holds.size_block holds one.low one.high
  have bounded := g.bounded
  obtain ⟨bytes, erased, size, lists', room⟩ :=
    erase_entry_listing (by rw [whole]; exact bounded) lists nodup proper edge used
  obtain ⟨fs', written, holds'⟩ := write_block_ok holds (size.trans whole) one.low one.high
  refine ⟨bytes, fs', ?_, holds', size.trans whole, lists', room⟩
  simp only [remove_dir_entry, run_bind, run_reads, first_block_ok holds one, ofRes_ok, andThen_ok, run_lift, erased]
  exact written

/-! ### Leading `..` to another inode -/

theorem update_dotdot_ok (holds : Holds g v fs) (one : OneBlock g inode block) {n parent : UInt32}
    {kids : List Kid} (lists : Lists (v.block block) (listing n parent kids)) (used : parent ≠ 0) (parent' : UInt32) :
    ∃ bytes fs', (update_dotdot inode parent').run fs = .ok () fs' ∧ Holds g (v.setBlock block bytes) fs' ∧
      bytes.size = g.block_size ∧ Lists bytes (listing n parent' kids) := by
  have whole := Holds.size_block holds one.low one.high
  obtain ⟨es, tiles, same⟩ := lists
  obtain ⟨dot, more, rfl, dotSame, moreSame⟩ := List.map_eq_cons_iff.mp same
  obtain ⟨dotdot, rest, rfl, dotdotSame, restSame⟩ := List.map_eq_cons_iff.mp moreSame
  have first : ∀ e ∈ [dot], is_dotdot e = false := by
    intro e member
    have here : e.name = DOT := by
      rw [List.mem_singleton.mp member]
      exact congrArg Kid.name dotSame
    simp only [is_dotdot, here]
    cases is_unused e <;> decide
  have second : is_dotdot dotdot = true := by
    have name : dotdot.name = DOTDOT := congrArg Kid.name dotdotSame
    have number : dotdot.inode = parent := congrArg Kid.inode dotdotSame
    simp [is_dotdot, is_unused, name, number, used]
  obtain ⟨bytes, redirected, size, tiles'⟩ := redirect_dotdot_ok [dot] parent' tiles first second
  obtain ⟨fs', written, holds'⟩ := write_block_ok holds (size.trans whole) one.low one.high
  refine ⟨bytes, fs', ?_, holds', size.trans whole, _, size ▸ tiles', ?_⟩
  · simp only [update_dotdot, run_bind, run_reads, first_block_ok holds one, ofRes_ok, andThen_ok, run_lift, redirected]
    exact written
  · have name : dotdot.name = DOTDOT := congrArg Kid.name dotdotSame
    have code : dotdot.file_type_raw = 2 := congrArg Kid.code dotdotSame
    have changed : kid { dotdot with inode := parent' } = ⟨DOTDOT, parent', 2⟩ := by simp only [kid, name, code]
    rw [List.cons_append, List.nil_append, List.map_cons, List.map_cons, dotSame, changed, restSame, listing]

/-! ### A block with the two dots -/

/-- The two entries that a directory starts with fill its block. -/
theorem dots_ok (size : Nat) (large : 24 ≤ size) (aligned : size % 4 = 0) (small : size - 12 < 65536)
    (n parent : UInt32) :
    ∃ mid data, encode_range ⟨n, 12, 2, DOT⟩ (zeros size) 0 12 = .ok mid ∧
      encode_range ⟨parent, .ofNat (size - 12), 2, DOTDOT⟩ mid 12 size = .ok data ∧ data.size = size ∧
      Lists data (listing n parent []) ∧ data.byte (size - 1) = 0 ∧ tail_room data = size - 24 := by
  have rest : (UInt16.ofNat (size - 12)).toNat = size - 12 := toNat_ofNat16 small
  have dot : WellFormed ⟨n, 12, 2, DOT⟩ :=
    ⟨show 12 % 4 = 0 by decide, show 8 + 1 ≤ 12 by decide, show 1 ≤ 255 by decide⟩
  have dotdot : WellFormed ⟨parent, .ofNat (size - 12), 2, DOTDOT⟩ :=
    ⟨by dsimp only; omega, by dsimp only [DOTDOT, List.length]; omega, show 2 ≤ 255 by decide⟩
  have first : (DirEntry.record ⟨n, 12, 2, DOT⟩).size = 12 := DirEntry.size_record dot
  have second : (DirEntry.record ⟨parent, .ofNat (size - 12), 2, DOTDOT⟩).size = size - 12 :=
    (DirEntry.size_record dotdot).trans rest
  have mid_size : ((zeros size).patch 0 (DirEntry.record ⟨n, 12, 2, DOT⟩)).size = size :=
    size_patch _ _ _ (by rw [first, size_zeros]; omega)
  have whole : (((zeros size).patch 0 (DirEntry.record ⟨n, 12, 2, DOT⟩)).patch 12
      (DirEntry.record ⟨parent, .ofNat (size - 12), 2, DOTDOT⟩)).size = size := by
    rw [size_patch _ _ _ (by rw [second, mid_size]; omega), mid_size]
  have tiles : Tiles (((zeros size).patch 0 (DirEntry.record ⟨n, 12, 2, DOT⟩)).patch 12
      (DirEntry.record ⟨parent, .ofNat (size - 12), 2, DOTDOT⟩)) 0
      ([⟨n, 12, 2, DOT⟩] ++ [⟨parent, .ofNat (size - 12), 2, DOTDOT⟩]) (((zeros size).patch 0
        (DirEntry.record ⟨n, 12, 2, DOT⟩)).patch 12 (DirEntry.record ⟨parent, .ofNat (size - 12), 2, DOTDOT⟩)).size := by
    refine ⟨?_, ?_, ?_⟩
    · have held : DirEntry.EntryAt ((zeros size).patch 0 (DirEntry.record ⟨n, 12, 2, DOT⟩)) 0 ⟨n, 12, 2, DOT⟩ :=
        DirEntry.entryAt_record dot (by rw [size_zeros]; show 0 + 12 ≤ size; omega)
      refine held.congr (by rw [whole, mid_size]) fun i _ high => byte_patch_outside _ (.inl ?_)
      exact high
    · exact DirEntry.entryAt_record dotdot (by rw [mid_size]; dsimp only; omega)
    · rw [whole]
      show 0 + 12 + (UInt16.ofNat (size - 12)).toNat = size
      omega
  refine ⟨_, _, encode_range_ok dot rfl (by rw [size_zeros]; omega),
    encode_range_ok dotdot (by dsimp only; omega) (Nat.le_of_eq mid_size.symm), whole, ⟨_, tiles, rfl⟩, ?_, ?_⟩
  · -- The name of the second record ends long before the block does.
    have last : size - 1 = 12 + (size - 13) := by omega
    have name : Fields.Within 10 (DirEntry.fields ⟨parent, .ofNat (size - 12), 2, DOTDOT⟩) :=
      Fields.within_of_spans (DirEntry.spans _) rfl
    rw [last, byte_patch_inside _ _ _ (by rw [second]; omega), DirEntry.record,
      Fields.byte_patches_past name _ (by omega), byte_zeros]
  · rw [tail_room_tiles tiles, slack]
    dsimp only
    rw [rest]
    show size - 12 - 12 = size - 24
    omega
end

end Justext4.Entries
