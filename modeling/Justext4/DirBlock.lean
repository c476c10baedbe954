import Justext4.Filesystem

/-!
Directory blocks as lists. A block that its records tile from the first byte to
the last is read as the list of its entries, and the three edits act on that
list: a new entry goes to the end, a removed one leaves its bytes to its
predecessor, a redirected one keeps its place.
-/
namespace Justext4.DirBlock
open Justext4 Justext4.Fallible Justext4.Filesystem Bytes
open Justext4.DirEntry

/-- What an entry says, its length on the disk left out. -/
structure Kid where
  name : List UInt8
  inode : UInt32
  code : UInt8
  deriving DecidableEq

def kid (e : DirEntry) : Kid := ⟨e.name, e.inode, e.file_type_raw⟩

/-- The records from `pos` to `stop` are those of the entries, without a gap. -/
def Tiles (buf : Bytes) : Nat → List DirEntry → Nat → Prop
  | pos, [], stop => pos = stop
  | pos, e :: es, stop => EntryAt buf pos e ∧ Tiles buf (pos + e.rec_len.toNat) es stop

/-- The number of bytes of a list of records. -/
def width : List DirEntry → Nat
  | [] => 0
  | e :: es => e.rec_len.toNat + width es

/-- The entries with the positions of their records. -/
def located : Nat → List DirEntry → List (Nat × DirEntry)
  | _, [] => []
  | pos, e :: es => (pos, e) :: located (pos + e.rec_len.toNat) es

theorem width_append (xs ys : List DirEntry) : width (xs ++ ys) = width xs + width ys := by
  induction xs with
  | nil => simp [width]
  | cons e es ih => simp only [List.cons_append, width, ih]; omega
theorem located_append (pos : Nat) (xs ys : List DirEntry) :
    located pos (xs ++ ys) = located pos xs ++ located (pos + width xs) ys := by
  induction xs generalizing pos with
  | nil => simp [located, width]
  | cons e es ih => simp only [List.cons_append, located, width, ih, Nat.add_assoc]
theorem tiles_stop {buf : Bytes} {pos stop : Nat} {es : List DirEntry} (tiles : Tiles buf pos es stop) :
    stop = pos + width es := by
  induction es generalizing pos with
  | nil => exact tiles.symm
  | cons e es ih => rw [ih tiles.2, width]; omega
theorem tiles_append {buf : Bytes} {pos stop : Nat} {xs ys : List DirEntry} :
    Tiles buf pos (xs ++ ys) stop ↔ Tiles buf pos xs (pos + width xs) ∧ Tiles buf (pos + width xs) ys stop := by
  induction xs generalizing pos with
  | nil => simp [Tiles, width]
  | cons e es ih => simp only [List.cons_append, Tiles, ih, width, and_assoc, Nat.add_assoc]
theorem tiles_inside {buf : Bytes} {pos stop : Nat} {es : List DirEntry} (tiles : Tiles buf pos es stop)
    (inside : pos ≤ buf.size) : stop ≤ buf.size := by
  induction es generalizing pos with
  | nil => exact tiles ▸ inside
  | cons e es ih => exact ih tiles.2 tiles.1.inside
theorem tiles_congr {a b : Bytes} {pos stop : Nat} {es : List DirEntry} (tiles : Tiles a pos es stop)
    (size : b.size = a.size) (same : ∀ i, pos ≤ i → i < stop → b.byte i = a.byte i) : Tiles b pos es stop := by
  induction es generalizing pos with
  | nil => exact tiles
  | cons e es ih =>
    have reach := tiles_stop tiles.2
    exact ⟨tiles.1.congr size fun i low high => same i low (by omega),
      ih tiles.2 fun i low high => same i (by omega) high⟩
theorem tiles_formed {buf : Bytes} {pos stop : Nat} {es : List DirEntry} (tiles : Tiles buf pos es stop) :
    ∀ e ∈ es, WellFormed e := by
  induction es generalizing pos with
  | nil => simp
  | cons e es ih =>
    intro x member
    rcases List.mem_cons.mp member with here | later
    · exact here ▸ tiles.1.formed
    · exact ih tiles.2 x later
theorem width_length {es : List DirEntry} (formed : ∀ e ∈ es, WellFormed e) : 8 * es.length ≤ width es := by
  induction es with
  | nil => exact Nat.le_refl 0
  | cons e es ih =>
    have first := (formed e (.head _)).room
    have rest := ih fun x member => formed x (.tail _ member)
    rw [List.length_cons, width]
    omega
/-- Part of a block may be tiled anew when nothing else changes. -/
theorem tiles_splice {a b : Bytes} {stop : Nat} {before middle middle' after : List DirEntry}
    (tiles : Tiles a 0 (before ++ middle ++ after) stop) (size : b.size = a.size)
    (new : Tiles b (width before) middle' (width before + width middle))
    (same : ∀ i, i < width before ∨ width before + width middle ≤ i → b.byte i = a.byte i) :
    Tiles b 0 (before ++ middle' ++ after) stop := by
  rw [tiles_append, tiles_append, Nat.zero_add, Nat.zero_add] at tiles
  obtain ⟨⟨first, -⟩, last⟩ := tiles
  have length : width middle' = width middle := by
    have reach := tiles_stop new
    omega
  have total : width (before ++ middle') = width (before ++ middle) := by
    rw [width_append, width_append, length]
  rw [tiles_append, tiles_append, Nat.zero_add, Nat.zero_add, total]
  rw [width_append] at last ⊢
  refine ⟨⟨tiles_congr first size fun i _ high => same i (.inl high), new⟩, tiles_congr last size fun i low _ => ?_⟩
  exact same i (.inr low)
/-- A record may take the place of records of the same total length. -/
theorem tiles_replace {a : Bytes} {before middle after : List DirEntry} {e : DirEntry}
    (tiles : Tiles a 0 (before ++ middle ++ after) a.size) (formed : WellFormed e)
    (length : e.rec_len.toNat = width middle) :
    (a.patch (width before) (record e)).size = a.size ∧
      Tiles (a.patch (width before) (record e)) 0 (before ++ e :: after) a.size := by
  have split := tiles
  rw [tiles_append] at split
  have room := tiles_inside split.1 (Nat.zero_le _)
  rw [Nat.zero_add, width_append] at room
  have long := size_record formed
  have size : (a.patch (width before) (record e)).size = a.size := size_patch _ _ _ (by omega)
  refine ⟨size, ?_⟩
  have new : Tiles (a.patch (width before) (record e)) (width before) [e] (width before + width middle) :=
    ⟨entryAt_record formed (by omega), by rw [Tiles, length]⟩
  have spliced := tiles_splice tiles size new fun i outside => byte_patch_outside _ (by omega)
  simpa using spliced

/-! ### Reading a block -/

theorem decode_from_tiles {buf : Bytes} {pos : Nat} {es : List DirEntry} (tiles : Tiles buf pos es buf.size) :
    decode_from buf pos = .ok es := by
  induction es generalizing pos with
  | nil =>
    have reach : pos = buf.size := tiles
    rw [decode_from, if_neg (by omega)]
  | cons e es ih =>
    obtain ⟨held, later⟩ := tiles
    have room := held.formed.room
    have inside := held.inside
    rw [decode_from, if_pos (by omega), if_neg (by rw [size_rest, DIR_ENTRY_HEADER_SIZE]; omega)]
    split
    · rename_i fault decoded
      rw [DirEntry.decode_ok held] at decoded
      cases decoded
    · rename_i entry decoded
      rw [DirEntry.decode_ok held] at decoded
      cases decoded
      rw [ih later, res_bind_ok]
theorem decode_dir_block_tiles {buf : Bytes} {es : List DirEntry} (tiles : Tiles buf 0 es buf.size) :
    decode_dir_block buf = .ok es := decode_from_tiles tiles

/-- A walk that stops nowhere passes every entry. -/
theorem walk_through {buf : Bytes} {stop : DirEntry → Bool} {pos : Nat} {es : List DirEntry}
    (tiles : Tiles buf pos es buf.size) (none : ∀ e ∈ es, stop e = false) :
    walk buf stop pos = .ok ⟨located pos es, .none⟩ := by
  induction es generalizing pos with
  | nil =>
    have reach : pos = buf.size := tiles
    rw [walk, if_neg (by omega), located]
  | cons e es ih =>
    obtain ⟨held, later⟩ := tiles
    have room := held.formed.room
    have inside := held.inside
    rw [walk, if_pos (by omega)]
    split
    · rename_i fault decoded
      rw [DirEntry.decode_ok held] at decoded
      cases decoded
    · rename_i entry decoded
      rw [DirEntry.decode_ok held] at decoded
      cases decoded
      rw [none e (List.mem_cons_self ..), ih later fun x member => none x (List.mem_cons_of_mem _ member)]
      rfl
/-- A walk stops at the first entry it looks for. -/
theorem walk_to {buf : Bytes} {stop : DirEntry → Bool} {pos : Nat} {before after : List DirEntry} {e : DirEntry}
    (tiles : Tiles buf pos (before ++ e :: after) buf.size) (none : ∀ x ∈ before, stop x = false)
    (here : stop e = true) : walk buf stop pos = .ok ⟨located pos before, some (pos + width before, e)⟩ := by
  induction before generalizing pos with
  | nil =>
    obtain ⟨held, -⟩ := tiles
    have room := held.formed.room
    have inside := held.inside
    rw [walk, if_pos (by omega)]
    split
    · rename_i fault decoded
      rw [DirEntry.decode_ok held] at decoded
      cases decoded
    · rename_i entry decoded
      rw [DirEntry.decode_ok held] at decoded
      cases decoded
      rw [here]
      rfl
  | cons x before ih =>
    obtain ⟨held, later⟩ := tiles
    have room := held.formed.room
    have inside := held.inside
    rw [walk, if_pos (by omega)]
    split
    · rename_i fault decoded
      rw [DirEntry.decode_ok held] at decoded
      cases decoded
    · rename_i entry decoded
      rw [DirEntry.decode_ok held] at decoded
      cases decoded
      rw [none x (List.mem_cons_self ..), ih later fun y member => none y (List.mem_cons_of_mem _ member)]
      simp only [Bool.false_eq_true, ↓reduceIte, res_bind_ok, located, width, Nat.add_assoc]

theorem getLast_located (pos : Nat) (es : List DirEntry) (e : DirEntry) :
    (located pos (es ++ [e])).getLast? = some (pos + width es, e) := by
  rw [located_append]
  simp [located]

/-! ### The edits -/

/-- What is left of the last record next to its name. -/
def slack (last : DirEntry) : Nat := last.rec_len.toNat - pad4 (8 + last.name.length)
/-- The new entry fits behind the last one. -/
def Fits (last : DirEntry) (name : List UInt8) : Prop :=
  name.length ≤ 255 ∧ pad4 (8 + name.length) ≤ slack last

instance (last : DirEntry) (name : List UInt8) : Decidable (Fits last name) := by
  unfold Fits; infer_instance

theorem pad4_short {n : Nat} (short : n ≤ 255) : pad4 (8 + n) ≤ 264 := by rw [pad4]; omega

theorem toNat_ofNat16 {n : Nat} (small : n < 65536) : (UInt16.ofNat n).toNat = n := by
  rw [UInt16.toNat_ofNat']
  omega

section
variable {buf : Bytes} {before : List DirEntry} {last : DirEntry} {name : List UInt8} {child : UInt32} {code : UInt8}

/-- The last record cut to the length of its name. -/
def shrunk (last : DirEntry) : DirEntry := { last with rec_len := .ofNat (pad4 (8 + last.name.length)) }
/-- The new record behind it. -/
def added (last : DirEntry) (name : List UInt8) (child : UInt32) (code : UInt8) : DirEntry :=
  ⟨child, .ofNat (slack last), code, name⟩

theorem shrunk_len (formed : WellFormed last) : (shrunk last).rec_len.toNat = pad4 (8 + last.name.length) :=
  toNat_ofNat16 (by have short := pad4_short formed.short; omega)
theorem shrunk_formed (formed : WellFormed last) : WellFormed (shrunk last) := by
  refine ⟨?_, ?_, formed.short⟩
  · rw [shrunk_len formed]; exact pad4_aligned _
  · rw [shrunk_len formed]; exact pad4_ge _
theorem slack_bound (last : DirEntry) : slack last < 65536 := by
  have bound := last.rec_len.toNat_lt
  rw [slack]
  omega
theorem added_formed (child : UInt32) (code : UInt8) (formed : WellFormed last) (fits : Fits last name) : WellFormed (added last name child code) := by
  have length : (added last name child code).rec_len.toNat = slack last := toNat_ofNat16 (slack_bound last)
  have aligned := formed.aligned
  refine ⟨?_, ?_, fits.1⟩
  · rw [length, slack]
    simp only [pad4]
    omega
  · rw [length]
    exact Nat.le_trans (pad4_ge _) fits.2

/-- An entry that fits goes behind the last one. -/
theorem insert_entry_fits (child : UInt32) (code : UInt8) (tiles : Tiles buf 0 (before ++ [last]) buf.size) (fits : Fits last name) :
    ∃ buf', insert_entry buf name child code = .ok buf' ∧ buf'.size = buf.size ∧
      Tiles buf' 0 (before ++ [shrunk last, added last name child code]) buf.size := by
  have formed := tiles_formed tiles last (by simp)
  have total := tiles_stop tiles
  rw [Nat.zero_add, width_append] at total
  simp only [width, Nat.add_zero] at total
  have padded := formed.padded
  have short := pad4_short formed.short
  have new_short := pad4_short fits.1
  have cut := shrunk_len formed
  have rest : (added last name child code).rec_len.toNat = slack last := toNat_ofNat16 (slack_bound last)
  have cut_formed := shrunk_formed formed
  have new_formed := added_formed child code formed fits
  have room : width before + pad4 (8 + last.name.length) + slack last = buf.size := by rw [slack]; omega
  let mid := buf.patch (width before) (record (shrunk last))
  have mid_size : mid.size = buf.size := size_patch _ _ _ (by rw [size_record cut_formed]; omega)
  let out := mid.patch (width before + pad4 (8 + last.name.length)) (record (added last name child code))
  have out_size : out.size = buf.size := by
    rw [← mid_size]
    exact size_patch _ _ _ (by rw [size_record new_formed]; omega)
  have cut_write : encode_range { last with rec_len := .ofNat (pad4 (8 + last.name.length)) } buf (width before)
      (width before + pad4 (8 + last.name.length)) = .ok mid :=
    encode_range_ok cut_formed (by rw [cut]) (by omega)
  refine ⟨out, ?_, out_size, ?_⟩
  · rw [insert_entry, walk_through tiles (by simp), liftErr_ok, res_bind_ok, getLast_located, okOr_some, res_bind_ok]
    dsimp only
    rw [Nat.zero_add, Nat.mod_eq_of_lt (by omega), Nat.mod_eq_of_lt (by omega), decide_eq_true padded, orPanic_true,
      res_bind_ok, ensure_of (show _ ≤ last.rec_len.toNat - pad4 (8 + last.name.length) from fits.2), res_bind_ok,
      cut_write, liftErr_ok, res_bind_ok]
    have inside : width before + pad4 (8 + last.name.length) ≤ mid.size := by omega
    have left : mid.size - (width before + pad4 (8 + last.name.length)) = slack last := by omega
    rw [decide_eq_true inside, orPanic_true, res_bind_ok, left]
    show liftErr _ (encode_range (added last name child code) mid _ _) = _
    rw [encode_range_ok new_formed (by rw [rest]; omega) (Nat.le_refl _), liftErr_ok]
  · have first : EntryAt mid (width before) (shrunk last) := entryAt_record cut_formed (by omega)
    have second : EntryAt out (width before + pad4 (8 + last.name.length)) (added last name child code) :=
      entryAt_record new_formed (by omega)
    have new : Tiles out (width before) [shrunk last, added last name child code] (width before + width [last]) := by
      refine ⟨first.congr (by omega) fun i low high => byte_patch_outside _ (by omega), ?_⟩
      rw [cut]
      refine ⟨second, ?_⟩
      simp only [Tiles, width, rest, slack]
      omega
    have old : Tiles buf 0 (before ++ [last] ++ []) buf.size := by simpa using tiles
    have spliced := tiles_splice old out_size new fun i outside => by
      have reach : width [last] = last.rec_len.toNat := by simp [width]
      have cut_size := size_record cut_formed
      have new_size := size_record new_formed
      rw [slack] at rest
      rw [byte_patch_outside _ (by omega), byte_patch_outside _ (by omega)]
    simpa using spliced

/-- An entry that does not fit is refused with an error. -/
theorem insert_entry_refused (child : UInt32) (code : UInt8) (tiles : Tiles buf 0 (before ++ [last]) buf.size) (full : ¬ Fits last name) :
    ∃ e, insert_entry buf name child code = .error (.err e) := by
  have formed := tiles_formed tiles last (by simp)
  have total := tiles_stop tiles
  rw [Nat.zero_add, width_append] at total
  simp only [width, Nat.add_zero] at total
  have padded := formed.padded
  have short := pad4_short formed.short
  have cut := shrunk_len formed
  have cut_formed := shrunk_formed formed
  rw [insert_entry, walk_through tiles (by simp), liftErr_ok, res_bind_ok, getLast_located, okOr_some, res_bind_ok]
  dsimp only
  rw [Nat.zero_add, Nat.mod_eq_of_lt (a := pad4 (8 + last.name.length)) (by omega), decide_eq_true padded,
    orPanic_true, res_bind_ok]
  by_cases space : pad4 (8 + name.length) % 65536 ≤ last.rec_len.toNat - pad4 (8 + last.name.length)
  case neg => exact ⟨_, by rw [ensure_not space, res_bind_error]⟩
  case pos =>
    have long : 255 < name.length := by
      rcases Nat.lt_or_ge 255 name.length with long | few
      · exact long
      · have new_short := pad4_short few
        rw [Nat.mod_eq_of_lt (by omega)] at space
        exact absurd ⟨few, space⟩ full
    let mid := buf.patch (width before) (record (shrunk last))
    have mid_size : mid.size = buf.size := size_patch _ _ _ (by rw [size_record cut_formed]; omega)
    have cut_write : encode_range { last with rec_len := .ofNat (pad4 (8 + last.name.length)) } buf (width before)
        (width before + pad4 (8 + last.name.length)) = .ok mid :=
      encode_range_ok cut_formed (by rw [cut]) (by omega)
    have inside : width before + pad4 (8 + last.name.length) ≤ mid.size := by omega
    rw [ensure_of space, res_bind_ok, cut_write, liftErr_ok, res_bind_ok, decide_eq_true inside, orPanic_true, res_bind_ok, encode_range, range_ok inside (Nat.le_refl _), res_bind_ok]
    obtain ⟨e, refused⟩ := encode_long ⟨child, .ofNat (mid.size - (width before + pad4 (8 + last.name.length))),
      code, name⟩ long (mid.slice (width before + pad4 (8 + last.name.length))
        (mid.size - (width before + pad4 (8 + last.name.length))))
    exact ⟨_, by rw [refused, res_bind_error, liftErr_err]⟩
end

/-- The record of a removed entry goes to its predecessor. -/
theorem erase_entry_merges {buf : Bytes} {before after : List DirEntry} {prev target : DirEntry} {inode : UInt32}
    {name : List UInt8} (tiles : Tiles buf 0 (before ++ [prev, target] ++ after) buf.size)
    (earlier : ∀ e ∈ before ++ [prev], names_target inode name e = false)
    (here : names_target inode name target = true) (small : prev.rec_len.toNat + target.rec_len.toNat < 65536) :
    ∃ buf', erase_entry buf inode name = .ok buf' ∧ buf'.size = buf.size ∧
      Tiles buf' 0 (before ++ { prev with rec_len := prev.rec_len + target.rec_len } :: after) buf.size := by
  have prev_formed := tiles_formed tiles prev (by simp)
  have target_formed := tiles_formed tiles target (by simp)
  have length : (prev.rec_len + target.rec_len).toNat = prev.rec_len.toNat + target.rec_len.toNat := by
    rw [UInt16.toNat_add]
    omega
  let merged : DirEntry := { prev with rec_len := prev.rec_len + target.rec_len }
  have aligned := prev_formed.aligned
  have aligned' := target_formed.aligned
  have room := prev_formed.room
  have formed : WellFormed merged :=
    ⟨by show (prev.rec_len + target.rec_len).toNat % 4 = 0; omega,
      by show 8 + prev.name.length ≤ (prev.rec_len + target.rec_len).toNat; omega, prev_formed.short⟩
  have replaced := tiles_replace (e := merged) tiles formed (by rw [length]; simp [width])
  refine ⟨_, ?_, replaced.1, replaced.2⟩
  have walked : Tiles buf 0 ((before ++ [prev]) ++ target :: after) buf.size := by simpa using tiles
  have reach := tiles_stop walked
  rw [Nat.zero_add, width_append, width_append] at reach
  simp only [width, Nat.add_zero] at reach
  have held : EntryAt buf (width before) prev := by
    rw [tiles_append, tiles_append] at tiles
    have middle := tiles.1.2
    rw [Nat.zero_add] at middle
    exact middle.1
  rw [erase_entry, walk_to walked earlier here, liftErr_ok, res_bind_ok, okOr_some, res_bind_ok]
  dsimp only
  rw [getLast_located]
  dsimp only
  rw [Nat.zero_add, DirEntry.decode_ok held, liftErr_ok, res_bind_ok, decide_eq_true small, orPanic_true, res_bind_ok]
  show liftErr _ (encode_range merged buf (width before) (width before + merged.rec_len.toNat)) = _
  rw [encode_range_ok formed rfl (by rw [length]; omega), liftErr_ok]

/-- The first record of a block only loses its inode number. -/
theorem erase_entry_first {buf : Bytes} {after : List DirEntry} {target : DirEntry} {inode : UInt32}
    {name : List UInt8} (tiles : Tiles buf 0 (target :: after) buf.size)
    (here : names_target inode name target = true) :
    ∃ buf', erase_entry buf inode name = .ok buf' ∧ buf'.size = buf.size ∧
      Tiles buf' 0 ({ target with inode := 0 } :: after) buf.size := by
  have formed := tiles_formed tiles target (by simp)
  obtain ⟨held, later⟩ := tiles
  have room := formed.room
  have inside := held.inside
  rw [Nat.zero_add] at inside
  have size : (buf.patch 0 (zeros 4)).size = buf.size := size_patch _ _ _ (by simp; omega)
  refine ⟨buf.patch 0 (zeros 4), ?_, size, ⟨⟨formed.aligned, formed.room, formed.short⟩, ?_, ?_, ?_, ?_, ?_, ?_⟩, ?_⟩
  · have walked : Tiles buf 0 ([] ++ target :: after) buf.size := ⟨held, later⟩
    rw [erase_entry, walk_to walked (by simp) here, liftErr_ok, res_bind_ok, okOr_some, res_bind_ok]
    show buf.copy 0 (zeros 4) = _
    exact copy_ok (by simp; omega)
  · show 0 + target.rec_len.toNat ≤ _; omega
  · exact u32At_patch_same buf 0 0
  · rw [u16At_patch_apart _ _ (by simp)]; exact held.rec_len
  · rw [byte_patch_outside _ (by simp)]; exact held.name_len
  · rw [byte_patch_outside _ (by simp)]; exact held.file_type
  · intro i lt
    rw [byte_patch_outside _ (by simp; omega)]
    exact held.name i lt
  · refine tiles_congr later size fun i low _ => byte_patch_outside _ ?_
    have reach : 0 + target.rec_len.toNat ≤ i := low
    simp
    omega

/-- The first live `..` of a block gets another inode. -/
theorem redirect_dotdot_ok {buf : Bytes} (before : List DirEntry) {after : List DirEntry} {e : DirEntry} (inode : UInt32)
    (tiles : Tiles buf 0 (before ++ e :: after) buf.size) (earlier : ∀ x ∈ before, is_dotdot x = false)
    (here : is_dotdot e = true) :
    ∃ buf', redirect_dotdot buf inode = .ok buf' ∧ buf'.size = buf.size ∧
      Tiles buf' 0 (before ++ { e with inode } :: after) buf.size := by
  have formed := tiles_formed tiles e (by simp)
  have updated : WellFormed { e with inode } := ⟨formed.aligned, formed.room, formed.short⟩
  have reach := tiles_stop tiles
  rw [Nat.zero_add, width_append] at reach
  simp only [width] at reach
  have whole : Tiles buf 0 (before ++ [e] ++ after) buf.size := by simpa using tiles
  have replaced := tiles_replace (e := { e with inode }) whole updated (by simp [width])
  refine ⟨_, ?_, replaced.1, replaced.2⟩
  rw [redirect_dotdot, walk_to tiles earlier here, liftErr_ok, res_bind_ok, okOr_some, res_bind_ok]
  dsimp only
  rw [Nat.zero_add, encode_range_ok updated rfl (by show width before + e.rec_len.toNat ≤ _; omega), liftErr_ok]

end Justext4.DirBlock
