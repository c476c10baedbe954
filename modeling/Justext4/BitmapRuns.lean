import Justext4.Counts

/-!
What the bitmap functions promise their callers. Each search returns what a
plain scan of the bits returns; setting a run and clearing it undo each other
and change the number of set bits by the length of the run.
-/
namespace Justext4.BitmapRuns
open Justext4 Justext4.Fallible Justext4.Bitmap Justext4.Counts

/-- The first clear bit below `limit`, bit by bit. -/
def first_clear (buf : Bytes) (limit : Nat) : Option Nat := (List.range limit).find? (!get_bit buf ·)
/-- The first start below `limit` from which `n` bits are clear, start by start. -/
def first_fit (buf : Bytes) (n limit : Nat) : Option Nat :=
  (List.range (limit + 1 - n)).find? fun s => (List.range' s n).all (!get_bit buf ·)
/-- The number of set bits of a bitmap. -/
def setBits (buf : Bytes) : Nat := (List.range (8 * buf.size)).countP (get_bit buf ·)

/-! ### The plain scans -/

theorem first_clear_some {buf : Bytes} {limit i : Nat} :
    first_clear buf limit = some i ↔ i < limit ∧ get_bit buf i = false ∧ ∀ j < i, get_bit buf j = true := by
  rw [first_clear, List.find?_range_eq_some]
  simp only [List.mem_range, Bool.not_not, Bool.not_eq_true']
  constructor
  · intro ⟨clear, inside, below⟩
    exact ⟨inside, clear, below⟩
  · intro ⟨inside, clear, below⟩
    exact ⟨clear, inside, below⟩
theorem first_clear_none {buf : Bytes} {limit : Nat} :
    first_clear buf limit = none ↔ ∀ j < limit, get_bit buf j = true := by
  simp [first_clear]

theorem clearRun_iff {buf : Bytes} {s n : Nat} :
    (List.range' s n).all (!get_bit buf ·) = true ↔ ClearRun buf s n := by
  rw [List.all_eq_true]
  simp only [List.mem_range'_1, Bool.not_eq_true']
  constructor
  · intro all j low high
    exact all j ⟨low, high⟩
  · intro all j member
    exact all j member.1 member.2
theorem first_fit_some {buf : Bytes} {n limit s : Nat} :
    first_fit buf n limit = some s ↔ s + n ≤ limit ∧ ClearRun buf s n ∧ ∀ t < s, ¬ ClearRun buf t n := by
  rw [first_fit, List.find?_range_eq_some, clearRun_iff, List.mem_range]
  have below : ∀ t, (!(List.range' t n).all (!get_bit buf ·)) = true ↔ ¬ ClearRun buf t n := by
    intro t
    rw [← clearRun_iff, Bool.not_eq_true', Bool.not_eq_true]
  constructor
  · intro ⟨clear, inside, earlier⟩
    exact ⟨by omega, clear, fun t lt => (below t).mp (earlier t lt)⟩
  · intro ⟨inside, clear, earlier⟩
    exact ⟨clear, by omega, fun t lt => (below t).mpr (earlier t lt)⟩
theorem first_fit_none {buf : Bytes} {n limit : Nat} :
    first_fit buf n limit = none ↔ ∀ t, t + n ≤ limit → ¬ ClearRun buf t n := by
  rw [first_fit, List.find?_eq_none]
  constructor
  · intro no t fits clear
    exact no t (List.mem_range.mpr (by omega)) (clearRun_iff.mpr clear)
  · intro no t member clear
    have inside := List.mem_range.mp member
    exact no t (by omega) (clearRun_iff.mp clear)

/-! ### The searches -/

/-- The search that skips full bytes is the plain scan: it returns the first
    clear bit, and nothing exactly when every bit below its limit is set. -/
theorem find_first_zero_scans (buf : Bytes) (max_bit : Nat) :
    find_first_zero buf max_bit = first_clear buf (min max_bit (8 * buf.size)) ∧
    (∀ i, find_first_zero buf max_bit = some i ↔
      i < min max_bit (8 * buf.size) ∧ get_bit buf i = false ∧ ∀ j < i, get_bit buf j = true) ∧
    (find_first_zero buf max_bit = none ↔ ∀ j < min max_bit (8 * buf.size), get_bit buf j = true) := by
  have same : find_first_zero buf max_bit = first_clear buf (min max_bit (8 * buf.size)) := by
    have correct := find_first_zero_correct buf max_bit
    cases found : find_first_zero buf max_bit with
    | some i =>
      rw [found] at correct
      exact (first_clear_some.mpr correct).symm
    | none =>
      rw [found] at correct
      exact (first_clear_none.mpr correct).symm
  refine ⟨same, fun i => ?_, ?_⟩
  · rw [same, first_clear_some]
  · rw [same, first_clear_none]

/-- The search in one pass is the trial of every start in turn. -/
theorem find_first_zero_run_fits (buf : Bytes) (n max_bit : Nat) (positive : 1 ≤ n) :
    find_first_zero_run buf n max_bit = first_fit buf n max_bit ∧
    (∀ s, find_first_zero_run buf n max_bit = some s ↔
      s + n ≤ max_bit ∧ (∀ j, s ≤ j → j < s + n → get_bit buf j = false) ∧
      ∀ t < s, ¬ ∀ j, t ≤ j → j < t + n → get_bit buf j = false) ∧
    (find_first_zero_run buf n max_bit = none ↔
      ¬ ∃ s, s + n ≤ max_bit ∧ ∀ j, s ≤ j → j < s + n → get_bit buf j = false) := by
  have same : find_first_zero_run buf n max_bit = first_fit buf n max_bit := by
    have correct := find_first_zero_run_correct buf positive max_bit
    cases found : find_first_zero_run buf n max_bit with
    | some s =>
      rw [found] at correct
      exact (first_fit_some.mpr correct).symm
    | none =>
      rw [found] at correct
      exact (first_fit_none.mpr correct).symm
  refine ⟨same, fun s => ?_, ?_⟩
  · rw [same]
    exact first_fit_some
  · rw [same, first_fit_none]
    constructor
    · intro no ⟨s, fits, clear⟩
      exact no s fits clear
    · intro no s fits clear
      exact no ⟨s, fits, clear⟩

/-- In the byte `0b11100011` three clear bits start at bit 2. -/
theorem middle_run_fits :
    1 ≤ 3 ∧ find_first_zero_run (.ofList [0xE3]) 3 8 = some 2 :=
  ⟨by decide, (find_first_zero_run_fits (.ofList [0xE3]) 3 8 (by decide)).1.trans (by decide)⟩

/-! ### Setting and clearing a run -/

theorem setBits_eq (buf : Bytes) : clearBits (get_bit buf) (8 * buf.size) + setBits buf = 8 * buf.size := by
  have parts := List.length_eq_countP_add_countP (get_bit buf ·) (l := List.range (8 * buf.size))
  rw [List.length_range] at parts
  have clear : clearBits (get_bit buf) (8 * buf.size) =
      (List.range (8 * buf.size)).countP fun j => decide ¬ get_bit buf j = true := by
    unfold clearBits
    apply List.countP_congr
    intro j _
    simp
  rw [setBits, clear]
  omega

/-- Setting a run of clear bits adds its length to the number of set bits. -/
theorem setBits_taken {old new : Bytes} {start count : Nat} (size : new.size = old.size)
    (inside : start + count ≤ 8 * old.size)
    (bits : ∀ j, get_bit new j = (get_bit old j || decide (start ≤ j ∧ j < start + count)))
    (clear : ∀ j, start ≤ j → j < start + count → get_bit old j = false) :
    setBits new = setBits old + count := by
  have taken := clearBits_take_inside (get_bit old) clear inside
  rw [← funext bits] at taken
  have before := setBits_eq old
  have after := setBits_eq new
  rw [size] at after
  omega
/-- Clearing a run of set bits takes its length off the number of set bits. -/
theorem setBits_given {old new : Bytes} {start count : Nat} (size : new.size = old.size)
    (inside : start + count ≤ 8 * old.size)
    (bits : ∀ j, get_bit new j = (get_bit old j && !decide (start ≤ j ∧ j < start + count)))
    (set : ∀ j, start ≤ j → j < start + count → get_bit old j = true) :
    setBits new + count = setBits old := by
  have given := clearBits_give (get_bit old) set inside
  rw [← funext bits] at given
  have before := setBits_eq old
  have after := setBits_eq new
  rw [size] at after
  omega

/-- Setting a run and clearing it change exactly its bits, the count of set
    bits by its length, and each undoes the other byte for byte. -/
theorem runs_invert {ε : Type} (buf : Bytes) (start count : Nat) (inside : start + count ≤ 8 * buf.size) :
    ∃ taken given : Bytes, (set_run buf start count : Res ε Bytes) = .ok taken ∧
      (clear_run buf start count : Res ε Bytes) = .ok given ∧
      taken.size = buf.size ∧ given.size = buf.size ∧
      (∀ j, get_bit taken j = true ↔ get_bit buf j = true ∨ start ≤ j ∧ j < start + count) ∧
      (∀ j, get_bit given j = true ↔ get_bit buf j = true ∧ ¬ (start ≤ j ∧ j < start + count)) ∧
      ((∀ j, start ≤ j → j < start + count → get_bit buf j = false) →
        setBits taken = setBits buf + count ∧ (clear_run taken start count : Res ε Bytes) = .ok buf) ∧
      ((∀ j, start ≤ j → j < start + count → get_bit buf j = true) →
        setBits given + count = setBits buf ∧ (set_run given start count : Res ε Bytes) = .ok buf) := by
  obtain ⟨taken, takenRun, takenSize, takenBits⟩ := set_run_ok (ε := ε) buf start count inside
  obtain ⟨given, givenRun, givenSize, givenBits⟩ := clear_run_ok (ε := ε) buf start count inside
  refine ⟨taken, given, takenRun, givenRun, takenSize, givenSize, ?_, ?_, ?_, ?_⟩
  · intro j
    rw [takenBits, Bool.or_eq_true, decide_eq_true_iff]
  · intro j
    rw [givenBits, Bool.and_eq_true, Bool.not_eq_true', decide_eq_false_iff_not]
  · intro clear
    refine ⟨setBits_taken takenSize inside takenBits clear, ?_⟩
    obtain ⟨back, backRun, backSize, backBits⟩ := clear_run_ok (ε := ε) taken start count (by omega)
    have restored : back = buf := by
      apply bytes_eq_of_get_bit (by omega)
      intro j _
      rw [backBits, takenBits]
      by_cases hit : start ≤ j ∧ j < start + count
      · simp [hit, clear j hit.1 hit.2]
      · simp [hit]
    rw [backRun, restored]
  · intro set
    refine ⟨setBits_given givenSize inside givenBits set, ?_⟩
    obtain ⟨back, backRun, backSize, backBits⟩ := set_run_ok (ε := ε) given start count (by omega)
    have restored : back = buf := by
      apply bytes_eq_of_get_bit (by omega)
      intro j _
      rw [backBits, givenBits]
      by_cases hit : start ≤ j ∧ j < start + count
      · simp [hit, set j hit.1 hit.2]
      · simp [hit]
    rw [backRun, restored]

/-- In the byte `0b11100011` the three bits from bit 2 on are set and cleared again,
    and the three bits from bit 5 on are cleared and set again. -/
theorem middle_run_inverts :
    (∃ taken : Bytes, (set_run (.ofList [0xE3]) 2 3 : Res Unit Bytes) = .ok taken ∧
      setBits taken = setBits (.ofList [0xE3]) + 3 ∧ (clear_run taken 2 3 : Res Unit Bytes) = .ok (.ofList [0xE3])) ∧
    ∃ given : Bytes, (clear_run (.ofList [0xE3]) 5 3 : Res Unit Bytes) = .ok given ∧
      setBits given + 3 = setBits (.ofList [0xE3]) ∧ (set_run given 5 3 : Res Unit Bytes) = .ok (.ofList [0xE3]) := by
  have clear : ∀ j < 5, 2 ≤ j → get_bit (.ofList [0xE3]) j = false := by decide
  have set : ∀ j < 8, 5 ≤ j → get_bit (.ofList [0xE3]) j = true := by decide
  constructor
  · obtain ⟨taken, -, ran, -, -, -, -, -, restores, -⟩ := runs_invert (ε := Unit) (.ofList [0xE3]) 2 3 (by decide)
    exact ⟨taken, ran, restores fun j low high => clear j high low⟩
  · obtain ⟨-, given, -, ran, -, -, -, -, -, restores⟩ := runs_invert (ε := Unit) (.ofList [0xE3]) 5 3 (by decide)
    exact ⟨given, ran, restores fun j low high => set j high low⟩

end Justext4.BitmapRuns
