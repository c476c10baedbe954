import Justext4.Bytes

/-!
The block and inode bitmaps. Bit `n` lives in byte `n / 8` under the mask
`1 << (n % 8)`. The two searches return the first clear bit and the first run
of clear bits; setting or clearing a run changes exactly its bits.
-/
namespace Justext4.Bitmap
open Justext4 Justext4.Fallible

/-- Bits past the end of the buffer read as clear. -/
def get_bit (buf : Bytes) (bit : Nat) : Bool :=
  let byte := bit / 8
  if buf.size ≤ byte then false
  else
    let mask : UInt8 := 1 <<< UInt8.ofNat (bit % 8)
    buf.byte byte &&& mask != 0

def set_bit {ε : Type} (buf : Bytes) (bit : Nat) : Res ε Bytes := do
  let byte := bit / 8
  let mask : UInt8 := 1 <<< UInt8.ofNat (bit % 8)
  let old ← buf.index byte
  buf.setIndex byte (old ||| mask)

def clear_bit {ε : Type} (buf : Bytes) (bit : Nat) : Res ε Bytes := do
  let byte := bit / 8
  let mask : UInt8 := 1 <<< UInt8.ofNat (bit % 8)
  let old ← buf.index byte
  buf.setIndex byte (old &&& ~~~mask)

/-- `for i in 0..count { set_bit(buf, start + i) }`. -/
def set_run {ε : Type} (buf : Bytes) (start : Nat) : Nat → Res ε Bytes
  | 0 => .ok buf
  | count + 1 => do
    let buf ← set_run buf start count
    set_bit buf (start + count)

/-- `for i in 0..count { clear_bit(buf, start + i) }`. -/
def clear_run {ε : Type} (buf : Bytes) (start : Nat) : Nat → Res ε Bytes
  | 0 => .ok buf
  | count + 1 => do
    let buf ← clear_run buf start count
    clear_bit buf (start + count)

/-- The bits of one byte from `bit_in_byte` on: `none` to go on with the next
    byte, `some` what the search returns. -/
def scan_byte (byte : UInt8) (byte_idx max_bit bit_in_byte : Nat) : Option (Option Nat) :=
  if bit_in_byte < 8 then
    let bit := byte_idx * 8 + bit_in_byte
    if max_bit ≤ bit then some none
    else if byte &&& (1 <<< UInt8.ofNat bit_in_byte) == 0 then some (some bit)
    else scan_byte byte byte_idx max_bit (bit_in_byte + 1)
  else none
termination_by 8 - bit_in_byte

/-- The bytes from `byte_idx` on, a full byte skipped at once. -/
def scan_bytes (buf : Bytes) (max_bit max_byte byte_idx : Nat) : Option Nat :=
  if byte_idx < max_byte then
    let byte := buf.byte byte_idx
    if byte == 0xFF then scan_bytes buf max_bit max_byte (byte_idx + 1)
    else
      match scan_byte byte byte_idx max_bit 0 with
      | some found => found
      | none => scan_bytes buf max_bit max_byte (byte_idx + 1)
  else none
termination_by max_byte - byte_idx

/-- The lowest clear bit below `max_bit` that the buffer holds. -/
def find_first_zero (buf : Bytes) (max_bit : Nat) : Option Nat :=
  let max_byte := min ((max_bit + 7) / 8) buf.size
  scan_bytes buf max_bit max_byte 0

/-- The bits from `bit` on, where the `run_len` bits before it are clear and
    make up the current run. -/
def scan_run (buf : Bytes) (n max_bit bit : Nat) (run_start : Option Nat) (run_len : Nat) : Option Nat :=
  if bit < max_bit then
    if !get_bit buf bit then
      let run_start := run_start.or (some bit)
      if run_len + 1 == n then run_start
      else scan_run buf n max_bit (bit + 1) run_start (run_len + 1)
    else scan_run buf n max_bit (bit + 1) none 0
  else none
termination_by max_bit - bit

/-- The first bit of the lowest run of `n` clear bits below `max_bit`. -/
def find_first_zero_run (buf : Bytes) (n max_bit : Nat) : Option Nat :=
  if n = 0 then some 0 else scan_run buf n max_bit 0 none 0

/-! ### The bits of a byte -/

/-- Bit `k` of a byte. -/
def bitOf (x : UInt8) (k : Nat) : Bool := x.toBitVec.getLsbD k

theorem bitOf_mask {k : Nat} (j : Nat) (small : k < 8) : bitOf (1 <<< UInt8.ofNat k) j = decide (j = k) := by
  by_cases inside : j < 8
  · have all : ∀ k < 8, ∀ j < 8, bitOf (1 <<< UInt8.ofNat k) j = decide (j = k) := by decide
    exact all k small j inside
  · have far : j ≠ k := by omega
    have past : bitOf (1 <<< UInt8.ofNat k) j = false := BitVec.getLsbD_of_ge _ _ (by omega)
    rw [past, decide_eq_false far]
theorem bitOf_or (x y : UInt8) (j : Nat) : bitOf (x ||| y) j = (bitOf x j || bitOf y j) := by
  simp [bitOf]
theorem bitOf_and (x y : UInt8) (j : Nat) : bitOf (x &&& y) j = (bitOf x j && bitOf y j) := by
  simp [bitOf]
theorem bitOf_not (x : UInt8) {j : Nat} (small : j < 8) : bitOf (~~~x) j = !bitOf x j := by
  simp [bitOf, small]
theorem bitOf_zero (j : Nat) : bitOf 0 j = false := by simp [bitOf]
theorem bitOf_full {j : Nat} (small : j < 8) : bitOf 255 j = true := by
  have all : ∀ j < 8, bitOf 255 j = true := by decide
  exact all j small
theorem eq_of_bitOf {x y : UInt8} (same : ∀ j < 8, bitOf x j = bitOf y j) : x = y :=
  UInt8.toBitVec_inj.mp (BitVec.eq_of_getLsbD_eq fun j small => same j small)

/-- Testing a byte against the mask of bit `k` tests that bit. -/
theorem mask_test (x : UInt8) {k : Nat} (small : k < 8) : (x &&& (1 <<< UInt8.ofNat k) != 0) = bitOf x k := by
  cases bit : bitOf x k with
  | true =>
    have masked : bitOf (x &&& (1 <<< UInt8.ofNat k)) k = true := by simp [bitOf_and, bitOf_mask _ small, bit]
    rw [bne_iff_ne]
    intro zero
    rw [zero, bitOf_zero] at masked
    cases masked
  | false =>
    have zero : x &&& (1 <<< UInt8.ofNat k) = 0 := by
      apply eq_of_bitOf
      intro j _
      by_cases same : j = k
      · subst same; simp [bitOf_and, bitOf_zero, bit]
      · simp [bitOf_and, bitOf_mask _ small, bitOf_zero, same]
    simp [zero]

theorem get_bit_eq (buf : Bytes) (bit : Nat) : get_bit buf bit = bitOf (buf.byte (bit / 8)) (bit % 8) := by
  simp only [get_bit]
  split
  · rename_i past
    rw [buf.beyond _ past, bitOf_zero]
  · exact mask_test _ (Nat.mod_lt _ (by decide))
theorem get_bit_past {buf : Bytes} {bit : Nat} (past : 8 * buf.size ≤ bit) : get_bit buf bit = false := by
  rw [get_bit_eq, buf.beyond _ (by omega), bitOf_zero]
/-- Two bitmaps of one size with the same bits are the same bytes. -/
theorem bytes_eq_of_get_bit {a b : Bytes} (size : a.size = b.size)
    (same : ∀ bit, bit < 8 * a.size → get_bit a bit = get_bit b bit) : a = b := by
  apply Bytes.ext_inside size
  intro i inside
  apply eq_of_bitOf
  intro j small
  have here := same (i * 8 + j) (by omega)
  rw [get_bit_eq, get_bit_eq] at here
  have quotient : (i * 8 + j) / 8 = i := by omega
  have remainder : (i * 8 + j) % 8 = j := by omega
  rwa [quotient, remainder] at here

/-! ### Setting and clearing -/

section
variable {ε : Type}

theorem set_bit_ok (buf : Bytes) (bit : Nat) (inside : bit < 8 * buf.size) :
    ∃ buf', (set_bit buf bit : Res ε Bytes) = .ok buf' ∧ buf'.size = buf.size ∧
      ∀ j, get_bit buf' j = (get_bit buf j || decide (j = bit)) := by
  have small : bit / 8 < buf.size := by omega
  refine ⟨_, by simp only [set_bit, Bytes.index_ok small, res_bind_ok, Bytes.setIndex_ok small]; rfl,
    Bytes.size_patch _ _ _ (by simp; omega), fun j => ?_⟩
  rw [get_bit_eq, get_bit_eq]
  by_cases same : j / 8 = bit / 8
  · rw [same, Bytes.byte_patch, if_pos (by simp)]
    simp only [Nat.sub_self, Bytes.byte_ofList, List.getD_cons_zero, bitOf_or,
      bitOf_mask _ (Nat.mod_lt bit (show 0 < 8 by decide))]
    congr 1
    exact decide_eq_decide.mpr ⟨fun h => by omega, fun h => by rw [h]⟩
  · rw [Bytes.byte_patch_outside _ (by simp; omega)]
    have other : j ≠ bit := fun h => same (by rw [h])
    simp [other]

theorem clear_bit_ok (buf : Bytes) (bit : Nat) (inside : bit < 8 * buf.size) :
    ∃ buf', (clear_bit buf bit : Res ε Bytes) = .ok buf' ∧ buf'.size = buf.size ∧
      ∀ j, get_bit buf' j = (get_bit buf j && !decide (j = bit)) := by
  have small : bit / 8 < buf.size := by omega
  refine ⟨_, by simp only [clear_bit, Bytes.index_ok small, res_bind_ok, Bytes.setIndex_ok small]; rfl,
    Bytes.size_patch _ _ _ (by simp; omega), fun j => ?_⟩
  rw [get_bit_eq, get_bit_eq]
  by_cases same : j / 8 = bit / 8
  · rw [same, Bytes.byte_patch, if_pos (by simp)]
    simp only [Nat.sub_self, Bytes.byte_ofList, List.getD_cons_zero, bitOf_and,
      bitOf_not _ (Nat.mod_lt j (show 0 < 8 by decide)), bitOf_mask _ (Nat.mod_lt bit (show 0 < 8 by decide))]
    congr 2
    exact decide_eq_decide.mpr ⟨fun h => by omega, fun h => by rw [h]⟩
  · rw [Bytes.byte_patch_outside _ (by simp; omega)]
    have other : j ≠ bit := fun h => same (by rw [h])
    simp [other]

theorem set_bit_panic {buf : Bytes} {bit : Nat} (past : 8 * buf.size ≤ bit) :
    (set_bit buf bit : Res ε Bytes) = .error .panic := by
  have outside : ¬ bit / 8 < buf.size := by omega
  simp only [set_bit, Bytes.index, if_neg outside, res_bind_error]
theorem clear_bit_panic {buf : Bytes} {bit : Nat} (past : 8 * buf.size ≤ bit) :
    (clear_bit buf bit : Res ε Bytes) = .error .panic := by
  have outside : ¬ bit / 8 < buf.size := by omega
  simp only [clear_bit, Bytes.index, if_neg outside, res_bind_error]

/-- Setting a run inside the bitmap sets exactly its bits. -/
theorem set_run_ok (buf : Bytes) (start count : Nat) (inside : start + count ≤ 8 * buf.size) :
    ∃ buf', (set_run buf start count : Res ε Bytes) = .ok buf' ∧ buf'.size = buf.size ∧
      ∀ j, get_bit buf' j = (get_bit buf j || decide (start ≤ j ∧ j < start + count)) := by
  induction count with
  | zero =>
    refine ⟨buf, rfl, rfl, fun j => ?_⟩
    rw [decide_eq_false (show ¬ (start ≤ j ∧ j < start + 0) by omega)]
    simp
  | succ count ih =>
    obtain ⟨mid, midRun, midSize, midBits⟩ := ih (by omega)
    obtain ⟨last, lastRun, lastSize, lastBits⟩ := set_bit_ok (ε := ε) mid (start + count) (by omega)
    refine ⟨last, by rw [set_run, midRun, res_bind_ok, lastRun], by omega, fun j => ?_⟩
    rw [lastBits, midBits, Bool.or_assoc]
    congr 1
    rw [← Bool.decide_or]
    exact decide_eq_decide.mpr (by omega)

/-- Clearing a run inside the bitmap clears exactly its bits. -/
theorem clear_run_ok (buf : Bytes) (start count : Nat) (inside : start + count ≤ 8 * buf.size) :
    ∃ buf', (clear_run buf start count : Res ε Bytes) = .ok buf' ∧ buf'.size = buf.size ∧
      ∀ j, get_bit buf' j = (get_bit buf j && !decide (start ≤ j ∧ j < start + count)) := by
  induction count with
  | zero =>
    refine ⟨buf, rfl, rfl, fun j => ?_⟩
    rw [decide_eq_false (show ¬ (start ≤ j ∧ j < start + 0) by omega)]
    simp
  | succ count ih =>
    obtain ⟨mid, midRun, midSize, midBits⟩ := ih (by omega)
    obtain ⟨last, lastRun, lastSize, lastBits⟩ := clear_bit_ok (ε := ε) mid (start + count) (by omega)
    refine ⟨last, by rw [clear_run, midRun, res_bind_ok, lastRun], by omega, fun j => ?_⟩
    rw [lastBits, midBits, Bool.and_assoc, ← Bool.not_or]
    congr 2
    rw [← Bool.decide_or]
    exact decide_eq_decide.mpr (by omega)

/-- A run that ends past the bitmap cannot be set. -/
theorem set_run_panic (buf : Bytes) (start : Nat) {count : Nat} (some : 0 < count) (past : 8 * buf.size < start + count) :
    (set_run buf start count : Res ε Bytes) = .error .panic := by
  induction count with
  | zero => omega
  | succ count ih =>
    by_cases earlier : 0 < count ∧ 8 * buf.size < start + count
    · rw [set_run, ih earlier.1 earlier.2, res_bind_error]
    · by_cases short : start + count ≤ 8 * buf.size
      · obtain ⟨mid, midRun, midSize, -⟩ := set_run_ok (ε := ε) buf start count short
        rw [set_run, midRun, res_bind_ok, set_bit_panic (by omega)]
      · have zero : count = 0 := by omega
        subst zero
        rw [set_run, set_run, res_bind_ok, set_bit_panic (by omega)]

/-- Nor can it be cleared. -/
theorem clear_run_panic (buf : Bytes) (start : Nat) {count : Nat} (some : 0 < count) (past : 8 * buf.size < start + count) :
    (clear_run buf start count : Res ε Bytes) = .error .panic := by
  induction count with
  | zero => omega
  | succ count ih =>
    by_cases earlier : 0 < count ∧ 8 * buf.size < start + count
    · rw [clear_run, ih earlier.1 earlier.2, res_bind_error]
    · by_cases short : start + count ≤ 8 * buf.size
      · obtain ⟨mid, midRun, midSize, -⟩ := clear_run_ok (ε := ε) buf start count short
        rw [clear_run, midRun, res_bind_ok, clear_bit_panic (by omega)]
      · have zero : count = 0 := by omega
        subst zero
        rw [clear_run, clear_run, res_bind_ok, clear_bit_panic (by omega)]
end

/-! ### The searches -/

/-- What is known of the bits below a bound that a search has passed. -/
def AllSet (buf : Bytes) (bound : Nat) : Prop := ∀ j < bound, get_bit buf j = true

/-- What a search for the first clear bit below `limit` returns. -/
def FirstZero (buf : Bytes) (limit : Nat) : Option Nat → Prop
  | some i => i < limit ∧ get_bit buf i = false ∧ AllSet buf i
  | none => AllSet buf limit

theorem allSet_succ {buf : Bytes} {bound : Nat} (below : AllSet buf bound) (here : get_bit buf bound = true) :
    AllSet buf (bound + 1) := by
  intro j lt
  by_cases last : j = bound
  · rw [last, here]
  · exact below j (by omega)

/-- One byte of the search, the bits before `bit_in_byte` already passed. -/
theorem scan_byte_correct (buf : Bytes) (max_bit byte_idx : Nat) (inside : byte_idx < buf.size) :
    ∀ bit_in_byte, bit_in_byte ≤ 8 → AllSet buf (byte_idx * 8 + bit_in_byte) →
      match scan_byte (buf.byte byte_idx) byte_idx max_bit bit_in_byte with
      | some found => FirstZero buf (min max_bit (8 * buf.size)) found
      | none => AllSet buf (byte_idx * 8 + 8) := by
  intro bit_in_byte
  induction bit_in_byte using scan_byte.induct (buf.byte byte_idx) byte_idx max_bit with
  | case1 bit_in_byte small bit limit =>
    intro _ below
    rw [scan_byte, if_pos small]
    simp only [show max_bit ≤ byte_idx * 8 + bit_in_byte from limit, ↓reduceIte]
    intro j lt
    exact below j (by simp only [bit] at limit; omega)
  | case2 bit_in_byte small bit limit clear =>
    intro _ below
    have here : get_bit buf (byte_idx * 8 + bit_in_byte) = false := by
      rw [get_bit_eq, show (byte_idx * 8 + bit_in_byte) / 8 = byte_idx by omega,
        show (byte_idx * 8 + bit_in_byte) % 8 = bit_in_byte by omega, ← mask_test _ small]
      simpa using clear
    rw [scan_byte, if_pos small]
    simp only [show ¬ max_bit ≤ byte_idx * 8 + bit_in_byte from limit, clear, ↓reduceIte]
    exact ⟨by simp only [bit] at limit; omega, here, below⟩
  | case3 bit_in_byte small bit limit clear ih =>
    intro _ below
    have here : get_bit buf (byte_idx * 8 + bit_in_byte) = true := by
      rw [get_bit_eq, show (byte_idx * 8 + bit_in_byte) / 8 = byte_idx by omega,
        show (byte_idx * 8 + bit_in_byte) % 8 = bit_in_byte by omega, ← mask_test _ small]
      simpa using clear
    rw [scan_byte, if_pos small]
    simp only [show ¬ max_bit ≤ byte_idx * 8 + bit_in_byte from limit, clear, ↓reduceIte, Bool.false_eq_true]
    exact ih (by omega) (allSet_succ below here)
  | case4 bit_in_byte large =>
    intro le below
    rw [scan_byte, if_neg large]
    have last : bit_in_byte = 8 := by omega
    subst last
    exact below

theorem scan_bytes_correct {buf : Bytes} {max_bit : Nat} :
    ∀ byte_idx, byte_idx ≤ min ((max_bit + 7) / 8) buf.size → AllSet buf (byte_idx * 8) →
      FirstZero buf (min max_bit (8 * buf.size))
        (scan_bytes buf max_bit (min ((max_bit + 7) / 8) buf.size) byte_idx) := by
  intro byte_idx
  induction byte_idx using scan_bytes.induct buf max_bit (min ((max_bit + 7) / 8) buf.size) with
  | case1 byte_idx inside byte full ih =>
    intro _ below
    rw [scan_bytes, if_pos inside]
    simp only [show (buf.byte byte_idx == 0xFF) = true from full, ↓reduceIte]
    refine ih (by omega) fun j lt => ?_
    by_cases earlier : j < byte_idx * 8
    · exact below j earlier
    · have all : buf.byte byte_idx = 255 := by simpa using full
      rw [get_bit_eq, show j / 8 = byte_idx by omega, all, bitOf_full (by omega)]
  | case2 byte_idx inside byte full found scanned =>
    intro _ below
    have one := scan_byte_correct buf max_bit byte_idx (by omega) 0 (by omega) below
    rw [show scan_byte (buf.byte byte_idx) byte_idx max_bit 0 = some found from scanned] at one
    rw [scan_bytes, if_pos inside]
    simp only [show ¬ (buf.byte byte_idx == 0xFF) = true from full,
      show scan_byte (buf.byte byte_idx) byte_idx max_bit 0 = some found from scanned]
    exact one
  | case3 byte_idx inside byte full scanned ih =>
    intro _ below
    have one := scan_byte_correct buf max_bit byte_idx (by omega) 0 (by omega) below
    rw [show scan_byte (buf.byte byte_idx) byte_idx max_bit 0 = none from scanned] at one
    rw [scan_bytes, if_pos inside]
    simp only [show ¬ (buf.byte byte_idx == 0xFF) = true from full,
      show scan_byte (buf.byte byte_idx) byte_idx max_bit 0 = none from scanned]
    refine ih (by omega) ?_
    rw [Nat.succ_mul]
    exact one
  | case4 byte_idx outside =>
    intro le below
    rw [scan_bytes, if_neg outside]
    intro j lt
    exact below j (by omega)

/-- The search for a clear bit returns the first one below its limit. -/
theorem find_first_zero_correct (buf : Bytes) (max_bit : Nat) :
    FirstZero buf (min max_bit (8 * buf.size)) (find_first_zero buf max_bit) :=
  scan_bytes_correct 0 (by omega) (fun j lt => by omega)

/-- The `n` bits from `s` on are clear. -/
def ClearRun (buf : Bytes) (s n : Nat) : Prop := ∀ j, s ≤ j → j < s + n → get_bit buf j = false

/-- What a search for the first run of `n` clear bits below `limit` returns. -/
def FirstRun (buf : Bytes) (n limit : Nat) : Option Nat → Prop
  | some s => s + n ≤ limit ∧ ClearRun buf s n ∧ ∀ t < s, ¬ ClearRun buf t n
  | none => ∀ t, t + n ≤ limit → ¬ ClearRun buf t n

/-- The invariant of the run search at `bit`: the current run starts after a
    set bit or at the beginning, and no run of `n` clear bits starts before it. -/
structure RunInvariant (buf : Bytes) (n bit : Nat) (run_start : Option Nat) (run_len : Nat) : Prop where
  short : run_len < n
  within : run_len ≤ bit
  started : run_start = if run_len = 0 then none else some (bit - run_len)
  clear : ClearRun buf (bit - run_len) run_len
  earlier : ∀ t < bit - run_len, ¬ ClearRun buf t n

theorem scan_run_correct {buf : Bytes} {n max_bit : Nat} :
    ∀ bit run_start run_len, bit ≤ max_bit → RunInvariant buf n bit run_start run_len →
      FirstRun buf n max_bit (scan_run buf n max_bit bit run_start run_len) := by
  intro bit run_start run_len
  induction bit, run_start, run_len using scan_run.induct buf n max_bit with
  | case1 bit run_start run_len inside clear full =>
    intro _ inv
    have here : get_bit buf bit = false := by simpa using clear
    rw [scan_run, if_pos inside, if_pos clear]
    dsimp only
    rw [if_pos full]
    have length : run_len + 1 = n := by simpa using full
    have start : run_start.or (some bit) = some (bit - run_len) := by
      rw [inv.started]
      by_cases zero : run_len = 0 <;> simp [zero]
    rw [start]
    have within := inv.within
    refine ⟨by omega, fun j low high => ?_, inv.earlier⟩
    by_cases last : j = bit
    · rw [last, here]
    · exact inv.clear j low (by omega)
  | case2 bit run_start run_len inside clear started full ih =>
    intro _ inv
    have here : get_bit buf bit = false := by simpa using clear
    rw [scan_run, if_pos inside, if_pos clear]
    dsimp only
    rw [if_neg full]
    have length : run_len + 1 ≠ n := by simpa using full
    have short := inv.short
    have within := inv.within
    have same : bit + 1 - (run_len + 1) = bit - run_len := by omega
    refine ih (by omega) ⟨by omega, by omega, ?_, ?_, ?_⟩
    · rw [if_neg (by omega), same]
      show run_start.or (some bit) = some (bit - run_len)
      rw [inv.started]
      by_cases zero : run_len = 0 <;> simp [zero]
    · rw [same]
      intro j low high
      by_cases last : j = bit
      · rw [last, here]
      · exact inv.clear j low (by omega)
    · rw [same]
      exact inv.earlier
  | case3 bit run_start run_len inside set ih =>
    intro _ inv
    have here : get_bit buf bit = true := by simpa using set
    rw [scan_run, if_pos inside, if_neg set]
    have short := inv.short
    have within := inv.within
    refine ih (by omega) ⟨by omega, by omega, by simp, fun j low high => by omega, ?_⟩
    intro t lt all
    by_cases before : t < bit - run_len
    · exact inv.earlier t before all
    · -- A run of `n` bits from within the current run would reach the set bit.
      have reach := all bit (by omega) (by omega)
      rw [here] at reach
      cases reach
  | case4 bit run_start run_len outside =>
    intro _ inv
    rw [scan_run, if_neg outside]
    intro t fits all
    have short := inv.short
    have within := inv.within
    exact inv.earlier t (by omega) all

/-- The search for a run returns the first one that fits below its limit. -/
theorem find_first_zero_run_correct (buf : Bytes) {n : Nat} (some : 0 < n) (max_bit : Nat) :
    FirstRun buf n max_bit (find_first_zero_run buf n max_bit) := by
  rw [find_first_zero_run, if_neg (by omega)]
  exact scan_run_correct 0 none 0 (by omega)
    ⟨some, by omega, by simp, fun j low high => by omega, fun t lt => by omega⟩

end Justext4.Bitmap
