import Justext4.Display
import Justext4.Mkfs

/-!
The arguments of the commands. A mode is a number in octal digits, any zeros in
front left out first; flags come in pairs with their values, and of several
values for one flag the last one counts.
-/
namespace Justext4.Arguments
open Justext4 Justext4.Mkfs Justext4.Numerals Justext4.Display

def parse_u32 (s : Text) : Except ParseIntError UInt32 := (from_str_radix 10 4294967296 s).map .ofNat

/-- The mode of `cmd_chmod`. -/
def parse_mode (s : Text) : Except ParseIntError UInt16 :=
  let mode_str := s.dropWhile (· == ZERO)
  let mode_str := if mode_str = [] then [ZERO] else mode_str
  (from_str_radix 8 65536 mode_str).map .ofNat

/-- A flag, and what its value sets. -/
structure Flag where
  name : Text
  set : Config → Text → Except Text Config

/-- A flag whose value is a number. -/
def number_flag (name : String) (set : Config → UInt32 → Config) : Flag where
  name := text name
  set config value :=
    match parse_u32 value with
    | .ok n => .ok (set config n)
    | .error e => .error (text name ++ text " parse: " ++ parse_int_error e)

def size_blocks_flag : Flag := number_flag "--size-blocks" fun config n => { config with size_blocks := n }
def block_size_flag : Flag := number_flag "--block-size" fun config n => { config with block_size := n }
def inodes_flag : Flag := number_flag "--inodes" fun config n => { config with inodes_per_group := n }
def label_flag : Flag := ⟨text "--label", fun config value => .ok { config with volume_label := value }⟩

/-- The flags of `cmd_format` and of `cmd_build_from_tree`. -/
def format_flags : List Flag := [size_blocks_flag, block_size_flag, label_flag]
def build_flags : List Flag := [size_blocks_flag, inodes_flag, label_flag]

/-- The loop through the flags. -/
def parse_flags (known : List Flag) : Config → List Text → Except Text Config
  | config, [] => .ok config
  | config, name :: rest =>
    match known.find? (·.name == name) with
    | none => .error (text "unknown flag: " ++ name)
    | some flag =>
      match rest with
      | [] => .error (name ++ text " requires a value")
      | value :: rest =>
        match flag.set config value with
        | .ok config => parse_flags known config rest
        | .error e => .error e

/-! ### Modes -/

section
variable {s : Text} {m n : Nat} {digits : Text}

theorem map_ok {ε α β : Type} {f : α → β} {r : Except ε α} {b : β} : r.map f = .ok b ↔ ∃ a, r = .ok a ∧ f a = b := by
  cases r <;> simp [Except.map]
theorem dropWhile_zeros (s : Text) : ∃ zeros, s = List.replicate zeros ZERO ++ s.dropWhile (· == ZERO) := by
  induction s with
  | nil => exact ⟨0, rfl⟩
  | cons c s ih =>
    by_cases zero : c = ZERO
    · obtain ⟨zeros, same⟩ := ih
      refine ⟨zeros + 1, ?_⟩
      rw [List.dropWhile_cons_of_pos (by simp [zero]), List.replicate_succ, List.cons_append, ← same, zero]
    · exact ⟨0, by rw [List.dropWhile_cons_of_neg (by simp [zero])]; rfl⟩
theorem dropWhile_replicate (zeros : Nat) (s : Text) :
    (List.replicate zeros ZERO ++ s).dropWhile (· == ZERO) = s.dropWhile (· == ZERO) := by
  induction zeros with
  | zero => rfl
  | succ zeros ih => rw [List.replicate_succ, List.cons_append, List.dropWhile_cons_of_pos (by simp), ih]

/-- A mode is given by zeros alone, or by octal digits after zeros and a sign or not. -/
theorem parse_mode_ok {mode : UInt16} : parse_mode s = .ok mode ↔ ∃ zeros sign digits,
    s = List.replicate zeros ZERO ++ sign ++ digits ∧ (sign = [] ∨ sign = [PLUS] ∧ digits ≠ []) ∧ Digits 8 digits ∧
      value 8 digits = mode.toNat := by
  have word : ∀ {n : Nat}, n < 65536 → (UInt16.ofNat n = mode ↔ n = mode.toNat) := fun {n} small => by
    rw [← UInt16.toNat_inj, UInt16.toNat_ofNat']
    omega
  have read : ∀ {t : Text}, (from_str_radix 8 65536 t).map UInt16.ofNat = .ok mode ↔
      ∃ digits, digits ≠ [] ∧ (t = digits ∨ t = PLUS :: digits) ∧ Digits 8 digits ∧ value 8 digits = mode.toNat := by
    intro t
    rw [map_ok]
    constructor
    · rintro ⟨n, parsed, same⟩
      obtain ⟨digits, given, shape, all, stands, small⟩ := (from_str_radix_ok (by decide) (by decide)).mp parsed
      exact ⟨digits, given, shape, all, stands.trans ((word small).mp same)⟩
    · rintro ⟨digits, given, shape, all, stands⟩
      exact ⟨mode.toNat, (from_str_radix_ok (by decide) (by decide)).mpr
        ⟨digits, given, shape, all, stands, mode.toNat_lt⟩, (word mode.toNat_lt).mpr rfl⟩
  obtain ⟨zeros, split⟩ := dropWhile_zeros s
  rw [parse_mode, read]
  constructor
  · rintro ⟨digits, given, shape, all, stands⟩
    by_cases none : s.dropWhile (· == ZERO) = []
    · simp only [none, ↓reduceIte] at shape
      rcases shape with rfl | plus
      · exact ⟨zeros, [], [], by rw [none] at split; simpa using split, .inl rfl, List.forall_mem_nil _, stands⟩
      · exact absurd (List.cons.inj plus).1 (by decide)
    · simp only [none, ↓reduceIte] at shape
      rcases shape with same | same
      · exact ⟨zeros, [], digits, by rw [List.append_nil, ← same]; exact split, .inl rfl, all, stands⟩
      · exact ⟨zeros, [PLUS], digits, by rw [List.append_assoc, List.singleton_append, ← same]; exact split,
          .inr ⟨rfl, given⟩, all, stands⟩
  · rintro ⟨zeros', sign, digits, rfl, shape, all, stands⟩
    rw [List.append_assoc, dropWhile_replicate]
    rcases shape with rfl | ⟨rfl, given⟩
    · rw [List.nil_append]
      obtain ⟨more, apart⟩ := dropWhile_zeros digits
      have same : value 8 (digits.dropWhile (· == ZERO)) = mode.toNat := by
        rw [← stands]
        conv_rhs => rw [apart]
        rw [value_zeros]
      by_cases none : digits.dropWhile (· == ZERO) = []
      · rw [none] at same
        refine ⟨[ZERO], List.cons_ne_nil _ _, .inl (if_pos none), ?_, same⟩
        simp [Digits, ZERO]
      · refine ⟨_, none, .inl (if_neg none), ?_, same⟩
        rw [apart, digits_zeros (by decide)] at all
        exact all
    · have kept : ([PLUS] ++ digits).dropWhile (· == ZERO) = PLUS :: digits :=
        List.dropWhile_cons_of_neg (by decide)
      rw [kept, if_neg (List.cons_ne_nil _ _)]
      exact ⟨digits, given, .inr rfl, all, stands⟩
end

example : parse_mode (text "0755") = .ok 0o755 := by decide
example : parse_mode (text "0+7") = .ok 7 := by decide

/-! ### Flags -/

/-- Arguments that are pairs. -/
def spread (pairs : List (Text × Text)) : List Text := pairs.flatMap fun p => [p.1, p.2]

/-- The value that is given last for a flag. -/
def last_value (name : String) (pairs : List (Text × Text)) : Option Text :=
  (pairs.filter (·.1 == text name)).getLast?.map (·.2)
def last_number (name : String) (pairs : List (Text × Text)) (n : UInt32) : UInt32 :=
  ((last_value name pairs).bind fun value => (parse_u32 value).toOption).getD n
/-- The configuration with the values that are given last. -/
def settle (config : Config) (pairs : List (Text × Text)) : Config where
  block_size := last_number "--block-size" pairs config.block_size
  size_blocks := last_number "--size-blocks" pairs config.size_blocks
  inodes_per_group := last_number "--inodes" pairs config.inodes_per_group
  volume_label := (last_value "--label" pairs).getD config.volume_label

/-- A pair is a flag that is known, and a value that it takes. -/
def Given (known : List Flag) (p : Text × Text) : Prop :=
  p.1 ∈ known.map (·.name) ∧ (p.1 = text "--label" ∨ ∃ n, parse_u32 p.2 = .ok n)

section
variable {known : List Flag} {config config' : Config} {p : Text × Text} {pairs : List (Text × Text)} {args : List Text}

theorem last_value_cons (name : String) :
    last_value name (p :: pairs) = (last_value name pairs).or (last_value name [p]) := by
  by_cases here : (p.1 == text name) = true
  · simp only [last_value, List.filter_cons, here, ↓reduceIte, List.getLast?_cons, List.filter_nil]
    cases (pairs.filter (·.1 == text name)).getLast? <;> rfl
  · simp only [last_value, List.filter_cons, here, Bool.false_eq_true, ↓reduceIte, List.filter_nil]
    cases (pairs.filter (·.1 == text name)).getLast? <;> rfl
theorem last_number_cons (name : String) {n : UInt32}
    (read : ∀ q ∈ pairs, q.1 = text name → ∃ n, parse_u32 q.2 = .ok n) :
    last_number name (p :: pairs) n = last_number name pairs (last_number name [p] n) := by
  rw [last_number, last_number, last_value_cons]
  cases value : last_value name pairs with
  | none => rfl
  | some value' =>
    rw [last_value, Option.map_eq_some_iff] at value
    obtain ⟨q, last, rfl⟩ := value
    have member := List.mem_filter.mp (List.mem_of_getLast? last)
    obtain ⟨m, parsed⟩ := read q member.1 (by simpa using member.2)
    simp only [Option.some_or, Option.bind_some, parsed]
    rfl
theorem settle_cons (given : ∀ q ∈ pairs, Given known q) :
    settle config (p :: pairs) = settle (settle config [p]) pairs := by
  have read : ∀ name : String, text name ≠ text "--label" → ∀ q ∈ pairs, q.1 = text name → ∃ n, parse_u32 q.2 = .ok n := by
    intro name other q member same
    rcases (given q member).2 with label | number
    · exact absurd (same.symm.trans label) other
    · exact number
  simp only [settle]
  rw [last_number_cons "--block-size" (read _ (by decide)), last_number_cons "--size-blocks" (read _ (by decide)),
    last_number_cons "--inodes" (read _ (by decide)), last_value_cons]
  cases last_value "--label" pairs <;> rfl

theorem last_value_single (name name' : String) (value : Text) :
    last_value name [(text name', value)] = if text name' = text name then some value else none := by
  by_cases same : text name' = text name <;> simp [last_value, same]
theorem number_flag_set {name : String} {set : Config → UInt32 → Config} {value : Text} (settles : ∀ n, parse_u32 value = .ok n →
    set config n = settle config [(text name, value)]) (other : text name ≠ text "--label") :
    (number_flag name set).set config value = .ok config' ↔
      (text name = text "--label" ∨ ∃ n, parse_u32 value = .ok n) ∧ config' = settle config [(text name, value)] := by
  simp only [number_flag]
  cases parsed : parse_u32 value with
  | ok n => simp [settles n parsed, eq_comm]
  | error e => simp [other]
/-- The flags of both commands set what they name. -/
theorem set_settle (commands : known = format_flags ∨ known = build_flags) {flag : Flag} (member : flag ∈ known) (value : Text) :
    flag.set config value = .ok config' ↔
      (flag.name = text "--label" ∨ ∃ n, parse_u32 value = .ok n) ∧ config' = settle config [(flag.name, value)] := by
  have one : flag = size_blocks_flag ∨ flag = block_size_flag ∨ flag = inodes_flag ∨ flag = label_flag := by
    rcases commands with rfl | rfl
    · simp only [format_flags, List.mem_cons, List.not_mem_nil, or_false] at member
      tauto
    · simp only [build_flags, List.mem_cons, List.not_mem_nil, or_false] at member
      tauto
  rcases one with rfl | rfl | rfl | rfl
  · refine number_flag_set (fun n parsed => ?_) (by decide)
    simp +decide [settle, last_number, last_value_single, parsed, Except.toOption]
  · refine number_flag_set (fun n parsed => ?_) (by decide)
    simp +decide [settle, last_number, last_value_single, parsed, Except.toOption]
  · refine number_flag_set (fun n parsed => ?_) (by decide)
    simp +decide [settle, last_number, last_value_single, parsed, Except.toOption]
  · simp +decide [label_flag, settle, last_number, last_value_single, eq_comm]
theorem find_known {name : Text} : (∃ flag, known.find? (·.name == name) = some flag) ↔ name ∈ known.map (·.name) := by
  rw [← Option.isSome_iff_exists, List.find?_isSome, List.mem_map]
  simp only [beq_iff_eq]

/-- What the loop through the flags accepts are pairs of a flag and its value;
    of the values for one flag the last one counts. -/
theorem parse_flags_ok (commands : known = format_flags ∨ known = build_flags) :
    parse_flags known config args = .ok config' ↔
      ∃ pairs, args = spread pairs ∧ (∀ p ∈ pairs, Given known p) ∧ config' = settle config pairs := by
  constructor
  · intro parsed
    induction config, args using parse_flags.induct known with
    | case1 config =>
      cases parsed
      exact ⟨[], rfl, List.forall_mem_nil _, rfl⟩
    | case2 config name rest none =>
      rw [parse_flags, none] at parsed
      cases parsed
    | case3 config name flag found =>
      rw [parse_flags, found] at parsed
      cases parsed
    | case4 config name flag found value rest config₁ set ih =>
      rw [parse_flags, found] at parsed
      dsimp only at parsed
      rw [set] at parsed
      obtain ⟨pairs, rfl, given, rfl⟩ := ih parsed
      have same : flag.name = name := by simpa using List.find?_some found
      obtain ⟨takes, rfl⟩ := (set_settle commands (List.mem_of_find?_eq_some found) value).mp set
      rw [same] at takes ⊢
      refine ⟨(name, value) :: pairs, rfl, fun p member => ?_, (settle_cons given).symm⟩
      rcases List.mem_cons.mp member with rfl | later
      · exact ⟨find_known.mp ⟨flag, found⟩, takes⟩
      · exact given p later
    | case5 config name flag found value rest e set =>
      rw [parse_flags, found] at parsed
      dsimp only at parsed
      rw [set] at parsed
      cases parsed
  · rintro ⟨pairs, rfl, given, rfl⟩
    induction pairs generalizing config with
    | nil => rfl
    | cons p pairs ih =>
      obtain ⟨known_name, takes⟩ := given p (List.mem_cons_self ..)
      have later : ∀ q ∈ pairs, Given known q := fun q member => given q (List.mem_cons_of_mem _ member)
      obtain ⟨flag, found⟩ := find_known.mpr known_name
      have same : flag.name = p.1 := by simpa using List.find?_some found
      have set : flag.set config p.2 = .ok (settle config [(flag.name, p.2)]) :=
        (set_settle commands (List.mem_of_find?_eq_some found) p.2).mpr ⟨same ▸ takes, rfl⟩
      rw [same] at set
      show parse_flags known config (p.1 :: p.2 :: spread pairs) = _
      rw [parse_flags, found]
      dsimp only
      rw [set, settle_cons later]
      exact ih later
end
/-- Of two labels the last one counts, after a number for the blocks; a flag that
    `build-from-tree` does not know is refused. -/
theorem parse_flags_label :
    parse_flags format_flags Config.default [text "--label", text "x", text "--size-blocks", text "64", text "--label",
      text "y"] = .ok { Config.default with size_blocks := 64, volume_label := text "y" } ∧
    ∀ config, parse_flags build_flags Config.default [text "--quiet", text "x"] ≠ .ok config := by
  constructor
  · refine (parse_flags_ok (.inl rfl)).mpr
      ⟨[(text "--label", text "x"), (text "--size-blocks", text "64"), (text "--label", text "y")], rfl, ?_, by decide⟩
    simp only [List.forall_mem_cons, List.not_mem_nil, false_imp_iff, implies_true, and_true]
    exact ⟨⟨by decide, .inl rfl⟩, ⟨by decide, .inr ⟨64, by decide⟩⟩, by decide, .inl rfl⟩
  · intro config parsed
    obtain ⟨pairs, same, given, -⟩ := (parse_flags_ok (.inr rfl)).mp parsed
    cases pairs with
    | nil => cases same
    | cons p pairs =>
      obtain ⟨known, -⟩ := given p (List.mem_cons_self ..)
      have flag : text "--quiet" = p.1 := (List.cons.inj same).1
      rw [← flag] at known
      exact absurd known (by decide)

end Justext4.Arguments
