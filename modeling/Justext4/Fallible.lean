/-!
Fallible programs over a state. A call ends with a value, with a typed error
or with a panic; an error keeps the state that the call has reached, a panic
ends the run. `Res` is for the calls that only read and `Prog` for the calls
that also change the state, with one rule for each way of composing them.
-/
namespace Justext4.Fallible
universe u

/-- What stops a call: a typed error or a panic. -/
inductive Fault (ε : Type) where
  | err (e : ε)
  | panic
  deriving DecidableEq

/-- The result of a call that reads. -/
abbrev Res (ε : Type) := Except (Fault ε)
instance {ε α : Type} [DecidableEq ε] [DecidableEq α] : DecidableEq (Res ε α)
  | .ok a, .ok b => decidable_of_iff (a = b) (by simp)
  | .error e, .error f => decidable_of_iff (e = f) (by simp)
  | .ok _, .error _ => isFalse (by simp)
  | .error _, .ok _ => isFalse (by simp)

/-- Go on when the condition holds, and stop with the error otherwise. -/
def ensure {ε : Type} (c : Bool) (e : ε) : Res ε Unit := if c then .ok () else .error (.err e)
/-- Go on when the condition holds, and panic otherwise. -/
def orPanic {ε : Type} (c : Bool) : Res ε Unit := if c then .ok () else .error .panic
/-- The value of an option, or the error. -/
def okOr {ε α : Type} (o : Option α) (e : ε) : Res ε α :=
  match o with
  | some a => .ok a
  | none => .error (.err e)
/-- The conversion of errors that crosses a layer. -/
def liftErr {ε δ α : Type} (f : ε → δ) : Res ε α → Res δ α
  | .ok a => .ok a
  | .error (.err e) => .error (.err (f e))
  | .error .panic => .error .panic
/-- The typed error of a result as a value; a panic stays one. -/
def catchErr {ε α : Type} : Res ε α → Res ε (Except ε α)
  | .ok a => .ok (.ok a)
  | .error (.err e) => .ok (.error e)
  | .error .panic => .error .panic

@[simp] theorem ensure_true {ε : Type} (e : ε) : ensure true e = .ok () := rfl
@[simp] theorem ensure_false {ε : Type} (e : ε) : ensure false e = .error (.err e) := rfl
@[simp] theorem orPanic_true {ε : Type} : (orPanic true : Res ε Unit) = .ok () := rfl
@[simp] theorem orPanic_false {ε : Type} : (orPanic false : Res ε Unit) = .error .panic := rfl
@[simp] theorem okOr_some {ε α : Type} (a : α) (e : ε) : okOr (some a) e = .ok a := rfl
@[simp] theorem okOr_none {ε α : Type} (e : ε) : okOr (none : Option α) e = .error (.err e) := rfl
@[simp] theorem liftErr_ok {ε δ α : Type} (f : ε → δ) (a : α) : liftErr f (.ok a) = .ok a := rfl
@[simp] theorem liftErr_err {ε δ α : Type} (f : ε → δ) (e : ε) :
    liftErr f (.error (.err e) : Res ε α) = .error (.err (f e)) := rfl
@[simp] theorem liftErr_panic {ε δ α : Type} (f : ε → δ) :
    liftErr f (.error .panic : Res ε α) = .error .panic := rfl
@[simp] theorem catchErr_ok {ε α : Type} (a : α) : catchErr (.ok a : Res ε α) = .ok (.ok a) := rfl
@[simp] theorem catchErr_err {ε α : Type} (e : ε) :
    catchErr (.error (.err e) : Res ε α) = .ok (.error e) := rfl
@[simp] theorem catchErr_panic {ε α : Type} :
    catchErr (.error .panic : Res ε α) = .error .panic := rfl
@[simp] theorem res_bind_ok {ε α β : Type} (a : α) (f : α → Res ε β) : (Except.ok a >>= f) = f a := rfl
@[simp] theorem res_bind_error {ε α β : Type} (e : Fault ε) (f : α → Res ε β) :
    (Except.error e >>= f : Res ε β) = .error e := rfl

/-- The values of `f` at `i`, `i + 1`, ..., `n` of them, up to the first failure. -/
def collect {ε α : Type} (f : Nat → Res ε α) (i : Nat) : Nat → Res ε (List α)
  | 0 => .ok []
  | n + 1 => do
    let a ← f i
    let rest ← collect f (i + 1) n
    .ok (a :: rest)

theorem collect_ok {ε α : Type} {f : Nat → Res ε α} {g : Nat → α} {i n : Nat}
    (each : ∀ j, i ≤ j → j < i + n → f j = .ok (g j)) : collect f i n = .ok ((List.range' i n).map g) := by
  induction n generalizing i with
  | zero => rfl
  | succ n ih =>
    rw [collect, each i (by omega) (by omega), res_bind_ok,
      ih (fun j low high => each j (by omega) (by omega)), res_bind_ok]
    rfl

/-- Every value is there when they all are. -/
theorem collect_each {ε α : Type} {f : Nat → Res ε α} {i n : Nat} {as : List α} (collected : collect f i n = .ok as)
    (j : Nat) (low : i ≤ j) (high : j < i + n) : ∃ a, f j = .ok a := by
  induction n generalizing i as with
  | zero => omega
  | succ n ih =>
    rw [collect] at collected
    cases first : f i with
    | error fault => rw [first] at collected; cases collected
    | ok a =>
      rw [first, res_bind_ok] at collected
      cases later : collect f (i + 1) n with
      | error fault => rw [later] at collected; cases collected
      | ok rest =>
        rcases Nat.lt_or_eq_of_le low with past | same
        · exact ih later past (by omega)
        · exact ⟨a, same ▸ first⟩

/-- The first values are those of any function that agrees there. -/
theorem collect_take {ε α : Type} {f f' : Nat → Res ε α} {i n m : Nat} {as : List α} (collected : collect f i n = .ok as)
    (fewer : m ≤ n) (agree : ∀ j, i ≤ j → j < i + m → f' j = f j) : collect f' i m = .ok (as.take m) := by
  induction m generalizing i n as with
  | zero => simp [collect]
  | succ m ih =>
    obtain ⟨n, rfl⟩ : ∃ k, n = k + 1 := ⟨n - 1, by omega⟩
    rw [collect] at collected
    cases first : f i with
    | error fault => rw [first] at collected; cases collected
    | ok a =>
      rw [first, res_bind_ok] at collected
      cases later : collect f (i + 1) n with
      | error fault => rw [later] at collected; cases collected
      | ok rest =>
        rw [later, res_bind_ok] at collected
        cases collected
        rw [collect, agree i (Nat.le_refl i) (by omega), first, res_bind_ok,
          ih later (by omega) fun j low high => agree j (by omega) (by omega), res_bind_ok, List.take_succ_cons]

/-- Each value of the list is the one of its index. -/
theorem collect_entry {ε α : Type} {f : Nat → Res ε α} {i n : Nat} {as : List α} (collected : collect f i n = .ok as)
    {j : Nat} {a : α} (found : as[j]? = some a) : j < n ∧ f (i + j) = .ok a := by
  induction n generalizing i j as with
  | zero =>
    cases collected
    cases found
  | succ n ih =>
    rw [collect] at collected
    cases first : f i with
    | error fault => rw [first] at collected; cases collected
    | ok b =>
      rw [first, res_bind_ok] at collected
      cases later : collect f (i + 1) n with
      | error fault => rw [later] at collected; cases collected
      | ok rest =>
        rw [later, res_bind_ok] at collected
        cases collected
        cases j with
        | zero =>
          cases found
          exact ⟨Nat.succ_pos n, first⟩
        | succ j =>
          obtain ⟨inside, value⟩ := ih later found
          rw [Nat.add_assoc, Nat.add_comm 1 j] at value
          exact ⟨Nat.succ_lt_succ inside, value⟩

theorem ensure_eq_ok {ε : Type} {c : Bool} {e : ε} {u : Unit} : ensure c e = .ok u ↔ c = true := by
  cases c <;> simp
theorem orPanic_eq_ok {ε : Type} {c : Bool} {u : Unit} : (orPanic c : Res ε Unit) = .ok u ↔ c = true := by
  cases c <;> simp
theorem liftErr_eq_ok {ε δ α : Type} {f : ε → δ} {r : Res ε α} {a : α} : liftErr f r = .ok a ↔ r = .ok a := by
  cases r with
  | ok b => simp
  | error fault => cases fault <;> simp
theorem ensure_of {ε : Type} {c : Prop} [Decidable c] (holds : c) (e : ε) : ensure (decide c) e = .ok () := by
  rw [decide_eq_true holds, ensure_true]
theorem ensure_not {ε : Type} {c : Prop} [Decidable c] (fails : ¬ c) (e : ε) :
    ensure (decide c) e = .error (.err e) := by
  rw [decide_eq_false fails, ensure_false]
theorem ensure_eq_err {ε : Type} {c : Bool} {e : ε} {x : Fault ε} :
    ensure c e = .error x ↔ c = false ∧ x = .err e := by
  cases c <;> simp [eq_comm]

/-- A composed reading call returns exactly when both parts do. -/
theorem res_bind_eq_ok {ε α β : Type} {x : Res ε α} {f : α → Res ε β} {b : β} :
    (x >>= f) = .ok b ↔ ∃ a, x = .ok a ∧ f a = .ok b := by
  cases x <;> simp
/-- A composed reading call stops where its first part or its second part stops. -/
theorem res_bind_eq_error {ε α β : Type} {x : Res ε α} {f : α → Res ε β} {e : Fault ε} :
    (x >>= f) = .error e ↔ x = .error e ∨ ∃ a, x = .ok a ∧ f a = .error e := by
  cases x <;> simp

/-! ### Calls that do not panic -/

/-- The call ends with a value or with a typed error. -/
def NoPanic {ε α : Type} (r : Res ε α) : Prop := r ≠ .error .panic

section
variable {ε δ α β : Type}

@[simp] theorem noPanic_ok (a : α) : NoPanic (.ok a : Res ε α) := by simp [NoPanic]
@[simp] theorem noPanic_err (e : ε) : NoPanic (.error (.err e) : Res ε α) := by simp [NoPanic]
@[simp] theorem noPanic_ensure (c : Bool) (e : ε) : NoPanic (ensure c e) := by cases c <;> simp
@[simp] theorem noPanic_okOr (o : Option α) (e : ε) : NoPanic (okOr o e) := by cases o <;> simp
theorem noPanic_liftErr (f : ε → δ) {r : Res ε α} : NoPanic (liftErr f r) ↔ NoPanic r := by
  cases r with
  | ok a => simp
  | error fault => cases fault <;> simp [NoPanic]
/-- A composed call does not panic when its parts do not. -/
theorem noPanic_bind {x : Res ε α} {f : α → Res ε β} (first : NoPanic x) (then_ : ∀ a, x = .ok a → NoPanic (f a)) :
    NoPanic (x >>= f) := by
  intro panicked
  rcases res_bind_eq_error.mp panicked with early | ⟨a, value, late⟩
  · exact first early
  · exact then_ a value late
theorem noPanic_collect {f : Nat → Res ε α} {i n : Nat} (each : ∀ j, i ≤ j → j < i + n → NoPanic (f j)) :
    NoPanic (collect f i n) := by
  induction n generalizing i with
  | zero => exact noPanic_ok _
  | succ n ih =>
    rw [collect]
    refine noPanic_bind (each i (by omega) (by omega)) fun a _ => ?_
    refine noPanic_bind (ih fun j low high => each j (by omega) (by omega)) fun rest _ => ?_
    exact noPanic_ok _
end

/-! ### Calls that change the state -/

/-- How a call that may change the state ends. -/
inductive Ended (σ ε α : Type) where
  | ok (a : α) (s : σ)
  | err (e : ε) (s : σ)
  | panic

/-- A call that may change the state. -/
structure Prog (σ ε α : Type) where
  run : σ → Ended σ ε α

/-- One call after another: an error and a panic both skip the second. -/
def Ended.andThen {σ ε α β : Type} (f : α → σ → Ended σ ε β) : Ended σ ε α → Ended σ ε β
  | .ok a s => f a s
  | .err e s => .err e s
  | .panic => .panic

/-- The end of a reading call that leaves the state at `s`. -/
def Ended.ofRes {σ ε α : Type} (s : σ) : Res ε α → Ended σ ε α
  | .ok a => .ok a s
  | .error (.err e) => .err e s
  | .error .panic => .panic

section
variable {σ ε α β : Type}

@[simp] theorem andThen_ok (f : α → σ → Ended σ ε β) (a : α) (s : σ) : (Ended.ok a s).andThen f = f a s := rfl
@[simp] theorem andThen_err (f : α → σ → Ended σ ε β) (e : ε) (s : σ) :
    (Ended.err e s).andThen f = .err e s := rfl
@[simp] theorem andThen_panic (f : α → σ → Ended σ ε β) : (Ended.panic : Ended σ ε α).andThen f = .panic := rfl
@[simp] theorem ofRes_ok (s : σ) (a : α) : (Ended.ofRes s (.ok a) : Ended σ ε α) = .ok a s := rfl
@[simp] theorem ofRes_err (s : σ) (e : ε) : (Ended.ofRes s (.error (.err e)) : Ended σ ε α) = .err e s := rfl
@[simp] theorem ofRes_panic (s : σ) : (Ended.ofRes s (.error .panic) : Ended σ ε α) = .panic := rfl

instance : Monad (Prog σ ε) where
  pure a := ⟨fun s => .ok a s⟩
  bind x f := ⟨fun s => (x.run s).andThen fun a => (f a).run⟩

/-- Read the state with a call that leaves it alone. -/
def reads (f : σ → Res ε α) : Prog σ ε α := ⟨fun s => .ofRes s (f s)⟩
/-- Change the state. -/
def change (f : σ → σ) : Prog σ ε Unit := ⟨fun s => .ok () (f s)⟩
/-- A result that does not depend on the state. -/
def lift (r : Res ε α) : Prog σ ε α := reads (fun _ => r)

@[simp] theorem run_pure (a : α) (s : σ) : (pure a : Prog σ ε α).run s = .ok a s := rfl
@[simp] theorem run_bind (x : Prog σ ε α) (f : α → Prog σ ε β) (s : σ) :
    (x >>= f).run s = (x.run s).andThen fun a => (f a).run := rfl
@[simp] theorem run_reads (f : σ → Res ε α) (s : σ) : (reads f : Prog σ ε α).run s = .ofRes s (f s) := rfl
@[simp] theorem run_change (f : σ → σ) (s : σ) : (change f : Prog σ ε Unit).run s = .ok () (f s) := rfl
@[simp] theorem run_lift (r : Res ε α) (s : σ) : (lift r : Prog σ ε α).run s = .ofRes s r := rfl

/-- A composed call returns exactly when both parts do. -/
theorem run_bind_eq_ok {x : Prog σ ε α} {f : α → Prog σ ε β} {s s' : σ} {b : β} :
    (x >>= f).run s = .ok b s' ↔ ∃ a mid, x.run s = .ok a mid ∧ (f a).run mid = .ok b s' := by
  rw [run_bind]
  cases x.run s with
  | ok a mid =>
    constructor
    · exact fun ran => ⟨a, mid, rfl, ran⟩
    · rintro ⟨_, _, same, ran⟩
      cases same
      exact ran
  | err e mid => simp
  | panic => simp
theorem run_reads_eq_ok {f : σ → Res ε α} {s s' : σ} {a : α} :
    (reads f : Prog σ ε α).run s = .ok a s' ↔ f s = .ok a ∧ s' = s := by
  rw [run_reads]
  cases f s with
  | ok b => simp [eq_comm]
  | error fault => cases fault <;> simp
theorem run_lift_eq_ok {r : Res ε α} {s s' : σ} {a : α} :
    (lift r : Prog σ ε α).run s = .ok a s' ↔ r = .ok a ∧ s' = s := run_reads_eq_ok
/-- What only looks at the state leaves the rest where it began. -/
theorem reads_then_eq_ok {r : σ → Res ε α} {f : α → Prog σ ε β} {s s' : σ} {b : β} :
    (reads r >>= f).run s = .ok b s' ↔ ∃ a, r s = .ok a ∧ (f a).run s = .ok b s' := by
  rw [run_bind_eq_ok]
  constructor
  · rintro ⟨a, mid, first, ran⟩
    obtain ⟨value, rfl⟩ := run_reads_eq_ok.mp first
    exact ⟨a, value, ran⟩
  · rintro ⟨a, value, ran⟩
    exact ⟨a, s, run_reads_eq_ok.mpr ⟨value, rfl⟩, ran⟩
theorem lift_then_eq_ok {r : Res ε α} {f : α → Prog σ ε β} {s s' : σ} {b : β} :
    (lift r >>= f).run s = .ok b s' ↔ ∃ a, r = .ok a ∧ (f a).run s = .ok b s' := reads_then_eq_ok

/-- A composed call fails when one of its parts does. -/
theorem run_bind_eq_err {x : Prog σ ε α} {f : α → Prog σ ε β} {s s' : σ} {e : ε} :
    (x >>= f).run s = .err e s' ↔
      x.run s = .err e s' ∨ ∃ a mid, x.run s = .ok a mid ∧ (f a).run mid = .err e s' := by
  rw [run_bind]
  cases x.run s with
  | ok a mid =>
    rw [andThen_ok]
    constructor
    · exact fun ran => .inr ⟨a, mid, rfl, ran⟩
    · rintro (same | ⟨_, _, same, ran⟩)
      · cases same
      · cases same
        exact ran
  | err d mid => simp
  | panic => simp
theorem run_reads_eq_err {f : σ → Res ε α} {s s' : σ} {e : ε} :
    (reads f : Prog σ ε α).run s = .err e s' ↔ f s = .error (.err e) ∧ s' = s := by
  rw [run_reads]
  cases f s with
  | ok b => simp
  | error fault => cases fault <;> simp [eq_comm]
theorem run_lift_eq_err {r : Res ε α} {s s' : σ} {e : ε} :
    (lift r : Prog σ ε α).run s = .err e s' ↔ r = .error (.err e) ∧ s' = s := run_reads_eq_err

/-- The call ends with a value and a state in `post`, with an error and a
    state in `abort`, or with a panic. -/
def Ended.Within (post : α → σ → Prop) (abort : ε → σ → Prop) : Ended σ ε α → Prop
  | .ok a s => post a s
  | .err e s => abort e s
  | .panic => True

variable {post : α → σ → Prop} {abort : ε → σ → Prop}

@[simp] theorem within_ok {a : α} {s : σ} : (Ended.ok a s).Within post abort ↔ post a s := Iff.rfl
@[simp] theorem within_err {e : ε} {s : σ} : (Ended.err e s).Within post abort ↔ abort e s := Iff.rfl
@[simp] theorem within_panic : (Ended.panic : Ended σ ε α).Within post abort := trivial

/-- A composed call ends well when its first part ends where the second ends well. -/
theorem within_andThen {r : Ended σ ε α} {f : α → σ → Ended σ ε β} {post : β → σ → Prop} :
    (r.andThen f).Within post abort ↔ r.Within (fun a s => (f a s).Within post abort) abort := by
  cases r <;> rfl

theorem Ended.Within.mono {r : Ended σ ε α} {post' : α → σ → Prop} {abort' : ε → σ → Prop}
    (ends : r.Within post abort) (value : ∀ a s, post a s → post' a s) (error : ∀ e s, abort e s → abort' e s) :
    r.Within post' abort' := by
  cases r with
  | ok a s => exact value a s ends
  | err e s => exact error e s ends
  | panic => trivial

theorem within_ofRes {r : Res ε α} {s : σ} (value : ∀ a, r = .ok a → post a s)
    (error : ∀ e, r = .error (.err e) → abort e s) : (Ended.ofRes s r).Within post abort := by
  cases r with
  | ok a => exact value a rfl
  | error fault =>
    cases fault with
    | err e => exact error e rfl
    | panic => trivial

/-- What a call that ended well returned. -/
theorem Ended.Within.ok {r : Ended σ ε α} {a : α} {s : σ} (ends : r.Within post abort) (value : r = .ok a s) :
    post a s := by
  subst value; exact ends
theorem Ended.Within.err {r : Ended σ ε α} {e : ε} {s : σ} (ends : r.Within post abort) (error : r = .err e s) :
    abort e s := by
  subst error; exact ends
end

end Justext4.Fallible
