import Mathlib.Logic.Basic

/-! Programs that act only by calling their environment, and rules for reasoning about them.
A program is a finite tree: each call waits for an answer of its own type. What a call does to
a state, and which answers it may get, is left to a semantics given with the state.
-/

/-- A program over calls `Op` with answers `Ans`, returning `α` or throwing `ε`. -/
inductive Program (Op : Type) (Ans : Op → Type) (ε α : Type) where
  | pure (value : α)
  | throw (error : ε)
  | call (op : Op) (next : Ans op → Program Op Ans ε α)

namespace Program

variable {Op : Type} {Ans : Op → Type} {ε α β σ : Type}

def bind (p : Program Op Ans ε α) (next : α → Program Op Ans ε β) : Program Op Ans ε β :=
  match p with
  | .pure value => next value
  | .throw error => .throw error
  | .call op rest => .call op (fun answer => (rest answer).bind next)

instance : Monad (Program Op Ans ε) where
  pure := .pure
  bind := bind

/-- A guarded block with its handler. -/
def tryCatch (p : Program Op Ans ε α) (handler : ε → Program Op Ans ε α)
    : Program Op Ans ε α :=
  match p with
  | .pure value => .pure value
  | .throw error => handler error
  | .call op rest => .call op (fun answer => (rest answer).tryCatch handler)

/-- A block with a destructor, which runs however the block is left. -/
def ensure (p : Program Op Ans ε α) (final : Program Op Ans ε Unit) : Program Op Ans ε α :=
  match p with
  | .pure value => final.bind fun _ => .pure value
  | .throw error => final.bind fun _ => .throw error
  | .call op rest => .call op (fun answer => (rest answer).ensure final)

/-- A statement under a condition and nothing else. -/
def when (condition : Bool) (p : Program Op Ans ε Unit) : Program Op Ans ε Unit :=
  if condition then p else .pure ()

/-- One call, handing its answer on. -/
def perform (op : Op) : Program Op Ans ε (Ans op) := .call op .pure

@[simp] theorem pure_def (value : α) : (Pure.pure value : Program Op Ans ε α) = .pure value := rfl

@[simp] theorem bind_def (p : Program Op Ans ε α) (next : α → Program Op Ans ε β)
    : p >>= next = p.bind next := rfl

-----------------------------------------------------------------------------------------
-- Runs
-----------------------------------------------------------------------------------------

/-- In which state a call may get which answer, and the state after it. -/
abbrev Semantics (Op : Type) (Ans : Op → Type) (σ : Type) :=
  σ → (op : Op) → Ans op → σ → Prop

variable {sem : Semantics Op Ans σ}

/-- A whole run of a program, from a state to its result and the state it leaves. -/
inductive Runs (sem : Semantics Op Ans σ) : Program Op Ans ε α → σ → Except ε α → σ → Prop
  | pure {value s} : Runs sem (.pure value) s (.ok value) s
  | throw {error s} : Runs sem (.throw error) s (.error error) s
  | call {op next s answer s' result final} (step : sem s op answer s')
    (rest : Runs sem (next answer) s' result final)
    : Runs sem (.call op next) s result final

/-- Every run from `s` that returns satisfies `normal`, and every run that throws `thrown`. -/
def wp (sem : Semantics Op Ans σ) (p : Program Op Ans ε α) (normal : α → σ → Prop)
    (thrown : ε → σ → Prop) (s : σ) : Prop :=
  match p with
  | .pure value => normal value s
  | .throw error => thrown error s
  | .call op next => ∀ answer s', sem s op answer s' → (next answer).wp sem normal thrown s'

/-- What a run ended with, against the two postconditions. -/
def Ends (normal : α → σ → Prop) (thrown : ε → σ → Prop) (result : Except ε α) (s : σ) : Prop :=
  match result with
  | .ok value => normal value s
  | .error error => thrown error s

/-- The recursive condition speaks about all runs, by induction on the program. -/
theorem wp_iff {p : Program Op Ans ε α} {normal : α → σ → Prop} {thrown : ε → σ → Prop} {s : σ}
    : p.wp sem normal thrown s
      ↔ ∀ result final, Runs sem p s result final → Ends normal thrown result final := by
  induction p generalizing s with
  | pure value =>
      constructor
      · intro holds result final run
        cases run
        exact holds
      · exact fun holds => holds _ _ .pure
  | throw error =>
      constructor
      · intro holds result final run
        cases run
        exact holds
      · exact fun holds => holds _ _ .throw
  | call op next ih =>
      constructor
      · intro holds result final run
        cases run with
        | call step rest => exact (ih _).mp (holds _ _ step) _ _ rest
      · intro holds answer s' step
        exact (ih answer).mpr (fun result final rest => holds result final (.call step rest))

variable {p : Program Op Ans ε α} {normal : α → σ → Prop} {thrown : ε → σ → Prop} {s final : σ}

theorem Runs.ends {result : Except ε α} (run : Runs sem p s result final)
    (holds : p.wp sem normal thrown s)
    : Ends normal thrown result final :=
  wp_iff.mp holds result final run

theorem Runs.returned {value : α} (run : Runs sem p s (.ok value) final)
    (holds : p.wp sem normal thrown s)
    : normal value final :=
  run.ends holds

theorem Runs.threw {error : ε} (run : Runs sem p s (.error error) final)
    (holds : p.wp sem normal thrown s)
    : thrown error final :=
  run.ends holds

@[simp] theorem wp_pure {value : α}
    : (Program.pure value : Program Op Ans ε α).wp sem normal thrown s ↔ normal value s := Iff.rfl

@[simp] theorem wp_throw {error : ε}
    : (Program.throw error : Program Op Ans ε α).wp sem normal thrown s ↔ thrown error s := Iff.rfl

theorem wp_call {op : Op} {next : Ans op → Program Op Ans ε α}
    : (Program.call op next).wp sem normal thrown s
      ↔ ∀ answer s', sem s op answer s' → (next answer).wp sem normal thrown s' := Iff.rfl

/-- A sequence continues only from a normal return. -/
@[simp] theorem wp_bind {p : Program Op Ans ε β} {next : β → Program Op Ans ε α}
    : (p.bind next).wp sem normal thrown s
      ↔ p.wp sem (fun value s' => (next value).wp sem normal thrown s') thrown s := by
  induction p generalizing s with
  | pure value => rfl
  | throw error => rfl
  | call op rest ih =>
      exact forall_congr' fun _ => forall_congr' fun _ => imp_congr_right fun _ => ih _

@[simp] theorem wp_tryCatch {handler : ε → Program Op Ans ε α}
    : (p.tryCatch handler).wp sem normal thrown s
      ↔ p.wp sem normal (fun error s' => (handler error).wp sem normal thrown s') s := by
  induction p generalizing s with
  | pure value => rfl
  | throw error => rfl
  | call op rest ih =>
      exact forall_congr' fun _ => forall_congr' fun _ => imp_congr_right fun _ => ih _

@[simp] theorem wp_ensure {destructor : Program Op Ans ε Unit}
    : (p.ensure destructor).wp sem normal thrown s
      ↔ p.wp sem
          (fun value s' => destructor.wp sem (fun _ => normal value) thrown s')
          (fun error s' => destructor.wp sem (fun _ => thrown error) thrown s') s := by
  induction p generalizing s with
  | pure value => exact wp_bind
  | throw error => exact wp_bind
  | call op rest ih =>
      exact forall_congr' fun _ => forall_congr' fun _ => imp_congr_right fun _ => ih _

theorem wp_when {condition : Bool} {p : Program Op Ans ε Unit} {normal : Unit → σ → Prop}
    : (when condition p).wp sem normal thrown s
      ↔ (condition = true → p.wp sem normal thrown s) ∧ (condition = false → normal () s) := by
  cases condition <;> simp [when]

@[simp] theorem wp_ite {condition : Prop} [Decidable condition] {q : Program Op Ans ε α}
    : (if condition then p else q).wp sem normal thrown s
      ↔ (condition → p.wp sem normal thrown s) ∧ (¬condition → q.wp sem normal thrown s) := by
  by_cases holds : condition <;> simp [holds]

theorem wp_mono {weaker : α → σ → Prop} {other : ε → σ → Prop}
    (holds : p.wp sem normal thrown s) (returns : ∀ value final, normal value final → weaker value final)
    (throws : ∀ error final, thrown error final → other error final)
    : p.wp sem weaker other s := by
  refine wp_iff.mpr fun result final run => ?_
  cases result with
  | ok value => exact returns value final (run.returned holds)
  | error error => exact throws error final (run.threw holds)

theorem wp_and {more : α → σ → Prop} {other : ε → σ → Prop}
    (first : p.wp sem normal thrown s) (second : p.wp sem more other s)
    : p.wp sem (fun value final => normal value final ∧ more value final)
        (fun error final => thrown error final ∧ other error final) s := by
  refine wp_iff.mpr fun result final run => ?_
  cases result with
  | ok value => exact ⟨run.returned first, run.returned second⟩
  | error error => exact ⟨run.threw first, run.threw second⟩

/-- A run by one semantics is one by any that allows as much. -/
theorem Runs.mono {more : Semantics Op Ans σ} {result : Except ε α}
    (run : Runs sem p s result final)
    (allows : ∀ s op answer s', sem s op answer s' → more s op answer s')
    : Runs more p s result final := by
  induction run with
  | pure => exact .pure
  | throw => exact .throw
  | call step _ ih => exact .call (allows _ _ _ _ step) ih

/-- Every call of the program is allowed, and every way of leaving it satisfies `normal` or
`thrown`, whatever the answers are. -/
def Within (p : Program Op Ans ε α) (allowed : Op → Prop) (normal : α → Prop)
    (thrown : ε → Prop)
    : Prop :=
  match p with
  | .pure value => normal value
  | .throw error => thrown error
  | .call op next => allowed op ∧ ∀ answer, (next answer).Within allowed normal thrown

section Within

variable {allowed : Op → Prop} {normal : α → Prop} {thrown : ε → Prop}

@[simp] theorem within_pure {value : α}
    : (Program.pure value : Program Op Ans ε α).Within allowed normal thrown ↔ normal value :=
  Iff.rfl

@[simp] theorem within_throw {error : ε}
    : (Program.throw error : Program Op Ans ε α).Within allowed normal thrown ↔ thrown error :=
  Iff.rfl

@[simp] theorem within_bind {p : Program Op Ans ε β} {next : β → Program Op Ans ε α}
    : (p.bind next).Within allowed normal thrown
      ↔ p.Within allowed (fun value => (next value).Within allowed normal thrown) thrown := by
  induction p with
  | pure value => rfl
  | throw error => rfl
  | call op rest ih => exact and_congr_right fun _ => forall_congr' fun _ => ih _

@[simp] theorem within_tryCatch {p : Program Op Ans ε α} {handler : ε → Program Op Ans ε α}
    : (p.tryCatch handler).Within allowed normal thrown
      ↔ p.Within allowed normal (fun error => (handler error).Within allowed normal thrown) := by
  induction p with
  | pure value => rfl
  | throw error => rfl
  | call op rest ih => exact and_congr_right fun _ => forall_congr' fun _ => ih _

@[simp] theorem within_ensure {p : Program Op Ans ε α} {destructor : Program Op Ans ε Unit}
    : (p.ensure destructor).Within allowed normal thrown
      ↔ p.Within allowed
          (fun value => destructor.Within allowed (fun _ => normal value) thrown)
          (fun error => destructor.Within allowed (fun _ => thrown error) thrown) := by
  induction p with
  | pure value => exact within_bind
  | throw error => exact within_bind
  | call op rest ih => exact and_congr_right fun _ => forall_congr' fun _ => ih _

@[simp] theorem within_ite {condition : Prop} [Decidable condition] {p q : Program Op Ans ε α}
    : (if condition then p else q).Within allowed normal thrown
      ↔ (condition → p.Within allowed normal thrown)
        ∧ (¬condition → q.Within allowed normal thrown) := by
  by_cases holds : condition <;> simp [holds]

theorem within_when {condition : Bool} {p : Program Op Ans ε Unit} {normal : Unit → Prop}
    : (when condition p).Within allowed normal thrown
      ↔ (condition = true → p.Within allowed normal thrown) ∧ (condition = false → normal ()) := by
  cases condition <;> simp [when]

/-- Nothing is asked of any program by trivial postconditions. -/
theorem within_any (p : Program Op Ans ε α)
    : p.Within (fun _ => True) (fun _ => True) (fun _ => True) := by
  induction p with
  | pure value => trivial
  | throw error => trivial
  | call op next ih => exact ⟨trivial, ih⟩

theorem Within.mono {p : Program Op Ans ε α} {more : Op → Prop} {weaker : α → Prop}
    {other : ε → Prop} (within : p.Within allowed normal thrown)
    (calls : ∀ op, allowed op → more op) (returns : ∀ value, normal value → weaker value)
    (throws : ∀ error, thrown error → other error)
    : p.Within more weaker other := by
  induction p with
  | pure value => exact returns value within
  | throw error => exact throws error within
  | call op next ih => exact ⟨calls op within.1, fun answer => ih answer (within.2 answer)⟩

theorem Within.and {p : Program Op Ans ε α} {also : Op → Prop} {more : α → Prop} {other : ε → Prop}
    (within : p.Within allowed normal thrown) (besides : p.Within also more other)
    : p.Within (fun op => allowed op ∧ also op) (fun value => normal value ∧ more value)
        (fun error => thrown error ∧ other error) := by
  induction p with
  | pure value => exact ⟨within, besides⟩
  | throw error => exact ⟨within, besides⟩
  | call op next ih =>
      exact ⟨⟨within.1, besides.1⟩, fun answer => ih answer (within.2 answer) (besides.2 answer)⟩

/-- What every allowed call keeps, the whole run keeps. Induction on the program. -/
theorem Within.keeps {p : Program Op Ans ε α} {Inv : σ → Prop}
    (within : p.Within allowed normal thrown)
    (step : ∀ s op answer s', allowed op → sem s op answer s' → Inv s → Inv s') {s : σ}
    (holds : Inv s)
    : p.wp sem (fun value s' => normal value ∧ Inv s') (fun error s' => thrown error ∧ Inv s') s := by
  induction p generalizing s with
  | pure value => exact ⟨within, holds⟩
  | throw error => exact ⟨within, holds⟩
  | call op next ih =>
      intro answer s' taken
      exact ih answer (within.2 answer) (step _ _ _ _ within.1 taken holds)

end Within

-----------------------------------------------------------------------------------------
-- Every call on the way
-----------------------------------------------------------------------------------------

/-- Every call of every run from `s` is made where `guard` allows it, and the ends satisfy the
two postconditions. -/
def Heeds (sem : Semantics Op Ans σ) (guard : σ → Op → Prop) (p : Program Op Ans ε α)
    (normal : α → σ → Prop) (thrown : ε → σ → Prop) (s : σ)
    : Prop :=
  match p with
  | .pure value => normal value s
  | .throw error => thrown error s
  | .call op next =>
      guard s op ∧ ∀ answer s', sem s op answer s' → (next answer).Heeds sem guard normal thrown s'

section Heeds

variable {guard : σ → Op → Prop} {normal : α → σ → Prop} {thrown : ε → σ → Prop} {s : σ}

/-- With nothing asked of the calls only the ends count. -/
theorem heeds_trivial {p : Program Op Ans ε α}
    : p.Heeds sem (fun _ _ => True) normal thrown s ↔ p.wp sem normal thrown s := by
  induction p generalizing s with
  | pure value => rfl
  | throw error => rfl
  | call op next ih =>
      refine (and_iff_right trivial).trans ?_
      exact forall_congr' fun _ => forall_congr' fun _ => imp_congr_right fun _ => ih _

theorem heeds_bind {p : Program Op Ans ε β} {next : β → Program Op Ans ε α}
    : (p.bind next).Heeds sem guard normal thrown s
      ↔ p.Heeds sem guard (fun value => (next value).Heeds sem guard normal thrown) thrown s := by
  induction p generalizing s with
  | pure value => rfl
  | throw error => rfl
  | call op rest ih =>
      refine and_congr_right fun _ => ?_
      exact forall_congr' fun _ => forall_congr' fun _ => imp_congr_right fun _ => ih _

theorem heeds_tryCatch {p : Program Op Ans ε α} {handler : ε → Program Op Ans ε α}
    : (p.tryCatch handler).Heeds sem guard normal thrown s
      ↔ p.Heeds sem guard normal (fun error => (handler error).Heeds sem guard normal thrown) s := by
  induction p generalizing s with
  | pure value => rfl
  | throw error => rfl
  | call op rest ih =>
      refine and_congr_right fun _ => ?_
      exact forall_congr' fun _ => forall_congr' fun _ => imp_congr_right fun _ => ih _

theorem heeds_ensure {p : Program Op Ans ε α} {destructor : Program Op Ans ε Unit}
    : (p.ensure destructor).Heeds sem guard normal thrown s
      ↔ p.Heeds sem guard
          (fun value => destructor.Heeds sem guard (fun _ => normal value) thrown)
          (fun error => destructor.Heeds sem guard (fun _ => thrown error) thrown) s := by
  induction p generalizing s with
  | pure value => exact heeds_bind
  | throw error => exact heeds_bind
  | call op rest ih =>
      refine and_congr_right fun _ => ?_
      exact forall_congr' fun _ => forall_congr' fun _ => imp_congr_right fun _ => ih _

theorem Heeds.mono {p : Program Op Ans ε α} {weaker : α → σ → Prop} {other : ε → σ → Prop}
    (holds : p.Heeds sem guard normal thrown s)
    (returns : ∀ value final, normal value final → weaker value final)
    (throws : ∀ error final, thrown error final → other error final)
    : p.Heeds sem guard weaker other s := by
  induction p generalizing s with
  | pure value => exact returns value s holds
  | throw error => exact throws error s holds
  | call op next ih => exact ⟨holds.1, fun answer s' step => ih answer (holds.2 answer s' step)⟩

/-- What the ends satisfy besides may be shown apart. -/
theorem Heeds.and {p : Program Op Ans ε α} {more : α → σ → Prop} {other : ε → σ → Prop}
    (holds : p.Heeds sem guard normal thrown s) (also : p.wp sem more other s)
    : p.Heeds sem guard (fun value final => normal value final ∧ more value final)
        (fun error final => thrown error final ∧ other error final) s := by
  induction p generalizing s with
  | pure value => exact ⟨holds, also⟩
  | throw error => exact ⟨holds, also⟩
  | call op next ih =>
      exact ⟨holds.1, fun answer s' step => ih answer (holds.2 answer s' step) (also answer s' step)⟩

/-- A program of allowed calls heeds what an invariant makes each of them heed. -/
theorem Within.heeds {allowed : Op → Prop} {p : Program Op Ans ε α} {normal : α → Prop}
    {thrown : ε → Prop} {Inv : σ → Prop} (within : p.Within allowed normal thrown)
    (each : ∀ s op, allowed op → Inv s → guard s op)
    (step : ∀ s op answer s', allowed op → sem s op answer s' → Inv s → Inv s') {s : σ}
    (holds : Inv s)
    : p.Heeds sem guard (fun value s' => normal value ∧ Inv s')
        (fun error s' => thrown error ∧ Inv s') s := by
  induction p generalizing s with
  | pure value => exact ⟨within, holds⟩
  | throw error => exact ⟨within, holds⟩
  | call op next ih =>
      refine ⟨each s op within.1 holds, fun answer s' taken => ?_⟩
      exact ih answer (within.2 answer) (step _ _ _ _ within.1 taken holds)

end Heeds

-----------------------------------------------------------------------------------------
-- Running a program against given answers
-----------------------------------------------------------------------------------------

/-- The run whose answers and states an oracle gives. -/
def exec (oracle : σ → (op : Op) → Ans op × σ) : Program Op Ans ε α → σ → Except ε α × σ
  | .pure value, s => (.ok value, s)
  | .throw error, s => (.error error, s)
  | .call op next, s => (next (oracle s op).1).exec oracle (oracle s op).2

section exec

variable {oracle : σ → (op : Op) → Ans op × σ}

theorem exec_bind {p : Program Op Ans ε α} {next : α → Program Op Ans ε β} {s : σ}
    : (p.bind next).exec oracle s
      = match p.exec oracle s with
        | (.ok value, s') => (next value).exec oracle s'
        | (.error error, s') => (.error error, s') := by
  induction p generalizing s with
  | pure value => rfl
  | throw error => rfl
  | call op rest ih => exact ih _

theorem exec_tryCatch {p : Program Op Ans ε α} {handler : ε → Program Op Ans ε α} {s : σ}
    : (p.tryCatch handler).exec oracle s
      = match p.exec oracle s with
        | (.ok value, s') => (.ok value, s')
        | (.error error, s') => (handler error).exec oracle s' := by
  induction p generalizing s with
  | pure value => rfl
  | throw error => rfl
  | call op rest ih => exact ih _

theorem exec_ensure {p : Program Op Ans ε α} {final : Program Op Ans ε Unit} {s : σ}
    : (p.ensure final).exec oracle s
      = match p.exec oracle s with
        | (.ok value, s') => (final.bind fun _ => .pure value).exec oracle s'
        | (.error error, s') => (final.bind fun _ => .throw error).exec oracle s' := by
  induction p generalizing s with
  | pure value => rfl
  | throw error => rfl
  | call op rest ih => exact ih _

end exec

/-- An oracle that respects the semantics gives a run of it, by induction on the program. -/
theorem runs_exec {oracle : σ → (op : Op) → Ans op × σ}
    (respects : ∀ s op, sem s op (oracle s op).1 (oracle s op).2) (p : Program Op Ans ε α) (s : σ)
    : Runs sem p s (p.exec oracle s).1 (p.exec oracle s).2 := by
  induction p generalizing s with
  | pure value => exact .pure
  | throw error => exact .throw
  | call op next ih => exact .call (respects s op) (ih _ _)

/-- A program that cannot throw returns, whatever it is answered. -/
theorem Within.exec_ok {allowed : Op → Prop} {normal : α → Prop} {p : Program Op Ans ε α}
    (within : p.Within allowed normal (fun _ => False)) (oracle : σ → (op : Op) → Ans op × σ)
    (s : σ)
    : ∃ value, (p.exec oracle s).1 = .ok value := by
  induction p generalizing s with
  | pure value => exact ⟨value, rfl⟩
  | throw error => exact within.elim
  | call op next ih => exact ih _ (within.2 _) _

end Program
