import Mathlib.Logic.Function.Basic
import Mathlib.Logic.Relation
import MoneroWalletCore.Foundation.Program

/-! Threads that act on one state, each with calls of its own, and the rule that reasons about
them one at a time. A thread is proved against what the others may do between its calls, which
may depend on the call it waits for; the rule puts such proofs together.
-/

namespace Program

variable {Op : Type} {Ans : Op → Type} {ε α β σ : Type}

/-- The call that a program makes next. -/
def head : Program Op Ans ε α → Option Op
  | .call op _ => some op
  | _ => none

@[simp] theorem head_call {op : Op} {next : Ans op → Program Op Ans ε α}
    : (Program.call op next).head = some op := rfl

@[simp] theorem head_pure {value : α} : (Program.pure value : Program Op Ans ε α).head = none := rfl

@[simp] theorem head_throw {error : ε}
    : (Program.throw error : Program Op Ans ε α).head = none := rfl

/-- What the others may do to the state while a thread waits for a call, or for nothing. -/
abbrev Rely (Op σ : Type) := Option Op → σ → σ → Prop

/-- Whatever the others do in between, every call is made where `guard` allows it, and what the
program ends with satisfies `ends` for as long as it is left alone. -/
def Secure (sem : Semantics Op Ans σ) (always : σ → Prop) (rely : Rely Op σ)
    (guard : σ → Op → Prop) (ends : Except ε α → σ → Prop) (p : Program Op Ans ε α) (s : σ)
    : Prop :=
  match p with
  | .pure value => ∀ s', always s' → rely none s s' → ends (.ok value) s'
  | .throw error => ∀ s', always s' → rely none s s' → ends (.error error) s'
  | .call op next =>
      ∀ s', always s' → rely (some op) s s' →
        guard s' op
          ∧ ∀ answer s'', sem s' op answer s'' → always s'' →
              (next answer).Secure sem always rely guard ends s''

section Secure

variable {sem : Semantics Op Ans σ} {always : σ → Prop} {rely : Rely Op σ}
variable {guard : σ → Op → Prop} {ends : Except ε α → σ → Prop} {s s' : σ}

/-- A step of others leaves a program secure. -/
theorem Secure.stable {p : Program Op Ans ε α}
    (trans : ∀ op s s' s'', rely op s s' → rely op s' s'' → rely op s s'')
    (secure : p.Secure sem always rely guard ends s) (step : rely p.head s s')
    : p.Secure sem always rely guard ends s' := by
  cases p with
  | pure value => exact fun s'' holds later => secure s'' holds (trans _ _ _ _ step later)
  | throw error => exact fun s'' holds later => secure s'' holds (trans _ _ _ _ step later)
  | call op next => exact fun s'' holds later => secure s'' holds (trans _ _ _ _ step later)

/-- A program is secure by what it heeds in a view that the others do not touch. -/
theorem Heeds.secure {τ : Type} {view : σ → τ} {viewed : Semantics Op Ans τ}
    {watch : τ → Op → Prop} {normal : α → τ → Prop} {thrown : ε → τ → Prop}
    {p : Program Op Ans ε α} (heeds : p.Heeds viewed watch normal thrown (view s))
    (unseen : ∀ op s s', rely op s s' → view s' = view s)
    (simulates : ∀ s op answer s', always s → watch (view s) op → sem s op answer s' →
      viewed (view s) op answer (view s'))
    (guards : ∀ s op, always s → watch (view s) op → guard s op)
    (returns : ∀ value s, normal value (view s) → ends (.ok value) s)
    (throws : ∀ error s, thrown error (view s) → ends (.error error) s)
    : p.Secure sem always rely guard ends s := by
  induction p generalizing s with
  | pure value =>
      intro s' _ step
      exact returns value s' (unseen _ _ _ step ▸ heeds)
  | throw error =>
      intro s' _ step
      exact throws error s' (unseen _ _ _ step ▸ heeds)
  | call op next ih =>
      intro s' holds step
      obtain ⟨watched, rest⟩ := heeds
      rw [← unseen _ _ _ step] at watched rest
      refine ⟨guards s' op holds watched, fun answer s'' acts _ => ?_⟩
      exact ih answer (rest answer _ (simulates s' op answer s'' holds watched acts))

/-- A program that makes only allowed calls is secure wherever these are. -/
theorem Within.secure {allowed : Op → Prop} {normal : α → Prop} {thrown : ε → Prop}
    {p : Program Op Ans ε α} (within : p.Within allowed normal thrown)
    (guards : ∀ s op, allowed op → guard s op) (all : ∀ result s, ends result s) (s : σ)
    : p.Secure sem always rely guard ends s := by
  induction p generalizing s with
  | pure value => exact fun _ _ _ => all _ _
  | throw error => exact fun _ _ _ => all _ _
  | call op next ih =>
      exact fun _ _ _ => ⟨guards _ _ within.1, fun answer s' _ _ => ih answer (within.2 answer) s'⟩

/-- With nothing asked every program is secure. -/
theorem secure_any (guards : ∀ s op, guard s op) (all : ∀ result s, ends result s)
    (p : Program Op Ans ε α) (s : σ)
    : p.Secure sem always rely guard ends s :=
  (within_any p).secure (fun _ _ _ => guards _ _) all s

theorem Secure.mono {weaker : σ → Op → Prop} {more : Except ε α → σ → Prop}
    {p : Program Op Ans ε α} (secure : p.Secure sem always rely guard ends s)
    (guards : ∀ s op, guard s op → weaker s op) (returns : ∀ result s, ends result s → more result s)
    : p.Secure sem always rely weaker more s := by
  induction p generalizing s with
  | pure value => exact fun s' holds step => returns _ _ (secure s' holds step)
  | throw error => exact fun s' holds step => returns _ _ (secure s' holds step)
  | call op next ih =>
      intro s' holds step
      obtain ⟨guarded, rest⟩ := secure s' holds step
      exact ⟨guards _ _ guarded, fun answer s'' acts now => ih answer (rest answer s'' acts now)⟩

/-- Two things may be shown of a program apart. -/
theorem Secure.and {also : σ → Op → Prop} {more : Except ε α → σ → Prop}
    {p : Program Op Ans ε α} (secure : p.Secure sem always rely guard ends s)
    (besides : p.Secure sem always rely also more s)
    : p.Secure sem always rely (fun s op => guard s op ∧ also s op)
        (fun result s => ends result s ∧ more result s) s := by
  induction p generalizing s with
  | pure value => exact fun s' holds step => ⟨secure s' holds step, besides s' holds step⟩
  | throw error => exact fun s' holds step => ⟨secure s' holds step, besides s' holds step⟩
  | call op next ih =>
      intro s' holds step
      obtain ⟨guarded, rest⟩ := secure s' holds step
      obtain ⟨watched, others⟩ := besides s' holds step
      refine ⟨⟨guarded, watched⟩, fun answer s'' acts now => ?_⟩
      exact ih answer (rest answer s'' acts now) (others answer s'' acts now)

end Secure

end Program

-----------------------------------------------------------------------------------------
-- Pools
-----------------------------------------------------------------------------------------

/-- What is left of each thread's program, and the state that all share. -/
structure Pool (ι : Type) (Op : ι → Type) (Ans : ∀ i, Op i → Type) (ε α : ι → Type) (σ : Type)
    where
  rest : ∀ i, Program (Op i) (Ans i) (ε i) (α i)
  state : σ

namespace Pool

open Program Relation

variable {ι : Type} [DecidableEq ι] {Op : ι → Type} {Ans : ∀ i, Op i → Type} {ε α : ι → Type}
variable {σ : Type}

/-- A thread goes on with another program, in another state. -/
def resume (t : Pool ι Op Ans ε α σ) (i : ι) (p : Program (Op i) (Ans i) (ε i) (α i)) (s : σ)
    : Pool ι Op Ans ε α σ :=
  { rest := Function.update t.rest i p, state := s }

@[simp] theorem resume_state {t : Pool ι Op Ans ε α σ} {i : ι}
    {p : Program (Op i) (Ans i) (ε i) (α i)} {s : σ}
    : (t.resume i p s).state = s := rfl

@[simp] theorem resume_same {t : Pool ι Op Ans ε α σ} {i : ι}
    {p : Program (Op i) (Ans i) (ε i) (α i)} {s : σ}
    : (t.resume i p s).rest i = p := Function.update_self ..

theorem resume_other {t : Pool ι Op Ans ε α σ} {i j : ι}
    {p : Program (Op i) (Ans i) (ε i) (α i)} {s : σ} (other : j ≠ i)
    : (t.resume i p s).rest j = t.rest j := Function.update_of_ne other ..

/-- How the threads of a pool act. -/
structure Rules (ι : Type) (Op : ι → Type) (Ans : ∀ i, Op i → Type) (ε α : ι → Type) (σ : Type)
    where
  act : ∀ i, Semantics (Op i) (Ans i) σ
  /-- What a thread may go on with, given what is left of it. -/
  starts : ∀ i, Program (Op i) (Ans i) (ε i) (α i) → Program (Op i) (Ans i) (ε i) (α i) →
    σ → σ → Prop
  /-- What happens to the state besides. -/
  others : σ → σ → Prop
  /-- Which calls are made when. -/
  may : Pool ι Op Ans ε α σ → ∀ i, Op i → Prop

variable {rules : Rules ι Op Ans ε α σ}

inductive Step (rules : Rules ι Op Ans ε α σ) : Pool ι Op Ans ε α σ → Pool ι Op Ans ε α σ → Prop
  | call {t i op next answer s'} (waits : t.rest i = .call op next) (may : rules.may t i op)
    (acts : rules.act i t.state op answer s') : Step rules t (t.resume i (next answer) s')
  | start {t i p s'} (starts : rules.starts i (t.rest i) p t.state s')
    : Step rules t (t.resume i p s')
  | other {t s'} (step : rules.others t.state s') : Step rules t { t with state := s' }

def Reach (rules : Rules ι Op Ans ε α σ) (start t : Pool ι Op Ans ε α σ) : Prop :=
  ReflTransGen (Step rules) start t

/-- A run is one of every pool whose threads act and start alike and may call as much. -/
theorem Reach.mono {more : Rules ι Op Ans ε α σ} {start t : Pool ι Op Ans ε α σ}
    (acts : more.act = rules.act) (starts : more.starts = rules.starts)
    (others : more.others = rules.others) (may : ∀ t i op, rules.may t i op → more.may t i op)
    (reach : Reach rules start t)
    : Reach more start t := by
  induction reach with
  | refl => exact .refl
  | tail _ step ih =>
      refine ih.tail ?_
      cases step with
      | call waits called acted => exact .call waits (may _ _ _ called) (acts ▸ acted)
      | start started => exact .start (starts ▸ started)
      | other stepped => exact .other (others ▸ stepped)

/-- The rules with calls made only where more is known. -/
def Rules.under (rules : Rules ι Op Ans ε α σ) (more : Pool ι Op Ans ε α σ → ∀ i, Op i → Prop)
    : Rules ι Op Ans ε α σ :=
  { rules with may := fun t i op => rules.may t i op ∧ more t i op }

/-- What is known of every call of a run may be asked of the calls. Induction on the steps. -/
theorem Reach.under {more : Pool ι Op Ans ε α σ → ∀ i, Op i → Prop}
    {start t : Pool ι Op Ans ε α σ}
    (known : ∀ t i op, Reach rules start t → (t.rest i).head = some op → rules.may t i op →
      more t i op)
    (reach : Reach rules start t)
    : Reach (rules.under more) start t := by
  induction reach with
  | refl => exact .refl
  | tail before step ih =>
      refine ih.tail ?_
      cases step with
      | call waits may acts =>
          refine .call waits ⟨may, known _ _ _ before ?_ may⟩ acts
          rw [waits, head_call]
      | start starts => exact .start starts
      | other step => exact .other step

-----------------------------------------------------------------------------------------
-- Runs that can be computed
-----------------------------------------------------------------------------------------

/-- A thread's next call, with the answer that an oracle gives where the thread is not blocked. -/
def advance (oracle : ∀ i, σ → (op : Op i) → Option (Ans i op × σ)) (t : Pool ι Op Ans ε α σ)
    (i : ι)
    : Option (Pool ι Op Ans ε α σ) :=
  match t.rest i with
  | .call op next => (oracle i t.state op).map fun acted => t.resume i (next acted.1) acted.2
  | _ => none

/-- A thread's next calls, as many as it is not blocked in. -/
def run (oracle : ∀ i, σ → (op : Op i) → Option (Ans i op × σ)) (i : ι)
    : Nat → Pool ι Op Ans ε α σ → Pool ι Op Ans ε α σ
  | 0, t => t
  | count + 1, t =>
      match advance oracle t i with
      | some t' => run oracle i count t'
      | none => t

theorem reach_advance {oracle : ∀ i, σ → (op : Op i) → Option (Ans i op × σ)}
    {start t t' : Pool ι Op Ans ε α σ} {i : ι}
    (respects : ∀ i s op acted, oracle i s op = some acted → rules.act i s op acted.1 acted.2)
    (may : ∀ op, (t.rest i).head = some op → rules.may t i op) (reach : Reach rules start t)
    (advanced : advance oracle t i = some t')
    : Reach rules start t' := by
  unfold advance at advanced
  split at advanced
  next op next waits =>
    obtain ⟨acted, answered, rfl⟩ := Option.map_eq_some_iff.mp advanced
    exact reach.tail (.call waits (may op (waits ▸ rfl)) (respects _ _ _ _ answered))
  next => exact nomatch advanced

/-- What an oracle answers by the rules is a run, if each call may be made where it is.
Induction on the number of calls. -/
theorem reach_run {oracle : ∀ i, σ → (op : Op i) → Option (Ans i op × σ)}
    {start t : Pool ι Op Ans ε α σ} {i : ι} {count : Nat}
    (respects : ∀ i s op acted, oracle i s op = some acted → rules.act i s op acted.1 acted.2)
    (may : ∀ made < count, ∀ op, ((run oracle i made t).rest i).head = some op →
      rules.may (run oracle i made t) i op)
    (reach : Reach rules start t)
    : Reach rules start (run oracle i count t) := by
  induction count generalizing t with
  | zero => exact reach
  | succ count ih =>
      unfold run
      split
      next t' advanced =>
        refine ih (fun made fewer op waits => ?_)
          (reach_advance respects (may 0 (Nat.zero_lt_succ _)) reach advanced)
        have later : run oracle i (made + 1) t = run oracle i made t' := by
          rw [run, advanced]
        exact later ▸ may (made + 1) (Nat.succ_lt_succ fewer) op (later ▸ waits)
      next => exact reach

-----------------------------------------------------------------------------------------
-- One thread at a time
-----------------------------------------------------------------------------------------

/-- What each thread relies on, heeds and ends with. -/
structure Terms (ι : Type) (Op : ι → Type) (ε α : ι → Type) (σ : Type) where
  rely : ∀ i, Rely (Op i) σ
  guard : ∀ i, σ → Op i → Prop
  ends : ∀ i, Except (ε i) (α i) → σ → Prop

variable {terms : Terms ι Op ε α σ} {always : σ → Prop}

/-- All that is left of a thread is secure. -/
def Terms.Holds (terms : Terms ι Op ε α σ) (rules : Rules ι Op Ans ε α σ) (always : σ → Prop)
    (t : Pool ι Op Ans ε α σ) (i : ι)
    : Prop :=
  (t.rest i).Secure (rules.act i) always (terms.rely i) (terms.guard i) (terms.ends i) t.state

/-- Nothing that happens breaks what another thread relies on, and what starts is secure. -/
structure Terms.Agree (terms : Terms ι Op ε α σ) (rules : Rules ι Op Ans ε α σ)
    (always : σ → Prop)
    : Prop where
  trans : ∀ i op s s' s'', terms.rely i op s s' → terms.rely i op s' s'' → terms.rely i op s s''
  refl : ∀ i op s, terms.rely i op s s
  calls : ∀ (t : Pool ι Op Ans ε α σ) i op answer s', (t.rest i).head = some op →
    rules.may t i op → always t.state → always s' → terms.guard i t.state op →
    rules.act i t.state op answer s' → ∀ j, j ≠ i → terms.rely j (t.rest j).head t.state s'
  starts : ∀ (t : Pool ι Op Ans ε α σ) i p s', rules.starts i (t.rest i) p t.state s' →
    always t.state → always s' → terms.Holds rules always t i →
    p.Secure (rules.act i) always (terms.rely i) (terms.guard i) (terms.ends i) s'
      ∧ ∀ j, j ≠ i → terms.rely j (t.rest j).head t.state s'
  others : ∀ (t : Pool ι Op Ans ε α σ) s', rules.others t.state s' → always t.state → always s' →
    ∀ j, terms.rely j (t.rest j).head t.state s'

/-- A step leaves every thread secure. -/
theorem Step.secure (agree : terms.Agree rules always) {t t' : Pool ι Op Ans ε α σ}
    (step : Step rules t t') (before : always t.state) (after : always t'.state)
    (secure : ∀ i, terms.Holds rules always t i) (j : ι)
    : terms.Holds rules always t' j := by
  have bystander {i : ι} {p : Program (Op i) (Ans i) (ε i) (α i)} {s' : σ} (other : j ≠ i)
      (step : terms.rely j (t.rest j).head t.state s')
      : terms.Holds rules always (t.resume i p s') j := by
    unfold Terms.Holds
    rw [resume_other other]
    exact (secure j).stable (agree.trans j) step
  cases step with
  | @call i op next answer s' waits may acts =>
      have here := secure i
      unfold Terms.Holds at here
      rw [waits] at here
      obtain ⟨guarded, rest⟩ := here t.state before (agree.refl i _ _)
      by_cases same : j = i
      · subst same
        unfold Terms.Holds
        rw [resume_same]
        exact rest answer s' acts after
      · refine bystander same (agree.calls t i op answer s' ?_ may before after guarded acts j same)
        rw [waits, head_call]
  | @start i p s' starts =>
      obtain ⟨here, others⟩ := agree.starts t i p s' starts before after (secure i)
      by_cases same : j = i
      · subst same
        unfold Terms.Holds
        rw [resume_same]
        exact here
      · exact bystander same (others j same)
  | other step => exact (secure j).stable (agree.trans j) (agree.others t _ step before after j)

/-- The threads stay secure in every run. Induction on the steps. -/
theorem Reach.secure (agree : terms.Agree rules always) {start t : Pool ι Op Ans ε α σ}
    (facts : ∀ t, Reach rules start t → always t.state)
    (init : ∀ i, terms.Holds rules always start i) (reach : Reach rules start t) (i : ι)
    : terms.Holds rules always t i := by
  induction reach generalizing i with
  | refl => exact init i
  | tail before step ih =>
      exact step.secure agree (facts _ before) (facts _ (before.tail step)) ih i

omit [DecidableEq ι] in
/-- A call that is waited for is one that the thread's guard allows. -/
theorem Terms.Holds.guarded (agree : terms.Agree rules always) {t : Pool ι Op Ans ε α σ} {i : ι}
    {op : Op i} (holds : terms.Holds rules always t i) (now : always t.state)
    (waits : (t.rest i).head = some op)
    : terms.guard i t.state op := by
  unfold Terms.Holds at holds
  cases rest : t.rest i with
  | call op' next =>
      rw [rest] at waits holds
      cases waits
      exact (holds t.state now (agree.refl i _ _)).1
  | pure value =>
      rw [rest] at waits
      cases waits
  | throw error =>
      rw [rest] at waits
      cases waits

omit [DecidableEq ι] in
/-- A thread that has returned has ended well. -/
theorem Terms.Holds.ended (agree : terms.Agree rules always) {t : Pool ι Op Ans ε α σ} {i : ι}
    {value : α i} (holds : terms.Holds rules always t i) (now : always t.state)
    (returned : t.rest i = .pure value)
    : terms.ends i (.ok value) t.state := by
  unfold Terms.Holds at holds
  rw [returned] at holds
  exact holds t.state now (agree.refl i _ _)

end Pool
