import Mathlib.Logic.Relation
import MoneroWalletCore.Foundation.Program

/-! One thread that runs a program over and over, while others act on the same state.
Every call of the thread is one step, and others may step between any two of them.
-/

/-- What is left of the current turn, and the state everyone shares. -/
structure Thread (Op : Type) (Ans : Op → Type) (ε σ : Type) where
  rest : Program Op Ans ε Unit
  state : σ

namespace Thread

open Program Relation

variable {Op : Type} {Ans : Op → Type} {ε σ τ : Type}
variable (sem : Semantics Op Ans σ) (others : σ → σ → Prop) (turn : Program Op Ans ε Unit)

/-- A step within a turn. -/
inductive Move : Thread Op Ans ε σ → Thread Op Ans ε σ → Prop
  | call {op next s answer s'} (step : sem s op answer s') : Move ⟨.call op next, s⟩ ⟨next answer, s'⟩
  | other {rest s s'} (step : others s s') : Move ⟨rest, s⟩ ⟨rest, s'⟩

/-- A step of the system: a move, or a turn that starts when the last one has returned. -/
inductive Step : Thread Op Ans ε σ → Thread Op Ans ε σ → Prop
  | move {t t'} (moves : Move sem others t t') : Step t t'
  | turn {s} : Step ⟨.pure (), s⟩ ⟨turn, s⟩

/-- What the system can reach from a state with no turn begun. -/
def Reach (start : σ) (t : Thread Op Ans ε σ) : Prop :=
  ReflTransGen (Step sem others turn) ⟨.pure (), start⟩ t

/-- A whole turn, others' steps included. -/
def WholeTurn (s s' : σ) : Prop :=
  ReflTransGen (Move sem others) ⟨turn, s⟩ ⟨.pure (), s'⟩

variable {sem others turn}

theorem Reach.wholeTurn {start s s' : σ} (reach : Reach sem others turn start ⟨.pure (), s⟩)
    (whole : WholeTurn sem others turn s s')
    : Reach sem others turn start ⟨.pure (), s'⟩ :=
  (reach.tail .turn).trans (whole.lift id fun _ _ => Step.move)

/-- A run of a program is a stretch of moves with nobody else in it. -/
theorem moves_of_runs {p : Program Op Ans ε Unit} {s s' : σ} (runs : Runs sem p s (.ok ()) s')
    : ReflTransGen (Move sem others) ⟨p, s⟩ ⟨.pure (), s'⟩ := by
  generalize same : (Except.ok () : Except ε Unit) = result at runs
  induction runs with
  | pure =>
      cases same
      exact .refl
  | throw => cases same
  | call step _ ih => exact .head (.call step) (ih same)

/-- Turns of a system are turns of any that allows as much. -/
theorem WholeTurn.mono {sem' : Semantics Op Ans σ} {s s' : σ}
    (whole : WholeTurn sem others turn s s')
    (allows : ∀ s op answer s', sem s op answer s' → sem' s op answer s')
    : WholeTurn sem' others turn s s' := by
  have moves (t t' : Thread Op Ans ε σ) (step : Move sem others t t') : Move sem' others t t' := by
    cases step with
    | call step => exact .call (allows _ _ _ _ step)
    | other step => exact .other step
  exact whole.lift id moves

section View

variable {view : σ → τ} {viewed : Semantics Op Ans τ}
variable (simulates : ∀ s op answer s', sem s op answer s' → viewed (view s) op answer (view s'))
variable (unseen : ∀ s s', others s s' → view s' = view s)

include simulates unseen

/-- What the rest of a turn guarantees stays guaranteed by what is left after a move: a call
takes one step of it, and a step of others is not seen. -/
theorem Move.wp {Inv : τ → Prop} {t t' : Thread Op Ans ε σ} (moves : Move sem others t t')
    (holds : t.rest.wp viewed (fun _ => Inv) (fun _ => Inv) (view t.state))
    : t'.rest.wp viewed (fun _ => Inv) (fun _ => Inv) (view t'.state) := by
  cases moves with
  | call step => exact holds _ _ (simulates _ _ _ _ step)
  | other step => rwa [unseen _ _ step]

/-- An invariant of whole turns holds whenever a turn is over, and what is left of a turn
leads back to it. Induction on the steps. -/
theorem Reach.wp {Inv : τ → Prop} {start : σ} {t : Thread Op Ans ε σ} (init : Inv (view start))
    (kept : ∀ v, Inv v → turn.wp viewed (fun _ => Inv) (fun _ => Inv) v)
    (reach : Reach sem others turn start t)
    : t.rest.wp viewed (fun _ => Inv) (fun _ => Inv) (view t.state) := by
  induction reach with
  | refl => exact init
  | tail _ step ih =>
      cases step with
      | move moves => exact moves.wp simulates unseen ih
      | turn => exact kept _ ih

/-- What the calls of a turn heed is heeded at every moment. Induction on the steps. -/
theorem Reach.heeds {guard : τ → Op → Prop} {Inv : τ → Prop} {start : σ}
    {t : Thread Op Ans ε σ} (init : Inv (view start))
    (kept : ∀ v, Inv v → turn.Heeds viewed guard (fun _ => Inv) (fun _ => Inv) v)
    (reach : Reach sem others turn start t)
    : t.rest.Heeds viewed guard (fun _ => Inv) (fun _ => Inv) (view t.state) := by
  induction reach with
  | refl => exact init
  | tail _ step ih =>
      cases step with
      | move moves =>
          cases moves with
          | call step => exact ih.2 _ _ (simulates _ _ _ _ step)
          | other step => rwa [unseen _ _ step]
      | turn => exact kept _ ih

/-- A turn with others' steps in it is a run of its program over what the thread sees. -/
theorem runs_of_moves {p : Program Op Ans ε Unit} {s s' : σ}
    (moves : ReflTransGen (Move sem others) ⟨p, s⟩ ⟨.pure (), s'⟩)
    : Runs viewed p (view s) (.ok ()) (view s') := by
  generalize same : (⟨p, s⟩ : Thread Op Ans ε σ) = first at moves
  induction moves using ReflTransGen.head_induction_on generalizing p s with
  | refl =>
      cases same
      exact .pure
  | head step _ ih =>
      cases step with
      | call taken =>
          cases same
          exact .call (simulates _ _ _ _ taken) (ih rfl)
      | other taken =>
          cases same
          rw [← unseen _ _ taken]
          exact ih rfl

end View

section Drift

variable {view : σ → τ} {viewed : Semantics Op Ans τ} {drift : τ → τ → Prop} {Good : σ → Prop}
variable {allowed : Op → Prop} {guard : τ → Op → Prop}

/-- A view that others may move, in ways that the thread's next call cannot tell. -/
structure Drifts (sem : Semantics Op Ans σ) (others : σ → σ → Prop) (view : σ → τ)
    (viewed : Semantics Op Ans τ) (drift : τ → τ → Prop) (Good : σ → Prop) (allowed : Op → Prop)
    : Prop where
  simulates : ∀ s op answer s', Good s → allowed op → sem s op answer s' →
    viewed (view s) op answer (view s') ∧ Good s'
  others : ∀ s s', Good s → others s s' → drift (view s) (view s') ∧ Good s'
  absorbs : ∀ a b op answer c, drift a b → viewed b op answer c → viewed a op answer c

/-- A state whose program makes allowed calls only, heeds its guard, and leads to an invariant. -/
structure Abides (view : σ → τ) (viewed : Semantics Op Ans τ) (Good : σ → Prop)
    (allowed : Op → Prop) (guard : τ → Op → Prop) (Inv : τ → Prop) (t : Thread Op Ans ε σ)
    : Prop where
  good : Good t.state
  within : t.rest.Within allowed (fun _ => True) (fun _ => True)
  heeds : t.rest.Heeds viewed guard (fun _ => Inv) (fun _ => Inv) (view t.state)

variable {Inv : τ → Prop} {t t' : Thread Op Ans ε σ}

/-- What is guarded and left by a program does not depend on a drift before it. -/
theorem heeds_drift {p : Program Op Ans ε Unit} {a b : τ}
    (absorbs : ∀ a b op answer c, drift a b → viewed b op answer c → viewed a op answer c)
    (guards : ∀ a b op, drift a b → guard a op → guard b op)
    (keeps : ∀ a b, drift a b → Inv a → Inv b) (drifts : drift a b)
    (holds : p.Heeds viewed guard (fun _ => Inv) (fun _ => Inv) a)
    : p.Heeds viewed guard (fun _ => Inv) (fun _ => Inv) b := by
  cases p with
  | pure value => exact keeps a b drifts holds
  | throw error => exact keeps a b drifts holds
  | call op next =>
      refine ⟨guards a b op drifts holds.1, fun answer c step => ?_⟩
      exact holds.2 answer c (absorbs a b op answer c drifts step)

theorem Move.abides (view_ : Drifts sem others view viewed drift Good allowed)
    (guards : ∀ a b op, drift a b → guard a op → guard b op)
    (keeps : ∀ a b, drift a b → Inv a → Inv b) (moves : Move sem others t t')
    (abides : Abides view viewed Good allowed guard Inv t)
    : Abides view viewed Good allowed guard Inv t' := by
  obtain ⟨good, within, heeds⟩ := abides
  cases moves with
  | call step =>
      obtain ⟨seen, good'⟩ := view_.simulates _ _ _ _ good within.1 step
      exact ⟨good', within.2 _, heeds.2 _ _ seen⟩
  | other step =>
      obtain ⟨drifts, good'⟩ := view_.others _ _ good step
      exact ⟨good', within, heeds_drift view_.absorbs guards keeps drifts heeds⟩

theorem Moves.abides (view_ : Drifts sem others view viewed drift Good allowed)
    (guards : ∀ a b op, drift a b → guard a op → guard b op)
    (keeps : ∀ a b, drift a b → Inv a → Inv b)
    (moves : ReflTransGen (Move sem others) t t')
    (abides : Abides view viewed Good allowed guard Inv t)
    : Abides view viewed Good allowed guard Inv t' := by
  induction moves with
  | refl => exact abides
  | tail _ step ih => exact step.abides view_ guards keeps ih

/-- A thread whose turns abide goes on abiding. Induction on the steps. -/
theorem Reach.abides (view_ : Drifts sem others view viewed drift Good allowed)
    (guards : ∀ a b op, drift a b → guard a op → guard b op)
    (keeps : ∀ a b, drift a b → Inv a → Inv b) {start : σ}
    (within : turn.Within allowed (fun _ => True) (fun _ => True))
    (kept : ∀ v, Inv v → turn.Heeds viewed guard (fun _ => Inv) (fun _ => Inv) v)
    (good : Good start) (init : Inv (view start)) (reach : Reach sem others turn start t)
    : Abides view viewed Good allowed guard Inv t := by
  induction reach with
  | refl => exact ⟨good, trivial, init⟩
  | tail _ step ih =>
      cases step with
      | move moves => exact moves.abides view_ guards keeps ih
      | turn => exact ⟨ih.good, within, kept _ ih.heeds⟩

/-- Steps that abide are steps of any system that allows as much. -/
theorem Reach.guarded {sem' : Semantics Op Ans σ} {others' : σ → σ → Prop}
    (view_ : Drifts sem others view viewed drift Good allowed)
    (guards : ∀ a b op, drift a b → guard a op → guard b op)
    (keeps : ∀ a b, drift a b → Inv a → Inv b) {start s : σ}
    (within : turn.Within allowed (fun _ => True) (fun _ => True))
    (kept : ∀ v, Inv v → turn.Heeds viewed guard (fun _ => Inv) (fun _ => Inv) v)
    (acts : ∀ s op answer s', guard (view s) op → sem s op answer s' → sem' s op answer s')
    (less : ∀ s s', others s s' → others' s s')
    (good : Good s) (init : Inv (view s)) (reached : Reach sem' others' turn start ⟨.pure (), s⟩)
    (reach : Reach sem others turn s t)
    : Reach sem' others' turn start t := by
  induction reach with
  | refl => exact reached
  | tail before step ih =>
      have abides := Reach.abides view_ guards keeps within kept good init before
      refine ih.tail ?_
      cases step with
      | move moves =>
          cases moves with
          | call taken => exact .move (.call (acts _ _ _ _ abides.heeds.1 taken))
          | other taken => exact .move (.other (less _ _ taken))
      | turn => exact .turn

end Drift

-----------------------------------------------------------------------------------------
-- Turn by turn
-----------------------------------------------------------------------------------------

/-- The states between the turns of a run whose turns all meet a condition. -/
inductive Turns (sem : Semantics Op Ans σ) (others : σ → σ → Prop) (turn : Program Op Ans ε Unit)
    (meets : σ → σ → Prop) (start : σ) : σ → Prop
  | start : Turns sem others turn meets start start
  | other {s s'} (before : Turns sem others turn meets start s) (step : others s s')
    : Turns sem others turn meets start s'
  | whole {s s'} (before : Turns sem others turn meets start s)
    (whole : WholeTurn sem others turn s s') (met : meets s s')
    : Turns sem others turn meets start s'

theorem Turns.reach {meets : σ → σ → Prop} {start s : σ}
    (turns : Turns sem others turn meets start s)
    : Reach sem others turn start ⟨.pure (), s⟩ := by
  induction turns with
  | start => exact .refl
  | other _ step ih => exact ih.tail (.move (.other step))
  | whole _ whole _ ih => exact ih.wholeTurn whole

/-- Every run is one turn by turn. Induction on its steps: the last turn of a run is over, or
under way since a state between turns. -/
theorem Reach.turns {start s : σ} (reach : Reach sem others turn start ⟨.pure (), s⟩)
    : Turns sem others turn (fun _ _ => True) start s := by
  have stage (t : Thread Op Ans ε σ) (reach : Reach sem others turn start t)
      : t.rest = .pure () ∧ Turns sem others turn (fun _ _ => True) start t.state
        ∨ ∃ s₀, Turns sem others turn (fun _ _ => True) start s₀
          ∧ ReflTransGen (Move sem others) ⟨turn, s₀⟩ t := by
    induction reach with
    | refl => exact .inl ⟨rfl, .start⟩
    | tail _ step ih =>
        rcases ih with ⟨finished, turns⟩ | ⟨s₀, turns, moves⟩
        · cases step with
          | move step =>
              cases step with
              | call => cases finished
              | other step => exact .inl ⟨finished, turns.other step⟩
          | turn => exact .inr ⟨_, turns, .refl⟩
        · cases step with
          | move step => exact .inr ⟨s₀, turns, moves.tail step⟩
          | turn => exact .inr ⟨_, turns.whole moves trivial, .refl⟩
  rcases stage _ reach with ⟨_, turns⟩ | ⟨_, turns, moves⟩
  · exact turns
  · exact turns.whole moves trivial

end Thread
