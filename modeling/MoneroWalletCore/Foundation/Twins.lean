import MoneroWalletCore.Foundation.Thread

/-! Two runs side by side. Programs are twins when they make linked calls, and go on as twins from
linked answers. A system whose turn is its own twin can then follow any run of itself, from a
state that differs in ways which the links allow for.
-/

namespace Program

variable {Op : Type} {Ans : Op → Type} {ε α α' β β' σ : Type}

/-- Which calls are linked, and by which of their answers. -/
abbrev Linking (Op : Type) (Ans : Op → Type) :=
  (op op' : Op) → (Ans op → Ans op' → Prop) → Prop

variable {link : Linking Op Ans}

/-- Programs that make linked calls, and end alike however those are answered alike. -/
inductive Twins (link : Linking Op Ans) (ends : α → α' → Prop)
    : Program Op Ans ε α → Program Op Ans ε α' → Prop
  | pure {value value'} (related : ends value value') : Twins link ends (.pure value) (.pure value')
  | throw {error} : Twins link ends (.throw error) (.throw error)
  | call {op op' next next' answers} (linked : link op op' answers)
    (rest : ∀ answer answer', answers answer answer' →
      Twins link ends (next answer) (next' answer'))
    : Twins link ends (.call op next) (.call op' next')

namespace Twins

variable {ends : α → α' → Prop} {p : Program Op Ans ε α} {p' : Program Op Ans ε α'}

theorem bind {after : β → β' → Prop} {next : α → Program Op Ans ε β}
    {next' : α' → Program Op Ans ε β'} (first : Twins link ends p p')
    (rest : ∀ value value', ends value value' → Twins link after (next value) (next' value'))
    : Twins link after (p.bind next) (p'.bind next') := by
  induction first with
  | pure related => exact rest _ _ related
  | throw => exact .throw
  | call linked _ ih => exact .call linked ih

theorem tryCatch {handler : ε → Program Op Ans ε α} {handler' : ε → Program Op Ans ε α'}
    (block : Twins link ends p p')
    (handles : ∀ error, Twins link ends (handler error) (handler' error))
    : Twins link ends (p.tryCatch handler) (p'.tryCatch handler') := by
  induction block with
  | pure related => exact .pure related
  | throw => exact handles _
  | call linked _ ih => exact .call linked ih

theorem ensure {final : Program Op Ans ε Unit} (block : Twins link ends p p')
    (destructor : Twins link (· = ·) final final)
    : Twins link ends (p.ensure final) (p'.ensure final) := by
  induction block with
  | pure related => exact destructor.bind fun _ _ _ => .pure related
  | throw => exact destructor.bind fun _ _ _ => .throw
  | call linked _ ih => exact .call linked ih

theorem ite {condition : Prop} [Decidable condition] {q : Program Op Ans ε α}
    {q' : Program Op Ans ε α'} (yes : Twins link ends p p') (no : Twins link ends q q')
    : Twins link ends (if condition then p else q) (if condition then p' else q') := by
  split
  · exact yes
  · exact no

/-- A program is its own twin when the calls that it makes are linked to themselves. -/
theorem of_within {p : Program Op Ans ε α} {allowed : Op → Prop} {normal : α → Prop}
    {thrown : ε → Prop} (within : p.Within allowed normal thrown)
    (self : ∀ op, allowed op → link op op (· = ·))
    : Twins link (· = ·) p p := by
  induction p with
  | pure value => exact .pure rfl
  | throw error => exact .throw
  | call op next ih =>
      refine .call (self op within.1) fun answer answer' same => ?_
      subst same
      exact ih answer (within.2 answer)

end Twins

end Program

namespace Thread

open Program Relation

variable {Op : Type} {Ans : Op → Type} {ε σ : Type}
variable {sem : Semantics Op Ans σ} {others : σ → σ → Prop} {turn : Program Op Ans ε Unit}

/-- Alike states take linked steps to alike states, and steps of others to steps of others. -/
structure Follows (sem : Semantics Op Ans σ) (others : σ → σ → Prop) (link : Linking Op Ans)
    (alike : σ → σ → Prop) : Prop where
  acts : ∀ {s s' op op' answers answer next}, alike s s' → link op op' answers →
    sem s op answer next →
    ∃ answer' next', answers answer answer' ∧ sem s' op' answer' next' ∧ alike next next'
  others : ∀ {s s' next}, alike s s' → others s next → ∃ next', others s' next' ∧ alike next next'

/-- Whatever a run reaches, a run from an alike state can reach the like of. Induction on the
steps. -/
theorem Reach.twin {link : Linking Op Ans} {alike : σ → σ → Prop}
    (follows : Follows sem others link alike) (turns : Twins link (· = ·) turn turn)
    {start start' : σ} (first : alike start start') {t : Thread Op Ans ε σ}
    (reach : Reach sem others turn start t)
    : ∃ t', Reach sem others turn start' t' ∧ Twins link (· = ·) t.rest t'.rest
      ∧ alike t.state t'.state := by
  induction reach with
  | refl => exact ⟨⟨.pure (), start'⟩, .refl, .pure rfl, first⟩
  | tail _ step ih =>
      obtain ⟨⟨rest', state'⟩, reach', rests, states⟩ := ih
      cases step with
      | move moves =>
          cases moves with
          | call step =>
              cases rests with
              | call linked rest =>
                  obtain ⟨answer', next', answers, step', alike'⟩ := follows.acts states linked step
                  exact ⟨⟨_, next'⟩, reach'.tail (.move (.call step')), rest _ _ answers, alike'⟩
          | other step =>
              obtain ⟨next', step', alike'⟩ := follows.others states step
              exact ⟨⟨rest', next'⟩, reach'.tail (.move (.other step')), rests, alike'⟩
      | turn =>
          cases rests with
          | pure => exact ⟨⟨turn, state'⟩, reach'.tail .turn, turns, states⟩

end Thread
