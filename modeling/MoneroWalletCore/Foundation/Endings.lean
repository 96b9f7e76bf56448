import Mathlib.Logic.Hydra
import MoneroWalletCore.Foundation.Pool

/-! Runs of a pool in which no program is started. Each call leaves less of one program, so while
finitely many are under way such a run comes to an end, in whatever order the threads go on.
-/

theorem Program.call_of_head {Op : Type} {Ans : Op → Type} {ε α : Type}
    {p : Program Op Ans ε α} {op : Op} (waits : p.head = some op)
    : ∃ next, p = .call op next := by
  cases p with
  | call op' next =>
      cases waits
      exact ⟨next, rfl⟩
  | pure value => cases waits
  | throw error => cases waits

namespace Pool

open Program Relation

variable {ι : Type} [DecidableEq ι] {Op : ι → Type} {Ans : ∀ i, Op i → Type} {ε α : ι → Type}
variable {σ : Type} {rules : Rules ι Op Ans ε α σ} {t t' : Pool ι Op Ans ε α σ}

/-- Some thread makes its next call. -/
inductive Goes (rules : Rules ι Op Ans ε α σ)
    : Pool ι Op Ans ε α σ → Pool ι Op Ans ε α σ → Prop
  | call {t i op next answer s'} (waits : t.rest i = .call op next) (may : rules.may t i op)
    (acts : rules.act i t.state op answer s') : Goes rules t (t.resume i (next answer) s')

theorem Goes.step (goes : Goes rules t t') : Step rules t t' := by
  cases goes with
  | call waits may acts => exact .call waits may acts

/-- So does some thread after whatever happens to the state besides. -/
def GoesOn (rules : Rules ι Op Ans ε α σ) (t t' : Pool ι Op Ans ε α σ) : Prop :=
  ∃ s, ReflTransGen rules.others t.state s ∧ Goes rules { t with state := s } t'

theorem Goes.on (goes : Goes rules t t') : GoesOn rules t t' := ⟨t.state, .refl, goes⟩

theorem GoesOn.reach (goes : GoesOn rules t t') : Reach rules t t' := by
  obtain ⟨s, besides, goes⟩ := goes
  have before : Reach rules t { t with state := s } := by
    clear goes
    induction besides with
    | refl => exact .refl
    | tail _ step ih => exact ih.tail (.other step)
  exact before.tail goes.step

theorem Reach.goOn {start : Pool ι Op Ans ε α σ} (reach : Reach rules start t)
    (goes : ReflTransGen (GoesOn rules) t t')
    : Reach rules start t' := by
  induction goes with
  | refl => exact reach
  | tail _ goes ih => exact ReflTransGen.trans ih goes.reach

/-- A thread's program, once a call of it is answered. -/
inductive Shorter : (Σ i, Program (Op i) (Ans i) (ε i) (α i)) →
    (Σ i, Program (Op i) (Ans i) (ε i) (α i)) → Prop
  | call {i op next} (answer : Ans i op) : Shorter ⟨i, next answer⟩ ⟨i, .call op next⟩

omit [DecidableEq ι] in
theorem shorter_wellFounded
    : WellFounded (Shorter : (Σ i, Program (Op i) (Ans i) (ε i) (α i)) → _ → Prop) := by
  constructor
  rintro ⟨i, p⟩
  induction p with
  | pure value => exact ⟨_, fun _ shorter => by cases shorter⟩
  | throw error => exact ⟨_, fun _ shorter => by cases shorter⟩
  | call op next ih =>
      refine ⟨_, fun q shorter => ?_⟩
      cases shorter
      exact ih _

/-- No other thread is in the middle of a program. -/
def RestsBut (t : Pool ι Op Ans ε α σ) (threads : Finset ι) : Prop :=
  ∀ i, i ∉ threads → (t.rest i).head = none

theorem Goes.restsBut {threads : Finset ι} (goes : Goes rules t t') (rests : t.RestsBut threads)
    : t'.RestsBut threads := by
  cases goes with
  | @call i op next answer s' waits may acts =>
      intro j outside
      have other : j ≠ i := by
        rintro rfl
        have waiting := rests j outside
        rw [waits] at waiting
        cases waiting
      rw [resume_other other]
      exact rests j outside

/-- What is left of all of them. -/
def left (t : Pool ι Op Ans ε α σ) (threads : Finset ι)
    : Multiset (Σ i, Program (Op i) (Ans i) (ε i) (α i)) :=
  threads.val.map fun i => ⟨i, t.rest i⟩

theorem Goes.cuts {threads : Finset ι} (goes : Goes rules t t') (rests : t.RestsBut threads)
    : CutExpand Shorter (t'.left threads) (t.left threads) := by
  cases goes with
  | @call i op next answer s' waits may acts =>
      have inside : i ∈ threads := by
        by_contra outside
        have waiting := rests i outside
        rw [waits] at waiting
        cases waiting
      have split : threads.val = i ::ₘ (threads.erase i).val := by
        rw [Finset.erase_val, Multiset.cons_erase inside]
      have others : ((threads.erase i).val.map fun j =>
            (⟨j, (t.resume i (next answer) s').rest j⟩ : Σ i, Program (Op i) (Ans i) (ε i) (α i)))
          = (threads.erase i).val.map fun j => ⟨j, t.rest j⟩ := by
        apply Multiset.map_congr rfl
        intro j inside
        rw [resume_other (Finset.ne_of_mem_erase inside)]
      rw [left, left, split, Multiset.map_cons, Multiset.map_cons, others, resume_same, waits]
      exact cutExpand_single_add (.call answer) _

/-- A run in which nothing is started comes to an end. Induction on what is left. -/
theorem RestsBut.ends {threads : Finset ι} (rests : t.RestsBut threads)
    : Acc (fun t' t => GoesOn rules t t') t := by
  have cuts := shorter_wellFounded.cutExpand.apply (t.left threads)
  generalize same : t.left threads = heads at cuts
  induction cuts generalizing t with
  | intro heads _ ih =>
      subst same
      refine ⟨_, fun t' goes => ?_⟩
      obtain ⟨s, _, goes⟩ := goes
      have rests' : RestsBut { t with state := s } threads := rests
      exact ih _ (goes.cuts rests') (goes.restsBut rests') rfl

end Pool
