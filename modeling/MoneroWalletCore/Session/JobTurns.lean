import MoneroWalletCore.Runtime.Sections
import MoneroWalletCore.Session.JobRules

/-! What a turn that runs a job consists of: the calm events around the job's body, and the
body between them. No body touches the ticket store.
-/

namespace MoneroWalletCore.Runtime

open Program

variable {rule : Surroundings} {α β : Type}

/-- A body of a class keeps what the class keeps. -/
theorem ActionsKeep.stays {allowed : Op → Prop} {Inv : View → Prop} {p : Worker α}
    (kept : ActionsKeep rule allowed Inv) (stays : p.Stays allowed)
    : p.Keeps rule Inv :=
  kept.body stays

/-- An action outside the ticket store. -/
def Outside : Op → Prop
  | .dequeue | .settle .. => False
  | _ => True

instance : Sections Outside where
  asks _ _ := trivial
  locks _ := trivial
  unlocks _ := trivial
  reads := trivial
  labels _ _ := trivial
  registers _ := trivial
  drops _ := trivial
  notifies _ _ := trivial
  resets := trivial
  times := trivial
  ticks _ _ := trivial
  moves _ _ _ := trivial
  publishes _ := trivial
  describes _ _ _ _ := trivial
  takes := trivial
  forgets := trivial

-----------------------------------------------------------------------------------------
-- The job of a turn
-----------------------------------------------------------------------------------------

def Event.began? : Event → Option (JobPtr × Job)
  | .began ptr job => some (ptr, job)
  | _ => none

/-- The jobs that began, the last first. -/
def jobsBegun (h : History) : List (JobPtr × Job) := h.filterMap Event.began?

def Event.verdict? : Event → Option (JobPtr × Except Exn JobState)
  | .settled ptr _ state => some (ptr, state)
  | _ => none

/-- The jobs that were settled, with the states they took, the last first. -/
def verdicts (h : History) : List (JobPtr × Except Exn JobState) := h.filterMap Event.verdict?

@[simp] theorem verdicts_asked {c : Call} {answer : c.Answer} {m : Mem} {h : History}
    : verdicts (.asked c answer m :: h) = verdicts h := rfl

@[simp] theorem verdicts_settled {ptr : JobPtr} {out : Json} {state : Except Exn JobState}
    {h : History}
    : verdicts (.settled ptr out state :: h) = (ptr, state) :: verdicts h := rfl

/-- Outside the ticket store only calls leave events. -/
theorem keeps_events {f : Event → Option β} {events : List β}
    (calls : ∀ (c : Call) (answer : c.Answer) m, f (.asked c answer m) = none)
    : ActionsKeep rule Outside (fun v => v.history.filterMap f = events) := by
  intro v op answer v' outside step holds
  cases op with
  | update f =>
      obtain ⟨o, rfl, rfl⟩ := step
      exact holds
  | lock mode =>
      cases step
      exact holds
  | unlock mode =>
      cases step
      exact holds
  | dequeue => exact outside.elim
  | settle ptr out => exact outside.elim
  | ask c =>
      obtain ⟨_, rfl⟩ := step
      rw [View.push_history, List.filterMap_cons_none (calls c answer v.mem)]
      exact holds

/-- Staying outside the ticket store begins no job. -/
theorem Worker.Stays.begins {p : Worker α} (stays : p.Stays Outside) (v : View)
    : p.wp (View.act rule) (fun _ v' => jobsBegun v'.history = jobsBegun v.history)
        (fun _ v' => jobsBegun v'.history = jobsBegun v.history) v :=
  (keeps_events fun _ _ _ => rfl).body stays v rfl

/-- Nor does it settle one. -/
theorem Worker.Stays.settles {p : Worker α} (stays : p.Stays Outside) (v : View)
    : p.wp (View.act rule) (fun _ v' => verdicts v'.history = verdicts v.history)
        (fun _ v' => verdicts v'.history = verdicts v.history) v :=
  (keeps_events fun _ _ _ => rfl).body stays v rfl

theorem Reporting.outside {op : Op} (reporting : Reporting op) : Outside op := by
  cases op <;> trivial

/-- The run of a job begins no other. -/
theorem run_begins {ptr : JobPtr} {job : Job} (v : View)
    : (run ptr job).wp (View.act rule) (fun _ v' => jobsBegun v'.history = jobsBegun v.history)
        (fun _ v' => jobsBegun v'.history = jobsBegun v.history) v := by
  have reports : ActionsKeep rule Reporting (fun v' => jobsBegun v'.history = jobsBegun v.history) :=
    (keeps_events fun _ _ _ => rfl).mono fun _ => Reporting.outside
  apply run_settles reports reports _ rfl
  intro v' same
  apply wp_mono (Worker.Stays.begins dispatch_stays v')
  · exact fun _ _ kept => kept.trans same
  · exact fun _ _ kept => kept.trans same

/-- The run of a job ends with a verdict, and with what its body ends with for that verdict. -/
theorem run_verdict {Pre : View → Prop} {Fin : Except Exn JobState → View → Prop}
    (before : ActionsKeep rule Reporting Pre) (after : ∀ state, ActionsKeep rule Reporting (Fin state))
    {ptr : JobPtr} {job : Job}
    (settled : ∀ state v out, Fin state v → Fin state (v.settle ptr out))
    (body : ∀ v, Pre v → (dispatch job).wp (View.act rule) (fun out => Fin (outcome out))
      (fun _ => Fin (.ok .failed)) v)
    {v : View} (unsettled : verdicts v.history = []) (holds : Pre v)
    : (run ptr job).wp (View.act rule)
        (fun _ v' => ∃ state, verdicts v'.history = [(ptr, state)] ∧ Fin state v')
        (fun _ v' => ∃ state, verdicts v'.history = [(ptr, state)] ∧ Fin state v') v := by
  have quiet {events : List (JobPtr × Except Exn JobState)}
      : ActionsKeep rule Reporting (fun v => verdicts v.history = events) :=
    (keeps_events fun _ _ _ => rfl).mono fun _ => Reporting.outside
  have ended : ActionsKeep rule Reporting
      (fun v => ∃ state, verdicts v.history = [(ptr, state)] ∧ Fin state v) := by
    intro v op answer v' reporting step ⟨state, verdict, fin⟩
    exact ⟨state, quiet v op answer v' reporting step verdict,
      after state v op answer v' reporting step fin⟩
  apply run_settles (before.and quiet) ended _ ⟨holds, unsettled⟩
  intro v' ⟨ready, unsettled'⟩
  have verdict {v'' : View} (out : Json) (same : verdicts v''.history = verdicts v'.history)
      : verdicts (v''.settle ptr out).history = [(ptr, outcome out)] := by
    rw [View.settle, View.push_history, verdicts_settled, same, unsettled']
  apply wp_mono (wp_and (body v' ready) (Worker.Stays.settles dispatch_stays v'))
  · exact fun out v'' ⟨fin, same⟩ => ⟨_, verdict out same, settled _ v'' out fin⟩
  · intro error v'' ⟨fin, same⟩
    exact ⟨_, verdict (caught error) same, outcome_caught ▸ settled _ v'' (caught error) fin⟩

/-- What the run of a job leads to, a turn leads to that begins it. -/
theorem turn_begins {Fin : JobPtr → Job → View → Prop} {v : View}
    (noneYet : jobsBegun v.history = [])
    (ends : ∀ ptr job, (run ptr job).wp (View.act rule) (fun _ => Fin ptr job)
      (fun _ => Fin ptr job) (v.push (.began ptr job)))
    : turn.wp (View.act rule)
        (fun _ v' => ∀ ptr job, (ptr, job) ∈ jobsBegun v'.history → Fin ptr job v')
        (fun _ _ => True) v := by
  refine wp_bind.mpr (wp_dequeue.mpr fun front => ?_)
  rw [wp_tryCatch]
  cases front with
  | none =>
      have idle {v' : View} (same : jobsBegun v'.history = jobsBegun v.history) ptr job
          (began : (ptr, job) ∈ jobsBegun v'.history)
          : Fin ptr job v' := by
        rw [same, noneYet] at began
        exact (List.not_mem_nil began).elim
      apply wp_mono (Worker.Stays.begins tick_stays _)
      · exact fun _ _ same => idle same
      · exact fun _ _ same => idle same
  | some front =>
      have only {v' : View}
          (same : jobsBegun v'.history = jobsBegun (.began front.1 front.2 :: v.history))
          (holds : Fin front.1 front.2 v') ptr job (began : (ptr, job) ∈ jobsBegun v'.history)
          : Fin ptr job v' := by
        have alone : jobsBegun (.began front.1 front.2 :: v.history) = [front] :=
          congrArg (front :: ·) noneYet
        rw [same, alone, List.mem_singleton] at began
        cases began
        exact holds
      apply wp_mono (wp_and (run_begins _) (ends front.1 front.2))
      · exact fun _ _ both => only both.1 both.2
      · exact fun _ _ both => only both.1 both.2

-----------------------------------------------------------------------------------------
-- The events of a turn
-----------------------------------------------------------------------------------------

theorem View.at_self (v : View) : View.at v.mem v.history = v := by
  obtain ⟨mem, history, owned⟩ := v
  simp only [View.at, owned]

variable [Unaware rule]

/-- In unaware surroundings an action goes alike whatever happened before it. -/
theorem View.act_anywhere {v v' : View} {op : Op} {answer : op.Ans}
    (step : View.act rule v op answer v')
    : ∃ new, v'.history = new ++ v.history
      ∧ ∀ h, View.act rule (View.at v.mem h) op answer (View.at v'.mem (new ++ h)) := by
  cases op with
  | update f =>
      obtain ⟨o, rfl, rfl⟩ := step
      exact ⟨[], rfl, fun _ => ⟨o, rfl, rfl⟩⟩
  | lock mode =>
      cases step
      exact ⟨[], rfl, fun _ => rfl⟩
  | unlock mode =>
      cases step
      exact ⟨[], rfl, fun _ => rfl⟩
  | dequeue =>
      cases step
      exact ⟨beganBy answer, rfl, fun _ => rfl⟩
  | settle ptr out =>
      obtain ⟨same, rfl⟩ := step
      exact ⟨[.settled ptr out answer], rfl, fun _ => ⟨same, rfl⟩⟩
  | ask c =>
      obtain ⟨allowed, rfl⟩ := step
      refine ⟨[.asked c answer v.mem], rfl, fun h => ⟨?_, by simp [View.at, View.push]⟩⟩
      rw [View.at_mem, View.own_mem]
      exact Unaware.alike _ _ _ allowed

/-- So does a run, which is told by its own events. Induction on the run. -/
theorem runs_anywhere {p : Worker α} {v v' : View} {result : Except Exn α}
    (runs : Runs (View.act rule) p v result v')
    : ∃ new, v'.history = new ++ v.history
      ∧ ∀ h, Runs (View.act rule) p (View.at v.mem h) result (View.at v'.mem (new ++ h)) := by
  induction runs with
  | pure => exact ⟨[], rfl, fun _ => .pure⟩
  | throw => exact ⟨[], rfl, fun _ => .throw⟩
  | call step _ ih =>
      obtain ⟨first, begun, acts⟩ := View.act_anywhere step
      obtain ⟨later, ended, rest⟩ := ih
      refine ⟨later ++ first, by rw [ended, begun, List.append_assoc], fun h => ?_⟩
      rw [List.append_assoc]
      exact .call (acts h) (rest (first ++ h))

/-- A turn leads to what its program does, told by its own events. -/
theorem World.Turn.told {w w' : World} {new : History} {Fin : View → Prop}
    (whole : World.Turn rule w w') (split : w'.history = new ++ w.history)
    (ends : turn.wp (View.act rule) (fun _ => Fin) (fun _ _ => True) (View.at w.mem []))
    : Fin (View.at w'.mem new) := by
  obtain ⟨events, ended, anywhere⟩ := runs_anywhere whole.runs
  have same : events = new := List.append_cancel_right (ended.symm.trans split)
  subst same
  have alone := anywhere []
  rw [List.append_nil] at alone
  exact alone.returned ends

/-- What the run of a job leads to, told by the events of its turn. -/
theorem World.Turn.job {w w' : World} {new : History} {ptr : JobPtr} {job : Job} {Fin : View → Prop}
    (whole : World.Turn rule w w') (split : w'.history = new ++ w.history)
    (began : (ptr, job) ∈ jobsBegun new)
    (ends : (run ptr job).wp (View.act rule) (fun _ => Fin) (fun _ => Fin)
      (View.at w.mem [.began ptr job]))
    : Fin (View.at w'.mem new) := by
  have ends' (ptr' : JobPtr) (job' : Job)
      : (run ptr' job').wp (View.act rule)
          (fun _ v => ptr' = ptr → job' = job → Fin v) (fun _ v => ptr' = ptr → job' = job → Fin v)
          (View.at w.mem [.began ptr' job']) := by
    by_cases this : ptr' = ptr ∧ job' = job
    · obtain ⟨rfl, rfl⟩ := this
      exact wp_mono ends (fun _ _ fin _ _ => fin) (fun _ _ fin _ _ => fin)
    · apply wp_mono (run_begins _)
      · exact fun _ _ _ samePtr sameJob => absurd ⟨samePtr, sameJob⟩ this
      · exact fun _ _ _ samePtr sameJob => absurd ⟨samePtr, sameJob⟩ this
  exact whole.told split (turn_begins rfl ends') ptr job began rfl rfl

/-- What a tick leads to, told by the events of its turn. -/
theorem World.Turn.tick {w w' : World} {new : History} {Fin : View → Prop}
    (whole : World.Turn rule w w') (split : w'.history = new ++ w.history)
    (none : jobsBegun new = [])
    (ends : tick.wp (View.act rule) (fun _ => Fin) (fun _ => Fin) (View.at w.mem []))
    : Fin (View.at w'.mem new) := by
  have ends' : turn.wp (View.act rule) (fun _ v => jobsBegun v.history = [] → Fin v)
      (fun _ _ => True) (View.at w.mem []) := by
    refine wp_bind.mpr (wp_dequeue.mpr fun front => ?_)
    rw [wp_tryCatch]
    cases front with
    | none => exact wp_mono ends (fun _ _ fin _ => fin) (fun _ _ fin _ => fin)
    | some front =>
        apply wp_mono (run_begins _)
        · exact fun _ _ same none => nomatch same.symm.trans none
        · exact fun _ _ same none => nomatch same.symm.trans none
  exact whole.told split ends' none

end MoneroWalletCore.Runtime
