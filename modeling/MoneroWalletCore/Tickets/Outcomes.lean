import MoneroWalletCore.Tickets.Filing
import MoneroWalletCore.Tickets.Receipts

/-! What becomes of a job that the worker takes: one outcome, stored before it is told, told once
at most, and answered to its client until the job is acknowledged.
-/

namespace MoneroWalletCore.Runtime

open Program

-----------------------------------------------------------------------------------------
-- What a history says of outcomes
-----------------------------------------------------------------------------------------

/-- A job that has ended, with the answer of its body. -/
structure Ending where
  ptr : JobPtr
  job : Job
  out : Json
  state : JobState

/-- The jobs that were in hand when an outcome was stored, the last first. -/
def ended : History → List Ending
  | [] => []
  | .settled ptr out (.ok state) :: older =>
      match inHand older with
      | some (_, job) => ⟨ptr, job, out, state⟩ :: ended older
      | none => ended older
  | _ :: older => ended older

@[simp] theorem ended_asked {c : Call} {answer : c.Answer} {m : Mem} {h : History}
    : ended (.asked c answer m :: h) = ended h := rfl

@[simp] theorem ended_began {ptr : JobPtr} {job : Job} {h : History}
    : ended (.began ptr job :: h) = ended h := rfl

theorem ended_settled {ptr ptr' : JobPtr} {job : Job} {out : Json} {state : JobState} {h : History}
    (held : inHand h = some (ptr', job))
    : ended (.settled ptr out (.ok state) :: h) = ⟨ptr, job, out, state⟩ :: ended h := by
  rw [ended, held]

/-- The payload of an event of a finished job. -/
def Event.telling? : Event → Option Json
  | .asked (.emit event payload) _ _ => if event = "jobFinished" then some payload else none
  | _ => none

/-- The finished jobs that were told of, the last first. -/
def tellings (h : History) : List Json := h.filterMap Event.telling?

@[simp] theorem tellings_began {ptr : JobPtr} {job : Job} {h : History}
    : tellings (.began ptr job :: h) = tellings h := rfl

@[simp] theorem tellings_settled {ptr : JobPtr} {out : Json} {state : Except Exn JobState}
    {h : History}
    : tellings (.settled ptr out state :: h) = tellings h := rfl

/-- What is told of an ended job. -/
def Ending.telling (e : Ending) : Json := finished e.job e.state

/-- The record that an answer leaves of its job. -/
inductive Ending.Leaves : Ending → Job → Prop
  | done {ptr job result}
    : Leaves ⟨ptr, job, okWith result, .done⟩ { job with state := .done, result }
  | failed {ptr job msg}
    : Leaves ⟨ptr, job, err msg, .failed⟩ { job with state := .failed, error := msg }

-----------------------------------------------------------------------------------------
-- The invariant
-----------------------------------------------------------------------------------------

/-- How the history accounts for the jobs that were taken. -/
structure Accounted (t : Tickets) (h : History) : Prop where
  jobs : jobsBegun h = (inHand h).toList ++ (ended h).map fun e => (e.ptr, e.job)
  told : (tellings h).Sublist ((ended h).map Ending.telling)
  /-- An outcome that was just stored is not told of yet. -/
  fresh : ∀ job state, JustSettled h job state →
    (tellings h).Sublist ((ended h).tail.map Ending.telling)
  records : ∀ e ∈ ended h, ∃ job, t.heap[e.ptr]? = some job ∧ e.Leaves job

theorem Ending.Leaves.settled {e : Ending} {job : Job} (leaves : e.Leaves job)
    : job.state = e.state ∧ (e.state = .done ∨ e.state = .failed) := by
  cases leaves with
  | done => exact ⟨rfl, .inl rfl⟩
  | failed => exact ⟨rfl, .inr rfl⟩

/-- An ended job moves no more. -/
theorem JobState.Moves.settled {state state' : JobState} (moves : state.Moves state')
    (settled : state = .done ∨ state = .failed)
    : state' = state := by
  cases moves with
  | stays => rfl
  | starts => rcases settled with same | same <;> cases same
  | ends => rcases settled with same | same <;> cases same

variable {w w' : World}

/-- No step changes the record of a job that has ended. -/
theorem World.Files.records (files : w.Files w') (few : w'.tickets.Few)
    (filed : Filed w.tickets w.history) {e : Ending} {job : Job}
    (found : w.tickets.heap[e.ptr]? = some job) (leaves : e.Leaves job)
    : w'.tickets.heap[e.ptr]? = some job := by
  obtain ⟨job', handles⟩ := files.handles few filed found
  have ended : job.state = .done ∨ job.state = .failed := by
    rw [leaves.settled.1]
    exact leaves.settled.2
  rw [handles.found, handles.unchanged (handles.moves.settled ended)]

namespace Accounted

variable {t : Tickets} {h : History} (accounted : Accounted t h)

include accounted

/-- The worker takes a job with none in hand. -/
theorem takes (free : inHand h = none) (front : Option (JobPtr × Job)) (t' : Tickets)
    (records : ∀ e ∈ ended h, ∃ job, t'.heap[e.ptr]? = some job ∧ e.Leaves job)
    : Accounted t' (beganBy front ++ h) := by
  cases front with
  | none => exact { accounted with records }
  | some front =>
      have jobs := accounted.jobs
      rw [free] at jobs
      refine ⟨?_, accounted.told, ?_, records⟩
      · exact congrArg (front :: ·) jobs
      · rintro job state ⟨_, _, _, impossible, _⟩
        cases impossible

/-- An answer is stored for the job in hand. -/
theorem settles {ptr : JobPtr} {job : Job} {out : Json} {state : JobState}
    (held : inHand h = some (ptr, job)) (t' : Tickets)
    (records : ∀ e ∈ ended h, ∃ job, t'.heap[e.ptr]? = some job ∧ e.Leaves job)
    (own : ∃ job', t'.heap[ptr]? = some job' ∧ (Ending.mk ptr job out state).Leaves job')
    : Accounted t' (.settled ptr out (.ok state) :: h) := by
  have jobs := accounted.jobs
  rw [held] at jobs
  constructor
  case jobs =>
    rw [ended_settled held]
    exact jobs
  case told =>
    rw [ended_settled held]
    exact accounted.told.trans (List.sublist_cons_self _ _)
  case fresh =>
    intro _ _ _
    rw [ended_settled held]
    exact accounted.told
  case records =>
    rw [ended_settled held]
    exact List.forall_mem_cons.mpr ⟨own, records⟩

/-- Whatever the answer is, it leaves the record that it says. -/
theorem settle {ptr : JobPtr} {job : Job} {out : Json} (filed : Filed t h)
    (held : inHand h = some (ptr, job)) (answered : Answered out)
    (records : ∀ e ∈ ended h, ∃ job, (t.settle ptr out).2.heap[e.ptr]? = some job ∧ e.Leaves job)
    : Accounted (t.settle ptr out).2 (.settled ptr out (t.settle ptr out).1 :: h) := by
  have found := (filed.hand ptr job held).1
  rcases answered with ⟨msg, rfl⟩ | ⟨result, rfl⟩
  · rw [Tickets.settle_err] at records ⊢
    exact accounted.settles held _ records ⟨_, Filed.assigned_own found, .failed⟩
  · rw [Tickets.settle_okWith] at records ⊢
    exact accounted.settles held _ records ⟨_, Filed.assigned_own found, .done⟩

/-- A call is made, which tells of the job that has just ended if it tells of one. -/
theorem asks {c : Call} {answer : c.Answer} {m : Mem} (attentive : Attentive h (.ask c))
    : Accounted t (.asked c answer m :: h) := by
  have stale (job : Job) (state : JobState)
      : ¬JustSettled (.asked c answer m :: h) job state := by
    rintro ⟨_, _, _, impossible, _⟩
    cases impossible
  refine ⟨accounted.jobs, ?_, fun job state just => absurd just (stale job state), accounted.records⟩
  cases told : Event.telling? (.asked c answer m) with
  | none =>
      rw [tellings, List.filterMap_cons_none told]
      exact accounted.told
  | some payload =>
      cases c with
      | emit event payload' =>
          by_cases named : event = "jobFinished"
          · obtain ⟨job, state, just, same⟩ := attentive named
            have fresh := accounted.fresh job state just
            obtain ⟨ptr, out, older, rfl, held⟩ := just
            have same' : payload = (Ending.mk ptr job out state).telling := by
              rw [Event.telling?, if_pos named] at told
              exact (Option.some.inj told).symm.trans same
            rw [ended_settled held] at fresh
            rw [tellings, List.filterMap_cons_some told, ended_asked, ended_settled held, same']
            exact fresh.cons_cons _
          · rw [Event.telling?, if_neg named] at told
            cases told
      | _ => cases told

end Accounted

/-- The step that the worker takes next keeps the account. -/
theorem World.Next.accounted {rule : Surroundings} (next : World.Next rule w w')
    (few : w'.tickets.Few) (filed : Filed w.tickets w.history)
    (accounted : Accounted w.tickets w.history)
    : Accounted w'.tickets w'.history := by
  have files := next.files
  have records (e : Ending) (member : e ∈ ended w.history)
      : ∃ job, w'.tickets.heap[e.ptr]? = some job ∧ e.Leaves job := by
    obtain ⟨job, found, leaves⟩ := accounted.records e member
    exact ⟨job, files.records few filed found leaves, leaves⟩
  cases next with
  | turn => exact accounted
  | other step =>
      cases step with
      | client call => exact { accounted with records }
      | setWalletsDir dir => exact accounted
      | probe connected height isOpen => exact accounted
  | @act op answer _ attentive step =>
      cases op with
      | update f =>
          obtain ⟨_, rfl⟩ := step
          exact accounted
      | lock mode =>
          cases step
          exact accounted
      | unlock mode =>
          cases step
          exact accounted
      | dequeue =>
          obtain ⟨rfl, rfl⟩ := step
          exact accounted.takes attentive _ _ records
      | settle ptr out =>
          obtain ⟨rfl, rfl⟩ := step
          obtain ⟨⟨job, held⟩, answered⟩ := attentive
          exact accounted.settle filed held answered records
      | ask c =>
          obtain ⟨_, rfl⟩ := step
          exact accounted.asks attentive

theorem Reachable.accounted {rule : Surroundings} {hasNotify : Bool} {t : System}
    (reach : Reachable rule hasNotify t) (few : t.state.tickets.Few)
    : Accounted t.state.tickets t.state.history := by
  have start : Accounted {} [] := by
    refine ⟨rfl, List.Sublist.refl _, ?_, nofun⟩
    rintro _ _ ⟨_, _, _, impossible, _⟩
    cases impossible
  have kept (w w' : World) (next : World.Next rule w w')
      (holds : w.tickets.Few → Filed w.tickets w.history ∧ Accounted w.tickets w.history)
      (few : w'.tickets.Few)
      : Filed w'.tickets w'.history ∧ Accounted w'.tickets w'.history := by
    obtain ⟨filed, accounted⟩ := holds (Nat.lt_of_le_of_lt next.files.more few)
    exact ⟨next.files.filed few filed, next.accounted few filed accounted⟩
  exact (Reachable.attentive (fun _ => ⟨Filed.start, start⟩) kept reach few).2

-----------------------------------------------------------------------------------------
-- Bodies and outcomes
-----------------------------------------------------------------------------------------

variable {rule : Surroundings} {v v' : View}

/-- Outside the ticket store nothing is taken and nothing ends. -/
theorem keeps_account {held : Option (JobPtr × Job)} {endings : List Ending}
    {begun : List (JobPtr × Job)}
    : ActionsKeep rule Outside (fun v => inHand v.history = held ∧ ended v.history = endings
        ∧ jobsBegun v.history = begun) := by
  intro v op answer v' outside step holds
  cases op with
  | update f =>
      obtain ⟨o, rfl, rfl⟩ := step
      exact holds
  | lock mode =>
      cases step
      exact holds
  | unlock mode =>
      cases step
      exact holds
  | dequeue => exact outside.elim
  | settle ptr out => exact outside.elim
  | ask c =>
      obtain ⟨_, rfl⟩ := step
      exact holds

/-- A body outside the ticket store, with the account that it keeps. -/
theorem Worker.Stays.accounts (rule : Surroundings) {α : Type} {p : Worker α} {gives : α → Prop} {thrown : Exn → Prop}
    (stays : p.Stays Outside) (ends : p.Within (fun _ => True) gives thrown) (v : View)
    : p.wp (View.act rule)
        (fun value v' => gives value ∧ inHand v'.history = inHand v.history
          ∧ ended v'.history = ended v.history)
        (fun error v' => thrown error ∧ inHand v'.history = inHand v.history
          ∧ ended v'.history = ended v.history) v := by
  have kept : ActionsKeep rule (fun op => Outside op ∧ True) (fun v' =>
      inHand v'.history = inHand v.history ∧ ended v'.history = ended v.history
      ∧ jobsBegun v'.history = jobsBegun v.history) :=
    keeps_account.mono fun _ both => both.1
  exact wp_mono ((stays.and ends).keeps kept ⟨rfl, rfl, rfl⟩)
    (fun _ _ both => ⟨both.1.2, both.2.1, both.2.2.1⟩)
    (fun _ _ both => ⟨both.1.2, both.2.1, both.2.2.1⟩)

/-- No job was ever acknowledged by a mark of its own. -/
theorem Reachable.unmarked {hasNotify : Bool} {t : System} (reach : Reachable rule hasNotify t)
    : t.state.tickets.Each fun job => job.acked = false := by
  have lasts (job job' : Job) (same : job'.submission = job.submission) (unmarked : job.acked = false)
      : job'.acked = false :=
    (congrArg (fun s => s.2.2.2.2) same).trans unmarked
  have start : Tickets.Each {} fun job => job.acked = false := by simp [Tickets.Each]
  exact @Reachable.store (fun t => t.Each fun job => job.acked = false) _ _ _ start
    (fun _ _ _ => Tickets.Each.client fun _ _ _ _ _ => rfl) (fun _ => Tickets.Each.dequeue lasts)
    (fun _ _ _ => Tickets.Each.settle lasts) reach

/-- The client of an ended job is answered as its body answered. -/
theorem Ending.Leaves.answers {e : Ending} {job : Job} {t : Tickets} (leaves : e.Leaves job)
    (found : t.heap[e.ptr]? = some job) (unmarked : job.acked = false)
    (listed : t.jobs.lookup e.job.id = some e.ptr)
    : str (t.jobStatus e.job.id e.job.receipt) "state" = e.state.name
      ∧ t.jobResult e.job.id e.job.receipt = e.out := by
  have receipt : job.receipt = e.job.receipt := by cases leaves <;> rfl
  have held : t.held e.job.id e.job.receipt = some (e.ptr, job) :=
    Tickets.held_eq_some.mpr ⟨listed, found, receipt⟩
  simp only [Tickets.jobStatus, Tickets.jobResult, held, unmarked]
  cases leaves with
  | done => exact ⟨rfl, rfl⟩
  | failed => exact ⟨rfl, rfl⟩

/-- Every call on the id fails, and changes nothing. -/
def Tickets.Unknown (t : Tickets) (id : String) : Prop :=
  ∀ m (call : ClientCall), call.names id = true →
    ((call.run m t).1 = err "unknown job" ∨ (call.run m t).1 = .bool false)
    ∧ (call.run m t).2 = t

theorem Tickets.unknown_of_unlisted {t : Tickets} {id : String} (unlisted : t.jobs.lookup id = none)
    : t.Unknown id := by
  have unheld (receipt : String) : t.held id receipt = none := by
    simp only [Tickets.held, unlisted]
  intro m call names
  cases call with
  | startJob kind params receipt => cases names
  | jobStatus id' receipt =>
      have same : id' = id := by simpa [ClientCall.names, ClientCall.presents] using names
      subst same
      simp [ClientCall.run, Tickets.jobStatus, unheld]
  | jobResult id' receipt =>
      have same : id' = id := by simpa [ClientCall.names, ClientCall.presents] using names
      subst same
      simp [ClientCall.run, Tickets.jobResult, unheld]
  | ackJob id' receipt =>
      have same : id' = id := by simpa [ClientCall.names, ClientCall.presents] using names
      subst same
      simp [ClientCall.run, Tickets.ackJob, unheld]
  | cancelJob id' receipt =>
      have same : id' = id := by simpa [ClientCall.names, ClientCall.presents] using names
      subst same
      simp [ClientCall.run, Tickets.cancelJob, unheld]

-----------------------------------------------------------------------------------------
-- Until the acknowledgement, and after it
-----------------------------------------------------------------------------------------

/-- The system goes on, and no acknowledgement of the id succeeds. -/
def System.Unacked (rule : Surroundings) (id : String) : System → System → Prop :=
  Relation.ReflTransGen fun t t' =>
    Thread.Step (World.act rule) World.Other turn t t'
      ∧ ∀ receipt, (t.state.tickets.ackJob id receipt).1 = true →
        t'.state ≠ t.state.afterClient (.ackJob id receipt)

theorem System.Unacked.later {id : String} {t t' : System} (unacked : System.Unacked rule id t t')
    : System.Later rule t t' := by
  induction unacked with
  | refl => exact .refl
  | tail _ step ih => exact ih.tail step.1

/-- The job was taken off the queue, and is listed. -/
def World.Lists (w : World) (id : String) (ptr : JobPtr) : Prop :=
  ∃ job, w.tickets.heap[ptr]? = some job ∧ job.id = id ∧ job.state ≠ .queued
    ∧ w.tickets.jobs.lookup id = some ptr

/-- A step delists such a job by acknowledging it only. -/
theorem World.Files.lists (files : w.Files w') (few : w'.tickets.Few)
    (filed : Filed w.tickets w.history) {id : String} {ptr : JobPtr} (lists : w.Lists id ptr)
    (unacked : ∀ receipt, (w.tickets.ackJob id receipt).1 = true →
      w' ≠ w.afterClient (.ackJob id receipt))
    : w'.Lists id ptr := by
  obtain ⟨job, found, rfl, begun, listed⟩ := lists
  obtain ⟨job', handles⟩ := files.handles few filed found
  refine ⟨job', handles.found, congrArg Prod.fst handles.same, ?_, ?_⟩
  · intro queued
    have moves := handles.moves
    rw [queued] at moves
    generalize job.state = state at moves begun
    cases moves with
    | stays => exact begun rfl
    | ends settled => rcases settled with same | same <;> cases same
  · rcases handles.leaves listed with stays | ⟨call, same, success, receipt, removed⟩
    · exact stays
    rcases removed with ⟨_, queued⟩ | ⟨rfl, _⟩
    · exact absurd queued begun
    · refine absurd same (unacked receipt ?_)
      simpa [ClientCall.run] using success

theorem Reachable.lists {hasNotify : Bool} {t t' : System} (reach : Reachable rule hasNotify t)
    {id : String} {ptr : JobPtr} (later : System.Unacked rule id t t')
    (lists : t.state.Lists id ptr) (few : t'.state.tickets.Few)
    : t'.state.Lists id ptr := by
  induction later with
  | refl => exact lists
  | tail before step ih =>
      have here : Reachable rule hasNotify _ := Relation.ReflTransGen.trans reach (System.Unacked.later before)
      have files := (here.attends.next step.1).files
      have few' := Nat.lt_of_le_of_lt files.more few
      exact files.lists few (here.filed few') (ih few') step.2

/-- A job that has left the map does not come back to it. -/
theorem World.Files.unlisted (files : w.Files w') (few : w'.tickets.Few)
    (filed : Filed w.tickets w.history) {ptr : JobPtr} (bound : ptr < w.tickets.heap.length)
    (unlisted : w.tickets.jobs.lookup (jobId ptr) = none)
    : w'.tickets.jobs.lookup (jobId ptr) = none := by
  have erased {id : String} : (w.tickets.jobs.erase id).lookup (jobId ptr) = none := by
    by_cases own : jobId ptr = id
    · rw [own, AList.lookup_erase]
    · rw [AList.lookup_erase_ne own, unlisted]
  cases files with
  | aside tickets hand sequence => rw [tickets, unlisted]
  | client call same =>
      subst same
      have served := Tickets.served w.mem w.tickets call
      change (call.run w.mem w.tickets).2.Few at few
      change (call.run w.mem w.tickets).2.jobs.lookup (jobId ptr) = none
      generalize (call.run w.mem w.tickets).2 = t', (call.run w.mem w.tickets).1 = answer
        at served few ⊢
      cases served with
      | same => exact unlisted
      | started =>
          have found := List.getElem?_eq_getElem bound
          have other := filed.fresh (by simpa [Tickets.Few, Tickets.push] using few) found
          rw [filed.ids ptr _ found] at other
          exact (AList.lookup_insert_ne other).trans unlisted
      | acked => exact erased
      | cancelled => exact erased
  | takes free tickets history =>
      rcases w.tickets.dequeue_cases with ⟨_, same⟩ | ⟨ptr', rest, queue, took⟩
      · rw [tickets, same, unlisted]
      · rw [tickets, took]
        exact unlisted
  | @settles ptr' job out held answered tickets history =>
      obtain ⟨f, assigned, _⟩ := @Tickets.settle_assigns w.tickets ptr' out
      rw [tickets, assigned]
      exact unlisted

/-- Once acknowledged, an id is unknown for ever. -/
theorem Reachable.acked {hasNotify : Bool} {t : System} (reach : Reachable rule hasNotify t)
    {id receipt : String} (success : (t.state.tickets.ackJob id receipt).1 = true) {t' : System}
    (later : System.Later rule ⟨t.rest, t.state.afterClient (.ackJob id receipt)⟩ t')
    (few : t'.state.tickets.Few)
    : t'.state.tickets.Unknown id := by
  have here : Reachable rule hasNotify ⟨t.rest, t.state.afterClient (.ackJob id receipt)⟩ :=
    reach.tail (.move (.other (.client t.state _)))
  obtain ⟨ptr, job, held, acked⟩ : ∃ ptr job, t.state.tickets.held id receipt = some (ptr, job)
      ∧ (t.state.tickets.ackJob id receipt).2 = t.state.tickets.acked id := by
    unfold Tickets.ackJob at success ⊢
    cases held : t.state.tickets.held id receipt with
    | none => simp [held] at success
    | some found =>
        rw [held] at success
        dsimp only at success ⊢
        split at success
        · cases success
        next settled => exact ⟨found.1, found.2, rfl, by rw [if_neg settled]; rfl⟩
  have kept (w w' : World) (next : World.Next rule w w')
      (holds : w.tickets.Few → Filed w.tickets w.history ∧ id = jobId ptr
        ∧ ptr < w.tickets.heap.length ∧ w.tickets.jobs.lookup (jobId ptr) = none)
      (few : w'.tickets.Few)
      : Filed w'.tickets w'.history ∧ id = jobId ptr ∧ ptr < w'.tickets.heap.length
        ∧ w'.tickets.jobs.lookup (jobId ptr) = none := by
    have files := next.files
    obtain ⟨filed, name, bound, unlisted⟩ := holds (Nat.lt_of_le_of_lt files.more few)
    exact ⟨files.filed few filed, name, Nat.lt_of_lt_of_le bound files.more,
      files.unlisted few filed bound unlisted⟩
  have start (few : (t.state.afterClient (.ackJob id receipt)).tickets.Few)
      : Filed (t.state.afterClient (.ackJob id receipt)).tickets t.state.history ∧ id = jobId ptr
        ∧ ptr < (t.state.afterClient (.ackJob id receipt)).tickets.heap.length
        ∧ (t.state.afterClient (.ackJob id receipt)).tickets.jobs.lookup (jobId ptr) = none := by
    have after : (t.state.afterClient (.ackJob id receipt)).tickets = t.state.tickets.acked id := acked
    refine ⟨here.filed few, ?_⟩
    rw [after] at few ⊢
    obtain ⟨name, _, bound, _⟩ := (reach.filed few).held_at held
    exact ⟨name, bound, by rw [← name]; exact AList.lookup_erase _ _⟩
  obtain ⟨_, name, _, unlisted⟩ := here.keeps kept later start few
  rw [name]
  exact Tickets.unknown_of_unlisted unlisted

/-- The endings of a history only grow. -/
theorem World.Next.ended (next : World.Next rule w w')
    : ended w.history <:+ ended w'.history := by
  cases next with
  | turn => exact List.suffix_refl _
  | other step => cases step <;> exact List.suffix_refl _
  | @act op answer _ attentive step =>
      cases op with
      | update f =>
          obtain ⟨_, rfl⟩ := step
          exact List.suffix_refl _
      | lock mode =>
          cases step
          exact List.suffix_refl _
      | unlock mode =>
          cases step
          exact List.suffix_refl _
      | dequeue =>
          obtain ⟨_, rfl⟩ := step
          cases answer <;> exact List.suffix_refl _
      | settle ptr out =>
          obtain ⟨rfl, rfl⟩ := step
          obtain ⟨⟨job, held⟩, _⟩ := attentive
          cases stored : (w.tickets.settle ptr out).1 with
          | error e => exact List.suffix_refl _
          | ok state =>
              rw [ended_settled held]
              exact List.suffix_cons _ _
      | ask c =>
          obtain ⟨_, rfl⟩ := step
          exact List.suffix_refl _

/-- A job that was taken is in the heap as it was submitted, and waits no more. -/
theorem Accounted.begun {t : Tickets} {h : History} (accounted : Accounted t h) (filed : Filed t h)
    {ptr : JobPtr} {job : Job} (member : (ptr, job) ∈ jobsBegun h)
    : ∃ job', t.heap[ptr]? = some job' ∧ job'.submission = job.submission
      ∧ job'.state ≠ .queued := by
  rw [accounted.jobs] at member
  rcases List.mem_append.mp member with held | ended
  · obtain ⟨found, running, _⟩ := filed.hand ptr job (Option.mem_toList.mp held)
    exact ⟨job, found, rfl, by rw [running]; exact nofun⟩
  · obtain ⟨e, isEnding, same⟩ := List.mem_map.mp ended
    cases same
    obtain ⟨job', found, leaves⟩ := accounted.records e isEnding
    refine ⟨job', found, by cases leaves <;> rfl, ?_⟩
    rw [leaves.settled.1]
    rcases leaves.settled.2 with same | same <;> rw [same] <;> exact nofun

-----------------------------------------------------------------------------------------
-- In every run
-----------------------------------------------------------------------------------------

/-- The only job has been run, and failed. -/
def World.rescanned : World :=
  (World.withJob "rescan" .null).afterTurn (Script.succeeding true 0 .null)

end MoneroWalletCore.Runtime
