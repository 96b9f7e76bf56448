import MoneroWalletCore.Runtime.Replay

/-! The ticket store as single steps change it: what each writes, in one equation or one
inversion, and the rule for what holds of the store at every moment.
-/

namespace MoneroWalletCore.Runtime

-----------------------------------------------------------------------------------------
-- Assignments through a pointer
-----------------------------------------------------------------------------------------

/-- What a job was submitted with, its mark of being acknowledged included: nothing changes
these. -/
def Job.submission (job : Job) : String × String × String × Json × Bool :=
  (job.id, job.receipt, job.kind, job.params, job.acked)

namespace Tickets

variable {t : Tickets} {ptr : JobPtr} {out : Json}

theorem assign_assign {f g : Job → Job} : (t.assign ptr f).assign ptr g = t.assign ptr (g ∘ f) := by
  simp only [Tickets.assign, List.modify_modify_eq]

@[simp] theorem assign_queue {f : Job → Job} : (t.assign ptr f).queue = t.queue := rfl

@[simp] theorem assign_jobs {f : Job → Job} : (t.assign ptr f).jobs = t.jobs := rfl

@[simp] theorem assign_nextId {f : Job → Job} : (t.assign ptr f).nextId = t.nextId := rfl

/-- The other jobs stay as they were. -/
theorem assign_heap {f : Job → Job} {ptr' : JobPtr}
    : (t.assign ptr f).heap[ptr']?
      = (t.heap[ptr']?).map (fun job => if ptr = ptr' then f job else job) := by
  rw [Tickets.assign, List.getElem?_modify, Option.map_eq_map]

@[simp] theorem assign_length {f : Job → Job} : (t.assign ptr f).heap.length = t.heap.length := by
  simp only [Tickets.assign, List.length_modify]

/-- A job that ended well takes its result. -/
theorem settle_okWith {result : Json}
    : t.settle ptr (okWith result)
      = (.ok .done, t.assign ptr fun job => { job with state := .done, result }) := by
  change (Except.ok JobState.done, (t.assign ptr _).assign ptr _) = _
  rw [assign_assign]
  rfl

/-- A job that failed takes its error. -/
theorem settle_err {msg : String}
    : t.settle ptr (err msg)
      = (.ok .failed, t.assign ptr fun job => { job with state := .failed, error := msg }) := by
  change (Except.ok JobState.failed, (t.assign ptr _).assign ptr _) = _
  rw [assign_assign]
  rfl

/-- Whatever its outcome is, settling a job changes that job alone, and not what it was
submitted with. -/
theorem settle_assigns
    : ∃ f : Job → Job, (t.settle ptr out).2 = t.assign ptr f
      ∧ ∀ job, (f job).submission = job.submission := by
  have keep : t = t.assign ptr id := by simp [Tickets.assign, List.modify_id]
  unfold Tickets.settle
  split
  · exact ⟨id, keep, fun _ => rfl⟩
  · dsimp only
    split
    · exact ⟨_, rfl, fun _ => rfl⟩
    · exact ⟨_, assign_assign, fun _ => rfl⟩
  · dsimp only
    split
    · exact ⟨_, rfl, fun _ => rfl⟩
    · exact ⟨_, assign_assign, fun _ => rfl⟩

/-- The job that a start submits. -/
def submitted (t : Tickets) (kind : String) (params : Json) (receipt : String) : Job :=
  { id := "j" ++ toString t.nextId, receipt, kind, params }

/-- The new job comes after all the others. -/
theorem push_found {kind receipt : String} {params : Json} {job : Job}
    : (t.push kind params receipt).2.heap[ptr]? = some job
      ↔ t.heap[ptr]? = some job
        ∨ ptr = t.heap.length ∧ job = t.submitted kind params receipt := by
  have heap : (t.push kind params receipt).2.heap = t.heap ++ [t.submitted kind params receipt] := rfl
  rw [heap]
  rcases Nat.lt_trichotomy ptr t.heap.length with before | here | after
  · rw [List.getElem?_append_left before]
    exact ⟨.inl, Or.rec id fun same => absurd same.1 (Nat.ne_of_lt before)⟩
  · rw [here, List.getElem?_concat_length, List.getElem?_eq_none (Nat.le_refl _)]
    exact ⟨fun same => .inr ⟨rfl, (Option.some.inj same).symm⟩,
      Or.rec nofun fun same => congrArg some same.2.symm⟩
  · rw [List.getElem?_eq_none (Nat.le_of_lt after),
      List.getElem?_eq_none (by simpa using Nat.succ_le_of_lt after)]
    exact ⟨nofun, Or.rec nofun fun same => absurd same.1 (Nat.ne_of_gt after)⟩

/-- A job that starts running. -/
def started (job : Job) : Job := { job with state := .running }

/-- Taking the front of the queue changes that job alone. -/
theorem dequeue_cases
    : t.queue = [] ∧ t.dequeue = (none, t)
      ∨ ∃ ptr rest, t.queue = ptr :: rest
        ∧ t.dequeue
          = ((t.heap[ptr]?).map fun job => (ptr, started job),
            { t with queue := rest }.assign ptr started) := by
  unfold Tickets.dequeue
  split
  next empty => exact .inl ⟨empty, rfl⟩
  next ptr rest queue =>
    refine .inr ⟨ptr, rest, queue, Prod.ext ?_ rfl⟩
    simp only [assign_heap, if_true, Option.map_map]
    rfl

-----------------------------------------------------------------------------------------
-- What single steps write
-----------------------------------------------------------------------------------------

/-- The store once a job has been acknowledged. -/
def acked (t : Tickets) (id : String) : Tickets := { t with jobs := t.jobs.erase id }

/-- The store once a job has been cancelled. -/
def cancelled (t : Tickets) (id : String) : Tickets :=
  { t with
    queue := t.queue.eraseP fun q => (t.heap[q]?).any (fun job => job.id == id)
    jobs := t.jobs.erase id }

theorem held_eq_some {id receipt : String} {job : Job}
    : t.held id receipt = some (ptr, job)
      ↔ t.jobs.lookup id = some ptr ∧ t.heap[ptr]? = some job ∧ job.receipt = receipt := by
  unfold Tickets.held
  cases listed : t.jobs.lookup id with
  | none => simp
  | some ptr' =>
      cases found : t.heap[ptr']? with
      | none => grind
      | some job' => grind

/-- All that a client's call can do to the store. -/
inductive Served (m : Mem) (t : Tickets) : ClientCall → Json → Tickets → Prop
  | same {call answer} : Served m t call answer t
  | started {kind params receipt} (known : kind ∈ jobKinds)
    : Served m t (.startJob kind params receipt)
        (.obj
          [
            ("ok", .bool true), ("jobId", .str (t.push kind params receipt).1),
            ("receipt", .str receipt)
          ])
        (t.push kind (if params.isObject then params else .obj []) receipt).2
  | acked {id receipt ptr job} (held : t.held id receipt = some (ptr, job))
    (settled : job.state = .done ∨ job.state = .failed)
    : Served m t (.ackJob id receipt) (.bool true) (t.acked id)
  | cancelled {id receipt ptr job} (held : t.held id receipt = some (ptr, job))
    (queued : job.state = .queued)
    : Served m t (.cancelJob id receipt) (.bool true) (t.cancelled id)

theorem served (m : Mem) (t : Tickets) (call : ClientCall)
    : Served m t call (call.run m t).1 (call.run m t).2 := by
  cases call with
  | startJob kind params receipt =>
      change Served m t _ (Runtime.startJob m t kind params receipt).1
        (Runtime.startJob m t kind params receipt).2
      unfold Runtime.startJob
      split
      · exact .same
      next known =>
        split
        · exact .same
        · exact .started (Decidable.not_not.mp known)
  | jobStatus id receipt => exact .same
  | jobResult id receipt => exact .same
  | ackJob id receipt =>
      change Served m t _ (.bool (t.ackJob id receipt).1) (t.ackJob id receipt).2
      unfold Tickets.ackJob
      cases held : t.held id receipt with
      | none => exact .same
      | some found =>
          dsimp only
          split
          · exact .same
          next settled => exact .acked held (by grind)
  | cancelJob id receipt =>
      change Served m t _ (.bool (t.cancelJob id receipt).1) (t.cancelJob id receipt).2
      unfold Tickets.cancelJob
      cases held : t.held id receipt with
      | none => exact .same
      | some found =>
          dsimp only
          split
          · exact .same
          next queued => exact .cancelled held (Decidable.not_not.mp queued)

-----------------------------------------------------------------------------------------
-- Every job ever submitted
-----------------------------------------------------------------------------------------

/-- Every job ever submitted satisfies a condition. -/
def Each (t : Tickets) (P : Job → Prop) : Prop :=
  ∀ (ptr : JobPtr) (job : Job), t.heap[ptr]? = some job → P job

section Each

variable {P : Job → Prop} (lasts : ∀ job job' : Job, job'.submission = job.submission → P job → P job')

include lasts

theorem Each.assign {f : Job → Job} (each : t.Each P)
    (same : ∀ job, (f job).submission = job.submission)
    : (t.assign ptr f).Each P := by
  intro ptr' job' found
  rw [assign_heap, Option.map_eq_some_iff] at found
  obtain ⟨job, found, rfl⟩ := found
  split
  · exact lasts job _ (same job) (each ptr' job found)
  · exact each ptr' job found

theorem Each.dequeue (each : t.Each P) : t.dequeue.2.Each P := by
  rcases t.dequeue_cases with ⟨_, same⟩ | ⟨ptr, rest, _, taken⟩
  · rw [same]
    exact each
  · rw [taken]
    exact Each.assign lasts each fun _ => rfl

theorem Each.settle (each : t.Each P) : (t.settle ptr out).2.Each P := by
  obtain ⟨f, assigned, same⟩ := @settle_assigns t ptr out
  rw [assigned]
  exact each.assign lasts same

/-- So does the job that the worker is given. -/
theorem Each.front (each : t.Each P) {job : Job} (front : t.dequeue.1 = some (ptr, job))
    : P job := by
  rcases t.dequeue_cases with ⟨_, same⟩ | ⟨ptr', rest, _, taken⟩
  · rw [same] at front
    cases front
  · rw [taken, Option.map_eq_some_iff] at front
    obtain ⟨job', found, same⟩ := front
    cases same
    exact lasts job' _ rfl (each _ job' found)

omit lasts in
theorem Each.client {m : Mem} {call : ClientCall}
    (starts : ∀ t kind params receipt, kind ∈ jobKinds → P (submitted t kind params receipt))
    (each : t.Each P)
    : (call.run m t).2.Each P := by
  have served := Tickets.served m t call
  generalize (call.run m t).2 = t', (call.run m t).1 = answer at served
  cases served with
  | same => exact each
  | started accepted =>
      intro ptr job found
      rcases push_found.mp found with old | ⟨_, rfl⟩
      · exact each ptr job old
      · exact starts t _ _ _ accepted
  | acked => exact each
  | cancelled => exact each

end Each

end Tickets

-----------------------------------------------------------------------------------------
-- Invariants of the store
-----------------------------------------------------------------------------------------

/-- What a store and each step on it keep holds of the store at every moment.
Witness: the worker's other actions do not touch the store. -/
theorem Reachable.store {Inv : Tickets → Prop} {rule : Surroundings} {hasNotify : Bool}
    {t : System} (init : Inv {}) (client : ∀ m t (call : ClientCall), Inv t → Inv (call.run m t).2)
    (dequeues : ∀ t, Inv t → Inv t.dequeue.2)
    (settles : ∀ t ptr out, Inv t → Inv (t.settle ptr out).2)
    (reach : Reachable rule hasNotify t)
    : Inv t.state.tickets := by
  induction reach with
  | refl => exact init
  | tail _ step ih =>
      cases step with
      | turn => exact ih
      | move moves =>
          cases moves with
          | other step =>
              cases step with
              | client call => exact client _ _ call ih
              | setWalletsDir dir => exact ih
              | probe connected height isOpen => exact ih
          | @call op next w answer w' step =>
              cases op with
              | update f => cases step.2; exact ih
              | lock mode => cases step; exact ih
              | unlock mode => cases step; exact ih
              | dequeue => cases step.2; exact dequeues _ ih
              | settle ptr out => cases step.2; exact settles _ ptr out ih
              | ask c => cases step.2; exact ih

end MoneroWalletCore.Runtime
