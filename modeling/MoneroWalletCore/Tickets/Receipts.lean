import MoneroWalletCore.Tickets.Store

/-! What a client can do about a job without its receipt. Nothing changes for the job, and no
answer tells whether there is such a job at all.
-/

namespace MoneroWalletCore.Runtime

-----------------------------------------------------------------------------------------
-- Names
-----------------------------------------------------------------------------------------

namespace Tickets

/-- The map names each job by its own id. -/
def Named (t : Tickets) : Prop :=
  ∀ id ptr, t.jobs.lookup id = some ptr → ∃ job, t.heap[ptr]? = some job ∧ job.id = id

variable {t : Tickets}

/-- A change that keeps a job's id keeps the names. -/
theorem Named.assign {ptr : JobPtr} {f : Job → Job} (named : t.Named)
    (same : ∀ job, (f job).id = job.id)
    : (t.assign ptr f).Named := by
  intro id ptr' listed
  obtain ⟨job, found, name⟩ := named id ptr' listed
  refine ⟨if ptr = ptr' then f job else job, by rw [assign_heap, found]; rfl, ?_⟩
  split
  · exact (same job).trans name
  · exact name

/-- Taking a job out keeps the names of the others. -/
theorem Named.erase {id : String} {queue : List JobPtr} (named : t.Named)
    : Named { t with queue, jobs := t.jobs.erase id } := by
  intro id' ptr listed
  by_cases same : id' = id
  · rw [same, AList.lookup_erase] at listed
    cases listed
  · rw [AList.lookup_erase_ne same] at listed
    exact named id' ptr listed

theorem Named.push {kind receipt : String} {params : Json} (named : t.Named)
    : (t.push kind params receipt).2.Named := by
  intro id ptr listed
  by_cases same : id = "j" ++ toString t.nextId
  · rw [same] at listed
    have fresh : ptr = t.heap.length := by simpa [Tickets.push] using listed.symm
    rw [fresh]
    exact ⟨_, List.getElem?_concat_length, same.symm⟩
  · obtain ⟨job, found, name⟩ := named id ptr (by
      simpa only [Tickets.push, AList.lookup_insert_ne same] using listed)
    exact ⟨job, (List.getElem?_append_left (List.getElem?_eq_some_iff.mp found).1).trans found, name⟩

theorem Named.dequeue (named : t.Named) : t.dequeue.2.Named := by
  rcases t.dequeue_cases with ⟨_, same⟩ | ⟨ptr, rest, _, taken⟩
  · rw [same]
    exact named
  · rw [taken]
    exact Named.assign named fun _ => rfl

theorem Named.settle {ptr : JobPtr} {out : Json} (named : t.Named)
    : (t.settle ptr out).2.Named := by
  obtain ⟨f, assigned, same⟩ := @settle_assigns t ptr out
  rw [assigned]
  exact named.assign fun job => congrArg Prod.fst (same job)

theorem Named.client {m : Mem} {call : ClientCall} (named : t.Named) : (call.run m t).2.Named := by
  have served := Tickets.served m t call
  generalize (call.run m t).2 = t', (call.run m t).1 = answer at served
  cases served with
  | same => exact named
  | started => exact named.push
  | acked => exact named.erase
  | cancelled => exact named.erase

end Tickets

theorem Reachable.named {rule : Surroundings} {hasNotify : Bool} {t : System}
    (reach : Reachable rule hasNotify t)
    : t.state.tickets.Named :=
  reach.store (nofun) (fun _ _ _ => Tickets.Named.client) (fun _ => Tickets.Named.dequeue)
    (fun _ _ _ => Tickets.Named.settle)

-----------------------------------------------------------------------------------------
-- A store without a job
-----------------------------------------------------------------------------------------

/-- The id and the receipt that a call presents. A start presents none. -/
def ClientCall.presents : ClientCall → Option (String × String)
  | .startJob .. => none
  | .jobStatus id receipt | .jobResult id receipt | .ackJob id receipt | .cancelJob id receipt =>
      some (id, receipt)

/-- Calls made one after the other: their answers, and the store that they leave. -/
def ClientCall.runAll (m : Mem) (t : Tickets) : List ClientCall → List Json × Tickets
  | [] => ([], t)
  | call :: rest =>
      let first := call.run m t
      let others := runAll m first.2 rest
      (first.1 :: others.1, others.2)

/-- The store with a job removed from the map and from the queue. -/
def Tickets.without (t : Tickets) (id : String) (ptr : JobPtr) : Tickets :=
  { t with queue := t.queue.filter (· ≠ ptr), jobs := t.jobs.erase id }

namespace Tickets

variable {t : Tickets} {id : String} {ptr : JobPtr} {job : Job} {m : Mem} {call : ClientCall}

/-- A job of the store, under its own id. -/
structure Holds (t : Tickets) (id : String) (ptr : JobPtr) (job : Job) : Prop where
  listed : t.jobs.lookup id = some ptr
  record : t.heap[ptr]? = some job
  name : job.id = id

theorem held_without_self {receipt : String} : (t.without id ptr).held id receipt = none := by
  simp [Tickets.held, Tickets.without]

theorem held_without_other {called receipt : String} (other : called ≠ id)
    : (t.without id ptr).held called receipt = t.held called receipt := by
  simp only [Tickets.held, Tickets.without, AList.lookup_erase_ne other]

/-- A wrong receipt holds nothing. -/
theorem Holds.denied {receipt : String} (holds : t.Holds id ptr job) (wrong : receipt ≠ job.receipt)
    : t.held id receipt = none := by
  simp [Tickets.held, holds.listed, holds.record, wrong.symm]

/-- What a call does about a job that two stores hold alike. -/
theorem run_alike {t' : Tickets} {called receipt : String} (presents : call.presents = some (called, receipt))
    (alike : t'.held called receipt = t.held called receipt)
    : (call.run m t').1 = (call.run m t).1
      ∧ ((call.run m t).2 = t ∧ (call.run m t').2 = t'
        ∨ (∃ found, t.held called receipt = some found)
          ∧ ((call.run m t).2 = t.acked called ∧ (call.run m t').2 = t'.acked called
            ∨ (call.run m t).2 = t.cancelled called ∧ (call.run m t').2 = t'.cancelled called)) := by
  cases call with
  | startJob kind params receipt => cases presents
  | jobStatus id receipt =>
      cases presents
      exact ⟨by simp only [ClientCall.run, Tickets.jobStatus, alike], .inl ⟨rfl, rfl⟩⟩
  | jobResult id receipt =>
      cases presents
      exact ⟨by simp only [ClientCall.run, Tickets.jobResult, alike], .inl ⟨rfl, rfl⟩⟩
  | ackJob id receipt =>
      cases presents
      simp only [ClientCall.run, Tickets.ackJob, alike]
      cases t.held called receipt with
      | none => exact ⟨rfl, .inl ⟨rfl, rfl⟩⟩
      | some found =>
          dsimp only
          split
          · exact ⟨rfl, .inl ⟨rfl, rfl⟩⟩
          · exact ⟨rfl, .inr ⟨⟨found, rfl⟩, .inl ⟨rfl, rfl⟩⟩⟩
  | cancelJob id receipt =>
      cases presents
      simp only [ClientCall.run, Tickets.cancelJob, alike]
      cases t.held called receipt with
      | none => exact ⟨rfl, .inl ⟨rfl, rfl⟩⟩
      | some found =>
          dsimp only
          split
          · exact ⟨rfl, .inl ⟨rfl, rfl⟩⟩
          · exact ⟨rfl, .inr ⟨⟨found, rfl⟩, .inr ⟨rfl, rfl⟩⟩⟩

theorem acked_without {called : String} : (t.acked called).without id ptr = (t.without id ptr).acked called := by
  simp only [Tickets.acked, Tickets.without, AList.erase_erase]

/-- The entry that a cancel takes off the queue is not another job's. -/
theorem Holds.cancelled_without {called : String} (holds : t.Holds id ptr job) (other : called ≠ id)
    : (t.cancelled called).without id ptr = (t.without id ptr).cancelled called := by
  have spared (q : JobPtr)
      : ((t.heap[q]?).any (fun job => job.id == called) && decide (q ≠ ptr))
        = (t.heap[q]?).any (fun job => job.id == called) := by
    by_cases same : q = ptr
    · have differs : (job.id == called) = false := by
        rw [holds.name]
        exact beq_false_of_ne other.symm
      simp [same, holds.record, differs]
    · simp [same]
  simp only [Tickets.cancelled, Tickets.without, AList.erase_erase, List.eraseP_filter, spared]

theorem Holds.acked {called : String} (holds : t.Holds id ptr job) (other : called ≠ id)
    : (t.acked called).Holds id ptr job where
  listed := (AList.lookup_erase_ne other.symm).trans holds.listed
  record := holds.record
  name := holds.name

theorem Holds.cancelled {called : String} (holds : t.Holds id ptr job) (other : called ≠ id)
    : (t.cancelled called).Holds id ptr job where
  listed := (AList.lookup_erase_ne other.symm).trans holds.listed
  record := holds.record
  name := holds.name

/-- A call with another key than the job's: the job stays, the call is answered as without the
job, and on the job's own id it changes nothing. -/
theorem Holds.passes {called receipt : String} (holds : t.Holds id ptr job)
    (presents : call.presents = some (called, receipt)) (wrong : (called, receipt) ≠ (id, job.receipt))
    : (call.run m t).2.Holds id ptr job
      ∧ call.run m (t.without id ptr) = ((call.run m t).1, (call.run m t).2.without id ptr)
      ∧ (called = id → (call.run m t).2 = t) := by
  by_cases own : called = id
  · subst own
    have denied : t.held called receipt = none := holds.denied fun same => wrong (by rw [same])
    obtain ⟨answers, unchanged⟩ := @run_alike t m call (t.without called ptr) called receipt presents
      (held_without_self.trans denied.symm)
    rcases unchanged with ⟨same, same'⟩ | ⟨⟨found, held⟩, _⟩
    · rw [same]
      exact ⟨holds, Prod.ext answers same', fun _ => rfl⟩
    · rw [denied] at held
      cases held
  · obtain ⟨answers, changed⟩ := @run_alike t m call (t.without id ptr) called receipt presents
      (held_without_other own)
    rcases changed with ⟨same, same'⟩ | ⟨_, ⟨same, same'⟩ | ⟨same, same'⟩⟩
    · rw [same]
      exact ⟨holds, Prod.ext answers same', fun _ => rfl⟩
    · rw [same]
      exact ⟨holds.acked own, Prod.ext answers (same'.trans acked_without.symm),
        fun named => absurd named own⟩
    · rw [same]
      exact ⟨holds.cancelled own, Prod.ext answers (same'.trans (holds.cancelled_without own).symm),
        fun named => absurd named own⟩

end Tickets

/-- The call names the given job. -/
def ClientCall.names (id : String) (call : ClientCall) : Bool :=
  call.presents.any fun key => key.1 = id

/-- What single calls leave alone, a sequence of them does. Induction on the calls. -/
theorem Tickets.Holds.passes_all {m : Mem} {t : Tickets} {id : String} {ptr : JobPtr} {job : Job}
    (holds : t.Holds id ptr job) {calls : List ClientCall}
    (presented : ∀ call ∈ calls, ∃ key, call.presents = some key ∧ key ≠ (id, job.receipt))
    : (ClientCall.runAll m t calls).2.Holds id ptr job
      ∧ ClientCall.runAll m (t.without id ptr) calls
        = ((ClientCall.runAll m t calls).1, (ClientCall.runAll m t calls).2.without id ptr)
      ∧ (ClientCall.runAll m t (calls.filter fun call => !call.names id)).2
        = (ClientCall.runAll m t calls).2 := by
  induction calls generalizing t with
  | nil => exact ⟨holds, rfl, rfl⟩
  | cons call rest ih =>
      obtain ⟨key, presents, wrong⟩ := presented call List.mem_cons_self
      obtain ⟨kept, alike, unchanged⟩ := @passes t id ptr job m call _ _ holds presents wrong
      obtain ⟨keptAll, alikeAll, same⟩ := ih kept fun c member =>
        presented c (List.mem_cons_of_mem call member)
      refine ⟨keptAll, ?_, ?_⟩
      · simp only [ClientCall.runAll, alike, alikeAll]
      · by_cases own : key.1 = id
        · have names : call.names id = true := by simp [ClientCall.names, presents, own]
          rw [unchanged own] at same
          simpa [ClientCall.runAll, names, unchanged own] using same
        · have names : call.names id = false := by simp [ClientCall.names, presents, own]
          simpa [ClientCall.runAll, names] using same

-----------------------------------------------------------------------------------------
-- Any reachable store
-----------------------------------------------------------------------------------------

/-- Calls that do not present a job's own receipt leave the store as without those on the job,
the job's record as it was, and are answered, with the other jobs treated, as in the store
without the job. -/
theorem unreceipted_calls_unseen {rule : Surroundings} {hasNotify : Bool} {t : System}
    (reach : Reachable rule hasNotify t) {id : String} {ptr : JobPtr} {job : Job}
    (listed : t.state.tickets.jobs.lookup id = some ptr)
    (record : t.state.tickets.heap[ptr]? = some job) (m : Mem) (calls : List ClientCall)
    (presented : ∀ call ∈ calls, ∃ key, call.presents = some key ∧ key ≠ (id, job.receipt))
    : let store := t.state.tickets
      let after := ClientCall.runAll m store calls
      let others := ClientCall.runAll m store (calls.filter fun call => !call.names id)
      let unknown := ClientCall.runAll m (store.without id ptr) calls
      after.2.jobs.lookup id = some ptr
      ∧ after.2.heap[ptr]? = some job
      ∧ after.2 = others.2
      ∧ after.1 = unknown.1
      ∧ after.2.without id ptr = unknown.2 := by
  obtain ⟨job', record', name⟩ := reach.named id ptr listed
  rw [record] at record'
  cases record'
  obtain ⟨kept, alike, same⟩ := @Tickets.Holds.passes_all m _ _ _ _ ⟨listed, record, name⟩ _ presented
  exact ⟨kept.listed, kept.record, same.symm, by rw [alike], by rw [alike]⟩

/-- Guesses at the first job's receipt, and a call for a job that there is not. -/
def guesses : List ClientCall :=
  [.jobStatus "j1" "guess", .cancelJob "j1" "guess", .ackJob "j2" "receipt"]

theorem unreceipted_calls_unseen_guessed
    : let w := World.withJob "rescan" .null
      let after := ClientCall.runAll w.mem w.tickets guesses
      after.2.jobs.lookup "j1" = some 0
      ∧ after.2.heap[0]?.map Job.state = some .queued
      ∧ after.1 = (ClientCall.runAll w.mem (w.tickets.without "j1" 0) guesses).1 := by
  have presented : ∀ call ∈ guesses, ∃ key, call.presents = some key ∧ key ≠ ("j1", "receipt") := by
    intro call member
    rw [guesses, List.mem_cons, List.mem_cons, List.mem_singleton] at member
    rcases member with rfl | rfl | rfl
    · exact ⟨_, rfl, by decide⟩
    · exact ⟨_, rfl, by decide⟩
    · exact ⟨_, rfl, by decide⟩
  obtain ⟨listed, record, _, alike, _⟩ :=
    unreceipted_calls_unseen (Reachable.withJob "rescan" .null : Reachable AnyAnswer _ _)
      (by decide +kernel : _ = some 0) rfl (World.withJob "rescan" .null).mem guesses presented
  exact ⟨listed, congrArg (Option.map Job.state) record, alike⟩

end MoneroWalletCore.Runtime
