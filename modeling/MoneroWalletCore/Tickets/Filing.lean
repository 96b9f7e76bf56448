import MoneroWalletCore.Tickets.Numbering

/-! Where a job is filed: the queue, the map, and the worker's hand. At every moment each job that
waits is in the first two once, the one that runs is in the last two, and the worker takes them in
the order in which they came.
-/

namespace MoneroWalletCore.Runtime

-----------------------------------------------------------------------------------------
-- The invariant
-----------------------------------------------------------------------------------------

namespace Tickets

/-- The counter of the ids has not gone round. -/
def Few (t : Tickets) : Prop := t.heap.length < 2 ^ 64

/-- The job is listed, and waits. -/
def Waits (t : Tickets) (ptr : JobPtr) : Prop :=
  ∃ job, t.heap[ptr]? = some job ∧ job.state = .queued ∧ t.jobs.lookup job.id = some ptr

end Tickets

/-- The jobs that the worker has taken so far, the last first. -/
def taken (h : History) : List JobPtr := (jobsBegun h).map Prod.fst

@[simp] theorem taken_asked {c : Call} {answer : c.Answer} {m : Mem} {h : History}
    : taken (.asked c answer m :: h) = taken h := rfl

@[simp] theorem taken_began {ptr : JobPtr} {job : Job} {h : History}
    : taken (.began ptr job :: h) = ptr :: taken h := rfl

@[simp] theorem taken_settled {ptr : JobPtr} {out : Json} {state : Except Exn JobState}
    {h : History}
    : taken (.settled ptr out state :: h) = taken h := rfl

/-- The call takes the job out of the map: it cancels it while it waits, or acknowledges it once
settled. -/
def ClientCall.Removes (call : ClientCall) (job : Job) : Prop :=
  ∃ receipt, call = .cancelJob job.id receipt ∧ job.state = .queued
    ∨ call = .ackJob job.id receipt ∧ (job.state = .done ∨ job.state = .failed)

/-- How the store and the worker's hand agree. -/
structure Filed (t : Tickets) (h : History) : Prop where
  next : t.nextId = UInt64.ofNat (t.heap.length + 1)
  ids : ∀ (ptr : JobPtr) (job : Job), t.heap[ptr]? = some job → job.id = jobId ptr
  listed : ∀ id ptr, t.jobs.lookup id = some ptr → id = jobId ptr ∧ ptr < t.heap.length
  ordered : t.queue.Pairwise (· < ·)
  waiting : ∀ ptr, ptr ∈ t.queue ↔ t.Waits ptr
  hand : ∀ ptr job, inHand h = some (ptr, job) →
    t.heap[ptr]? = some job ∧ job.state = .running ∧ t.jobs.lookup (jobId ptr) = some ptr
  running : ∀ (ptr : JobPtr) (job : Job), t.heap[ptr]? = some job → job.state = .running →
    inHand h = some (ptr, job)
  sequence : (taken h).Pairwise (· > ·)
  earlier : ∀ ptr ∈ taken h, (∃ job, t.heap[ptr]? = some job ∧ job.state ≠ .queued)
    ∧ ∀ later ∈ t.queue, ptr < later

namespace Filed

variable {t : Tickets} {h : History} (filed : Filed t h)

include filed

theorem queue_lt {ptr : JobPtr} (member : ptr ∈ t.queue) : ptr < t.heap.length := by
  obtain ⟨job, found, _⟩ := (filed.waiting ptr).mp member
  exact (List.getElem?_eq_some_iff.mp found).1

omit filed in
theorem id_inj (few : t.Few) {ptr ptr' : JobPtr} (bound : ptr < t.heap.length)
    (bound' : ptr' < t.heap.length) (same : jobId ptr = jobId ptr')
    : ptr = ptr' :=
  (numbered_inj (lt_of_le_of_lt (Nat.succ_le_of_lt bound) few)
    (lt_of_le_of_lt (Nat.succ_le_of_lt bound') few)).mp same

/-- No job has the id that a start will give. -/
theorem fresh (few : t.heap.length + 1 < 2 ^ 64) {ptr : JobPtr} {job : Job}
    (found : t.heap[ptr]? = some job)
    : job.id ≠ "j" ++ toString t.nextId := by
  have bound : ptr < t.heap.length := (List.getElem?_eq_some_iff.mp found).1
  have name : "j" ++ toString t.nextId = jobId t.heap.length := by rw [filed.next]; rfl
  rw [filed.ids ptr job found, name]
  intro same
  have := (numbered_inj (lt_trans (Nat.succ_lt_succ bound) few) few).mp same
  exact absurd bound (by rw [this]; exact Nat.lt_irrefl _)

/-- A call by the id of a listed job finds that job. -/
theorem held_at {id receipt : String} {ptr : JobPtr} {job : Job}
    (held : t.held id receipt = some (ptr, job))
    : id = jobId ptr ∧ t.heap[ptr]? = some job ∧ ptr < t.heap.length
      ∧ t.jobs.lookup id = some ptr := by
  obtain ⟨listed, found, _⟩ := Tickets.held_eq_some.mp held
  exact ⟨(filed.listed id ptr listed).1, found, (filed.listed id ptr listed).2, listed⟩

-----------------------------------------------------------------------------------------
-- The calls of clients
-----------------------------------------------------------------------------------------

theorem push {kind receipt : String} {params : Json} (few : t.heap.length + 1 < 2 ^ 64)
    : Filed (t.push kind params receipt).2 h := by
  have name : "j" ++ toString t.nextId = jobId t.heap.length := by rw [filed.next]; rfl
  have listed {id : String} {ptr : JobPtr}
      : (t.push kind params receipt).2.jobs.lookup id = some ptr
        ↔ id = jobId t.heap.length ∧ ptr = t.heap.length
          ∨ id ≠ jobId t.heap.length ∧ t.jobs.lookup id = some ptr := by
    simp only [Tickets.push, name]
    by_cases own : id = jobId t.heap.length
    · rw [own, AList.lookup_insert]
      grind
    · rw [AList.lookup_insert_ne own]
      grind
  have bound {ptr : JobPtr} {job : Job} (found : t.heap[ptr]? = some job) : ptr < t.heap.length :=
    (List.getElem?_eq_some_iff.mp found).1
  have waits {ptr : JobPtr} (waits : t.Waits ptr) : (t.push kind params receipt).2.Waits ptr := by
    obtain ⟨job, found, queued, held⟩ := waits
    refine ⟨job, Tickets.push_found.mpr (.inl found), queued, listed.mpr (.inr ⟨?_, held⟩)⟩
    rw [← name]
    exact filed.fresh few found
  constructor
  case next =>
    have length : (t.push kind params receipt).2.heap.length = t.heap.length + 1 := by
      simp [Tickets.push]
    have counted : (t.push kind params receipt).2.nextId = t.nextId + 1 := rfl
    rw [length, counted, filed.next]
    exact (UInt64.ofNat_add _ 1).symm
  case ids =>
    intro ptr job found
    rcases Tickets.push_found.mp found with old | ⟨rfl, rfl⟩
    · exact filed.ids ptr job old
    · exact name
  case listed =>
    intro id ptr held
    have length : (t.push kind params receipt).2.heap.length = t.heap.length + 1 := by
      simp [Tickets.push]
    rw [length]
    rcases listed.mp held with ⟨rfl, rfl⟩ | ⟨_, old⟩
    · exact ⟨rfl, Nat.lt_succ_self _⟩
    · obtain ⟨same, below⟩ := filed.listed id ptr old
      exact ⟨same, Nat.lt_succ_of_lt below⟩
  case ordered =>
    refine List.pairwise_append.mpr ⟨filed.ordered, List.pairwise_singleton _ _, ?_⟩
    intro ptr member new isNew
    rw [List.mem_singleton.mp isNew]
    exact filed.queue_lt member
  case waiting =>
    intro ptr
    have queue : (t.push kind params receipt).2.queue = t.queue ++ [t.heap.length] := rfl
    rw [queue, List.mem_append, List.mem_singleton, filed.waiting ptr]
    constructor
    · rintro (old | rfl)
      · exact waits old
      · exact ⟨_, Tickets.push_found.mpr (.inr ⟨rfl, rfl⟩), rfl, listed.mpr (.inl ⟨name, rfl⟩)⟩
    · rintro ⟨job, found, queued, held⟩
      rcases Tickets.push_found.mp found with old | ⟨rfl, _⟩
      · refine .inl ⟨job, old, queued, ?_⟩
        rcases listed.mp held with ⟨_, rfl⟩ | ⟨_, held'⟩
        · exact absurd (bound old) (Nat.lt_irrefl _)
        · exact held'
      · exact .inr rfl
  case hand =>
    intro ptr job held
    obtain ⟨found, running, kept⟩ := filed.hand ptr job held
    refine ⟨Tickets.push_found.mpr (.inl found), running, listed.mpr (.inr ⟨?_, kept⟩)⟩
    rw [← filed.ids ptr job found, ← name]
    exact filed.fresh few found
  case running =>
    intro ptr job found running
    rcases Tickets.push_found.mp found with old | ⟨_, rfl⟩
    · exact filed.running ptr job old running
    · cases running
  case sequence => exact filed.sequence
  case earlier =>
    intro ptr member
    obtain ⟨⟨job, found, gone⟩, before⟩ := filed.earlier ptr member
    refine ⟨⟨job, Tickets.push_found.mpr (.inl found), gone⟩, fun later isLater => ?_⟩
    rcases List.mem_append.mp isLater with old | new
    · exact before later old
    · rw [List.mem_singleton.mp new]
      exact bound found

/-- A job that is not running may leave the map, and with it the queue. -/
theorem erase {id receipt : String} {ptr : JobPtr} {job : Job} {queue : List JobPtr}
    (held : t.held id receipt = some (ptr, job)) (still : job.state ≠ .running)
    (part : queue.Sublist t.queue) (others : ∀ ptr', ptr' ∈ queue ↔ ptr' ∈ t.queue ∧ ptr' ≠ ptr)
    : Filed { t with queue, jobs := t.jobs.erase id } h := by
  obtain ⟨name, found, bound, isListed⟩ := filed.held_at held
  have kept {id' : String} {ptr' : JobPtr} (other : ptr' ≠ ptr)
      (listed : t.jobs.lookup id' = some ptr')
      : (t.jobs.erase id).lookup id' = some ptr' := by
    rw [AList.lookup_erase_ne, listed]
    rintro rfl
    rw [isListed] at listed
    exact other (Option.some.inj listed).symm
  have before {id' : String} {ptr' : JobPtr} (listed : (t.jobs.erase id).lookup id' = some ptr')
      : t.jobs.lookup id' = some ptr' ∧ id' ≠ id := by
    by_cases own : id' = id
    · rw [own, AList.lookup_erase] at listed
      cases listed
    · rw [AList.lookup_erase_ne own] at listed
      exact ⟨listed, own⟩
  constructor
  case next => exact filed.next
  case ids => exact filed.ids
  case listed => exact fun id' ptr' listed => filed.listed id' ptr' (before listed).1
  case ordered => exact filed.ordered.sublist part
  case waiting =>
    intro ptr'
    rw [others, filed.waiting]
    constructor
    · rintro ⟨⟨job', found', queued, listed⟩, other⟩
      exact ⟨job', found', queued, kept other listed⟩
    · rintro ⟨job', found', queued, listed⟩
      obtain ⟨old, notOwn⟩ := before listed
      refine ⟨⟨job', found', queued, old⟩, ?_⟩
      rintro rfl
      exact notOwn ((filed.ids ptr' job' found').trans name.symm)
  case hand =>
    intro ptr' job' inHand
    obtain ⟨found', running, listed⟩ := filed.hand ptr' job' inHand
    refine ⟨found', running, kept ?_ listed⟩
    rintro rfl
    rw [found] at found'
    cases found'
    exact still running
  case running => exact filed.running
  case sequence => exact filed.sequence
  case earlier =>
    intro ptr' member
    obtain ⟨gone, sooner⟩ := filed.earlier ptr' member
    exact ⟨gone, fun later isLater => sooner later (part.subset isLater)⟩

theorem acked {id receipt : String} {ptr : JobPtr} {job : Job}
    (held : t.held id receipt = some (ptr, job)) (settled : job.state = .done ∨ job.state = .failed)
    : Filed (t.acked id) h := by
  have absent : ptr ∉ t.queue := by
    intro member
    obtain ⟨job', found', queued, _⟩ := (filed.waiting ptr).mp member
    rw [(filed.held_at held).2.1] at found'
    cases found'
    rcases settled with same | same <;> exact nomatch queued.symm.trans same
  refine filed.erase held ?_ (List.Sublist.refl _) fun ptr' => ⟨fun member => ⟨member, ?_⟩, And.left⟩
  · rcases settled with same | same <;> rw [same] <;> exact nofun
  · rintro rfl
    exact absent member

/-- A cancel takes its own job off the queue. -/
theorem cancelled_queue (few : t.Few) {id receipt : String} {ptr : JobPtr} {job : Job}
    (held : t.held id receipt = some (ptr, job)) (queued : job.state = .queued) (ptr' : JobPtr)
    : ptr' ∈ (t.cancelled id).queue ↔ ptr' ∈ t.queue ∧ ptr' ≠ ptr := by
  obtain ⟨name, found, bound, isListed⟩ := filed.held_at held
  let named (q : JobPtr) : Bool := (t.heap[q]?).any fun job => job.id == id
  have isNamed {q : JobPtr} (member : q ∈ t.queue) : named q = true ↔ q = ptr := by
    obtain ⟨job', found', _⟩ := (filed.waiting q).mp member
    dsimp only [named]
    rw [found', Option.any_some, beq_iff_eq, filed.ids q job' found', name]
    exact ⟨id_inj few (filed.queue_lt member) bound, congrArg jobId⟩
  have waits : ptr ∈ t.queue :=
    (filed.waiting ptr).mpr ⟨job, found, queued, by rw [filed.ids ptr job found, ← name, isListed]⟩
  obtain ⟨q, front, back, _, first, split, erased⟩ :=
    List.exists_of_eraseP waits ((isNamed waits).mpr rfl)
  have same : q = ptr := (isNamed (by rw [split]; simp)).mp first
  have distinct : t.queue.Nodup := filed.ordered.imp Nat.ne_of_lt
  rw [show (t.cancelled id).queue = front ++ back from erased, split, same]
  rw [split, same] at distinct
  have apart := (List.nodup_middle.mp distinct)
  rw [List.nodup_cons] at apart
  rw [List.mem_append, List.mem_append, List.mem_cons]
  rw [List.mem_append] at apart
  grind

theorem cancelled (few : t.Few) {id receipt : String} {ptr : JobPtr} {job : Job}
    (held : t.held id receipt = some (ptr, job)) (queued : job.state = .queued)
    : Filed (t.cancelled id) h :=
  filed.erase held (by rw [queued]; exact nofun) List.eraseP_sublist
    (filed.cancelled_queue few held queued)

/-- A client's call leaves every job as it was, and listed unless it removes it. -/
theorem serves {m : Mem} {call : ClientCall} {answer : Json} {t' : Tickets} (few : t'.Few)
    {ptr : JobPtr} {job : Job} (found : t.heap[ptr]? = some job)
    (served : Tickets.Served m t call answer t')
    : t'.heap[ptr]? = some job
      ∧ (t.jobs.lookup job.id = some ptr →
        t'.jobs.lookup job.id = some ptr ∨ answer = .bool true ∧ call.Removes job) := by
  cases served with
  | same => exact ⟨found, .inl⟩
  | started =>
      have other := filed.fresh (by simpa [Tickets.Few, Tickets.push] using few) found
      exact ⟨Tickets.push_found.mpr (.inl found), fun listed =>
        .inl ((AList.lookup_insert_ne other).trans listed)⟩
  | @acked id receipt ptr' job' held settled =>
      refine ⟨found, fun listed => ?_⟩
      by_cases own : job.id = id
      · subst own
        obtain ⟨_, found', _, listed'⟩ := filed.held_at held
        rw [listed] at listed'
        cases listed'
        rw [found] at found'
        cases found'
        exact .inr ⟨rfl, receipt, .inr ⟨rfl, settled⟩⟩
      · exact .inl ((AList.lookup_erase_ne own).trans listed)
  | @cancelled id receipt ptr' job' held queued =>
      refine ⟨found, fun listed => ?_⟩
      by_cases own : job.id = id
      · subst own
        obtain ⟨_, found', _, listed'⟩ := filed.held_at held
        rw [listed] at listed'
        cases listed'
        rw [found] at found'
        cases found'
        exact .inr ⟨rfl, receipt, .inl ⟨rfl, queued⟩⟩
      · exact .inl ((AList.lookup_erase_ne own).trans listed)

theorem client {m : Mem} {call : ClientCall} (few : (call.run m t).2.Few)
    : Filed (call.run m t).2 h := by
  have served := Tickets.served m t call
  generalize (call.run m t).2 = t', (call.run m t).1 = answer at served few
  cases served with
  | same => exact filed
  | started => exact filed.push (by simpa [Tickets.Few, Tickets.push] using few)
  | acked held settled => exact filed.acked held settled
  | cancelled held queued => exact filed.cancelled few held queued

-----------------------------------------------------------------------------------------
-- The worker's sections
-----------------------------------------------------------------------------------------

omit filed in
/-- A job assigned to its own pointer. -/
theorem assigned {ptr ptr' : JobPtr} {f : Job → Job} {job' : Job}
    (found : (t.assign ptr f).heap[ptr']? = some job')
    : ∃ job, t.heap[ptr']? = some job ∧ (ptr' = ptr ∧ job' = f job ∨ ptr' ≠ ptr ∧ job' = job) := by
  rw [Tickets.assign_heap, Option.map_eq_some_iff] at found
  obtain ⟨job, old, same⟩ := found
  refine ⟨job, old, ?_⟩
  split at same
  next own => exact .inl ⟨own.symm, same.symm⟩
  next other => exact .inr ⟨Ne.symm other, same.symm⟩

omit filed in
theorem assigned_own {ptr : JobPtr} {f : Job → Job} {job : Job} (found : t.heap[ptr]? = some job)
    : (t.assign ptr f).heap[ptr]? = some (f job) := by
  rw [Tickets.assign_heap, found, Option.map_some, if_pos rfl]

omit filed in
theorem assigned_other {ptr ptr' : JobPtr} {f : Job → Job} {job : Job} (other : ptr' ≠ ptr)
    (found : t.heap[ptr']? = some job)
    : (t.assign ptr f).heap[ptr']? = some job := by
  rw [Tickets.assign_heap, found, Option.map_some, if_neg other.symm]

theorem dequeue (free : inHand h = none) : Filed t.dequeue.2 (beganBy t.dequeue.1 ++ h) := by
  rcases t.dequeue_cases with ⟨_, same⟩ | ⟨ptr, rest, queue, took⟩
  · rw [same]
    exact filed
  have member : ptr ∈ t.queue := by rw [queue]; exact List.mem_cons_self
  have part {later : JobPtr} (isLater : later ∈ rest) : later ∈ t.queue := by
    rw [queue]
    exact List.mem_cons_of_mem ptr isLater
  have ordered := filed.ordered
  rw [queue, List.pairwise_cons] at ordered
  obtain ⟨job, found, queued, isListed⟩ := (filed.waiting ptr).mp member
  rw [took, found]
  have own : ({ t with queue := rest }.assign ptr Tickets.started).heap[ptr]?
      = some (Tickets.started job) :=
    assigned_own found
  constructor
  case next => rw [Tickets.assign_length]; exact filed.next
  case ids =>
    intro ptr' job' found'
    obtain ⟨old, foundOld, ⟨_, rfl⟩ | ⟨_, rfl⟩⟩ := assigned found'
    · exact filed.ids ptr' old foundOld
    · exact filed.ids ptr' _ foundOld
  case listed => rw [Tickets.assign_length]; exact filed.listed
  case ordered => exact ordered.2
  case waiting =>
    intro ptr'
    constructor
    · intro isLater
      obtain ⟨job', found', queued', listed'⟩ := (filed.waiting ptr').mp (part isLater)
      exact ⟨job', assigned_other (Nat.ne_of_gt (ordered.1 ptr' isLater)) found', queued', listed'⟩
    · rintro ⟨job', found', queued', listed'⟩
      obtain ⟨old, foundOld, ⟨_, rfl⟩ | ⟨other, rfl⟩⟩ := assigned found'
      · cases queued'
      · have waits : ptr' ∈ t.queue := (filed.waiting ptr').mpr ⟨_, foundOld, queued', listed'⟩
        rw [queue] at waits
        exact (List.mem_cons.mp waits).resolve_left other
  case hand =>
    intro ptr' job' held
    cases held
    exact ⟨own, rfl, by rw [← filed.ids ptr job found]; exact isListed⟩
  case running =>
    intro ptr' job' found' running'
    obtain ⟨old, foundOld, ⟨rfl, rfl⟩ | ⟨_, rfl⟩⟩ := assigned found'
    · rw [own] at found'
      exact congrArg (fun job => some (ptr', job)) (Option.some.inj found')
    · exact nomatch free.symm.trans (filed.running ptr' _ foundOld running')
  case sequence =>
    exact List.pairwise_cons.mpr
      ⟨fun ptr' before => (filed.earlier ptr' before).2 ptr member, filed.sequence⟩
  case earlier =>
    intro ptr' began
    rcases List.mem_cons.mp began with rfl | before
    · exact ⟨⟨_, own, nofun⟩, ordered.1⟩
    · obtain ⟨⟨job', found', gone⟩, sooner⟩ := filed.earlier ptr' before
      exact ⟨⟨job', assigned_other (Nat.ne_of_lt (sooner ptr member)) found', gone⟩,
        fun later isLater => sooner later (part isLater)⟩

omit filed in
/-- An answer ends the job that it is stored for. -/
theorem settled_by {ptr : JobPtr} {out : Json} (answered : Answered out)
    : ∃ f : Job → Job, (t.settle ptr out).2 = t.assign ptr f
      ∧ (∀ job, (f job).submission = job.submission)
      ∧ ∀ job, (f job).state = .done ∨ (f job).state = .failed := by
  rcases answered with ⟨msg, rfl⟩ | ⟨result, rfl⟩
  · exact ⟨_, congrArg Prod.snd Tickets.settle_err, fun _ => rfl, fun _ => .inr rfl⟩
  · exact ⟨_, congrArg Prod.snd Tickets.settle_okWith, fun _ => rfl, fun _ => .inl rfl⟩

/-- The job in hand takes its outcome. -/
theorem settle {ptr : JobPtr} {job : Job} {out : Json} (held : inHand h = some (ptr, job))
    (answered : Answered out) (state : Except Exn JobState)
    : Filed (t.settle ptr out).2 (.settled ptr out state :: h) := by
  obtain ⟨found, running, isListed⟩ := filed.hand ptr job held
  obtain ⟨f, settled, name, ended⟩ := @settled_by t ptr out answered
  rw [settled]
  constructor
  case next => rw [Tickets.assign_length]; exact filed.next
  case ids =>
    intro ptr' job' found'
    obtain ⟨old, foundOld, ⟨_, rfl⟩ | ⟨_, rfl⟩⟩ := assigned found'
    · exact (congrArg Prod.fst (name old)).trans (filed.ids ptr' old foundOld)
    · exact filed.ids ptr' _ foundOld
  case listed => rw [Tickets.assign_length]; exact filed.listed
  case ordered => exact filed.ordered
  case waiting =>
    intro ptr'
    rw [Tickets.assign_queue, filed.waiting]
    constructor
    · rintro ⟨job', found', queued', listed'⟩
      refine ⟨job', assigned_other ?_ found', queued', listed'⟩
      rintro rfl
      rw [found] at found'
      cases found'
      exact nomatch running.symm.trans queued'
    · rintro ⟨job', found', queued', listed'⟩
      obtain ⟨old, foundOld, ⟨_, rfl⟩ | ⟨_, rfl⟩⟩ := assigned found'
      · rcases ended old with same | same <;> exact nomatch same.symm.trans queued'
      · exact ⟨_, foundOld, queued', listed'⟩
  case hand => exact nofun
  case running =>
    intro ptr' job' found' running'
    obtain ⟨old, foundOld, ⟨_, rfl⟩ | ⟨other, rfl⟩⟩ := assigned found'
    · rcases ended old with same | same <;> exact nomatch same.symm.trans running'
    · have held' := filed.running ptr' _ foundOld running'
      rw [held] at held'
      cases held'
      exact absurd rfl other
  case sequence => exact filed.sequence
  case earlier =>
    intro ptr' began
    obtain ⟨⟨job', found', gone⟩, sooner⟩ := filed.earlier ptr' began
    refine ⟨?_, sooner⟩
    by_cases own : ptr' = ptr
    · subst own
      refine ⟨_, assigned_own found', ?_⟩
      rcases ended job' with same | same <;> rw [same] <;> exact nofun
    · exact ⟨job', assigned_other own found', gone⟩

end Filed

-----------------------------------------------------------------------------------------
-- Single steps of the system
-----------------------------------------------------------------------------------------

/-- The states that a job goes through. -/
inductive JobState.Moves : JobState → JobState → Prop
  | stays {state} : Moves state state
  | starts : Moves .queued .running
  | ends {state} (settled : state = .done ∨ state = .failed) : Moves .running state

/-- A successful call of that kind was made. -/
def World.Removes (w w' : World) (job : Job) : Prop :=
  ∃ call : ClientCall, w' = w.afterClient call ∧ (call.run w.mem w.tickets).1 = .bool true
    ∧ call.Removes job

/-- What a step does to one job. -/
structure World.Handles (w w' : World) (ptr : JobPtr) (job job' : Job) : Prop where
  found : w'.tickets.heap[ptr]? = some job'
  same : job'.submission = job.submission
  moves : job.state.Moves job'.state
  unchanged : job'.state = job.state → job' = job
  leaves : w.tickets.jobs.lookup job.id = some ptr →
    w'.tickets.jobs.lookup job.id = some ptr ∨ w.Removes w' job

/-- What a step is to the store and to the worker's hand. -/
inductive World.Files (w w' : World) : Prop
  | aside (tickets : w'.tickets = w.tickets) (hand : inHand w'.history = inHand w.history)
    (sequence : taken w'.history = taken w.history)
  | client (call : ClientCall) (same : w' = w.afterClient call)
  | takes (free : inHand w.history = none) (tickets : w'.tickets = w.tickets.dequeue.2)
    (history : w'.history = beganBy w.tickets.dequeue.1 ++ w.history)
  | settles {ptr : JobPtr} {job : Job} {out : Json} (held : inHand w.history = some (ptr, job))
    (answered : Answered out) (tickets : w'.tickets = (w.tickets.settle ptr out).2)
    (history : w'.history = .settled ptr out (outcome out) :: w.history)

variable {rule : Surroundings} {w w' : World}

theorem World.Next.files (next : World.Next rule w w') : w.Files w' := by
  cases next with
  | turn => exact .aside rfl rfl rfl
  | other step =>
      cases step with
      | client call => exact .client call rfl
      | setWalletsDir dir => exact .aside rfl rfl rfl
      | probe connected height isOpen => exact .aside rfl rfl rfl
  | @act op answer _ attentive step =>
      cases op with
      | update f =>
          obtain ⟨_, rfl⟩ := step
          exact .aside rfl rfl rfl
      | lock mode =>
          cases step
          exact .aside rfl rfl rfl
      | unlock mode =>
          cases step
          exact .aside rfl rfl rfl
      | dequeue =>
          obtain ⟨rfl, rfl⟩ := step
          exact .takes attentive rfl rfl
      | settle ptr out =>
          obtain ⟨rfl, rfl⟩ := step
          obtain ⟨⟨job, held⟩, answered⟩ := attentive
          exact .settles held answered rfl (by rw [Tickets.settle_fst])
      | ask c =>
          obtain ⟨_, rfl⟩ := step
          exact .aside rfl rfl rfl

namespace World.Files

/-- Jobs are only ever added. -/
theorem more (files : w.Files w') : w.tickets.heap.length ≤ w'.tickets.heap.length := by
  cases files with
  | aside tickets hand sequence => rw [tickets]
  | client call same =>
      subst same
      have served := Tickets.served w.mem w.tickets call
      change _ ≤ (call.run w.mem w.tickets).2.heap.length
      generalize (call.run w.mem w.tickets).2 = t', (call.run w.mem w.tickets).1 = answer at served
      cases served with
      | same => exact Nat.le_refl _
      | started => simp [Tickets.push]
      | acked => exact Nat.le_refl _
      | cancelled => exact Nat.le_refl _
  | takes free tickets history =>
      rw [tickets]
      rcases w.tickets.dequeue_cases with ⟨_, same⟩ | ⟨ptr, rest, _, took⟩
      · rw [same]
      · rw [took, Tickets.assign_length]
  | @settles ptr job out held answered tickets history =>
      obtain ⟨f, assigned, _⟩ := @Tickets.settle_assigns w.tickets ptr out
      rw [tickets, assigned, Tickets.assign_length]

theorem filed (files : w.Files w') (few : w'.tickets.Few) (filed : Filed w.tickets w.history)
    : Filed w'.tickets w'.history := by
  cases files with
  | aside tickets hand sequence =>
      rw [tickets]
      exact { filed with
        hand := by rw [hand]; exact filed.hand
        running := by rw [hand]; exact filed.running
        sequence := by rw [sequence]; exact filed.sequence
        earlier := by rw [sequence]; exact filed.earlier }
  | client call same =>
      subst same
      exact filed.client few
  | takes free tickets history =>
      rw [tickets, history]
      exact filed.dequeue free
  | settles held answered tickets history =>
      rw [tickets, history]
      exact filed.settle held answered _

/-- What a step does to any job that was submitted before it. -/
theorem handles (files : w.Files w') (few : w'.tickets.Few) (filed : Filed w.tickets w.history)
    {ptr : JobPtr} {job : Job} (found : w.tickets.heap[ptr]? = some job)
    : ∃ job', w.Handles w' ptr job job' := by
  cases files with
  | aside tickets hand sequence =>
      exact ⟨job, by rw [tickets]; exact found, rfl, .stays, fun _ => rfl,
        fun listed => .inl (by rwa [tickets])⟩
  | client call same =>
      subst same
      obtain ⟨found', leaves⟩ :=
        filed.serves few found (Tickets.served w.mem w.tickets call)
      exact ⟨job, found', rfl, .stays, fun _ => rfl, fun listed =>
        (leaves listed).imp id fun removes => ⟨call, rfl, removes⟩⟩
  | takes free tickets history =>
      rcases w.tickets.dequeue_cases with ⟨_, same⟩ | ⟨ptr', rest, queue, took⟩
      · exact ⟨job, by rw [tickets, same]; exact found, rfl, .stays, fun _ => rfl,
          fun listed => .inl (by rwa [tickets, same])⟩
      · have listed : w'.tickets.jobs = w.tickets.jobs := by rw [tickets, took]; rfl
        by_cases own : ptr = ptr'
        · subst own
          obtain ⟨_, found', queued, _⟩ :=
            (filed.waiting ptr).mp (by rw [queue]; exact List.mem_cons_self)
          rw [found] at found'
          cases found'
          refine ⟨Tickets.started job, by rw [tickets, took]; exact Filed.assigned_own found, rfl, ?_,
            fun same => ?_, fun held => .inl (by rwa [listed])⟩
          · rw [queued]
            exact .starts
          · exact nomatch same.trans queued
        · exact ⟨job, by rw [tickets, took]; exact Filed.assigned_other own found, rfl, .stays,
            fun _ => rfl, fun held => .inl (by rwa [listed])⟩
  | @settles ptr' job' out held answered tickets history =>
      obtain ⟨inPlace, running, _⟩ := filed.hand ptr' job' held
      obtain ⟨f, settled, name, ended⟩ := @Filed.settled_by w.tickets ptr' out answered
      have listed : w'.tickets.jobs = w.tickets.jobs := by rw [tickets, settled]; rfl
      by_cases own : ptr = ptr'
      · subst own
        rw [found] at inPlace
        cases inPlace
        refine ⟨f job, by rw [tickets, settled]; exact Filed.assigned_own found, name job, ?_,
          fun same => ?_, fun held => .inl (by rwa [listed])⟩
        · rw [running]
          exact .ends (ended job)
        · rcases ended job with now | now <;> exact nomatch now.symm.trans (same.trans running)
      · exact ⟨job, by rw [tickets, settled]; exact Filed.assigned_other own found, rfl, .stays,
          fun _ => rfl, fun held => .inl (by rwa [listed])⟩

end World.Files

theorem Filed.start : Filed {} [] := by
  constructor <;> simp [taken, jobsBegun, Tickets.Waits, inHand]

theorem Reachable.filed {hasNotify : Bool} {t : System} (reach : Reachable rule hasNotify t)
    (few : t.state.tickets.Few)
    : Filed t.state.tickets t.state.history := by
  have kept (w w' : World) (next : World.Next rule w w')
      (filed : w.tickets.Few → Filed w.tickets w.history) (few : w'.tickets.Few)
      : Filed w'.tickets w'.history :=
    next.files.filed few (filed (Nat.lt_of_le_of_lt next.files.more few))
  exact Reachable.attentive (fun _ => Filed.start) kept reach few

-----------------------------------------------------------------------------------------
-- Jobs that are gone
-----------------------------------------------------------------------------------------

/-- The system goes on from one moment to another. -/
abbrev System.Later (rule : Surroundings) : System → System → Prop :=
  Relation.ReflTransGen (Thread.Step (World.act rule) World.Other turn)

/-- What every step keeps, it keeps from any reachable moment on. Induction on the steps. -/
theorem Reachable.keeps {hasNotify : Bool} {Inv : World → Prop} {t t' : System}
    (kept : ∀ w w', World.Next rule w w' → Inv w → Inv w') (reach : Reachable rule hasNotify t)
    (later : System.Later rule t t') (holds : Inv t.state)
    : Inv t'.state := by
  induction later with
  | refl => exact holds
  | tail earlier step ih =>
      have here : Reachable rule hasNotify _ := Relation.ReflTransGen.trans reach earlier
      exact kept _ _ (here.attends.next step) ih

/-- The job was submitted, and is neither in the queue nor was ever taken off it. -/
structure World.Gone (w : World) (ptr : JobPtr) : Prop where
  submitted : ptr < w.tickets.heap.length
  unqueued : ptr ∉ w.tickets.queue
  untaken : ptr ∉ taken w.history

/-- Such a job never comes back: a start queues a job of its own. -/
theorem World.Next.gone {ptr : JobPtr} (next : World.Next rule w w') (gone : w.Gone ptr)
    : w'.Gone ptr := by
  have submitted := Nat.lt_of_lt_of_le gone.submitted next.files.more
  cases next.files with
  | aside tickets hand sequence =>
      exact ⟨submitted, by rw [tickets]; exact gone.unqueued, by rw [sequence]; exact gone.untaken⟩
  | client call same =>
      subst same
      refine ⟨submitted, ?_, gone.untaken⟩
      have served := Tickets.served w.mem w.tickets call
      change ptr ∉ (call.run w.mem w.tickets).2.queue
      generalize (call.run w.mem w.tickets).2 = t', (call.run w.mem w.tickets).1 = answer at served
      cases served with
      | same => exact gone.unqueued
      | started =>
          intro member
          rcases List.mem_append.mp member with old | new
          · exact gone.unqueued old
          · rw [List.mem_singleton.mp new] at gone
            exact Nat.lt_irrefl _ gone.submitted
      | acked => exact gone.unqueued
      | cancelled => exact fun member => gone.unqueued (List.eraseP_subset member)
  | takes free tickets history =>
      rcases w.tickets.dequeue_cases with ⟨_, same⟩ | ⟨ptr', rest, queue, took⟩
      · rw [same] at tickets history
        exact ⟨submitted, by rw [tickets]; exact gone.unqueued, by rw [history]; exact gone.untaken⟩
      · have unqueued := gone.unqueued
        rw [queue, List.mem_cons, not_or] at unqueued
        refine ⟨submitted, by rw [tickets, took]; exact unqueued.2, ?_⟩
        rw [history, took]
        cases w.tickets.heap[ptr']? with
        | none => exact gone.untaken
        | some job => exact fun member => (List.mem_cons.mp member).elim unqueued.1 gone.untaken
  | settles held answered tickets history =>
      obtain ⟨f, assigned, _⟩ := @Tickets.settle_assigns w.tickets _ _
      exact ⟨submitted, by rw [tickets, assigned]; exact gone.unqueued,
        by rw [history]; exact gone.untaken⟩

end MoneroWalletCore.Runtime
