import MoneroWalletCore.Runtime.State

/-! The ticket store: the five client calls and the worker's two sections, each atomic under
`m_qmu`. A pointer is read through the heap, so a change to a job is seen through every pointer
to it.
-/

namespace MoneroWalletCore.Runtime

/-- The kinds that `startJob` accepts. -/
def jobKinds : List String :=
  [
    "open_wallet", "create_wallet", "restore_from_seed", "restore_from_keys", "close_wallet",
    "rescan", "create_transaction", "commit_transaction", "dispose_transaction",
    "change_password"
  ]

namespace Tickets

/-- The section of `startJob`: the new job's id and the store that holds it. -/
def push (t : Tickets) (kind : String) (params : Json) (receipt : String) : String × Tickets :=
  let id := "j" ++ toString t.nextId
  let ptr := t.heap.length
  (
    id,
    {
      heap := t.heap ++ [{ id, receipt, kind, params }]
      queue := t.queue ++ [ptr]
      jobs := t.jobs.insert id ptr
      nextId := t.nextId + 1
    }
  )

/-- The job under an id, when the receipt is its own. -/
def held (t : Tickets) (id receipt : String) : Option (JobPtr × Job) :=
  match t.jobs.lookup id with
  | none => none
  | some ptr =>
      match t.heap[ptr]? with
      | none => none
      | some job => if job.receipt = receipt then some (ptr, job) else none

/-- A job assigned through a pointer. -/
def assign (t : Tickets) (ptr : JobPtr) (f : Job → Job) : Tickets :=
  { t with heap := t.heap.modify ptr f }

def jobStatus (t : Tickets) (id receipt : String) : Json :=
  match t.held id receipt with
  | none => err "unknown job"
  | some (_, j) =>
      .obj
        [
          ("ok", .bool true), ("state", .str j.state.name), ("progress", j.progress),
          ("error", .str j.error)
        ]

def jobResult (t : Tickets) (id receipt : String) : Json :=
  match t.held id receipt with
  | none => err "unknown job"
  | some (_, j) =>
      if j.acked then err "job already acked"
      else if j.state = .failed then err j.error
      else if j.state ≠ .done then err ("job not finished: " ++ j.state.name)
      else okWith j.result

def ackJob (t : Tickets) (id receipt : String) : Bool × Tickets :=
  match t.held id receipt with
  | none => (false, t)
  | some (_, j) =>
      if j.state ≠ .done ∧ j.state ≠ .failed then (false, t)
      else (true, { t with jobs := t.jobs.erase id })

def cancelJob (t : Tickets) (id receipt : String) : Bool × Tickets :=
  match t.held id receipt with
  | none => (false, t)
  | some (_, j) =>
      if j.state ≠ .queued then
        (false, t)
      else
        let named (q : JobPtr) : Bool := (t.heap[q]?).any (fun job => job.id == id)
        (true, { t with queue := t.queue.eraseP named, jobs := t.jobs.erase id })

/-- The front of the queue starts running. -/
def dequeue (t : Tickets) : Option (JobPtr × Job) × Tickets :=
  match t.queue with
  | [] => (none, t)
  | ptr :: rest =>
      let next := { t with queue := rest }.assign ptr (fun job => { job with state := .running })
      ((next.heap[ptr]?).map (fun job => (ptr, job)), next)

/-- The state is assigned before the field that goes with it is read off the outcome. -/
def settle (t : Tickets) (ptr : JobPtr) (out : Json) : Except Exn JobState × Tickets :=
  match out.valueBool "ok" false with
  | .error e => (.error e, t)
  | .ok true =>
      let t := t.assign ptr (fun job => { job with state := .done })
      match Json.value Except.ok out "result" (.obj []) with
      | .error e => (.error e, t)
      | .ok result => (.ok .done, t.assign ptr (fun job => { job with result }))
  | .ok false =>
      let t := t.assign ptr (fun job => { job with state := .failed })
      match out.valueString "error" "unknown error" with
      | .error e => (.error e, t)
      | .ok error => (.ok .failed, t.assign ptr (fun job => { job with error }))

end Tickets

/-- A kind outside the list, or a module without its directory, makes no job. -/
def startJob (m : Mem) (t : Tickets) (kind : String) (params : Json) (receipt : String)
    : Json × Tickets :=
  if kind ∉ jobKinds then
    (err ("unknown job kind: " ++ kind), t)
  else if m.walletsDir = "" then
    (err "module context not ready (no wallets directory)", t)
  else
    let params := if params.isObject then params else .obj []
    let (id, t) := t.push kind params receipt
    (.obj [("ok", .bool true), ("jobId", .str id), ("receipt", .str receipt)], t)

/-- A call of a client. The receipt of a start is the random token drawn for it. -/
inductive ClientCall where
  | startJob (kind : String) (params : Json) (receipt : String)
  | jobStatus (id receipt : String)
  | jobResult (id receipt : String)
  | ackJob (id receipt : String)
  | cancelJob (id receipt : String)

/-- The answer of a client's call and the store after it. -/
def ClientCall.run (m : Mem) (t : Tickets) : ClientCall → Json × Tickets
  | .startJob kind params receipt =>
      MoneroWalletCore.Runtime.startJob m t kind params receipt
  | .jobStatus id receipt => (t.jobStatus id receipt, t)
  | .jobResult id receipt => (t.jobResult id receipt, t)
  | .ackJob id receipt =>
      let (answer, t) := t.ackJob id receipt
      (.bool answer, t)
  | .cancelJob id receipt =>
      let (answer, t) := t.cancelJob id receipt
      (.bool answer, t)

end MoneroWalletCore.Runtime
