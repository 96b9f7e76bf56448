import MoneroWalletCore.Address.Misspelling
import MoneroWalletCore.Runtime.Replay

/-! Runs that build a transaction. Its destination has to be a valid address, whose checksum is
known from elsewhere and not computed again, so these turns are followed call by call.
-/

namespace MoneroWalletCore.Runtime

open Program

variable {w : World} {found : Bool} {network : Int} {node : Json}

/-- The world goes on to another in which the members are as given, and it has only been asked
things meanwhile. -/
structure World.Later (w : World) (m : Mem) (w' : World) : Prop where
  mem : w'.mem = m
  tickets : w'.tickets = w.tickets
  history : w.history <:+ w'.history

/-- The parameters of a send. -/
def sendParams (dst : String) : Json := .obj [("amount", .str "5"), ("address", .str dst)]

/-- What such a send is told while its transaction is built, the last first. -/
def sendEvents (wallet : Wallet) (dst : String) (pt : PendingTx) (m m' : Mem) : History :=
  [
    .asked (.lib (.pendingTxid pt ",")) (.ok "") m',
    .asked (.lib (.pendingTxCount pt)) (.ok (0 : UInt64)) m',
    .asked (.lib (.pendingDust pt)) (.ok (0 : UInt64)) m',
    .asked (.lib (.pendingFee pt)) (.ok (0 : UInt64)) m',
    .asked (.lib (.pendingAmount pt)) (.ok (0 : UInt64)) m',
    .asked (.lib (.pendingStatus pt)) (.ok (0 : Int)) m,
    .asked (.lib (.createTransaction wallet (cstr dst) (cstr "") 5 0 0 0 "" ",")) (.ok (some pt)) m,
    .asked (.lib (.watchOnly wallet)) (.ok false) m
  ]

theorem buildTx_creates {wallet : Wallet} {dst : String}
    (valid : Address.valid dst w.mem.network = true)
    : ∃ pt result w',
        (buildTx wallet (sendParams dst)).exec (World.answer (Script.succeeding found network node)) w
          = (.ok (okWith result), w')
        ∧ w.Later (registered pt w.mem) w'
        ∧ str result "txHandle" = txHandle w.mem.nextTx
        ∧ w'.history
          = sendEvents wallet dst pt w.mem.own (registered pt w.mem).own ++ w.history := by
  have amount : (sendParams dst).valueString "amount" "" = .ok "5" := rfl
  have parsed : parseAtomic "5" = some 5 := by decide +kernel
  have positive : (some (5 : UInt64)).filter (· ≠ 0) = some 5 := rfl
  have destination : (sendParams dst).valueString "address" "" = .ok dst := rfl
  have priority : (sendParams dst).valueInt32 "priority" 0 = .ok 0 := rfl
  have account : (sendParams dst).valueUInt32 "accountIndex" 0 = .ok 0 := rfl
  have paymentId : (sendParams dst).valueString "paymentId" "" = .ok "" := rfl
  simp only [buildTx, bind_def, exec_bind, exec_succeeds, Lib.succeeds, amount, parsed, positive,
    destination, priority, account, paymentId, exec_orThrow, exec_read, World.told, valid,
    Bool.not_true, Bool.false_eq_true, if_false]
  refine ⟨_, _, _, rfl, ⟨rfl, rfl, ?_⟩, rfl, rfl⟩
  exact ⟨[_, _, _, _, _, _, _, _], rfl⟩

/-- A send that goes through to its end, on an open wallet that does not wait for Tor. -/
theorem doCreateTransaction_creates {wallet : Wallet} {dst : String}
    (isOpen : w.mem.wallet = some wallet) (route : w.mem.route = .direct ∨ w.mem.route = .tor)
    (valid : Address.valid dst w.mem.network = true)
    : ∃ pt result w',
        (doCreateTransaction (sendParams dst)).exec
            (World.answer (Script.succeeding found network node)) w
          = (.ok (okWith result), w')
        ∧ w.Later (registered pt w.mem) w'
        ∧ str result "txHandle" = txHandle w.mem.nextTx
        ∧ w'.history
          = .asked (.destructor (.startRefresh wallet)) () (registered pt w.mem).own
            :: sendEvents wallet dst pt w.mem.own (registered pt w.mem).own
            ++ .asked (.lib (.pauseRefresh wallet)) (.ok ()) w.mem.own :: w.history := by
  have free : decide (w.mem.route = .catchUp ∨ w.mem.route = .waitingForTor) = false := by
    rcases route with direct | tor
    · simp [direct]
    · simp [tor]
  obtain ⟨pt, result, w', built, later, given, told⟩ := @buildTx_creates
    (w.told (.lib (.pauseRefresh wallet)) (.ok ())) found network node wallet dst valid
  refine ⟨pt, result, w'.told (.destructor (.startRefresh wallet)) (), ?_, ?_, given, ?_⟩
  · simp only [doCreateTransaction, sending, exec_locked, bind_def, exec_bind, exec_read, isOpen,
      sendsWaitForTor, pure_def, exec, free, Bool.false_eq_true, if_false, refreshPaused,
      exec_ensure, exec_succeeds, Lib.succeeds, built]
    rfl
  · exact ⟨later.mem, later.tickets,
      (List.suffix_cons _ _).trans (later.history.trans (List.suffix_cons _ _))⟩
  · rw [World.told, told, later.mem]
    rfl

/-- A whole turn that builds a transaction. -/
theorem afterTurn_creates {ptr : JobPtr} {job : Job} {wallet : Wallet} {dst : String}
    (front : w.tickets.dequeue.1 = some (ptr, job)) (kind : job.kind = "create_transaction")
    (params : job.params = sendParams dst) (reset : w.mem.locksReset = true)
    (isOpen : w.mem.wallet = some wallet) (route : w.mem.route = .direct ∨ w.mem.route = .tor)
    (valid : Address.valid dst w.mem.network = true)
    : ∃ pt result,
        (w.afterTurn (Script.succeeding found network node)).mem = registered pt w.mem
        ∧ (w.afterTurn (Script.succeeding found network node)).tickets
          = (w.tickets.dequeue.2.settle ptr (okWith result)).2
        ∧ str result "txHandle" = txHandle w.mem.nextTx
        ∧ ∃ payload answer m,
            (w.afterTurn (Script.succeeding found network node)).history
              = .asked (.emit "jobFinished" payload) answer m
                :: .settled ptr (okWith result) (.ok .done)
                :: .asked (.destructor (.startRefresh wallet)) () (registered pt w.mem).own
                :: sendEvents wallet dst pt w.mem.own (registered pt w.mem).own
                ++ .asked (.lib (.pauseRefresh wallet)) (.ok ()) w.mem.own
                :: .began ptr job :: w.history := by
  have body : dispatch job = doCreateTransaction (sendParams dst) := by
    simp [dispatch, kind, params, openKinds]
  obtain ⟨pt, result, w', created, later, given, told⟩ := @doCreateTransaction_creates
    { w with tickets := w.tickets.dequeue.2, history := .began ptr job :: w.history }
    found network node wallet dst isOpen route valid
  obtain ⟨members, tickets, payload, answer, m, ended⟩ :=
    @afterTurn_settled w (Script.succeeding found network node) ptr job (okWith result) .done w'
      front reset rfl (by rw [body, exec_tryCatch, created])
  refine ⟨pt, result, members.trans later.mem, tickets.trans (by rw [later.tickets]), given, payload,
    answer, m, ?_⟩
  rw [ended, told]
  rfl

/-- Into an empty queue a job is submitted as the next one. -/
theorem startJob_front {m : Mem} {t : Tickets} {kind receipt : String} {params : Json}
    (known : kind ∈ jobKinds) (dir : m.walletsDir ≠ "") (object : params.isObject = true)
    (idle : t.queue = [])
    : ∃ job, (startJob m t kind params receipt).2.dequeue.1 = some (t.heap.length, job)
        ∧ job.kind = kind ∧ job.params = params
        ∧ (startJob m t kind params receipt).2.dequeue.2.queue = [] := by
  rw [startJob, if_neg (not_not.mpr known), if_neg dir, if_pos object]
  have last (job : Job) : (t.heap ++ [job])[t.heap.length]? = some job := by simp
  simp only [Tickets.push, Tickets.dequeue, idle, List.nil_append, Tickets.assign,
    List.getElem?_modify_eq, last]
  exact ⟨_, rfl, rfl, rfl, trivial⟩

theorem settle_okWith {t : Tickets} {ptr : JobPtr} {result : Json}
    : (t.settle ptr (okWith result)).2.queue = t.queue
      ∧ (t.settle ptr (okWith result)).2.heap.length = t.heap.length := by
  have stored : (t.settle ptr (okWith result)).2
      = (t.assign ptr fun job => { job with state := .done }).assign ptr
          fun job => { job with result } := rfl
  simp only [stored, Tickets.assign, List.length_modify, and_self]

-----------------------------------------------------------------------------------------
-- A module that holds a transaction
-----------------------------------------------------------------------------------------

/-- A node that is dialled directly. -/
def plainNode : Json := .obj [("url", .str "http://127.0.0.1:18081")]

/-- Everything succeeds, for mainnet wallets and that node. -/
abbrev plainScript : Script := Script.succeeding true 0 plainNode

/-- An open wallet, with a send submitted. -/
def World.sending : World :=
  let job := .obj [("name", .str "w"), ("network", .str "mainnet")]
  ((World.withJob "open_wallet" job).afterTurn plainScript).afterClient
    (.startJob "create_transaction" (sendParams Address.zeroAddress) "receipt1")

def World.holding : World := World.sending.afterTurn plainScript

theorem World.sending_reachable {rule : Surroundings} (follows : plainScript.Follows rule)
    : Reachable rule true ⟨.pure (), World.sending⟩ :=
  ((Reachable.withJob _ _).afterTurn follows).afterClient _

theorem World.sending_front
    : ∃ job, World.sending.tickets.dequeue.1 = some (1, job)
        ∧ job.kind = "create_transaction"
        ∧ job.params = sendParams Address.zeroAddress :=
  ⟨_, rfl, rfl, rfl⟩

/-- The open wallet, the way to its daemon, and what the job is submitted into. -/
theorem World.sending_open
    : World.sending.mem.locksReset = true ∧ World.sending.mem.wallet = some ⟨9⟩
      ∧ World.sending.mem.route = .direct ∧ World.sending.mem.network = "mainnet"
      ∧ World.sending.mem.walletsDir ≠ "" ∧ World.sending.mem.pendingTx.entries = []
      ∧ World.sending.mem.nextTx = 1 ∧ World.sending.tickets.dequeue.2.queue = []
      ∧ World.sending.tickets.dequeue.2.heap.length = 2 := by
  decide +kernel

theorem World.holding_reachable {rule : Surroundings} (follows : plainScript.Follows rule)
    : Reachable rule true ⟨.pure (), World.holding⟩ :=
  (World.sending_reachable follows).afterTurn follows

/-- It holds one transaction, and another job would be the next one. -/
theorem World.holding_registered
    : ∃ pt, World.holding.mem = registered pt World.sending.mem
        ∧ World.holding.tickets.queue = [] ∧ World.holding.tickets.heap.length = 2 := by
  obtain ⟨reset, isOpen, route, network, _, _, _, queue, heap⟩ := World.sending_open
  obtain ⟨job, front, kind, params⟩ := World.sending_front
  have valid : Address.valid Address.zeroAddress World.sending.mem.network = true := by
    rw [network]
    exact Address.zeroAddress_valid
  obtain ⟨pt, result, members, tickets, _⟩ :=
    @afterTurn_creates World.sending true 0 plainNode 1 job _ _ front kind params reset isOpen
      (.inl route) valid
  have settled := @settle_okWith World.sending.tickets.dequeue.2 1 result
  rw [World.holding]
  refine ⟨pt, members, ?_, ?_⟩
  · rw [tickets, settled.1, queue]
  · rw [tickets, settled.2, heap]

end MoneroWalletCore.Runtime
