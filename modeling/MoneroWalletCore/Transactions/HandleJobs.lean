import MoneroWalletCore.Transactions.Handles
import MoneroWalletCore.Transactions.LostTor

/-! Jobs that name a handle. A commit of what a handle holds gets to the library as long as sends
need not wait for Tor, and a disposal drops it; any other job that names a handle fails, commits
nothing, and leaves the handles alone.
-/

namespace MoneroWalletCore.Runtime

open Program

variable {rule : Surroundings}

/-! ### What a history tells of commits -/

def Event.commits : Event → Bool
  | .asked (.lib (.commit ..)) _ _ => true
  | _ => false

/-- A commit of the transaction. -/
def Event.commitsTx (pt : PendingTx) : Event → Bool
  | .asked (.lib (.commit pt' ..)) _ _ => pt' = pt
  | _ => false

/-- A library call that threw. -/
def Event.libThrows : Event → Bool
  | .asked (.lib _) (.error _) _ => true
  | _ => false

/-- A commit of the transaction got to the library, unless a call before it threw. -/
def Attempted (pt : PendingTx) (h : History) : Prop :=
  h.any (Event.commitsTx pt) = true ∨ h.any Event.libThrows = true

theorem Attempted.push {pt : PendingTx} {h : History} {e : Event} (attempted : Attempted pt h)
    : Attempted pt (e :: h) := by
  rcases attempted with committed | threw
  · exact .inl (by rw [List.any_cons, committed, Bool.or_true])
  · exact .inr (by rw [List.any_cons, threw, Bool.or_true])

theorem keeps_attempted {pt : PendingTx}
    : ActionsKeep rule (fun _ => True) (fun v => Attempted pt v.history) := by
  intro v op answer v' taken step attempted
  rcases attempted with committed | threw
  · exact .inl (keeps_any v op answer v' taken step committed)
  · exact .inr (keeps_any v op answer v' taken step threw)

/-- Nothing was committed, and the handles are those from before. -/
structure Uncommitted (held : Held) (v : View) : Prop where
  same : v.mem.pendingTx = held
  uncommitted : v.history.any Event.commits = false

theorem Uncommitted.push {held : Held} {v : View} {e : Event} (holds : Uncommitted held v)
    (other : e.commits = false)
    : Uncommitted held (v.push e) where
  same := holds.same
  uncommitted := by
    rw [View.push_history, List.any_cons, other, Bool.false_or]
    exact holds.uncommitted

theorem keeps_uncommitted {held : Held} : ActionsKeep rule Reporting (Uncommitted held) := by
  intro v op answer v' reporting step holds
  refine ⟨keeps_pending v op answer v' reporting step holds.same, ?_⟩
  cases op with
  | update f =>
      obtain ⟨o, rfl, rfl⟩ := step
      exact holds.uncommitted
  | lock mode =>
      cases step
      exact holds.uncommitted
  | unlock mode =>
      cases step
      exact holds.uncommitted
  | dequeue => exact reporting.elim
  | settle ptr out => exact reporting.elim
  | ask c =>
      obtain ⟨_, rfl⟩ := step
      cases c with
      | lib c => cases reporting
      | _ => exact (holds.push rfl).uncommitted

/-! ### The bodies -/

/-- The handle that a job's parameters name holds the transaction. -/
def Names (p : Json) (held : Held) (pt : PendingTx) : Prop :=
  ∃ handle, p.valueString "txHandle" "" = .ok handle ∧ held.lookup handle = some pt

/-- Sends need not wait for Tor. -/
def Mem.Sends (m : Mem) : Prop := m.route = .direct ∨ m.route = .tor

theorem doCommit_refuses {p : Json} {held : Held} {v : View} (holds : Uncommitted held v)
    (refused : ¬v.mem.Sends ∨ ∀ pt, ¬Names p held pt)
    : (doCommit p).wp (View.act rule)
        (fun out v' => outcome out = .ok .failed ∧ Uncommitted held v')
        (fun _ => Uncommitted held) v := by
  refine wp_sending (fun _ _ => ⟨rfl, holds⟩) (fun _ _ _ => holds.push rfl) fun w _ sends _ => ?_
  have unknown : ∀ pt, ¬Names p held pt := refused.resolve_left (absurd sends)
  simp only [bind_def, wp_bind, Worker.wp_orThrow, Worker.wp_read]
  refine ⟨fun handle named others => ?_, fun _ _ _ => (holds.push rfl).push rfl⟩
  cases found : v.mem.pendingTx.lookup handle with
  | none =>
      simp only [View.push_mem, Mem.under_pendingTx, found]
      exact fun _ => ⟨rfl, (holds.push rfl).push rfl⟩
  | some pt => exact absurd ⟨handle, named, holds.same ▸ found⟩ (unknown pt)

theorem doCommit_attempts {p : Json} {v : View} {w : Wallet} {pt : PendingTx}
    (isOpen : v.mem.wallet = some w) (sends : v.mem.Sends) (names : Names p v.mem.pendingTx pt)
    : (doCommit p).wp (View.act rule) (fun _ v' => Attempted pt v'.history)
        (fun _ v' => Attempted pt v'.history) v := by
  have threw {c : Lib} {error : Exn} {m : Mem} {h : History}
      : Attempted pt (.asked (.lib c) (.error error) m :: h) := .inr rfl
  have committed {answer : Except Exn Bool} {m : Mem} {h : History}
      : Attempted pt (.asked (.lib (.commit pt "" false)) answer m :: h) := by
    refine .inl ?_
    simp [Event.commitsTx]
  obtain ⟨handle, named, found⟩ := names
  refine wp_sending ?_ (fun _ _ _ => threw) fun w _ _ _ => ?_
  · rintro msg (closed | waits)
    · cases closed.symm.trans isOpen
    · exact absurd sends waits
  simp only [bind_def, wp_bind, Worker.wp_orThrow, Worker.wp_read, named]
  refine ⟨fun handle' same others => ?_, by simp⟩
  cases same
  simp only [View.push_mem, Mem.under_pendingTx, found, relayTx, bind_def, wp_bind, Worker.wp_lib]
  refine ⟨fun txids _ => ⟨fun ok _ => ?_, fun _ _ _ => committed.push⟩, fun _ _ _ => threw.push⟩
  -- what comes after the commit
  apply wp_mono (keeps_attempted.body (within_any (afterRelay w handle pt txids ok)) _ committed)
  · exact fun _ _ attempted _ => attempted.push
  · exact fun _ _ attempted _ => attempted.push

theorem doDispose_disposes {p : Json} {v : View} {pt : PendingTx}
    (names : Names p v.mem.pendingTx pt)
    : (doDispose p).wp (View.act rule) (fun out _ => outcome out = .ok .done) (fun _ _ => False)
        v := by
  obtain ⟨handle, named, found⟩ := names
  simp only [doDispose, bind_def, Worker.wp_locked, wp_bind, Worker.wp_orThrow, Worker.wp_read,
    named]
  refine ⟨fun handle' same others => ?_, by simp⟩
  cases same
  simp only [Mem.under_pendingTx, found, wp_bind, Worker.wp_update]
  exact fun _ => rfl

theorem doDispose_refuses {p : Json} {held : Held} {v : View} (holds : Uncommitted held v)
    (unknown : ∀ pt, ¬Names p held pt)
    : (doDispose p).wp (View.act rule)
        (fun out v' => outcome out = .ok .failed ∧ Uncommitted held v')
        (fun _ => Uncommitted held) v := by
  simp only [doDispose, bind_def, Worker.wp_locked, wp_bind, Worker.wp_orThrow, Worker.wp_read]
  refine ⟨fun handle named others => ?_, fun _ _ => holds⟩
  cases found : v.mem.pendingTx.lookup handle with
  | none =>
      simp only [Mem.under_pendingTx, found]
      exact ⟨rfl, holds⟩
  | some pt => exact absurd ⟨handle, named, holds.same ▸ found⟩ (unknown pt)

/-! ### Their turns -/

/-- A job that failed, committed nothing and left the handles alone. -/
structure TurnedDown (ptr : JobPtr) (held : Held) (v : View) : Prop extends Uncommitted held v where
  verdict : verdicts v.history = [(ptr, .ok .failed)]

/-- A job whose body refuses is turned down. -/
theorem run_turnsDown {ptr : JobPtr} {job : Job} {v : View} (only : v.history = [.began ptr job])
    (refuses : ∀ v', v'.mem.session = v.mem.session → Uncommitted v.mem.pendingTx v' →
      (dispatch job).wp (View.act rule)
        (fun out v'' => outcome out = .ok .failed ∧ Uncommitted v.mem.pendingTx v'')
        (fun _ => Uncommitted v.mem.pendingTx) v')
    : (run ptr job).wp (View.act rule) (fun _ => TurnedDown ptr v.mem.pendingTx)
        (fun _ => TurnedDown ptr v.mem.pendingTx) v := by
  have after (state : Except Exn JobState) : ActionsKeep rule Reporting
      (fun v' => state = .ok .failed ∧ Uncommitted v.mem.pendingTx v') :=
    fun v' op answer v'' reporting step ended =>
      ⟨ended.1, keeps_uncommitted v' op answer v'' reporting step ended.2⟩
  have fresh : Uncommitted v.mem.pendingTx v := ⟨rfl, by rw [only]; rfl⟩
  have ends := @run_verdict rule _ _ (keeps_session.and keeps_uncommitted) after ptr job
    (fun _ _ _ ended => ⟨ended.1, ended.2.push rfl⟩)
    (fun v' ready => wp_mono (refuses v' ready.1 ready.2) (fun _ _ ended => ended)
      fun _ _ ended => ⟨rfl, ended⟩)
    v (by rw [only]; rfl) ⟨rfl, fresh⟩
  have down (v' : View) (ended : ∃ state, verdicts v'.history = [(ptr, state)]
      ∧ state = .ok .failed ∧ Uncommitted v.mem.pendingTx v')
      : TurnedDown ptr v.mem.pendingTx v' := by
    obtain ⟨_, verdict, rfl, same⟩ := ended
    exact ⟨same, verdict⟩
  exact wp_mono ends (fun _ => down) (fun _ => down)

theorem run_commits_by_book {ptr : JobPtr} {job : Job} {v : View} {w : Wallet} {pt : PendingTx}
    (kind : job.kind = "commit_transaction") (isOpen : v.mem.wallet = some w) (sends : v.mem.Sends)
    (names : Names job.params v.mem.pendingTx pt)
    : (run ptr job).wp (View.act rule) (fun _ v' => Attempted pt v'.history)
        (fun _ v' => Attempted pt v'.history) v := by
  have body : dispatch job = doCommit job.params := by simp [dispatch, kind, openKinds]
  have after : ActionsKeep rule Reporting (fun v => Attempted pt v.history) :=
    keeps_attempted.mono fun _ _ => trivial
  apply run_settles keeps_session after _ rfl
  intro v' same
  have isOpen' : v'.mem.wallet = some w := (congrArg Session.wallet same).trans isOpen
  have sends' : v'.mem.Sends := by
    have route : v'.mem.route = v.mem.route := congrArg Session.route same
    rw [Mem.Sends, route]
    exact sends
  have names' : Names job.params v'.mem.pendingTx pt := by
    have pending : v'.mem.pendingTx = v.mem.pendingTx := congrArg Session.pendingTx same
    rw [pending]
    exact names
  rw [Settles, body]
  exact wp_mono (doCommit_attempts isOpen' sends' names') (fun _ _ => .push) (fun _ _ => .push)

theorem run_disposes {ptr : JobPtr} {job : Job} {v : View} {pt : PendingTx}
    (only : v.history = [.began ptr job]) (kind : job.kind = "dispose_transaction")
    (names : Names job.params v.mem.pendingTx pt)
    : (run ptr job).wp (View.act rule) (fun _ v' => verdicts v'.history = [(ptr, .ok .done)])
        (fun _ v' => verdicts v'.history = [(ptr, .ok .done)]) v := by
  have body : dispatch job = doDispose job.params := by simp [dispatch, kind, openKinds]
  have ends := @run_verdict rule (fun v' => v'.mem.pendingTx = v.mem.pendingTx)
    (fun state _ => state = .ok .done) keeps_pending (fun _ _ _ _ _ _ _ done => done) ptr job
    (fun _ _ _ done => done)
    (fun v' same => by
      rw [body]
      exact wp_mono (doDispose_disposes (same ▸ names)) (fun _ _ done => done)
        fun _ _ thrown => thrown.elim)
    v (by rw [only]; rfl) rfl
  have done (v' : View) (ended : ∃ state, verdicts v'.history = [(ptr, state)] ∧ state = .ok .done)
      : verdicts v'.history = [(ptr, .ok .done)] := by
    obtain ⟨_, verdict, rfl⟩ := ended
    exact verdict
  exact wp_mono ends (fun _ => done) (fun _ => done)

/-- A job that names what no handle holds, or a commit while sends wait. -/
theorem run_refuses {ptr : JobPtr} {job : Job} {v : View} (only : v.history = [.began ptr job])
    (refused : job.kind = "commit_transaction" ∧ ¬v.mem.Sends
      ∨ (job.kind = "commit_transaction" ∨ job.kind = "dispose_transaction")
        ∧ ∀ pt, ¬Names job.params v.mem.pendingTx pt)
    : (run ptr job).wp (View.act rule) (fun _ => TurnedDown ptr v.mem.pendingTx)
        (fun _ => TurnedDown ptr v.mem.pendingTx) v := by
  apply run_turnsDown only
  intro v' same holds
  have waits (waits : ¬v.mem.Sends) : ¬v'.mem.Sends := by
    have route : v'.mem.route = v.mem.route := congrArg Session.route same
    rw [Mem.Sends, route]
    exact waits
  have commits (kind : job.kind = "commit_transaction") : dispatch job = doCommit job.params := by
    simp [dispatch, kind, openKinds]
  rcases refused with ⟨kind, waiting⟩ | ⟨kind | kind, unknown⟩
  · rw [commits kind]
    exact doCommit_refuses holds (.inl (waits waiting))
  · rw [commits kind]
    exact doCommit_refuses holds (.inr unknown)
  · have body : dispatch job = doDispose job.params := by simp [dispatch, kind, openKinds]
    rw [body]
    exact doDispose_refuses holds unknown

/-! ### Fresh transactions -/

/-- A library that takes the next free identity makes fresh transactions. -/
theorem freshTx_fresh (h : History) : freshTx h ∉ h.filterMap Event.built? := by
  intro member
  have le := List.le_sum_of_mem (List.mem_map_of_mem (f := PendingTx.id) member)
  simp [freshTx] at le

theorem Script.fresh {script : Script}
    (creates : ∀ h w dst paymentId amount mixin priority account inputs separator,
      script h
          (.lib (.createTransaction w dst paymentId amount mixin priority account inputs separator))
        = .ok (some (freshTx h)))
    : script.Follows FreshTransactions := by
  intro h c m pt built
  cases c with
  | lib c =>
      cases c with
      | createTransaction =>
          rw [creates] at built
          cases built
          exact freshTx_fresh h
      | _ => cases built
  | _ => cases built

theorem Script.succeeding_fresh {found : Bool} {network : Int} {node : Json}
    : (Script.succeeding found network node).Follows FreshTransactions :=
  Script.fresh fun _ _ _ _ _ _ _ _ _ _ => rfl

/-! ### In every run -/

/-- The module goes by its book: what its handles hold, the handles it gave out, and each commit
that it made. -/
structure KeepsBook (w : World) : Prop where
  held : w.mem.pendingTx = (txBook w.history).held
  distinct : (txBook w.history).kept.length < 2 ^ 64 → (txBook w.history).handed.Nodup
  relayedOnce : (txBook w.history).relayed.Nodup
  permitted : Throughout Event.CommitPermitted w.history

/-- How the job of a turn goes that names a handle, by what the book says that handles hold. -/
structure GoesByBook (w w' : World) (new : History) (ptr : JobPtr) (job : Job) : Prop where
  commits : ∀ pt, job.kind = "commit_transaction" → w.mem.Sends →
    Names job.params (txBook w.history).held pt → Attempted pt new
  waits : job.kind = "commit_transaction" → ¬w.mem.Sends →
    TurnedDown ptr (txBook w.history).held (View.at w'.mem new)
  disposes : ∀ pt, job.kind = "dispose_transaction" → Names job.params (txBook w.history).held pt →
    verdicts new = [(ptr, .ok .done)]
  unknown : job.kind = "commit_transaction" ∨ job.kind = "dispose_transaction" →
    (∀ pt, ¬Names job.params (txBook w.history).held pt) →
    TurnedDown ptr (txBook w.history).held (View.at w'.mem new)

theorem TxInv.reachable {hasNotify : Bool} {w : World}
    (reach : Reachable FreshTransactions hasNotify ⟨.pure (), w⟩)
    : TxInv w.view := by
  have init : TxInv (World.start hasNotify).view :=
    ⟨⟨rfl, rfl, fun _ => rfl, TxBook.sound_empty, nofun, nofun, throughout_nil⟩, rfl⟩
  exact keepsTx_all.reachable init reach rfl

theorem pendingTx_of_reachable {hasNotify : Bool} {w : World}
    (reach : Reachable FreshTransactions hasNotify ⟨.pure (), w⟩)
    : w.mem.pendingTx = (txBook w.history).held :=
  (TxInv.reachable reach).kept.held

/-- In every run the handles given out are distinct, as long as fewer transactions were kept than
the counter counts; each transaction is relayed once at most, and only ever committed while its
handle holds it and the wallet it was built on is open; and a handle goes on holding it, for
commits and disposals, until it is relayed, disposed of, or the wallet is closed. Commits have to
wait while sends wait for Tor, with the handle kept. Witness: the invariant of whole turns, and
the ways out of the jobs. -/
theorem handles_by_book {hasNotify : Bool} {w : World}
    (reach : Reachable FreshTransactions hasNotify ⟨.pure (), w⟩)
    : KeepsBook w
      ∧ ∀ w' new ptr job,
          World.Turn FreshTransactions w w' → w'.history = new ++ w.history →
          (ptr, job) ∈ jobsBegun new → GoesByBook w w' new ptr job := by
  have holds := TxInv.reachable reach
  have held := pendingTx_of_reachable reach
  refine ⟨⟨held, holds.kept.sound.distinct, holds.kept.sound.once, holds.kept.permitted⟩, ?_⟩
  intro w' new ptr job turn split began
  have whole : World.Turn AnyAnswer w w' := turn.mono fun _ _ _ => trivial
  have down (refused : job.kind = "commit_transaction" ∧ ¬w.mem.Sends
      ∨ (job.kind = "commit_transaction" ∨ job.kind = "dispose_transaction")
        ∧ ∀ pt, ¬Names job.params w.mem.pendingTx pt)
      : TurnedDown ptr w.mem.pendingTx (View.at w'.mem new) :=
    whole.job split began (run_refuses rfl refused)
  constructor
  · intro pt kind sends names
    rw [← held] at names
    obtain ⟨wallet, isOpen⟩ : ∃ wallet, w.mem.wallet = some wallet := by
      cases isOpen : w.mem.wallet with
      | some wallet => exact ⟨wallet, rfl⟩
      | none =>
          have empty : w.mem.pendingTx = ∅ := holds.kept.closed isOpen
          obtain ⟨handle, _, found⟩ := names
          rw [empty] at found
          exact nomatch found
    have attempted : Attempted pt (View.at w'.mem new).history :=
      whole.job split began (run_commits_by_book kind isOpen sends names)
    exact attempted
  · exact fun kind waits => held ▸ down (.inl ⟨kind, waits⟩)
  · intro pt kind names
    have done : verdicts (View.at w'.mem new).history = [(ptr, .ok .done)] :=
      whole.job split began (run_disposes rfl kind (held ▸ names))
    exact done
  · exact fun kinds unknown => held ▸ down (.inr ⟨kinds, held ▸ unknown⟩)

theorem unstorable_fresh : unstorable.Follows FreshTransactions :=
  Script.fresh fun _ _ _ _ _ _ _ _ _ _ => rfl

theorem handles_by_book_relaying
    : KeepsBook World.relaying
      ∧ ∃ w' new job pt,
          World.Turn FreshTransactions World.relaying w'
          ∧ w'.history = new ++ World.relaying.history ∧ (2, job) ∈ jobsBegun new
          ∧ job.kind = "commit_transaction"
          ∧ Names job.params (txBook World.relaying.history).held pt ∧ Attempted pt new := by
  obtain ⟨book, goes⟩ := handles_by_book (World.relaying_reachable Script.succeeding_fresh)
  refine ⟨book, ?_⟩
  obtain ⟨_, pt, _, _, _, _, _, route, found⟩ := World.relaying_front
  obtain ⟨w', new, job, _, whole, split, began, kind, params, _⟩ :=
    World.relaying_turn unstorable_fresh
  have names : Names job.params (txBook World.relaying.history).held pt := by
    rw [← book.held, params]
    exact ⟨"tx1", rfl, found⟩
  exact ⟨w', new, job, pt, whole, split, began, kind, names,
    (goes w' new 2 job whole split began).commits pt kind (.inl route) names⟩

/-! ### Where Tor is lost -/

theorem Script.cutOff_fresh : Script.cutOff.Follows FreshTransactions :=
  Script.fresh fun _ _ _ _ _ _ _ _ _ _ => rfl

/-- A commit is turned down while sends wait for Tor. -/
theorem doCommit_waits {w : World} {wallet : Wallet} {script : Script} {p : Json}
    (isOpen : w.mem.wallet = some wallet)
    (route : w.mem.route = .waitingForTor)
    : (doCommit p).exec (World.answer script) w = (.ok (err kWaitingForTor), w) := by
  have waits : decide (w.mem.route = .catchUp ∨ w.mem.route = .waitingForTor) = true := by
    rw [route]
    rfl
  simp only [doCommit, sending, exec_locked, bind_def, exec_bind, exec_read, isOpen,
    sendsWaitForTor, pure_def, exec, waits, if_true]

/-- A whole turn that turns a commit down. -/
theorem afterTurn_waits {w : World} {wallet : Wallet} {script : Script} {ptr : JobPtr} {job : Job}
    (front : w.tickets.dequeue.1 = some (ptr, job)) (kind : job.kind = "commit_transaction")
    (reset : w.mem.locksReset = true) (isOpen : w.mem.wallet = some wallet)
    (route : w.mem.route = .waitingForTor)
    : ∃ new, (w.afterTurn script).history = new ++ w.history ∧ (ptr, job) ∈ jobsBegun new
        ∧ (∀ pt, ¬Attempted pt new) ∧ verdicts new = [(ptr, .ok .failed)] := by
  have body : dispatch job = doCommit job.params := by simp [dispatch, kind, openKinds]
  have left := @doCommit_waits
    { w with tickets := w.tickets.dequeue.2, history := .began ptr job :: w.history }
    wallet script job.params isOpen route
  obtain ⟨-, -, payload, answer, m, ended⟩ :=
    @afterTurn_settled w script ptr job (err kWaitingForTor) .failed _ front reset rfl
      (by rw [body, exec_tryCatch, left])
  refine ⟨[.asked (.emit "jobFinished" payload) answer m,
    .settled ptr (err kWaitingForTor) (.ok .failed), .began ptr job], ?_, .head _, fun pt => ?_, rfl⟩
  · rw [ended]
    rfl
  · simp [Attempted, Event.commitsTx, Event.libThrows]

/-- A commit of what was built is submitted. -/
def World.committingCutOff : World :=
  World.cutOff.afterClient (.startJob "commit_transaction" (commitParams "tx1") "receipt2")

theorem World.cutOff_reachable : Reachable FreshTransactions true ⟨.pure (), World.cutOff⟩ :=
  ((((Reachable.withJob _ _).afterTurn Script.succeeding_fresh).afterClient _).afterTurn
    Script.succeeding_fresh).afterTurn Script.cutOff_fresh

/-! ### Where the counter comes round -/

/-- A turn that builds a transaction keeps it, and gives its handle out. -/
theorem txBook_sent {h : History} {ptr : JobPtr} {job : Job} {wallet : Wallet} {dst : String}
    {pt : PendingTx} {result payload : Json} {answer : Except Exn Unit} {m m₁ m₂ : Mem}
    (kind : job.kind = "create_transaction")
    : let book := txBook
        (.asked (.emit "jobFinished" payload) answer m
          :: .settled ptr (okWith result) (.ok .done)
          :: .asked (.destructor (.startRefresh wallet)) () m₂
          :: sendEvents wallet dst pt m₁ m₂
          ++ .asked (.lib (.pauseRefresh wallet)) (.ok ()) m₁ :: .began ptr job :: h)
      book.kept = pt :: (txBook h).kept ∧ book.handed = str result "txHandle" :: (txBook h).handed := by
  simp [txBook, sendEvents, Event.trade?, justBuilt, Event.built?, lastKind, Event.job?, kind,
    TxBook.after, givenHandle, okWith, Json.find?]

/-- A wallet that is opened, and sends so many times. -/
def World.sendingOn : Nat → World
  | 0 =>
      let job := .obj [("name", .str "w"), ("network", .str "mainnet")]
      (World.withJob "open_wallet" job).afterTurn plainScript
  | sends + 1 =>
      ((World.sendingOn sends).afterClient
        (.startJob "create_transaction" (sendParams Address.zeroAddress) "receipt")).afterTurn
        plainScript

/-- The wallet goes on being able to send. -/
structure World.SendsOn (w : World) (sends : Nat) : Prop where
  reach : Reachable FreshTransactions true ⟨.pure (), w⟩
  reset : w.mem.locksReset = true
  isOpen : w.mem.wallet = some ⟨9⟩
  route : w.mem.route = .direct
  network : w.mem.network = "mainnet"
  dir : w.mem.walletsDir ≠ ""
  idle : w.tickets.queue = []
  kept : (txBook w.history).kept.length = sends
  handed : (txBook w.history).handed = handlesUpTo sends

theorem World.sendingOn_opened : (World.sendingOn 0).SendsOn 0 where
  reach := (Reachable.withJob _ _).afterTurn Script.succeeding_fresh
  reset := by decide +kernel
  isOpen := by decide +kernel
  route := by decide +kernel
  network := by decide +kernel
  dir := by decide +kernel
  idle := by decide +kernel
  kept := by decide +kernel
  handed := by decide +kernel

/-- One send more. -/
theorem World.SendsOn.again {w : World} {sends : Nat} (on : w.SendsOn sends)
    : ((w.afterClient
        (.startJob "create_transaction" (sendParams Address.zeroAddress) "receipt")).afterTurn
        plainScript).SendsOn (sends + 1) := by
  obtain ⟨job, front, kind, params, idle⟩ := @startJob_front w.mem w.tickets "create_transaction" "receipt"
    (sendParams Address.zeroAddress) (by decide) on.dir rfl on.idle
  rw [← World.afterClient_start] at front idle
  have valid : Address.valid Address.zeroAddress w.mem.network = true := by
    rw [on.network]
    exact Address.zeroAddress_valid
  obtain ⟨pt, result, members, tickets, given, payload, answer, m, told⟩ :=
    @afterTurn_creates
      (w.afterClient (.startJob "create_transaction" (sendParams Address.zeroAddress) "receipt"))
      true 0 plainNode w.tickets.heap.length job ⟨9⟩ _ front kind params on.reset on.isOpen
      (.inl on.route) valid
  have next : w.mem.nextTx = UInt64.ofNat (sends + 1) :=
    on.kept ▸ (TxInv.reachable on.reach).kept.next
  have book := @txBook_sent w.history w.tickets.heap.length job ⟨9⟩ Address.zeroAddress pt result
    payload answer m w.mem.own (registered pt w.mem).own kind
  refine ⟨(on.reach.afterClient _).afterTurn Script.succeeding_fresh, ?_, ?_, ?_, ?_, ?_, ?_, ?_, ?_⟩
  · rw [members]
    exact on.reset
  · rw [members]
    exact on.isOpen
  · rw [members]
    exact on.route
  · rw [members]
    exact on.network
  · rw [members]
    exact on.dir
  · rw [tickets, settle_okWith.1, idle]
  · rw [told]
    exact (congrArg List.length book.1).trans (congrArg (· + 1) on.kept)
  · rw [told, handlesUpTo_succ, ← on.handed]
    refine book.2.trans (congrArg (· :: _) (given.trans ?_))
    exact congrArg txHandle next

theorem World.sendingOn_sendsOn (sends : Nat) : (World.sendingOn sends).SendsOn sends := by
  induction sends with
  | zero => exact World.sendingOn_opened
  | succ sends ih => exact ih.again

/-- The handle that comes after all of the counter's values was given out before. -/
theorem handed_again {sends : Nat} (round : nthHandle sends = nthHandle 0) (some : 0 < sends)
    : ¬(handlesUpTo (sends + 1)).Nodup := by
  rw [handlesUpTo_succ, List.nodup_cons, round]
  intro ⟨fresh, _⟩
  exact fresh (by simpa [handlesUpTo] using ⟨0, some, rfl⟩)

/-- A module that sends often enough gives a handle out again. -/
theorem handle_given_again
    : ∃ w, Reachable FreshTransactions true ⟨.pure (), w⟩ ∧ ¬(txBook w.history).handed.Nodup := by
  have on := World.sendingOn_sendsOn (2 ^ 64 + 1)
  refine ⟨_, on.reach, ?_⟩
  rw [on.handed]
  exact handed_again numbered_round (by decide)

/-- A transaction is held by a handle that nothing has ended, and yet its commit is turned down
before it gets to the library: sends wait for Tor. And a module that sends often enough gives a
handle out again. -/
theorem held_commit_waits
    : Reachable FreshTransactions true ⟨.pure (), World.committingCutOff⟩
      ∧ (∃ w' new job pt,
          World.Turn FreshTransactions World.committingCutOff w'
          ∧ w'.history = new ++ World.committingCutOff.history ∧ (2, job) ∈ jobsBegun new
          ∧ job.kind = "commit_transaction"
          ∧ Names job.params (txBook World.committingCutOff.history).held pt
          ∧ ¬Attempted pt new ∧ verdicts new = [(2, .ok .failed)])
      ∧ ∃ w, Reachable FreshTransactions true ⟨.pure (), w⟩ ∧ ¬(txBook w.history).handed.Nodup := by
  have reach : Reachable FreshTransactions true ⟨.pure (), World.committingCutOff⟩ :=
    World.cutOff_reachable.afterClient _
  refine ⟨reach, ?_, handle_given_again⟩
  obtain ⟨pt, found, reset, isOpen, route, dir, queue, heap⟩ := World.cutOff_waits
  obtain ⟨job, front, kind, params, _⟩ := @startJob_front World.cutOff.mem World.cutOff.tickets
    "commit_transaction" "receipt2" (commitParams "tx1") (by decide) dir rfl queue
  rw [heap, ← World.afterClient_start] at front
  have same : World.committingCutOff.mem = World.cutOff.mem := World.afterClient_mem _ _
  rw [← same] at found reset isOpen route
  obtain ⟨new, split, began, unattempted, failed⟩ :=
    @afterTurn_waits World.committingCutOff ⟨9⟩ overTor 2 job front kind reset isOpen route
  have whole : World.Turn FreshTransactions World.committingCutOff
      (World.committingCutOff.afterTurn overTor) :=
    World.afterTurn_turn Script.succeeding_fresh _
  refine ⟨_, new, job, pt, whole, split, began, kind, ⟨"tx1", ?_, ?_⟩, unattempted pt, failed⟩
  · rw [params]
    rfl
  · rw [← pendingTx_of_reachable reach]
    exact found

end MoneroWalletCore.Runtime
