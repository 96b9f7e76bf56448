import MoneroWalletCore.Session.JobTurns
import MoneroWalletCore.Transactions.Building
import MoneroWalletCore.Transactions.Txids

/-! What a commit reports. The ids are read before the relay, so that the report does not depend
on what the library answers after it; but the wallet is stored between the relay and the report,
and what the store throws becomes the outcome of a transaction that was sent.
-/

namespace MoneroWalletCore.Runtime

open Program

variable {rule : Surroundings}

-----------------------------------------------------------------------------------------
-- What a history tells of a relay
-----------------------------------------------------------------------------------------

/-- A commit that returned true. -/
def Event.relays : Event → Bool
  | .asked (.lib (.commit ..)) (.ok ok) _ => ok
  | _ => false

/-- The library relayed a transaction. -/
def Relayed (h : History) : Prop := h.any Event.relays = true

/-- A store that threw. -/
def Event.storeThrows : Event → Bool
  | .asked (.lib (.store ..)) (.error _) _ => true
  | _ => false

/-- No store threw. -/
def StoresReturned (h : History) : Prop := h.any Event.storeThrows = false

def Event.outcome? : Event → Option (JobPtr × Json × Except Exn JobState)
  | .settled ptr out state => some (ptr, out, state)
  | _ => none

/-- The jobs that were settled, with their answers and the states they took. -/
def outcomes (h : History) : List (JobPtr × Json × Except Exn JobState) :=
  h.filterMap Event.outcome?

/-- The ids of a transaction were read, and then it was relayed. -/
def ReadAndRelayed (pt : PendingTx) (txids : String) (h : History) : Prop :=
  ∃ m older,
    .asked (.lib (.commit pt "" false)) (.ok true) m
        :: .asked (.lib (.pendingTxid pt ",")) (.ok txids) m :: older
      <:+ h

/-- The ids that are told: all of them, or none where what was read is no list of ids. -/
def Tells (txids told : String) : Prop :=
  JoinsTxids txids ∧ told = txids ∨ ¬JoinsTxids txids ∧ told = ""

/-- The transactions that are held, by their handles. -/
abbrev Held := AList (fun _ : String => PendingTx)

-----------------------------------------------------------------------------------------
-- The ways out of a commit
-----------------------------------------------------------------------------------------

/-- Nothing has been relayed: the handles are those from before, and no store threw. -/
structure Unrelayed (held : Held) (v : View) : Prop where
  same : v.mem.pendingTx = held
  unrelayed : ¬Relayed v.history
  stored : StoresReturned v.history

/-- A transaction has been relayed and is told of, and its handle is gone. -/
structure SendTold (p : Json) (held : Held) (out : Json) (v : View) : Prop where
  relayed : Relayed v.history
  told : ∃ handle pt txids shown,
    p.valueString "txHandle" "" = .ok handle
    ∧ held.lookup handle = some pt
    ∧ ReadAndRelayed pt txids v.history
    ∧ out = okWith (.obj [("txids", .str shown)])
    ∧ Tells txids shown
    ∧ v.mem.pendingTx = held.erase handle

/-- A transaction has been relayed and the store threw. -/
structure SendUntold (v : View) : Prop where
  relayed : Relayed v.history
  threw : ¬StoresReturned v.history

theorem Unrelayed.push {held : Held} {v : View} {e : Event} (holds : Unrelayed held v)
    (unrelayed : e.relays = false) (stored : e.storeThrows = false)
    : Unrelayed held (v.push e) where
  same := holds.same
  unrelayed := by
    rw [Relayed, View.push_history, List.any_cons, unrelayed, Bool.false_or]
    exact holds.unrelayed
  stored := by
    rw [StoresReturned, View.push_history, List.any_cons, stored, Bool.false_or]
    exact holds.stored

theorem Relayed.push {h : History} {e : Event} (relayed : Relayed h) : Relayed (e :: h) := by
  rw [Relayed, List.any_cons, relayed, Bool.or_true]

theorem StoresReturned.push {h : History} {e : Event} (stored : StoresReturned h)
    (returns : e.storeThrows = false)
    : StoresReturned (e :: h) := by
  rw [StoresReturned, List.any_cons, returns, stored]
  rfl

theorem SendTold.push {p : Json} {held : Held} {out : Json} {v : View} {e : Event}
    (told : SendTold p held out v)
    : SendTold p held out (v.push e) where
  relayed := told.relayed.push
  told := by
    obtain ⟨handle, pt, txids, shown, named, found, ⟨m, older, part⟩, same⟩ := told.told
    exact ⟨handle, pt, txids, shown, named, found, ⟨m, older, part.trans (List.suffix_cons _ _)⟩,
      same⟩

theorem SendUntold.push {v : View} {e : Event} (untold : SendUntold v) : SendUntold (v.push e) where
  relayed := untold.relayed.push
  threw := by
    have threw := Bool.eq_true_of_not_eq_false untold.threw
    rw [StoresReturned, View.push_history, List.any_cons, threw, Bool.or_true]
    exact nofun

/-- Only its end settles a job. -/
theorem Worker.Stays.outcomes {α : Type} {p : Worker α} (stays : p.Stays Outside) (v : View)
    : p.wp (View.act rule) (fun _ v' => Runtime.outcomes v'.history = Runtime.outcomes v.history)
        (fun _ v' => Runtime.outcomes v'.history = Runtime.outcomes v.history) v :=
  (keeps_events fun _ _ _ => rfl).body stays v rfl

/-- Everything succeeds but storing the wallet, which throws. -/
def unstorable : Script := fun h c =>
  match c with
  | .lib (.store ..) => .error .unknown
  | c => plainScript h c

def commitParams (handle : String) : Json := .obj [("txHandle", .str handle)]

/-- The transaction is relayed, and the job ends by the exception. -/
theorem doCommit_unstorable {w : World} {wallet : Wallet} {pt : PendingTx} {handle : String}
    (isOpen : w.mem.wallet = some wallet) (route : w.mem.route = .direct)
    (found : w.mem.pendingTx.lookup handle = some pt)
    : ∃ w' new,
        ((doCommit (commitParams handle)).tryCatch fun e => .pure (caught e)).exec
            (World.answer unstorable) w
          = (.ok (caught .unknown), w')
        ∧ w'.history = new ++ w.history ∧ Relayed new ∧ outcomes new = [] ∧ jobsBegun new = [] := by
  have free : decide (Route.direct = .catchUp ∨ Route.direct = .waitingForTor) = false := rfl
  have named : (commitParams handle).valueString "txHandle" "" = .ok handle := rfl
  have paused := @exec_lib unstorable w (.pauseRefresh wallet) () rfl
  simp only [exec_tryCatch, doCommit, sending, exec_locked, bind_def, exec_bind, exec_read, isOpen,
    sendsWaitForTor, route, pure_def, exec, free, Bool.false_eq_true, if_false, refreshPaused,
    exec_ensure, named, paused, exec_orThrow, World.told, found]
  exact ⟨_, [_, _, _, _, _], rfl, rfl, rfl, rfl, rfl⟩

/-- The transaction that is held is to be relayed. -/
def World.relaying : World :=
  World.holding.afterClient (.startJob "commit_transaction" (commitParams "tx1") "receipt2")

theorem World.relaying_reachable {rule : Surroundings} (follows : plainScript.Follows rule)
    : Reachable rule true ⟨.pure (), World.relaying⟩ :=
  (World.holding_reachable follows).afterClient _

/-- The job is the next one, and what it finds. -/
theorem World.relaying_front
    : ∃ job pt, World.relaying.tickets.dequeue.1 = some (2, job)
        ∧ job.kind = "commit_transaction" ∧ job.params = commitParams "tx1"
        ∧ World.relaying.mem.locksReset = true ∧ World.relaying.mem.wallet = some ⟨9⟩
        ∧ World.relaying.mem.route = .direct
        ∧ World.relaying.mem.pendingTx.lookup "tx1" = some pt := by
  obtain ⟨pt, members, queue, heap⟩ := World.holding_registered
  obtain ⟨reset, isOpen, route, _, dir, none, next, _⟩ := World.sending_open
  obtain ⟨job, front, kind, params, _⟩ := @startJob_front World.holding.mem World.holding.tickets
    "commit_transaction" "receipt2" (commitParams "tx1") (by decide) (by rw [members]; exact dir) rfl
    queue
  rw [heap] at front
  rw [← World.afterClient_start] at front
  rw [World.relaying, World.afterClient_mem, members]
  refine ⟨job, pt, front, kind, params, reset, isOpen, route, ?_⟩
  have first : txHandle World.sending.mem.nextTx = "tx1" := by
    rw [next]
    decide +kernel
  rw [registered, first]
  exact AList.lookup_insert _

/-- A turn that relays a transaction of such a wallet. -/
theorem afterTurn_unstorable {w : World} {ptr : JobPtr} {job : Job} {wallet : Wallet}
    {pt : PendingTx} {handle : String} (front : w.tickets.dequeue.1 = some (ptr, job))
    (kind : job.kind = "commit_transaction") (params : job.params = commitParams handle)
    (reset : w.mem.locksReset = true) (isOpen : w.mem.wallet = some wallet)
    (route : w.mem.route = .direct) (found : w.mem.pendingTx.lookup handle = some pt)
    : ∃ new out,
        (w.afterTurn unstorable).history = new ++ w.history ∧ (ptr, job) ∈ jobsBegun new
        ∧ Relayed new ∧ outcomes new = [(ptr, out, .ok .failed)] := by
  have body : dispatch job = doCommit (commitParams handle) := by
    simp [dispatch, kind, params, openKinds]
  obtain ⟨w', new, left, told, relayed, unsettled, begins⟩ := @doCommit_unstorable
    { w with tickets := w.tickets.dequeue.2, history := .began ptr job :: w.history }
    wallet pt handle isOpen route found
  obtain ⟨-, -, payload, answer, m, ended⟩ :=
    @afterTurn_settled w unstorable ptr job (caught .unknown) .failed w' front reset rfl
      (by rw [body, left])
  refine ⟨.asked (.emit "jobFinished" payload) answer m
    :: .settled ptr (caught .unknown) (.ok .failed) :: (new ++ [.began ptr job]), caught .unknown,
    ?_, ?_, ?_, ?_⟩
  · rw [ended, told, List.cons_append, List.cons_append, List.append_assoc]
    rfl
  · have all : jobsBegun (new ++ [.began ptr job]) = [(ptr, job)] := by
      rw [jobsBegun, List.filterMap_append]
      exact congrArg (· ++ [(ptr, job)]) begins
    exact all ▸ List.mem_singleton.mpr rfl
  · have some_ : new.any Event.relays = true := relayed
    rw [Relayed, List.any_cons, List.any_cons, List.any_append, some_]
    rfl
  · have settled : outcomes (new ++ [.began ptr job]) = [] := by
      rw [outcomes, List.filterMap_append]
      exact congrArg (· ++ []) unsettled
    exact congrArg ((ptr, caught .unknown, .ok .failed) :: ·) settled

theorem World.relaying_turn {rule : Surroundings} (follows : unstorable.Follows rule)
    : ∃ w' new job out,
        World.Turn rule World.relaying w' ∧ w'.history = new ++ World.relaying.history
        ∧ (2, job) ∈ jobsBegun new ∧ job.kind = "commit_transaction"
        ∧ job.params = commitParams "tx1" ∧ Relayed new
        ∧ outcomes new = [(2, out, .ok .failed)] := by
  obtain ⟨job, pt, front, kind, params, reset, isOpen, route, found⟩ := World.relaying_front
  obtain ⟨new, out, split, began, relayed, failed⟩ :=
    afterTurn_unstorable front kind params reset isOpen route found
  exact ⟨_, new, job, out, World.afterTurn_turn follows _, split, began, kind, params, relayed,
    failed⟩

end MoneroWalletCore.Runtime
