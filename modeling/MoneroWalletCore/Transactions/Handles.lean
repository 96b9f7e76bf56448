import MoneroWalletCore.Session.SendGate
import MoneroWalletCore.Transactions.TxBook

/-! The handles of pending transactions in the module. The map and its counter agree with the
book of the history, and whatever a handle holds was built on the wallet that is open; a job that
names a handle goes by what the book says.
-/

namespace MoneroWalletCore.Runtime

open Program

/-- The library makes a new object for every transaction that it builds. -/
def FreshTransactions : Surroundings := fun h e =>
  ∀ pt, e.built? = some pt → pt ∉ h.filterMap Event.built?

/-! ### The invariant -/

/-- The members agree with the book of the history. -/
structure TxKept (v : View) : Prop where
  held : v.mem.pendingTx = (txBook v.history).held
  next : v.mem.nextTx = UInt64.ofNat ((txBook v.history).kept.length + 1)
  closed : v.mem.wallet = none → v.mem.pendingTx = ∅
  sound : (txBook v.history).Sound
  known : ∀ pt ∈ (txBook v.history).kept, pt ∈ v.history.filterMap Event.built?
  built : ∀ w handle pt, v.mem.wallet = some w → v.mem.pendingTx.lookup handle = some pt →
    BuiltOn w pt v.history
  permitted : Throughout Event.CommitPermitted v.history

/-- And no transaction has just been built, which was still to be looked at. -/
structure TxInv (v : View) : Prop where
  kept : TxKept v
  looked : justBuilt v.history = none

/-- The members that the invariant speaks of. -/
theorem TxKept.assign {v : View} {m : Mem} (holds : TxKept v) (same : v.mem.SameObjects m)
    : TxKept (View.at m v.history) := by
  obtain ⟨wallet, pending, next⟩ := same
  refine ⟨pending.trans holds.held, next.trans holds.next, fun none => ?_, holds.sound, holds.known,
    fun w handle pt isOpen found => ?_, holds.permitted⟩
  · exact pending.trans (holds.closed (wallet.symm.trans none))
  · exact holds.built w handle pt (wallet.symm.trans isOpen) (pending ▸ found)

theorem TxInv.assign {v : View} {m : Mem} (holds : TxInv v) (same : v.mem.SameObjects m)
    : TxInv (View.at m v.history) :=
  ⟨holds.kept.assign same, holds.looked⟩

/-- An event that trades nothing. -/
theorem TxKept.push {v : View} {e : Event} (holds : TxKept v) (none : e.trade? v.history = none)
    (handle : v.mem.wallet = Option.none ∨ e.handle? = Option.none)
    (permitted : e.CommitPermitted v.history)
    : TxKept (v.push e) := by
  have book : txBook (v.push e).history = txBook v.history := txBook_cons_none none
  refine ⟨?_, ?_, holds.closed, ?_, ?_, ?_, throughout_cons.mpr ⟨permitted, holds.permitted⟩⟩
  · rw [book]
    exact holds.held
  · rw [book]
    exact holds.next
  · rw [book]
    exact holds.sound
  · rw [book]
    intro pt kept
    have earlier := holds.known pt kept
    cases found : e.built? with
    | none => rwa [View.push_history, List.filterMap_cons_none found]
    | some pt' =>
        rw [View.push_history, List.filterMap_cons_some found]
        exact .tail _ earlier
  · intro w handle_ pt isOpen found
    refine (holds.built w handle_ pt isOpen found).cons fun made => ?_
    rcases handle with closed | unmade
    · exact nomatch closed.symm.trans isOpen
    · exact nomatch unmade.symm.trans made

/-- An event that trades, with what the members become: nothing is kept anew. -/
theorem TxKept.trade {v : View} {e : Event} {m : Mem} {trade : Trade} (holds : TxKept v)
    (trades : e.trade? v.history = some trade)
    (old : ((txBook v.history).after (namedHandle v.history) trade).kept = (txBook v.history).kept)
    (admits : (txBook v.history).Admits (namedHandle v.history) trade)
    (pending : m.pendingTx = ((txBook v.history).after (namedHandle v.history) trade).held)
    (next : m.nextTx = v.mem.nextTx) (closed : m.wallet = none → m.pendingTx = ∅)
    (isOpen : ∀ w, m.wallet = some w → v.mem.wallet = some w)
    (handle : m.wallet = none ∨ e.handle? = none)
    (built : e.built? = none) (permitted : e.CommitPermitted v.history)
    : TxKept (View.at m (e :: v.history)) := by
  have book : txBook (e :: v.history) = (txBook v.history).after (namedHandle v.history) trade :=
    txBook_cons_some trades
  refine ⟨?_, ?_, closed, ?_, ?_, ?_, throughout_cons.mpr ⟨permitted, holds.permitted⟩⟩
  · rw [View.at_history, book]
    exact pending
  · rw [View.at_history, book, old]
    exact next.trans holds.next
  · rw [View.at_history, book]
    exact holds.sound.after admits
  · rw [View.at_history, book, old, List.filterMap_cons_none built]
    exact holds.known
  · intro w handle_ pt isOpen' found
    have earlier : v.mem.pendingTx.lookup handle_ = some pt := by
      rw [holds.held]
      exact TxBook.lookup_after old (pending ▸ found)
    refine (holds.built w handle_ pt (isOpen w isOpen') earlier).cons fun made => ?_
    rcases handle with none | unmade
    · exact nomatch none.symm.trans isOpen'
    · exact nomatch unmade.symm.trans made

/-- A call that does not spend trades nothing, unless it is the store of a close. -/
theorem TxInv.untraded {v : View} {c : Call} {answer : c.Answer} (holds : TxInv v)
    (sends : (Event.asked c answer v.mem).sends = false)
    : (Event.asked c answer v.mem).trade? v.history = none
      ∨ (Event.asked c answer v.mem).trade? v.history = some .closes ∧ v.mem.wallet = none := by
  cases c with
  | lib c =>
      cases c with
      | pendingStatus pt =>
          cases answer with
          | ok status => exact .inl (by simp [Event.trade?, holds.looked])
          | error error => exact .inl rfl
      | store w path =>
          by_cases closed : v.mem.wallet = none
          · exact .inr ⟨by rw [trade_store, if_pos closed], closed⟩
          · exact .inl (by rw [trade_store, if_neg closed])
      | commit => cases sends
      | createTransaction => cases sends
      | _ => exact .inl rfl
  | _ => exact .inl rfl

/-- A close in that sense finds nothing held. -/
theorem TxInv.ask {v : View} {c : Call} {answer : c.Answer} (holds : TxInv v)
    (sends : (Event.asked c answer v.mem).sends = false)
    (handle : v.mem.wallet = none ∨ (Event.asked c answer v.mem).handle? = none)
    : TxInv (v.push (.asked c answer v.mem)) := by
  have built : (Event.asked c answer v.mem).built? = none := by
    cases c with
    | lib c => cases c <;> first | rfl | cases sends
    | _ => rfl
  have permitted : (Event.asked c answer v.mem).CommitPermitted v.history := by
    cases c with
    | lib c => cases c <;> trivial
    | _ => trivial
  refine ⟨?_, built⟩
  rcases holds.untraded sends with none | ⟨closes, closed⟩
  · exact holds.kept.push none handle permitted
  · rw [← View.at_self (v.push _)]
    exact holds.kept.trade closes rfl trivial (holds.kept.closed closed) rfl holds.kept.closed
      (fun _ => id) (.inl closed) built permitted

/-! ### Actions that trade nothing -/

variable {rule : Surroundings}

theorem keepsTx_acting {assigns : Mem → Mem → Prop} {calls : Call → Bool}
    (objects : ∀ m m', assigns m m' → m.SameObjects m')
    (sends : ∀ (c : Call) (answer : c.Answer) m, calls c = true →
      (Event.asked c answer m).sends = false)
    (handle : ∀ (c : Call) (answer : c.Answer) m, calls c = true →
      (Event.asked c answer m).handle? = none)
    : ActionsKeep rule (Acting assigns calls) TxInv := by
  apply ActionsKeep.acting
  · intro v m assigned holds
    obtain ⟨o, assigned⟩ := assigned
    have same : v.mem.SameObjects m := objects (v.mem.under o) m assigned
    exact holds.assign same
  · exact fun v c answer call _ holds => holds.ask (sends c answer _ call) (.inr (handle c answer _ call))

theorem keepsTx_quiet : ActionsKeep rule Quiet TxInv := by
  apply keepsTx_acting
  · intro m m' same
    exact ⟨congrArg Session.wallet same, congrArg Session.pendingTx same, congrArg Session.nextTx same⟩
  · intro c answer m quiet
    cases c with
    | lib c => cases c <;> first | rfl | cases quiet
    | _ => rfl
  · exact fun c answer m quiet => Call.quiet_handle quiet

theorem keepsTx_moving : ActionsKeep rule Moving TxInv := by
  apply keepsTx_acting
  · exact fun _ _ same => ⟨same.1, same.2.1, same.2.2.1⟩
  · intro c answer m moves
    cases c with
    | lib c => cases c <;> first | rfl | cases moves
    | _ => rfl
  · intro c answer m moves
    cases c with
    | lib c => cases c <;> first | rfl | cases moves
    | _ => rfl

/-- With no wallet open wallet objects may be made. -/
theorem keepsTx_closed : ActionsKeep rule Forgetting (fun v => TxInv v ∧ v.mem.wallet = none) := by
  apply ActionsKeep.acting
  · intro v m assigned holds
    obtain ⟨o, same⟩ := assigned
    exact ⟨holds.1.assign same, same.1.trans holds.2⟩
  · intro v c answer attempts _ holds
    refine ⟨holds.1.ask ?_ (.inl holds.2), holds.2⟩
    cases c with
    | lib c => cases c <;> first | rfl | cases attempts
    | _ => rfl

/-- Every transaction that is held was built on the open wallet, so none is when one is put in
place. -/
theorem TxInv.published {v : View} {m : Mem} (holds : TxInv v) (none : v.mem.wallet = none)
    (pending : m.pendingTx = v.mem.pendingTx) (next : m.nextTx = v.mem.nextTx)
    : TxInv (View.at m v.history) := by
  have empty := holds.kept.closed none
  refine ⟨⟨pending.trans holds.kept.held, next.trans holds.kept.next, fun _ => pending.trans empty,
    holds.kept.sound, holds.kept.known, fun w handle pt _ found => ?_, holds.kept.permitted⟩,
    holds.looked⟩
  have none_ : (∅ : Held).lookup handle = some pt := empty ▸ pending ▸ found
  exact nomatch none_

theorem keepsTx_open : OpenKeeps rule TxInv where
  steady := keepsTx_quiet.mono fun _ => Steady.quiet
  attempts := keepsTx_closed.mono fun _ => Attempting.forgetting
  inits _ _ _ _ _ holds none _ := holds.ask rfl (.inl none)
  publishes v o plan path addr w holds none _ := by
    apply publishWallet_keeps keepsTx_quiet
    intro m seen now session _
    have put : TxInv (View.at (described o plan.node addr now m) v.history) :=
      holds.published none (congrArg Session.pendingTx session) (congrArg Session.nextTx session)
    exact ⟨put.kept.push rfl (.inr rfl) trivial, rfl⟩

/-- The wallet is stored with its handle and the transactions taken out. -/
theorem keepsTx_close : doClose.Keeps rule TxInv := by
  apply doClose_keeps_stored (keepsTx_quiet.body setState_quietly) _ keepsTx_closed
  intro v m w answer holds session _
  have none : (withoutWallet m).own.wallet = Option.none := rfl
  have closes : (Event.asked (.lib (.store w "")) answer (withoutWallet m).own).trade? v.history
      = some .closes := by
    rw [trade_store, if_pos none]
  refine ⟨?_, rfl⟩
  exact holds.kept.trade closes rfl trivial rfl (congrArg Session.nextTx session) (fun _ => rfl)
    nofun (.inl rfl) rfl trivial

/-! ### Actions that trade -/

/-- The job that runs is the one that began last. -/
theorem keeps_lastJob_outside {job : Job}
    : ActionsKeep rule Outside (fun v => lastJob v.history = some job) := by
  intro v op answer v' outside step running
  cases op with
  | update f =>
      obtain ⟨o, rfl, rfl⟩ := step
      exact running
  | lock mode =>
      cases step
      exact running
  | unlock mode =>
      cases step
      exact running
  | dequeue => exact outside.elim
  | settle ptr out => exact outside.elim
  | ask c =>
      obtain ⟨_, rfl⟩ := step
      exact running

/-- The section that drops the handle of a transaction that was relayed or disposed of. -/
theorem TxKept.drops {v : View} {e : Event} {o : Others} {handle : String} {pt : PendingTx}
    {trade : Trade} (holds : TxKept v) (found : v.mem.pendingTx.lookup handle = some pt)
    (trades : e.trade? v.history = some trade) (named : namedHandle v.history = some handle)
    (which : trade = .relays pt ∨ trade = .disposes) (made : e.handle? = none)
    (built : e.built? = none) (permitted : e.CommitPermitted v.history)
    : TxKept (View.at (dropped handle (v.mem.under o)) (e :: v.history)) := by
  have known : (txBook v.history).held.lookup handle = some pt := holds.held ▸ found
  have closed (none : v.mem.wallet = none) : (v.mem.pendingTx.erase handle) = ∅ := by
    rw [holds.closed none] at found
    exact nomatch found
  have gone : v.mem.pendingTx.erase handle = (txBook v.history).held.without (some handle) :=
    congrArg (AList.erase handle) holds.held
  rcases which with rfl | rfl
  · refine holds.trade trades rfl ⟨handle, named, known⟩ ?_ rfl closed (fun _ => id) (.inr made) built
      permitted
    rw [named]
    exact gone
  · refine holds.trade trades rfl trivial ?_ rfl closed (fun _ => id) (.inr made) built permitted
    rw [named]
    exact gone

/-! ### A commit -/

/-- The invariant while a job's body runs. -/
def TxRunning (job : Job) (v : View) : Prop := TxInv v ∧ lastJob v.history = some job

theorem Quiet.outside {op : Op} (quiet : Quiet op) : Outside op := by
  cases op <;> trivial

theorem keepsTx_running {job : Job} : ActionsKeep rule Quiet (TxRunning job) :=
  keepsTx_quiet.and (keeps_lastJob_outside.mono fun _ => Quiet.outside)

theorem namedHandle_of {job : Job} {h : History} {handle : String} (running : lastJob h = some job)
    (named : job.params.valueString "txHandle" "" = .ok handle)
    : namedHandle h = some handle := by
  rw [namedHandle, running, Option.bind_some, Job.txHandle?, named]
  rfl

theorem lastKind_of {job : Job} {h : History} (running : lastJob h = some job)
    : lastKind h = some job.kind := by
  rw [lastKind, running, Option.map_some]

theorem TxRunning.commitPermitted {v : View} {job : Job} {w : Wallet} {handle : String}
    {pt : PendingTx} (running : TxRunning job v) (kind : job.kind = "commit_transaction")
    (isOpen : v.mem.wallet = some w) (named : job.params.valueString "txHandle" "" = .ok handle)
    (found : v.mem.pendingTx.lookup handle = some pt)
    : CommitPermitted pt v.mem v.history where
  commits := by rw [lastKind_of running.2, kind]
  held := ⟨handle, namedHandle_of running.2 named, running.1.kept.held ▸ found⟩
  built := ⟨w, isOpen, running.1.kept.built w handle pt isOpen found⟩

theorem keepsTx_commit {job : Job} (kind : job.kind = "commit_transaction")
    : (doCommit job.params).Keeps rule (TxRunning job) := by
  apply doCommit_keeps_by keepsTx_running
  · intro v w handle pt answer running isOpen _ named found _ unrelayed
    have permitted := running.commitPermitted kind isOpen named found
    have untraded : (Event.asked (.lib (.commit pt "" false)) answer v.mem).trade? v.history
        = none := by
      cases answer with
      | ok ok =>
          cases ok with
          | true => exact absurd rfl unrelayed
          | false => rfl
      | error error => rfl
    exact ⟨⟨running.1.kept.push untraded (.inr rfl) permitted, rfl⟩, running.2⟩
  · intro v w handle pt o running isOpen _ named found _
    have permitted := running.commitPermitted kind isOpen named found
    refine ⟨⟨?_, rfl⟩, running.2⟩
    exact running.1.kept.drops found rfl (namedHandle_of running.2 named) (.inl rfl) rfl rfl permitted

/-! ### A send -/

/-- The transaction that was just built takes the next handle. -/
theorem TxKept.keeps {v : View} {e : Event} {o : Others} {w : Wallet} {pt : PendingTx}
    (holds : TxKept v) (keeps : e.trade? v.history = some (.keeps pt))
    (new : pt ∉ (txBook v.history).kept) (known : pt ∈ v.history.filterMap Event.built?)
    (isOpen : v.mem.wallet = some w) (onIt : BuiltOn w pt v.history) (made : e.handle? = none)
    (built : e.built? = none) (permitted : e.CommitPermitted v.history)
    : TxKept (View.at (registered pt (v.mem.under o)) (e :: v.history)) := by
  have book : txBook (e :: v.history) = (txBook v.history).after (namedHandle v.history) (.keeps pt) :=
    txBook_cons_some keeps
  have handle : txHandle v.mem.nextTx = nthHandle (txBook v.history).kept.length := by
    rw [holds.next]
    rfl
  have pending : (registered pt (v.mem.under o)).pendingTx
      = (txBook v.history).held.insert (nthHandle (txBook v.history).kept.length) pt := by
    rw [← handle, ← holds.held]
    rfl
  refine ⟨?_, ?_, fun none => (nomatch none.symm.trans isOpen), ?_, ?_, ?_,
    throughout_cons.mpr ⟨permitted, holds.permitted⟩⟩
  · rw [View.at_history, book]
    exact pending
  · rw [View.at_history, book]
    have counted : UInt64.ofNat ((txBook v.history).kept.length + 1 + 1)
        = UInt64.ofNat ((txBook v.history).kept.length + 1) + 1 := UInt64.ofNat_add _ _
    exact (congrArg (· + 1) holds.next).trans counted.symm
  · rw [View.at_history, book]
    exact holds.sound.after new
  · rw [View.at_history, book, List.filterMap_cons_none built]
    exact List.forall_mem_cons.mpr ⟨known, holds.known⟩
  · intro w' handle' pt' isOpen' found
    have same : w' = w := Option.some.inj (isOpen'.symm.trans isOpen)
    subst same
    refine BuiltOn.cons ?_ (made ▸ nofun)
    by_cases newest : handle' = txHandle v.mem.nextTx
    · subst newest
      have this : pt' = pt := Option.some.inj (found.symm.trans (AList.lookup_insert _))
      exact this ▸ onIt
    · exact holds.built w' handle' pt' isOpen ((AList.lookup_insert_ne newest).symm.trans found)

/-- A handle is the last one, and was not given out. -/
abbrev TxBook.Ungiven (b : TxBook) (handle : String) : Prop := b.Admits none (.hands handle)

theorem keepsTx_ungiven {job : Job} {handle : String}
    : ActionsKeep rule Quiet
        (fun v => TxRunning job v ∧ (txBook v.history).Ungiven handle) := by
  intro v op answer v' quiet step ⟨running, ungiven⟩
  have running' := keepsTx_running v op answer v' quiet step running
  refine ⟨running', ?_⟩
  cases op with
  | update f =>
      obtain ⟨o, rfl, rfl⟩ := step
      exact ungiven
  | lock mode =>
      cases step
      exact ungiven
  | unlock mode =>
      cases step
      exact ungiven
  | dequeue => exact quiet.elim
  | settle ptr out => exact quiet.elim
  | ask c =>
      obtain ⟨_, rfl⟩ := step
      have sends : (Event.asked c answer v.mem).sends = false := by
        cases c with
        | lib c => cases c <;> first | rfl | cases quiet
        | _ => rfl
      rw [View.push_history]
      rcases running.1.untraded sends with none | ⟨closes, _⟩
      · rw [txBook_cons_none none]
        exact ungiven
      · rw [txBook_cons_some closes]
        exact ungiven

/-- Where a send's body may end: it failed, or it gives out the last handle. -/
def Sent (job : Job) (out : Json) (v : View) : Prop :=
  TxRunning job v
    ∧ (outcome out = .ok .failed
      ∨ outcome out = .ok .done ∧ (txBook v.history).Ungiven (givenHandle out))

theorem keepsSent {job : Job} (out : Json) : ActionsKeep rule Quiet (Sent job out) := by
  intro v op answer v' quiet step ⟨running, ended⟩
  rcases ended with failed | ⟨done, ungiven⟩
  · exact ⟨keepsTx_running v op answer v' quiet step running, .inl failed⟩
  · have kept := keepsTx_ungiven v op answer v' quiet step ⟨running, ungiven⟩
    exact ⟨kept.1, .inr ⟨done, kept.2⟩⟩

/-- The description of a transaction gives out its handle. -/
theorem describeTx_gives {pt : PendingTx} {handle dst : String}
    : (describeTx pt handle dst).Within Quiet
        (fun out => outcome out = .ok .done ∧ givenHandle out = handle) (fun _ => True) := by
  have gives {fields : List (String × Json)}
      : outcome (okWith (.obj (("txHandle", .str handle) :: fields))) = .ok .done
        ∧ givenHandle (okWith (.obj (("txHandle", .str handle) :: fields))) = handle :=
    ⟨rfl, rfl⟩
  simp [describeTx, Acting, Call.quiet, Lib.quiet, gives]

/-- A transaction that is new is kept under a handle that is given out. -/
theorem keepTx_sends {job : Job} {v : View} {w : Wallet} {dst paymentId : String} {amount : UInt64}
    {priority : Int32} {account : UInt32} {pt? : Option PendingTx} (running : TxRunning job v)
    (isOpen : v.mem.wallet = some w)
    (new : ∀ pt, pt? = some pt → pt ∉ v.history.filterMap Event.built?)
    : (keepTx dst pt?).wp (View.act rule) (Sent job) (fun _ => TxRunning job)
        (v.push
          (.asked (.lib (createCall w dst paymentId amount priority account)) (.ok pt?) v.mem)) := by
  have asked := @TxKept.push v
    (.asked (.lib (createCall w dst paymentId amount priority account)) (.ok pt?) v.mem)
    running.1.kept rfl (.inr rfl) trivial
  cases pt? with
  | none => exact ⟨⟨⟨asked, rfl⟩, running.2⟩, .inl rfl⟩
  | some pt =>
      simp only [keepTx, bind_def, wp_bind, Worker.wp_lib, wp_ite, Worker.wp_update]
      refine ⟨fun status _ => ⟨fun bad => ?_, fun good o => ?_⟩, fun error _ => ?_⟩
      · -- a bad status keeps nothing
        have looked : TxRunning job
            ((v.push (.asked
                (.lib (createCall w dst paymentId amount priority account)) (.ok (some pt)) v.mem)).push
              (.asked (.lib (.pendingStatus pt)) (.ok status) v.mem)) := by
          refine ⟨⟨asked.push ?_ (.inr rfl) trivial, rfl⟩, running.2⟩
          exact if_neg fun both => bad both.1
        exact ⟨fun _ told => ⟨keepsTx_running.ask rfl told looked, .inl rfl⟩,
          fun _ told => keepsTx_running.ask rfl told looked⟩
      · have keeps : (Event.asked (.lib (.pendingStatus pt)) (.ok status) v.mem).trade?
            (.asked (.lib (createCall w dst paymentId amount priority account)) (.ok (some pt)) v.mem
              :: v.history) = some (.keeps pt) :=
          if_pos ⟨not_not.mp good, rfl⟩
        have kept := @TxKept.keeps _ _ o w pt asked keeps
          (fun kept => new pt rfl (running.1.kept.known pt kept)) (.head _) isOpen (.inl ⟨rfl, rfl⟩)
          rfl rfl trivial
        have ungiven : (txBook
              (.asked (.lib (.pendingStatus pt)) (.ok status) v.mem
                :: .asked (.lib (createCall w dst paymentId amount priority account))
                    (.ok (some pt)) v.mem
                :: v.history)).Ungiven
            (txHandle v.mem.nextTx) := by
          rw [txBook_cons_some keeps]
          refine ⟨pt, (txBook v.history).kept, rfl, ?_, running.1.kept.sound.ordered⟩
          rw [running.1.kept.next]
          rfl
        apply wp_mono (describeTx_gives.keeps keepsTx_ungiven ⟨⟨⟨kept, rfl⟩, running.2⟩, ungiven⟩)
        · rintro out v' ⟨⟨done, gives⟩, running', ungiven'⟩
          exact ⟨running', .inr ⟨done, gives ▸ ungiven'⟩⟩
        · exact fun _ _ left => left.2.1
      · exact ⟨⟨asked.push rfl (.inr rfl) trivial, rfl⟩, running.2⟩

theorem doCreateTransaction_sends {job : Job} {v : View} (running : TxRunning job v)
    : (doCreateTransaction job.params).wp (View.act FreshTransactions) (Sent job)
        (fun _ => TxRunning job) v := by
  apply doCreateTransaction_leads keepsTx_running keepsSent _ _ _ running
  · exact fun _ _ kept => ⟨kept, .inl rfl⟩
  · intro v w dst amount paymentId priority account pt? kept checked fresh
    exact keepTx_sends kept checked.isOpen fun pt same => fresh pt same
  · intro v w dst amount paymentId priority account error kept checked _
    exact ⟨⟨kept.1.kept.push rfl (.inr rfl) trivial, rfl⟩, kept.2⟩

/-! ### Every turn -/

theorem trade_failed {ptr : JobPtr} {out : Json} {h : History} (failed : outcome out = .ok .failed)
    : (Event.settled ptr out (outcome out)).trade? h = none := by
  rw [failed]
  rfl

/-- Only jobs of two kinds trade by their outcomes. -/
theorem trade_other {ptr : JobPtr} {out : Json} {h : History}
    (creates : lastKind h ≠ some "create_transaction")
    (disposes : lastKind h ≠ some "dispose_transaction")
    : (Event.settled ptr out (outcome out)).trade? h = none := by
  cases outcome out with
  | error error => rfl
  | ok state =>
      cases state with
      | done => exact (if_neg creates).trans (if_neg disposes)
      | _ => rfl

/-- The storing of an outcome that trades nothing. -/
theorem TxInv.settle {v : View} {ptr : JobPtr} {out : Json} (holds : TxInv v)
    (untraded : (Event.settled ptr out (outcome out)).trade? v.history = none)
    : TxInv (v.settle ptr out) :=
  ⟨holds.kept.push untraded (.inr rfl) trivial, rfl⟩

theorem TxInv.caught {v : View} {ptr : JobPtr} {error : Exn} (holds : TxInv v)
    : TxInv (v.settle ptr (Runtime.caught error)) :=
  holds.settle (trade_failed outcome_caught)

theorem Sent.settle {job : Job} {v : View} {ptr : JobPtr} {out : Json} (sent : Sent job out v)
    (kind : job.kind = "create_transaction")
    : TxInv (v.settle ptr out) := by
  obtain ⟨⟨holds, running⟩, failed | ⟨done, ungiven⟩⟩ := sent
  · exact holds.settle (trade_failed failed)
  · have created : lastKind v.history = some "create_transaction" := by
      rw [lastKind_of running, kind]
    have hands : (Event.settled ptr out (outcome out)).trade? v.history
        = some (.hands (givenHandle out)) := by
      rw [done]
      exact if_pos created
    refine ⟨?_, rfl⟩
    rw [← View.at_self (v.settle ptr out)]
    exact holds.kept.trade hands rfl ungiven holds.kept.held rfl holds.kept.closed (fun _ => id)
      (.inr rfl) rfl trivial

/-- A disposal is told by its job's outcome. -/
theorem keepsTx_dispose {job : Job} {v : View} {ptr : JobPtr} (running : TxRunning job v)
    (kind : job.kind = "dispose_transaction")
    : Settles rule ptr (doDispose job.params) TxInv v := by
  have refused (msg : String) : TxInv (v.settle ptr (err msg)) :=
    running.1.settle (trade_failed outcome_err)
  simp only [Settles, doDispose, bind_def, Worker.wp_locked, wp_bind, Worker.wp_orThrow,
    Worker.wp_read]
  refine ⟨fun handle named others => ?_, fun _ _ => running.1.caught⟩
  cases found : (v.mem.under others).pendingTx.lookup handle with
  | none => exact refused _
  | some pt =>
      simp only [wp_bind, Worker.wp_update, pure_def, wp_pure]
      intro o
      have disposed : lastKind v.history = some "dispose_transaction" := by
        rw [lastKind_of running.2, kind]
      have trades : (Event.settled ptr (okWith (.obj [])) (.ok .done)).trade? v.history
          = some .disposes := by
        have other : lastKind v.history ≠ some "create_transaction" := by
          rw [disposed]
          decide
        exact (if_neg other).trans (if_pos disposed)
      refine ⟨?_, rfl⟩
      exact running.1.kept.drops found trades (namedHandle_of running.2 named) (.inr rfl) rfl rfl
        trivial

theorem keepsTx_dispatch {v : View} {ptr : JobPtr} {job : Job} (holds : TxInv v)
    (began : lastJob v.history = some job)
    : Settles FreshTransactions ptr (dispatch job) TxInv v := by
  -- a body that keeps the invariant, of a job whose outcome trades nothing
  have settles {p : Worker Json} (stays : p.Stays Outside)
      (keeps : p.wp (View.act FreshTransactions) (fun _ => TxInv) (fun _ => TxInv) v)
      (creates : job.kind ≠ "create_transaction") (disposes : job.kind ≠ "dispose_transaction")
      : Settles FreshTransactions ptr p TxInv v := by
    apply wp_mono (wp_and keeps (keeps_lastJob_outside.body stays v began))
    · intro out v' ⟨kept, running⟩
      apply kept.settle
      apply trade_other
      · exact fun same => creates (Option.some.inj ((lastKind_of running).symm.trans same))
      · exact fun same => disposes (Option.some.inj ((lastKind_of running).symm.trans same))
    · exact fun _ _ both => both.1.caught
  have running : TxRunning job v := ⟨holds, began⟩
  unfold dispatch
  split_ifs with opens closes rescans creates commits disposes passwords
  · apply settles doOpenLike_stays (keepsTx_open.opens v holds)
    · rintro same
      simp [same, openKinds] at opens
    · rintro same
      simp [same, openKinds] at opens
  · exact settles doClose_stays (keepsTx_close v holds) (by simp [closes]) (by simp [closes])
  · exact settles doRescan_stays (keepsTx_quiet.body doRescan_quietly v holds) (by simp [rescans])
      (by simp [rescans])
  · apply wp_mono (doCreateTransaction_sends running)
    · exact fun _ _ sent => sent.settle creates
    · exact fun _ _ left => left.1.caught
  · apply settles (doCommit_stays Calm.drops) _ (by simp [commits]) (by simp [commits])
    exact wp_mono (keepsTx_commit commits v running) (fun _ _ => And.left) (fun _ _ => And.left)
  · exact keepsTx_dispose running disposes
  · exact settles doChangePassword_stays
      (keepsTx_quiet.body doChangePassword_steadily.quietly v holds) (by simp [passwords])
      (by simp [passwords])
  · exact settles .value holds creates disposes

theorem keepsTx_all : TurnRule FreshTransactions TxInv where
  steady := keepsTx_quiet.mono fun _ => Steady.quiet
  begins _ _ _ holds := ⟨holds.kept.push rfl (.inr rfl) trivial, rfl⟩
  jobs _ _ _ := keepsTx_dispatch
  moves v abandon resolved holds due := by
    apply moveToTor_keeps holds (keepsTx_quiet.mono fun _ => Steady.quiet) keepsTx_moving
    · exact fun _ _ _ _ holds _ _ _ => holds.ask rfl (.inr rfl)
    · exact fun node same => (due.given node same).1
  follows _ := keepsTx_quiet.body followSync_quietly

end MoneroWalletCore.Runtime
