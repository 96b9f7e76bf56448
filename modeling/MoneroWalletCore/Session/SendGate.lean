import MoneroWalletCore.Address.Spelling
import MoneroWalletCore.Session.OpenAttempt

/-! What a transaction is built from. The network of the open wallet was checked when it was
opened, and the destination, the amount and the wallet are checked by the job; a job that does
not get to the call fails and leaves the pending transactions alone.
-/

namespace MoneroWalletCore.Runtime

open Program

-----------------------------------------------------------------------------------------
-- Amounts and destinations
-----------------------------------------------------------------------------------------

/-- The number that a decimal string stands for. -/
def decimalValue (text : String) : Nat := Nat.ofDigits 10 (text.toList.map digitValue).reverse

/-- A text of digits alone, and the positive amount that it stands for. -/
structure IsAmount (text : String) (amount : UInt64) : Prop where
  nonempty : text ≠ ""
  digits : ∀ c ∈ text.toList, isDecimal c = true
  value : amount.toNat = decimalValue text
  positive : 1 ≤ decimalValue text
  fits : decimalValue text ≤ 2 ^ 64 - 1

theorem isAmount_of_parsed {text : String} {amount : UInt64} (parsed : parseAtomic text = some amount)
    (positive : amount ≠ 0)
    : IsAmount text amount := by
  unfold parseAtomic at parsed
  split at parsed
  next => cases parsed
  next clean =>
    simp only [not_or, List.any_eq_true, Bool.not_eq_true', not_exists, not_and,
      Bool.not_eq_false] at clean
    have read : FixedWidth.value 10 (text.toList.map digitValue) = decimalValue text :=
      FixedWidth.value_eq_ofDigits _
    by_cases bound : decimalValue text < 2 ^ 64
    · simp only [strtoull, read, if_pos bound, Bool.false_eq_true, if_false,
        Option.some.injEq] at parsed
      have value : amount.toNat = decimalValue text := by
        rw [← parsed, UInt64.toNat_ofNat_of_lt' bound]
      have nonzero : amount.toNat ≠ 0 := fun zero => positive (UInt64.toNat_inj.mp zero)
      exact ⟨clean.1, clean.2, value, by omega, by omega⟩
    · simp only [strtoull, read, if_neg bound, if_true, reduceCtorEq] at parsed

/-- The prefixes of the addresses of one `nettype`. -/
def nettypePrefixes (nettype : Int) : List UInt64 :=
  if nettype = 0 then [18, 42, 19]
  else if nettype = 1 then [53, 63, 54]
  else if nettype = 2 then [24, 36, 25]
  else []

/-- The prefix that a string decodes to. -/
def decodedPrefix (s : String) : Option UInt64 := do
  let b ← Address.base58Decode s.toList
  let (pre, _) ← Address.readVarint b
  return pre

/-- The two network tables agree: a valid address has a prefix of the network's own type. -/
theorem decodedPrefix_of_valid {dst network : String} (valid : Address.valid dst network = true)
    : ∃ pre ∈ nettypePrefixes (nettypeOf network), decodedPrefix dst = some pre := by
  obtain ⟨p, b, pre, n, known, -, decoded, -, read, fits, -⟩ := Address.valid_eq_true.mp valid
  refine ⟨pre, ?_, by simp [decodedPrefix, decoded, read]⟩
  have named : pre = p.std ∨ pre = p.sub ∨ pre = p.int := by
    unfold Address.bodyFits at fits
    split_ifs at fits <;> tauto
  unfold Address.prefixesOf at known
  split_ifs at known with main test stage
  · cases known
    rcases main with rfl | rfl <;> simpa [nettypePrefixes, nettypeOf] using named
  · cases known
    subst test
    simpa [nettypePrefixes, nettypeOf] using named
  · cases known
    subst stage
    simpa [nettypePrefixes, nettypeOf] using named

/-- A valid address has no terminator in it, so the library is handed all of it. -/
theorem cstr_of_valid {dst network : String} (valid : Address.valid dst network = true)
    : cstr dst = dst := by
  obtain ⟨_, _, _, _, -, -, decoded, -⟩ := Address.valid_eq_true.mp valid
  have unterminated : ∀ c ∈ dst.toList, (c != '\x00') = true := by
    intro c member
    have among := Address.mem_alphabet_of_decoded decoded c member
    have clean : '\x00' ∉ Address.alphabet := by decide
    exact bne_iff_ne.mpr (fun terminator => clean (terminator ▸ among))
  rw [cstr, List.takeWhile_eq_self_iff.mpr unterminated, String.ofList_toList]

-----------------------------------------------------------------------------------------
-- The invariant
-----------------------------------------------------------------------------------------

/-- What has to hold of a send when its transaction is built, after the history before it. -/
structure SendPermitted (w : Wallet) (dst : String) (amount : UInt64) (m : Mem) (older : History)
    : Prop where
  isOpen : m.wallet = some w
  /-- The last answer of the wallet object about its own network. -/
  matching : (wallet2 w older).nettype = some (nettypeOf m.network)
  spends : lastWatchOnly w older = some false
  valid : Address.valid dst m.network = true
  prefixed : ∃ pre ∈ nettypePrefixes (nettypeOf m.network), decodedPrefix dst = some pre
  /-- The job that is running asks for this destination and this amount. -/
  asked : ∃ job text, lastJob older = some job ∧ job.kind = "create_transaction"
    ∧ job.params.valueString "address" "" = .ok dst
    ∧ job.params.valueString "amount" "" = .ok text ∧ IsAmount text amount

def Event.Permitted (e : Event) (older : History) : Prop :=
  match e with
  | .asked (.lib (.createTransaction w dst _ amount _ _ _ _ _)) _ m =>
      SendPermitted w dst amount m older
  | _ => True

structure SendInv (v : View) : Prop where
  matching : ∀ w, v.mem.wallet = some w →
    (wallet2 w v.history).nettype = some (nettypeOf v.mem.network)
  permitted : ∀ e older, e :: older <:+ v.history → e.Permitted older

theorem SendInv.push {v : View} {e : Event} (holds : SendInv v) (here : e.Permitted v.history)
    (same : ∀ w, v.mem.wallet = some w →
      (wallet2 w (e :: v.history)).nettype = (wallet2 w v.history).nettype)
    : SendInv (v.push e) := by
  constructor
  · exact fun w isOpen => (same w isOpen).trans (holds.matching w isOpen)
  · intro e' older part
    rcases List.suffix_cons_iff.mp part with same | earlier
    · cases same
      exact here
    · exact holds.permitted e' older earlier

def Call.creates : Call → Bool
  | .lib (.createTransaction ..) => true
  | _ => false

theorem permitted_of_not_creates {c : Call} {answer : c.Answer} {m : Mem} {older : History}
    (creates : c.creates = false)
    : (Event.asked c answer m).Permitted older := by
  cases c with
  | lib c => cases c <;> trivial
  | _ => trivial

/-- Neither a move's calls nor the quiet ones ask a wallet object for its network. -/
theorem Call.moves_nettype {c : Call} {answer : c.Answer} {m : Mem} {w : Wallet} {g : Wallet2}
    (moves : c.moves = true)
    : (g.after w (.asked c answer m)).nettype = g.nettype := by
  cases c with
  | lib c =>
      cases c with
      | setOffline w' =>
          by_cases same : w' = w <;> simp [Wallet2.after, Event.handle?, same]
      | setTrustedDaemon w' =>
          by_cases same : w' = w <;> simp [Wallet2.after, Event.handle?, same]
      | _ => first | rfl | cases moves
  | _ => rfl

variable {rule : Surroundings}

theorem keepsSend {assigns : Mem → Mem → Prop} {calls : Call → Bool}
    (place : ∀ m m', assigns m m' → m'.wallet = m.wallet ∧ m'.network = m.network)
    (others : ∀ c, calls c = true → c.creates = false)
    (kept : ∀ (c : Call) (answer : c.Answer) (m : Mem) w (g : Wallet2), calls c = true →
      (g.after w (.asked c answer m)).nettype = g.nettype)
    : ActionsKeep rule (Acting assigns calls) SendInv := by
  apply ActionsKeep.acting
  · intro v m assigned holds
    obtain ⟨o, same⟩ := assigned
    obtain ⟨wallet, network⟩ := place _ _ same
    refine ⟨fun w isOpen => ?_, holds.permitted⟩
    rw [View.at_mem, Mem.own_network, network]
    exact holds.matching w (wallet.symm.trans isOpen)
  · intro v c answer call _ holds
    apply holds.push (permitted_of_not_creates (others c call))
    exact fun w _ => kept c answer v.mem w _ call

theorem keepsSend_trading : ActionsKeep rule Trading SendInv := by
  apply keepsSend
  · exact fun _ _ same => ⟨same.1, same.2.1⟩
  · intro c quiet
    cases c with
    | lib c => cases c <;> first | rfl | cases quiet
    | _ => rfl
  · exact fun c answer m w g quiet => by rw [Call.quiet_after quiet]

theorem keepsSend_quiet : ActionsKeep rule Quiet SendInv :=
  keepsSend_trading.mono fun _ => Quiet.trading

theorem keepsSend_moving : ActionsKeep rule Moving SendInv := by
  apply keepsSend
  · exact fun _ _ same => ⟨same.1, same.2.2.2⟩
  · intro c moves
    cases c with
    | lib c => cases c <;> first | rfl | cases moves
    | _ => rfl
  · exact fun _ _ _ _ _ moves => Call.moves_nettype moves

/-- With no wallet open only the transactions count, and none is built. -/
theorem keepsSend_closed
    : ActionsKeep rule Forgetting (fun v => SendInv v ∧ v.mem.wallet = none) := by
  apply ActionsKeep.acting
  · intro v m assigned holds
    obtain ⟨o, same⟩ := assigned
    have none : (View.at m v.history).mem.wallet = none := same.1.trans holds.2
    exact ⟨⟨fun w isOpen => (nomatch none.symm.trans isOpen), holds.1.permitted⟩, none⟩
  · intro v c answer attempts _ holds
    refine ⟨holds.1.push ?_ (fun w isOpen => (nomatch holds.2.symm.trans isOpen)), holds.2⟩
    apply permitted_of_not_creates
    cases c with
    | lib c => cases c <;> first | rfl | cases attempts
    | _ => rfl

-----------------------------------------------------------------------------------------
-- The bodies
-----------------------------------------------------------------------------------------

theorem keepsSend_open : OpenKeeps rule SendInv where
  steady := keepsSend_quiet.mono fun _ => Steady.quiet
  attempts := by
    apply keepsSend_closed.mono
    exact fun _ => Attempting.forgetting
  inits v o plan w answer holds none loaded :=
    holds.push trivial fun w' isOpen => (nomatch none.symm.trans isOpen)
  publishes v o plan path addr w holds none configured := by
    apply publishWallet_keeps keepsSend_quiet
    intro m seen now session _
    have holding : m.wallet = some w := congrArg Session.wallet session
    obtain ⟨trusted, _, told⟩ := configured.told
    constructor
    · intro w' isOpen
      have same : w' = w := Option.some.inj (isOpen.symm.trans holding)
      subst same
      have still : wallet2 w' (.asked .now now seen :: v.history) = wallet2 w' v.history := rfl
      simp only [View.at_history, still, told, toldAtOpen]
      rfl
    · intro e older part
      rcases List.suffix_cons_iff.mp part with same | earlier
      · cases same
        trivial
      · exact holds.permitted e older earlier

/-- The call itself: the checks of the job come on top of the check at the open. -/
theorem keepsSend_create {v : View} {job : Job} (holds : SendInv v)
    (began : lastJob v.history = some job) (kind : job.kind = "create_transaction")
    : (doCreateTransaction job.params).wp (View.act rule) (fun _ => SendInv) (fun _ => SendInv)
        v := by
  have running : ActionsKeep rule Trading (fun v => lastJob v.history = some job) :=
    ActionsKeep.acting (fun _ _ _ holds => holds) (fun _ _ _ _ _ holds => holds)
  have kept : (doCreateTransaction job.params).Keeps rule
      (fun v => SendInv v ∧ lastJob v.history = some job) := by
    apply doCreateTransaction_keeps (keepsSend_trading.and running)
    intro v w dst amount paymentId priority account answer holds checked _
    refine ⟨holds.1.push ?_ (fun w' _ => by simp [Wallet2.after, Event.handle?]), holds.2⟩
    obtain ⟨text, given, parsed⟩ := checked.parsed
    rw [cstr_of_valid checked.valid]
    exact {
      isOpen := checked.isOpen
      matching := holds.1.matching w checked.isOpen
      spends := checked.spends
      valid := checked.valid
      prefixed := decodedPrefix_of_valid checked.valid
      asked := ⟨job, text, holds.2, kind, checked.destination, given,
        isAmount_of_parsed parsed checked.positive⟩ }
  exact wp_mono (kept v ⟨holds, began⟩) (fun _ _ => And.left) (fun _ _ => And.left)

theorem keepsSend_all : TurnKeeps rule SendInv where
  steady := keepsSend_quiet.mono fun _ => Steady.quiet
  begins v ptr job holds := holds.push trivial fun w _ => by simp [Wallet2.after, Event.handle?]
  settles v ptr out state holds :=
    holds.push trivial fun w _ => by simp [Wallet2.after, Event.handle?]
  opens v job holds _ _ := keepsSend_open.opens v holds
  closes := by
    apply doClose_keeps keepsSend_quiet
    · exact fun v m holds _ => ⟨fun w isOpen => (by cases isOpen), holds.permitted⟩
    · exact keepsSend_closed
  rescans := keepsSend_quiet.body doRescan_quietly
  creates v job holds began kind := keepsSend_create holds began kind
  commits p := by
    apply doCommit_keeps keepsSend_trading
    intro v w handle pt answer holds _ _ _ _
    exact holds.push trivial fun w' _ => by simp [Wallet2.after, Event.handle?]
  disposes _ := keepsSend_trading.body doDispose_trades
  moves v abandon resolved holds due := by
    apply moveToTor_keeps holds (keepsSend_quiet.mono fun _ => Steady.quiet) keepsSend_moving
    · intro v w node answer holds isOpen last _
      refine holds.push trivial fun w' _ => ?_
      by_cases same : w = w' <;> simp [torInit, Wallet2.after, Event.handle?, same]
    · exact fun node same => (due.given node same).1
  follows _ := keepsSend_quiet.body followSync_quietly

-----------------------------------------------------------------------------------------
-- A job that does not get to the call
-----------------------------------------------------------------------------------------

def Event.creates : Event → Bool
  | .asked c _ _ => c.creates
  | _ => false

/-- A call that builds a transaction was made. -/
def Built (h : History) : Prop := h.any Event.creates = true

theorem Built.later {h : History} (newer : History) (built : Built h) : Built (newer ++ h) := by
  rw [Built, List.any_append, built, Bool.or_true]

theorem keeps_built : ActionsKeep rule (fun _ => True) (fun v => Built v.history) := keeps_any

/-- Either a transaction was built, or the pending ones are still the same. -/
def Untraded (pending : AList (fun _ : String => PendingTx)) (v : View) : Prop :=
  Built v.history ∨ v.mem.pendingTx = pending

/-- Where a send ends that builds nothing. -/
def Refused (pending : AList (fun _ : String => PendingTx)) (out : Json) (v : View) : Prop :=
  Built v.history ∨ (outcome out = .ok .failed ∧ v.mem.pendingTx = pending)

theorem buildTx_refuses {w : Wallet} {p : Json} {v : View}
    {pending : AList (fun _ : String => PendingTx)} (same : v.mem.pendingTx = pending)
    : (buildTx w p).wp (View.act rule) (Refused pending) (fun _ => Untraded pending) v := by
  simp only [buildTx, bind_def, wp_bind, Worker.wp_lib, wp_ite]
  refine ⟨fun watchOnly _ => ⟨fun _ => .inr ⟨rfl, same⟩, fun _ => ?_⟩, fun _ _ => .inr same⟩
  simp only [Worker.wp_orThrow]
  refine ⟨fun text _ => ?_, fun _ _ => .inr same⟩
  cases (parseAtomic text).filter (· ≠ 0) with
  | none => exact .inr ⟨rfl, same⟩
  | some amount =>
      simp only [wp_bind, Worker.wp_orThrow, Worker.wp_read, wp_ite, Worker.wp_lib]
      refine ⟨fun dst _ others => ⟨fun _ => .inr ⟨rfl, same⟩, fun _ => ?_⟩, fun _ _ => .inr same⟩
      refine ⟨fun priority _ => ⟨fun account _ => ⟨fun paymentId _ => ?_, fun _ _ => .inr same⟩,
        fun _ _ => .inr same⟩, fun _ _ => .inr same⟩
      have built {answer : Except Exn (Option PendingTx)} {m : Mem} {h : History}
          : Built (.asked (.lib (.createTransaction w (cstr dst) (cstr paymentId) amount 0 priority
              account "" ",")) answer m :: h) :=
        rfl
      refine ⟨fun pt? _ => ?_, fun _ _ => .inl built⟩
      exact wp_mono (keeps_built.body (within_any (keepTx dst pt?)) _ built)
        (fun _ _ => .inl) (fun _ _ => .inl)

theorem doCreateTransaction_refuses {p : Json} (v : View)
    : (doCreateTransaction p).wp (View.act rule) (Refused v.mem.pendingTx)
        (fun _ => Untraded v.mem.pendingTx) v := by
  refine wp_sending (fun _ _ => .inr ⟨rfl, rfl⟩) (fun _ _ _ => .inr rfl) fun w _ _ _ => ?_
  apply wp_mono (buildTx_refuses rfl)
  · exact fun _ _ refused _ => refused.imp (Built.later [_]) id
  · exact fun _ _ untraded _ => untraded.imp (Built.later [_]) id

/-- The verdict on a job that built nothing, and what goes with it. -/
def Declined (ptr : JobPtr) (pending : AList (fun _ : String => PendingTx)) (v : View) : Prop :=
  Built v.history ∨ (verdicts v.history = [(ptr, .ok .failed)] ∧ v.mem.pendingTx = pending)

/-- What only reports leaves the session as it is. -/
theorem keeps_session {s : Session} : ActionsKeep rule Reporting (fun v => v.mem.session = s) := by
  apply ActionsKeep.acting
  · intro v m assigned same
    obtain ⟨o, session, _⟩ := assigned
    have kept : m.session = v.mem.session := session
    exact kept.trans same
  · exact fun _ _ _ _ _ same => same

theorem keeps_pending {pending : AList (fun _ : String => PendingTx)}
    : ActionsKeep rule Reporting (fun v => v.mem.pendingTx = pending) := by
  intro v op answer v' reporting step same
  have session := keeps_session v op answer v' reporting step rfl
  exact (congrArg Session.pendingTx session).trans same

theorem run_declines {ptr : JobPtr} {job : Job} {v : View} (kind : job.kind = "create_transaction")
    (only : v.history = [.began ptr job])
    : (run ptr job).wp (View.act rule) (fun _ => Declined ptr v.mem.pendingTx)
        (fun _ => Declined ptr v.mem.pendingTx) v := by
  have body : dispatch job = doCreateTransaction job.params := by
    simp [dispatch, kind, openKinds]
  have after (state : Except Exn JobState) : ActionsKeep rule Reporting (fun v' =>
      Built v'.history ∨ (state = .ok .failed ∧ v'.mem.pendingTx = v.mem.pendingTx)) := by
    intro v' op answer v'' reporting step ended
    rcases ended with built | ⟨failed, same⟩
    · exact .inl (keeps_built v' op answer v'' trivial step built)
    · exact .inr ⟨failed, keeps_pending v' op answer v'' reporting step same⟩
  have ends := @run_verdict rule _ _ keeps_pending after ptr job
    (fun _ _ _ ended => ended.imp (Built.later [_]) id)
    (fun v' same => by
      rw [body, ← same]
      apply wp_mono (doCreateTransaction_refuses v')
      · exact fun _ _ refused => refused
      · exact fun _ _ untraded => untraded.imp id fun same => ⟨rfl, same⟩)
    v (by rw [only]; rfl) rfl
  have declined (v' : View) (ended : ∃ state, verdicts v'.history = [(ptr, state)]
      ∧ (Built v'.history ∨ (state = .ok .failed ∧ v'.mem.pendingTx = v.mem.pendingTx)))
      : Declined ptr v.mem.pendingTx v' := by
    obtain ⟨state, verdict, built | ⟨rfl, same⟩⟩ := ended
    · exact .inl built
    · exact .inr ⟨verdict, same⟩
  exact wp_mono ends (fun _ => declined) (fun _ => declined)

-----------------------------------------------------------------------------------------
-- In every run
-----------------------------------------------------------------------------------------

/-- In every run each transaction is built on the open wallet for the network that the wallet
itself reported, to a valid destination of that network, in the amount that its job's text
stands for; and a job that builds none fails and leaves the pending ones alone. Witness: the
invariant of whole turns, and the ways out of the job. -/
theorem sends_permitted {hasNotify : Bool} {w : World}
    (reach : Reachable AnyAnswer hasNotify ⟨.pure (), w⟩)
    : (∀ wallet dst paymentId amount mixin priority account inputs separator answer m older,
        .asked
            (.lib (.createTransaction wallet dst paymentId amount mixin priority account inputs
              separator)) answer m :: older <:+ w.history →
          SendPermitted wallet dst amount m older)
      ∧ ∀ w' new ptr job,
          World.Turn AnyAnswer w w' → w'.history = new ++ w.history →
          (ptr, job) ∈ jobsBegun new → job.kind = "create_transaction" → ¬Built new →
          verdicts new = [(ptr, .ok .failed)] ∧ w'.mem.pendingTx = w.mem.pendingTx := by
  constructor
  · have init : SendInv (World.start hasNotify).view := by
      refine ⟨fun w isOpen => (nomatch isOpen), fun e older part => ?_⟩
      exact absurd part (by simp [World.start, World.view])
    have holds := keepsSend_all.turnRule.reachable init reach rfl
    intro wallet dst paymentId amount mixin priority account inputs separator answer m older part
    exact holds.permitted _ older part
  · intro w' new ptr job whole split began kind unbuilt
    have declined : Declined ptr w.mem.pendingTx (View.at w'.mem new) :=
      whole.job split began (run_declines kind rfl)
    exact declined.resolve_left unbuilt

/-- An open wallet with a send submitted whose address is none. -/
def World.badlySending : World :=
  let job := .obj [("amount", .str "5"), ("address", .str "x")]
  (World.openedClear (.bool true)).afterClient (.startJob "create_transaction" job "receipt")

theorem sends_permitted_refused
    : let script := Script.succeeding true 2 (clearNode (.bool true))
      World.badlySending.mem.wallet = some ⟨9⟩
      ∧ (∀ wallet dst paymentId amount mixin priority account inputs separator answer m older,
          .asked
              (.lib (.createTransaction wallet dst paymentId amount mixin priority account inputs
                separator)) answer m :: older <:+ World.badlySending.history →
            SendPermitted wallet dst amount m older)
      ∧ verdicts ((World.badlySending.afterTurn script).history.take 6) = [(1, .ok .failed)]
      ∧ (World.badlySending.afterTurn script).mem.pendingTx = World.badlySending.mem.pendingTx := by
  intro script
  have reach : Reachable AnyAnswer true ⟨.pure (), World.badlySending⟩ :=
    ((Reachable.withJob _ _).afterTurn fun _ _ _ => trivial).afterClient _
  have whole : World.Turn AnyAnswer World.badlySending (World.badlySending.afterTurn script) :=
    World.afterTurn_turn (fun _ _ _ => trivial) _
  obtain ⟨permitted, refused⟩ := sends_permitted reach
  have unbuilt : ¬Built ((World.badlySending.afterTurn script).history.take 6) := by
    unfold Built
    decide +kernel
  refine ⟨by decide +kernel, permitted, ?_⟩
  exact refused _ _ 1 _ whole rfl (.head _) rfl unbuilt

end MoneroWalletCore.Runtime
