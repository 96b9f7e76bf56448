import MoneroWalletCore.Runtime.Replay
import MoneroWalletCore.Session.JobRules

/-! Where an open wallet dials. The route that the module reports agrees with the last init of
its wallet object, with its offline and trusted flags, and with the peer that the probe looks
for; and what spends is called only where the route lets it.
-/

namespace MoneroWalletCore.Runtime

open Program

-----------------------------------------------------------------------------------------
-- The invariant
-----------------------------------------------------------------------------------------

/-- Where the wallet object `w` dials, for each route of the session that holds it. -/
def Dialled (s : Session) (w : Wallet) (h : History) : Prop :=
  match s.route with
  | .direct =>
      ∃ node, openAnswer w h = some node ∧ str node "proxy" = "" ∧ catchUpUrl node = ""
        ∧ (wallet2 w h).dial = some (cstr (hostPort (str node "url")), "")
        ∧ (wallet2 w h).offline = false ∧ s.dialPeer = hostPort (str node "url")
  | .catchUp =>
      ∃ node, openAnswer w h = some node ∧ catchUpUrl node ≠ ""
        ∧ (wallet2 w h).dial = some (cstr (hostPort (catchUpUrl node)), "")
        ∧ (wallet2 w h).offline = false ∧ (wallet2 w h).trusted = false
        ∧ s.dialPeer = hostPort (catchUpUrl node)
  | .waitingForTor => (wallet2 w h).offline = true ∧ s.dialPeer = ""
  | .tor =>
      ∃ node ∈ answers h, node.contains "error" = false ∧ str node "url" = s.torUrl
        ∧ str node "proxy" ≠ "" ∧ str node "proxy" ≠ "tor"
        ∧ (wallet2 w h).dial
          = some (cstr (hostPort s.torUrl), cstr (proxyHostPort (str node "proxy")))
        ∧ (wallet2 w h).offline = false ∧ (wallet2 w h).trusted = false
        ∧ s.dialPeer = proxyHostPort (str node "proxy")

/-- A call that spends is made on the open wallet, on a route that lets it, with the wallet
dialled as that route says. -/
def Event.Gated (e : Event) (older : History) : Prop :=
  match e with
  | .asked _ _ m =>
      ∃ w, m.wallet = some w ∧ (m.route = .direct ∨ m.route = .tor) ∧ Dialled m.session w older
  | _ => True

def SendsGated (h : History) : Prop :=
  ∀ e older, e :: older <:+ h → e.sends = true → e.Gated older

structure DialInv (v : View) : Prop where
  dialled : ∀ w, v.mem.wallet = some w → Dialled v.mem.session w v.history
  gated : SendsGated v.history

-----------------------------------------------------------------------------------------
-- Events that change nothing of it
-----------------------------------------------------------------------------------------

theorem Dialled.later {s : Session} {w : Wallet} {h h' : History} (dialled : Dialled s w h)
    (opened : openAnswer w h' = openAnswer w h) (told : wallet2 w h' = wallet2 w h)
    (answered : ∀ node ∈ answers h, node ∈ answers h')
    : Dialled s w h' := by
  unfold Dialled at dialled ⊢
  rw [opened, told]
  split
  next at_ => simpa [at_] using dialled
  next at_ => simpa [at_] using dialled
  next at_ => simpa [at_] using dialled
  next at_ =>
    simp only [at_] at dialled
    obtain ⟨node, known, facts⟩ := dialled
    exact ⟨node, answered node known, facts⟩

theorem mem_answers_cons {node : Json} {e : Event} {h : History} (known : node ∈ answers h)
    : node ∈ answers (e :: h) := by
  rw [answers_cons]
  exact List.mem_append_right _ known

@[simp] theorem sendsGated_cons {e : Event} {h : History}
    : SendsGated (e :: h) ↔ (e.sends = true → e.Gated h) ∧ SendsGated h :=
  throughout_cons

theorem Call.quiet_sends {c : Call} {answer : c.Answer} {m : Mem} (quiet : c.quiet = true)
    : (Event.asked c answer m).sends = false := by
  cases c with
  | lib c => cases c <;> first | rfl | cases quiet
  | _ => rfl

theorem Call.attempts_sends {c : Call} {answer : c.Answer} {m : Mem}
    (attempts : c.attempts = true)
    : (Event.asked c answer m).sends = false := by
  cases c with
  | lib c => cases c <;> first | rfl | cases attempts
  | _ => rfl

/-- An event that tells the open wallet nothing and spends nothing. -/
theorem DialInv.push {v : View} {e : Event} (holds : DialInv v)
    (untold : ∀ w, v.mem.wallet = some w →
      openAnswer w (e :: v.history) = openAnswer w v.history
        ∧ wallet2 w (e :: v.history) = wallet2 w v.history)
    (quiet : e.sends = false)
    : DialInv (v.push e) := by
  constructor
  · intro w isOpen
    obtain ⟨opened, told⟩ := untold w isOpen
    exact (holds.dialled w isOpen).later opened told (fun _ => mem_answers_cons)
  · exact sendsGated_cons.mpr ⟨fun sends => by simp [quiet] at sends, holds.gated⟩

variable {rule : Surroundings}

theorem keepsDial_trading : ActionsKeep rule Trading DialInv := by
  apply ActionsKeep.acting
  · intro v m assigned holds
    obtain ⟨o, wallet, network, route, dialPeer, torUrl⟩ := assigned
    constructor
    · intro w isOpen
      have dialled := holds.dialled w (wallet.symm.trans isOpen)
      simpa [Dialled, wallet, network, route, dialPeer, torUrl] using dialled
    · exact holds.gated
  · intro v c answer quiet _ holds
    apply holds.push
    · intro w _
      simp [Call.quiet_handle quiet, Call.quiet_after quiet]
    · exact Call.quiet_sends quiet

theorem keepsDial_quiet : ActionsKeep rule Quiet DialInv :=
  keepsDial_trading.mono fun _ => Quiet.trading

/-- With no wallet open there is nothing to agree with. -/
theorem keepsDial_closed
    : ActionsKeep rule Forgetting (fun v => DialInv v ∧ v.mem.wallet = none) := by
  apply ActionsKeep.acting
  · intro v m assigned holds
    obtain ⟨o, same⟩ := assigned
    have none : (View.at m v.history).mem.wallet = none := same.1.trans holds.2
    exact ⟨⟨fun w isOpen => (nomatch none.symm.trans isOpen), holds.1.gated⟩, none⟩
  · intro v c answer attempts _ holds
    refine ⟨holds.1.push (fun w isOpen => ?_) (Call.attempts_sends attempts), holds.2⟩
    simp [holds.2] at isOpen

-----------------------------------------------------------------------------------------
-- Opening
-----------------------------------------------------------------------------------------

theorem lastAnswer_mem {node : Json} {h : History} (answered : lastAnswer h = some node)
    : node ∈ answers h := by
  obtain ⟨e, member, same⟩ := List.exists_of_findSome?_eq_some answered
  exact List.mem_filterMap.mpr ⟨e, member, same⟩

theorem openAnswer_mem {node : Json} {w : Wallet} {h : History}
    (answered : openAnswer w h = some node)
    : node ∈ answers h := by
  induction h with
  | nil => cases answered
  | cons e older ih =>
      rw [openAnswer_cons] at answered
      split at answered
      · exact mem_answers_cons (lastAnswer_mem answered)
      · exact mem_answers_cons (ih answered)

/-- The section that describes a configured wallet agrees with what it was told. The cases are
the four routes that an answer leads to. -/
theorem Configured.dialled {o : OpenParams} {plan : Plan} {w : Wallet} {h h' : History}
    (configured : Configured o plan w h) (addr : String) (now : Nat) (m : Mem)
    (opened : openAnswer w h' = openAnswer w h) (told : wallet2 w h' = wallet2 w h)
    (answered : ∀ node ∈ answers h, node ∈ answers h')
    : Dialled (described o plan.node addr now m).session w h' := by
  obtain ⟨trusted, direct, toldAll⟩ := configured.told
  obtain ⟨_, noError, _, hasUrl, _⟩ := nodePolicy_go configured.passed
  rw [configured.answered] at opened
  rw [toldAll] at told
  by_cases catches : catchUpUrl plan.node = ""
  · by_cases joins : str plan.node "proxy" = "tor"
    · have route : routeOf plan.node = .waitingForTor := by simp [routeOf, catches, joins]
      simp [Dialled, described, route, told, toldAtOpen]
    · by_cases clear : str plan.node "proxy" = ""
      · have route : routeOf plan.node = .direct := by simp [routeOf, catches, clear]
        simp [Dialled, described, route, told, toldAtOpen, opened, clear, catches, dialUrl,
          dialProxy, cstr]
      · have route : routeOf plan.node = .tor := by simp [routeOf, catches, joins, clear]
        have known := answered _ (openAnswer_mem configured.answered)
        have untrusted : trusted = false := by
          cases trusted with
          | false => rfl
          | true => cases route.symm.trans (direct rfl)
        simp only [Dialled, described, route, told, toldAtOpen, Mem.session_route]
        exact ⟨plan.node, known, noError, by simp, clear, joins,
          by simp [dialUrl, dialProxy, route], by simp, untrusted, by simp [dialProxy, route]⟩
  · have route : routeOf plan.node = .catchUp := by simp [routeOf, catches]
    have untrusted : trusted = false := by
      cases trusted with
      | false => rfl
      | true => cases route.symm.trans (direct rfl)
    simp [Dialled, described, route, told, toldAtOpen, opened, catches, dialUrl, dialProxy, cstr,
      untrusted]

theorem keepsDial_open : OpenKeeps rule DialInv where
  steady := keepsDial_quiet.mono fun _ => Steady.quiet
  attempts := keepsDial_closed.mono fun _ => Attempting.forgetting
  inits v o plan w answer holds none _ := by
    apply holds.push
    · intro w' isOpen
      cases none.symm.trans isOpen
    · rfl
  publishes v o plan path addr w holds none configured := by
    apply publishWallet_keeps keepsDial_quiet
    intro m seen now session _
    constructor
    · intro w' isOpen
      have same : w' = w := by
        have held : m.wallet = some w := congrArg Session.wallet session
        exact Option.some.inj (isOpen.symm.trans held)
      subst same
      exact configured.dialled addr now m rfl rfl (fun _ => mem_answers_cons)
    · exact sendsGated_cons.mpr ⟨fun sends => (nomatch sends), holds.gated⟩

theorem keepsDial_close : doClose.Keeps rule DialInv := by
  apply doClose_keeps keepsDial_quiet
  · intro v m holds _
    exact ⟨fun w isOpen => (nomatch isOpen), holds.gated⟩
  · exact keepsDial_closed

-----------------------------------------------------------------------------------------
-- Sending
-----------------------------------------------------------------------------------------

theorem keepsDial_create {p : Json} : (doCreateTransaction p).Keeps rule DialInv := by
  apply doCreateTransaction_keeps keepsDial_trading
  intro v w dst amount paymentId priority account answer holds checked _
  constructor
  · intro w' isOpen
    apply (holds.dialled w' isOpen).later
    · simp [Event.handle?]
    · simp [Wallet2.after, Event.handle?]
    · exact fun _ => mem_answers_cons
  · refine sendsGated_cons.mpr ⟨fun _ => ?_, holds.gated⟩
    exact ⟨w, checked.isOpen, checked.route, holds.dialled w checked.isOpen⟩

theorem keepsDial_commit {p : Json} : (doCommit p).Keeps rule DialInv := by
  apply doCommit_keeps keepsDial_trading
  intro v w handle pt answer holds isOpen route _ _
  constructor
  · intro w' isOpen'
    apply (holds.dialled w' isOpen').later
    · simp [Event.handle?]
    · simp [Wallet2.after, Event.handle?]
    · exact fun _ => mem_answers_cons
  · refine sendsGated_cons.mpr ⟨fun _ => ?_, holds.gated⟩
    exact ⟨w, isOpen, route, holds.dialled w isOpen⟩

-----------------------------------------------------------------------------------------
-- Moving to Tor
-----------------------------------------------------------------------------------------

/-- The open wallet on its way to Tor: offline, with the node module's answer at hand. -/
structure Parked (node : Json) (w : Wallet) (v : View) : Prop where
  isOpen : v.mem.wallet = some w
  offline : (wallet2 w v.history).offline = true
  answered : node ∈ answers v.history
  gated : SendsGated v.history

/-- A move about to park the open wallet. -/
structure Leaving (node : Json) (w : Wallet) (v : View) : Prop where
  isOpen : v.mem.wallet = some w
  answered : node ∈ answers v.history
  agrees : DialInv v

theorem keepsLeaving_quiet {node : Json} {w : Wallet} : ActionsKeep rule Quiet (Leaving node w) := by
  intro v op answer v' quiet step leaving
  have agrees := keepsDial_quiet v op answer v' quiet step leaving.agrees
  have same : ActionsKeep rule Quiet
      (fun v => v.mem.wallet = some w ∧ node ∈ answers v.history) := by
    apply ActionsKeep.acting
    · intro v m assigned holds
      obtain ⟨o, session⟩ := assigned
      exact ⟨(congrArg Session.wallet session).trans holds.1, holds.2⟩
    · exact fun _ _ _ _ _ holds => ⟨holds.1, mem_answers_cons holds.2⟩
  obtain ⟨isOpen, answered⟩ :=
    same v op answer v' quiet step ⟨leaving.isOpen, leaving.answered⟩
  exact ⟨isOpen, answered, agrees⟩

theorem goOffline_parks {abandon : Bool} {node : Json} {v : View} (holds : DialInv v)
    (answered : node ∈ answers v.history)
    : (goOffline abandon node).wp (View.act LibraryReturns)
        (fun stopped v' => (stopped = false → DialInv v')
          ∧ (stopped = true → ∃ w, Parked node w v'))
        (fun _ => DialInv) v := by
  have drops : (Program.when abandon (dropCatchUp node)).Within Quiet (fun _ => True)
      (fun _ => True) :=
    within_when.mpr ⟨fun _ => dropCatchUp_quietly, fun _ => trivial⟩
  simp only [goOffline, bind_def, wp_bind, Worker.wp_locked, Worker.wp_read]
  intro others
  cases isOpen : (v.mem.under others).wallet with
  | none => exact ⟨fun _ => holds, fun stopped => by cases stopped⟩
  | some w =>
      have leaving : Leaving node w v := ⟨isOpen, answered, holds⟩
      simp only [wp_bind, Worker.wp_lib]
      refine ⟨fun _ allowed₁ => ⟨fun _ allowed₂ => ?_, fun _ threw => threw.elim⟩,
        fun _ threw => threw.elim⟩
      have stopped := keepsLeaving_quiet.ask rfl allowed₂ (keepsLeaving_quiet.ask rfl allowed₁ leaving)
      apply wp_mono (keepsLeaving_quiet.body drops _ stopped)
      · intro _ v' dropped
        refine ⟨fun _ _ => ⟨fun _ _ => ?_, fun _ threw => threw.elim⟩, fun _ threw => threw.elim⟩
        refine ⟨fun stopped => (by cases stopped), fun _ => ⟨w, dropped.isOpen, ?_, ?_, ?_⟩⟩
        · simp [Wallet2.after, Event.handle?]
        · exact mem_answers_cons (mem_answers_cons dropped.answered)
        · simpa [Event.sends] using dropped.agrees.gated
      · exact fun _ _ left => left.agrees

/-- How a dial over Tor leaves the parked wallet, for the error that it reports. -/
structure Redialled (node : Json) (error : String) (w : Wallet) (v : View) : Prop where
  isOpen : v.mem.wallet = some w
  answered : node ∈ answers v.history
  gated : SendsGated v.history
  onTor : torReady node = true → error = "" →
    (wallet2 w v.history).dial
        = some (cstr (hostPort (str node "url")), cstr (proxyHostPort (str node "proxy")))
      ∧ (wallet2 w v.history).offline = false ∧ (wallet2 w v.history).trusted = false
  waiting : ¬(torReady node = true ∧ error = "") → (wallet2 w v.history).offline = true

/-- The cases are the two outcomes of the init, and a node module that is not ready. -/
theorem dialTor_redials {node : Json} {w : Wallet} {v : View} (parked : Parked node w v)
    : (dialTor node).wp (View.act LibraryReturns)
        (fun dialled v' => ∃ error, dialled = some error ∧ Redialled node error w v')
        (fun _ _ => False) v := by
  obtain ⟨held, offline, answered, gated⟩ := parked
  simp only [dialTor, bind_def, wp_bind, Worker.wp_locked, Worker.wp_read]
  intro others
  have isOpen : (v.mem.under others).wallet = some w := held
  simp only [isOpen, wp_ite, wp_bind, goOnline, bind_def, Worker.wp_lib, LibraryReturns,
    false_imp_iff, implies_true, and_true, true_imp_iff]
  refine ⟨fun ready ok => ⟨fun _ _ _ _ _ _ => ?_, fun _ e => ?_⟩, fun ready => ?_⟩
  · refine ⟨"", rfl, held, ?_, ?_, fun _ _ => ?_, fun waits => (waits ⟨ready, rfl⟩).elim⟩
    · simp [Event.node?, answered]
    · simp [Event.sends, gated]
    · simp [Wallet2.after, Event.handle?]
  · refine ⟨"moving to Tor failed: " ++ e, rfl, held, ?_, ?_, fun _ failed => ?_, fun _ => ?_⟩
    · simp [Event.node?, answered]
    · simp [Event.sends, gated]
    · exact absurd (congrArg String.toList failed) (by simp)
    · simp [Wallet2.after, Event.handle?, offline]
  · exact ⟨"", rfl, held, answered, gated, fun goes => (ready goes).elim, fun _ => offline⟩

/-- The section that records the move agrees with how the dial left the wallet. -/
theorem Redialled.dialled {node : Json} {error : String} {w : Wallet} {v : View}
    (redialled : Redialled node error w v) (now : Nat) (m : Mem)
    : Dialled (moved node error now m).session w v.history := by
  by_cases onTor : torReady node = true ∧ error = ""
  · obtain ⟨dial, online, untrusted⟩ := redialled.onTor onTor.1 onTor.2
    have ready := onTor.1
    simp only [torReady, Bool.and_eq_true, Bool.not_eq_true', decide_eq_true_eq] at ready
    obtain ⟨⟨⟨noError, _⟩, proxied⟩, joined⟩ := ready
    simp only [Dialled, moved, onTor, Mem.session_route, Bool.true_and, decide_true, if_true]
    exact ⟨node, redialled.answered, noError, rfl, proxied, joined, dial, online, untrusted, rfl⟩
  · have parked := redialled.waiting onTor
    have waits : (torReady node && decide (error = "")) = false := by
      simpa [Bool.and_eq_true] using onTor
    simp [Dialled, moved, waits, parked]

/-- A whole move, whichever of its exits it takes. -/
theorem moveWith_keepsDial {abandon : Bool} {node : Json} {from_ : Route} {v : View}
    (holds : DialInv v) (answered : node ∈ answers v.history)
    : (moveWith abandon node from_).wp (View.act LibraryReturns) (fun _ => DialInv)
        (fun _ => DialInv) v := by
  simp only [moveWith, wp_ite, bind_def, wp_bind]
  refine ⟨fun _ => holds, fun _ => ?_⟩
  apply wp_mono (goOffline_parks holds answered)
  · intro stopped v₁ offline
    refine ⟨fun left => offline.1 (by simpa using left), fun stays => ?_⟩
    obtain ⟨w, parked⟩ := offline.2 (by simpa using stays)
    apply wp_mono (dialTor_redials parked)
    · intro dialled v₂ ended
      obtain ⟨error, rfl, redialled⟩ := ended
      simp only [recordMove, bind_def, wp_bind, Worker.wp_now, Worker.wp_update]
      intro now _ others
      apply keepsDial_quiet.body setState_quietly
      constructor
      · intro w' isOpen
        have same : w' = w := Option.some.inj (isOpen.symm.trans redialled.isOpen)
        subst same
        exact (redialled.dialled now _).later rfl rfl (fun _ => mem_answers_cons)
      · exact sendsGated_cons.mpr ⟨fun sends => (by cases sends), redialled.gated⟩
    · exact fun _ _ impossible => impossible.elim
  · exact fun _ _ kept => kept

theorem keepsDial_move {abandon : Bool} {resolved : Option Json} {v : View} (holds : DialInv v)
    (given : ∀ node, resolved = some node → lastAnswer v.history = some node)
    : (moveToTor abandon resolved).wp (View.act LibraryReturns) (fun _ => DialInv)
        (fun _ => DialInv) v := by
  simp only [moveToTor, bind_def, wp_bind, Worker.wp_read]
  intro others
  cases resolved with
  | some node => exact moveWith_keepsDial holds (lastAnswer_mem (given node rfl))
  | none =>
      simp only [wp_bind, Worker.wp_resolve]
      refine ⟨fun node allowed => ?_, fun _ allowed => keepsDial_quiet.ask rfl allowed holds⟩
      exact moveWith_keepsDial (keepsDial_quiet.ask rfl allowed holds) (by simp [Event.node?])

theorem keepsDial : TurnKeeps LibraryReturns DialInv where
  steady := keepsDial_quiet.mono fun _ => Steady.quiet
  begins v ptr job holds := by
    apply holds.push
    · intro w _
      simp [Event.handle?, Wallet2.after]
    · rfl
  settles v ptr out state holds := by
    apply holds.push
    · intro w _
      simp [Event.handle?, Wallet2.after]
    · rfl
  opens v job holds _ _ := keepsDial_open.opens v holds
  closes := keepsDial_close
  rescans := keepsDial_quiet.body doRescan_quietly
  creates v _ holds _ _ := keepsDial_create v holds
  commits _ := keepsDial_commit
  disposes _ := keepsDial_trading.body doDispose_trades
  moves v abandon resolved holds due :=
    keepsDial_move holds fun node same => (due.given node same).1
  follows _ := keepsDial_quiet.body followSync_quietly

-----------------------------------------------------------------------------------------
-- In every run
-----------------------------------------------------------------------------------------

/-- Whenever no turn is under way and a wallet is open, it dials where the route says, online
and untrusted as the route says; and everything that was spent was spent on a route that lets
it. Witness: the invariant of whole turns. -/
theorem route_agrees_with_dial {hasNotify : Bool} {t : System}
    (reach : Reachable LibraryReturns hasNotify t) (idle : t.Idle)
    : (∀ w, t.state.mem.wallet = some w →
        Dialled t.state.mem.session w t.state.history)
      ∧ SendsGated t.state.history := by
  have init : DialInv (World.start hasNotify).view := by
    refine ⟨fun w isOpen => (nomatch isOpen), fun e older part => ?_⟩
    exact absurd part (by simp [World.start, World.view])
  have holds := keepsDial.turnRule.reachable init reach idle
  exact ⟨holds.dialled, holds.gated⟩

/-- A node that is caught up with in the clear, and then reached through a proxy. -/
def identifyingNode : Json :=
  .obj
    [
      ("url", .str "http://node.onion:18081"), ("proxy", .str "socks5://127.0.0.1:9050"),
      ("catchUp", .obj [("url", .str "http://clear:18081")])
    ]

/-- A wallet opened on the catch-up node, and moved to Tor by the tick after it. -/
def World.movedToTor : World :=
  let script := Script.succeeding true 2 identifyingNode
  let job := .obj [("name", .str "w"), ("network", .str "stagenet")]
  ((World.withJob "open_wallet" job).afterTurn script).afterTurn script

theorem route_agrees_with_dial_moved
    : World.movedToTor.mem.wallet = some ⟨9⟩ ∧ World.movedToTor.mem.route = .tor
      ∧ Dialled World.movedToTor.mem.session ⟨9⟩ World.movedToTor.history := by
  have isOpen : World.movedToTor.mem.wallet = some ⟨9⟩ := by decide +kernel
  have reach : Reachable LibraryReturns true ⟨.pure (), World.movedToTor⟩ :=
    ((Reachable.withJob _ _).afterTurn Script.succeeding_returns).afterTurn
      Script.succeeding_returns
  exact ⟨isOpen, by decide +kernel, (route_agrees_with_dial reach rfl).1 _ isOpen⟩

end MoneroWalletCore.Runtime
