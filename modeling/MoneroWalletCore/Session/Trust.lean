import MoneroWalletCore.Session.DialAnswers
import MoneroWalletCore.Session.DialTargets
import MoneroWalletCore.Session.JobTurns

/-! The trust in the daemon. An open trusts a daemon whose url has a loopback name anywhere in
it, so what is trusted is a loopback host exactly when no answer that wallet2 was dialled by has
such a name elsewhere. Off the direct route no daemon is trusted.
-/

namespace MoneroWalletCore.Runtime

open Program

-----------------------------------------------------------------------------------------
-- Hosts
-----------------------------------------------------------------------------------------

/-- The part of a url after the scheme, and before a path, a query or a fragment. -/
def authority (url : String) : List Char :=
  ((afterScheme url.toList).getD url.toList).takeWhile (fun c => c != '/' && c != '?' && c != '#')

/-- The host of an authority without userinfo. One in brackets holds colons of its own. -/
def hostOf : List Char → List Char
  | '[' :: rest => '[' :: (rest.takeWhile (· != ']') ++ (rest.dropWhile (· != ']')).take 1)
  | host => host.takeWhile (· != ':')

/-- The host component of a url, without userinfo and port. -/
def hostComponent (url : String) : String :=
  String.ofList (hostOf ((authority url).rtakeWhile (· != '@')))

def loopbackHosts : List String := ["127.0.0.1", "localhost", "[::1]"]

example : hostComponent "http://user:pw@localhost:18081/json_rpc" = "localhost" := by decide

example : hostComponent "http://[::1]:18081" = "[::1]" := by decide

example : hostComponent "http://127.0.0.1.evil.example:18081" = "127.0.0.1.evil.example" := by
  decide

/-- An answer for a direct and trusted node with a loopback name in its url that is not its
host. -/
def Misnamed (node : Json) : Prop :=
  routeOf node = .direct ∧ node.valueBool "trusted" false = .ok true
    ∧ isLoopback (str node "url") = true ∧ hostComponent (str node "url") ∉ loopbackHosts

/-- A daemon that is trusted is the loopback host that was dialled. -/
def Event.TrustsLoopback (e : Event) (older : History) : Prop :=
  match e with
  | .asked (.lib (.setTrustedDaemon w true)) _ _ =>
      ∃ node, lastAnswer older = some node ∧ (wallet2 w older).dial = some (openArgs node)
        ∧ hostComponent (dialUrl node) ∈ loopbackHosts
  | _ => True

/-- An init that succeeds goes by an answer that is not misnamed. -/
def Event.WellNamed (e : Event) (older : History) : Prop :=
  match e with
  | .asked (.lib (.init ..)) (.ok true) _ => ∀ node, lastAnswer older = some node → ¬Misnamed node
  | _ => True

def TrustsLoopback (h : History) : Prop := Throughout Event.TrustsLoopback h

def WellNamed (h : History) : Prop := Throughout Event.WellNamed h

-----------------------------------------------------------------------------------------
-- Opening
-----------------------------------------------------------------------------------------

/-- The calls that neither dial a daemon nor trust it, and do not ask for it. -/
def Call.aloof : Call → Bool
  | .lib (.init ..) | .lib (.setTrustedDaemon ..) | .resolve _ => false
  | _ => true

abbrev Aloof : Op → Prop := Acting (fun _ _ => True) Call.aloof

/-- The trust agrees with the answers, but for what is still to come of an answer. -/
def Trusting (due : Prop) (v : View) : Prop :=
  WellNamed v.history ↔ TrustsLoopback v.history ∧ due

variable {rule : Surroundings} {node : Json}

theorem keeps_trusting {assigns : Mem → Mem → Prop} {calls : Call → Bool} {due : Prop}
    (none : ∀ w address limit user password ssl light proxy,
      calls (.lib (.init w address limit user password ssl light proxy)) = false)
    (never : ∀ w, calls (.lib (.setTrustedDaemon w true)) = false)
    : ActionsKeep rule (Acting assigns calls) (Trusting due) := by
  apply ActionsKeep.acting
  · exact fun _ _ _ holds => holds
  · intro v c answer call _ holds
    have named : (Event.asked c answer v.mem).WellNamed v.history := by
      unfold Event.WellNamed
      split
      next same =>
        cases same
        cases (none ..).symm.trans call
      next => trivial
    have trusts : (Event.asked c answer v.mem).TrustsLoopback v.history := by
      unfold Event.TrustsLoopback
      split
      next same =>
        cases same
        cases (never _).symm.trans call
      next => trivial
    simpa [Trusting, WellNamed, TrustsLoopback, named, trusts] using holds

theorem keeps_answered : ActionsKeep rule Aloof (fun v => lastAnswer v.history = some node) :=
  keeps_lastAnswer fun _ => rfl

instance : Plain Aloof where
  looks c plain := by
    cases c with
    | lib c => cases c <;> first | rfl | cases plain
    | _ => first | rfl | cases plain
  locks _ := trivial
  unlocks _ := trivial
  reads _ := trivial
  labels _ _ _ := trivial

theorem Aloof.notifies (network : String) (isOpen : Bool) : Aloof (.ask (.notify network isOpen)) :=
  rfl

theorem makeWallet_aloof {kind : String} {p : Json} {password path : String} {nettype : Int}
    : (makeWallet kind p password path nettype).Stays Aloof := by
  simp [Worker.Stays, makeWallet, Acting, Call.aloof]

theorem startWallet_aloof {plan : Plan} {w : Wallet} : (startWallet plan w).Stays Aloof :=
  .bind (.call rfl) fun _ => .bind (.when (.bind (.call rfl) fun _ => .call rfl)) fun _ => .call rfl

theorem publishWallet_aloof {o : OpenParams} {plan : Plan} {path addr : String} {w : Wallet}
    : (publishWallet o plan path addr w).Stays Aloof := by
  refine .bind (.locked (.update fun _ => trivial)) fun _ => .bind ⟨rfl, fun _ => trivial⟩ ?_
  exact fun _ => .bind (.update fun _ => trivial) fun _ => announceWallet_stays_of Aloof.notifies

/-- Every answer is agreed with, the last one too. -/
def Agreeing (node : Json) (v : View) : Prop :=
  lastAnswer v.history = some node ∧ Trusting True v

/-- An object has been dialled by the last answer, and is not trusted or distrusted yet. -/
def Dialling (node : Json) (w : Wallet) (v : View) : Prop :=
  lastAnswer v.history = some node ∧ (wallet2 w v.history).dial = some (openArgs node)
    ∧ Trusting (¬Misnamed node) v

variable {plan : Plan} {w : Wallet} {v : View}

theorem keeps_agreeing : ActionsKeep rule Aloof (Agreeing node) :=
  keeps_answered.and (keeps_trusting (fun _ _ _ _ _ _ _ _ => rfl) fun _ => rfl)

theorem Dialling.agreeing (dialling : Dialling node w v) (named : ¬Misnamed node)
    : Agreeing node v :=
  ⟨dialling.1, by simpa [Trusting, named] using dialling.2.2⟩

/-- Distrust says nothing. -/
theorem Agreeing.distrusts {answer : Except Exn Unit} (agreeing : Agreeing node v)
    : Agreeing node (v.push (.asked (.lib (.setTrustedDaemon w false)) answer v.mem)) :=
  ⟨agreeing.1, by
    simpa [Trusting, WellNamed, TrustsLoopback, Event.WellNamed, Event.TrustsLoopback]
      using agreeing.2⟩

/-- Trust says that the host is a loopback one, which is what the answer still owed. -/
theorem Dialling.trusts {answer : Except Exn Unit} (dialling : Dialling node w v)
    (direct : routeOf node = .direct) (trusted : node.valueBool "trusted" false = .ok true)
    (loopback : isLoopback (str node "url") = true)
    : Agreeing node (v.push (.asked (.lib (.setTrustedDaemon w true)) answer v.mem)) := by
  obtain ⟨answered, dialled, agrees⟩ := dialling
  have host : ¬Misnamed node ↔ hostComponent (dialUrl node) ∈ loopbackHosts := by
    simp [Misnamed, direct, trusted, loopback, dialUrl]
  have here : (Event.asked (.lib (.setTrustedDaemon w true)) answer v.mem).TrustsLoopback v.history
      ↔ ¬Misnamed node := by
    simp [Event.TrustsLoopback, answered, dialled, host]
  refine ⟨answered, ?_⟩
  rw [Trusting, host] at agrees
  rw [host] at here
  simpa [Trusting, WellNamed, TrustsLoopback, Event.WellNamed, here, and_comm] using agrees

theorem trustDaemon_agrees (dialling : Dialling plan.node w v)
    : (trustDaemon plan w).wp (View.act rule) (fun _ => Agreeing plan.node)
        (fun _ => Agreeing plan.node) v := by
  simp only [trustDaemon, bind_def, wp_bind, wp_ite, Worker.wp_orThrow, Worker.wp_lib]
  refine ⟨fun direct => ⟨fun trusted given => ?_, fun e given => ?_⟩, fun astray => ?_⟩
  · have tells {answer : Except Exn Unit}
        : Agreeing plan.node (v.push (.asked (.lib (.setTrustedDaemon w
            (trusted && isLoopback (str plan.node "url")))) answer v.mem)) := by
      cases both : trusted && isLoopback (str plan.node "url") with
      | false =>
          apply (dialling.agreeing _).distrusts
          rintro ⟨_, isTrusted, loopback, _⟩
          cases given.symm.trans isTrusted
          cases both.symm.trans (congrArg (true && ·) loopback)
      | true =>
          obtain ⟨rfl, loopback⟩ := Bool.and_eq_true_iff.mp both
          exact dialling.trusts direct given loopback
    exact ⟨fun _ _ => tells, fun _ _ => tells⟩
  · exact dialling.agreeing fun misnamed => by cases given.symm.trans misnamed.2.1
  · have agreeing := dialling.agreeing fun misnamed => astray misnamed.1
    simp only [pure_def, wp_pure]
    exact ⟨fun _ _ => agreeing.distrusts, fun _ _ => agreeing.distrusts⟩

theorem dialWallet_dialling {kind : String} (agreeing : Agreeing plan.node v)
    : (dialWallet kind plan w).wp (View.act rule)
        (fun ended v' =>
          match ended with
          | .leave _ => Agreeing plan.node v'
          | .go _ => Dialling plan.node w v')
        (fun _ => Agreeing plan.node) v := by
  have abandons : Program.Within (Worker.lib (.errorString w) >>= fun e =>
        Worker.lib (.closeWallet w (kind ≠ "open_wallet")) >>= fun _ =>
        (refuseOpen e ("init failed: " ++ e) : Worker (Stage Unit)))
      Aloof (fun ended => ∃ out, ended = .leave out) (fun _ => True) := by
    simp [refuseOpen, setState, Acting, Call.aloof]
  have failed {answer : Except Exn Bool} (unmade : answer ≠ .ok true)
      : Agreeing plan.node (v.push (.asked (.lib (openInit plan w)) answer v.mem)) := by
    have named : (Event.asked (.lib (openInit plan w)) answer v.mem).WellNamed v.history := by
      rcases answer with error | _ | _
      · trivial
      · trivial
      · exact absurd rfl unmade
    simp only [openInit] at named
    refine ⟨agreeing.1, ?_⟩
    simpa [Trusting, WellNamed, TrustsLoopback, named, Event.TrustsLoopback, openInit]
      using agreeing.2
  refine wp_bind.mpr (Worker.wp_lib.mpr ⟨fun ok _ => ?_, fun _ _ => failed (by simp)⟩)
  rw [wp_ite]
  refine ⟨fun dialled => ?_, fun refused => ?_⟩
  · subst dialled
    refine ⟨agreeing.1, by simp [Wallet2.after, Event.handle?, openArgs], ?_⟩
    obtain ⟨answered, agrees⟩ := agreeing
    have named : (Event.asked (.lib (openInit plan w)) (.ok true) v.mem).WellNamed v.history
        ↔ ¬Misnamed plan.node := by
      simp [Event.WellNamed, openInit, answered]
    simp only [openInit] at named
    simp only [Trusting, WellNamed, TrustsLoopback, and_true] at agrees
    simp [Trusting, WellNamed, TrustsLoopback, named, Event.TrustsLoopback, agrees, and_comm]
  · apply wp_mono (abandons.keeps keeps_agreeing (failed fun same => refused (by cases same; rfl)))
    · intro ended v' kept
      obtain ⟨⟨out, rfl⟩, kept⟩ := kept
      exact kept
    · exact fun _ _ kept => kept.2

theorem waitOffline_dialling (dialling : Dialling plan.node w v)
    : (waitOffline plan w).wp (View.act rule) (fun _ => Dialling plan.node w)
        (fun _ => Agreeing plan.node) v := by
  have told {answer : Except Exn Unit}
      : Dialling plan.node w (v.push (.asked (.lib (.setOffline w true)) answer v.mem)) := by
    obtain ⟨answered, dialled, agrees⟩ := dialling
    refine ⟨answered, by simpa [Wallet2.after, Event.handle?] using dialled, ?_⟩
    simpa [Trusting, WellNamed, TrustsLoopback, Event.WellNamed, Event.TrustsLoopback] using agrees
  simp only [waitOffline, wp_when, decide_eq_true_eq, Worker.wp_lib]
  refine ⟨fun waits => ⟨fun _ _ => told, fun _ _ => ?_⟩, fun _ => dialling⟩
  apply told.agreeing
  intro misnamed
  cases waits.symm.trans misnamed.1

theorem configureWallet_agrees {kind : String} {o : OpenParams} {path : String}
    : (configureWallet kind o plan path w).Keeps rule (Agreeing plan.node) := by
  intro v agreeing
  have prepares : Worker.Stays Aloof (Program.when (o.network = "regtest" && kind ≠ "open_wallet")
      (Worker.lib (.setRefreshFromBlockHeight w 0))) := .when (.call rfl)
  have starts : Worker.Stays Aloof (andThen (connectDaemon plan w) fun _ =>
      (startWallet plan w).bind fun addr => publishWallet o plan path addr w) :=
    .andThen connectDaemon_stays fun _ => .bind startWallet_aloof fun _ => publishWallet_aloof
  rw [configureWallet, wp_andThen]
  simp only [initWallet, bind_def, wp_bind]
  apply wp_mono (keeps_agreeing.body prepares v agreeing)
  · intro _ v₁ prepared
    apply wp_mono (dialWallet_dialling prepared)
    · intro ended v₂ dialled
      cases ended with
      | leave out => exact dialled
      | go done =>
          simp only [attachWallet, bind_def, wp_bind]
          apply wp_mono (waitOffline_dialling dialled)
          · intro _ v₃ waits
            apply wp_mono (trustDaemon_agrees waits)
            · exact fun _ v₄ trusts => keeps_agreeing.body starts v₄ trusts
            · exact fun _ _ left => left
          · exact fun _ _ left => left
    · exact fun _ _ left => left
  · exact fun _ _ left => left

theorem openWith_agrees {kind : String} {p : Json} {o : OpenParams}
    : (openWith kind p o plan).Keeps rule (Agreeing plan.node) := by
  have aloof {α : Type} {p : Worker α} (stays : p.Stays Aloof) : p.Keeps rule (Agreeing plan.node) :=
    keeps_agreeing.body stays
  have obtained {path : String} {nettype : Int}
      : (obtainWallet kind p o path nettype).Stays Aloof := obtainWallet_stays_of makeWallet_aloof
  refine (aloof (.locked (.bind .read fun _ => .value))).bind fun isOpen => ?_
  cases isOpen with
  | true => exact fun _ agreeing => agreeing
  | false =>
      refine (aloof .setState).bind fun _ => .bind (aloof .read) fun m => ?_
      refine .bind (aloof (.call rfl)) fun _ => .bind (aloof obtained) ?_
      rintro (out | w?)
      · exact fun _ agreeing => agreeing
      refine .bind (aloof checkWallet_stays) ?_
      rintro (out | w)
      · exact fun _ agreeing => agreeing
      exact configureWallet_agrees

theorem doOpenLike_trusting {kind : String} {p : Json}
    : (doOpenLike kind p).Keeps rule (Trusting True) := by
  intro v holds
  simp only [doOpenLike, bind_def, wp_bind, Worker.wp_orThrow, wp_ite, Worker.wp_resolve]
  refine ⟨fun o _ => ⟨fun _ => holds, fun _ => ⟨fun _ => holds, fun _ => ?_⟩⟩, fun _ _ => holds⟩
  have asked {answer : Except Exn Json}
      : Trusting True (v.push (.asked (.resolve o.network) answer v.mem)) := by
    simpa [Trusting, WellNamed, TrustsLoopback, Event.WellNamed, Event.TrustsLoopback] using holds
  refine ⟨fun node _ => ⟨fun policy passed => ?_, fun _ _ => asked⟩, fun _ _ => asked⟩
  cases policy with
  | leave out => exact asked
  | go plan =>
      have answered : plan.node = node := (nodePolicy_go passed).1
      subst answered
      apply wp_mono (openWith_agrees _ ⟨rfl, asked⟩)
      · exact fun _ _ agreeing => agreeing.2
      · exact fun _ _ agreeing => agreeing.2

-----------------------------------------------------------------------------------------
-- Moving
-----------------------------------------------------------------------------------------

/-- The calls of a move that take a wallet away from its daemon, or leave it. -/
def Call.distrusts : Call → Bool
  | .lib (.setTrustedDaemon _ trusted) => !trusted
  | .lib (.init ..) => false
  | c => c.moves

/-- The open wallet stays, off the direct route. -/
def Mem.StaysOff (m m' : Mem) : Prop :=
  m'.wallet = m.wallet ∧ (m.route ≠ .direct → m'.route ≠ .direct)

abbrev Distrusting : Op → Prop := Acting Mem.StaysOff Call.distrusts

theorem Withdrawing.distrusting {op : Op} (withdrawing : Withdrawing op) : Distrusting op := by
  cases op with
  | update f =>
      intro m
      rw [← withdrawing m]
      exact ⟨rfl, id⟩
  | ask c =>
      cases c with
      | lib c => cases c <;> first | rfl | cases withdrawing
      | destructor c => cases c <;> first | rfl | cases withdrawing
      | resolve network => cases withdrawing
      | _ => rfl
  | _ => exact withdrawing

theorem distrusting_relocates : Relocates rule Distrusting where
  offline abandon node :=
    goOffline_withdraws.mono (fun _ => Withdrawing.distrusting) (fun _ _ => trivial)
      (fun _ _ => trivial)
  online w ok := by simp [goOnline, Acting, Call.distrusts, Call.moves, Lib.moves, Lib.quiet]
  records node error := by
    have off (m : Mem) (now : Nat) : m.StaysOff (moved node error now m) := by
      refine ⟨rfl, fun _ => ?_⟩
      unfold moved
      dsimp only
      split <;> simp
    have labels (m : Mem) (s : State) : m.StaysOff (labelled s error m) := ⟨rfl, id⟩
    simp [recordMove, setState, Acting, off, labels, Call.distrusts, Call.moves]
  answers _ := keeps_lastAnswer fun _ => rfl

/-- A move is dialled through a proxy, so its answer is not for a direct node. -/
theorem torReady_named (ready : torReady node = true) : ¬Misnamed node := by
  intro misnamed
  have proxied : str node "proxy" ≠ "" := by
    simp only [torReady, Bool.and_eq_true, decide_eq_true_eq] at ready
    exact ready.1.2
  have direct := misnamed.1
  unfold routeOf at direct
  split at direct
  · cases direct
  · split at direct
    · cases direct
    · cases direct

theorem doClose_aloof : doClose.Stays Aloof := by
  have takes : takeWallet.Stays Aloof := by
    refine .locked (.bind .read fun m => ?_)
    cases m.wallet with
    | none => exact .value
    | some w => exact .bind .setState fun _ => .bind (.update fun _ => trivial) fun _ => .value
  refine .bind takes fun held => ?_
  cases held with
  | none => exact .value
  | some w => exact releaseWallet_stays_of Aloof.notifies fun _ => trivial

theorem Trusting.push {due : Prop} {e : Event} (holds : Trusting due v)
    (named : e.WellNamed v.history) (trusts : e.TrustsLoopback v.history)
    : Trusting due (v.push e) := by
  simpa [Trusting, WellNamed, TrustsLoopback, named, trusts] using holds

theorem keepsTrust_trading : ActionsKeep rule Trading (Trusting True) :=
  keeps_trusting (fun _ _ _ _ _ _ _ _ => rfl) fun _ => rfl

theorem keepsTrust_quiet : ActionsKeep rule Quiet (Trusting True) :=
  keepsTrust_trading.mono fun _ => Quiet.trading

theorem keepsTrust : TurnKeeps rule (Trusting True) where
  steady := keepsTrust_quiet.mono fun _ => Steady.quiet
  begins v ptr job holds := holds.push trivial trivial
  settles v ptr out state holds := holds.push trivial trivial
  opens v job holds _ _ := doOpenLike_trusting v holds
  closes := (keeps_trusting (fun _ _ _ _ _ _ _ _ => rfl) fun _ => rfl).stays doClose_aloof
  rescans := keepsTrust_quiet.body doRescan_quietly
  creates v job holds _ _ := by
    apply doCreateTransaction_keeps keepsTrust_trading _ v holds
    exact fun _ _ _ _ _ _ _ _ holds _ _ => holds.push trivial trivial
  commits p := by
    apply doCommit_keeps keepsTrust_trading
    exact fun _ _ _ _ _ holds _ _ _ _ => holds.push trivial trivial
  disposes _ := keepsTrust_trading.body doDispose_trades
  moves v abandon resolved holds due := by
    apply moveToTor_keeps_by distrusting_relocates holds
    · exact keepsTrust_quiet.mono fun _ => Steady.quiet
    · exact keeps_trusting (fun _ _ _ _ _ _ _ _ => rfl) fun _ => rfl
    · intro v w node answer holds _ answered ready
      apply holds.push
      · unfold Event.WellNamed
        split
        next =>
          intro node' last
          cases answered.symm.trans last
          exact torReady_named ready
        next => trivial
      · trivial
    · exact fun node same => (due.given node same).1
  follows _ := keepsTrust_quiet.body followSync_quietly

-----------------------------------------------------------------------------------------
-- Off the direct route
-----------------------------------------------------------------------------------------

/-- An open wallet off the direct route is not trusting. -/
def Distrusted (v : View) : Prop :=
  ∀ w, v.mem.wallet = some w → v.mem.route ≠ .direct → (wallet2 w v.history).trusted = false

/-- The same, known to be off the direct route. -/
def OffDirect (v : View) : Prop := v.mem.route ≠ .direct ∧ Distrusted v

/-- An event that tells an object to trust its daemon. -/
def Event.trusts : Event → Bool
  | .asked (.lib (.setTrustedDaemon _ trusted)) _ _ => trusted
  | _ => false

theorem Wallet2.after_trusted {g : Wallet2} {e : Event} (never : e.trusts = false)
    (untrusted : g.trusted = false)
    : (g.after w e).trusted = false := by
  unfold Wallet2.after
  split
  next => rfl
  next =>
    split
    next => split <;> exact untrusted
    next => split <;> exact untrusted
    next =>
      split
      · exact never
      · exact untrusted
    next => split <;> exact untrusted
    next => exact untrusted

theorem Distrusted.push {e : Event} (holds : Distrusted v) (never : e.trusts = false)
    : Distrusted (v.push e) :=
  fun w isOpen off => Wallet2.after_trusted never (holds w isOpen off)

theorem Call.quiet_trusts {c : Call} {answer : c.Answer} {m : Mem} (quiet : c.quiet = true)
    : (Event.asked c answer m).trusts = false := by
  cases c with
  | lib c => cases c <;> first | rfl | cases quiet
  | _ => rfl

theorem Call.distrusts_trusts {c : Call} {answer : c.Answer} {m : Mem}
    (distrusts : c.distrusts = true)
    : (Event.asked c answer m).trusts = false := by
  cases c with
  | lib c => cases c <;> first | rfl | simpa [Call.distrusts, Event.trusts] using distrusts
  | _ => rfl

theorem keepsDistrusted_trading : ActionsKeep rule Trading Distrusted := by
  apply ActionsKeep.acting
  · intro v m assigned holds w isOpen off
    obtain ⟨o, wallet, _, route, _⟩ := assigned
    exact holds w (wallet.symm.trans isOpen) fun direct => off (route.trans direct)
  · intro v c answer quiet _ holds
    exact holds.push (Call.quiet_trusts quiet)

theorem keepsDistrusted_quiet : ActionsKeep rule Quiet Distrusted :=
  keepsDistrusted_trading.mono fun _ => Quiet.trading

theorem Distrusted.closed (none : v.mem.wallet = none) : Distrusted v :=
  fun _ isOpen => nomatch none.symm.trans isOpen

/-- With no wallet open nothing is trusted. -/
theorem keepsDistrusted_closed
    : ActionsKeep rule Forgetting (fun v => Distrusted v ∧ v.mem.wallet = none) := by
  apply ActionsKeep.acting
  · intro v m assigned holds
    obtain ⟨o, same⟩ := assigned
    have none : (View.at m v.history).mem.wallet = none := same.1.trans holds.2
    exact ⟨.closed none, none⟩
  · intro v c answer _ _ holds
    exact ⟨.closed holds.2, holds.2⟩

theorem keepsDistrusted_open : OpenKeeps rule Distrusted where
  steady := keepsDistrusted_quiet.mono fun _ => Steady.quiet
  attempts := keepsDistrusted_closed.mono fun _ => Attempting.forgetting
  inits v o plan w answer _ none _ := .closed none
  publishes v o plan path addr w _ _ configured := by
    apply publishWallet_keeps keepsDistrusted_quiet
    intro m seen now session _ w' isOpen off
    obtain ⟨trusted, direct, told⟩ := configured.told
    have holding : m.wallet = some w := congrArg Session.wallet session
    cases Option.some.inj (isOpen.symm.trans holding)
    have still : wallet2 w (.asked .now now seen :: v.history) = wallet2 w v.history := rfl
    rw [View.at_history, still, told]
    exact Bool.eq_false_iff.mpr fun isTrusted => off (direct isTrusted)

theorem keepsOff : ActionsKeep rule Distrusting OffDirect := by
  apply ActionsKeep.acting
  · intro v m assigned holds
    obtain ⟨o, wallet, stays⟩ := assigned
    refine ⟨stays holds.1, fun w isOpen _ => ?_⟩
    exact holds.2 w (wallet.symm.trans isOpen) holds.1
  · intro v c answer distrusts _ holds
    exact ⟨holds.1, holds.2.push (Call.distrusts_trusts distrusts)⟩

theorem moveToTor_off {abandon : Bool} {resolved : Option Json} (off : OffDirect v)
    (due : MoveDue resolved v)
    : (moveToTor abandon resolved).wp (View.act rule) (fun _ => OffDirect) (fun _ => OffDirect) v := by
  apply moveToTor_keeps_by distrusting_relocates off _ keepsOff
  · intro v w node answer holds _ _ _
    exact ⟨holds.1, holds.2.push rfl⟩
  · exact fun node same => (due.given node same).1
  · apply ActionsKeep.acting
    · intro v m assigned holds
      obtain ⟨o, same, _⟩ := assigned
      have route : m.route = v.mem.route := congrArg Session.route same
      refine ⟨fun direct => holds.1 (route.symm.trans direct), fun w isOpen off => ?_⟩
      exact holds.2 w ((congrArg Session.wallet same).symm.trans isOpen) holds.1
    · intro v c answer quiet _ holds
      exact ⟨holds.1, holds.2.push (Call.quiet_trusts quiet)⟩

theorem keepsDistrusted : TurnKeeps rule Distrusted where
  steady := keepsDistrusted_quiet.mono fun _ => Steady.quiet
  begins v ptr job holds := holds.push rfl
  settles v ptr out state holds := holds.push rfl
  opens v job holds _ _ := keepsDistrusted_open.opens v holds
  closes := by
    apply doClose_keeps keepsDistrusted_quiet
    · exact fun v m holds _ => .closed rfl
    · exact keepsDistrusted_closed
  rescans := keepsDistrusted_quiet.body doRescan_quietly
  creates v job holds _ _ := by
    apply doCreateTransaction_keeps keepsDistrusted_trading _ v holds
    exact fun _ _ _ _ _ _ _ _ holds _ _ => holds.push rfl
  commits p := by
    apply doCommit_keeps keepsDistrusted_trading
    exact fun _ _ _ _ _ holds _ _ _ _ => holds.push rfl
  disposes _ := keepsDistrusted_trading.body doDispose_trades
  moves v abandon resolved holds due := by
    apply wp_mono (moveToTor_off ⟨due.route, holds⟩ due)
    · exact fun _ _ off => off.2
    · exact fun _ _ off => off.2
  follows _ := keepsDistrusted_quiet.body followSync_quietly

-----------------------------------------------------------------------------------------
-- Ticks
-----------------------------------------------------------------------------------------

def Event.asksNode : Event → Bool
  | .asked (.resolve _) _ _ => true
  | _ => false

/-- The node module was asked only off the direct route. -/
def AskedOff (v : View) : Prop :=
  v.history.any Event.asksNode = true → v.mem.route ≠ .direct

/-- An action that does not come back to the direct route. -/
abbrev KeepingOff : Op → Prop :=
  Acting (fun m m' => m.route ≠ .direct → m'.route ≠ .direct) fun _ => true

theorem ticked_route {height : UInt64} {now : Nat} {m : Mem} : (ticked height now m).route = m.route :=
  congrArg Session.route (ticked_session m).1

instance : Telling KeepingOff where
  asks _ _ := rfl
  locks _ := trivial
  unlocks _ := trivial
  reads _ := id
  labels _ _ _ := id
  registers _ _ := id
  drops _ _ := id
  notifies _ _ := rfl
  resets _ := id

instance : Ticking KeepingOff where
  times := rfl
  ticks _ _ _ off := by rwa [ticked_route]
  moves node error now m _ := by
    unfold moved
    dsimp only
    split <;> exact nofun

theorem keepsOff_route : ActionsKeep rule KeepingOff (fun v => v.mem.route ≠ .direct) := by
  apply ActionsKeep.acting
  · intro v m assigned off
    obtain ⟨o, stays⟩ := assigned
    exact stays off
  · exact fun _ _ _ _ _ off => off

/-- The calls that do not ask the node module. -/
def Call.unasking : Call → Bool
  | .resolve _ => false
  | _ => true

abbrev Unasking : Op → Prop := Acting Mem.SameSession Call.unasking

theorem Reporting.unasking {op : Op} (reporting : Reporting op) : Unasking op := by
  cases op with
  | update f => exact fun m => (reporting m).1
  | ask c => cases c <;> first | rfl | cases reporting
  | _ => exact reporting

theorem keepsUnasked
    : ActionsKeep rule Unasking
        (fun v => v.mem.route = .direct ∧ v.history.any Event.asksNode = false) := by
  apply ActionsKeep.acting
  · intro v m assigned holds
    obtain ⟨o, same⟩ := assigned
    exact ⟨(congrArg Session.route same).trans holds.1, holds.2⟩
  · intro v c answer unasking _ holds
    refine ⟨holds.1, ?_⟩
    cases c with
    | resolve network => cases unasking
    | _ => exact holds.2

/-- On the direct route a tick does not ask the node module. -/
theorem tick_unasking {v : View} (direct : v.mem.route = .direct)
    (unasked : v.history.any Event.asksNode = false)
    : tick.wp (View.act rule) (fun _ => AskedOff) (fun _ => AskedOff) v := by
  have kept {α : Type} {p : Worker α} (stays : p.Stays Unasking)
      : p.Keeps rule (fun v => v.mem.route = .direct ∧ v.history.any Event.asksNode = false) :=
    keepsUnasked.body stays
  have off {v : View} (holds : v.mem.route = .direct ∧ v.history.any Event.asksNode = false)
      : AskedOff v := by
    intro asked
    cases holds.2.symm.trans asked
  have resets : resetLocksOnce.Stays Unasking :=
    resetLocksOnce_reporting.mono (fun _ => Reporting.unasking) (fun _ holds => holds)
      (fun _ _ => trivial)
  have observes : observeWallet.Stays Unasking := by
    simp only [observeWallet, Worker.Stays, Worker.within_locked, bind_def, within_bind,
      Worker.within_read]
    refine ⟨trivial, fun _ => rfl, fun m => ?_⟩
    cases m.wallet <;> simp [Acting, Call.unasking]
  have times : Worker.now.Stays Unasking := ⟨rfl, fun _ => trivial⟩
  have labels (synced : Bool) : (followSync synced).Stays Unasking := by
    simp [followSync, Worker.Stays, setState, Acting, Mem.SameSession, labelled, Mem.session,
      Call.unasking]
  have ends : tick.Keeps rule
      (fun v => v.mem.route = .direct ∧ v.history.any Event.asksNode = false) := by
    refine (kept resets).bind fun _ => (kept observes).bind fun seen => ?_
    cases seen with
    | none => exact fun _ holds => holds
    | some seen =>
        refine (kept times).bind fun now v holds => ?_
        refine wp_bind.mpr (Worker.wp_update.mpr fun o => ?_)
        have direct : (progressed seen.2 now (v.mem.under o)).route = .direct :=
          (congrArg Session.route (progressed_session _).1).trans holds.1
        have stays : followRoute seen.1 now (progressed seen.2 now (v.mem.under o)) = .pure () := by
          simp [followRoute, asksTor, direct]
        rw [stays]
        exact kept (labels seen.1) _ ⟨ticked_route.trans holds.1, holds.2⟩
  apply wp_mono (ends v ⟨direct, unasked⟩)
  · exact fun _ _ holds => off holds
  · exact fun _ _ holds => off holds

theorem tick_asksOff {v : View} (unasked : v.history.any Event.asksNode = false)
    : tick.wp (View.act rule) (fun _ => AskedOff) (fun _ => AskedOff) v := by
  by_cases direct : v.mem.route = .direct
  · exact tick_unasking direct unasked
  · apply wp_mono (keepsOff_route.stays tick_stays v direct)
    · exact fun _ _ off _ => off
    · exact fun _ _ off _ => off

-----------------------------------------------------------------------------------------
-- In every run
-----------------------------------------------------------------------------------------

/-- In every run, whatever is answered, only loopback hosts are trusted exactly when no answer
that an init goes by is misnamed. After a tick that asks the node module, as every move to Tor
does, no open wallet trusts its daemon. -/
theorem trustsLoopback_iff_wellNamed {hasNotify : Bool} {w : World}
    (reach : Reachable AnyAnswer hasNotify ⟨.pure (), w⟩)
    : (TrustsLoopback w.history ↔ WellNamed w.history)
      ∧ ∀ w' new, World.Turn AnyAnswer w w' → w'.history = new ++ w.history →
        jobsBegun new = [] → new.any Event.asksNode = true →
        ∀ wallet, w'.mem.wallet = some wallet → (wallet2 wallet w'.history).trusted = false := by
  constructor
  · have trusting : Trusting True w.view :=
      keepsTrust.turnRule.reachable (by simp [Trusting, WellNamed, TrustsLoopback, World.view,
        World.start]) reach rfl
    have agrees : WellNamed w.history ↔ TrustsLoopback w.history ∧ True := trusting
    exact (agrees.trans (and_iff_left trivial)).symm
  · intro w' new whole split ticks asked wallet isOpen
    have distrusted : Distrusted w'.view :=
      keepsDistrusted.turnRule.reachable (.closed rfl) (reach.wholeTurn whole) rfl
    have off : AskedOff (View.at w'.mem new) := whole.tick split ticks (tick_asksOff rfl)
    exact distrusted wallet isOpen (off asked)

/-- A wallet that is opened with a node. -/
def World.openedWith (node : Json) : World :=
  let job := .obj [("name", .str "w"), ("network", .str "stagenet")]
  (World.withJob "open_wallet" job).afterTurn (Script.succeeding true 2 node)

theorem World.openedWith_reachable (node : Json)
    : Reachable AnyAnswer true ⟨.pure (), World.openedWith node⟩ :=
  (Reachable.withJob _ _).afterTurn fun _ _ _ => trivial

/-- It has caught up at the next tick, which moves it to Tor. -/
theorem trustsLoopback_iff_wellNamed_identifying
    : let script := Script.succeeding true 2 identifyingNode
      let w := World.openedWith identifyingNode
      (TrustsLoopback w.history ↔ WellNamed w.history)
        ∧ (wallet2 ⟨9⟩ (w.afterTurn script).history).trusted = false := by
  have both := trustsLoopback_iff_wellNamed (World.openedWith_reachable identifyingNode)
  refine ⟨both.1, ?_⟩
  refine both.2 _ ((World.openedWith identifyingNode).turnEvents _)
    (World.afterTurn_turn (fun _ _ _ => trivial) _) (World.afterTurn_history _ _) ?_ ?_ ⟨9⟩ ?_
  · exact List.isEmpty_iff.mp (by decide +kernel)
  · decide +kernel
  · decide +kernel

/-- A trusted node whose name starts with a loopback address. -/
def evilNode : Json :=
  .obj [("url", .str "http://127.0.0.1.evil.example:18081"), ("trusted", .bool true)]

/-- It is dialled in the clear, and trusted. -/
theorem remote_daemon_trusted
    : Reachable AnyAnswer true ⟨.pure (), World.openedWith evilNode⟩
      ∧ hostComponent (dialUrl evilNode) = "127.0.0.1.evil.example"
      ∧ ¬TrustsLoopback (World.openedWith evilNode).history := by
  refine ⟨World.openedWith_reachable evilNode, by decide +kernel, fun trusts => ?_⟩
  have trusted : ∃ m older,
      (World.openedWith evilNode).history.drop 16
          = .asked (.lib (.setTrustedDaemon ⟨9⟩ true)) (.ok ()) m :: older
        ∧ lastAnswer older = some evilNode := ⟨_, _, rfl, rfl⟩
  obtain ⟨m, older, here, answered⟩ := trusted
  have part := List.drop_suffix 16 (World.openedWith evilNode).history
  rw [here] at part
  obtain ⟨node, last, _, host⟩ := trusts _ older part
  cases answered.symm.trans last
  exact absurd host (by decide +kernel)

end MoneroWalletCore.Runtime
