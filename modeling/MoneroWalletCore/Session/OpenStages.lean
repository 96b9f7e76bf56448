import MoneroWalletCore.Runtime.TurnInvariants

/-! The open-like jobs stage by stage: what a wallet object has been told when it is about to be
dialled, and when it is about to be published. An invariant is kept by these jobs when it is
kept by the attempt, by the init, and by the publication of such an object.
-/

namespace MoneroWalletCore.Runtime

open Program

variable {rule : Surroundings}

/-- What the policy has let pass. -/
theorem nodePolicy_go {network : String} {node : Json} {plan : Plan}
    (passed : nodePolicy network node = .ok (.go plan))
    : plan.node = node ∧ node.contains "error" = false
      ∧ node.valueBool "proxyRequired" false = .ok plan.proxyRequired
      ∧ str node "url" ≠ "" ∧ (plan.proxyRequired = true → str node "proxy" ≠ "") := by
  unfold nodePolicy at passed
  split at passed
  next => cases passed
  next noError =>
    cases required : node.valueBool "proxyRequired" false with
    | error e => simp [required, Bind.bind, Except.bind] at passed
    | ok proxyRequired =>
        simp only [required, Bind.bind, Except.bind, Pure.pure, Except.pure] at passed
        split at passed
        next => cases passed
        next hasUrl =>
          split at passed
          next => cases passed
          next allowed =>
            cases passed
            simp only [Bool.and_eq_true, decide_eq_true_eq, not_and] at allowed
            exact ⟨rfl, by simpa using noError, rfl, hasUrl, allowed⟩

/-- What the policy has stopped. -/
theorem nodePolicy_leave {network : String} {node out : Json}
    (left : nodePolicy network node = .ok (.leave out))
    : ∃ msg, out = err msg := by
  unfold nodePolicy at left
  split at left
  next =>
    cases left
    exact ⟨_, rfl⟩
  next =>
    cases required : node.valueBool "proxyRequired" false with
    | error e => simp [required, Bind.bind, Except.bind] at left
    | ok proxyRequired =>
        simp only [required, Bind.bind, Except.bind, Pure.pure, Except.pure] at left
        split at left
        next =>
          cases left
          exact ⟨_, rfl⟩
        next =>
          split at left
          next =>
            cases left
            exact ⟨_, rfl⟩
          next => cases left

-----------------------------------------------------------------------------------------
-- What each stage tells the wallet object
-----------------------------------------------------------------------------------------

/-- Witness: each of the four calls returns the object, so nothing is known of it yet. -/
theorem makeWallet_fetches {kind : String} {p : Json} {password path : String} {nettype : Int}
    {node : Json} {v : View} (answered : lastAnswer v.history = some node)
    : (makeWallet kind p password path nettype).wp (View.act rule)
        (fun w? v' => ∀ w, w? = some w →
          openAnswer w v'.history = some node ∧ wallet2 w v'.history = {})
        (fun _ _ => True) v := by
  simp +contextual [makeWallet, Event.handle?, Wallet2.after, answered]

theorem obtainWallet_fetches {kind : String} {p : Json} {o : OpenParams} {path : String}
    {nettype : Int} {node : Json} {v : View} (answered : lastAnswer v.history = some node)
    : (obtainWallet kind p o path nettype).wp (View.act rule)
        (fun ended v' => ∀ w, ended = .go (some w) →
          openAnswer w v'.history = some node ∧ wallet2 w v'.history = {})
        (fun _ _ => True) v := by
  simp [obtainWallet, refuseOpen]
  exact ⟨fun _ _ => makeWallet_fetches answered, fun _ _ => makeWallet_fetches answered⟩

theorem checkWallet_checks {network : String} {nettype : Int} {w? : Option Wallet} (v : View)
    : (checkWallet network nettype w?).wp (View.act rule)
        (fun ended v' => ∀ w, ended = .go w →
          w? = some w ∧ openAnswer w v'.history = openAnswer w v.history
            ∧ wallet2 w v'.history = { wallet2 w v.history with nettype := some nettype })
        (fun _ _ => True) v := by
  cases w? with
  | none => simp [checkWallet, openFailed, refuseOpen]
  | some w => simp [checkWallet, openFailed, refuseOpen, Event.handle?, Wallet2.after]

theorem dialWallet_dials {kind : String} {plan : Plan} {w : Wallet} (v : View)
    : (dialWallet kind plan w).wp (View.act rule)
        (fun ended v' => ended = .go () →
          openAnswer w v'.history = openAnswer w v.history
            ∧ wallet2 w v'.history
              = { wallet2 w v.history with
                  dial := some (cstr (hostPort (dialUrl plan.node)), cstr (dialProxy plan.node)) })
        (fun _ _ => True) v := by
  simp [dialWallet, Wallet2.after, Event.handle?, refuseOpen]

theorem waitOffline_tells {plan : Plan} {w : Wallet} {v : View}
    (online : (wallet2 w v.history).offline = false)
    : (waitOffline plan w).wp (View.act rule)
        (fun _ v' => openAnswer w v'.history = openAnswer w v.history
          ∧ wallet2 w v'.history
            = { wallet2 w v.history with offline := routeOf plan.node = .waitingForTor })
        (fun _ _ => True) v := by
  simp +contextual [waitOffline, wp_when, Wallet2.after, Event.handle?, ← online]

theorem trustDaemon_trusts {plan : Plan} {w : Wallet} (v : View)
    : (trustDaemon plan w).wp (View.act rule)
        (fun _ v' => openAnswer w v'.history = openAnswer w v.history
          ∧ ∃ trusted, (trusted = true → routeOf plan.node = .direct)
            ∧ wallet2 w v'.history = { wallet2 w v.history with trusted })
        (fun _ _ => True) v := by
  simp +contextual [trustDaemon, Wallet2.after, Event.handle?]

theorem awaitConnected_quietly {w : Wallet} {looks : Nat} : (awaitConnected w looks).Quietly := by
  induction looks with
  | zero => trivial
  | succ looks ih => simp [awaitConnected, ih, Acting, Call.quiet, Lib.quiet]

theorem connectDaemon_tells {plan : Plan} {w : Wallet} (v : View)
    : (connectDaemon plan w).wp (View.act rule)
        (fun ended v' => ended = .go () →
          openAnswer w v'.history = openAnswer w v.history
            ∧ wallet2 w v'.history = wallet2 w v.history)
        (fun _ _ => True) v := by
  simp only [connectDaemon, wp_ite, bind_def, wp_bind]
  refine ⟨fun _ => ?_, fun _ _ => ⟨rfl, rfl⟩⟩
  apply wp_mono (awaitConnected_quietly.tells w v)
  · intro connected v' told
    simp [refuseOpen, told]
  · exact fun _ _ _ => trivial

theorem startWallet_quietly {plan : Plan} {w : Wallet} : (startWallet plan w).Quietly := by
  simp [startWallet, within_when, Acting, Call.quiet, Lib.quiet]

-----------------------------------------------------------------------------------------
-- Actions of an attempt
-----------------------------------------------------------------------------------------

/-- The calls of an attempt, except for its init. -/
def Lib.attempts : Lib → Bool
  | .init .. | .createTransaction .. | .commit .. => false
  | _ => true

def Call.attempts : Call → Bool
  | .lib c | .destructor c => c.attempts
  | .resolve _ => false
  | _ => true

/-- An action of an open-like job before it publishes a wallet. -/
abbrev Attempting : Op → Prop := Acting Mem.SameSession Call.attempts

abbrev Worker.Attempts {α : Type} (p : Worker α) : Prop :=
  p.Within Attempting (fun _ => True) (fun _ => True)

/-- An attempt does not ask the node module. -/
theorem Worker.Attempts.answers {α : Type} {p : Worker α} (attempts : p.Attempts) (v : View)
    : p.wp (View.act rule) (fun _ v' => lastAnswer v'.history = lastAnswer v.history)
        (fun _ _ => True) v := by
  have kept : ActionsKeep rule Attempting (fun v' => lastAnswer v'.history = lastAnswer v.history) := by
    apply ActionsKeep.acting
    · exact fun _ _ _ holds => holds
    · intro v' c answer attempting _ holds
      cases c with
      | resolve network => cases attempting
      | _ => exact holds
  exact wp_mono (kept.body attempts v rfl) (fun _ _ same => same) (fun _ _ _ => trivial)

theorem setState_attempts {s : State} {error : String} : (setState s error).Attempts := by
  simp [setState, Acting, Mem.SameSession, labelled, Mem.session, Call.attempts]

theorem refuseOpen_attempts {α : Type} {label msg : String}
    : (refuseOpen label msg : Worker (Stage α)).Attempts := by
  simp [refuseOpen, setState, Acting, Mem.SameSession, labelled, Mem.session, Call.attempts]

/-- The same with any postcondition. -/
theorem refuseOpen_within {α : Type} {label msg : String} {normal : Stage α → Prop}
    (holds : ∀ ended, normal ended)
    : (refuseOpen label msg).Within Attempting normal (fun _ => True) :=
  refuseOpen_attempts.mono (fun _ attempting => attempting) (fun _ _ => holds _)
    (fun _ _ => trivial)

theorem makeWallet_attempts {kind : String} {p : Json} {password path : String} {nettype : Int}
    : (makeWallet kind p password path nettype).Attempts := by
  simp [makeWallet, Acting, Call.attempts, Lib.attempts]

theorem obtainWallet_attempts {kind : String} {p : Json} {o : OpenParams} {path : String}
    {nettype : Int}
    : (obtainWallet kind p o path nettype).Attempts := by
  have made {normal : Option Wallet → Prop} (holds : ∀ w?, normal w?)
      : (makeWallet kind p o.password path nettype).Within Attempting normal (fun _ => True) :=
    makeWallet_attempts.mono (fun _ attempting => attempting) (fun _ _ => holds _)
      (fun _ _ => trivial)
  simp [obtainWallet, Acting, Call.attempts, Lib.attempts, refuseOpen_within, made]

theorem checkWallet_attempts {network : String} {nettype : Int} {w? : Option Wallet}
    : (checkWallet network nettype w?).Attempts := by
  cases w? <;>
    simp [checkWallet, openFailed, refuseOpen_within, Acting, Call.attempts, Lib.attempts]

theorem waitOffline_attempts {plan : Plan} {w : Wallet} : (waitOffline plan w).Attempts := by
  simp [waitOffline, within_when, Acting, Call.attempts, Lib.attempts]

theorem trustDaemon_attempts {plan : Plan} {w : Wallet} : (trustDaemon plan w).Attempts := by
  simp [trustDaemon, Acting, Call.attempts, Lib.attempts]

theorem awaitConnected_attempts {w : Wallet} {looks : Nat} : (awaitConnected w looks).Attempts := by
  induction looks with
  | zero => trivial
  | succ looks ih => simp [awaitConnected, ih, Acting, Call.attempts, Lib.attempts]

theorem connectDaemon_attempts {plan : Plan} {w : Wallet} : (connectDaemon plan w).Attempts := by
  have looked {normal : Bool → Prop} (holds : ∀ connected, normal connected)
      : (awaitConnected w 20).Within Attempting normal (fun _ => True) :=
    awaitConnected_attempts.mono (fun _ attempting => attempting) (fun _ _ => holds _)
      (fun _ _ => trivial)
  simp [connectDaemon, Acting, Call.attempts, Lib.attempts, refuseOpen_within, looked]

theorem startWallet_attempts {plan : Plan} {w : Wallet} : (startWallet plan w).Attempts := by
  simp [startWallet, within_when, Acting, Call.attempts, Lib.attempts]

-----------------------------------------------------------------------------------------
-- The rule for opens
-----------------------------------------------------------------------------------------

/-- A wallet object that passed its check, and has been told nothing yet. -/
structure Loaded (o : OpenParams) (plan : Plan) (w : Wallet) (h : History) : Prop where
  known : o.network ∈ knownNetworks
  passed : nodePolicy o.network plan.node = .ok (.go plan)
  answered : openAnswer w h = some plan.node
  told : wallet2 w h = { nettype := some (nettypeOf o.network) }

/-- What a wallet object has been told when it is published. -/
def toldAtOpen (o : OpenParams) (plan : Plan) (trusted : Bool) : Wallet2 :=
  {
    dial := some (cstr (hostPort (dialUrl plan.node)), cstr (dialProxy plan.node))
    offline := routeOf plan.node = .waitingForTor
    trusted
    nettype := some (nettypeOf o.network)
  }

/-- A wallet object that an answer opened, told this much. -/
def Told (plan : Plan) (w : Wallet) (g : Wallet2) (h : History) : Prop :=
  openAnswer w h = some plan.node ∧ wallet2 w h = g

structure Configured (o : OpenParams) (plan : Plan) (w : Wallet) (h : History) : Prop where
  known : o.network ∈ knownNetworks
  passed : nodePolicy o.network plan.node = .ok (.go plan)
  answered : openAnswer w h = some plan.node
  told : ∃ trusted, (trusted = true → routeOf plan.node = .direct)
    ∧ wallet2 w h = toldAtOpen o plan trusted

/-- The init that an open makes. -/
def openInit (plan : Plan) (w : Wallet) : Lib :=
  .init w (cstr (hostPort (dialUrl plan.node))) 0 "" "" false false (cstr (dialProxy plan.node))

/-- What is left to show of an invariant about an open-like job. No wallet is open while it
makes one. -/
structure OpenKeeps (rule : Surroundings) (Inv : View → Prop) : Prop where
  steady : ActionsKeep rule Steady Inv
  attempts : ActionsKeep rule Attempting (fun v => Inv v ∧ v.mem.wallet = none)
  inits : ∀ v o plan w answer, Inv v → v.mem.wallet = none → Loaded o plan w v.history →
    Inv (v.push (.asked (.lib (openInit plan w)) answer v.mem))
  publishes : ∀ v o plan path addr w, Inv v → v.mem.wallet = none →
    Configured o plan w v.history →
    (publishWallet o plan path addr w).wp (View.act rule) (fun _ => Inv) (fun _ => Inv) v

namespace OpenKeeps

variable {Inv : View → Prop} (keeps : OpenKeeps rule Inv)

include keeps

/-- An attempt's step, with what it says of the object. -/
theorem attempted {α : Type} {p : Worker α} {normal : α → View → Prop} {v : View}
    (attempts : p.Attempts) (holds : Inv v ∧ v.mem.wallet = none)
    (telling : p.wp (View.act rule) normal (fun _ _ => True) v)
    : p.wp (View.act rule)
        (fun value v' => (Inv v' ∧ v'.mem.wallet = none) ∧ normal value v') (fun _ => Inv) v :=
  wp_mono (wp_and (keeps.attempts.body attempts v holds) telling) (fun _ _ both => both)
    (fun _ _ both => both.1.1)

theorem dials {kind : String} {o : OpenParams} {plan : Plan} {w : Wallet} {v : View}
    (holds : Inv v ∧ v.mem.wallet = none) (loaded : Loaded o plan w v.history)
    : (dialWallet kind plan w).wp (View.act rule) (fun _ v' => Inv v' ∧ v'.mem.wallet = none)
        (fun _ => Inv) v := by
  have dialled {answer : Except Exn Bool}
      : Inv (v.push (.asked (.lib (openInit plan w)) answer v.mem)) :=
    keeps.inits v o plan w answer holds.1 holds.2 loaded
  have abandons : (Worker.lib (.errorString w) >>= fun e =>
      Worker.lib (.closeWallet w (kind ≠ "open_wallet")) >>= fun _ =>
      (refuseOpen e ("init failed: " ++ e) : Worker (Stage Unit))).Attempts := by
    simp [Acting, Call.attempts, Lib.attempts, refuseOpen_within]
  refine wp_bind.mpr (Worker.wp_lib.mpr ⟨fun ok _ => ?_, fun _ _ => dialled⟩)
  rw [wp_ite]
  refine ⟨fun _ => ⟨dialled, holds.2⟩, fun _ => ?_⟩
  exact wp_mono (keeps.attempts.body abandons _ ⟨dialled, holds.2⟩) (fun _ _ kept => kept)
    (fun _ _ kept => kept.1)

theorem initializes {kind : String} {o : OpenParams} {plan : Plan} {w : Wallet} {v : View}
    (holds : Inv v ∧ v.mem.wallet = none) (loaded : Loaded o plan w v.history)
    : (initWallet kind o.network plan w).wp (View.act rule)
        (fun ended v' => (Inv v' ∧ v'.mem.wallet = none)
          ∧ (ended = .go () →
            Told plan w { toldAtOpen o plan false with offline := false } v'.history))
        (fun _ => Inv) v := by
  have quietly : Worker.Quietly (Program.when (o.network = "regtest" && kind ≠ "open_wallet")
      (Worker.lib (.setRefreshFromBlockHeight w 0))) := by
    simp [within_when, Acting, Call.quiet, Lib.quiet]
  have attempts : Worker.Attempts (Program.when (o.network = "regtest" && kind ≠ "open_wallet")
      (Worker.lib (.setRefreshFromBlockHeight w 0))) := by
    simp [within_when, Acting, Call.attempts, Lib.attempts]
  simp only [initWallet, bind_def, wp_bind]
  apply wp_mono (keeps.attempted attempts holds (quietly.tells w v))
  · intro _ v' prepared
    obtain ⟨kept, answered, told⟩ := prepared
    have still : Loaded o plan w v'.history :=
      ⟨loaded.known, loaded.passed, answered.trans loaded.answered, told.trans loaded.told⟩
    apply wp_mono (wp_and (keeps.dials kept still) (dialWallet_dials v'))
    · intro ended v'' both
      refine ⟨both.1, fun goes => ?_⟩
      obtain ⟨answered', told'⟩ := both.2 goes
      exact ⟨answered'.trans still.answered, by rw [told', still.told, toldAtOpen]⟩
    · exact fun _ _ both => both.1
  · exact fun _ _ kept => kept

theorem starts {o : OpenParams} {plan : Plan} {path : String} {w : Wallet} {v : View}
    (holds : Inv v ∧ v.mem.wallet = none) (configured : Configured o plan w v.history)
    : Program.wp (View.act rule)
        ((startWallet plan w).bind fun addr => publishWallet o plan path addr w)
        (fun _ => Inv) (fun _ => Inv) v := by
  rw [wp_bind]
  apply wp_mono (keeps.attempted startWallet_attempts holds (startWallet_quietly.tells w v))
  · intro addr v' started
    obtain ⟨kept, answered, told⟩ := started
    obtain ⟨trusted, direct, before⟩ := configured.told
    apply keeps.publishes v' o plan path addr w kept.1 kept.2
    exact ⟨configured.known, configured.passed, answered.trans configured.answered, trusted,
      direct, told.trans before⟩
  · exact fun _ _ kept => kept

theorem connects {o : OpenParams} {plan : Plan} {path : String} {w : Wallet} {v : View}
    (holds : Inv v ∧ v.mem.wallet = none) (configured : Configured o plan w v.history)
    : (andThen (connectDaemon plan w) fun _ =>
          (startWallet plan w).bind fun addr => publishWallet o plan path addr w).wp
        (View.act rule) (fun _ => Inv) (fun _ => Inv) v := by
  rw [wp_andThen]
  apply wp_mono (keeps.attempted connectDaemon_attempts holds (connectDaemon_tells v))
  · intro ended v' connected
    cases ended with
    | leave out => exact connected.1.1
    | go done =>
        obtain ⟨answered, told⟩ := connected.2 rfl
        obtain ⟨trusted, direct, before⟩ := configured.told
        exact keeps.starts connected.1 ⟨configured.known, configured.passed,
          answered.trans configured.answered, trusted, direct, told.trans before⟩
  · exact fun _ _ kept => kept

theorem attaches {o : OpenParams} {plan : Plan} {path : String} {w : Wallet} {v : View}
    (holds : Inv v ∧ v.mem.wallet = none) (known : o.network ∈ knownNetworks)
    (passed : nodePolicy o.network plan.node = .ok (.go plan))
    (told : Told plan w { toldAtOpen o plan false with offline := false } v.history)
    : (attachWallet o plan path w).wp (View.act rule) (fun _ => Inv) (fun _ => Inv) v := by
  simp only [attachWallet, bind_def, wp_bind]
  have waits : (waitOffline plan w).wp (View.act rule) _ (fun _ _ => True) v :=
    waitOffline_tells (by rw [told.2])
  apply wp_mono (keeps.attempted waitOffline_attempts holds waits)
  · intro _ v' waiting
    apply wp_mono
      (keeps.attempted trustDaemon_attempts waiting.1 (trustDaemon_trusts v'))
    · intro _ v'' trusting
      obtain ⟨kept, answered, trusted, direct, told'⟩ := trusting
      apply keeps.connects kept
      refine ⟨known, passed, ?_, trusted, direct, ?_⟩
      · rw [answered, waiting.2.1, told.1]
      · rw [told', waiting.2.2, told.2, toldAtOpen, toldAtOpen]
    · exact fun _ _ kept => kept
  · exact fun _ _ kept => kept

/-- Once it is dialled, an object that is not given up is configured. -/
theorem configures {kind : String} {o : OpenParams} {plan : Plan} {path : String} {w : Wallet}
    {v : View} (holds : Inv v ∧ v.mem.wallet = none) (loaded : Loaded o plan w v.history)
    : (configureWallet kind o plan path w).wp (View.act rule) (fun _ => Inv) (fun _ => Inv) v := by
  rw [configureWallet, wp_andThen]
  apply wp_mono (keeps.initializes holds loaded)
  · intro ended v' dialled
    cases ended with
    | leave out => exact dialled.1.1
    | go done => exact keeps.attaches dialled.1 loaded.known loaded.passed (dialled.2 rfl)
  · exact fun _ _ kept => kept

theorem checks {kind : String} {o : OpenParams} {plan : Plan} {path : String} {w? : Option Wallet}
    {v : View} (holds : Inv v ∧ v.mem.wallet = none) (known : o.network ∈ knownNetworks)
    (passed : nodePolicy o.network plan.node = .ok (.go plan))
    (fetched : ∀ w, w? = some w → Told plan w {} v.history)
    : (andThen (checkWallet o.network (nettypeOf o.network) w?) fun w =>
          configureWallet kind o plan path w).wp (View.act rule) (fun _ => Inv) (fun _ => Inv) v := by
  rw [wp_andThen]
  apply wp_mono (keeps.attempted checkWallet_attempts holds (checkWallet_checks v))
  · intro ended v' checked
    cases ended with
    | leave out => exact checked.1.1
    | go w =>
        obtain ⟨same, answered, told⟩ := checked.2 w rfl
        obtain ⟨openAnswered, before⟩ := fetched w same
        apply keeps.configures checked.1
        exact ⟨known, passed, answered.trans openAnswered, by rw [told, before]⟩
  · exact fun _ _ kept => kept

theorem obtains {kind : String} {p : Json} {o : OpenParams} {plan : Plan} {path : String}
    {v : View} (holds : Inv v ∧ v.mem.wallet = none) (known : o.network ∈ knownNetworks)
    (passed : nodePolicy o.network plan.node = .ok (.go plan))
    (answered : lastAnswer v.history = some plan.node)
    : (andThen (obtainWallet kind p o path (nettypeOf o.network)) fun w? =>
        andThen (checkWallet o.network (nettypeOf o.network) w?) fun w =>
          configureWallet kind o plan path w).wp (View.act rule) (fun _ => Inv) (fun _ => Inv) v := by
  rw [wp_andThen]
  apply wp_mono (keeps.attempted obtainWallet_attempts holds (obtainWallet_fetches answered))
  · intro ended v' obtained
    cases ended with
    | leave out => exact obtained.1.1
    | go w? =>
        apply keeps.checks obtained.1 known passed
        intro w same
        exact obtained.2 w (congrArg Stage.go same)
  · exact fun _ _ kept => kept

theorem opensWith {kind : String} {p : Json} {o : OpenParams} {plan : Plan} {v : View}
    (holds : Inv v) (known : o.network ∈ knownNetworks)
    (passed : nodePolicy o.network plan.node = .ok (.go plan))
    (answered : lastAnswer v.history = some plan.node)
    : (openWith kind p o plan).wp (View.act rule) (fun _ => Inv) (fun _ => Inv) v := by
  simp only [openWith, bind_def, wp_bind, wp_ite, Worker.wp_locked, Worker.wp_read]
  refine fun others => ⟨fun _ => holds, fun closed => ?_⟩
  have none : v.mem.wallet = none := by simpa using closed
  have addresses : (Worker.lib (.setDaemonAddress (cstr (hostPort (dialUrl plan.node))))).Attempts := by
    simp [Acting, Call.attempts, Lib.attempts]
  apply wp_mono (keeps.attempted setState_attempts ⟨holds, none⟩ (setState_attempts.answers v))
  · intro _ v' labelled others
    apply wp_mono (keeps.attempted addresses labelled.1 (addresses.answers v'))
    · intro _ v'' addressed
      apply keeps.obtains addressed.1 known passed
      rw [addressed.2, labelled.2, answered]
    · exact fun _ _ kept => kept
  · exact fun _ _ kept => kept

/-- The open-like jobs keep the invariant. -/
theorem opens {kind : String} {p : Json} : (doOpenLike kind p).Keeps rule Inv := by
  intro v holds
  simp only [doOpenLike, bind_def, wp_bind, Worker.wp_orThrow, wp_ite, Worker.wp_resolve]
  refine ⟨fun o _ => ⟨fun _ => holds, fun _ => ⟨fun _ => holds, fun known => ?_⟩⟩,
    fun _ _ => holds⟩
  have pushed {answer : Except Exn Json}
      (allowed : rule v.history (.asked (.resolve o.network) answer v.mem))
      : Inv (v.push (.asked (.resolve o.network) answer v.mem)) :=
    keeps.steady.ask rfl allowed holds
  refine ⟨fun node allowed => ⟨fun policy passed => ?_, fun _ _ => pushed allowed⟩,
    fun _ allowed => pushed allowed⟩
  cases policy with
  | leave out => exact pushed allowed
  | go plan =>
      have same := (nodePolicy_go passed).1
      rw [← same] at passed
      exact keeps.opensWith (pushed allowed) (not_not.mp known) passed (by rw [same]; rfl)

end OpenKeeps

end MoneroWalletCore.Runtime
