import MoneroWalletCore.Session.JobRules

/-! The answers that wallet2 is dialled by. Every init goes by one answer of the node module:
the first of an object by the answer of its open, made before any wallet is open, and a later
one by the last answer of all, made on the open wallet by a move.
-/

namespace MoneroWalletCore.Runtime

open Program

/-- The answer that an init goes by: the open's own for the first of an object, and the last
one for a move. -/
def policyAnswer (w : Wallet) (older : History) : Option Json :=
  if (wallet2 w older).dial = none then openAnswer w older else lastAnswer older

/-- The address and the proxy that an open dials by an answer. -/
def openArgs (node : Json) : String × String :=
  (cstr (hostPort (dialUrl node)), cstr (dialProxy node))

/-- The address and the proxy that a move dials by an answer. -/
def torArgs (node : Json) : String × String :=
  (cstr (hostPort (str node "url")), cstr (proxyHostPort (str node "proxy")))

/-- An init of `w` goes by an answer. -/
structure DialsBy (w : Wallet) (m : Mem) (dial : String × String) (older : History) (node : Json)
    : Prop where
  answered : policyAnswer w older = some node
  opens : (wallet2 w older).dial = none →
    m.wallet = none ∧ (∃ network plan, nodePolicy network node = .ok (.go plan))
      ∧ dial = openArgs node
  moves : (wallet2 w older).dial ≠ none →
    m.wallet = some w ∧ torReady node = true ∧ dial = torArgs node

def Event.DialsByAnswer (e : Event) (older : History) : Prop :=
  match e with
  | .asked (.lib (.init w address _ _ _ _ _ proxy)) _ m =>
      ∃ node, DialsBy w m (address, proxy) older node
  | _ => True

theorem Event.DialsByAnswer.dials {e : Event} {older : History} {w : Wallet}
    {dial : String × String} (here : e.DialsByAnswer older) (inits : e.dial? w = some dial)
    : ∃ m node, DialsBy w m dial older node := by
  unfold Event.dial? at inits
  split at inits
  next w' address _ _ _ _ _ proxy answer m =>
    split at inits
    next same =>
      cases same
      cases inits
      exact ⟨m, here⟩
    next => cases inits
  next => cases inits

-----------------------------------------------------------------------------------------
-- The invariant
-----------------------------------------------------------------------------------------

structure DialsInv (v : View) : Prop where
  follows : Throughout Event.DialsByAnswer v.history
  dialled : ∀ w, v.mem.wallet = some w → (wallet2 w v.history).dial ≠ none

def Call.inits : Call → Bool
  | .lib (.init ..) => true
  | _ => false

theorem dialsByAnswer_of_not_inits {c : Call} {answer : c.Answer} {m : Mem} {older : History}
    (inits : c.inits = false)
    : (Event.asked c answer m).DialsByAnswer older := by
  cases c with
  | lib c => cases c <;> trivial
  | _ => trivial

theorem DialsInv.push {v : View} {e : Event} (holds : DialsInv v)
    (here : e.DialsByAnswer v.history)
    (told : ∀ w, v.mem.wallet = some w → (wallet2 w (e :: v.history)).dial ≠ none)
    : DialsInv (v.push e) :=
  ⟨throughout_cons.mpr ⟨here, holds.follows⟩, told⟩

theorem Call.moves_handle {c : Call} {answer : c.Answer} {m : Mem} (moves : c.moves = true)
    : (Event.asked c answer m).handle? = none := by
  cases c with
  | lib c => cases c <;> first | rfl | cases moves
  | _ => rfl

/-- A wallet object that was dialled stays so. -/
theorem Wallet2.after_dial {w : Wallet} {g : Wallet2} {e : Event} (kept : e.handle? = none)
    (dialled : g.dial ≠ none)
    : (g.after w e).dial ≠ none := by
  unfold Wallet2.after
  rw [kept, if_neg (nofun)]
  split
  all_goals first
    | exact dialled
    | split
      · simp_all
      · exact dialled

variable {rule : Surroundings}

/-- The three classes of actions differ in what they assign; none makes an init. -/
theorem keepsDials {assigns : Mem → Mem → Prop} {calls : Call → Bool}
    (wallet : ∀ m m', assigns m m' → m'.wallet = m.wallet)
    (others : ∀ c, calls c = true → c.inits = false)
    (kept : ∀ (c : Call) (answer : c.Answer) (m : Mem),
      calls c = true → (Event.asked c answer m).handle? = none)
    : ActionsKeep rule (Acting assigns calls) DialsInv := by
  apply ActionsKeep.acting
  · intro v m assigned holds
    obtain ⟨o, same⟩ := assigned
    exact ⟨holds.follows, fun w isOpen => holds.dialled w ((wallet _ _ same).symm.trans isOpen)⟩
  · intro v c answer call _ holds
    apply holds.push (dialsByAnswer_of_not_inits (others c call))
    exact fun w isOpen =>
      Wallet2.after_dial (kept c answer v.mem call) (holds.dialled w isOpen)

theorem Call.quiet_inits {c : Call} (quiet : c.quiet = true) : c.inits = false := by
  cases c with
  | lib c => cases c <;> first | rfl | cases quiet
  | _ => rfl

theorem keepsDials_trading : ActionsKeep rule Trading DialsInv := by
  apply keepsDials
  · exact fun _ _ same => same.1
  · exact fun _ quiet => Call.quiet_inits quiet
  · exact fun _ _ _ quiet => Call.quiet_handle quiet

theorem keepsDials_quiet : ActionsKeep rule Quiet DialsInv :=
  keepsDials_trading.mono fun _ => Quiet.trading

theorem keepsDials_moving : ActionsKeep rule Moving DialsInv := by
  apply keepsDials
  · exact fun _ _ same => same.1
  · intro c moves
    cases c with
    | lib c => cases c <;> first | rfl | cases moves
    | _ => rfl
  · exact fun _ _ _ moves => Call.moves_handle moves

/-- With no wallet open only the inits count. -/
theorem keepsDials_closed
    : ActionsKeep rule Forgetting (fun v => DialsInv v ∧ v.mem.wallet = none) := by
  apply ActionsKeep.acting
  · intro v m assigned holds
    obtain ⟨o, same⟩ := assigned
    have none : (View.at m v.history).mem.wallet = none := same.1.trans holds.2
    exact ⟨⟨holds.1.follows, fun w isOpen => (nomatch none.symm.trans isOpen)⟩, none⟩
  · intro v c answer attempts _ holds
    refine ⟨holds.1.push ?_ (fun w isOpen => (nomatch holds.2.symm.trans isOpen)), holds.2⟩
    apply dialsByAnswer_of_not_inits
    cases c with
    | lib c => cases c <;> first | rfl | cases attempts
    | _ => rfl

-----------------------------------------------------------------------------------------
-- The two inits
-----------------------------------------------------------------------------------------

/-- An open's init is the first of its object, so it goes by the answer of the open. -/
theorem openInit_follows {o : OpenParams} {plan : Plan} {w : Wallet} {answer : Except Exn Bool}
    {m : Mem} {h : History} (loaded : Loaded o plan w h) (none : m.wallet = none)
    : (Event.asked (.lib (openInit plan w)) answer m).DialsByAnswer h := by
  have first : (wallet2 w h).dial = Option.none := by rw [loaded.told]
  refine ⟨plan.node, ?_, fun _ => ⟨none, ⟨_, _, loaded.passed⟩, rfl⟩, fun dialled => ?_⟩
  · rw [policyAnswer, if_pos first, loaded.answered]
  · exact absurd first dialled

theorem torInit_follows {node : Json} {w : Wallet} {answer : Except Exn Bool} {m : Mem}
    {h : History} (dialled : (wallet2 w h).dial ≠ none) (last : lastAnswer h = some node)
    (isOpen : m.wallet = some w) (ready : torReady node = true)
    : (Event.asked (.lib (torInit node w)) answer m).DialsByAnswer h := by
  refine ⟨node, ?_, fun first => absurd first dialled, fun _ => ⟨isOpen, ready, rfl⟩⟩
  rw [policyAnswer, if_neg dialled, last]

theorem keepsDials_open : OpenKeeps rule DialsInv where
  steady := keepsDials_quiet.mono fun _ => Steady.quiet
  attempts := keepsDials_closed.mono fun _ => Attempting.forgetting
  inits v o plan w answer holds none loaded :=
    holds.push (openInit_follows loaded none) fun w' isOpen => by cases none.symm.trans isOpen
  publishes v o plan path addr w holds none configured := by
    apply publishWallet_keeps keepsDials_quiet
    intro m seen now session _
    have holding : m.wallet = some w := congrArg Session.wallet session
    obtain ⟨trusted, _, told⟩ := configured.told
    constructor
    · exact throughout_cons.mpr ⟨trivial, holds.follows⟩
    · intro w' isOpen
      have same : w' = w := Option.some.inj (isOpen.symm.trans holding)
      subst same
      have still : wallet2 w' (.asked .now now seen :: v.history) = wallet2 w' v.history := rfl
      simp only [View.at_history, still, told, toldAtOpen]
      exact Option.some_ne_none _

theorem keepsDials_all : TurnKeeps rule DialsInv where
  steady := keepsDials_quiet.mono fun _ => Steady.quiet
  begins v ptr job holds :=
    holds.push trivial fun w isOpen => Wallet2.after_dial rfl (holds.dialled w isOpen)
  settles v ptr out state holds :=
    holds.push trivial fun w isOpen => Wallet2.after_dial rfl (holds.dialled w isOpen)
  opens v job holds _ _ := keepsDials_open.opens v holds
  closes := by
    apply doClose_keeps keepsDials_quiet
    · exact fun v m holds _ => ⟨holds.follows, fun w isOpen => (nomatch isOpen)⟩
    · exact keepsDials_closed
  rescans := keepsDials_quiet.body doRescan_quietly
  creates v job holds _ _ := by
    apply doCreateTransaction_keeps keepsDials_trading _ v holds
    intro v w dst amount paymentId priority account answer holds _ _
    exact holds.push trivial fun w' isOpen => Wallet2.after_dial rfl (holds.dialled w' isOpen)
  commits p := by
    apply doCommit_keeps keepsDials_trading
    intro v w handle pt answer holds _ _ _ _
    exact holds.push trivial fun w' isOpen => Wallet2.after_dial rfl (holds.dialled w' isOpen)
  disposes _ := keepsDials_trading.body doDispose_trades
  moves v abandon resolved holds due := by
    apply moveToTor_keeps holds (keepsDials_quiet.mono fun _ => Steady.quiet) keepsDials_moving
    · intro v w node answer holds isOpen last ready
      exact holds.push (torInit_follows (holds.dialled w isOpen) last isOpen ready)
        fun w' isOpen' => Wallet2.after_dial rfl (holds.dialled w' isOpen')
    · exact fun node same => (due.given node same).1
  follows _ := keepsDials_quiet.body followSync_quietly

/-- In every run, every init goes by its answer. -/
theorem Reachable.dialsByAnswer {hasNotify : Bool} {t : System}
    (reach : Reachable rule hasNotify t) (idle : t.Idle)
    : Throughout Event.DialsByAnswer t.state.history :=
  (keepsDials_all.turnRule.reachable
    ⟨throughout_nil, fun _ isOpen => nomatch isOpen⟩ reach idle).follows

end MoneroWalletCore.Runtime
