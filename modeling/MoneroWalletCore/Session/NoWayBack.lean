import MoneroWalletCore.Session.DialTargets
import MoneroWalletCore.Session.ProxyPolicy

/-! No way back to the catch-up node. Once a session has left it, the route stays on Tor or
waits for it, and the wallet is dialled and put online only by answers for a move. Such an
answer leads back after all when it names the catch-up node, with a proxy of which stripping
leaves nothing.
-/

namespace MoneroWalletCore.Runtime

open Program

-----------------------------------------------------------------------------------------
-- The passage of a session
-----------------------------------------------------------------------------------------

/-- How far a session has come with the catch-up node. -/
inductive Passage where
  | before
  | on
  | left
  deriving DecidableEq, Repr

def Passage.next (route : Route) : Passage → Passage
  | .before => if route = .catchUp then .on else .before
  | .on => if route = .catchUp then .on else .left
  | .left => .left

/-- The passage of the open session, by the routes that its events show. -/
def passage : History → Passage
  | [] => .before
  | .asked _ _ m :: older =>
      if m.wallet = none then .before else (passage older).next m.route
  | .began .. :: older | .settled .. :: older => passage older

/-- The dial arguments of an object's open: those of its first init. -/
def openDial (w : Wallet) : History → Option (String × String)
  | [] => none
  | e :: older =>
      if e.handle? = some w then none else (openDial w older).or (e.dial? w)

/-- A call that says where a wallet dials, or whether. -/
def Call.redirects : Call → Bool
  | .lib (.init ..) | .lib (.setOffline ..) => true
  | _ => false

/-- A session that has left the catch-up node keeps to the Tor routes, is not dialled by the
arguments of its open again, and is not put online while these are its last; and one opened
direct stays so and is not moved. -/
structure NoWayBack (h : History) : Prop where
  routes : ∀ c answer m older, .asked c answer m :: older <:+ h → passage older = .left →
    m.wallet ≠ none → m.route = .waitingForTor ∨ m.route = .tor
  inits : ∀ w address limit user password ssl light proxy answer m older,
    let e := Event.asked (.lib (.init w address limit user password ssl light proxy)) answer m
    e :: older <:+ h → passage (e :: older) = .left → openDial w older ≠ some (address, proxy)
  onlines : ∀ w answer m older,
    let e := Event.asked (.lib (.setOffline w false)) answer m
    e :: older <:+ h → passage (e :: older) = .left → (wallet2 w older).dial ≠ openDial w older
  direct : ∀ c answer m older w opened, .asked c answer m :: older <:+ h → m.wallet = some w →
    openAnswer w older = some opened → routeOf opened = .direct →
    m.route = .direct ∧ c.redirects = false

/-- The answer names the catch-up node of the open, and no proxy is left to reach it through. -/
def LeadsBack (opened node : Json) : Prop :=
  cstr (hostPort (str node "url")) = cstr (hostPort (catchUpUrl opened)) ∧ ¬ProxyLeft node

/-- No session that has left the catch-up node is dialled by an answer that leads back. -/
def NeverLedBack (h : History) : Prop :=
  ∀ w address limit user password ssl light proxy answer m older opened node,
    let e := Event.asked (.lib (.init w address limit user password ssl light proxy)) answer m
    e :: older <:+ h → passage (e :: older) = .left → openAnswer w older = some opened →
    lastAnswer older = some node → ¬LeadsBack opened node

-----------------------------------------------------------------------------------------
-- The invariant
-----------------------------------------------------------------------------------------

/-- An open session's route and passage, against the answer that opened it. -/
def Came (opened : Json) (route : Route) (p : Passage) : Prop :=
  match route with
  | .direct => routeOf opened = .direct ∧ p = .before
  | .catchUp => routeOf opened = .catchUp ∧ p ≠ .left
  | .waitingForTor | .tor =>
      routeOf opened ≠ .direct ∧ (p ≠ .before → routeOf opened = .catchUp)

theorem Came.next {opened : Json} {route : Route} {p : Passage} (came : Came opened route p)
    : Came opened route (p.next route) := by
  cases route <;> cases p <;> simp_all [Came, Passage.next]

/-- What an event of an open session shows. A wallet is put online right after an init of a
move. -/
structure Onward (c : Call) (m : Mem) (older : History) : Prop where
  routes : passage older = .left → m.route = .waitingForTor ∨ m.route = .tor
  opened : ∀ w, m.wallet = some w → ∃ opened, openAnswer w older = some opened
    ∧ ((passage older).next m.route ≠ .before → routeOf opened = .catchUp)
    ∧ (routeOf opened = .direct → m.route = .direct ∧ c.redirects = false)
  onlines : ∀ w, c = .lib (.setOffline w false) → ∃ node trusted dialled before,
    older = .asked (.lib (.setTrustedDaemon w false)) trusted m
      :: .asked (.lib (torInit node w)) dialled m :: before

def Event.Onward (e : Event) (older : History) : Prop :=
  match e with
  | .asked c _ m => m.wallet ≠ none → Runtime.Onward c m older
  | _ => True

structure PassageInv (v : View) : Prop where
  onward : Throughout Event.Onward v.history
  closed : v.mem.wallet = none → v.mem.route = .direct ∧ passage v.history = .before
  session : ∀ w, v.mem.wallet = some w → ∃ opened, openAnswer w v.history = some opened
    ∧ Came opened v.mem.route (passage v.history)

variable {rule : Surroundings} {v : View}

/-- A call that makes no object, redirects none on the direct route, and puts one online only
after the init of a move. -/
theorem PassageInv.ask {c : Call} {answer : c.Answer} (holds : PassageInv v)
    (made : v.mem.wallet ≠ none → (Event.asked c answer v.mem).handle? = none)
    (redirects : c.redirects = true → v.mem.wallet ≠ none → v.mem.route ≠ .direct)
    (onlines : ∀ w, c = .lib (.setOffline w false) → v.mem.wallet ≠ none →
      ∃ node trusted dialled before,
        v.history = .asked (.lib (.setTrustedDaemon w false)) trusted v.mem
          :: .asked (.lib (torInit node w)) dialled v.mem :: before)
    : PassageInv (v.push (.asked c answer v.mem)) := by
  constructor
  · refine throughout_cons.mpr ⟨fun isOpen => ?_, holds.onward⟩
    obtain ⟨w, held⟩ := Option.ne_none_iff_exists'.mp isOpen
    obtain ⟨opened, answered, came⟩ := holds.session w held
    refine ⟨fun passed => ?_, fun w' held' => ?_, fun w' online => onlines w' online isOpen⟩
    · cases route : v.mem.route <;> simp_all [Came]
    · cases held.symm.trans held'
      refine ⟨opened, answered, fun passed => ?_, fun direct => ?_⟩
      · cases route : v.mem.route <;> cases at_ : passage v.history <;>
          simp_all [Came, Passage.next]
      · cases route : v.mem.route with
        | direct =>
            refine ⟨rfl, Bool.eq_false_iff.mpr fun moves => ?_⟩
            exact redirects moves isOpen route
        | _ => simp_all [Came]
  · intro none
    exact ⟨(holds.closed none).1, if_pos none⟩
  · intro w held
    obtain ⟨opened, answered, came⟩ := holds.session w held
    have isOpen : v.mem.wallet ≠ none := fun none => nomatch held.symm.trans none
    refine ⟨opened, ?_, ?_⟩
    · rw [View.push_history, openAnswer_cons, made isOpen, if_neg nofun]
      exact answered
    · simp only [View.push_history, View.push_mem, passage, if_neg isOpen]
      exact came.next

/-- An event that shows no members. -/
theorem PassageInv.unseen {e : Event} (holds : PassageInv v) (here : e.Onward v.history)
    (none : e.handle? = none) (same : passage (e :: v.history) = passage v.history)
    : PassageInv (v.push e) := by
  refine ⟨throughout_cons.mpr ⟨here, holds.onward⟩, fun closed => ?_, fun w held => ?_⟩
  · rw [View.push_history, same]
    exact holds.closed closed
  · rw [View.push_history, same, openAnswer_cons, none, if_neg nofun]
    exact holds.session w held

theorem Call.quiet_redirects {c : Call} (quiet : c.quiet = true) : c.redirects = false := by
  cases c with
  | lib c => cases c <;> first | rfl | cases quiet
  | _ => rfl

theorem keepsPassage_trading : ActionsKeep rule Trading PassageInv := by
  apply ActionsKeep.acting
  · intro v m assigned holds
    obtain ⟨o, wallet, _, route, _, _⟩ := assigned
    refine ⟨holds.onward, fun none => ?_, fun w held => ?_⟩
    · have closed := holds.closed (wallet.symm.trans none)
      exact ⟨route.trans closed.1, closed.2⟩
    · obtain ⟨opened, answered, came⟩ := holds.session w (wallet.symm.trans held)
      refine ⟨opened, answered, ?_⟩
      rw [View.at_mem, Mem.own_route, route]
      exact came
  · intro v c answer quiet _ holds
    apply holds.ask
    · exact fun _ => Call.quiet_handle quiet
    · exact fun redirects => nomatch (Call.quiet_redirects quiet).symm.trans redirects
    · intro w online
      cases online
      cases quiet

theorem keepsPassage_quiet : ActionsKeep rule Quiet PassageInv :=
  keepsPassage_trading.mono fun _ => Quiet.trading

-----------------------------------------------------------------------------------------
-- Opening and closing
-----------------------------------------------------------------------------------------

/-- With no wallet open no event shows a session. -/
theorem keepsPassage_attempting
    : ActionsKeep rule Attempting (fun v => PassageInv v ∧ v.mem.wallet = none) := by
  apply ActionsKeep.acting
  · intro v m assigned holds
    obtain ⟨o, same⟩ := assigned
    have wallet : m.wallet = none := (congrArg Session.wallet same).trans holds.2
    have route : m.route = v.mem.route := congrArg Session.route same
    obtain ⟨direct, before⟩ := holds.1.closed holds.2
    refine ⟨⟨holds.1.onward, fun _ => ⟨route.trans direct, before⟩, fun w held => ?_⟩, wallet⟩
    cases wallet.symm.trans held
  · intro v c answer _ _ holds
    refine ⟨holds.1.ask ?_ ?_ ?_, holds.2⟩
    · exact fun isOpen => absurd holds.2 isOpen
    · exact fun _ isOpen => absurd holds.2 isOpen
    · exact fun _ _ isOpen => absurd holds.2 isOpen

theorem Came.opened (opened : Json) : Came opened (routeOf opened) .before := by
  unfold Came
  cases routeOf opened <;> simp

theorem keepsPassage_open : OpenKeeps rule PassageInv where
  steady := keepsPassage_quiet.mono fun _ => Steady.quiet
  attempts := keepsPassage_attempting
  inits v o plan w answer holds none _ := by
    apply holds.ask
    · exact fun isOpen => absurd none isOpen
    · exact fun _ isOpen => absurd none isOpen
    · exact fun _ _ isOpen => absurd none isOpen
  publishes v o plan path addr w holds none configured := by
    apply publishWallet_keeps keepsPassage_quiet
    intro m seen now session same
    have held : m.wallet = some w := congrArg Session.wallet session
    have heldThen : seen.wallet = some w := (congrArg Session.wallet same).trans held
    obtain ⟨direct, before⟩ := holds.closed none
    have route : seen.route = .direct :=
      (congrArg Session.route same).trans ((congrArg Session.route session).trans direct)
    have still : passage (.asked .now now seen :: v.history) = .before := by
      simp [passage, heldThen, route, before, Passage.next]
    refine ⟨throughout_cons.mpr ⟨fun _ => ?_, holds.onward⟩, fun none => ?_, fun w' held' => ?_⟩
    · refine ⟨fun passed => (nomatch before.symm.trans passed), fun w' held' => ?_, nofun⟩
      cases heldThen.symm.trans held'
      refine ⟨plan.node, configured.answered, ?_, fun _ => ⟨route, rfl⟩⟩
      simp [before, route, Passage.next]
    · cases held.symm.trans none
    · cases held.symm.trans held'
      refine ⟨plan.node, configured.answered, ?_⟩
      rw [View.at_history, still]
      exact Came.opened plan.node

/-- Between the handle's taking and the forgetting nothing is open, and the first call shows
it. -/
theorem releaseWallet_keepsPassage {w : Wallet} (none : v.mem.wallet = none)
    (onward : Throughout Event.Onward v.history)
    : (releaseWallet w).wp (View.act LibraryReturns) (fun _ => PassageInv) (fun _ => PassageInv)
        v := by
  simp only [releaseWallet, bind_def, wp_bind, Worker.wp_lib, Worker.wp_update]
  refine ⟨fun _ _ => ⟨fun ok _ others => ?_, fun _ threw => threw.elim⟩, fun _ threw => threw.elim⟩
  have forgot {e e' : Event} (first : e.Onward v.history) (second : e'.Onward (e :: v.history))
      (before : passage (e' :: e :: v.history) = .before)
      : PassageInv (View.at (forgotten (v.mem.under others)) (e' :: e :: v.history)) := by
    refine ⟨throughout_cons.mpr ⟨second, throughout_cons.mpr ⟨first, onward⟩⟩, fun _ => ?_, ?_⟩
    · exact ⟨rfl, before⟩
    · intro w' held
      cases none.symm.trans held
  refine wp_mono (keepsPassage_quiet.body notifyOpen_steadily.quietly _ (forgot ?_ ?_ ?_))
    (fun _ _ kept => ?_) (fun _ _ kept => kept)
  · exact fun isOpen => absurd none isOpen
  · exact fun isOpen => absurd none isOpen
  · simp [passage, none]
  · exact wp_mono (keepsPassage_quiet.body setState_quietly _ kept) (fun _ _ kept' => kept')
      (fun _ _ kept' => kept')

theorem keepsPassage_close : doClose.Keeps LibraryReturns PassageInv := by
  intro v holds
  simp only [doClose, takeWallet, bind_def, wp_bind, Worker.wp_locked, Worker.wp_read]
  intro others
  cases (v.mem.under others).wallet with
  | none => exact holds
  | some w =>
      simp only [wp_bind]
      apply wp_mono (keepsPassage_quiet.body setState_quietly v holds)
      · intro _ v' kept
        simp only [Worker.wp_update, pure_def, wp_pure]
        exact fun others' => releaseWallet_keepsPassage rfl kept.onward
      · exact fun _ _ kept => kept

-----------------------------------------------------------------------------------------
-- Moving to Tor
-----------------------------------------------------------------------------------------

/-- A session on its way to Tor. -/
def Leaves (v : View) : Prop := PassageInv v ∧ v.mem.route ≠ .direct

/-- A call that makes no object and puts none online. -/
theorem Leaves.ask {c : Call} {answer : c.Answer} (holds : Leaves v)
    (made : (Event.asked c answer v.mem).handle? = none)
    (online : ∀ w, c ≠ .lib (.setOffline w false))
    : Leaves (v.push (.asked c answer v.mem)) :=
  ⟨holds.1.ask (fun _ => made) (fun _ _ => holds.2) (fun w same => absurd same (online w)), holds.2⟩

theorem keepsLeaves : ActionsKeep rule Withdrawing Leaves := by
  apply ActionsKeep.acting
  · intro v m assigned holds
    obtain ⟨o, rfl⟩ := assigned
    rw [View.at_under]
    exact holds
  · intro v c answer withdraws _ holds
    apply holds.ask
    · cases c with
      | lib c => cases c <;> first | rfl | cases withdraws
      | _ => rfl
    · intro w online
      cases online
      cases withdraws

theorem recordMove_keepsPassage {node : Json} {error : String} (holds : Leaves v)
    : (recordMove node error).wp (View.act rule) (fun _ => PassageInv) (fun _ => PassageInv) v := by
  simp only [recordMove, bind_def, wp_bind, Worker.wp_now, Worker.wp_update]
  intro now allowed others
  have asked : Leaves (v.push (.asked .now now v.mem)) := keepsLeaves.ask rfl allowed holds
  refine keepsPassage_quiet.body setState_quietly _ ⟨asked.1.onward, fun none => ?_, fun w held => ?_⟩
  · exact absurd (holds.1.closed none).1 holds.2
  · obtain ⟨opened, answered, came⟩ := asked.1.session w held
    refine ⟨opened, answered, ?_⟩
    have left : v.mem.route ≠ .direct := holds.2
    simp only [View.push_mem, View.push_history] at came ⊢
    simp only [moved, View.at_mem, Mem.own_route, View.at_history]
    split
    all_goals cases route : v.mem.route <;> simp_all [Came]

/-- The wallet goes online right after its init. -/
theorem goOnline_keepsLeaves {w : Wallet} {node : Json} {ok : Bool} (holds : Leaves v)
    (dialled : ∃ answer before,
      v.history = .asked (.lib (torInit node w)) answer v.mem :: before)
    : (goOnline w ok).wp (View.act LibraryReturns) (fun _ => Leaves) (fun _ _ => False) v := by
  simp only [goOnline, bind_def, wp_ite, wp_bind, Worker.wp_lib, LibraryReturns, false_imp_iff,
    implies_true, and_true, true_imp_iff, pure_def, wp_pure]
  refine ⟨fun _ _ _ _ _ _ => ?_, fun _ _ => holds.ask rfl nofun⟩
  have online : Leaves ((v.push (.asked (.lib (.setTrustedDaemon w false)) (.ok ()) v.mem)).push
      (.asked (.lib (.setOffline w false)) (.ok ()) v.mem)) := by
    have trusted : Leaves (v.push (.asked (.lib (.setTrustedDaemon w false)) (.ok ()) v.mem)) :=
      holds.ask rfl nofun
    refine ⟨trusted.1.ask (fun _ => rfl) (fun _ _ => holds.2) (fun w' same _ => ?_), holds.2⟩
    cases same
    obtain ⟨answer, before, here⟩ := dialled
    exact ⟨node, _, answer, before, congrArg _ here⟩
  exact ((online.ask rfl (by nofun)).ask rfl (by nofun)).ask rfl nofun

theorem dialTor_keepsLeaves {node : Json} (holds : Leaves v)
    : (dialTor node).wp (View.act LibraryReturns) (fun _ => Leaves) (fun _ _ => False) v := by
  simp only [dialTor, bind_def, Worker.wp_locked, wp_bind, Worker.wp_read]
  intro others
  cases (v.mem.under others).wallet with
  | none => exact holds
  | some w =>
      simp only [wp_ite, wp_bind, Worker.wp_lib]
      refine ⟨fun _ => ⟨fun ok _ => ?_, fun _ threw => threw.elim⟩, fun _ => holds⟩
      exact goOnline_keepsLeaves (holds.ask rfl (by simp)) ⟨_, _, rfl⟩

theorem moveToTor_keepsPassage {abandon : Bool} {resolved : Option Json} (holds : PassageInv v)
    (due : MoveDue resolved v)
    : (moveToTor abandon resolved).wp (View.act LibraryReturns) (fun _ => PassageInv)
        (fun _ => PassageInv) v := by
  have moves (node : Json) (from_ : Route) {v : View} (leaves : Leaves v)
      : (moveWith abandon node from_).wp (View.act LibraryReturns) (fun _ => PassageInv)
          (fun _ => PassageInv) v := by
    simp only [moveWith, wp_ite, bind_def, wp_bind]
    refine ⟨fun _ => leaves.1, fun _ => ?_⟩
    apply wp_mono (keepsLeaves.body goOffline_withdraws v leaves)
    · intro stopped v₁ parked
      refine ⟨fun _ => parked.1, fun _ => ?_⟩
      apply wp_mono (dialTor_keepsLeaves parked)
      · intro dialled v₂ redialled
        cases dialled with
        | none => exact redialled.1
        | some error => exact recordMove_keepsPassage redialled
      · exact fun _ _ impossible => impossible.elim
    · exact fun _ _ left => left.1
  simp only [moveToTor, bind_def, wp_bind, Worker.wp_read]
  intro others
  have leaves : Leaves v := ⟨holds, due.route⟩
  cases resolved with
  | some node => exact moves node _ leaves
  | none =>
      simp only [wp_bind, Worker.wp_resolve]
      exact ⟨fun node _ => moves node _ (leaves.ask rfl (by simp)),
        fun _ _ => (leaves.ask rfl (by simp)).1⟩

theorem keepsPassage : TurnKeeps LibraryReturns PassageInv where
  steady := keepsPassage_quiet.mono fun _ => Steady.quiet
  begins _ _ _ holds := holds.unseen trivial rfl rfl
  settles _ _ _ _ holds := holds.unseen trivial rfl rfl
  opens v _ holds _ _ := keepsPassage_open.opens v holds
  closes := keepsPassage_close
  rescans := keepsPassage_quiet.body doRescan_quietly
  creates v _ holds _ _ := by
    apply doCreateTransaction_keeps keepsPassage_trading _ v holds
    intro v w dst amount paymentId priority account answer holds checked _
    exact holds.ask (fun _ => rfl) nofun nofun
  commits p := by
    apply doCommit_keeps keepsPassage_trading
    intro v w handle pt answer holds _ _ _ _
    exact holds.ask (fun _ => rfl) nofun nofun
  disposes _ := keepsPassage_trading.body doDispose_trades
  moves _ _ _ holds due := moveToTor_keepsPassage holds due
  follows _ := keepsPassage_quiet.body followSync_quietly

-----------------------------------------------------------------------------------------
-- The dials of a session
-----------------------------------------------------------------------------------------

/-- An object has dial arguments of its open as soon as it is dialled. -/
theorem openDial_eq_none {w : Wallet} {h : History}
    : openDial w h = none ↔ (wallet2 w h).dial = none := by
  induction h with
  | nil => simp [openDial, wallet2]
  | cons e older ih =>
      rw [openDial, wallet2_dial_cons]
      split
      next => simp
      next => simp only [Option.or_eq_none_iff, ih, and_comm]

/-- They are what its answer gives. -/
theorem openDial_answered {w : Wallet} {h : History} {dial : String × String}
    (dials : Throughout Event.DialsByAnswer h) (dialled : openDial w h = some dial)
    : ∃ opened, openAnswer w h = some opened ∧ dial = openArgs opened := by
  induction h with
  | nil => cases dialled
  | cons e older ih =>
      obtain ⟨here, earlier⟩ := throughout_cons.mp dials
      rw [openDial] at dialled
      rw [openAnswer_cons]
      split at dialled
      next => cases dialled
      next kept =>
        rw [if_neg kept]
        cases first : openDial w older with
        | some dial' =>
            rw [first, Option.some_or] at dialled
            exact ih earlier (first.trans dialled)
        | none =>
            rw [first, Option.none_or] at dialled
            obtain ⟨m, node, dialsBy⟩ := here.dials dialled
            have undialled := openDial_eq_none.mp first
            have answered := dialsBy.answered
            rw [policyAnswer, if_pos undialled] at answered
            exact ⟨node, answered, (dialsBy.opens undialled).2.2⟩

/-- What an init of a session that has left the catch-up node is given, against its open. -/
theorem Onward.leadsBack {w : Wallet} {address proxy : String} {limit : UInt64}
    {user password : String} {ssl light : Bool} {answer : Except Exn Bool} {m : Mem}
    {older : History}
    (onward : Event.Onward
      (.asked (.lib (.init w address limit user password ssl light proxy)) answer m) older)
    (dials : Throughout Event.DialsByAnswer
      (.asked (.lib (.init w address limit user password ssl light proxy)) answer m :: older))
    (left : passage
      (.asked (.lib (.init w address limit user password ssl light proxy)) answer m :: older) = .left)
    : ∃ opened node, openAnswer w older = some opened ∧ lastAnswer older = some node
      ∧ (openDial w older = some (address, proxy) ↔ LeadsBack opened node) := by
  obtain ⟨⟨node, here⟩, earlier⟩ := throughout_cons.mp dials
  have isOpen : m.wallet ≠ none := by
    intro none
    simp [passage, none] at left
  rw [passage, if_neg isOpen] at left
  have dialled : (wallet2 w older).dial ≠ none := fun undialled =>
    isOpen (here.opens undialled).1
  obtain ⟨held, _, same⟩ := here.moves dialled
  have last := here.answered
  rw [policyAnswer, if_neg dialled] at last
  obtain ⟨dial, opens⟩ := Option.ne_none_iff_exists'.mp fun none =>
    dialled (openDial_eq_none.mp none)
  obtain ⟨opened, answered, rfl⟩ := openDial_answered earlier opens
  obtain ⟨opened', answered', caughtUp, _⟩ := (onward isOpen).opened w held
  cases answered.symm.trans answered'
  have route : routeOf opened = .catchUp := caughtUp (by simp [left])
  refine ⟨opened, node, answered, last, ?_⟩
  rw [opens, same, Option.some_inj, openArgs, torArgs, Prod.mk.injEq, LeadsBack, ProxyLeft]
  simp only [dialUrl, dialProxy, route, if_true]
  exact and_congr eq_comm ⟨fun same' => not_not.mpr same'.symm, fun same' => (not_not.mp same').symm⟩

-----------------------------------------------------------------------------------------
-- In every run
-----------------------------------------------------------------------------------------

/-- In every run in which the library returns, there is no way back exactly when no session that
has left the catch-up node is dialled by an answer that leads back. Witness: the invariant of
whole turns, and the answers that inits go by. -/
theorem noWayBack_iff_neverLedBack {hasNotify : Bool} {t : System}
    (reach : Reachable LibraryReturns hasNotify t) (idle : t.Idle)
    : NoWayBack t.state.history ↔ NeverLedBack t.state.history := by
  have init : PassageInv (World.start hasNotify).view :=
    ⟨throughout_nil, fun _ => ⟨rfl, rfl⟩, fun _ isOpen => nomatch isOpen⟩
  have onward := (keepsPassage.turnRule.reachable init reach idle).onward
  have dials := reach.dialsByAnswer idle
  have earlier {e : Event} {older : History} (part : e :: older <:+ t.state.history)
      : Throughout Event.DialsByAnswer (e :: older) :=
    fun e' older' part' => dials e' older' (part'.trans part)
  constructor
  · intro holds w address limit user password ssl light proxy answer m older opened node e part
      left answered last back
    obtain ⟨opened', node', answered', last', leads⟩ :=
      Onward.leadsBack (onward e older part) (earlier part) left
    cases answered.symm.trans answered'
    cases last.symm.trans last'
    exact holds.inits _ _ _ _ _ _ _ _ _ _ _ part left (leads.mpr back)
  · intro never
    have inits w address limit user password ssl light proxy answer m older
        (part : .asked (.lib (.init w address limit user password ssl light proxy)) answer m :: older
          <:+ t.state.history)
        (left : passage
          (.asked (.lib (.init w address limit user password ssl light proxy)) answer m :: older)
            = .left)
        : openDial w older ≠ some (address, proxy) := by
      obtain ⟨opened, node, answered, last, leads⟩ :=
        Onward.leadsBack (onward _ older part) (earlier part) left
      intro same
      exact never _ _ _ _ _ _ _ _ _ _ _ _ _ part left answered last (leads.mp same)
    refine ⟨fun c answer m older part left isOpen => ?_, inits, ?_, ?_⟩
    · exact (onward _ older part isOpen).routes left
    · intro w answer m older e part left
      have isOpen : m.wallet ≠ none := by
        intro none
        simp [e, passage, none] at left
      obtain ⟨node, trusted, dialled, before, rfl⟩ :=
        (onward e older part isOpen).onlines w rfl
      have part' := (List.suffix_cons _ _).trans ((List.suffix_cons _ _).trans part)
      have left' : passage (.asked (.lib (torInit node w)) dialled m :: before) = .left := by
        simp only [e, passage, if_neg isOpen] at left ⊢
        cases route : m.route <;> cases at_ : passage before <;> simp_all [Passage.next]
      have other := inits w _ _ _ _ _ _ _ dialled m before part' left'
      obtain ⟨node', dialsBy⟩ := dials _ before part'
      have again : (wallet2 w before).dial ≠ none := fun first =>
        isOpen (dialsBy.opens first).1
      obtain ⟨dial, opens⟩ := Option.ne_none_iff_exists'.mp fun none =>
        again (openDial_eq_none.mp none)
      rw [opens] at other
      simpa [torInit, Wallet2.after, Event.handle?, openDial, opens, eq_comm] using other
    · intro c answer m older w opened part held answered direct
      obtain ⟨opened', answered', _, stays⟩ :=
        (onward _ older part (by simp [held])).opened w held
      cases answered.symm.trans answered'
      exact stays direct

/-- A session that caught up in the clear and was moved to Tor. -/
theorem noWayBack_iff_neverLedBack_moved
    : World.movedToTor.mem.route = .tor
      ∧ (NoWayBack World.movedToTor.history ↔ NeverLedBack World.movedToTor.history) := by
  have reach : Reachable LibraryReturns true ⟨.pure (), World.movedToTor⟩ :=
    ((Reachable.withJob _ _).afterTurn Script.succeeding_returns).afterTurn
      Script.succeeding_returns
  exact ⟨by decide +kernel, noWayBack_iff_neverLedBack reach rfl⟩

/-- A built-in Tor that is still joining, and a node to catch up with. -/
def joiningNode : Json :=
  .obj
    [
      ("url", .str "http://node.onion:18081"), ("proxy", .str "tor"),
      ("catchUp", .obj [("url", .str "http://clear:18081")])
    ]

/-- The catch-up node itself, with a proxy of which only the scheme is given. -/
def leadingNode : Json :=
  .obj [("url", .str "http://clear:18081"), ("proxy", .str "socks5://")]

/-- The node module changes its answer after the first move. -/
def Script.leadingBack : Script := fun h c =>
  Script.succeeding true 2 (if (answers h).length < 2 then joiningNode else leadingNode) h c

/-- A wallet opened on the catch-up node, which waits for Tor after one tick and is moved by
the next. -/
def World.ledBack : World :=
  let job := .obj [("name", .str "w"), ("network", .str "stagenet")]
  (((World.withJob "open_wallet" job).afterTurn .leadingBack).afterTurn .leadingBack).afterTurn
    .leadingBack

theorem Script.leadingBack_returns : Script.leadingBack.Follows LibraryReturns := by
  intro h c m
  cases c <;> trivial

/-- The second move gives the wallet the dial arguments of its open again. -/
theorem empty_proxy_leads_back
    : Reachable LibraryReturns true ⟨.pure (), World.ledBack⟩
      ∧ ¬NoWayBack World.ledBack.history := by
  have reach : Reachable LibraryReturns true ⟨.pure (), World.ledBack⟩ :=
    (((Reachable.withJob _ _).afterTurn Script.leadingBack_returns).afterTurn
      Script.leadingBack_returns).afterTurn Script.leadingBack_returns
  refine ⟨reach, fun holds => ?_⟩
  have dials : ∃ m older,
      World.ledBack.history.drop 7
          = .asked (.lib (.init ⟨9⟩ "clear:18081" 0 "" "" false false "")) (.ok true) m :: older
        ∧ m.wallet = some ⟨9⟩ ∧ m.route = .waitingForTor ∧ passage older = .left
        ∧ openDial ⟨9⟩ older = some ("clear:18081", "") :=
    ⟨_, _, rfl, by decide +kernel, by decide +kernel, by decide +kernel, by decide +kernel⟩
  obtain ⟨m, older, here, held, _, left, opens⟩ := dials
  have part := List.drop_suffix 7 World.ledBack.history
  rw [here] at part
  refine holds.inits ⟨9⟩ _ _ _ _ _ _ "" _ m older part ?_ opens
  simp [passage, held, left, Passage.next]

end MoneroWalletCore.Runtime
