import MoneroWalletCore.Session.WaitingRoute
import MoneroWalletCore.Session.JobTurns

/-! wallet2's own refresh. It runs on an open wallet unless the session waits for Tor, and never
while wallet2 builds or relays a transaction or changes the password. The guard that pauses it
starts it again however its job is left, which only a session that does not wait is owed.
-/

namespace MoneroWalletCore.Runtime

open Program

-----------------------------------------------------------------------------------------
-- The refresh of a wallet object
-----------------------------------------------------------------------------------------

/-- What an event makes of the refresh of a wallet object. One just returned does not refresh. -/
def Event.refresh? (w : Wallet) (e : Event) : Option Bool :=
  if e.handle? = some w then some false
  else
    match e with
    | .asked (.lib (.startRefresh w')) _ _ => if w' = w then some true else none
    | .asked (.destructor (.startRefresh w')) _ _ => if w' = w then some true else none
    | .asked (.lib (.pauseRefresh w')) _ _ => if w' = w then some false else none
    | _ => none

/-- The refresh of a wallet object is on. -/
def refreshes (w : Wallet) (h : History) : Bool := (h.findSome? (Event.refresh? w)).getD false

@[simp] theorem refreshes_cons {w : Wallet} {e : Event} {h : History}
    : refreshes w (e :: h) = (e.refresh? w).getD (refreshes w h) := by
  cases found : e.refresh? w <;> simp [refreshes, found]

/-- What the last events say stands. -/
theorem refreshes_append {w : Wallet} {new h : History} (on : refreshes w new = true)
    : refreshes w (new ++ h) = true := by
  induction new with
  | nil => cases on
  | cons e older ih =>
      rw [refreshes_cons] at on
      rw [List.cons_append, refreshes_cons]
      cases found : e.refresh? w with
      | none =>
          rw [found] at on
          exact ih on
      | some here =>
          rw [found] at on
          exact on

/-- The refresh of the open wallet is on unless the session waits for Tor. -/
def FollowsRoute (m : Mem) (h : History) : Prop :=
  ∀ w, m.wallet = some w → (refreshes w h = true ↔ m.route ≠ .waitingForTor)

/-- A call that wallet2 is not to be refreshing in is made with the refresh off. -/
def Event.Paused (e : Event) (older : History) : Prop :=
  match e with
  | .asked (.lib c) _ m =>
      c.needsPause = true → ∀ w, m.wallet = some w → refreshes w older = false
  | _ => True

def PausesHeld (h : History) : Prop := Throughout Event.Paused h

/-- A password is changed while the session waits for Tor. -/
def ChangesWaiting (w w' : World) : Prop :=
  ∃ new ptr job, w'.history = new ++ w.history ∧ (ptr, job) ∈ jobsBegun new
    ∧ job.kind = "change_password" ∧ w.mem.wallet.isSome = true ∧ w.mem.route = .waitingForTor

-----------------------------------------------------------------------------------------
-- What is known between two actions
-----------------------------------------------------------------------------------------

/-- The pauses are held, and something is known of the open wallet, the route, and which objects
refresh. -/
def Known (Inv : Option Wallet → Route → (Wallet → Bool) → Prop) (v : View) : Prop :=
  PausesHeld v.history ∧ Inv v.mem.wallet v.mem.route (fun w => refreshes w v.history)

/-- The refresh follows the route, if it is due to. -/
def Following (due : Prop) (wallet : Option Wallet) (route : Route) (on : Wallet → Bool) : Prop :=
  due → ∀ w, wallet = some w → (on w = true ↔ route ≠ .waitingForTor)

/-- No wallet is open. -/
def NoneOpen (wallet : Option Wallet) (_ : Route) (_ : Wallet → Bool) : Prop := wallet = none

/-- No wallet is open, and an object does not refresh. -/
def Resting (w : Wallet) (wallet : Option Wallet) (_ : Route) (on : Wallet → Bool) : Prop :=
  wallet = none ∧ on w = false

/-- An object is about to be published on a route. -/
def Starting (w : Wallet) (to_ : Route) (wallet : Option Wallet) (_ : Route) (on : Wallet → Bool)
    : Prop :=
  wallet = none ∧ (on w = true ↔ to_ ≠ .waitingForTor)

/-- The open wallet does not refresh. -/
def PausedOn (w : Wallet) (at_ : Route) (wallet : Option Wallet) (route : Route)
    (on : Wallet → Bool) : Prop :=
  wallet = some w ∧ route = at_ ∧ on w = false

def Mem.SameRoute (m m' : Mem) : Prop := m'.wallet = m.wallet ∧ m'.route = m.route

/-- The calls that leave every refresh as it is, and need no pause. -/
def Call.rests : Call → Bool
  | .lib (.startRefresh _) | .lib (.pauseRefresh _) | .destructor _ => false
  | .lib c => !c.makes && !c.needsPause
  | _ => true

/-- The same with the calls that need a pause. -/
def Call.restsPaused : Call → Bool
  | .lib c => c.needsPause || (Call.lib c).rests
  | c => c.rests

abbrev AtRest : Op → Prop := Acting Mem.SameRoute Call.rests

abbrev AtRestPaused : Op → Prop := Acting Mem.SameRoute Call.restsPaused

/-- Any action that keeps the handle. -/
abbrev KeepingHandle : Op → Prop := Acting (fun m m' => m'.wallet = m.wallet) fun _ => true

instance : Plain AtRest where
  looks c plain := by
    cases c with
    | lib c => cases c <;> first | rfl | cases plain
    | _ => first | rfl | cases plain
  locks _ := trivial
  unlocks _ := trivial
  reads _ := ⟨rfl, rfl⟩
  labels _ _ _ := ⟨rfl, rfl⟩

instance : Looking AtRestPaused where
  looks c plain := by
    cases c with
    | lib c => cases c <;> first | rfl | cases plain
    | _ => first | rfl | cases plain
  locks _ := trivial
  unlocks _ := trivial
  reads _ := ⟨rfl, rfl⟩

instance : Telling KeepingHandle where
  asks _ _ := rfl
  locks _ := trivial
  unlocks _ := trivial
  reads _ := rfl
  labels _ _ _ := rfl
  registers _ _ := rfl
  drops _ _ := rfl
  notifies _ _ := rfl
  resets _ := rfl

theorem Call.restsPaused_refresh {c : Call} {answer : c.Answer} {m : Mem} {w : Wallet}
    (rests : c.restsPaused = true)
    : (Event.asked c answer m).refresh? w = none := by
  cases c with
  | lib c => cases c <;> first | rfl | cases rests
  | destructor c => cases rests
  | _ => rfl

theorem Call.rests_restsPaused {c : Call} (rests : c.rests = true) : c.restsPaused = true := by
  cases c with
  | lib c => simp [Call.restsPaused, rests]
  | _ => exact rests

theorem Call.rests_paused {c : Call} {answer : c.Answer} {m : Mem} {h : History}
    (rests : c.rests = true)
    : (Event.asked c answer m).Paused h := by
  cases c with
  | lib c =>
      intro needs
      cases c <;> cases needs <;> cases rests
  | _ => trivial

/-- A call is made as it should be where the open wallet does not refresh. -/
theorem Event.paused_of_off {c : Call} {answer : c.Answer} {m : Mem} {h : History}
    (off : ∀ w, m.wallet = some w → refreshes w h = false)
    : (Event.asked c answer m).Paused h := by
  cases c with
  | lib c => exact fun _ => off
  | _ => trivial

variable {Inv : Option Wallet → Route → (Wallet → Bool) → Prop} {v : View} {w : Wallet}
  {due : Prop} {rule : Surroundings}

theorem Known.push {e : Event} (known : Known Inv v) (paused : e.Paused v.history)
    (none : ∀ w, e.refresh? w = none)
    : Known Inv (v.push e) := by
  refine ⟨throughout_cons.mpr ⟨paused, known.1⟩, ?_⟩
  simp only [View.push_history, refreshes_cons, none, Option.getD_none]
  exact known.2

theorem Known.asks {c : Call} {answer : c.Answer} (known : Known Inv v) (rests : c.rests = true)
    : Known Inv (v.push (.asked c answer v.mem)) :=
  known.push (Call.rests_paused rests)
    fun _ => Call.restsPaused_refresh (Call.rests_restsPaused rests)

theorem keepsKnown : ActionsKeep rule AtRest (Known Inv) := by
  apply ActionsKeep.acting
  · intro v m assigned known
    obtain ⟨o, wallet, route⟩ := assigned
    refine ⟨known.1, ?_⟩
    have same : Inv m.wallet m.route (fun w => refreshes w v.history) := by
      rw [wallet, route]
      exact known.2
    exact same
  · intro v c answer rests _ known
    exact known.asks rests

theorem keepsPausedOn {at_ : Route} : ActionsKeep rule AtRestPaused (Known (PausedOn w at_)) := by
  apply ActionsKeep.acting
  · intro v m assigned known
    obtain ⟨o, wallet, route⟩ := assigned
    obtain ⟨paused, isOpen, here, off⟩ := known
    exact ⟨paused, wallet.trans isOpen, route.trans here, off⟩
  · intro v c answer rests _ known
    refine known.push (Event.paused_of_off fun w' isOpen => ?_) fun _ =>
      Call.restsPaused_refresh rests
    cases Option.some.inj (known.2.1.symm.trans isOpen)
    exact known.2.2.2

/-- With no wallet open nothing needs a pause. -/
theorem keepsNoneOpen : ActionsKeep rule KeepingHandle (Known NoneOpen) := by
  apply ActionsKeep.acting
  · intro v m assigned known
    obtain ⟨o, wallet⟩ := assigned
    exact ⟨known.1, wallet.trans known.2⟩
  · intro v c answer _ _ known
    refine ⟨throughout_cons.mpr ⟨Event.paused_of_off fun w isOpen => ?_, known.1⟩, known.2⟩
    cases (show v.mem.wallet = none from known.2).symm.trans isOpen

theorem Known.following (known : Known NoneOpen v) : Known (Following due) v :=
  ⟨known.1, fun _ _ isOpen => nomatch (show v.mem.wallet = none from known.2).symm.trans isOpen⟩

-----------------------------------------------------------------------------------------
-- Opening
-----------------------------------------------------------------------------------------

theorem makeWallet_rests {kind : String} {p : Json} {password path : String} {nettype : Int}
    : (makeWallet kind p password path nettype).wp (View.act rule)
        (fun w? v' => ∀ w, w? = some w → refreshes w v'.history = false) (fun _ _ => True) v := by
  simp +contextual [makeWallet, Event.handle?, Event.refresh?]

theorem obtainWallet_rests {kind : String} {p : Json} {o : OpenParams} {path : String}
    {nettype : Int}
    : (obtainWallet kind p o path nettype).wp (View.act rule)
        (fun ended v' => ∀ w, ended = .go (some w) → refreshes w v'.history = false)
        (fun _ _ => True) v := by
  simp [obtainWallet, refuseOpen]
  exact ⟨fun _ _ => makeWallet_rests, fun _ _ => makeWallet_rests⟩

/-- An object that does not refresh is kept so by what sets it up. -/
theorem Worker.Stays.rests {α : Type} {p : Worker α} (stays : p.Stays AtRest)
    (known : Known (Resting w) v)
    : p.wp (View.act rule) (fun _ => Known (Resting w)) (fun _ => Known NoneOpen) v := by
  apply wp_mono (keepsKnown.body stays v known)
  · exact fun _ _ kept => kept
  · exact fun _ _ kept => ⟨kept.1, kept.2.1⟩

theorem startWallet_starts {plan : Plan} (known : Known (Resting w) v)
    : (startWallet plan w).wp (View.act rule) (fun _ => Known (Starting w (routeOf plan.node)))
        (fun _ => Known NoneOpen) v := by
  have none : v.mem.wallet = none := known.2.1
  apply wp_mono (wp_and (keepsNoneOpen.body startWallet_stays v ⟨known.1, none⟩) _)
  · exact fun _ v' both => ⟨both.1.1, both.1.2, both.2⟩
  · exact fun _ v' both => both.1
  · exact fun _ v' => True
  · have off : refreshes w v.history = false := known.2.2
    simp +contextual [startWallet, wp_when, Event.refresh?, Event.handle?, off]

theorem publishWallet_follows {o : OpenParams} {plan : Plan} {path addr : String}
    (known : Known (Starting w (routeOf plan.node)) v)
    : (publishWallet o plan path addr w).wp (View.act rule) (fun _ => Known (Following due))
        (fun _ => Known (Following due)) v := by
  simp only [publishWallet, bind_def, wp_bind, Worker.wp_locked, Worker.wp_update, Worker.wp_now]
  intro _ now _ _
  have announces : (announceWallet o path addr w).Stays AtRest :=
    announceWallet_stays_of fun _ _ => rfl
  apply keepsKnown.body announces
  refine ⟨throughout_cons.mpr ⟨trivial, known.1⟩, fun _ w' isOpen => ?_⟩
  cases isOpen
  exact known.2.2

theorem Known.resting (known : Known (Resting w) v) : Known (Following due) v :=
  Known.following ⟨known.1, known.2.1⟩

theorem configureWallet_follows {kind : String} {o : OpenParams} {plan : Plan} {path : String}
    (known : Known (Resting w) v)
    : (configureWallet kind o plan path w).wp (View.act rule) (fun _ => Known (Following due))
        (fun _ => Known (Following due)) v := by
  have inits : (initWallet kind o.network plan w).Stays AtRest :=
    .bind (.when (.look rfl)) fun _ => .bind (.call rfl) fun _ =>
      .ite .value (.bind (.look rfl) fun _ => .bind (.look rfl) fun _ => refuseOpen_stays)
  have waits : (waitOffline plan w).Stays AtRest := .when (.call rfl)
  have trusts : (trustDaemon plan w).Stays AtRest :=
    .ite (.bind .orThrow fun _ => .call rfl) (.bind .value fun _ => .call rfl)
  rw [configureWallet, wp_andThen]
  apply wp_mono (inits.rests known)
  · intro ended v₁ known₁
    cases ended with
    | leave out => exact known₁.resting
    | go done =>
        simp only [attachWallet, bind_def, wp_bind, wp_andThen]
        apply wp_mono (waits.rests known₁)
        · intro _ v₂ known₂
          apply wp_mono (trusts.rests known₂)
          · intro _ v₃ known₃
            apply wp_mono (Worker.Stays.rests connectDaemon_stays known₃)
            · intro ended v₄ known₄
              cases ended with
              | leave out => exact known₄.resting
              | go done =>
                  apply wp_mono (startWallet_starts known₄)
                  · exact fun _ _ known₅ => publishWallet_follows known₅
                  · exact fun _ _ left => left.following
            · exact fun _ _ left => left.following
          · exact fun _ _ left => left.following
        · exact fun _ _ left => left.following
  · exact fun _ _ left => left.following

theorem checkWallet_follows {kind : String} {o : OpenParams} {plan : Plan} {path : String}
    {w? : Option Wallet} (none : Known NoneOpen v)
    (off : ∀ w, w? = some w → refreshes w v.history = false)
    : (andThen (checkWallet o.network (nettypeOf o.network) w?) fun w =>
          configureWallet kind o plan path w).wp (View.act rule)
        (fun _ => Known (Following due)) (fun _ => Known (Following due)) v := by
  rw [wp_andThen]
  cases w? with
  | none =>
      apply wp_mono (wp_and (keepsNoneOpen.body checkWallet_stays v none) (checkWallet_checks v))
      · intro ended v' both
        cases ended with
        | leave out => exact both.1.following
        | go w => cases (both.2 w rfl).1
      · exact fun _ _ both => both.1.following
  | some w =>
      have known : Known (Resting w) v := ⟨none.1, none.2, off w rfl⟩
      apply wp_mono (wp_and (Worker.Stays.rests checkWallet_stays known) (checkWallet_checks v))
      · intro ended v' both
        cases ended with
        | leave out => exact both.1.resting
        | go w' =>
            cases (both.2 w' rfl).1
            exact configureWallet_follows both.1
      · exact fun _ _ both => both.1.following

theorem openWith_follows {kind : String} {p : Json} {o : OpenParams} {plan : Plan}
    (known : Known (Following due) v)
    : (openWith kind p o plan).wp (View.act rule) (fun _ => Known (Following due))
        (fun _ => Known (Following due)) v := by
  simp only [openWith, bind_def, wp_bind, wp_ite, Worker.wp_locked, Worker.wp_read]
  refine fun others => ⟨fun _ => known, fun closed => ?_⟩
  have none : Known NoneOpen v := ⟨known.1, by simpa [NoneOpen] using closed⟩
  have keeps {α : Type} {p : Worker α} (stays : p.Stays KeepingHandle) {v : View}
      (none : Known NoneOpen v)
      : p.wp (View.act rule) (fun _ => Known NoneOpen) (fun _ => Known (Following due)) v :=
    wp_mono (keepsNoneOpen.body stays v none) (fun _ _ kept => kept) fun _ _ kept => kept.following
  apply wp_mono (keeps .setState none)
  · intro _ v₁ none₁ others
    apply wp_mono (keeps .lib none₁)
    · intro _ v₂ none₂
      rw [wp_andThen]
      apply wp_mono (wp_and (keeps obtainWallet_stays none₂) obtainWallet_rests)
      · intro ended v₃ both
        obtain ⟨none₃, off⟩ := both
        cases ended with
        | leave out => exact none₃.following
        | go w? =>
            apply checkWallet_follows none₃
            intro w same
            exact off w (congrArg Stage.go same)
      · exact fun _ _ both => both.1
    · exact fun _ _ left => left
  · exact fun _ _ left => left

theorem doOpenLike_follows {kind : String} {p : Json}
    : (doOpenLike kind p).Keeps rule (Known (Following due)) := by
  intro v known
  simp only [doOpenLike, bind_def, wp_bind, Worker.wp_orThrow, wp_ite, Worker.wp_resolve]
  refine ⟨fun o _ => ⟨fun _ => known, fun _ => ⟨fun _ => known, fun _ => ?_⟩⟩, fun _ _ => known⟩
  have asked {answer : Except Exn Json}
      : Known (Following due) (v.push (.asked (.resolve o.network) answer v.mem)) :=
    known.push trivial fun _ => rfl
  refine ⟨fun node _ => ⟨fun policy _ => ?_, fun _ _ => asked⟩, fun _ _ => asked⟩
  cases policy with
  | leave out => exact asked
  | go plan => exact openWith_follows asked

theorem doClose_follows : doClose.Keeps rule (Known (Following due)) := by
  apply doClose_keeps_by (keepsKnown.stays .setState)
  · exact fun v m known _ => ⟨known.1, fun _ _ isOpen => nomatch isOpen⟩
  · intro v op answer v' forgets step both
    have keeping : KeepingHandle op := by
      cases op with
      | update f => exact fun m => (forgets m).1
      | ask c => rfl
      | _ => exact forgets
    have none : Known NoneOpen v' :=
      keepsNoneOpen v op answer v' keeping step ⟨both.1.1, both.2⟩
    exact ⟨none.following, none.2⟩

-----------------------------------------------------------------------------------------
-- The guard
-----------------------------------------------------------------------------------------

/-- The destructor starts the refresh again, which a session is owed that does not wait. -/
theorem Known.resumes {at_ : Route} {answer : Unit} (known : Known (PausedOn w at_) v)
    (owed : due → at_ ≠ .waitingForTor)
    : Known (Following due) (v.push (.asked (.destructor (.startRefresh w)) answer v.mem)) := by
  obtain ⟨paused, isOpen, here, _⟩ := known
  refine ⟨throughout_cons.mpr ⟨trivial, paused⟩, fun isDue w' isOpen' => ?_⟩
  cases Option.some.inj (isOpen.symm.trans isOpen')
  have off : v.mem.route ≠ .waitingForTor := fun waits => owed isDue (here.symm.trans waits)
  simp [Event.refresh?, Event.handle?, off]

theorem Known.pauses {answer : Except Exn Unit} (known : Known (Following due) v)
    (isOpen : v.mem.wallet = some w)
    : Known (PausedOn w v.mem.route) (v.push (.asked (.lib (.pauseRefresh w)) answer v.mem)) := by
  refine ⟨throughout_cons.mpr ⟨nofun, known.1⟩, isOpen, rfl, ?_⟩
  simp [Event.refresh?, Event.handle?]

theorem sending_follows {body : Wallet → Worker Json} (stays : ∀ w, (body w).Stays AtRestPaused)
    : (sending body).Keeps LibraryReturns (Known (Following due)) := by
  intro v known
  refine wp_sending (fun _ _ => known) (fun _ _ thrown => thrown.elim) ?_
  intro w isOpen route _
  have owed : due → v.mem.route ≠ .waitingForTor := by
    intro _ waits
    rcases route with direct | tor
    · cases waits.symm.trans direct
    · cases waits.symm.trans tor
  apply wp_mono (keepsPausedOn.body (stays w) _ (known.pauses isOpen))
  · exact fun _ _ paused _ => paused.resumes owed
  · exact fun _ _ paused _ => paused.resumes owed

theorem AtRestPaused.spends (c : Lib) (needs : c.needsPause = true)
    : AtRestPaused (.ask (.lib c)) := by
  simp [Acting, Call.restsPaused, needs]

theorem doChangePassword_follows {p : Json} (known : Known (Following due) v)
    (owed : due → v.mem.wallet.isSome = true → v.mem.route ≠ .waitingForTor)
    : (doChangePassword p).wp (View.act LibraryReturns) (fun _ => Known (Following due))
        (fun _ => Known (Following due)) v := by
  simp only [doChangePassword, bind_def, wp_bind, Worker.wp_locked, Worker.wp_read]
  intro others
  cases isOpen : (v.mem.under others).wallet with
  | none => exact known
  | some w =>
      have holding : v.mem.wallet = some w := isOpen
      simp only [refreshPaused, bind_def, wp_bind, wp_ensure, Worker.wp_lib,
        Worker.wp_resumeRefresh]
      refine ⟨fun _ _ => ?_, fun _ thrown => thrown.elim⟩
      have owed' : due → v.mem.route ≠ .waitingForTor := fun isDue => owed isDue (by rw [holding]; rfl)
      apply wp_mono (keepsPausedOn.body (replacePassword_stays AtRestPaused.spends) _
        (known.pauses holding))
      · exact fun _ _ paused _ _ => paused.resumes owed'
      · exact fun _ _ paused _ _ => paused.resumes owed'

-----------------------------------------------------------------------------------------
-- Moving
-----------------------------------------------------------------------------------------

/-- The open wallet refreshes if it has been dialled over Tor. -/
def DialledTor (w : Wallet) (onTor : Bool) (wallet : Option Wallet) (_ : Route) (on : Wallet → Bool)
    : Prop :=
  wallet = some w ∧ on w = onTor

theorem goOffline_pauses {abandon : Bool} {node : Json} (known : Known (Following due) v)
    : (goOffline abandon node).wp (View.act LibraryReturns)
        (fun stopped v' =>
          if stopped then ∃ w, Known (PausedOn w v.mem.route) v' else Known (Following due) v')
        (fun _ => Known (Following due)) v := by
  simp only [goOffline, bind_def, wp_bind, Worker.wp_locked, Worker.wp_read]
  intro others
  cases isOpen : (v.mem.under others).wallet with
  | none => exact known
  | some w =>
      have drops : (Program.when abandon (dropCatchUp node)).Within AtRest (fun _ => True)
          (fun _ => False) := by
        refine within_when.mpr ⟨fun _ => ?_, fun _ => trivial⟩
        unfold dropCatchUp
        split
        · simp [Acting, Call.rests]
        · trivial
      have paused {answer : Except Exn Unit} := @Known.pauses v w due answer known isOpen
      simp only [wp_bind, Worker.wp_lib]
      refine ⟨fun _ _ => ⟨fun _ _ => ?_, fun _ thrown => thrown.elim⟩, fun _ thrown => thrown.elim⟩
      apply wp_mono (drops.keeps keepsKnown (paused.asks rfl))
      · intro _ v' dropped
        refine ⟨fun _ _ => ⟨fun _ _ => ?_, fun _ thrown => thrown.elim⟩,
          fun _ thrown => thrown.elim⟩
        exact ⟨w, (dropped.2.asks rfl).asks rfl⟩
      · exact fun _ _ impossible => impossible.1.elim

/-- With the init over Tor done the wallet refreshes; where it failed there is an error. -/
theorem goOnline_starts {ok : Bool} {at_ : Route} (known : Known (PausedOn w at_) v)
    : (goOnline w ok).wp (View.act LibraryReturns)
        (fun dialled v' => ∃ error, dialled = some error ∧ (error = "" ↔ ok = true)
          ∧ Known (DialledTor w ok) v')
        (fun _ _ => False) v := by
  cases ok with
  | false =>
      have dialled : Known (DialledTor w false) v := ⟨known.1, known.2.1, known.2.2.2⟩
      simp only [goOnline, Bool.false_eq_true, if_false, bind_def, wp_bind, Worker.wp_lib]
      refine ⟨fun e _ => ?_, fun _ thrown => thrown.elim⟩
      exact ⟨_, rfl, by simp [String.ext_iff], dialled.asks rfl⟩
  | true =>
      simp only [goOnline, if_true, bind_def, wp_bind, Worker.wp_lib]
      have distrusted := @Known.asks _ _ (.lib (.setTrustedDaemon w false)) (.ok ()) known rfl
      have online := @Known.asks _ _ (.lib (.setOffline w false)) (.ok ()) distrusted rfl
      have timed := @Known.asks _ _ (.lib (.setAutoRefreshInterval w 2000)) (.ok ()) online rfl
      refine ⟨fun _ _ => ⟨fun _ _ => ⟨fun _ _ => ⟨fun _ _ => ⟨fun _ _ => ?_, ?_⟩, ?_⟩, ?_⟩, ?_⟩, ?_⟩
      · refine ⟨"", rfl, by simp, Known.asks ?_ rfl⟩
        refine ⟨throughout_cons.mpr ⟨fun starts => (by cases starts), timed.1⟩, timed.2.1, ?_⟩
        simp [Event.refresh?, Event.handle?]
      all_goals exact fun _ thrown => thrown.elim

/-- The wallet is dialled over Tor and refreshes, or does not refresh. -/
theorem dialTor_starts {node : Json} {at_ : Route} (known : Known (PausedOn w at_) v)
    : (dialTor node).wp (View.act LibraryReturns)
        (fun dialled v' => ∃ error, dialled = some error
          ∧ Known (DialledTor w (torReady node && error = "")) v')
        (fun _ _ => False) v := by
  simp only [dialTor, bind_def, wp_bind, Worker.wp_locked, Worker.wp_read]
  intro others
  have isOpen : (v.mem.under others).wallet = some w := known.2.1
  simp only [isOpen, wp_ite, wp_bind, Worker.wp_lib]
  refine ⟨fun ready => ⟨fun ok _ => ?_, fun _ thrown => thrown.elim⟩, fun unready => ?_⟩
  · apply wp_mono (goOnline_starts (known.asks rfl))
    · intro dialled v' ended
      obtain ⟨error, same, none, dialledTor⟩ := ended
      refine ⟨error, same, ?_⟩
      have onTor : (torReady node && decide (error = "")) = ok := by
        rw [ready, Bool.true_and, Bool.eq_iff_iff, decide_eq_true_iff, none]
      rwa [onTor]
    · exact fun _ _ impossible => impossible
  · refine ⟨"", rfl, known.1, known.2.1, ?_⟩
    rw [Bool.eq_false_iff.mpr unready]
    exact known.2.2.2

/-- The section that records the move puts the session where its wallet is. -/
theorem recordMove_follows {node : Json} {error : String}
    (known : Known (DialledTor w (torReady node && error = "")) v)
    : (recordMove node error).wp (View.act rule) (fun _ => Known (Following due))
        (fun _ => Known (Following due)) v := by
  simp only [recordMove, bind_def, wp_bind, Worker.wp_now, Worker.wp_update]
  intro now _ others
  apply keepsKnown.stays Worker.Stays.setState
  refine ⟨throughout_cons.mpr ⟨trivial, known.1⟩, fun _ w' isOpen => ?_⟩
  have held : v.mem.wallet = some w := known.2.1
  cases Option.some.inj (held.symm.trans isOpen)
  have on : refreshes w v.history = (torReady node && error = "") := known.2.2
  change refreshes w v.history = true ↔ (moved node error now (v.mem.under others)).route ≠ _
  rw [on]
  unfold moved
  cases torReady node && error = "" <;> simp

theorem moveWith_follows {abandon : Bool} {node : Json} {from_ : Route}
    : (moveWith abandon node from_).Keeps LibraryReturns (Known (Following due)) := by
  intro v known
  simp only [moveWith, wp_ite, bind_def, wp_bind]
  refine ⟨fun _ => known, fun _ => ?_⟩
  apply wp_mono (goOffline_pauses known)
  · intro stopped v₁ ended
    cases stopped with
    | false => exact ⟨fun _ => ended, fun stopped => absurd rfl stopped⟩
    | true =>
        obtain ⟨w, paused⟩ := ended
        refine ⟨fun going => absurd going (by decide), fun _ => ?_⟩
        apply wp_mono (dialTor_starts paused)
        · rintro _ v₂ ⟨error, rfl, dialled⟩
          exact recordMove_follows dialled
        · exact fun _ _ impossible => impossible.elim
  · exact fun _ _ left => left

theorem moveToTor_follows {abandon : Bool} {resolved : Option Json}
    : (moveToTor abandon resolved).Keeps LibraryReturns (Known (Following due)) := by
  refine (keepsKnown.stays .read).bind fun m => ?_
  cases resolved with
  | some node => exact moveWith_follows
  | none =>
      have asks : (Worker.resolve m.network).Stays AtRest :=
        Worker.within_resolve.mpr ⟨rfl, fun _ => trivial, fun _ => trivial⟩
      exact (keepsKnown.stays asks).bind fun node => moveWith_follows

/-- A tick keeps the refresh where the route has it. -/
theorem tick_follows : tick.Keeps LibraryReturns (Known (Following due)) := by
  have resets : resetLocksOnce.Stays AtRest :=
    resetLocksOnce_stays_of (fun _ _ => rfl) fun _ => ⟨rfl, rfl⟩
  have times : Worker.now.Stays AtRest := ⟨rfl, fun _ => trivial⟩
  refine (keepsKnown.stays resets).bind fun _ => (keepsKnown.stays observeWallet_stays).bind ?_
  intro seen
  cases seen with
  | none => exact fun _ known => known
  | some seen =>
      have ticks (now : Nat) : (Worker.update (ticked seen.2 now)).Stays AtRest := by
        refine .update fun m => ⟨?_, ?_⟩
        · exact congrArg Session.wallet (ticked_session m).1
        · exact congrArg Session.route (ticked_session m).1
      have asks (network : String) : (Worker.resolve network).Stays AtRest :=
        Worker.within_resolve.mpr ⟨rfl, fun _ => trivial, fun _ => trivial⟩
      refine (keepsKnown.stays times).bind fun now => (keepsKnown.stays (ticks now)).bind ?_
      refine fun m => .bind ?_ fun _ => keepsKnown.stays followSync_stays
      intro v known
      simp only [followRoute, reask, wp_ite, bind_def, wp_bind, wp_when]
      refine ⟨fun _ => moveToTor_follows v known, fun _ => ⟨fun _ => ?_, fun _ => known⟩⟩
      apply wp_mono (keepsKnown.stays (asks _) v known)
      · exact fun node v' known' => ⟨fun _ => moveToTor_follows v' known', fun _ => known'⟩
      · exact fun _ _ left => left

-----------------------------------------------------------------------------------------
-- Jobs
-----------------------------------------------------------------------------------------

theorem jobsBegun_append {new h : History} : jobsBegun (new ++ h) = jobsBegun new ++ jobsBegun h :=
  List.filterMap_append

theorem Reporting.atRest {op : Op} (reporting : Reporting op) : AtRest op := by
  cases op with
  | update f =>
      intro m
      have same := (reporting m).1
      exact ⟨congrArg Session.wallet same, congrArg Session.route same⟩
  | ask c => cases c <;> first | rfl | cases reporting
  | _ => exact reporting

theorem dispatch_follows {job : Job} (known : Known (Following due) v)
    (owed : due → job.kind = "change_password" → v.mem.wallet.isSome = true →
      v.mem.route ≠ .waitingForTor)
    : (dispatch job).wp (View.act LibraryReturns) (fun _ => Known (Following due))
        (fun _ => Known (Following due)) v := by
  have drops (handle : String) : AtRest (.update (dropped handle)) := fun _ => ⟨rfl, rfl⟩
  simp only [dispatch, wp_ite]
  refine ⟨fun _ => doOpenLike_follows v known, fun _ => ?_⟩
  refine ⟨fun _ => doClose_follows v known, fun _ => ?_⟩
  refine ⟨fun _ => keepsKnown.stays doRescan_stays v known, fun _ => ?_⟩
  refine ⟨fun _ => sending_follows (fun _ => ?_) v known, fun _ => ?_⟩
  · exact buildTx_stays AtRestPaused.spends fun _ _ => ⟨rfl, rfl⟩
  refine ⟨fun _ => sending_follows (fun _ => ?_) v known, fun _ => ?_⟩
  · exact commitTx_stays AtRestPaused.spends fun _ _ => ⟨rfl, rfl⟩
  refine ⟨fun _ => keepsKnown.stays (doDispose_stays drops) v known, fun _ => ?_⟩
  exact ⟨fun kind => doChangePassword_follows known fun isDue => owed isDue kind, fun _ => known⟩

/-- The run of a job keeps the refresh where the route has it, unless it changes a password while
the session waits. -/
theorem run_follows {ptr : JobPtr} {job : Job} (known : Known (Following due) v)
    (owed : due → job.kind = "change_password" → v.mem.wallet.isSome = true →
      v.mem.route ≠ .waitingForTor)
    : (run ptr job).wp (View.act LibraryReturns) (fun _ => Known (Following due))
        (fun _ => Known (Following due)) v := by
  let Held (v' : View) : Prop := v'.mem.wallet = v.mem.wallet ∧ v'.mem.route = v.mem.route
  have reports : ActionsKeep LibraryReturns Reporting (Known (Following due)) :=
    keepsKnown.mono fun _ => Reporting.atRest
  have holds : ActionsKeep LibraryReturns Reporting Held := by
    apply ActionsKeep.acting
    · intro v' m assigned held
      obtain ⟨o, same, _⟩ := assigned
      exact ⟨(congrArg Session.wallet same).trans held.1, (congrArg Session.route same).trans held.2⟩
    · exact fun _ _ _ _ _ held => held
  refine run_settles (reports.and holds) reports (fun v' ready => ?_) ⟨known, rfl, rfl⟩
  obtain ⟨known', wallet, route⟩ := ready
  have owed' : due → job.kind = "change_password" → v'.mem.wallet.isSome = true →
      v'.mem.route ≠ .waitingForTor := by
    rw [wallet, route]
    exact owed
  apply wp_mono (dispatch_follows known' owed')
  · exact fun _ _ kept => kept.push trivial fun _ => rfl
  · exact fun _ _ kept => kept.push trivial fun _ => rfl

/-- A turn keeps the refresh where the route has it, unless its job changes a password while the
session waits. -/
theorem World.Turn.follows {w w' : World} (known : Known (Following due) w.view)
    (whole : World.Turn LibraryReturns w w') (calm : due → ¬ChangesWaiting w w')
    : Known (Following due) w'.view := by
  let Owed (job : Job) : Prop := due → job.kind = "change_password" →
    w.mem.wallet.isSome = true → w.mem.route ≠ .waitingForTor
  have ends : turn.wp (View.act LibraryReturns)
      (fun _ v' => (∀ ptr job, jobsBegun v'.history = (ptr, job) :: jobsBegun w.history → Owed job) →
        Known (Following due) v')
      (fun _ _ => True) w.view := by
    refine wp_bind.mpr (wp_dequeue.mpr fun front => ?_)
    rw [wp_tryCatch]
    cases front with
    | none =>
        apply wp_mono (tick_follows w.view known)
        · exact fun _ _ kept _ => kept
        · exact fun _ _ kept _ => kept
    | some front =>
        by_cases owed : Owed front.2
        · apply wp_mono (@run_follows (w.view.push (.began front.1 front.2)) due front.1 front.2
            (known.push trivial fun _ => rfl) owed)
          · exact fun _ _ kept _ => kept
          · exact fun _ _ kept _ => kept
        · apply wp_mono (run_begins (w.view.push (.began front.1 front.2)))
          · exact fun _ _ same all => absurd (all _ _ same) owed
          · exact fun _ _ same all => absurd (all _ _ same) owed
  refine whole.runs.returned ends fun ptr job began isDue kind isOpen waits => ?_
  obtain ⟨new, split, _⟩ := runs_anywhere whole.runs
  have split : w'.history = new ++ w.history := split
  refine calm isDue ⟨new, ptr, job, split, ?_, kind, isOpen, waits⟩
  have same : jobsBegun new ++ jobsBegun w.history = [(ptr, job)] ++ jobsBegun w.history := by
    rw [← jobsBegun_append, ← split]
    exact began
  rw [List.append_cancel_right same]
  exact List.mem_singleton.mpr rfl

/-- The open wallet of a session that waits refreshes, or is not known to. -/
def Waiting (w : Wallet) (known : Prop) (wallet : Option Wallet) (route : Route)
    (on : Wallet → Bool) : Prop :=
  wallet = some w ∧ route = .waitingForTor ∧ (known → on w = true)

theorem doChangePassword_strays {p : Json} (known : Known (Waiting w False) v)
    : (doChangePassword p).wp (View.act LibraryReturns) (fun _ => Known (Waiting w True))
        (fun _ => Known (Waiting w True)) v := by
  simp only [doChangePassword, bind_def, wp_bind, Worker.wp_locked, Worker.wp_read]
  intro others
  have isOpen : v.mem.wallet = some w := known.2.1
  have waits : v.mem.route = .waitingForTor := known.2.2.1
  have found : (v.mem.under others).wallet = some w := isOpen
  have following : Known (Following False) v := ⟨known.1, False.elim⟩
  have resumes {v' : View} (paused : Known (PausedOn w v.mem.route) v')
      : Known (Waiting w True) (v'.push (.asked (.destructor (.startRefresh w)) () v'.mem)) := by
    refine ⟨throughout_cons.mpr ⟨trivial, paused.1⟩, paused.2.1, paused.2.2.1.trans waits, ?_⟩
    simp [Event.refresh?, Event.handle?]
  simp only [found, refreshPaused, bind_def, wp_bind, wp_ensure, Worker.wp_lib,
    Worker.wp_resumeRefresh]
  refine ⟨fun _ _ => ?_, fun _ thrown => thrown.elim⟩
  apply wp_mono (keepsPausedOn.body (replacePassword_stays AtRestPaused.spends) _
    (following.pauses isOpen))
  · exact fun _ _ paused _ _ => resumes paused
  · exact fun _ _ paused _ _ => resumes paused

/-- A password that is changed while the session waits leaves the refresh on. -/
theorem World.Turn.strays {w w' : World} (whole : World.Turn LibraryReturns w w')
    (changes : ChangesWaiting w w')
    : ¬FollowsRoute w'.mem w'.history := by
  obtain ⟨new, ptr, job, split, began, kind, isSome, waits⟩ := changes
  obtain ⟨wallet, isOpen⟩ := Option.isSome_iff_exists.mp isSome
  have changed : dispatch job = doChangePassword job.params := by
    simp [dispatch, kind, openKinds]
  have ends : (run ptr job).wp (View.act LibraryReturns) (fun _ => Known (Waiting wallet True))
      (fun _ => Known (Waiting wallet True)) (View.at w.mem [.began ptr job]) := by
    have reports {known : Prop}
        : ActionsKeep LibraryReturns Reporting (Known (Waiting wallet known)) :=
      keepsKnown.mono fun _ => Reporting.atRest
    have starts : Known (Waiting wallet False) (View.at w.mem [.began ptr job]) := by
      refine ⟨?_, isOpen, waits, False.elim⟩
      exact throughout_cons.mpr ⟨trivial, throughout_nil⟩
    refine run_settles (@reports False) reports (fun v' ready => ?_) starts
    rw [Settles, changed]
    apply wp_mono (doChangePassword_strays ready)
    · exact fun _ _ kept => kept.push trivial fun _ => rfl
    · exact fun _ _ kept => kept.push trivial fun _ => rfl
  obtain ⟨_, stillOpen, stillWaits, on⟩ := whole.job split began ends
  intro follows
  have refreshing : refreshes wallet w'.history = true := by
    rw [split]
    exact refreshes_append (on trivial)
  exact (follows wallet stillOpen).mp refreshing stillWaits

-----------------------------------------------------------------------------------------
-- In every run
-----------------------------------------------------------------------------------------

/-- A run in which no password is changed while the session waits, between two turns. -/
abbrev World.Unstrayed (hasNotify : Bool) (w : World) : Prop :=
  Thread.Turns (World.act LibraryReturns) World.Other turn (fun w w' => ¬ChangesWaiting w w')
    (World.start hasNotify) w

theorem known_other {w w' : World} (step : World.Other w w') (known : Known Inv w.view)
    : Known Inv w'.view := by
  cases step with
  | _ => exact known

/-- Between two turns of such a run. Induction on its steps. -/
theorem World.Unstrayed.known {hasNotify : Bool} {w : World} (run : World.Unstrayed hasNotify w)
    : Known (Following True) w.view := by
  induction run with
  | start => exact ⟨throughout_nil, fun _ _ isOpen => nomatch isOpen⟩
  | other _ step ih => exact known_other step ih
  | whole _ whole calm ih => exact World.Turn.follows ih whole fun _ => calm

/-- In any run nothing is due, but the pauses are held. -/
theorem Reachable.pausesHeld {hasNotify : Bool} {t : System}
    (reach : Reachable LibraryReturns hasNotify t)
    : PausesHeld t.state.history := by
  obtain ⟨w, completed, part⟩ := reach.completed (@Script.succeeding_returns true 0 .null)
  have turns := Thread.Reach.turns completed
  have known : Known (Following False) w.view := by
    clear completed part
    induction turns with
    | start => exact ⟨throughout_nil, False.elim⟩
    | other _ step ih => exact known_other step ih
    | whole _ whole _ ih => exact World.Turn.follows ih whole False.elim
  exact fun e older here => known.1 e older (here.trans part)

/-- In every run the refresh is off whenever a call needs it to be. In a run in which no password
is changed while the session waits, it is on between two turns exactly when the session does not
wait, and the next turn leaves that so exactly when it changes none either. -/
theorem refresh_follows_route {hasNotify : Bool} {w : World} (run : World.Unstrayed hasNotify w)
    : FollowsRoute w.mem w.history
      ∧ (∀ w', World.Turn LibraryReturns w w' →
        (FollowsRoute w'.mem w'.history ↔ ¬ChangesWaiting w w'))
      ∧ ∀ t, Reachable LibraryReturns hasNotify t → PausesHeld t.state.history := by
  refine ⟨run.known.2 trivial, fun w' whole => ⟨?_, ?_⟩, fun t reach => reach.pausesHeld⟩
  · exact fun follows changes => whole.strays changes follows
  · exact fun calm => (whole.follows run.known fun _ => calm).2 trivial

/-- It is opened, and waits: nothing has started its refresh. -/
theorem refresh_follows_route_opened
    : FollowsRoute World.openedWaiting.mem World.openedWaiting.history
      ∧ PausesHeld World.openedWaiting.history := by
  have run : World.Unstrayed true World.openedWaiting := by
    refine .whole (.other (.other .start (.setWalletsDir _ "/wallets")) (.client _ _))
      (World.afterTurn_turn Script.succeeding_returns _) ?_
    rintro ⟨_, _, _, _, _, _, isOpen, _⟩
    cases isOpen
  have all := refresh_follows_route run
  exact ⟨all.1, all.2.2 _ run.reach⟩

/-- Its password is changed while it waits. -/
def World.changedWaiting : World :=
  let job := .obj [("oldPassword", .str "old"), ("newPassword", .str "new")]
  (World.openedWaiting.afterClient (.startJob "change_password" job "second")).afterTurn
    (Script.succeeding true 2 .null)

/-- The guard has started a refresh that the open had left off. -/
theorem change_starts_refresh
    : Reachable LibraryReturns true ⟨.pure (), World.changedWaiting⟩
      ∧ ¬FollowsRoute World.changedWaiting.mem World.changedWaiting.history := by
  have opened : Reachable LibraryReturns true ⟨.pure (), World.openedWaiting⟩ :=
    (Reachable.withJob _ _).afterTurn Script.succeeding_returns
  refine ⟨(opened.afterClient _).afterTurn Script.succeeding_returns, fun follows => ?_⟩
  have isOpen : World.changedWaiting.mem.wallet = some ⟨9⟩ := by decide +kernel
  have on : refreshes ⟨9⟩ World.changedWaiting.history = true := by decide +kernel
  exact (follows _ isOpen).mp on (by decide +kernel)

end MoneroWalletCore.Runtime
