import MoneroWalletCore.Session.Announcements

/-! The events of state changes against the life of a wallet. What a client is told in any run is
a run of a small machine, in which a wallet is opened, synchronizes and is closed before another
one is.
-/

namespace MoneroWalletCore.Runtime

open Program

variable {α : Type} {rule : Surroundings}

-----------------------------------------------------------------------------------------
-- The life of a wallet
-----------------------------------------------------------------------------------------

/-- What the module is doing, and with which wallet. -/
inductive WalletPhase where
  | noWallet
  | opening
  | syncing (w : Wallet)
  | ready (w : Wallet)
  | closing (w : Wallet)
  deriving DecidableEq, Repr

namespace WalletPhase

def label : WalletPhase → State
  | .noWallet => .noWallet
  | .opening => .opening
  | .syncing _ => .syncing
  | .ready _ => .ready
  | .closing _ => .closing

def wallet : WalletPhase → Option Wallet
  | .noWallet | .opening => none
  | .syncing w | .ready w | .closing w => some w

/-- What may come next. -/
inductive Step : WalletPhase → WalletPhase → Prop
  | opens : Step .noWallet .opening
  | refused : Step .opening .noWallet
  | opened (w : Wallet) : Step .opening (.syncing w)
  | synced {w} : Step (.syncing w) (.ready w)
  /-- It falls behind, or is rescanned. -/
  | syncs {p w} (holds : p.wallet = some w) : Step p (.syncing w)
  /-- Its route is another, or its move there failed. -/
  | moves {p w} (holds : p.wallet = some w) : Step p p
  | closes {p w} (holds : p.wallet = some w) : Step p (.closing w)
  | closed {w} : Step (.closing w) .noWallet
  /-- The open before this one was left by a throw. -/
  | retries : Step .opening .opening
  /-- The close before this one was, without its wallet. -/
  | reopens {w} : Step (.closing w) .opening

variable {p q : WalletPhase} {w w' : Wallet}

/-- A wallet is not told of right after another. -/
theorem Step.same_wallet (step : p.Step q) (before : p.wallet = some w) (after : q.wallet = some w')
    : w' = w := by
  cases step with
  | opens => cases after
  | refused => cases after
  | opened => cases before
  | synced => exact Option.some.inj (after.symm.trans before)
  | syncs holds => exact (Option.some.inj after).symm.trans (Option.some.inj (holds.symm.trans before))
  | moves holds => exact Option.some.inj (after.symm.trans before)
  | closes holds => exact (Option.some.inj after).symm.trans (Option.some.inj (holds.symm.trans before))
  | closed => cases after
  | retries => cases after
  | reopens => cases after

/-- A wallet is told of first after an open. -/
theorem Step.opening_of (step : p.Step q) (before : p.wallet = none) (after : q.wallet = some w)
    : p = .opening := by
  cases step with
  | opened => rfl
  | synced => cases before
  | syncs holds => cases before.symm.trans holds
  | moves holds => cases before.symm.trans holds
  | closes holds => cases before.symm.trans holds
  | _ => cases after

/-- An open begins where no wallet is told of, but for one whose close was left by a throw. -/
theorem opens_of (gone : p.wallet = none ∨ p.label = .closing) : p.Step .opening := by
  cases p with
  | noWallet => exact .opens
  | opening => exact .retries
  | closing w => exact .reopens
  | syncing w => simp [wallet, label] at gone
  | ready w => simp [wallet, label] at gone

end WalletPhase

/-- The events of a history, read as a run of the machine to a phase: each payload is the
status at its moment, with the label and the wallet of the phase that it tells of. -/
inductive Recounts : History → WalletPhase → Prop
  | start : Recounts [] .noWallet
  | hidden {h p e} (tells : Recounts h p) (silent : e.told? = none) : Recounts (e :: h) p
  | told {h p q m answer} (tells : Recounts h p) (step : p.Step q) (label : m.state = q.label)
    (wallet : m.wallet = q.wallet)
    : Recounts (.asked (.emit "walletStateChanged" (statusLocked m)) answer m :: h) q

/-- The event of an open. -/
def Event.opens : Event → Bool
  | .asked (.emit event _) _ m => event == "walletStateChanged" && m.state == .opening
  | _ => false

/-- What was told since the last event of an open, that one left out. -/
def sinceOpening (h : History) : History := h.takeWhile fun e => !e.opens

theorem Event.opens_hidden {e : Event} (silent : e.told? = none) : e.opens = false := by
  cases e with
  | asked c answer m =>
      cases c with
      | emit event payload =>
          by_cases same : event = "walletStateChanged"
          · simp [told?, same] at silent
          · simp [opens, same]
      | _ => rfl
  | _ => rfl

namespace Recounts

variable {h : History} {p : WalletPhase} {w w' : Wallet} {e : Event}

theorem hidden_since (silent : e.told? = none) : sinceOpening (e :: h) = e :: sinceOpening h := by
  simp [sinceOpening, Event.opens_hidden silent]

/-- While a wallet is opened no other is told of. -/
theorem none_since (tells : Recounts h p) (opening : p = .opening)
    : ∀ e ∈ sinceOpening h, e.told? = none := by
  induction tells with
  | start => cases opening
  | hidden tells silent ih =>
      rw [hidden_since silent]
      exact List.forall_mem_cons.mpr ⟨silent, ih opening⟩
  | @told h p q m answer tells step label wallet ih =>
      have none_ : sinceOpening (.asked (.emit "walletStateChanged" (statusLocked m)) answer m :: h)
          = [] := by
        simp [sinceOpening, Event.opens, label, opening, WalletPhase.label]
      rw [none_]
      exact fun e member => by cases member

/-- Since the last open, one wallet is told of. Induction on the events. -/
theorem one_wallet (tells : Recounts h p) (holds : p.wallet = some w)
    : ∀ c answer m, .asked c answer m ∈ sinceOpening h →
        (Event.asked c answer m).told? ≠ none → m.wallet = some w := by
  induction tells generalizing w with
  | start => cases holds
  | hidden tells silent ih =>
      intro c answer m member told
      rw [hidden_since silent] at member
      rcases List.mem_cons.mp member with same | before
      · exact absurd (same ▸ silent) told
      · exact ih holds c answer m before told
  | @told h p q m answer tells step label wallet ih =>
      intro c answer' m' member told
      have visible : m.state ≠ .opening := by
        rw [label]
        cases q <;> simp_all [WalletPhase.label, WalletPhase.wallet]
      have since : sinceOpening (.asked (.emit "walletStateChanged" (statusLocked m)) answer m :: h)
          = .asked (.emit "walletStateChanged" (statusLocked m)) answer m :: sinceOpening h := by
        simp [sinceOpening, Event.opens, visible]
      rw [since] at member
      rcases List.mem_cons.mp member with same | before
      · cases same
        exact wallet.trans holds
      · cases held : p.wallet with
        | some w' =>
            cases step.same_wallet held holds
            exact ih held c answer' m' before told
        | none =>
            have opening : p = .opening := step.opening_of held holds
            exact absurd (tells.none_since opening _ before) told

end Recounts

-----------------------------------------------------------------------------------------
-- The members
-----------------------------------------------------------------------------------------

/-- A phase is the last one told of, with a wallet in place or none. -/
structure WalletPhase.At (p : WalletPhase) (w? : Option Wallet) (v : View) : Prop where
  tells : Recounts v.history p
  label : v.mem.state = p.label
  wallet : v.mem.wallet = w?

/-- The wallet in place is the one that was last told of, but for one that is closing. -/
structure Lives (v : View) (p : WalletPhase) : Prop where
  tells : Recounts v.history p
  label : v.mem.state = p.label
  wallet : v.mem.wallet = p.wallet ∨ v.mem.wallet = none ∧ p.label = .closing

def Alive (v : View) : Prop := ∃ p, Lives v p

variable {p q : WalletPhase} {v : View} {w : Wallet} {w? : Option Wallet}

theorem WalletPhase.At.alive (here : p.At p.wallet v) : Alive v :=
  ⟨p, here.tells, here.label, .inl here.wallet⟩

theorem Lives.wallet_eq (lives : Lives v p) (isOpen : v.mem.wallet = some w) : p.wallet = some w := by
  rcases lives.wallet with same | ⟨closed, _⟩
  · exact same.symm.trans isOpen
  · exact absurd (closed.symm.trans isOpen) (Option.some_ne_none w).symm

/-- An action that leaves the handle and the label, and tells of no state change. -/
abbrev Hushed : Op → Prop :=
  Acting (fun m m' => m'.wallet = m.wallet ∧ m'.state = m.state) Call.silent

theorem keepsAt : ActionsKeep rule Hushed (p.At w?) := by
  apply ActionsKeep.acting
  · intro v m assigned here
    obtain ⟨o, wallet, state⟩ := assigned
    exact ⟨here.tells, state.trans here.label, wallet.trans here.wallet⟩
  · intro v c answer silent _ here
    exact ⟨here.tells.hidden (Call.silent_told silent), here.label, here.wallet⟩

theorem keepsAlive : ActionsKeep rule Hushed Alive := by
  rintro v op answer v' hushed step ⟨p, lives⟩
  have here : p.At v.mem.wallet v' :=
    keepsAt v op answer v' hushed step ⟨lives.tells, lives.label, rfl⟩
  exact ⟨p, here.tells, here.label, here.wallet ▸ lives.wallet⟩

/-- The event of a state change is a step, also when it does not get through. -/
theorem setState_steps {error : String} (tells : Recounts v.history p) (step : p.Step q)
    (wallet : v.mem.wallet = q.wallet)
    : (setState q.label error).wp (View.act rule) (fun _ => q.At q.wallet)
        (fun _ => q.At q.wallet) v := by
  rw [wp_setState]
  intro o
  have told (answer : Except Exn Unit)
      : q.At q.wallet
          ((View.at (labelled q.label error (v.mem.under o)) v.history).push
            (.asked (.emit "walletStateChanged" (statusLocked (labelled q.label error (v.mem.under o))))
              answer (labelled q.label error (v.mem.under o)).own)) :=
    ⟨.told (m := (labelled q.label error (v.mem.under o)).own) tells step rfl wallet, rfl, wallet⟩
  exact Worker.wp_emit.mpr ⟨fun _ _ => told _, fun _ _ => told _⟩

instance : Insides Hushed where
  reports :=
    {
      reads := fun _ => ⟨rfl, rfl⟩
      resets := fun _ => ⟨rfl, rfl⟩
      notifies := fun _ _ => rfl
      tells := fun _ => rfl
    }
  libs _ _ := rfl
  resumes _ := rfl
  resolves _ := rfl
  times := rfl
  sleeps _ := rfl
  sockets _ _ := rfl
  registers _ _ := ⟨rfl, rfl⟩
  drops _ _ := ⟨rfl, rfl⟩
  ticks _ _ m := ⟨congrArg Session.wallet (ticked_session m).1, (ticked_session m).2⟩

-----------------------------------------------------------------------------------------
-- Opening
-----------------------------------------------------------------------------------------

/-- An open is under way, and what it makes is not in place. -/
abbrev Opens : View → Prop := WalletPhase.opening.At none

/-- A stage of an open ends it, or goes on with it. -/
def Passes (ended : Stage α) (v : View) : Prop :=
  match ended with
  | .leave _ => Alive v
  | .go _ => Opens v

/-- A stage as the body of an open meets it. -/
def Worker.PassesOn (rule : Surroundings) (stage : Worker (Stage α)) : Prop :=
  ∀ v, Opens v → stage.wp (View.act rule) Passes (fun _ => Alive) v

/-- A phase lasts until the next event, where nothing is thrown. -/
theorem at_then {β : Type} {body : Worker α} {next : α → Worker β} {normal : β → View → Prop}
    (within : body.Within Hushed (fun _ => True) (fun _ => False)) (here : p.At w? v)
    (rest : ∀ value v', p.At w? v' →
      (next value).wp (View.act rule) normal (fun _ => Alive) v')
    : (body.bind next).wp (View.act rule) normal (fun _ => Alive) v := by
  rw [wp_bind]
  exact wp_mono (within.keeps keepsAt here) (fun value v' both => rest value v' both.2)
    fun _ _ impossible => impossible.1.elim

/-- The next event, and what comes after it. -/
theorem step_then {β : Type} {error : String} {next : Worker β} {normal : β → View → Prop}
    (tells : Recounts v.history p) (step : p.Step q) (wallet : v.mem.wallet = q.wallet)
    (rest : ∀ v', q.At q.wallet v' → next.wp (View.act rule) normal (fun _ => Alive) v')
    : ((setState q.label error).bind fun _ => next).wp (View.act rule) normal (fun _ => Alive) v := by
  rw [wp_bind]
  exact wp_mono (setState_steps tells step wallet) (fun _ => rest) fun _ _ here => here.alive

/-- What comes before the wallet is in place. -/
theorem opens_then {β : Type} {body : Worker α} {next : α → Worker β}
    {normal : β → View → Prop} (stays : body.Stays Hushed) (opens : Opens v)
    (rest : ∀ value v', Opens v' → (next value).wp (View.act rule) normal (fun _ => Alive) v')
    : (body.bind next).wp (View.act rule) normal (fun _ => Alive) v := by
  rw [wp_bind]
  exact wp_mono (keepsAt.body stays v opens) rest fun _ _ opens' => opens'.alive

theorem refuseOpen_passes {label msg : String}
    : (refuseOpen label msg : Worker (Stage α)).PassesOn rule := by
  intro v opens
  exact step_then (q := .noWallet) opens.tells .refused opens.wallet fun _ here => here.alive

theorem go_passes {value : α} : Worker.PassesOn rule (.pure (.go value) : Worker (Stage α)) :=
  fun _ opens => opens

namespace Worker.PassesOn

theorem ite {condition : Prop} [Decidable condition] {p q : Worker (Stage α)}
    (yes : p.PassesOn rule) (no : q.PassesOn rule)
    : Worker.PassesOn rule (if condition then p else q) := by
  split
  · exact yes
  · exact no

theorem after {β : Type} {body : Worker β} {next : β → Worker (Stage α)}
    (stays : body.Stays Hushed) (rest : ∀ value, (next value).PassesOn rule)
    : Worker.PassesOn rule (body.bind next) :=
  fun _ opens => opens_then stays opens fun value => rest value

/-- What a stage leads to, the body leads to. -/
theorem leads {stage : Worker (Stage α)} {next : α → Worker Json} (first : stage.PassesOn rule)
    (opens : Opens v)
    (rest : ∀ value v', Opens v' →
      (next value).wp (View.act rule) (fun _ => Alive) (fun _ => Alive) v')
    : (andThen stage next).wp (View.act rule) (fun _ => Alive) (fun _ => Alive) v := by
  rw [wp_andThen]
  refine wp_mono (first v opens) (fun ended v' passes => ?_) fun _ _ alive => alive
  cases ended with
  | leave out => exact passes
  | go value => exact rest value v' passes

end Worker.PassesOn

theorem obtainWallet_passes {kind : String} {p : Json} {o : OpenParams} {path : String}
    {nettype : Int}
    : (obtainWallet kind p o path nettype).PassesOn rule :=
  .after (.call rfl) fun _ => .ite refuseOpen_passes (.ite refuseOpen_passes
    (.after (makeWallet_inside fun _ _ => rfl) fun _ => go_passes))

theorem checkWallet_passes {network : String} {nettype : Int} {w? : Option Wallet}
    : (checkWallet network nettype w?).PassesOn rule := by
  cases w? with
  | none => exact .after (lib_inside rfl) fun _ => refuseOpen_passes
  | some w =>
      refine .after (lib_inside rfl) fun _ => .ite ?_ (.after (lib_inside rfl) fun _ => .ite ?_ go_passes)
      · exact .after (lib_inside rfl) fun _ => .after (lib_inside rfl) fun _ => refuseOpen_passes
      · exact .after (lib_inside rfl) fun _ => refuseOpen_passes

theorem initWallet_passes {kind network : String} {plan : Plan} {w : Wallet}
    : (initWallet kind network plan w).PassesOn rule := by
  refine .after (Worker.Stays.when (lib_inside rfl)) fun _ => .after (lib_inside rfl) fun _ =>
    .ite go_passes ?_
  exact .after (lib_inside rfl) fun _ => .after (lib_inside rfl) fun _ => refuseOpen_passes

theorem connectDaemon_passes {plan : Plan} {w : Wallet} : (connectDaemon plan w).PassesOn rule := by
  refine .ite (.after awaitConnected_inside fun _ => .ite ?_ go_passes) go_passes
  exact .after (lib_inside rfl) fun _ => refuseOpen_passes

/-- The wallet is in place before it is told of. -/
theorem publishWallet_alive {o : OpenParams} {plan : Plan} {path addr : String} (opens : Opens v)
    : (publishWallet o plan path addr w).wp (View.act rule) (fun _ => Alive) (fun _ => Alive) v := by
  refine wp_bind.mpr (Worker.wp_locked.mpr (Worker.wp_update.mpr fun others => ?_))
  have placed : WalletPhase.opening.At (some w) (View.at (withWallet w (v.mem.under others)) v.history) :=
    ⟨opens.tells, opens.label, rfl⟩
  refine at_then ⟨Insides.times, fun _ => trivial⟩ placed fun now v₁ here₁ => ?_
  refine at_then ⟨fun _ => ⟨rfl, rfl⟩, fun _ => trivial⟩ here₁ fun _ v₂ here₂ => ?_
  refine at_then Insides.reports.notifyOpen here₂ fun _ v₃ here₃ => ?_
  refine at_then (restrictFiles_inside fun _ _ => ⟨rfl, rfl⟩) here₃ fun _ v₄ here₄ => ?_
  refine step_then (q := .syncing w) here₄.tells (.opened w) here₄.wallet fun v₅ here₅ => ?_
  exact keepsAlive.body (Worker.Stays.bind (lib_inside rfl) fun _ => .value) _ here₅.alive

theorem attachWallet_alive {o : OpenParams} {plan : Plan} {path : String} (opens : Opens v)
    : (attachWallet o plan path w).wp (View.act rule) (fun _ => Alive) (fun _ => Alive) v := by
  refine opens_then waitOffline_inside opens fun _ v₁ opens₁ => ?_
  refine opens_then trustDaemon_inside opens₁ fun _ v₂ opens₂ => ?_
  refine connectDaemon_passes.leads opens₂ fun _ v₃ opens₃ => ?_
  exact opens_then startWallet_inside opens₃ fun _ _ => publishWallet_alive

theorem openWith_alive {kind : String} {params : Json} {o : OpenParams} {plan : Plan}
    : (openWith kind params o plan).Keeps rule Alive := by
  rintro v ⟨p, lives⟩
  refine wp_bind.mpr (Worker.wp_locked.mpr (wp_bind.mpr (Worker.wp_read.mpr fun others => ?_)))
  refine wp_ite.mpr ⟨fun _ => ⟨p, lives⟩, fun closed => ?_⟩
  have none_ : v.mem.wallet = none := by simpa using closed
  have gone : p.wallet = none ∨ p.label = .closing :=
    lives.wallet.imp (fun same => same.symm.trans none_) And.right
  refine step_then (q := .opening) lives.tells (WalletPhase.opens_of gone) none_ fun v₁ opens₁ => ?_
  refine opens_then read_inside opens₁ fun m v₂ opens₂ => ?_
  refine opens_then (lib_inside rfl) opens₂ fun _ v₃ opens₃ => ?_
  refine obtainWallet_passes.leads opens₃ fun w? v₄ opens₄ => ?_
  refine checkWallet_passes.leads opens₄ fun w v₅ opens₅ => ?_
  exact initWallet_passes.leads opens₅ fun _ _ => attachWallet_alive

theorem doOpenLike_alive {kind : String} {params : Json}
    : (doOpenLike kind params).Keeps rule Alive := by
  have read {β : Type} {result : Except Exn β} : (Worker.orThrow result).Keeps rule Alive :=
    keepsAlive.body Worker.Stays.orThrow
  refine read.bind fun o => .ite .value (.ite .value ?_)
  refine Worker.Keeps.bind (keepsAlive.body resolve_inside) fun node => read.bind fun policy => ?_
  cases policy with
  | leave out => exact .value
  | go plan => exact openWith_alive

-----------------------------------------------------------------------------------------
-- The other bodies that tell
-----------------------------------------------------------------------------------------

/-- The wallet is told to be closing before it is taken. -/
theorem takeWallet_alive (alive : Alive v)
    : takeWallet.wp (View.act rule)
        (fun held v' => Alive v' ∧ ∀ w, held = some w → (WalletPhase.closing w).At none v')
        (fun _ => Alive) v := by
  obtain ⟨p, lives⟩ := alive
  refine Worker.wp_locked.mpr (wp_bind.mpr (Worker.wp_read.mpr fun others => ?_))
  cases isOpen : (v.mem.under others).wallet with
  | none => exact ⟨⟨p, lives⟩, fun w held => by cases held⟩
  | some w =>
      have holds : v.mem.wallet = some w := isOpen
      refine step_then (q := .closing w) lives.tells (.closes (lives.wallet_eq holds)) holds
        fun v₁ here => ?_
      refine wp_bind.mpr (Worker.wp_update.mpr fun others => ?_)
      refine ⟨⟨.closing w, here.tells, here.label, .inr ⟨rfl, rfl⟩⟩, fun w' held => ?_⟩
      cases held
      exact ⟨here.tells, here.label, rfl⟩

theorem releaseWallet_alive (closing : (WalletPhase.closing w).At none v)
    : (releaseWallet w).wp (View.act rule) (fun _ => Alive) (fun _ => Alive) v := by
  have alive (v' : View) (here : (WalletPhase.closing w).At none v') : Alive v' :=
    ⟨.closing w, here.tells, here.label, .inr ⟨here.wallet, rfl⟩⟩
  have calls {β : Type} {c : Lib} {next : c.Ret → Worker β} {normal : β → View → Prop} (v' : View)
      (here : (WalletPhase.closing w).At none v')
      (rest : ∀ ret v'', (WalletPhase.closing w).At none v'' →
        (next ret).wp (View.act rule) normal (fun _ => Alive) v'')
      : ((Worker.lib c).bind next).wp (View.act rule) normal (fun _ => Alive) v' := by
    rw [wp_bind]
    exact wp_mono (keepsAt.body (Worker.Stays.call rfl) v' here) rest fun _ v'' => alive v''
  refine calls v closing fun _ v₁ here₁ => calls v₁ here₁ fun ok v₂ here₂ => ?_
  refine at_then ⟨fun _ => ⟨rfl, rfl⟩, fun _ => trivial⟩ here₂ fun m v₃ here₃ => ?_
  refine at_then Insides.reports.notifyOpen here₃ fun _ v₄ here₄ => ?_
  exact step_then (q := .noWallet) here₄.tells .closed here₄.wallet fun _ here => here.alive

theorem doClose_alive : doClose.Keeps rule Alive := by
  intro v alive
  refine wp_bind.mpr (wp_mono (takeWallet_alive alive) (fun held v' taken => ?_) fun _ _ left => left)
  cases held with
  | none => exact taken.1
  | some w => exact releaseWallet_alive (taken.2 w rfl)

theorem doRescan_alive : doRescan.Keeps rule Alive := by
  rintro v ⟨p, lives⟩
  refine wp_bind.mpr (Worker.wp_locked.mpr (wp_bind.mpr (Worker.wp_read.mpr fun others => ?_)))
  cases isOpen : (v.mem.under others).wallet with
  | none => exact ⟨p, lives⟩
  | some w =>
      have holds : p.wallet = some w := lives.wallet_eq isOpen
      have here : p.At p.wallet v := ⟨lives.tells, lives.label, isOpen.trans holds.symm⟩
      refine wp_bind.mpr (wp_mono (keepsAt.body (lib_inside rfl) v here) (fun _ v' here' => ?_)
        fun _ _ here' => here'.alive)
      exact step_then (q := .syncing w) here'.tells (.syncs holds) (here'.wallet.trans holds)
        fun _ told => told.alive

/-- A move only comes to a dial with the wallet in place. -/
theorem dialTor_alive {node : Json} (alive : Alive v)
    : (dialTor node).wp (View.act rule)
        (fun dialled v' => Alive v' ∧ ∀ error, dialled = some error → ∃ w, v'.mem.wallet = some w)
        (fun _ => Alive) v := by
  obtain ⟨p, lives⟩ := alive
  cases isOpen : v.mem.wallet with
  | none =>
      refine Worker.wp_locked.mpr (wp_bind.mpr (Worker.wp_read.mpr fun others => ?_))
      have closed : (v.mem.under others).wallet = none := isOpen
      rw [closed]
      exact ⟨⟨p, lives⟩, fun error dialled => by cases dialled⟩
  | some w =>
      have holds : p.wallet = some w := lives.wallet_eq isOpen
      have here : p.At p.wallet v := ⟨lives.tells, lives.label, isOpen.trans holds.symm⟩
      refine wp_mono (dialTor_scoped.keeps keepsAt v here) (fun _ v' here' => ?_)
        fun _ _ here' => here'.alive
      exact ⟨here'.alive, fun _ _ => ⟨w, here'.wallet.trans holds⟩⟩

theorem recordMove_alive {node : Json} {error : String} (alive : Alive v)
    (isOpen : v.mem.wallet = some w)
    : (recordMove node error).wp (View.act rule) (fun _ => Alive) (fun _ => Alive) v := by
  obtain ⟨p, lives⟩ := alive
  have holds : p.wallet = some w := lives.wallet_eq isOpen
  have here : p.At p.wallet v := ⟨lives.tells, lives.label, isOpen.trans holds.symm⟩
  refine at_then ⟨Insides.times, fun _ => trivial⟩ here fun now v₁ here₁ => ?_
  refine wp_bind.mpr (Worker.wp_update.mpr fun others => ?_)
  have label : (v₁.mem.under others).state = p.label := here₁.label
  rw [label]
  exact wp_mono (setState_steps here₁.tells (.moves holds) here₁.wallet)
    (fun _ _ told => told.alive) fun _ _ told => told.alive

theorem moveToTor_alive {abandon : Bool} {resolved : Option Json}
    : (moveToTor abandon resolved).Keeps rule Alive := by
  have moves (node : Json) (from_ : Route) : (moveWith abandon node from_).Keeps rule Alive := by
    refine .ite .value (Worker.Keeps.bind (goOffline_scoped.keeps keepsAlive) fun _ => ?_)
    refine .ite .value fun v alive => wp_bind.mpr (wp_mono (dialTor_alive alive) ?_ fun _ _ => id)
    intro dialled v' both
    cases dialled with
    | none => exact both.1
    | some error =>
        obtain ⟨w, isOpen⟩ := both.2 error rfl
        exact recordMove_alive both.1 isOpen
  refine Worker.Keeps.bind (keepsAlive.body read_inside) fun m => ?_
  cases resolved with
  | some node => exact moves node m.route
  | none => exact Worker.Keeps.bind (keepsAlive.body resolve_inside) fun node => moves node m.route

theorem followSync_alive {synced : Bool} : (followSync synced).Keeps rule Alive := by
  rintro v ⟨p, lives⟩
  refine wp_bind.mpr (Worker.wp_read.mpr fun others => wp_ite.mpr ⟨fun due => ?_, fun _ => ?_⟩)
  · have label : p.label = .syncing := lives.label.symm.trans (by simp_all)
    cases p with
    | syncing w =>
        have isOpen := lives.wallet.resolve_right (by simp [WalletPhase.label])
        exact wp_mono (setState_steps (q := .ready w) lives.tells .synced isOpen)
          (fun _ _ told => told.alive) fun _ _ told => told.alive
    | _ => cases label
  · refine wp_ite.mpr ⟨fun due => ?_, fun _ => ⟨p, lives⟩⟩
    have label : p.label = .ready := lives.label.symm.trans (by simp_all)
    cases p with
    | ready w =>
        have isOpen := lives.wallet.resolve_right (by simp [WalletPhase.label])
        exact wp_mono (setState_steps (q := .syncing w) lives.tells (.syncs rfl) isOpen)
          (fun _ _ told => told.alive) fun _ _ told => told.alive
    | _ => cases label

-----------------------------------------------------------------------------------------
-- In every run
-----------------------------------------------------------------------------------------

theorem keepsAlive_turn : BodiesKeep rule Hushed Alive where
  inside := keepsAlive
  begins _ _ _ := by
    rintro ⟨p, lives⟩
    exact ⟨p, lives.tells.hidden rfl, lives.label, lives.wallet⟩
  settles _ _ _ _ := by
    rintro ⟨p, lives⟩
    exact ⟨p, lives.tells.hidden rfl, lives.label, lives.wallet⟩
  opens _ _ := doOpenLike_alive
  closes := doClose_alive
  rescans := doRescan_alive
  changes _ := (doChangePassword_scoped fun _ _ => rfl).keeps keepsAlive
  moves _ _ := moveToTor_alive
  follows _ := followSync_alive

/-- In every run, whatever is answered or thrown, the events of state changes tell of a run of the
machine from no wallet on, and whenever no turn is under way it has come to the label and the
wallet that the module has. The events since the last open tell of that wallet alone. -/
theorem events_follow_lifecycle {hasNotify : Bool} {t : System} (reach : Reachable rule hasNotify t)
    (idle : t.Idle)
    : ∃ p, Recounts t.state.history p ∧ t.state.mem.state = p.label
        ∧ (t.state.mem.wallet = p.wallet ∨ t.state.mem.wallet = none ∧ p.label = .closing)
        ∧ ∀ c answer m, .asked c answer m ∈ sinceOpening t.state.history →
            (Event.asked c answer m).told? ≠ none → ∀ w, p.wallet = some w → m.wallet = some w := by
  have alive : Alive t.state.view :=
    reach.invariant idle ⟨.noWallet, .start, rfl, .inl rfl⟩ fun v => keepsAlive_turn.turn v
  obtain ⟨p, lives⟩ := alive
  refine ⟨p, lives.tells, lives.label, lives.wallet, fun c answer m since told w holds => ?_⟩
  exact lives.tells.one_wallet holds c answer m since told

theorem events_follow_lifecycle_announced
    : World.announced.mem.wallet = some ⟨9⟩ ∧ Recounts World.announced.history (.syncing ⟨9⟩) := by
  have reach : Reachable LibraryReturns true ⟨.pure (), World.announced⟩ :=
    (Reachable.withJob _ _).afterTurn Script.succeeding_returns
  have isOpen : World.announced.mem.wallet = some ⟨9⟩ := rfl
  have syncs : World.announced.mem.state = .syncing := rfl
  obtain ⟨p, tells, label, wallet, _⟩ := events_follow_lifecycle reach rfl
  refine ⟨isOpen, ?_⟩
  rw [syncs] at label
  rw [isOpen] at wallet
  cases p with
  | syncing w =>
      cases wallet.resolve_right (by simp)
      exact tells
  | _ => cases label

end MoneroWalletCore.Runtime
