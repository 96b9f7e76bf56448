import MoneroWalletCore.Session.OpenAttempt

/-! The state label against the wallet handle. The labels of an open and of a close under way
are left again on the explicit exits only, so a throw in between keeps them for good.
-/

namespace MoneroWalletCore.Runtime

open Program

-----------------------------------------------------------------------------------------
-- Surroundings that leave no label behind
-----------------------------------------------------------------------------------------

/-- A field is missing, or can be converted to its type. -/
def Reads {α : Type} (conversion : Except Exn α) : Prop := ∃ value, conversion = .ok value

/-- The optional fields that a kind reads once it makes its wallet. -/
def FieldsRead (kind : String) (p : Json) : Prop :=
  if kind = "open_wallet" then
    True
  else if kind = "create_wallet" then
    Reads (p.valueString "language" "English")
  else if kind = "restore_from_seed" then
    Reads (p.valueString "seed" "") ∧ Reads (p.valueUInt64 "restoreHeight" 0)
      ∧ Reads (p.valueString "seedOffset" "")
  else
    Reads (p.valueUInt64 "restoreHeight" 0) ∧ Reads (p.valueString "address" "")
      ∧ Reads (p.valueString "viewKey" "") ∧ Reads (p.valueString "spendKey" "")

/-- The library returns, and nothing throws under the two labels: neither their own report, nor
a field of a job that goes on to make its wallet, nor the trust of a node that was dialled. -/
def LabelsLeft : Surroundings := fun h e =>
  match e with
  | .asked (.lib _) (.error _) _ => False
  | .asked (.emit event payload) (.error _) _ =>
      event = "walletStateChanged" →
        str payload "state" ≠ stateName .opening ∧ str payload "state" ≠ stateName .closing
  | .asked (.lib (.walletExists _)) (.ok found) _ =>
      ∀ job, lastJob h = some job → (found = true ↔ job.kind = "open_wallet") →
        FieldsRead job.kind job.params
  | .asked (.lib (.init ..)) (.ok true) _ => ∀ node, lastAnswer h = some node → ¬IllTrusted node
  | _ => True

-----------------------------------------------------------------------------------------
-- The invariant
-----------------------------------------------------------------------------------------

/-- A wallet is open exactly under the two labels that say so, and none is under the one that
says so. -/
def Labelled (wallet : Option Wallet) (state : State) : Prop :=
  (wallet.isSome ↔ state = .syncing ∨ state = .ready) ∧ (wallet = none ↔ state = .noWallet)

theorem labelled_iff {wallet : Option Wallet} {state : State}
    : Labelled wallet state
      ↔ (wallet = none ∧ state = .noWallet)
        ∨ (wallet ≠ none ∧ (state = .syncing ∨ state = .ready)) := by
  cases wallet <;> cases state <;> simp [Labelled]

def LabelInv (v : View) : Prop := Labelled v.mem.wallet v.mem.state

/-- A job is opening by the node module's answer, and no wallet is open. -/
structure Opening (job : Job) (node : Json) (v : View) : Prop where
  none : v.mem.wallet = none
  label : v.mem.state = .opening
  began : lastJob v.history = some job
  answered : lastAnswer v.history = some node

def Unopened (v : View) : Prop := v.mem.wallet = none ∧ v.mem.state = .noWallet

theorem Unopened.labelled {v : View} (unopened : Unopened v) : LabelInv v :=
  labelled_iff.mpr (.inl unopened)

/-- A stage ends with the label back, or goes on under it. -/
def Relabels {α : Type} (next : View → Prop) (ended : Stage α) (v : View) : Prop :=
  match ended with
  | .leave _ => Unopened v
  | .go _ => next v

variable {job : Job} {node : Json} {v : View}

theorem opening_iff
    : Opening job node v ↔ v.mem.wallet = none ∧ v.mem.state = .opening
        ∧ lastJob v.history = some job ∧ lastAnswer v.history = some node :=
  ⟨fun opening => ⟨opening.1, opening.2, opening.3, opening.4⟩,
    fun opening => ⟨opening.1, opening.2.1, opening.2.2.1, opening.2.2.2⟩⟩

-----------------------------------------------------------------------------------------
-- Stages of an open
-----------------------------------------------------------------------------------------

theorem refuseOpen_relabels {α : Type} {next : View → Prop} {label msg : String}
    (none : v.mem.wallet = none)
    : (refuseOpen label msg : Worker (Stage α)).wp (View.act LabelsLeft) (Relabels next)
        (fun _ => Unopened) v := by
  simp [refuseOpen, Relabels, Unopened, none]

theorem makeWallet_relabels {password path : String} {nettype : Int}
    (read : FieldsRead job.kind job.params) (opening : Opening job node v)
    : (makeWallet job.kind job.params password path nettype).wp (View.act LabelsLeft)
        (fun _ => Opening job node) (fun _ => Unopened) v := by
  obtain ⟨none, label, began, answered⟩ := opening
  unfold FieldsRead Reads at read
  unfold makeWallet
  split_ifs at read ⊢
  · simp [opening_iff, none, label, began, answered, LabelsLeft, Event.job?, Event.node?]
  · obtain ⟨_, language⟩ := read
    simp [opening_iff, none, label, began, answered, LabelsLeft, Event.job?, Event.node?, language]
  · obtain ⟨⟨_, seed⟩, ⟨_, height⟩, ⟨_, offset⟩⟩ := read
    simp [opening_iff, none, label, began, answered, LabelsLeft, Event.job?, Event.node?, seed,
      height, offset]
  · obtain ⟨⟨_, height⟩, ⟨_, address⟩, ⟨_, viewKey⟩, ⟨_, spendKey⟩⟩ := read
    simp [opening_iff, none, label, began, answered, LabelsLeft, Event.job?, Event.node?, height,
      address, viewKey, spendKey]

theorem obtainWallet_relabels {o : OpenParams} {path : String} {nettype : Int}
    (opening : Opening job node v)
    : (obtainWallet job.kind job.params o path nettype).wp (View.act LabelsLeft)
        (Relabels (Opening job node)) (fun _ => Unopened) v := by
  refine wp_bind.mpr (Worker.wp_lib.mpr ⟨fun found allowed => ?_, fun _ allowed => allowed.elim⟩)
  simp only [wp_ite, bind_def, wp_bind]
  refine ⟨fun _ => refuseOpen_relabels opening.none, fun opens => ?_⟩
  refine ⟨fun _ => refuseOpen_relabels opening.none, fun makes => ?_⟩
  have goes : found = true ↔ job.kind = "open_wallet" := by
    by_cases kind : job.kind = "open_wallet" <;> simp_all
  apply makeWallet_relabels (allowed job opening.began goes)
  exact ⟨opening.none, opening.label, opening.began, opening.answered⟩

theorem checkWallet_relabels {network : String} {nettype : Int} {w? : Option Wallet}
    (opening : Opening job node v)
    : (checkWallet network nettype w?).wp (View.act LabelsLeft) (Relabels (Opening job node))
        (fun _ => Unopened) v := by
  obtain ⟨none, label, began, answered⟩ := opening
  cases w? <;>
    simp +contextual [checkWallet, openFailed, refuseOpen, Relabels, opening_iff, Unopened, none,
      label, began, answered, LabelsLeft, Event.job?, Event.node?]

theorem initWallet_relabels {kind network : String} {plan : Plan} {w : Wallet}
    (opening : Opening job plan.node v)
    : (initWallet kind network plan w).wp (View.act LabelsLeft)
        (Relabels fun v' => Opening job plan.node v' ∧ ¬IllTrusted plan.node)
        (fun _ => Unopened) v := by
  obtain ⟨none, label, began, answered⟩ := opening
  simp +contextual [initWallet, dialWallet, wp_when, refuseOpen, Relabels, opening_iff, Unopened,
    none, label, began, answered, LabelsLeft, Event.job?, Event.node?]

theorem trustDaemon_relabels {plan : Plan} {w : Wallet} (trusted : ¬IllTrusted plan.node)
    (opening : Opening job plan.node v)
    : (trustDaemon plan w).wp (View.act LabelsLeft) (fun _ => Opening job plan.node)
        (fun _ => Unopened) v := by
  obtain ⟨none, label, began, answered⟩ := opening
  have reads (route : routeOf plan.node = .direct) e
      : ¬plan.node.valueBool "trusted" false = .error e :=
    fun fails => trusted ⟨route, e, fails⟩
  simp +contextual [trustDaemon, opening_iff, none, label, began, answered, LabelsLeft,
    Event.job?, Event.node?, reads]

theorem awaitConnected_relabels {w : Wallet} {looks : Nat} (opening : Opening job node v)
    : (awaitConnected w looks).wp (View.act LabelsLeft) (fun _ => Opening job node)
        (fun _ => Unopened) v := by
  induction looks generalizing v with
  | zero => exact opening
  | succ looks ih =>
      obtain ⟨none, label, began, answered⟩ := opening
      simp only [awaitConnected, bind_def, wp_bind, Worker.wp_lib, wp_ite, Worker.wp_sleep]
      refine ⟨fun _ _ => ⟨fun _ => ?_, fun _ _ _ => ih ?_⟩, fun _ allowed => allowed.elim⟩
      all_goals exact ⟨none, label, began, answered⟩

theorem connectDaemon_relabels {plan : Plan} {w : Wallet} (opening : Opening job node v)
    : (connectDaemon plan w).wp (View.act LabelsLeft) (Relabels (Opening job node))
        (fun _ => Unopened) v := by
  simp only [connectDaemon, wp_ite, bind_def, wp_bind]
  refine ⟨fun _ => ?_, fun _ => opening⟩
  apply wp_mono (awaitConnected_relabels opening)
  · intro connected v' opening'
    refine ⟨fun _ => ?_, fun _ => opening'⟩
    exact Worker.wp_lib.mpr
      ⟨fun _ _ => refuseOpen_relabels opening'.none, fun _ allowed => allowed.elim⟩
  · exact fun _ _ left => left

theorem startWallet_relabels {plan : Plan} {w : Wallet} (opening : Opening job node v)
    : (startWallet plan w).wp (View.act LabelsLeft) (fun _ => Opening job node)
        (fun _ => Unopened) v := by
  obtain ⟨none, label, began, answered⟩ := opening
  simp +contextual [startWallet, wp_when, opening_iff, none, label, began, answered, LabelsLeft,
    Event.job?, Event.node?]

/-- The wallet has been published, whatever the label. -/
theorem announceWallet_labels {o : OpenParams} {path addr : String} {w : Wallet}
    (isOpen : v.mem.wallet = some w)
    : (announceWallet o path addr w).wp (View.act LabelsLeft) (fun _ => LabelInv)
        (fun _ => LabelInv) v := by
  have kept : ActionsKeep LabelsLeft Steady (fun v' => v'.mem.wallet = some w) := by
    apply ActionsKeep.acting
    · intro v' m assigned holds
      obtain ⟨_, same, _⟩ := assigned
      exact (congrArg Session.wallet same).trans holds
    · exact fun _ _ _ _ _ holds => holds
  simp only [announceWallet, bind_def, wp_bind]
  apply wp_mono (notifyOpen_reporting.keeps (kept.mono fun _ => Reporting.steady) isOpen)
  · intro _ v₁ told
    apply wp_mono (restrictFiles_steadily.keeps kept told.2)
    · intro _ v₂ restricted
      simp [LabelInv, labelled_iff, restricted.2, LabelsLeft]
    · exact fun _ _ impossible => impossible.1.elim
  · exact fun _ _ impossible => impossible.1.elim

theorem publishWallet_labels {o : OpenParams} {plan : Plan} {path addr : String} {w : Wallet}
    : (publishWallet o plan path addr w).wp (View.act LabelsLeft) (fun _ => LabelInv)
        (fun _ => LabelInv) v := by
  simp only [publishWallet, bind_def, wp_bind, Worker.wp_locked, Worker.wp_update, Worker.wp_now]
  intro _ now _ _
  exact announceWallet_labels rfl

-----------------------------------------------------------------------------------------
-- The open-like jobs
-----------------------------------------------------------------------------------------

/-- What a stage leads to, the body leads to. -/
theorem andThen_labels {α : Type} {stage : Worker (Stage α)} {next : α → Worker Json}
    {follows : View → Prop}
    (first : stage.wp (View.act LabelsLeft) (Relabels follows) (fun _ => Unopened) v)
    (rest : ∀ value v', follows v' →
      (next value).wp (View.act LabelsLeft) (fun _ => LabelInv) (fun _ => LabelInv) v')
    : (andThen stage next).wp (View.act LabelsLeft) (fun _ => LabelInv) (fun _ => LabelInv) v := by
  rw [wp_andThen]
  apply wp_mono first
  · intro ended v' relabels
    cases ended with
    | leave out => exact Unopened.labelled relabels
    | go value => exact rest value v' relabels
  · exact fun _ _ => Unopened.labelled

theorem attachWallet_labels {o : OpenParams} {plan : Plan} {path : String} {w : Wallet}
    (trusted : ¬IllTrusted plan.node) (opening : Opening job plan.node v)
    : (attachWallet o plan path w).wp (View.act LabelsLeft) (fun _ => LabelInv)
        (fun _ => LabelInv) v := by
  have waits : (waitOffline plan w).wp (View.act LabelsLeft) (fun _ => Opening job plan.node)
      (fun _ => Unopened) v := by
    obtain ⟨none, label, began, answered⟩ := opening
    simp [waitOffline, wp_when, opening_iff, none, label, began, answered, LabelsLeft, Event.job?,
      Event.node?]
  simp only [attachWallet, bind_def, wp_bind]
  apply wp_mono waits
  · intro _ v₁ opening₁
    apply wp_mono (trustDaemon_relabels trusted opening₁)
    · intro _ v₂ opening₂
      apply andThen_labels (connectDaemon_relabels opening₂)
      intro _ v₃ opening₃
      rw [wp_bind]
      apply wp_mono (startWallet_relabels opening₃)
      · exact fun _ _ _ => publishWallet_labels
      · exact fun _ _ => Unopened.labelled
    · exact fun _ _ => Unopened.labelled
  · exact fun _ _ => Unopened.labelled

theorem openWith_labels {o : OpenParams} {plan : Plan} (holds : LabelInv v)
    (began : lastJob v.history = some job) (answered : lastAnswer v.history = some plan.node)
    : (openWith job.kind job.params o plan).wp (View.act LabelsLeft) (fun _ => LabelInv)
        (fun _ => LabelInv) v := by
  simp only [openWith, bind_def, wp_bind, wp_ite, Worker.wp_locked, Worker.wp_read]
  refine fun others => ⟨fun _ => holds, fun closed => ?_⟩
  have none : v.mem.wallet = none := by simpa using closed
  have labels : (setState .opening "").wp (View.act LabelsLeft)
      (fun _ => Opening job plan.node) (fun _ _ => False) v := by
    simp [opening_iff, none, began, answered, LabelsLeft, Event.job?, Event.node?]
  apply wp_mono labels
  · intro _ v₁ opening others
    refine Worker.wp_lib.mpr ⟨fun _ _ => ?_, fun _ allowed => allowed.elim⟩
    refine andThen_labels (obtainWallet_relabels ?_)
      fun w? v₂ (opening₂ : Opening job plan.node v₂) => ?_
    · exact ⟨opening.none, opening.label, opening.began, opening.answered⟩
    refine andThen_labels (checkWallet_relabels opening₂) fun w v₃ opening₃ => ?_
    refine andThen_labels (initWallet_relabels opening₃) fun _ v₄ dialled => ?_
    exact attachWallet_labels dialled.2 dialled.1
  · exact fun _ _ impossible => impossible.elim

theorem doOpenLike_labels (holds : LabelInv v) (began : lastJob v.history = some job)
    : (doOpenLike job.kind job.params).wp (View.act LabelsLeft) (fun _ => LabelInv)
        (fun _ => LabelInv) v := by
  simp only [doOpenLike, bind_def, wp_bind, Worker.wp_orThrow, wp_ite, Worker.wp_resolve]
  refine ⟨fun o _ => ⟨fun _ => holds, fun _ => ⟨fun _ => holds, fun _ => ?_⟩⟩, fun _ _ => holds⟩
  refine ⟨fun node _ => ⟨fun policy passed => ?_, fun _ _ => holds⟩, fun _ _ => holds⟩
  cases policy with
  | leave out => exact holds
  | go plan =>
      have here : LabelInv (v.push (.asked (.resolve o.network) (.ok node) v.mem)) := holds
      apply openWith_labels here began
      rw [(nodePolicy_go passed).1]
      rfl

-----------------------------------------------------------------------------------------
-- The other bodies
-----------------------------------------------------------------------------------------

/-- An action that leaves the handle and the label, whatever it calls. -/
abbrev Still : Op → Prop :=
  Acting (fun m m' => m'.wallet = m.wallet ∧ m'.state = m.state) (fun _ => true)

instance : Asking Still where
  asks _ _ := rfl
  locks _ := trivial
  unlocks _ := trivial
  reads _ := ⟨rfl, rfl⟩

theorem keepsLabel_still : ActionsKeep LabelsLeft Still LabelInv := by
  apply ActionsKeep.acting
  · intro v m assigned holds
    obtain ⟨o, wallet, state⟩ := assigned
    unfold LabelInv at holds ⊢
    rw [View.at_mem, Mem.own_wallet, Mem.own_state, wallet, state]
    exact holds
  · exact fun _ _ _ _ _ holds => holds

theorem keepsLabel_steady : ActionsKeep LabelsLeft Steady LabelInv := by
  apply keepsLabel_still.mono
  intro op steady
  cases op with
  | update f => exact fun m => ⟨congrArg Session.wallet (steady m).1, (steady m).2⟩
  | dequeue => exact steady
  | settle ptr out => exact steady
  | _ => trivial

theorem releaseWallet_labels {w : Wallet} (none : v.mem.wallet = none)
    : (releaseWallet w).wp (View.act LabelsLeft) (fun _ => LabelInv) (fun _ => LabelInv) v := by
  have notified {network : String} {v' : View} (gone : v'.mem.wallet = Option.none)
      : (notifyOpen network false).wp (View.act LabelsLeft)
          (fun _ v'' => v''.mem.wallet = Option.none) (fun _ _ => False) v' := by
    have kept : ActionsKeep LabelsLeft Reporting (fun v'' => v''.mem.wallet = Option.none) :=
      keeps_attempt fun _ _ same _ _ gone => same.trans gone
    exact wp_mono (notifyOpen_reporting.keeps kept gone) (fun _ _ => And.right) (fun _ _ => And.left)
  simp only [releaseWallet, bind_def, wp_bind, Worker.wp_lib, Worker.wp_update]
  refine ⟨fun _ _ => ⟨fun ok _ others => ?_, fun _ allowed => allowed.elim⟩,
    fun _ allowed => allowed.elim⟩
  refine wp_mono (notified none) (fun _ v' gone => ?_) (fun _ _ impossible => impossible.elim)
  simp [LabelInv, labelled_iff, gone]

/-- A close leaves the label of a wallet only with its handle. -/
theorem doClose_labels : doClose.Keeps LabelsLeft LabelInv := by
  intro v holds
  simp only [doClose, takeWallet, bind_def, wp_bind, Worker.wp_locked, Worker.wp_read]
  intro others
  cases isOpen : (v.mem.under others).wallet with
  | none => exact holds
  | some w =>
      simp only [wp_bind, Worker.wp_update, wp_setState, Worker.wp_emit]
      refine fun _ => ⟨fun _ _ _ => releaseWallet_labels rfl, fun _ allowed => ?_⟩
      exact absurd rfl (allowed rfl).2

theorem doRescan_labels : doRescan.Keeps LabelsLeft LabelInv := by
  intro v holds
  simp only [doRescan, bind_def, wp_bind, Worker.wp_locked, Worker.wp_read]
  intro others
  cases isOpen : (v.mem.under others).wallet with
  | none => exact holds
  | some w =>
      have isOpen' : v.mem.wallet = some w := isOpen
      simp [LabelInv, labelled_iff, isOpen', LabelsLeft]

theorem recordMove_labels {error : String} : (recordMove node error).Keeps LabelsLeft LabelInv := by
  intro v holds
  unfold LabelInv at holds
  simp [recordMove, LabelInv, moved, holds]

theorem moveToTor_labels {abandon : Bool} {resolved : Option Json}
    : (moveToTor abandon resolved).Keeps LabelsLeft LabelInv := by
  have moves (node : Json) (from_ : Route)
      : (moveWith abandon node from_).Keeps LabelsLeft LabelInv := by
    intro v holds
    simp only [moveWith, wp_ite]
    refine ⟨fun _ => holds, fun _ => ?_⟩
    refine (keepsLabel_still.body goOffline_stays).bind (fun stopped v₁ kept => ?_) v holds
    rw [wp_ite]
    refine ⟨fun _ => kept, fun _ => ?_⟩
    refine (keepsLabel_still.body dialTor_stays).bind (fun dialled v₂ kept' => ?_) v₁ kept
    cases dialled with
    | none => exact kept'
    | some error => exact recordMove_labels v₂ kept'
  refine (keepsLabel_still.body Worker.Stays.read).bind fun m => ?_
  cases resolved with
  | some node => exact moves node m.route
  | none => exact (keepsLabel_still.body Worker.Stays.resolve).bind fun node => moves node m.route

theorem followSync_labels {synced : Bool} : (followSync synced).Keeps LabelsLeft LabelInv := by
  intro v holds
  have isOpen (label : v.mem.state = .syncing ∨ v.mem.state = .ready) : v.mem.wallet ≠ none := by
    rcases labelled_iff.mp holds with unopened | opened
    · simp [unopened.2] at label
    · exact opened.1
  simp only [followSync, bind_def, wp_bind, Worker.wp_read, wp_ite]
  refine fun others => ⟨fun due => ?_, fun _ => ⟨fun due => ?_, fun _ => holds⟩⟩
  · have label : v.mem.state = .syncing := by simp_all
    simp [LabelInv, labelled_iff, isOpen (.inl label)]
  · have label : v.mem.state = .ready := by simp_all
    simp [LabelInv, labelled_iff, isOpen (.inr label)]

theorem keepsLabel : TurnKeeps LabelsLeft LabelInv where
  steady := keepsLabel_steady
  begins _ _ _ holds := holds
  settles _ _ _ _ holds := holds
  opens _ _ holds began _ := doOpenLike_labels holds began
  closes := doClose_labels
  rescans := doRescan_labels
  creates _ _ holds _ _ :=
    keepsLabel_still.body (doCreateTransaction_stays fun _ _ => ⟨rfl, rfl⟩) _ holds
  commits _ := keepsLabel_still.body (doCommit_stays fun _ _ => ⟨rfl, rfl⟩)
  disposes _ := keepsLabel_still.body (doDispose_stays fun _ _ => ⟨rfl, rfl⟩)
  moves _ _ _ holds _ := moveToTor_labels _ holds
  follows _ := followSync_labels

-----------------------------------------------------------------------------------------
-- In every run
-----------------------------------------------------------------------------------------

/-- In every run in which the surroundings leave no label behind, the label agrees with the
handle whenever no turn is under way. Witness: the invariant of whole turns. -/
theorem label_agrees_with_handle {hasNotify : Bool} {t : System}
    (reach : Reachable LabelsLeft hasNotify t) (idle : t.Idle)
    : Labelled t.state.mem.wallet t.state.mem.state :=
  keepsLabel.turnRule.reachable (by simp [LabelInv, Labelled, World.view, World.start]) reach idle

/-- Everything succeeds, but for an init by an answer with an unreadable trust. -/
def Script.readable (node : Json) : Script := fun h c =>
  match c with
  | .lib (.init ..) =>
      .ok ((lastAnswer h).all fun node => (node.valueBool "trusted" false matches .ok _))
  | c => Script.succeeding true 2 node h c

theorem Script.readable_follows {node : Json} : (Script.readable node).Follows LabelsLeft := by
  intro h c m
  cases c with
  | lib c =>
      cases c with
      | walletExists path =>
          intro job _ goes
          rw [FieldsRead, if_pos (goes.mp rfl)]
          trivial
      | init =>
          simp only [Script.readable]
          cases answered : lastAnswer h with
          | none => simp [LabelsLeft, answered]
          | some node =>
              cases trusted : node.valueBool "trusted" false with
              | ok trust => simp [LabelsLeft, answered, IllTrusted, trusted]
              | error e => simp [LabelsLeft, trusted]
      | _ => trivial
  | _ => trivial

/-- A wallet opened by a node in the clear. -/
def World.openedReadably : World :=
  let job := .obj [("name", .str "w"), ("network", .str "stagenet")]
  (World.withJob "open_wallet" job).afterTurn (Script.readable (clearNode (.bool true)))

theorem label_agrees_with_handle_opened
    : World.openedReadably.mem.wallet = some ⟨9⟩
      ∧ Labelled World.openedReadably.mem.wallet World.openedReadably.mem.state :=
  ⟨by decide +kernel,
    label_agrees_with_handle ((Reachable.withJob _ _).afterTurn Script.readable_follows) rfl⟩

/-- A wallet being created in the given language, in a run that any surroundings allow but for
the field. -/
def World.createdIn (language : Json) : World :=
  let job := .obj [("name", .str "w"), ("network", .str "stagenet"), ("language", language)]
  (World.withJob "create_wallet" job).afterTurn
    (Script.succeeding false 2 (clearNode (.bool true)))

/-- A language that is a number leaves the label of the open behind. -/
theorem numeric_language_keeps_label
    : Reachable AnyAnswer true ⟨.pure (), World.createdIn (.uint 5)⟩
      ∧ (World.createdIn (.uint 5)).mem.wallet = none
      ∧ (World.createdIn (.uint 5)).mem.state = .opening
      ∧ ¬Labelled (World.createdIn (.uint 5)).mem.wallet (World.createdIn (.uint 5)).mem.state := by
  have none : (World.createdIn (.uint 5)).mem.wallet = none := by decide +kernel
  have label : (World.createdIn (.uint 5)).mem.state = .opening := by decide +kernel
  refine ⟨(Reachable.withJob _ _).afterTurn fun _ _ _ => trivial, none, label, ?_⟩
  rw [none, label]
  simp [Labelled]

end MoneroWalletCore.Runtime
