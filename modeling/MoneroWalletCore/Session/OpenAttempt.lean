import MoneroWalletCore.Runtime.Replay
import MoneroWalletCore.Session.JobTurns

/-! What an open-like job leaves behind. The wallet object is a raw handle: between its return
and its publication only the explicit failure exits close it, so a throw there loses it.
-/

namespace MoneroWalletCore.Runtime

open Program

-----------------------------------------------------------------------------------------
-- The events of a job
-----------------------------------------------------------------------------------------

/-- The wallet objects that the manager returned, the last first. -/
def handles (h : History) : List Wallet := h.filterMap Event.handle?

/-- The wallet object that an event passed to `closeWallet`. -/
@[simp]
def Event.closed? : Event → Option Wallet
  | .asked (.lib (.closeWallet w _)) _ _ => some w
  | _ => none

def closings (h : History) : List Wallet := h.filterMap Event.closed?

/-- The calls on a wallet object. -/
@[simp]
def Lib.onWallet : Lib → Bool
  | .status _ | .errorString _ | .nettype _ | .setRefreshFromBlockHeight .. | .init ..
  | .setOffline .. | .setTrustedDaemon .. | .connected _ | .setAutoRefreshInterval ..
  | .startRefresh _ | .pauseRefresh _ | .stop _ | .refresh _ | .refreshAsync _
  | .rescanBlockchainAsync _ | .address .. | .store .. | .watchOnly _ | .synchronized _
  | .blockChainHeight _ | .createTransaction .. | .setPassword .. => true
  | _ => false

/-- A throw out of a call on a wallet object, or out of the report that it is syncing. -/
@[simp]
def Event.thrown : Event → Bool
  | .asked (.lib c) (.error _) _ => c.onWallet
  | .asked (.emit event payload) (.error _) _ =>
      event = "walletStateChanged" && str payload "state" = "syncing"
  | _ => false

@[simp]
def Event.dialled : Event → Bool
  | .asked (.lib (.init ..)) (.ok true) _ => true
  | _ => false

/-- A node that is dialled directly, with a trust that is no boolean. -/
def IllTrusted (node : Json) : Prop :=
  routeOf node = .direct ∧ ∃ e, node.valueBool "trusted" false = .error e

/-- What matters of a job's events. -/
structure Attempt where
  handles : List Wallet := []
  closings : List Wallet := []
  thrown : Bool := false
  dialled : Bool := false
  answers : List Json := []

def attempt (h : History) : Attempt :=
  {
    handles := handles h
    closings := closings h
    thrown := h.any Event.thrown
    dialled := h.any Event.dialled
    answers := answers h
  }

/-- The attempt with one more event. -/
@[simp]
def Attempt.after (a : Attempt) (e : Event) : Attempt :=
  {
    handles := e.handle?.toList ++ a.handles
    closings := e.closed?.toList ++ a.closings
    thrown := e.thrown || a.thrown
    dialled := e.dialled || a.dialled
    answers := e.node?.toList ++ a.answers
  }

@[simp] theorem attempt_cons {e : Event} {h : History}
    : attempt (e :: h) = (attempt h).after e := by
  simp only [attempt, Attempt.after, answers_cons, List.any_cons, Attempt.mk.injEq, and_self,
    and_true, handles, closings]
  constructor
  · cases returned : e.handle? <;> simp only [List.filterMap_cons, returned] <;> rfl
  · cases closed : e.closed? <;> simp only [List.filterMap_cons, closed] <;> rfl

/-- No call on the wallet object threw, nor the report of it, and the trust of the node was
readable if the wallet was dialled. -/
def Attempt.Undisturbed (a : Attempt) : Prop :=
  a.thrown = false ∧ (a.dialled = true → ∀ node ∈ a.answers, ¬IllTrusted node)

-----------------------------------------------------------------------------------------
-- Where an attempt can end
-----------------------------------------------------------------------------------------

/-- The body alone holds the object that was returned, if one was. -/
def Holding (node : Json) (w? : Option Wallet) (dialled : Bool) (v : View) : Prop :=
  v.mem.wallet = none
    ∧ attempt v.history = { handles := w?.toList, dialled, answers := [node] }

/-- No wallet is open, and what was returned was closed once. -/
def Settled (v : View) : Prop :=
  v.mem.wallet = none ∧ (attempt v.history).Undisturbed
    ∧ (attempt v.history).closings = (attempt v.history).handles
    ∧ (attempt v.history).handles.Nodup

/-- An object was returned and not closed, and it was disturbed. -/
def Lost (v : View) : Prop :=
  ¬(attempt v.history).Undisturbed ∧ (attempt v.history).handles ≠ []
    ∧ (attempt v.history).closings = []

/-- The one object that was returned is the open one. -/
def Kept (v : View) : Prop :=
  (attempt v.history).Undisturbed ∧ (attempt v.history).closings = []
    ∧ ∃ w, v.mem.wallet = some w ∧ (attempt v.history).handles = [w]

/-- How a body may be left by a throw. -/
abbrev Left (v : View) : Prop := Settled v ∨ Lost v

/-- How a stage ends: the body's answer is a failure with nothing left behind, or it goes on. -/
def Continues {α : Type} (next : α → View → Prop) (ended : Stage α) (v : View) : Prop :=
  match ended with
  | .leave out => outcome out = .ok .failed ∧ Settled v
  | .go value => next value v

variable {rule : Surroundings} {node : Json} {w : Wallet} {v : View}

theorem Holding.settled (untouched : Holding node none false v) : Settled v := by
  obtain ⟨none, same⟩ := untouched
  refine ⟨none, ?_, by rw [same]; rfl, by simp [same]⟩
  rw [same]
  exact ⟨rfl, nofun⟩

/-- What a stage leads to, the body leads to. -/
theorem andThen_leads {α : Type} {stage : Worker (Stage α)} {next : α → Worker Json}
    {follows : α → View → Prop} {normal : Json → View → Prop} {thrown : Exn → View → Prop}
    (first : stage.wp (View.act rule) (Continues follows) thrown v)
    (answers : ∀ out v', outcome out = .ok .failed → Settled v' → normal out v')
    (rest : ∀ value v', follows value v' → (next value).wp (View.act rule) normal thrown v')
    : (andThen stage next).wp (View.act rule) normal thrown v := by
  rw [wp_andThen]
  apply wp_mono first
  · intro ended v' continues
    cases ended with
    | leave out => exact answers out v' continues.1 continues.2
    | go value => exact rest value v' continues
  · exact fun _ _ left => left

-----------------------------------------------------------------------------------------
-- Stages
-----------------------------------------------------------------------------------------

@[simp] theorem str_statusLocked {m : Mem} : str (statusLocked m) "state" = stateName m.state := rfl

theorem stateName_eq_syncing {s : State} : stateName s = "syncing" ↔ s = .syncing := by
  cases s <;> decide

theorem refuseOpen_settles {α : Type} {next : α → View → Prop} {label msg : String}
    (settled : Settled v)
    : (refuseOpen label msg : Worker (Stage α)).wp (View.act rule) (Continues next)
        (fun _ => Settled) v := by
  simp [refuseOpen, Continues, Settled, Event.handle?, Event.node?, stateName_eq_syncing]
  exact fun _ => ⟨fun _ _ => settled, fun _ _ => settled⟩

theorem makeWallet_holds {kind : String} {p : Json} {password path : String} {nettype : Int}
    (untouched : Holding node none false v)
    : (makeWallet kind p password path nettype).wp (View.act rule)
        (fun w? => Holding node w? false) (fun _ => Holding node none false) v := by
  obtain ⟨none, same⟩ := untouched
  simp +contextual [makeWallet, Holding, none, same, Event.handle?, Event.node?]

theorem obtainWallet_holds {kind : String} {p : Json} {o : OpenParams} {path : String}
    {nettype : Int} (untouched : Holding node none false v)
    : (obtainWallet kind p o path nettype).wp (View.act rule)
        (Continues fun w? => Holding node w? false) (fun _ => Settled) v := by
  have looked {answer : Except Exn Bool} {path : String}
      : Holding node none false (v.push (.asked (.lib (.walletExists path)) answer v.mem)) := by
    obtain ⟨none, same⟩ := untouched
    exact ⟨none, by cases answer <;> simp [same, Event.handle?, Event.node?]⟩
  refine wp_bind.mpr (Worker.wp_lib.mpr ⟨fun found _ => ?_, fun _ _ => looked.settled⟩)
  simp only [wp_ite, bind_def, wp_bind]
  refine ⟨fun _ => refuseOpen_settles looked.settled, fun _ => ?_⟩
  refine ⟨fun _ => refuseOpen_settles looked.settled, fun _ => ?_⟩
  apply wp_mono (makeWallet_holds looked)
  · exact fun _ _ holding => holding
  · exact fun _ _ untouched => untouched.settled

theorem checkWallet_holds {network : String} {nettype : Int} {w? : Option Wallet}
    (holding : Holding node w? false v)
    : (checkWallet network nettype w?).wp (View.act rule)
        (Continues fun w => Holding node (some w) false) (fun _ => Left) v := by
  obtain ⟨none, same⟩ := holding
  cases w? <;>
    simp +contextual [checkWallet, openFailed, refuseOpen, Continues, Left, Settled, Lost,
      Attempt.Undisturbed, Holding, none, same, Event.handle?, Event.node?, stateName_eq_syncing]

theorem initWallet_holds {kind network : String} {plan : Plan}
    (holding : Holding node (some w) false v)
    : (initWallet kind network plan w).wp (View.act rule)
        (Continues fun _ => Holding node (some w) true) (fun _ => Left) v := by
  obtain ⟨none, same⟩ := holding
  simp +contextual [initWallet, dialWallet, wp_when, refuseOpen, Continues, Left, Settled, Lost,
    Attempt.Undisturbed, Holding, none, same, Event.handle?, Event.node?, stateName_eq_syncing]

theorem waitOffline_holds {plan : Plan} (holding : Holding node (some w) true v)
    : (waitOffline plan w).wp (View.act rule) (fun _ => Holding node (some w) true)
        (fun _ => Lost) v := by
  obtain ⟨none, same⟩ := holding
  simp +contextual [waitOffline, wp_when, Lost, Attempt.Undisturbed, Holding, none, same,
    Event.handle?, Event.node?]

theorem trustDaemon_holds {plan : Plan} (holding : Holding plan.node (some w) true v)
    : (trustDaemon plan w).wp (View.act rule)
        (fun _ v' => ¬IllTrusted plan.node ∧ Holding plan.node (some w) true v')
        (fun _ => Lost) v := by
  obtain ⟨none, same⟩ := holding
  simp +contextual [trustDaemon, Lost, Attempt.Undisturbed, Holding, none, same, Event.handle?,
    Event.node?, IllTrusted]

theorem awaitConnected_holds {looks : Nat} (holding : Holding node (some w) true v)
    : (awaitConnected w looks).wp (View.act rule) (fun _ => Holding node (some w) true)
        (fun _ => Lost) v := by
  induction looks generalizing v with
  | zero => exact holding
  | succ looks ih =>
      obtain ⟨none, same⟩ := holding
      simp only [awaitConnected, bind_def, wp_bind, Worker.wp_lib, wp_ite, Worker.wp_sleep]
      refine ⟨fun _ _ => ⟨fun _ => ?_, fun _ _ _ => ih ?_⟩, fun _ _ => ?_⟩
      all_goals
        simp [Lost, Attempt.Undisturbed, Holding, none, same, Event.handle?, Event.node?]

theorem connectDaemon_holds {plan : Plan} (trusted : ¬IllTrusted node)
    (holding : Holding node (some w) true v)
    : (connectDaemon plan w).wp (View.act rule) (Continues fun _ => Holding node (some w) true)
        (fun _ => Left) v := by
  simp only [connectDaemon, wp_ite, bind_def, wp_bind]
  refine ⟨fun _ => ?_, fun _ => holding⟩
  apply wp_mono (awaitConnected_holds holding)
  · intro connected v' holding'
    refine ⟨fun _ => ?_, fun _ => holding'⟩
    have closed {answer : Except Exn Bool}
        : Settled (v'.push (.asked (.lib (.closeWallet w true)) answer v'.mem)) := by
      obtain ⟨none, same⟩ := holding'
      cases answer <;>
        simpa [Settled, Attempt.Undisturbed, none, same, Event.handle?, Event.node?] using trusted
    refine Worker.wp_lib.mpr ⟨fun _ _ => ?_, fun _ _ => .inl closed⟩
    exact wp_mono (refuseOpen_settles closed) (fun _ _ ended => ended) (fun _ _ => .inl)
  · exact fun _ _ lost => .inr lost

theorem startWallet_holds {plan : Plan} (holding : Holding node (some w) true v)
    : (startWallet plan w).wp (View.act rule) (fun _ => Holding node (some w) true)
        (fun _ => Lost) v := by
  obtain ⟨none, same⟩ := holding
  simp +contextual [startWallet, wp_when, Lost, Attempt.Undisturbed, Holding, none, same,
    Event.handle?, Event.node?]

-----------------------------------------------------------------------------------------
-- Publication
-----------------------------------------------------------------------------------------

/-- The object is the open wallet, and nothing has disturbed it. -/
def Published (node : Json) (w : Wallet) (v : View) : Prop :=
  v.mem.wallet = some w
    ∧ attempt v.history = { handles := [w], dialled := true, answers := [node] }

/-- A report changes neither the open wallet nor what matters of the events. -/
theorem keeps_attempt {Inv : View → Prop}
    (same : ∀ v v' : View, v'.mem.wallet = v.mem.wallet →
      attempt v'.history = attempt v.history → verdicts v'.history = verdicts v.history →
      Inv v → Inv v')
    : ActionsKeep rule Reporting Inv := by
  apply ActionsKeep.acting
  · intro v m assigned holds
    obtain ⟨o, kept, _⟩ := assigned
    exact same v _ (congrArg Session.wallet kept) rfl rfl holds
  · intro v c answer reports _ holds
    cases c with
    | notify => exact same v _ rfl (by simp [Event.handle?, Event.node?]) rfl holds
    | emit event payload =>
        have finished : event = "jobFinished" := by simpa [Call.reports] using reports
        refine same v _ rfl ?_ rfl holds
        cases answer <;> simp [Event.handle?, Event.node?, finished]
    | _ => cases reports

theorem keeps_published : ActionsKeep rule Reporting (Published node w) := by
  apply keeps_attempt
  intro v v' wallet events _ published
  exact ⟨wallet.trans published.1, events.trans published.2⟩

theorem restrictFiles_keeps {path : String} (published : Published node w v)
    : (restrictFiles path).wp (View.act rule) (fun _ => Published node w) (fun _ _ => False) v := by
  apply Worker.wp_forEach _ published
  rintro f v' ⟨isOpen, same⟩
  simp [wp_when, Published, isOpen, same, Event.handle?, Event.node?]

theorem announceWallet_ends {o : OpenParams} {path addr : String} (trusted : ¬IllTrusted node)
    (published : Published node w v)
    : (announceWallet o path addr w).wp (View.act rule)
        (fun out v' => outcome out = .ok .done ∧ Kept v') (fun _ => Lost) v := by
  simp only [announceWallet, bind_def, wp_bind]
  apply wp_mono (notifyOpen_reporting.keeps keeps_published published)
  · intro _ v' told
    apply wp_mono (restrictFiles_keeps told.2)
    · rintro _ v'' ⟨isOpen, same⟩
      simp [Lost, Kept, Attempt.Undisturbed, isOpen, same, Event.handle?, Event.node?, stateName,
        trusted]
    · exact fun _ _ impossible => impossible.elim
  · exact fun _ _ impossible => impossible.1.elim

theorem publishWallet_ends {o : OpenParams} {plan : Plan} {path addr : String}
    (trusted : ¬IllTrusted plan.node) (holding : Holding plan.node (some w) true v)
    : (publishWallet o plan path addr w).wp (View.act rule)
        (fun out v' => outcome out = .ok .done ∧ Kept v') (fun _ => Lost) v := by
  obtain ⟨none, same⟩ := holding
  simp only [publishWallet, bind_def, wp_bind, Worker.wp_locked, Worker.wp_update, Worker.wp_now]
  intro _ now _ _
  apply announceWallet_ends trusted
  exact ⟨rfl, by simp [same, Event.handle?, Event.node?]⟩

-----------------------------------------------------------------------------------------
-- The job
-----------------------------------------------------------------------------------------

/-- How a body ends that returns. -/
def Ended (out : Json) (v : View) : Prop :=
  (outcome out = .ok .failed ∧ Settled v) ∨ (outcome out = .ok .done ∧ Kept v)

theorem attachWallet_ends {o : OpenParams} {plan : Plan} {path : String}
    (holding : Holding plan.node (some w) true v)
    : (attachWallet o plan path w).wp (View.act rule) Ended (fun _ => Left) v := by
  simp only [attachWallet, bind_def, wp_bind]
  apply wp_mono (waitOffline_holds holding)
  · intro _ v₁ holding₁
    apply wp_mono (trustDaemon_holds holding₁)
    · rintro _ v₂ ⟨trusted, holding₂⟩
      apply andThen_leads (connectDaemon_holds trusted holding₂)
      · exact fun _ _ failed settled => .inl ⟨failed, settled⟩
      · intro _ v₃ holding₃
        rw [wp_bind]
        apply wp_mono (startWallet_holds holding₃)
        · intro addr v₄ holding₄
          exact wp_mono (publishWallet_ends trusted holding₄) (fun _ _ => .inr) (fun _ _ => .inr)
        · exact fun _ _ => .inr
    · exact fun _ _ => .inr
  · exact fun _ _ => .inr

theorem openWith_ends {kind : String} {p : Json} {o : OpenParams} {plan : Plan}
    (untouched : Holding plan.node none false v)
    : (openWith kind p o plan).wp (View.act rule) Ended (fun _ => Left) v := by
  have fails (out : Json) (v' : View) (failed : outcome out = .ok .failed) (settled : Settled v')
      : Ended out v' := .inl ⟨failed, settled⟩
  have labels : (setState .opening "").wp (View.act rule) (fun _ => Holding plan.node none false)
      (fun _ => Holding plan.node none false) v := by
    obtain ⟨none, same⟩ := untouched
    simp [Holding, none, same, Event.handle?, Event.node?, stateName]
  simp only [openWith, bind_def, wp_bind, wp_ite, Worker.wp_locked, Worker.wp_read]
  refine fun others => ⟨fun _ => fails _ _ rfl untouched.settled, fun _ => ?_⟩
  apply wp_mono labels
  · intro _ v₁ opening others
    have addressed {answer : Except Exn Unit} {address : String}
        : Holding plan.node none false
            (v₁.push (.asked (.lib (.setDaemonAddress address)) answer v₁.mem)) := by
      obtain ⟨none, same⟩ := opening
      exact ⟨none, by cases answer <;> simp [same, Event.handle?, Event.node?]⟩
    refine Worker.wp_lib.mpr ⟨fun _ _ => ?_, fun _ _ => .inl addressed.settled⟩
    refine andThen_leads
      (wp_mono (obtainWallet_holds addressed) (fun _ _ ended => ended) (fun _ _ => .inl)) fails ?_
    intro w? v₂ holding₂
    apply andThen_leads (checkWallet_holds holding₂) fails
    intro w v₃ holding₃
    apply andThen_leads (initWallet_holds holding₃) fails
    exact fun _ v₄ holding₄ => attachWallet_ends holding₄
  · exact fun _ _ opening => .inl opening.settled

/-- With no wallet open, an open-like job loses the object it obtained exactly when it is
disturbed. -/
theorem doOpenLike_ends {kind : String} {p : Json} (none : v.mem.wallet = none)
    (nothing : attempt v.history = {})
    : (doOpenLike kind p).wp (View.act rule) Ended (fun _ => Left) v := by
  have settled {v' : View} (none' : v'.mem.wallet = Option.none)
      (clean : (attempt v'.history).thrown = false ∧ (attempt v'.history).dialled = false
        ∧ (attempt v'.history).closings = [] ∧ (attempt v'.history).handles = [])
      : Settled v' := by
    obtain ⟨calm, away, closed, returned⟩ := clean
    exact ⟨none', ⟨calm, fun dialled => by simp [away] at dialled⟩, closed.trans returned.symm,
      by simp [returned]⟩
  have unopened : Settled v := settled none (by simp [nothing])
  have asked {answer : Except Exn Json} {network : String}
      : Settled (v.push (.asked (.resolve network) answer v.mem)) :=
    settled none (by cases answer <;> simp [nothing, Event.handle?])
  simp only [doOpenLike, bind_def, wp_bind, Worker.wp_orThrow, wp_ite, Worker.wp_resolve]
  refine ⟨fun o _ => ⟨fun _ => .inl ⟨rfl, unopened⟩, fun _ => ⟨fun _ => .inl ⟨rfl, unopened⟩,
    fun _ => ?_⟩⟩, fun _ _ => .inl unopened⟩
  refine ⟨fun node _ => ⟨fun policy passed => ?_, fun _ _ => .inl asked⟩, fun _ _ => .inl asked⟩
  cases policy with
  | leave out =>
      obtain ⟨msg, rfl⟩ := nodePolicy_leave passed
      exact .inl ⟨outcome_err, asked⟩
  | go plan =>
      apply openWith_ends
      rw [(nodePolicy_go passed).1]
      exact ⟨none, by simp [nothing, Event.handle?, Event.node?]⟩

/-- The verdict on the job, and what goes with it. -/
def Concluded (ptr : JobPtr) (v : View) : Prop :=
  (verdicts v.history = [(ptr, .ok .failed)] ∧ Left v)
    ∨ (verdicts v.history = [(ptr, .ok .done)] ∧ Kept v)

theorem Concluded.of_same {ptr : JobPtr} {v v' : View} (wallet : v'.mem.wallet = v.mem.wallet)
    (events : attempt v'.history = attempt v.history)
    (settled : verdicts v'.history = verdicts v.history) (concluded : Concluded ptr v)
    : Concluded ptr v' := by
  unfold Concluded Left Settled Lost Kept at concluded ⊢
  rwa [wallet, events, settled]

theorem Ended.concluded {ptr : JobPtr} {out : Json} (ended : Ended out v)
    (unsettled : verdicts v.history = [])
    : Concluded ptr (v.settle ptr out) := by
  have events : attempt (v.settle ptr out).history = attempt v.history := by
    simp [View.settle, Event.handle?, Event.node?]
  unfold Concluded Left Settled Lost Kept
  rw [events, View.settle, View.push_mem, View.push_history, verdicts_settled, unsettled]
  rcases ended with ⟨failed, settled⟩ | ⟨done, kept⟩
  · exact .inl ⟨by rw [failed], .inl settled⟩
  · exact .inr ⟨by rw [done], kept⟩

theorem Left.concluded {ptr : JobPtr} {error : Exn} (left : Left v)
    (unsettled : verdicts v.history = [])
    : Concluded ptr (v.settle ptr (caught error)) := by
  have events : attempt (v.settle ptr (caught error)).history = attempt v.history := by
    simp [View.settle, Event.handle?, Event.node?]
  unfold Concluded Left Settled Lost
  rw [events, View.settle, View.push_mem, View.push_history, verdicts_settled, unsettled,
    outcome_caught]
  exact .inl ⟨rfl, left⟩

theorem run_concludes {ptr : JobPtr} {job : Job} (kind : job.kind ∈ openKinds)
    (none : v.mem.wallet = none) (only : v.history = [.began ptr job])
    : (run ptr job).wp (View.act rule) (fun _ => Concluded ptr) (fun _ => Concluded ptr) v := by
  have before : ActionsKeep rule Reporting (fun v' =>
      v'.mem.wallet = Option.none ∧ attempt v'.history = {} ∧ verdicts v'.history = []) := by
    apply keeps_attempt
    rintro v v' wallet events settled ⟨none, nothing, unsettled⟩
    exact ⟨wallet.trans none, events.trans nothing, settled.trans unsettled⟩
  apply run_settles before (keeps_attempt fun _ _ => Concluded.of_same)
  · rintro v' ⟨none', nothing, unsettled⟩
    have body : dispatch job = doOpenLike job.kind job.params := if_pos kind
    rw [Settles, body]
    apply wp_mono (wp_and (doOpenLike_ends none' nothing) (Worker.Stays.settles doOpenLike_stays v'))
    · rintro out v'' ⟨ended, same⟩
      exact ended.concluded (same.trans unsettled)
    · rintro error v'' ⟨left, same⟩
      exact left.concluded (same.trans unsettled)
  · rw [only]
    exact ⟨none, rfl, rfl⟩

-----------------------------------------------------------------------------------------
-- Every turn that runs such a job
-----------------------------------------------------------------------------------------

/-- A job that failed leaves no wallet open, and each object that it obtained was closed once;
one that is done leaves the one object that it obtained open, and never closed it. -/
def LeavesNothing (ptr : JobPtr) (new : History) (m : Mem) : Prop :=
  ∃ state, verdicts new = [(ptr, .ok state)]
    ∧ (state = .failed → m.wallet = none ∧ ∀ w ∈ handles new, (closings new).count w = 1)
    ∧ (state = .done → ∃ w, handles new = [w] ∧ m.wallet = some w ∧ w ∉ closings new)

theorem Settled.closedOnce (settled : Settled v)
    : ∀ w ∈ handles v.history, (closings v.history).count w = 1 := by
  obtain ⟨-, -, closed, once⟩ := settled
  have same : closings v.history = handles v.history := closed
  intro w returned
  rw [same]
  exact List.count_eq_one_of_mem once returned

theorem Lost.notClosed (lost : Lost v)
    : ¬∀ w ∈ handles v.history, (closings v.history).count w = 1 := by
  obtain ⟨-, returned, unclosed⟩ := lost
  intro each
  obtain ⟨w, among⟩ := List.exists_mem_of_ne_nil _ returned
  have none : closings v.history = [] := unclosed
  simpa [none] using each w among

/-- An open-like job run with no wallet open leaves nothing behind exactly when nothing throws
between the return of its wallet object and its end, and a node that is dialled directly has a
readable trust. Witness: the three ways in which the body can end. -/
theorem leavesNothing_iff_undisturbed {w w' : World} {new : History} {ptr : JobPtr} {job : Job}
    (whole : World.Turn AnyAnswer w w') (none : w.mem.wallet = none)
    (split : w'.history = new ++ w.history) (began : (ptr, job) ∈ jobsBegun new)
    (kind : job.kind ∈ openKinds)
    : LeavesNothing ptr new w'.mem ↔ (attempt new).Undisturbed := by
  have concluded : Concluded ptr (View.at w'.mem new) :=
    whole.job split began (run_concludes kind none rfl)
  rcases concluded with ⟨verdict, settled | lost⟩ | ⟨verdict, calm, unclosed, w, isOpen, returned⟩
  · refine ⟨fun _ => settled.2.1, fun _ => ⟨.failed, verdict, fun _ => ?_, nofun⟩⟩
    exact ⟨settled.1, settled.closedOnce⟩
  · refine ⟨?_, fun calm => absurd calm lost.1⟩
    rintro ⟨state, verdict', failed, -⟩
    rw [View.at_history, verdict'] at verdict
    cases verdict
    exact absurd (failed rfl).2 lost.notClosed
  · refine ⟨fun _ => calm, fun _ => ⟨.done, verdict, nofun, fun _ => ⟨w, returned, isOpen, ?_⟩⟩⟩
    have none : closings new = [] := unclosed
    simp [none]

/-- A node in the clear, with the given trust. -/
def clearNode (trusted : Json) : Json :=
  .obj [("url", .str "http://127.0.0.1:18081"), ("trusted", trusted)]

/-- A wallet being opened by that answer. -/
def World.openedClear (trusted : Json) : World :=
  let job := .obj [("name", .str "w"), ("network", .str "stagenet")]
  (World.withJob "open_wallet" job).afterTurn (Script.succeeding true 2 (clearNode trusted))

/-- The events of that turn are all there are. -/
theorem World.openedClear_turn (trusted : Json)
    : World.Turn AnyAnswer
        (World.withJob "open_wallet" (.obj [("name", .str "w"), ("network", .str "stagenet")]))
        (World.openedClear trusted) :=
  World.afterTurn_turn (fun _ _ _ => trivial) _

theorem leavesNothing_iff_undisturbed_trusted
    : LeavesNothing 0 (World.openedClear (.bool true)).history
          (World.openedClear (.bool true)).mem
        ↔ (attempt (World.openedClear (.bool true)).history).Undisturbed :=
  leavesNothing_iff_undisturbed (World.openedClear_turn _) rfl (List.append_nil _).symm
    (.head _) (by decide)

/-- With a trust that is null the wallet object is lost: the job fails, and the object was
returned and not closed. -/
theorem null_trust_loses_wallet
    : World.Turn AnyAnswer
          (World.withJob "open_wallet" (.obj [("name", .str "w"), ("network", .str "stagenet")]))
          (World.openedClear .null)
      ∧ verdicts (World.openedClear .null).history = [(0, .ok .failed)]
      ∧ handles (World.openedClear .null).history = [⟨9⟩]
      ∧ closings (World.openedClear .null).history = []
      ∧ ¬LeavesNothing 0 (World.openedClear .null).history (World.openedClear .null).mem := by
  have verdict : verdicts (World.openedClear .null).history = [(0, .ok .failed)] := by
    decide +kernel
  have returned : handles (World.openedClear .null).history = [⟨9⟩] := by decide +kernel
  have unclosed : closings (World.openedClear .null).history = [] := by decide +kernel
  refine ⟨World.openedClear_turn _, verdict, returned, unclosed, ?_⟩
  rintro ⟨state, verdict', failed, -⟩
  rw [verdict] at verdict'
  cases verdict'
  have once := (failed rfl).2 ⟨9⟩ (by simp [returned])
  simp [unclosed] at once

end MoneroWalletCore.Runtime
