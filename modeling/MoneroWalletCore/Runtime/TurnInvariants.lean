import MoneroWalletCore.Runtime.Frames

/-! The rule for invariants of whole turns: what the steady actions keep, and the bodies that
are not steady keep, every turn of the worker keeps.
-/

namespace MoneroWalletCore.Runtime

open Program

variable {α β : Type} {rule : Surroundings} {Inv : View → Prop}

/-- Every single action of a class keeps the invariant. -/
def ActionsKeep (rule : Surroundings) (allowed : Op → Prop) (Inv : View → Prop) : Prop :=
  ∀ v op answer v', allowed op → View.act rule v op answer v' → Inv v → Inv v'

/-- A body keeps the invariant, however it is left. -/
def Worker.Keeps (rule : Surroundings) (p : Worker α) (Inv : View → Prop) : Prop :=
  ∀ v, Inv v → p.wp (View.act rule) (fun _ => Inv) (fun _ => Inv) v

/-- A body within a class keeps what the class keeps. -/
theorem ActionsKeep.body {allowed : Op → Prop} {normal : α → Prop} {thrown : Exn → Prop}
    {p : Worker α} (kept : ActionsKeep rule allowed Inv) (within : p.Within allowed normal thrown)
    : p.Keeps rule Inv := by
  intro v holds
  exact wp_mono (within.keeps kept holds) (fun _ _ => And.right) (fun _ _ => And.right)

/-- A class keeps an invariant when its assignments and its calls do. -/
theorem ActionsKeep.acting {assigns : Mem → Mem → Prop} {calls : Call → Bool}
    (update : ∀ (v : View) (m : Mem), (∃ o, assigns (v.mem.under o) m) → Inv v →
      Inv (View.at m v.history))
    (ask : ∀ (v : View) (c : Call) (answer : c.Answer), calls c = true →
      rule v.history (.asked c answer v.mem) → Inv v → Inv (v.push (.asked c answer v.mem)))
    : ActionsKeep rule (Acting assigns calls) Inv := by
  intro v op answer v' acting step holds
  cases op with
  | update f =>
      obtain ⟨o, rfl, rfl⟩ := step
      exact update v _ ⟨o, acting _⟩ holds
  | lock mode =>
      cases step
      exact holds
  | unlock mode =>
      cases step
      exact holds
  | dequeue => exact acting.elim
  | settle ptr out => exact acting.elim
  | ask c =>
      obtain ⟨allowed, rfl⟩ := step
      exact ask v c answer acting allowed holds

/-- One call of a class, made by itself. -/
theorem ActionsKeep.ask {assigns : Mem → Mem → Prop} {calls : Call → Bool} {v : View} {c : Call}
    {answer : c.Answer} (kept : ActionsKeep rule (Acting assigns calls) Inv)
    (call : calls c = true) (allowed : rule v.history (.asked c answer v.mem)) (holds : Inv v)
    : Inv (v.push (.asked c answer v.mem)) :=
  kept v (.ask c) answer _ call ⟨allowed, rfl⟩ holds

theorem ActionsKeep.and {allowed : Op → Prop} {also : View → Prop}
    (kept : ActionsKeep rule allowed Inv) (more : ActionsKeep rule allowed also)
    : ActionsKeep rule allowed (fun v => Inv v ∧ also v) := by
  intro v op answer v' taken step holds
  exact ⟨kept v op answer v' taken step holds.1, more v op answer v' taken step holds.2⟩

theorem ActionsKeep.mono {allowed fewer : Op → Prop} (kept : ActionsKeep rule allowed Inv)
    (less : ∀ op, fewer op → allowed op)
    : ActionsKeep rule fewer Inv :=
  fun v op answer v' taken => kept v op answer v' (less op taken)

theorem Worker.Keeps.bind {p : Worker α} {next : α → Worker β} (first : p.Keeps rule Inv)
    (rest : ∀ value, (next value).Keeps rule Inv)
    : Worker.Keeps rule (p.bind next) Inv := by
  intro v holds
  rw [wp_bind]
  exact wp_mono (first v holds) (fun value v' kept => rest value v' kept) (fun _ _ kept => kept)

/-- Once there is an event of a kind, there always is. -/
theorem keeps_any {kind : Event → Bool}
    : ActionsKeep rule (fun _ => True) (fun v => v.history.any kind = true) := by
  have pushed {e : Event} {h : History} (some : h.any kind = true)
      : (e :: h).any kind = true := by
    rw [List.any_cons, some, Bool.or_true]
  intro v op answer v' _ step some
  cases op with
  | update f =>
      obtain ⟨o, rfl, rfl⟩ := step
      exact some
  | lock mode =>
      cases step
      exact some
  | unlock mode =>
      cases step
      exact some
  | dequeue =>
      cases step
      cases answer with
      | none => exact some
      | some front => exact pushed some
  | settle ptr out =>
      obtain ⟨rfl, rfl⟩ := step
      exact pushed some
  | ask c =>
      obtain ⟨_, rfl⟩ := step
      exact pushed some

-----------------------------------------------------------------------------------------
-- The two sections of the ticket store
-----------------------------------------------------------------------------------------

theorem wp_dequeue {v : View} {normal : Option (JobPtr × Job) → View → Prop}
    {thrown : Exn → View → Prop}
    : (perform Op.dequeue).wp (View.act rule) normal thrown v
      ↔ ∀ front, normal front { v with history := beganBy front ++ v.history } := by
  constructor
  · intro holds front
    exact holds _ _ rfl
  · intro holds front v' step
    cases step
    exact holds front

/-- An outcome is stored. -/
def View.settle (v : View) (ptr : JobPtr) (out : Json) : View :=
  v.push (.settled ptr out (outcome out))

theorem wp_settle {v : View} {ptr : JobPtr} {out : Json} {normal : JobState → View → Prop}
    {thrown : Exn → View → Prop}
    : (Program.call (.settle ptr out) Worker.orThrow : Worker JobState).wp (View.act rule) normal
        thrown v
      ↔ (Worker.orThrow (outcome out)).wp (View.act rule) normal thrown (v.settle ptr out) := by
  constructor
  · intro holds
    exact holds _ _ ⟨rfl, rfl⟩
  · intro holds state v' step
    obtain ⟨rfl, rfl⟩ := step
    exact holds

/-- A body leads to `Fin` once its outcome is stored, or the exception that left it is. -/
def Settles (rule : Surroundings) (ptr : JobPtr) (body : Worker Json) (Fin : View → Prop)
    (v : View) : Prop :=
  body.wp (View.act rule) (fun out v' => Fin (v'.settle ptr out))
    (fun error v' => Fin (v'.settle ptr (caught error))) v

-----------------------------------------------------------------------------------------
-- A job's run
-----------------------------------------------------------------------------------------

/-- What a turn throws it catches. -/
theorem turn_catches : turn.Within (fun _ => True) (fun _ => True) (fun _ => False) := by
  refine within_bind.mpr ⟨trivial, fun front => ?_⟩
  exact within_tryCatch.mpr (within_any _)

/-- A steady action begins no job. -/
theorem keeps_lastJob {job : Job}
    : ActionsKeep rule Steady (fun v => lastJob v.history = some job) :=
  ActionsKeep.acting (fun _ _ _ holds => holds) (fun _ _ _ _ _ holds => holds)

/-- A job's run only reports but for its body and the storing of its outcome. -/
theorem run_settles_by {allowed : Op → Prop} (reports : Reports allowed) {Pre Fin : View → Prop}
    (before : ActionsKeep rule allowed Pre) (after : ActionsKeep rule allowed Fin) {ptr : JobPtr}
    {job : Job} (body : ∀ v, Pre v → Settles rule ptr (dispatch job) Fin v) {v : View}
    (holds : Pre v)
    : (run ptr job).wp (View.act rule) (fun _ => Fin) (fun _ => Fin) v := by
  have tells {out : Json} {v' : View} (kept : Fin (v'.settle ptr out))
      : (settleJob ptr job out).wp (View.act rule) (fun _ => Fin) (fun _ => Fin) v' := by
    simp only [settleJob, bind_def, wp_bind, wp_settle, Worker.wp_orThrow]
    refine ⟨fun state _ => ?_, fun _ _ => kept⟩
    have told : Program.Within
        ((Worker.emit "jobFinished"
          (.obj [("jobId", .str job.id), ("state", .str state.name)])).tryCatch fun _ => .pure ())
        allowed (fun _ => True) (fun _ => True) := by
      simp [reports.tells]
    exact after.body told _ kept
  simp only [run, bind_def, wp_bind, wp_tryCatch]
  apply wp_mono (reports.resetLocksOnce.keeps before holds)
  · intro _ v' ready
    apply wp_mono (body v' ready.2)
    · exact fun _ _ kept => tells kept
    · exact fun _ _ kept => tells kept
  · exact fun _ _ impossible => impossible.1.elim

theorem run_settles {Pre Fin : View → Prop} (before : ActionsKeep rule Reporting Pre)
    (after : ActionsKeep rule Reporting Fin) {ptr : JobPtr} {job : Job}
    (body : ∀ v, Pre v → Settles rule ptr (dispatch job) Fin v) {v : View} (holds : Pre v)
    : (run ptr job).wp (View.act rule) (fun _ => Fin) (fun _ => Fin) v :=
  run_settles_by reporting_reports before after body holds

-----------------------------------------------------------------------------------------
-- Turns
-----------------------------------------------------------------------------------------

/-- A move is made off the direct route, and to a given node when the node module has just
answered with it. -/
structure MoveDue (resolved : Option Json) (v : View) : Prop where
  route : v.mem.route ≠ .direct
  given : ∀ node, resolved = some node → lastAnswer v.history = some node ∧ torReady node = true

/-- What is left to show of an invariant. A job's body is followed by the storing of its
outcome. -/
structure TurnRule (rule : Surroundings) (Inv : View → Prop) : Prop where
  steady : ActionsKeep rule Steady Inv
  begins : ∀ v ptr job, Inv v → Inv (v.push (.began ptr job))
  jobs : ∀ v ptr job, Inv v → lastJob v.history = some job →
    Settles rule ptr (dispatch job) Inv v
  moves : ∀ v abandon resolved, Inv v → MoveDue resolved v →
    (moveToTor abandon resolved).wp (View.act rule) (fun _ => Inv) (fun _ => Inv) v
  follows : ∀ synced, (followSync synced).Keeps rule Inv

namespace TurnRule

variable (keeps : TurnRule rule Inv)

include keeps

theorem run {v : View} {ptr : JobPtr} {job : Job} (holds : Inv v)
    (began : lastJob v.history = some job)
    : (run ptr job).wp (View.act rule) (fun _ => Inv) (fun _ => Inv) v :=
  run_settles ((keeps.steady.and keeps_lastJob).mono fun _ => Reporting.steady)
    (keeps.steady.mono fun _ => Reporting.steady)
    (fun v' ready => keeps.jobs v' ptr job ready.1 ready.2) ⟨holds, began⟩

theorem followRoute {synced : Bool} {now : Nat} {m : Mem} {v : View} (holds : Inv v)
    (same : m.route = v.mem.route)
    : (followRoute synced now m).wp (View.act rule) (fun _ => Inv) (fun _ => Inv) v := by
  simp only [Runtime.followRoute, wp_ite]
  refine ⟨fun due => ?_, fun _ => ⟨fun due => ?_, fun _ => holds⟩⟩
  · refine keeps.moves v _ none holds ⟨fun direct => ?_, fun _ none => by cases none⟩
    simp [same, direct] at due
  have asks : v.mem.route = .tor := by
    simp only [asksTor, Bool.and_eq_true, decide_eq_true_eq] at due
    exact same.symm.trans due.1
  have pushed {answer : Except Exn Json}
      (allowed : rule v.history (.asked (.resolve m.network) answer v.mem))
      : Inv (v.push (.asked (.resolve m.network) answer v.mem)) :=
    keeps.steady.ask rfl allowed holds
  simp only [reask, bind_def, wp_bind, Worker.wp_resolve, wp_when]
  refine ⟨fun node allowed => ⟨fun due => ?_, fun _ => pushed allowed⟩, fun _ => pushed⟩
  rw [Bool.and_eq_true] at due
  refine keeps.moves _ _ _ (pushed allowed) ⟨?_, fun node' same => ?_⟩
  · rw [View.push_mem, asks]
    simp
  · cases same
    exact ⟨rfl, due.1⟩

theorem tick : tick.Keeps rule Inv := by
  refine (keeps.steady.body resetLocksOnce_steadily).bind fun _ => ?_
  refine (keeps.steady.body observeWallet_steadily).bind fun seen => ?_
  cases seen with
  | none => exact fun _ holds => holds
  | some seen =>
      have time : Worker.now.Steadily := by simp [Worker.Steadily, Acting, Call.quiet]
      refine (keeps.steady.body time).bind fun now v holds => ?_
      have section_ : (Worker.update (ticked seen.2 now)).Steadily := by
        simpa [Worker.Steadily, Acting, Mem.SameLabelled] using ticked_session
      refine wp_bind.mpr (Worker.wp_update.mpr fun o => ?_)
      have kept := Worker.wp_update.mp (keeps.steady.body section_ v holds) o
      refine wp_bind.mpr (wp_mono (keeps.followRoute kept ?_) ?_ ?_)
      · have route (m : Mem) : (progressed seen.2 now m).route = (ticked seen.2 now m).route :=
          (congrArg Session.route (progressed_session m).1).trans
            (congrArg Session.route (ticked_session m).1).symm
        exact route _
      · exact fun _ v' followed => keeps.follows seen.1 v' followed
      · exact fun _ _ left => left

/-- A turn keeps the invariant, whatever its job is and however its body is left. -/
theorem turn : turn.Keeps rule Inv := by
  intro v holds
  refine wp_bind.mpr (wp_dequeue.mpr fun front => ?_)
  rw [wp_tryCatch]
  cases front with
  | none => exact keeps.tick v holds
  | some front => exact keeps.run (keeps.begins v front.1 front.2 holds) rfl

/-- It holds in every run, whenever no turn is under way. -/
theorem reachable {hasNotify : Bool} {t : System} (init : Inv (World.start hasNotify).view)
    (reach : Reachable rule hasNotify t) (idle : t.Idle)
    : Inv t.state.view :=
  reach.invariant idle init keeps.turn

end TurnRule

/-- The same for an invariant that does not speak of outcomes. A body knows its own job. -/
structure TurnKeeps (rule : Surroundings) (Inv : View → Prop) : Prop where
  steady : ActionsKeep rule Steady Inv
  begins : ∀ v ptr job, Inv v → Inv (v.push (.began ptr job))
  settles : ∀ v ptr out state, Inv v → Inv (v.push (.settled ptr out state))
  opens : ∀ v job, Inv v → lastJob v.history = some job → job.kind ∈ openKinds →
    (doOpenLike job.kind job.params).wp (View.act rule) (fun _ => Inv) (fun _ => Inv) v
  closes : doClose.Keeps rule Inv
  rescans : doRescan.Keeps rule Inv
  creates : ∀ v job, Inv v → lastJob v.history = some job → job.kind = "create_transaction" →
    (doCreateTransaction job.params).wp (View.act rule) (fun _ => Inv) (fun _ => Inv) v
  commits : ∀ p, (doCommit p).Keeps rule Inv
  disposes : ∀ p, (doDispose p).Keeps rule Inv
  moves : ∀ v abandon resolved, Inv v → MoveDue resolved v →
    (moveToTor abandon resolved).wp (View.act rule) (fun _ => Inv) (fun _ => Inv) v
  follows : ∀ synced, (followSync synced).Keeps rule Inv

namespace TurnKeeps

variable (keeps : TurnKeeps rule Inv)

include keeps

theorem dispatch {v : View} {job : Job} (holds : Inv v) (began : lastJob v.history = some job)
    : (dispatch job).wp (View.act rule) (fun _ => Inv) (fun _ => Inv) v := by
  simp only [Runtime.dispatch, wp_ite]
  refine ⟨fun isOpen => keeps.opens v job holds began isOpen, fun _ => ?_⟩
  refine ⟨fun _ => keeps.closes v holds, fun _ => ?_⟩
  refine ⟨fun _ => keeps.rescans v holds, fun _ => ?_⟩
  refine ⟨fun kind => keeps.creates v job holds began kind, fun _ => ?_⟩
  refine ⟨fun _ => keeps.commits _ v holds, fun _ => ?_⟩
  refine ⟨fun _ => keeps.disposes _ v holds, fun _ => ?_⟩
  exact ⟨fun _ => keeps.steady.body doChangePassword_steadily v holds, fun _ => holds⟩

theorem turnRule : TurnRule rule Inv where
  steady := keeps.steady
  begins := keeps.begins
  jobs _ ptr _ holds began :=
    wp_mono (keeps.dispatch holds began) (fun _ v' => keeps.settles v' ptr _ _)
      (fun _ v' => keeps.settles v' ptr _ _)
  moves := keeps.moves
  follows := keeps.follows

end TurnKeeps

-----------------------------------------------------------------------------------------
-- Quiet actions
-----------------------------------------------------------------------------------------

/-- A quiet action tells no wallet object anything. -/
theorem keeps_told {w : Wallet} {node : Option Json} {g : Wallet2}
    : ActionsKeep rule Quiet
        (fun v => openAnswer w v.history = node ∧ wallet2 w v.history = g) := by
  apply ActionsKeep.acting
  · exact fun _ _ _ holds => holds
  · intro v c answer quiet _ holds
    simpa [Call.quiet_handle quiet, Call.quiet_after quiet] using holds

theorem Worker.Quietly.tells {p : Worker α} (quietly : p.Quietly) (w : Wallet) (v : View)
    : p.wp (View.act rule)
        (fun _ v' => openAnswer w v'.history = openAnswer w v.history
          ∧ wallet2 w v'.history = wallet2 w v.history)
        (fun _ _ => True) v :=
  wp_mono (keeps_told.body quietly v ⟨rfl, rfl⟩) (fun _ _ told => told) (fun _ _ _ => trivial)

end MoneroWalletCore.Runtime
