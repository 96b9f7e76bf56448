import MoneroWalletCore.Session.JobTurns
import MoneroWalletCore.Tickets.Store

/-! How the worker attends to its jobs: it takes one off the queue with none in hand, gives the
one in hand an answer, and only then tells of it. This is what the ticket store owes the worker's
program, at every moment and among any steps of others.
-/

namespace MoneroWalletCore.Runtime

open Program

variable {α β : Type}

-----------------------------------------------------------------------------------------
-- What bodies answer
-----------------------------------------------------------------------------------------

/-- An answer in one of the two forms that a body gives. -/
def Answered (out : Json) : Prop := (∃ msg, out = err msg) ∨ ∃ result, out = okWith result

/-- Whatever the program is answered, what it returns satisfies a condition. -/
def Worker.Gives (gives : α → Prop) (p : Worker α) : Prop :=
  p.Within (fun _ => True) gives (fun _ => True)

namespace Worker.Gives

variable {gives : α → Prop}

theorem value {value : α} (holds : gives value) : Worker.Gives gives (.pure value) := holds

/-- What comes last decides. -/
theorem last {p : Worker β} {next : β → Worker α} (rest : ∀ value, (next value).Gives gives)
    : Worker.Gives gives (p.bind next) :=
  within_bind.mpr ((within_any p).mono (fun _ _ => trivial) (fun value _ => rest value)
    (fun _ _ => trivial))

theorem ite {condition : Prop} {decided : Decidable condition} {p q : Worker α}
    (yes : p.Gives gives) (no : q.Gives gives)
    : Worker.Gives gives (if condition then p else q) := by
  split
  · exact yes
  · exact no

theorem ensure {p : Worker α} {final : Worker Unit} (block : p.Gives gives)
    : Worker.Gives gives (p.ensure final) := by
  refine within_ensure.mpr (block.mono (fun _ allowed => allowed) (fun value holds => ?_)
    fun _ _ => ?_)
  · exact (within_any final).mono (fun _ _ => trivial) (fun _ _ => holds) (fun _ _ => trivial)
  · exact within_any final

theorem locked {mode : LockMode} {body : Worker α} (block : body.Gives gives)
    : (Worker.locked mode body).Gives gives :=
  ⟨trivial, fun _ => ensure block⟩

theorem refused {msg : String} : Worker.Gives Answered (.pure (err msg)) := .inl ⟨msg, rfl⟩

theorem succeeded {result : Json} : Worker.Gives Answered (.pure (okWith result)) :=
  .inr ⟨result, rfl⟩

/-- A stage that leaves, leaves with an answer. -/
def Leaving (ended : Stage α) : Prop := ∀ out, ended = .leave out → Answered out

theorem gone {value : α} : Worker.Gives Leaving (.pure (Stage.go value)) := nofun

theorem andThen {stage : Worker (Stage α)} {next : α → Worker Json} (first : stage.Gives Leaving)
    (rest : ∀ value, (next value).Gives Answered)
    : Worker.Gives Answered (Runtime.andThen stage next) := by
  refine within_bind.mpr (first.mono (fun _ _ => trivial) (fun ended leaving => ?_)
    (fun _ _ => trivial))
  cases ended with
  | leave out => exact leaving out rfl
  | go value => exact rest value

theorem refuseOpen {label msg : String} : (refuseOpen label msg : Worker (Stage α)).Gives Leaving :=
  last fun _ => value fun out same => by
    cases same
    exact .inl ⟨msg, rfl⟩

end Worker.Gives

open Worker

theorem obtainWallet_answers {kind : String} {p : Json} {o : OpenParams} {path : String}
    {nettype : Int}
    : (obtainWallet kind p o path nettype).Gives Gives.Leaving :=
  .last fun _ => .ite .refuseOpen (.ite .refuseOpen (.last fun _ => .gone))

theorem checkWallet_answers {network : String} {nettype : Int} {w? : Option Wallet}
    : (checkWallet network nettype w?).Gives Gives.Leaving := by
  cases w? with
  | none => exact .last fun _ => .refuseOpen
  | some w =>
      refine .last fun _ => .ite ?_ (.last fun _ => .ite ?_ .gone)
      · exact .last fun _ => .last fun _ => .refuseOpen
      · exact .last fun _ => .refuseOpen

theorem initWallet_answers {kind network : String} {plan : Plan} {w : Wallet}
    : (initWallet kind network plan w).Gives Gives.Leaving :=
  .last fun _ => .last fun _ => .ite .gone (.last fun _ => .last fun _ => .refuseOpen)

theorem connectDaemon_answers {plan : Plan} {w : Wallet}
    : (connectDaemon plan w).Gives Gives.Leaving :=
  .ite (.last fun _ => .ite (.last fun _ => .refuseOpen) .gone) .gone

theorem publishWallet_answers {o : OpenParams} {plan : Plan} {path addr : String} {w : Wallet}
    : (publishWallet o plan path addr w).Gives Answered :=
  .last fun _ => .last fun _ => .last fun _ => .last fun _ => .last fun _ => .last fun _ =>
    .last fun _ => .succeeded

theorem openWith_answers {kind : String} {p : Json} {o : OpenParams} {plan : Plan}
    : (openWith kind p o plan).Gives Answered := by
  refine .last fun _ => .ite .refused (.last fun _ => .last fun _ => .last fun _ => ?_)
  refine .andThen obtainWallet_answers fun _ => .andThen checkWallet_answers fun _ => ?_
  refine .andThen initWallet_answers fun _ => .last fun _ => .last fun _ => ?_
  exact .andThen connectDaemon_answers fun _ => .last fun _ => publishWallet_answers

theorem doOpenLike_answers {kind : String} {p : Json} : (doOpenLike kind p).Gives Answered := by
  refine .last fun o => .ite .refused (.ite .refused (.last fun node => ?_))
  refine within_bind.mpr (Worker.within_orThrow.mpr ⟨fun policy passed => ?_, fun _ _ => trivial⟩)
  cases policy with
  | leave out => exact .inl (nodePolicy_leave passed)
  | go plan => exact openWith_answers

theorem doClose_answers : doClose.Gives Answered := by
  refine .last fun held => ?_
  cases held with
  | none => exact .refused
  | some w =>
      refine .last fun _ => .last fun ok => .last fun _ => .last fun _ => .last fun _ => ?_
      cases ok with
      | true => exact .succeeded
      | false => exact .refused

theorem doRescan_answers : doRescan.Gives Answered :=
  .last fun _ => .ite (.last fun _ => .succeeded) .refused

theorem sending_answers {body : Wallet → Worker Json} (answers : ∀ w, (body w).Gives Answered)
    : (sending body).Gives Answered := by
  refine .locked (.last fun m => ?_)
  cases m.wallet with
  | none => exact .refused
  | some w => exact .last fun _ => .ite .refused (.last fun _ => .ensure (answers w))

theorem doCreateTransaction_answers {p : Json} : (doCreateTransaction p).Gives Answered := by
  refine sending_answers fun w => .last fun _ => .ite .refused (.last fun text => ?_)
  cases (parseAtomic text).filter (· ≠ 0) with
  | none => exact .refused
  | some amount =>
      refine .last fun _ => .last fun _ => .ite .refused (.last fun _ => .last fun _ =>
        .last fun _ => .last fun pt? => ?_)
      cases pt? with
      | none => exact .refused
      | some pt =>
          refine .last fun _ => .ite (.last fun _ => .refused) (.last fun _ => ?_)
          exact .last fun _ => .last fun _ => .last fun _ => .last fun _ => .last fun _ => .succeeded

theorem doCommit_answers {p : Json} : (doCommit p).Gives Answered := by
  refine sending_answers fun w => .last fun handle => .last fun m => ?_
  cases m.pendingTx.lookup handle with
  | none => exact .refused
  | some pt =>
      exact .last fun _ => .last fun _ => .ite (.last fun _ => .last fun _ => .succeeded)
        (.last fun _ => .refused)

theorem doDispose_answers {p : Json} : (doDispose p).Gives Answered := by
  refine .locked (.last fun handle => .last fun m => ?_)
  cases m.pendingTx.lookup handle with
  | none => exact .refused
  | some pt => exact .last fun _ => .succeeded

theorem doChangePassword_answers {p : Json} : (doChangePassword p).Gives Answered := by
  refine .locked (.last fun m => ?_)
  cases m.wallet with
  | none => exact .refused
  | some w =>
      refine .last fun _ => .ensure (.last fun _ => .last fun _ => .ite .refused (.last fun _ => ?_))
      exact .last fun _ => .ite (.last fun _ => .succeeded) (.last fun _ => .refused)

/-- Every kind that is accepted has a body, and every body answers. -/
theorem dispatch_answers {job : Job} (known : job.kind ∈ jobKinds)
    : (dispatch job).Gives Answered := by
  refine within_ite.mpr ⟨fun _ => doOpenLike_answers, fun notOpen => ?_⟩
  refine within_ite.mpr ⟨fun _ => doClose_answers, fun notClose => ?_⟩
  refine within_ite.mpr ⟨fun _ => doRescan_answers, fun notRescan => ?_⟩
  refine within_ite.mpr ⟨fun _ => doCreateTransaction_answers, fun notCreate => ?_⟩
  refine within_ite.mpr ⟨fun _ => doCommit_answers, fun notCommit => ?_⟩
  refine within_ite.mpr ⟨fun _ => doDispose_answers, fun notDispose => ?_⟩
  refine within_ite.mpr ⟨fun _ => doChangePassword_answers, fun notChange => ?_⟩
  simp_all [jobKinds, openKinds]

-----------------------------------------------------------------------------------------
-- The job in hand
-----------------------------------------------------------------------------------------

/-- The job that has begun and is not settled. -/
def inHand : History → Option (JobPtr × Job)
  | [] => none
  | .began ptr job :: _ => some (ptr, job)
  | .settled .. :: _ => none
  | .asked .. :: older => inHand older

@[simp] theorem inHand_asked {c : Call} {answer : c.Answer} {m : Mem} {h : History}
    : inHand (.asked c answer m :: h) = inHand h := rfl

@[simp] theorem inHand_began {ptr : JobPtr} {job : Job} {h : History}
    : inHand (.began ptr job :: h) = some (ptr, job) := rfl

@[simp] theorem inHand_settled {ptr : JobPtr} {out : Json} {state : Except Exn JobState}
    {h : History}
    : inHand (.settled ptr out state :: h) = none := rfl

/-- What the event of a finished job carries. -/
def finished (job : Job) (state : JobState) : Json :=
  .obj [("jobId", .str job.id), ("state", .str state.name)]

/-- The job has just been settled, and took the given state. -/
def JustSettled (h : History) (job : Job) (state : JobState) : Prop :=
  ∃ ptr out older, h = .settled ptr out (.ok state) :: older ∧ inHand older = some (ptr, job)

/-- Where the worker makes which call. -/
def Attentive (h : History) : Op → Prop
  | .dequeue => inHand h = none
  | .settle ptr out => (∃ job, inHand h = some (ptr, job)) ∧ Answered out
  | .ask (.emit event payload) =>
      event = "jobFinished" → ∃ job state, JustSettled h job state ∧ payload = finished job state
  | _ => True

/-- The worker's actions on the history alone. Every job that it is given has a known kind. -/
def History.act : Semantics Op Op.Ans History := fun h op answer h' =>
  match op, answer with
  | .dequeue, front =>
      h' = beganBy front ++ h ∧ ∀ ptr job, front = some (ptr, job) → job.kind ∈ jobKinds
  | .settle ptr out, state => state = outcome out ∧ h' = .settled ptr out state :: h
  | .ask c, answer => ∃ m, h' = .asked c answer m :: h
  | .update _, _ | .lock _, _ | .unlock _, _ => h' = h

/-- An action that neither takes a job nor settles one nor tells of one. -/
def Inattentive : Op → Prop
  | .dequeue | .settle .. => False
  | .ask (.emit event _) => event ≠ "jobFinished"
  | _ => True

instance : Sections Inattentive where
  asks c plain := by
    cases c with
    | emit event payload => exact ne_of_beq_false plain
    | _ => trivial
  locks _ := trivial
  unlocks _ := trivial
  reads := trivial
  labels _ _ := trivial
  registers _ := trivial
  drops _ := trivial
  notifies _ _ := trivial
  resets := trivial
  times := trivial
  ticks _ _ := trivial
  moves _ _ _ := trivial
  publishes _ := trivial
  describes _ _ _ _ := trivial
  takes := trivial
  forgets := trivial

theorem Inattentive.attentive {h : History} {op : Op} (inattentive : Inattentive op)
    : Attentive h op := by
  cases op with
  | dequeue => exact inattentive.elim
  | settle ptr out => exact inattentive.elim
  | ask c =>
      cases c with
      | emit event payload => exact fun same => absurd same inattentive
      | _ => trivial
  | _ => trivial

theorem Inattentive.keeps {h h' : History} {op : Op} {answer : op.Ans}
    (inattentive : Inattentive op) (step : History.act h op answer h')
    : inHand h' = inHand h := by
  cases op with
  | dequeue => exact inattentive.elim
  | settle ptr out => exact inattentive.elim
  | ask c =>
      obtain ⟨m, rfl⟩ := step
      rfl
  | update f => rw [show h' = h from step]
  | lock mode => rw [show h' = h from step]
  | unlock mode => rw [show h' = h from step]

/-- A body that stays off the tickets keeps the job in hand. -/
theorem Inattentive.body {p : Worker α} {gives : α → Prop} {thrown : Exn → Prop}
    (stays : p.Stays Inattentive) (ends : p.Within (fun _ => True) gives thrown) (h : History)
    : p.Heeds History.act Attentive (fun value h' => gives value ∧ inHand h' = inHand h)
        (fun error h' => thrown error ∧ inHand h' = inHand h) h := by
  have each (h' : History) (op : Op) (allowed : Inattentive op ∧ True)
      (_ : inHand h' = inHand h)
      : Attentive h' op :=
    allowed.1.attentive
  have keeps (h₁ : History) (op : Op) (answer : op.Ans) (h₂ : History)
      (allowed : Inattentive op ∧ True) (step : History.act h₁ op answer h₂)
      (same : inHand h₁ = inHand h)
      : inHand h₂ = inHand h :=
    (allowed.1.keeps step).trans same
  exact (Within.heeds (stays.and ends) each keeps rfl).mono (fun _ _ both => ⟨both.1.2, both.2⟩)
    fun _ _ both => ⟨both.1.2, both.2⟩

/-- The answer is stored first, and told of after that. -/
theorem settleJob_attends {ptr : JobPtr} {job : Job} {out : Json} {h : History}
    (held : inHand h = some (ptr, job)) (answered : Answered out)
    : (settleJob ptr job out).Heeds History.act Attentive (fun _ h' => inHand h' = none)
        (fun _ h' => inHand h' = none) h := by
  refine ⟨⟨⟨job, held⟩, answered⟩, fun state h' step => ?_⟩
  obtain ⟨same, rfl⟩ := step
  cases state with
  | error e => rfl
  | ok state =>
      refine heeds_tryCatch.mpr ⟨fun _ => ⟨job, state, ⟨ptr, out, h, rfl, held⟩, rfl⟩, ?_⟩
      intro answer h' told
      obtain ⟨m, rfl⟩ := told
      cases answer <;> rfl

theorem run_attends {ptr : JobPtr} {job : Job} {h : History} (known : job.kind ∈ jobKinds)
    (held : inHand h = some (ptr, job))
    : (run ptr job).Heeds History.act Attentive (fun _ h' => inHand h' = none)
        (fun _ h' => inHand h' = none) h := by
  have resets := Inattentive.body resetLocksOnce_stays
    (resetLocksOnce_reporting.mono (fun _ _ => trivial) (fun _ => id) fun _ => id) h
  refine heeds_bind.mpr (resets.mono (fun _ h₁ both => ?_) fun _ _ thrown => thrown.1.elim)
  refine heeds_bind.mpr (heeds_tryCatch.mpr ?_)
  refine (Inattentive.body dispatch_stays (dispatch_answers known) h₁).mono ?_ ?_
  · exact fun out h₂ body => settleJob_attends (body.2.trans (both.2.trans held)) body.1
  · refine fun e h₂ left => settleJob_attends (left.2.trans (both.2.trans held)) ?_
    cases e <;> exact .inl ⟨_, rfl⟩

/-- A turn that begins with no job in hand attends to its own, and leaves none in hand. -/
theorem turn_attends {h : History} (free : inHand h = none)
    : turn.Heeds History.act Attentive (fun _ h' => inHand h' = none)
        (fun _ h' => inHand h' = none) h := by
  refine ⟨free, fun front h₁ step => heeds_tryCatch.mpr ?_⟩
  obtain ⟨rfl, known⟩ := step
  cases front with
  | none =>
      exact (Inattentive.body tick_stays (within_any _) h).mono
        (fun _ _ both => both.2.trans free) fun _ _ both => both.2.trans free
  | some front => exact run_attends (known front.1 front.2 rfl) rfl

-----------------------------------------------------------------------------------------
-- In every run
-----------------------------------------------------------------------------------------

/-- Every job ever submitted has one of the kinds that are accepted. -/
def Tickets.KnownKinds (t : Tickets) : Prop := t.Each fun job => job.kind ∈ jobKinds

theorem kind_lasts (job job' : Job) (same : job'.submission = job.submission)
    (known : job.kind ∈ jobKinds)
    : job'.kind ∈ jobKinds := by
  have kind : job'.kind = job.kind := congrArg (fun s => s.2.2.1) same
  rwa [kind]

/-- The history is all that the worker's attention depends on, and others do not touch it. -/
theorem World.history_drifts {rule : Surroundings}
    : Thread.Drifts (World.act rule) World.Other World.history History.act Eq
        (fun w => w.tickets.KnownKinds) (fun _ => True) where
  simulates w op answer w' known _ step := by
    cases op with
    | update f =>
        obtain ⟨_, rfl⟩ := step
        exact ⟨rfl, known⟩
    | lock mode =>
        cases step
        exact ⟨rfl, known⟩
    | unlock mode =>
        cases step
        exact ⟨rfl, known⟩
    | dequeue =>
        obtain ⟨rfl, rfl⟩ := step
        exact ⟨⟨rfl, fun ptr job front => Tickets.Each.front kind_lasts known front⟩,
          Tickets.Each.dequeue kind_lasts known⟩
    | settle ptr out =>
        obtain ⟨rfl, rfl⟩ := step
        exact ⟨⟨w.tickets.settle_fst ptr out, rfl⟩, Tickets.Each.settle kind_lasts known⟩
    | ask c =>
        obtain ⟨_, rfl⟩ := step
        exact ⟨⟨_, rfl⟩, known⟩
  others w w' known step := by
    cases step with
    | client call => exact ⟨rfl, Tickets.Each.client (fun _ _ _ _ accepted => accepted) known⟩
    | setWalletsDir dir => exact ⟨rfl, known⟩
    | probe connected height isOpen => exact ⟨rfl, known⟩
  absorbs := by
    rintro a _ op answer c rfl step
    exact step

/-- What is left of a turn attends to the job in hand, and leaves none. -/
abbrev Attends : System → Prop :=
  Thread.Abides World.history History.act (fun w => w.tickets.KnownKinds) (fun _ => True) Attentive
    (fun h => inHand h = none)

theorem Reachable.attends {rule : Surroundings} {hasNotify : Bool} {t : System}
    (reach : Reachable rule hasNotify t)
    : Attends t :=
  Thread.Reach.abides World.history_drifts (by rintro a _ op rfl; exact id) (by rintro a _ rfl; exact id)
    (within_any _) (fun _ => turn_attends) (by simp [World.start, Tickets.KnownKinds, Tickets.Each]) rfl reach

/-- A step of the system: an attentive action, a step of others, or the start of a turn. -/
inductive World.Next (rule : Surroundings) : World → World → Prop
  | act {w op answer w'} (attentive : Attentive w.history op) (step : World.act rule w op answer w')
    : Next rule w w'
  | other {w w'} (step : World.Other w w') : Next rule w w'
  | turn {w} : Next rule w w

theorem Attends.next {rule : Surroundings} {t t' : System} (attends : Attends t)
    (step : Thread.Step (World.act rule) World.Other turn t t')
    : World.Next rule t.state t'.state := by
  cases step with
  | turn => exact .turn
  | move moves =>
      cases moves with
      | call taken => exact .act attends.heeds.1 taken
      | other taken => exact .other taken

/-- What every such step keeps holds at every moment. -/
theorem Reachable.attentive {rule : Surroundings} {hasNotify : Bool} {Inv : World → Prop}
    {t : System} (init : Inv (World.start hasNotify))
    (kept : ∀ w w', World.Next rule w w' → Inv w → Inv w')
    (reach : Reachable rule hasNotify t)
    : Inv t.state := by
  induction reach with
  | refl => exact init
  | tail earlier step ih => exact kept _ _ (Reachable.attends earlier |>.next step) ih

end MoneroWalletCore.Runtime
