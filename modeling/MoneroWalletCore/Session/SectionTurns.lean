import MoneroWalletCore.Session.JobTurns

/-! The rule for invariants that single sections keep. What is left to show are the few bodies
whose sections do not keep it by themselves; the rest of a turn is read off its class. Such an
invariant also gives what holds at every moment within a turn.
-/

namespace MoneroWalletCore.Runtime

open Program

variable {rule : Surroundings} {guard : View → Op → Prop} {α β : Type}

-----------------------------------------------------------------------------------------
-- Bodies that lead somewhere
-----------------------------------------------------------------------------------------

/-- A body leads from one condition to another, and acts only where it may. -/
def Worker.Leads (rule : Surroundings) (guard : View → Op → Prop) (before : View → Prop)
    (p : Worker α) (after : α → View → Prop) (left : View → Prop)
    : Prop :=
  ∀ v, before v → p.Heeds (View.act rule) guard after (fun _ => left) v

namespace Worker.Leads

variable {before left : View → Prop} {after : α → View → Prop}

theorem value {value : α} (holds : ∀ v, before v → after value v)
    : Worker.Leads rule guard before (.pure value) after left := holds

theorem bind {p : Worker α} {next : α → Worker β} {last : β → View → Prop}
    (first : p.Leads rule guard before after left)
    (rest : ∀ value, (next value).Leads rule guard (after value) last left)
    : Worker.Leads rule guard before (p.bind next) last left := by
  intro v holds
  exact heeds_bind.mpr ((first v holds).mono rest (fun _ _ gone => gone))

theorem andThen {stage : Worker (Stage α)} {next : α → Worker Json} {last : View → Prop}
    {after : View → Prop} (first : stage.Leads rule guard before (fun _ => after) left)
    (leaves : ∀ v, after v → last v)
    (rest : ∀ value, (next value).Leads rule guard after (fun _ => last) left)
    : Worker.Leads rule guard before (Runtime.andThen stage next) (fun _ => last) left := by
  apply bind first
  intro ended
  cases ended with
  | leave out => exact value leaves
  | go value => exact rest value

theorem ite {condition : Prop} {decided : Decidable condition} {p q : Worker α}
    (yes : condition → p.Leads rule guard before after left)
    (no : ¬condition → q.Leads rule guard before after left)
    : Worker.Leads rule guard before (if condition then p else q) after left := by
  split
  next holds => exact yes holds
  next fails => exact no fails

theorem orThrow {result : Except Exn α} {after : α → View → Prop}
    (holds : ∀ value, result = .ok value → ∀ v, before v → after value v)
    (throws : ∀ v, before v → left v)
    : (Worker.orThrow result).Leads rule guard before after left := by
  cases result with
  | ok value => exact holds value rfl
  | error error => exact throws

theorem mono {p : Worker α} {earlier : View → Prop} {weaker : α → View → Prop} {other : View → Prop}
    (leads : p.Leads rule guard before after left) (less : ∀ v, earlier v → before v)
    (returns : ∀ value v, after value v → weaker value v) (throws : ∀ v, left v → other v)
    : p.Leads rule guard earlier weaker other :=
  fun v holds => (leads v (less v holds)).mono returns (fun _ => throws)

theorem update {f : Mem → Mem} {after : Mem → View → Prop}
    (moment : ∀ v, before v → guard v (.update f))
    (holds : ∀ v o, before v → after (v.mem.under o) (View.at (f (v.mem.under o)) v.history))
    : (Worker.update f).Leads rule guard before after left := by
  intro v ready
  refine ⟨moment v ready, fun found v' step => ?_⟩
  obtain ⟨o, rfl, rfl⟩ := step
  exact holds v o ready

/-- A section that only reads, and the branch it reads for. -/
theorem read {after : Mem → View → Prop} (moment : ∀ v, before v → guard v (.update id))
    (holds : ∀ v o, before v → after (v.mem.under o) v)
    : Worker.read.Leads rule guard before after left := by
  apply update moment
  intro v o ready
  have same : View.at (id (v.mem.under o)) v.history = v := View.at_under
  rw [same]
  exact holds v o ready

theorem lib {c : Lib} {after : c.Ret → View → Prop}
    (moment : ∀ v, before v → guard v (.ask (.lib c)))
    (returns : ∀ v ret, before v → rule v.history (.asked (.lib c) (.ok ret) v.mem) →
      after ret (v.push (.asked (.lib c) (.ok ret) v.mem)))
    (throws : ∀ v error, before v → rule v.history (.asked (.lib c) (.error error) v.mem) →
      left (v.push (.asked (.lib c) (.error error) v.mem)))
    : @Worker.Leads c.Ret rule guard before (Worker.lib c) after left := by
  intro v ready
  refine ⟨moment v ready, fun answer v' step => ?_⟩
  obtain ⟨allowed, rfl⟩ := step
  cases answer with
  | ok ret => exact returns v ret ready allowed
  | error error => exact throws v error ready allowed

theorem locked {mode : LockMode} {p : Worker α} (moment : ∀ v, before v → guard v (.lock mode))
    (body : p.Leads rule guard before after left)
    (ended : ∀ value v, after value v → guard v (.unlock mode))
    (gone : ∀ v, left v → guard v (.unlock mode))
    : (Worker.locked mode p).Leads rule guard before after left := by
  intro v ready
  refine ⟨moment v ready, fun _ v' step => ?_⟩
  cases step
  refine heeds_ensure.mpr ((body v ready).mono (fun value v' holds => ?_) fun _ v' holds => ?_)
  · refine ⟨ended value v' holds, fun _ v'' step => ?_⟩
    cases step
    exact holds
  · refine ⟨gone v' holds, fun _ v'' step => ?_⟩
    cases step
    exact holds

/-- A body of a class keeps what the class keeps. -/
theorem keeps {allowed : Op → Prop} {Inv : View → Prop} {p : Worker α} (stays : p.Stays allowed)
    (kept : ActionsKeep rule allowed Inv) (moment : ∀ v op, allowed op → Inv v → guard v op)
    : p.Leads rule guard Inv (fun _ => Inv) Inv := by
  intro v holds
  exact (Within.heeds stays moment kept holds).mono (fun _ _ both => both.2)
    (fun _ _ both => both.2)

end Worker.Leads

/-- A body that keeps an invariant by itself. -/
theorem Worker.Keeps.leads {Inv : View → Prop} {p : Worker α} (kept : p.Keeps rule Inv)
    : p.Leads rule (fun _ _ => True) Inv (fun _ => Inv) Inv :=
  fun v holds => heeds_trivial.mpr (kept v holds)

/-- A close leads back once its release does, from the view that the handle's taking leaves. -/
theorem doClose_leads (allowed : Op → Prop) [Calm allowed] {Inv : View → Prop}
    (taken : Wallet → View → Prop) (moment : ∀ v op, allowed op → Inv v → guard v op)
    (takeMoment : ∀ v w, Inv v → v.mem.wallet = some w → guard v (.update withoutWallet))
    (takenMoment : ∀ w v, taken w v → guard v (.unlock .unique)) (calm : ActionsKeep rule allowed Inv)
    (holds : ∀ held, ActionsKeep rule allowed (fun v => v.mem.wallet = held))
    (takes : ∀ v o w, Inv v → v.mem.wallet = some w →
      taken w (View.at (withoutWallet (v.mem.under o)) v.history))
    (releases : ∀ w, (releaseWallet w).Leads rule guard (taken w) (fun _ => Inv) Inv)
    : doClose.Leads rule guard Inv (fun _ => Inv) Inv := by
  have held : takeWallet.Leads rule guard Inv
      (fun held v => held.elim (Inv v) (fun w => taken w v)) Inv := by
    have reads : Worker.read.Leads rule guard Inv
        (fun m v => Inv v ∧ v.mem.wallet = m.wallet) Inv :=
      .read (fun v => moment v _ Asking.reads) fun _ _ inv => ⟨inv, rfl⟩
    refine .locked (fun v => moment v _ (Asking.locks _)) (.bind reads fun m => ?_) ?_
      fun v => moment v _ (Asking.unlocks _)
    · cases m.wallet with
      | none => exact .value fun _ both => both.1
      | some w =>
          have labels : (setState .closing "").Leads rule guard
              (fun v => Inv v ∧ v.mem.wallet = some w) (fun _ v => Inv v ∧ v.mem.wallet = some w)
              Inv :=
            (Worker.Leads.keeps .setState (calm.and (holds (some w)))
              fun v op calm both => moment v op calm both.1).mono (fun _ both => both) (fun _ _ both => both)
              (fun _ both => both.1)
          refine .bind labels fun _ => .bind (.update (fun v both => takeMoment v w both.1 both.2)
            fun v o both => takes v o w both.1 both.2) fun _ => .value fun _ gone => gone
    · intro held v ended
      cases held with
      | none => exact moment v _ (Asking.unlocks _) ended
      | some w => exact takenMoment w v ended
  refine .bind held fun held => ?_
  cases held with
  | none => exact .value fun _ inv => inv
  | some w => exact releases w

-----------------------------------------------------------------------------------------
-- The rule
-----------------------------------------------------------------------------------------

/-- No wallet is open, and an open-like job with the given parameters is running. -/
structure OpeningBy (o : OpenParams) (v : View) : Prop where
  none : v.mem.wallet = none
  began : ∃ job, lastJob v.history = some job ∧ openParams job.params = .ok o

/-- What is left to show of an invariant: a class of calm actions that keep it, and the bodies
that are not made of these. -/
structure SectionKeeps (rule : Surroundings) (allowed : Op → Prop) (guard : View → Op → Prop)
    (Inv : View → Prop)
    : Prop where
  moment : ∀ v op, (Outside op → allowed op) → Inv v → guard v op
  calm : ActionsKeep rule allowed Inv
  holds : ∀ held, ActionsKeep rule allowed (fun v => v.mem.wallet = held)
  outside : ∀ op, allowed op → Outside op
  finishes : ∀ payload, allowed (.ask (.emit "jobFinished" payload))
  begins : ∀ v ptr job, Inv v → Inv (v.push (.began ptr job))
  settles : ∀ v ptr out state, Inv v → Inv (v.push (.settled ptr out state))
  resets : resetLocksOnce.Leads rule guard Inv (fun _ => Inv) Inv
  publishes : ∀ o plan path addr w, badName o.name = false → o.network ∈ knownNetworks →
    (publishWallet o plan path addr w).Leads rule guard (fun v => Inv v ∧ OpeningBy o v)
      (fun _ => Inv) Inv
  closes : doClose.Leads rule guard Inv (fun _ => Inv) Inv
  ticks : tick.Leads rule guard Inv (fun _ => Inv) Inv

namespace SectionKeeps

variable {allowed : Op → Prop} [Calm allowed] {Inv : View → Prop}
variable (keeps : SectionKeeps rule allowed guard Inv)

include keeps

omit [Calm allowed] in
theorem body {p : Worker α} (stays : p.Stays allowed)
    : p.Leads rule guard Inv (fun _ => Inv) Inv :=
  .keeps stays keeps.calm fun v op calm => keeps.moment v op fun _ => calm

omit [Calm allowed] in
theorem job {job : Option Job} : ActionsKeep rule allowed (fun v => lastJob v.history = job) := by
  intro v op answer v' taken step same
  have outside := keeps.outside op taken
  cases op with
  | update f =>
      obtain ⟨o, rfl, rfl⟩ := step
      exact same
  | lock mode =>
      cases step
      exact same
  | unlock mode =>
      cases step
      exact same
  | dequeue => exact outside.elim
  | settle ptr out => exact outside.elim
  | ask c =>
      obtain ⟨_, rfl⟩ := step
      exact same

omit [Calm allowed] in
/-- A step of an open-like job before it publishes. -/
theorem attempts {p : Worker α} {o : OpenParams} (stays : p.Stays allowed)
    : p.Leads rule guard (fun v => Inv v ∧ OpeningBy o v) (fun _ v => Inv v ∧ OpeningBy o v)
        Inv := by
  intro v holds
  obtain ⟨job, began, params⟩ := holds.2.began
  have kept := keeps.calm.and ((keeps.holds none).and (keeps.job : ActionsKeep rule allowed
    fun v => lastJob v.history = some job))
  refine (Worker.Leads.keeps stays kept
    (fun v op calm both => keeps.moment v op (fun _ => calm) both.1) v
    ⟨holds.1, holds.2.none, began⟩).mono ?_ ?_
  · exact fun _ _ both => ⟨both.1, both.2.1, job, both.2.2, params⟩
  · exact fun _ _ both => both.1

/-- The open-like job is known, with its parameters read. -/
def Opening (Inv : View → Prop) (o : OpenParams) (v : View) : Prop :=
  Inv v ∧ ∃ job, lastJob v.history = some job ∧ openParams job.params = .ok o

theorem opensWith {kind : String} {p : Json} {o : OpenParams} {plan : Plan}
    (named : badName o.name = false) (known : o.network ∈ knownNetworks)
    : (openWith kind p o plan).Leads rule guard (Opening Inv o) (fun _ => Inv) Inv := by
  have moment {op : Op} (calm : allowed op) (v : View) (ready : Opening Inv o v) : guard v op :=
    keeps.moment v op (fun _ => calm) ready.1
  have reads : Worker.read.Leads rule guard (Opening Inv o)
      (fun m v => Opening Inv o v ∧ (m.wallet = none → v.mem.wallet = none)) Inv :=
    .read (moment Asking.reads) fun v o' ready => ⟨ready, id⟩
  have looks : Worker.Leads rule guard (Opening Inv o)
      (Worker.locked .unique do
        let m ← Worker.read
        Pure.pure m.wallet.isSome)
      (fun isOpen v => Opening Inv o v ∧ (isOpen = false → v.mem.wallet = none)) Inv := by
    refine .locked (moment (Asking.locks _)) (.bind reads fun m => .value fun v seen => ?_)
      (fun _ v seen => moment (Asking.unlocks _) v seen.1)
      fun v => keeps.moment v _ fun _ => Asking.unlocks _
    exact ⟨seen.1, fun closed => seen.2 (by simpa using closed)⟩
  refine .bind looks fun isOpen => .ite (fun _ => .value fun v seen => seen.1.1) fun closed => ?_
  have ready v (seen : Opening Inv o v ∧ (isOpen = false → v.mem.wallet = none))
      : Inv v ∧ OpeningBy o v :=
    ⟨seen.1.1, seen.2 (by simpa using closed), seen.1.2⟩
  refine .mono (.bind (keeps.attempts .setState) fun _ => .bind (keeps.attempts .read) fun m =>
    .bind (keeps.attempts .lib) fun _ => ?_) ready (fun _ _ kept => kept) (fun _ kept => kept)
  refine .andThen (keeps.attempts obtainWallet_stays) (fun _ both => both.1) fun w? => ?_
  refine .andThen (keeps.attempts checkWallet_stays) (fun _ both => both.1) fun w => ?_
  refine .andThen (keeps.attempts initWallet_stays) (fun _ both => both.1) fun _ => ?_
  refine .bind (keeps.attempts waitOffline_stays) fun _ => ?_
  refine .bind (keeps.attempts trustDaemon_stays) fun _ => ?_
  refine .andThen (keeps.attempts connectDaemon_stays) (fun _ both => both.1) fun _ => ?_
  exact .bind (keeps.attempts startWallet_stays) fun addr => keeps.publishes o plan _ addr w named known

theorem opens {job : Job}
    : (doOpenLike job.kind job.params).Leads rule guard
        (fun v => Inv v ∧ lastJob v.history = some job) (fun _ => Inv) Inv := by
  have gives : (Worker.orThrow (openParams job.params)).Leads rule guard
      (fun v => Inv v ∧ lastJob v.history = some job) (fun o => Opening Inv o) Inv :=
    .orThrow (fun o given v both => ⟨both.1, job, both.2, given⟩) fun _ both => both.1
  refine .bind gives fun o => .ite (fun _ => .value fun _ ready => ready.1) fun named =>
    .ite (fun _ => .value fun _ ready => ready.1) fun known => ?_
  have resolves : (Worker.resolve o.network).Leads rule guard (Opening Inv o)
      (fun _ => Opening Inv o) Inv := by
    intro v ready
    obtain ⟨job', began, params⟩ := ready.2
    have kept := keeps.calm.and (keeps.job : ActionsKeep rule allowed
      fun v => lastJob v.history = some job')
    exact (Worker.Leads.keeps .resolve kept
      (fun v op calm both => keeps.moment v op (fun _ => calm) both.1) v ⟨ready.1, began⟩).mono (fun _ _ both => ⟨both.1, job', both.2, params⟩) fun _ _ both => both.1
  refine .bind resolves fun node => .bind
    (.orThrow (fun _ _ _ ready => ready) fun _ ready => ready.1) fun policy => ?_
  cases policy with
  | leave out => exact .value fun _ ready => ready.1
  | go plan => exact keeps.opensWith (Bool.eq_false_iff.mpr named) (Decidable.not_not.mp known)

theorem dispatches {job : Job}
    : (dispatch job).Leads rule guard (fun v => Inv v ∧ lastJob v.history = some job)
        (fun _ => Inv) Inv := by
  have body {p : Worker Json} (leads : p.Leads rule guard Inv (fun _ => Inv) Inv)
      : p.Leads rule guard (fun v => Inv v ∧ lastJob v.history = some job) (fun _ => Inv) Inv :=
    leads.mono (fun _ both => both.1) (fun _ _ kept => kept) (fun _ kept => kept)
  refine .ite (fun _ => keeps.opens) fun _ => .ite (fun _ => body keeps.closes) fun _ => ?_
  refine .ite (fun _ => body (keeps.body doRescan_stays)) fun _ => ?_
  refine .ite (fun _ => body (keeps.body (doCreateTransaction_stays Calm.registers))) fun _ => ?_
  refine .ite (fun _ => body (keeps.body (doCommit_stays Calm.drops))) fun _ => ?_
  refine .ite (fun _ => body (keeps.body (doDispose_stays Calm.drops))) fun _ => ?_
  exact .ite (fun _ => body (keeps.body doChangePassword_stays)) fun _ =>
    .value fun _ both => both.1

omit [Calm allowed] in
/-- The outcome is stored, and told of. -/
theorem tells {ptr : JobPtr} {job : Job} {out : Json}
    : (settleJob ptr job out).Leads rule guard Inv (fun _ => Inv) Inv := by
  intro v holds
  refine ⟨keeps.moment v _ False.elim holds, fun state v' step => ?_⟩
  obtain ⟨_, rfl⟩ := step
  have settled := keeps.settles v ptr out state holds
  have reports (state : JobState) : Worker.Leads rule guard Inv
      ((Worker.emit "jobFinished"
        (.obj [("jobId", .str job.id), ("state", .str state.name)])).tryCatch fun _ => .pure ())
      (fun _ => Inv) Inv :=
    keeps.body (.guarded (.tell (keeps.finishes _)) fun _ => .value)
  cases state with
  | error e => exact settled
  | ok state => exact reports state _ settled

theorem runs {ptr : JobPtr} {job : Job}
    : (run ptr job).Leads rule guard (fun v => Inv v ∧ lastJob v.history = some job)
        (fun _ => Inv) Inv := by
  have resets : resetLocksOnce.Leads rule guard
      (fun v => Inv v ∧ lastJob v.history = some job)
      (fun _ v => Inv v ∧ lastJob v.history = some job) Inv := by
    intro v both
    have same := resetLocksOnce_steadily.keeps (keeps_lastJob : ActionsKeep rule _ _) both.2
    exact ((keeps.resets v both.1).and same).mono (fun _ _ kept => ⟨kept.1, kept.2.2⟩)
      (fun _ _ kept => kept.1)
  refine .bind resets fun _ => .bind (fun v both => ?_) fun out => keeps.tells
  exact heeds_tryCatch.mpr ((keeps.dispatches v both).mono (fun _ _ kept => kept)
    (fun _ _ kept => kept))

theorem turn : turn.Leads rule guard Inv (fun _ => Inv) Inv := by
  intro v holds
  refine ⟨keeps.moment v _ False.elim holds, fun front v' step => ?_⟩
  cases step
  refine heeds_tryCatch.mpr ?_
  cases front with
  | none => exact (keeps.ticks v holds).mono (fun _ _ kept => kept) (fun _ _ kept => kept)
  | some front =>
      exact (keeps.runs _ ⟨keeps.begins v front.1 front.2 holds, rfl⟩).mono
        (fun _ _ kept => kept) (fun _ _ kept => kept)

/-- It holds in every run, whenever no turn is under way. -/
theorem reachable {hasNotify : Bool} {t : System} (init : Inv (World.start hasNotify).view)
    (reach : Reachable rule hasNotify t) (idle : t.Idle)
    : Inv t.state.view := by
  have holds := Thread.Reach.heeds World.act_view (fun _ _ => World.Other.view) init keeps.turn reach
  rw [idle] at holds
  exact holds

/-- At every moment the worker acts only where it may. -/
theorem guarded {hasNotify : Bool} {t : System} {op : Op} {next : op.Ans → Worker Unit}
    (init : Inv (World.start hasNotify).view) (reach : Reachable rule hasNotify t)
    (waits : t.rest = .call op next)
    : guard t.state.view op := by
  have holds := Thread.Reach.heeds World.act_view (fun _ _ => World.Other.view) init keeps.turn reach
  rw [waits] at holds
  exact holds.1

end SectionKeeps

end MoneroWalletCore.Runtime
