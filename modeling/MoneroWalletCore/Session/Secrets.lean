import MoneroWalletCore.Foundation.Twins
import MoneroWalletCore.Runtime.Replay
import MoneroWalletCore.Runtime.Sections

/-! Where the secrets of a job go. A run whose jobs carry other passwords, seeds or keys goes the
same way as long as the library answers the same: only its calls tell the two apart.
-/

namespace MoneroWalletCore.Runtime

open Program

variable {α : Type}

-----------------------------------------------------------------------------------------
-- Parameters
-----------------------------------------------------------------------------------------

/-- The fields of a job that carry a password, a seed or a key. -/
def secretKeys : List String :=
  ["password", "oldPassword", "newPassword", "seed", "seedOffset", "viewKey", "spendKey"]

/-- Parameters that differ in the texts of their secrets alone. -/
inductive Json.Alike : Json → Json → Prop
  | same {p} : Alike p p
  | fields {fields fields'}
    (plain : ∀ key, key ∉ secretKeys → (obj fields').find? key = (obj fields).find? key)
    (secret : ∀ key, key ∈ secretKeys → (obj fields').find? key = (obj fields).find? key
      ∨ ∃ text text', (obj fields).find? key = some (.str text)
        ∧ (obj fields').find? key = some (.str text'))
    : Alike (.obj fields) (.obj fields')

namespace Json.Alike

variable {p p' : Json} {key : String}

theorem value {get : Json → Except Exn α} {default : α} (alike : p.Alike p')
    (plain : key ∉ secretKeys)
    : Json.value get p' key default = Json.value get p key default := by
  cases alike with
  | same => rfl
  | fields same => simp only [Json.value, same key plain]

/-- A secret is read in both, or in neither. -/
theorem text {default : String} (alike : p.Alike p') (secret : key ∈ secretKeys)
    : p'.valueString key default = p.valueString key default
      ∨ ∃ text text', p.valueString key default = .ok text
        ∧ p'.valueString key default = .ok text' := by
  cases alike with
  | same => exact .inl rfl
  | fields _ secrets =>
      rcases secrets key secret with same | ⟨text, text', found, found'⟩
      · exact .inl (by simp only [valueString, Json.value, same])
      · exact .inr ⟨text, text', by simp [valueString, Json.value, found, getString],
          by simp [valueString, Json.value, found', getString]⟩

theorem isObject (alike : p.Alike p') : p'.isObject = p.isObject := by cases alike <;> rfl

end Json.Alike

/-- An open-like job's own parameters differ in the password alone. -/
theorem openParams_alike {p p' : Json} (alike : p.Alike p')
    : openParams p' = openParams p
      ∨ ∃ o password, openParams p = .ok o ∧ openParams p' = .ok { o with password } := by
  have name : p'.valueString "name" "" = p.valueString "name" "" := alike.value (by decide)
  have network : p'.valueString "network" "" = p.valueString "network" "" :=
    alike.value (by decide)
  have password : p'.valueString "password" "" = p.valueString "password" ""
      ∨ ∃ text text', p.valueString "password" "" = .ok text
        ∧ p'.valueString "password" "" = .ok text' := alike.text (by decide)
  simp only [openParams, name, network]
  rcases password with same | ⟨password, password', read, read'⟩
  · exact .inl (by rw [same])
  · rw [read, read']
    cases p.valueString "name" "" with
    | error => exact .inl rfl
    | ok name =>
        cases p.valueString "network" "" with
        | error => exact .inl rfl
        | ok network => exact .inr ⟨_, password', rfl, rfl⟩

-----------------------------------------------------------------------------------------
-- What two such runs have in common
-----------------------------------------------------------------------------------------

/-- The library calls that are given secrets, which others may be given instead, and an answer
that is the same. -/
inductive Lib.Alike : (c c' : Lib) → (Except Exn c.Ret → Except Exn c'.Ret → Prop) → Prop
  | openWallet {path password password' nettype}
    : Alike (.openWallet path password nettype) (.openWallet path password' nettype) Eq
  | createWallet {path password password' language nettype}
    : Alike (.createWallet path password language nettype)
        (.createWallet path password' language nettype) Eq
  | recoveryWallet {path password password' seed seed' nettype height rounds offset offset'}
    : Alike (.recoveryWallet path password seed nettype height rounds offset)
        (.recoveryWallet path password' seed' nettype height rounds offset') Eq
  | createWalletFromKeys
    {path password password' language nettype height address view view' spend spend' rounds}
    : Alike (.createWalletFromKeys path password language nettype height address view spend rounds)
        (.createWalletFromKeys path password' language nettype height address view' spend' rounds)
        Eq
  | verifyWalletPassword {keysFile password password' noSpendKey rounds}
    : Alike (.verifyWalletPassword keysFile password noSpendKey rounds)
        (.verifyWalletPassword keysFile password' noSpendKey rounds) Eq
  | setPassword {w password password'}
    : Alike (.setPassword w password) (.setPassword w password') Eq

/-- Other secrets for each job, by its pointer. -/
structure Veil where
  params : JobPtr → Json → Json
  alike : ∀ (ptr : JobPtr) (p : Json), p.Alike (params ptr p)

def Job.veiled (veil : Veil) (ptr : JobPtr) (job : Job) : Job :=
  { job with params := veil.params ptr job.params }

def Tickets.veiled (veil : Veil) (t : Tickets) : Tickets :=
  { t with heap := t.heap.mapIdx (Job.veiled veil) }

/-- The same event, but for the secrets. -/
inductive Event.Alike (veil : Veil) : Event → Event → Prop
  | asked {c answer m} : Alike veil (.asked c answer m) (.asked c answer m)
  | secret {c c' answers answer answer' m} (alike : c.Alike c' answers)
    (same : answers answer answer')
    : Alike veil (.asked (.lib c) answer m) (.asked (.lib c') answer' m)
  | began {ptr job} : Alike veil (.began ptr job) (.began ptr (job.veiled veil ptr))
  | settled {ptr out state} : Alike veil (.settled ptr out state) (.settled ptr out state)

/-- Surroundings that answer alike whatever the secrets are. -/
def Surroundings.Blind (rule : Surroundings) : Prop :=
  ∀ veil h h' e e', List.Forall₂ (Event.Alike veil) h h' → Event.Alike veil e e' →
    rule h e → rule h' e'

structure World.Alike (veil : Veil) (w w' : World) : Prop where
  mem : w'.mem = w.mem
  tickets : w'.tickets = w.tickets.veiled veil
  history : List.Forall₂ (Event.Alike veil) w.history w'.history

/-- The actions of a job's run, or of a tick. -/
def Op.Inside : Op → Prop
  | .dequeue => False
  | _ => True

/-- The worker's actions with other secrets. -/
inductive Op.Linked (veil : Veil) : Linking Op Op.Ans
  | same {op} (inside : op.Inside) : Linked veil op op Eq
  | front
    : Linked veil .dequeue .dequeue
        (fun front front' => front' = front.map fun found => (found.1, found.2.veiled veil found.1))
  | secret {c c' answers} (alike : c.Alike c' answers)
    : Linked veil (.ask (.lib c)) (.ask (.lib c')) answers

-----------------------------------------------------------------------------------------
-- Tickets
-----------------------------------------------------------------------------------------

namespace Tickets

variable {veil : Veil} {t : Tickets}

@[simp] theorem veiled_heap {ptr : JobPtr}
    : (t.veiled veil).heap[ptr]? = t.heap[ptr]?.map (Job.veiled veil ptr) :=
  List.getElem?_mapIdx

@[simp] theorem veiled_queue : (t.veiled veil).queue = t.queue := rfl

@[simp] theorem veiled_jobs : (t.veiled veil).jobs = t.jobs := rfl

theorem veiled_push {kind receipt : String} {params : Json}
    : (t.veiled veil).push kind (veil.params t.heap.length params) receipt
      = ((t.push kind params receipt).1, (t.push kind params receipt).2.veiled veil) := by
  simp [push, veiled, Job.veiled, List.mapIdx_append]

theorem veiled_held {id receipt : String}
    : (t.veiled veil).held id receipt
      = (t.held id receipt).map fun found => (found.1, found.2.veiled veil found.1) := by
  unfold held
  rw [veiled_jobs]
  cases t.jobs.lookup id with
  | none => rfl
  | some ptr =>
      simp only [veiled_heap]
      cases t.heap[ptr]? with
      | none => rfl
      | some job =>
          simp only [Option.map_some, Job.veiled]
          split <;> rfl

/-- A job is assigned alike, when what is assigned does not depend on its parameters. -/
theorem veiled_assign {ptr : JobPtr} {f : Job → Job}
    (plain : ∀ job, f (job.veiled veil ptr) = (f job).veiled veil ptr)
    : (t.veiled veil).assign ptr f = (t.assign ptr f).veiled veil := by
  have heaps : (t.heap.mapIdx (Job.veiled veil)).modify ptr f
      = (t.heap.modify ptr f).mapIdx (Job.veiled veil) := by
    apply List.ext_getElem?
    intro other
    simp only [List.getElem?_modify, List.getElem?_mapIdx]
    cases t.heap[other]? with
    | none => rfl
    | some job =>
        by_cases same : ptr = other
        · subst same
          simp [plain]
        · simp [same]
  simp only [assign, veiled, heaps]

/-- Two assignments after each other. -/
theorem veiled_assign_assign {ptr : JobPtr} {f g : Job → Job}
    (first : ∀ job, f (job.veiled veil ptr) = (f job).veiled veil ptr)
    (second : ∀ job, g (job.veiled veil ptr) = (g job).veiled veil ptr)
    : ((t.veiled veil).assign ptr f).assign ptr g = ((t.assign ptr f).assign ptr g).veiled veil := by
  rw [veiled_assign first, veiled_assign second]

theorem veiled_dequeue
    : (t.veiled veil).dequeue
      = (t.dequeue.1.map fun found => (found.1, found.2.veiled veil found.1),
        t.dequeue.2.veiled veil) := by
  unfold dequeue
  rw [veiled_queue]
  cases t.queue with
  | nil => rfl
  | cons ptr rest =>
      let left : Tickets := { t with queue := rest }
      have next : (left.veiled veil).assign ptr (fun job => { job with state := .running })
          = (left.assign ptr fun job => { job with state := .running }).veiled veil :=
        veiled_assign fun _ => rfl
      refine Prod.ext ?_ next
      refine (congrArg (fun t => t.heap[ptr]?.map fun job => (ptr, job)) next).trans ?_
      simp only [veiled_heap, Option.map_map]
      rfl

theorem veiled_settle {ptr : JobPtr} {out : Json}
    : (t.veiled veil).settle ptr out
      = ((t.settle ptr out).1, (t.settle ptr out).2.veiled veil) := by
  unfold settle
  cases out.valueBool "ok" false with
  | error => rfl
  | ok ok =>
      cases ok with
      | true =>
          cases Json.value Except.ok out "result" (.obj []) with
          | error => exact Prod.ext rfl (veiled_assign fun _ => rfl)
          | ok result => exact Prod.ext rfl (veiled_assign_assign (fun _ => rfl) fun _ => rfl)
      | false =>
          cases out.valueString "error" "unknown error" with
          | error => exact Prod.ext rfl (veiled_assign fun _ => rfl)
          | ok error => exact Prod.ext rfl (veiled_assign_assign (fun _ => rfl) fun _ => rfl)

/-- A client's call but a start is answered alike. -/
theorem veiled_run {m : Mem} {call : ClientCall}
    (asks : ∀ kind params receipt, call ≠ .startJob kind params receipt)
    : call.run m (t.veiled veil) = ((call.run m t).1, (call.run m t).2.veiled veil) := by
  cases call with
  | startJob kind params receipt => exact absurd rfl (asks kind params receipt)
  | jobStatus id receipt =>
      simp only [ClientCall.run, jobStatus, veiled_held]
      cases t.held id receipt <;> rfl
  | jobResult id receipt =>
      simp only [ClientCall.run, jobResult, veiled_held]
      cases t.held id receipt <;> rfl
  | ackJob id receipt =>
      simp only [ClientCall.run, ackJob, veiled_held]
      cases t.held id receipt with
      | none => rfl
      | some found =>
          simp only [Option.map_some, Job.veiled]
          split <;> rfl
  | cancelJob id receipt =>
      simp only [ClientCall.run, cancelJob, veiled_held]
      cases t.held id receipt with
      | none => rfl
      | some found =>
          have named
              : (fun q : JobPtr => ((t.veiled veil).heap[q]?).any fun job => job.id == id)
                = fun q : JobPtr => (t.heap[q]?).any fun job => job.id == id := by
            funext q
            rw [veiled_heap, Option.any_map]
            rfl
          simp only [Option.map_some, named, Job.veiled]
          split <;> rfl

/-- So is a start, whatever it submits. -/
theorem veiled_answer {m : Mem} {call : ClientCall}
    : (call.run m (t.veiled veil)).1 = (call.run m t).1 := by
  by_cases starts : ∃ kind params receipt, call = .startJob kind params receipt
  · obtain ⟨kind, params, receipt, rfl⟩ := starts
    simp only [ClientCall.run, startJob]
    split
    · rfl
    · split <;> rfl
  · rw [veiled_run fun kind params receipt same => starts ⟨kind, params, receipt, same⟩]

/-- A start is followed by a start with the other secrets. -/
theorem veiled_start {m : Mem} {kind receipt : String} {params : Json}
    : ∃ params', (ClientCall.startJob kind params' receipt).run m (t.veiled veil)
      = (((ClientCall.startJob kind params receipt).run m t).1,
        ((ClientCall.startJob kind params receipt).run m t).2.veiled veil) := by
  simp only [ClientCall.run, startJob]
  generalize given : (if params.isObject then params else Json.obj []) = params₀
  have isObject : params₀.isObject = true := by
    rw [← given]
    split
    · assumption
    · rfl
  refine ⟨veil.params t.heap.length params₀, ?_⟩
  simp only [(veil.alike _ _).isObject, isObject, if_pos, veiled_push]
  split
  · rfl
  · split <;> rfl

end Tickets

-----------------------------------------------------------------------------------------
-- Runs side by side
-----------------------------------------------------------------------------------------

section Follows

variable {rule : Surroundings} {veil : Veil}

theorem Lib.Alike.answered {c c' : Lib} {answers : Except Exn c.Ret → Except Exn c'.Ret → Prop}
    (alike : c.Alike c' answers) (answer : Except Exn c.Ret)
    : ∃ answer', answers answer answer' := by
  cases alike <;> exact ⟨answer, rfl⟩

/-- An action is followed by the one that is linked to it. -/
theorem World.Alike.acts (blind : rule.Blind) {w w' next : World} {op op' : Op}
    {answers : op.Ans → op'.Ans → Prop} {answer : op.Ans} (alike : World.Alike veil w w')
    (linked : Op.Linked veil op op' answers) (step : World.act rule w op answer next)
    : ∃ answer' next', answers answer answer' ∧ World.act rule w' op' answer' next'
      ∧ World.Alike veil next next' := by
  obtain ⟨mem, tickets, history⟩ := w'
  obtain ⟨rfl, rfl, past⟩ := alike
  cases linked with
  | same inside =>
      refine ⟨answer, ?_⟩
      cases op with
      | update f =>
          obtain ⟨rfl, rfl⟩ := step
          exact ⟨_, rfl, ⟨rfl, rfl⟩, ⟨rfl, rfl, past⟩⟩
      | lock mode =>
          cases step
          exact ⟨_, rfl, rfl, ⟨rfl, rfl, past⟩⟩
      | unlock mode =>
          cases step
          exact ⟨_, rfl, rfl, ⟨rfl, rfl, past⟩⟩
      | dequeue => exact inside.elim
      | settle ptr out =>
          obtain ⟨rfl, rfl⟩ := step
          refine ⟨_, rfl, ⟨?_, rfl⟩, ⟨rfl, ?_, .cons .settled past⟩⟩
          · exact (congrArg Prod.fst Tickets.veiled_settle).symm
          · exact congrArg Prod.snd Tickets.veiled_settle
      | ask c =>
          obtain ⟨allowed, rfl⟩ := step
          exact ⟨_, rfl, ⟨blind veil _ _ _ _ past .asked allowed, rfl⟩, ⟨rfl, rfl, .cons .asked past⟩⟩
  | front =>
      obtain ⟨rfl, rfl⟩ := step
      refine ⟨_, _, rfl, ⟨(congrArg Prod.fst Tickets.veiled_dequeue).symm, rfl⟩, ⟨rfl, ?_, ?_⟩⟩
      · exact congrArg Prod.snd Tickets.veiled_dequeue
      · cases w.tickets.dequeue.1 with
        | none => exact past
        | some found => exact .cons .began past
  | secret given =>
      obtain ⟨allowed, rfl⟩ := step
      obtain ⟨answer', same⟩ := given.answered answer
      have event : Event.Alike veil (.asked (.lib _) answer w.mem.own)
          (.asked (.lib _) answer' w.mem.own) := .secret given same
      exact ⟨answer', _, same, ⟨blind veil _ _ _ _ past event allowed, rfl⟩,
        ⟨rfl, rfl, .cons event past⟩⟩

/-- What others do they do in both runs. -/
theorem World.Alike.others {w w' next : World} (alike : World.Alike veil w w') (step : World.Other w next)
    : ∃ next', World.Other w' next' ∧ World.Alike veil next next' := by
  obtain ⟨mem, tickets, history⟩ := w'
  obtain ⟨rfl, rfl, past⟩ := alike
  cases step with
  | client call =>
      have follows : ∃ call' : ClientCall, call'.run w.mem (w.tickets.veiled veil)
          = ((call.run w.mem w.tickets).1, (call.run w.mem w.tickets).2.veiled veil) := by
        cases call with
        | startJob kind params receipt =>
            exact Tickets.veiled_start.imp' (ClientCall.startJob kind · receipt) fun _ same => same
        | _ => exact ⟨_, Tickets.veiled_run (by simp)⟩
      obtain ⟨call', same⟩ := follows
      exact ⟨_, .client _ call', ⟨rfl, congrArg Prod.snd same, past⟩⟩
  | setWalletsDir dir => exact ⟨_, .setWalletsDir _ dir, ⟨rfl, rfl, past⟩⟩
  | probe connected height isOpen =>
      exact ⟨_, .probe _ connected height isOpen, ⟨rfl, rfl, past⟩⟩

theorem World.follows (blind : rule.Blind)
    : Thread.Follows (World.act rule) World.Other (Op.Linked veil) (World.Alike veil) where
  acts alike linked step := alike.acts blind linked step
  others alike step := alike.others step

end Follows

-----------------------------------------------------------------------------------------
-- The worker's bodies
-----------------------------------------------------------------------------------------

instance : Sections Op.Inside where
  asks _ _ := trivial
  locks _ := trivial
  unlocks _ := trivial
  reads := trivial
  labels _ _ := trivial
  registers _ := trivial
  drops _ := trivial
  notifies _ _ := trivial
  resets := trivial
  times := trivial
  ticks _ _ := trivial
  moves _ _ _ := trivial
  publishes _ := trivial
  describes _ _ _ _ := trivial
  takes := trivial
  forgets := trivial

section Bodies

variable {veil : Veil} {β β' : Type} {p p' : Json}

/-- A body that is given no secret. -/
theorem Worker.Stays.twins {body : Worker α} (stays : body.Stays Op.Inside)
    : Twins (Op.Linked veil) (· = ·) body body :=
  .of_within stays fun _ inside => .same inside

/-- Bodies that end with the same value go on with it. -/
theorem twins_then {body body' : Worker α} {next : α → Worker β} {next' : α → Worker β'}
    {ends : β → β' → Prop} (first : Twins (Op.Linked veil) (· = ·) body body')
    (rest : ∀ value, Twins (Op.Linked veil) ends (next value) (next' value))
    : Twins (Op.Linked veil) ends (body.bind next) (body'.bind next') := by
  apply Twins.bind first
  intro value value' same
  subst same
  exact rest value

theorem Worker.Stays.twinsThen {body : Worker α} {next : α → Worker β} {next' : α → Worker β'}
    {ends : β → β' → Prop} (stays : body.Stays Op.Inside)
    (rest : ∀ value, Twins (Op.Linked veil) ends (next value) (next' value))
    : Twins (Op.Linked veil) ends (body.bind next) (body.bind next') :=
  twins_then stays.twins rest

theorem twins_locked {mode : LockMode} {body : Worker β} {body' : Worker β'} {ends : β → β' → Prop}
    (block : Twins (Op.Linked veil) ends body body')
    : Twins (Op.Linked veil) ends (Worker.locked mode body) (Worker.locked mode body') :=
  .call (.same trivial) fun _ _ _ =>
    block.ensure (Worker.Stays.twins ⟨trivial, fun _ => trivial⟩)

theorem twins_answer {answer answer' : Except Exn α} (same : answer = answer')
    : Twins (Op.Linked veil) (· = ·) (Worker.orThrow answer) (Worker.orThrow answer') := by
  subst same
  exact Worker.Stays.orThrow.twins

/-- A secret is read. -/
theorem twins_secret {key default : String} {next next' : String → Worker β}
    (alike : p.Alike p') (secret : key ∈ secretKeys)
    (rest : ∀ text text', Twins (Op.Linked veil) (· = ·) (next text) (next' text'))
    : Twins (Op.Linked veil) (· = ·) ((Worker.orThrow (p.valueString key default)).bind next)
        ((Worker.orThrow (p'.valueString key default)).bind next') := by
  rcases alike.text secret with same | ⟨text, text', read, read'⟩
  · rw [same]
    exact Worker.Stays.orThrow.twinsThen fun text => rest text text
  · rw [read, read']
    exact rest text text'

/-- Another field is read. -/
theorem twins_value {get : Json → Except Exn α} {key : String} {default : α}
    {next next' : α → Worker β} (alike : p.Alike p') (plain : key ∉ secretKeys)
    (rest : ∀ value, Twins (Op.Linked veil) (· = ·) (next value) (next' value))
    : Twins (Op.Linked veil) (· = ·) ((Worker.orThrow (Json.value get p key default)).bind next)
        ((Worker.orThrow (Json.value get p' key default)).bind next') := by
  rw [alike.value plain]
  exact Worker.Stays.orThrow.twinsThen rest

theorem makeWallet_twins {kind path password password' : String} {nettype : Int}
    (alike : p.Alike p')
    : Twins (Op.Linked veil) (· = ·) (makeWallet kind p password path nettype)
        (makeWallet kind p' password' path nettype) := by
  refine .ite (.call (.secret .openWallet) fun _ _ => twins_answer) ?_
  refine .ite (twins_value alike (by decide) fun _ => ?_) (.ite ?_ ?_)
  · exact .call (.secret .createWallet) fun _ _ => twins_answer
  · refine twins_secret alike (by decide) fun _ _ => twins_value alike (by decide) fun _ =>
      twins_secret alike (by decide) fun _ _ => ?_
    exact .call (.secret .recoveryWallet) fun _ _ => twins_answer
  · refine twins_value alike (by decide) fun _ => twins_value alike (by decide) fun _ =>
      twins_secret alike (by decide) fun _ _ => twins_secret alike (by decide) fun _ _ => ?_
    exact .call (.secret .createWalletFromKeys) fun _ _ => twins_answer

theorem obtainWallet_twins {kind path password : String} {o : OpenParams} {nettype : Int}
    (alike : p.Alike p')
    : Twins (Op.Linked veil) (· = ·) (obtainWallet kind p o path nettype)
        (obtainWallet kind p' { o with password } path nettype) := by
  refine Worker.Stays.lib.twinsThen fun found => .ite refuseOpen_stays.twins
    (.ite refuseOpen_stays.twins (twins_then (makeWallet_twins alike) fun _ => .pure rfl))

theorem openWith_twins {kind password : String} {o : OpenParams} {plan : Plan}
    (alike : p.Alike p')
    : Twins (Op.Linked veil) (· = ·) (openWith kind p o plan)
        (openWith kind p' { o with password } plan) := by
  have isOpen : Worker.Stays Op.Inside
      (Worker.locked .unique (Worker.read.bind fun m => .pure m.wallet.isSome)) :=
    .locked (.bind .read fun _ => .value)
  refine isOpen.twinsThen fun isOpen => .ite (.pure rfl) ?_
  refine Worker.Stays.setState.twinsThen fun _ => Worker.Stays.read.twinsThen fun m =>
    Worker.Stays.lib.twinsThen fun _ => twins_then (obtainWallet_twins alike) fun ended => ?_
  cases ended with
  | leave out => exact .pure rfl
  | go w? =>
      -- the password is read no more
      exact Worker.Stays.twins (.andThen checkWallet_stays fun _ => .andThen initWallet_stays
        fun _ => attachWallet_stays)

theorem twins_openParams (alike : p.Alike p')
    : Twins (Op.Linked veil) (fun o o' : OpenParams => ∃ password, o' = { o with password })
        (Worker.orThrow (openParams p)) (Worker.orThrow (openParams p')) := by
  rcases openParams_alike alike with same | ⟨o, password, read, read'⟩
  · rw [same]
    cases openParams p with
    | error => exact .throw
    | ok o => exact .pure ⟨o.password, rfl⟩
  · rw [read, read']
    exact .pure ⟨password, rfl⟩

theorem doOpenLike_twins {kind : String} (alike : p.Alike p')
    : Twins (Op.Linked veil) (· = ·) (doOpenLike kind p) (doOpenLike kind p') := by
  refine .bind (twins_openParams alike) ?_
  rintro o _ ⟨password, rfl⟩
  refine .ite (.pure rfl) (.ite (.pure rfl) ?_)
  refine Worker.Stays.resolve.twinsThen fun node => Worker.Stays.orThrow.twinsThen fun policy => ?_
  cases policy with
  | leave out => exact .pure rfl
  | go plan => exact openWith_twins alike

theorem replacePassword_twins {w : Wallet} (alike : p.Alike p')
    : Twins (Op.Linked veil) (· = ·) (replacePassword w p) (replacePassword w p') := by
  refine twins_secret alike (by decide) fun _ _ => twins_then ?_ fun right => .ite (.pure rfl) ?_
  · exact Worker.Stays.read.twinsThen fun _ =>
      .call (.secret .verifyWalletPassword) fun _ _ => twins_answer
  refine twins_secret alike (by decide) fun _ _ => twins_then ?_ fun ok => ?_
  · exact .call (.secret .setPassword) fun _ _ => twins_answer
  · exact Worker.Stays.twins (.ite (.bind .lib fun _ => .value) (.bind .lib fun _ => .value))

theorem doChangePassword_twins (alike : p.Alike p')
    : Twins (Op.Linked veil) (· = ·) (doChangePassword p) (doChangePassword p') := by
  refine twins_locked (Worker.Stays.read.twinsThen fun m => ?_)
  cases m.wallet with
  | none => exact .pure rfl
  | some w =>
      exact Worker.Stays.lib.twinsThen fun _ => (replacePassword_twins alike).ensure
        (Worker.Stays.twins ⟨trivial, fun _ => trivial⟩)

/-- The other jobs read no secret. -/
theorem buildTx_alike {w : Wallet} (alike : p.Alike p') : buildTx w p' = buildTx w p := by
  have text {key default : String} (plain : key ∉ secretKeys)
      : p'.valueString key default = p.valueString key default := alike.value plain
  have priority : p'.valueInt32 "priority" 0 = p.valueInt32 "priority" 0 := alike.value (by decide)
  have account : p'.valueUInt32 "accountIndex" 0 = p.valueUInt32 "accountIndex" 0 :=
    alike.value (by decide)
  have amount : p'.valueString "amount" "" = p.valueString "amount" "" := text (by decide)
  have address : p'.valueString "address" "" = p.valueString "address" "" := text (by decide)
  have payment : p'.valueString "paymentId" "" = p.valueString "paymentId" "" := text (by decide)
  simp only [buildTx, amount, address, priority, account, payment]

theorem handle_alike (alike : p.Alike p')
    : p'.valueString "txHandle" "" = p.valueString "txHandle" "" :=
  alike.value (by decide)

theorem dispatch_twins {ptr : JobPtr} {job : Job}
    : Twins (Op.Linked veil) (· = ·) (dispatch job) (dispatch (job.veiled veil ptr)) := by
  have alike : job.params.Alike (job.veiled veil ptr).params := veil.alike ptr job.params
  have creates : doCreateTransaction (job.veiled veil ptr).params = doCreateTransaction job.params :=
    congrArg sending (funext fun _ => buildTx_alike alike)
  have commits : doCommit (job.veiled veil ptr).params = doCommit job.params := by
    simp only [doCommit, handle_alike alike]
  have disposes : doDispose (job.veiled veil ptr).params = doDispose job.params := by
    simp only [doDispose, handle_alike alike]
  refine .ite (doOpenLike_twins alike) (.ite doClose_stays.twins (.ite doRescan_stays.twins ?_))
  rw [creates, commits, disposes]
  refine .ite (Worker.Stays.twins (doCreateTransaction_stays fun _ => trivial)) ?_
  refine .ite (Worker.Stays.twins (doCommit_stays fun _ => trivial)) ?_
  refine .ite (Worker.Stays.twins (doDispose_stays fun _ => trivial)) ?_
  exact .ite (doChangePassword_twins alike) (.pure rfl)

theorem run_twins {ptr : JobPtr} {job : Job}
    : Twins (Op.Linked veil) (· = ·) (run ptr job) (run ptr (job.veiled veil ptr)) := by
  refine resetLocksOnce_stays.twinsThen fun _ => twins_then ?_ fun out => ?_
  · exact dispatch_twins.tryCatch fun _ => .pure rfl
  · refine Worker.Stays.twins (.bind ⟨trivial, fun _ => Worker.Stays.orThrow⟩ fun _ => ?_)
    exact .guarded (.tell trivial) fun _ => .value

/-- A turn takes a job with the other secrets. -/
theorem turn_twins : Twins (Op.Linked veil) (· = ·) turn turn := by
  refine .bind (.call .front fun front front' same => .pure same) fun front front' same => ?_
  subst same
  refine .tryCatch ?_ fun _ => .pure rfl
  cases front with
  | none => exact tick_stays.twins
  | some front => exact run_twins

end Bodies

-----------------------------------------------------------------------------------------
-- Whole runs
-----------------------------------------------------------------------------------------

/-- What is not between the worker and the library: all that is told or asked of others, and the
outcomes of jobs. -/
def Event.outward : Event → Bool
  | .asked (.lib _) .. | .asked (.destructor _) .. | .began .. => false
  | .asked .. | .settled .. => true

theorem Event.Alike.outward {veil : Veil} {h h' : History}
    (alike : List.Forall₂ (Event.Alike veil) h h')
    : h'.filter Event.outward = h.filter Event.outward := by
  induction alike with
  | nil => rfl
  | cons first _ ih =>
      cases first with
      | secret => exact ih
      | began => exact ih
      | asked => rw [List.filter_cons, List.filter_cons, ih]
      | settled => rw [List.filter_cons, List.filter_cons, ih]

/-- Whatever a run of the module comes to, it comes to as well with other secrets in its jobs, as
long as the library gives the same answers: its members are the same, the same is told and asked
of everyone but the library, with the same answers, the same library functions are called, with
arguments that differ in the secrets alone, every job has the same outcome, and a client is told
the same of every ticket. -/
theorem secrets_reach_the_library_alone {rule : Surroundings} {hasNotify : Bool} {t : System}
    (blind : rule.Blind) (veil : Veil) (reach : Reachable rule hasNotify t)
    : ∃ t', Reachable rule hasNotify t'
      ∧ t'.state.mem = t.state.mem
      ∧ t'.state.tickets = t.state.tickets.veiled veil
      ∧ List.Forall₂ (Event.Alike veil) t.state.history t'.state.history
      ∧ t'.state.history.filter Event.outward = t.state.history.filter Event.outward
      ∧ ∀ call : ClientCall,
          (call.run t'.state.mem t'.state.tickets).1 = (call.run t.state.mem t.state.tickets).1 := by
  have follows : Thread.Follows (World.act rule) World.Other (Op.Linked veil) (World.Alike veil) :=
    World.follows blind
  obtain ⟨t', reach', _, alike⟩ := Thread.Reach.twin follows turn_twins ⟨rfl, rfl, .nil⟩ reach
  refine ⟨t', reach', alike.mem, alike.tickets, alike.history, Event.Alike.outward alike.history,
    fun call => ?_⟩
  rw [alike.mem, alike.tickets, Tickets.veiled_answer]

theorem anyAnswer_blind : Surroundings.Blind AnyAnswer := fun _ _ _ _ _ _ _ _ => trivial

theorem libraryReturns_blind : Surroundings.Blind LibraryReturns := by
  intro veil h h' e e' _ alike returns
  cases alike with
  | asked => exact returns
  | @secret _ _ _ answer _ _ given same =>
      cases given <;> cases same <;> cases answer <;> exact returns
  | began => trivial
  | settled => trivial

/-- A secret's text is replaced. -/
def Json.otherText (text : String) (key : String) : Json → Json
  | .str old => .str (if key ∈ secretKeys then text else old)
  | value => value

/-- The text of every secret is replaced by one. -/
def Json.withSecrets (text : String) : Json → Json
  | .obj fields => .obj (fields.map fun field => (field.1, field.2.otherText text field.1))
  | j => j

theorem Json.find?_withSecrets {text key : String} {fields : List (String × Json)}
    : (Json.withSecrets text (.obj fields)).find? key
      = ((Json.obj fields).find? key).map (Json.otherText text key) := by
  induction fields with
  | nil => rfl
  | cons field fields ih =>
      by_cases named : field.1 = key
      · subst named
        simp [Json.withSecrets, Json.find?]
      · simpa [Json.withSecrets, Json.find?, named] using ih

theorem Json.alike_withSecrets {text : String} (p : Json) : p.Alike (p.withSecrets text) := by
  cases p with
  | obj fields =>
      have found (key : String) : (Json.withSecrets text (.obj fields)).find? key
          = ((Json.obj fields).find? key).map (Json.otherText text key) := Json.find?_withSecrets
      simp only [Json.withSecrets] at found
      refine .fields (fun key plain => ?_) fun key secret => ?_
      · rw [found]
        cases (Json.obj fields).find? key with
        | none => rfl
        | some value => cases value <;> simp [Json.otherText, plain]
      · rw [found]
        cases (Json.obj fields).find? key with
        | none => exact .inl rfl
        | some value => cases value <;> simp [Json.otherText, secret]
  | _ => exact .same

/-- A wallet opened with a password. -/
def World.openedWithPassword (password : String) : World :=
  let job := .obj [("name", .str "w"), ("password", .str password), ("network", .str "stagenet")]
  (World.withJob "open_wallet" job).afterTurn
    (Script.succeeding true 2 (.obj [("url", .str "http://127.0.0.1:18081")]))

/-- It is opened as well with another. -/
theorem secrets_reach_the_library_alone_opened
    : ∃ t', Reachable LibraryReturns true t' ∧ t'.state.mem.wallet = some ⟨9⟩
      ∧ (t'.state.tickets.heap.map fun job => str job.params "password") = ["another"] := by
  let veil : Veil := ⟨fun _ p => p.withSecrets "another", fun _ p => p.alike_withSecrets⟩
  have reach : Reachable LibraryReturns true ⟨.pure (), World.openedWithPassword "one"⟩ :=
    (Reachable.withJob _ _).afterTurn Script.succeeding_returns
  obtain ⟨t', reach', mem, tickets, _⟩ :=
    secrets_reach_the_library_alone libraryReturns_blind veil reach
  refine ⟨t', reach', ?_, ?_⟩
  · rw [mem]
    rfl
  · rw [tickets]
    rfl

end MoneroWalletCore.Runtime
