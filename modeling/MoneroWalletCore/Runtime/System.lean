import Mathlib.Tactic.Simps.Basic
import MoneroWalletCore.Foundation.Thread
import MoneroWalletCore.Runtime.Turn

/-! The running module: the worker thread among the clients, the probe and its host, and the
history of what the worker asked for and was answered. What the worker does depends on its own
members and on the answers alone, which is the view that its bodies are reasoned about in.
-/

namespace MoneroWalletCore.Runtime

-----------------------------------------------------------------------------------------
-- Members of others
-----------------------------------------------------------------------------------------

/-- The members that others write: the host its directory, the probe its readings. -/
structure Others where
  walletsDir : String := ""
  probed : Bool := false
  daemonConnected : Bool := false
  daemonHeight : UInt64 := 0

@[simps]
def Mem.under (m : Mem) (o : Others) : Mem :=
  { m with
    walletsDir := o.walletsDir
    probed := o.probed
    daemonConnected := o.daemonConnected
    daemonHeight := o.daemonHeight }

/-- The worker's own members, with nothing said about the others. -/
@[simps!]
def Mem.own (m : Mem) : Mem := m.under {}

/-- What others wrote into the members. -/
def Mem.others (m : Mem) : Others :=
  {
    walletsDir := m.walletsDir
    probed := m.probed
    daemonConnected := m.daemonConnected
    daemonHeight := m.daemonHeight
  }

theorem Mem.own_under (m : Mem) : m.own.under m.others = m := rfl

-----------------------------------------------------------------------------------------
-- Histories
-----------------------------------------------------------------------------------------

inductive Event where
  /-- A call of the worker, its answer, and the worker's members when it was made. -/
  | asked (call : Call) (answer : call.Answer) (members : Mem)
  | began (ptr : JobPtr) (job : Job)
  | settled (ptr : JobPtr) (out : Json) (state : Except Exn JobState)

/-- What happened, the last event first. -/
abbrev History := List Event

/-- Which events the surroundings may produce after which history. -/
abbrev Surroundings := History → Event → Prop

/-- Any answer may be given. -/
def AnyAnswer : Surroundings := fun _ _ => True

/-- Library calls return normally, whatever they return. -/
def LibraryReturns : Surroundings := fun _ e =>
  match e with
  | .asked (.lib _) (.error _) _ => False
  | _ => True

/-- Surroundings that answer alike whatever happened before. -/
class Unaware (rule : Surroundings) : Prop where
  alike : ∀ h h' e, rule h e → rule h' e

instance : Unaware AnyAnswer := ⟨fun _ _ _ _ => trivial⟩

instance : Unaware LibraryReturns := ⟨fun _ _ _ allowed => allowed⟩

def beganBy : Option (JobPtr × Job) → History
  | none => []
  | some (ptr, job) => [.began ptr job]

-----------------------------------------------------------------------------------------
-- The system
-----------------------------------------------------------------------------------------

structure World where
  mem : Mem
  tickets : Tickets := {}
  history : History := []

/-- One action of the worker. Sections are atomic, so a lock changes nothing by itself. -/
def World.act (rule : Surroundings) : Program.Semantics Op Op.Ans World := fun w op answer w' =>
  match op, answer with
  | .update f, found => found = w.mem ∧ w' = { w with mem := f w.mem }
  | .lock _, _ => w' = w
  | .unlock _, _ => w' = w
  | .dequeue, front =>
      front = w.tickets.dequeue.1
        ∧ w' =
          { w with tickets := w.tickets.dequeue.2, history := beganBy front ++ w.history }
  | .settle ptr out, state =>
      state = (w.tickets.settle ptr out).1
        ∧ w' =
          { w with
            tickets := (w.tickets.settle ptr out).2
            history := .settled ptr out state :: w.history }
  | .ask call, answer =>
      rule w.history (.asked call answer w.mem.own)
        ∧ w' = { w with history := .asked call answer w.mem.own :: w.history }

/-- What may happen between two actions of the worker. -/
inductive World.Other : World → World → Prop
  | client (w : World) (call : ClientCall)
    : Other w { w with tickets := (call.run w.mem w.tickets).2 }
  | setWalletsDir (w : World) (dir : String)
    : Other w { w with mem := { w.mem with walletsDir := dir } }
  /-- The probe's section. It holds the handle of an open wallet, and a height of zero is no
  reading. -/
  | probe (w : World) (connected : Bool) (height : UInt64) (isOpen : w.mem.wallet.isSome)
    : Other w
        { w with
          mem :=
            { w.mem with
              probed := true
              daemonConnected := connected
              daemonHeight := if height ≠ 0 then height else w.mem.daemonHeight } }

/-- The members as the constructor leaves them. -/
def World.start (hasNotify : Bool) : World := { mem := { hasNotify } }

/-- The system at one moment. -/
abbrev System := Thread Op Op.Ans Exn World

/-- The moments of every run in the given surroundings. -/
def Reachable (rule : Surroundings) (hasNotify : Bool) (t : System) : Prop :=
  Thread.Reach (World.act rule) World.Other turn (World.start hasNotify) t

/-- No turn is under way. -/
def System.Idle (t : System) : Prop := t.rest = .pure ()

/-- A whole turn of the worker, among the others. -/
def World.Turn (rule : Surroundings) (w w' : World) : Prop :=
  Thread.WholeTurn (World.act rule) World.Other turn w w'

theorem World.act_mono {rule rule' : Surroundings} (weaker : ∀ h e, rule h e → rule' h e) (w : World)
    (op : Op) (answer : op.Ans) (w' : World) (step : World.act rule w op answer w')
    : World.act rule' w op answer w' := by
  cases op with
  | ask c => exact ⟨weaker _ _ step.1, step.2⟩
  | _ => exact step

theorem World.Turn.mono {rule rule' : Surroundings} {w w' : World} (whole : World.Turn rule w w')
    (weaker : ∀ h e, rule h e → rule' h e)
    : World.Turn rule' w w' :=
  Thread.WholeTurn.mono whole (World.act_mono weaker)

-----------------------------------------------------------------------------------------
-- What the worker sees
-----------------------------------------------------------------------------------------

/-- The worker's own members, and the history. -/
structure View where
  mem : Mem
  history : History
  owned : mem.own = mem

def View.at (mem : Mem) (history : History) : View := { mem := mem.own, history, owned := rfl }

def World.view (w : World) : View := View.at w.mem w.history

def View.push (v : View) (e : Event) : View := { v with history := e :: v.history }

/-- The state that an outcome gives its job. -/
def outcome (out : Json) : Except Exn JobState := do
  let ok ← out.valueBool "ok" false
  if ok then do
    let _ ← Json.value Except.ok out "result" (.obj [])
    return .done
  else do
    let _ ← out.valueString "error" "unknown error"
    return .failed

@[simp] theorem outcome_err {msg : String} : outcome (err msg) = .ok .failed := rfl

@[simp] theorem outcome_okWith {result : Json} : outcome (okWith result) = .ok .done := rfl

@[simp] theorem outcome_caught {error : Exn} : outcome (caught error) = .ok .failed := by
  cases error <;> rfl

/-- The worker's actions on its view: others may have written their members before each
section, and any job may be at the front. -/
def View.act (rule : Surroundings) : Program.Semantics Op Op.Ans View := fun v op answer v' =>
  match op, answer with
  | .update f, found => ∃ o, found = v.mem.under o ∧ v' = View.at (f found) v.history
  | .lock _, _ => v' = v
  | .unlock _, _ => v' = v
  | .dequeue, front => v' = { v with history := beganBy front ++ v.history }
  | .settle ptr out, state => state = outcome out ∧ v' = v.push (.settled ptr out state)
  | .ask call, answer =>
      rule v.history (.asked call answer v.mem) ∧ v' = v.push (.asked call answer v.mem)

theorem Tickets.settle_fst (t : Tickets) (ptr : JobPtr) (out : Json)
    : (t.settle ptr out).1 = outcome out := by
  unfold Tickets.settle outcome
  cases out.valueBool "ok" false with
  | error e => rfl
  | ok ok =>
      cases ok with
      | true => cases Json.value Except.ok out "result" (.obj []) <;> rfl
      | false => cases out.valueString "error" "unknown error" <;> rfl

theorem World.act_view {rule : Surroundings} (w : World) (op : Op) (answer : op.Ans) (w' : World)
    (step : World.act rule w op answer w')
    : View.act rule w.view op answer w'.view := by
  cases op with
  | update f =>
      obtain ⟨rfl, rfl⟩ := step
      exact ⟨w.mem.others, rfl, rfl⟩
  | lock mode =>
      cases step
      rfl
  | unlock mode =>
      cases step
      rfl
  | dequeue =>
      obtain ⟨rfl, rfl⟩ := step
      rfl
  | settle ptr out =>
      obtain ⟨rfl, rfl⟩ := step
      exact ⟨w.tickets.settle_fst ptr out, rfl⟩
  | ask call =>
      obtain ⟨allowed, rfl⟩ := step
      exact ⟨allowed, rfl⟩

theorem World.Other.view {w w' : World} (step : World.Other w w') : w'.view = w.view := by
  cases step <;> rfl

/-- What every whole turn keeps holds whenever no turn is under way. -/
theorem Reachable.invariant {rule : Surroundings} {hasNotify : Bool} {Inv : View → Prop}
    {t : System} (reach : Reachable rule hasNotify t) (idle : t.Idle)
    (init : Inv (World.start hasNotify).view)
    (kept : ∀ v, Inv v → turn.wp (View.act rule) (fun _ => Inv) (fun _ => Inv) v)
    : Inv t.state.view := by
  have holds := Thread.Reach.wp World.act_view (fun _ _ => World.Other.view) init kept reach
  rw [idle] at holds
  exact holds

theorem World.Turn.runs {rule : Surroundings} {w w' : World} (whole : World.Turn rule w w')
    : Program.Runs (View.act rule) turn w.view (.ok ()) w'.view :=
  Thread.runs_of_moves World.act_view (fun _ _ => World.Other.view) whole

end MoneroWalletCore.Runtime
