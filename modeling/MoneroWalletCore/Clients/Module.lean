import MoneroWalletCore.Clients.Reads
import MoneroWalletCore.Foundation.Pool
import MoneroWalletCore.Foundation.ReadersWriter
import MoneroWalletCore.Runtime.Histories

/-! The whole module: the worker, the probe and the clients' direct calls as threads over one
state, with the lock of the handle between them. The library's part in a client's call is left
to a parameter; what the worker asks of it is in the worker's history.
-/

namespace MoneroWalletCore.Runtime

/-- The threads inside the module. Every direct call is one of its own. -/
inductive Actor where
  | worker
  | probe
  | call (n : Nat)
  deriving DecidableEq, Repr

namespace Actor

abbrev Op : Actor → Type
  | .worker => Runtime.Op
  | .probe | .call _ => ReadOp

abbrev Ans : ∀ i : Actor, i.Op → Type
  | .worker => Runtime.Op.Ans
  | .probe | .call _ => ReadOp.Ans

abbrev Out : Actor → Type
  | .worker | .probe => Unit
  | .call _ => Json

end Actor

/-- How the library answers clients and the probe, and what that does to it. -/
abbrev Library (Λ : Type) := Λ → Actor → (c : Query) → Except Exn c.Ret → Λ → Prop

/-- A wallet that was put in place: by which job, and after how many others. -/
structure Opened where
  wallet : Wallet
  job : Option Job
  earlier : Nat

/-- What a direct call was answered, and in which session: the last wallet put in place. -/
structure Note where
  op : ReadOp
  answer : op.Ans
  opened : Option Opened

/-- A reading that the probe took, and in which session. -/
structure Round where
  wallet : Wallet
  connected : Bool
  height : UInt64
  opened : Option Opened

/-- What the threads share, and what happened to them. -/
structure Shared (Λ : Type) where
  world : World
  lock : RwLock Actor := .free
  library : Λ
  opened : Option Opened := none
  requests : Nat → Option Request := fun _ => none
  /-- The notes of a thread, the last one first. -/
  notes : Actor → List Note := fun _ => []
  rounds : List Round := []

/-- The lock once a thread has taken it so, if it can. -/
def LockMode.take? (l : RwLock Actor) (i : Actor) : LockMode → Option (RwLock Actor)
  | .unique => l.tryLock i
  | .shared => l.tryLockShared i

/-- The lock once a thread has given back what it took so. -/
def LockMode.give (l : RwLock Actor) (i : Actor) : LockMode → RwLock Actor
  | .unique => l.unlock i
  | .shared => l.unlockShared i

namespace Shared

variable {Λ : Type}

-----------------------------------------------------------------------------------------
-- The worker
-----------------------------------------------------------------------------------------

/-- The last wallet put in place, once the worker has acted. -/
def openedBy (s : Shared Λ) (world : World) : Option Opened :=
  match s.world.mem.wallet, world.mem.wallet with
  | none, some wallet =>
      some
        {
          wallet
          job := lastJob world.history
          earlier := (s.opened.map fun last => last.earlier + 1).getD 0
        }
  | _, _ => s.opened

def worked (s : Shared Λ) (world : World) (lock : RwLock Actor) : Shared Λ :=
  { s with world, lock, opened := s.openedBy world }

/-- The lock after an action of the worker, if it is not blocked. -/
def lockAfter (s : Shared Λ) : Op → Option (RwLock Actor)
  | .lock mode => mode.take? s.lock .worker
  | .unlock mode => some (mode.give s.lock .worker)
  | _ => some s.lock

/-- An action of the worker. -/
def work (rule : Surroundings) : Program.Semantics Op Op.Ans (Shared Λ) := fun s op answer s' =>
  ∃ world lock, World.act rule s.world op answer world ∧ s.lockAfter op = some lock
    ∧ s' = s.worked world lock

-----------------------------------------------------------------------------------------
-- The clients and the probe
-----------------------------------------------------------------------------------------

/-- A thread's action is noted. -/
def noted (s : Shared Λ) (i : Actor) (op : ReadOp) (answer : op.Ans) : Shared Λ :=
  { s with notes := Function.update s.notes i ({ op, answer, opened := s.opened } :: s.notes i) }

/-- The section that writes a reading down. A height of zero is no reading. -/
def recorded (s : Shared Λ) (w : Wallet) (connected : Bool) (height : UInt64) : Shared Λ :=
  { s with
    world :=
      { s.world with
        mem :=
          { s.world.mem with
            probed := true
            daemonConnected := connected
            daemonHeight := if height ≠ 0 then height else s.world.mem.daemonHeight } }
    rounds := { wallet := w, connected, height, opened := s.opened } :: s.rounds }

/-- An action of a client or the probe. -/
def read (library : Library Λ) (i : Actor) : Program.Semantics ReadOp ReadOp.Ans (Shared Λ) :=
  fun s op answer s' =>
    match op, answer with
    | .members, found => found = s.world.mem ∧ s' = s.noted i .members found
    | .handle, found => found = s.world.mem.wallet ∧ s' = s.noted i .handle found
    | .lock mode, _ => ∃ lock, mode.take? s.lock i = some lock ∧ s' = { s with lock }
    | .tryLock, got =>
        ∃ lock, (if got then LockMode.shared.take? s.lock i = some lock else lock = s.lock)
          ∧ s' = { s with lock }
    | .unlock mode, _ => s' = { s with lock := mode.give s.lock i }
    | .query c, result =>
        ∃ after, library s.library i c result after
          ∧ s' = { s with library := after }.noted i (.query c) result
    | .socketsTo .., _ => s' = s
    | .record w connected height, _ => s' = s.recorded w connected height

-----------------------------------------------------------------------------------------
-- The host
-----------------------------------------------------------------------------------------

/-- The clients' calls about jobs, and the host's directory. -/
inductive Hosted : World → World → Prop
  | client (w : World) (call : ClientCall)
    : Hosted w { w with tickets := (call.run w.mem w.tickets).2 }
  | setWalletsDir (w : World) (dir : String)
    : Hosted w { w with mem := { w.mem with walletsDir := dir } }

def host (s s' : Shared Λ) : Prop := ∃ world, Hosted s.world world ∧ s' = { s with world }

end Shared

-----------------------------------------------------------------------------------------
-- The threads
-----------------------------------------------------------------------------------------

abbrev Module (Λ : Type) := Pool Actor Actor.Op Actor.Ans (fun _ => Exn) Actor.Out (Shared Λ)

namespace Module

variable {Λ : Type}

def act (rule : Surroundings) (library : Library Λ)
    : ∀ i : Actor, Program.Semantics i.Op i.Ans (Shared Λ)
  | .worker => Shared.work rule
  | .probe => Shared.read library .probe
  | .call n => Shared.read library (.call n)

/-- The worker and the probe begin their next round, and a client makes a call. -/
def starts
    : ∀ i : Actor, Program i.Op i.Ans Exn i.Out → Program i.Op i.Ans Exn i.Out →
        Shared Λ → Shared Λ → Prop
  | .worker => fun rest p s s' => rest = .pure () ∧ p = turn ∧ s' = s
  | .probe => fun rest p s s' => rest = .pure () ∧ p = probeRound ∧ s' = s
  | .call n => fun _ p s s' =>
      s.requests n = none
        ∧ ∃ request : Request, p = request.body
            ∧ s' = { s with requests := Function.update s.requests n (some request) }

def rules (rule : Surroundings) (library : Library Λ)
    : Pool.Rules Actor Actor.Op Actor.Ans (fun _ => Exn) Actor.Out (Shared Λ) where
  act := act rule library
  starts := starts
  others := Shared.host
  may _ _ _ := True

/-- The module as the constructor leaves it. -/
def start (hasNotify : Bool) (library : Λ) : Module Λ where
  rest
    | .worker | .probe => .pure ()
    | .call _ => .pure .null
  state := { world := World.start hasNotify, library }

end Module

end MoneroWalletCore.Runtime
