import MoneroWalletCore.Foundation.Program
import MoneroWalletCore.Runtime.State

/-! The actions that the worker's bodies are written in: sections over the members, locks that
are released however their scope is left, and calls whose exceptions propagate.
-/

namespace MoneroWalletCore.Runtime

/-- A body of the worker thread. -/
abbrev Worker := Program Op Op.Ans Exn

namespace Worker

/-- One section that assigns members, answering the members before it. -/
def update (f : Mem → Mem) : Worker Mem := Program.perform (Op.update f)

def read : Worker Mem := update id

/-- A conversion inside a body: its error is thrown. -/
def orThrow {α : Type} (result : Except Exn α) : Worker α :=
  match result with
  | .ok value => .pure value
  | .error error => .throw error

def lib (c : Lib) : Worker c.Ret := Program.call (.ask (.lib c)) orThrow

def emit (event : String) (payload : Json) : Worker Unit :=
  Program.call (.ask (.emit event payload)) orThrow

def resolve (network : String) : Worker Json := Program.call (.ask (.resolve network)) orThrow

def now : Worker Nat := Program.perform (Op.ask .now)

def sleep (millis : Nat) : Worker Unit := Program.perform (Op.ask (.sleep millis))

def socketsTo (hostport : String) (drop : Bool) : Worker Nat :=
  Program.perform (Op.ask (.socketsTo hostport drop))

def fileExists (path : String) : Worker Bool := Program.perform (Op.ask (.fileExists path))

def restrictPermissions (path : String) : Worker Unit :=
  Program.perform (Op.ask (.restrictPermissions path))

def unlock (mode : LockMode) : Worker Unit := Program.perform (Op.unlock mode)

/-- A scope that holds `m_handleMu`. -/
def locked {α : Type} (mode : LockMode) (body : Worker α) : Worker α :=
  Program.call (.lock mode) fun _ => body.ensure (unlock mode)

/-- The destructor of `RefreshPause`. -/
def resumeRefresh (w : Wallet) : Worker Unit :=
  Program.perform (Op.ask (.destructor (.startRefresh w)))

/-- A loop over a list, left by the first throw. -/
def forEach {α : Type} (body : α → Worker Unit) : List α → Worker Unit
  | [] => .pure ()
  | item :: rest => (body item).bind fun _ => forEach body rest

end Worker

/-- How a stage of a body ends: the body's answer, or a value for the next stage. -/
inductive Stage (α : Type) where
  | leave (out : Json)
  | go (value : α)

-----------------------------------------------------------------------------------------
-- Reporting
-----------------------------------------------------------------------------------------

def moneroCVersion : String := "0.18.5.3-RC1"

def statusLocked (m : Mem) : Json :=
  .obj
    [
      ("state", .str (stateName m.state)), ("wallet", .str m.walletName),
      ("network", .str m.network), ("address", .str m.primaryAddress),
      ("lastError", .str m.lastError), ("libraryVersion", .str moneroCVersion),
      ("torUse", .str m.torUse), ("route", .str (routeName m.route)),
      ("onTor", .bool (m.route = .tor)),
      ("waitingForTor", .bool (m.route = .catchUp ∨ m.route = .waitingForTor))
    ]

/-- The section of `setState`. An empty error keeps the last one. -/
def labelled (s : State) (error : String) (m : Mem) : Mem :=
  { m with state := s, lastError := if error = "" then m.lastError else error }

@[simp] theorem labelled_wallet {s : State} {error : String} {m : Mem}
    : (labelled s error m).wallet = m.wallet := rfl

@[simp] theorem labelled_state {s : State} {error : String} {m : Mem}
    : (labelled s error m).state = s := rfl

def setState (s : State) (error : String) : Worker Unit := do
  let m ← Worker.update (labelled s error)
  Worker.emit "walletStateChanged" (statusLocked (labelled s error m))

def sendsWaitForTor : Worker Bool := do
  let m ← Worker.read
  pure (m.route = .catchUp ∨ m.route = .waitingForTor)

def notifyOpen (network : String) (isOpen : Bool) : Worker Unit := do
  let m ← Worker.read
  Program.when m.hasNotify
    ((Program.call (.ask (.notify network isOpen)) Worker.orThrow).tryCatch fun _ => pure ())

def resetLocksOnce : Worker Unit := do
  let m ← Worker.read
  if m.locksReset || !m.hasNotify then
    pure ()
  else
    let m ← Worker.read
    if m.walletsDir = "" then
      pure ()
    else
      let _ ← Worker.update fun m => { m with locksReset := true }
      Worker.forEach (fun net => notifyOpen net false) ["mainnet", "stagenet", "testnet", "regtest"]

/-- `RefreshPause`: the refresh is paused, and started again by the destructor. -/
def refreshPaused {α : Type} (w : Wallet) (body : Worker α) : Worker α := do
  Worker.lib (.pauseRefresh w)
  body.ensure (Worker.resumeRefresh w)

end MoneroWalletCore.Runtime
