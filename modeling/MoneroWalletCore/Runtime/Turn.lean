import MoneroWalletCore.Runtime.Jobs
import MoneroWalletCore.Runtime.Tickets

/-! The worker thread: the idle tick with its move to Tor, a job's run, and one turn of the
loop that does either.
-/

namespace MoneroWalletCore.Runtime

/-- A catch-up node that sends no new block for this long gives way to Tor. -/
def kCatchUpGiveUp : Nat := 90 * 10 ^ 9

/-- On Tor the node module is asked again this often. -/
def kTorAskEvery : Nat := 60 * 10 ^ 9

-----------------------------------------------------------------------------------------
-- Moving to Tor
-----------------------------------------------------------------------------------------

/-- The node module's answer gives a node and a proxy to reach it through. -/
def torReady (node : Json) : Bool :=
  !node.contains "error" && str node "url" ≠ "" && str node "proxy" ≠ ""
    && str node "proxy" ≠ "tor"

def dropCatchUp (node : Json) : Worker Unit :=
  match node.find? "catchUp" with
  | some (.obj fields) => do
      let _ ← Worker.socketsTo (hostPort (str (.obj fields) "url")) true
      pure ()
  | _ => pure ()

/-- Nothing more goes to the catch-up node: the refresh is stopped, and the request in flight
waited out going offline. False when there is no wallet. -/
def goOffline (abandon : Bool) (node : Json) : Worker Bool :=
  Worker.locked .shared do
    let m ← Worker.read
    match m.wallet with
    | none => pure false
    | some w => do
        Worker.lib (.pauseRefresh w)
        Worker.lib (.stop w)
        Program.when abandon (dropCatchUp node)
        Worker.lib (.setOffline w true)
        let _ ← Worker.lib (.refresh w)
        pure true

/-- After the init over Tor: the wallet goes online, or its error is told. -/
def goOnline (w : Wallet) (ok : Bool) : Worker (Option String) :=
  if ok then do
    Worker.lib (.setTrustedDaemon w false)
    Worker.lib (.setOffline w false)
    Worker.lib (.setAutoRefreshInterval w 2000)
    Worker.lib (.startRefresh w)
    Worker.lib (.refreshAsync w)
    pure (some "")
  else do
    let e ← Worker.lib (.errorString w)
    pure (some ("moving to Tor failed: " ++ e))

/-- wallet2 is given the node over Tor, once there is one. The answer is the error, empty for
none; nothing when there is no wallet. -/
def dialTor (node : Json) : Worker (Option String) :=
  Worker.locked .unique do
    let m ← Worker.read
    match m.wallet with
    | none => pure none
    | some w =>
        if torReady node then do
          let ok ← Worker.lib
            (.init w (cstr (hostPort (str node "url"))) 0 "" "" false false
              (cstr (proxyHostPort (str node "proxy"))))
          goOnline w ok
        else
          pure (some "")

/-- The section that records where the move ended. -/
def moved (node : Json) (error : String) (now : Nat) (m : Mem) : Mem :=
  let onTor := torReady node && error = ""
  { m with
    route := if onTor then .tor else .waitingForTor
    progressAt := now
    torAskedAt := now
    torUrl := if onTor then str node "url" else ""
    daemonConnected := false
    dialPeer := if onTor then proxyHostPort (str node "proxy") else "" }

def recordMove (node : Json) (error : String) : Worker Unit := do
  let now ← Worker.now
  let m ← Worker.update (moved node error now)
  setState m.state error

/-- The move, once the node module has answered. -/
def moveWith (abandon : Bool) (node : Json) (from_ : Route) : Worker Unit :=
  if !torReady node && from_ = .waitingForTor then
    pure ()
  else do
    let stopped ← goOffline abandon node
    if !stopped then
      pure ()
    else do
      let dialled ← dialTor node
      match dialled with
      | none => pure ()
      | some error => recordMove node error

def moveToTor (abandon : Bool) (resolved : Option Json) : Worker Unit := do
  let m ← Worker.read
  match resolved with
  | some node => moveWith abandon node m.route
  | none => do
      let node ← Worker.resolve m.network
      moveWith abandon node m.route

-----------------------------------------------------------------------------------------
-- The tick
-----------------------------------------------------------------------------------------

/-- A height above the last one is progress. -/
def progressed (height : UInt64) (now : Nat) (m : Mem) : Mem :=
  if height > m.progressHeight then { m with progressHeight := height, progressAt := now } else m

def isStuck (synced : Bool) (now : Nat) (m : Mem) : Bool :=
  m.route = .catchUp && !synced && now - m.progressAt > kCatchUpGiveUp

def asksTor (now : Nat) (m : Mem) : Bool := m.route = .tor && now - m.torAskedAt ≥ kTorAskEvery

/-- The section of `tick`. -/
def ticked (height : UInt64) (now : Nat) (m : Mem) : Mem :=
  let m := progressed height now m
  if asksTor now m then { m with torAskedAt := now } else m

/-- The open wallet, and what it holds about the chain. -/
def observeWallet : Worker (Option (Bool × UInt64)) :=
  Worker.locked .shared do
    let m ← Worker.read
    match m.wallet with
    | none => pure none
    | some w => do
        let synced ← Worker.lib (.synchronized w)
        let height ← Worker.lib (.blockChainHeight w)
        pure (some (synced, height))

/-- The node module is asked for the node of a wallet on Tor, and a new one is moved to. -/
def reask (network bound : String) : Worker Unit := do
  let node ← Worker.resolve network
  Program.when (torReady node && str node "url" ≠ bound) (moveToTor false (some node))

/-- The move that is due at a tick, if one is. -/
def followRoute (synced : Bool) (now : Nat) (m : Mem) : Worker Unit :=
  if m.route = .catchUp && (synced || isStuck synced now m) || m.route = .waitingForTor then
    moveToTor (isStuck synced now m && !synced) none
  else if asksTor now m then
    reask m.network m.torUrl
  else
    pure ()

/-- The label follows what wallet2 reports. -/
def followSync (synced : Bool) : Worker Unit := do
  let m ← Worker.read
  if m.state = .syncing && synced then setState .ready ""
  else if m.state = .ready && !synced then setState .syncing ""
  else pure ()

def tick : Worker Unit := do
  resetLocksOnce
  let seen ← observeWallet
  match seen with
  | none => pure ()
  | some (synced, height) => do
      let now ← Worker.now
      let m ← Worker.update (ticked height now)
      followRoute synced now (progressed height now m)
      followSync synced

-----------------------------------------------------------------------------------------
-- A job's run
-----------------------------------------------------------------------------------------

/-- The body of a kind; another kind leaves the outcome null. -/
def dispatch (job : Job) : Worker Json :=
  if job.kind ∈ openKinds then doOpenLike job.kind job.params
  else if job.kind = "close_wallet" then doClose
  else if job.kind = "rescan" then doRescan
  else if job.kind = "create_transaction" then doCreateTransaction job.params
  else if job.kind = "commit_transaction" then doCommit job.params
  else if job.kind = "dispose_transaction" then doDispose job.params
  else if job.kind = "change_password" then doChangePassword job.params
  else pure .null

/-- Not every throw from wallet2 and its dependencies derives from `std::exception`. -/
def caught (e : Exn) : Json :=
  match e with
  | .std what => err ("exception: " ++ what)
  | .unknown => err "the wallet engine raised an unknown error"

/-- The outcome is stored, and then told. A failure to tell it changes nothing. -/
def settleJob (ptr : JobPtr) (job : Job) (out : Json) : Worker Unit := do
  let state ← Program.call (Op.settle ptr out) Worker.orThrow
  (Worker.emit "jobFinished"
    (.obj [("jobId", .str job.id), ("state", .str state.name)])).tryCatch fun _ => pure ()

def run (ptr : JobPtr) (job : Job) : Worker Unit := do
  resetLocksOnce
  let out ← (dispatch job).tryCatch fun e => pure (caught e)
  settleJob ptr job out

/-- One turn of `threadMain`: the front job, or a tick when nothing is queued. -/
def turn : Worker Unit := do
  let front ← Program.perform Op.dequeue
  (match front with
    | some (ptr, job) => run ptr job
    | none => tick).tryCatch fun _ => pure ()

end MoneroWalletCore.Runtime
