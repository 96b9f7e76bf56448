import MoneroWalletCore.Runtime.Actions

/-! The four open-like jobs, in the stages of their body: the parameters, the node policy, the
wallet object, its check against the network, its daemon, and its publication.
-/

namespace MoneroWalletCore.Runtime

/-- Not an address: wallet2 then dials through a connector that always fails. -/
def kNoRoute : String := "nowhere"

def openKinds : List String :=
  ["open_wallet", "create_wallet", "restore_from_seed", "restore_from_keys"]

structure OpenParams where
  name : String
  password : String
  network : String

def openParams (p : Json) : Except Exn OpenParams := do
  let name ← p.valueString "name" ""
  let password ← p.valueString "password" ""
  let network ← p.valueString "network" ""
  return { name, password, network }

def badName (name : String) : Bool := name = "" || occurs "/" name || occurs ".." name

def knownNetworks : List String := ["mainnet", "stagenet", "testnet", "regtest"]

-----------------------------------------------------------------------------------------
-- Node policy
-----------------------------------------------------------------------------------------

/-- The catch-up node's url; empty without one. -/
def catchUpUrl (node : Json) : String :=
  match node.find? "catchUp" with
  | some (.obj fields) => str (.obj fields) "url"
  | _ => ""

/-- identifying catches up directly first; a built-in Tor still joining (proxy "tor") is
waited for with nowhere to dial. -/
def routeOf (node : Json) : Route :=
  if catchUpUrl node ≠ "" then .catchUp
  else if str node "proxy" = "tor" then .waitingForTor
  else if str node "proxy" ≠ "" then .tor
  else .direct

def dialUrl (node : Json) : String :=
  if routeOf node = .catchUp then catchUpUrl node else str node "url"

def dialProxy (node : Json) : String :=
  match routeOf node with
  | .tor => proxyHostPort (str node "proxy")
  | .waitingForTor => kNoRoute
  | _ => ""

/-- A node's answer once the policy has let it pass. -/
structure Plan where
  node : Json
  proxyRequired : Bool

/-- Node policy first, so a refusal costs nothing. -/
def nodePolicy (network : String) (node : Json) : Except Exn (Stage Plan) :=
  if node.contains "error" then
    .ok (.leave (err (str node "error")))
  else do
    let proxyRequired ← node.valueBool "proxyRequired" false
    if str node "url" = "" then
      return .leave (err ("no daemon configured for " ++ network))
    else if proxyRequired && str node "proxy" = "" then
      return .leave
        (err
          ("proxy required for " ++ network
            ++ " but none configured (fail-closed: refusing to connect in the clear)"))
    else
      return .go { node, proxyRequired }

-----------------------------------------------------------------------------------------
-- The wallet object
-----------------------------------------------------------------------------------------

/-- The label goes back, and the job answers with the error. -/
def refuseOpen {α : Type} (label msg : String) : Worker (Stage α) := do
  setState .noWallet label
  pure (.leave (err msg))

/-- The manager's call of a kind. Its arguments are read off the parameters here. -/
def makeWallet (kind : String) (p : Json) (password path : String) (nettype : Int)
    : Worker (Option Wallet) :=
  if kind = "open_wallet" then
    Worker.lib (.openWallet (cstr path) (cstr password) nettype)
  else if kind = "create_wallet" then do
    let language ← Worker.orThrow (p.valueString "language" "English")
    Worker.lib (.createWallet (cstr path) (cstr password) (cstr language) nettype)
  else if kind = "restore_from_seed" then do
    let seed ← Worker.orThrow (p.valueString "seed" "")
    let restoreHeight ← Worker.orThrow (p.valueUInt64 "restoreHeight" 0)
    let seedOffset ← Worker.orThrow (p.valueString "seedOffset" "")
    Worker.lib
      (.recoveryWallet (cstr path) (cstr password) (cstr seed) nettype restoreHeight 1
        (cstr seedOffset))
  else do
    let restoreHeight ← Worker.orThrow (p.valueUInt64 "restoreHeight" 0)
    let address ← Worker.orThrow (p.valueString "address" "")
    let viewKey ← Worker.orThrow (p.valueString "viewKey" "")
    let spendKey ← Worker.orThrow (p.valueString "spendKey" "")
    Worker.lib
      (.createWalletFromKeys (cstr path) (cstr password) "English" nettype restoreHeight
        (cstr address) (cstr viewKey) (cstr spendKey) 1)

/-- A wallet is opened where one exists, and made where none does. -/
def obtainWallet (kind : String) (p : Json) (o : OpenParams) (path : String) (nettype : Int)
    : Worker (Stage (Option Wallet)) := do
  let found ← Worker.lib (.walletExists (cstr path))
  if kind = "open_wallet" && !found then
    refuseOpen "" ("no such wallet: " ++ o.name)
  else if kind ≠ "open_wallet" && found then
    refuseOpen "" ("wallet already exists: " ++ o.name)
  else do
    let w ← makeWallet kind p o.password path nettype
    pure (.go w)

def openFailed {α : Type} (e : String) : Worker (Stage α) :=
  let e := if e = "" then "open failed" else e
  refuseOpen e e

/-- The loaded wallet is checked before a daemon is configured: the encrypted wallet is the
final network authority. -/
def checkWallet (network : String) (nettype : Int) (w? : Option Wallet)
    : Worker (Stage Wallet) :=
  match w? with
  | none => do
      let e ← Worker.lib .managerErrorString
      openFailed e
  | some w => do
      let status ← Worker.lib (.status w)
      if status ≠ 0 then do
        let e ← Worker.lib (.errorString w)
        let _ ← Worker.lib (.closeWallet w false)
        openFailed e
      else do
        let loaded ← Worker.lib (.nettype w)
        if loaded ≠ nettype then do
          let _ ← Worker.lib (.closeWallet w false)
          let e :=
            "wallet network does not match selected " ++ network
              ++ "; select the wallet's network and try again"
          refuseOpen e e
        else
          pure (.go w)

-----------------------------------------------------------------------------------------
-- The daemon
-----------------------------------------------------------------------------------------

/-- The wait for a connection: at most the given number of looks. -/
def awaitConnected (w : Wallet) : Nat → Worker Bool
  | 0 => .pure false
  | looks + 1 => do
      let connected ← Worker.lib (.connected w)
      if connected = 1 then
        pure true
      else do
        Worker.sleep 500
        awaitConnected w looks

/-- wallet2 is given where to dial. -/
def dialWallet (kind : String) (plan : Plan) (w : Wallet) : Worker (Stage Unit) := do
  let ok ← Worker.lib
    (.init w (cstr (hostPort (dialUrl plan.node))) 0 "" "" false false
      (cstr (dialProxy plan.node)))
  if ok then
    pure (.go ())
  else do
    let e ← Worker.lib (.errorString w)
    let _ ← Worker.lib (.closeWallet w (kind ≠ "open_wallet"))
    refuseOpen e ("init failed: " ++ e)

/-- A regtest wallet just made must not inherit the mainnet height estimate. -/
def initWallet (kind network : String) (plan : Plan) (w : Wallet) : Worker (Stage Unit) := do
  Program.when (network = "regtest" && kind ≠ "open_wallet")
    (Worker.lib (.setRefreshFromBlockHeight w 0))
  dialWallet kind plan w

/-- With nowhere to dial, the wallet is kept offline. -/
def waitOffline (plan : Plan) (w : Wallet) : Worker Unit :=
  Program.when (routeOf plan.node = .waitingForTor) (Worker.lib (.setOffline w true))

/-- The daemon's trust, read off the node's answer on the direct route only. -/
def trustDaemon (plan : Plan) (w : Wallet) : Worker Unit := do
  let trusted ←
    if routeOf plan.node = .direct then
      Worker.orThrow (plan.node.valueBool "trusted" false)
    else
      pure false
  Worker.lib (.setTrustedDaemon w (trusted && isLoopback (str plan.node "url")))

/-- wallet2 never errors when it cannot reach the node. Under a required proxy from a node
module without "Use Tor for" that is a failure. -/
def connectDaemon (plan : Plan) (w : Wallet) : Worker (Stage Unit) :=
  if routeOf plan.node = .tor && str plan.node "torUse" = "" then do
    let connected ← awaitConnected w 20
    if !connected && plan.proxyRequired then do
      let _ ← Worker.lib (.closeWallet w true)
      refuseOpen "daemon unreachable through the required proxy"
        "daemon unreachable through the required proxy"
    else
      pure (.go ())
  else
    pure (.go ())

/-- The refresh starts unless there is nowhere to dial; the answer is the primary address. -/
def startWallet (plan : Plan) (w : Wallet) : Worker String := do
  Worker.lib (.setAutoRefreshInterval w 2000)
  Program.when (routeOf plan.node ≠ .waitingForTor) do
    Worker.lib (.startRefresh w)
    Worker.lib (.refreshAsync w)
  Worker.lib (.address w 0 0)

-----------------------------------------------------------------------------------------
-- Publication
-----------------------------------------------------------------------------------------

/-- Restrict the files wallet2 just wrote; it uses the default umask. -/
def restrictFiles (path : String) : Worker Unit :=
  Worker.forEach
    (fun f => do
      let found ← Worker.fileExists f
      Program.when found (Worker.restrictPermissions f))
    [path, path ++ ".keys", path ++ ".address.txt"]

/-- The section that describes the open wallet. -/
def described (o : OpenParams) (node : Json) (addr : String) (now : Nat) (m : Mem) : Mem :=
  { m with
    walletName := o.name
    network := o.network
    primaryAddress := addr
    nettype := nettypeOf o.network
    lastError := ""
    route := routeOf node
    torUse := str node "torUse"
    probed := false
    daemonConnected := false
    daemonHeight := 0
    dialPeer :=
      match routeOf node with
      | .tor => dialProxy node
      | .waitingForTor => ""
      | _ => hostPort (dialUrl node)
    progressHeight := 0
    progressAt := now
    torAskedAt := now
    torUrl := if routeOf node = .tor then str node "url" else "" }

/-- An open wallet is told of, and reported. -/
def announceWallet (o : OpenParams) (path addr : String) (w : Wallet) : Worker Json := do
  notifyOpen o.network true
  restrictFiles path
  setState .syncing ""
  let watchOnly ← Worker.lib (.watchOnly w)
  pure
    (okWith
      (.obj
        [
          ("name", .str o.name), ("network", .str o.network), ("address", .str addr),
          ("watchOnly", .bool watchOnly)
        ]))

def publishWallet (o : OpenParams) (plan : Plan) (path addr : String) (w : Wallet)
    : Worker Json := do
  let _ ← Worker.locked .unique (Worker.update fun m => { m with wallet := some w })
  let now ← Worker.now
  let _ ← Worker.update (described o plan.node addr now)
  announceWallet o path addr w

-----------------------------------------------------------------------------------------
-- The body
-----------------------------------------------------------------------------------------

/-- The next stage, unless the body has answered. -/
def andThen {α : Type} (stage : Worker (Stage α)) (next : α → Worker Json) : Worker Json :=
  stage.bind fun
    | .leave out => .pure out
    | .go value => next value

/-- From the init on: the wallet is told how to behave, and published unless its node has to
be reached and is not. -/
def attachWallet (o : OpenParams) (plan : Plan) (path : String) (w : Wallet) : Worker Json := do
  waitOffline plan w
  trustDaemon plan w
  andThen (connectDaemon plan w) fun _ => do
    let addr ← startWallet plan w
    publishWallet o plan path addr w

def configureWallet (kind : String) (o : OpenParams) (plan : Plan) (path : String) (w : Wallet)
    : Worker Json :=
  andThen (initWallet kind o.network plan w) fun _ => attachWallet o plan path w

/-- The body once the policy has let the node pass. -/
def openWith (kind : String) (p : Json) (o : OpenParams) (plan : Plan) : Worker Json := do
  let isOpen ← Worker.locked .unique do
    let m ← Worker.read
    pure m.wallet.isSome
  if isOpen then
    pure (err "a wallet is already open; close it first")
  else do
    setState .opening ""
    let m ← Worker.read
    let path := pathIn m.walletsDir o.name
    Worker.lib (.setDaemonAddress (cstr (hostPort (dialUrl plan.node))))
    andThen (obtainWallet kind p o path (nettypeOf o.network)) fun w? =>
      andThen (checkWallet o.network (nettypeOf o.network) w?) fun w =>
        configureWallet kind o plan path w

def doOpenLike (kind : String) (p : Json) : Worker Json := do
  let o ← Worker.orThrow (openParams p)
  if badName o.name then
    pure (err "bad wallet name")
  else if o.network ∉ knownNetworks then
    pure (err ("unknown network: " ++ o.network))
  else do
    let node ← Worker.resolve o.network
    let policy ← Worker.orThrow (nodePolicy o.network node)
    match policy with
    | .leave out => pure out
    | .go plan => openWith kind p o plan

end MoneroWalletCore.Runtime
