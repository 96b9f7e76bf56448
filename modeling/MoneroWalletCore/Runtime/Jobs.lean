import MoneroWalletCore.Address.AddressCheck
import MoneroWalletCore.Runtime.OpenJob

/-! The bodies of the other jobs. Each holds the handle uniquely while it is in the library.
-/

namespace MoneroWalletCore.Runtime

/-- The send gate's answer while a Tor route is not on Tor yet. The prefix is the code. -/
def kWaitingForTor : String :=
  "waiting_for_tor: sends go only over Tor, once the wallet has caught up and moved to it"

-----------------------------------------------------------------------------------------
-- Closing
-----------------------------------------------------------------------------------------

/-- The section that forgets the wallet that was open. -/
def forgotten (m : Mem) : Mem :=
  { m with
    walletName := ""
    primaryAddress := ""
    lastSynced := false
    route := .direct
    torUse := ""
    probed := false
    daemonConnected := false
    daemonHeight := 0
    dialPeer := "" }

/-- The handle is taken out of the module, with the transactions built on it. -/
def withoutWallet (m : Mem) : Mem := { m with wallet := none, pendingTx := ∅ }

def takeWallet : Worker (Option Wallet) :=
  Worker.locked .unique do
    let m ← Worker.read
    match m.wallet with
    | none => pure none
    | some w => do
        setState .closing ""
        let _ ← Worker.update withoutWallet
        pure (some w)

/-- The library lets go of the wallet, and the module forgets it. -/
def releaseWallet (w : Wallet) : Worker Json := do
  let _ ← Worker.lib (.store w "")
  let ok ← Worker.lib (.closeWallet w true)
  let m ← Worker.update forgotten
  notifyOpen m.network false
  setState .noWallet ""
  pure (if ok then okWith (.obj []) else err "close failed")

def doClose : Worker Json := do
  let held ← takeWallet
  match held with
  | none => pure (err "no wallet open")
  | some w => releaseWallet w

def doRescan : Worker Json := do
  let rescanned ← Worker.locked .unique do
    let m ← Worker.read
    match m.wallet with
    | none => pure false
    | some w => do
        Worker.lib (.rescanBlockchainAsync w)
        pure true
  if rescanned then do
    setState .syncing ""
    pure (okWith (.obj []))
  else
    pure (err "no wallet open")

-----------------------------------------------------------------------------------------
-- Transactions
-----------------------------------------------------------------------------------------

def txHandle (n : UInt64) : String := "tx" ++ toString n

/-- The transaction takes the next handle. -/
def registered (pt : PendingTx) (m : Mem) : Mem :=
  { m with nextTx := m.nextTx + 1, pendingTx := m.pendingTx.insert (txHandle m.nextTx) pt }

def describeTx (pt : PendingTx) (handle destination : String) : Worker Json := do
  let amount ← Worker.lib (.pendingAmount pt)
  let fee ← Worker.lib (.pendingFee pt)
  let dust ← Worker.lib (.pendingDust pt)
  let txCount ← Worker.lib (.pendingTxCount pt)
  let txids ← Worker.lib (.pendingTxid pt ",")
  pure
    (okWith
      (.obj
        [
          ("txHandle", .str handle), ("amount", .str (toString amount)),
          ("fee", .str (toString fee)), ("dust", .str (toString dust)),
          ("txCount", .uint txCount), ("txids", .str txids), ("destination", .str destination)
        ]))

/-- A transaction that was built is looked at, and kept under a handle. -/
def keepTx (dst : String) (pt? : Option PendingTx) : Worker Json :=
  match pt? with
  | none => pure (err "createTransaction returned null")
  | some pt => do
      let status ← Worker.lib (.pendingStatus pt)
      if status ≠ 0 then do
        let e ← Worker.lib (.pendingErrorString pt)
        pure (err (if e = "" then "createTransaction failed" else e))
      else do
        let m ← Worker.update (registered pt)
        describeTx pt (txHandle m.nextTx) dst

/-- The checks of a send, then the call. -/
def buildTx (w : Wallet) (p : Json) : Worker Json := do
  let watchOnly ← Worker.lib (.watchOnly w)
  if watchOnly then
    pure (err "view-only wallet cannot spend")
  else do
    let text ← Worker.orThrow (p.valueString "amount" "")
    match (parseAtomic text).filter (· ≠ 0) with
    | none => pure (err "amount must be a positive decimal string of atomic units")
    | some amount => do
        let dst ← Worker.orThrow (p.valueString "address" "")
        let m ← Worker.read
        if !Address.valid dst m.network then
          pure (err "invalid destination address for this network")
        else do
          let priority ← Worker.orThrow (p.valueInt32 "priority" 0)
          let account ← Worker.orThrow (p.valueUInt32 "accountIndex" 0)
          let paymentId ← Worker.orThrow (p.valueString "paymentId" "")
          let pt ← Worker.lib
            (.createTransaction w (cstr dst) (cstr paymentId) amount 0 priority account "" ",")
          keepTx dst pt

/-- The job on the open wallet, when sends need not wait. -/
def sending (body : Wallet → Worker Json) : Worker Json :=
  Worker.locked .unique do
    let m ← Worker.read
    match m.wallet with
    | none => pure (err "no wallet open")
    | some w => do
        let waits ← sendsWaitForTor
        if waits then pure (err kWaitingForTor) else refreshPaused w (body w)

def doCreateTransaction (p : Json) : Worker Json := sending fun w => buildTx w p

/-- Once relayed the transaction's handle is dropped; otherwise it is kept. -/
def afterRelay (w : Wallet) (handle : String) (pt : PendingTx) (txids : String) (ok : Bool)
    : Worker Json :=
  if ok then do
    let _ ← Worker.update fun m => { m with pendingTx := m.pendingTx.erase handle }
    let _ ← Worker.lib (.store w "")
    pure (okWith (.obj [("txids", .str (if looksLikeTxid txids then txids else ""))]))
  else do
    let e ← Worker.lib (.pendingErrorString pt)
    pure (err e)

/-- The txid exists before the relay and is empty after it, so it is read first. -/
def relayTx (w : Wallet) (handle : String) (pt : PendingTx) : Worker Json := do
  let txids ← Worker.lib (.pendingTxid pt ",")
  let ok ← Worker.lib (.commit pt "" false)
  afterRelay w handle pt txids ok

def doCommit (p : Json) : Worker Json :=
  sending fun w => do
    let handle ← Worker.orThrow (p.valueString "txHandle" "")
    let m ← Worker.read
    match m.pendingTx.lookup handle with
    | none => pure (err "unknown txHandle")
    | some pt => relayTx w handle pt

def doDispose (p : Json) : Worker Json :=
  Worker.locked .unique do
    let handle ← Worker.orThrow (p.valueString "txHandle" "")
    let m ← Worker.read
    match m.pendingTx.lookup handle with
    | none => pure (err "unknown txHandle")
    | some _ => do
        let _ ← Worker.update fun m => { m with pendingTx := m.pendingTx.erase handle }
        pure (okWith (.obj []))

-----------------------------------------------------------------------------------------
-- Password
-----------------------------------------------------------------------------------------

def verifyPassword (password : String) : Worker Bool := do
  let m ← Worker.read
  Worker.lib
    (.verifyWalletPassword (cstr (pathIn m.walletsDir m.walletName ++ ".keys")) (cstr password)
      false 1)

def replacePassword (w : Wallet) (p : Json) : Worker Json := do
  let old ← Worker.orThrow (p.valueString "oldPassword" "")
  let right ← verifyPassword old
  if !right then
    pure (err "wrong password")
  else do
    let new ← Worker.orThrow (p.valueString "newPassword" "")
    let ok ← Worker.lib (.setPassword w (cstr new))
    if ok then do
      let _ ← Worker.lib (.store w "")
      pure (okWith (.obj []))
    else do
      let e ← Worker.lib (.errorString w)
      pure (err e)

def doChangePassword (p : Json) : Worker Json :=
  Worker.locked .unique do
    let m ← Worker.read
    match m.wallet with
    | none => pure (err "no wallet open")
    | some w => refreshPaused w (replacePassword w p)

end MoneroWalletCore.Runtime
