import MoneroWalletCore.Runtime.Jobs

/-! The bodies that run beside the worker: the clients' direct calls, which hold the handle while
they are inside wallet2, and the probe's round.
-/

namespace MoneroWalletCore.Runtime

-----------------------------------------------------------------------------------------
-- Calls
-----------------------------------------------------------------------------------------

/-- A `TransactionHistory*`. Each wallet object has one. -/
structure TxHistory where
  wallet : Wallet
  deriving DecidableEq, Repr

/-- A `TransactionInfo*`: a row that one refresh of its history made. -/
structure TxInfo where
  history : TxHistory
  generation : Nat
  index : Nat
  deriving DecidableEq, Repr

/-- The `MONERO_TransactionInfo_*` accessors. -/
inductive Info where
  | transfersCount
  | transfersAddress (index : Nat)
  | transfersAmount (index : Nat)
  | hash
  | direction
  | amount
  | fee
  | blockHeight
  | confirmations
  | timestamp
  | isPending
  | isFailed
  | isCoinbase
  | unlockTime
  | paymentId
  | description
  | subaddrIndex (separator : String)
  | subaddrAccount
  deriving DecidableEq, Repr

abbrev Info.Ret : Info → Type
  | .transfersCount | .direction => Int
  | .transfersAddress _ | .hash | .paymentId | .description | .subaddrIndex _ => String
  | .transfersAmount _ | .amount | .fee | .blockHeight | .confirmations | .timestamp
  | .unlockTime => UInt64
  | .isPending | .isFailed | .isCoinbase => Bool
  | .subaddrAccount => UInt32

/-- The library calls of the clients and the probe. -/
inductive Query where
  /-- A call that the worker makes too. -/
  | lib (c : Lib)
  | daemonBlockChainHeight (w : Wallet)
  | balance (w : Wallet) (account : UInt32)
  | unlockedBalance (w : Wallet) (account : UInt32)
  | numSubaddresses (w : Wallet) (account : UInt32)
  | getSubaddressLabel (w : Wallet) (account index : UInt32)
  | addSubaddress (w : Wallet) (account : UInt32) (label : String)
  | setSubaddressLabel (w : Wallet) (account index : UInt32) (label : String)
  | seed (w : Wallet) (offset : String)
  | secretViewKey (w : Wallet)
  | history (w : Wallet)
  | historyRefresh (h : TxHistory)
  | historyCount (h : TxHistory)
  | historyTransaction (h : TxHistory) (index : Nat)
  | info (t : TxInfo) (i : Info)
  deriving DecidableEq, Repr

abbrev Query.Ret : Query → Type
  | .lib c => c.Ret
  | .daemonBlockChainHeight _ | .balance .. | .unlockedBalance .. | .numSubaddresses .. => UInt64
  | .getSubaddressLabel .. | .seed .. | .secretViewKey _ => String
  | .addSubaddress .. | .setSubaddressLabel .. | .historyRefresh _ => Unit
  | .history _ => Option TxHistory
  | .historyCount _ => Int
  | .historyTransaction .. => Option TxInfo
  | .info _ i => i.Ret

/-- The atomic actions of a client or the probe. -/
inductive ReadOp where
  /-- A section under `m_stateMu` that only reads. -/
  | members
  /-- A look at `m_wallet`. -/
  | handle
  | lock (mode : LockMode)
  /-- The lock shared, given up after `kReadWait`. -/
  | tryLock
  | unlock (mode : LockMode)
  | query (c : Query)
  | socketsTo (hostport : String) (drop : Bool)
  /-- The probe's section: the reading of its round on a wallet. -/
  | record (w : Wallet) (connected : Bool) (height : UInt64)

abbrev ReadOp.Ans : ReadOp → Type
  | .members => Mem
  | .handle => Option Wallet
  | .lock _ | .unlock _ | .record .. => Unit
  | .tryLock => Bool
  | .query c => Except Exn c.Ret
  | .socketsTo .. => Nat

abbrev Reader := Program ReadOp ReadOp.Ans Exn

namespace Reader

variable {α : Type}

def members : Reader Mem := Program.perform ReadOp.members

def handle : Reader (Option Wallet) := Program.perform ReadOp.handle

def orThrow (result : Except Exn α) : Reader α :=
  match result with
  | .ok value => .pure value
  | .error error => .throw error

def query (c : Query) : Reader c.Ret := Program.call (.query c) orThrow

def lib (c : Lib) : Reader c.Ret := query (.lib c)

def unlock (mode : LockMode) : Reader Unit := Program.perform (ReadOp.unlock mode)

/-- A scope that holds `m_handleMu`. -/
def locked (mode : LockMode) (body : Reader α) : Reader α :=
  Program.call (.lock mode) fun _ => body.ensure (unlock mode)

/-- A scope that shares `m_handleMu`, if it gets it in time. -/
def lockedInTime (late : α) (body : Reader α) : Reader α :=
  Program.call .tryLock fun got => if got then body.ensure (unlock .shared) else .pure late

/-- A loop from an index on, with what its turns list. -/
def collect (body : Nat → Reader (Option Json)) : (left index : Nat) → Reader (List Json)
  | 0, _ => .pure []
  | left + 1, index => do
      let item ← body index
      let rest ← collect body left (index + 1)
      pure (item.toList ++ rest)

end Reader

/-- `operator[]`: a field assigned, at the end when it is new. -/
def Json.assign (j : Json) (key : String) (value : Json) : Json :=
  match j with
  | .obj fields =>
      if fields.any (fun field => field.1 == key) then
        .obj (fields.map fun field => if field.1 == key then (key, value) else field)
      else
        .obj (fields ++ [(key, value)])
  | j => j

-----------------------------------------------------------------------------------------
-- Status
-----------------------------------------------------------------------------------------

/-- What `status()` takes from the members. The daemon is as the probe last saw it. -/
def statusSection (m : Mem) : Json :=
  let j := (statusLocked m).assign "connected" (.bool m.daemonConnected)
  if m.probed && m.daemonHeight ≠ 0 then j.assign "daemonHeight" (.uint m.daemonHeight) else j

def withBusy (j : Json) : Json := j.assign "busy" (.bool true)

def withReads (j : Json) (synced : Bool) (height : UInt64) (watchOnly : Bool) : Json :=
  ((j.assign "synchronized" (.bool synced)).assign "walletHeight" (.uint height)).assign
    "watchOnly" (.bool watchOnly)

def withoutReads (j : Json) : Json :=
  ((((j.assign "connected" (.bool false)).assign "synchronized" (.bool false)).assign
    "walletHeight" (.uint 0)).assign "daemonHeight" (.uint 0)).assign "watchOnly" (.bool false)

/-- The chain figures, from the wallet that is open by then. -/
def statusReads (j : Json) : Reader Json := do
  let w? ← Reader.handle
  match w? with
  | none => pure (withoutReads j)
  | some w => do
      let synced ← Reader.lib (.synchronized w)
      let height ← Reader.lib (.blockChainHeight w)
      let watchOnly ← Reader.lib (.watchOnly w)
      pure (withReads j synced height watchOnly)

/-- A build holds the wallet for long; the answer then says that it is busy. -/
def status : Reader Json := do
  let m ← Reader.members
  Reader.lockedInTime (withBusy (statusSection m)) (statusReads (statusSection m))

-----------------------------------------------------------------------------------------
-- Balances and addresses
-----------------------------------------------------------------------------------------

/-- A read of one text. Busy, it is empty: not read, never zero. -/
def readText (none_ : String) (body : Wallet → Reader String) : Reader Json :=
  Reader.lockedInTime (.str "") do
    let w? ← Reader.handle
    match w? with
    | none => pure (.str none_)
    | some w => do
        let text ← body w
        pure (.str text)

def balance (account : UInt32) : Reader Json :=
  readText "0" fun w => do
    let amount ← Reader.query (.balance w account)
    pure (toString amount)

def unlockedBalance (account : UInt32) : Reader Json :=
  readText "0" fun w => do
    let amount ← Reader.query (.unlockedBalance w account)
    pure (toString amount)

def address (account index : UInt64) : Reader Json :=
  readText "" fun w => Reader.lib (.address w account index)

def subaddressItem (w : Wallet) (account : UInt32) (index : Nat) : Reader (Option Json) := do
  let text ← Reader.lib (.address w account.toUInt64 (UInt64.ofNat index))
  let label ← Reader.query (.getSubaddressLabel w account (UInt32.ofNat index))
  pure
    (some
      (.obj
        [("index", .uint (UInt64.ofNat index)), ("address", .str text), ("label", .str label)]))

def subaddresses (account : UInt32) : Reader Json :=
  Reader.lockedInTime (.arr []) do
    let w? ← Reader.handle
    match w? with
    | none => pure (.arr [])
    | some w => do
        let n ← Reader.query (.numSubaddresses w account)
        let items ← Reader.collect (subaddressItem w account) n.toNat 0
        pure (.arr items)

/-- A change of the subaddresses, which holds the handle alone. -/
def onWallet (body : Wallet → Reader Json) : Reader Json :=
  Reader.locked .unique do
    let w? ← Reader.handle
    match w? with
    | none => pure (err "no wallet open")
    | some w => body w

def createSubaddress (account : UInt32) (label : String) : Reader Json :=
  onWallet fun w => do
    Reader.query (.addSubaddress w account (cstr label))
    let n ← Reader.query (.numSubaddresses w account)
    if n = 0 then
      pure (err "addSubaddress failed")
    else do
      let idx := n - 1
      let _ ← Reader.lib (.store w "")
      let text ← Reader.lib (.address w account.toUInt64 idx)
      pure (okWith (.obj [("index", .uint idx), ("address", .str text)]))

/-- Index 0 is the account's primary address, which wallet2 also labels. -/
def setSubaddressLabel (account index : UInt32) (label : String) : Reader Json :=
  onWallet fun w => do
    let n ← Reader.query (.numSubaddresses w account)
    if index.toUInt64 ≥ n then
      pure (err "no such subaddress")
    else do
      Reader.query (.setSubaddressLabel w account index (cstr label))
      let _ ← Reader.lib (.store w "")
      let text ← Reader.query (.getSubaddressLabel w account index)
      pure (okWith (.obj [("index", .uint index.toUInt64), ("label", .str text)]))

-----------------------------------------------------------------------------------------
-- History
-----------------------------------------------------------------------------------------

/-- An accessor of a row. -/
def info (t : TxInfo) (i : Info) : Reader i.Ret := Reader.query (.info t i)

def destinationItem (t : TxInfo) (index : Nat) : Reader (Option Json) := do
  let text ← info t (.transfersAddress index)
  let amount ← info t (.transfersAmount index)
  pure (some (.obj [("address", .str text), ("amount", .str (toString amount))]))

/-- wallet2 records destinations only for transfers this wallet made. -/
def destinations (t : TxInfo) : Reader Json := do
  let dn ← info t .transfersCount
  let items ← Reader.collect (destinationItem t) dn.toNat 0
  pure (.arr items)

def historyRow (t : TxInfo) : Reader Json := do
  let dests ← destinations t
  let txid ← info t .hash
  let direction ← info t .direction
  let amount ← info t .amount
  let fee ← info t .fee
  let height ← info t .blockHeight
  let confirmations ← info t .confirmations
  let timestamp ← info t .timestamp
  let pending ← info t .isPending
  let failed ← info t .isFailed
  let coinbase ← info t .isCoinbase
  let unlockTime ← info t .unlockTime
  let paymentId ← info t .paymentId
  let description ← info t .description
  let subaddrIndex ← info t (.subaddrIndex ",")
  let account ← info t .subaddrAccount
  pure
    (.obj
      [
        ("txid", .str txid), ("direction", .str (if direction = 0 then "in" else "out")),
        ("amount", .str (toString amount)), ("fee", .str (toString fee)),
        ("height", .uint height), ("confirmations", .uint confirmations),
        ("timestamp", .uint timestamp), ("pending", .bool pending), ("failed", .bool failed),
        ("coinbase", .bool coinbase), ("unlockTime", .uint unlockTime),
        ("paymentId", .str paymentId), ("description", .str description),
        ("subaddrIndex", .str subaddrIndex), ("destinations", dests),
        ("account", .uint account.toUInt64)
      ])

def historyItem (h : TxHistory) (index : Nat) : Reader (Option Json) := do
  let t? ← Reader.query (.historyTransaction h index)
  match t? with
  | none => pure none
  | some t => do
      let row ← historyRow t
      pure (some row)

/-- The rows that a refresh leaves. -/
def historyRows (h : TxHistory) : Reader Json := do
  Reader.query (.historyRefresh h)
  let n ← Reader.query (.historyCount h)
  let items ← Reader.collect (historyItem h) n.toNat 0
  pure (.arr items)

def history : Reader Json :=
  Reader.locked .shared do
    let w? ← Reader.handle
    match w? with
    | none => pure (.arr [])
    | some w => do
        let h? ← Reader.query (.history w)
        match h? with
        | none => pure (.arr [])
        | some h => historyRows h

-----------------------------------------------------------------------------------------
-- Key material
-----------------------------------------------------------------------------------------

def keysFile (dir name : String) : String := pathIn dir name ++ ".keys"

/-- `verifyPassword`, on a client's thread. -/
def checkPassword (password : String) : Reader Bool := do
  let m ← Reader.members
  Reader.lib
    (.verifyWalletPassword (cstr (keysFile m.walletsDir m.walletName)) (cstr password) false 1)

/-- Key material of the open wallet, once the password has been checked. -/
def reveal (password : String) (body : Wallet → Reader Json) : Reader Json :=
  Reader.locked .shared do
    let w? ← Reader.handle
    match w? with
    | none => pure (err "no wallet open")
    | some w => do
        let right ← checkPassword password
        if !right then pure (err "wrong password") else body w

def revealSeed (password : String) : Reader Json :=
  reveal password fun w => do
    let seed ← Reader.query (.seed w "")
    if seed = "" then
      pure (err "this wallet has no seed (restored from keys?)")
    else
      pure (okWith (.obj [("seed", .str seed)]))

def revealViewKey (password : String) : Reader Json :=
  reveal password fun w => do
    let viewKey ← Reader.query (.secretViewKey w)
    let text ← Reader.lib (.address w 0 0)
    pure (okWith (.obj [("viewKey", .str viewKey), ("address", .str text)]))

/-- A direct call of a client. -/
inductive Request where
  | status
  | balance (account : UInt32)
  | unlockedBalance (account : UInt32)
  | address (account index : UInt64)
  | subaddresses (account : UInt32)
  | createSubaddress (account : UInt32) (label : String)
  | setSubaddressLabel (account index : UInt32) (label : String)
  | history
  | revealSeed (password : String)
  | revealViewKey (password : String)
  deriving DecidableEq, Repr

def Request.body : Request → Reader Json
  | .status => Runtime.status
  | .balance account => Runtime.balance account
  | .unlockedBalance account => Runtime.unlockedBalance account
  | .address account index => Runtime.address account index
  | .subaddresses account => Runtime.subaddresses account
  | .createSubaddress account label => Runtime.createSubaddress account label
  | .setSubaddressLabel account index label => Runtime.setSubaddressLabel account index label
  | .history => Runtime.history
  | .revealSeed password => Runtime.revealSeed password
  | .revealViewKey password => Runtime.revealViewKey password

-----------------------------------------------------------------------------------------
-- The probe
-----------------------------------------------------------------------------------------

/-- wallet2's own socket, read off this process. -/
def probeSockets (peer : String) : Reader Bool :=
  if peer = "" then
    .pure false
  else do
    let n ← Program.perform (ReadOp.socketsTo peer false)
    pure (n > 0)

/-- Synchronized, requests are short; otherwise the height would wait behind whole batches. -/
def probeHeight (w : Wallet) (connected : Bool) : Reader UInt64 :=
  if connected then do
    let synced ← Reader.lib (.synchronized w)
    if synced then Reader.query (.daemonBlockChainHeight w) else pure 0
  else
    .pure 0

/-- A round of `probeMain`. The reading is written under the handle: a close in between would
otherwise get this wallet's. -/
def probeRound : Reader Unit :=
  (Reader.lockedInTime () do
    let w? ← Reader.handle
    match w? with
    | none => pure ()
    | some w => do
        let m ← Reader.members
        let connected ← probeSockets m.dialPeer
        let height ← probeHeight w connected
        Program.perform (ReadOp.record w connected height)).tryCatch fun _ => pure ()

end MoneroWalletCore.Runtime
