import Mathlib.Data.List.AList
import MoneroWalletCore.Runtime.Json
import MoneroWalletCore.Runtime.Text

/-! The data of the wallet runtime: its members, its tickets, and the calls it makes.
Library objects are known by identities, as the runtime only stores and compares pointers.
-/

namespace MoneroWalletCore.Runtime

-----------------------------------------------------------------------------------------
-- Members
-----------------------------------------------------------------------------------------

inductive State where
  | noWallet
  | opening
  | syncing
  | ready
  | closing
  | failed
  deriving DecidableEq, Repr

def stateName : State → String
  | .noWallet => "no_wallet"
  | .opening => "opening"
  | .syncing => "syncing"
  | .ready => "ready"
  | .closing => "closing"
  | .failed => "failed"

/-- Where wallet2 dials. The two in the middle are Tor routes that are not on Tor yet. -/
inductive Route where
  | direct
  | catchUp
  | waitingForTor
  | tor
  deriving DecidableEq, Repr

def routeName : Route → String
  | .direct => "direct"
  | .catchUp => "catch_up"
  | .waitingForTor => "waiting_for_tor"
  | .tor => "tor"

/-- A wallet object of the library, `void* m_wallet`. -/
structure Wallet where
  id : Nat
  deriving DecidableEq, Repr

/-- A `PendingTransaction*`. -/
structure PendingTx where
  id : Nat
  deriving DecidableEq, Repr

/-- The members that the worker's bodies read and write. Times are nanoseconds of the steady
clock. -/
structure Mem where
  /-- `m_notify` is set. -/
  hasNotify : Bool
  locksReset : Bool := false
  walletsDir : String := ""
  wallet : Option Wallet := none
  pendingTx : AList (fun _ : String => PendingTx) := ∅
  nextTx : UInt64 := 1
  state : State := .noWallet
  walletName : String := ""
  network : String := ""
  primaryAddress : String := ""
  lastError : String := ""
  nettype : Int := 0
  lastSynced : Bool := false
  route : Route := .direct
  probed : Bool := false
  daemonConnected : Bool := false
  dialPeer : String := ""
  daemonHeight : UInt64 := 0
  progressHeight : UInt64 := 0
  progressAt : Nat := 0
  torUrl : String := ""
  torAskedAt : Nat := 0
  torUse : String := ""

-----------------------------------------------------------------------------------------
-- Tickets
-----------------------------------------------------------------------------------------

inductive JobState where
  | queued
  | running
  | done
  | failed
  deriving DecidableEq, Repr

def JobState.name : JobState → String
  | .queued => "queued"
  | .running => "running"
  | .done => "done"
  | .failed => "failed"

structure Job where
  id : String
  receipt : String
  kind : String
  state : JobState := .queued
  error : String := ""
  params : Json
  result : Json := .null
  progress : Json := .null
  acked : Bool := false

/-- A `shared_ptr<Job>`: the position of the job among all jobs ever made. -/
abbrev JobPtr := Nat

/-- What `m_qmu` guards. Jobs are shared objects, so the queue and the map hold pointers into
one heap, and the worker holds one more of its own. -/
structure Tickets where
  heap : List Job := []
  queue : List JobPtr := []
  jobs : AList (fun _ : String => JobPtr) := ∅
  nextId : UInt64 := 1

-----------------------------------------------------------------------------------------
-- Calls to the library
-----------------------------------------------------------------------------------------

/-- The `MONERO_*` calls of the worker, with their arguments as the library sees them. -/
inductive Lib where
  | setDaemonAddress (address : String)
  | walletExists (path : String)
  | openWallet (path password : String) (nettype : Int)
  | createWallet (path password language : String) (nettype : Int)
  | recoveryWallet (path password seed : String) (nettype : Int)
    (restoreHeight kdfRounds : UInt64) (seedOffset : String)
  | createWalletFromKeys (path password language : String) (nettype : Int)
    (restoreHeight : UInt64) (address viewKey spendKey : String) (kdfRounds : UInt64)
  | managerErrorString
  | closeWallet (w : Wallet) (store : Bool)
  | verifyWalletPassword (keysFile password : String) (noSpendKey : Bool) (kdfRounds : UInt64)
  | status (w : Wallet)
  | errorString (w : Wallet)
  | nettype (w : Wallet)
  | setRefreshFromBlockHeight (w : Wallet) (height : UInt64)
  | init (w : Wallet) (address : String) (upperSizeLimit : UInt64) (username password : String)
    (useSsl lightWallet : Bool) (proxy : String)
  | setOffline (w : Wallet) (offline : Bool)
  | setTrustedDaemon (w : Wallet) (trusted : Bool)
  | connected (w : Wallet)
  | setAutoRefreshInterval (w : Wallet) (millis : Nat)
  | startRefresh (w : Wallet)
  | pauseRefresh (w : Wallet)
  | stop (w : Wallet)
  | refresh (w : Wallet)
  | refreshAsync (w : Wallet)
  | rescanBlockchainAsync (w : Wallet)
  | address (w : Wallet) (account index : UInt64)
  | store (w : Wallet) (path : String)
  | watchOnly (w : Wallet)
  | synchronized (w : Wallet)
  | blockChainHeight (w : Wallet)
  | createTransaction (w : Wallet) (dst paymentId : String) (amount : UInt64) (mixin : UInt32)
    (priority : Int32) (account : UInt32) (preferredInputs separator : String)
  | setPassword (w : Wallet) (password : String)
  | pendingStatus (pt : PendingTx)
  | pendingErrorString (pt : PendingTx)
  | pendingAmount (pt : PendingTx)
  | pendingFee (pt : PendingTx)
  | pendingDust (pt : PendingTx)
  | pendingTxCount (pt : PendingTx)
  | pendingTxid (pt : PendingTx) (separator : String)
  | commit (pt : PendingTx) (filename : String) (overwrite : Bool)
  deriving DecidableEq, Repr

/-- What a library call returns. A returned `const char*` is its text, empty for null. -/
abbrev Lib.Ret : Lib → Type
  | .openWallet .. | .createWallet .. | .recoveryWallet .. | .createWalletFromKeys .. =>
      Option Wallet
  | .createTransaction .. => Option PendingTx
  | .walletExists _ | .closeWallet .. | .verifyWalletPassword .. | .init .. | .refresh _
  | .store .. | .watchOnly _ | .synchronized _ | .setPassword .. | .commit .. => Bool
  | .status _ | .nettype _ | .connected _ | .pendingStatus _ => Int
  | .managerErrorString | .errorString _ | .address .. | .pendingErrorString _
  | .pendingTxid .. => String
  | .blockChainHeight _ | .pendingAmount _ | .pendingFee _ | .pendingDust _
  | .pendingTxCount _ => UInt64
  | .setDaemonAddress _ | .setRefreshFromBlockHeight .. | .setOffline .. | .setTrustedDaemon ..
  | .setAutoRefreshInterval .. | .startRefresh _ | .pauseRefresh _ | .stop _ | .refreshAsync _
  | .rescanBlockchainAsync _ => Unit

/-- Every call that leaves the runtime. -/
inductive Call where
  | lib (c : Lib)
  /-- A library call in a destructor. A throw there ends the process, so one that is seen to
  answer returned. -/
  | destructor (c : Lib)
  | emit (event : String) (payload : Json)
  | resolve (network : String)
  | notify (network : String) (isOpen : Bool)
  | now
  | sleep (millis : Nat)
  | socketsTo (hostport : String) (drop : Bool)
  | fileExists (path : String)
  | restrictPermissions (path : String)

/-- The answers. What may throw answers with the exception. -/
abbrev Call.Answer : Call → Type
  | .lib c => Except Exn c.Ret
  | .destructor c => c.Ret
  | .emit .. | .notify .. => Except Exn Unit
  | .resolve _ => Except Exn Json
  | .now | .socketsTo .. => Nat
  | .fileExists _ => Bool
  | .sleep _ | .restrictPermissions _ => Unit

inductive LockMode where
  | shared
  | unique
  deriving DecidableEq, Repr

/-- The atomic actions of the worker thread. -/
inductive Op where
  /-- One section under `m_stateMu`, or an access under `m_handleMu`: the members it leaves. It
  answers the members it found. -/
  | update (f : Mem → Mem)
  | lock (mode : LockMode)
  | unlock (mode : LockMode)
  /-- The section of `threadMain`: the first queued job becomes the running one. -/
  | dequeue
  /-- The section of `run`: a job takes the state that its outcome says. -/
  | settle (job : JobPtr) (out : Json)
  | ask (call : Call)

abbrev Op.Ans : Op → Type
  | .update _ => Mem
  | .lock _ | .unlock _ => Unit
  | .dequeue => Option (JobPtr × Job)
  | .settle .. => Except Exn JobState
  | .ask call => call.Answer

end MoneroWalletCore.Runtime
