import MoneroWalletCore.Transactions.Building

/-! Runs that lose Tor. A wallet on Tor that is to move to another node, on which it cannot be
inited, is left waiting for Tor with its transactions held; the tick is followed call by call.
-/

namespace MoneroWalletCore.Runtime

open Program

/-- A node behind a proxy. -/
def torNode (url : String) : Json :=
  .obj [("url", .str url), ("proxy", .str "socks5://127.0.0.1:9050")]

abbrev overTor : Script := Script.succeeding true 0 (torNode "http://node.onion:18081")

/-- A library that cannot init a wallet. -/
def Lib.cutOff (h : History) : (c : Lib) → c.Ret
  | .init .. => false
  | c => c.succeeds true 0 h

/-- The node module gives another node, and the wallet cannot be inited on it. -/
def Script.cutOff : Script := fun h c =>
  match c with
  | .lib c => .ok (c.cutOff h)
  | .now => (10 ^ 12 : Nat)
  | c => Script.succeeding true 0 (torNode "http://other.onion:18081") h c

theorem exec_cutOff {w : World} {c : Lib}
    : @exec _ _ _ (no_index c.Ret) _ (World.answer .cutOff) (Worker.lib c) w
      = (.ok (c.cutOff w.history), w.told (.lib c) (.ok (c.cutOff w.history))) :=
  exec_lib rfl

section CutOff

variable {w : World} {wallet : Wallet} {node : Json} {now : Nat}

/-- A run of a body that returns leaves such members, and the tickets as they are. -/
abbrev World.Leaves {α : Type} (w : World) (script : Script) (p : Worker α) (value : α)
    (fin : Mem → Prop) : Prop :=
  ∃ w', p.exec (World.answer script) w = (.ok value, w') ∧ fin w'.mem ∧ w'.tickets = w.tickets

theorem World.Leaves.bind {α β : Type} {script : Script} {p : Worker α} {next : α → Worker β}
    {value : α} {result : β} {mid fin : Mem → Prop} (first : w.Leaves script p value mid)
    (rest : ∀ w' : World, mid w'.mem → w'.Leaves script (next value) result fin)
    : w.Leaves script (p.bind next) result fin := by
  obtain ⟨w₁, left, mem, tickets⟩ := first
  obtain ⟨w₂, ended, mem', tickets'⟩ := rest w₁ mem
  refine ⟨w₂, ?_, mem', tickets'.trans tickets⟩
  rw [exec_bind, left]
  exact ended

theorem goOffline_cutOff (isOpen : w.mem.wallet = some wallet)
    : w.Leaves .cutOff (goOffline false node) true (· = w.mem) := by
  simp only [World.Leaves, goOffline, exec_locked, bind_def, exec_bind, exec_read, isOpen,
    exec_cutOff, Program.when, Bool.false_eq_true, if_false, exec, pure_def]
  exact ⟨_, rfl, rfl, rfl⟩

theorem dialTor_cutOff (isOpen : w.mem.wallet = some wallet) (ready : torReady node = true)
    : w.Leaves .cutOff (dialTor node) (some "moving to Tor failed: ") (· = w.mem) := by
  simp only [World.Leaves, dialTor, exec_locked, bind_def, exec_bind, exec_read, isOpen, ready,
    if_true, exec_cutOff, goOnline, Lib.cutOff, Lib.succeeds, Bool.false_eq_true, if_false, exec,
    pure_def, World.told]
  exact ⟨_, rfl, rfl, rfl⟩

/-- The members of a wallet that was on Tor and waits for it again. -/
structure Mem.CutOff (m m' : Mem) : Prop where
  wallet : m'.wallet = m.wallet
  pendingTx : m'.pendingTx = m.pendingTx
  route : m'.route = .waitingForTor
  locksReset : m'.locksReset = m.locksReset
  walletsDir : m'.walletsDir = m.walletsDir

theorem Mem.CutOff.holds {pt : PendingTx} {m m' : Mem} (lost : (registered pt m).CutOff m')
    : m'.wallet = m.wallet ∧ m'.locksReset = m.locksReset ∧ m'.walletsDir = m.walletsDir
      ∧ m'.pendingTx.lookup (txHandle m.nextTx) = some pt := by
  refine ⟨lost.wallet, lost.locksReset, lost.walletsDir, ?_⟩
  rw [lost.pendingTx, registered]
  exact AList.lookup_insert _

theorem recordMove_cutOff : w.Leaves .cutOff (recordMove node "moving to Tor failed: ") ()
    w.mem.CutOff := by
  have failed : ("moving to Tor failed: " = "") = False := by decide
  simp only [World.Leaves, recordMove, setState, bind_def, exec_bind, exec_now, exec_update, exec_emit]
  refine ⟨_, rfl, ⟨rfl, rfl, ?_, rfl, rfl⟩, rfl⟩
  simp [labelled, moved, World.told, failed]

/-- The move, given a node that is not dialled. -/
theorem moveToTor_cutOff (isOpen : w.mem.wallet = some wallet) (ready : torReady node = true)
    : w.Leaves .cutOff (moveToTor false (some node)) () w.mem.CutOff := by
  have reads : w.Leaves .cutOff Worker.read w.mem (· = w.mem) := ⟨w, rfl, rfl, rfl⟩
  refine reads.bind fun w₀ same₀ => ?_
  change w₀.Leaves .cutOff (moveWith false node w.mem.route) () _
  rw [moveWith, ready, if_neg (by simp)]
  rw [← same₀] at isOpen ⊢
  refine (goOffline_cutOff isOpen).bind fun w₁ same₁ => ?_
  rw [← same₁] at isOpen ⊢
  refine (dialTor_cutOff isOpen ready).bind fun w₂ same₂ => ?_
  rw [← same₂]
  exact recordMove_cutOff

theorem observeWallet_cutOff (isOpen : w.mem.wallet = some wallet)
    : w.Leaves .cutOff observeWallet (some (true, 0)) (· = w.mem) := by
  simp only [World.Leaves, observeWallet, exec_locked, bind_def, exec_bind, exec_read, isOpen,
    exec_cutOff, Lib.cutOff, Lib.succeeds, exec, pure_def, World.told]
  exact ⟨_, rfl, rfl, rfl⟩

theorem followSync_cutOff {m : Mem} {synced : Bool} (lost : m.CutOff w.mem)
    : w.Leaves .cutOff (followSync synced) () m.CutOff := by
  obtain ⟨wallet, pendingTx, route, locksReset, walletsDir⟩ := lost
  simp only [World.Leaves, followSync, bind_def, exec_bind, exec_read]
  split_ifs
  · exact ⟨_, rfl, ⟨wallet, pendingTx, route, locksReset, walletsDir⟩, rfl⟩
  · exact ⟨_, rfl, ⟨wallet, pendingTx, route, locksReset, walletsDir⟩, rfl⟩
  · exact ⟨_, rfl, ⟨wallet, pendingTx, route, locksReset, walletsDir⟩, rfl⟩

/-- The node module gives a node that the wallet is not bound to. -/
theorem reask_cutOff {network : String} (isOpen : w.mem.wallet = some wallet)
    : w.Leaves .cutOff (reask network "http://node.onion:18081") () w.mem.CutOff := by
  have asks : w.Leaves .cutOff (Worker.resolve network) (torNode "http://other.onion:18081")
      (· = w.mem) := ⟨_, rfl, rfl, rfl⟩
  refine asks.bind fun w₁ same₁ => ?_
  have ready : torReady (torNode "http://other.onion:18081") = true := by decide +kernel
  have other : (torReady (torNode "http://other.onion:18081")
      && str (torNode "http://other.onion:18081") "url" ≠ "http://node.onion:18081") = true := by
    decide +kernel
  rw [← same₁] at isOpen ⊢
  rw [other]
  exact moveToTor_cutOff isOpen ready

/-- A tick of a wallet on Tor, which is to ask for its node again. -/
theorem tick_cutOff (reset : w.mem.locksReset = true) (isOpen : w.mem.wallet = some wallet)
    (route : w.mem.route = .tor) (height : w.mem.progressHeight = 0) (asked : w.mem.torAskedAt < 100)
    (url : w.mem.torUrl = "http://node.onion:18081")
    : w.Leaves .cutOff tick () w.mem.CutOff := by
  have resets : w.Leaves .cutOff resetLocksOnce () (· = w.mem) := by
    simp only [World.Leaves, resetLocksOnce, bind_def, exec_bind, exec_read, reset, Bool.true_or,
      if_true]
    exact ⟨_, rfl, rfl, rfl⟩
  refine resets.bind fun w₁ same₁ => ?_
  rw [← same₁] at isOpen reset route height asked url ⊢
  refine (observeWallet_cutOff isOpen).bind fun w₂ same₂ => ?_
  rw [← same₂] at isOpen reset route height asked url ⊢
  have clock : w₂.Leaves .cutOff Worker.now (10 ^ 12) (· = w₂.mem) := ⟨_, rfl, rfl, rfl⟩
  refine clock.bind fun w₃ same₃ => ?_
  rw [← same₃] at isOpen reset route height asked url ⊢
  have unmoved : progressed 0 (10 ^ 12) w₃.mem = w₃.mem := by
    rw [progressed, height]
    rfl
  have due : asksTor (10 ^ 12) w₃.mem = true := by
    have late : 10 ^ 12 - w₃.mem.torAskedAt ≥ kTorAskEvery := by
      unfold kTorAskEvery
      omega
    rw [asksTor, route, decide_eq_true late]
    rfl
  have ticks : w₃.Leaves .cutOff (Worker.update (ticked 0 (10 ^ 12))) w₃.mem
      (· = { w₃.mem with torAskedAt := 10 ^ 12 }) := by
    have section_ : ticked 0 (10 ^ 12) w₃.mem = { w₃.mem with torAskedAt := 10 ^ 12 } := by
      simp only [ticked, unmoved, due, if_true]
    exact ⟨_, rfl, section_, rfl⟩
  refine ticks.bind fun w₄ same₄ => ?_
  have follows : followRoute true (10 ^ 12) (progressed 0 (10 ^ 12) w₃.mem)
      = reask w₃.mem.network "http://node.onion:18081" := by
    rw [unmoved, followRoute, due, url, route]
    simp
  have isOpen₄ : w₄.mem.wallet = some wallet := by
    rw [same₄]
    exact isOpen
  rw [follows]
  refine (reask_cutOff isOpen₄).bind fun w₅ lost => ?_
  rw [same₄] at lost
  exact followSync_cutOff ⟨lost.wallet, lost.pendingTx, lost.route, lost.locksReset, lost.walletsDir⟩

/-- A turn with nothing queued. -/
theorem afterTurn_cutOff (idle : w.tickets.queue = []) (reset : w.mem.locksReset = true)
    (isOpen : w.mem.wallet = some wallet) (route : w.mem.route = .tor)
    (height : w.mem.progressHeight = 0) (asked : w.mem.torAskedAt < 100)
    (url : w.mem.torUrl = "http://node.onion:18081")
    : w.mem.CutOff (w.afterTurn .cutOff).mem ∧ (w.afterTurn .cutOff).tickets = w.tickets := by
  obtain ⟨w', ended, lost, tickets⟩ := tick_cutOff reset isOpen route height asked url
  have empty : w.tickets.dequeue = (none, w.tickets) := by
    rw [Tickets.dequeue, idle]
  have ticks : w.afterTurn .cutOff = w' := by
    rw [World.afterTurn_idle (congrArg Prod.fst empty), empty]
    change ((tick.tryCatch fun _ => .pure ()).exec (World.answer .cutOff) w).2 = w'
    rw [exec_tryCatch, ended]
  rw [ticks]
  exact ⟨lost, tickets⟩

end CutOff

/-- A wallet opened over Tor, with a send submitted. -/
def World.sendingOverTor : World :=
  let job := .obj [("name", .str "w"), ("network", .str "mainnet")]
  ((World.withJob "open_wallet" job).afterTurn overTor).afterClient
    (.startJob "create_transaction" (sendParams Address.zeroAddress) "receipt1")

/-- The send went through, and then Tor was lost. -/
def World.cutOff : World := (World.sendingOverTor.afterTurn overTor).afterTurn .cutOff

theorem World.sendingOverTor_open
    : World.sendingOverTor.mem.locksReset = true ∧ World.sendingOverTor.mem.wallet = some ⟨9⟩
      ∧ World.sendingOverTor.mem.route = .tor ∧ World.sendingOverTor.mem.network = "mainnet"
      ∧ World.sendingOverTor.mem.walletsDir ≠ ""
      ∧ World.sendingOverTor.mem.torUrl = "http://node.onion:18081"
      ∧ World.sendingOverTor.mem.torAskedAt < 100 ∧ World.sendingOverTor.mem.progressHeight = 0
      ∧ World.sendingOverTor.mem.nextTx = 1
      ∧ World.sendingOverTor.tickets.dequeue.2.queue = []
      ∧ World.sendingOverTor.tickets.dequeue.2.heap.length = 2 := by
  decide +kernel

theorem World.sendingOverTor_front
    : ∃ job, World.sendingOverTor.tickets.dequeue.1 = some (1, job)
        ∧ job.kind = "create_transaction"
        ∧ job.params = sendParams Address.zeroAddress :=
  ⟨_, rfl, rfl, rfl⟩

/-- The handle is held still, and sends wait. -/
theorem World.cutOff_waits
    : ∃ pt, World.cutOff.mem.pendingTx.lookup "tx1" = some pt
        ∧ World.cutOff.mem.locksReset = true ∧ World.cutOff.mem.wallet = some ⟨9⟩
        ∧ World.cutOff.mem.route = .waitingForTor ∧ World.cutOff.mem.walletsDir ≠ ""
        ∧ World.cutOff.tickets.queue = [] ∧ World.cutOff.tickets.heap.length = 2 := by
  obtain ⟨reset, isOpen, route, network, dir, url, asked, height, next, queue, heap⟩ :=
    World.sendingOverTor_open
  obtain ⟨job, front, kind, params⟩ := World.sendingOverTor_front
  have valid : Address.valid Address.zeroAddress World.sendingOverTor.mem.network = true := by
    rw [network]
    exact Address.zeroAddress_valid
  obtain ⟨pt, result, members, tickets, _⟩ :=
    @afterTurn_creates World.sendingOverTor true 0 (torNode "http://node.onion:18081") 1 job _ _
      front kind params reset isOpen (.inr route) valid
  have settled := @settle_okWith World.sendingOverTor.tickets.dequeue.2 1 result
  have idle : (World.sendingOverTor.afterTurn overTor).tickets.queue = [] := by
    rw [tickets, settled.1, queue]
  obtain ⟨lost, still⟩ := @afterTurn_cutOff (World.sendingOverTor.afterTurn overTor) ⟨9⟩ idle
    (by rw [members]; exact reset) (by rw [members]; exact isOpen) (by rw [members]; exact route)
    (by rw [members]; exact height) (by rw [members]; exact asked) (by rw [members]; exact url)
  rw [members] at lost
  obtain ⟨wallet, locksReset, walletsDir, held⟩ := lost.holds
  have first : txHandle World.sendingOverTor.mem.nextTx = "tx1" := by
    rw [next]
    decide +kernel
  rw [World.cutOff]
  refine ⟨pt, first ▸ held, locksReset.trans reset, wallet.trans isOpen, lost.route, ?_, ?_, ?_⟩
  · rw [walletsDir]
    exact dir
  · rw [still]
    exact idle
  · rw [still, tickets, settled.2, heap]

end MoneroWalletCore.Runtime
