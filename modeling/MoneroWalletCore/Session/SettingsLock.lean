import MoneroWalletCore.Runtime.Replay
import MoneroWalletCore.Session.SectionTurns

/-! The settings lock of the node module. It is told of every wallet that is opened and closed,
and whatever an earlier instance left of it is cleared by the first step that runs with a
wallets directory, before any wallet is opened.
-/

namespace MoneroWalletCore.Runtime

open Program

-----------------------------------------------------------------------------------------
-- The node module's lock
-----------------------------------------------------------------------------------------

/-- The locks of the node module, from what they were before: one for each network. -/
def locks (leftover : String → Bool) : History → String → Bool
  | [] => leftover
  | .asked (.notify network isOpen) _ _ :: older =>
      Function.update (locks leftover older) network isOpen
  | _ :: older => locks leftover older

/-- The networks that were unlocked other than by the close of a wallet on them, the last
first. -/
def clearings : History → List String
  | [] => []
  | .asked (.notify network false) _ m :: older =>
      if m.network = network then clearings older else network :: clearings older
  | _ :: older => clearings older

/-- The clearing, whole. -/
def cleared : List String := ["regtest", "testnet", "stagenet", "mainnet"]

/-- The calls of an open: those that make a wallet object, and the locking of its network. -/
def Call.opens : Call → Bool
  | .notify _ isOpen => isOpen
  | .lib (.openWallet ..) | .lib (.createWallet ..) | .lib (.recoveryWallet ..)
  | .lib (.createWalletFromKeys ..) => true
  | _ => false

/-- An open comes after the clearing. -/
def Event.OpensCleared (e : Event) (older : History) : Prop :=
  match e with
  | .asked c _ _ => c.opens = true → clearings older = cleared
  | _ => True

/-- The lock of every network says whether a wallet is open on it. -/
def Locked (leftover : String → Bool) (m : Mem) (h : History) : Prop :=
  ∀ network ∈ knownNetworks,
    locks leftover h network = true ↔ m.wallet ≠ none ∧ m.network = network

-----------------------------------------------------------------------------------------
-- The invariant
-----------------------------------------------------------------------------------------

/-- Library calls return, and no open is made before the one-shot has been taken. -/
def Orderly : Surroundings := fun h e =>
  LibraryReturns h e
    ∧ match e with
      | .asked c _ m => c.opens = true → m.locksReset = true
      | _ => True

structure LockInv (leftover : String → Bool) (v : View) : Prop where
  notifies : v.mem.hasNotify = true
  before : v.mem.locksReset = false →
    clearings v.history = [] ∧ v.mem.wallet = none ∧ v.mem.network = ""
  once : v.mem.locksReset = true → clearings v.history = cleared
  opens : Throughout Event.OpensCleared v.history
  known : v.mem.wallet ≠ none → v.mem.network ∈ knownNetworks
  locked : v.mem.locksReset = true → Locked leftover v.mem v.history

variable {leftover : String → Bool} {v : View}

theorem locks_asked {c : Call} {answer : c.Answer} {m : Mem} {h : History}
    (other : ∀ network isOpen, c ≠ .notify network isOpen)
    : locks leftover (.asked c answer m :: h) = locks leftover h := by
  cases c with
  | notify network isOpen => exact absurd rfl (other network isOpen)
  | _ => rfl

theorem clearings_asked {c : Call} {answer : c.Answer} {m : Mem} {h : History}
    (other : ∀ network, c ≠ .notify network false)
    : clearings (.asked c answer m :: h) = clearings h := by
  cases c with
  | notify network isOpen =>
      cases isOpen with
      | false => exact absurd rfl (other network)
      | true => rfl
  | _ => rfl

/-- A call that tells the node module nothing. -/
theorem LockInv.ask {c : Call} {answer : c.Answer} (holds : LockInv leftover v)
    (allowed : Orderly v.history (.asked c answer v.mem))
    (other : ∀ network isOpen, c ≠ .notify network isOpen)
    : LockInv leftover (v.push (.asked c answer v.mem)) := by
  obtain ⟨notifies, before, once, opens, known, locked⟩ := holds
  have same : clearings (.asked c answer v.mem :: v.history) = clearings v.history :=
    clearings_asked fun network => other network false
  refine ⟨notifies, fun unset => ?_, fun reset => ?_, ?_, known, fun reset network member => ?_⟩
  · rw [View.push_history, same]
    exact before unset
  · exact same.trans (once reset)
  · exact throughout_cons.mpr ⟨fun isOpen => once (allowed.2 isOpen), opens⟩
  · rw [View.push_history, locks_asked other]
    exact locked reset network member

/-- The actions that leave the lock and what it is about. -/
abbrev Unlocking : Op → Prop :=
  Acting
    (fun m m' => m'.wallet = m.wallet ∧ m'.network = m.network ∧ m'.locksReset = m.locksReset
      ∧ m'.hasNotify = m.hasNotify)
    (fun c => match c with | .notify .. => false | _ => true)

theorem progressed_locksReset {height : UInt64} {now : Nat} {m : Mem}
    : (progressed height now m).locksReset = m.locksReset
      ∧ (progressed height now m).hasNotify = m.hasNotify := by
  unfold progressed
  split <;> exact ⟨rfl, rfl⟩

instance : Ticking Unlocking where
  asks c plain := by
    cases c with
    | notify network isOpen => cases plain
    | _ => rfl
  locks _ := trivial
  unlocks _ := trivial
  reads _ := ⟨rfl, rfl, rfl, rfl⟩
  labels _ _ _ := ⟨rfl, rfl, rfl, rfl⟩
  registers _ _ := ⟨rfl, rfl, rfl, rfl⟩
  drops _ _ := ⟨rfl, rfl, rfl, rfl⟩
  times := rfl
  ticks height now m := by
    have same := (@ticked_session height now m).1
    refine ⟨congrArg Session.wallet same, congrArg Session.network same, ?_⟩
    unfold ticked
    dsimp only
    split <;> exact progressed_locksReset
  moves _ _ _ _ := ⟨rfl, rfl, rfl, rfl⟩

theorem keepsLock_unlocking : ActionsKeep Orderly Unlocking (LockInv leftover) := by
  apply ActionsKeep.acting
  · intro v m assigned holds
    obtain ⟨o, wallet, network, reset, notifies⟩ := assigned
    have wallet : m.wallet = v.mem.wallet := wallet
    have network : m.network = v.mem.network := network
    have reset : m.locksReset = v.mem.locksReset := reset
    refine ⟨notifies.trans holds.notifies, fun unset => ?_, fun set => ?_, holds.opens,
      fun isOpen => ?_, fun set network' member => ?_⟩
    · obtain ⟨none, closed, unnamed⟩ := holds.before (reset.symm.trans unset)
      exact ⟨none, wallet.trans closed, network.trans unnamed⟩
    · exact holds.once (reset.symm.trans set)
    · rw [View.at_mem, Mem.own_network, network]
      exact holds.known fun closed => isOpen (wallet.trans closed)
    · rw [View.at_mem, View.at_history, Mem.own_network, Mem.own_wallet, network, wallet]
      exact holds.locked (reset.symm.trans set) network' member
  · intro v c answer unlocking allowed holds
    apply holds.ask allowed
    rintro network isOpen rfl
    cases unlocking

-----------------------------------------------------------------------------------------
-- The bodies that tell of the locks
-----------------------------------------------------------------------------------------

/-- With a notifier, telling is one call. What it throws is caught. -/
theorem wp_notifyOpen {rule : Surroundings} {network : String} {isOpen : Bool}
    {normal : Unit → View → Prop} {thrown : Exn → View → Prop}
    (notifies : v.mem.hasNotify = true)
    (tells : ∀ answer, rule v.history (.asked (.notify network isOpen) answer v.mem) →
      normal () (v.push (.asked (.notify network isOpen) answer v.mem)))
    : (notifyOpen network isOpen).wp (View.act rule) normal thrown v := by
  refine wp_bind.mpr (Worker.wp_read.mpr fun o => wp_when.mpr ⟨fun _ => ?_, fun silent => ?_⟩)
  · refine wp_tryCatch.mpr fun answer v' step => ?_
    obtain ⟨allowed, rfl⟩ := step
    cases answer with
    | ok done => exact tells (.ok done) allowed
    | error error => exact tells (.error error) allowed
  · cases notifies.symm.trans silent

/-- The events of the four unlockings, made with no wallet open yet. -/
theorem LockInv.clear {a b c d : Except Exn Unit} (notifies : v.mem.hasNotify = true)
    (closed : v.mem.wallet = none) (unnamed : v.mem.network = "") (reset : v.mem.locksReset = true)
    (uncleared : clearings v.history = []) (opens : Throughout Event.OpensCleared v.history)
    : LockInv leftover
        ((((v.push (.asked (.notify "mainnet" false) a v.mem)).push
          (.asked (.notify "stagenet" false) b v.mem)).push
          (.asked (.notify "testnet" false) c v.mem)).push
          (.asked (.notify "regtest" false) d v.mem)) := by
  refine ⟨notifies, fun unset => ?_, fun _ => ?_, ?_, fun isOpen => absurd closed isOpen,
    fun _ network member => ?_⟩
  · cases reset.symm.trans unset
  · simp [clearings, unnamed, uncleared, cleared]
  · have none {network : String} {answer : Except Exn Unit} {older : History}
        : (Event.asked (.notify network false) answer v.mem).OpensCleared older :=
      fun opens => nomatch opens
    exact throughout_cons.mpr ⟨none, throughout_cons.mpr ⟨none, throughout_cons.mpr ⟨none,
      throughout_cons.mpr ⟨none, opens⟩⟩⟩⟩
  · simp only [knownNetworks, List.mem_cons, List.not_mem_nil, or_false] at member
    rcases member with rfl | rfl | rfl | rfl <;> simp [locks, Function.update, closed]

/-- The four networks are unlocked one after another. -/
theorem resetLocksOnce_keepsLock
    : resetLocksOnce.Keeps Orderly (LockInv leftover) := by
  intro v holds
  refine wp_bind.mpr (Worker.wp_read.mpr fun o => wp_ite.mpr ⟨fun _ => holds, fun due => ?_⟩)
  refine wp_bind.mpr (Worker.wp_read.mpr fun o' => wp_ite.mpr ⟨fun _ => holds, fun _ => ?_⟩)
  refine wp_bind.mpr (Worker.wp_update.mpr fun o'' => ?_)
  have unset : v.mem.locksReset = false := by simp_all
  obtain ⟨uncleared, closed, unnamed⟩ := holds.before unset
  simp only [Worker.forEach]
  refine wp_bind.mpr (wp_notifyOpen holds.notifies fun a _ => ?_)
  refine wp_bind.mpr (wp_notifyOpen holds.notifies fun b _ => ?_)
  refine wp_bind.mpr (wp_notifyOpen holds.notifies fun c _ => ?_)
  refine wp_bind.mpr (wp_notifyOpen holds.notifies fun d _ => ?_)
  exact LockInv.clear holds.notifies closed unnamed rfl uncleared holds.opens

/-- The network is locked once the wallet has been described. -/
theorem LockInv.publish {o : OpenParams} {node : Json} {addr : String} {w : Wallet} {now : Nat}
    {m seen : Mem} {answer : Except Exn Unit} (holds : LockInv leftover v)
    (closed : v.mem.wallet = none) (known : o.network ∈ knownNetworks)
    (allowed : Orderly (.asked .now now seen :: v.history)
      (.asked (.notify o.network true) answer (described o node addr now m).own))
    (held : m.wallet = some w) (notifies : m.hasNotify = v.mem.hasNotify)
    (reset : m.locksReset = v.mem.locksReset)
    : LockInv leftover
        ((View.at (described o node addr now m) (.asked .now now seen :: v.history)).push
          (.asked (.notify o.network true) answer (described o node addr now m).own)) := by
  have set : v.mem.locksReset = true := reset.symm.trans (allowed.2 rfl)
  have once := holds.once set
  refine ⟨notifies.trans holds.notifies, fun unset => ?_, fun _ => once, ?_, fun _ => known,
    fun _ network member => ?_⟩
  · cases (reset.trans set).symm.trans unset
  · exact throughout_cons.mpr ⟨fun _ => once, throughout_cons.mpr ⟨nofun, holds.opens⟩⟩
  · have open_ : (described o node addr now m).wallet ≠ none := by
      rw [described, held]
      exact nofun
    have unlocked : locks leftover v.history network ≠ true := fun locked =>
      ((holds.locked set network member).mp locked).1 closed
    by_cases same : network = o.network
    · subst same
      simp only [View.push_history, locks, Function.update_self, true_iff]
      exact ⟨open_, rfl⟩
    · simp only [View.push_history, locks, Function.update_of_ne same]
      exact iff_of_false unlocked fun both => same both.2.symm

theorem publishWallet_keepsLock {o : OpenParams} {plan : Plan} {path addr : String} {w : Wallet}
    (holds : LockInv leftover v) (closed : v.mem.wallet = none) (known : o.network ∈ knownNetworks)
    : (publishWallet o plan path addr w).wp (View.act Orderly) (fun _ => LockInv leftover)
        (fun _ => LockInv leftover) v := by
  simp only [publishWallet, bind_def, wp_bind, Worker.wp_locked, Worker.wp_update, Worker.wp_now]
  intro o₁ now _ o₂
  refine wp_bind.mpr (wp_notifyOpen holds.notifies fun answer allowed => ?_)
  refine keepsLock_unlocking.stays ?_ _ (holds.publish closed known allowed rfl rfl rfl)
  exact .bind restrictFiles_stays fun _ => .bind .setState fun _ => .bind .lib fun _ => .value

/-- A wallet that the library is letting go of: its network is still locked. -/
structure Unheld (leftover : String → Bool) (v : View) : Prop where
  notifies : v.mem.hasNotify = true
  reset : v.mem.locksReset = true
  once : clearings v.history = cleared
  opens : Throughout Event.OpensCleared v.history
  closed : v.mem.wallet = none
  locked : ∀ network ∈ knownNetworks,
    locks leftover v.history network = true ↔ v.mem.network = network

/-- The network is unlocked once the wallet has been forgotten. -/
theorem releaseWallet_keepsLock {w : Wallet} (unheld : Unheld leftover v)
    : (releaseWallet w).wp (View.act Orderly) (fun _ => LockInv leftover)
        (fun _ => LockInv leftover) v := by
  obtain ⟨notifies, reset, once, opens, closed, locked⟩ := unheld
  refine wp_bind.mpr (Worker.wp_lib.mpr ⟨fun _ _ => ?_, fun _ threw => threw.1.elim⟩)
  refine wp_bind.mpr (Worker.wp_lib.mpr ⟨fun ok _ => ?_, fun _ threw => threw.1.elim⟩)
  refine wp_bind.mpr (Worker.wp_update.mpr fun o => ?_)
  refine wp_bind.mpr (wp_notifyOpen notifies fun answer _ => ?_)
  refine keepsLock_unlocking.stays (.bind .setState fun _ => .value) _ ?_
  refine ⟨notifies, fun unset => ?_, fun _ => ?_, ?_, fun isOpen => absurd closed isOpen,
    fun _ network member => ?_⟩
  · cases reset.symm.trans unset
  · exact (if_pos rfl).trans once
  · exact throughout_cons.mpr ⟨nofun, throughout_cons.mpr ⟨nofun, throughout_cons.mpr ⟨nofun,
      opens⟩⟩⟩
  · refine iff_of_false (fun stays => ?_) fun both => both.1 closed
    change Function.update (locks leftover v.history) v.mem.network false network = true at stays
    by_cases same : network = v.mem.network
    · subst same
      simp [Function.update_self] at stays
    · rw [Function.update_of_ne same] at stays
      exact same ((locked network member).mp stays).symm

-----------------------------------------------------------------------------------------
-- Every orderly run
-----------------------------------------------------------------------------------------

theorem keepsHeld_unlocking {rule : Surroundings} (held : Option Wallet)
    : ActionsKeep rule Unlocking (fun v => v.mem.wallet = held) :=
  ActionsKeep.acting (fun _ _ ⟨_, wallet, _⟩ same => wallet.trans same)
    (fun _ _ _ _ _ same => same)

theorem doClose_keepsLock
    : doClose.Leads Orderly (fun _ _ => True) (LockInv leftover) (fun _ => LockInv leftover)
        (LockInv leftover) := by
  apply doClose_leads Unlocking fun _ => Unheld leftover
  · exact fun _ _ _ _ => trivial
  · exact fun _ _ _ _ => trivial
  · exact fun _ _ _ => trivial
  · exact keepsLock_unlocking
  · exact keepsHeld_unlocking
  · intro v o w holds held
    have set : v.mem.locksReset = true := by
      by_contra unset
      cases held.symm.trans (holds.before (by simpa using unset)).2.1
    refine ⟨holds.notifies, set, holds.once set, holds.opens, rfl, fun network member => ?_⟩
    refine (holds.locked set network member).trans (and_iff_right ?_)
    rw [held]
    exact nofun
  · exact fun w v unheld => heeds_trivial.mpr (releaseWallet_keepsLock unheld)

theorem keepsLock : SectionKeeps Orderly Unlocking (fun _ _ => True) (LockInv leftover) where
  moment _ _ _ _ := trivial
  calm := keepsLock_unlocking
  holds := keepsHeld_unlocking
  outside op unlocking := by cases op <;> trivial
  finishes _ := rfl
  begins v ptr job holds :=
    ⟨holds.notifies, holds.before, holds.once, throughout_cons.mpr ⟨trivial, holds.opens⟩,
      holds.known, holds.locked⟩
  settles v ptr out state holds :=
    ⟨holds.notifies, holds.before, holds.once, throughout_cons.mpr ⟨trivial, holds.opens⟩,
      holds.known, holds.locked⟩
  resets := resetLocksOnce_keepsLock.leads
  publishes o plan path addr w _ known v both :=
    heeds_trivial.mpr (publishWallet_keepsLock both.1 both.2.none known)
  closes := doClose_keepsLock
  ticks := .bind resetLocksOnce_keepsLock.leads fun _ =>
    .keeps (.bind observeWallet_stays fun _ => follows_stays) keepsLock_unlocking fun _ _ _ _ => trivial

-----------------------------------------------------------------------------------------
-- Runs with a wallets directory
-----------------------------------------------------------------------------------------

/-- What may happen between two actions when the host does not take the directory back. -/
def World.Kept (w w' : World) : Prop :=
  World.Other w w' ∧ (w.mem.walletsDir ≠ "" → w'.mem.walletsDir ≠ "")

/-- What the one-shot depends on. -/
structure Latch where
  reset : Bool
  housed : Bool

def World.latch (w : World) : Latch :=
  { reset := w.mem.locksReset, housed := w.mem.walletsDir ≠ "" }

/-- The worker's actions on it. A job that is taken was accepted with a directory. -/
def Latch.act : Semantics Op Op.Ans Latch := fun l op answer l' =>
  (l.housed = true → l'.housed = true)
    ∧ match op, answer with
      | .update f, found =>
          found.hasNotify = true ∧ found.locksReset = l.reset
            ∧ (found.walletsDir ≠ "" ↔ l'.housed = true) ∧ l'.reset = (f found).locksReset
      | .dequeue, front => (front ≠ none → l'.housed = true) ∧ l'.reset = l.reset
      | _, _ => l'.reset = l.reset

/-- Others may only set the directory. -/
def Latch.Drift (l l' : Latch) : Prop :=
  l'.reset = l.reset ∧ (l.housed = true → l'.housed = true)

/-- A module with a notifier, whose queue was filled with a directory. -/
def World.Equipped (w : World) : Prop :=
  w.mem.hasNotify = true ∧ (w.tickets.queue ≠ [] → w.mem.walletsDir ≠ "")

/-- An action that leaves the directory and the notifier. -/
def Homely : Op → Prop
  | .update f => ∀ m : Mem, (f m).walletsDir = m.walletsDir ∧ (f m).hasNotify = m.hasNotify
  | _ => True

/-- An open is made only once the one-shot has been taken. -/
def Latch.guard (l : Latch) : Op → Prop
  | .ask c => c.opens = true → l.reset = true
  | _ => True

theorem Tickets.settle_queue {t : Tickets} {ptr : JobPtr} {out : Json}
    : (t.settle ptr out).2.queue = t.queue := by
  unfold Tickets.settle
  repeat' split
  all_goals rfl

theorem Tickets.dequeue_filled {t : Tickets}
    (filled : t.dequeue.1 ≠ none ∨ t.dequeue.2.queue ≠ [])
    : t.queue ≠ [] := by
  intro empty
  rw [Tickets.dequeue, empty] at filled
  exact filled.elim (absurd rfl) (absurd empty)

/-- A client's call fills the queue only with a directory. -/
theorem ClientCall.run_filled {m : Mem} {t : Tickets} {call : ClientCall}
    (filled : (call.run m t).2.queue ≠ [])
    : t.queue ≠ [] ∨ m.walletsDir ≠ "" := by
  cases call with
  | startJob kind params receipt =>
      change (Runtime.startJob m t kind params receipt).2.queue ≠ [] at filled
      unfold Runtime.startJob at filled
      split at filled
      next => exact .inl filled
      next =>
        split at filled
        next => exact .inl filled
        next housed => exact .inr housed
  | jobStatus id receipt => exact .inl filled
  | jobResult id receipt => exact .inl filled
  | ackJob id receipt =>
      change (t.ackJob id receipt).2.queue ≠ [] at filled
      unfold Tickets.ackJob at filled
      split at filled
      next => exact .inl filled
      next => split at filled <;> exact .inl filled
  | cancelJob id receipt =>
      change (t.cancelJob id receipt).2.queue ≠ [] at filled
      unfold Tickets.cancelJob at filled
      refine .inl fun empty => ?_
      split at filled
      next => exact filled empty
      next => split at filled <;> simp [empty] at filled

theorem World.latch_drifts
    : Thread.Drifts (World.act LibraryReturns) World.Kept World.latch Latch.act Latch.Drift
        World.Equipped Homely where
  simulates w op answer w' equipped homely step := by
    obtain ⟨notifies, housed⟩ := equipped
    cases op with
    | update f =>
        obtain ⟨rfl, rfl⟩ := step
        obtain ⟨dir, notifies'⟩ := homely w.mem
        refine ⟨⟨?_, notifies, rfl, ?_, rfl⟩, notifies'.trans notifies, ?_⟩
        · simp [World.latch, dir]
        · simp [World.latch, dir]
        · rwa [dir]
    | lock mode =>
        cases step
        exact ⟨⟨id, rfl⟩, notifies, housed⟩
    | unlock mode =>
        cases step
        exact ⟨⟨id, rfl⟩, notifies, housed⟩
    | dequeue =>
        obtain ⟨rfl, rfl⟩ := step
        refine ⟨⟨id, fun taken => ?_, rfl⟩, notifies, fun filled => ?_⟩
        · exact decide_eq_true (housed (Tickets.dequeue_filled (.inl taken)))
        · exact housed (Tickets.dequeue_filled (.inr filled))
    | settle ptr out =>
        obtain ⟨rfl, rfl⟩ := step
        refine ⟨⟨id, rfl⟩, notifies, fun filled => ?_⟩
        rw [Tickets.settle_queue] at filled
        exact housed filled
    | ask c =>
        obtain ⟨_, rfl⟩ := step
        exact ⟨⟨id, rfl⟩, notifies, housed⟩
  others w w' equipped step := by
    obtain ⟨notifies, housed⟩ := equipped
    obtain ⟨step, keeps⟩ := step
    have drifts : w.latch.housed = true → w'.latch.housed = true := by
      simpa [World.latch] using keeps
    cases step with
    | client call =>
        refine ⟨⟨rfl, drifts⟩, notifies, fun filled => ?_⟩
        exact (ClientCall.run_filled filled).elim housed id
    | setWalletsDir dir => exact ⟨⟨rfl, drifts⟩, notifies, fun filled => keeps (housed filled)⟩
    | probe connected height isOpen => exact ⟨⟨rfl, drifts⟩, notifies, housed⟩
  absorbs a b op answer c drifts step := by
    obtain ⟨reset, housed⟩ := drifts
    obtain ⟨housed', acted⟩ := step
    refine ⟨fun start => housed' (housed start), ?_⟩
    cases op with
    | update f => exact ⟨acted.1, acted.2.1.trans reset, acted.2.2⟩
    | dequeue => exact ⟨acted.1, acted.2.trans reset⟩
    | _ => exact acted.trans reset

-----------------------------------------------------------------------------------------
-- The one-shot
-----------------------------------------------------------------------------------------

theorem progressed_dir {height : UInt64} {now : Nat} {m : Mem}
    : (progressed height now m).walletsDir = m.walletsDir := by
  unfold progressed
  split <;> rfl

theorem ticked_locks {height : UInt64} {now : Nat} (m : Mem)
    : (ticked height now m).walletsDir = m.walletsDir
      ∧ (ticked height now m).locksReset = m.locksReset
      ∧ (ticked height now m).hasNotify = m.hasNotify := by
  unfold ticked
  dsimp only
  split <;> exact ⟨progressed_dir, progressed_locksReset⟩

instance : Sections Homely where
  asks _ _ := trivial
  locks _ := trivial
  unlocks _ := trivial
  reads _ := ⟨rfl, rfl⟩
  labels _ _ _ := ⟨rfl, rfl⟩
  registers _ _ := ⟨rfl, rfl⟩
  drops _ _ := ⟨rfl, rfl⟩
  notifies _ _ := trivial
  resets _ := ⟨rfl, rfl⟩
  times := trivial
  ticks _ _ m := ⟨(ticked_locks m).1, (ticked_locks m).2.2⟩
  moves _ _ _ _ := ⟨rfl, rfl⟩
  publishes _ _ := ⟨rfl, rfl⟩
  describes _ _ _ _ _ := ⟨rfl, rfl⟩
  takes _ := ⟨rfl, rfl⟩
  forgets _ := ⟨rfl, rfl⟩

/-- An action that does not undo the one-shot. -/
def Latching : Op → Prop
  | .update f => ∀ m : Mem, m.locksReset = true → (f m).locksReset = true
  | _ => True

instance : Sections Latching where
  asks _ _ := trivial
  locks _ := trivial
  unlocks _ := trivial
  reads _ set := set
  labels _ _ _ set := set
  registers _ _ set := set
  drops _ _ set := set
  notifies _ _ := trivial
  resets _ _ := rfl
  times := trivial
  ticks _ _ m set := (ticked_locks m).2.1.trans set
  moves _ _ _ _ set := set
  publishes _ _ set := set
  describes _ _ _ _ _ set := set
  takes _ set := set
  forgets _ set := set

/-- An action that tells the node module nothing. -/
def Silent : Op → Prop
  | .ask (.notify ..) => False
  | _ => True

instance : Ticking Silent where
  asks c plain := by
    cases c with
    | notify network isOpen => cases plain
    | _ => trivial
  locks _ := trivial
  unlocks _ := trivial
  reads := trivial
  labels _ _ := trivial
  registers _ := trivial
  drops _ := trivial
  times := trivial
  ticks _ _ := trivial
  moves _ _ _ := trivial

theorem Latch.act_reset {l l' : Latch} {op : Op} {answer : op.Ans} (latching : Latching op)
    (step : Latch.act l op answer l') (set : l.reset = true)
    : l'.reset = true := by
  obtain ⟨_, acted⟩ := step
  cases op with
  | update f =>
      obtain ⟨_, same, _, reset⟩ := acted
      exact reset.trans (latching _ (same.trans set))
  | dequeue => exact acted.2.trans set
  | _ => exact acted.trans set

/-- Once the one-shot has been taken it stays so, and every open is made after it. -/
theorem latched_heeds {α : Type} {p : Worker α} {l : Latch} (stays : p.Stays Latching)
    (set : l.reset = true)
    : p.Heeds Latch.act Latch.guard (fun _ l' => l'.reset = true) (fun _ l' => l'.reset = true)
        l := by
  have guards (l : Latch) (op : Op) (set : l.reset = true) : l.guard op := by
    cases op with
    | ask c => exact fun _ => set
    | _ => trivial
  refine (Within.heeds stays (fun l op _ set => guards l op set)
    (fun l op answer l' latching step set => Latch.act_reset latching step set) set).mono ?_ ?_
  · exact fun _ _ both => both.2
  · exact fun _ _ both => both.2

theorem latched_follows {p : Worker Unit} {l : Latch} {due : Prop} (stays : p.Stays Latching)
    (set : l.reset = true)
    : p.Heeds Latch.act Latch.guard (fun _ l' => due → l'.reset = true)
        (fun _ l' => due → l'.reset = true) l :=
  (latched_heeds stays set).mono (fun _ _ set _ => set) (fun _ _ set _ => set)

/-- A step that finds a directory takes the one-shot. -/
theorem resetLocksOnce_latches (l : Latch)
    : resetLocksOnce.Heeds Latch.act Latch.guard
        (fun _ l' => l.housed = true ∨ l.reset = true → l'.reset = true)
        (fun _ l' => l.housed = true ∨ l.reset = true → l'.reset = true) l := by
  refine ⟨trivial, fun m l₁ ⟨housed, notifies, same, _, reset⟩ => ?_⟩
  change Heeds _ _ (if m.locksReset || !m.hasNotify then _ else _) _ _ _
  split
  next set =>
    intro _
    rw [notifies, Bool.not_true, Bool.or_false] at set
    exact reset.trans set
  next unset =>
    refine ⟨trivial, fun m₂ l₂ ⟨housed₂, _, _, dir, _⟩ => ?_⟩
    change Heeds _ _ (if m₂.walletsDir = "" then _ else _) _ _ _
    split
    next missing =>
      rintro (home | set)
      · exact absurd missing (dir.mpr (housed₂ (housed home)))
      · simp [same.trans set] at unset
    next =>
      refine ⟨trivial, fun m₃ l₃ ⟨_, _, _, _, taken⟩ => ?_⟩
      exact latched_follows (.forEach fun _ => .notifyOpen) taken

/-- What a tick does after that opens nothing. -/
theorem follows_latches {l : Latch} {due : Prop} (ready : due → l.reset = true)
    : (observeWallet.bind fun seen =>
        match seen with
          | none => Pure.pure ()
          | some (synced, height) => do
              let now ← Worker.now
              let m ← Worker.update (ticked height now)
              followRoute synced now (progressed height now m)
              followSync synced).Heeds Latch.act Latch.guard (fun _ l' => due → l'.reset = true)
        (fun _ l' => due → l'.reset = true) l := by
  have silent := Worker.Stays.bind (observeWallet_stays : observeWallet.Stays Silent)
    fun seen => @follows_stays _ _ seen
  have unmaking := Worker.Stays.bind (observeWallet_steadily.quietly.mono
    (fun _ => Quiet.unmaking) (fun _ _ => trivial) (fun _ _ => trivial)) fun seen => @follows_unmakes seen
  have latching := Worker.Stays.bind (observeWallet_stays : observeWallet.Stays Latching)
    fun seen => @follows_stays _ _ seen
  have each (l : Latch) (op : Op) (both : Silent op ∧ Unmaking op ∧ Latching op)
      (_ : due → l.reset = true) : l.guard op := by
    cases op with
    | ask c =>
        intro opens
        cases c with
        | notify network isOpen => exact both.1.elim
        | lib c =>
            have makes : (Call.lib c).makes = true := by
              cases c <;> first | rfl | cases opens
            simp [Acting, makes] at both
        | _ => cases opens
    | _ => trivial
  have step (l : Latch) (op : Op) (answer : op.Ans) (l' : Latch)
      (both : Silent op ∧ Unmaking op ∧ Latching op) (step : Latch.act l op answer l')
      (kept : due → l.reset = true) (now : due) : l'.reset = true :=
    Latch.act_reset both.2.2 step (kept now)
  exact (Within.heeds (silent.and (unmaking.and latching)) each step ready).mono
    (fun _ _ both => both.2) (fun _ _ both => both.2)

/-- A turn that finds a directory has taken the one-shot when it ends, and opens nothing before
that. -/
theorem turn_latches (l : Latch)
    : turn.Heeds Latch.act Latch.guard
        (fun _ l' => l.housed = true ∨ l.reset = true → l'.reset = true)
        (fun _ l' => l.housed = true ∨ l.reset = true → l'.reset = true) l := by
  refine ⟨trivial, fun front l₁ ⟨housed, accepted, same⟩ => heeds_tryCatch.mpr ?_⟩
  have earlier : l.housed = true ∨ l.reset = true → l₁.housed = true ∨ l₁.reset = true :=
    Or.imp housed same.trans
  cases front with
  | some front =>
      refine heeds_bind.mpr ((resetLocksOnce_latches l₁).mono (fun _ l₂ taken => ?_)
        fun _ _ taken ready => taken (earlier ready))
      have runs : Worker.Stays Latching
          (((dispatch front.2).tryCatch fun e => Pure.pure (caught e)).bind fun out =>
            settleJob front.1 front.2 out) := by
        refine .bind (.guarded dispatch_stays fun _ => .value) fun out => ?_
        exact .bind ⟨trivial, fun _ => Worker.Stays.orThrow⟩ fun _ =>
          .guarded (.tell trivial) fun _ => .value
      exact latched_follows runs (taken (.inl (accepted nofun)))
  | none =>
      refine heeds_bind.mpr ((resetLocksOnce_latches l₁).mono (fun _ l₂ taken => ?_)
        fun _ _ taken ready => taken (earlier ready))
      exact follows_latches fun ready => taken (earlier ready)

-----------------------------------------------------------------------------------------
-- In every run
-----------------------------------------------------------------------------------------

/-- The moments of the runs from a world in which the host does not take the directory back, and
library calls return. -/
def Housed (start : World) (t : System) : Prop :=
  Thread.Reach (World.act LibraryReturns) World.Kept turn start t

theorem turn_homely : turn.Stays Homely := turn_stays trivial (fun _ _ => trivial) fun _ => trivial

/-- The one-shot has been taken, if it was due. -/
def Latch.Taken (due : Prop) (l : Latch) : Prop := due → l.reset = true

theorem Latch.guard_drift (l l' : Latch) (op : Op) (drifts : l.Drift l') (guarded : l.guard op)
    : l'.guard op := by
  cases op with
  | ask c => exact fun opens => drifts.1.trans (guarded opens)
  | _ => trivial

theorem Latch.taken_drift {due : Prop} (l l' : Latch) (drifts : l.Drift l')
    (taken : l.Taken due)
    : l'.Taken due :=
  fun ready => drifts.1.trans (taken ready)

theorem turn_takes {due : Prop} (l : Latch) (taken : l.Taken due)
    : turn.Heeds Latch.act Latch.guard (fun _ => Latch.Taken due) (fun _ => Latch.Taken due) l :=
  (turn_latches l).mono (fun _ _ takes ready => takes (.inr (taken ready)))
    (fun _ _ takes ready => takes (.inr (taken ready)))

theorem Housed.abides {due : Prop} {start : World} {t : System} (equipped : start.Equipped)
    (taken : start.latch.Taken due) (reach : Housed start t)
    : Thread.Abides World.latch Latch.act World.Equipped Homely Latch.guard (Latch.Taken due) t :=
  Thread.Reach.abides World.latch_drifts Latch.guard_drift Latch.taken_drift turn_homely turn_takes
    equipped taken reach

theorem World.start_equipped : (World.start true).Equipped :=
  ⟨rfl, fun filled => absurd rfl filled⟩

/-- Such a run is orderly. -/
theorem Housed.orderly {t : System} (reach : Housed (World.start true) t)
    : Reachable Orderly true t := by
  have acts (w : World) (op : Op) (answer : op.Ans) (w' : World) (guarded : w.latch.guard op)
      (step : World.act LibraryReturns w op answer w') : World.act Orderly w op answer w' := by
    cases op with
    | ask c => exact ⟨⟨step.1, guarded⟩, step.2⟩
    | _ => exact step
  have taken : (World.start true).latch.Taken False := False.elim
  exact Thread.Reach.guarded World.latch_drifts Latch.guard_drift Latch.taken_drift turn_homely
    turn_takes acts (fun _ _ step => step.1) World.start_equipped taken .refl reach

/-- A turn that runs with a directory set takes the one-shot. -/
theorem Housed.takes {w w' : World} (reach : Housed (World.start true) ⟨.pure (), w⟩)
    (housed : w.mem.walletsDir ≠ "")
    (whole : Thread.WholeTurn (World.act LibraryReturns) World.Kept turn w w')
    : w'.Equipped ∧ w'.mem.locksReset = true := by
  have taken : (World.start true).latch.Taken False := False.elim
  have equipped := (reach.abides World.start_equipped taken).good
  have heeds : turn.Heeds Latch.act Latch.guard (fun _ => Latch.Taken True)
      (fun _ => Latch.Taken True) w.latch :=
    (turn_latches w.latch).mono (fun _ _ takes _ => takes (.inl (decide_eq_true housed)))
      (fun _ _ takes _ => takes (.inl (decide_eq_true housed)))
  have ended := Thread.Moves.abides World.latch_drifts Latch.guard_drift Latch.taken_drift whole
    ⟨equipped, turn_homely, heeds⟩
  exact ⟨ended.good, ended.heeds trivial⟩

/-- After every step from the first one that ran with a wallets directory on, a network is locked
exactly when a wallet is open on it, whatever was locked before; and the four networks have been
cleared once, before anything was opened. -/
theorem locked_iff_open {leftover : String → Bool} {w w' : World} {t : System}
    (reach : Housed (World.start true) ⟨.pure (), w⟩) (housed : w.mem.walletsDir ≠ "")
    (whole : Thread.WholeTurn (World.act LibraryReturns) World.Kept turn w w')
    (later : Housed w' t) (idle : t.Idle)
    : Locked leftover t.state.mem t.state.history
      ∧ (t.state.mem.wallet ≠ none → t.state.mem.network ∈ knownNetworks)
      ∧ clearings t.state.history = cleared
      ∧ Throughout Event.OpensCleared t.state.history := by
  obtain ⟨equipped, set⟩ := reach.takes housed whole
  have whole' : Housed (World.start true) t := (Thread.Reach.wholeTurn reach whole).trans later
  have init : LockInv leftover (World.start true).view :=
    ⟨rfl, fun _ => ⟨rfl, rfl, rfl⟩, nofun, throughout_nil, fun isOpen => absurd rfl isOpen, nofun⟩
  have holds := keepsLock.reachable init whole'.orderly idle
  have latched := (later.abides equipped (fun _ : True => set)).heeds
  rw [idle] at latched
  have stays : t.state.mem.locksReset = true := latched trivial
  exact ⟨holds.locked stays, holds.known, holds.once stays, holds.opens⟩

/-- A module that is about to open its first wallet. -/
def World.opening : World :=
  World.withJob "open_wallet" (.obj [("name", .str "w"), ("network", .str "stagenet")])

theorem World.opening_housed : Housed (World.start true) ⟨.pure (), World.opening⟩ := by
  refine Relation.ReflTransGen.tail (.single (.move (.other ⟨.setWalletsDir _ "/wallets", ?_⟩)))
    (.move (.other ⟨.client _ _, ?_⟩))
  · exact fun _ => by decide
  · exact id

/-- With all networks left locked by an earlier instance. -/
theorem locked_iff_open_stagenet
    : ∃ w, Housed World.opening ⟨.pure (), w⟩ ∧ Locked (fun _ => true) w.mem w.history := by
  have whole : Thread.WholeTurn (World.act LibraryReturns) World.Kept turn World.opening _ :=
    World.afterTurn_whole (@Script.succeeding_returns true 2
      (.obj [("url", .str "http://127.0.0.1:18081")])) World.opening
  have idle : System.Idle ⟨.pure (), World.opening.afterTurn (.succeeding true 2
      (.obj [("url", .str "http://127.0.0.1:18081")]))⟩ := rfl
  refine ⟨_, Thread.Reach.wholeTurn .refl whole, ?_⟩
  exact (locked_iff_open World.opening_housed (by decide) whole .refl idle).1

end MoneroWalletCore.Runtime
