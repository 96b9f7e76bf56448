import MoneroWalletCore.Clients.HandleLock

/-! What the worker has in its care: the wallet that is in place, the transactions kept on it, and
which of the library's objects are not gone yet. A wallet object lives from the call that returns
it to the one that closes it, and takes the transactions that were built on it along. Every call of
the worker is made on an object that lives, and with the handle held as the call needs it.
-/

namespace MoneroWalletCore.Runtime

open Program

variable {α β : Type}

/-! ### Library objects -/

inductive LibObject where
  | wallet (w : Wallet)
  | tx (pt : PendingTx)
  deriving DecidableEq, Repr

/-- The object that a call is made on; none in a call of the manager. -/
def Lib.on : Lib → Option LibObject
  | .setDaemonAddress _ | .walletExists _ | .openWallet .. | .createWallet .. | .recoveryWallet ..
  | .createWalletFromKeys .. | .managerErrorString | .verifyWalletPassword .. => none
  | .closeWallet w _ | .status w | .errorString w | .nettype w | .setRefreshFromBlockHeight w _
  | .init w .. | .setOffline w _ | .setTrustedDaemon w _ | .connected w
  | .setAutoRefreshInterval w _ | .startRefresh w | .pauseRefresh w | .stop w | .refresh w
  | .refreshAsync w | .rescanBlockchainAsync w | .address w .. | .store w _ | .watchOnly w
  | .synchronized w | .blockChainHeight w | .createTransaction w .. | .setPassword w _ =>
      some (.wallet w)
  | .pendingStatus pt | .pendingErrorString pt | .pendingAmount pt | .pendingFee pt
  | .pendingDust pt | .pendingTxCount pt | .pendingTxid pt _ | .commit pt .. => some (.tx pt)

/-- Which wallet objects live, and on which of them each transaction was built. -/
structure Objects where
  lives : Wallet → Bool := fun _ => false
  maker : PendingTx → Option Wallet := fun _ => none

namespace Objects

/-- The wallet object that an object is, or was built on, for as long as that lives. -/
def owner (g : Objects) : LibObject → Option Wallet
  | .wallet w => if g.lives w then some w else none
  | .tx pt => (g.maker pt).filter g.lives

def made (g : Objects) (w : Wallet) : Objects := { g with lives := Function.update g.lives w true }

def built (g : Objects) (w : Wallet) (pt : PendingTx) : Objects :=
  { g with maker := Function.update g.maker pt (some w) }

/-- A close takes the transactions along, whatever it answers. -/
def closed (g : Objects) (w : Wallet) : Objects :=
  {
    lives := Function.update g.lives w false
    maker := fun pt => if g.maker pt = some w then none else g.maker pt
  }

def after (g : Objects) (e : Event) : Objects :=
  match e.handle? with
  | some w => g.made w
  | none =>
      match e with
      | .asked (.lib (.closeWallet w _)) _ _ => g.closed w
      | .asked (.lib (.createTransaction w ..)) (.ok (some pt)) _ => g.built w pt
      | _ => g

variable {g : Objects} {w w' : Wallet} {pt pt' : PendingTx} {o : LibObject}

theorem owner_made_self : (g.made w).owner (.wallet w) = some w := if_pos (Function.update_self ..)

theorem lives_of_owner (owned : g.owner (.wallet w') = some w) : g.lives w = true := by
  obtain ⟨alive, same⟩ := Option.ite_none_right_eq_some.mp owned
  cases same
  exact alive

theorem owner_built_self (alive : g.owner (.wallet w) = some w)
    : (g.built w pt).owner (.tx pt) = some w := by
  have maker : (g.built w pt).maker pt = some w := Function.update_self ..
  unfold owner
  dsimp only
  rw [maker]
  exact Option.filter_some_pos (lives_of_owner alive)

/-- What belongs to a wallet object still does after a transaction was built on it. -/
theorem owner_built (alive : g.owner (.wallet w) = some w) (owned : g.owner o = some w)
    : (g.built w pt).owner o = some w := by
  cases o with
  | wallet v => exact owned
  | tx pt' =>
      by_cases same : pt' = pt
      · rw [same]
        exact owner_built_self alive
      · unfold owner built
        dsimp only
        rw [Function.update_of_ne same]
        exact owned

end Objects

/-- What a history leaves of the library's objects. -/
def objects : History → Objects
  | [] => {}
  | e :: older => (objects older).after e

/-- The calls that neither make an object nor end one. -/
def Lib.keepsObjects : Lib → Bool
  | .openWallet .. | .createWallet .. | .recoveryWallet .. | .createWalletFromKeys ..
  | .closeWallet .. | .createTransaction .. => false
  | _ => true

def Call.keepsObjects : Call → Bool
  | .lib c => c.keepsObjects
  | _ => true

theorem Objects.after_kept {g : Objects} {c : Call} {answer : c.Answer} {m : Mem}
    (keeps : c.keepsObjects = true)
    : g.after (.asked c answer m) = g := by
  cases c with
  | lib c => cases c <;> first | rfl | cases keeps
  | _ => rfl

/-! ### Holding the handle -/

/-- How the worker is to hold the handle in a call on the wallet in place: not at all in the look
that follows a publication, shared where the readers go on, and alone otherwise. -/
def Lib.access : Lib → Option LockMode
  | .watchOnly _ => none
  | .synchronized _ | .blockChainHeight _ | .address .. | .pauseRefresh _ | .stop _
  | .setOffline _ true | .refresh _ => some .shared
  | _ => some .unique

/-- What is held is enough for what is needed. -/
def Covers (hold : Option LockMode) : Option LockMode → Prop
  | none => True
  | some .shared => hold ≠ none
  | some .unique => hold = some .unique

@[simp] theorem covers_unique {need : Option LockMode} : Covers (some .unique) need := by
  cases need with
  | none => trivial
  | some mode => cases mode <;> simp [Covers]

/-! ### What the worker cares for -/

structure Custody where
  held : Option Wallet
  kept : AList (fun _ : String => PendingTx)
  objects : Objects
  hold : Option LockMode

/-- The library call of an action. -/
def Op.lib? : Op → Option Lib
  | .ask (.lib c) | .ask (.destructor c) => some c
  | _ => none

namespace Custody

/-- The worker's actions on what it has in its care. -/
def act : Semantics Op Op.Ans Custody := fun g op answer g' =>
  match op, answer with
  | .update f, m =>
      m.wallet = g.held ∧ m.pendingTx = g.kept
        ∧ g' = { g with held := (f m).wallet, kept := (f m).pendingTx }
  | .lock mode, _ => g' = { g with hold := some mode }
  | .unlock _, _ => ∃ hold, g' = { g with hold }
  | .ask c, answer => ∃ m, g' = { g with objects := g.objects.after (.asked c answer m) }
  | .dequeue, _ => g' = g
  | .settle .., _ => g' = g

/-- The wallet in place lives, and so do the transactions that are kept, which were built on it. -/
structure Safe (g : Custody) : Prop where
  held : ∀ w, g.held = some w → g.objects.owner (.wallet w) = some w
  kept : ∀ handle pt, g.kept.lookup handle = some pt →
    ∃ w, g.held = some w ∧ g.objects.owner (.tx pt) = some w

/-- The call is made on an object that lives; where that is of the wallet in place, the handle is
held as the call needs it. -/
def Serves (g : Custody) (c : Lib) : Prop :=
  ∀ o ∈ c.on, ∃ w, g.objects.owner o = some w ∧ (g.held = some w → Covers g.hold c.access)

def guard (g : Custody) (op : Op) : Prop := g.Safe ∧ ∀ c ∈ op.lib?, g.Serves c

/-- The action may be taken wherever `P` holds, which it keeps. -/
def Suits (P : Custody → Prop) (op : Op) : Prop :=
  ∀ g, P g → g.guard op ∧ ∀ answer g', act g op answer g' → P g'

variable {P : Custody → Prop} {g : Custody}

theorem heeds_of_stays {p : Worker α} (stays : p.Stays (Suits P)) (holds : P g)
    : p.Heeds act guard (fun _ => P) (fun _ => P) g := by
  have heeds := Within.heeds stays (fun g op suits now => (suits g now).1)
    (fun g op answer g' suits step now => (suits g now).2 answer g' step) holds
  exact heeds.mono (fun _ _ both => both.2) fun _ _ both => both.2

/-- A condition that implies safety. -/
class Sound (P : Custody → Prop) : Prop where
  safe : ∀ g, P g → g.Safe

instance : Sound Safe := ⟨fun _ => id⟩

theorem safe_of_hold (safe : g.Safe) (hold : Option LockMode) : Safe { g with hold } :=
  ⟨safe.held, safe.kept⟩

section Sound

variable [Sound P]

theorem suits_update {f : Mem → Mem}
    (keeps : ∀ m : Mem, (f m).wallet = m.wallet ∧ (f m).pendingTx = m.pendingTx)
    : Suits P (.update f) := by
  intro g holds
  refine ⟨⟨Sound.safe g holds, fun _ none => by cases none⟩, fun m g' step => ?_⟩
  obtain ⟨wallet, kept, rfl⟩ := step
  rw [(keeps m).1, (keeps m).2, wallet, kept]
  exact holds

theorem suits_ask {c : Call} (keeps : c.keepsObjects = true)
    (serves : ∀ g, P g → ∀ c' ∈ (Op.ask c).lib?, g.Serves c')
    : Suits P (.ask c) := by
  intro g holds
  refine ⟨⟨Sound.safe g holds, serves g holds⟩, fun answer g' step => ?_⟩
  obtain ⟨m, rfl⟩ := step
  rw [Objects.after_kept keeps]
  exact holds

/-- A call outside the library. -/
theorem suits_outside {c : Call} (keeps : c.keepsObjects = true) (outside : (Op.ask c).lib? = none)
    : Suits P (.ask c) :=
  suits_ask keeps fun _ _ c' same => by cases outside.symm.trans same

/-- A call of the manager that makes no object. -/
theorem stays_manager {c : Lib} (manager : c.on = none) (keeps : c.keepsObjects = true)
    : (Worker.lib c).Stays (Suits P) := by
  refine .call (suits_ask keeps fun g _ c' same o on => ?_)
  cases same
  cases manager.symm.trans on

theorem stays_read : Worker.read.Stays (Suits P) := .update (suits_update fun _ => ⟨rfl, rfl⟩)

theorem stays_emit {event : String} {payload : Json} : (Worker.emit event payload).Stays (Suits P) :=
  Worker.within_emit.mpr ⟨suits_outside rfl rfl, fun _ => trivial, fun _ => trivial⟩

theorem stays_resolve {network : String} : (Worker.resolve network).Stays (Suits P) :=
  Worker.within_resolve.mpr ⟨suits_outside rfl rfl, fun _ => trivial, fun _ => trivial⟩

theorem stays_now : Worker.now.Stays (Suits P) := ⟨suits_outside rfl rfl, fun _ => trivial⟩

theorem stays_setState {s : State} {error : String} : (setState s error).Stays (Suits P) :=
  .bind (.update (suits_update fun _ => ⟨rfl, rfl⟩)) fun _ => stays_emit

theorem stays_refuse {label msg : String}
    : Worker.Stays (Suits P) (refuseOpen label msg : Worker (Stage α)) :=
  .bind stays_setState fun _ => .value

theorem stays_notifyOpen {network : String} {isOpen : Bool}
    : (notifyOpen network isOpen).Stays (Suits P) := by
  refine .bind stays_read fun _ => .when (.guarded ?_ fun _ => .value)
  exact Worker.within_notify.mpr ⟨suits_outside rfl rfl, fun _ => trivial, fun _ => trivial⟩

theorem stays_resetLocksOnce : resetLocksOnce.Stays (Suits P) := by
  refine .bind stays_read fun _ => .ite .value (.bind stays_read fun _ => .ite .value ?_)
  exact .bind (.update (suits_update fun _ => ⟨rfl, rfl⟩)) fun _ =>
    .forEach fun _ => stays_notifyOpen

theorem stays_restrictFiles {path : String} : (restrictFiles path).Stays (Suits P) :=
  .forEach fun _ => .bind ⟨suits_outside rfl rfl, fun _ => trivial⟩ fun _ =>
    .when ⟨suits_outside rfl rfl, fun _ => trivial⟩

theorem stays_dropCatchUp {node : Json} : (dropCatchUp node).Stays (Suits P) := by
  unfold dropCatchUp
  split
  · exact .bind ⟨suits_outside rfl rfl, fun _ => trivial⟩ fun _ => .value
  · exact .value

end Sound

/-! ### Where the worker is in a body -/

/-- A wallet is in place. -/
structure Having (w : Wallet) (g : Custody) : Prop where
  safe : g.Safe
  held : g.held = some w

/-- And the handle is held. -/
structure Using (w : Wallet) (mode : LockMode) (g : Custody) : Prop extends Having w g where
  hold : g.hold = some mode

/-- And a transaction that was built on it is looked at. -/
structure Spending (w : Wallet) (pt : PendingTx) (g : Custody) : Prop extends Using w .unique g where
  built : g.objects.owner (.tx pt) = some w

/-- No wallet is in place, but one may be on its way there or from there. -/
structure Bringing (w? : Option Wallet) (g : Custody) : Prop where
  safe : g.Safe
  held : g.held = none
  lives : ∀ w ∈ w?, g.objects.owner (.wallet w) = some w

variable {w : Wallet} {pt : PendingTx} {mode : LockMode} {w? : Option Wallet}

instance : Sound (Having w) := ⟨fun _ now => now.safe⟩

instance : Sound (Using w mode) := ⟨fun _ now => now.safe⟩

instance : Sound (Spending w pt) := ⟨fun _ now => now.safe⟩

instance : Sound (Bringing w?) := ⟨fun _ now => now.safe⟩

theorem Bringing.left (now : g.Bringing w?) : g.Bringing none :=
  ⟨now.safe, now.held, fun _ none => by cases none⟩

/-- With no wallet in place nothing is kept. -/
theorem Safe.kept_none (safe : g.Safe) (held : g.held = none) {handle : String}
    : g.kept.lookup handle = none := by
  cases found : g.kept.lookup handle with
  | none => rfl
  | some pt =>
      obtain ⟨w, place, _⟩ := safe.kept handle pt found
      cases held.symm.trans place

/-- A call on the wallet that is used alone. -/
theorem stays_use {c : Lib} (on : c.on = some (.wallet w)) (keeps : c.keepsObjects = true)
    : (Worker.lib c).Stays (Suits (Using w .unique)) := by
  refine .call (suits_ask keeps fun g now c' same o here => ?_)
  cases same
  cases on.symm.trans here
  exact ⟨w, now.safe.held w now.held, fun _ => now.hold ▸ covers_unique⟩

/-- A call that readers may go on beside. -/
theorem stays_share {c : Lib} (on : c.on = some (.wallet w)) (keeps : c.keepsObjects = true)
    (shared : c.access = some .shared)
    : (Worker.lib c).Stays (Suits (Using w .shared)) := by
  refine .call (suits_ask keeps fun g now c' same o here => ?_)
  cases same
  cases on.symm.trans here
  refine ⟨w, now.safe.held w now.held, fun _ => ?_⟩
  rw [shared, now.hold]
  exact Option.some_ne_none _

/-- A call on a transaction of the wallet, or on the wallet itself. -/
theorem stays_spend {c : Lib} (on : c.on = some (.tx pt) ∨ c.on = some (.wallet w))
    (keeps : c.keepsObjects = true)
    : (Worker.lib c).Stays (Suits (Spending w pt)) := by
  refine .call (suits_ask keeps fun g now c' same o here => ?_)
  cases same
  refine ⟨w, ?_, fun _ => now.hold ▸ covers_unique⟩
  rcases on with on | on
  · cases on.symm.trans here
    exact now.built
  · cases on.symm.trans here
    exact now.safe.held w now.held

/-- A call on a wallet that nobody else knows. -/
theorem stays_bring {c : Lib} (on : c.on = some (.wallet w)) (keeps : c.keepsObjects = true)
    : (Worker.lib c).Stays (Suits (Bringing (some w))) := by
  refine .call (suits_ask keeps fun g now c' same o here => ?_)
  cases same
  cases on.symm.trans here
  refine ⟨w, now.lives w rfl, fun place => ?_⟩
  cases now.held.symm.trans place

/-- What an action of a body leads to. -/
theorem heeds_call {op : Op} {next : op.Ans → Worker α} {normal : α → Custody → Prop}
    {thrown : Exn → Custody → Prop} (suits : Suits P op) (now : P g)
    (rest : ∀ answer g', act g op answer g' → P g' →
      (next answer).Heeds act guard normal thrown g')
    : (Program.call op next).Heeds act guard normal thrown g :=
  ⟨(suits g now).1, fun answer g' step => rest answer g' step ((suits g now).2 answer g' step)⟩

/-- A part of a body that keeps a condition, and what comes after it. -/
theorem heeds_then {p : Worker α} {next : α → Worker β} {normal : β → Custody → Prop}
    (stays : p.Stays (Suits P)) (now : P g) [Sound P]
    (rest : ∀ value g', P g' → (next value).Heeds act guard normal (fun _ => Safe) g')
    : Program.Heeds act guard (p.bind next) normal (fun _ => Safe) g :=
  heeds_bind.mpr ((heeds_of_stays stays now).mono (fun value g' now => rest value g' now)
    fun _ g' now => Sound.safe g' now)

/-- The members that a body reads are of what it has in its care. -/
theorem heeds_read {next : Mem → Worker β} {normal : β → Custody → Prop}
    {thrown : Exn → Custody → Prop} (safe : g.Safe)
    (rest : ∀ m : Mem, m.wallet = g.held → m.pendingTx = g.kept →
      (next m).Heeds act guard normal thrown g)
    : Program.Heeds act guard (Worker.read.bind next) normal thrown g := by
  refine ⟨⟨safe, fun _ none => by cases none⟩, fun m g' step => ?_⟩
  obtain ⟨wallet, kept, rfl⟩ := step
  have same : { g with held := (id m).wallet, kept := (id m).pendingTx } = g := by
    rw [id, wallet, kept]
  rw [same]
  exact rest m wallet kept

/-- A scope that is begun and left in any way of holding the handle. -/
theorem heeds_locked {p : Worker α} {normal : α → Custody → Prop} (safe : g.Safe)
    (sound : ∀ value g', normal value g' → g'.Safe)
    (free : ∀ value g' hold, normal value g' → normal value { g' with hold })
    (body : p.Heeds act guard normal (fun _ => Safe) { g with hold := some mode })
    : (Worker.locked mode p).Heeds act guard normal (fun _ => Safe) g := by
  refine ⟨⟨safe, fun _ none => by cases none⟩, fun _ g' step => ?_⟩
  cases step
  refine heeds_ensure.mpr (body.mono (fun value g' now => ?_) fun _ g' now => ?_)
  · refine ⟨⟨sound value g' now, fun _ none => by cases none⟩, fun _ g'' step => ?_⟩
    obtain ⟨hold, rfl⟩ := step
    exact free value g' hold now
  · refine ⟨⟨now, fun _ none => by cases none⟩, fun _ g'' step => ?_⟩
    obtain ⟨hold, rfl⟩ := step
    exact safe_of_hold now hold

/-- The scope of a job on the wallet that is open. -/
theorem heeds_onWallet {none_ : α} {body : Wallet → Worker α} (safe : g.Safe)
    (each : ∀ w g', Using w mode g' →
      (body w).Heeds act guard (fun _ => Safe) (fun _ => Safe) g')
    : (Worker.locked mode do
        let m ← Worker.read
        match m.wallet with
        | none => Pure.pure none_
        | some w => body w).Heeds act guard (fun _ => Safe) (fun _ => Safe) g := by
  refine heeds_locked safe (fun _ _ => id) (fun _ _ hold now => safe_of_hold now hold) ?_
  have safe' := safe_of_hold safe (some mode)
  refine heeds_read safe' fun m wallet _ => ?_
  cases found : m.wallet with
  | none => exact safe'
  | some w => exact each w _ ⟨⟨safe', wallet.symm.trans found⟩, rfl⟩

/-! ### Jobs on the open wallet, and the tick -/

theorem observeWallet_heeds (safe : g.Safe)
    : observeWallet.Heeds act guard (fun _ => Safe) (fun _ => Safe) g := by
  refine heeds_onWallet safe fun w g' now => ?_
  refine heeds_then (stays_share rfl rfl rfl) now fun _ _ now => ?_
  exact heeds_then (stays_share rfl rfl rfl) now fun _ _ now => now.safe

theorem doRescan_heeds (safe : g.Safe)
    : doRescan.Heeds act guard (fun _ => Safe) (fun _ => Safe) g := by
  refine heeds_bind.mpr ((heeds_onWallet safe fun w g' now => ?_).mono (fun rescanned g' safe => ?_)
    fun _ _ => id)
  · exact heeds_then (stays_use rfl rfl) now fun _ _ now => now.safe
  · exact heeds_of_stays (.ite (.bind stays_setState fun _ => .value) .value) safe

theorem goOffline_heeds {abandon : Bool} {node : Json} (safe : g.Safe)
    : (goOffline abandon node).Heeds act guard (fun _ => Safe) (fun _ => Safe) g := by
  refine heeds_onWallet safe fun w g' now => ?_
  refine heeds_then (stays_share rfl rfl rfl) now fun _ _ now => ?_
  refine heeds_then (stays_share rfl rfl rfl) now fun _ _ now => ?_
  refine heeds_then (.when stays_dropCatchUp) now fun _ _ now => ?_
  refine heeds_then (stays_share rfl rfl rfl) now fun _ _ now => ?_
  exact heeds_then (stays_share rfl rfl rfl) now fun _ _ now => now.safe

theorem goOnline_stays {ok : Bool} : (goOnline w ok).Stays (Suits (Using w .unique)) :=
  .ite
    (.bind (stays_use rfl rfl) fun _ => .bind (stays_use rfl rfl) fun _ =>
      .bind (stays_use rfl rfl) fun _ => .bind (stays_use rfl rfl) fun _ =>
        .bind (stays_use rfl rfl) fun _ => .value)
    (.bind (stays_use rfl rfl) fun _ => .value)

theorem dialTor_heeds {node : Json} (safe : g.Safe)
    : (dialTor node).Heeds act guard (fun _ => Safe) (fun _ => Safe) g := by
  refine heeds_onWallet safe fun w g' now => ?_
  have dials : Worker.Stays (Suits (Using w .unique))
      (if torReady node then do
        let ok ← Worker.lib
          (.init w (cstr (hostPort (str node "url"))) 0 "" "" false false
            (cstr (proxyHostPort (str node "proxy"))))
        goOnline w ok
      else
        Pure.pure (some "")) :=
    .ite (.bind (stays_use rfl rfl) fun _ => goOnline_stays) .value
  exact (heeds_of_stays dials now).mono (fun _ _ now => now.safe) fun _ _ now => now.safe

theorem moveWith_heeds {abandon : Bool} {node : Json} {from_ : Route} (safe : g.Safe)
    : (moveWith abandon node from_).Heeds act guard (fun _ => Safe) (fun _ => Safe) g := by
  unfold moveWith
  split
  · exact safe
  · refine heeds_bind.mpr ((goOffline_heeds safe).mono (fun stopped g' safe => ?_) fun _ _ => id)
    split
    · exact safe
    · refine heeds_bind.mpr ((dialTor_heeds safe).mono (fun dialled g' safe => ?_) fun _ _ => id)
      cases dialled with
      | none => exact safe
      | some error =>
          have records : (recordMove node error).Stays (Suits Safe) :=
            .bind stays_now fun _ => .bind (.update (suits_update fun _ => ⟨rfl, rfl⟩)) fun _ =>
              stays_setState
          exact heeds_of_stays records safe

theorem moveToTor_heeds {abandon : Bool} {resolved : Option Json} (safe : g.Safe)
    : (moveToTor abandon resolved).Heeds act guard (fun _ => Safe) (fun _ => Safe) g := by
  refine heeds_then stays_read safe fun m g' safe => ?_
  cases resolved with
  | some node => exact moveWith_heeds safe
  | none => exact heeds_then stays_resolve safe fun _ _ safe => moveWith_heeds safe

theorem followRoute_heeds {synced : Bool} {now : Nat} {m : Mem} (safe : g.Safe)
    : (followRoute synced now m).Heeds act guard (fun _ => Safe) (fun _ => Safe) g := by
  unfold followRoute
  split
  · exact moveToTor_heeds safe
  · split
    · refine heeds_then stays_resolve safe fun node g' safe => ?_
      unfold when
      split
      · exact moveToTor_heeds safe
      · exact safe
    · exact safe

theorem tick_heeds (safe : g.Safe)
    : tick.Heeds act guard (fun _ => Safe) (fun _ => Safe) g := by
  refine heeds_then stays_resetLocksOnce safe fun _ g' safe => ?_
  refine heeds_bind.mpr ((observeWallet_heeds safe).mono (fun seen g' safe => ?_) fun _ _ => id)
  cases seen with
  | none => exact safe
  | some seen =>
      obtain ⟨synced, height⟩ := seen
      have ticks {now : Nat} : (Worker.update (ticked height now)).Stays (Suits Safe) := by
        refine .update (suits_update fun m => ?_)
        have same : (ticked height now m).session = m.session := (ticked_session m).1
        exact ⟨congrArg Session.wallet same, congrArg Session.pendingTx same⟩
      have follows : (followSync synced).Stays (Suits Safe) :=
        .bind stays_read fun _ => .ite stays_setState (.ite stays_setState .value)
      refine heeds_then stays_now safe fun now g' safe => ?_
      refine heeds_then ticks safe fun m g' safe => ?_
      refine heeds_bind.mpr ((followRoute_heeds safe).mono (fun _ g' safe => ?_) fun _ _ => id)
      exact heeds_of_stays follows safe

theorem replacePassword_stays {p : Json}
    : (replacePassword w p).Stays (Suits (Using w .unique)) := by
  refine .bind .orThrow fun _ => .bind (.bind stays_read fun _ => stays_manager rfl rfl) fun _ =>
    .ite .value (.bind .orThrow fun _ => .bind (stays_use rfl rfl) fun _ => .ite ?_ ?_)
  · exact .bind (stays_use rfl rfl) fun _ => .value
  · exact .bind (stays_use rfl rfl) fun _ => .value

/-- While a job is in the library the refresh is paused, and started again on its wallet. -/
theorem heeds_refreshPaused {body : Worker α}
    (heeds : ∀ g', Using w .unique g' →
      body.Heeds act guard (fun _ => Using w .unique) (fun _ => Using w .unique) g')
    (now : Using w .unique g)
    : (refreshPaused w body).Heeds act guard (fun _ => Safe) (fun _ => Safe) g := by
  refine heeds_then (stays_use rfl rfl) now fun _ g' now => ?_
  have starts (g' : Custody) (now : Using w .unique g')
      : (Worker.resumeRefresh w).Heeds act guard (fun _ => Safe) (fun _ => Safe) g' := by
    refine heeds_call (P := Using w .unique) ?_ now fun _ _ _ now => now.safe
    refine suits_ask rfl fun g now c' same o here => ?_
    cases same
    cases here
    exact ⟨w, now.safe.held w now.held, fun _ => now.hold ▸ covers_unique⟩
  exact heeds_ensure.mpr ((heeds g' now).mono (fun _ => starts) fun _ => starts)

theorem doChangePassword_heeds {p : Json} (safe : g.Safe)
    : (doChangePassword p).Heeds act guard (fun _ => Safe) (fun _ => Safe) g :=
  heeds_onWallet safe fun _ _ now =>
    heeds_refreshPaused (fun _ now => heeds_of_stays replacePassword_stays now) now

/-! ### Transactions -/

/-- A transaction that was built on the wallet in place is kept. -/
theorem suits_registered : Suits (Spending w pt) (.update (registered pt)) := by
  intro g now
  refine ⟨⟨now.safe, fun _ none => by cases none⟩, fun m g' step => ?_⟩
  obtain ⟨wallet, kept, rfl⟩ := step
  refine ⟨⟨⟨⟨fun w' held => now.safe.held w' (wallet ▸ held), fun handle pt' found => ?_⟩,
    wallet.trans now.held⟩, now.hold⟩, now.built⟩
  by_cases same : handle = txHandle m.nextTx
  · subst same
    cases (AList.lookup_insert _).symm.trans found
    exact ⟨w, wallet.trans now.held, now.built⟩
  · have older := (AList.lookup_insert_ne same).symm.trans found
    obtain ⟨w', held, built⟩ := now.safe.kept handle pt' (kept ▸ older)
    exact ⟨w', wallet.trans held, built⟩

/-- What is kept no more is no longer cared for. -/
theorem safe_dropped {handle : String} (safe : g.Safe) {m : Mem} (wallet : m.wallet = g.held)
    (kept : m.pendingTx = g.kept)
    : Safe { g with held := (dropped handle m).wallet, kept := (dropped handle m).pendingTx } := by
  refine ⟨fun w' held => safe.held w' (wallet ▸ held), fun handle' pt' found => ?_⟩
  have other : handle' ≠ handle := by
    rintro rfl
    cases (AList.lookup_erase _ _).symm.trans found
  have older := (AList.lookup_erase_ne other).symm.trans found
  obtain ⟨w', held, built⟩ := safe.kept handle' pt' (kept ▸ older)
  exact ⟨w', wallet.trans held, built⟩

theorem suits_dropped {handle : String} : Suits (Spending w pt) (.update (dropped handle)) := by
  intro g now
  refine ⟨⟨now.safe, fun _ none => by cases none⟩, fun m g' step => ?_⟩
  obtain ⟨wallet, kept, rfl⟩ := step
  exact ⟨⟨⟨safe_dropped now.safe wallet kept, wallet.trans now.held⟩, now.hold⟩, now.built⟩

theorem keepTx_stays {dst : String}
    : (keepTx dst (some pt)).Stays (Suits (Spending w pt)) := by
  have look {c : Lib} (on : c.on = some (.tx pt)) (keeps : c.keepsObjects = true)
      : (Worker.lib c).Stays (Suits (Spending w pt)) :=
    stays_spend (.inl on) keeps
  refine .bind (look rfl rfl) fun _ => .ite (.bind (look rfl rfl) fun _ => .value) ?_
  refine .bind (.update suits_registered) fun _ => .bind (look rfl rfl) fun _ =>
    .bind (look rfl rfl) fun _ => .bind (look rfl rfl) fun _ => ?_
  exact .bind (look rfl rfl) fun _ => .bind (look rfl rfl) fun _ => .value

/-- The call that builds: what it returns is of the wallet. -/
theorem heeds_build {next : Option PendingTx → Worker Json}
    {dst paymentId inputs separator : String} {amount : UInt64} {mixin account : UInt32}
    {priority : Int32} (now : Using w .unique g)
    (rest : ∀ pt? g', Using w .unique g' → (∀ pt ∈ pt?, Spending w pt g') →
      (next pt?).Heeds act guard (fun _ => Using w .unique) (fun _ => Using w .unique) g')
    : Program.Heeds act guard
        ((Worker.lib
          (.createTransaction w dst paymentId amount mixin priority account inputs separator)).bind
            next)
        (fun _ => Using w .unique) (fun _ => Using w .unique) g := by
  have alive := now.safe.held w now.held
  refine ⟨⟨now.safe, fun c same o on => ?_⟩, fun answer g' step => ?_⟩
  · cases same
    cases on
    exact ⟨w, alive, fun _ => now.hold ▸ covers_unique⟩
  · obtain ⟨m, rfl⟩ := step
    cases answer with
    | error error => exact now
    | ok pt? =>
        cases pt? with
        | none => exact rest none _ now fun _ none => by cases none
        | some pt =>
            have safe : Safe { g with objects := g.objects.built w pt } := by
              refine ⟨fun w' held => now.safe.held w' held, fun handle pt' found => ?_⟩
              obtain ⟨w', held, built⟩ := now.safe.kept handle pt' found
              cases now.held.symm.trans held
              exact ⟨w, held, Objects.owner_built alive built⟩
            refine rest (some pt) _ ⟨⟨safe, now.held⟩, now.hold⟩ fun pt' same => ?_
            cases same
            exact ⟨⟨⟨safe, now.held⟩, now.hold⟩, Objects.owner_built_self alive⟩

theorem buildTx_heeds {p : Json} (now : Using w .unique g)
    : (buildTx w p).Heeds act guard (fun _ => Using w .unique) (fun _ => Using w .unique) g := by
  have also {α β : Type} {p : Worker α} {next : α → Worker β} {g : Custody}
      (stays : p.Stays (Suits (Using w .unique))) (now : Using w .unique g)
      (rest : ∀ value g', Using w .unique g' →
        (next value).Heeds act guard (fun _ => Using w .unique) (fun _ => Using w .unique) g')
      : Program.Heeds act guard (p.bind next) (fun _ => Using w .unique)
          (fun _ => Using w .unique) g :=
    heeds_bind.mpr ((heeds_of_stays stays now).mono (fun value g' now => rest value g' now)
      fun _ _ => id)
  refine also (stays_use rfl rfl) now fun watchOnly g now => ?_
  split
  · exact now
  · refine also .orThrow now fun text g now => ?_
    split
    · exact now
    · refine also .orThrow now fun dst g now => also stays_read now fun m g now => ?_
      split
      · exact now
      · refine also .orThrow now fun _ g now => also .orThrow now fun _ g now =>
          also .orThrow now fun _ g now => heeds_build now fun pt? g now spends => ?_
        cases pt? with
        | none => exact now
        | some pt =>
            exact (heeds_of_stays keepTx_stays (spends pt rfl)).mono (fun _ _ now => now.toUsing)
              fun _ _ now => now.toUsing

theorem relayTx_stays {handle : String} : (relayTx w handle pt).Stays (Suits (Spending w pt)) := by
  refine .bind (stays_spend (.inl rfl) rfl) fun _ => .bind (stays_spend (.inl rfl) rfl) fun ok =>
    .ite ?_ (.bind (stays_spend (.inl rfl) rfl) fun _ => .value)
  exact .bind (.update suits_dropped) fun _ => .bind (stays_spend (.inr rfl) rfl) fun _ => .value

/-- A commit is of a transaction that was kept. -/
theorem commitTx_heeds {p : Json} (now : Using w .unique g)
    : Program.Heeds act guard
        (do
          let handle ← Worker.orThrow (p.valueString "txHandle" "")
          let m ← Worker.read
          match m.pendingTx.lookup handle with
          | none => Pure.pure (err "unknown txHandle")
          | some pt => relayTx w handle pt)
        (fun _ => Using w .unique) (fun _ => Using w .unique) g := by
  refine heeds_bind.mpr ((heeds_of_stays .orThrow now).mono (fun handle g now => ?_) fun _ _ => id)
  refine heeds_read now.safe fun m _ kept => ?_
  cases found : m.pendingTx.lookup handle with
  | none => exact now
  | some pt =>
      obtain ⟨w', held, built⟩ := now.safe.kept handle pt (kept ▸ found)
      cases now.held.symm.trans held
      exact (heeds_of_stays relayTx_stays ⟨now, built⟩).mono (fun _ _ now => now.toUsing)
        fun _ _ now => now.toUsing

theorem sending_heeds {body : Wallet → Worker Json} (safe : g.Safe)
    (each : ∀ w g', Using w .unique g' →
      (body w).Heeds act guard (fun _ => Using w .unique) (fun _ => Using w .unique) g')
    : (sending body).Heeds act guard (fun _ => Safe) (fun _ => Safe) g := by
  refine heeds_onWallet safe fun w g' now => ?_
  refine heeds_then (.bind stays_read fun _ => .value) now fun waits g' now => ?_
  split
  · exact now.safe
  · exact heeds_refreshPaused (each w) now

theorem doDispose_heeds {p : Json} (safe : g.Safe)
    : (doDispose p).Heeds act guard (fun _ => Safe) (fun _ => Safe) g := by
  refine heeds_locked safe (fun _ _ => id) (fun _ _ hold now => safe_of_hold now hold) ?_
  refine heeds_then .orThrow (safe_of_hold safe _) fun handle g safe => ?_
  refine heeds_read safe fun m _ _ => ?_
  cases m.pendingTx.lookup handle with
  | none => exact safe
  | some pt =>
      have drops : Suits Safe (.update (dropped handle)) := by
        intro g safe
        refine ⟨⟨safe, fun _ none => by cases none⟩, fun m g' step => ?_⟩
        obtain ⟨wallet, kept, rfl⟩ := step
        exact safe_dropped safe wallet kept
      exact heeds_of_stays (.bind (.update drops) fun _ => .value) safe

/-! ### A wallet on its way -/

/-- How a stage of an open is left. -/
def Ends (Q : α → Custody → Prop) (ended : Stage α) (g : Custody) : Prop :=
  match ended with
  | .leave _ => g.Safe
  | .go value => Q value g

/-- A stage of an open, and the stages after it. -/
theorem heeds_andThen {stage : Worker (Stage α)} {next : α → Worker Json}
    {Q : α → Custody → Prop} (first : stage.Heeds act guard (Ends Q) (fun _ => Safe) g)
    (rest : ∀ value g', Q value g' →
      (next value).Heeds act guard (fun _ => Safe) (fun _ => Safe) g')
    : (andThen stage next).Heeds act guard (fun _ => Safe) (fun _ => Safe) g := by
  refine heeds_bind.mpr (first.mono (fun ended g' now => ?_) fun _ _ => id)
  cases ended with
  | leave out => exact now
  | go value => exact rest value g' now

/-- An open that is given up. -/
theorem heeds_refuse {Q : α → Custody → Prop} {label msg : String} (now : Bringing w? g)
    : (refuseOpen label msg : Worker (Stage α)).Heeds act guard (Ends Q) (fun _ => Safe) g :=
  heeds_then stays_setState now fun _ _ now => now.safe

theorem Bringing.made (now : Bringing none g)
    : Bringing (some w) { g with objects := g.objects.made w } := by
  refine ⟨⟨fun w' held => ?_, fun handle pt found => ?_⟩, now.held, fun w' same => ?_⟩
  · cases now.held.symm.trans held
  · cases (now.safe.kept_none now.held).symm.trans found
  · cases same
    exact Objects.owner_made_self

/-- The library lets go of a wallet that is not in place. -/
theorem Bringing.closed (now : Bringing (some w) g)
    : Bringing none { g with objects := g.objects.closed w } := by
  refine ⟨⟨fun w' held => ?_, fun handle pt found => ?_⟩, now.held, fun _ none => by cases none⟩
  · cases now.held.symm.trans held
  · cases (now.safe.kept_none now.held).symm.trans found

/-- A call of the manager that may make a wallet. -/
theorem heeds_make {c : Lib} {made : c.Ret → Option Wallet} (manager : c.on = none)
    (fails : ∀ error m, g.objects.after (.asked (.lib c) (.error error) m) = g.objects)
    (makes : ∀ ret m, g.objects.after (.asked (.lib c) (.ok ret) m)
      = (made ret).elim g.objects g.objects.made)
    (now : Bringing none g)
    : (Worker.lib c).Heeds act guard (fun ret => Bringing (made ret)) (fun _ => Safe) g := by
  refine ⟨⟨now.safe, fun c' same o on => ?_⟩, fun answer g' step => ?_⟩
  · cases same
    cases manager.symm.trans on
  · obtain ⟨m, rfl⟩ := step
    cases answer with
    | error error =>
        rw [fails]
        exact now.safe
    | ok ret =>
        rw [makes]
        change Bringing (made ret) _
        cases made ret with
        | none => exact now
        | some w => exact now.made

theorem makeWallet_heeds {kind : String} {p : Json} {password path : String} {nettype : Int}
    (now : Bringing none g)
    : (makeWallet kind p password path nettype).Heeds act guard Bringing (fun _ => Safe) g := by
  unfold makeWallet
  split
  · exact heeds_make (by rfl) (fun _ _ => by rfl) (fun ret _ => by cases ret <;> rfl) now
  · split
    · refine heeds_then .orThrow now fun _ g now => ?_
      exact heeds_make (by rfl) (fun _ _ => by rfl) (fun ret _ => by cases ret <;> rfl) now
    · split
      · refine heeds_then .orThrow now fun _ g now => heeds_then .orThrow now fun _ g now =>
          heeds_then .orThrow now fun _ g now => ?_
        exact heeds_make (by rfl) (fun _ _ => by rfl) (fun ret _ => by cases ret <;> rfl) now
      · refine heeds_then .orThrow now fun _ g now => heeds_then .orThrow now fun _ g now =>
          heeds_then .orThrow now fun _ g now => heeds_then .orThrow now fun _ g now => ?_
        exact heeds_make (by rfl) (fun _ _ => by rfl) (fun ret _ => by cases ret <;> rfl) now

theorem obtainWallet_heeds {kind : String} {p : Json} {o : OpenParams} {path : String}
    {nettype : Int} (now : Bringing none g)
    : (obtainWallet kind p o path nettype).Heeds act guard (Ends Bringing) (fun _ => Safe) g := by
  refine heeds_then (stays_manager rfl rfl) now fun found g now => ?_
  split
  · exact heeds_refuse now
  · split
    · exact heeds_refuse now
    · exact heeds_bind.mpr ((makeWallet_heeds now).mono (fun _ _ => id) fun _ _ => id)

/-- A wallet that is not in place is let go. -/
theorem heeds_close {store : Bool} {next : Bool → Worker α} {normal : α → Custody → Prop}
    (now : Bringing (some w) g)
    (rest : ∀ ok g', Bringing none g' → (next ok).Heeds act guard normal (fun _ => Safe) g')
    : Program.Heeds act guard ((Worker.lib (.closeWallet w store)).bind next) normal
        (fun _ => Safe) g := by
  refine ⟨⟨now.safe, fun c same o on => ?_⟩, fun answer g' step => ?_⟩
  · cases same
    cases on
    refine ⟨w, now.lives w rfl, fun place => ?_⟩
    cases now.held.symm.trans place
  · obtain ⟨m, rfl⟩ := step
    cases answer with
    | error error => exact now.closed.safe
    | ok ok => exact rest ok _ now.closed

theorem checkWallet_heeds {network : String} {nettype : Int} (now : Bringing w? g)
    : (checkWallet network nettype w?).Heeds act guard (Ends fun w => Bringing (some w))
        (fun _ => Safe) g := by
  cases w? with
  | none => exact heeds_then (stays_manager rfl rfl) now fun _ g now => heeds_refuse now
  | some w =>
      refine heeds_then (stays_bring rfl rfl) now fun status g now => ?_
      split
      · refine heeds_then (stays_bring rfl rfl) now fun e g now => ?_
        exact heeds_close now fun _ g now => heeds_refuse now
      · refine heeds_then (stays_bring rfl rfl) now fun loaded g now => ?_
        split
        · exact heeds_close now fun _ g now => heeds_refuse now
        · exact now

theorem initWallet_heeds {kind network : String} {plan : Plan} (now : Bringing (some w) g)
    : (initWallet kind network plan w).Heeds act guard (Ends fun _ => Bringing (some w))
        (fun _ => Safe) g := by
  refine heeds_then (.when (stays_bring rfl rfl)) now fun _ g now => ?_
  refine heeds_then (stays_bring rfl rfl) now fun ok g now => ?_
  split
  · exact now
  · refine heeds_then (stays_bring rfl rfl) now fun e g now => ?_
    exact heeds_close now fun _ g now => heeds_refuse now

theorem connectDaemon_heeds {plan : Plan} (now : Bringing (some w) g)
    : (connectDaemon plan w).Heeds act guard (Ends fun _ => Bringing (some w)) (fun _ => Safe) g := by
  have awaits (looks : Nat) : (awaitConnected w looks).Stays (Suits (Bringing (some w))) := by
    induction looks with
    | zero => exact .value
    | succ looks ih =>
        refine .bind (stays_bring rfl rfl) fun _ => .ite .value (.bind ?_ fun _ => ih)
        exact ⟨suits_outside rfl rfl, fun _ => trivial⟩
  unfold connectDaemon
  split
  · refine heeds_then (awaits 20) now fun connected g now => ?_
    split
    · exact heeds_close now fun _ g now => heeds_refuse now
    · exact now
  · exact now

/-- The wallet that was on its way is put in place. -/
theorem publishWallet_heeds {o : OpenParams} {plan : Plan} {path addr : String}
    (now : Bringing (some w) g)
    : (publishWallet o plan path addr w).Heeds act guard (fun _ => Safe) (fun _ => Safe) g := by
  have places : (Worker.locked .unique (Worker.update (withWallet w))).Heeds act guard
      (fun _ => Having w) (fun _ => Safe) g := by
    refine heeds_locked now.safe (fun _ _ now => now.safe)
      (fun _ _ hold now => ⟨safe_of_hold now.safe hold, now.held⟩) ?_
    refine ⟨⟨safe_of_hold now.safe _, fun _ none => by cases none⟩, fun m g' step => ?_⟩
    obtain ⟨wallet, kept, rfl⟩ := step
    refine ⟨⟨fun w' held => ?_, fun handle pt found => ?_⟩, rfl⟩
    · cases held
      exact now.lives w rfl
    · cases (now.safe.kept_none now.held).symm.trans (kept ▸ found)
  refine heeds_bind.mpr (places.mono (fun _ g now => ?_) fun _ _ => id)
  refine heeds_then stays_now now fun at_ g now => ?_
  refine heeds_then (.update (suits_update fun _ => ⟨rfl, rfl⟩)) now fun _ g now => ?_
  refine heeds_then stays_notifyOpen now fun _ g now => ?_
  refine heeds_then stays_restrictFiles now fun _ g now => ?_
  refine heeds_then stays_setState now fun _ g now => ?_
  have looks : (Worker.lib (.watchOnly w)).Stays (Suits (Having w)) := by
    refine .call (suits_ask rfl fun g now c same o on => ?_)
    cases same
    cases on
    exact ⟨w, now.safe.held w now.held, fun _ => trivial⟩
  exact heeds_then looks now fun _ g now => now.safe

theorem attachWallet_heeds {o : OpenParams} {plan : Plan} {path : String}
    (now : Bringing (some w) g)
    : (attachWallet o plan path w).Heeds act guard (fun _ => Safe) (fun _ => Safe) g := by
  refine heeds_then (.when (stays_bring rfl rfl)) now fun _ g now => ?_
  have trusts : (trustDaemon plan w).Stays (Suits (Bringing (some w))) :=
    .ite (.bind .orThrow fun _ => stays_bring rfl rfl) (.bind .value fun _ => stays_bring rfl rfl)
  refine heeds_then trusts now fun _ g now => ?_
  refine heeds_andThen (connectDaemon_heeds now) fun _ g now => ?_
  refine heeds_then ?_ now fun addr g now => publishWallet_heeds now
  exact .bind (stays_bring rfl rfl) fun _ =>
    .bind (.when (.bind (stays_bring rfl rfl) fun _ => stays_bring rfl rfl)) fun _ =>
      stays_bring rfl rfl

theorem openWith_heeds {kind : String} {p : Json} {o : OpenParams} {plan : Plan} (safe : g.Safe)
    : (openWith kind p o plan).Heeds act guard (fun _ => Safe) (fun _ => Safe) g := by
  have looks : (Worker.locked .unique do
      let m ← Worker.read
      Pure.pure m.wallet.isSome).Heeds act guard
        (fun isOpen g => g.Safe ∧ (isOpen = false → g.held = none)) (fun _ => Safe) g := by
    refine heeds_locked safe (fun _ _ now => now.1)
      (fun _ _ hold now => ⟨safe_of_hold now.1 hold, now.2⟩) ?_
    refine heeds_read (safe_of_hold safe _) fun m wallet _ => ⟨safe_of_hold safe _, fun closed => ?_⟩
    exact wallet.symm.trans (Option.isSome_eq_false_iff.mp closed |> Option.isNone_iff_eq_none.mp)
  refine heeds_bind.mpr (looks.mono (fun isOpen g now => ?_) fun _ _ => id)
  cases isOpen with
  | true => exact now.1
  | false =>
      have now : Bringing none g := ⟨now.1, now.2 rfl, fun _ none => by cases none⟩
      refine heeds_then stays_setState now fun _ g now => heeds_then stays_read now fun m g now => ?_
      refine heeds_then (stays_manager rfl rfl) now fun _ g now => ?_
      refine heeds_andThen (obtainWallet_heeds now) fun w? g now => ?_
      refine heeds_andThen (checkWallet_heeds now) fun w g now => ?_
      exact heeds_andThen (initWallet_heeds now) fun _ g now => attachWallet_heeds now

theorem doOpenLike_heeds {kind : String} {p : Json} (safe : g.Safe)
    : (doOpenLike kind p).Heeds act guard (fun _ => Safe) (fun _ => Safe) g := by
  refine heeds_then .orThrow safe fun o g safe => ?_
  split
  · exact safe
  · split
    · exact safe
    · refine heeds_then stays_resolve safe fun node g safe => ?_
      refine heeds_then .orThrow safe fun policy g safe => ?_
      cases policy with
      | leave out => exact safe
      | go plan => exact openWith_heeds safe

/-! ### Closing, and a whole turn -/

/-- The handle is taken out of the module, and the transactions with it. -/
theorem takeWallet_heeds (safe : g.Safe)
    : takeWallet.Heeds act guard Bringing (fun _ => Safe) g := by
  refine heeds_locked safe (fun _ _ now => now.safe)
    (fun _ _ hold now => ⟨safe_of_hold now.safe hold, now.held, now.lives⟩) ?_
  have safe := safe_of_hold safe (some .unique)
  refine heeds_read safe fun m wallet _ => ?_
  cases found : m.wallet with
  | none => exact ⟨safe, wallet.symm.trans found, fun _ none => by cases none⟩
  | some w =>
      have now : Having w { g with hold := some .unique } := ⟨safe, wallet.symm.trans found⟩
      refine heeds_then stays_setState now fun _ g now => ?_
      refine ⟨⟨now.safe, fun _ none => by cases none⟩, fun m g' step => ?_⟩
      obtain ⟨wallet, kept, rfl⟩ := step
      have empty : Safe { g with held := none, kept := ∅ } := by
        refine ⟨fun _ none => (by cases none), fun handle pt found => ?_⟩
        cases (AList.lookup_empty handle).symm.trans found
      refine ⟨empty, rfl, fun w' same => ?_⟩
      cases same
      exact now.safe.held w now.held

theorem doClose_heeds (safe : g.Safe)
    : doClose.Heeds act guard (fun _ => Safe) (fun _ => Safe) g := by
  refine heeds_bind.mpr ((takeWallet_heeds safe).mono (fun held g now => ?_) fun _ _ => id)
  cases held with
  | none => exact now.safe
  | some w =>
      refine heeds_then (stays_bring rfl rfl) now fun _ g now => heeds_close now fun ok g now => ?_
      refine heeds_then (.update (suits_update fun _ => ⟨rfl, rfl⟩)) now fun m g now => ?_
      refine heeds_then stays_notifyOpen now fun _ g now => ?_
      exact heeds_then stays_setState now fun _ g now => now.safe

theorem dispatch_heeds {job : Job} (safe : g.Safe)
    : (dispatch job).Heeds act guard (fun _ => Safe) (fun _ => Safe) g := by
  unfold dispatch
  split
  · exact doOpenLike_heeds safe
  split
  · exact doClose_heeds safe
  split
  · exact doRescan_heeds safe
  split
  · exact sending_heeds safe fun _ _ now => buildTx_heeds now
  split
  · exact sending_heeds safe fun _ _ now => commitTx_heeds now
  split
  · exact doDispose_heeds safe
  split
  · exact doChangePassword_heeds safe
  · exact safe

/-- A whole turn keeps what is in the worker's care, and calls on nothing else. -/
theorem turn_heeds (safe : g.Safe)
    : turn.Heeds act guard (fun _ => Safe) (fun _ => Safe) g := by
  refine ⟨⟨safe, fun _ none => by cases none⟩, fun front g' step => ?_⟩
  cases step
  refine heeds_tryCatch.mpr (Heeds.mono ?_ (fun _ _ => id) fun _ _ safe => safe)
  cases front with
  | none => exact tick_heeds safe
  | some front =>
      refine heeds_then stays_resetLocksOnce safe fun _ g safe => ?_
      have ran : ((dispatch front.2).tryCatch fun e => Pure.pure (caught e)).Heeds act guard
          (fun _ => Safe) (fun _ => Safe) g :=
        heeds_tryCatch.mpr ((dispatch_heeds safe).mono (fun _ _ => id) fun _ _ safe => safe)
      refine heeds_bind.mpr (ran.mono (fun out g safe => ?_) fun _ _ => id)
      refine ⟨⟨safe, fun _ none => by cases none⟩, fun state g' step => ?_⟩
      cases step
      have tells (state : JobState) (g : Custody) (safe : g.Safe)
          : ((Worker.emit "jobFinished"
              (.obj [("jobId", .str front.2.id), ("state", .str state.name)])).tryCatch
                fun _ => Pure.pure ()).Heeds act guard (fun _ => Safe) (fun _ => Safe) g :=
        heeds_of_stays (.guarded stays_emit fun _ => .value) safe
      cases state with
      | error error => exact safe
      | ok state => exact tells state g safe

end Custody

end MoneroWalletCore.Runtime
