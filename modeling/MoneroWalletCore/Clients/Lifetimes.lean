import MoneroWalletCore.Clients.Custody
import MoneroWalletCore.Clients.Probing

/-! Who may be in the library at once, and on what. A client or the probe only calls on the wallet
in place, which it keeps there by its hold on the handle; the worker only on what it cares for. So
nothing is called on once it is gone, and a call that is to be alone is.
-/

namespace MoneroWalletCore.Runtime

open Program

variable {Λ : Type} {α β : Type}

/-! ### Calls of the clients and the probe -/

/-- The object that a call is made on. A history, and a row of it, is the wallet's. -/
def Query.on : Query → Option LibObject
  | .lib c => c.on
  | .daemonBlockChainHeight w | .balance w _ | .unlockedBalance w _ | .numSubaddresses w _
  | .getSubaddressLabel w .. | .addSubaddress w .. | .setSubaddressLabel w .. | .seed w _
  | .secretViewKey w | .history w => some (.wallet w)
  | .historyRefresh h | .historyCount h | .historyTransaction h _ => some (.wallet h.wallet)
  | .info t _ => some (.wallet t.history.wallet)

/-- How the handle is to be held in it: alone where the wallet is changed. -/
def Query.access : Query → LockMode
  | .addSubaddress .. | .setSubaddressLabel .. | .lib (.store ..) => .unique
  | _ => .shared

/-- A wallet gives its own history, and a history rows of its own. -/
def Query.Owns : (c : Query) → Except Exn c.Ret → Prop
  | .history w, .ok h? => ∀ h ∈ h?, TxHistory.wallet h = w
  | .historyTransaction h _, .ok t? => ∀ t ∈ t?, TxInfo.history t = h
  | _, _ => True

/-- A library whose histories and rows are as they are documented. -/
def Library.Owning (library : Library Λ) : Prop :=
  ∀ l i c result l', library l i c result l' → Query.Owns c result

/-! ### Holding the handle -/

/-- How a thread holds the handle. -/
def LockMode.held? (l : RwLock Actor) (i : Actor) : Option LockMode :=
  if l.writer = some i then some .unique
  else if i ∈ l.readers then some .shared
  else none

namespace LockMode

variable {l l' : RwLock Actor} {i j : Actor} {mode : LockMode}

theorem held_take (taken : mode.take? l i = some l') : held? l' i = some mode := by
  unfold held?
  cases mode with
  | shared =>
      obtain ⟨_, writer, readers⟩ := RwLock.tryLockShared_eq_some.mp taken
      rw [writer, readers, if_neg (by simp), if_pos (Finset.mem_insert_self ..)]
  | unique =>
      obtain ⟨_, _, writer, _⟩ := RwLock.tryLock_eq_some.mp taken
      rw [writer, if_pos rfl]

theorem held_same (same : l.SameFor i l') : held? l' i = held? l i := by
  unfold held?
  simp only [same.writer, same.readers]

theorem holds_of_held (held : held? l i = some mode) : l.Holds i := by
  unfold held? at held
  split at held
  next writes => exact .inl writes
  next =>
    split at held
    next reads => exact .inr reads
    next => cases held

theorem writes_of_held (held : held? l i = some .unique) : l.writer = some i := by
  unfold held? at held
  split at held
  next writes => exact writes
  next => split at held <;> cases held

/-- Who holds the handle alone holds it alone. -/
theorem held_exclusive (alone : held? l i = some .unique) (held : held? l j = some mode) : j = i :=
  (holds_of_held held).eq_writer (writes_of_held alone)

end LockMode

/-- What a client or the probe knows of its hold on the handle: how it holds it, and which wallet
is in place. -/
abbrev Lease := Option (LockMode × Option Wallet)

namespace Lease

def act : Semantics ReadOp ReadOp.Ans Lease := fun g op answer g' =>
  match op, answer with
  | .lock mode, _ => ∃ w?, g' = some (mode, w?)
  | .tryLock, got => if got then ∃ w?, g' = some (.shared, w?) else g' = g
  | .unlock _, _ => True
  | .handle, found => g' = g ∧ ∀ lease ∈ g, found = lease.2
  | .query c, result => g' = g ∧ c.Owns result
  | _, _ => g' = g

/-- A call on an object is on the wallet in place, and the handle is held as it needs. -/
def Allows (mode : LockMode) (w? : Option Wallet) (c : Query) : Prop :=
  ∀ o ∈ c.on, (∃ w ∈ w?, o = .wallet w) ∧ Covers (some mode) (some c.access)

def guard (g : Lease) : ReadOp → Prop
  | .query c => ∃ mode w?, g = some (mode, w?) ∧ Allows mode w? c
  | _ => True

end Lease

namespace Reader

/-- An action on the wallet in place, inside the scope that keeps it there. -/
def Fits (mode : LockMode) (w : Wallet) : ReadOp → Prop
  | .query c => Lease.Allows mode (some w) c
  | .members | .socketsTo .. | .record .. => True
  | _ => False

/-- A body inside the scope. -/
def On (mode : LockMode) (w : Wallet) (p : Reader α) : Prop :=
  p.Heeds Lease.act Lease.guard (fun _ g => g = some (mode, some w))
    (fun _ g => g = some (mode, some w)) (some (mode, some w))

/-- A body that may begin anywhere. -/
def Leased (p : Reader α) : Prop :=
  ∀ g, p.Heeds Lease.act Lease.guard (fun _ _ => True) (fun _ _ => True) g

variable {mode : LockMode} {w : Wallet}

theorem Calls.on {p : Reader α} (calls : p.Calls (Fits mode w)) : p.On mode w := by
  have each (g : Lease) (op : ReadOp) (fits : Fits mode w op) (now : g = some (mode, some w))
      : Lease.guard g op := by
    cases op with
    | query c => exact ⟨mode, some w, now, fits⟩
    | _ => trivial
  have step (g : Lease) (op : ReadOp) (answer : op.Ans) (g' : Lease) (fits : Fits mode w op)
      (step : Lease.act g op answer g') (now : g = some (mode, some w))
      : g' = some (mode, some w) := by
    cases op with
    | query c => exact step.1.trans now
    | members => exact Eq.trans step now
    | socketsTo hostport drop => exact Eq.trans step now
    | record w connected height => exact Eq.trans step now
    | _ => exact fits.elim
  exact (Within.heeds calls each step rfl).mono (fun _ _ both => both.2) fun _ _ both => both.2

theorem On.bind {p : Reader α} {next : α → Reader β} (first : p.On mode w)
    (rest : ∀ value, (next value).On mode w)
    : Reader.On mode w (p.bind next) := by
  refine heeds_bind.mpr (first.mono (fun value g now => ?_) fun _ _ => id)
  rw [now]
  exact rest value

/-- What is returned is the wallet's. -/
theorem On.query {c : Query} {next : c.Ret → Reader α} (fits : Fits mode w (.query c))
    (rest : ∀ ret, c.Owns (.ok ret) → (next ret).On mode w)
    : Reader.On mode w ((Reader.query c).bind next) := by
  refine ⟨⟨mode, some w, rfl, fits⟩, fun result g same => ?_⟩
  obtain ⟨rfl, owns⟩ := same
  cases result with
  | error error => rfl
  | ok ret => exact rest ret owns

theorem On.collect {body : Nat → Reader (Option Json)} (each : ∀ i, (body i).On mode w)
    (left index : Nat)
    : (collect body left index).On mode w := by
  induction left generalizing index with
  | zero => rfl
  | succ left ih => exact (each index).bind fun item => (ih (index + 1)).bind fun rest => rfl

/-- A scope is left by giving the lock back. -/
theorem On.ensure {given : LockMode} {p : Reader α} (on : p.On mode w)
    : (p.ensure (unlock given)).Heeds Lease.act Lease.guard (fun _ _ => True) (fun _ _ => True)
        (some (mode, some w)) :=
  heeds_ensure.mpr (on.mono (fun _ _ _ => ⟨trivial, fun _ _ _ => trivial⟩)
    fun _ _ _ => ⟨trivial, fun _ _ _ => trivial⟩)

/-- The look at the handle that a scope begins with. -/
theorem leased_handle {w? : Option Wallet} {given : LockMode} {none_ : α}
    {body : Wallet → Reader α} (on : ∀ w, (body w).On mode w)
    : ((do
        let w? ← Reader.handle
        match w? with
        | none => Pure.pure none_
        | some w => body w : Reader α).ensure (unlock given)).Heeds Lease.act Lease.guard
          (fun _ _ => True) (fun _ _ => True) (some (mode, w?)) := by
  refine ⟨trivial, fun found g same => ?_⟩
  obtain ⟨rfl, known⟩ := same
  obtain rfl : found = w? := known _ rfl
  cases found with
  | none => exact ⟨trivial, fun _ _ _ => trivial⟩
  | some w => exact (on w).ensure

theorem leased_locked {none_ : α} {body : Wallet → Reader α} (on : ∀ w, (body w).On mode w)
    : Leased (locked mode do
        let w? ← Reader.handle
        match w? with
        | none => Pure.pure none_
        | some w => body w) := by
  refine fun g => ⟨trivial, fun _ g' taken => ?_⟩
  obtain ⟨w?, rfl⟩ := taken
  exact leased_handle on

theorem leased_inTime {late none_ : α} {body : Wallet → Reader α}
    (on : ∀ w, (body w).On .shared w)
    : Leased (lockedInTime late do
        let w? ← Reader.handle
        match w? with
        | none => Pure.pure none_
        | some w => body w) := by
  refine fun g => ⟨trivial, fun got g' taken => ?_⟩
  cases got with
  | false => trivial
  | true =>
      obtain ⟨w?, rfl⟩ := taken
      exact leased_handle on

/-- A call on the wallet in place. -/
theorem fits_query {c : Query} (on : ∀ o ∈ c.on, o = .wallet w)
    (covers : Covers (some mode) (some c.access))
    : Fits mode w (.query c) :=
  fun o here => ⟨⟨w, rfl, on o here⟩, covers⟩

/-- A call that only reads. -/
theorem fits_shared {c : Query} (on : ∀ o ∈ c.on, o = .wallet w) (reads : c.access = .shared)
    : Fits mode w (.query c) :=
  fits_query on (reads ▸ Option.some_ne_none mode)

theorem fits_unique {c : Query} (on : ∀ o ∈ c.on, o = .wallet w)
    : Fits .unique w (.query c) :=
  fits_query on covers_unique

end Reader

open Reader

/-! ### Direct calls -/

section Walks

variable {w : Wallet} {mode : LockMode}

/-- A call that names the wallet. -/
private theorem here {c : Query} (names : c.on = some (.wallet w)) (o : LibObject) (on : o ∈ c.on)
    : o = .wallet w :=
  Option.some.inj (on.symm.trans names)

theorem reads_query {c : Query} (names : c.on = some (.wallet w)) (reads : c.access = .shared)
    : (query c).Calls (Fits mode w) :=
  calls_query (fits_shared (here names) reads)

theorem changes_query {c : Query} (names : c.on = some (.wallet w))
    : (query c).Calls (Fits .unique w) :=
  calls_query (fits_unique (here names))

theorem readText_leased {none_ : String} {body : Wallet → Reader String}
    (calls : ∀ w, (body w).Calls (Fits .shared w))
    : (readText none_ body).Leased := by
  refine leased_inTime fun w => Calls.on ?_
  exact (calls w).bind fun _ => trivial

theorem status_leased : status.Leased := by
  refine fun g => ⟨trivial, fun m g' _ => ?_⟩
  refine leased_inTime (fun w => Calls.on ?_) g'
  exact (reads_query rfl rfl).bind fun _ => (reads_query rfl rfl).bind fun _ =>
    (reads_query rfl rfl).bind fun _ => trivial

theorem subaddresses_leased {account : UInt32} : (subaddresses account).Leased := by
  refine leased_inTime fun w => Calls.on ?_
  refine (reads_query rfl rfl).bind fun n => (calls_collect (fun i => ?_) _ _).bind fun _ => trivial
  exact (reads_query rfl rfl).bind fun _ => (reads_query rfl rfl).bind fun _ => trivial

theorem createSubaddress_leased {account : UInt32} {label : String}
    : (createSubaddress account label).Leased := by
  refine leased_locked fun w => Calls.on ?_
  refine (changes_query rfl).bind fun _ => (changes_query rfl).bind fun n => ?_
  split
  · trivial
  · exact (changes_query rfl).bind fun _ => (changes_query rfl).bind fun _ => trivial

theorem setSubaddressLabel_leased {account index : UInt32} {label : String}
    : (setSubaddressLabel account index label).Leased := by
  refine leased_locked fun w => Calls.on ((changes_query rfl).bind fun n => ?_)
  split
  · trivial
  · exact (changes_query rfl).bind fun _ => (changes_query rfl).bind fun _ =>
      (changes_query rfl).bind fun _ => trivial

/-- The history that is read is the wallet's, and so are its rows. -/
theorem history_leased : history.Leased := by
  refine leased_locked fun w => On.query (fits_shared (here rfl) rfl) fun h? owns => ?_
  cases h? with
  | none => exact rfl
  | some h =>
      cases owns h rfl
      refine (reads_query rfl rfl).on.bind fun _ => (reads_query rfl rfl).on.bind fun n => ?_
      refine (On.collect (fun i => ?_) _ _).bind fun _ => rfl
      refine On.query (fits_shared (here rfl) rfl) fun t? owns => ?_
      cases t? with
      | none => exact rfl
      | some t =>
          have mine : t.history = h := owns t rfl
          have row : (historyRow t).Calls (Fits .shared h.wallet) := by
            refine historyRow_calls fun field => fits_shared (fun o on => ?_) rfl
            cases on
            rw [mine]
          exact row.on.bind fun _ => rfl

theorem reveal_leased {password : String} {body : Wallet → Reader Json}
    (calls : ∀ w, (body w).Calls (Fits .shared w))
    : (reveal password body).Leased := by
  refine leased_locked fun w => Calls.on ?_
  have checks : (checkPassword password).Calls (Fits .shared w) := by
    refine ⟨trivial, fun m => calls_query (fits_shared (fun o on => ?_) rfl)⟩
    cases on
  refine checks.bind fun right => ?_
  split
  · trivial
  · exact calls w

theorem Request.leased (request : Request) : request.body.Leased := by
  cases request with
  | status => exact status_leased
  | balance account =>
      exact readText_leased fun _ => (reads_query rfl rfl).bind fun _ => trivial
  | unlockedBalance account =>
      exact readText_leased fun _ => (reads_query rfl rfl).bind fun _ => trivial
  | address account index => exact readText_leased fun _ => reads_query rfl rfl
  | subaddresses account => exact subaddresses_leased
  | createSubaddress account label => exact createSubaddress_leased
  | setSubaddressLabel account index label => exact setSubaddressLabel_leased
  | history => exact history_leased
  | revealSeed password =>
      refine reveal_leased fun w => (reads_query rfl rfl).bind fun seed => ?_
      split <;> trivial
  | revealViewKey password =>
      exact reveal_leased fun w => (reads_query rfl rfl).bind fun _ =>
        (reads_query rfl rfl).bind fun _ => trivial

theorem probeRound_leased : probeRound.Leased := by
  intro g
  have sockets (w : Wallet) (peer : String) : (probeSockets peer).Calls (Fits .shared w) := by
    unfold probeSockets
    split
    · trivial
    · exact ⟨trivial, fun _ => trivial⟩
  have height (w : Wallet) (connected : Bool) : (probeHeight w connected).Calls (Fits .shared w) := by
    cases connected with
    | false => trivial
    | true =>
        refine (reads_query rfl rfl).bind fun synced => ?_
        split
        · exact reads_query rfl rfl
        · trivial
  refine heeds_tryCatch.mpr ((leased_inTime (fun w => Calls.on ?_) g).mono (fun _ _ => id) fun _ _ =>
    id)
  refine ⟨trivial, fun m => (sockets w m.dialPeer).bind fun connected => ?_⟩
  exact (height w connected).bind fun _ => ⟨trivial, fun _ => trivial⟩

end Walks

/-! ### The threads together -/

namespace Shared

variable {i j : Actor} {s s' : Shared Λ} {rule : Surroundings} {library : Library Λ}

/-- What the worker has in its care. -/
def custody (s : Shared Λ) : Custody :=
  {
    held := s.world.mem.wallet
    kept := s.world.mem.pendingTx
    objects := objects s.world.history
    hold := LockMode.held? s.lock .worker
  }

def lease (i : Actor) (s : Shared Λ) : Lease :=
  (LockMode.held? s.lock i).map fun mode => (mode, s.world.mem.wallet)

theorem lease_of_held {mode : LockMode} (held : LockMode.held? s.lock i = some mode)
    : s.lease i = some (mode, s.world.mem.wallet) := by
  rw [lease, held, Option.map_some]

theorem custody_same (world : s'.world.mem.wallet = s.world.mem.wallet
      ∧ s'.world.mem.pendingTx = s.world.mem.pendingTx ∧ s'.world.history = s.world.history)
    (lock : s.lock.SameFor .worker s'.lock)
    : s'.custody = s.custody := by
  unfold custody
  rw [world.1, world.2.1, world.2.2, LockMode.held_same lock]

theorem Spares.lease (spares : Spares i s s') : s'.lease i = s.lease i := by
  unfold Shared.lease
  rw [LockMode.held_same spares.lock]
  cases held : LockMode.held? s.lock i with
  | none => rfl
  | some mode => rw [Option.map_some, Option.map_some, spares.wallet (LockMode.holds_of_held held)]

theorem work_custody {op : Op} {answer : op.Ans} (acts : s.work rule op answer s')
    : Custody.act s.custody op answer s'.custody := by
  obtain ⟨world, lock, acted, locked, rfl⟩ := acts
  cases op with
  | update f =>
      obtain ⟨rfl, rfl⟩ := acted
      cases locked
      exact ⟨rfl, rfl, rfl⟩
  | lock mode =>
      cases acted
      have held : LockMode.held? lock .worker = some mode := LockMode.held_take locked
      change custody _ = _
      unfold custody
      rw [← held]
      rfl
  | unlock mode =>
      cases acted
      exact ⟨_, rfl⟩
  | dequeue =>
      obtain ⟨_, rfl⟩ := acted
      cases locked
      change custody _ = _
      unfold custody
      cases answer <;> rfl
  | settle ptr out =>
      obtain ⟨_, rfl⟩ := acted
      cases locked
      rfl
  | ask call =>
      obtain ⟨_, rfl⟩ := acted
      cases locked
      exact ⟨s.world.mem.own, rfl⟩

/-- What one thread does to the lock leaves another's hold. -/
theorem read_lock {op : ReadOp} {answer : op.Ans} (other : j ≠ i)
    (acts : s.read library i op answer s')
    : s.lock.SameFor j s'.lock := by
  cases op with
  | members =>
      obtain ⟨_, rfl⟩ := acts
      exact .refl
  | handle =>
      obtain ⟨_, rfl⟩ := acts
      exact .refl
  | lock mode =>
      obtain ⟨lock, taken, rfl⟩ := acts
      exact sameFor_take other taken
  | tryLock =>
      obtain ⟨lock, taken, rfl⟩ := acts
      cases answer with
      | true => exact sameFor_take other taken
      | false =>
          cases taken
          exact .refl
  | unlock mode =>
      cases acts
      exact sameFor_give other
  | query c =>
      obtain ⟨_, _, rfl⟩ := acts
      exact .refl
  | socketsTo hostport drop =>
      cases acts
      exact .refl
  | record w connected height =>
      cases acts
      exact .refl

/-- The clients and the probe leave the handle, and what was asked for. -/
theorem read_handle {op : ReadOp} {answer : op.Ans} (acts : s.read library i op answer s')
    : s'.world.mem.wallet = s.world.mem.wallet ∧ s'.world.mem.pendingTx = s.world.mem.pendingTx
      ∧ s'.world.history = s.world.history := by
  rcases read_cases acts with ⟨_, rfl⟩ | ⟨_, rfl⟩ | ⟨_, _, _, _, _, rfl⟩ | ⟨_, _, _, _, rfl⟩ <;>
    exact ⟨rfl, rfl, rfl⟩

theorem host_handle (hosted : s.host s')
    : s'.world.mem.wallet = s.world.mem.wallet ∧ s'.world.mem.pendingTx = s.world.mem.pendingTx
      ∧ s'.world.history = s.world.history := by
  obtain ⟨world, hosted, rfl⟩ := hosted
  cases hosted <;> exact ⟨rfl, rfl, rfl⟩

theorem host_lock (hosted : s.host s') : s'.lock = s.lock := by
  obtain ⟨world, _, rfl⟩ := hosted
  rfl

theorem read_lease {op : ReadOp} {answer : op.Ans} (owning : library.Owning)
    (acts : s.read library i op answer s')
    : Lease.act (s.lease i) op answer (s'.lease i) := by
  cases op with
  | members =>
      obtain ⟨_, rfl⟩ := acts
      rfl
  | handle =>
      obtain ⟨rfl, rfl⟩ := acts
      refine ⟨rfl, fun lease known => ?_⟩
      obtain ⟨mode, _, rfl⟩ := Option.map_eq_some_iff.mp known
      rfl
  | lock mode =>
      obtain ⟨lock, taken, rfl⟩ := acts
      exact ⟨_, lease_of_held (LockMode.held_take taken)⟩
  | tryLock =>
      obtain ⟨lock, taken, rfl⟩ := acts
      cases answer with
      | true => exact ⟨_, lease_of_held (LockMode.held_take taken)⟩
      | false =>
          cases taken
          rfl
  | unlock mode => trivial
  | query c =>
      obtain ⟨after, answered, rfl⟩ := acts
      exact ⟨rfl, owning _ _ _ _ _ answered⟩
  | socketsTo hostport drop =>
      cases acts
      rfl
  | record w connected height =>
      cases acts
      rfl

end Shared

namespace Module

open Shared

variable {rule : Surroundings} {library : Library Λ} {always : Shared Λ → Prop}

/-- What the lock spares each thread, and how the clients and the probe call by it. -/
def lent : Pool.Terms Actor Actor.Op (fun _ => Exn) Actor.Out (Shared Λ) where
  rely i _ s s' := Spares i s s'
  guard
    | .worker => Shared.Guard .worker
    | .probe => fun s op => Shared.Guard .probe s op ∧ (s.lease .probe).guard op
    | .call n => fun s op => Shared.Guard (.call n) s op ∧ (s.lease (.call n)).guard op
  ends _ _ _ := True

/-- Rules under which the worker's slot runs what changes the handle alone, and the others run as
ever. -/
structure Lets
    (rules : Pool.Rules Actor Actor.Op Actor.Ans (fun _ => Exn) Actor.Out (Shared Λ))
    (rule : Surroundings) (library : Library Λ)
    : Prop where
  act : rules.act = Module.act rule library
  worker : ∀ (rest p : Worker Unit) s s', rules.starts .worker rest p s s' → p.Latched ∧ s' = s
  starts : ∀ i, i ≠ .worker → ∀ rest p s s', rules.starts i rest p s s' →
    Module.starts i rest p s s'
  others : ∀ s s', rules.others s s' → s.host s'

theorem lets_rules : Lets (rules rule library) rule library where
  act := rfl
  worker _ _ _ _ started := ⟨started.2.1 ▸ turn_latched, started.2.2⟩
  starts _ _ _ _ _ _ := id
  others _ _ := id

theorem secure_of_leased {i : Actor} {p : Reader α} {rely : Rely ReadOp (Shared Λ)}
    (owning : library.Owning) (spares : ∀ op s s', rely op s s' → Spares i s s') (leased : p.Leased)
    (s : Shared Λ)
    : p.Secure (Shared.read library i) always rely (fun s op => (s.lease i).guard op)
        (fun _ _ => True) s :=
  Heeds.secure (leased (s.lease i)) (fun op s s' step => (spares op s s' step).lease)
    (fun _ _ _ _ _ _ acts => read_lease owning acts) (fun _ _ _ guarded => guarded)
    (fun _ _ _ => trivial) fun _ _ _ => trivial

variable {rules : Pool.Rules Actor Actor.Op Actor.Ans (fun _ => Exn) Actor.Out (Shared Λ)}

theorem lent_agree (owning : library.Owning) (lets : Lets rules rule library)
    : lent.Agree rules always := by
  refine ⟨fun i _ s s' s'' => .trans, fun i _ s => .refl, ?_, ?_, ?_⟩
  · intro t i op answer s' waits _ _ _ guarded acts j other
    rw [lets.act] at acts
    cases i with
    | worker => exact work_spares other guarded acts
    | probe => exact read_spares other guarded.1 acts
    | call n => exact read_spares other guarded.1 acts
  · intro t i p s' started _ _ _
    rw [lets.act]
    cases i with
    | worker =>
        obtain ⟨latched, rfl⟩ := lets.worker _ _ _ _ started
        exact ⟨secure_of_latched (fun _ _ _ => id) latched _, fun j _ => .refl⟩
    | probe =>
        obtain ⟨_, rfl, rfl⟩ := lets.starts .probe (by simp) _ _ _ _ started
        refine ⟨?_, fun j _ => .refl⟩
        exact (Secure.and (secure_of_gripped (fun _ _ _ => id) probeRound_gripped _)
          (secure_of_leased owning (fun _ _ _ => id) probeRound_leased _)).mono
            (fun _ _ => id) fun _ _ _ => trivial
    | call n =>
        obtain ⟨_, request, rfl, rfl⟩ := lets.starts (.call n) (by simp) _ _ _ _ started
        refine ⟨?_, fun j other => ?_⟩
        · exact (Secure.and (secure_of_gripped (fun _ _ _ => id) request.gripped _)
            (secure_of_leased owning (fun _ _ _ => id) request.leased _)).mono
              (fun _ _ => id) fun _ _ _ => trivial
        · refine ⟨.refl, fun _ => rfl, fun _ => rfl, fun _ => rfl, rfl, fun m same => ?_⟩
          exact Function.update_of_ne
            (fun equal => other (same.trans (congrArg Actor.call equal))) ..
  · exact fun t s' hosted _ _ j => host_spares (lets.others _ _ hosted)

/-- What the worker cares for, which the others leave. -/
def care : Pool.Terms Actor Actor.Op (fun _ => Exn) Actor.Out (Shared Λ) where
  rely i _ s s' := i = .worker → s'.custody = s.custody
  guard
    | .worker => fun s op => s.custody.guard op
    | .probe | .call _ => fun _ _ => True
  ends
    | .worker => fun _ s => s.custody.Safe
    | .probe | .call _ => fun _ _ => True

theorem care_agree : care.Agree (Module.rules rule library) always := by
  refine ⟨fun i _ s s' s'' first second worker => ?_, fun i _ s _ => rfl, ?_, ?_, ?_⟩
  · exact (second worker).trans (first worker)
  · intro t i op answer s' waits _ _ _ _ acts j other worker
    subst worker
    cases i with
    | worker => exact absurd rfl other
    | probe => exact custody_same (read_handle acts) (read_lock other acts)
    | call n => exact custody_same (read_handle acts) (read_lock other acts)
  · intro t i p s' started now _ holds
    cases i with
    | worker =>
        obtain ⟨idle, rfl, rfl⟩ := started
        refine ⟨?_, fun j _ _ => rfl⟩
        unfold Pool.Terms.Holds at holds
        rw [idle] at holds
        have safe : t.state.custody.Safe := holds t.state now fun _ => rfl
        exact Heeds.secure (Custody.turn_heeds safe) (fun _ _ _ step => step rfl)
          (fun _ _ _ _ _ _ acts => work_custody acts) (fun _ _ _ guarded => guarded)
          (fun _ _ safe => safe) fun _ _ safe => safe
    | probe =>
        obtain ⟨_, rfl, rfl⟩ := started
        exact ⟨secure_any (fun _ _ => trivial) (fun _ _ => trivial) _ _, fun j _ _ => rfl⟩
    | call n =>
        obtain ⟨_, _, rfl, rfl⟩ := started
        exact ⟨secure_any (fun _ _ => trivial) (fun _ _ => trivial) _ _, fun j _ _ => rfl⟩
  · intro t s' hosted _ _ j _
    exact custody_same (host_handle hosted) (host_lock hosted ▸ .refl)

variable {hasNotify : Bool} {l : Λ} {t : Module Λ}

theorem lent_holds (owning : library.Owning)
    (reach : Pool.Reach (Module.rules rule library) (start hasNotify l) t) (i : Actor)
    : lent.Holds (Module.rules rule library) (fun _ => True) t i := by
  refine reach.secure (lent_agree owning lets_rules) (fun _ _ => trivial) (fun i => ?_) i
  cases i <;> exact fun _ _ _ => trivial

theorem care_holds (reach : Pool.Reach (Module.rules rule library) (start hasNotify l) t) (i : Actor)
    : care.Holds (Module.rules rule library) (fun _ => True) t i := by
  refine reach.secure care_agree (fun _ _ => trivial) (fun i => ?_) i
  cases i with
  | worker =>
      intro s' _ step
      have same : s'.custody = (start hasNotify l).state.custody := step rfl
      change s'.custody.Safe
      rw [same]
      refine ⟨fun w held => ?_, fun handle pt found => ?_⟩
      · cases held
      · cases (AList.lookup_empty handle).symm.trans found
  | probe => exact fun _ _ _ => trivial
  | call n => exact fun _ _ _ => trivial

/-- At every moment of every run. -/
theorem safe_of_reach (reach : Pool.Reach (Module.rules rule library) (start hasNotify l) t)
    : t.state.custody.Safe := by
  have holds := care_holds reach .worker
  have agree : care.Agree (Module.rules rule library) fun _ => True := care_agree
  unfold Pool.Terms.Holds at holds
  cases rest : t.rest .worker with
  | pure value =>
      rw [rest] at holds
      exact holds t.state trivial (agree.refl .worker none _)
  | throw error =>
      rw [rest] at holds
      exact holds t.state trivial (agree.refl .worker none _)
  | call op next =>
      rw [rest] at holds
      exact (holds t.state trivial (agree.refl .worker _ _)).1.1

end Module

/-! ### Nobody is in the library too late, or in another's way -/

/-- The object that the call of an action is made on. -/
def ReadOp.on : ReadOp → Option LibObject
  | .query c => c.on
  | _ => none

def ReadOp.access : ReadOp → Option LockMode
  | .query c => some c.access
  | _ => none

namespace Actor

def on : ∀ i : Actor, i.Op → Option LibObject
  | .worker => fun op => op.lib?.bind Lib.on
  | .probe | .call _ => ReadOp.on

def access : ∀ i : Actor, i.Op → Option LockMode
  | .worker => fun op => op.lib?.bind Lib.access
  | .probe | .call _ => ReadOp.access

end Actor

namespace Module

variable {rule : Surroundings} {library : Library Λ} {hasNotify : Bool} {l : Λ} {t : Module Λ}
variable {i j : Actor} {op : i.Op} {op' : j.Op} {o o' : LibObject} {w : Wallet}

/-- What a call of the worker is made on. -/
theorem on_worker {op : Op} (guarded : t.state.custody.guard op)
    (on : o ∈ Actor.on .worker op)
    : ∃ w, (objects t.state.world.history).owner o = some w
      ∧ (t.state.world.mem.wallet = some w →
        Covers (LockMode.held? t.state.lock .worker) (Actor.access .worker op)) := by
  obtain ⟨c, made, on⟩ := Option.bind_eq_some_iff.mp on
  obtain ⟨w, owned, covers⟩ := guarded.2 c made o on
  refine ⟨w, owned, fun held => ?_⟩
  have access : Actor.access .worker op = c.access := by
    change op.lib?.bind Lib.access = _
    rw [Option.mem_def.mp made, Option.bind_some]
  exact access ▸ covers held

/-- What a call of a client or the probe is made on. -/
theorem on_reader {op : ReadOp} (guarded : (t.state.lease i).guard op) (on : o ∈ op.on)
    : ∃ w, o = .wallet w ∧ t.state.world.mem.wallet = some w
      ∧ Covers (LockMode.held? t.state.lock i) op.access := by
  cases op with
  | query c =>
      obtain ⟨mode, w?, lease, allows⟩ := guarded
      obtain ⟨⟨w, same, rfl⟩, covers⟩ := allows o on
      obtain ⟨mode', held, same'⟩ := Option.map_eq_some_iff.mp lease
      cases same'
      refine ⟨w, rfl, same, ?_⟩
      rw [held]
      exact covers
  | _ => cases on

/-- Every call is made on an object that lives; where it is of the wallet in place, the handle is
held as the call needs it, and only the worker calls on another. -/
theorem served (owning : library.Owning)
    (reach : Pool.Reach (rules rule library) (start hasNotify l) t)
    (waits : (t.rest i).head = some op) (on : o ∈ i.on op)
    : ∃ w, (objects t.state.world.history).owner o = some w
      ∧ (t.state.world.mem.wallet = some w → Covers (LockMode.held? t.state.lock i) (i.access op))
      ∧ (i ≠ .worker → t.state.world.mem.wallet = some w) := by
  have guarded := (lent_holds owning reach i).guarded (lent_agree owning lets_rules) trivial waits
  have safe := safe_of_reach reach
  cases i with
  | worker =>
      have cares := (care_holds reach .worker).guarded care_agree trivial waits
      obtain ⟨w, owned, covers⟩ := on_worker cares on
      exact ⟨w, owned, covers, fun other => absurd rfl other⟩
  | probe =>
      obtain ⟨w, rfl, held, covers⟩ := on_reader guarded.2 on
      exact ⟨w, safe.held w held, fun _ => covers, fun _ => held⟩
  | call n =>
      obtain ⟨w, rfl, held, covers⟩ := on_reader guarded.2 on
      exact ⟨w, safe.held w held, fun _ => covers, fun _ => held⟩

/-- In every run, whatever the library answers or throws, no thread calls on an object that is
gone: a wallet that was closed, or a transaction of one. The clients and the probe only call on
the wallet in place. -/
theorem calls_on_what_lives (owning : library.Owning)
    (reach : Pool.Reach (rules rule library) (start hasNotify l) t)
    (waits : (t.rest i).head = some op) (on : o ∈ i.on op)
    : ∃ w, (objects t.state.world.history).owner o = some w
      ∧ (i ≠ .worker → t.state.world.mem.wallet = some w) := by
  obtain ⟨w, owned, _, held⟩ := served owning reach waits on
  exact ⟨w, owned, held⟩

/-- A library that answers anything, but with histories and rows of the wallet. -/
def owningLibrary : Library Unit := fun _ _ c result _ => c.Owns result

/-- A wallet that has just been put in place, which a client is about to add a subaddress to. -/
def announcing : Module Unit :=
  (start true ()).play goodScript anyAnswers
    [
      .setWalletsDir,
      .client
        (.startJob "open_wallet" (.obj [("name", .str "w"), ("network", .str "stagenet")]) "receipt"),
      .begin .worker, .run .worker 45, .request 0 (.createSubaddress 0 "x"), .run (.call 0) 2
    ]

theorem anyAnswers_follow : anyAnswers.Follow owningLibrary := by
  intro l i c answered same
  cases same
  cases c with
  | history w =>
      intro h mine
      cases mine
      rfl
  | historyTransaction h index =>
      intro t mine
      cases mine
  | _ => trivial

theorem announcing_reach
    : Pool.Reach (rules LibraryReturns owningLibrary) (start true ()) announcing := by
  have plays : Plays _ goodScript anyAnswers :=
    plays_rules Script.succeeding_returns anyAnswers_follow
  exact plays.reach .refl _

theorem announcing_worker
    : (announcing.rest .worker).head = some (.ask (.lib (.watchOnly ⟨9⟩))) := rfl

theorem announcing_client
    : (announcing.rest (.call 0)).head = some (.query (.addSubaddress ⟨9⟩ 0 "x")) := rfl

theorem calls_on_what_lives_announcing
    : ∃ w, (objects announcing.state.world.history).owner (.wallet ⟨9⟩) = some w
      ∧ announcing.state.world.mem.wallet = some w := by
  obtain ⟨w, owned, held⟩ :=
    calls_on_what_lives (fun _ _ _ _ _ owns => owns) announcing_reach announcing_client rfl
  exact ⟨w, owned, held fun same => by cases same⟩

/-- In every run, while a thread is to call on a wallet alone, another that is about to call on it
or on a transaction of it is the worker that only looks at what it has just put in place. -/
theorem changes_are_alone (owning : library.Owning)
    (reach : Pool.Reach (rules rule library) (start hasNotify l) t)
    (waits : (t.rest i).head = some op) (on : o ∈ i.on op)
    (waits' : (t.rest j).head = some op') (on' : o' ∈ j.on op')
    (of : (objects t.state.world.history).owner o = some w)
    (of' : (objects t.state.world.history).owner o' = some w)
    (alone : i.access op = some .unique) (other : j ≠ i)
    : j.access op' = none := by
  obtain ⟨v, owned, covers, place⟩ := served owning reach waits on
  obtain ⟨v', owned', covers', place'⟩ := served owning reach waits' on'
  cases of.symm.trans owned
  cases of'.symm.trans owned'
  by_contra needs
  obtain ⟨mode, need⟩ := Option.ne_none_iff_exists'.mp needs
  by_cases isOpen : t.state.world.mem.wallet = some w
  · have first := covers isOpen
    have second := covers' isOpen
    rw [alone] at first
    rw [need] at second
    obtain ⟨mode', holds⟩ : ∃ mode', LockMode.held? t.state.lock j = some mode' := by
      cases mode with
      | unique => exact ⟨_, second⟩
      | shared => exact Option.ne_none_iff_exists'.mp second
    exact other (LockMode.held_exclusive first holds)
  · have worker (k : Actor) (place : k ≠ .worker → t.state.world.mem.wallet = some w)
        : k = .worker :=
      by_contra fun other => isOpen (place other)
    exact other ((worker j place').trans (worker i place).symm)

theorem changes_are_alone_announcing
    : Actor.access (.call 0) (.query (.addSubaddress ⟨9⟩ 0 "x")) = some .unique
      ∧ Actor.access .worker (.ask (.lib (.watchOnly ⟨9⟩))) = none := by
  have lives : (objects announcing.state.world.history).owner (.wallet ⟨9⟩) = some ⟨9⟩ := by
    rfl
  have other : Actor.worker ≠ .call 0 := fun same => by cases same
  exact ⟨rfl, changes_are_alone (fun _ _ _ _ _ owns => owns) announcing_reach announcing_client rfl
    announcing_worker rfl lives lives rfl other⟩

end Module

end MoneroWalletCore.Runtime
