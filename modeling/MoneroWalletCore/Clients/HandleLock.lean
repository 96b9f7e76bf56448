import MoneroWalletCore.Clients.Module
import MoneroWalletCore.Runtime.Sections

/-! What each thread of the module may count on from its lock. The library is only called by a
client that holds the handle, and the worker puts a wallet in place or takes it away alone; so
whoever holds the handle keeps the wallet, and who holds it alone keeps the library as well.
-/

namespace MoneroWalletCore.Runtime

open Program

variable {Λ : Type} {α β : Type}

/-! ### Clients and the probe -/

/-- What a thread knows of the handle: nothing, or that it holds it and which wallet is open. -/
abbrev Grip := Option (Option Wallet)

def Grip.act : Semantics ReadOp ReadOp.Ans Grip := fun g op answer g' =>
  match op, answer with
  | .lock _, _ => g' ≠ none
  | .tryLock, got => if got then g' ≠ none else g' = g
  | .unlock _, _ => True
  | .handle, found => g' = g ∧ ∀ held ∈ g, found = held
  | _, _ => g' = g

/-- The library is called by holders, and a reading is written for the wallet that is held. -/
def Grip.guard (g : Grip) : ReadOp → Prop
  | .query _ | .handle => g ≠ none
  | .record w _ _ => g = some (some w)
  | _ => True

/-- The actions that are made while the handle is held. -/
def ReadOp.inner : ReadOp → Bool
  | .members | .handle | .query _ | .socketsTo .. => true
  | _ => false

namespace Reader

/-- A body that makes only such calls. -/
def Calls (allowed : ReadOp → Prop) (p : Reader α) : Prop :=
  p.Within allowed (fun _ => True) fun _ => True

section Calls

variable {allowed : ReadOp → Prop}

theorem Calls.bind {p : Reader α} {next : α → Reader β} (first : p.Calls allowed)
    (rest : ∀ value, (next value).Calls allowed)
    : Reader.Calls allowed (p.bind next) :=
  within_bind.mpr (first.mono (fun _ made => made) (fun value _ => rest value) fun _ _ => trivial)

theorem calls_query {c : Query} (here : allowed (.query c)) : (query c).Calls allowed := by
  refine ⟨here, fun answer => ?_⟩
  cases answer <;> trivial

theorem calls_collect {body : Nat → Reader (Option Json)} (each : ∀ i, (body i).Calls allowed)
    (left index : Nat)
    : (collect body left index).Calls allowed := by
  induction left generalizing index with
  | zero => trivial
  | succ left ih => exact (each index).bind fun item => (ih (index + 1)).bind fun rest => trivial

end Calls

/-- A body that stays inside the lock. -/
def Inner (p : Reader α) : Prop :=
  p.Within (fun op => op.inner = true) (fun _ => True) fun _ => True

theorem Inner.bind {p : Reader α} {next : α → Reader β} (first : p.Inner)
    (rest : ∀ value, (next value).Inner)
    : Reader.Inner (p.bind next) :=
  Calls.bind first rest

theorem inner_query {c : Query} : (query c).Inner := calls_query rfl

theorem inner_collect {body : Nat → Reader (Option Json)} (each : ∀ i, (body i).Inner)
    (left index : Nat)
    : (collect body left index).Inner :=
  calls_collect each left index

/-- A branch on the wallet that is open. -/
theorem inner_handle {next : Option Wallet → Reader α} (none_ : (next none).Inner)
    (some_ : ∀ w, (next (some w)).Inner)
    : Reader.Inner (handle.bind next) := by
  refine ⟨rfl, fun w? => ?_⟩
  cases w? with
  | none => exact none_
  | some w => exact some_ w

/-- From what a thread knows on, it calls the library as a holder. -/
def GrippedFrom (g : Grip) (p : Reader α) : Prop :=
  p.Heeds Grip.act Grip.guard (fun _ _ => True) (fun _ _ => True) g

/-- Whatever it knew before. -/
def Gripped (p : Reader α) : Prop := ∀ g, p.GrippedFrom g

theorem Inner.grippedFrom {p : Reader α} (inner : p.Inner) {g : Grip} (held : g ≠ none)
    : p.GrippedFrom g := by
  have each (g : Grip) (op : ReadOp) (inner : op.inner = true) (held : g ≠ none)
      : Grip.guard g op := by
    cases op <;> first | exact held | trivial
  have step (g : Grip) (op : ReadOp) (answer : op.Ans) (g' : Grip) (inner : op.inner = true)
      (step : Grip.act g op answer g') (held : g ≠ none)
      : g' ≠ none := by
    cases op with
    | members => exact step ▸ held
    | handle => exact step.1 ▸ held
    | query c => exact step ▸ held
    | socketsTo hostport drop => exact step ▸ held
    | lock mode => cases inner
    | tryLock => cases inner
    | unlock mode => cases inner
    | record w connected height => cases inner
  exact (Within.heeds inner each step held).mono (fun _ _ _ => trivial) fun _ _ _ => trivial

/-- A scope is left by giving the lock back. -/
theorem GrippedFrom.ensure {mode : LockMode} {p : Reader α} {g : Grip} (gripped : p.GrippedFrom g)
    : Reader.GrippedFrom g (p.ensure (unlock mode)) := by
  have gives (g' : Grip)
      : (unlock mode).Heeds Grip.act Grip.guard (fun _ _ => True) (fun _ _ => True) g' :=
    ⟨trivial, fun _ _ _ => trivial⟩
  exact heeds_ensure.mpr (gripped.mono (fun _ g' _ => gives g') fun _ g' _ => gives g')

theorem Inner.locked {mode : LockMode} {body : Reader α} (inner : body.Inner)
    : (locked mode body).Gripped := by
  intro g
  exact ⟨trivial, fun _ g' held => (inner.grippedFrom held).ensure⟩

theorem Inner.lockedInTime {late : α} {body : Reader α} (inner : body.Inner)
    : (lockedInTime late body).Gripped := by
  intro g
  refine ⟨trivial, fun got g' step => ?_⟩
  cases got with
  | true => exact (inner.grippedFrom step).ensure
  | false => trivial

end Reader

theorem status_gripped : status.Gripped := by
  intro g
  refine ⟨trivial, fun m g' same => ?_⟩
  have reads : (statusReads (statusSection m)).Inner := by
    refine Reader.inner_handle ?_ fun w => ?_
    · trivial
    exact Reader.inner_query.bind fun _ => Reader.inner_query.bind fun _ =>
      Reader.inner_query.bind fun _ => trivial
  exact reads.lockedInTime g'

theorem readText_gripped {none_ : String} {body : Wallet → Reader String}
    (inner : ∀ w, (body w).Inner)
    : (readText none_ body).Gripped :=
  Reader.Inner.lockedInTime
    (Reader.inner_handle trivial fun w => (inner w).bind fun _ => trivial)

theorem subaddresses_gripped {account : UInt32} : (subaddresses account).Gripped := by
  refine Reader.Inner.lockedInTime (Reader.inner_handle trivial fun w => ?_)
  refine Reader.inner_query.bind fun n => (Reader.inner_collect (fun i => ?_) _ _).bind fun _ =>
    trivial
  exact Reader.inner_query.bind fun _ => Reader.inner_query.bind fun _ => trivial

theorem onWallet_gripped {body : Wallet → Reader Json} (inner : ∀ w, (body w).Inner)
    : (onWallet body).Gripped :=
  Reader.Inner.locked (Reader.inner_handle trivial inner)

theorem createSubaddress_gripped {account : UInt32} {label : String}
    : (createSubaddress account label).Gripped := by
  refine onWallet_gripped fun w => ?_
  refine Reader.inner_query.bind fun _ => Reader.inner_query.bind fun n => ?_
  split
  · trivial
  · exact Reader.inner_query.bind fun _ => Reader.inner_query.bind fun _ => trivial

theorem setSubaddressLabel_gripped {account index : UInt32} {label : String}
    : (setSubaddressLabel account index label).Gripped := by
  refine onWallet_gripped fun w => Reader.inner_query.bind fun n => ?_
  split
  · trivial
  · exact Reader.inner_query.bind fun _ => Reader.inner_query.bind fun _ =>
      Reader.inner_query.bind fun _ => trivial

/-- A row is read by its accessors. -/
theorem historyRow_calls {allowed : ReadOp → Prop} {t : TxInfo}
    (each : ∀ field, allowed (.query (.info t field)))
    : (historyRow t).Calls allowed := by
  have info {i : Info} : (info t i).Calls allowed := Reader.calls_query (each i)
  have item (i : Nat) : (destinationItem t i).Calls allowed :=
    info.bind fun _ => info.bind fun _ => trivial
  have dests : (destinations t).Calls allowed :=
    info.bind fun _ => (Reader.calls_collect item _ _).bind fun _ => trivial
  refine dests.bind fun _ => info.bind fun _ => info.bind fun _ => info.bind fun _ =>
    info.bind fun _ => info.bind fun _ => info.bind fun _ => info.bind fun _ => ?_
  exact info.bind fun _ => info.bind fun _ => info.bind fun _ => info.bind fun _ =>
    info.bind fun _ => info.bind fun _ => info.bind fun _ => info.bind fun _ => trivial

theorem historyRow_inner {t : TxInfo} : (historyRow t).Inner := historyRow_calls fun _ => rfl

theorem history_gripped : history.Gripped := by
  refine Reader.Inner.locked (Reader.inner_handle trivial fun w => ?_)
  refine Reader.inner_query.bind fun h? => ?_
  cases h? with
  | none => trivial
  | some h =>
      refine Reader.inner_query.bind fun _ => Reader.inner_query.bind fun n => ?_
      refine (Reader.inner_collect (fun i => ?_) _ _).bind fun _ => trivial
      refine Reader.inner_query.bind fun t? => ?_
      cases t? with
      | none => trivial
      | some t => exact historyRow_inner.bind fun _ => trivial

theorem reveal_gripped {password : String} {body : Wallet → Reader Json}
    (inner : ∀ w, (body w).Inner)
    : (reveal password body).Gripped := by
  have members {next : Mem → Reader Bool} (rest : ∀ m, (next m).Inner)
      : Reader.Inner (Reader.members.bind next) := ⟨rfl, rest⟩
  refine Reader.Inner.locked (Reader.inner_handle trivial fun w => ?_)
  refine (members fun _ => Reader.inner_query).bind fun right => ?_
  split
  · trivial
  · exact inner w

/-- Every direct call calls the library as a holder. -/
theorem Request.gripped (request : Request) : request.body.Gripped := by
  cases request with
  | status => exact status_gripped
  | balance account => exact readText_gripped fun _ => Reader.inner_query.bind fun _ => trivial
  | unlockedBalance account =>
      exact readText_gripped fun _ => Reader.inner_query.bind fun _ => trivial
  | address account index => exact readText_gripped fun _ => Reader.inner_query
  | subaddresses account => exact subaddresses_gripped
  | createSubaddress account label => exact createSubaddress_gripped
  | setSubaddressLabel account index label => exact setSubaddressLabel_gripped
  | history => exact history_gripped
  | revealSeed password =>
      refine reveal_gripped fun w => Reader.inner_query.bind fun seed => ?_
      split <;> trivial
  | revealViewKey password =>
      exact reveal_gripped fun w => Reader.inner_query.bind fun _ =>
        Reader.inner_query.bind fun _ => trivial

/-- The probe writes its reading while it still holds the wallet that it read. -/
theorem probeRound_gripped : probeRound.Gripped := by
  intro g
  have records (w : Wallet) (connected : Bool) (height : UInt64)
      : Reader.GrippedFrom (some (some w))
          (Program.perform (ReadOp.record w connected height) : Reader Unit) :=
    ⟨rfl, fun _ _ _ => trivial⟩
  have heights (w : Wallet) (connected : Bool)
      : Reader.GrippedFrom (some (some w))
          ((probeHeight w connected).bind fun height =>
            Program.perform (ReadOp.record w connected height)) := by
    cases connected with
    | false => exact records w false 0
    | true =>
        refine ⟨nofun, fun answer g' same => ?_⟩
        cases same
        match answer with
        | .error error => trivial
        | .ok false => exact records w true 0
        | .ok true =>
            refine ⟨nofun, fun answer g' same => ?_⟩
            cases same
            cases answer with
            | error error => trivial
            | ok height => exact records w true height
  have sockets (w : Wallet) (peer : String)
      : Reader.GrippedFrom (some (some w))
          ((probeSockets peer).bind fun connected =>
            (probeHeight w connected).bind fun height =>
              Program.perform (ReadOp.record w connected height)) := by
    unfold probeSockets
    split
    · exact heights w false
    · refine ⟨trivial, fun n g' same => ?_⟩
      cases same
      exact heights w (n > 0)
  refine heeds_tryCatch.mpr ⟨trivial, fun got g' step => ?_⟩
  cases got with
  | false => trivial
  | true =>
      refine Reader.GrippedFrom.ensure ⟨step, fun w? g'' found => ?_⟩
      obtain ⟨rfl, found⟩ := found
      cases w? with
      | none => trivial
      | some w =>
          obtain ⟨held, known⟩ := Option.ne_none_iff_exists'.mp step
          obtain rfl := found held known
          refine ⟨trivial, fun m g' same => ?_⟩
          have grips : g' = some (some w) := same.trans known
          subst grips
          exact sockets w m.dialPeer

/-! ### The worker -/

/-- A worker that has taken the handle alone holds it so until it gives it back. -/
def aloneAct : Semantics Op Op.Ans Bool := fun alone op _ alone' =>
  match op with
  | .lock .unique => alone' = true
  | .lock .shared | .unlock _ => True
  | _ => alone' = alone

/-- A section that puts a wallet in place or takes it away is made alone. -/
def AloneGuard (alone : Bool) (op : Op) : Prop :=
  ∀ f, op = .update f → alone = true ∨ ∀ m : Mem, (f m).wallet = m.wallet

/-- An action that leaves the handle. -/
def KeepsHandle (op : Op) : Prop := ∀ f, op = .update f → ∀ m : Mem, (f m).wallet = m.wallet

theorem keepsHandle_update {f : Mem → Mem} (keeps : ∀ m : Mem, (f m).wallet = m.wallet)
    : KeepsHandle (.update f) := by
  intro g same
  cases same
  exact keeps

instance : Telling KeepsHandle where
  asks _ _ := nofun
  locks _ := nofun
  unlocks _ := nofun
  reads := keepsHandle_update fun _ => rfl
  labels _ _ := keepsHandle_update fun _ => rfl
  registers _ := keepsHandle_update fun _ => rfl
  drops _ := keepsHandle_update fun _ => rfl
  notifies _ _ := nofun
  resets := keepsHandle_update fun _ => rfl

instance : Ticking KeepsHandle where
  times := nofun
  ticks _ _ := keepsHandle_update fun m => congrArg Session.wallet (ticked_session m).1
  moves _ _ _ := keepsHandle_update fun _ => rfl

namespace Worker

/-- However it is begun, the body changes the handle alone. -/
def Latched (p : Worker α) : Prop :=
  ∀ alone, p.Heeds aloneAct AloneGuard (fun _ _ => True) (fun _ _ => True) alone

theorem Stays.latched {p : Worker α} (stays : p.Stays KeepsHandle) : p.Latched := by
  intro alone
  have each (alone : Bool) (op : Op) (keeps : KeepsHandle op) (_ : True) : AloneGuard alone op :=
    fun f same => .inr (keeps f same)
  exact (Within.heeds stays each (fun _ _ _ _ _ _ _ => trivial) trivial).mono
    (fun _ _ _ => trivial) fun _ _ _ => trivial

namespace Latched

theorem value {value : α} : Worker.Latched (.pure value : Worker α) := fun _ => trivial

theorem bind {p : Worker α} {next : α → Worker β} (first : p.Latched)
    (rest : ∀ value, (next value).Latched)
    : Worker.Latched (p.bind next) :=
  fun alone => heeds_bind.mpr ((first alone).mono (fun value alone _ => rest value alone)
    fun _ _ _ => trivial)

theorem guarded {p : Worker α} {handler : Exn → Worker α} (block : p.Latched)
    (handles : ∀ error, (handler error).Latched)
    : Worker.Latched (p.tryCatch handler) :=
  fun alone => heeds_tryCatch.mpr ((block alone).mono (fun _ _ _ => trivial)
    fun error alone _ => handles error alone)

theorem ite {condition : Prop} {decided : Decidable condition} {p q : Worker α} (yes : p.Latched)
    (no : q.Latched)
    : Worker.Latched (if condition then p else q) := by
  split
  · exact yes
  · exact no

theorem andThen {stage : Worker (Stage α)} {next : α → Worker Json} (first : stage.Latched)
    (rest : ∀ value, (next value).Latched)
    : Worker.Latched (Runtime.andThen stage next) := by
  apply bind first
  intro ended
  cases ended with
  | leave out => exact value
  | go value => exact rest value

/-- A scope that is alone, up to a section that ends it. -/
theorem alone {body : Worker α}
    (heeds : body.Heeds aloneAct AloneGuard (fun _ _ => True) (fun _ _ => True) true)
    : (Worker.locked .unique body).Latched := by
  intro alone
  refine ⟨nofun, fun _ alone' taken => heeds_ensure.mpr ?_⟩
  cases taken
  exact heeds.mono (fun _ _ _ => ⟨nofun, fun _ _ _ => trivial⟩)
    fun _ _ _ => ⟨nofun, fun _ _ _ => trivial⟩

end Latched

end Worker

open Worker

theorem publishWallet_latched {o : OpenParams} {plan : Plan} {path addr : String} {w : Wallet}
    : (publishWallet o plan path addr w).Latched := by
  have places : (Worker.locked .unique (Worker.update (withWallet w))).Latched :=
    .alone ⟨fun _ _ => .inl rfl, fun _ _ _ => trivial⟩
  have describes {node : Json} {now : Nat}
      : (Worker.update (described o node addr now)).Stays KeepsHandle :=
    .update (keepsHandle_update fun _ => rfl)
  exact places.bind fun _ => Worker.Stays.latched (.bind .now fun _ => .bind describes fun _ =>
    announceWallet_stays)

theorem takeWallet_latched : takeWallet.Latched := by
  have labels : (setState .closing "").Heeds aloneAct AloneGuard (fun _ alone => alone = true)
      (fun _ _ => True) true := by
    refine ⟨fun f same => .inl rfl, fun m alone step => ?_⟩
    cases step
    refine ⟨fun mode unlocks => (by cases unlocks), fun answer alone step => ?_⟩
    cases step
    cases answer with
    | ok ret => rfl
    | error error => trivial
  refine .alone ⟨fun _ _ => .inl rfl, fun m alone step => ?_⟩
  cases step
  dsimp only [Program.bind]
  cases m.wallet with
  | none => trivial
  | some w =>
      refine heeds_bind.mpr (labels.mono (fun _ alone held => ?_) fun _ _ _ => trivial)
      exact ⟨fun _ _ => .inl held, fun _ _ _ => trivial⟩

theorem doClose_latched : doClose.Latched := by
  refine takeWallet_latched.bind fun held => ?_
  cases held with
  | none => exact .value
  | some w => exact (releaseWallet_stays (keepsHandle_update fun _ => rfl)).latched

theorem openWith_latched {kind : String} {p : Json} {o : OpenParams} {plan : Plan}
    : (openWith kind p o plan).Latched := by
  have looks : Worker.Stays KeepsHandle
      (Worker.locked .unique do
        let m ← Worker.read
        Pure.pure m.wallet.isSome) :=
    .locked (.bind .read fun _ => .value)
  refine looks.latched.bind fun isOpen => .ite .value ?_
  refine Worker.Latched.bind (Worker.Stays.latched .setState) fun _ => ?_
  refine Worker.Latched.bind (Worker.Stays.latched .read) fun m => ?_
  refine Worker.Latched.bind (Worker.Stays.latched .lib) fun _ => ?_
  refine .andThen obtainWallet_stays.latched fun w? => .andThen checkWallet_stays.latched fun w =>
    .andThen initWallet_stays.latched fun _ => ?_
  refine waitOffline_stays.latched.bind fun _ => trustDaemon_stays.latched.bind fun _ => ?_
  exact .andThen connectDaemon_stays.latched fun _ => startWallet_stays.latched.bind fun _ =>
    publishWallet_latched

theorem doOpenLike_latched {kind : String} {p : Json} : (doOpenLike kind p).Latched := by
  refine Worker.Latched.bind (Worker.Stays.latched .orThrow) fun o => .ite .value (.ite .value ?_)
  refine Worker.Latched.bind (Worker.Stays.latched .resolve) fun node => ?_
  refine Worker.Latched.bind (Worker.Stays.latched .orThrow) fun policy => ?_
  cases policy with
  | leave out => exact .value
  | go plan => exact openWith_latched

theorem dispatch_latched {job : Job} : (dispatch job).Latched :=
  .ite doOpenLike_latched (.ite doClose_latched (.ite doRescan_stays.latched
    (.ite (doCreateTransaction_stays Calm.registers).latched
      (.ite (doCommit_stays Calm.drops).latched (.ite (doDispose_stays Calm.drops).latched
        (.ite doChangePassword_stays.latched .value))))))

theorem turn_latched : turn.Latched := by
  have dequeues : Worker.Latched (Program.perform Op.dequeue : Worker (Option (JobPtr × Job))) :=
    fun _ => ⟨nofun, fun _ _ _ => trivial⟩
  have settles (ptr : JobPtr) (job : Job) (out : Json) : (settleJob ptr job out).Stays KeepsHandle :=
    .bind ⟨nofun, fun _ => Worker.Stays.orThrow⟩ fun _ => .guarded (.tell nofun) fun _ => .value
  refine dequeues.bind fun front => .guarded ?_ fun _ => .value
  cases front with
  | none => exact tick_stays.latched
  | some front =>
      exact resetLocksOnce_stays.latched.bind fun _ =>
        (dispatch_latched.guarded fun _ => .value).bind fun out => (settles _ _ out).latched

/-! ### The threads together -/

namespace Shared

instance {l : RwLock Actor} {i : Actor} : Decidable (l.Holds i) :=
  inferInstanceAs (Decidable (l.writer = some i ∨ i ∈ l.readers))

/-- What a thread knows of the handle. -/
def grip (i : Actor) (s : Shared Λ) : Grip :=
  if s.lock.Holds i then some s.world.mem.wallet else none

theorem holds_of_grip {s : Shared Λ} {i : Actor} (grips : s.grip i ≠ none) : s.lock.Holds i := by
  by_contra free
  exact grips (if_neg free)

/-- The worker holds the handle alone. -/
def alone (s : Shared Λ) : Bool := s.lock.writer = some .worker

/-- Where a thread may make which call. -/
def Guard : ∀ i : Actor, Shared Λ → i.Op → Prop
  | .worker => fun s op => AloneGuard s.alone op
  | .probe => fun s op => Grip.guard (s.grip .probe) op
  | .call n => fun s op => Grip.guard (s.grip (.call n)) op

/-- What others leave to a thread. -/
structure Spares (i : Actor) (s s' : Shared Λ) : Prop where
  lock : s.lock.SameFor i s'.lock
  wallet : s.lock.Holds i → s'.world.mem.wallet = s.world.mem.wallet
  opened : s.lock.Holds i → s'.opened = s.opened
  library : s.lock.writer = some i → s'.library = s.library
  notes : s'.notes i = s.notes i
  requests : ∀ n, i = .call n → s'.requests n = s.requests n

variable {i j : Actor} {s s' s'' : Shared Λ}

theorem Spares.refl : Spares i s s :=
  ⟨.refl, fun _ => rfl, fun _ => rfl, fun _ => rfl, rfl, fun _ _ => rfl⟩

theorem Spares.trans (first : Spares i s s') (second : Spares i s' s'') : Spares i s s'' where
  lock := first.lock.trans second.lock
  wallet holds := (second.wallet (first.lock.holds.mpr holds)).trans (first.wallet holds)
  opened holds := (second.opened (first.lock.holds.mpr holds)).trans (first.opened holds)
  library writes := (second.library (first.lock.writer.mpr writes)).trans (first.library writes)
  notes := second.notes.trans first.notes
  requests n same := (second.requests n same).trans (first.requests n same)

theorem Spares.grip (spares : Spares i s s') : s'.grip i = s.grip i := by
  unfold Shared.grip
  by_cases holds : s.lock.Holds i
  · rw [if_pos holds, if_pos (spares.lock.holds.mpr holds), spares.wallet holds]
  · rw [if_neg holds, if_neg (mt spares.lock.holds.mp holds)]

theorem grip_of_holds (holds : s.lock.Holds i) : s.grip i ≠ none := by
  rw [grip, if_pos holds]
  exact nofun

theorem holds_take {l l' : RwLock Actor} {mode : LockMode} (taken : mode.take? l i = some l')
    : l'.Holds i := by
  cases mode with
  | shared =>
      obtain ⟨_, _, readers⟩ := RwLock.tryLockShared_eq_some.mp taken
      exact .inr (readers ▸ Finset.mem_insert_self i l.readers)
  | unique =>
      obtain ⟨_, _, writer, _⟩ := RwLock.tryLock_eq_some.mp taken
      exact .inl writer

theorem sameFor_take {l l' : RwLock Actor} {mode : LockMode} (other : j ≠ i)
    (taken : mode.take? l i = some l')
    : l.SameFor j l' := by
  cases mode with
  | shared => exact RwLock.sameFor_tryLockShared other taken
  | unique => exact RwLock.sameFor_tryLock other taken

theorem sameFor_give {l : RwLock Actor} {mode : LockMode} (other : j ≠ i)
    : l.SameFor j (mode.give l i) := by
  cases mode with
  | shared => exact RwLock.sameFor_unlockShared other
  | unique => exact RwLock.sameFor_unlock other

/-- A section that leaves the handle puts no wallet in place. -/
theorem openedBy_same {world : World} (same : world.mem.wallet = s.world.mem.wallet)
    : s.openedBy world = s.opened := by
  unfold openedBy
  rw [same]
  cases s.world.mem.wallet <;> rfl

/-- Only a section of the worker writes the members. -/
theorem act_mem {rule : Surroundings} {w w' : World} {op : Op} {answer : op.Ans}
    (acts : World.act rule w op answer w')
    : (∃ f, op = .update f ∧ w' = { w with mem := f w.mem }) ∨ w'.mem = w.mem := by
  cases op with
  | update f => exact .inl ⟨f, rfl, acts.2⟩
  | lock mode => exact .inr (congrArg World.mem acts)
  | unlock mode => exact .inr (congrArg World.mem acts)
  | dequeue =>
      obtain ⟨_, rfl⟩ := acts
      exact .inr rfl
  | settle ptr out =>
      obtain ⟨_, rfl⟩ := acts
      exact .inr rfl
  | ask call =>
      obtain ⟨_, rfl⟩ := acts
      exact .inr rfl

/-- An action of the worker leaves the handle, unless the worker holds it alone. -/
theorem act_wallet {rule : Surroundings} {alone : Bool} {w w' : World} {op : Op} {answer : op.Ans}
    (guarded : AloneGuard alone op) (acts : World.act rule w op answer w') (shared : alone = false)
    : w'.mem.wallet = w.mem.wallet := by
  rcases act_mem acts with ⟨f, rfl, rfl⟩ | same
  · rcases guarded f rfl with held | keeps
    · cases held.symm.trans shared
    · exact keeps w.mem
  · rw [same]

theorem work_spares {rule : Surroundings} {op : Op} {answer : op.Ans} (other : j ≠ .worker)
    (guarded : Guard .worker s op) (acts : s.work rule op answer s')
    : Spares j s s' := by
  obtain ⟨world, lock, acted, locked, rfl⟩ := acts
  have same (holds : s.lock.Holds j) : world.mem.wallet = s.world.mem.wallet := by
    refine act_wallet guarded acted (decide_eq_false fun writes => ?_)
    exact other (holds.eq_writer writes)
  refine ⟨?_, same, fun holds => openedBy_same (same holds), fun _ => rfl, rfl, fun _ _ => rfl⟩
  cases op with
  | lock mode => exact sameFor_take other locked
  | unlock mode =>
      cases locked
      exact sameFor_give other
  | _ =>
      cases locked
      exact .refl

theorem read_spares {library : Library Λ} {op : ReadOp} {answer : op.Ans} (other : j ≠ i)
    (guarded : Grip.guard (s.grip i) op) (acts : s.read library i op answer s')
    : Spares j s s' := by
  have noted (s : Shared Λ) (op : ReadOp) (answer : op.Ans) : Spares j s (s.noted i op answer) :=
    ⟨.refl, fun _ => rfl, fun _ => rfl, fun _ => rfl, Function.update_of_ne other .., fun _ _ => rfl⟩
  have locked {lock : RwLock Actor} (same : s.lock.SameFor j lock) : Spares j s { s with lock } :=
    ⟨same, fun _ => rfl, fun _ => rfl, fun _ => rfl, rfl, fun _ _ => rfl⟩
  cases op with
  | members =>
      obtain ⟨_, rfl⟩ := acts
      exact noted s _ _
  | handle =>
      obtain ⟨_, rfl⟩ := acts
      exact noted s _ _
  | lock mode =>
      obtain ⟨lock, taken, rfl⟩ := acts
      exact locked (sameFor_take other taken)
  | tryLock =>
      obtain ⟨lock, taken, rfl⟩ := acts
      cases answer with
      | true => exact locked (sameFor_take other taken)
      | false =>
          cases taken
          exact locked .refl
  | unlock mode =>
      cases acts
      exact locked (sameFor_give other)
  | query c =>
      obtain ⟨after, _, rfl⟩ := acts
      have kept (writes : s.lock.writer = some j) : after = s.library :=
        absurd ((holds_of_grip guarded).eq_writer writes).symm other
      have answered : Spares j s { s with library := after } :=
        ⟨.refl, fun _ => rfl, fun _ => rfl, kept, rfl, fun _ _ => rfl⟩
      exact answered.trans (noted _ _ _)
  | socketsTo hostport drop =>
      cases acts
      exact .refl
  | record w connected height =>
      cases acts
      exact ⟨.refl, fun _ => rfl, fun _ => rfl, fun _ => rfl, rfl, fun _ _ => rfl⟩

/-- What an action of a client or the probe does: to the lock, to its notes, to the library, or to
the members. -/
theorem read_cases {library : Library Λ} {op : ReadOp} {answer : op.Ans}
    (acts : s.read library i op answer s')
    : (∃ lock, s' = { s with lock })
      ∨ (∃ found, s' = s.noted i op found)
      ∨ (∃ c result after, op = .query c ∧ library s.library i c result after
        ∧ s' = { s with library := after }.noted i (.query c) result)
      ∨ ∃ w connected height, op = .record w connected height
        ∧ s' = s.recorded w connected height := by
  cases op with
  | members => exact .inr (.inl ⟨answer, acts.2⟩)
  | handle => exact .inr (.inl ⟨answer, acts.2⟩)
  | lock mode =>
      obtain ⟨lock, _, rfl⟩ := acts
      exact .inl ⟨lock, rfl⟩
  | tryLock =>
      obtain ⟨lock, _, rfl⟩ := acts
      exact .inl ⟨lock, rfl⟩
  | unlock mode => exact .inl ⟨_, acts⟩
  | query c =>
      obtain ⟨after, answered, rfl⟩ := acts
      exact .inr (.inr (.inl ⟨c, answer, after, rfl, answered, rfl⟩))
  | socketsTo hostport drop => exact .inl ⟨s.lock, acts⟩
  | record w connected height => exact .inr (.inr (.inr ⟨w, connected, height, rfl, acts⟩))

/-- What a thread reads leaves the requests, and the notes of others. -/
theorem read_quiet {library : Library Λ} {op : ReadOp} {answer : op.Ans}
    (acts : s.read library i op answer s')
    : s.requests = s'.requests ∧ ∀ j, j ≠ i → s'.notes j = s.notes j := by
  rcases read_cases acts with ⟨_, rfl⟩ | ⟨_, rfl⟩ | ⟨_, _, _, _, _, rfl⟩ | ⟨_, _, _, _, rfl⟩
  · exact ⟨rfl, fun _ _ => rfl⟩
  · exact ⟨rfl, fun _ other => Function.update_of_ne other ..⟩
  · exact ⟨rfl, fun _ other => Function.update_of_ne other ..⟩
  · exact ⟨rfl, fun _ _ => rfl⟩

theorem host_spares (hosted : s.host s') : Spares j s s' := by
  obtain ⟨world, hosted, rfl⟩ := hosted
  refine ⟨.refl, fun _ => ?_, fun _ => rfl, fun _ => rfl, rfl, fun _ _ => rfl⟩
  cases hosted <;> rfl

end Shared

namespace Module

open Shared

variable {rule : Surroundings} {library : Library Λ}

/-- Rules of the module that may ask more of its calls and of its host. -/
structure Refines
    (rules : Pool.Rules Actor Actor.Op Actor.Ans (fun _ => Exn) Actor.Out (Shared Λ))
    (rule : Surroundings) (library : Library Λ)
    : Prop where
  act : rules.act = Module.act rule library
  starts : rules.starts = Module.starts
  others : ∀ s s', rules.others s s' → s.host s'

theorem refines_rules : Refines (rules rule library) rule library := ⟨rfl, rfl, fun _ _ => id⟩

variable {always : Shared Λ → Prop}

/-- From any state a thread that is gripped calls as it may. -/
theorem secure_of_gripped {i : Actor} {p : Reader α} {rely : Rely ReadOp (Shared Λ)}
    (spares : ∀ op s s', rely op s s' → Spares i s s') (gripped : p.Gripped) (s : Shared Λ)
    : p.Secure (Shared.read library i) always rely (fun s op => Grip.guard (s.grip i) op)
        (fun _ _ => True) s := by
  refine Heeds.secure (gripped (s.grip i)) (fun op s s' step => (spares op s s' step).grip) ?_
    (fun _ _ _ guarded => guarded) (fun _ _ _ => trivial) fun _ _ _ => trivial
  intro s op answer s' _ guarded acts
  cases op with
  | members =>
      obtain ⟨_, rfl⟩ := acts
      rfl
  | handle =>
      obtain ⟨found, rfl⟩ := acts
      refine ⟨rfl, fun held holds => ?_⟩
      have holder := holds_of_grip guarded
      rw [grip, if_pos holder] at holds
      exact found.trans (Option.some.inj holds)
  | lock mode =>
      obtain ⟨lock, taken, rfl⟩ := acts
      exact grip_of_holds (holds_take taken)
  | tryLock =>
      obtain ⟨lock, taken, rfl⟩ := acts
      cases answer with
      | true =>
          have holds : lock.Holds i := holds_take taken
          exact grip_of_holds holds
      | false =>
          cases taken
          rfl
  | unlock mode => trivial
  | query c =>
      obtain ⟨after, _, rfl⟩ := acts
      rfl
  | socketsTo hostport drop =>
      cases acts
      rfl
  | record w connected height =>
      cases acts
      rfl

/-- The same of what the worker runs. -/
theorem secure_of_latched {p : Worker Unit} {rely : Rely Op (Shared Λ)}
    (spares : ∀ op s s', rely op s s' → Spares .worker s s') (latched : p.Latched) (s : Shared Λ)
    : p.Secure (Shared.work rule) always rely (fun s op => AloneGuard s.alone op)
        (fun _ _ => True) s := by
  refine Heeds.secure (latched s.alone) ?_ ?_ (fun _ _ _ guarded => guarded)
    (fun _ _ _ => trivial) fun _ _ _ => trivial
  · exact fun op s s' step => decide_eq_decide.mpr (spares op s s' step).lock.writer
  · intro s op answer s' _ _ acts
    obtain ⟨world, lock, _, locked, rfl⟩ := acts
    cases op with
    | lock mode =>
        cases mode with
        | shared => trivial
        | unique =>
            obtain ⟨_, _, writer, _⟩ := RwLock.tryLock_eq_some.mp locked
            exact decide_eq_true writer
    | unlock mode => cases mode <;> trivial
    | _ =>
        cases locked
        rfl

variable {rules : Pool.Rules Actor Actor.Op Actor.Ans (fun _ => Exn) Actor.Out (Shared Λ)}

/-- What is shown of the direct calls, and what the others leave to each besides what its lock
spares it. -/
structure Contract
    (rules : Pool.Rules Actor Actor.Op Actor.Ans (fun _ => Exn) Actor.Out (Shared Λ))
    (library : Library Λ) (always : Shared Λ → Prop)
    where
  more : Actor → Shared Λ → Shared Λ → Prop
  guard : Nat → Shared Λ → ReadOp → Prop
  ends : Nat → Request → Except Exn Json → Shared Λ → Prop
  refl : ∀ i s, more i s s
  trans : ∀ i s s' s'', more i s s' → more i s' s'' → more i s s''
  calls : ∀ (t : Module Λ) (i : Actor) op answer s', (t.rest i).head = some op → rules.may t i op →
    Shared.Guard i t.state op → rules.act i t.state op answer s' → ∀ j, j ≠ i → more j t.state s'
  asks : ∀ (s : Shared Λ) n request j, j ≠ .call n →
    more j s { s with requests := Function.update s.requests n (some request) }
  hosts : ∀ (s s' : Shared Λ) j, s.host s' → more j s s'
  bodies : ∀ n (request : Request) (s : Shared Λ), s.requests n = none → always s →
    request.body.Secure (Shared.read library (.call n)) always
      (fun _ s s' => Spares (.call n) s s' ∧ more (.call n) s s') (guard n) (ends n request)
      { s with requests := Function.update s.requests n (some request) }

namespace Contract

variable (contract : Contract rules library always)

def terms : Pool.Terms Actor Actor.Op (fun _ => Exn) Actor.Out (Shared Λ) where
  rely i _ s s' := Spares i s s' ∧ contract.more i s s'
  guard
    | .worker => Shared.Guard .worker
    | .probe => Shared.Guard .probe
    | .call n => fun s op => Shared.Guard (.call n) s op ∧ contract.guard n s op
  ends
    | .worker | .probe => fun _ _ => True
    | .call n => fun result s =>
        ∀ request, s.requests n = some request → contract.ends n request result s

variable {contract}

theorem guarded_of_terms {i : Actor} {op : i.Op} {s : Shared Λ}
    (guarded : contract.terms.guard i s op)
    : Shared.Guard i s op := by
  cases i with
  | worker => exact guarded
  | probe => exact guarded
  | call n => exact guarded.1

/-- Which request a call is of stays known to its end. -/
private theorem known (n : Nat) (request : Request) (p : Reader Json) {s : Shared Λ}
    (asked : s.requests n = some request)
    : p.Secure (Shared.read library (.call n)) always
        (fun _ s s' => Spares (.call n) s s' ∧ contract.more (.call n) s s') (fun _ _ => True)
        (fun _ s => s.requests n = some request) s := by
  have kept (s s' : Shared Λ) (step : Spares (.call n) s s' ∧ contract.more (.call n) s s')
      : s'.requests n = s.requests n := step.1.requests n rfl
  induction p generalizing s with
  | pure value => exact fun s' _ step => (kept s s' step).trans asked
  | throw error => exact fun s' _ step => (kept s s' step).trans asked
  | call op next ih =>
      refine fun s' _ step => ⟨trivial, fun answer s'' acts _ => ih answer ?_⟩
      rw [← (read_quiet acts).1]
      exact (kept s s' step).trans asked

theorem agree (refines : Refines rules rule library) : contract.terms.Agree rules always := by
  have spares (i : Actor) (s s' : Shared Λ) (step : Spares i s s' ∧ contract.more i s s')
      : Spares i s s' := step.1
  have left := contract.calls
  refine ⟨?_, fun i _ s => ⟨.refl, contract.refl i s⟩, ?_, ?_, ?_⟩
  · exact fun i _ s s' s'' first second =>
      ⟨first.1.trans second.1, contract.trans i s s' s'' first.2 second.2⟩
  · intro t i op answer s' waits may _ _ guarded acts j other
    refine ⟨?_, left t i op answer s' waits may (guarded_of_terms guarded) acts j other⟩
    rw [refines.act] at acts
    cases i with
    | worker => exact work_spares other guarded acts
    | probe => exact read_spares other guarded acts
    | call n => exact read_spares other guarded.1 acts
  · intro t i p s' started now _ _
    rw [refines.starts] at started
    cases i with
    | worker =>
        obtain ⟨_, rfl, rfl⟩ := started
        refine ⟨?_, fun j _ => ⟨.refl, contract.refl j _⟩⟩
        rw [refines.act]
        exact secure_of_latched (fun _ => spares .worker) turn_latched _
    | probe =>
        obtain ⟨_, rfl, rfl⟩ := started
        refine ⟨?_, fun j _ => ⟨.refl, contract.refl j _⟩⟩
        rw [refines.act]
        exact secure_of_gripped (fun _ => spares .probe) probeRound_gripped _
    | call n =>
        obtain ⟨first, request, rfl, rfl⟩ := started
        have asked := Function.update_self n (some request) t.state.requests
        refine ⟨?_, fun j other => ⟨?_, contract.asks _ _ _ j other⟩⟩
        · rw [refines.act]
          refine (Secure.and (secure_of_gripped (fun _ => spares (.call n)) request.gripped _) ((contract.bodies n request _ first now).and
            (known n request request.body asked))).mono ?_ ?_
          · exact fun s op guarded => ⟨guarded.1, guarded.2.1⟩
          · rintro result s ⟨_, ended, same⟩ request' asked'
            cases same.symm.trans asked'
            exact ended
        · refine ⟨.refl, fun _ => rfl, fun _ => rfl, fun _ => rfl, rfl, fun m same => ?_⟩
          exact Function.update_of_ne (fun equal => other (same.trans (congrArg Actor.call equal))) ..
  · exact fun t s' hosted _ _ j => ⟨host_spares (refines.others _ _ hosted),
      contract.hosts _ _ j (refines.others _ _ hosted)⟩

variable {hasNotify : Bool} {l : Λ} {t : Module Λ}

theorem holds (refines : Refines rules rule library)
    (facts : ∀ t, Pool.Reach rules (start hasNotify l) t → always t.state)
    (reach : Pool.Reach rules (start hasNotify l) t) (i : Actor)
    : contract.terms.Holds rules always t i := by
  refine reach.secure (agree refines) facts (fun i => ?_) i
  cases i with
  | worker => exact fun _ _ _ => trivial
  | probe => exact fun _ _ _ => trivial
  | call n =>
      intro s' _ step request asked
      cases (step.1.requests n rfl).symm.trans asked

/-- In every run a direct call is answered as is shown of it. -/
theorem ended (contract : Contract rules library always) (refines : Refines rules rule library)
    (facts : ∀ t, Pool.Reach rules (start hasNotify l) t → always t.state)
    (reach : Pool.Reach rules (start hasNotify l) t) {n : Nat} {request : Request}
    (asked : t.state.requests n = some request) {answer : Json}
    (returned : t.rest (.call n) = .pure answer)
    : contract.ends n request (.ok answer) t.state :=
  (holds refines facts reach (.call n)).ended (agree refines) (facts t reach) returned request asked

/-- In every run a direct call is where it may be. -/
theorem waiting (contract : Contract rules library always) (refines : Refines rules rule library)
    (facts : ∀ t, Pool.Reach rules (start hasNotify l) t → always t.state)
    (reach : Pool.Reach rules (start hasNotify l) t) {n : Nat} {op : ReadOp}
    (waits : (t.rest (.call n)).head = some op)
    : contract.guard n t.state op :=
  ((holds refines facts reach (.call n)).guarded (agree refines) (facts t reach) waits).2

/-- The contract that asks for nothing. -/
def free : Contract rules library always where
  more _ _ _ := True
  guard _ _ _ := True
  ends _ _ _ _ := True
  refl _ _ := trivial
  trans _ _ _ _ _ _ := trivial
  calls _ _ _ _ _ _ _ _ _ _ _ := trivial
  asks _ _ _ _ _ := trivial
  hosts _ _ _ _ := trivial
  bodies _ _ _ _ _ := secure_any (fun _ _ => trivial) (fun _ _ => trivial) _ _

end Contract

/-- A call that was not made does nothing. -/
theorem Refines.unasked (refines : Refines rules rule library) {hasNotify : Bool} {l : Λ}
    {t : Module Λ} {n : Nat} (reach : Pool.Reach rules (start hasNotify l) t)
    (unasked : t.state.requests n = none)
    : t.rest (.call n) = .pure .null ∧ t.state.notes (.call n) = [] := by
  induction reach with
  | refl => exact ⟨rfl, rfl⟩
  | @tail t t' _ step ih =>
      cases step with
      | @call i op next answer s' waits _ acts =>
          rw [refines.act] at acts
          have same : t.state.requests = s'.requests ∧ ∀ j, j ≠ i → s'.notes j = t.state.notes j := by
            cases i with
            | worker =>
                obtain ⟨_, _, _, _, rfl⟩ := acts
                exact ⟨rfl, fun _ _ => rfl⟩
            | probe => exact (read_quiet acts).imp_right fun notes j other => notes j other
            | call m => exact (read_quiet acts).imp_right fun notes j other => notes j other
          have before := ih (same.1 ▸ unasked)
          have other : Actor.call n ≠ i := by
            rintro rfl
            rw [before.1] at waits
            cases waits
          rw [Pool.resume_other other]
          exact ⟨before.1, (same.2 _ other).trans before.2⟩
      | @start i p s' starts =>
          rw [refines.starts] at starts
          cases i with
          | worker =>
              obtain ⟨_, rfl, rfl⟩ := starts
              rw [Pool.resume_other (show Actor.call n ≠ .worker from nofun)]
              exact ih unasked
          | probe =>
              obtain ⟨_, rfl, rfl⟩ := starts
              rw [Pool.resume_other (show Actor.call n ≠ .probe from nofun)]
              exact ih unasked
          | call m =>
              obtain ⟨_, request, rfl, rfl⟩ := starts
              have unasked : Function.update t.state.requests m (some request) n = none := unasked
              have other : n ≠ m := by
                rintro rfl
                rw [Function.update_self] at unasked
                cases unasked
              rw [Function.update_of_ne other] at unasked
              rw [Pool.resume_other fun same => other (Actor.call.inj same)]
              exact ih unasked
      | other stepped =>
          obtain ⟨_, _, rfl⟩ := refines.others _ _ stepped
          exact ih unasked

/-- In every run each thread makes each call where it may. -/
theorem Refines.guarded (refines : Refines rules rule library) {hasNotify : Bool} {l : Λ}
    {t : Module Λ} {i : Actor} {op : i.Op} (reach : Pool.Reach rules (start hasNotify l) t)
    (waits : (t.rest i).head = some op)
    : Shared.Guard i t.state op := by
  let free : Contract rules library fun _ => True := .free
  have agree : free.terms.Agree rules fun _ => True := Contract.agree refines
  have holds : free.terms.Holds rules (fun _ => True) t i :=
    Contract.holds refines (fun _ _ => trivial) reach i
  exact Contract.guarded_of_terms (holds.guarded agree trivial waits)

end Module

end MoneroWalletCore.Runtime
