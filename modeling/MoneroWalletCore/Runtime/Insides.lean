import MoneroWalletCore.Runtime.Sections
import MoneroWalletCore.Runtime.TurnInvariants

/-! The worker's bodies by their scopes. What is done while the handle is held neither takes it
again nor labels, but for the close; so a fact about locking or about labels is read off the
scopes, and walked through the few bodies that are made of them.
-/

namespace MoneroWalletCore.Runtime

open Program

variable {α : Type} {allowed : Op → Prop}

/-- The files that a call names. A store or a commit without a name is to the wallet's own. -/
def Lib.paths : Lib → List String
  | .walletExists path | .openWallet path .. | .createWallet path .. | .recoveryWallet path ..
  | .createWalletFromKeys path .. | .verifyWalletPassword path .. => [path]
  | .store _ path | .commit _ path _ => if path = "" then [] else [path]
  | _ => []

/-- The actions of a body besides locking, labelling and naming files. -/
class Insides (allowed : Op → Prop) : Prop where
  reports : Reports allowed
  libs : ∀ c, c.paths = [] → allowed (.ask (.lib c))
  resumes : ∀ w, allowed (.ask (.destructor (.startRefresh w)))
  resolves : ∀ network, allowed (.ask (.resolve network))
  times : allowed (.ask .now)
  sleeps : ∀ millis, allowed (.ask (.sleep millis))
  sockets : ∀ hostport drop, allowed (.ask (.socketsTo hostport drop))
  registers : ∀ pt, allowed (.update (registered pt))
  drops : ∀ handle, allowed (.update (dropped handle))
  ticks : ∀ height now, allowed (.update (ticked height now))

/-- With the section that labels, and its event. -/
class Labelling (allowed : Op → Prop) : Prop extends Insides allowed where
  labels : ∀ s error, allowed (.update (labelled s error))
  states : ∀ payload, allowed (.ask (.emit "walletStateChanged" payload))

/-- With every other section of the members. A bad name is never assigned. -/
class Assigning (allowed : Op → Prop) : Prop extends Labelling allowed where
  publishes : ∀ w, allowed (.update (withWallet w))
  describes : ∀ o node addr now, badName o.name = false →
    allowed (.update (described o node addr now))
  takes : allowed (.update withoutWallet)
  forgets : allowed (.update forgotten)
  moves : ∀ node error now, allowed (.update (moved node error now))

/-- A scope that holds the handle, and stays within a class. -/
def Worker.Scoped (allowed : Op → Prop) (p : Worker α) : Prop :=
  ∃ mode body, p = Worker.locked mode body ∧ Worker.Stays allowed body

theorem Worker.Stays.scoped {mode : LockMode} {body : Worker α} (stays : body.Stays allowed)
    : (Worker.locked mode body).Scoped allowed :=
  ⟨mode, body, rfl, stays⟩

section Insides

variable [Insides allowed]

theorem lib_inside {c : Lib} (unnamed : c.paths = []) : (Worker.lib c).Stays allowed :=
  .call (Insides.libs c unnamed)

theorem read_inside : Worker.read.Stays allowed := .update Insides.reports.reads

theorem resolve_inside {network : String} : (Worker.resolve network).Stays allowed :=
  Worker.within_resolve.mpr ⟨Insides.resolves network, fun _ => trivial, fun _ => trivial⟩

theorem now_inside : Worker.now.Stays allowed := ⟨Insides.times, fun _ => trivial⟩

theorem refreshPaused_inside {w : Wallet} {body : Worker α} (stays : body.Stays allowed)
    : Worker.Stays allowed (refreshPaused w body) :=
  .bind (lib_inside rfl) fun _ => .ensure stays ⟨Insides.resumes _, fun _ => trivial⟩

/-- A scope that does something with the wallet that is open. -/
theorem onWallet_scoped {mode : LockMode} {none_ : α} {body : Wallet → Worker α}
    (stays : ∀ w, (body w).Stays allowed)
    : (Worker.locked mode do
        let m ← Worker.read
        match m.wallet with
        | none => Pure.pure none_
        | some w => body w).Scoped allowed := by
  refine Worker.Stays.scoped (.bind read_inside fun m => ?_)
  cases m.wallet with
  | none => exact .value
  | some w => exact stays w

/-! ### Transactions and passwords -/

theorem keepTx_inside {dst : String} {pt? : Option PendingTx} : (keepTx dst pt?).Stays allowed := by
  cases pt? with
  | none => exact .value
  | some pt =>
      refine .bind (lib_inside rfl) fun _ => .ite (.bind (lib_inside rfl) fun _ => .value) ?_
      refine .bind (.update (Insides.registers pt)) fun _ => .bind (lib_inside rfl) fun _ =>
        .bind (lib_inside rfl) fun _ => .bind (lib_inside rfl) fun _ => ?_
      exact .bind (lib_inside rfl) fun _ => .bind (lib_inside rfl) fun _ => .value

theorem buildTx_inside {w : Wallet} {p : Json} : (buildTx w p).Stays allowed := by
  refine .bind (lib_inside rfl) fun _ => .ite .value (.bind .orThrow fun text => ?_)
  cases (parseAtomic text).filter (· ≠ 0) with
  | none => exact .value
  | some amount =>
      exact .bind .orThrow fun _ => .bind read_inside fun _ => .ite .value
        (.bind .orThrow fun _ => .bind .orThrow fun _ => .bind .orThrow fun _ =>
          .bind (lib_inside rfl) fun _ => keepTx_inside)

theorem sending_scoped {body : Wallet → Worker Json} (stays : ∀ w, (body w).Stays allowed)
    : (sending body).Scoped allowed :=
  onWallet_scoped fun w => .bind (.bind read_inside fun _ => .value) fun _ =>
    .ite .value (refreshPaused_inside (stays w))

theorem doCommit_scoped {p : Json} : (doCommit p).Scoped allowed := by
  refine sending_scoped fun w => .bind .orThrow fun handle => .bind read_inside fun m => ?_
  cases m.pendingTx.lookup handle with
  | none => exact .value
  | some pt =>
      refine .bind (lib_inside rfl) fun _ => .bind (lib_inside rfl) fun _ =>
        .ite ?_ (.bind (lib_inside rfl) fun _ => .value)
      exact .bind (.update (Insides.drops handle)) fun _ => .bind (lib_inside rfl) fun _ => .value

theorem doDispose_scoped {p : Json} : (doDispose p).Scoped allowed := by
  refine Worker.Stays.scoped (.bind .orThrow fun handle => .bind read_inside fun m => ?_)
  cases m.pendingTx.lookup handle with
  | none => exact .value
  | some pt => exact .bind (.update (Insides.drops handle)) fun _ => .value

theorem doChangePassword_scoped {p : Json}
    (verifies : ∀ file password, allowed (.ask (.lib (.verifyWalletPassword file password false 1))))
    : (doChangePassword p).Scoped allowed := by
  refine onWallet_scoped fun w => refreshPaused_inside (.bind .orThrow fun _ =>
    .bind (.bind read_inside fun _ => .call (verifies _ _)) fun _ => .ite .value ?_)
  exact .bind .orThrow fun _ => .bind (lib_inside rfl) fun _ =>
    .ite (.bind (lib_inside rfl) fun _ => .value) (.bind (lib_inside rfl) fun _ => .value)

/-! ### Opening -/

omit [Insides allowed] in
theorem makeWallet_inside {kind : String} {p : Json} {password path : String} {nettype : Int}
    (names : ∀ c : Lib, c.paths = [cstr path] → allowed (.ask (.lib c)))
    : (makeWallet kind p password path nettype).Stays allowed :=
  .ite (.call (names _ rfl))
    (.ite (.bind .orThrow fun _ => .call (names _ rfl))
      (.ite
        (.bind .orThrow fun _ => .bind .orThrow fun _ => .bind .orThrow fun _ =>
          .call (names _ rfl))
        (.bind .orThrow fun _ => .bind .orThrow fun _ => .bind .orThrow fun _ =>
          .bind .orThrow fun _ => .call (names _ rfl))))

theorem awaitConnected_inside {w : Wallet} {looks : Nat}
    : (awaitConnected w looks).Stays allowed := by
  induction looks with
  | zero => exact .value
  | succ looks ih =>
      exact .bind (lib_inside rfl) fun _ =>
        .ite .value (.bind ⟨Insides.sleeps _, fun _ => trivial⟩ fun _ => ih)

theorem waitOffline_inside {plan : Plan} {w : Wallet} : (waitOffline plan w).Stays allowed :=
  .when (lib_inside rfl)

theorem trustDaemon_inside {plan : Plan} {w : Wallet} : (trustDaemon plan w).Stays allowed :=
  .ite (.bind .orThrow fun _ => lib_inside rfl) (.bind .value fun _ => lib_inside rfl)

theorem startWallet_inside {plan : Plan} {w : Wallet} : (startWallet plan w).Stays allowed :=
  .bind (lib_inside rfl) fun _ => .bind (.when (.bind (lib_inside rfl) fun _ => lib_inside rfl)) fun _ => lib_inside rfl

omit [Insides allowed] in
theorem restrictFiles_inside {path : String}
    (files : ∀ f ∈ [path, path ++ ".keys", path ++ ".address.txt"],
      allowed (.ask (.fileExists f)) ∧ allowed (.ask (.restrictPermissions f)))
    : (restrictFiles path).Within allowed (fun _ => True) (fun _ => False) := by
  have each (f : String) (names : f ∈ [path, path ++ ".keys", path ++ ".address.txt"])
      : (Program.bind (Worker.fileExists f) fun found =>
          Program.when found (Worker.restrictPermissions f)).Within allowed (fun _ => True)
            (fun _ => False) := by
    refine ⟨(files f names).1, fun found => within_when.mpr ⟨fun _ => ?_, fun _ => trivial⟩⟩
    exact ⟨(files f names).2, fun _ => trivial⟩
  have then_ {p q : Worker Unit} (first : p.Within allowed (fun _ => True) (fun _ => False))
      (rest : q.Within allowed (fun _ => True) (fun _ => False))
      : Program.Within (p.bind fun _ => q) allowed (fun _ => True) (fun _ => False) :=
    within_bind.mpr (first.mono (fun _ made => made) (fun _ _ => rest) fun _ left => left)
  exact then_ (each _ (by simp)) (then_ (each _ (by simp)) (then_ (each _ (by simp)) trivial))

/-! ### Moves -/

theorem goOffline_scoped {abandon : Bool} {node : Json} : (goOffline abandon node).Scoped allowed := by
  refine onWallet_scoped fun w => .bind (lib_inside rfl) fun _ => .bind (lib_inside rfl) fun _ =>
    .bind (.when ?_) fun _ => .bind (lib_inside rfl) fun _ => .bind (lib_inside rfl) fun _ => .value
  unfold dropCatchUp
  split
  · exact .bind ⟨Insides.sockets _ _, fun _ => trivial⟩ fun _ => .value
  · exact .value

theorem dialTor_scoped {node : Json} : (dialTor node).Scoped allowed := by
  refine onWallet_scoped fun w =>
    .ite (.bind (lib_inside rfl) fun _ => .ite ?_ (.bind (lib_inside rfl) fun _ => .value)) .value
  exact .bind (lib_inside rfl) fun _ => .bind (lib_inside rfl) fun _ => .bind (lib_inside rfl) fun _ =>
    .bind (lib_inside rfl) fun _ => .bind (lib_inside rfl) fun _ => .value

theorem observeWallet_scoped : observeWallet.Scoped allowed :=
  onWallet_scoped fun _ => .bind (lib_inside rfl) fun _ => .bind (lib_inside rfl) fun _ => .value

theorem notifyOpen_inside {network : String} {isOpen : Bool}
    : (notifyOpen network isOpen).Stays allowed := by
  have reports : Reports allowed := Insides.reports
  exact reports.notifyOpen.mono (fun _ made => made) (fun _ _ => trivial) fun _ _ => trivial

theorem resetLocksOnce_inside : resetLocksOnce.Stays allowed := by
  have reports : Reports allowed := Insides.reports
  exact reports.resetLocksOnce.mono (fun _ made => made) (fun _ _ => trivial) fun _ _ => trivial

end Insides

/-! ### Labels -/

section Labelling

variable [Labelling allowed]

theorem setState_inside {s : State} {error : String} : (setState s error).Stays allowed :=
  .bind (.update (Labelling.labels _ _)) fun _ =>
    Worker.within_emit.mpr ⟨Labelling.states _, fun _ => trivial, fun _ => trivial⟩

theorem refuseOpen_inside {label msg : String}
    : Worker.Stays allowed (refuseOpen label msg : Worker (Stage α)) :=
  .bind setState_inside fun _ => .value

theorem obtainWallet_inside {kind : String} {p : Json} {o : OpenParams} {path : String}
    {nettype : Int} (names : ∀ c : Lib, c.paths = [cstr path] → allowed (.ask (.lib c)))
    : (obtainWallet kind p o path nettype).Stays allowed :=
  .bind (.call (names _ rfl)) fun _ => .ite refuseOpen_inside
    (.ite refuseOpen_inside (.bind (makeWallet_inside names) fun _ => .value))

theorem checkWallet_inside {network : String} {nettype : Int} {w? : Option Wallet}
    : (checkWallet network nettype w?).Stays allowed := by
  cases w? with
  | none => exact .bind (lib_inside rfl) fun _ => refuseOpen_inside
  | some w =>
      refine .bind (lib_inside rfl) fun _ => .ite ?_ (.bind (lib_inside rfl) fun _ => .ite ?_ .value)
      · exact .bind (lib_inside rfl) fun _ => .bind (lib_inside rfl) fun _ => refuseOpen_inside
      · exact .bind (lib_inside rfl) fun _ => refuseOpen_inside

theorem initWallet_inside {kind network : String} {plan : Plan} {w : Wallet}
    : (initWallet kind network plan w).Stays allowed :=
  .bind (.when (lib_inside rfl)) fun _ => .bind (lib_inside rfl) fun _ => .ite .value
    (.bind (lib_inside rfl) fun _ => .bind (lib_inside rfl) fun _ => refuseOpen_inside)

theorem connectDaemon_inside {plan : Plan} {w : Wallet} : (connectDaemon plan w).Stays allowed :=
  .ite
    (.bind awaitConnected_inside fun _ =>
      .ite (.bind (lib_inside rfl) fun _ => refuseOpen_inside) .value)
    .value

end Labelling

/-! ### Whole bodies -/

/-- The files of a wallet may be named. -/
structure FilesInside (allowed : Op → Prop) (path : String) : Prop where
  libs : ∀ c : Lib, c.paths = [cstr path] → allowed (.ask (.lib c))
  files : ∀ f ∈ [path, path ++ ".keys", path ++ ".address.txt"],
    allowed (.ask (.fileExists f)) ∧ allowed (.ask (.restrictPermissions f))

/-- What holds of a body by what is inside its scopes and outside of them. -/
structure Composes (allowed : Op → Prop) (Holds : ∀ α : Type, Worker α → Prop) : Prop where
  stays : ∀ {α} {p : Worker α}, p.Stays allowed → Holds α p
  scope : ∀ {α} {p : Worker α}, p.Scoped allowed → Holds α p
  bind : ∀ {α β} {p : Worker α} {next : α → Worker β}, Holds α p →
    (∀ value, Holds β (next value)) → Holds β (p.bind next)
  guarded : ∀ {α} {p : Worker α} {handler : Exn → Worker α}, Holds α p →
    (∀ error, Holds α (handler error)) → Holds α (p.tryCatch handler)

/-- Also of a body that names files, by what is known of the members that it reads. -/
structure ComposesNamed (allowed : Op → Prop) (known : Mem → Prop)
    (Holds : ∀ α : Type, Worker α → Prop)
    : Prop extends Composes allowed Holds where
  reads : ∀ {β} {next : Mem → Worker β}, (∀ m, known m → Holds β (next m)) →
    Holds β (Worker.read.bind next)
  names : ∀ m name, known m → badName name = false → FilesInside allowed (pathIn m.walletsDir name)

theorem holds_ite {Holds : Worker α → Prop} {condition : Prop} [Decidable condition]
    {p q : Worker α} (yes : Holds p) (no : ¬condition → Holds q)
    : Holds (if condition then p else q) := by
  split
  next => exact yes
  next fails => exact no fails

namespace Composes

variable {Holds : ∀ α : Type, Worker α → Prop} (composes : Composes allowed Holds)

include composes

theorem value {value : α} : Holds α (.pure value) := composes.stays .value

theorem andThen {stage : Worker (Stage α)} {next : α → Worker Json} (first : Holds _ stage)
    (rest : ∀ value, Holds Json (next value))
    : Holds Json (andThen stage next) := by
  refine composes.bind first fun ended => ?_
  cases ended with
  | leave out => exact composes.value
  | go value => exact rest value

variable [Assigning allowed]

theorem publishWallet {o : OpenParams} {plan : Plan} {path addr : String} {w : Wallet}
    (good : badName o.name = false) (names : FilesInside allowed path)
    : Holds Json (publishWallet o plan path addr w) := by
  have placed : Worker.Stays allowed (Worker.update (withWallet w)) :=
    .update (Assigning.publishes w)
  have restricts : (restrictFiles path).Stays allowed :=
    (restrictFiles_inside names.files).mono (fun _ made => made) (fun _ _ => trivial)
      fun _ _ => trivial
  refine composes.bind (composes.scope placed.scoped) fun _ => composes.stays ?_
  refine .bind now_inside fun _ => .bind (.update (Assigning.describes _ _ _ _ good)) fun _ => ?_
  refine .bind notifyOpen_inside fun _ => .bind restricts fun _ => ?_
  exact .bind setState_inside fun _ => .bind (lib_inside rfl) fun _ => .value

theorem doClose : Holds Json doClose := by
  have takes : takeWallet.Scoped allowed := onWallet_scoped fun _ =>
    .bind setState_inside fun _ => .bind (.update Assigning.takes) fun _ => .value
  refine composes.bind (composes.scope takes) fun held => ?_
  cases held with
  | none => exact composes.value
  | some w =>
      refine composes.stays (.bind (lib_inside rfl) fun _ => .bind (lib_inside rfl) fun _ => ?_)
      exact .bind (.update Assigning.forgets) fun _ => .bind notifyOpen_inside fun _ =>
        .bind setState_inside fun _ => .value

theorem doRescan : Holds Json doRescan :=
  composes.bind
    (composes.scope (onWallet_scoped fun _ => .bind (lib_inside rfl) fun _ => .value)) fun _ =>
      holds_ite (composes.stays (.bind setState_inside fun _ => .value)) fun _ => composes.value

theorem moveToTor {abandon : Bool} {resolved : Option Json}
    : Holds Unit (moveToTor abandon resolved) := by
  have moves (node : Json) (from_ : Route) : Holds Unit (moveWith abandon node from_) := by
    refine holds_ite composes.value fun _ => composes.bind (composes.scope goOffline_scoped) ?_
    refine fun _ => holds_ite composes.value fun _ =>
      composes.bind (composes.scope dialTor_scoped) fun dialled => ?_
    cases dialled with
    | none => exact composes.value
    | some error =>
        exact composes.stays (.bind now_inside fun _ =>
          .bind (.update (Assigning.moves _ _ _)) fun _ => setState_inside)
  refine composes.bind (composes.stays read_inside) fun m => ?_
  cases resolved with
  | some node => exact moves node m.route
  | none => exact composes.bind (composes.stays resolve_inside) fun node => moves node m.route

theorem tick : Holds Unit tick := by
  have follows {synced : Bool} : (followSync synced).Stays allowed :=
    .bind read_inside fun _ => .ite setState_inside (.ite setState_inside .value)
  refine composes.bind (composes.stays resetLocksOnce_inside) fun _ =>
    composes.bind (composes.scope observeWallet_scoped) fun seen => ?_
  cases seen with
  | none => exact composes.value
  | some seen =>
      have section_ {now : Nat} : Worker.Stays allowed (Worker.update (ticked seen.2 now)) :=
        .update (Insides.ticks _ _)
      refine composes.bind (composes.stays now_inside) fun now =>
        composes.bind (composes.stays section_) fun _ => composes.bind ?_ fun _ => composes.stays follows
      refine holds_ite composes.moveToTor fun _ => holds_ite ?_ fun _ => composes.value
      exact composes.bind (composes.stays resolve_inside) fun _ =>
        holds_ite composes.moveToTor fun _ => composes.value

end Composes

namespace ComposesNamed

variable {known : Mem → Prop} {Holds : ∀ α : Type, Worker α → Prop}
variable [Assigning allowed] (composes : ComposesNamed allowed known Holds)

include composes

theorem openWith {kind : String} {p : Json} {o : OpenParams} {plan : Plan}
    (good : badName o.name = false)
    : Holds Json (openWith kind p o plan) := by
  have looks : Worker.Stays allowed (Program.bind Worker.read fun m => .pure m.wallet.isSome) :=
    .bind read_inside fun _ => .value
  refine composes.bind (composes.scope looks.scoped) fun _ => holds_ite composes.value fun _ => ?_
  refine composes.bind (composes.stays setState_inside) fun _ => composes.reads fun m told => ?_
  have names := composes.names m o.name told good
  refine composes.bind (composes.stays (lib_inside rfl)) fun _ => ?_
  refine composes.andThen (composes.stays (obtainWallet_inside names.libs)) fun _ => ?_
  refine composes.andThen (composes.stays checkWallet_inside) fun w => ?_
  refine composes.andThen (composes.stays initWallet_inside) fun _ => ?_
  refine composes.bind (composes.stays waitOffline_inside) fun _ => ?_
  refine composes.bind (composes.stays trustDaemon_inside) fun _ => ?_
  refine composes.andThen (composes.stays connectDaemon_inside) fun _ => ?_
  exact composes.bind (composes.stays startWallet_inside) fun _ => composes.publishWallet good names

theorem doOpenLike {kind : String} {p : Json} : Holds Json (doOpenLike kind p) := by
  refine composes.bind (composes.stays .orThrow) fun o => holds_ite composes.value fun good => ?_
  refine holds_ite composes.value fun _ => composes.bind (composes.stays resolve_inside) fun node => ?_
  refine composes.bind (composes.stays .orThrow) fun policy => ?_
  cases policy with
  | leave out => exact composes.value
  | go plan => exact composes.openWith (Bool.not_eq_true _ ▸ good)

theorem dispatch (changes : ∀ p, Holds Json (doChangePassword p)) {job : Job}
    : Holds Json (dispatch job) := by
  refine holds_ite composes.doOpenLike fun _ => holds_ite composes.doClose fun _ => ?_
  refine holds_ite composes.doRescan fun _ => holds_ite ?_ fun _ => ?_
  · exact composes.scope (sending_scoped fun _ => buildTx_inside)
  refine holds_ite (composes.scope doCommit_scoped) fun _ => ?_
  refine holds_ite (composes.scope doDispose_scoped) fun _ => ?_
  exact holds_ite (changes _) fun _ => composes.value

/-- A job's turn, once it has been taken. The outcome is stored outside every scope. -/
theorem run (changes : ∀ p, Holds Json (doChangePassword p))
    (settles : ∀ ptr out, allowed (.settle ptr out)) {ptr : JobPtr} {job : Job}
    : Holds Unit (run ptr job) := by
  refine composes.bind (composes.stays resetLocksOnce_inside) fun _ => composes.bind ?_ fun out => ?_
  · exact composes.guarded (composes.dispatch changes) fun _ => composes.value
  · refine composes.stays (.bind ⟨settles _ _, fun _ => Worker.Stays.orThrow⟩ fun _ => ?_)
    exact .guarded (.tell (Insides.reports.tells _)) fun _ => .value

end ComposesNamed

/-! ### Turns -/

variable {rule : Surroundings} {Inv : View → Prop}

theorem Worker.Scoped.keeps {p : Worker α} (scope : p.Scoped allowed)
    (kept : ActionsKeep rule allowed Inv)
    : p.Keeps rule Inv := by
  obtain ⟨mode, body, rfl, stays⟩ := scope
  exact fun v holds => Worker.wp_locked.mpr (kept.body stays v holds)

theorem Worker.Keeps.ite {condition : Prop} [Decidable condition] {p q : Worker α}
    (yes : p.Keeps rule Inv) (no : q.Keeps rule Inv)
    : Worker.Keeps rule (if condition then p else q) Inv := by
  split
  · exact yes
  · exact no

theorem Worker.Keeps.value {value : α} : Worker.Keeps rule (.pure value : Worker α) Inv :=
  fun _ holds => holds

/-- What is left to show of an invariant that the actions inside the scopes keep: the bodies that
label. -/
structure BodiesKeep (rule : Surroundings) (allowed : Op → Prop) (Inv : View → Prop) : Prop where
  inside : ActionsKeep rule allowed Inv
  begins : ∀ v ptr job, Inv v → Inv (v.push (.began ptr job))
  settles : ∀ v ptr out state, Inv v → Inv (v.push (.settled ptr out state))
  opens : ∀ kind p, (doOpenLike kind p).Keeps rule Inv
  closes : doClose.Keeps rule Inv
  rescans : doRescan.Keeps rule Inv
  changes : ∀ p, (doChangePassword p).Keeps rule Inv
  moves : ∀ abandon resolved, (moveToTor abandon resolved).Keeps rule Inv
  follows : ∀ synced, (followSync synced).Keeps rule Inv

namespace BodiesKeep

variable [Insides allowed] (keeps : BodiesKeep rule allowed Inv)

include keeps

theorem resetLocksOnce : resetLocksOnce.Keeps rule Inv := by
  have reports : Reports allowed := Insides.reports
  exact fun _ holds => wp_mono (reports.resetLocksOnce.keeps keeps.inside holds)
    (fun _ _ => And.right) (fun _ _ => And.right)

theorem followRoute {synced : Bool} {now : Nat} {m : Mem}
    : (followRoute synced now m).Keeps rule Inv :=
  .ite (keeps.moves _ _)
    (.ite ((keeps.inside.body resolve_inside).bind fun _ => .ite (keeps.moves _ _) .value) .value)

theorem tick : tick.Keeps rule Inv := by
  refine keeps.resetLocksOnce.bind fun _ =>
    (observeWallet_scoped.keeps keeps.inside).bind fun seen => ?_
  cases seen with
  | none => exact .value
  | some seen =>
      refine (keeps.inside.body now_inside).bind fun now => ?_
      have section_ : Worker.Stays allowed (Worker.update (ticked seen.2 now)) :=
        .update (Insides.ticks _ _)
      exact (keeps.inside.body section_).bind fun _ => keeps.followRoute.bind fun _ =>
        keeps.follows _

theorem dispatch {job : Job} : (dispatch job).Keeps rule Inv := by
  refine .ite (keeps.opens _ _) (.ite keeps.closes (.ite keeps.rescans ?_))
  refine .ite ((sending_scoped fun _ => buildTx_inside).keeps keeps.inside) ?_
  refine .ite (doCommit_scoped.keeps keeps.inside) (.ite (doDispose_scoped.keeps keeps.inside) ?_)
  exact .ite (keeps.changes _) .value

theorem run {ptr : JobPtr} {job : Job} : (run ptr job).Keeps rule Inv := by
  have told {payload : Json} : Worker.Stays allowed
      ((Worker.emit "jobFinished" payload).tryCatch fun _ => .pure ()) :=
    .guarded (.tell (Insides.reports.tells payload)) fun _ => .value
  refine keeps.resetLocksOnce.bind fun _ v holds => ?_
  refine wp_bind.mpr (wp_tryCatch.mpr ?_)
  have settles (out : Json) (v' : View) (holds : Inv v')
      : (settleJob ptr job out).wp (View.act rule) (fun _ => Inv) (fun _ => Inv) v' := by
    simp only [settleJob, bind_def, wp_bind, wp_settle, Worker.wp_orThrow]
    exact ⟨fun _ _ => keeps.inside.body told _ (keeps.settles _ _ _ _ holds),
      fun _ _ => keeps.settles _ _ _ _ holds⟩
  exact wp_mono (keeps.dispatch v holds) (fun out v' => settles out v')
    (fun error v' => settles (caught error) v')

theorem turn : turn.Keeps rule Inv := by
  intro v holds
  refine wp_bind.mpr (wp_dequeue.mpr fun front => wp_tryCatch.mpr ?_)
  cases front with
  | none => exact keeps.tick v holds
  | some front => exact keeps.run _ (keeps.begins _ _ _ holds)

end BodiesKeep

end MoneroWalletCore.Runtime
