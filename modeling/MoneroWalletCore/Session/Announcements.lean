import MoneroWalletCore.Runtime.Insides
import MoneroWalletCore.Runtime.Replay

/-! The event of a state change against the members. Whatever changes what `status()` tells is
followed by the event in the same turn, so a client that keeps the last event has the status.
-/

namespace MoneroWalletCore.Runtime

open Program

variable {α : Type} {rule : Surroundings}

-----------------------------------------------------------------------------------------
-- What was told
-----------------------------------------------------------------------------------------

/-- The payload of a `walletStateChanged`. -/
def Event.told? : Event → Option Json
  | .asked (.emit event payload) _ _ => if event = "walletStateChanged" then some payload else none
  | _ => none

def lastTold (h : History) : Option Json := h.findSome? Event.told?

/-- What a client takes the status to be: that of a module just made, until it is told another. -/
def statusTold (h : History) : Json := (lastTold h).getD (statusLocked { hasNotify := false })

/-- Every payload was the status when it was told. -/
def Truthful (h : History) : Prop :=
  ∀ payload answer m, .asked (.emit "walletStateChanged" payload) answer m ∈ h →
    payload = statusLocked m

/-- The last payload is the status still. -/
structure Mirrors (v : View) : Prop where
  truthful : Truthful v.history
  last : statusTold v.history = statusLocked v.mem

/-- The calls that tell of no state change. -/
def Call.silent : Call → Bool
  | .emit event _ => event != "walletStateChanged"
  | _ => true

/-- An action that neither changes the status nor tells of one. -/
abbrev Mute : Op → Prop :=
  Acting (fun m m' => statusLocked m' = statusLocked m) Call.silent

@[simp] theorem statusLocked_own {m : Mem} : statusLocked m.own = statusLocked m := rfl

theorem Call.silent_told {c : Call} {answer : c.Answer} {m : Mem} (silent : c.silent = true)
    : (Event.asked c answer m).told? = none := by
  cases c with
  | emit event payload => simpa [Event.told?, Call.silent] using silent
  | _ => rfl

theorem Truthful.push {c : Call} {answer : c.Answer} {m : Mem} {h : History} (truthful : Truthful h)
    (silent : c.silent = true)
    : Truthful (.asked c answer m :: h) := by
  intro payload answer' m' told
  rcases List.mem_cons.mp told with same | before
  · cases same
    cases silent
  · exact truthful payload answer' m' before

theorem keepsTruthful : ActionsKeep rule Mute (fun v => Truthful v.history) :=
  ActionsKeep.acting (fun _ _ _ holds => holds) fun _ _ _ silent _ holds => holds.push silent

theorem keepsMirrors : ActionsKeep rule Mute Mirrors := by
  apply ActionsKeep.acting
  · intro v m assigned holds
    obtain ⟨o, same⟩ := assigned
    exact ⟨holds.truthful, holds.last.trans same.symm⟩
  · intro v c answer silent _ holds
    refine ⟨holds.truthful.push silent, ?_⟩
    have skipped : statusTold (.asked c answer v.mem :: v.history) = statusTold v.history := by
      simp only [statusTold, lastTold, List.findSome?_cons, Call.silent_told silent]
    exact skipped.trans holds.last

/-- A state change is told of, also by an event that does not get through. -/
theorem setState_tells {s : State} {error : String} {v : View} (truthful : Truthful v.history)
    : (setState s error).wp (View.act rule) (fun _ => Mirrors) (fun _ => Mirrors) v := by
  have tells (o : Others) (answer : Except Exn Unit)
      : Mirrors
          ((View.at (labelled s error (v.mem.under o)) v.history).push
            (.asked (.emit "walletStateChanged" (statusLocked (labelled s error (v.mem.under o))))
              answer (labelled s error (v.mem.under o)).own)) := by
    refine ⟨fun payload answer' m told => ?_, rfl⟩
    rcases List.mem_cons.mp told with same | before
    · cases same
      rfl
    · exact truthful payload answer' m before
  rw [wp_setState]
  intro o
  exact Worker.wp_emit.mpr ⟨fun _ _ => tells o _, fun _ _ => tells o _⟩

theorem setState_mirrors {s : State} {error : String} : (setState s error).Keeps rule Mirrors :=
  fun _ holds => setState_tells holds.truthful

-----------------------------------------------------------------------------------------
-- Silent bodies
-----------------------------------------------------------------------------------------

theorem ticked_status {height : UInt64} {now : Nat} (m : Mem)
    : statusLocked (ticked height now m) = statusLocked m := by
  unfold ticked progressed
  dsimp only
  split <;> split <;> rfl

instance : Insides Mute where
  reports :=
    { reads := fun _ => rfl, resets := fun _ => rfl, notifies := fun _ _ => rfl, tells := fun _ => rfl }
  libs _ _ := rfl
  resumes _ := rfl
  resolves _ := rfl
  times := rfl
  sleeps _ := rfl
  sockets _ _ := rfl
  registers _ _ := rfl
  drops _ _ := rfl
  ticks _ _ := ticked_status

namespace Worker

theorem Stays.mirrors {p : Worker α} (stays : p.Stays Mute) : p.Keeps rule Mirrors :=
  keepsMirrors.body stays

theorem Scoped.mirrors {p : Worker α} (scope : p.Scoped Mute) : p.Keeps rule Mirrors :=
  scope.keeps keepsMirrors

theorem Keeps.andThen {stage : Worker (Stage α)} {next : α → Worker Json}
    (first : stage.Keeps rule Mirrors) (rest : ∀ value, (next value).Keeps rule Mirrors)
    : Worker.Keeps rule (Runtime.andThen stage next) Mirrors := by
  refine first.bind fun ended => ?_
  cases ended with
  | leave out => exact .value
  | go value => exact rest value

end Worker

open Worker

theorem lib_mirrors {c : Lib} : (Worker.lib c).Keeps rule Mirrors := keepsMirrors.body (Worker.Stays.call rfl)

theorem read_mirrors : Worker.read.Keeps rule Mirrors := read_inside.mirrors

theorem resolve_mirrors {network : String} : (Worker.resolve network).Keeps rule Mirrors :=
  resolve_inside.mirrors

/-- Between a change of the members and its event nothing is thrown. -/
theorem truthful_then {quiet : Worker Unit} {next : Worker α} {v : View}
    (within : quiet.Within Mute (fun _ => True) (fun _ => False)) (truthful : Truthful v.history)
    (rest : ∀ v', Truthful v'.history →
      next.wp (View.act rule) (fun _ => Mirrors) (fun _ => Mirrors) v')
    : (quiet.bind fun _ => next).wp (View.act rule) (fun _ => Mirrors) (fun _ => Mirrors) v := by
  rw [wp_bind]
  exact wp_mono (within.keeps keepsTruthful truthful) (fun _ v' told => rest v' told.2)
    (fun _ _ impossible => impossible.1.elim)

/-- The event, and what comes after it. -/
theorem setState_then {s : State} {error : String} {next : Worker α} {v : View}
    (truthful : Truthful v.history) (rest : next.Keeps rule Mirrors)
    : ((setState s error).bind fun _ => next).wp (View.act rule) (fun _ => Mirrors)
        (fun _ => Mirrors) v := by
  rw [wp_bind]
  exact wp_mono (setState_tells truthful) (fun _ => rest) (fun _ _ mirrors => mirrors)

-----------------------------------------------------------------------------------------
-- Opening
-----------------------------------------------------------------------------------------

theorem refuseOpen_mirrors {label msg : String}
    : Worker.Keeps rule (refuseOpen label msg : Worker (Stage α)) Mirrors :=
  setState_mirrors.bind fun _ => .value

theorem obtainWallet_mirrors {kind : String} {p : Json} {o : OpenParams} {path : String}
    {nettype : Int}
    : (obtainWallet kind p o path nettype).Keeps rule Mirrors :=
  lib_mirrors.bind fun _ => .ite refuseOpen_mirrors (.ite refuseOpen_mirrors
    ((makeWallet_inside fun _ _ => rfl).mirrors.bind fun _ => .value))

theorem checkWallet_mirrors {network : String} {nettype : Int} {w? : Option Wallet}
    : (checkWallet network nettype w?).Keeps rule Mirrors := by
  cases w? with
  | none => exact lib_mirrors.bind fun _ => refuseOpen_mirrors
  | some w =>
      refine lib_mirrors.bind fun _ => .ite ?_ (lib_mirrors.bind fun _ => .ite ?_ .value)
      · exact lib_mirrors.bind fun _ => lib_mirrors.bind fun _ => refuseOpen_mirrors
      · exact lib_mirrors.bind fun _ => refuseOpen_mirrors

theorem initWallet_mirrors {kind network : String} {plan : Plan} {w : Wallet}
    : (initWallet kind network plan w).Keeps rule Mirrors := by
  refine Worker.Keeps.bind (Worker.Stays.when (lib_inside rfl)).mirrors fun _ =>
    lib_mirrors.bind fun _ => .ite .value ?_
  exact lib_mirrors.bind fun _ => lib_mirrors.bind fun _ => refuseOpen_mirrors

theorem connectDaemon_mirrors {plan : Plan} {w : Wallet}
    : (connectDaemon plan w).Keeps rule Mirrors := by
  refine .ite (awaitConnected_inside.mirrors.bind fun _ => .ite ?_ .value) .value
  exact lib_mirrors.bind fun _ => refuseOpen_mirrors

/-- The members that describe the new wallet are told of with its label. -/
theorem publishWallet_mirrors {o : OpenParams} {plan : Plan} {path addr : String} {w : Wallet}
    : (publishWallet o plan path addr w).Keeps rule Mirrors := by
  have placed : Worker.Stays Mute (Worker.update (withWallet w)) := .update fun _ => rfl
  refine placed.scoped.mirrors.bind fun _ => now_inside.mirrors.bind fun now v holds => ?_
  refine wp_bind.mpr (Worker.wp_update.mpr fun others => ?_)
  refine truthful_then Insides.reports.notifyOpen holds.truthful fun v₁ truthful₁ => ?_
  refine truthful_then (restrictFiles_inside fun _ _ => ⟨rfl, rfl⟩) truthful₁ fun v₂ truthful₂ => ?_
  exact setState_then truthful₂ (lib_mirrors.bind fun _ => .value)

theorem openWith_mirrors {kind : String} {p : Json} {o : OpenParams} {plan : Plan}
    : (openWith kind p o plan).Keeps rule Mirrors := by
  refine Worker.Keeps.bind (Worker.Stays.bind read_inside fun _ => .value).scoped.mirrors fun _ =>
    .ite .value ?_
  refine setState_mirrors.bind fun _ => read_mirrors.bind fun _ => lib_mirrors.bind fun _ => ?_
  refine .andThen obtainWallet_mirrors fun _ => .andThen checkWallet_mirrors fun _ => ?_
  refine .andThen initWallet_mirrors fun _ => waitOffline_inside.mirrors.bind fun _ => ?_
  refine trustDaemon_inside.mirrors.bind fun _ => .andThen connectDaemon_mirrors fun _ => ?_
  exact startWallet_inside.mirrors.bind fun _ => publishWallet_mirrors

theorem doOpenLike_mirrors {kind : String} {p : Json} : (doOpenLike kind p).Keeps rule Mirrors := by
  have read {β : Type} {result : Except Exn β} : (Worker.orThrow result).Stays Mute := .orThrow
  refine read.mirrors.bind fun o => .ite .value (.ite .value ?_)
  refine resolve_mirrors.bind fun node => read.mirrors.bind fun policy => ?_
  cases policy with
  | leave out => exact .value
  | go plan => exact openWith_mirrors

-----------------------------------------------------------------------------------------
-- Closing
-----------------------------------------------------------------------------------------

theorem takeWallet_mirrors : takeWallet.Keeps rule Mirrors := by
  refine fun v holds => Worker.wp_locked.mpr (Worker.Keeps.bind read_mirrors (fun m => ?_) v holds)
  cases m.wallet with
  | none => exact .value
  | some w =>
      have taken : Worker.Stays Mute (Worker.update withoutWallet) := .update fun _ => rfl
      exact setState_mirrors.bind fun _ => taken.mirrors.bind fun _ => .value

/-- The members that are forgotten are told of with the label of no wallet. -/
theorem releaseWallet_mirrors {w : Wallet} : (releaseWallet w).Keeps rule Mirrors := by
  refine lib_mirrors.bind fun _ => lib_mirrors.bind fun ok v holds => ?_
  refine wp_bind.mpr (Worker.wp_update.mpr fun others => ?_)
  refine truthful_then Insides.reports.notifyOpen holds.truthful fun v₁ truthful₁ => ?_
  exact setState_then truthful₁ .value

theorem doClose_mirrors : doClose.Keeps rule Mirrors := by
  refine takeWallet_mirrors.bind fun held => ?_
  cases held with
  | none => exact .value
  | some w => exact releaseWallet_mirrors

theorem doRescan_mirrors : doRescan.Keeps rule Mirrors :=
  Worker.Keeps.bind (onWallet_scoped fun _ => .bind (lib_inside rfl) fun _ => .value).mirrors fun _ =>
    .ite (setState_mirrors.bind fun _ => .value) .value

-----------------------------------------------------------------------------------------
-- Moves and ticks
-----------------------------------------------------------------------------------------

/-- The new route is told of with the label that was there. -/
theorem recordMove_mirrors {node : Json} {error : String}
    : (recordMove node error).Keeps rule Mirrors := by
  refine now_inside.mirrors.bind fun now v holds => ?_
  refine wp_bind.mpr (Worker.wp_update.mpr fun others => ?_)
  exact setState_tells holds.truthful

theorem moveToTor_mirrors {abandon : Bool} {resolved : Option Json}
    : (moveToTor abandon resolved).Keeps rule Mirrors := by
  have moves (node : Json) (from_ : Route) : (moveWith abandon node from_).Keeps rule Mirrors := by
    refine .ite .value (goOffline_scoped.mirrors.bind fun _ => ?_)
    refine .ite .value (dialTor_scoped.mirrors.bind fun dialled => ?_)
    cases dialled with
    | none => exact .value
    | some error => exact recordMove_mirrors
  refine read_mirrors.bind fun m => ?_
  cases resolved with
  | some node => exact moves node m.route
  | none => exact resolve_mirrors.bind fun node => moves node m.route

theorem followSync_mirrors {synced : Bool} : (followSync synced).Keeps rule Mirrors :=
  read_mirrors.bind fun _ => .ite setState_mirrors (.ite setState_mirrors .value)

-----------------------------------------------------------------------------------------
-- In every run
-----------------------------------------------------------------------------------------

theorem Mirrors.push {v : View} {e : Event} (mirrors : Mirrors v)
    (unasked : ∀ c answer m, e ≠ .asked c answer m)
    : Mirrors (v.push e) := by
  have silent : e.told? = none := by
    cases e with
    | asked c answer m => exact absurd rfl (unasked c answer m)
    | _ => rfl
  refine ⟨fun payload answer m told => ?_, ?_⟩
  · exact mirrors.truthful payload answer m (List.mem_of_ne_of_mem (unasked _ _ _).symm told)
  · have skipped : statusTold (e :: v.history) = statusTold v.history := by
      simp only [statusTold, lastTold, List.findSome?_cons, silent]
    exact skipped.trans mirrors.last

theorem keepsMirrors_turn : BodiesKeep rule Mute Mirrors where
  inside := keepsMirrors
  begins _ _ _ mirrors := mirrors.push (by simp)
  settles _ _ _ _ mirrors := mirrors.push (by simp)
  opens _ _ := doOpenLike_mirrors
  closes := doClose_mirrors
  rescans := doRescan_mirrors
  changes _ := (doChangePassword_scoped fun _ _ => rfl).keeps keepsMirrors
  moves _ _ := moveToTor_mirrors
  follows _ := followSync_mirrors

/-- In every run, whatever is answered or thrown: the payload of each `walletStateChanged` was the
status when it was told, and whenever no turn is under way the last one is the status now. -/
theorem status_was_told {hasNotify : Bool} {t : System} (reach : Reachable rule hasNotify t)
    (idle : t.Idle)
    : statusTold t.state.history = statusLocked t.state.mem ∧ Truthful t.state.history := by
  have mirrors : Mirrors t.state.view := by
    refine reach.invariant idle ⟨?_, rfl⟩ keepsMirrors_turn.turn
    intro payload answer m told
    cases told
  exact ⟨mirrors.last, mirrors.truthful⟩

/-- A wallet that has just been opened. -/
def World.announced : World :=
  (World.withJob "open_wallet" (.obj [("name", .str "w"), ("network", .str "stagenet")])).afterTurn
    (Script.succeeding true 2 (.obj [("url", .str "http://127.0.0.1:18081")]))

theorem status_was_told_announced
    : statusTold World.announced.history = statusLocked World.announced.mem
      ∧ str (statusTold World.announced.history) "state" = "syncing" := by
  have reach : Reachable LibraryReturns true ⟨.pure (), World.announced⟩ :=
    (Reachable.withJob _ _).afterTurn Script.succeeding_returns
  exact ⟨(status_was_told reach rfl).1, rfl⟩

end MoneroWalletCore.Runtime
