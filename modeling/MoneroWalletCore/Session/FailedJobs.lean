import MoneroWalletCore.Session.OpenAttempt

/-! What a failed job leaves of an open session. Its members are checked before they are assigned,
so a failure changes none of them; only a close has given the wallet up before it knows whether
the library closed it.
-/

namespace MoneroWalletCore.Runtime

open Program

-----------------------------------------------------------------------------------------
-- How a session stands
-----------------------------------------------------------------------------------------

/-- The members that an open wallet's session stands on. -/
structure Standing where
  wallet : Option Wallet
  pendingTx : AList (fun _ : String => PendingTx)
  walletName : String
  network : String
  route : Route
  state : State

def Mem.standing (m : Mem) : Standing :=
  {
    wallet := m.wallet
    pendingTx := m.pendingTx
    walletName := m.walletName
    network := m.network
    route := m.route
    state := m.state
  }

/-- What is left of it once the wallet has been given up. -/
def Standing.closed (s : Standing) : Standing :=
  {
    wallet := none
    pendingTx := ∅
    walletName := ""
    network := s.network
    route := .direct
    state := .noWallet
  }

/-- A label that could not be told. -/
def Event.labelThrows : Event → Bool
  | .asked (.emit event _) (.error _) _ => event == "walletStateChanged"
  | _ => false

/-- Every label was told. -/
def LabelsTold (h : History) : Prop := h.any Event.labelThrows = false

/-- A close that returned false. -/
def Event.closeRefused : Event → Bool
  | .asked (.lib (.closeWallet ..)) (.ok ok) _ => !ok
  | _ => false

/-- The library did not close a wallet that it was given. -/
def CloseRefused (h : History) : Prop := h.any Event.closeRefused = true

theorem LabelsTold.older {e : Event} {h : History} (told : LabelsTold (e :: h)) : LabelsTold h := by
  rw [LabelsTold, List.any_cons, Bool.or_eq_false_iff] at told
  exact told.2

theorem CloseRefused.push {e : Event} {h : History} (refused : CloseRefused h)
    : CloseRefused (e :: h) := by
  rw [CloseRefused, List.any_cons, refused, Bool.or_true]

/-- An action that leaves the standing as it is. -/
abbrev Standfast (calls : Call → Bool) : Op → Prop :=
  Acting (fun m m' => m'.standing = m.standing) calls

instance : Asking (Standfast fun _ => true) where
  asks _ _ := rfl
  locks _ := trivial
  unlocks _ := trivial
  reads _ := rfl

theorem standfast_reports : Reports (Standfast Call.reports) where
  reads _ := rfl
  resets _ := rfl
  notifies _ _ := rfl
  tells _ := rfl

variable {rule : Surroundings}

theorem keeps_standing {calls : Call → Bool} {s : Standing}
    : ActionsKeep rule (Standfast calls) (fun v => v.mem.standing = s) := by
  apply ActionsKeep.acting
  · intro v m assigned holds
    obtain ⟨o, same⟩ := assigned
    exact Eq.trans same holds
  · exact fun _ _ _ _ _ holds => holds

-----------------------------------------------------------------------------------------
-- The bodies
-----------------------------------------------------------------------------------------

/-- A body that has failed has left the session as it stood. -/
def FailsAs (s : Standing) (out : Json) (v : View) : Prop :=
  outcome out = .ok .failed → v.mem.standing = s

theorem failsAs_okWith {s : Standing} {result : Json} {v : View} : FailsAs s (okWith result) v :=
  fun failed => by cases failed

section Returning

variable {s : Standing} {v : View}

theorem keepTx_failsAs {dst : String} {pt? : Option PendingTx} (stands : v.mem.standing = s)
    : (keepTx dst pt?).wp (View.act LibraryReturns) (FailsAs s) (fun _ v' => v'.mem.standing = s)
        v := by
  cases pt? with
  | none => exact fun _ => stands
  | some pt =>
      simp only [keepTx, bind_def, wp_bind, Worker.wp_lib, wp_ite]
      refine ⟨fun status _ => ⟨fun _ => ⟨fun e _ _ => stands, fun _ thrown => thrown.elim⟩,
        fun _ => ?_⟩, fun _ thrown => thrown.elim⟩
      -- From here on only the library is asked, and it returns.
      simp only [describeTx, bind_def, wp_bind, Worker.wp_update, Worker.wp_lib, pure_def, wp_pure]
      intro _
      refine ⟨fun amount _ => ⟨fun fee _ => ⟨fun dust _ => ⟨fun count _ => ⟨fun txids _ => ?_, ?_⟩,
        ?_⟩, ?_⟩, ?_⟩, ?_⟩
      · exact failsAs_okWith
      all_goals exact fun _ thrown => thrown.elim

theorem buildTx_failsAs {w : Wallet} {p : Json} (stands : v.mem.standing = s)
    : (buildTx w p).wp (View.act LibraryReturns) (FailsAs s) (fun _ v' => v'.mem.standing = s) v := by
  simp only [buildTx, bind_def, wp_bind, Worker.wp_lib, wp_ite]
  refine ⟨fun watchOnly _ => ⟨fun _ _ => stands, fun _ => ?_⟩, fun _ thrown => thrown.elim⟩
  simp only [Worker.wp_orThrow]
  refine ⟨fun text _ => ?_, fun _ _ => stands⟩
  cases (parseAtomic text).filter (· ≠ 0) with
  | none => exact fun _ => stands
  | some amount =>
      simp only [wp_bind, Worker.wp_orThrow, Worker.wp_read, wp_ite, Worker.wp_lib]
      refine ⟨fun dst _ others => ⟨fun _ _ => stands, fun _ => ?_⟩, fun _ _ => stands⟩
      refine ⟨fun priority _ => ⟨fun account _ => ⟨fun paymentId _ => ?_, fun _ _ => stands⟩,
        fun _ _ => stands⟩, fun _ _ => stands⟩
      exact ⟨fun pt? _ => keepTx_failsAs stands, fun _ thrown => thrown.elim⟩

/-- A send's destructor assigns nothing. -/
theorem sending_failsAs {body : Wallet → Worker Json} (stands : v.mem.standing = s)
    (sends : ∀ w v', v'.mem.standing = s →
      (body w).wp (View.act LibraryReturns) (FailsAs s) (fun _ v'' => v''.mem.standing = s) v')
    : (sending body).wp (View.act LibraryReturns) (FailsAs s) (fun _ v' => v'.mem.standing = s)
        v := by
  refine wp_sending (fun _ _ _ => stands) (fun _ _ _ => stands) fun w _ _ _ => ?_
  exact wp_mono (sends w (v.push _) stands) (fun _ _ fails _ => fails) (fun _ _ same _ => same)

theorem doCommit_failsAs {p : Json} (stands : v.mem.standing = s)
    : (doCommit p).wp (View.act LibraryReturns) (FailsAs s) (fun _ v' => v'.mem.standing = s) v := by
  refine sending_failsAs stands fun w v' stands => ?_
  simp only [bind_def, wp_bind, Worker.wp_orThrow, Worker.wp_read]
  refine ⟨fun handle _ others => ?_, fun _ _ => stands⟩
  cases (v'.mem.under others).pendingTx.lookup handle with
  | none => exact fun _ => stands
  | some pt =>
      simp only [relayTx, afterRelay, bind_def, wp_bind, Worker.wp_lib, wp_ite, Worker.wp_update,
        pure_def, wp_pure]
      refine ⟨fun txids _ => ⟨fun ok _ => ⟨fun _ _ => ?_, fun _ => ?_⟩, fun _ thrown => thrown.elim⟩,
        fun _ thrown => thrown.elim⟩
      · exact ⟨fun _ _ => failsAs_okWith, fun _ thrown => thrown.elim⟩
      · exact ⟨fun e _ _ => stands, fun _ thrown => thrown.elim⟩

theorem doDispose_failsAs {p : Json} (stands : v.mem.standing = s)
    : (doDispose p).wp (View.act rule) (FailsAs s) (fun _ v' => v'.mem.standing = s) v := by
  simp only [doDispose, bind_def, wp_bind, Worker.wp_locked, Worker.wp_orThrow, Worker.wp_read]
  refine ⟨fun handle _ others => ?_, fun _ _ => stands⟩
  cases (v.mem.under others).pendingTx.lookup handle with
  | none => exact fun _ => stands
  | some pt =>
      simp only [wp_bind, Worker.wp_update, pure_def, wp_pure]
      exact fun _ => failsAs_okWith

theorem doChangePassword_failsAs {p : Json} (stands : v.mem.standing = s)
    : (doChangePassword p).wp (View.act rule) (FailsAs s) (fun _ v' => v'.mem.standing = s) v :=
  wp_mono ((keeps_standing : ActionsKeep rule (Standfast fun _ => true) _).body
      doChangePassword_stays v stands)
    (fun _ _ same _ => same) (fun _ _ same => same)

/-- Where a job may leave the session when every label was told. -/
def LeavesAs (s : Standing) (closing : Prop) (v : View) : Prop :=
  LabelsTold v.history →
    v.mem.standing = s ∨ closing ∧ CloseRefused v.history ∧ v.mem.standing = s.closed

theorem leavesAs_of_untold {closing : Prop} (untold : ¬LabelsTold v.history) : LeavesAs s closing v :=
  fun told => absurd told untold

theorem doRescan_failsAs (stands : v.mem.standing = s) (isOpen : s.wallet.isSome = true)
    : doRescan.wp (View.act LibraryReturns) (FailsAs s) (fun _ => LeavesAs s False) v := by
  have held : v.mem.wallet = s.wallet := congrArg Standing.wallet stands
  obtain ⟨w, some⟩ := Option.isSome_iff_exists.mp isOpen
  simp only [doRescan, bind_def, wp_bind, Worker.wp_locked, Worker.wp_read, Mem.under_wallet, held,
    some, Worker.wp_lib, pure_def, wp_pure, if_true, wp_setState, Worker.wp_emit]
  refine fun _ => ⟨fun _ _ _ => ⟨fun _ _ => failsAs_okWith, fun _ _ => ?_⟩,
    fun _ thrown => thrown.elim⟩
  exact leavesAs_of_untold fun told => by cases told

/-- What is left between the taking of the handle and the end of a close. -/
def Standing.taken (s : Standing) : Standing :=
  { s with
    wallet := none
    pendingTx := ∅
    state := .closing }

/-- The label at the end of a close, once the session has been forgotten. -/
theorem closedLabel_failsAs {ok : Bool} (stands : v.mem.standing = { s.closed with state := .closing })
    (refused : ok = false → CloseRefused v.history)
    : Program.wp (View.act LibraryReturns)
        (do
          setState .noWallet ""
          Pure.pure (if ok then okWith (.obj []) else err "close failed"))
        (fun out v' => outcome out = .ok .failed → LeavesAs s True v') (fun _ => LeavesAs s True)
        v := by
  simp only [bind_def, wp_bind, wp_setState, Worker.wp_emit, pure_def, wp_pure]
  refine fun o => ⟨fun _ _ => ?_, fun _ _ => leavesAs_of_untold fun told => by cases told⟩
  cases ok with
  | true => exact fun failed => by cases failed
  | false =>
      refine fun _ _ => .inr ⟨trivial, (refused rfl).push, ?_⟩
      obtain ⟨wallet, pending, name, network, route, _⟩ := Standing.mk.inj stands
      exact Standing.mk.injEq .. ▸ ⟨wallet, pending, name, network, route, rfl⟩

theorem releaseWallet_failsAs {w : Wallet} (stands : v.mem.standing = s.taken)
    : (releaseWallet w).wp (View.act LibraryReturns)
        (fun out v' => outcome out = .ok .failed → LeavesAs s True v') (fun _ => LeavesAs s True)
        v := by
  simp only [releaseWallet, bind_def, wp_bind, Worker.wp_lib, Worker.wp_update]
  refine ⟨fun stored _ => ⟨fun (ok : Bool) _ o => ?_, fun _ thrown => thrown.elim⟩,
    fun _ thrown => thrown.elim⟩
  have forgot {h : History} : (View.at (forgotten (v.mem.under o)) h).mem.standing
      = { s.closed with state := .closing } := by
    obtain ⟨wallet, pending, _, network, _, state⟩ := Standing.mk.inj stands
    exact Standing.mk.injEq .. ▸ ⟨wallet, pending, rfl, network, rfl, state⟩
  have quiet : ActionsKeep LibraryReturns (Standfast Call.reports) (fun v' =>
      v'.mem.standing = { s.closed with state := .closing }
      ∧ (ok = false → CloseRefused v'.history)) := by
    refine keeps_standing.and ?_
    cases ok with
    | true => exact fun _ _ _ _ _ _ _ failed => by cases failed
    | false => exact fun v op answer v' _ step refused _ => keeps_any v op answer v' trivial step (refused rfl)
  have refused : ok = false → CloseRefused
      (.asked (.lib (.closeWallet w true)) (.ok ok) v.mem
        :: .asked (.lib (.store w "")) (.ok stored) v.mem :: v.history) := by
    rintro rfl
    rfl
  apply wp_mono (standfast_reports.notifyOpen.keeps quiet ⟨forgot, refused⟩)
  · exact fun _ _ kept => wp_bind.mp (closedLabel_failsAs kept.2.1 kept.2.2)
  · exact fun _ _ thrown => thrown.1.elim

theorem doClose_failsAs (stands : v.mem.standing = s) (isOpen : s.wallet.isSome = true)
    : doClose.wp (View.act LibraryReturns)
        (fun out v' => outcome out = .ok .failed → LeavesAs s True v') (fun _ => LeavesAs s True)
        v := by
  have held : v.mem.wallet = s.wallet := congrArg Standing.wallet stands
  obtain ⟨w, some⟩ := Option.isSome_iff_exists.mp isOpen
  simp only [doClose, takeWallet, bind_def, wp_bind, Worker.wp_locked, Worker.wp_read,
    Mem.under_wallet, held, some, wp_setState, Worker.wp_emit, Worker.wp_update, pure_def, wp_pure]
  refine fun _ o => ⟨fun _ _ o' => releaseWallet_failsAs ?_,
    fun _ _ => leavesAs_of_untold fun told => by cases told⟩
  obtain ⟨_, _, name, network, route, _⟩ := Standing.mk.inj stands
  exact Standing.mk.injEq .. ▸ ⟨rfl, rfl, name, network, route, rfl⟩

end Returning

-----------------------------------------------------------------------------------------
-- Whole jobs
-----------------------------------------------------------------------------------------

/-- The kinds of the jobs on an open wallet. -/
def openWalletKinds : List String :=
  ["close_wallet", "rescan", "create_transaction", "commit_transaction", "dispose_transaction",
    "change_password"]

theorem dispatch_failsAs {job : Job} {s : Standing} {v : View} (kind : job.kind ∈ openWalletKinds)
    (stands : v.mem.standing = s) (isOpen : s.wallet.isSome = true)
    : (dispatch job).wp (View.act LibraryReturns)
        (fun out v' => outcome out = .ok .failed → LeavesAs s (job.kind = "close_wallet") v')
        (fun _ => LeavesAs s (job.kind = "close_wallet")) v := by
  have stays {p : Worker Json} {closing : Prop}
      (fails : p.wp (View.act LibraryReturns) (FailsAs s) (fun _ v' => v'.mem.standing = s) v)
      : p.wp (View.act LibraryReturns) (fun out v' => outcome out = .ok .failed → LeavesAs s closing v')
          (fun _ => LeavesAs s closing) v :=
    wp_mono fails (fun _ _ kept failed _ => .inl (kept failed)) (fun _ _ kept _ => .inl kept)
  simp only [openWalletKinds, List.mem_cons, List.not_mem_nil, or_false] at kind
  rcases kind with kind | kind | kind | kind | kind | kind
  · have body : dispatch job = doClose := by simp [dispatch, kind, openKinds]
    rw [body]
    apply wp_mono (doClose_failsAs stands isOpen)
    · exact fun _ _ leaves failed told => (leaves failed told).imp id fun closed => ⟨kind, closed.2⟩
    · exact fun _ _ leaves told => (leaves told).imp id fun closed => ⟨kind, closed.2⟩
  · have body : dispatch job = doRescan := by simp [dispatch, kind, openKinds]
    rw [body]
    apply wp_mono (doRescan_failsAs stands isOpen)
    · exact fun _ _ fails failed _ => .inl (fails failed)
    · exact fun _ _ leaves told => (leaves told).imp id fun closed => closed.1.elim
  · have body : dispatch job = doCreateTransaction job.params := by simp [dispatch, kind, openKinds]
    rw [body]
    exact stays (sending_failsAs stands fun w v' => buildTx_failsAs)
  · have body : dispatch job = doCommit job.params := by simp [dispatch, kind, openKinds]
    rw [body]
    exact stays (doCommit_failsAs stands)
  · have body : dispatch job = doDispose job.params := by simp [dispatch, kind, openKinds]
    rw [body]
    exact stays (doDispose_failsAs stands)
  · have body : dispatch job = doChangePassword job.params := by simp [dispatch, kind, openKinds]
    rw [body]
    exact stays (doChangePassword_failsAs stands)

/-- Where a turn may leave the session whose job failed. -/
def FailedAs (ptr : JobPtr) (s : Standing) (closing : Prop) (v : View) : Prop :=
  verdicts v.history = [(ptr, .ok .failed)] → LeavesAs s closing v

theorem keepsFailedAs {ptr : JobPtr} {s : Standing} {closing : Prop}
    : ActionsKeep rule (Standfast Call.reports) (FailedAs ptr s closing) := by
  apply ActionsKeep.acting
  · intro v m assigned holds failed told
    obtain ⟨o, same⟩ := assigned
    have stands : (View.at m v.history).mem.standing = v.mem.standing := same
    rw [stands]
    exact holds failed told
  · intro v c answer _ _ holds failed told
    exact (holds failed told.older).imp id fun closed => ⟨closed.1, closed.2.1.push, closed.2.2⟩

theorem run_failsAs {ptr : JobPtr} {job : Job} {v : View} (kind : job.kind ∈ openWalletKinds)
    (isOpen : v.mem.wallet.isSome = true) (only : v.history = [.began ptr job])
    : (run ptr job).wp (View.act LibraryReturns)
        (fun _ => FailedAs ptr v.mem.standing (job.kind = "close_wallet"))
        (fun _ => FailedAs ptr v.mem.standing (job.kind = "close_wallet")) v := by
  have before : ActionsKeep LibraryReturns (Standfast Call.reports) (fun v' =>
      v'.mem.standing = v.mem.standing ∧ verdicts v'.history = []) := by
    refine keeps_standing.and (ActionsKeep.acting ?_ ?_)
    · exact fun _ _ _ holds => holds
    · exact fun _ _ _ _ _ holds => holds
  apply run_settles_by standfast_reports before keepsFailedAs
  · rintro v' ⟨stands, unsettled⟩
    have stays : (dispatch job).Stays Outside := dispatch_stays
    have verdict {v'' : View} {out : Json} (quiet : verdicts v''.history = verdicts v'.history)
        : verdicts (v''.settle ptr out).history = [(ptr, outcome out)] := by
      rw [View.settle, View.push_history, verdicts_settled, quiet, unsettled]
    apply wp_mono (wp_and (dispatch_failsAs kind stands isOpen) (stays.settles v'))
    · rintro out v'' ⟨leaves, quiet⟩ failed told
      rw [verdict quiet] at failed
      have failed : outcome out = .ok .failed := by simpa using failed
      exact (leaves failed told.older).imp id fun closed => ⟨closed.1, closed.2.1.push, closed.2.2⟩
    · rintro error v'' ⟨leaves, _⟩ _ told
      exact (leaves told.older).imp id fun closed => ⟨closed.1, closed.2.1.push, closed.2.2⟩
  · exact ⟨rfl, by rw [only]; rfl⟩

/-- A library that closes no wallet. -/
def unclosable : Script := fun h c =>
  match c with
  | .lib (.closeWallet ..) => .ok false
  | c => Script.succeeding true 2 (clearNode (.bool true)) h c

theorem unclosable_returns : unclosable.Follows LibraryReturns := by
  intro h c m
  cases c with
  | lib c => cases c <;> trivial
  | _ => trivial

/-- An open wallet with a close submitted. -/
def World.closing : World :=
  (World.openedClear (.bool true)).afterClient (.startJob "close_wallet" (.obj []) "receipt")

theorem World.closing_reachable : Reachable LibraryReturns true ⟨.pure (), World.closing⟩ :=
  ((Reachable.withJob _ _).afterTurn Script.succeeding_returns).afterClient _

/-- The events of the close. -/
theorem World.closing_turn
    : let new := World.closing.turnEvents unclosable
      World.closing.mem.wallet.isSome = true
      ∧ (jobsBegun new).map Prod.fst = [1] ∧ (jobsBegun new).map (fun front => front.2.kind) = ["close_wallet"]
      ∧ LabelsTold new ∧ CloseRefused new ∧ verdicts new = [(1, .ok .failed)]
      ∧ (World.closing.afterTurn unclosable).mem.wallet = none := by
  unfold LabelsTold CloseRefused
  decide +kernel

/-- A job on an open wallet that fails leaves the session as it stood, but for a close that the
library refuses: by then the wallet has been given up. -/
theorem failed_leaves_standing {w w' : World} {new : History} {ptr : JobPtr} {job : Job}
    (isOpen : w.mem.wallet.isSome = true) (kind : job.kind ∈ openWalletKinds)
    (whole : World.Turn LibraryReturns w w') (split : w'.history = new ++ w.history)
    (began : (ptr, job) ∈ jobsBegun new) (told : LabelsTold new)
    (failed : verdicts new = [(ptr, .ok .failed)])
    : w'.mem.standing = w.mem.standing
      ∨ job.kind = "close_wallet" ∧ CloseRefused new
        ∧ w'.mem.standing = w.mem.standing.closed := by
  have leaves : FailedAs ptr w.mem.standing (job.kind = "close_wallet") (View.at w'.mem new) :=
    whole.job split began (run_failsAs kind isOpen rfl)
  exact leaves failed told

theorem failed_leaves_standing_refused
    : ∃ job,
        (1, job) ∈ jobsBegun (World.closing.turnEvents unclosable)
        ∧ ((World.closing.afterTurn unclosable).mem.standing = World.closing.mem.standing
          ∨ job.kind = "close_wallet" ∧ CloseRefused (World.closing.turnEvents unclosable)
            ∧ (World.closing.afterTurn unclosable).mem.standing
              = World.closing.mem.standing.closed) := by
  obtain ⟨isOpen, ptrs, kinds, told, _, failed, _⟩ := World.closing_turn
  obtain ⟨⟨ptr, job⟩, alone⟩ := List.length_eq_one_iff.mp (by
    simpa using congrArg List.length ptrs : (jobsBegun (World.closing.turnEvents unclosable)).length = 1)
  rw [alone, List.map_singleton, List.singleton_inj] at ptrs kinds
  obtain rfl : ptr = 1 := ptrs
  have began : (1, job) ∈ jobsBegun (World.closing.turnEvents unclosable) := by simp [alone]
  refine ⟨job, began, ?_⟩
  exact failed_leaves_standing isOpen (by rw [show job.kind = "close_wallet" from kinds]; decide)
    (World.afterTurn_turn unclosable_returns _) (World.afterTurn_history _ _) began told failed

/-- A close that the library refuses fails, and the wallet is gone all the same. -/
theorem refused_close_drops_wallet
    : Reachable LibraryReturns true ⟨.pure (), World.closing⟩
      ∧ World.Turn LibraryReturns World.closing (World.closing.afterTurn unclosable)
      ∧ World.closing.mem.wallet.isSome = true
      ∧ (jobsBegun (World.closing.turnEvents unclosable)).map (fun front => front.2.kind)
        = ["close_wallet"]
      ∧ verdicts (World.closing.turnEvents unclosable) = [(1, .ok .failed)]
      ∧ (World.closing.afterTurn unclosable).mem.standing ≠ World.closing.mem.standing := by
  obtain ⟨isOpen, _, kinds, _, _, failed, gone⟩ := World.closing_turn
  refine ⟨World.closing_reachable, World.afterTurn_turn unclosable_returns _, isOpen, kinds, failed,
    fun same => ?_⟩
  have still : (World.closing.afterTurn unclosable).mem.wallet = World.closing.mem.wallet :=
    congrArg Standing.wallet same
  rw [gone] at still
  rw [← still] at isOpen
  cases isOpen

end MoneroWalletCore.Runtime
