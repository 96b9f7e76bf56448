import MoneroWalletCore.Runtime.System

/-! Rules for the worker's actions over its view: what has to hold before an action for the two
postconditions to hold after it. A call that may throw splits into its return and its throw.
-/

namespace MoneroWalletCore.Runtime

open Program

variable {rule : Surroundings} {α : Type} {v : View} {thrown : Exn → View → Prop}

@[simp] theorem View.at_mem {m : Mem} {h : History} : (View.at m h).mem = m.own := rfl

@[simp] theorem View.at_history {m : Mem} {h : History} : (View.at m h).history = h := rfl

@[simp] theorem View.push_mem {e : Event} : (v.push e).mem = v.mem := rfl

@[simp] theorem View.push_history {e : Event} : (v.push e).history = e :: v.history := rfl

@[simp] theorem View.own_mem : v.mem.own = v.mem := v.owned

@[simp] theorem Mem.own_of_under {m : Mem} {o : Others} : (m.under o).own = m.own := rfl

/-- A section that assigns nothing leaves the view as it is. -/
@[simp] theorem View.at_under {o : Others} : View.at (v.mem.under o) v.history = v := by
  obtain ⟨mem, history, owned⟩ := v
  simp only [View.at, Mem.own_of_under, owned]

namespace Worker

@[simp] theorem wp_update {f : Mem → Mem} {normal : Mem → View → Prop}
    : (update f).wp (View.act rule) normal thrown v
      ↔ ∀ o, normal (v.mem.under o) (View.at (f (v.mem.under o)) v.history) := by
  constructor
  · intro holds o
    exact holds _ _ ⟨o, rfl, rfl⟩
  · intro holds found v' step
    obtain ⟨o, rfl, rfl⟩ := step
    exact holds o

@[simp] theorem wp_read {normal : Mem → View → Prop}
    : read.wp (View.act rule) normal thrown v ↔ ∀ o, normal (v.mem.under o) v := by
  simp [read]

@[simp] theorem wp_orThrow {result : Except Exn α} {normal : α → View → Prop}
    : (orThrow result).wp (View.act rule) normal thrown v
      ↔ (∀ value, result = .ok value → normal value v)
        ∧ (∀ error, result = .error error → thrown error v) := by
  cases result <;> simp [orThrow]

/-- The common shape of a call that may throw. -/
private theorem wp_ask {call : Call} {normal : call.Answer → View → Prop}
    : (∀ answer v', View.act rule v (.ask call) answer v' → normal answer v')
      ↔ ∀ answer, rule v.history (.asked call answer v.mem) →
          normal answer (v.push (.asked call answer v.mem)) := by
  constructor
  · intro holds answer allowed
    exact holds _ _ ⟨allowed, rfl⟩
  · intro holds answer v' step
    obtain ⟨allowed, rfl⟩ := step
    exact holds answer allowed

@[simp] theorem wp_lib {c : Lib} {normal : c.Ret → View → Prop}
    : @wp _ _ _ (no_index c.Ret) _ (View.act rule) (lib c) normal thrown v
      ↔ (∀ ret, rule v.history (.asked (.lib c) (.ok ret) v.mem) →
            normal ret (v.push (.asked (.lib c) (.ok ret) v.mem)))
        ∧ ∀ error, rule v.history (.asked (.lib c) (.error error) v.mem) →
            thrown error (v.push (.asked (.lib c) (.error error) v.mem)) := by
  refine wp_ask.trans ⟨fun holds => ?_, fun holds answer => ?_⟩
  · exact ⟨fun ret => holds (.ok ret), fun error => holds (.error error)⟩
  · cases answer with
    | ok ret => exact holds.1 ret
    | error error => exact holds.2 error

@[simp] theorem wp_emit {event : String} {payload : Json} {normal : Unit → View → Prop}
    : (emit event payload).wp (View.act rule) normal thrown v
      ↔ (∀ ret, rule v.history (.asked (.emit event payload) (.ok ret) v.mem) →
            normal ret (v.push (.asked (.emit event payload) (.ok ret) v.mem)))
        ∧ ∀ error, rule v.history (.asked (.emit event payload) (.error error) v.mem) →
            thrown error (v.push (.asked (.emit event payload) (.error error) v.mem)) := by
  refine wp_ask.trans ⟨fun holds => ?_, fun holds answer => ?_⟩
  · exact ⟨fun ret => holds (.ok ret), fun error => holds (.error error)⟩
  · cases answer with
    | ok ret => exact holds.1 ret
    | error error => exact holds.2 error

@[simp] theorem wp_resolve {network : String} {normal : Json → View → Prop}
    : (resolve network).wp (View.act rule) normal thrown v
      ↔ (∀ node, rule v.history (.asked (.resolve network) (.ok node) v.mem) →
            normal node (v.push (.asked (.resolve network) (.ok node) v.mem)))
        ∧ ∀ error, rule v.history (.asked (.resolve network) (.error error) v.mem) →
            thrown error (v.push (.asked (.resolve network) (.error error) v.mem)) := by
  refine wp_ask.trans ⟨fun holds => ?_, fun holds answer => ?_⟩
  · exact ⟨fun ret => holds (.ok ret), fun error => holds (.error error)⟩
  · cases answer with
    | ok ret => exact holds.1 ret
    | error error => exact holds.2 error

/-- A call that cannot throw. -/
theorem wp_perform {call : Call} {normal : call.Answer → View → Prop}
    : (perform (Op.ask call)).wp (View.act rule) normal thrown v
      ↔ ∀ answer, rule v.history (.asked call answer v.mem) →
          normal answer (v.push (.asked call answer v.mem)) := wp_ask

@[simp] theorem wp_now {normal : Nat → View → Prop}
    : now.wp (View.act rule) normal thrown v
      ↔ ∀ t, rule v.history (.asked .now t v.mem) → normal t (v.push (.asked .now t v.mem)) :=
  wp_ask

@[simp] theorem wp_sleep {millis : Nat} {normal : Unit → View → Prop}
    : (sleep millis).wp (View.act rule) normal thrown v
      ↔ ∀ answer, rule v.history (.asked (.sleep millis) answer v.mem) →
          normal answer (v.push (.asked (.sleep millis) answer v.mem)) := wp_ask

@[simp] theorem wp_fileExists {path : String} {normal : Bool → View → Prop}
    : (fileExists path).wp (View.act rule) normal thrown v
      ↔ ∀ found, rule v.history (.asked (.fileExists path) found v.mem) →
          normal found (v.push (.asked (.fileExists path) found v.mem)) := wp_ask

@[simp] theorem wp_restrictPermissions {path : String} {normal : Unit → View → Prop}
    : (restrictPermissions path).wp (View.act rule) normal thrown v
      ↔ ∀ answer, rule v.history (.asked (.restrictPermissions path) answer v.mem) →
          normal answer (v.push (.asked (.restrictPermissions path) answer v.mem)) := wp_ask

@[simp] theorem wp_resumeRefresh {w : Wallet} {normal : Unit → View → Prop}
    : (resumeRefresh w).wp (View.act rule) normal thrown v
      ↔ ∀ answer, rule v.history (.asked (.destructor (.startRefresh w)) answer v.mem) →
          normal answer (v.push (.asked (.destructor (.startRefresh w)) answer v.mem)) := wp_ask

@[simp] theorem wp_unlock {mode : LockMode} {normal : Unit → View → Prop}
    : (unlock mode).wp (View.act rule) normal thrown v ↔ normal () v := by
  constructor
  · intro holds
    exact holds () v rfl
  · intro holds answer v' step
    cases step
    exact holds

/-- A lock is released however its scope is left, and changes nothing by itself. -/
@[simp] theorem wp_locked {mode : LockMode} {body : Worker α} {normal : α → View → Prop}
    : (locked mode body).wp (View.act rule) normal thrown v
      ↔ body.wp (View.act rule) normal thrown v := by
  have taken : (locked mode body).wp (View.act rule) normal thrown v
      ↔ (body.ensure (unlock mode)).wp (View.act rule) normal thrown v := by
    constructor
    · intro holds
      exact holds () v rfl
    · intro holds answer v' step
      cases step
      exact holds
  simp only [taken, wp_ensure, wp_unlock]

/-- A loop keeps what its body keeps. Induction on the list. -/
theorem wp_forEach {body : α → Worker Unit} {items : List α} {Inv : View → Prop}
    (step : ∀ item v, Inv v → (body item).wp (View.act rule) (fun _ => Inv) thrown v)
    (holds : Inv v)
    : (forEach body items).wp (View.act rule) (fun _ => Inv) thrown v := by
  induction items generalizing v with
  | nil => exact holds
  | cons item rest ih =>
      refine wp_bind.mpr (wp_mono (step item v holds) ?_ ?_)
      · exact fun _ _ kept => ih kept
      · exact fun _ _ left => left

end Worker

/-- The label is set before the emit, so also when that throws. -/
@[simp] theorem wp_setState {s : State} {error : String} {normal : Unit → View → Prop}
    : (setState s error).wp (View.act rule) normal thrown v
      ↔ ∀ o, (Worker.emit "walletStateChanged"
            (statusLocked (labelled s error (v.mem.under o)))).wp (View.act rule) normal thrown
          (View.at (labelled s error (v.mem.under o)) v.history) := by
  simp only [setState, bind_def, wp_bind, Worker.wp_update]

theorem wp_andThen {stage : Worker (Stage α)} {next : α → Worker Json}
    {normal : Json → View → Prop}
    : (andThen stage next).wp (View.act rule) normal thrown v
      ↔ stage.wp (View.act rule)
          (fun ended v' =>
            match ended with
            | .leave out => normal out v'
            | .go value => (next value).wp (View.act rule) normal thrown v')
          thrown v := by
  refine wp_bind.trans (iff_of_eq (congrArg (fun normal => Program.wp _ _ normal _ _) ?_))
  funext ended v'
  cases ended <;> rfl

end MoneroWalletCore.Runtime
