import MoneroWalletCore.Session.SectionTurns

/-! What the worker's sections do to the handle, to the name that goes with it and to the
probe's reading. The handle and the name are written apart, so between two sections one of them
can be ahead of the other.
-/

namespace MoneroWalletCore.Runtime

open Program

variable {rule : Surroundings} {v : View}

/-- A section leaves the handle and the name, and takes nothing for a reading. -/
def Mem.SameNamed (m m' : Mem) : Prop :=
  m'.wallet = m.wallet ∧ m'.walletName = m.walletName ∧ m'.probed = m.probed
    ∧ (m'.daemonConnected = true → m.daemonConnected = true) ∧ m'.daemonHeight = m.daemonHeight

/-- What a section of the worker may do, after which history. -/
inductive Mem.Section (h : History) (m : Mem) : Mem → Prop
  | stays {m'} (same : m.SameNamed m') : Section h m m'
  | publishes (w : Wallet) (closed : m.wallet = none) (unnamed : m.walletName = "")
    : Section h m (withWallet w m)
  | describes (o : OpenParams) (node : Json) (addr : String) (now : Nat) {job : Job}
    (isOpen : m.wallet ≠ none) (unnamed : m.walletName = "") (named : o.name ≠ "")
    (began : lastJob h = some job) (params : openParams job.params = .ok o)
    : Section h m (described o node addr now m)
  | takes (isOpen : m.wallet ≠ none) (named : m.walletName ≠ "") : Section h m (withoutWallet m)
  | forgets (closed : m.wallet = none) (named : m.walletName ≠ "") : Section h m (forgotten m)

/-- No library call throws while the name outlives the handle. -/
def Unbroken : Surroundings := fun _ e =>
  match e with
  | .asked (.lib _) (.error _) m => m.wallet = none → m.walletName = ""
  | _ => True

/-- Surroundings that leave no close half done. -/
def Surroundings.Closes (rule : Surroundings) : Prop := ∀ h e, rule h e → Unbroken h e

theorem unbroken_closes : Unbroken.Closes := fun _ _ => id

theorem libraryReturns_closes : LibraryReturns.Closes := by
  intro h e returns
  unfold LibraryReturns at returns
  unfold Unbroken
  split
  · exact returns.elim
  · trivial

/-- The name says which wallet is open. -/
def NameInv (v : View) : Prop := v.mem.wallet = none ↔ v.mem.walletName = ""

/-- Where the worker acts. -/
def NameGuard (v : View) : Op → Prop
  | .update f => ∀ o, Mem.Section v.history (v.mem.under o) (f (v.mem.under o))
  | .dequeue => NameInv v
  | _ => True

/-- An action that leaves the handle and the name. -/
abbrev Nameless : Op → Prop := Acting Mem.SameNamed fun _ => true

theorem progressed_named {height : UInt64} {now : Nat} (m : Mem)
    : m.SameNamed (progressed height now m) := by
  unfold progressed
  split <;> exact ⟨rfl, rfl, rfl, id, rfl⟩

theorem ticked_named {height : UInt64} {now : Nat} (m : Mem)
    : m.SameNamed (ticked height now m) := by
  unfold ticked
  dsimp only
  split <;> exact progressed_named m

instance : Telling Nameless where
  asks _ _ := rfl
  locks _ := trivial
  unlocks _ := trivial
  reads _ := ⟨rfl, rfl, rfl, id, rfl⟩
  labels _ _ _ := ⟨rfl, rfl, rfl, id, rfl⟩
  registers _ _ := ⟨rfl, rfl, rfl, id, rfl⟩
  drops _ _ := ⟨rfl, rfl, rfl, id, rfl⟩
  notifies _ _ := rfl
  resets _ := ⟨rfl, rfl, rfl, id, rfl⟩

instance : Ticking Nameless where
  times := rfl
  ticks _ _ := ticked_named
  moves _ _ _ _ := ⟨rfl, rfl, rfl, nofun, rfl⟩

theorem Nameless.guarded {op : Op} (nameless : Nameless op) (v : View) : NameGuard v op := by
  cases op with
  | update f => exact fun o => .stays (nameless (v.mem.under o))
  | dequeue => exact nameless.elim
  | _ => trivial

/-- What only looks at the handle and the name is kept by what leaves them. -/
theorem keeps_named {holds : Option Wallet → String → Option Job → Prop}
    : ActionsKeep rule Nameless
        fun v => holds v.mem.wallet v.mem.walletName (lastJob v.history) := by
  apply ActionsKeep.acting
  · intro v m assigned kept
    obtain ⟨_, wallet, name, _⟩ := assigned
    exact wallet ▸ name ▸ kept
  · exact fun _ _ _ _ _ kept => kept

theorem keepsName_nameless : ActionsKeep rule Nameless NameInv :=
  @keeps_named _ fun wallet name _ => wallet = none ↔ name = ""

/-- The wallet is in place, and has no name yet. -/
structure Unnamed (o : OpenParams) (v : View) : Prop where
  isOpen : v.mem.wallet ≠ none
  unnamed : v.mem.walletName = ""
  began : ∃ job, lastJob v.history = some job ∧ openParams job.params = .ok o

theorem publishWallet_names {o : OpenParams} {plan : Plan}
    {path addr : String} {w : Wallet} (named : o.name ≠ "")
    : (publishWallet o plan path addr w).Leads rule NameGuard
        (fun v => NameInv v ∧ OpeningBy o v) (fun _ => NameInv) NameInv := by
  have places : (Worker.locked .unique (Worker.update (withWallet w))).Leads rule NameGuard
      (fun v => NameInv v ∧ OpeningBy o v) (fun _ => Unnamed o) NameInv := by
    refine .locked (fun _ _ => trivial) (.update ?_ ?_) (fun _ _ _ => trivial) fun _ _ => trivial
    · intro v both o'
      exact .publishes w both.2.none (both.1.mp both.2.none)
    · intro v o' both
      exact ⟨nofun, both.1.mp both.2.none, both.2.began⟩
  have looks : Worker.now.Leads rule NameGuard (Unnamed o) (fun _ => Unnamed o) NameInv := by
    intro v unnamed
    refine ⟨trivial, fun now v' step => ?_⟩
    obtain ⟨_, rfl⟩ := step
    exact ⟨unnamed.isOpen, unnamed.unnamed, unnamed.began⟩
  refine .bind places fun _ => .bind looks fun now => .bind (.update ?_ ?_) fun _ =>
    .keeps announceWallet_stays keepsName_nameless fun v op nameless _ => nameless.guarded v
  · intro v unnamed o'
    obtain ⟨job, began, params⟩ := unnamed.began
    exact .describes o plan.node addr now unnamed.isOpen unnamed.unnamed named began params
  · intro v o' unnamed
    exact iff_of_false unnamed.isOpen named

/-- The wallet is taken, and its name is left. -/
def Taken (v : View) : Prop := v.mem.wallet = none ∧ v.mem.walletName ≠ ""

section Closes

variable (closes : rule.Closes)

include closes

/-- Neither the store nor the close of a wallet that is taken throws. -/
theorem lib_taken {c : Lib}
    : @Worker.Leads c.Ret rule NameGuard Taken (Worker.lib c) (fun _ => Taken) NameInv := by
  refine .lib (fun _ _ => trivial) (fun _ _ taken _ => taken) fun v error taken allowed => ?_
  exact absurd (closes _ _ allowed taken.1) taken.2

theorem releaseWallet_names {w : Wallet}
    : (releaseWallet w).Leads rule NameGuard Taken (fun _ => NameInv) NameInv := by
  have forgets : (Worker.update forgotten).Leads rule NameGuard Taken (fun _ => NameInv) NameInv :=
    .update (fun v taken o => .forgets taken.1 taken.2) fun v o taken => iff_of_true taken.1 rfl
  refine .bind (lib_taken closes) fun _ => .bind (lib_taken closes) fun ok => .bind forgets fun m => ?_
  exact .keeps (.bind .notifyOpen fun _ => .bind .setState fun _ => .value) keepsName_nameless
    fun v op nameless _ => nameless.guarded v

theorem doClose_names
    : doClose.Leads rule NameGuard NameInv (fun _ => NameInv) NameInv := by
  refine doClose_leads Nameless (fun _ => Taken) (fun v op nameless _ => nameless.guarded v) ?_
    (fun _ _ _ => trivial) keepsName_nameless ?_ ?_ fun _ => releaseWallet_names closes
  · intro v w holds isOpen o
    have isOpen : v.mem.wallet ≠ none := fun closed => nomatch isOpen.symm.trans closed
    exact .takes isOpen fun unnamed => isOpen (holds.mpr unnamed)
  · exact fun held => @keeps_named _ fun wallet _ _ => wallet = held
  · intro v o w holds isOpen
    refine ⟨rfl, fun unnamed => ?_⟩
    exact nomatch isOpen.symm.trans (holds.mpr unnamed)

theorem keepsName : SectionKeeps rule Nameless NameGuard NameInv where
  moment v op nameless holds := by
    cases op with
    | dequeue => exact holds
    | settle ptr out => trivial
    | _ => exact (nameless trivial).guarded v
  calm := keepsName_nameless
  holds held := @keeps_named _ fun wallet _ _ => wallet = held
  outside op nameless := by cases op <;> trivial
  finishes _ := rfl
  begins _ _ _ holds := holds
  settles _ _ _ _ holds := holds
  resets := .keeps resetLocksOnce_stays keepsName_nameless fun v _ nameless _ => nameless.guarded v
  publishes o plan path addr w named _ :=
    publishWallet_names fun unnamed => by simp [badName, unnamed] at named
  closes := doClose_names closes
  ticks := .keeps tick_stays keepsName_nameless fun v _ nameless _ => nameless.guarded v

/-- At every moment of an unbroken run the worker acts only so. -/
theorem Reachable.name_guarded {hasNotify : Bool} {t : System} {op : Op} {next : op.Ans → Worker Unit}
    (reach : Reachable rule hasNotify t) (waits : t.rest = .call op next)
    : NameGuard t.state.view op :=
  (keepsName closes).guarded (iff_of_true rfl rfl) reach waits

end Closes

end MoneroWalletCore.Runtime
