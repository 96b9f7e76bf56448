import MoneroWalletCore.Runtime.Rules

/-! What a history says: the handles that the manager returned, what a wallet object was told
since, and which answer of the node module came last. Each is read by recursion from the newest
event on.
-/

namespace MoneroWalletCore.Runtime

/-- The wallet object that an event returned. -/
def Event.handle? : Event → Option Wallet
  | .asked (.lib (.openWallet ..)) (.ok w?) _ => w?
  | .asked (.lib (.createWallet ..)) (.ok w?) _ => w?
  | .asked (.lib (.recoveryWallet ..)) (.ok w?) _ => w?
  | .asked (.lib (.createWalletFromKeys ..)) (.ok w?) _ => w?
  | _ => none

/-- The transaction that an event returned. -/
def Event.built? : Event → Option PendingTx
  | .asked (.lib (.createTransaction ..)) (.ok pt?) _ => pt?
  | _ => none

/-- The answer that an event brought from the node module. -/
def Event.node? : Event → Option Json
  | .asked (.resolve _) (.ok node) _ => some node
  | _ => none

/-- An event of a call that spends: a transaction built or relayed. -/
def Event.sends : Event → Bool
  | .asked (.lib (.createTransaction ..)) _ _ | .asked (.lib (.commit ..)) _ _ => true
  | _ => false

/-- Every event agrees with what was before it. -/
def Throughout (agrees : Event → History → Prop) (h : History) : Prop :=
  ∀ e older, e :: older <:+ h → agrees e older

@[simp] theorem throughout_nil {agrees : Event → History → Prop} : Throughout agrees [] :=
  fun _ _ part => absurd part (by simp)

@[simp] theorem throughout_cons {agrees : Event → History → Prop} {e : Event} {h : History}
    : Throughout agrees (e :: h) ↔ agrees e h ∧ Throughout agrees h := by
  constructor
  · intro all
    exact ⟨all e h (List.suffix_refl _), fun e' older part => all e' older (part.trans (List.suffix_cons e h))⟩
  · intro ⟨here, all⟩ e' older part
    rcases List.suffix_cons_iff.mp part with same | earlier
    · cases same
      exact here
    · exact all e' older earlier

-----------------------------------------------------------------------------------------
-- A wallet object
-----------------------------------------------------------------------------------------

/-- What a wallet object was told and answered since it was returned. -/
structure Wallet2 where
  /-- The address and the proxy of its last init. -/
  dial : Option (String × String) := none
  offline : Bool := false
  trusted : Bool := false
  nettype : Option Int := none

/-- An event as a wallet object sees it. -/
def Wallet2.after (w : Wallet) (g : Wallet2) (e : Event) : Wallet2 :=
  if e.handle? = some w then {}
  else
    match e with
    | .asked (.lib (.init w' address _ _ _ _ _ proxy)) _ _ =>
        if w' = w then { g with dial := some (address, proxy) } else g
    | .asked (.lib (.setOffline w' offline)) _ _ => if w' = w then { g with offline } else g
    | .asked (.lib (.setTrustedDaemon w' trusted)) _ _ => if w' = w then { g with trusted } else g
    | .asked (.lib (.nettype w')) (.ok nettype) _ =>
        if w' = w then { g with nettype := some nettype } else g
    | _ => g

def wallet2 (w : Wallet) : History → Wallet2
  | [] => {}
  | e :: older => (wallet2 w older).after w e

@[simp] theorem wallet2_cons {w : Wallet} {e : Event} {h : History}
    : wallet2 w (e :: h) = (wallet2 w h).after w e := rfl

/-- The dial arguments of an event that inits an object. -/
def Event.dial? (w : Wallet) : Event → Option (String × String)
  | .asked (.lib (.init w' address _ _ _ _ _ proxy)) _ _ =>
      if w' = w then some (address, proxy) else none
  | _ => none

theorem wallet2_dial_cons {w : Wallet} {e : Event} {h : History}
    : (wallet2 w (e :: h)).dial
      = if e.handle? = some w then none else (e.dial? w).or (wallet2 w h).dial := by
  rw [wallet2_cons]
  unfold Wallet2.after
  by_cases made : e.handle? = some w
  · simp only [made, if_true]
  · rw [if_neg made, if_neg made]
    cases e with
    | asked c answer m =>
        cases c with
        | lib c =>
            cases c with
            | init w' => by_cases same : w' = w <;> simp [Event.dial?, same]
            | setOffline w' => by_cases same : w' = w <;> simp [Event.dial?, same]
            | setTrustedDaemon w' => by_cases same : w' = w <;> simp [Event.dial?, same]
            | nettype w' => cases answer <;> by_cases same : w' = w <;> simp [Event.dial?, same]
            | _ => rfl
        | _ => rfl
    | _ => rfl

/-- What a wallet object answered when it was asked whether it only watches. -/
def Event.watchOnly? (w : Wallet) : Event → Option Bool
  | .asked (.lib (.watchOnly w')) (.ok watchOnly) _ => if w' = w then some watchOnly else none
  | _ => none

/-- The last such answer. -/
def lastWatchOnly (w : Wallet) (h : History) : Option Bool := h.findSome? (Event.watchOnly? w)

@[simp] theorem lastWatchOnly_cons {w : Wallet} {e : Event} {h : History}
    : lastWatchOnly w (e :: h) = (e.watchOnly? w).or (lastWatchOnly w h) := by
  cases found : e.watchOnly? w <;> simp [lastWatchOnly, found]

-----------------------------------------------------------------------------------------
-- The node module's answers
-----------------------------------------------------------------------------------------

/-- The last answer of the node module. -/
def lastAnswer (h : History) : Option Json := h.findSome? Event.node?

@[simp] theorem lastAnswer_cons {e : Event} {h : History}
    : lastAnswer (e :: h) = e.node?.or (lastAnswer h) := by
  cases found : e.node? <;> simp [lastAnswer, found]

/-- The answer that the open of a wallet object went by: the last one before its return. -/
def openAnswer (w : Wallet) : History → Option Json
  | [] => none
  | e :: older => if e.handle? = some w then lastAnswer older else openAnswer w older

@[simp] theorem openAnswer_cons {w : Wallet} {e : Event} {h : History}
    : openAnswer w (e :: h) = if e.handle? = some w then lastAnswer h else openAnswer w h := rfl

/-- Every answer of the node module. -/
def answers (h : History) : List Json := h.filterMap Event.node?

@[simp] theorem answers_cons {e : Event} {h : History}
    : answers (e :: h) = e.node?.toList ++ answers h := by
  cases found : e.node? <;> simp [answers, found]

-----------------------------------------------------------------------------------------
-- Jobs
-----------------------------------------------------------------------------------------

def Event.job? : Event → Option Job
  | .began _ job => some job
  | _ => none

/-- The job that began last. -/
def lastJob (h : History) : Option Job := h.findSome? Event.job?

@[simp] theorem lastJob_cons {e : Event} {h : History}
    : lastJob (e :: h) = e.job?.or (lastJob h) := by
  cases found : e.job? <;> simp [lastJob, found]

end MoneroWalletCore.Runtime
