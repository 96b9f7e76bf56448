import MoneroWalletCore.Session.NoWayBack

/-! Waiting for Tor. The wallet is always offline then, and its last init was given the route to
nowhere when it was the open's own and the open already waited. A session that came to wait by a
move still has the dial arguments it came with.
-/

namespace MoneroWalletCore.Runtime

/-- Waiting as the route table has it: offline, and with nowhere to dial. -/
def DialsNowhere (w : Wallet) (h : History) : Prop :=
  (wallet2 w h).offline = true ∧ ∃ address, (wallet2 w h).dial = some (address, kNoRoute)

/-- What was before the last init of an object. -/
def lastDial (w : Wallet) : History → Option History
  | [] => none
  | e :: older =>
      if e.handle? = some w then none
      else if (e.dial? w).isSome then some older
      else lastDial w older

/-- The proxy that is left of the answer's is itself the route to nowhere. -/
def NowhereLeft (node : Json) : Prop := cstr (proxyHostPort (str node "proxy")) = kNoRoute

/-- The answer that the last init went by gives nowhere to dial: one that made the open wait, or
one whose proxy is the route to nowhere. -/
def NowhereAnswered (w : Wallet) (h : History) : Prop :=
  ∃ older node, lastDial w h = some older ∧ policyAnswer w older = some node
    ∧ if (wallet2 w older).dial = none then
        routeOf node = .waitingForTor ∨ routeOf node = .tor ∧ NowhereLeft node
      else
        NowhereLeft node

theorem openArgs_nowhere {node : Json}
    : (openArgs node).2 = kNoRoute
      ↔ routeOf node = .waitingForTor ∨ routeOf node = .tor ∧ NowhereLeft node := by
  have clear : cstr "" ≠ kNoRoute := by decide
  have nowhere : cstr kNoRoute = kNoRoute := by decide
  cases route : routeOf node <;> simp [openArgs, dialProxy, route, NowhereLeft, clear, nowhere]

/-- The last init is given the route to nowhere exactly when its answer says so. Induction on
the history, back to that init. -/
theorem nowhere_answered {w : Wallet} {h : History} {dial : String × String}
    (dials : Throughout Event.DialsByAnswer h) (dialled : (wallet2 w h).dial = some dial)
    : dial.2 = kNoRoute ↔ NowhereAnswered w h := by
  induction h with
  | nil => cases dialled
  | cons e older ih =>
      obtain ⟨here, earlier⟩ := throughout_cons.mp dials
      rw [wallet2_dial_cons] at dialled
      split at dialled
      next => cases dialled
      next kept =>
        cases inits : e.dial? w with
        | none =>
            rw [inits, Option.none_or] at dialled
            simpa [NowhereAnswered, lastDial, kept, inits] using ih earlier dialled
        | some dial' =>
            rw [inits, Option.some_or] at dialled
            cases dialled
            obtain ⟨m, node, dialsBy⟩ := here.dials inits
            have last : lastDial w (e :: older) = some older := by simp [lastDial, kept, inits]
            simp only [NowhereAnswered, last, Option.some_inj, exists_and_left, exists_eq_left',
              dialsBy.answered]
            by_cases first : (wallet2 w older).dial = none
            · rw [if_pos first, ← openArgs_nowhere, ← (dialsBy.opens first).2.2]
            · rw [if_neg first, (dialsBy.moves first).2.2]
              rfl

/-- Whenever no turn is under way, an open wallet that waits for Tor is offline, and has nowhere
to dial exactly when the answer of its last init gave it nowhere. Witness: the agreement of the
route with the dial, and the answers that inits go by. -/
theorem waits_nowhere_iff_answered {hasNotify : Bool} {t : System} {w : Wallet}
    (reach : Reachable LibraryReturns hasNotify t) (idle : t.Idle)
    (isOpen : t.state.mem.wallet = some w) (waits : t.state.mem.route = .waitingForTor)
    : DialsNowhere w t.state.history ↔ NowhereAnswered w t.state.history := by
  have init : DialInv (World.start hasNotify).view :=
    ⟨fun w isOpen => (by cases isOpen), throughout_nil⟩
  have agrees := (keepsDial.turnRule.reachable init reach idle).dialled w isOpen
  have offline : (wallet2 w t.state.history).offline = true := by
    have route : t.state.view.mem.session.route = .waitingForTor := waits
    rw [Dialled, route] at agrees
    exact agrees.1
  have dialInv := keepsDials_all.turnRule.reachable
    ⟨throughout_nil, fun _ isOpen => by cases isOpen⟩ reach idle
  obtain ⟨dial, dialled⟩ := Option.ne_none_iff_exists'.mp (dialInv.dialled w isOpen)
  have told : (wallet2 w t.state.history).dial = some dial := dialled
  have gives : dial.2 = kNoRoute ↔ NowhereAnswered w t.state.history :=
    nowhere_answered dialInv.follows told
  rw [← gives, DialsNowhere]
  constructor
  · rintro ⟨_, address, given⟩
    cases told.symm.trans given
    rfl
  · intro same
    exact ⟨offline, dial.1, told.trans (congrArg (fun proxy => some (dial.1, proxy)) same)⟩

/-- A wallet opened while the built-in Tor is joining, with no node to catch up with. -/
def World.openedWaiting : World :=
  let job := .obj [("name", .str "w"), ("network", .str "stagenet")]
  let node := .obj [("url", .str "http://node.onion:18081"), ("proxy", .str "tor")]
  (World.withJob "open_wallet" job).afterTurn (Script.succeeding true 2 node)

theorem waits_nowhere_iff_answered_opened
    : DialsNowhere ⟨9⟩ World.openedWaiting.history
      ↔ NowhereAnswered ⟨9⟩ World.openedWaiting.history :=
  waits_nowhere_iff_answered ((Reachable.withJob _ _).afterTurn Script.succeeding_returns) rfl
    (by decide +kernel) (by decide +kernel)

/-- A wallet that caught up in the clear before the built-in Tor had joined. -/
def World.movedWaiting : World :=
  let job := .obj [("name", .str "w"), ("network", .str "stagenet")]
  let script := Script.succeeding true 2 joiningNode
  ((World.withJob "open_wallet" job).afterTurn script).afterTurn script

/-- It waits with the catch-up node as its last init, and no proxy. -/
theorem moved_waits_with_clear_dial
    : Reachable LibraryReturns true ⟨.pure (), World.movedWaiting⟩
      ∧ World.movedWaiting.mem.wallet = some ⟨9⟩
      ∧ World.movedWaiting.mem.route = .waitingForTor
      ∧ ¬DialsNowhere ⟨9⟩ World.movedWaiting.history := by
  have reach : Reachable LibraryReturns true ⟨.pure (), World.movedWaiting⟩ :=
    ((Reachable.withJob _ _).afterTurn Script.succeeding_returns).afterTurn
      Script.succeeding_returns
  refine ⟨reach, by decide +kernel, by decide +kernel, fun ⟨_, address, nowhere⟩ => ?_⟩
  have clear : (wallet2 ⟨9⟩ World.movedWaiting.history).dial = some ("clear:18081", "") := by
    decide +kernel
  have same : "" = kNoRoute := congrArg Prod.snd (Option.some.inj (clear.symm.trans nowhere))
  exact absurd same (by decide)

end MoneroWalletCore.Runtime
