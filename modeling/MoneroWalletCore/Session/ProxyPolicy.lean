import MoneroWalletCore.Runtime.Replay
import MoneroWalletCore.Session.DialAnswers

/-! The proxy that wallet2 is given. The policy is checked on the node module's url of the proxy,
and wallet2 is handed what stripping leaves of it; an empty rest is no proxy.
-/

namespace MoneroWalletCore.Runtime

open Program

-----------------------------------------------------------------------------------------
-- The policy
-----------------------------------------------------------------------------------------

/-- An answer that keeps the node from being dialled in the clear. -/
def ForbidsClear (node : Json) : Prop :=
  catchUpUrl node = ""
    ∧ (node.valueBool "proxyRequired" false = .ok true ∨ str node "proxy" ≠ "")

/-- Something is left of the proxy's url for wallet2 to dial. -/
def ProxyLeft (node : Json) : Prop := cstr (proxyHostPort (str node "proxy")) ≠ ""

/-- The init of `w` must not dial in the clear: it is a move's, or an open's whose answer
forbids it. -/
def MustProxy (w : Wallet) (older : History) (node : Json) : Prop :=
  (wallet2 w older).dial = none → ForbidsClear node

/-- Every init that must not dial in the clear is given a proxy. -/
def FailsClosed (h : History) : Prop :=
  ∀ w address limit user password ssl light proxy answer m older node,
    .asked (.lib (.init w address limit user password ssl light proxy)) answer m :: older <:+ h →
    policyAnswer w older = some node → MustProxy w older node → proxy ≠ ""

/-- Every answer that such an init goes by has something left of its proxy. -/
def ProxiesLeft (h : History) : Prop :=
  ∀ w address limit user password ssl light proxy answer m older node,
    .asked (.lib (.init w address limit user password ssl light proxy)) answer m :: older <:+ h →
    policyAnswer w older = some node → MustProxy w older node → ProxyLeft node

/-- Where an init must not dial in the clear, the answer it goes by leaves it a proxy or not. An
open whose answer forbids the clear is on a Tor route, which is given what is left of the
proxy, or waits, which is given the route to nowhere. -/
theorem DialsBy.proxied {w : Wallet} {m : Mem} {address proxy : String} {older : History}
    {node : Json} (dials : DialsBy w m (address, proxy) older node) (must : MustProxy w older node)
    : proxy ≠ "" ↔ ProxyLeft node := by
  by_cases first : (wallet2 w older).dial = none
  · obtain ⟨_, ⟨network, plan, passed⟩, same⟩ := dials.opens first
    obtain ⟨_, rfl⟩ := Prod.mk.inj same
    obtain ⟨noCatchUp, forbids⟩ := must first
    obtain ⟨rfl, _, required, _, demanded⟩ := nodePolicy_go passed
    have proxied : str plan.node "proxy" ≠ "" := by
      rcases forbids with isRequired | proxied
      · exact demanded (Except.ok.inj (required.symm.trans isRequired))
      · exact proxied
    by_cases joins : str plan.node "proxy" = "tor"
    · have route : routeOf plan.node = .waitingForTor := by simp [routeOf, noCatchUp, joins]
      have left : ProxyLeft plan.node := by
        rw [ProxyLeft, joins]
        decide
      have nowhere : cstr kNoRoute ≠ "" := by decide
      simp only [dialProxy, route]
      exact ⟨fun _ => left, fun _ => nowhere⟩
    · have route : routeOf plan.node = .tor := by simp [routeOf, noCatchUp, joins, proxied]
      simp only [dialProxy, route, ProxyLeft]
  · obtain ⟨_, _, same⟩ := dials.moves first
    obtain ⟨_, rfl⟩ := Prod.mk.inj same
    exact Iff.rfl

-----------------------------------------------------------------------------------------
-- In every run
-----------------------------------------------------------------------------------------

/-- In every run, whatever is answered, the inits that must not dial in the clear are given a
proxy exactly when every answer that they go by has something left of its proxy. Witness: each
single init agrees with its answer. -/
theorem failsClosed_iff_proxiesLeft {hasNotify : Bool} {t : System}
    (reach : Reachable AnyAnswer hasNotify t) (idle : t.Idle)
    : FailsClosed t.state.history ↔ ProxiesLeft t.state.history := by
  have proxied {w address limit user password ssl light proxy answer m older node}
      (part : .asked (.lib (.init w address limit user password ssl light proxy)) answer m :: older
        <:+ t.state.history)
      (policy : policyAnswer w older = some node) (must : MustProxy w older node)
      : proxy ≠ "" ↔ ProxyLeft node := by
    obtain ⟨_, dials⟩ := reach.dialsByAnswer idle _ older part
    cases dials.answered.symm.trans policy
    exact dials.proxied must
  constructor
  · intro closed w address limit user password ssl light proxy answer m older node part policy must
    exact (proxied part policy must).mp
      (closed w address limit user password ssl light proxy answer m older node part policy must)
  · intro left w address limit user password ssl light proxy answer m older node part policy must
    exact (proxied part policy must).mpr
      (left w address limit user password ssl light proxy answer m older node part policy must)

/-- A required proxy of which only the scheme is given. -/
def strippedNode : Json :=
  .obj
    [
      ("url", .str "http://node:18081"), ("proxy", .str "socks5://"), ("proxyRequired", .bool true)
    ]

/-- A wallet opened by that answer. -/
def World.strippedProxy : World :=
  let job := .obj [("name", .str "w"), ("network", .str "stagenet")]
  (World.withJob "open_wallet" job).afterTurn (Script.succeeding true 2 strippedNode)

theorem World.strippedProxy_reachable
    : Reachable AnyAnswer true ⟨.pure (), World.strippedProxy⟩ :=
  (Reachable.withJob _ _).afterTurn fun _ _ _ => trivial

theorem failsClosed_iff_proxiesLeft_stripped
    : FailsClosed World.strippedProxy.history ↔ ProxiesLeft World.strippedProxy.history :=
  failsClosed_iff_proxiesLeft World.strippedProxy_reachable rfl

/-- The proxy is required and not empty, so the policy lets it pass; the init is given none. -/
theorem stripped_proxy_dials_clear
    : Reachable AnyAnswer true ⟨.pure (), World.strippedProxy⟩
      ∧ World.strippedProxy.mem.wallet = some ⟨9⟩ ∧ World.strippedProxy.mem.route = .tor
      ∧ ¬FailsClosed World.strippedProxy.history := by
  refine ⟨World.strippedProxy_reachable, by decide +kernel, by decide +kernel, fun closed => ?_⟩
  have dials : ∃ m older,
      World.strippedProxy.history.drop 18
          = .asked (.lib (.init ⟨9⟩ "node:18081" 0 "" "" false false "")) (.ok true) m :: older
        ∧ policyAnswer ⟨9⟩ older = some strippedNode := ⟨_, _, rfl, rfl⟩
  obtain ⟨m, older, here, policy⟩ := dials
  have part := List.drop_suffix 18 World.strippedProxy.history
  rw [here] at part
  exact closed ⟨9⟩ _ _ _ _ _ _ "" _ m older strippedNode part policy (fun _ => ⟨rfl, .inl rfl⟩) rfl

end MoneroWalletCore.Runtime
