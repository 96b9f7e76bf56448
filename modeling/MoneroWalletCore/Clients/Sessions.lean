import MoneroWalletCore.Clients.HandleLock
import MoneroWalletCore.Session.Naming

/-! Which session the name and the probe's reading are of. A session begins when a wallet is put
in place. Its name comes a section later, and outlives the wallet by some when it is closed.
-/

namespace MoneroWalletCore.Runtime

open Program Relation

variable {Λ : Type} {rule : Surroundings} {library : Library Λ}
variable {hasNotify : Bool} {l : Λ}
variable {rules : Pool.Rules Actor Actor.Op Actor.Ans (fun _ => Exn) Actor.Out (Shared Λ)}
variable {t t' : Module Λ}

/-! ### The worker by itself -/

/-- The worker, with the others as it sees them. -/
def Module.worker (t : Module Λ) : System := { rest := t.rest .worker, state := t.state.world }

theorem Shared.host_other {s s' : Shared Λ} (hosted : s.host s') : World.Other s.world s'.world := by
  obtain ⟨world, hosted, rfl⟩ := hosted
  cases hosted with
  | client => exact .client _ _
  | setWalletsDir => exact .setWalletsDir _ _

/-- An action of a client or the probe is one that the worker may see of others. -/
theorem Shared.read_other {s s' : Shared Λ} {i : Actor} {op : ReadOp} {answer : op.Ans}
    (guarded : Grip.guard (s.grip i) op) (acts : s.read library i op answer s')
    : s'.world = s.world ∨ World.Other s.world s'.world := by
  rcases Shared.read_cases acts with ⟨_, rfl⟩ | ⟨_, rfl⟩ | ⟨_, _, _, _, _, rfl⟩
    | ⟨w, connected, height, rfl, rfl⟩
  · exact .inl rfl
  · exact .inl rfl
  · exact .inl rfl
  · have holder := Shared.holds_of_grip (show s.grip i ≠ none from guarded ▸ nofun)
    have held : s.grip i = some (some w) := guarded
    rw [Shared.grip, if_pos holder] at held
    refine .inr (.probe s.world connected height ?_)
    exact Option.isSome_iff_exists.mpr ⟨w, Option.some.inj held⟩

/-- A run of the module is a run of its worker. Induction on the steps. -/
theorem Module.Refines.reachable (refines : Module.Refines rules rule library)
    (reach : Pool.Reach rules (Module.start hasNotify l) t)
    : Reachable rule hasNotify t.worker := by
  induction reach with
  | refl => exact .refl
  | @tail t t' before step ih =>
      have probe : Actor.worker ≠ .probe := nofun
      have call (n : Nat) : Actor.worker ≠ .call n := nofun
      have unseen {i : Actor} (other : Actor.worker ≠ i) {p : Program i.Op i.Ans Exn i.Out}
          {s' : Shared Λ} (same : s'.world = t.state.world ∨ World.Other t.state.world s'.world)
          : Reachable rule hasNotify (Module.worker (t.resume i p s')) := by
        have rest : (t.resume i p s').rest .worker = t.rest .worker := Pool.resume_other other
        rcases same with same | stepped
        · have equal : Module.worker (t.resume i p s') = t.worker := by
            simp only [Module.worker, rest, Pool.resume_state, same]
          rw [equal]
          exact ih
        · refine ih.tail (.move ?_)
          simp only [Module.worker, rest, Pool.resume_state]
          exact .other stepped
      cases step with
      | @call i op next answer s' waits may acts =>
          have guarded := refines.guarded before (show (t.rest i).head = some op by rw [waits]; rfl)
          rw [refines.act] at acts
          cases i with
          | worker =>
              obtain ⟨world, lock, acted, _, rfl⟩ := acts
              refine ih.tail (.move ?_)
              simp only [Module.worker, waits, Pool.resume_state, Pool.resume_same]
              exact .call acted
          | probe => exact unseen probe (Shared.read_other guarded acts)
          | call n => exact unseen (call n) (Shared.read_other guarded acts)
      | @start i p s' starts =>
          rw [refines.starts] at starts
          cases i with
          | worker =>
              obtain ⟨idle, rfl, rfl⟩ := starts
              refine ih.tail ?_
              simp only [Module.worker, idle, Pool.resume_state, Pool.resume_same]
              exact .turn
          | probe =>
              obtain ⟨_, rfl, rfl⟩ := starts
              exact unseen probe (.inl rfl)
          | call n =>
              obtain ⟨_, request, rfl, rfl⟩ := starts
              exact unseen (call n) (.inl rfl)
      | other stepped =>
          exact ih.tail (.move (.other (Shared.host_other (refines.others _ _ stepped))))

/-! ### What a step may do -/

/-- What a step of the module does to the members, the last job and the sessions. -/
inductive Shared.Changes (s s' : Shared Λ) : Prop
  | assigns (assigned : Mem.Section s.world.history s.world.mem s'.world.mem)
    (history : s'.world.history = s.world.history) (opened : s'.opened = s.openedBy s'.world)
    (rounds : s'.rounds = s.rounds)
  | begins (named : s.world.mem.wallet = none ↔ s.world.mem.walletName = "")
    (mem : s'.world.mem = s.world.mem) (opened : s'.opened = s.opened)
    (rounds : s'.rounds = s.rounds)
  | records (w : Wallet) (connected : Bool) (height : UInt64)
    (held : s.world.mem.wallet = some w) (recorded : s' = s.recorded w connected height)
  | leaves (mem : s.world.mem.SameNamed s'.world.mem)
    (job : lastJob s'.world.history = lastJob s.world.history) (opened : s'.opened = s.opened)
    (rounds : s'.rounds = s.rounds)

theorem Mem.SameNamed.refl {m : Mem} : m.SameNamed m := ⟨rfl, rfl, rfl, id, rfl⟩

namespace Shared

variable {s s' : Shared Λ}

theorem work_changes {op : Op} {answer : op.Ans} (guarded : NameGuard s.world.view op)
    (acts : s.work rule op answer s')
    : Changes s s' := by
  obtain ⟨world, lock, acted, _, rfl⟩ := acts
  cases op with
  | update f =>
      obtain ⟨_, rfl⟩ := acted
      exact .assigns (guarded s.world.mem.others) rfl rfl rfl
  | dequeue =>
      obtain ⟨_, rfl⟩ := acted
      exact .begins guarded rfl (openedBy_same rfl) rfl
  | lock mode =>
      cases acted
      exact .leaves .refl rfl (openedBy_same rfl) rfl
  | unlock mode =>
      cases acted
      exact .leaves .refl rfl (openedBy_same rfl) rfl
  | settle ptr out =>
      obtain ⟨_, rfl⟩ := acted
      exact .leaves .refl rfl (openedBy_same rfl) rfl
  | ask call =>
      obtain ⟨_, rfl⟩ := acted
      exact .leaves .refl rfl (openedBy_same rfl) rfl

theorem read_changes {i : Actor} {op : ReadOp} {answer : op.Ans}
    (guarded : Grip.guard (s.grip i) op) (acts : s.read library i op answer s')
    : Changes s s' := by
  rcases read_cases acts with ⟨_, rfl⟩ | ⟨_, rfl⟩ | ⟨_, _, _, _, _, rfl⟩
    | ⟨w, connected, height, rfl, recorded⟩
  · exact .leaves .refl rfl rfl rfl
  · exact .leaves .refl rfl rfl rfl
  · exact .leaves .refl rfl rfl rfl
  · have holder := holds_of_grip (show s.grip i ≠ none from guarded ▸ nofun)
    have held : s.grip i = some (some w) := guarded
    rw [grip, if_pos holder] at held
    exact .records w connected height (Option.some.inj held) recorded

theorem host_changes (hosted : s.host s') : Changes s s' := by
  obtain ⟨world, hosted, rfl⟩ := hosted
  cases hosted <;> exact .leaves .refl rfl rfl rfl

end Shared

/-- Every step of an unbroken run does one of these. -/
theorem Module.Refines.changes (refines : Module.Refines rules rule library) (closes : rule.Closes)
    (before : Pool.Reach rules (Module.start hasNotify l) t) (step : Pool.Step rules t t')
    : t.state.Changes t'.state := by
  cases step with
  | @call i op next answer s' waits may acts =>
      have guarded := refines.guarded before (show (t.rest i).head = some op by rw [waits]; rfl)
      rw [refines.act] at acts
      cases i with
      | worker => exact Shared.work_changes ((refines.reachable before).name_guarded closes waits) acts
      | probe => exact Shared.read_changes guarded acts
      | call n => exact Shared.read_changes guarded acts
  | @start i p s' starts =>
      rw [refines.starts] at starts
      cases i with
      | worker =>
          obtain ⟨_, _, rfl⟩ := starts
          exact .leaves .refl rfl rfl rfl
      | probe =>
          obtain ⟨_, _, rfl⟩ := starts
          exact .leaves .refl rfl rfl rfl
      | call n =>
          obtain ⟨_, _, _, rfl⟩ := starts
          exact .leaves .refl rfl rfl rfl
  | other stepped => exact Shared.host_changes (refines.others _ _ stepped)

/-! ### The name -/

/-- A wallet was opened under a name: the one in the parameters of its job. -/
def Opened.Under (opened : Opened) (name : String) : Prop :=
  ∃ job params, opened.job = some job ∧ openParams job.params = .ok params ∧ params.name = name

/-- The handle and the name are the last session's. -/
structure Shared.Attributed (s : Shared Λ) : Prop where
  held : ∀ w, s.world.mem.wallet = some w → ∃ opened, s.opened = some opened ∧ opened.wallet = w
  named : s.world.mem.walletName ≠ ""
    → ∃ opened, s.opened = some opened ∧ opened.Under s.world.mem.walletName
  unnamed : s.world.mem.wallet ≠ none → s.world.mem.walletName = ""
    → ∃ opened, s.opened = some opened ∧ opened.job = lastJob s.world.history

/-- What the members say of the session that they are read in. -/
structure Dated (m : Mem) (opened : Option Opened) : Prop where
  held : ∀ w, m.wallet = some w → ∃ session, opened = some session ∧ session.wallet = w
  named : m.walletName ≠ "" → ∃ session, opened = some session ∧ session.Under m.walletName

theorem Shared.Attributed.dated {s : Shared Λ} (attributed : s.Attributed)
    : Dated s.world.mem s.opened :=
  ⟨attributed.held, attributed.named⟩

theorem Shared.Attributed.same {s s' : Shared Λ} (holds : s.Attributed)
    (wallet : s'.world.mem.wallet = s.world.mem.wallet)
    (name : s'.world.mem.walletName = s.world.mem.walletName)
    (job : s'.world.mem.wallet ≠ none → s'.world.mem.walletName = "" →
      lastJob s'.world.history = lastJob s.world.history)
    (opened : s'.opened = s.opened)
    : s'.Attributed := by
  obtain ⟨held, named, unnamed⟩ := holds
  refine ⟨?_, ?_, fun isOpen empty => ?_⟩
  · rw [opened, wallet]
    exact held
  · rw [opened, name]
    exact named
  · rw [opened, job isOpen empty]
    exact unnamed (wallet ▸ isOpen) (name ▸ empty)

theorem Shared.Changes.attributed {s s' : Shared Λ} (changes : s.Changes s')
    (holds : s.Attributed)
    : s'.Attributed := by
  cases changes with
  | begins agree mem opened rounds =>
      refine holds.same (by rw [mem]) (by rw [mem]) (fun isOpen empty => ?_) opened
      rw [mem] at isOpen empty
      exact absurd (agree.mpr empty) isOpen
  | records w connected height isOpen recorded =>
      subst recorded
      exact holds.same rfl rfl (fun _ _ => rfl) rfl
  | leaves mem job opened rounds => exact holds.same mem.1 mem.2.1 (fun _ _ => job) opened
  | assigns assigned history opened rounds =>
      generalize mem : s'.world.mem = m' at assigned
      cases assigned with
      | stays unchanged =>
          have wallet : s'.world.mem.wallet = s.world.mem.wallet := by rw [mem, unchanged.1]
          exact holds.same wallet (by rw [mem, unchanged.2.1]) (fun _ _ => by rw [history])
            (opened.trans (openedBy_same wallet))
      | publishes w closed empty =>
          have last : s'.opened = some
              {
                wallet := w
                job := lastJob s'.world.history
                earlier := (s.opened.map fun last => last.earlier + 1).getD 0
              } := by
            rw [opened, openedBy, closed, mem]
          refine ⟨fun held isOpen => ⟨_, last, ?_⟩, fun full => ?_, fun _ _ => ⟨_, last, rfl⟩⟩
          · rw [mem] at isOpen
            exact Option.some.inj isOpen
          · rw [mem] at full
            exact absurd empty full
      | describes o node addr now isOpen empty fresh began params =>
          have wallet : s'.world.mem.wallet = s.world.mem.wallet := by rw [mem]; rfl
          have last := opened.trans (openedBy_same wallet)
          refine ⟨?_, fun _ => ?_, fun _ nameless => ?_⟩
          · rw [last, wallet]
            exact holds.held
          · obtain ⟨session, known, job⟩ := holds.unnamed isOpen empty
            refine ⟨session, last.trans known, _, o, job.trans began, params, ?_⟩
            rw [mem]
            rfl
          · rw [mem] at nameless
            exact absurd nameless fresh
      | takes isOpen full =>
          have last : s'.opened = s.opened := by
            rw [opened, openedBy, mem]
            cases s.world.mem.wallet <;> rfl
          refine ⟨fun w isOpen => ?_, fun _ => ?_, fun isOpen => ?_⟩
          · rw [mem] at isOpen
            cases isOpen
          · rw [last, mem]
            exact holds.named full
          · rw [mem] at isOpen
            exact absurd rfl isOpen
      | forgets closed full =>
          have gone : s'.world.mem.wallet = none := by rw [mem]; exact closed
          refine ⟨fun w isOpen => ?_, fun named => ?_, fun isOpen => absurd gone isOpen⟩
          · rw [gone] at isOpen
            cases isOpen
          · rw [mem] at named
            exact absurd rfl named

/-! ### The reading -/

/-- What the members hold of a reading, against the rounds that were written down. -/
structure Shared.Readings (s : Shared Λ) : Prop where
  held : ∀ round ∈ s.rounds, ∃ opened, round.opened = some opened ∧ opened.wallet = round.wallet
  probed : s.world.mem.daemonConnected = true ∨ s.world.mem.daemonHeight ≠ 0
    → s.world.mem.probed = true
  live : s.world.mem.probed = true → s.world.mem.wallet ≠ none ∨ s.world.mem.walletName ≠ ""
  last : s.world.mem.probed = true
    → ∃ round ∈ s.rounds.head?, round.opened = s.opened
      ∧ (s.world.mem.daemonConnected = true → round.connected = true)
  height : s.world.mem.daemonHeight ≠ 0
    → ∃ round ∈ s.rounds, round.opened = s.opened ∧ round.height = s.world.mem.daemonHeight

/-- Without a reading nothing is to be said of it. -/
theorem Shared.Readings.reset {s : Shared Λ}
    (held : ∀ round ∈ s.rounds, ∃ opened, round.opened = some opened
      ∧ opened.wallet = round.wallet)
    (probed : s.world.mem.probed = false) (connected : s.world.mem.daemonConnected = false)
    (height : s.world.mem.daemonHeight = 0)
    : s.Readings where
  held := held
  probed reads := by simp [connected, height] at reads
  live reads := by simp [probed] at reads
  last reads := by simp [probed] at reads
  height reads := absurd height reads

/-- A section that raises nothing keeps the reading, while the session lasts. -/
theorem Shared.Readings.kept {s s' : Shared Λ} (holds : s.Readings)
    (probed : s'.world.mem.probed = s.world.mem.probed)
    (connected : s'.world.mem.daemonConnected = true → s.world.mem.daemonConnected = true)
    (height : s'.world.mem.daemonHeight = s.world.mem.daemonHeight)
    (live : s.world.mem.wallet ≠ none ∨ s.world.mem.walletName ≠ ""
      → s'.world.mem.wallet ≠ none ∨ s'.world.mem.walletName ≠ "")
    (opened : s'.opened = s.opened) (rounds : s'.rounds = s.rounds)
    : s'.Readings where
  held := rounds ▸ holds.held
  probed reads := probed ▸ holds.probed (reads.imp connected (height ▸ ·))
  live reads := live (holds.live (probed ▸ reads))
  last reads := by
    obtain ⟨round, first, session, agrees⟩ := holds.last (probed ▸ reads)
    exact ⟨round, rounds ▸ first, session.trans opened.symm, fun shown => agrees (connected shown)⟩
  height reads := by
    obtain ⟨round, known, session, agrees⟩ := holds.height (height ▸ reads)
    exact ⟨round, rounds ▸ known, session.trans opened.symm, agrees.trans height.symm⟩

theorem Shared.Changes.readings {s s' : Shared Λ} (changes : s.Changes s')
    (attributed : s.Attributed) (holds : s.Readings)
    : s'.Readings := by
  cases changes with
  | begins agree mem opened rounds =>
      exact holds.kept (by rw [mem]) (by rw [mem]; exact id) (by rw [mem]) (by rw [mem]; exact id)
        opened rounds
  | leaves mem job opened rounds =>
      obtain ⟨wallet, name, probed, connected, height⟩ := mem
      exact holds.kept probed connected height (by rw [wallet, name]; exact id) opened rounds
  | records w connected height isOpen recorded =>
      subst recorded
      obtain ⟨opened, known, wallet⟩ := attributed.held w isOpen
      refine ⟨?_, fun _ => rfl, fun _ => .inl (isOpen ▸ nofun), fun _ => ?_, fun reads => ?_⟩
      · intro round member
        rcases List.mem_cons.mp member with rfl | earlier
        · exact ⟨opened, known, wallet⟩
        · exact holds.held round earlier
      · exact ⟨_, rfl, rfl, id⟩
      · by_cases fresh : height = 0
        · have old : s.world.mem.daemonHeight ≠ 0 := by
            simpa [recorded, fresh] using reads
          obtain ⟨round, member, session, agrees⟩ := holds.height old
          refine ⟨round, List.mem_cons_of_mem _ member, session, agrees.trans ?_⟩
          simp [recorded, fresh]
        · refine ⟨_, List.mem_cons_self, rfl, ?_⟩
          simp [recorded, fresh]
  | assigns assigned history opened rounds =>
      have held := rounds ▸ holds.held
      generalize mem : s'.world.mem = m' at assigned
      cases assigned with
      | stays unchanged =>
          obtain ⟨wallet, name, probed, connected, height⟩ := unchanged
          subst mem
          exact holds.kept probed connected height (by rw [wallet, name]; exact id)
            (opened.trans (openedBy_same wallet)) rounds
      | publishes w closed empty =>
          have unread : s.world.mem.probed = false := by
            by_contra reads
            rcases holds.live (Bool.not_eq_false _ ▸ reads) with isOpen | full
            · exact isOpen closed
            · exact full empty
          have unset (reads : s.world.mem.daemonConnected = true ∨ s.world.mem.daemonHeight ≠ 0)
              : False := by
            cases unread.symm.trans (holds.probed reads)
          refine .reset held (by rw [mem]; exact unread) ?_ ?_
          · rw [mem]
            exact Bool.eq_false_iff.mpr fun shown => unset (.inl shown)
          · rw [mem]
            exact by_contra fun shown => unset (.inr shown)
      | describes o node addr now isOpen empty fresh began params =>
          exact .reset held (by rw [mem]; rfl) (by rw [mem]; rfl) (by rw [mem]; rfl)
      | takes isOpen full =>
          have last : s'.opened = s.opened := by
            rw [opened, openedBy, mem]
            cases s.world.mem.wallet <;> rfl
          exact holds.kept (by rw [mem]; rfl) (by rw [mem]; exact id) (by rw [mem]; rfl)
            (fun _ => .inr (by rw [mem]; exact full)) last rounds
      | forgets closed full =>
          exact .reset held (by rw [mem]; rfl) (by rw [mem]; rfl) (by rw [mem]; rfl)

/-- In every unbroken run, at every moment. -/
theorem Module.Refines.attributed (refines : Module.Refines rules rule library)
    (closes : rule.Closes)
    (reach : Pool.Reach rules (Module.start hasNotify l) t)
    : t.state.Attributed ∧ t.state.Readings := by
  induction reach with
  | refl =>
      exact ⟨⟨nofun, fun full => absurd rfl full, fun isOpen => absurd rfl isOpen⟩,
        .reset nofun rfl rfl rfl⟩
  | tail before step ih =>
      have changes := refines.changes closes before step
      exact ⟨changes.attributed ih.1, changes.readings ih.1 ih.2⟩

end MoneroWalletCore.Runtime
