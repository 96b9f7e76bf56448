import MoneroWalletCore.Clients.Schedules
import MoneroWalletCore.Clients.Sessions
import MoneroWalletCore.Clients.Sights
import MoneroWalletCore.Session.SettingsLock

/-! Whose password reveals a seed or a view key. The handle is held from the look at the wallet
on; the name, which the keys file is named by, is then that wallet's or none.
-/

namespace MoneroWalletCore.Runtime

open Program

variable {Λ : Type} {library : Library Λ} {dir : String}

/-! ### What a call notes -/

/-- The key material that was read, and of which wallet. -/
def Note.key (note : Note) : Option (Wallet × String) :=
  match note.op, note.answer with
  | .query (.seed w _), .ok key => some (w, key)
  | .query (.secretViewKey w), .ok key => some (w, key)
  | _, _ => none

/-- The keys file and the password that were found to go together. -/
def Note.verified (note : Note) : Option (String × String) :=
  match note.op, note.answer with
  | .query (.lib (.verifyWalletPassword path password _ _)), .ok true => some (path, password)
  | _, _ => none

/-- The answer of a call that reveals a seed or a view key. -/
inductive Reveals (key : String) : Json → Prop
  | seed : Reveals key (okWith (.obj [("seed", .str key)]))
  | viewKey (address : String)
    : Reveals key (okWith (.obj [("viewKey", .str key), ("address", .str address)]))

/-- The answer's key material is of a session whose password was presented: it was verified for
the keys file of the name that the session's wallet was opened under. -/
def RevealedBy (dir password : String) (notes : List Note) (key : String) : Prop :=
  ∃ opened name, opened.Under name
    ∧ (∃ note ∈ notes, note.key = some (opened.wallet, key) ∧ note.opened = some opened)
    ∧ ∃ note ∈ notes, note.verified = some (cstr (keysFile dir name), cstr password)

/-- A session has one name. -/
theorem Opened.Under.unique {opened : Opened} {name name' : String} (under : opened.Under name)
    (under' : opened.Under name')
    : name = name' := by
  obtain ⟨job, params, of, parsed, rfl⟩ := under
  obtain ⟨job', params', of', parsed', rfl⟩ := under'
  cases of.symm.trans of'
  cases parsed.symm.trans parsed'
  rfl

/-! ### A call by itself -/

/-- What the members tell: of the session, and of the directory that it is in. -/
def MembersTell (dir : String) (m : Mem) (opened : Option Opened) : Prop :=
  Dated m opened ∧ ∀ w, m.wallet = some w → m.walletsDir = dir

/-- No keys file goes by no name. -/
def NoneUnnamed (library : Library Λ) (dir : String) : Prop :=
  ∀ l i password l' (right : Bool),
    library l i (.lib (.verifyWalletPassword (cstr (keysFile dir "")) password false 1)) (.ok right)
      l' → right = false

/-- Every answer with key material is one that the password was verified for. -/
def Guarded (dir password : String) (answer : Json) (v : Sight Λ) : Prop :=
  ∀ key, Reveals key answer → RevealedBy dir password v.notes key

/-- What is answered without key material. -/
theorem refused_guarded {password msg : String} {v : Sight Λ}
    : Guarded dir password (err msg) v := by
  intro key reveals
  generalize answer : err msg = j at reveals
  cases reveals <;> simp [err, okWith] at answer

theorem reveal_guarded {i : Actor} {password : String} {body : Wallet → Reader Json} {v : Sight Λ}
    (unnamed : NoneUnnamed library dir)
    (reads : ∀ w v session, v.held = some (some w, some session) → session.wallet = w →
      (∃ name, session.Under name
        ∧ ∃ note ∈ v.notes, note.verified = some (cstr (keysFile dir name), cstr password)) →
      (body w).Heeds (Sight.act library (MembersTell dir) i) (fun _ _ => True) (Guarded dir password)
        (fun _ _ => True) v)
    : (reveal password body).Heeds (Sight.act library (MembersTell dir) i) (fun _ _ => True)
        (Guarded dir password) (fun _ _ => True) v := by
  have leaves (answer : Json) (v : Sight Λ) (guarded : Guarded dir password answer v)
      : (Reader.unlock .shared).Heeds (Sight.act library (MembersTell dir) i) (fun _ _ => True)
          (fun _ v => Guarded dir password answer v) (fun _ _ => True) v :=
    ⟨trivial, fun _ v' same key reveals => same ▸ guarded key reveals⟩
  have throws (v : Sight Λ)
      : (Reader.unlock .shared).Heeds (Sight.act library (MembersTell dir) i) (fun _ _ => True)
          (fun _ _ => True) (fun _ _ => True) v :=
    ⟨trivial, fun _ _ _ => trivial⟩
  refine ⟨trivial, fun _ v₁ ⟨held, l, locks⟩ => heeds_ensure.mpr ?_⟩
  have holds₁ : v₁.held = some held := by rw [locks]
  refine ⟨trivial, fun w? v₂ ⟨_, _, found, noted⟩ => ?_⟩
  have holds₂ : v₂.held = some held := by
    rw [noted]
    exact holds₁
  have found := found held holds₁
  cases w? with
  | none => exact leaves _ _ refused_guarded
  | some w =>
      refine ⟨trivial, fun m v₃ ⟨opened, dates, wallet, ⟨⟨isOpen, named⟩, inDir⟩, noted⟩ => ?_⟩
      have dates := dates held holds₂
      have wallet := (wallet held holds₂).trans found.symm
      have inDir := inDir w wallet
      obtain ⟨session, last, of⟩ := isOpen w wallet
      have holds₃ : v₃.held = some (some w, some session) := by
        rw [noted]
        refine holds₂.trans (congrArg some (Prod.ext found.symm ?_))
        exact dates.symm.trans last
      refine ⟨trivial, fun result v₄ ⟨_, l, l', _, answered, _, noted₄⟩ => ?_⟩
      cases result with
      | error error => exact throws v₄
      | ok right =>
          cases right with
          | false => exact leaves _ _ refused_guarded
          | true =>
              have isNamed : m.walletName ≠ "" := by
                intro empty
                rw [inDir, empty] at answered
                cases unnamed _ _ _ _ _ answered
              obtain ⟨session', last', under⟩ := named isNamed
              cases last.symm.trans last'
              refine (reads w v₄ session ?_ of ⟨_, under, ?_⟩).mono
                (fun answer v guarded => leaves answer v guarded) fun _ v _ => throws v
              · rw [noted₄]
                exact holds₃
              · rw [noted₄, inDir]
                exact ⟨_, List.mem_cons_self, rfl⟩

theorem Reveals.eq_of_seed {key seed : String}
    (reveals : Reveals key (okWith (.obj [("seed", .str seed)])))
    : key = seed := by
  generalize answer : okWith (.obj [("seed", .str seed)]) = j at reveals
  cases reveals with
  | seed => simpa [okWith] using answer.symm
  | viewKey => simp [okWith] at answer

theorem Reveals.eq_of_viewKey {key viewKey address : String}
    (reveals : Reveals key (okWith (.obj [("viewKey", .str viewKey), ("address", .str address)])))
    : key = viewKey := by
  generalize answer : okWith (.obj [("viewKey", .str viewKey), ("address", .str address)]) = j
    at reveals
  cases reveals with
  | seed => simp [okWith] at answer
  | viewKey =>
      simp [okWith] at answer
      exact answer.1.symm

theorem revealSeed_guarded {i : Actor} {password : String} {v : Sight Λ}
    (unnamed : NoneUnnamed library dir)
    : (revealSeed password).Heeds (Sight.act library (MembersTell dir) i) (fun _ _ => True)
        (Guarded dir password) (fun _ _ => True) v := by
  refine reveal_guarded unnamed fun w v session holds of ⟨name, under, verified⟩ => ?_
  refine ⟨trivial, fun result v' ⟨opened, _, _, dates, _, _, noted⟩ => ?_⟩
  cases result with
  | error error => trivial
  | ok seed =>
      show Program.Heeds _ _ (if seed = "" then _ else _) _ _ _
      split
      · exact refused_guarded
      · intro key reveals
        obtain rfl := reveals.eq_of_seed
        obtain ⟨check, member, checked⟩ := verified
        rw [noted]
        refine ⟨session, name, under, ⟨_, List.mem_cons_self, ?_, dates _ holds⟩,
          check, List.mem_cons_of_mem _ member, checked⟩
        rw [of]
        rfl

theorem revealViewKey_guarded {i : Actor} {password : String} {v : Sight Λ}
    (unnamed : NoneUnnamed library dir)
    : (revealViewKey password).Heeds (Sight.act library (MembersTell dir) i) (fun _ _ => True)
        (Guarded dir password) (fun _ _ => True) v := by
  refine reveal_guarded unnamed fun w v session holds of ⟨name, under, verified⟩ => ?_
  refine ⟨trivial, fun result v' ⟨opened, _, _, dates, _, _, noted⟩ => ?_⟩
  cases result with
  | error error => trivial
  | ok viewKey =>
      refine ⟨trivial, fun result v'' ⟨_, _, _, _, _, _, noted'⟩ => ?_⟩
      cases result with
      | error error => trivial
      | ok text =>
          intro key reveals
          obtain rfl := reveals.eq_of_viewKey
          obtain ⟨check, member, checked⟩ := verified
          rw [noted', noted]
          refine ⟨session, name, under,
            ⟨_, List.mem_cons_of_mem _ List.mem_cons_self, ?_, dates _ holds⟩,
            check, List.mem_cons_of_mem _ (List.mem_cons_of_mem _ member), checked⟩
          rw [of]
          rfl

/-! ### The calls together -/

namespace Module

variable {rule : Surroundings} {hasNotify : Bool} {l : Λ} {t : Module Λ}

/-- The host sets its directory once. A job is only accepted with a directory. -/
def housed (dir : String) (rule : Surroundings) (library : Library Λ)
    : Pool.Rules Actor Actor.Op Actor.Ans (fun _ => Exn) Actor.Out (Shared Λ) :=
  { rules rule library with
    others := fun s s' =>
      s.host s'
        ∧ (s'.world.mem.walletsDir = s.world.mem.walletsDir
          ∨ s.world.mem.walletsDir = "" ∧ s'.world.mem.walletsDir = dir) }

theorem refines_housed : Refines (housed dir rule library) rule library :=
  ⟨rfl, rfl, fun _ _ hosted => hosted.1⟩

/-- Without a job the worker does nothing but tick. -/
def Unemployed (p : Worker Unit) : Prop := p = turn ∨ p.Stays KeepsHandle

/-- The directory is the host's once it is set, and before that there is no job. -/
structure Housed (dir : String) (t : Module Λ) : Prop where
  homely : Worker.Stays Homely (t.rest .worker)
  set : t.state.world.mem.walletsDir = "" ∨ t.state.world.mem.walletsDir = dir
  before : t.state.world.mem.walletsDir = "" → t.state.world.mem.wallet = none
    ∧ t.state.world.tickets.queue = [] ∧ Unemployed (t.rest .worker)

/-- What the worker does without a job leaves the queue empty and no wallet open. -/
theorem Unemployed.step {w w' : World} {op : Op} {answer : op.Ans} {next : op.Ans → Worker Unit}
    (idle : Unemployed (.call op next)) (closed : w.mem.wallet = none)
    (empty : w.tickets.queue = []) (acts : World.act rule w op answer w')
    : w'.mem.wallet = none ∧ w'.tickets.queue = [] ∧ Unemployed (next answer) := by
  rcases idle with first | stays
  · cases first
    obtain ⟨rfl, rfl⟩ := acts
    have none : w.tickets.dequeue = (none, w.tickets) := by rw [Tickets.dequeue, empty]
    rw [none]
    exact ⟨closed, empty, .inr (tick_stays.guarded fun _ => .value)⟩
  · refine ⟨?_, ?_, .inr (stays.2 answer)⟩
    · rcases Shared.act_mem acts with ⟨f, rfl, rfl⟩ | same
      · exact (stays.1 f rfl w.mem).trans closed
      · rw [same, closed]
    · cases op with
      | update f =>
          obtain ⟨_, rfl⟩ := acts
          exact empty
      | lock mode =>
          cases acts
          exact empty
      | unlock mode =>
          cases acts
          exact empty
      | dequeue =>
          obtain ⟨_, rfl⟩ := acts
          rw [Tickets.dequeue, empty]
          exact empty
      | settle ptr out =>
          obtain ⟨_, rfl⟩ := acts
          exact Tickets.settle_queue.trans empty
      | ask call =>
          obtain ⟨_, rfl⟩ := acts
          exact empty

theorem housed_of_reach (reach : Pool.Reach (housed dir rule library) (start hasNotify l) t)
    : Housed dir t := by
  induction reach with
  | refl => exact ⟨trivial, .inl rfl, fun _ => ⟨rfl, rfl, .inr trivial⟩⟩
  | @tail t t' _ step ih =>
      obtain ⟨homely, set, before⟩ := ih
      have probe : Actor.worker ≠ .probe := nofun
      have call (n : Nat) : Actor.worker ≠ .call n := nofun
      -- A step of another thread leaves the handle, the queue and the directory.
      have unseen {i : Actor} (other : Actor.worker ≠ i) {p : Program i.Op i.Ans Exn i.Out}
          {s' : Shared Λ} (wallet : s'.world.mem.wallet = t.state.world.mem.wallet)
          (queue : s'.world.tickets = t.state.world.tickets)
          (same : s'.world.mem.walletsDir = t.state.world.mem.walletsDir)
          : Housed dir (t.resume i p s') := by
        have rest : (t.resume i p s').rest .worker = t.rest .worker := Pool.resume_other other
        refine ⟨rest ▸ homely, ?_, fun unset => ?_⟩
        · rw [Pool.resume_state, same]
          exact set
        · rw [Pool.resume_state, wallet, queue, rest]
          exact before (same ▸ unset)
      have reader {i : Actor} (other : Actor.worker ≠ i) {p : Program i.Op i.Ans Exn i.Out}
          {op : ReadOp} {answer : op.Ans} {s' : Shared Λ}
          (acts : t.state.read library i op answer s')
          : Housed dir (t.resume i p s') := by
        rcases Shared.read_cases acts with ⟨_, rfl⟩ | ⟨_, rfl⟩ | ⟨_, _, _, _, _, rfl⟩
          | ⟨_, _, _, _, rfl⟩ <;> exact unseen other rfl rfl rfl
      cases step with
      | @call i op next answer s' waits _ acts =>
          cases i with
          | worker =>
              obtain ⟨world, lock, acted, _, rfl⟩ := acts
              rw [waits] at homely before
              have same : world.mem.walletsDir = t.state.world.mem.walletsDir := by
                rcases Shared.act_mem acted with ⟨f, rfl, rfl⟩ | left
                · exact (homely.1 t.state.world.mem).1
                · rw [left]
              refine ⟨?_, ?_, fun unset => ?_⟩
              · rw [Pool.resume_same]
                exact homely.2 answer
              · exact same ▸ set
              · obtain ⟨closed, empty, idle⟩ := before (same ▸ unset)
                rw [Pool.resume_same]
                exact idle.step closed empty acted
          | probe => exact reader probe acts
          | call n => exact reader (call n) acts
      | @start i p s' starts =>
          cases i with
          | worker =>
              obtain ⟨_, rfl, rfl⟩ := starts
              refine ⟨?_, set, fun unset => ?_⟩
              · rw [Pool.resume_same]
                exact turn_homely
              · obtain ⟨closed, empty, _⟩ := before unset
                rw [Pool.resume_same]
                exact ⟨closed, empty, .inl rfl⟩
          | probe =>
              obtain ⟨_, rfl, rfl⟩ := starts
              exact unseen probe rfl rfl rfl
          | call n =>
              obtain ⟨_, _, rfl, rfl⟩ := starts
              exact unseen (call n) rfl rfl rfl
      | other stepped =>
          obtain ⟨⟨world, hosted, rfl⟩, sets⟩ := stepped
          refine ⟨homely, ?_, fun unset => ?_⟩
          · rcases sets with same | ⟨_, now⟩
            · exact same ▸ set
            · exact .inr now
          · have unset : world.mem.walletsDir = "" := unset
            cases hosted with
            | client call =>
                obtain ⟨closed, empty, idle⟩ := before unset
                refine ⟨closed, ?_, idle⟩
                by_contra filled
                exact (ClientCall.run_filled filled).elim (absurd empty) (absurd unset)
            | setWalletsDir dir' =>
                rcases sets with same | ⟨was, _⟩
                · exact before (same.symm.trans unset)
                · exact before was

/-- The calls that reveal key material, and the password that is presented. -/
inductive Presents (password : String) : Request → Prop
  | seed : Presents password (.revealSeed password)
  | viewKey : Presents password (.revealViewKey password)

/-- What holds at every moment: the handle and the name are the last session's, and a wallet is
open in the host's directory. -/
def OpenedIn (dir : String) (s : Shared Λ) : Prop :=
  s.Attributed ∧ ∀ w, s.world.mem.wallet = some w → s.world.mem.walletsDir = dir

theorem openedIn_of_reach
    (reach : Pool.Reach (housed dir LibraryReturns library) (start hasNotify l) t)
    : OpenedIn dir t.state := by
  refine ⟨(refines_housed.attributed libraryReturns_closes reach).1, fun w isOpen => ?_⟩
  obtain ⟨_, set, before⟩ := housed_of_reach reach
  rcases set with unset | set
  · cases isOpen.symm.trans (before unset).1
  · exact set

/-- Each call that reveals key material was made with the password of its wallet. -/
def keyContract (unnamed : NoneUnnamed library dir)
    : Contract (housed dir rule library) library (OpenedIn dir)
    where
  more _ _ _ := True
  guard _ _ _ := True
  ends n request result s :=
    ∀ password answer, Presents password request → result = .ok answer →
      ∀ key, Reveals key answer → RevealedBy dir password (s.notes (.call n)) key
  refl _ _ := trivial
  trans _ _ _ _ _ _ := trivial
  calls _ _ _ _ _ _ _ _ _ _ _ := trivial
  asks _ _ _ _ _ := trivial
  hosts _ _ _ _ := trivial
  bodies n request s _ _ := by
    have told (s : Shared Λ) (openedIn : OpenedIn dir s) : MembersTell dir s.world.mem s.opened :=
      ⟨openedIn.1.dated, openedIn.2⟩
    cases request with
    | revealSeed password =>
        refine secure_of_sight (revealSeed_guarded unnamed) told ?_ fun _ _ _ _ _ same =>
          nomatch same
        intro answer s guarded password' answer' presents same key reveals
        cases presents
        cases same
        exact guarded key reveals
    | revealViewKey password =>
        refine secure_of_sight (revealViewKey_guarded unnamed) told ?_ fun _ _ _ _ _ same =>
          nomatch same
        intro answer s guarded password' answer' presents same key reveals
        cases presents
        cases same
        exact guarded key reveals
    | _ => exact secure_any (fun _ _ => trivial) (fun _ _ _ _ presents => nomatch presents) _ _

/-- In every run, whatever is opened and closed in between. -/
theorem revealed_with_own_password {n : Nat} {request : Request} {password key : String}
    {answer : Json} (unnamed : NoneUnnamed library dir)
    (reach : Pool.Reach (housed dir LibraryReturns library) (start hasNotify l) t)
    (asked : t.state.requests n = some request) (presents : Presents password request)
    (returned : t.rest (.call n) = .pure answer) (reveals : Reveals key answer)
    : RevealedBy dir password (t.state.notes (.call n)) key :=
  (keyContract unnamed).ended refines_housed (fun _ => openedIn_of_reach) reach asked returned
    password answer presents rfl key reveals

/-- A library that verifies a password for every keys file but the one of no name. -/
def verifyingAnswers : Answers Unit := fun _ _ c =>
  match c with
  | .lib (.verifyWalletPassword path ..) =>
      some (.ok (decide (path ≠ cstr (keysFile "/wallets" ""))), ())
  | .seed .. => some (.ok "seed", ())
  | c => some (.ok c.plain, ())

/-- Those answers alone. -/
def verifyingLibrary : Library Unit := fun l i c result l' =>
  verifyingAnswers l i c = some (result, l')

/-- An open wallet, and then a call that reveals its seed. -/
def revealing : Module Unit :=
  (opened verifyingAnswers () "w").play goodScript verifyingAnswers
    (calling 0 (.revealSeed "password"))

theorem revealing_reach
    : Pool.Reach (housed "/wallets" LibraryReturns verifyingLibrary) (start true ()) revealing := by
  have plays : Plays (housed "/wallets" LibraryReturns verifyingLibrary) goodScript
      verifyingAnswers := by
    have follow : verifyingAnswers.Follow verifyingLibrary := fun _ _ _ _ replied => replied
    exact {
      act := oracle_act Script.succeeding_returns follow
      starts := rfl
      clients := fun s call => ⟨⟨_, .client s.world call, rfl⟩, .inl rfl⟩
      sets := fun s unset => ⟨⟨_, .setWalletsDir s.world "/wallets", rfl⟩, .inr ⟨unset, rfl⟩⟩
      may := fun _ _ _ => trivial
    }
  exact plays.reach (plays.reach .refl _) _

theorem noneUnnamed_verifying : NoneUnnamed verifyingLibrary "/wallets" := by
  intro l i password l' right answered
  have same : (decide (cstr (keysFile "/wallets" "") ≠ cstr (keysFile "/wallets" ""))) = right :=
    Except.ok.inj (Prod.mk.inj (Option.some.inj answered)).1
  rw [← same, decide_eq_false_iff_not, not_not]

set_option maxRecDepth 10000 in
theorem revealed_with_own_password_seed
    : RevealedBy "/wallets" "password" (revealing.state.notes (.call 0)) "seed" := by
  have asked : revealing.state.requests 0 = some (.revealSeed "password") := by decide +kernel
  have returned : revealing.rest (.call 0) = .pure (okWith (.obj [("seed", .str "seed")])) := rfl
  exact revealed_with_own_password noneUnnamed_verifying revealing_reach asked .seed returned .seed

end Module

end MoneroWalletCore.Runtime
