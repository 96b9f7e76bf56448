import MoneroWalletCore.Clients.Schedules
import MoneroWalletCore.Clients.Sights

/-! Which subaddresses `createSubaddress` hands out. The library keeps a list of addresses for
each account of a wallet object, and only `addSubaddress` adds to it; it does not tell whether
it did.
-/

namespace MoneroWalletCore.Runtime

open Program Relation

/-! ### The library's lists -/

/-- The addresses of an account, whose indices have 32 bits. -/
structure Account where
  addresses : List String
  few : addresses.length ≤ 2 ^ 32

/-- An `addSubaddress`: who made it, the index that was next, and what it appended, if it did. -/
structure Addition where
  actor : Actor
  wallet : Wallet
  account : UInt32
  index : Nat
  appended : Option String
  deriving DecidableEq

structure Ledger where
  accounts : Wallet → UInt32 → Account
  /-- The last one first. -/
  additions : List Addition := []

namespace Ledger

/-- The lists once an account's has become `a`. -/
def added (l : Ledger) (i : Actor) (w : Wallet) (account : UInt32) (a : Account)
    (appended : Option String)
    : Ledger where
  accounts w' account' := if w' = w ∧ account' = account then a else l.accounts w' account'
  additions :=
    {
      actor := i
      wallet := w
      account
      index := (l.accounts w account).addresses.length
      appended
    } :: l.additions

/-- A library that returns from every call. An `addSubaddress` appends one address, or leaves a
list on which it may fail. -/
def library (mayFail : Account → Prop) : Library Ledger := fun l i c result l' =>
  match c, result with
  | .addSubaddress w account _, result =>
      result = .ok ()
        ∧ ∃ (a : Account) (appended : Option String),
          (match appended with
            | some text => a.addresses = (l.accounts w account).addresses ++ [text]
            | none => a = l.accounts w account ∧ mayFail a)
          ∧ l' = l.added i w account a appended
  | .numSubaddresses w account, result =>
      result = .ok (UInt64.ofNat (l.accounts w account).addresses.length) ∧ l' = l
  | .lib (.address w account index), result =>
      (∃ text, result = .ok text
          ∧ ∀ known ∈ (l.accounts w account.toUInt32).addresses[index.toNat % 2 ^ 32]?, text = known)
        ∧ l' = l
  | _, result => (∃ ret, result = .ok ret) ∧ l' = l

/-- The additions that a thread made. -/
def mine (i : Actor) (l : Ledger) : List Addition :=
  l.additions.filter fun addition => addition.actor = i

variable {mayFail : Account → Prop} {l l' : Ledger} {i j : Actor} {c : Query}
variable {result : Except Exn c.Ret}

/-- A call adds to a list, or leaves them all. -/
theorem library_cases (answered : library mayFail l i c result l')
    : l' = l
      ∨ ∃ w account a appended, l' = l.added i w account a appended
        ∧ (match appended with
            | some text => a.addresses = (l.accounts w account).addresses ++ [text]
            | none => a = l.accounts w account ∧ mayFail a) := by
  cases c with
  | addSubaddress w account label =>
      obtain ⟨_, a, appended, adds, rfl⟩ := answered
      exact .inr ⟨w, account, a, appended, rfl, adds⟩
  | lib c =>
      left
      cases c <;> exact answered.2
  | _ => exact .inl answered.2

theorem mine_added {w : Wallet} {account : UInt32} {a : Account} {appended : Option String}
    : (l.added i w account a appended).mine i
      = { actor := i, wallet := w, account, index := (l.accounts w account).addresses.length,
          appended } :: l.mine i :=
  List.filter_cons_of_pos (decide_eq_true rfl)

theorem mine_other (other : j ≠ i) (answered : library mayFail l i c result l')
    : l'.mine j = l.mine j := by
  rcases library_cases answered with rfl | ⟨w, account, a, appended, rfl, _⟩
  · rfl
  · exact List.filter_cons_of_neg (by simpa using other.symm)

/-- The lists only grow. -/
theorem accounts_grow (answered : library mayFail l i c result l') (w : Wallet)
    (account : UInt32)
    : (l.accounts w account).addresses <+: (l'.accounts w account).addresses := by
  rcases library_cases answered with rfl | ⟨w', account', a, appended, rfl, adds⟩
  · exact List.prefix_refl _
  · unfold added
    dsimp only
    split
    next same =>
      obtain ⟨rfl, rfl⟩ := same
      cases appended with
      | some text => exact ⟨[text], adds.symm⟩
      | none => rw [adds.1]
    next => exact List.prefix_refl _

/-- What was appended is where it was put, and no index was given twice. -/
structure Sound (l : Ledger) : Prop where
  held : ∀ e ∈ l.additions, ∀ text, e.appended = some text →
    (l.accounts e.wallet e.account).addresses[e.index]? = some text
  distinct : ∀ e ∈ l.additions, ∀ e' ∈ l.additions, e.actor ≠ e'.actor → e.wallet = e'.wallet →
    e.account = e'.account → e.appended ≠ none → e'.appended ≠ none → e.index ≠ e'.index

theorem Sound.lt {e : Addition} (sound : l.Sound) (member : e ∈ l.additions)
    (appended : e.appended ≠ none)
    : e.index < (l.accounts e.wallet e.account).addresses.length := by
  obtain ⟨text, known⟩ := Option.ne_none_iff_exists'.mp appended
  exact (List.getElem?_eq_some_iff.mp (sound.held e member text known)).1

theorem Sound.step (sound : l.Sound) (answered : library mayFail l i c result l') : l'.Sound := by
  have grows := accounts_grow answered
  have kept (e : Addition) (member : e ∈ l.additions) (text : String)
      (appended : e.appended = some text)
      : (l'.accounts e.wallet e.account).addresses[e.index]? = some text := by
    obtain ⟨more, longer⟩ := grows e.wallet e.account
    rw [← longer, List.getElem?_append_left (sound.lt member (appended ▸ nofun))]
    exact sound.held e member text appended
  rcases library_cases answered with rfl | ⟨w, account, a, appended, rfl, adds⟩
  · exact sound
  · -- The new index is past all that were given of its account.
    have next (e : Addition) (member : e ∈ l.additions) (wallet : e.wallet = w)
        (of : e.account = account) (was : e.appended ≠ none)
        : e.index < (l.accounts w account).addresses.length := by
      subst wallet of
      exact sound.lt member was
    constructor
    · intro e member text known
      rcases List.mem_cons.mp member with rfl | earlier
      · cases known
        simp only [added, and_self, if_true, adds]
        exact List.getElem?_concat_length
      · exact kept e earlier text known
    · intro e member e' member' others wallet account' was was'
      rcases List.mem_cons.mp member with rfl | earlier
      · rcases List.mem_cons.mp member' with rfl | earlier'
        · exact absurd rfl others
        · exact (next e' earlier' wallet.symm account'.symm was').ne'
      · rcases List.mem_cons.mp member' with rfl | earlier'
        · exact (next e earlier wallet account' was).ne
        · exact sound.distinct e earlier e' earlier' others wallet account' was was'

/-- What was added since: past the ends of the lists as they were. -/
structure Since (l₀ l : Ledger) : Prop where
  longer : ∀ w account,
    (l₀.accounts w account).addresses.length ≤ (l.accounts w account).addresses.length
  later : ∀ e ∈ l.additions, e ∉ l₀.additions →
    (l₀.accounts e.wallet e.account).addresses.length ≤ e.index

theorem Since.step {l₀ : Ledger} (since : Since l₀ l) (answered : library mayFail l i c result l')
    : Since l₀ l' := by
  refine ⟨fun w account => ?_, fun e member fresh => ?_⟩
  · exact (since.longer w account).trans (accounts_grow answered w account).length_le
  · rcases library_cases answered with rfl | ⟨w, account, a, appended, rfl, _⟩
    · exact since.later e member fresh
    · rcases List.mem_cons.mp member with rfl | earlier
      · exact since.longer w account
      · exact since.later e earlier fresh

end Ledger

/-! ### A call by itself -/

/-- The answer of a call that created a subaddress. -/
def created (index : UInt64) (address : String) : Json :=
  okWith (.obj [("index", .uint index), ("address", .str address)])

/-- The wallet that a look at the handle found. -/
def Note.found (note : Note) : Option Wallet :=
  match note.op, note.answer with
  | .handle, found => found
  | _, _ => none

/-- The wallet that a call was made on. -/
def Shared.foundBy {Λ : Type} (s : Shared Λ) (i : Actor) : Option Wallet :=
  (s.notes i).findSome? Note.found

/-- What a call was answered, by the additions that it made. -/
inductive Served (account : UInt32) (found : Option Wallet) : List Addition → Json → Prop
  | unopened : Served account found [] (err "no wallet open")
  | refused (e : Addition) (refused : e.appended = none)
    : Served account found [e] (err "addSubaddress failed")
  | created (e : Addition) (text : String) (appended : e.appended = some text)
    (of : e.account = account) (on : found = some e.wallet) (few : e.index < 2 ^ 32)
    : Served account found [e] (created (UInt64.ofNat e.index) text)

/-- A thread's view, with the additions that it made. -/
structure Desk (i : Actor) where
  sight : Sight Ledger
  mine : List Addition
  agrees : ∀ l ∈ sight.library, l.mine i = mine

namespace Desk

variable {i : Actor} {mayFail : Account → Prop}

def act (mayFail : Account → Prop) : Semantics ReadOp ReadOp.Ans (Desk i) := fun v op answer v' =>
  Sight.act (Ledger.library mayFail) (fun _ _ => True) i v.sight op answer v'.sight
    ∧ ((∀ c, op ≠ .query c) → v'.mine = v.mine)

def found (v : Desk i) : Option Wallet := v.sight.notes.findSome? Note.found

/-- A query of a thread that holds the handle alone. -/
theorem act_query {v v' : Desk i} {l : Ledger} {c : Query} {result : Except Exn c.Ret}
    (known : v.sight.library = some l) (acts : act mayFail v (.query c) result v')
    : ∃ l', Ledger.library mayFail l i c result l' ∧ v'.sight.library = some l'
      ∧ v'.found = v.found := by
  obtain ⟨⟨opened, l₁, l', _, answered, same, noted⟩, _⟩ := acts
  obtain rfl := same l known
  refine ⟨l', answered, ?_, ?_⟩
  · rw [noted, known]
    rfl
  · rw [found, noted]
    rfl

end Desk

/-- An add fails on empty lists alone. -/
abbrev EmptyOnly (a : Account) : Prop := a.addresses = []

/-- The lock is given back with the answer found. -/
theorem served_unlock {i : Actor} {mayFail : Account → Prop} {account : UInt32} {answer : Json}
    {v : Desk i} (served : Served account v.found v.mine answer)
    : (Reader.unlock .unique).Heeds (Desk.act mayFail) (fun _ _ => True)
        (fun _ v => Served account v.found v.mine answer) (fun _ _ => True) v := by
  refine ⟨trivial, fun _ v' ⟨notes, mine⟩ => ?_⟩
  have found : v'.found = v.found := congrArg (List.findSome? Note.found) notes
  show Served account v'.found v'.mine answer
  rw [found, mine nofun]
  exact served

/-- The last index of a list. -/
theorem last_index {n : Nat} (some : n ≠ 0) (few : n ≤ 2 ^ 32)
    : UInt64.ofNat n - 1 = UInt64.ofNat (n - 1) ∧ (UInt64.ofNat (n - 1)).toNat % 2 ^ 32 = n - 1 := by
  refine ⟨UInt64.toNat_inj.mp ?_, ?_⟩
  · rw [UInt64.toNat_sub_of_le]
    · rw [UInt64.toNat_ofNat', UInt64.toNat_ofNat', UInt64.toNat_one]
      omega
    · rw [UInt64.le_iff_toNat_le, UInt64.toNat_ofNat', UInt64.toNat_one]
      omega
  · rw [UInt64.toNat_ofNat']
    omega

/-- What is answered once an add was made, by the list that it left. -/
theorem answers_served {i : Actor} {w : Wallet} {account : UInt32} {before a : Account}
    {appended : Option String} {l : Ledger} {v : Desk i}
    (adds : match appended with
      | some text => a.addresses = before.addresses ++ [text]
      | none => a = before ∧ EmptyOnly a)
    (knows : v.sight.library = some l) (here : l.accounts w account = a)
    (mine : v.mine
      = [{ actor := i, wallet := w, account, index := before.addresses.length, appended }])
    (found : v.found = some w)
    : Program.Heeds (Desk.act EmptyOnly) (fun _ _ => True)
        (if UInt64.ofNat a.addresses.length = 0 then
          Pure.pure (err "addSubaddress failed")
        else do
          let _ ← Reader.lib (.store w "")
          let text ← Reader.lib
            (.address w account.toUInt64 (UInt64.ofNat a.addresses.length - 1))
          Pure.pure (created (UInt64.ofNat a.addresses.length - 1) text) : Reader Json)
        (fun answer v => (Reader.unlock .unique).Heeds (Desk.act EmptyOnly) (fun _ _ => True)
          (fun _ v => Served account v.found v.mine answer) (fun _ _ => True) v)
        (fun _ v => (Reader.unlock .unique).Heeds (Desk.act EmptyOnly) (fun _ _ => True)
          (fun _ _ => True) (fun _ _ => True) v) v := by
  have few := a.few
  cases appended with
  | none =>
      have zero : UInt64.ofNat a.addresses.length = 0 := by
        rw [show a.addresses = [] from adds.2]
        rfl
      rw [if_pos zero]
      exact served_unlock (mine ▸ .refused _ rfl)
  | some text =>
      have length : a.addresses.length = before.addresses.length + 1 := by
        rw [show a.addresses = before.addresses ++ [text] from adds, List.length_append,
          List.length_singleton]
      obtain ⟨last, index⟩ := last_index (by omega) few
      have some_ : ¬UInt64.ofNat a.addresses.length = 0 := by
        intro zero
        have := congrArg UInt64.toNat zero
        rw [UInt64.toNat_ofNat', UInt64.toNat_zero] at this
        omega
      rw [if_neg some_, last]
      refine ⟨trivial, fun result v₁ acts₁ => ?_⟩
      obtain ⟨l₁, ⟨⟨ret, rfl⟩, rfl⟩, knows₁, found₁⟩ := Desk.act_query knows acts₁
      refine ⟨trivial, fun result v₂ acts₂ => ?_⟩
      obtain ⟨l₂, ⟨⟨text', rfl, agrees⟩, rfl⟩, knows₂, found₂⟩ := Desk.act_query knows₁ acts₂
      have mine₂ : v₂.mine = v.mine := (v₂.agrees _ knows₂).symm.trans (v.agrees _ knows)
      have listed : a.addresses[before.addresses.length]? = some text := by
        rw [show a.addresses = before.addresses ++ [text] from adds]
        exact List.getElem?_concat_length
      rw [UInt32.toUInt32_toUInt64, here, index, length, Nat.add_sub_cancel, listed] at agrees
      obtain rfl := agrees text rfl
      rw [length, Nat.add_sub_cancel]
      refine served_unlock ?_
      rw [mine₂, mine, found₂, found₁, found]
      exact .created _ _ rfl rfl rfl (by dsimp only; omega)

theorem createSubaddress_served {i : Actor} {account : UInt32} {label : String} {v : Desk i}
    (first : v.mine = [])
    : (createSubaddress account label).Heeds (Desk.act EmptyOnly) (fun _ _ => True)
        (fun answer v => Served account v.found v.mine answer) (fun _ _ => True) v := by
  refine ⟨trivial, fun _ v ⟨⟨held, l, locks⟩, mine⟩ => heeds_ensure.mpr ?_⟩
  have none_ : v.mine = [] := (mine nofun).trans first
  have knows : v.sight.library = some l := by
    rw [locks]
    rfl
  refine ⟨trivial, fun w? v₁ ⟨⟨opened, _, _, noted⟩, mine₁⟩ => ?_⟩
  have none₁ : v₁.mine = [] := (mine₁ nofun).trans none_
  cases w? with
  | none => exact served_unlock (none₁ ▸ .unopened)
  | some w =>
      have found₁ : v₁.found = some w := by
        rw [Desk.found, noted]
        rfl
      have knows₁ : v₁.sight.library = some l := by
        rw [noted]
        exact knows
      refine ⟨trivial, fun result v₂ acts₂ => ?_⟩
      obtain ⟨l₂, ⟨rfl, a, appended, adds, rfl⟩, knows₂, found₂⟩ := Desk.act_query knows₁ acts₂
      have mine₂ := v₂.agrees _ knows₂
      rw [Ledger.mine_added, v₁.agrees l knows₁, none₁] at mine₂
      refine ⟨trivial, fun result v₃ acts₃ => ?_⟩
      obtain ⟨l₃, ⟨rfl, rfl⟩, knows₃, found₃⟩ := Desk.act_query knows₂ acts₃
      have mine₃ : v₃.mine = v₂.mine := (v₃.agrees _ knows₃).symm.trans (v₂.agrees _ knows₂)
      have here : ((l.added i w account a appended).accounts w account) = a := by
        simp only [Ledger.added, and_self, if_true]
      rw [here]
      exact answers_served adds knows₃ here (mine₃.trans mine₂.symm) (found₃.trans (found₂.trans found₁))

/-! ### The calls together -/

variable {rule : Surroundings} {hasNotify : Bool} {l₀ : Ledger} {t₀ t t' : Module Ledger}

/-- A call that was not made has added nothing. -/
def Shared.Unmade (s : Shared Ledger) : Prop :=
  ∀ n, s.requests n = none → s.library.mine (.call n) = []

def Shared.desk (i : Actor) (s : Shared Ledger) : Desk i where
  sight := s.sight i
  mine := s.library.mine i
  agrees l known := congrArg (Ledger.mine i) (Shared.sight_library l known).symm

theorem Shared.read_desk {mayFail : Account → Prop} {i : Actor} {s s' : Shared Ledger}
    {op : ReadOp} {answer : op.Ans} (acts : s.read (Ledger.library mayFail) i op answer s')
    : Desk.act mayFail (s.desk i) op answer (s'.desk i) := by
  refine ⟨read_sight trivial acts, fun other => ?_⟩
  rcases read_library acts with same | ⟨c, _, asks, _⟩
  · exact congrArg (Ledger.mine i) same
  · exact absurd asks (other c)

theorem Shared.desk_same {i : Actor} {s s' : Shared Ledger} (spares : Spares i s s')
    (mine : s'.library.mine i = s.library.mine i)
    : s'.desk i = s.desk i := by
  simp only [desk, spares.sight, mine]

/-- Each call is served by what it added itself. -/
def servedContract
    : Module.Contract (Module.rules rule (Ledger.library EmptyOnly)) (Ledger.library EmptyOnly)
        Shared.Unmade
    where
  more i s s' := s'.library.mine i = s.library.mine i
  guard _ _ _ := True
  ends n request result s :=
    match request, result with
    | .createSubaddress account _, .ok answer =>
        Served account (s.foundBy (.call n)) (s.library.mine (.call n)) answer
    | _, _ => True
  refl _ _ := rfl
  trans _ _ _ _ first second := second.trans first
  calls t i op answer s' _ _ _ acts j other := by
    have answered (same : s'.library = t.state.library
        ∨ ∃ c result, Ledger.library EmptyOnly t.state.library i c result s'.library)
        : s'.library.mine j = t.state.library.mine j := by
      rcases same with same | ⟨c, result, answered⟩
      · rw [same]
      · exact Ledger.mine_other other answered
    cases i with
    | worker =>
        obtain ⟨_, _, _, _, rfl⟩ := acts
        rfl
    | probe => exact answered ((Shared.read_library acts).imp_right fun ⟨c, result, _, by_⟩ => ⟨c, result, by_⟩)
    | call n => exact answered ((Shared.read_library acts).imp_right fun ⟨c, result, _, by_⟩ => ⟨c, result, by_⟩)
  asks _ _ _ _ _ := rfl
  hosts _ _ _ hosted := by
    obtain ⟨_, _, rfl⟩ := hosted
    rfl
  bodies n request s first unmade := by
    cases request with
    | createSubaddress account label =>
        refine Heeds.secure (createSubaddress_served (unmade n first)) ?_ (fun s op answer s' _ _ acts => Shared.read_desk acts)
          (fun _ _ _ _ => trivial) (fun answer s served => served) fun _ _ _ => trivial
        rintro _ s s' ⟨spares, mine⟩
        exact Shared.desk_same spares mine
    | _ => exact secure_any (fun _ _ => trivial) (fun _ _ => trivial) _ _

theorem unmade_of_reach
    (reach : Pool.Reach (Module.rules rule (Ledger.library EmptyOnly))
      (Module.start hasNotify l₀) t)
    (none_ : l₀.additions = [])
    : t.state.Unmade := by
  induction reach with
  | refl =>
      intro n _
      simp [Module.start, Ledger.mine, none_]
  | @tail t t' before step ih =>
      intro n unasked
      have was : t.state.requests n = none := by
        by_contra asked
        obtain ⟨request, asked⟩ := Option.ne_none_iff_exists'.mp asked
        cases unasked.symm.trans (Module.refines_rules.asked_step step asked)
      rcases Module.refines_rules.library_step step with same | ⟨i, c, result, answered, busy⟩
      · rw [same]
        exact ih n was
      · have other : Actor.call n ≠ i := by
          rintro rfl
          obtain ⟨_, asked⟩ := Module.refines_rules.asked_of_busy before busy
          cases was.symm.trans asked
        exact (Ledger.mine_other other answered).trans (ih n was)

theorem sound_of_reach
    (reach : Pool.Reach (Module.rules rule (Ledger.library EmptyOnly))
      (Module.start hasNotify l₀) t)
    (none_ : l₀.additions = [])
    : t.state.library.Sound := by
  induction reach with
  | refl => constructor <;> simp [Module.start, none_]
  | tail _ step ih =>
      rcases Module.refines_rules.library_step step with same | ⟨_, _, _, answered, _⟩
      · exact same ▸ ih
      · exact ih.step answered

theorem since_of_reach
    (later : Pool.Reach (Module.rules rule (Ledger.library EmptyOnly)) t₀ t)
    : t₀.state.library.Since t.state.library := by
  induction later with
  | refl => exact ⟨fun _ _ => le_rfl, fun _ member fresh => absurd member fresh⟩
  | tail _ step ih =>
      rcases Module.refines_rules.library_step step with same | ⟨_, _, _, answered, _⟩
      · exact same ▸ ih
      · exact ih.step answered

theorem created_injective {index index' : UInt64} {address address' : String}
    (same : created index address = created index' address')
    : index = index' ∧ address = address' := by
  simpa [created, okWith] using same

theorem err_ne_created {msg : String} {index : UInt64} {address : String}
    : err msg ≠ created index address := by
  simp [err, created, okWith]

/-- What the module hands out for an account, by a call that was not made at `t₀` and has been
answered at `t`: an index that was none then, with its address, and to no other call; and an
error for an add that failed. -/
structure HandsOutFresh (t₀ t : Module Ledger) (n : Nat) (account : UInt32) (answer : Json)
    : Prop where
  fresh : ∀ index address, answer = created index address →
    ∃ w, t.state.foundBy (.call n) = some w
      ∧ (t₀.state.library.accounts w account).addresses.length ≤ index.toNat
      ∧ (t.state.library.accounts w account).addresses[index.toNat]? = some address
  distinct : ∀ m label other index address address', m ≠ n →
    t.state.requests m = some (.createSubaddress account label) → t.rest (.call m) = .pure other →
    t.state.foundBy (.call m) = t.state.foundBy (.call n) → answer = created index address →
    other ≠ created index address'
  refused : ∀ e ∈ t.state.library.mine (.call n), e.appended = none → ∃ msg, answer = err msg

/-- In every run in which an add fails on empty lists alone. -/
theorem handsOutFresh_of_emptyOnly {n : Nat} {account : UInt32} {label : String} {answer : Json}
    (reach : Pool.Reach (Module.rules rule (Ledger.library EmptyOnly))
      (Module.start hasNotify l₀) t₀)
    (none_ : l₀.additions = []) (unasked : t₀.state.requests n = none)
    (later : Pool.Reach (Module.rules rule (Ledger.library EmptyOnly)) t₀ t)
    (asked : t.state.requests n = some (.createSubaddress account label))
    (returned : t.rest (.call n) = .pure answer)
    : HandsOutFresh t₀ t n account answer := by
  have now := reach.trans later
  have sound := sound_of_reach now none_
  have since := since_of_reach later
  have served {m : Nat} {label : String} {answer : Json}
      (asked : t.state.requests m = some (.createSubaddress account label))
      (returned : t.rest (.call m) = .pure answer)
      : Served account (t.state.foundBy (.call m)) (t.state.library.mine (.call m)) answer :=
    servedContract.ended Module.refines_rules (fun _ reach => unmade_of_reach reach none_) now asked
      returned
  have made {m : Nat} {e : Addition} (only : t.state.library.mine (.call m) = [e])
      : e ∈ t.state.library.additions ∧ e.actor = .call m := by
    have member : e ∈ t.state.library.mine (.call m) := only ▸ List.mem_singleton_self e
    exact (List.mem_filter.mp member).imp_right of_decide_eq_true
  have word {k : Nat} (few : k < 2 ^ 32) : (UInt64.ofNat k).toNat = k := by
    rw [UInt64.toNat_ofNat']
    omega
  have mine := served asked returned
  generalize adds : t.state.library.mine (.call n) = additions at mine
  generalize looked : t.state.foundBy (.call n) = found at mine
  cases mine with
  | unopened =>
      refine ⟨fun _ _ same => absurd same err_ne_created, ?_, fun e member => ?_⟩
      · exact fun _ _ _ _ _ _ _ _ _ _ same => absurd same err_ne_created
      · rw [adds] at member
        exact absurd member List.not_mem_nil
  | refused e refused =>
      refine ⟨fun _ _ same => absurd same err_ne_created, ?_, fun _ _ _ => ⟨_, rfl⟩⟩
      exact fun _ _ _ _ _ _ _ _ _ _ same => absurd same err_ne_created
  | created e text appended of on few =>
      obtain ⟨member, actor⟩ := made adds
      have isNew : e ∉ t₀.state.library.additions := by
        intro old
        have empty := unmade_of_reach reach none_ n unasked
        have among : e ∈ t₀.state.library.mine (.call n) :=
          List.mem_filter.mpr ⟨old, decide_eq_true actor⟩
        rw [empty] at among
        exact List.not_mem_nil among
      refine ⟨fun index address same => ?_, ?_, fun e' member' failed => ?_⟩
      · obtain ⟨rfl, rfl⟩ := created_injective same
        refine ⟨e.wallet, looked.trans on, ?_, ?_⟩
        · rw [word few, ← of]
          exact since.later e member isNew
        · rw [word few, ← of]
          exact sound.held e member _ appended
      · intro m label' other index address address' different asked' returned' sameWallet same same'
        obtain ⟨rfl, rfl⟩ := created_injective same
        have theirs := served asked' returned'
        subst same'
        generalize adds' : t.state.library.mine (.call m) = additions' at theirs
        generalize answered : created (UInt64.ofNat e.index) address' = answer' at theirs
        cases theirs with
        | unopened => exact err_ne_created answered.symm
        | refused e' refused => exact err_ne_created answered.symm
        | created e' text' appended' of' on' few' =>
            obtain ⟨member', actor'⟩ := made adds'
            have wallet : e'.wallet = e.wallet :=
              Option.some.inj (on'.symm.trans (sameWallet.trans (looked.trans on)))
            have index : e'.index = e.index := by
              have := congrArg UInt64.toNat (created_injective answered).1
              rw [word few, word few'] at this
              exact this.symm
            refine sound.distinct e' member' e member ?_ wallet (of'.trans of.symm)
              (appended' ▸ nofun) (appended ▸ nofun) index
            rw [actor', actor]
            exact fun same => different (Actor.call.inj same)
      · rw [adds, List.mem_singleton] at member'
        subst member'
        cases failed.symm.trans appended

/-- A library whose adds append, as long as there is room, or all fail. -/
def Ledger.answer (fails : Bool) : Answers Ledger := fun l i c =>
  match c with
  | .addSubaddress w account _ =>
      if fails then
        some (.ok (), l.added i w account (l.accounts w account) none)
      else if room : (l.accounts w account).addresses.length < 2 ^ 32 then
        some
          (
            .ok (),
            l.added i w account
              {
                addresses := (l.accounts w account).addresses ++ ["fresh"]
                few := by
                  rw [List.length_append, List.length_singleton]
                  omega
              }
              (some "fresh")
          )
      else
        none
  | .numSubaddresses w account =>
      some (.ok (UInt64.ofNat (l.accounts w account).addresses.length), l)
  | .lib (.address w account index) =>
      some (.ok ((l.accounts w account.toUInt32).addresses[index.toNat % 2 ^ 32]?.getD ""), l)
  | c => some (.ok c.plain, l)

theorem Ledger.answer_follow {mayFail : Account → Prop} {fails : Bool}
    (may : fails = true → ∀ a, mayFail a)
    : (Ledger.answer fails).Follow (Ledger.library mayFail) := by
  intro l i c answered replied
  cases c with
  | addSubaddress w account label =>
      simp only [Ledger.answer] at replied
      split at replied
      next failed =>
        cases replied
        exact ⟨rfl, _, none, ⟨rfl, may failed _⟩, rfl⟩
      next =>
        split at replied
        next room =>
          cases replied
          exact ⟨rfl, _, some "fresh", rfl, rfl⟩
        next => cases replied
  | numSubaddresses w account =>
      cases replied
      exact ⟨rfl, rfl⟩
  | lib c =>
      cases c with
      | address w account index =>
          cases replied
          refine ⟨⟨_, rfl, fun known member => ?_⟩, rfl⟩
          rw [member]
          rfl
      | _ =>
          cases replied
          exact ⟨⟨_, rfl⟩, rfl⟩
  | _ =>
      cases replied
      exact ⟨⟨_, rfl⟩, rfl⟩

/-- Every account has its primary address. -/
def Ledger.primary : Ledger where
  accounts _ _ := { addresses := ["primary"], few := by decide }

/-- An open wallet, and then a call that creates a subaddress of its first account. -/
def Module.creating (fails : Bool) : Module Ledger :=
  (Module.opened (Ledger.answer fails) .primary "w").play Module.goodScript (Ledger.answer fails)
    (Module.calling 0 (.createSubaddress 0 "label"))

theorem Module.creating_reach {mayFail : Account → Prop} {fails : Bool}
    (may : fails = true → ∀ a, mayFail a)
    : Pool.Reach (Module.rules LibraryReturns (Ledger.library mayFail))
          (Module.start true .primary) (Module.opened (Ledger.answer fails) .primary "w")
        ∧ Pool.Reach (Module.rules LibraryReturns (Ledger.library mayFail))
          (Module.opened (Ledger.answer fails) .primary "w") (Module.creating fails) := by
  have plays : Module.Plays _ Module.goodScript (Ledger.answer fails) :=
    Module.plays_rules Script.succeeding_returns (Ledger.answer_follow may)
  exact ⟨plays.reach .refl _, plays.reach .refl _⟩

set_option maxRecDepth 10000 in
theorem Module.creating_appended
    : (Module.creating false).rest (.call 0) = .pure (created 1 "fresh") := rfl

set_option maxRecDepth 10000 in
theorem Module.creating_failed
    : (Module.creating true).rest (.call 0) = .pure (created 0 "primary") := rfl

theorem handsOutFresh_of_emptyOnly_creating
    : HandsOutFresh (Module.opened (Ledger.answer false) .primary "w") (Module.creating false) 0 0
        (created 1 "fresh") := by
  obtain ⟨before, later⟩ := @Module.creating_reach EmptyOnly false nofun
  have asked : (Module.creating false).state.requests 0 = some (.createSubaddress 0 "label") := by
    decide +kernel
  exact handsOutFresh_of_emptyOnly before rfl (by decide +kernel) later asked
    Module.creating_appended

set_option maxRecDepth 10000 in
/-- An add that fails on an account that has addresses is answered with the last of these. -/
theorem failed_add_answered_ok
    : ∃ t₀ t : Module Ledger,
        Pool.Reach (Module.rules LibraryReturns (Ledger.library fun _ => True))
            (Module.start true .primary) t₀
          ∧ Pool.Reach (Module.rules LibraryReturns (Ledger.library fun _ => True)) t₀ t
          ∧ t₀.state.requests 0 = none
          ∧ t.state.requests 0 = some (.createSubaddress 0 "label")
          ∧ t.rest (.call 0) = .pure (created 0 "primary")
          ∧ ¬HandsOutFresh t₀ t 0 0 (created 0 "primary") := by
  obtain ⟨before, later⟩ := @Module.creating_reach (fun _ => True) true fun _ _ => trivial
  refine ⟨_, _, before, later, by decide +kernel, by decide +kernel, Module.creating_failed, ?_⟩
  intro hands
  obtain ⟨w, _, fresh, _⟩ := hands.fresh 0 "primary" rfl
  have unchanged : (Module.opened (Ledger.answer true) .primary "w").state.library = .primary := rfl
  rw [unchanged] at fresh
  exact absurd (show 1 ≤ 0 from fresh) (by decide)

end MoneroWalletCore.Runtime
