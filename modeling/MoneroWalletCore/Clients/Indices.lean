import MoneroWalletCore.Clients.CoreImpl
import MoneroWalletCore.Runtime.Frames

/-! The account and the address that a call is given, against those that the library is then
asked for. An index that loses its upper half on the way is another account's.
-/

namespace MoneroWalletCore.Runtime

open Program

-----------------------------------------------------------------------------------------
-- What the library is asked for
-----------------------------------------------------------------------------------------

/-- The account that a library call works on. -/
def Query.account? : Query → Option Nat
  | .lib (.address _ account _) => some account.toNat
  | .lib (.createTransaction _ _ _ _ _ _ account _ _) => some account.toNat
  | .balance _ account | .unlockedBalance _ account | .numSubaddresses _ account
  | .getSubaddressLabel _ account _ | .addSubaddress _ account _
  | .setSubaddressLabel _ account _ _ => some account.toNat
  | _ => none

/-- The address of the account that it works on. -/
def Query.index? : Query → Option Nat
  | .lib (.address _ _ index) => some index.toNat
  | .getSubaddressLabel _ _ index | .setSubaddressLabel _ _ index _ => some index.toNat
  | _ => none

/-- An account, and an address of it where a call is given one. -/
structure Place where
  account : Nat
  index : Option Nat := none

/-- A library call that names an account names this one, and this address of it if one is said. -/
def Place.Named (place : Place) (c : Query) : Prop :=
  (∀ account ∈ c.account?, account = place.account)
    ∧ ∀ index ∈ place.index, ∀ named ∈ c.index?, named = index

instance : Nonempty Wallet := ⟨⟨0⟩⟩

theorem Place.named_of_nameless {place : Place} {c : Query} (account : c.account? = none)
    (index : c.index? = none)
    : place.Named c := by
  constructor
  · simp [account]
  · simp [index]

-----------------------------------------------------------------------------------------
-- What a call is given
-----------------------------------------------------------------------------------------

/-- The calls that take an account, as the host makes them. -/
inductive PlacedCall where
  | balance (a : Int64)
  | unlockedBalance (a : Int64)
  | address (a i : Int64)
  | subaddresses (a : Int64)
  | createSubaddress (a : Int64) (label : String)
  | setSubaddressLabel (a i : Int64) (label : String)
  | createTransaction (p : Json)

/-- A JSON value that is a non-negative integer. -/
inductive Json.IsIndex : Json → Nat → Prop
  | uint (n : UInt64) : IsIndex (.uint n) n.toNat
  | int (n : Int64) (nonneg : 0 ≤ n) : IsIndex (.int n) n.toNatClampNeg

/-- The place that a call is given, in indices that are not negative. -/
inductive PlacedCall.Given : PlacedCall → Place → Prop
  | balance {a : Int64} (nonneg : 0 ≤ a) : Given (.balance a) { account := a.toNatClampNeg }
  | unlockedBalance {a : Int64} (nonneg : 0 ≤ a)
    : Given (.unlockedBalance a) { account := a.toNatClampNeg }
  | address {a i : Int64} (nonneg : 0 ≤ a) (index : 0 ≤ i)
    : Given (.address a i) { account := a.toNatClampNeg, index := some i.toNatClampNeg }
  | subaddresses {a : Int64} (nonneg : 0 ≤ a)
    : Given (.subaddresses a) { account := a.toNatClampNeg }
  | createSubaddress {a : Int64} {label : String} (nonneg : 0 ≤ a)
    : Given (.createSubaddress a label) { account := a.toNatClampNeg }
  | setSubaddressLabel {a i : Int64} {label : String} (nonneg : 0 ≤ a) (index : 0 ≤ i)
    : Given (.setSubaddressLabel a i label)
        { account := a.toNatClampNeg, index := some i.toNatClampNeg }
  | createTransaction {p field : Json} {account : Nat}
    (found : p.find? "accountIndex" = some field) (index : field.IsIndex account)
    : Given (.createTransaction p) { account }

-----------------------------------------------------------------------------------------
-- What a program asks for
-----------------------------------------------------------------------------------------

/-- However a reader is answered, it makes only such library calls. -/
def Reader.Makes {α : Type} (allowed : Query → Prop) (p : Reader α) : Prop :=
  p.Within (fun op => ∀ c, op = .query c → allowed c) (fun _ => True) fun _ => True

/-- A worker's action, if it is a library call, is such a call. -/
def Op.Makes (allowed : Query → Prop) : Op → Prop
  | .ask (.lib c) => allowed (.lib c)
  | _ => True

def Worker.Makes {α : Type} (allowed : Query → Prop) (p : Worker α) : Prop :=
  p.Within (Op.Makes allowed) (fun _ => True) fun _ => True

namespace Reader

variable {α β : Type} {allowed : Query → Prop}

@[simp] theorem makes_value {value : α} : Reader.Makes allowed (.pure value : Reader α) := trivial

theorem makes_orThrow {result : Except Exn α} : (orThrow result).Makes allowed := by
  cases result <;> trivial

theorem makes_bind {p : Reader α} {next : α → Reader β}
    : Reader.Makes allowed (p.bind next)
      ↔ p.Within (fun op => ∀ c, op = .query c → allowed c)
          (fun value => (next value).Makes allowed) fun _ => True :=
  within_bind

theorem Makes.then {p : Reader α} {next : α → Reader β} (first : p.Makes allowed)
    (rest : ∀ value, (next value).Makes allowed)
    : Reader.Makes allowed (p.bind next) :=
  makes_bind.mpr (first.mono (fun _ made => made) (fun value _ => rest value) fun _ _ => trivial)

/-- A call, and what comes after its return. -/
theorem makes_query_bind {c : Query} {next : c.Ret → Reader α}
    : Reader.Makes allowed ((query c).bind next) ↔ allowed c ∧ ∀ ret, (next ret).Makes allowed := by
  constructor
  · intro made
    exact ⟨made.1 c rfl, fun ret => made.2 (.ok ret)⟩
  · intro ⟨here, rest⟩
    refine ⟨fun c' same => ReadOp.query.inj same ▸ here, fun answer => ?_⟩
    cases answer with
    | ok ret => exact rest ret
    | error error => trivial

theorem makes_query {c : Query} : (query c).Makes allowed ↔ allowed c := by
  constructor
  · exact fun made => made.1 c rfl
  · intro here
    refine ⟨fun c' same => ReadOp.query.inj same ▸ here, fun answer => ?_⟩
    cases answer <;> trivial

@[simp] theorem makes_handle_bind {next : Option Wallet → Reader α}
    : Reader.Makes allowed (handle.bind next) ↔ ∀ w?, (next w?).Makes allowed := by
  constructor
  · exact fun made => made.2
  · exact fun rest => ⟨nofun, rest⟩

theorem makes_ensure_unlock {mode : LockMode} {body : Reader α}
    : Reader.Makes allowed (body.ensure (unlock mode)) ↔ body.Makes allowed := by
  have finish {normal : Prop}
      : (unlock mode).Within (fun op => ∀ c, op = .query c → allowed c) (fun _ => normal)
          (fun _ => True)
        ↔ normal := by
    constructor
    · exact fun ends => ends.2 ()
    · exact fun holds => ⟨nofun, fun _ => holds⟩
  unfold Makes
  rw [within_ensure]
  simp only [finish]

@[simp] theorem makes_locked {mode : LockMode} {body : Reader α}
    : (locked mode body).Makes allowed ↔ body.Makes allowed := by
  refine .trans ?_ (@makes_ensure_unlock _ _ mode _)
  constructor
  · exact fun made => made.2 ()
  · exact fun made => ⟨nofun, fun _ => made⟩

@[simp] theorem makes_lockedInTime {late : α} {body : Reader α}
    : (lockedInTime late body).Makes allowed ↔ body.Makes allowed := by
  refine .trans ?_ (@makes_ensure_unlock _ _ .shared _)
  constructor
  · exact fun made => made.2 true
  · intro made
    refine ⟨nofun, fun got => ?_⟩
    cases got with
    | true => exact made
    | false => trivial

/-- A loop makes what its turns make. Induction on the turns that are left. -/
theorem makes_collect {body : Nat → Reader (Option Json)} (each : ∀ i, (body i).Makes allowed)
    (left index : Nat)
    : (collect body left index).Makes allowed := by
  induction left generalizing index with
  | zero => trivial
  | succ left ih => exact (each index).then fun item => (ih (index + 1)).then fun rest => trivial

end Reader

-----------------------------------------------------------------------------------------
-- The runtime's calls
-----------------------------------------------------------------------------------------

section Calls

variable {allowed : Query → Prop}

theorem readText_makes {none_ : String} {body : Wallet → Reader String}
    : (readText none_ body).Makes allowed ↔ ∀ w, (body w).Makes allowed := by
  simp only [readText, bind_def, Reader.makes_lockedInTime, Reader.makes_handle_bind]
  constructor
  · intro made w
    exact (Reader.makes_bind.mp (made (some w))).mono (fun _ asks => asks) (fun _ _ => trivial)
      fun _ _ => trivial
  · intro each w?
    cases w? with
    | none => trivial
    | some w => exact (each w).then fun _ => trivial

theorem balance_makes {account : UInt32}
    : (balance account).Makes allowed ↔ ∀ w, allowed (.balance w account) := by
  refine readText_makes.trans (forall_congr' fun w => ?_)
  exact Reader.makes_query_bind.trans (and_iff_left fun _ => trivial)

theorem unlockedBalance_makes {account : UInt32}
    : (unlockedBalance account).Makes allowed ↔ ∀ w, allowed (.unlockedBalance w account) := by
  refine readText_makes.trans (forall_congr' fun w => ?_)
  exact Reader.makes_query_bind.trans (and_iff_left fun _ => trivial)

theorem address_makes {account index : UInt64}
    : (address account index).Makes allowed
      ↔ ∀ w, allowed (.lib (.address w account index)) :=
  readText_makes.trans (forall_congr' fun _ => Reader.makes_query)

theorem subaddresses_makes {account : UInt32}
    (lists : ∀ w, allowed (.numSubaddresses w account) → ∀ i j,
      allowed (.lib (.address w account.toUInt64 i)) ∧ allowed (.getSubaddressLabel w account j))
    : (subaddresses account).Makes allowed ↔ ∀ w, allowed (.numSubaddresses w account) := by
  simp only [subaddresses, bind_def, Reader.makes_lockedInTime, Reader.makes_handle_bind]
  constructor
  · intro made w
    exact (Reader.makes_query_bind.mp (made (some w))).1
  · intro each w?
    cases w? with
    | none => trivial
    | some w =>
        refine Reader.makes_query_bind.mpr ⟨each w, fun n => ?_⟩
        refine (Reader.makes_collect (fun i => ?_) n.toNat 0).then fun _ => trivial
        refine Reader.makes_query_bind.mpr ⟨(lists w (each w) _ 0).1, fun _ => ?_⟩
        exact Reader.makes_query_bind.mpr ⟨(lists w (each w) 0 _).2, fun _ => trivial⟩

theorem onWallet_makes {body : Wallet → Reader Json}
    : (onWallet body).Makes allowed ↔ ∀ w, (body w).Makes allowed := by
  simp only [onWallet, bind_def, Reader.makes_locked, Reader.makes_handle_bind]
  constructor
  · exact fun made w => made (some w)
  · intro each w?
    cases w? with
    | none => trivial
    | some w => exact each w

/-- The last address of the account is looked up, wherever that is. -/
theorem createSubaddress_makes {account : UInt32} {label : String}
    (stores : ∀ w, allowed (.lib (.store w "")))
    (looks : ∀ w, allowed (.numSubaddresses w account) → ∀ i,
      allowed (.lib (.address w account.toUInt64 i)))
    : (createSubaddress account label).Makes allowed
      ↔ ∀ w, allowed (.addSubaddress w account (cstr label))
          ∧ allowed (.numSubaddresses w account) := by
  refine onWallet_makes.trans (forall_congr' fun w => ?_)
  refine Reader.makes_query_bind.trans (and_congr_right fun _ => ?_)
  constructor
  · exact fun made => (Reader.makes_query_bind.mp (made ())).1
  · intro counts _
    refine Reader.makes_query_bind.mpr ⟨counts, fun n => ?_⟩
    split
    · trivial
    · refine Reader.makes_query_bind.mpr ⟨stores w, fun _ => ?_⟩
      exact Reader.makes_query_bind.mpr ⟨looks w counts _, fun _ => trivial⟩

/-- An account may have as many addresses as make any index pass the check. -/
theorem setSubaddressLabel_makes {account index : UInt32} {label : String}
    (stores : ∀ w, allowed (.lib (.store w "")))
    : (setSubaddressLabel account index label).Makes allowed
      ↔ ∀ w, allowed (.numSubaddresses w account)
          ∧ allowed (.setSubaddressLabel w account index (cstr label))
          ∧ allowed (.getSubaddressLabel w account index) := by
  refine onWallet_makes.trans (forall_congr' fun w => ?_)
  refine Reader.makes_query_bind.trans (and_congr_right fun _ => ?_)
  constructor
  · intro made
    have passes : ¬index.toUInt64 ≥ UInt64.ofNat (2 ^ 32) := by
      rw [ge_iff_le, UInt64.le_iff_toNat_le, UInt32.toNat_toUInt64]
      exact Nat.not_le.mpr index.toNat_lt
    have made := made (UInt64.ofNat (2 ^ 32))
    rw [if_neg passes] at made
    have ⟨labels, rest⟩ := Reader.makes_query_bind.mp made
    have ⟨_, reads⟩ := Reader.makes_query_bind.mp (rest ())
    exact ⟨labels, (Reader.makes_query_bind.mp (reads true)).1⟩
  · intro ⟨labels, reads⟩ n
    split
    · trivial
    · refine Reader.makes_query_bind.mpr ⟨labels, fun _ => ?_⟩
      refine Reader.makes_query_bind.mpr ⟨stores w, fun _ => ?_⟩
      exact Reader.makes_query_bind.mpr ⟨reads, fun _ => trivial⟩

end Calls

-----------------------------------------------------------------------------------------
-- The send
-----------------------------------------------------------------------------------------

/-- What a send takes from its parameters. -/
structure SendParams where
  dst : String
  paymentId : String
  amount : UInt64
  priority : Int32
  account : UInt32

/-- The parameters that a send reads so, and refuses on no network it may be on. -/
def SendParams.Of (s : SendParams) (p : Json) : Prop :=
  (∃ text, p.valueString "amount" "" = .ok text
      ∧ (parseAtomic text).filter (· ≠ 0) = some s.amount)
    ∧ (p.valueString "address" "" = .ok s.dst ∧ ∃ network, Address.valid s.dst network = true)
    ∧ p.valueInt32 "priority" 0 = .ok s.priority
    ∧ p.valueUInt32 "accountIndex" 0 = .ok s.account
    ∧ p.valueString "paymentId" "" = .ok s.paymentId

def SendParams.create (s : SendParams) (w : Wallet) : Lib :=
  .createTransaction w (cstr s.dst) (cstr s.paymentId) s.amount 0 s.priority s.account "" ","

section Send

variable {allowed : Query → Prop} (nameless : ∀ c : Query, c.account? = none → allowed c)

include nameless

theorem keepTx_makes {dst : String} {pt? : Option PendingTx} : (keepTx dst pt?).Makes allowed := by
  cases pt? with
  | none => trivial
  | some pt =>
      simp only [keepTx, describeTx, Worker.Makes, bind_def, within_bind, Worker.within_lib,
        within_ite, Worker.within_update, pure_def, within_pure, implies_true, and_true, Op.Makes,
        true_and]
      exact ⟨nameless _ rfl, fun _ => ⟨fun _ => nameless _ rfl, fun _ _ =>
        ⟨nameless _ rfl, fun _ => ⟨nameless _ rfl, fun _ => ⟨nameless _ rfl, fun _ =>
          ⟨nameless _ rfl, fun _ => nameless _ rfl⟩⟩⟩⟩⟩⟩

theorem buildTx_makes {w : Wallet} {p : Json}
    : (buildTx w p).Makes allowed ↔ ∀ s : SendParams, s.Of p → allowed (.lib (s.create w)) := by
  have looks : allowed (.lib (.watchOnly w)) := nameless _ rfl
  have keeps (dst : String) (pt? : Option PendingTx)
      : (keepTx dst pt?).Within (Op.Makes allowed) (fun _ => True) fun _ => True :=
    keepTx_makes nameless
  simp only [buildTx, Worker.Makes, bind_def, within_bind, Worker.within_lib, within_ite,
    Worker.within_orThrow, Op.Makes, looks, pure_def, within_pure, implies_true, true_and, and_true]
  constructor
  · rintro made s ⟨⟨text, amount, positive⟩, ⟨dst, network, valid⟩, priority, account, paymentId⟩
    have sent := made false Bool.false_ne_true text amount
    simp only [positive, within_bind, Worker.within_orThrow, Worker.within_read, within_ite,
      Worker.within_lib, Op.Makes, implies_true, and_true, true_and] at sent
    refine (sent s.dst dst { hasNotify := true, network }).2 ?_ _ priority _ account _ paymentId |>.1
    simp [valid]
  · intro each _ _ text amount
    cases positive : (parseAtomic text).filter (· ≠ 0) with
    | none => trivial
    | some n =>
        simp only [within_bind, Worker.within_orThrow, Worker.within_read, within_ite,
          Worker.within_lib, Op.Makes, implies_true, and_true, true_and, within_pure, keeps]
        intro dst found m valid priority first account second paymentId third
        have valid : Address.valid dst m.network = true := by simpa using valid
        exact each { dst, paymentId, amount := n, priority, account }
          ⟨⟨text, amount, positive⟩, ⟨found, m.network, valid⟩, first, second, third⟩

theorem doCreateTransaction_makes {p : Json}
    : (doCreateTransaction p).Makes allowed
      ↔ ∀ w, ∀ s : SendParams, s.Of p → allowed (.lib (s.create w)) := by
  refine .trans ?_ (forall_congr' fun w => buildTx_makes nameless)
  have pauses (w : Wallet) : allowed (.lib (.pauseRefresh w)) := nameless _ rfl
  simp only [doCreateTransaction, sending, Worker.Makes, bind_def, Worker.within_locked, Op.Makes,
    true_and, within_bind, Worker.within_read]
  constructor
  · intro made w
    have made := made { hasNotify := true, wallet := some w }
    simp only [sendsWaitForTor, bind_def, within_bind, Worker.within_read, Op.Makes, true_and,
      pure_def, within_pure, within_ite, refreshPaused, Worker.within_lib, within_ensure,
      Worker.within_resumeRefresh, implies_true, and_true] at made
    exact (made { hasNotify := true } (by simp)).2 ()
  · intro each m
    cases m.wallet with
    | none => trivial
    | some w =>
        simp only [sendsWaitForTor, bind_def, within_bind, Worker.within_read, Op.Makes, true_and,
          pure_def, within_pure, within_ite, refreshPaused, Worker.within_lib, within_ensure,
          Worker.within_resumeRefresh, implies_true, and_true, pauses]
        exact fun _ _ _ => each w

end Send

-----------------------------------------------------------------------------------------
-- The calls of the host
-----------------------------------------------------------------------------------------

/-- However it is answered, the call makes only such library calls. -/
def PlacedCall.Makes (allowed : Query → Prop) : PlacedCall → Prop
  | .balance a => (CoreImpl.balance a).Makes allowed
  | .unlockedBalance a => (CoreImpl.unlockedBalance a).Makes allowed
  | .address a i => (CoreImpl.address a i).Makes allowed
  | .subaddresses a => (CoreImpl.subaddresses a).Makes allowed
  | .createSubaddress a label => (CoreImpl.createSubaddress a label).Makes allowed
  | .setSubaddressLabel a i label => (CoreImpl.setSubaddressLabel a i label).Makes allowed
  | .createTransaction p => (doCreateTransaction p).Makes allowed

/-- The place needs no more than 32 bits, where the call keeps no more; and a send that is
refused keeps none. -/
def PlacedCall.Fits (place : Place) : PlacedCall → Prop
  | .address .. => True
  | .createTransaction p => place.account < 2 ^ 32 ∨ ∀ s : SendParams, ¬s.Of p
  | _ => place.account < 2 ^ 32 ∧ ∀ index ∈ place.index, index < 2 ^ 32

/-- What the host's call makes is what the runtime's makes. -/
theorem Reader.makes_fromJson {body : Reader Json} {allowed : Query → Prop}
    : Reader.Makes allowed (body.bind fun j => Reader.orThrow (fromJson j))
      ↔ body.Makes allowed := by
  constructor
  · intro made
    exact (Reader.makes_bind.mp made).mono (fun _ asks => asks) (fun _ _ => trivial)
      fun _ _ => trivial
  · exact fun made => made.then fun _ => Reader.makes_orThrow

/-- A call that names an account, and no address of it. -/
theorem Place.named_account {place : Place} {c : Query} {account : Nat}
    (names : c.account? = some account) (index : c.index? = none ∨ place.index = none)
    : place.Named c ↔ account = place.account := by
  unfold Place.Named
  rcases index with index | index <;> simp [names, index]

theorem Place.named_index {place : Place} {c : Query} {account index given : Nat}
    (names : c.account? = some account) (named : c.index? = some index)
    (asked : place.index = some given)
    : place.Named c ↔ account = place.account ∧ index = given := by
  unfold Place.Named
  simp [names, named, asked]

theorem Json.IsIndex.getInteger {field : Json} {n : Nat} (index : field.IsIndex n)
    : field.getInteger = .ok (n : Int) := by
  cases index with
  | uint n => rfl
  | int n nonneg =>
      have same : (n.toNatClampNeg : Int) = n.toInt := by
        rw [← Int64.toNat_toInt]
        exact Int.toNat_of_nonneg (Int64.le_iff_toInt_le.mp nonneg)
      rw [same]
      rfl

theorem toNat_ofInt (n : Nat) : (UInt32.ofInt n).toNat = n % 2 ^ 32 := by
  rw [UInt32.ofInt, UInt32.toNat_ofNat']
  omega

/-- The account that a send reads. -/
theorem valueUInt32_of_isIndex {p field : Json} {account : Nat}
    (found : p.find? "accountIndex" = some field) (index : field.IsIndex account)
    : p.valueUInt32 "accountIndex" 0 = .ok (UInt32.ofInt account) := by
  cases p with
  | obj fields =>
      have named := found
      simp only [Json.valueUInt32, Json.value, named, index.getInteger]
      rfl
  | _ => cases found

section Narrowed

open CoreImpl

variable {a i : Int64} (nonneg : 0 ≤ a)

include nonneg

/-- A call that keeps 32 bits of the account names it when it needs no more. -/
theorem named_narrowed {c : Query} {index : Option Nat}
    (names : c.account? = some (narrowed a).toNat) (unnamed : c.index? = none)
    : Place.Named { account := a.toNatClampNeg, index } c ↔ a.toNatClampNeg < 2 ^ 32 :=
  (Place.named_account names (.inl unnamed)).trans (narrowed_exact nonneg)

theorem named_narrowed_index (index : 0 ≤ i) {c : Query}
    (names : c.account? = some (narrowed a).toNat) (named : c.index? = some (narrowed i).toNat)
    : Place.Named { account := a.toNatClampNeg, index := some i.toNatClampNeg } c
      ↔ a.toNatClampNeg < 2 ^ 32 ∧ i.toNatClampNeg < 2 ^ 32 :=
  (Place.named_index names named rfl).trans
    (and_congr (narrowed_exact nonneg) (narrowed_exact index))

end Narrowed

/-- A call asks for the place that it is given exactly when the place fits what it keeps. -/
theorem makes_given_place_iff_fits {call : PlacedCall} {place : Place} (given : call.Given place)
    : call.Makes place.Named ↔ call.Fits place := by
  cases given with
  | balance nonneg =>
      refine balance_makes.trans ((forall_congr' fun w => named_narrowed nonneg rfl rfl).trans ?_)
      simp [PlacedCall.Fits]
  | unlockedBalance nonneg =>
      refine unlockedBalance_makes.trans
        ((forall_congr' fun w => named_narrowed nonneg rfl rfl).trans ?_)
      simp [PlacedCall.Fits]
  | address nonneg index =>
      refine address_makes.trans (iff_of_true (fun w => ?_) trivial)
      exact (Place.named_index rfl rfl rfl).mpr
        ⟨CoreImpl.widened_toNat nonneg, CoreImpl.widened_toNat index⟩
  | subaddresses nonneg =>
      refine (subaddresses_makes fun w counts i j => ?_).trans
        ((forall_congr' fun w => named_narrowed nonneg rfl rfl).trans ?_)
      · have fits := (named_narrowed nonneg rfl rfl).mp counts
        exact ⟨(Place.named_account rfl (.inr rfl)).mpr ((CoreImpl.narrowed_exact nonneg).mpr fits),
          (Place.named_account rfl (.inr rfl)).mpr ((CoreImpl.narrowed_exact nonneg).mpr fits)⟩
      · simp [PlacedCall.Fits]
  | createSubaddress nonneg =>
      refine Reader.makes_fromJson.trans
        ((createSubaddress_makes (fun w => ?_) fun w counts i => ?_).trans ?_)
      · exact Place.named_of_nameless rfl rfl
      · have fits := (named_narrowed nonneg rfl rfl).mp counts
        exact (Place.named_account rfl (.inr rfl)).mpr ((CoreImpl.narrowed_exact nonneg).mpr fits)
      · calc (∀ w, _) ↔ ∀ _ : Wallet, _ := forall_congr' fun w =>
              and_congr (named_narrowed nonneg rfl rfl) (named_narrowed nonneg rfl rfl)
          _ ↔ _ := by simp [PlacedCall.Fits]
  | setSubaddressLabel nonneg index =>
      refine Reader.makes_fromJson.trans ((setSubaddressLabel_makes fun w => ?_).trans ?_)
      · exact Place.named_of_nameless rfl rfl
      · calc (∀ w, _) ↔ ∀ _ : Wallet, _ := forall_congr' fun w =>
              and_congr (named_narrowed nonneg rfl rfl)
                (and_congr (named_narrowed_index nonneg index rfl rfl)
                  (named_narrowed_index nonneg index rfl rfl))
          _ ↔ _ := by simp [PlacedCall.Fits]
  | @createTransaction p field account found index =>
      have reads := valueUInt32_of_isIndex found index
      have names (s : SendParams) (w : Wallet) (of : s.Of p)
          : Place.Named { account } (.lib (s.create w)) ↔ account < 2 ^ 32 := by
        have read : s.account = UInt32.ofInt account :=
          Except.ok.inj (of.2.2.2.1.symm.trans reads)
        refine (Place.named_account rfl (.inl rfl)).trans ?_
        rw [read, toNat_ofInt, Nat.mod_eq_iff_lt (by norm_num)]
      refine (doCreateTransaction_makes fun c none_ => ?_).trans ?_
      · exact ⟨by simp [none_], nofun⟩
      · constructor
        · intro made
          by_cases taken : ∃ s : SendParams, s.Of p
          · obtain ⟨s, of⟩ := taken
            exact .inl ((names s ⟨0⟩ of).mp (made ⟨0⟩ s of))
          · exact .inr (not_exists.mp taken)
        · intro fits w s of
          rcases fits with less | refused
          · exact (names s w of).mpr less
          · exact absurd of (refused s)

theorem makes_given_place_iff_fits_labelling
    : (PlacedCall.setSubaddressLabel 1 2 "rent").Makes
        (Place.Named { account := 1, index := some 2 }) := by
  have given : (PlacedCall.setSubaddressLabel 1 2 "rent").Given { account := 1, index := some 2 } :=
    .setSubaddressLabel (by decide) (by decide)
  exact (makes_given_place_iff_fits given).mpr (by simp [PlacedCall.Fits])

/-- The first index above 32 bits reads the balance of account 0. -/
theorem balance_of_other_account
    : (PlacedCall.balance 4294967296).Given { account := 4294967296 }
      ∧ ¬(PlacedCall.balance 4294967296).Makes (Place.Named { account := 4294967296 })
      ∧ CoreImpl.balance 4294967296 = CoreImpl.balance 0 := by
  have narrowed : CoreImpl.narrowed 4294967296 = CoreImpl.narrowed 0 := by decide +kernel
  refine ⟨.balance (by decide), ?_, congrArg Runtime.balance narrowed⟩
  intro made
  have named := (balance_makes.mp made ⟨0⟩).1 0 (by decide +kernel)
  cases named

end MoneroWalletCore.Runtime
