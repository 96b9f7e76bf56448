import MoneroWalletCore.Tickets.Numbering
import MoneroWalletCore.Transactions.Relay

/-! What a history tells of pending transactions. A transaction is kept under the next handle
when it was built well; its handle ends with the relay, with a disposal, or with the close of the
wallet. The book of this is read off the library's calls and the jobs' outcomes alone.
-/

namespace MoneroWalletCore.Runtime

/-! ### The book -/

/-- What happens to pending transactions. -/
inductive Trade where
  | keeps (pt : PendingTx)
  | relays (pt : PendingTx)
  | disposes
  | closes
  | hands (handle : String)

/-- The handle of the transaction that was kept as the given one, counted from zero. -/
def nthHandle (n : Nat) : String := numbered "tx" n

/-- The handles of the first transactions that were kept, the last first. -/
def handlesUpTo (n : Nat) : List String := ((List.range n).map nthHandle).reverse

/-- The transactions that were kept and those that were relayed, and the handles that were given
out, the last first; and the transactions that are held by a handle. -/
structure TxBook where
  kept : List PendingTx := []
  relayed : List PendingTx := []
  handed : List String := []
  held : Held := ∅

/-- The handles but the one that is named. -/
def Held.without (held : Held) : Option String → Held
  | some handle => held.erase handle
  | none => held

/-- A trade of a job that names a handle, if it names one. -/
def TxBook.after (b : TxBook) (named : Option String) : Trade → TxBook
  | .keeps pt =>
      { b with
        kept := pt :: b.kept
        held := b.held.insert (nthHandle b.kept.length) pt }
  | .relays pt => { b with relayed := pt :: b.relayed, held := b.held.without named }
  | .disposes => { b with held := b.held.without named }
  | .closes => { b with held := ∅ }
  | .hands handle => { b with handed := handle :: b.handed }

/-- Each transaction is relayed once at most, and then no handle holds it. The handles given out
are some of those of the transactions kept, in their order. -/
structure TxBook.Sound (b : TxBook) : Prop where
  once : b.relayed.Nodup
  known : ∀ pt ∈ b.relayed, pt ∈ b.kept
  live : ∀ handle pt, b.held.lookup handle = some pt → pt ∈ b.kept ∧ pt ∉ b.relayed
  single : ∀ handle handle' pt, b.held.lookup handle = some pt → b.held.lookup handle' = some pt →
    handle = handle'
  ordered : b.handed.Sublist (handlesUpTo b.kept.length)

/-- What a trade asks for: only a new transaction is kept, only one that is held by the handle
named is relayed, and only the last handle is given out, which was not before. -/
def TxBook.Admits (b : TxBook) (named : Option String) : Trade → Prop
  | .keeps pt => pt ∉ b.kept
  | .relays pt => ∃ handle, named = some handle ∧ b.held.lookup handle = some pt
  | .disposes | .closes => True
  | .hands handle => ∃ pt earlier, b.kept = pt :: earlier ∧ handle = nthHandle earlier.length
      ∧ b.handed.Sublist (handlesUpTo earlier.length)

theorem Held.lookup_without {held : Held} {named : Option String} {handle : String}
    {pt : PendingTx} (found : (held.without named).lookup handle = some pt)
    : held.lookup handle = some pt ∧ named ≠ some handle := by
  cases named with
  | none => exact ⟨found, nofun⟩
  | some other =>
      have differs : handle ≠ other := by
        rintro rfl
        cases (AList.lookup_erase handle held).symm.trans found
      refine ⟨(AList.lookup_erase_ne differs).symm.trans found, fun same => ?_⟩
      exact differs (Option.some.inj same).symm

theorem handlesUpTo_succ {n : Nat} : handlesUpTo (n + 1) = nthHandle n :: handlesUpTo n := by
  simp [handlesUpTo, List.range_succ]

theorem TxBook.sound_empty : Sound {} :=
  ⟨List.nodup_nil, nofun, nofun, nofun, .slnil⟩

theorem TxBook.Sound.after {b : TxBook} {named : Option String} {trade : Trade} (sound : b.Sound)
    (admits : b.Admits named trade)
    : (b.after named trade).Sound := by
  cases trade with
  | keeps pt =>
      have unrelayed : pt ∉ b.relayed := fun relayed => admits (sound.known pt relayed)
      have cases_ {handle : String} {pt' : PendingTx}
          (found : (b.held.insert (nthHandle b.kept.length) pt).lookup handle = some pt')
          : handle = nthHandle b.kept.length ∧ pt' = pt
            ∨ b.held.lookup handle = some pt' := by
        by_cases same : handle = nthHandle b.kept.length
        · subst same
          rw [AList.lookup_insert] at found
          exact .inl ⟨rfl, (Option.some.inj found).symm⟩
        · rw [AList.lookup_insert_ne same] at found
          exact .inr found
      refine ⟨sound.once, fun pt' relayed => .tail _ (sound.known pt' relayed), ?_, ?_,
        handlesUpTo_succ ▸ sound.ordered.cons _⟩
      · intro handle pt' found
        rcases cases_ found with ⟨_, rfl⟩ | earlier
        · exact ⟨.head _, unrelayed⟩
        · exact ⟨.tail _ (sound.live handle pt' earlier).1, (sound.live handle pt' earlier).2⟩
      · intro handle handle' pt' found found'
        rcases cases_ found with ⟨same, rfl⟩ | earlier
        · rcases cases_ found' with ⟨same', _⟩ | earlier'
          · exact same.trans same'.symm
          · exact absurd (sound.live handle' pt' earlier').1 admits
        · rcases cases_ found' with ⟨_, rfl⟩ | earlier'
          · exact absurd (sound.live handle pt' earlier).1 admits
          · exact sound.single handle handle' pt' earlier earlier'
  | relays pt =>
      obtain ⟨named, rfl, holds⟩ := admits
      obtain ⟨kept, unrelayed⟩ := sound.live named pt holds
      refine ⟨List.nodup_cons.mpr ⟨unrelayed, sound.once⟩, ?_, ?_, ?_, sound.ordered⟩
      · exact List.forall_mem_cons.mpr ⟨kept, sound.known⟩
      · intro handle pt' found
        obtain ⟨earlier, other⟩ := Held.lookup_without found
        obtain ⟨kept', unrelayed'⟩ := sound.live handle pt' earlier
        refine ⟨kept', fun relayed => ?_⟩
        rcases List.mem_cons.mp relayed with rfl | relayed
        · exact other (congrArg some (sound.single named handle pt' holds earlier))
        · exact unrelayed' relayed
      · intro handle handle' pt' found found'
        exact sound.single handle handle' pt' (Held.lookup_without found).1
          (Held.lookup_without found').1
  | disposes =>
      refine ⟨sound.once, sound.known, ?_, ?_, sound.ordered⟩
      · exact fun handle pt found => sound.live handle pt (Held.lookup_without found).1
      · intro handle handle' pt found found'
        exact sound.single handle handle' pt (Held.lookup_without found).1
          (Held.lookup_without found').1
  | closes => exact ⟨sound.once, sound.known, nofun, nofun, sound.ordered⟩
  | hands handle =>
      obtain ⟨pt, earlier, kept, last, ordered⟩ := admits
      refine ⟨sound.once, sound.known, sound.live, sound.single, ?_⟩
      have length : b.kept.length = earlier.length + 1 := congrArg List.length kept
      change (handle :: b.handed).Sublist (handlesUpTo b.kept.length)
      rw [length, handlesUpTo_succ, last]
      exact ordered.cons_cons _

theorem nodup_handlesUpTo {n : Nat} (bound : n < 2 ^ 64) : (handlesUpTo n).Nodup := by
  refine List.nodup_reverse.mpr (List.nodup_range.map_on ?_)
  intro k below k' below' same
  rw [List.mem_range] at below below'
  exact (numbered_inj (by omega) (by omega)).mp same

/-- What a handle holds after a trade that keeps nothing it held before. -/
theorem TxBook.lookup_after {b : TxBook} {named : Option String} {trade : Trade} {handle : String}
    {pt : PendingTx} (old : (b.after named trade).kept = b.kept)
    (found : (b.after named trade).held.lookup handle = some pt)
    : b.held.lookup handle = some pt := by
  cases trade with
  | keeps pt' => exact absurd old (List.cons_ne_self _ _)
  | relays pt' => exact (Held.lookup_without found).1
  | disposes => exact (Held.lookup_without found).1
  | closes => exact nomatch found
  | hands other => exact found

/-- No handle is given out twice, as long as the counter has not come round. -/
theorem TxBook.Sound.distinct {b : TxBook} (sound : b.Sound) (bound : b.kept.length < 2 ^ 64)
    : b.handed.Nodup :=
  (nodup_handlesUpTo bound).sublist sound.ordered

/-! ### The book of a history -/

/-- The transaction that the last event brought. -/
def justBuilt (h : History) : Option PendingTx := h.head?.bind Event.built?

/-- The handle that a job names. -/
def Job.txHandle? (job : Job) : Option String := (job.params.valueString "txHandle" "").toOption

/-- The handle that the last job named. -/
def namedHandle (h : History) : Option String := (lastJob h).bind Job.txHandle?

def lastKind (h : History) : Option String := (lastJob h).map Job.kind

/-- The handle that a job's answer gives out. -/
def givenHandle (out : Json) : String :=
  match out.find? "result" with
  | some result => str result "txHandle"
  | none => ""

/-- What an event does to the pending transactions. One that was just built is kept when its
status is good, and a close has taken the wallet out of the module when it stores it. -/
def Event.trade? (e : Event) (older : History) : Option Trade :=
  match e with
  | .asked (.lib (.pendingStatus pt)) (.ok status) _ =>
      if status = 0 ∧ justBuilt older = some pt then some (.keeps pt) else none
  | .asked (.lib (.commit pt ..)) (.ok true) _ => some (.relays pt)
  | .asked (.lib (.store ..)) _ m => if m.wallet = none then some .closes else none
  | .settled _ out (.ok .done) =>
      if lastKind older = some "create_transaction" then some (.hands (givenHandle out))
      else if lastKind older = some "dispose_transaction" then some .disposes
      else none
  | _ => none

def txBook : History → TxBook
  | [] => {}
  | e :: older =>
      match e.trade? older with
      | some trade => (txBook older).after (namedHandle older) trade
      | none => txBook older

theorem txBook_cons_none {e : Event} {h : History} (none : e.trade? h = none)
    : txBook (e :: h) = txBook h := by
  rw [txBook, none]

theorem txBook_cons_some {e : Event} {h : History} {trade : Trade} (some : e.trade? h = some trade)
    : txBook (e :: h) = (txBook h).after (namedHandle h) trade := by
  rw [txBook, some]

theorem trade_store {w : Wallet} {path : String} {answer : Except Exn Bool} {m : Mem} {h : History}
    : (Event.asked (.lib (.store w path)) answer m).trade? h
      = if m.wallet = none then some .closes else none := rfl

/-- A transaction was built on a wallet object since the manager last returned that object. -/
def BuiltOn (w : Wallet) (pt : PendingTx) : History → Prop
  | [] => False
  | .asked (.lib (.createTransaction w' ..)) (.ok pt?) _ :: older =>
      w' = w ∧ pt? = some pt ∨ BuiltOn w pt older
  | e :: older => e.handle? ≠ some w ∧ BuiltOn w pt older

theorem BuiltOn.cons {w : Wallet} {pt : PendingTx} {e : Event} {h : History}
    (built : BuiltOn w pt h) (other : e.handle? ≠ some w)
    : BuiltOn w pt (e :: h) := by
  unfold BuiltOn
  split
  next => contradiction
  next same => cases same; exact .inr built
  next same => cases same; exact ⟨other, built⟩

/-- What has to hold of a commit when it is made, after the history before it: its transaction is
held by the handle that the running job names, and was built on the wallet that is open. -/
structure CommitPermitted (pt : PendingTx) (m : Mem) (older : History) : Prop where
  commits : lastKind older = some "commit_transaction"
  held : ∃ handle, namedHandle older = some handle ∧ (txBook older).held.lookup handle = some pt
  built : ∃ w, m.wallet = some w ∧ BuiltOn w pt older

def Event.CommitPermitted (e : Event) (older : History) : Prop :=
  match e with
  | .asked (.lib (.commit pt ..)) _ m => Runtime.CommitPermitted pt m older
  | _ => True

end MoneroWalletCore.Runtime
