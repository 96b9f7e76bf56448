import MoneroWalletCore.Clients.HandleLock
import MoneroWalletCore.Runtime.Insides

/-! The bodies of the clients' calls and of the probe by their scopes. Each takes the handle once,
and looks for the wallet first; so a fact about whole bodies is read off what is inside.
-/

namespace MoneroWalletCore.Runtime

open Program

variable {α : Type}

/-- The files that a call names. -/
def Query.paths : Query → List String
  | .lib c => c.paths
  | _ => []

/-- The actions inside a scope, but for naming files. -/
class Visits (allowed : ReadOp → Prop) : Prop where
  members : allowed .members
  handle : allowed .handle
  sockets : ∀ hostport drop, allowed (.socketsTo hostport drop)
  records : ∀ w connected height, allowed (.record w connected height)
  queries : ∀ c, c.paths = [] → allowed (.query c)

/-- What holds of a body by what is inside its scope. -/
structure Serves (allowed : ReadOp → Prop) (Holds : ∀ α : Type, Reader α → Prop) : Prop where
  locked : ∀ {α mode} {body : Reader α}, body.Calls allowed → Holds α (Reader.locked mode body)
  inTime : ∀ {α late} {body : Reader α}, body.Calls allowed →
    Holds α (Reader.lockedInTime late body)
  after : ∀ {α} {next : Mem → Reader α}, (∀ m, Holds α (next m)) → Holds α (Reader.members.bind next)
  guarded : ∀ {α} {p : Reader α} {handler : Exn → Reader α}, Holds α p →
    (∀ error, Holds α (handler error)) → Holds α (p.tryCatch handler)
  value : ∀ {α} {value : α}, Holds α (.pure value)
  reveals : ∀ {password} {body : Wallet → Reader Json}, (∀ w, (body w).Calls allowed) →
    Holds Json (reveal password body)

open Reader

section Visits

variable {allowed : ReadOp → Prop} [Visits allowed]

theorem query_visits {c : Query} (unnamed : c.paths = []) : (query c).Calls allowed :=
  calls_query (Visits.queries c unnamed)

/-- The look at the handle that a scope begins with. -/
theorem handle_visits {none_ : α} {body : Wallet → Reader α} (calls : ∀ w, (body w).Calls allowed)
    : Reader.Calls allowed (do
        let w? ← Reader.handle
        match w? with
        | none => Pure.pure none_
        | some w => body w) := by
  refine ⟨Visits.handle, fun w? => ?_⟩
  cases w? with
  | none => trivial
  | some w => exact calls w

namespace Serves

variable {Holds : ∀ α : Type, Reader α → Prop} (serves : Serves allowed Holds)

include serves

theorem readText {none_ : String} {body : Wallet → Reader String}
    (calls : ∀ w, (body w).Calls allowed)
    : Holds Json (readText none_ body) :=
  serves.inTime (handle_visits fun w => (calls w).bind fun _ => trivial)

theorem history : Holds Json history := by
  refine serves.locked (handle_visits fun w => (query_visits rfl).bind fun h? => ?_)
  cases h? with
  | none => trivial
  | some h =>
      refine (query_visits rfl).bind fun _ => (query_visits rfl).bind fun n => ?_
      refine (calls_collect (fun i => (query_visits rfl).bind fun t? => ?_) _ _).bind fun _ => trivial
      cases t? with
      | none => trivial
      | some t => exact (historyRow_calls fun _ => Visits.queries _ rfl).bind fun _ => trivial

theorem body (request : Request) : Holds Json request.body := by
  cases request with
  | status =>
      refine serves.after fun m => serves.inTime (handle_visits fun w => ?_)
      exact (query_visits rfl).bind fun _ => (query_visits rfl).bind fun _ =>
        (query_visits rfl).bind fun _ => trivial
  | balance account => exact serves.readText fun _ => (query_visits rfl).bind fun _ => trivial
  | unlockedBalance account =>
      exact serves.readText fun _ => (query_visits rfl).bind fun _ => trivial
  | address account index => exact serves.readText fun _ => query_visits rfl
  | subaddresses account =>
      refine serves.inTime (handle_visits fun w => (query_visits rfl).bind fun n => ?_)
      refine (calls_collect (fun i => ?_) _ _).bind fun _ => trivial
      exact (query_visits rfl).bind fun _ => (query_visits rfl).bind fun _ => trivial
  | createSubaddress account label =>
      refine serves.locked (handle_visits fun w => ?_)
      refine (query_visits rfl).bind fun _ => (query_visits rfl).bind fun n => ?_
      split
      · trivial
      · exact (query_visits rfl).bind fun _ => (query_visits rfl).bind fun _ => trivial
  | setSubaddressLabel account index label =>
      refine serves.locked (handle_visits fun w => (query_visits rfl).bind fun n => ?_)
      split
      · trivial
      · exact (query_visits rfl).bind fun _ => (query_visits rfl).bind fun _ =>
          (query_visits rfl).bind fun _ => trivial
  | history => exact serves.history
  | revealSeed password =>
      refine serves.reveals fun w => (query_visits rfl).bind fun seed => ?_
      split <;> trivial
  | revealViewKey password =>
      exact serves.reveals fun w => (query_visits rfl).bind fun _ => (query_visits rfl).bind fun _ =>
        trivial

theorem probeRound : Holds Unit probeRound := by
  have sockets (peer : String) : (probeSockets peer).Calls allowed := by
    unfold probeSockets
    split
    · trivial
    · exact ⟨Visits.sockets _ _, fun _ => trivial⟩
  have height (w : Wallet) (connected : Bool) : (probeHeight w connected).Calls allowed := by
    unfold probeHeight
    split
    · refine (query_visits rfl).bind fun synced => ?_
      split
      · exact query_visits rfl
      · trivial
    · trivial
  refine serves.guarded (serves.inTime (handle_visits fun w => ?_)) fun _ => serves.value
  refine ⟨Visits.members, fun m => (sockets m.dialPeer).bind fun connected => ?_⟩
  exact (height w connected).bind fun _ => ⟨Visits.records _ _ _, fun _ => trivial⟩

end Serves

end Visits

end MoneroWalletCore.Runtime
