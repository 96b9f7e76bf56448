import MoneroWalletCore.Session.NoWayBack
import MoneroWalletCore.Session.Progress

/-! What giving up a catch-up node drops. The peer is read off a later answer of the node module,
so it is the one that wallet2 dialled exactly when that answer still names it.
-/

namespace MoneroWalletCore.Runtime

open Program

-----------------------------------------------------------------------------------------
-- The peer of a catch-up
-----------------------------------------------------------------------------------------

/-- A session on a catch-up node has it from the answer of its open. -/
def CatchInv (v : View) : Prop :=
  ∀ w, v.mem.wallet = some w → v.mem.route = .catchUp → ∃ opened,
    openAnswer w v.history = some opened ∧ routeOf opened = .catchUp
      ∧ v.mem.dialPeer = hostPort (catchUpUrl opened)

variable {rule : Surroundings}

/-- No session comes to a catch-up node, and one that is on it keeps its peer. -/
def Mem.NoneCaught (m m' : Mem) : Prop :=
  m'.wallet = m.wallet ∧ (m'.route = .catchUp → m.route = .catchUp ∧ m'.dialPeer = m.dialPeer)

theorem CatchInv.push {v : View} {e : Event} (holds : CatchInv v) (kept : e.handle? = none)
    : CatchInv (v.push e) := by
  intro w held catching
  obtain ⟨opened, answered, route, peer⟩ := holds w held catching
  refine ⟨opened, ?_, route, peer⟩
  rw [View.push_history, openAnswer_cons, kept, if_neg nofun]
  exact answered

theorem moved_noneCaught {node : Json} {error : String} {now : Nat} {m : Mem}
    : m.NoneCaught (moved node error now m) := by
  refine ⟨rfl, fun catching => ?_⟩
  unfold moved at catching
  cases onTor : torReady node && error = "" <;> simp [onTor] at catching

/-- What the sections of a move leave is no session come to a catch-up node. -/
def NoneCaught : Op → Prop
  | .update f => ∀ m : Mem, m.NoneCaught (f m)
  | .dequeue | .settle .. => False
  | _ => True

theorem Mem.NoneCaught.refl {m m' : Mem} (wallet : m'.wallet = m.wallet)
    (route : m'.route = m.route) (dialPeer : m'.dialPeer = m.dialPeer)
    : m.NoneCaught m' :=
  ⟨wallet, fun catching => ⟨route.symm.trans catching, dialPeer⟩⟩

instance : Ticking NoneCaught where
  asks _ _ := trivial
  locks _ := trivial
  unlocks _ := trivial
  reads _ := .refl rfl rfl rfl
  labels _ _ _ := .refl rfl rfl rfl
  registers _ _ := .refl rfl rfl rfl
  drops _ _ := .refl rfl rfl rfl
  times := trivial
  ticks height now m := by
    obtain ⟨same, _⟩ := @ticked_session height now m
    exact .refl (congrArg Session.wallet same) (congrArg Session.route same)
      (congrArg Session.dialPeer same)
  moves _ _ _ _ := moved_noneCaught

/-- The oldest sighting of a history. A turn makes one at most. -/
def firstSighting : History → Option Sighting
  | [] => none
  | e :: older => (firstSighting older).or (sighting? (e :: older))

/-- The calls of a move that go offline and wait out the request in flight. -/
def Event.parks : Event → Bool
  | .asked (.lib (.setOffline _ true)) _ _ | .asked (.lib (.refresh _)) _ _ => true
  | _ => false

/-- The shutting of the sockets to a peer. -/
def Event.drops (peer : String) : Event → Bool
  | .asked (.socketsTo peer' true) _ _ => peer' = peer
  | _ => false

def DropsPeer (peer : String) (h : History) : Prop := ∃ e ∈ h, e.drops peer = true

/-- They had been before the wallet went offline. -/
def PeerShut (peer : String) (h : History) : Prop :=
  Throughout (fun e older => e.parks = true → DropsPeer peer older) h

/-- An answer whose catch-up node is the peer. -/
def NamesPeer (node : Json) (peer : String) : Prop :=
  ∃ fields, node.find? "catchUp" = some (.obj fields)
    ∧ hostPort (str (.obj fields) "url") = peer

/-- A call that stops the refresh, and throws. -/
def Event.stopsShort : Event → Bool
  | .asked (.lib (.pauseRefresh _)) (.error _) _ | .asked (.lib (.stop _)) (.error _) _ => true
  | _ => false

/-- The refresh could not be stopped, so the wallet is not parked. -/
def StoppedShort (h : History) : Prop := ∃ e ∈ h, e.stopsShort = true

/-- How giving up ends for a session: its peer had been shut when the answer named it. -/
structure GivenUp (s : Session) (node : Json) (h : History) : Prop where
  isOpen : s.wallet ≠ none
  route : s.route = .catchUp
  shut : PeerShut s.dialPeer h ↔ NamesPeer node s.dialPeer ∨ StoppedShort h

-----------------------------------------------------------------------------------------
-- Actions that decide nothing of it
-----------------------------------------------------------------------------------------

/-- The calls that stop a refresh, park a wallet, shut sockets, or ask the node module. -/
def Call.parting : Call → Bool
  | .resolve _ | .socketsTo .. | .lib (.pauseRefresh _) | .lib (.stop _)
  | .lib (.setOffline _ true) | .lib (.refresh _) => true
  | _ => false

theorem Call.parting_parks {c : Call} {answer : c.Answer} {m : Mem} (plain : c.parting = false)
    : (Event.asked c answer m).parks = false := by
  cases c with
  | lib c =>
      cases c with
      | setOffline w offline => cases offline <;> first | rfl | cases plain
      | refresh w => cases plain
      | _ => rfl
  | _ => rfl

theorem Call.parting_stopsShort {c : Call} {answer : c.Answer} {m : Mem}
    (plain : c.parting = false)
    : (Event.asked c answer m).stopsShort = false := by
  cases c with
  | lib c => cases c <;> first | rfl | cases plain
  | _ => rfl

theorem Call.parting_node {c : Call} {answer : c.Answer} {m : Mem} (plain : c.parting = false)
    : (Event.asked c answer m).node? = none := by
  cases c with
  | resolve network => cases plain
  | _ => rfl

theorem Call.parting_drops {c : Call} {answer : c.Answer} {m : Mem} {peer : String}
    (plain : c.parting = false)
    : (Event.asked c answer m).drops peer = false := by
  cases c with
  | socketsTo peer' drop => cases plain
  | _ => rfl

theorem dropsPeer_cons {peer : String} {e : Event} {h : History} (other : e.drops peer = false)
    : DropsPeer peer (e :: h) ↔ DropsPeer peer h := by
  simp [DropsPeer, other]

theorem peerShut_cons {peer : String} {e : Event} {h : History} (plain : e.parks = false)
    : PeerShut peer (e :: h) ↔ PeerShut peer h := by
  rw [PeerShut, throughout_cons, plain]
  exact and_iff_right nofun

theorem stoppedShort_cons {e : Event} {h : History} (plain : e.stopsShort = false)
    : StoppedShort (e :: h) ↔ StoppedShort h := by
  simp [StoppedShort, plain]

/-- Nothing of a move has been done. -/
structure Untouched (h : History) : Prop where
  online : ∀ peer, PeerShut peer h
  kept : ∀ peer, ¬DropsPeer peer h
  whole : ¬StoppedShort h

theorem Untouched.nil : Untouched [] :=
  ⟨fun _ => throughout_nil, fun _ ⟨_, member, _⟩ => absurd member List.not_mem_nil,
    fun ⟨_, member, _⟩ => absurd member List.not_mem_nil⟩

theorem Untouched.cons {e : Event} {h : History} (untouched : Untouched h)
    (parks : e.parks = false) (drops : ∀ peer, e.drops peer = false)
    (whole : e.stopsShort = false)
    : Untouched (e :: h) :=
  ⟨fun peer => (peerShut_cons parks).mpr (untouched.online peer),
    fun peer => (dropsPeer_cons (drops peer)).not.mpr (untouched.kept peer),
    (stoppedShort_cons whole).not.mpr untouched.whole⟩

/-- A history that only reports, of a session with its own members. -/
structure Reported (s : Session) (v : View) : Prop where
  same : v.mem.session = s
  unseen : firstSighting v.history = none
  unasked : answers v.history = []
  untouched : Untouched v.history

variable {s : Session}

theorem firstSighting_timeless {c : Call} {answer : c.Answer} {m : Mem} {h : History}
    (timeless : c ≠ .now)
    : firstSighting (.asked c answer m :: h) = firstSighting h := by
  rw [firstSighting, sighting?_asked timeless, Option.or_none]

/-- The first sighting stays it. -/
theorem firstSighting_later {e : Event} {h : History} {seen : Sighting}
    (sees : firstSighting h = some seen)
    : firstSighting (e :: h) = some seen := by
  rw [firstSighting, sees, Option.some_or]

/-- Any other call keeps it so. -/
theorem Reported.ask {v : View} {c : Call} {answer : c.Answer} (reported : Reported s v)
    (timeless : c ≠ .now) (plain : c.parting = false)
    : Reported s (v.push (.asked c answer v.mem)) := by
  refine ⟨reported.same, ?_, ?_, ?_⟩
  · exact (firstSighting_timeless timeless).trans reported.unseen
  · simp [Call.parting_node plain, reported.unasked]
  · exact reported.untouched.cons (Call.parting_parks plain) (fun _ => Call.parting_drops plain)
      (Call.parting_stopsShort plain)

/-- The sighting is made, and the answer to it is followed. -/
structure Judged (s : Session) (seen : Sighting) (node : Json) (v : View) : Prop where
  sees : firstSighting v.history = some seen
  answered : answers v.history = [node]
  ended : GivenUp s node v.history

/-- What a tick ends with, when it saw the wallet stuck and was answered. -/
def Followed (s : Session) (v : View) : Prop :=
  ∀ seen node, firstSighting v.history = some seen → seen.stuck = true →
    answers v.history = [node] → GivenUp s node v.history

theorem Judged.followed {seen : Sighting} {node : Json} {v : View} (judged : Judged s seen node v)
    : Followed s v := by
  intro seen' node' _ _ answered
  obtain ⟨rfl⟩ : node = node' := by simpa using judged.answered.symm.trans answered
  exact judged.ended

theorem peerShut_parks {peer : String} {e : Event} {h : History} (parks : e.parks = true)
    : PeerShut peer (e :: h) ↔ DropsPeer peer h ∧ PeerShut peer h := by
  rw [PeerShut, throughout_cons, parks]
  exact and_congr_left fun _ => ⟨fun drops => drops rfl, fun drops _ => drops⟩

/-- The wallet about to be parked, once what the answer names has been shut. -/
structure Parting (s : Session) (seen : Sighting) (node : Json) (v : View) : Prop where
  isOpen : s.wallet ≠ none
  route : s.route = .catchUp
  sees : firstSighting v.history = some seen
  answered : answers v.history = [node]
  online : PeerShut s.dialPeer v.history
  names : DropsPeer s.dialPeer v.history ↔ NamesPeer node s.dialPeer
  whole : ¬StoppedShort v.history

/-- It is parked, and its refresh waited out. -/
theorem Parting.parks {seen : Sighting} {node : Json} {w : Wallet} {v : View}
    (parting : Parting s seen node v)
    : ((Worker.lib (.setOffline w true)).bind fun _ =>
        (Worker.lib (.refresh w)).bind fun _ => Program.pure true).wp (View.act rule)
        (fun stopped v' => stopped = true ∧ Judged s seen node v') (fun _ => Judged s seen node)
        v := by
  obtain ⟨isOpen, route, sees, answered, online, names, whole⟩ := parting
  have offline {answer : Except Exn Unit}
      : PeerShut s.dialPeer (.asked (.lib (.setOffline w true)) answer v.mem :: v.history)
        ↔ NamesPeer node s.dialPeer ∨ StoppedShort v.history := by
    rw [peerShut_parks rfl, and_iff_left online, or_iff_left whole]
    exact names
  have went {answer : Except Exn Unit}
      : Judged s seen node (v.push (.asked (.lib (.setOffline w true)) answer v.mem)) := by
    refine ⟨firstSighting_later sees, by simp [Event.node?, answered], isOpen, route, ?_⟩
    exact offline.trans (or_congr_right (stoppedShort_cons rfl).symm)
  have waited {answer : Except Exn Unit} {done : Except Exn Bool}
      : Judged s seen node ((v.push (.asked (.lib (.setOffline w true)) answer v.mem)).push
          (.asked (.lib (.refresh w)) done v.mem)) := by
    refine ⟨firstSighting_later went.sees, by simp [Event.node?, answered], isOpen, route, ?_⟩
    rw [View.push_history, peerShut_parks rfl, stoppedShort_cons rfl, went.ended.shut]
    refine and_iff_right_of_imp fun named => (dropsPeer_cons rfl).mpr (names.mpr ?_)
    exact named.resolve_right ((stoppedShort_cons rfl).not.mpr whole)
  simp only [wp_bind, Worker.wp_lib, wp_pure]
  exact ⟨fun _ _ => ⟨fun _ _ => ⟨trivial, waited⟩, fun _ _ => waited⟩, fun _ _ => went⟩

end MoneroWalletCore.Runtime
