import MoneroWalletCore.Session.DialTargets
import MoneroWalletCore.Session.SectionTurns

/-! When a catch-up node is given up. Progress is a running maximum of the heights that ticks
saw, so a height that rises again after it fell counts as progress only once it passes all that
the session saw before.
-/

namespace MoneroWalletCore.Runtime

open Program

-----------------------------------------------------------------------------------------
-- What ticks see
-----------------------------------------------------------------------------------------

/-- What a tick saw of the open wallet: the library's two answers, the time and the members. -/
structure Sighting where
  synced : Bool
  height : UInt64
  time : Nat
  members : Mem

/-- The sighting that a history ends with: the open wallet is asked, and then the clock. -/
def sighting? : History → Option Sighting
  | .asked .now time members :: .asked (.lib (.blockChainHeight w)) (.ok height) asked
      :: .asked (.lib (.synchronized _)) (.ok synced) _ :: _ =>
      if asked.wallet = some w ∧ members.wallet = some w then
        some { synced, height, time, members }
      else
        none
  | _ => none

/-- The judgement of the tick that saw it. -/
def Sighting.stuck (s : Sighting) : Bool :=
  isStuck s.synced s.time (progressed s.height s.time s.members)

/-- What was seen of an open session: when it was opened, and the times and heights of its ticks,
the last first. -/
structure Watch where
  openedAt : Nat
  sightings : List (Nat × UInt64) := []

def Watch.seen (g : Watch) : Option Sighting → Watch
  | none => g
  | some s => { g with sightings := (s.time, s.height) :: g.sightings }

/-- The watch of the open session. It begins with the look at the clock that its publication
takes. -/
def watch : History → Option Watch
  | [] => none
  | .asked .now time m :: older =>
      if m.wallet = none then none
      else
        match watch older with
        | none => some { openedAt := time }
        | some g => some (g.seen (sighting? (.asked .now time m :: older)))
  | .asked _ _ m :: older => if m.wallet = none then none else watch older
  | .began .. :: older | .settled .. :: older => watch older

/-- The session is older than the limit, and so is every rise of its height from one tick to the
next. -/
structure GivenUpLate (s : Sighting) (g : Watch) : Prop where
  behind : s.synced = false
  old : g.openedAt + kCatchUpGiveUp < s.time
  still : ∀ a b rest, a :: b :: rest <:+ g.sightings → b.2 < a.2 → a.1 + kCatchUpGiveUp < s.time

/-- Every rise within the limit passes all the heights that the session saw before. -/
def RecentRisesNew (s : Sighting) (g : Watch) : Prop :=
  ∀ a b rest, a :: b :: rest <:+ g.sightings → b.2 < a.2 → s.time ≤ a.1 + kCatchUpGiveUp →
    ∀ c ∈ b :: rest, c.2 < a.2

def Event.time? : Event → Option Nat
  | .asked .now time _ => some time
  | _ => none

/-- The times that the clock was seen at. -/
def times (h : History) : List Nat := h.filterMap Event.time?

/-- The clock does not go back. -/
def SteadyClock : Surroundings := fun h e =>
  match e with
  | .asked .now time _ => ∀ earlier ∈ times h, earlier ≤ time
  | _ => True

-----------------------------------------------------------------------------------------
-- The running maximum
-----------------------------------------------------------------------------------------

/-- The members' progress, against the session's ticks: a height that passed all before it was
seen no later than the last progress. -/
structure Tracks (g : Watch) (m : Mem) : Prop where
  opened : g.openedAt ≤ m.progressAt
  records : ∀ s rest, s :: rest <:+ g.sightings → rest ≠ [] → (∀ c ∈ rest, c.2 < s.2) →
    s.1 ≤ m.progressAt
  height : m.progressHeight = 0 ∨ ∃ s ∈ g.sightings, s.2 = m.progressHeight

theorem progressed_progressAt {height : UInt64} {now : Nat} {m : Mem} (past : m.progressAt ≤ now)
    : m.progressAt ≤ (progressed height now m).progressAt := by
  unfold progressed
  split
  · exact past
  · exact le_refl _

/-- A height that passes all before it is progress. -/
theorem Tracks.next {g : Watch} {m : Mem} {now : Nat} {height : UInt64} (tracks : Tracks g m)
    (past : m.progressAt ≤ now)
    : Tracks { g with sightings := (now, height) :: g.sightings } (progressed height now m) := by
  have later : m.progressAt ≤ (progressed height now m).progressAt := progressed_progressAt past
  refine ⟨tracks.opened.trans later, fun s rest part more passes => ?_, ?_⟩
  · rcases List.suffix_cons_iff.mp part with same | earlier
    · cases same
      have rises : m.progressHeight < height := by
        rcases tracks.height with zero | ⟨c, seen, same⟩
        · obtain ⟨c, seen⟩ := List.exists_mem_of_ne_nil _ more
          rw [zero]
          have above := UInt64.lt_iff_toNat_lt.mp (passes c seen)
          exact UInt64.lt_iff_toNat_lt.mpr (Nat.zero_lt_of_lt above)
        · rw [← same]
          exact passes c seen
      simp [progressed, rises]
    · exact (tracks.records s rest earlier more passes).trans later
  · unfold progressed
    split
    · exact .inr ⟨_, .head _, rfl⟩
    · exact tracks.height.imp id fun ⟨c, seen, same⟩ => ⟨c, .tail _ seen, same⟩

/-- Progress may be dated later, as a move does. -/
theorem Tracks.dated {g : Watch} {m m' : Mem} (tracks : Tracks g m)
    (past : m.progressAt ≤ m'.progressAt) (same : m'.progressHeight = m.progressHeight)
    : Tracks g m' :=
  ⟨tracks.opened.trans past, fun s rest part more passes =>
    (tracks.records s rest part more passes).trans past, by rw [same]; exact tracks.height⟩

theorem sighting?_now {now : Nat} {m : Mem} {h : History} {s : Sighting}
    (sees : sighting? (.asked .now now m :: h) = some s)
    : s.time = now ∧ s.members = m := by
  unfold sighting? at sees
  split at sees
  next same =>
    cases same
    split at sees
    · cases sees
      exact ⟨rfl, rfl⟩
    · cases sees
  next => cases sees

/-- Dated by a look that may have seen a height itself. -/
theorem Tracks.redated {g : Watch} {m m' seen : Mem} {now : Nat} {h : History}
    (tracks : Tracks g m) (past : m.progressAt ≤ now) (at_ : m'.progressAt = now)
    (same : m'.progressHeight = m.progressHeight)
    : Tracks (g.seen (sighting? (.asked .now now seen :: h))) m' := by
  have dated : Tracks g m' := tracks.dated (past.trans at_.ge) same
  cases sees : sighting? (.asked .now now seen :: h) with
  | none => exact dated
  | some s =>
      refine ⟨dated.opened, fun a rest part more passes => ?_, ?_⟩
      · rcases List.suffix_cons_iff.mp part with here | earlier
        · cases here
          exact ((sighting?_now sees).1.trans at_.symm).le
        · exact dated.records a rest earlier more passes
      · exact dated.height.imp id fun ⟨c, seen, eq⟩ => ⟨c, .tail _ seen, eq⟩

/-- A stuck judgement is late exactly when the recent rises were new. -/
theorem Tracks.judges {g : Watch} {s : Sighting}
    (tracks : Tracks g (progressed s.height s.time s.members)) (stuck : s.stuck = true)
    : GivenUpLate s g ↔ RecentRisesNew s g := by
  simp only [Sighting.stuck, isStuck, Bool.and_eq_true, decide_eq_true_eq, Bool.not_eq_true',
    gt_iff_lt] at stuck
  obtain ⟨⟨_, behind⟩, late⟩ := stuck
  have late' : (progressed s.height s.time s.members).progressAt + kCatchUpGiveUp < s.time := by
    omega
  constructor
  · intro given a b rest part rises recent
    have := given.still a b rest part rises
    omega
  · intro new
    refine ⟨behind, ?_, fun a b rest part rises => ?_⟩
    · have := tracks.opened
      omega
    · by_contra recent
      have dated := tracks.records a (b :: rest) part nofun
        (new a b rest part rises (by omega))
      omega

-----------------------------------------------------------------------------------------
-- The invariant
-----------------------------------------------------------------------------------------

def Event.JudgedRightly (e : Event) (older : History) : Prop :=
  ∀ s, sighting? (e :: older) = some s → s.stuck = true →
    ∃ g, watch (e :: older) = some g ∧ (GivenUpLate s g ↔ RecentRisesNew s g)

/-- A call made on an open wallet is one of a watched session. -/
def Shown : History → Prop
  | .asked c answer m :: older => m.wallet ≠ none → watch (.asked c answer m :: older) ≠ none
  | _ => True

structure ProgressInv (v : View) : Prop where
  judged : Throughout Event.JudgedRightly v.history
  shown : Shown v.history
  closed : v.mem.wallet = none → watch v.history = none
  tracks : v.mem.wallet ≠ none → ∃ g, watch v.history = some g ∧ Tracks g v.mem
  dated : v.mem.wallet ≠ none → v.mem.progressAt ∈ times v.history

variable {rule : Surroundings} {v : View}

theorem watch_asked {c : Call} {answer : c.Answer} {m : Mem} {h : History} (timeless : c ≠ .now)
    : watch (.asked c answer m :: h) = if m.wallet = none then none else watch h := by
  cases c with
  | now => exact absurd rfl timeless
  | _ => rfl

theorem sighting?_asked {c : Call} {answer : c.Answer} {m : Mem} {h : History}
    (timeless : c ≠ .now)
    : sighting? (.asked c answer m :: h) = none := by
  cases c with
  | now => exact absurd rfl timeless
  | _ => rfl

/-- A tick's look follows a call made on the open wallet. -/
theorem Shown.watched {now : Nat} {m : Mem} {h : History} {s : Sighting} (shown : Shown h)
    (sees : sighting? (.asked .now now m :: h) = some s)
    : m.wallet ≠ none ∧ watch h ≠ none := by
  unfold sighting? at sees
  split at sees
  next same =>
    cases same
    split at sees
    next asked =>
      refine ⟨by rw [asked.2]; exact nofun, shown ?_⟩
      rw [asked.1]
      exact nofun
    next => cases sees
  next => cases sees

theorem times_asked {c : Call} {answer : c.Answer} {m : Mem} {h : History} (timeless : c ≠ .now)
    : times (.asked c answer m :: h) = times h := by
  cases c with
  | now => exact absurd rfl timeless
  | _ => rfl

/-- An event other than a look at the clock. -/
theorem ProgressInv.ask {c : Call} {answer : c.Answer} (holds : ProgressInv v)
    (timeless : c ≠ .now)
    : ProgressInv (v.push (.asked c answer v.mem)) := by
  refine ⟨throughout_cons.mpr ⟨fun s seen => ?_, holds.judged⟩, fun isOpen => ?_, fun none => ?_,
    fun isOpen => ?_, fun isOpen => ?_⟩
  · rw [sighting?_asked timeless] at seen
    cases seen
  · obtain ⟨g, seen, _⟩ := holds.tracks isOpen
    rw [watch_asked timeless, if_neg isOpen, seen]
    exact nofun
  · exact (watch_asked timeless).trans (if_pos none)
  · obtain ⟨g, seen, tracks⟩ := holds.tracks isOpen
    exact ⟨g, ((watch_asked timeless).trans (if_neg isOpen)).trans seen, tracks⟩
  · rw [View.push_history, times_asked timeless]
    exact holds.dated isOpen

def Call.timeless : Call → Bool
  | .now => false
  | _ => true

/-- An action that leaves the handle and the progress, and does not look at the clock. -/
abbrev Timeless : Op → Prop :=
  Acting
    (fun m m' => m'.wallet = m.wallet ∧ m'.progressHeight = m.progressHeight
      ∧ m'.progressAt = m.progressAt)
    Call.timeless

theorem progressed_wallet {height : UInt64} {now : Nat} {m : Mem}
    : (progressed height now m).wallet = m.wallet :=
  congrArg Session.wallet (progressed_session m).1

instance : Telling Timeless where
  asks c plain := by
    cases c with
    | now => cases plain
    | _ => rfl
  locks _ := trivial
  unlocks _ := trivial
  reads _ := ⟨rfl, rfl, rfl⟩
  labels _ _ _ := ⟨rfl, rfl, rfl⟩
  registers _ _ := ⟨rfl, rfl, rfl⟩
  drops _ _ := ⟨rfl, rfl, rfl⟩
  notifies _ _ := rfl
  resets _ := ⟨rfl, rfl, rfl⟩

theorem keepsProgress_timeless : ActionsKeep rule Timeless ProgressInv := by
  apply ActionsKeep.acting
  · intro v m assigned holds
    obtain ⟨o, wallet, height, dated⟩ := assigned
    have open_ (isOpen : m.wallet ≠ none) : v.mem.wallet ≠ none := by rwa [wallet] at isOpen
    refine ⟨holds.judged, holds.shown, fun none => ?_, fun isOpen => ?_, fun isOpen => ?_⟩
    · exact holds.closed (wallet.symm.trans none)
    · obtain ⟨g, seen, tracks⟩ := holds.tracks (open_ isOpen)
      exact ⟨g, seen, tracks.dated dated.ge height⟩
    · have same : m.progressAt = v.mem.progressAt := dated
      rw [View.at_mem, Mem.own_progressAt, same]
      exact holds.dated (open_ isOpen)
  · intro v c answer timeless _ holds
    apply holds.ask
    rintro rfl
    cases timeless

theorem keepsWallet_timeless (held : Option Wallet)
    : ActionsKeep rule Timeless (fun v => v.mem.wallet = held) :=
  ActionsKeep.acting (fun _ _ ⟨_, wallet, _⟩ same => wallet.trans same)
    (fun _ _ _ _ _ same => same)

/-- A look at the clock: any judgement made there is right, and the members may be dated by it. -/
theorem ProgressInv.look {now : Nat} (holds : ProgressInv v)
    (steady : SteadyClock v.history (.asked .now now v.mem)) (isOpen : v.mem.wallet ≠ none)
    : Throughout Event.JudgedRightly (.asked .now now v.mem :: v.history)
      ∧ v.mem.progressAt ≤ now
      ∧ ∃ g, watch v.history = some g ∧ Tracks g v.mem
        ∧ watch (.asked .now now v.mem :: v.history)
          = some (g.seen (sighting? (.asked .now now v.mem :: v.history))) := by
  obtain ⟨g, seen, tracks⟩ := holds.tracks isOpen
  have past : v.mem.progressAt ≤ now := steady _ (holds.dated isOpen)
  have next : watch (.asked .now now v.mem :: v.history)
      = some (g.seen (sighting? (.asked .now now v.mem :: v.history))) := by
    rw [watch, if_neg isOpen, seen]
  refine ⟨throughout_cons.mpr ⟨fun s sees stuck => ?_, holds.judged⟩, past, g, seen, tracks, next⟩
  refine ⟨_, next, Tracks.judges ?_ stuck⟩
  rw [sees]
  obtain ⟨at_, members⟩ := sighting?_now sees
  rw [at_, members, Watch.seen, at_]
  exact tracks.next past

-----------------------------------------------------------------------------------------
-- The bodies that look at the clock
-----------------------------------------------------------------------------------------

theorem mem_times {now : Nat} {m : Mem} {h : History} : now ∈ times (.asked .now now m :: h) :=
  .head _

/-- A section that dates the progress by the look before it. -/
theorem ProgressInv.looked {now : Nat} {m : Mem} (holds : ProgressInv v)
    (steady : SteadyClock v.history (.asked .now now v.mem)) (wallet : m.wallet = v.mem.wallet)
    (tracks : ∀ g, Tracks g v.mem → v.mem.progressAt ≤ now →
      Tracks (g.seen (sighting? (.asked .now now v.mem :: v.history))) m)
    (dated : m.progressAt = now ∨ m.progressAt = v.mem.progressAt)
    : ProgressInv (View.at m (.asked .now now v.mem :: v.history)) := by
  by_cases none : v.mem.wallet = none
  · have blind : watch (.asked .now now v.mem :: v.history) = Option.none := by
      rw [watch, if_pos none]
    refine ⟨throughout_cons.mpr ⟨fun s sees => ?_, holds.judged⟩, fun isOpen => absurd none isOpen,
      fun _ => blind, fun isOpen => absurd (wallet.trans none) isOpen,
      fun isOpen => absurd (wallet.trans none) isOpen⟩
    exact absurd none (holds.shown.watched sees).1
  · obtain ⟨judged, past, g, seen, before, next⟩ := holds.look steady none
    refine ⟨judged, fun _ => by rw [next]; exact nofun, fun gone => ?_, fun _ => ?_, fun _ => ?_⟩
    · exact absurd (wallet.symm.trans gone) none
    · obtain ⟨opened, records, height⟩ := tracks g before past
      exact ⟨_, next, opened, records, height⟩
    · rcases dated with same | same
      · rw [View.at_mem, Mem.own_progressAt, same]
        exact mem_times
      · rw [View.at_mem, Mem.own_progressAt, same]
        exact List.mem_cons_of_mem _ (holds.dated none)

theorem publishWallet_keepsProgress {o : OpenParams} {plan : Plan} {path addr : String} {w : Wallet}
    (holds : ProgressInv v) (none : v.mem.wallet = none)
    : (publishWallet o plan path addr w).wp (View.act SteadyClock) (fun _ => ProgressInv)
        (fun _ => ProgressInv) v := by
  simp only [publishWallet, bind_def, wp_bind, Worker.wp_locked, Worker.wp_update, Worker.wp_now]
  intro o₁ now _ o₂
  refine keepsProgress_timeless.stays announceWallet_stays _ ?_
  have unseen : watch v.history = Option.none := holds.closed none
  have first : watch (.asked .now now (withWallet w (v.mem.under o₁)).own :: v.history)
      = some { openedAt := now } := by
    rw [watch, if_neg (by simp), unseen]
  refine ⟨throughout_cons.mpr ⟨fun s sees => ?_, holds.judged⟩, fun _ => ?_, fun gone => ?_,
    fun _ => ⟨_, first, ?_⟩, fun _ => mem_times⟩
  · exact absurd unseen (holds.shown.watched sees).2
  · exact fun blind => by cases first.symm.trans blind
  · cases gone
  · exact ⟨le_refl _, fun s rest part => absurd part (by simp), .inl rfl⟩

/-- The first call after the handle is taken ends the watch. -/
theorem doClose_keepsProgress
    : doClose.Leads rule (fun _ _ => True) ProgressInv (fun _ => ProgressInv) ProgressInv := by
  apply doClose_leads Timeless fun _ v => v.mem.wallet = none ∧ Throughout Event.JudgedRightly v.history
  · exact fun _ _ _ _ => trivial
  · exact fun _ _ _ _ => trivial
  · exact fun _ _ _ => trivial
  · exact keepsProgress_timeless
  · exact keepsWallet_timeless
  · exact fun v o w holds _ => ⟨rfl, holds.judged⟩
  intro w v ⟨closed, judged⟩
  refine heeds_trivial.mpr (wp_bind.mpr (Worker.wp_lib.mpr ?_))
  have gone {answer : Except Exn Bool}
      : ProgressInv (v.push (.asked (.lib (.store w "")) answer v.mem)) := by
    refine ⟨throughout_cons.mpr ⟨fun s sees => (nomatch sees), judged⟩, fun isOpen => ?_,
      fun _ => ?_, fun isOpen => absurd closed isOpen, fun isOpen => absurd closed isOpen⟩
    · exact absurd closed isOpen
    · exact if_pos closed
  refine ⟨fun _ _ => ?_, fun _ _ => gone⟩
  refine keepsProgress_timeless.stays (.bind .lib fun _ => ?_) _ gone
  exact .bind (.update fun _ => ⟨rfl, rfl, rfl⟩) fun _ => .bind .notifyOpen fun _ =>
    .bind .setState fun _ => .value

theorem recordMove_keepsProgress {node : Json} {error : String}
    : (recordMove node error).Keeps SteadyClock ProgressInv := by
  intro v holds
  simp only [recordMove, bind_def, wp_bind, Worker.wp_now, Worker.wp_update]
  intro now steady o
  refine keepsProgress_timeless.stays .setState _ ?_
  refine ProgressInv.looked holds steady ?_ (fun g tracks past => ?_) (.inl ?_)
  · rfl
  · exact tracks.redated past rfl rfl
  · rfl

theorem moveToTor_keepsProgress {abandon : Bool} {resolved : Option Json}
    : (moveToTor abandon resolved).Keeps SteadyClock ProgressInv := by
  have calm {α : Type} {p : Worker α} (stays : p.Stays Timeless)
      : p.Keeps SteadyClock ProgressInv :=
    keepsProgress_timeless.stays stays
  have moves (node : Json) (from_ : Route)
      : (moveWith abandon node from_).Keeps SteadyClock ProgressInv := by
    intro v holds
    simp only [moveWith, wp_ite]
    refine ⟨fun _ => holds, fun _ => ?_⟩
    refine (calm goOffline_stays).bind (fun stopped v₁ kept => ?_) v holds
    rw [wp_ite]
    refine ⟨fun _ => kept, fun _ => ?_⟩
    refine (calm dialTor_stays).bind (fun dialled v₂ kept' => ?_) v₁ kept
    cases dialled with
    | none => exact kept'
    | some error => exact recordMove_keepsProgress v₂ kept'
  refine (calm .read).bind fun m => ?_
  cases resolved with
  | some node => exact moves node m.route
  | none => exact (calm .resolve).bind fun node => moves node m.route

theorem followRoute_keepsProgress {synced : Bool} {now : Nat} {m : Mem}
    : (followRoute synced now m).Keeps SteadyClock ProgressInv := by
  intro v holds
  simp only [followRoute, wp_ite]
  refine ⟨fun _ => moveToTor_keepsProgress v holds, fun _ => ⟨fun _ => ?_, fun _ => holds⟩⟩
  refine Worker.Keeps.bind (keepsProgress_timeless.stays .resolve) (fun node v₁ kept => ?_)
    v holds
  rw [wp_when]
  exact ⟨fun _ => moveToTor_keepsProgress v₁ kept, fun _ => kept⟩

/-- The tick's own section counts what it saw. -/
theorem tick_keepsProgress : tick.Keeps SteadyClock ProgressInv := by
  refine Worker.Keeps.bind (keepsProgress_timeless.stays resetLocksOnce_stays) fun _ v holds => ?_
  simp only [observeWallet, bind_def, wp_bind, Worker.wp_locked, Worker.wp_read]
  intro others
  cases isOpen : (v.mem.under others).wallet with
  | none => exact holds
  | some w =>
      simp only [wp_bind, Worker.wp_lib]
      have asked {v : View} {c : Call} {answer : c.Answer} (holds : ProgressInv v)
          (timeless : c ≠ .now)
          : ProgressInv (v.push (.asked c answer v.mem)) :=
        holds.ask timeless
      refine ⟨fun synced _ => ⟨fun height _ => ?_, fun _ _ => asked (asked holds (by simp)) (by simp)⟩,
        fun _ _ => asked holds (by simp)⟩
      have kept : ProgressInv ((v.push (.asked (.lib (.synchronized w)) (.ok synced) v.mem)).push
          (.asked (.lib (.blockChainHeight w)) (.ok height) v.mem)) :=
        asked (asked holds (by simp)) (by simp)
      simp only [pure_def, wp_pure, wp_bind, Worker.wp_now, Worker.wp_update]
      intro now steady o
      have wallet (m : Mem) : (ticked height now m).wallet = m.wallet :=
        congrArg Session.wallet (ticked_session m).1
      have progress (m : Mem)
          : (ticked height now m).progressAt = (progressed height now m).progressAt
            ∧ (ticked height now m).progressHeight = (progressed height now m).progressHeight := by
        unfold ticked
        dsimp only
        split <;> exact ⟨rfl, rfl⟩
      have here : sighting? (.asked .now now v.mem :: .asked (.lib (.blockChainHeight w)) (.ok height) v.mem
          :: .asked (.lib (.synchronized w)) (.ok synced) v.mem :: v.history)
          = some { synced, height, time := now, members := v.mem } :=
        if_pos ⟨isOpen, isOpen⟩
      have counted : ProgressInv (View.at (ticked height now (v.mem.under o))
          (.asked .now now v.mem :: .asked (.lib (.blockChainHeight w)) (.ok height) v.mem
            :: .asked (.lib (.synchronized w)) (.ok synced) v.mem :: v.history)) := by
        refine ProgressInv.looked kept steady (wallet _) (fun g tracks past => ?_) ?_
        · have counted : Tracks { g with sightings := (now, height) :: g.sightings }
              (progressed height now (v.mem.under o)) :=
            Tracks.next ⟨tracks.opened, tracks.records, tracks.height⟩ past
          have seen : sighting? _ = _ := here
          simp only [View.push_history, View.push_mem, seen, Watch.seen]
          exact ⟨by rw [(progress _).1]; exact counted.opened,
            by rw [(progress _).1]; exact counted.records,
            by rw [(progress _).2]; exact counted.height⟩
        · rw [(progress _).1]
          unfold progressed
          split
          · exact .inl rfl
          · exact .inr rfl
      refine wp_mono (followRoute_keepsProgress _ counted) (fun _ v₂ followed => ?_)
        (fun _ _ left => left)
      exact keepsProgress_timeless.stays followSync_stays v₂ followed

-----------------------------------------------------------------------------------------
-- Every run
-----------------------------------------------------------------------------------------

theorem keepsProgress : SectionKeeps SteadyClock Timeless (fun _ _ => True) ProgressInv where
  moment _ _ _ _ := trivial
  calm := keepsProgress_timeless
  holds := keepsWallet_timeless
  outside op timeless := by cases op <;> trivial
  finishes _ := rfl
  begins v ptr job holds :=
    ⟨throughout_cons.mpr ⟨fun _ sees => (nomatch sees), holds.judged⟩, trivial, holds.closed,
      holds.tracks, holds.dated⟩
  settles v ptr out state holds :=
    ⟨throughout_cons.mpr ⟨fun _ sees => (nomatch sees), holds.judged⟩, trivial, holds.closed,
      holds.tracks, holds.dated⟩
  resets := (keepsProgress_timeless.stays resetLocksOnce_stays).leads
  publishes o plan path addr w _ _ v both :=
    heeds_trivial.mpr (publishWallet_keepsProgress both.1 both.2.none)
  closes := doClose_keepsProgress
  ticks := tick_keepsProgress.leads

/-- The clock shows a while more than it last did, and the wallet is behind at the given
heights, one for each look at the clock since the first. -/
def Script.behindAt (heights : List UInt64) (node : Json) : Script := fun h c =>
  match c with
  | .now => ((times h).max?.getD 0 + 50 * 10 ^ 9 : Nat)
  | .lib (.synchronized _) => .ok false
  | .lib (.blockChainHeight _) => .ok (heights.getD ((times h).length - 1) 0)
  | c => Script.succeeding true 2 node h c

theorem Script.behindAt_steady {heights : List UInt64} {node : Json}
    : (Script.behindAt heights node).Follows SteadyClock := by
  intro h c m
  cases c with
  | now =>
      intro earlier seen
      have most : earlier ≤ (times h).max?.getD 0 := List.le_max?_getD_of_mem seen
      exact most.trans (Nat.le_add_right _ _)
  | lib c => trivial
  | _ => trivial

/-- At every tick that judges the catch-up node stuck, the wallet is behind and both the session
and its last rise are older than the limit, exactly when every recent rise passed all heights
seen before it. -/
theorem givenUpLate_iff_recentRisesNew {hasNotify : Bool} {t : System} {e : Event}
    {older : History} {s : Sighting} (reach : Reachable SteadyClock hasNotify t)
    (part : e :: older <:+ t.state.history) (sees : sighting? (e :: older) = some s)
    (stuck : s.stuck = true)
    : ∃ g, watch (e :: older) = some g ∧ (GivenUpLate s g ↔ RecentRisesNew s g) := by
  have init : ProgressInv (World.start hasNotify).view :=
    ⟨throughout_nil, trivial, fun _ => rfl, fun isOpen => absurd rfl isOpen,
      fun isOpen => absurd rfl isOpen⟩
  obtain ⟨w, ended, later⟩ := reach.completed (@Script.behindAt_steady [] .null)
  exact (keepsProgress.reachable init ended rfl).judged e older (part.trans later) s sees stuck

/-- A session on a catch-up node that shows the given heights, with a rescan after the first. -/
def World.watched (heights : List UInt64) : World :=
  let job := .obj [("name", .str "w"), ("network", .str "stagenet")]
  let script := Script.behindAt heights identifyingNode
  let first := ((World.withJob "open_wallet" job).afterTurn script).afterTurn script
  let rescanned := (first.afterClient (.startJob "rescan" (.obj []) "receipt'")).afterTurn script
  (rescanned.afterTurn script).afterTurn script

theorem Reachable.watched (heights : List UInt64)
    : Reachable SteadyClock true ⟨.pure (), World.watched heights⟩ :=
  (((((Reachable.withJob _ _).afterTurn Script.behindAt_steady).afterTurn
    Script.behindAt_steady).afterClient _).afterTurn Script.behindAt_steady).afterTurn
      Script.behindAt_steady |>.afterTurn Script.behindAt_steady

/-- The last tick of a watched session. -/
theorem sighting?_last {w : World} {s : Sighting} (sees : sighting? (w.history.drop 14) = some s)
    : ∃ e older, w.history.drop 14 = e :: older ∧ e :: older <:+ w.history := by
  have part := List.drop_suffix 14 w.history
  cases drops : w.history.drop 14 with
  | nil =>
      rw [drops] at sees
      cases sees
  | cons e older =>
      rw [drops] at part
      exact ⟨e, older, rfl, part⟩

/-- A height that stands still. -/
theorem givenUpLate_iff_recentRisesNew_still
    : ∃ e older s, e :: older <:+ (World.watched [100, 100, 100]).history
      ∧ sighting? (e :: older) = some s
      ∧ ∃ g, watch (e :: older) = some g ∧ (GivenUpLate s g ↔ RecentRisesNew s g) := by
  have judged : (sighting? ((World.watched [100, 100, 100]).history.drop 14)).map Sighting.stuck
      = some true := by decide +kernel
  obtain ⟨s, sees, stuck⟩ := Option.map_eq_some_iff.mp judged
  obtain ⟨e, older, drops, part⟩ := sighting?_last sees
  rw [drops] at sees
  exact ⟨e, older, s, part, sees,
    givenUpLate_iff_recentRisesNew (Reachable.watched [100, 100, 100]) part sees stuck⟩

/-- A height that fell in a rescan, and has risen since the last tick. -/
theorem rising_height_given_up
    : Reachable SteadyClock true ⟨.pure (), World.watched [100, 10, 20]⟩
      ∧ ∃ e older s g, e :: older <:+ (World.watched [100, 10, 20]).history
        ∧ sighting? (e :: older) = some s ∧ s.stuck = true ∧ watch (e :: older) = some g
        ∧ ¬GivenUpLate s g := by
  refine ⟨Reachable.watched _, ?_⟩
  have judged : (sighting? ((World.watched [100, 10, 20]).history.drop 14)).map
      (fun s => (s.stuck, s.time)) = some (true, 200 * 10 ^ 9) := by decide +kernel
  have watched : (watch ((World.watched [100, 10, 20]).history.drop 14)).map Watch.sightings
      = some [(200 * 10 ^ 9, 20), (150 * 10 ^ 9, 10), (100 * 10 ^ 9, 100)] := by decide +kernel
  obtain ⟨s, sees, seen⟩ := Option.map_eq_some_iff.mp judged
  obtain ⟨g, watches, sightings⟩ := Option.map_eq_some_iff.mp watched
  obtain ⟨e, older, drops, part⟩ := sighting?_last sees
  rw [drops] at sees watches
  refine ⟨e, older, s, g, part, sees, congrArg Prod.fst seen, watches, fun late => ?_⟩
  have rises := late.still (200 * 10 ^ 9, 20) (150 * 10 ^ 9, 10) [(100 * 10 ^ 9, 100)]
    (by rw [sightings]) (by decide)
  have now : s.time = 200 * 10 ^ 9 := congrArg Prod.snd seen
  simp [now, kCatchUpGiveUp] at rises

end MoneroWalletCore.Runtime
