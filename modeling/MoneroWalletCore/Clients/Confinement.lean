import MoneroWalletCore.Clients.KeyMaterial
import MoneroWalletCore.Clients.Scopes
import MoneroWalletCore.Foundation.Endings

/-! Where files are named. A job may ask for a wallet by any text, but every path that the module
hands out names something directly inside the host's directory.
-/

namespace MoneroWalletCore.Runtime

open Program

variable {Λ : Type} {α β : Type}

/-! ### Paths -/

/-- A path to an entry of a directory: it neither leaves it nor goes further down. -/
def InDir (dir path : String) : Prop :=
  ∃ entry, path = pathIn dir entry ∧ '/' ∉ entry.toList ∧ entry ≠ ".."

/-- What a wallet may be called, or nothing. -/
def Fit (name : String) : Prop := '/' ∉ name.toList ∧ occurs ".." name = false

/-- What comes after the name of a file. -/
def suffixes : List String := ["", ".keys", ".address.txt"]

theorem occurs_of_prefix {needle s : String} (first : needle.toList <+: s.toList)
    : occurs needle s = true := decide_eq_true first.isInfix

theorem fit_of_badName {name : String} (good : badName name = false) : Fit name := by
  simp only [badName, Bool.or_eq_false_iff] at good
  refine ⟨fun slash => ?_, good.2⟩
  obtain ⟨before, after, split⟩ := List.append_of_mem slash
  have found : occurs "/" name = true := decide_eq_true ⟨before, after, by simp [split]⟩
  exact absurd good.1.2 (by simp [found])

theorem fit_empty : Fit "" := ⟨by simp, by decide⟩

theorem pathIn_append {dir name suffix : String}
    : pathIn dir name ++ suffix = pathIn dir (name ++ suffix) := by
  unfold pathIn
  split <;> simp only [String.append_assoc]

/-- The library sees the directory whole. -/
theorem cstr_pathIn {dir entry : String} (whole : '\x00' ∉ dir.toList)
    : cstr (pathIn dir entry) = pathIn dir (cstr entry) := by
  have passes (c : Char) (inside : c ∈ dir.toList) : (c != '\x00') = true := by
    rw [bne_iff_ne]
    rintro rfl
    exact whole inside
  have front (text : List Char)
      : (dir.toList ++ text).takeWhile (· != '\x00') = dir.toList ++ text.takeWhile (· != '\x00') :=
    List.takeWhile_append_of_pos passes
  unfold cstr pathIn
  split
  · simp only [String.toList_append, front, String.ofList_append, String.ofList_toList]
  · simp [String.toList_append, front, String.ofList_append, String.append_assoc]

/-- A file of a wallet is not the directory above, wherever its text is cut off. -/
theorem not_dots {name suffix : String} (fit : Fit name) (known : suffix ∈ suffixes)
    : (name ++ suffix).toList ≠ ['.', '.']
      ∧ (name ++ suffix).toList.takeWhile (· != '\x00') ≠ ['.', '.'] := by
  rw [String.toList_append]
  cases chars : name.toList with
  | nil =>
      simp only [suffixes, List.mem_cons, List.not_mem_nil, or_false] at known
      rcases known with rfl | rfl | rfl <;> decide
  | cons c rest =>
      cases rest with
      | nil =>
          simp only [suffixes, List.mem_cons, List.not_mem_nil, or_false] at known
          rcases known with rfl | rfl | rfl <;> by_cases cut : c = '\x00' <;> simp [cut]
      | cons d rest =>
          have clear : ¬(c = '.' ∧ d = '.') := by
            rintro ⟨rfl, rfl⟩
            have found : occurs ".." name = true := occurs_of_prefix ⟨rest, chars ▸ rfl⟩
            exact absurd found (by simp [fit.2])
          refine ⟨fun same => ?_, fun same => ?_⟩
          · simp_all
          · by_cases first : c = '\x00' <;> by_cases second : d = '\x00' <;> simp_all

theorem slashless {name suffix : String} (fit : Fit name) (known : suffix ∈ suffixes)
    : '/' ∉ (name ++ suffix).toList := by
  rw [String.toList_append, List.mem_append, not_or]
  refine ⟨fit.1, ?_⟩
  simp only [suffixes, List.mem_cons, List.not_mem_nil, or_false] at known
  rcases known with rfl | rfl | rfl <;> decide

/-- The files of a wallet are in the directory, also by the part of a path that the library
sees. -/
theorem inDir_of_fit {dir name suffix : String} (whole : '\x00' ∉ dir.toList) (fit : Fit name)
    (known : suffix ∈ suffixes)
    : InDir dir (pathIn dir name ++ suffix) ∧ InDir dir (cstr (pathIn dir name ++ suffix)) := by
  obtain ⟨whole_, cut⟩ := not_dots fit known
  refine ⟨⟨name ++ suffix, pathIn_append, slashless fit known, ?_⟩,
    cstr (name ++ suffix), ?_, ?_, ?_⟩
  · rintro same
    exact whole_ (by rw [same]; rfl)
  · rw [pathIn_append, cstr_pathIn whole]
  · intro slash
    rw [cstr, String.toList_ofList] at slash
    exact slashless fit known (List.takeWhile_subset _ slash)
  · intro same
    have chars := congrArg String.toList same
    rw [cstr, String.toList_ofList] at chars
    exact cut chars

/-- So is the wallet's own file. -/
theorem inDir_of_name {dir name : String} (whole : '\x00' ∉ dir.toList) (fit : Fit name)
    : InDir dir (pathIn dir name) ∧ InDir dir (cstr (pathIn dir name)) := by
  have known : "" ∈ suffixes := by simp [suffixes]
  simpa using inDir_of_fit whole fit known

/-! ### The worker -/

/-- The files that a call names. -/
def Call.paths : Call → List String
  | .lib c | .destructor c => c.paths
  | .fileExists path | .restrictPermissions path => [path]
  | _ => []

/-- An action that names files of the directory alone, and leaves a wallet called as it may be. -/
def Op.Confined (dir : String) : Op → Prop
  | .update f => ∀ m : Mem, Fit m.walletName → Fit (f m).walletName
  | .ask c => ∀ path ∈ c.paths, InDir dir path
  | .dequeue => False
  | _ => True

/-- What the worker knows of the directory: whether it is set. A job tells that it is. -/
def Op.knows (dir : String) : Semantics Op Op.Ans Bool := fun known op answer known' =>
  match op, answer with
  | .update _, found =>
      known' = known ∧ Fit found.walletName ∧ (known = true → found.walletsDir = dir)
  | .dequeue, front => known' = (known || front.isSome)
  | _, _ => known' = known

variable {dir : String}

/-- A call that names no file. -/
theorem unnamed_confined {c : Call} (unnamed : c.paths = []) : Op.Confined dir (.ask c) := by
  intro path named
  rw [unnamed] at named
  cases named

instance : Assigning (Op.Confined dir) where
  reports :=
    {
      reads := fun _ => id
      resets := fun _ => id
      notifies := fun _ _ => unnamed_confined rfl
      tells := fun _ => unnamed_confined rfl
    }
  libs _ unnamed := unnamed_confined unnamed
  resumes _ := unnamed_confined rfl
  resolves _ := unnamed_confined rfl
  times := unnamed_confined rfl
  sleeps _ := unnamed_confined rfl
  sockets _ _ := unnamed_confined rfl
  registers _ _ := id
  drops _ _ := id
  ticks _ _ m fit := (ticked_named m).2.1 ▸ fit
  labels _ _ _ := id
  states _ := unnamed_confined rfl
  publishes _ _ := id
  describes _ _ _ _ good _ _ := fit_of_badName good
  takes _ := id
  forgets _ _ := fit_empty
  moves _ _ _ _ := id

namespace Worker

/-- A body that names files of the directory alone, if it is set where it is known to be. -/
def Keeping (dir : String) (known : Bool) (p : Worker α) : Prop :=
  p.Heeds (Op.knows dir) (fun _ op => op.Confined dir ∨ op = .dequeue) (fun _ now => now = known)
    (fun _ now => now = known) known

variable {known : Bool}

theorem Stays.keeping {p : Worker α} (stays : p.Stays (Op.Confined dir)) : p.Keeping dir known := by
  have kept (now : Bool) (op : Op) (answer : op.Ans) (now' : Bool) (confined : op.Confined dir)
      (step : Op.knows dir now op answer now') (same : now = known)
      : now' = known := by
    cases op with
    | update f => exact step.1.trans same
    | dequeue => exact confined.elim
    | _ => exact Eq.trans step same
  exact (Within.heeds stays (fun _ _ confined _ => .inl confined) kept rfl).mono
    (fun _ _ both => both.2) fun _ _ both => both.2

namespace Keeping

theorem bind {p : Worker α} {next : α → Worker β} (first : p.Keeping dir known)
    (rest : ∀ value, (next value).Keeping dir known)
    : Worker.Keeping dir known (p.bind next) := by
  refine heeds_bind.mpr (first.mono (fun value now same => ?_) fun _ _ same => same)
  subst same
  exact rest value

theorem guarded {p : Worker α} {handler : Exn → Worker α} (block : p.Keeping dir known)
    (handles : ∀ error, (handler error).Keeping dir known)
    : Worker.Keeping dir known (p.tryCatch handler) := by
  refine heeds_tryCatch.mpr (block.mono (fun _ _ same => same) fun error now same => ?_)
  subst same
  exact handles error

theorem ensure {p : Worker α} {final : Worker Unit} (block : p.Keeping dir known)
    (destructor : final.Keeping dir known)
    : Worker.Keeping dir known (p.ensure final) := by
  refine heeds_ensure.mpr (block.mono ?_ ?_)
  · rintro _ now rfl
    exact destructor.mono (fun _ _ same => same) fun _ _ same => same
  · rintro _ now rfl
    exact destructor.mono (fun _ _ same => same) fun _ _ same => same

theorem locked {mode : LockMode} {body : Worker α} (keeping : body.Keeping dir known)
    : (Worker.locked mode body).Keeping dir known := by
  have gives : (Worker.unlock mode).Stays (Op.Confined dir) := ⟨trivial, fun _ => trivial⟩
  refine ⟨.inl trivial, fun _ now same => ?_⟩
  subst same
  exact keeping.ensure gives.keeping

theorem read {next : Mem → Worker β}
    (rest : ∀ m, Fit m.walletName ∧ (known = true → m.walletsDir = dir) →
      (next m).Keeping dir known)
    : Worker.Keeping dir known (Worker.read.bind next) := by
  refine ⟨.inl fun _ => id, fun m now told => ?_⟩
  obtain ⟨rfl, known⟩ := told
  exact rest m known

end Keeping

end Worker

open Worker

section Whole

variable (whole : '\x00' ∉ dir.toList)

include whole

theorem verifyPassword_keeping {password : String} : (verifyPassword password).Keeping dir true := by
  refine .read fun m told => Stays.keeping (.call fun path named => ?_)
  obtain rfl := List.mem_singleton.mp named
  rw [told.2 rfl]
  exact (inDir_of_fit whole told.1 (by simp [suffixes])).2

theorem doChangePassword_keeping {p : Json} : (doChangePassword p).Keeping dir true := by
  refine .locked (.read fun m _ => ?_)
  cases m.wallet with
  | none => exact Stays.value.keeping
  | some w =>
      have resumes : (Worker.resumeRefresh w).Stays (Op.Confined dir) :=
        ⟨unnamed_confined rfl, fun _ => trivial⟩
      have rest {password : String} : Worker.Stays (Op.Confined dir) (do
          let new ← Worker.orThrow (p.valueString password "")
          let ok ← Worker.lib (.setPassword w (cstr new))
          if ok then do
            let _ ← Worker.lib (.store w "")
            Pure.pure (okWith (.obj []))
          else do
            let e ← Worker.lib (.errorString w)
            Pure.pure (err e)) :=
        .bind .orThrow fun _ => .bind (lib_inside rfl) fun _ =>
          .ite (.bind (lib_inside rfl) fun _ => .value) (.bind (lib_inside rfl) fun _ => .value)
      refine Keeping.bind (lib_inside rfl).keeping fun _ => .ensure ?_ resumes.keeping
      refine Keeping.bind Stays.orThrow.keeping fun old =>
        .bind (verifyPassword_keeping whole) fun right => ?_
      split
      · exact Stays.value.keeping
      · exact rest.keeping

omit whole in
theorem composes_keeping (known : Bool)
    : Composes (Op.Confined dir) (fun _ p => p.Keeping dir known) where
  stays := Stays.keeping
  scope scope := by
    obtain ⟨mode, body, rfl, stays⟩ := scope
    exact .locked stays.keeping
  bind := Keeping.bind
  guarded := Keeping.guarded

/-- A job's name is good where it is made a path. -/
theorem names_confined {m : Mem} {name : String} (inDir : m.walletsDir = dir)
    (good : badName name = false)
    : FilesInside (Op.Confined dir) (pathIn m.walletsDir name) := by
  have fit := fit_of_badName good
  rw [inDir]
  refine ⟨fun c named path member => ?_, fun f member => ?_⟩
  · rw [Call.paths, named] at member
    exact List.mem_singleton.mp member ▸ (inDir_of_name whole fit).2
  · have inside : InDir dir f := by
      simp only [List.mem_cons, List.not_mem_nil, or_false] at member
      rcases member with rfl | rfl | rfl
      · exact (inDir_of_name whole fit).1
      · exact (inDir_of_fit whole fit (by simp [suffixes])).1
      · exact (inDir_of_fit whole fit (by simp [suffixes])).1
    exact ⟨fun path named => List.mem_singleton.mp named ▸ inside,
      fun path named => List.mem_singleton.mp named ▸ inside⟩

theorem turn_confined
    : turn.Heeds (Op.knows dir) (fun _ op => op.Confined dir ∨ op = .dequeue) (fun _ _ => True)
        (fun _ _ => True) false := by
  have composes : ComposesNamed (Op.Confined dir)
      (fun m => Fit m.walletName ∧ (true = true → m.walletsDir = dir))
      (fun _ p => p.Keeping dir true) :=
    {
      composes_keeping true with
      reads := Keeping.read
      names := fun m name told good => names_confined whole (told.2 rfl) good
    }
  refine ⟨.inr rfl, fun front now same => heeds_tryCatch.mpr ?_⟩
  cases same
  cases front with
  | none =>
      exact Heeds.mono (composes_keeping false).tick (fun _ _ _ => trivial)
        fun _ _ _ => trivial
  | some front =>
      have changes (p : Json) : (doChangePassword p).Keeping dir true :=
        doChangePassword_keeping whole
      exact Heeds.mono (composes.run changes fun _ _ => trivial) (fun _ _ _ => trivial)
        fun _ _ _ => trivial

/-! ### Direct calls and the probe -/

/-- An action that names files of the directory alone. -/
def ReadOp.Confined (dir : String) : ReadOp → Prop
  | .query c => ∀ path ∈ c.paths, InDir dir path
  | _ => True

/-- What another thread knows of the directory. A wallet in place tells that it is set. -/
def ReadOp.knows (dir : String) : Semantics ReadOp ReadOp.Ans Bool := fun known op answer known' =>
  match op, answer with
  | .handle, found => known' = (known || found.isSome)
  | .members, found =>
      known' = known ∧ Fit found.walletName ∧ (known = true → found.walletsDir = dir)
  | _, _ => known' = known

namespace Reader

/-- A body that names files of the directory alone, whatever is known at its begin. -/
def Keeping (dir : String) (p : Reader α) : Prop :=
  ∀ known, p.Heeds (ReadOp.knows dir) (fun _ op => op.Confined dir) (fun _ _ => True)
    (fun _ _ => True) known

omit whole

theorem Calls.keeping {p : Reader α} (calls : p.Calls (ReadOp.Confined dir)) : p.Keeping dir := by
  intro known
  have heeds : p.Heeds (ReadOp.knows dir) (fun _ op => op.Confined dir)
      (fun _ _ => True ∧ True) (fun _ _ => True ∧ True) known :=
    Within.heeds calls (fun _ _ confined _ => confined) (fun _ _ _ _ _ _ _ => trivial) trivial
  exact heeds.mono (fun _ _ _ => trivial) fun _ _ _ => trivial

theorem Keeping.bind {p : Reader α} {next : α → Reader β} (first : p.Keeping dir)
    (rest : ∀ value, (next value).Keeping dir)
    : Reader.Keeping dir (p.bind next) :=
  fun known => heeds_bind.mpr ((first known).mono (fun value now _ => rest value now)
    fun _ _ _ => trivial)

theorem Keeping.ensure {mode : LockMode} {p : Reader α} (block : p.Keeping dir)
    : Reader.Keeping dir (p.ensure (unlock mode)) := by
  have gives (now : Bool) : (unlock mode).Heeds (ReadOp.knows dir) (fun _ op => op.Confined dir)
      (fun _ _ => True) (fun _ _ => True) now := ⟨trivial, fun _ _ _ => trivial⟩
  exact fun known => heeds_ensure.mpr ((block known).mono (fun _ now _ => gives now)
    fun _ now _ => gives now)

theorem Keeping.locked {mode : LockMode} {body : Reader α} (block : body.Keeping dir)
    : (Reader.locked mode body).Keeping dir :=
  fun _ => ⟨trivial, fun _ now _ => block.ensure now⟩

theorem Keeping.inTime {late : α} {body : Reader α} (block : body.Keeping dir)
    : (lockedInTime late body).Keeping dir := by
  refine fun _ => ⟨trivial, fun got now _ => ?_⟩
  cases got with
  | false => trivial
  | true => exact block.ensure now

end Reader

omit whole in
instance : Visits (ReadOp.Confined dir) where
  members := trivial
  handle := trivial
  sockets _ _ := trivial
  records _ _ _ := trivial
  queries c unnamed path named := by
    rw [unnamed] at named
    cases named

open Reader

/-- The keys file is named only once a wallet has been found in place. -/
theorem reveal_keeping {password : String} {body : Wallet → Reader Json}
    (calls : ∀ w, (body w).Calls (ReadOp.Confined dir))
    : (reveal password body).Keeping dir := by
  refine Keeping.locked fun known => ⟨trivial, fun w? now told => ?_⟩
  cases w? with
  | none => trivial
  | some w =>
      obtain rfl : now = true := told.trans (Bool.or_true known)
      refine ⟨trivial, fun m now told => ?_⟩
      obtain ⟨rfl, fit, inDir⟩ := told
      have names : ReadOp.Confined dir (.query (.lib (.verifyWalletPassword
          (cstr (keysFile m.walletsDir m.walletName)) (cstr password) false 1))) := by
        intro path named
        obtain rfl := List.mem_singleton.mp named
        rw [inDir rfl]
        exact (inDir_of_fit whole fit (by simp [suffixes])).2
      refine heeds_bind.mpr (((calls_query names).keeping _).mono (fun right now _ => ?_)
        fun _ _ _ => trivial)
      split
      · trivial
      · exact (calls w).keeping now

theorem serves_keeping : Serves (ReadOp.Confined dir) (fun _ p => p.Keeping dir) where
  locked calls := .locked calls.keeping
  inTime calls := .inTime calls.keeping
  after rest := fun _ => ⟨trivial, fun m now _ => rest m now⟩
  guarded block handles := fun known => heeds_tryCatch.mpr ((block known).mono
    (fun _ _ _ => trivial) fun error now _ => handles error now)
  value _ := trivial
  reveals := reveal_keeping whole

end Whole

/-! ### The threads together -/

/-- The files that an action names. -/
def Op.paths : Op → List String
  | .ask c => c.paths
  | _ => []

def ReadOp.paths : ReadOp → List String
  | .query c => c.paths
  | _ => []

namespace Actor

def paths : ∀ i : Actor, i.Op → List String
  | .worker => Op.paths
  | .probe | .call _ => ReadOp.paths

def knows (dir : String) : ∀ i : Actor, Semantics i.Op i.Ans Bool
  | .worker => Op.knows dir
  | .probe | .call _ => ReadOp.knows dir

def Confines (dir : String) : ∀ i : Actor, i.Op → Prop
  | .worker => fun op => op.Confined dir ∨ op = .dequeue
  | .probe | .call _ => ReadOp.Confined dir

/-- A program that names files of the directory alone. -/
def KeepsTo (dir : String) (i : Actor) (known : Bool) (p : Program i.Op i.Ans Exn α) : Prop :=
  p.Heeds (i.knows dir) (fun _ op => i.Confines dir op) (fun _ _ => True) (fun _ _ => True) known

theorem Confines.paths {i : Actor} {op : i.Op} (confines : i.Confines dir op) {path : String}
    (named : path ∈ i.paths op)
    : InDir dir path := by
  cases i with
  | worker =>
      cases op with
      | ask c =>
          rcases confines with confined | impossible
          · exact confined path named
          · cases impossible
      | _ => cases named
  | probe =>
      cases op with
      | query c => exact confines path named
      | _ => cases named
  | call n =>
      cases op with
      | query c => exact confines path named
      | _ => cases named

end Actor

namespace Module

variable {rule : Surroundings} {library : Library Λ} {hasNotify : Bool} {l : Λ}
variable {t t' : Module Λ} {i : Actor}

/-- A job, or a wallet in place, is only where the directory is set. -/
theorem Housed.inDir (housed : Housed dir t)
    (busy : t.state.world.mem.wallet ≠ none ∨ t.state.world.tickets.queue ≠ [])
    : t.state.world.mem.walletsDir = dir := by
  rcases housed.set with unset | set
  · obtain ⟨closed, empty, _⟩ := housed.before unset
    exact absurd busy (by simp [closed, empty])
  · exact set

/-- What an action tells its thread, and that it leaves the directory and the name fit. -/
theorem act_knows {known : Bool} {op : i.Op} {next : i.Ans op → Program i.Op i.Ans Exn i.Out}
    {answer : i.Ans op} {s' : Shared Λ} (housed : Housed dir t)
    (fit : Fit t.state.world.mem.walletName) (confines : i.Confines dir op)
    (sound : known = true → t.state.world.mem.walletsDir = dir) (waits : t.rest i = .call op next)
    (acts : act rule library i t.state op answer s')
    : Fit s'.world.mem.walletName ∧ s'.world.mem.walletsDir = t.state.world.mem.walletsDir
      ∧ ∃ known', i.knows dir known op answer known'
          ∧ (known' = true → t.state.world.mem.walletsDir = dir) := by
  have reader {op : ReadOp} {answer : op.Ans} {i : Actor} (acts : t.state.read library i op answer s')
      : Fit s'.world.mem.walletName ∧ s'.world.mem.walletsDir = t.state.world.mem.walletsDir
        ∧ ∃ known', ReadOp.knows dir known op answer known'
            ∧ (known' = true → t.state.world.mem.walletsDir = dir) := by
    refine ⟨?_, ?_, ?_⟩
    · rcases Shared.read_cases acts with ⟨_, rfl⟩ | ⟨_, rfl⟩ | ⟨_, _, _, _, _, rfl⟩
        | ⟨_, _, _, _, rfl⟩ <;> exact fit
    · rcases Shared.read_cases acts with ⟨_, rfl⟩ | ⟨_, rfl⟩ | ⟨_, _, _, _, _, rfl⟩
        | ⟨_, _, _, _, rfl⟩ <;> rfl
    · cases op with
      | handle =>
          refine ⟨_, rfl, fun found => ?_⟩
          rcases Bool.or_eq_true _ _ ▸ found with before | isOpen
          · exact sound before
          · refine housed.inDir (.inl fun closed => ?_)
            rw [acts.1, closed] at isOpen
            cases isOpen
      | members =>
          obtain ⟨rfl, _⟩ := acts
          exact ⟨known, ⟨rfl, fit, sound⟩, sound⟩
      | _ => exact ⟨known, rfl, sound⟩
  cases i with
  | worker =>
      obtain ⟨world, lock, acted, _, rfl⟩ := acts
      have homely := housed.homely
      rw [waits] at homely
      cases op with
      | update f =>
          obtain ⟨rfl, rfl⟩ := acted
          have kept := confines.resolve_right (by simp)
          exact ⟨kept _ fit, (homely.1 t.state.world.mem).1, known, ⟨rfl, fit, sound⟩, sound⟩
      | dequeue =>
          obtain ⟨same, rfl⟩ := acted
          refine ⟨fit, rfl, _, rfl, fun found => ?_⟩
          rcases Bool.or_eq_true _ _ ▸ found with before | began
          · exact sound before
          · refine housed.inDir (.inr (Tickets.dequeue_filled (.inl fun none_ => ?_)))
            rw [same, none_] at began
            cases began
      | lock mode =>
          cases acted
          exact ⟨fit, rfl, known, rfl, sound⟩
      | unlock mode =>
          cases acted
          exact ⟨fit, rfl, known, rfl, sound⟩
      | settle ptr out =>
          obtain ⟨_, rfl⟩ := acted
          exact ⟨fit, rfl, known, rfl, sound⟩
      | ask c =>
          obtain ⟨_, rfl⟩ := acted
          exact ⟨fit, rfl, known, rfl, sound⟩
  | probe => exact reader acts
  | call n => exact reader acts

/-- The name is fit, and every thread names files of the directory alone from here on, by what it
knows of it. -/
structure Confined (dir : String) (t : Module Λ) : Prop where
  fit : Fit t.state.world.mem.walletName
  keeps : ∀ i : Actor, ∃ known, (known = true → t.state.world.mem.walletsDir = dir)
    ∧ i.KeepsTo dir known (t.rest i)

theorem Confined.step (whole : '\x00' ∉ dir.toList) (housed : Housed dir t) (confined : Confined dir t)
    (step : Pool.Step (Module.housed dir rule library) t t')
    : Confined dir t' := by
  cases step with
  | @call i op next answer s' waits may acts =>
      obtain ⟨known, sound, keeps⟩ := confined.keeps i
      unfold Actor.KeepsTo at keeps
      rw [waits] at keeps
      obtain ⟨fit, same, known', told, sound'⟩ :=
        act_knows housed confined.fit keeps.1 sound waits acts
      refine ⟨fit, fun j => ?_⟩
      by_cases here : j = i
      · subst here
        rw [Pool.resume_same, Pool.resume_state, same]
        exact ⟨known', sound', keeps.2 answer known' told⟩
      · rw [Pool.resume_other here, Pool.resume_state, same]
        exact confined.keeps j
  | @start i p s' starts =>
      have begins : s'.world = t.state.world ∧ i.KeepsTo dir false p := by
        cases i with
        | worker =>
            obtain ⟨_, rfl, rfl⟩ := starts
            exact ⟨rfl, turn_confined whole⟩
        | probe =>
            obtain ⟨_, rfl, rfl⟩ := starts
            exact ⟨rfl, (serves_keeping whole).probeRound false⟩
        | call n =>
            obtain ⟨_, request, rfl, rfl⟩ := starts
            exact ⟨rfl, (serves_keeping whole).body request false⟩
      refine ⟨begins.1 ▸ confined.fit, fun j => ?_⟩
      by_cases here : j = i
      · subst here
        rw [Pool.resume_same]
        exact ⟨false, by simp, begins.2⟩
      · rw [Pool.resume_other here, Pool.resume_state, begins.1]
        exact confined.keeps j
  | other stepped =>
      obtain ⟨⟨world, hosted, rfl⟩, sets⟩ := stepped
      have fit : Fit world.mem.walletName := by
        cases hosted <;> exact confined.fit
      refine ⟨fit, fun i => ?_⟩
      obtain ⟨known, sound, keeps⟩ := confined.keeps i
      refine ⟨known, fun now => ?_, keeps⟩
      rcases sets with same | ⟨_, set⟩
      · exact same.trans (sound now)
      · exact set

theorem confined_of_reach (whole : '\x00' ∉ dir.toList)
    (reach : Pool.Reach (housed dir rule library) (start hasNotify l) t)
    : Confined dir t := by
  induction reach with
  | refl =>
      refine ⟨fit_empty, fun i => ⟨false, by simp, ?_⟩⟩
      cases i <;> trivial
  | tail before step ih => exact ih.step whole (housed_of_reach before) step

/-- In every run in a directory, whatever the jobs ask for and whatever is answered or thrown,
every file that the library or the system is handed is an entry of that directory. -/
theorem files_stay_in_directory (whole : '\x00' ∉ dir.toList)
    (reach : Pool.Reach (housed dir rule library) (start hasNotify l) t) {op : i.Op}
    (waits : (t.rest i).head = some op)
    : ∀ path ∈ i.paths op, InDir dir path := by
  obtain ⟨known, _, keeps⟩ := (confined_of_reach whole reach).keeps i
  obtain ⟨next, rest⟩ := call_of_head waits
  unfold Actor.KeepsTo at keeps
  rw [rest] at keeps
  exact fun path named => keeps.1.paths named

/-- A wallet is about to be opened. -/
def naming : Module Unit :=
  (start true ()).play goodScript verifyingAnswers
    [
      .setWalletsDir,
      .client
        (.startJob "open_wallet" (.obj [("name", .str "w"), ("network", .str "stagenet")]) "receipt"),
      .begin .worker, .run .worker 21
    ]

theorem naming_reach
    : Pool.Reach (housed "/wallets" LibraryReturns verifyingLibrary) (start true ()) naming := by
  have follow : verifyingAnswers.Follow verifyingLibrary := fun _ _ _ _ replied => replied
  have plays : Plays (housed "/wallets" LibraryReturns verifyingLibrary) goodScript
      verifyingAnswers :=
    {
      act := oracle_act Script.succeeding_returns follow
      starts := rfl
      clients := fun s call => ⟨⟨_, .client s.world call, rfl⟩, .inl rfl⟩
      sets := fun s unset => ⟨⟨_, .setWalletsDir s.world "/wallets", rfl⟩, .inr ⟨unset, rfl⟩⟩
      may := fun _ _ _ => trivial
    }
  exact plays.reach .refl _

theorem files_stay_in_directory_naming : InDir "/wallets" "/wallets/w" := by
  have waits : (naming.rest .worker).head = some (.ask (.lib (.openWallet "/wallets/w" "" 2))) := rfl
  exact files_stay_in_directory (by decide) naming_reach waits "/wallets/w" List.mem_cons_self

end Module

end MoneroWalletCore.Runtime
