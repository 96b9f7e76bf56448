import MoneroWalletCore.Clients.Probing
import MoneroWalletCore.Clients.Sessions
import MoneroWalletCore.Clients.Sights

/-! Of which session an answer of `status()` is. Its fields are read in two places: those of the
members in a section, and then those of the wallet that is open by the time the handle is held.
-/

namespace MoneroWalletCore.Runtime

open Program

variable {Λ : Type} {library : Library Λ}

/-! ### A call by itself -/

/-- The note of a section that read the members. -/
def Note.section (m : Mem) (opened : Option Opened) : Note := { op := .members, answer := m, opened }

/-- The note of a look at the handle. -/
def Note.look (found : Option Wallet) (opened : Option Opened) : Note :=
  { op := .handle, answer := found, opened }

/-- The note of a read of the wallet. -/
def Note.read (c : Lib) (ret : c.Ret) (opened : Option Opened) : Note :=
  { op := .query (.lib c), answer := .ok ret, opened }

/-- Whether a note is of a query. -/
def Note.asks (note : Note) : Bool :=
  match note.op with
  | .query _ => true
  | _ => false

/-- A look at the handle after a section: the section saw a name if and only if a wallet was
open, and what is open is as it was then, in the same session. -/
def Unmoved (m : Mem) (opened : Option Opened) (found : Option Wallet) (opened' : Option Opened)
    : Prop :=
  (m.wallet = none ↔ m.walletName = "") ∧ found = m.wallet ∧ (m.wallet ≠ none → opened' = opened)

variable {rule : Surroundings} {hasNotify : Bool} {l : Λ} {t t' : Module Λ}

namespace Module

/-- A call of `status()` looks at the handle only where nothing has moved since its section. -/
def steady (rule : Surroundings) (library : Library Λ)
    : Pool.Rules Actor Actor.Op Actor.Ans (fun _ => Exn) Actor.Out (Shared Λ) :=
  { rules rule library with
    may := fun t i op =>
      match i, op with
      | .call n, .handle =>
          t.state.requests n = some .status →
            ∀ m opened, Note.section m opened ∈ t.state.notes (.call n) →
              Unmoved m opened t.state.world.mem.wallet t.state.opened
      | _, _ => True }

end Module

end MoneroWalletCore.Runtime
