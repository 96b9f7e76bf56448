import MoneroWalletCore.Clients.Schedules
import MoneroWalletCore.Clients.Sessions

/-! Whose reading `status()` shows. A round of the probe holds the handle from its look at the
wallet to its section, and what it has written is reset before the name of another wallet is
written.
-/

namespace MoneroWalletCore.Runtime

variable {Λ : Type} {library : Library Λ} {hasNotify : Bool} {l : Λ} {t : Module Λ}

def anyAnswers : Answers Unit := fun _ _ c => some (.ok c.plain, ())

/-- An open wallet, and a round of the probe. -/
def Module.probed : Module Unit :=
  (Module.opened anyAnswers () "w").play Module.goodScript anyAnswers Module.probing

end MoneroWalletCore.Runtime
