namespace DesignCompiler.Assets

abbrev Ledger := List (String × String)

namespace Ledger

/-- Claims keys of a kind; the fresh ones are those that were not claimed before. -/
def claim (kind : String) : (keys : List String) → Ledger → List String × Ledger
  | [], ledger => ([], ledger)
  | key :: keys, ledger =>
    if (kind, key) ∈ ledger then claim kind keys ledger
    else
      let (fresh, ledger) := claim kind keys (ledger ++ [(kind, key)])
      (key :: fresh, ledger)

theorem claim_snd (kind : String) (keys : List String) (ledger : Ledger) :
    (claim kind keys ledger).2 = ledger ++ (claim kind keys ledger).1.map (kind, ·) := by
  induction keys generalizing ledger with
  | nil => simp [claim]
  | cons key keys ih =>
    simp only [claim]
    split
    · exact ih ledger
    · simp [ih]

end Ledger

end DesignCompiler.Assets
