/-!
# Reports

Whatever can go wrong has a stable code, a message for people, and a mark that says whether trying
again may succeed. A report puts the three together.
-/

namespace MagicCircle

class Reportable (ε : Type) where
  /-- The stable name of the failure. -/
  code : ε → String
  message : ε → String
  /-- Whether the same request may succeed later. -/
  retryable : ε → Bool := fun _ => false

/-- The report of a failure: `error [CODE]: message`, with ` (retryable)` after the code when trying
again may succeed. -/
def report {ε : Type} [Reportable ε] (e : ε) : String :=
  "error [" ++ Reportable.code e ++ "]" ++ (if Reportable.retryable e then " (retryable)" else "")
    ++ ": " ++ Reportable.message e

end MagicCircle
