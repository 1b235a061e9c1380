/-!
Kinds of faults in a JSON text that should hold a value of a known type.
-/

namespace CowArrays.Json

inductive Fault
  | malformed
  | unsuitable
  | truncated
  deriving DecidableEq

end CowArrays.Json
