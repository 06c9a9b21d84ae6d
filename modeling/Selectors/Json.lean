import Selectors.Decimal

/-!
JSON values. The members of an object are kept as they are written, in order and with repeated
keys, so that a reader of a value can decide what a repeated key means.
-/

namespace Selectors

/-- A JSON value. -/
inductive Json : Type where
  | null
  | bool (value : Bool)
  | number (value : Decimal)
  | string (value : String)
  | array (items : List Json)
  | object (members : List (String × Json))

end Selectors
