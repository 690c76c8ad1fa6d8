/-!
# JSON values

The values of JSON as its readers need them. A number is kept only as far as
it matters: a whole number written without point and exponent is `whole`, any
other is `other`. A text that pairs its surrogates wrongly is no sequence of
characters; it is kept as `none`, because it does no harm where nobody reads
it.
-/

namespace Fleet.Json

/-- A JSON value. -/
inductive Value
  | null
  | bool (b : Bool)
  | whole (n : Int)
  | other
  | text (s : Option String)
  | array (items : List Value)
  | object (members : List (Option String × Value))
  deriving Inhabited

end Fleet.Json
