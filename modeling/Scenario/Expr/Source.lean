import Scenario.Decimal.Layout

/-!
What expressions are written as.
-/

namespace Scenario

/-- Content gives an expression as a plain number or as text of the expression language. -/
inductive Source
  | number (value : Float)
  | text (content : String)
deriving Repr

def Source.display : Source → String
  | .number x => Layout.sentence.render x
  | .text s => s

end Scenario
