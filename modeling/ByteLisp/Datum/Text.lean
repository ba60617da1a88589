import ByteLisp.Datum.Json
import ByteLisp.Json.Reader
import ByteLisp.Json.Writer

/-!
# Data as JSON text

The text of a datum has no blanks. In a text that is read, at most
`Json.maxLevels` brackets may be open at once around a part that is looked at.
-/

namespace ByteLisp

/-- The number of brackets that may be open at once in a JSON text. -/
def Json.maxLevels : Nat := 127

namespace Datum

/-- The datum as JSON text. -/
def jsonText (datum : Datum) : String :=
  datum.toJson.render

/-- The datum that a JSON text describes. -/
def parse? (bytes : Bytes) : Option Datum :=
  (Json.parse? bytes).bind (ofJson? Json.maxLevels)

end Datum

namespace FunctionLiteral

/-- The function as JSON text. -/
def jsonText (literal : FunctionLiteral) : String :=
  literal.toJson.render

/-- The function that a JSON text describes. -/
def parse? (bytes : Bytes) : Option FunctionLiteral :=
  (Json.parse? bytes).bind (ofJson? Json.maxLevels)

end FunctionLiteral

end ByteLisp
