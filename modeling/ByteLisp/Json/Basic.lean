import ByteLisp.Json.Numeral

/-!
# JSON values

Strings and names whose escapes or bytes do not spell Unicode text are kept as
missing: a reader that has no use for them skips them, any other refuses them.
-/

namespace ByteLisp

/-- A JSON value. Objects keep the order of their members. -/
inductive Json where
  | null
  | bool (truth : Bool)
  | number (numeral : Numeral)
  | string (text : Option String)
  | array (items : List Json)
  | object (members : List (Option String × Json))
deriving Repr

namespace Json

/-- The value of a text. -/
def ofText (text : String) : Json :=
  .string (some text)

/-- The value of an integer. -/
def ofInt (n : Int) : Json :=
  .number (Numeral.ofInt n)

/-- The value of a natural number. -/
def ofNat (n : Nat) : Json :=
  ofInt n

/-- The value of a floating point number; there is none for infinities and for
not-a-number. -/
def ofDouble (x : Double) : Json :=
  if x.isNaN || x.isInfinite then .null else .number (Numeral.ofDouble x)

/-- The value of a sequence of bytes. -/
def ofByteList (bytes : List UInt8) : Json :=
  .array (bytes.map fun byte => ofNat byte.toNat)

/-- An object with the given members. -/
def ofMembers (members : List (String × Json)) : Json :=
  .object (members.map fun (name, value) => (some name, value))

end Json

end ByteLisp
