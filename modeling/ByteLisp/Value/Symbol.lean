/-!
# Symbols

A symbol is known by its name: two symbols with one name are the same symbol.
-/

namespace ByteLisp

/-- A symbol. -/
structure Symbol where
  name : String
deriving DecidableEq, Repr, Inhabited

namespace Symbol

/-- The symbol that stands for the empty list and for false. -/
def nil : Symbol := ⟨"nil"⟩

/-- The symbol that stands for true. -/
def t : Symbol := ⟨"t"⟩

/-- Whether this is the symbol `nil`. -/
def isNil (symbol : Symbol) : Bool :=
  symbol.name == "nil"

/-- Keywords are the names of more than one character that start with a colon. -/
def isKeyword (symbol : Symbol) : Bool :=
  match symbol.name.toList with
  | ':' :: _ :: _ => true
  | _ => false

/-- Constants evaluate to themselves and cannot be given a value: `nil`, `t`
and the keywords. -/
def isConstant (symbol : Symbol) : Bool :=
  symbol.isNil || symbol.name == "t" || symbol.isKeyword

/-- Only one symbol has this name. -/
@[simp] theorem isNil_iff (symbol : Symbol) : symbol.isNil = true ↔ symbol = nil := by
  cases symbol
  simp [isNil, nil]

/-- The symbol `nil` is a constant. -/
theorem isConstant_of_isNil {symbol : Symbol} (isNil : symbol.isNil = true) :
    symbol.isConstant = true := by
  simp [isConstant, isNil]

end Symbol

end ByteLisp
