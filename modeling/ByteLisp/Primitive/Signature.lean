import ByteLisp.Code.Descriptor

/-!
# The built-in functions

This module names the built-in functions and says how many arguments each one
takes. What they compute is defined where the values they work on are known.
-/

namespace ByteLisp

/-- The built-in functions. -/
inductive Primitive where
  | car
  | cdr
  | carSafe
  | cdrSafe
  | cons
  | list
  | length
  | nth
  | nthcdr
  | elt
  | memq
  | member
  | assq
  | nreverse
  | reverse
  | nconc
  | setcar
  | setcdr
  | eq
  | equal
  | not
  | null
  | symbolp
  | consp
  | listp
  | stringp
  | numberp
  | integerp
  | vectorp
  | functionp
  | plus
  | times
  | minus
  | divide
  | remainder
  | add1
  | sub1
  | numEq
  | less
  | greater
  | lessEq
  | greaterEq
  | max
  | min
  | vector
  | makeVector
  | aref
  | aset
  | concat
  | substring
  | stringEq
  | stringLess
  | upcase
  | downcase
  | symbolValue
  | symbolFunction
  | set
  | fset
  | boundp
  | fboundp
  | makunbound
  | get
  | put
  | symbolPlist
  | makeByteCode
deriving DecidableEq, Repr

namespace Primitive

/-- Every built-in function, in the order in which they are listed. -/
def all : List Primitive :=
  [car, cdr, carSafe, cdrSafe, cons, list, length, nth, nthcdr, elt, memq, member, assq,
   nreverse, reverse, nconc, setcar, setcdr, eq, equal, not, null, symbolp, consp, listp,
   stringp, numberp, integerp, vectorp, functionp, plus, times, minus, divide, remainder, add1,
   sub1, numEq, less, greater, lessEq, greaterEq, max, min, vector, makeVector, aref, aset,
   concat, substring, stringEq, stringLess, upcase, downcase, symbolValue, symbolFunction, set,
   fset, boundp, fboundp, makunbound, get, put, symbolPlist, makeByteCode]

/-- The name under which a built-in function is called. -/
def name : Primitive → String
  | car => "car"
  | cdr => "cdr"
  | carSafe => "car-safe"
  | cdrSafe => "cdr-safe"
  | cons => "cons"
  | list => "list"
  | length => "length"
  | nth => "nth"
  | nthcdr => "nthcdr"
  | elt => "elt"
  | memq => "memq"
  | member => "member"
  | assq => "assq"
  | nreverse => "nreverse"
  | reverse => "reverse"
  | nconc => "nconc"
  | setcar => "setcar"
  | setcdr => "setcdr"
  | eq => "eq"
  | equal => "equal"
  | not => "not"
  | null => "null"
  | symbolp => "symbolp"
  | consp => "consp"
  | listp => "listp"
  | stringp => "stringp"
  | numberp => "numberp"
  | integerp => "integerp"
  | vectorp => "vectorp"
  | functionp => "functionp"
  | plus => "+"
  | times => "*"
  | minus => "-"
  | divide => "/"
  | remainder => "%"
  | add1 => "1+"
  | sub1 => "1-"
  | numEq => "="
  | less => "<"
  | greater => ">"
  | lessEq => "<="
  | greaterEq => ">="
  | max => "max"
  | min => "min"
  | vector => "vector"
  | makeVector => "make-vector"
  | aref => "aref"
  | aset => "aset"
  | concat => "concat"
  | substring => "substring"
  | stringEq => "string="
  | stringLess => "string<"
  | upcase => "upcase"
  | downcase => "downcase"
  | symbolValue => "symbol-value"
  | symbolFunction => "symbol-function"
  | set => "set"
  | fset => "fset"
  | boundp => "boundp"
  | fboundp => "fboundp"
  | makunbound => "makunbound"
  | get => "get"
  | put => "put"
  | symbolPlist => "symbol-plist"
  | makeByteCode => "make-byte-code"

/-- The built-in function with the given name. -/
def ofName? (name : String) : Option Primitive :=
  all.find? (·.name == name)

/-- The number of arguments that a built-in function takes. -/
def arity : Primitive → Arity
  | list | nconc | plus | times | minus | vector | concat => ⟨0, none⟩
  | divide | max | min => ⟨1, none⟩
  | substring => ⟨1, some 3⟩
  | cons | nth | nthcdr | elt | memq | member | assq | setcar | setcdr | eq | equal
   | remainder | numEq | less | greater | lessEq | greaterEq | makeVector | aref | stringEq
   | stringLess | set | fset | get => ⟨2, some 2⟩
  | aset | put => ⟨3, some 3⟩
  | makeByteCode => ⟨4, some 6⟩
  | _ => ⟨1, some 1⟩

end Primitive

end ByteLisp
