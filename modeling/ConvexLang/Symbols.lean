import ConvexLang.Expr
import ConvexLang.Table

/-!
# Declared symbols

The symbols of a session by name, with the expressions they stand for. A
declaration puts in symbols of its own role and sign, and a later one of the
same name takes the place of an earlier one. Looking a name up takes the entry
as it is, whatever expression it may be.
-/

namespace ConvexLang

/-- How a symbol is declared. -/
structure Declared where
  /-- Decision variable or parameter. -/
  role : Role
  /-- Its sign. -/
  sign : Sign
  deriving DecidableEq, Repr

/-- The symbol of this name. -/
def Declared.symbol (d : Declared) (name : String) : Expr :=
  .ofSymbol d.role name d.sign

/-- What names stand for. -/
abbrev Symbols := Table Expr

namespace Symbols

/-- The symbols with all of `names` declared alike. -/
def declare (symbols : Symbols) (d : Declared) (names : List String) : Symbols :=
  symbols.insertAll (names.map fun name => (name, d.symbol name))

/-- The expression a name stands for. -/
def node? (symbols : Symbols) (name : String) : Option Expr :=
  symbols.get? name

/-- All names with the expressions they stand for, in the order of the names. -/
def nodes (symbols : Symbols) : List (String × Expr) :=
  symbols.entries

end Symbols

end ConvexLang
