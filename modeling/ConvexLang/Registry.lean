import ConvexLang.Curvature
import ConvexLang.Diagnostic
import ConvexLang.Table
import ConvexLang.Token

/-!
# Atoms and their registry

An atom is a named function a statement may call. It has a fixed curvature, a
fixed sign and perhaps a fixed number of arguments, and a call takes curvature
and sign from it, whatever the arguments are.

A registry is a table of atoms by name. It grows by `Registry.extend`, which
takes all of the given atoms or none: each must have the form of a name, be no
keyword and be new.
-/

namespace ConvexLang

/-- What is known about an atom besides its name. -/
structure Profile where
  /-- The curvature of its calls. -/
  curvature : Curvature
  /-- The sign of its calls. -/
  sign : Sign
  /-- The number of its arguments; none if any number will do. -/
  arity : Option Nat
  deriving DecidableEq, Repr

/-- Whether `count` arguments will do. -/
def Profile.accepts (p : Profile) (count : Nat) : Bool :=
  match p.arity with
  | none => true
  | some n => n = count

/-- A named atom. -/
structure Atom extends Profile where
  /-- The name. -/
  name : String
  deriving DecidableEq, Repr

/-- The atoms known to an analyzer. -/
abbrev Registry := Table Profile

namespace Registry

/-- The atoms, in the order of their names. -/
def atoms (r : Registry) : List Atom :=
  r.entries.map fun (name, profile) => { profile with name }

/-- The registry with one more atom, or what keeps it out. The form of the name
    is looked at first, then the keywords, then the atoms there are. -/
def extendOne (r : Registry) (a : Atom) : Except SetupFault Registry :=
  if ¬ isIdentifier a.name then .error (.invalidName a.name)
  else if (keyword? a.name).isSome then .error (.reservedName a.name)
  else if r.contains a.name then .error (.duplicateName a.name)
  else .ok (r.insert a.name a.toProfile)

/-- The registry with more atoms, or what keeps the first unfit one out. -/
def extend (r : Registry) : List Atom → Except SetupFault Registry
  | [] => .ok r
  | a :: as =>
    match r.extendOne a with
    | .error fault => .error fault
    | .ok r' => extend r' as

end Registry

end ConvexLang
