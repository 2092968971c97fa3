import PlainC.Error
import PlainC.Token.Located
import PlainC.Typedef

/-!
# Compilation units

One reading of a source file: its text and the functions and typedefs declared in it. The spans are
those of this very text, so they are used on it and on no other.
-/

namespace PlainC

structure Function where
  name : Text
  /-- An implicit declaration has no span, for it is not written anywhere. -/
  span : Option Span
  isDefinition : Bool
  deriving DecidableEq, Repr

/-- The definition of a function and its first declaration that is none. -/
structure FunctionPair where
  name : Text
  definition : Function
  declaration : Option Function
  deriving DecidableEq, Repr

structure CompilationUnit where
  path : Text
  source : Source
  functions : List Function
  typedefs : List Typedef
  deriving DecidableEq, Repr

namespace CompilationUnit

def lookup (unit : CompilationUnit) (name : Text) : Except Error FunctionPair :=
  let named (isDefinition : Bool) (f : Function) : Bool :=
    f.name = name && f.isDefinition == isDefinition
  match unit.functions.find? (named true) with
  | some definition => .ok ⟨name, definition, unit.functions.find? (named false)⟩
  | none => .error (.unknownFunction name unit.path)

/-- Whether a tag body belongs to a typedef that cannot be spelled out. -/
def isPinned (unit : CompilationUnit) (tag : Span) : Bool :=
  unit.typedefs.any fun typedef => typedef.body = some tag && !typedef.isSubstitutable

/-- The aliases that can be unfolded. A typedef whose tag body also belongs to one that cannot be is
left out with it, for the declaration has to stay whole. -/
def aliases (unit : CompilationUnit) : Aliases :=
  let unfoldable := unit.typedefs.filter fun typedef =>
    typedef.isSubstitutable && !typedef.body.any unit.isPinned
  .ofList (unfoldable.map fun typedef => (typedef.name, typedef.canonical))

/-- The tokens of a function; none if it is not written anywhere. -/
def tokensOf (unit : CompilationUnit) (function : Function) : Except Misplaced (List Token) :=
  match function.span with
  | some span => unit.source.tokens span
  | none => .ok []

end CompilationUnit

end PlainC
