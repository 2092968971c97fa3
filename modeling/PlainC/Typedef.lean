import PlainC.Text
import PlainC.Span

/-!
# Typedefs and their aliases

A typedef gives a type a name, its alias. The canonical spelling is what the alias stands for; the
alias can be spelled out only if that spelling may be written before a declarator. A typedef may hold
the body of a `struct`, `union` or `enum`.
-/

namespace PlainC

structure Typedef where
  name : Text
  canonical : Text
  span : Span
  /-- Where the tag body is that it holds, as in `typedef struct P { ... } P;`. -/
  body : Option Span
  deriving DecidableEq, Repr

/-- Whether the canonical spelling can stand in for the alias. Tags without a name, arrays and
functions are spelled with brackets, and such a spelling does not fit before a declarator. -/
def Typedef.isSubstitutable (typedef : Typedef) : Bool :=
  typedef.canonical.all fun c => c != '(' && c != '['

/-- Aliases with what they stand for, each alias once, in the order of declaration. -/
structure Aliases where
  entries : List (Text × Text)
  distinct : (entries.map Prod.fst).Nodup
  deriving DecidableEq, Repr

namespace Aliases

def empty : Aliases := ⟨[], .nil⟩

def get? (aliases : Aliases) (name : Text) : Option Text :=
  (aliases.entries.find? fun entry => entry.1 = name).map Prod.snd

def contains (aliases : Aliases) (name : Text) : Bool := (aliases.get? name).isSome

theorem contains_iff_mem (aliases : Aliases) (name : Text) :
    aliases.contains name ↔ name ∈ aliases.entries.map Prod.fst := by
  simp [contains, get?, List.find?_isSome]

theorem distinct_append (aliases : Aliases) (name canonical : Text)
    (h : ¬aliases.contains name) :
    ((aliases.entries ++ [(name, canonical)]).map Prod.fst).Nodup := by
  have hnew : name ∉ aliases.entries.map Prod.fst := mt (contains_iff_mem aliases name).mpr h
  rw [List.map_append, List.nodup_append]
  refine ⟨aliases.distinct, by simp, ?_⟩
  intro a ha b hb hab
  have hname : b = name := by simpa using hb
  exact hnew (hname ▸ hab ▸ ha)

/-- Adds an alias at the end, unless it is there already. -/
def insert (aliases : Aliases) (name canonical : Text) : Aliases :=
  if h : aliases.contains name then aliases
  else ⟨aliases.entries ++ [(name, canonical)], distinct_append aliases name canonical h⟩

def ofList (entries : List (Text × Text)) : Aliases :=
  entries.foldl (fun aliases (name, canonical) => aliases.insert name canonical) empty

def size (aliases : Aliases) : Nat := aliases.entries.length

end Aliases

end PlainC
