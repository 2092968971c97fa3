import PlainC.Text

/-!
# Patterns

A pattern describes a set of texts, and `Pattern.Matches` says which. Reading one character turns a
pattern into the pattern of what may follow, its derivative. So a text is matched by deriving along
it: it is in the set when what remains may be empty, and it can still grow into a member when what
remains is viable.
-/

namespace PlainC

/-- A set of characters: those in some range, or those in none. -/
structure CharSet where
  ranges : List (Char × Char)
  negated : Bool

namespace CharSet

def mem (set : CharSet) (c : Char) : Bool :=
  set.negated != set.ranges.any fun (first, last) => first ≤ c && c ≤ last

def single (c : Char) : CharSet := ⟨[(c, c)], false⟩

def oneOf (chars : Text) : CharSet := ⟨chars.map fun c => (c, c), false⟩

def noneOf (chars : Text) : CharSet := ⟨chars.map fun c => (c, c), true⟩

def between (first last : Char) : CharSet := ⟨[(first, last)], false⟩

/-- The members of two sets given by ranges. -/
def either (a b : CharSet) : CharSet := ⟨a.ranges ++ b.ranges, false⟩

end CharSet

inductive Pattern where
  /-- No text at all. -/
  | fail
  /-- The empty text. -/
  | done
  | char (set : CharSet)
  | seq (first second : Pattern)
  | alt (left right : Pattern)
  | star (body : Pattern)

namespace Pattern

/-- The texts that a pattern describes. -/
inductive Matches : Pattern → Text → Prop where
  | done : Matches .done []
  | char {set : CharSet} {c : Char} : set.mem c → Matches (.char set) [c]
  | seq {p q : Pattern} {s t : Text} : Matches p s → Matches q t → Matches (.seq p q) (s ++ t)
  | left {p q : Pattern} {s : Text} : Matches p s → Matches (.alt p q) s
  | right {p q : Pattern} {s : Text} : Matches q s → Matches (.alt p q) s
  | stop {p : Pattern} : Matches (.star p) []
  | again {p : Pattern} {s t : Text} :
      Matches p s → Matches (.star p) t → Matches (.star p) (s ++ t)

/-- Whether the empty text is described. -/
def nullable : Pattern → Bool
  | fail => false
  | done => true
  | char _ => false
  | seq p q => p.nullable && q.nullable
  | alt p q => p.nullable || q.nullable
  | star _ => true

/-- Whether some text is described, given that no set of characters in the pattern is empty. -/
def viable : Pattern → Bool
  | fail => false
  | done => true
  | char _ => true
  | seq p q => p.viable && q.viable
  | alt p q => p.viable || q.viable
  | star _ => true

/-- Either pattern, without mention of one that fails. -/
def either : Pattern → Pattern → Pattern
  | fail, q => q
  | p, fail => p
  | p, q => alt p q

/-- One pattern and then the other, without mention of one that is done. -/
def andThen : Pattern → Pattern → Pattern
  | fail, _ => fail
  | done, q => q
  | p, q => seq p q

/-- What may follow `c` in a text that the pattern describes. -/
def derive (c : Char) : Pattern → Pattern
  | fail => fail
  | done => fail
  | char set => if set.mem c then done else fail
  | seq p q =>
    if p.nullable then either (andThen (p.derive c) q) (q.derive c)
    else andThen (p.derive c) q
  | alt p q => either (p.derive c) (q.derive c)
  | star p => andThen (p.derive c) (star p)

/-- Exactly the given text. -/
def literal : Text → Pattern
  | [] => done
  | [c] => char (.single c)
  | c :: rest => seq (char (.single c)) (literal rest)

def optional (p : Pattern) : Pattern := alt p done

def plus (p : Pattern) : Pattern := seq p (star p)

/-- One pattern after another. -/
def sequence : List Pattern → Pattern
  | [] => done
  | [p] => p
  | p :: rest => seq p (sequence rest)

/-- Any one of the patterns. -/
def choice : List Pattern → Pattern
  | [] => fail
  | [p] => p
  | p :: rest => alt p (choice rest)

end Pattern

end PlainC
