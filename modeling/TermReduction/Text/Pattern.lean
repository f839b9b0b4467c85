/-!
Patterns of texts: characters of a class and runs of them, one after the other or as alternatives.
-/

namespace TermReduction

inductive Pattern
  | empty
  -- One character of a class.
  | one (p : Char → Bool)
  -- Any number of characters of a class.
  | many (p : Char → Bool)
  | seq (a b : Pattern)
  | either (a b : Pattern)

namespace Pattern

-- At least one character of a class.
def some (p : Char → Bool) : Pattern :=
  seq (one p) (many p)

def optional (a : Pattern) : Pattern :=
  either empty a

-- The characters are as the pattern says, from the first to the last.
def Matches : Pattern → List Char → Prop
  | empty, cs      => cs = []
  | one p, cs      => ∃ c, p c ∧ cs = [c]
  | many p, cs     => ∀ c ∈ cs, p c
  | seq a b, cs    => ∃ xs ys, a.Matches xs ∧ b.Matches ys ∧ xs ++ ys = cs
  | either a b, cs => a.Matches cs ∨ b.Matches cs

-- A pattern for a whole text is found in a text that matches it, and also if one line break follows.
def Found (a : Pattern) (s : String) : Prop :=
  a.Matches s.toList ∨ ∃ cs, a.Matches cs ∧ s.toList = cs ++ ['\n']

end Pattern

end TermReduction
