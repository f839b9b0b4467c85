import TermReduction.Error

/-!
Tokens: brackets, and words without brackets and blanks. A list of tokens is consumed from the front,
and one that ends too early leaves a bracket open.
-/

namespace TermReduction

-- What separates tokens: the white space of Unicode and the four separators of ASCII.
def blankRanges : List (Nat × Nat) := [
  (0x09, 0x0D), (0x1C, 0x20), (0x85, 0x85), (0xA0, 0xA0), (0x1680, 0x1680), (0x2000, 0x200A),
  (0x2028, 0x2029), (0x202F, 0x202F), (0x205F, 0x205F), (0x3000, 0x3000)]

def isBlank (c : Char) : Bool :=
  blankRanges.any fun (low, high) => low ≤ c.toNat && c.toNat ≤ high

namespace Token

def opening : String := "("

def closing : String := ")"

def isBracket (c : Char) : Bool :=
  c = '(' || c = ')'

-- A word in front of the tokens, unless it is empty.
def consWord (word : List Char) (tokens : List String) : List String :=
  if word = [] then tokens else String.ofList word :: tokens

-- The word that the characters begin with, up to a bracket or a blank, and the tokens after it.
def split : List Char → List Char × List String
  | [] => ([], [])
  | c :: cs =>
    let (word, tokens) := split cs
    if isBlank c then ([], consWord word tokens)
    else if isBracket c then ([], String.ofList [c] :: consWord word tokens)
    else (c :: word, tokens)

-- The tokens of a text.
def scan (s : String) : List String :=
  let (word, tokens) := split s.toList
  consWord word tokens

-- The next token and those after it.
def uncons : List String → Except Error (String × List String)
  | []      => .error .unbalanced
  | t :: ts => .ok (t, ts)

-- Refuses the end of the tokens.
def requireNext : List String → Except Error Unit
  | []     => .error .unbalanced
  | _ :: _ => .ok ()

theorem scan_empty : scan "" = [] :=
  rfl

theorem split_blank {c : Char} (h : isBlank c) (cs : List Char) :
    split (c :: cs) = ([], consWord (split cs).1 (split cs).2) := by
  simp [split, h]

theorem isBracket_iff {c : Char} : isBracket c ↔ c = '(' ∨ c = ')' := by
  simp [isBracket]

theorem isBlank_of_isBracket {c : Char} (h : isBracket c) : isBlank c = false := by
  rcases isBracket_iff.1 h with rfl | rfl <;> decide

theorem split_bracket {c : Char} (h : isBracket c) (cs : List Char) :
    split (c :: cs) = ([], String.ofList [c] :: consWord (split cs).1 (split cs).2) := by
  simp [split, h, isBlank_of_isBracket h]

theorem split_of_not {c : Char} (hb : isBlank c = false) (h : isBracket c = false) (cs : List Char) :
    split (c :: cs) = (c :: (split cs).1, (split cs).2) := by
  simp [split, h, hb]

end Token

end TermReduction
