import TermReduction.Term.Document

/-!
Documents of terms with every number in its canonical text.
-/

namespace TermReduction

-- The canonical text of the number that a text spells. Any other text stays as it is.
def Number.canonicalText (s : String) : String :=
  match read s with
  | .ok v    => v.text
  | .error _ => s

namespace Json

-- Whether the fields say that they are those of a number.
def showsLiteral (fields : List (String × Json)) : Bool :=
  match field? fields "kind" with
  | some (.string "literal") => true
  | _                        => false

def canonicalNumeral : Json → Json
  | .string s => .string (Number.canonicalText s)
  | j         => j

mutual

-- Changes the texts of numbers, and nothing else.
def respell : Json → Json
  | .array items   => .array (respellAll items)
  | .object fields => .object (respellFields (showsLiteral fields) fields)
  | j              => j

def respellAll : List Json → List Json
  | []      => []
  | j :: js => respell j :: respellAll js

def respellFields (literal : Bool) : List (String × Json) → List (String × Json)
  | []              => []
  | (name, j) :: fs =>
    (name, if literal && name = "value" then canonicalNumeral j else respell j) ::
      respellFields literal fs

end

end Json

namespace Term

mutual

-- The document of a term, with canonical texts.
def document : Term → TermDocument
  | literal v       => .literal v.text
  | identifier x    => .identifier x
  | operation op ts => .operation op (documentAll ts)

def documentAll : List Term → List TermDocument
  | []      => []
  | t :: ts => document t :: documentAll ts

end

end Term

end TermReduction
