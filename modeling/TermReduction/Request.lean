import TermReduction.Json
import TermReduction.Numeral.Pattern
import TermReduction.Term.Evaluation
import TermReduction.Term.Stack

/-!
Requests for an evaluation as JSON documents: the tokens of an expression and the literals of its
identifiers.
-/

namespace TermReduction

structure Request where
  tokens   : List String
  bindings : List (String × String)

namespace Request

-- A token of at least one character and without blanks.
def isTokenText (s : String) : Bool :=
  let cs := Json.dropFinalNewline s.toList
  cs ≠ [] && !cs.any isBlank

-- A text that spells a number.
def isNumberText (s : String) : Bool :=
  (Numeral.ofChars? (Json.dropFinalNewline s.toList)).isSome

def token? : Json → Option String
  | .string s => if isTokenText s then some s else none
  | _         => none

def binding? : String × Json → Option (String × String)
  | (name, .string s) => if name ≠ "" && isNumberText s then some (name, s) else none
  | _                 => none

def ofJson? : Json → Option Request
  | .object fields =>
    match Json.field? fields "tokens", Json.field? fields "bindings" with
    | some (.array items), some (.object entries) =>
      if Json.onlyFields fields ["tokens", "bindings"] && items ≠ [] then do
        return ⟨← items.mapM token?, ← entries.mapM binding?⟩
      else none
    | _, _ => none
  | _ => none

-- The request that a JSON value is, if it satisfies the schema.
def read (j : Json) : Except Error Request :=
  (ofJson? j).elim (.error .invalidDocument) .ok

-- The pattern of a token: at least one character, and no blanks.
def tokenPattern : Pattern :=
  .some (!isBlank ·)

-- The pattern of a literal: any decimal or ratio. An integer is a decimal without a point.
def literalPattern : Pattern :=
  .either Numeral.decimalPattern Numeral.ratioPattern

-- The value of one binding, whose name must be an identifier and no constant.
def readBinding (name literal : String) : Except Error Number :=
  if isConstantName name then .error (.reservedIdentifier name)
  else if isIdentifier name then Number.read literal
  else .error (.invalidIdentifier name)

-- The values of the bindings, in their order.
def readBindings (r : Request) : Except Error (List (String × Number)) :=
  r.bindings.mapM fun (name, literal) => return (name, ← readBinding name literal)

-- The value of the expression, with its constants in place.
def eval [Binary64.Elementary] (r : Request) : Except Error Number := do
  let entries ← r.readBindings
  let t ← Term.ofTokensByStack (expandConstants r.tokens)
  t.eval (.ofList entries)

end Request

end TermReduction
