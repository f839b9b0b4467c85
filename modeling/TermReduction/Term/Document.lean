import TermReduction.Json
import TermReduction.Numeral.Pattern
import TermReduction.Term.Reading

/-!
Terms as JSON documents. The schema of a document fixes its shape, and which texts may stand for
numbers; whether names and numbers of operands are right is found out when the term is built.
-/

namespace TermReduction

-- A document of the right shape, with its texts as they stand.
inductive TermDocument
  | literal (value : String)
  | identifier (name : String)
  | operation (op : Operator) (operands : List TermDocument)

namespace TermDocument

-- The texts of numbers without plus signs, bare points and exponents.
def isPlainNumeral (s : List Char) : Bool :=
  let s := match s with
    | '-' :: s => s
    | s        => s
  s.takeWhile Char.isDigit ≠ [] &&
    match s.dropWhile Char.isDigit with
    | []     => true
    | c :: s => (c = '.' || c = '/') && Numeral.isDigitRun s

def isNumberText (s : String) : Bool :=
  isPlainNumeral (Json.dropFinalNewline s.toList)

-- The pattern of these texts: a decimal without a plus sign, a bare point or an exponent, or a ratio.
def literalPattern : Pattern :=
  .either
    (.seq (.optional (.one (· = '-')))
      (.seq (.some Char.isDigit) (.optional Numeral.placesPattern)))
    Numeral.ratioPattern

-- The recursion goes from an object to its operands, which are smaller than the object.
def ofJson? (j : Json) : Option TermDocument :=
  match j with
  | .object fields =>
    match Json.field? fields "kind" with
    | some (.string "literal") =>
      match Json.field? fields "value" with
      | some (.string s) =>
        if Json.onlyFields fields ["kind", "value"] && isNumberText s then some (literal s) else none
      | _ => none
    | some (.string "identifier") =>
      match Json.field? fields "name" with
      | some (.string s) =>
        if Json.onlyFields fields ["kind", "name"] && s ≠ "" then some (identifier s) else none
      | _ => none
    | some (.string "operation") =>
      match Json.field? fields "operator", _h : Json.field? fields "operands" with
      | some (.string symbol), some (.array items) =>
        if Json.onlyFields fields ["kind", "operator", "operands"] then do
          let op ← Operator.ofSymbol? symbol
          let operands ← items.attach.mapM fun ⟨item, _⟩ => ofJson? item
          return operation op operands
        else none
      | _, _ => none
    | _ => none
  | _ => none
termination_by sizeOf j
decreasing_by
  have := Json.sizeOf_lt_of_field? _h
  have := List.sizeOf_lt_of_mem ‹item ∈ items›
  rw [Json.array.sizeOf_spec] at *
  omega

mutual

-- The term of a document. Operands are built from left to right, before they are counted.
def toTerm : TermDocument → Except Error Term
  | literal s       => (Number.read s).map .literal
  | identifier s    => Term.ofName s
  | operation op ds => do Term.ofOperator op (← toTermAll ds)

def toTermAll : List TermDocument → Except Error (List Term)
  | []      => .ok []
  | d :: ds => do
    let t ← toTerm d
    return t :: (← toTermAll ds)

end

-- The document that a JSON value is, if it satisfies the schema.
def read (j : Json) : Except Error TermDocument :=
  (ofJson? j).elim (.error .invalidDocument) .ok

end TermDocument

namespace Term

def ofJson (j : Json) : Except Error Term := do
  (← TermDocument.read j).toTerm

mutual

def toJson : Term → Json
  | literal v       => .object [("kind", .string "literal"), ("value", .string v.text)]
  | identifier x    => .object [("kind", .string "identifier"), ("name", .string x)]
  | operation op ts =>
    .object [("kind", .string "operation"), ("operator", .string op.symbol),
      ("operands", .array (toJsonAll ts))]

def toJsonAll : List Term → List Json
  | []      => []
  | t :: ts => toJson t :: toJsonAll ts

end

end Term

end TermReduction
