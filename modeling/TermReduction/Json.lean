import TermReduction.Decimal.Basic

/-!
JSON values, and the two questions that a schema asks of them most: whether an object has exactly the
fields that are required, and whether a text matches a pattern.
-/

namespace TermReduction

-- A JSON value. The names of the fields of an object are distinct.
inductive Json
  | null
  | bool (b : Bool)
  | number (x : Decimal)
  | string (s : String)
  | array (items : List Json)
  | object (fields : List (String × Json))
deriving Inhabited

namespace Json

def field? (fields : List (String × Json)) (name : String) : Option Json :=
  fields.lookup name

-- Every field of an object is one of these.
def onlyFields (fields : List (String × Json)) (names : List String) : Bool :=
  fields.all fun (name, _) => names.contains name

theorem mem_of_lookup {fields : List (String × Json)} {name : String} {j : Json}
    (h : fields.lookup name = some j) : (name, j) ∈ fields := by
  induction fields with
  | nil => simp at h
  | cons f fields ih =>
    rw [List.lookup_cons] at h
    split at h
    · simp_all [← Option.some.inj h]
    · exact .tail _ (ih h)

theorem sizeOf_lt_of_field? {fields : List (String × Json)} {name : String} {j : Json}
    (h : field? fields name = some j) : sizeOf j < sizeOf (object fields) := by
  have h₁ := List.sizeOf_lt_of_mem (mem_of_lookup h)
  have h₂ : sizeOf (name, j) = 1 + sizeOf name + sizeOf j := rfl
  rw [object.sizeOf_spec]
  omega

-- A pattern for a whole text admits one line break behind it.
def dropFinalNewline (s : List Char) : List Char :=
  if s.getLast? = some '\n' then s.dropLast else s

end Json

end TermReduction
