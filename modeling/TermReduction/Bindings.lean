import TermReduction.Constant
import TermReduction.Numeral

/-!
The values of identifiers. A later binding of a name overrides an earlier one, and the name of a
constant is refused whether it is bound or not.
-/

namespace TermReduction

-- Names and their values, the latest first.
structure Bindings where
  entries : List (String × Number)

namespace Bindings

def empty : Bindings := ⟨[]⟩

def insert (b : Bindings) (name : String) (v : Number) : Bindings :=
  ⟨(name, v) :: b.entries⟩

-- The bindings of a list of names and values, made from left to right.
def ofList (entries : List (String × Number)) : Bindings :=
  entries.foldl (fun b (name, v) => b.insert name v) empty

def get? (b : Bindings) (name : String) : Option Number :=
  b.entries.lookup name

theorem get?_insert_self (b : Bindings) (name : String) (v : Number) :
    (b.insert name v).get? name = some v := by
  simp [get?, insert]

theorem get?_insert_of_ne (b : Bindings) {x y : String} (v : Number) (h : x ≠ y) :
    (b.insert y v).get? x = b.get? x := by
  simp [get?, insert, List.lookup_cons, beq_eq_false_iff_ne.2 h]

-- Every bound number is well formed.
def WellFormed (b : Bindings) : Prop :=
  ∀ name v, b.get? name = some v → v.WellFormed

theorem wellFormed_empty : empty.WellFormed :=
  nofun

theorem WellFormed.insert {b : Bindings} (hb : b.WellFormed) {v : Number} (hv : v.WellFormed)
    (name : String) : (b.insert name v).WellFormed := by
  intro x w h
  by_cases hx : x = name
  case pos =>
    rw [hx, get?_insert_self] at h
    exact Option.some.inj h ▸ hv
  case neg => exact hb x w (get?_insert_of_ne b v hx ▸ h)

-- The value of an identifier.
def lookup (b : Bindings) (name : String) : Except Error Number :=
  if isConstantName name then .error (.reservedIdentifier name)
  else (b.get? name).elim (.error (.undefinedIdentifier name)) .ok

theorem lookup_eq_ok_iff {b : Bindings} {name : String} {v : Number} :
    b.lookup name = .ok v ↔ isConstantName name = false ∧ b.get? name = some v := by
  unfold lookup
  cases isConstantName name <;> cases b.get? name <;> simp

theorem WellFormed.lookup {b : Bindings} (hb : b.WellFormed) {name : String} {v : Number}
    (h : b.lookup name = .ok v) : v.WellFormed :=
  hb name v (lookup_eq_ok_iff.1 h).2

-- Reads the value of each name.
def read (entries : List (String × String)) : Except Error Bindings := do
  return ofList (← entries.mapM fun (name, literal) => return (name, ← Number.read literal))

end Bindings

end TermReduction
