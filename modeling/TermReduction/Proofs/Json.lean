import TermReduction.Json
import TermReduction.Proofs.Traversal

/-!
JSON values up to the order of fields: two objects are the same if they have the same value at every
name.
-/

namespace TermReduction.Json

inductive Same : Json → Json → Prop
  | null : Same null null
  | bool (b) : Same (bool b) (bool b)
  | number (x) : Same (number x) (number x)
  | string (s) : Same (string s) (string s)
  | array {xs ys} : List.Forall₂ Same xs ys → Same (array xs) (array ys)
  | object {fs gs} :
    (∀ name, Option.Rel Same (field? fs name) (field? gs name)) → Same (object fs) (object gs)

variable {fs : List (String × Json)} {name : String}

theorem field?_eq_none {names : List String} (h : onlyFields fs names) (hn : name ∉ names) :
    field? fs name = none := by
  cases hf : field? fs name
  case none   => rfl
  case some j =>
    have := List.all_eq_true.1 h _ (mem_of_lookup hf)
    simp_all

theorem field?_map (f : String → Json → Json) :
    field? (fs.map fun p => (p.1, f p.1 p.2)) name = (field? fs name).map (f name) := by
  unfold field?
  induction fs
  case nil          => rfl
  case cons p fs ih =>
    rw [List.map_cons, List.lookup_cons, List.lookup_cons, ih]
    by_cases h : name = p.1
    case pos => simp [h]
    case neg => simp [beq_eq_false_iff_ne.2 h]

end TermReduction.Json
