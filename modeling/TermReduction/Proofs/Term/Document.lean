import TermReduction.Proofs.Json
import TermReduction.Proofs.Numeral.Errors
import TermReduction.Term.Document

/-!
Documents of terms: which JSON values they are, the texts within them, and which of these texts can be
at fault when no term is built.
-/

namespace TermReduction

-- A word that nothing can be built with: a name that is no identifier, or a text that spells no number.
inductive RefusesWord (names literals : List String) (s : String) : Prop
  | name : s ∈ names → isIdentifier s = false → RefusesWord names literals s
  | literal : s ∈ literals → Number.read? s = .ok none → RefusesWord names literals s

theorem RefusesWord.mono {s : String} {names names' literals literals' : List String}
    (hn : names ⊆ names') (hl : literals ⊆ literals') :
    RefusesWord names literals s → RefusesWord names' literals' s
  | .name h h'    => .name (hn h) h'
  | .literal h h' => .literal (hl h) h'

namespace TermDocument

-- All that the schema asks of a JSON value, one case for each kind of document.
inductive Shows : Json → TermDocument → Prop
  | literal {fs s} :
    Json.field? fs "kind" = some (.string "literal") → Json.field? fs "value" = some (.string s) →
    Json.onlyFields fs ["kind", "value"] → isNumberText s → Shows (.object fs) (.literal s)
  | identifier {fs s} :
    Json.field? fs "kind" = some (.string "identifier") →
    Json.field? fs "name" = some (.string s) → Json.onlyFields fs ["kind", "name"] → s ≠ "" →
    Shows (.object fs) (.identifier s)
  | operation {fs op items ds} :
    Json.field? fs "kind" = some (.string "operation") →
    Json.field? fs "operator" = some (.string (Operator.symbol op)) →
    Json.field? fs "operands" = some (.array items) →
    Json.onlyFields fs ["kind", "operator", "operands"] →
    List.Forall₂ (fun j d => ofJson? j = some d) items ds → Shows (.object fs) (.operation op ds)

variable {j : Json} {d : TermDocument}

theorem shows_of_ofJson? (h : ofJson? j = some d) : Shows j d := by
  rw [ofJson?.eq_def] at h
  split at h
  case h_2 => cases h
  case h_1 fs =>
    split at h
    case h_4 => cases h
    case h_1 hk =>
      split at h
      case h_2    => cases h
      case h_1 hv =>
        split at h <;> cases h
        rename_i hs
        rw [Bool.and_eq_true] at hs
        exact .literal hk hv hs.1 hs.2
    case h_2 hk =>
      split at h
      case h_2    => cases h
      case h_1 hv =>
        split at h <;> cases h
        rename_i hs
        rw [Bool.and_eq_true, decide_eq_true_eq] at hs
        exact .identifier hk hv hs.1 hs.2
    case h_3 hk =>
      split at h
      case h_2       => cases h
      case h_1 ho hi =>
        split at h
        case isFalse   => cases h
        case isTrue hs =>
          simp only [Option.bind_eq_bind, Option.bind_eq_some_iff] at h
          obtain ⟨op, hop, ds, hds, h⟩ := h
          cases h
          rw [← Operator.symbol_of_ofSymbol? hop] at ho
          exact .operation hk ho hi hs (List.attach_mapM_eq_some_iff.1 hds)

theorem Shows.ofJson?_eq : Shows j d → ofJson? j = some d
  | .literal hk hv hs hn       => by
    rw [ofJson?.eq_def]
    simp [hk, hv, hs, hn]
  | .identifier hk hv hs hn    => by
    rw [ofJson?.eq_def]
    simp [hk, hv, hs, hn]
  | .operation hk ho hi hs hds => by
    rw [ofJson?.eq_def]
    simp only [hk]
    split
    case h_2 hn       => exact (hn _ _ ho hi).elim
    case h_1 ho' hi' =>
      cases ho.symm.trans ho'
      cases hi.symm.trans hi'
      simp [hs, Operator.ofSymbol?_symbol, List.attach_mapM_eq_some_iff.2 hds]

theorem ofJson?_eq_some_iff : ofJson? j = some d ↔ Shows j d :=
  ⟨shows_of_ofJson?, Shows.ofJson?_eq⟩

theorem read_eq_ok_iff : read j = .ok d ↔ ofJson? j = some d := by
  unfold read
  cases ofJson? j <;> simp

mutual

-- The texts that stand for numbers, from left to right.
def literals : TermDocument → List String
  | literal s      => [s]
  | identifier _   => []
  | operation _ ds => literalsAll ds

def literalsAll : List TermDocument → List String
  | []      => []
  | d :: ds => literals d ++ literalsAll ds

end

mutual

-- The texts that stand for identifiers, from left to right.
def names : TermDocument → List String
  | literal _      => []
  | identifier s   => [s]
  | operation _ ds => namesAll ds

def namesAll : List TermDocument → List String
  | []      => []
  | d :: ds => names d ++ namesAll ds

end

mutual

theorem isNumberText_of_ofJson? {j : Json} :
    (d : TermDocument) → ofJson? j = some d → ∀ s ∈ d.literals, isNumberText s
  | literal s, h      => by
    cases shows_of_ofJson? h
    case literal hn => exact List.forall_mem_singleton.2 hn
  | identifier s, _    => List.forall_mem_nil _
  | operation _ ds, h => by
    cases shows_of_ofJson? h
    case operation hds => exact isNumberText_of_forall₂ ds hds

theorem isNumberText_of_forall₂ {items : List Json} : (ds : List TermDocument) →
    List.Forall₂ (fun j d => ofJson? j = some d) items ds → ∀ s ∈ literalsAll ds, isNumberText s
  | [], _             => List.forall_mem_nil _
  | d :: ds, .cons h hs =>
    List.forall_mem_append.2 ⟨isNumberText_of_ofJson? d h, isNumberText_of_forall₂ ds hs⟩

end

variable {s : String}

theorem refuses_of_ofName {name : String} (h : Term.ofName name = .error (.invalidIdentifier s)) :
    RefusesWord [name] [] s := by
  unfold Term.ofName at h
  split at h <;> cases h
  case isFalse hn => exact .name List.mem_cons_self (eq_false_of_ne_true hn)

theorem refuses_of_read {text : String} (h : Number.read text = .error (.invalidIdentifier s)) :
    RefusesWord [] [text] s := by
  obtain ⟨hr, rfl⟩ := Number.read_eq_invalidIdentifier_iff.1 h
  exact .literal List.mem_cons_self hr

mutual

-- Words are refused in names and in texts of numbers only, and not for the number of operands.
theorem refuses_of_toTerm : (d : TermDocument) → d.toTerm = .error (.invalidIdentifier s) →
    RefusesWord d.names d.literals s
  | literal t, h       => by
    cases hr : Number.read t <;> rw [toTerm, hr] at h <;> cases h
    case error => exact refuses_of_read hr
  | identifier _, h    => refuses_of_ofName h
  | operation op ds, h => by
    obtain h | ⟨ts, _, h⟩ := Except.bind_eq_error.1 h
    case inl => exact refuses_of_toTermAll ds h
    case inr =>
      unfold Term.ofOperator Arity.check at h
      split at h <;> cases h

theorem refuses_of_toTermAll : (ds : List TermDocument) →
    toTermAll ds = .error (.invalidIdentifier s) → RefusesWord (namesAll ds) (literalsAll ds) s
  | [], h      => by cases h
  | d :: ds, h => by
    obtain h | ⟨t, _, h⟩ := Except.bind_eq_error.1 h
    case inl => exact (refuses_of_toTerm d h).mono (List.subset_append_left ..) (List.subset_append_left ..)
    case inr =>
      obtain h | ⟨ts, _, h⟩ := Except.bind_eq_error.1 h
      case inl =>
        exact (refuses_of_toTermAll ds h).mono (List.subset_append_right ..) (List.subset_append_right ..)
      case inr => cases h

end

end TermDocument

end TermReduction
