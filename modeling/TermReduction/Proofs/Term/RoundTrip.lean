import TermReduction.Proofs.Number.Reading
import TermReduction.Proofs.Schema.Literals
import TermReduction.Proofs.Term.Text
import TermReduction.Term.Respelling

/-!
Terms and their documents: the document of a term is read back as that term, and a document that is read
is the document of its term, but for the spelling of numbers.
-/

namespace TermReduction

section Spelling

open Numeral Pattern

theorem matches_sign (negative : Bool) :
    (optional (one (· = '-'))).Matches (sign negative) := by
  cases negative
  case false => exact .inl rfl
  case true  => exact .inr ⟨'-', rfl, rfl⟩

theorem Fixed.isDigitRun_placeDigits (x : Fixed) : isDigitRun x.placeDigits := by
  refine isDigitRun_iff.2 ⟨?_, x.allDigits_placeDigits⟩
  unfold placeDigits
  split
  case h_1    => exact List.cons_ne_nil _ _
  case h_2 hd => exact hd

-- A canonical text has digits on both sides of a point, and no exponent.
theorem Number.matches_spelling (v : Number) : TermDocument.literalPattern.Matches v.spelling.chars := by
  cases v
  case integer n =>
    have hd := matches_digits.2 (isDigitRun_toDigits n.natAbs)
    exact .inl ⟨sign _, _, matches_sign _, ⟨_, [], hd, .inl rfl, List.append_nil _⟩, rfl⟩
  case rational q =>
    have hn := matches_digits.2 (isDigitRun_toDigits q.numerator.natAbs)
    have hd := matches_digits.2 (isDigitRun_toDigits q.denominator.natAbs)
    exact .inr ⟨sign _, _, matches_sign _, ⟨_, _, hn, seq_one_cons.2 ⟨rfl, hd⟩, rfl⟩, rfl⟩
  case real x =>
    have hw : (Pattern.some Char.isDigit).Matches x.wholeDigits :=
      matches_digits.2 (isDigitRun_toDigits _)
    have hp : placesPattern.Matches ('.' :: x.placeDigits) :=
      seq_one_cons.2 ⟨rfl, matches_digits.2 x.isDigitRun_placeDigits⟩
    exact .inl ⟨sign _, _, matches_sign _, ⟨_, _, hw, .inr hp, rfl⟩, rfl⟩

end Spelling

namespace Number

variable {v : Number} {s : String}

theorem isNumberText_text (h : v.WellFormed) : TermDocument.isNumberText v.text := by
  rw [TermDocument.isNumberText_iff]
  exact .inl (toList_text h ▸ matches_spelling v)

theorem read_text (h : v.WellFormed) (hw : v.Writable) : read v.text = .ok v :=
  read_eq_ok_iff.2 (read?_text h hw)

theorem canonicalText_eq (h : read s = .ok v) : canonicalText s = v.text := by
  rw [canonicalText, h]

end Number

namespace Json

variable {fs gs : List (String × Json)} {js : List Json} {names : List String} {name : String}

theorem respellFields_eq (literal : Bool) : respellFields literal fs =
    fs.map fun p => (p.1, if literal && p.1 = "value" then canonicalNumeral p.2 else respell p.2) := by
  induction fs
  case nil          => rfl
  case cons f fs ih => rw [respellFields, ih, List.map_cons]

theorem field?_respellFields (literal : Bool) : field? (respellFields literal fs) name =
    (field? fs name).map fun j =>
      if literal && name = "value" then canonicalNumeral j else respell j := by
  rw [respellFields_eq]
  exact field?_map fun name j => if literal && name = "value" then canonicalNumeral j else respell j

theorem onlyFields_respellFields (literal : Bool) :
    onlyFields (respellFields literal fs) names = onlyFields fs names := by
  rw [respellFields_eq, onlyFields, onlyFields, List.all_map]
  rfl

-- Objects with the same fields only need to be compared at these.
theorem Same.of_onlyFields (hf : onlyFields fs names) (hg : onlyFields gs names)
    (h : ∀ name ∈ names, Option.Rel Same (field? fs name) (field? gs name)) :
    Same (.object fs) (.object gs) := by
  refine .object fun name => ?_
  by_cases hn : name ∈ names
  case pos => exact h name hn
  case neg =>
    rw [field?_eq_none hf hn, field?_eq_none hg hn]
    exact .none

end Json

namespace TermDocument

theorem toTerm_literal_eq_ok {s : String} {t : Term} :
    (literal s).toTerm = .ok t ↔ ∃ v, Number.read s = .ok v ∧ .literal v = t := by
  rw [toTerm]
  cases Number.read s <;> simp [Except.map]

theorem toTerm_operation_eq_ok {op : Operator} {ds : List TermDocument} {t : Term} :
    (operation op ds).toTerm = .ok t ↔
      ∃ ts, toTermAll ds = .ok ts ∧ op.arity.Accepts ts.length ∧ .operation op ts = t := by
  simp only [toTerm, Except.bind_eq_ok, Term.ofOperator_eq_ok]

theorem toTermAll_cons_eq_ok {d : TermDocument} {ds : List TermDocument} {us : List Term} :
    toTermAll (d :: ds) = .ok us ↔
      ∃ t ts, d.toTerm = .ok t ∧ toTermAll ds = .ok ts ∧ t :: ts = us := by
  simp only [toTermAll, Except.bind_eq_ok, Except.pure_eq_ok, Except.ok.injEq]
  grind

mutual

-- What a term needs to be written and read back, every term that is built has.
theorem sound_of_toTerm {t : Term} : (d : TermDocument) → d.toTerm = .ok t →
    t.WellFormed ∧ t.Writable
  | literal s, h       => by
    obtain ⟨v, hv, rfl⟩ := toTerm_literal_eq_ok.1 h
    exact ⟨.literal (Number.wellFormed_of_read hv),
      List.forall_mem_singleton.2 (Number.writable_of_read hv)⟩
  | identifier x, h    => by
    refine ⟨Term.ofName_wellFormed h, ?_⟩
    unfold toTerm Term.ofName at h
    split at h <;> cases h
    exact List.forall_mem_nil _
  | operation op ds, h => by
    obtain ⟨ts, hts, ha, rfl⟩ := toTerm_operation_eq_ok.1 h
    obtain ⟨hf, hw⟩ := sound_of_toTermAll ds hts
    exact ⟨.operation ha hf, hw⟩

theorem sound_of_toTermAll {ts : List Term} : (ds : List TermDocument) → toTermAll ds = .ok ts →
    (∀ t ∈ ts, t.WellFormed) ∧ ∀ v ∈ Term.literalsAll ts, v.Writable
  | [], h      => by
    cases h
    exact ⟨List.forall_mem_nil _, List.forall_mem_nil _⟩
  | d :: ds, h => by
    obtain ⟨t, ts, ht, hts, rfl⟩ := toTermAll_cons_eq_ok.1 h
    obtain ⟨hf, hw⟩ := sound_of_toTerm d ht
    obtain ⟨hfs, hws⟩ := sound_of_toTermAll ds hts
    exact ⟨List.forall_mem_cons.2 ⟨hf, hfs⟩, List.forall_mem_append.2 ⟨hw, hws⟩⟩

end

mutual

-- With its numbers in canonical text, a document shows the document of its term.
theorem ofJson?_respell {j : Json} {t : Term} : (d : TermDocument) → ofJson? j = some d →
    d.toTerm = .ok t → ofJson? j.respell = some t.document
  | literal s, h, ht       => by
    obtain ⟨v, hv, rfl⟩ := toTerm_literal_eq_ok.1 ht
    cases shows_of_ofJson? h
    case literal fs hk ho hs hn =>
      have hl : Json.showsLiteral fs := by simp [Json.showsLiteral, hk]
      refine (Shows.literal ?kind ?value ?fields ?text).ofJson?_eq
      case kind   => simp [Json.field?_respellFields, hk, Json.respell]
      case value  =>
        simp [Json.field?_respellFields, hs, hl, Json.canonicalNumeral, Number.canonicalText_eq hv]
      case fields => rwa [Json.onlyFields_respellFields]
      case text   => exact Number.isNumberText_text (Number.wellFormed_of_read hv)
  | identifier x, h, ht    => by
    cases shows_of_ofJson? h
    case identifier fs hk ho hs hn =>
      unfold toTerm Term.ofName at ht
      split at ht <;> cases ht
      refine (Shows.identifier ?kind ?name ?fields hn).ofJson?_eq
      case kind   => simp [Json.field?_respellFields, hk, Json.respell]
      case name   => simp [Json.field?_respellFields, hs, Json.respell]
      case fields => rwa [Json.onlyFields_respellFields]
  | operation op ds, h, ht => by
    obtain ⟨ts, hts, _, rfl⟩ := toTerm_operation_eq_ok.1 ht
    cases shows_of_ofJson? h
    case operation fs items hk hi ho hp hds =>
      have hall := forall₂_respellAll ds hds hts
      refine (Shows.operation ?kind ?operator ?operands ?fields hall).ofJson?_eq
      case kind     => simp [Json.field?_respellFields, hk, Json.respell]
      case operator => simp [Json.field?_respellFields, hp, Json.respell]
      case operands => simp [Json.field?_respellFields, hi, Json.respell]
      case fields   => rwa [Json.onlyFields_respellFields]

theorem forall₂_respellAll {js : List Json} {ts : List Term} : (ds : List TermDocument) →
    List.Forall₂ (fun j d => ofJson? j = some d) js ds → toTermAll ds = .ok ts →
    List.Forall₂ (fun j d => ofJson? j = some d) (Json.respellAll js) (Term.documentAll ts)
  | [], .nil, ht             => by
    cases ht
    exact .nil
  | d :: ds, .cons h hs, ht => by
    obtain ⟨t, ts, hd, hts, rfl⟩ := toTermAll_cons_eq_ok.1 ht
    exact .cons (ofJson?_respell d h hd) (forall₂_respellAll ds hs hts)

end

end TermDocument

namespace Term

theorem ne_empty_of_isIdentifier {x : String} (h : isIdentifier x) : x ≠ "" := by
  rintro rfl
  contradiction

mutual

-- The document of a term is the only one that shows it, but for the order of fields.
theorem same_of_ofJson? {j : Json} : (t : Term) → TermDocument.ofJson? j = some t.document →
    Json.Same t.toJson j
  | literal v, h       => by
    cases TermDocument.shows_of_ofJson? h
    case literal fs hk ho hs hn =>
      refine .of_onlyFields rfl ho <| List.forall_mem_cons.2 ⟨?kind, List.forall_mem_singleton.2 ?value⟩
      case kind  => exact hk ▸ .some (.string _)
      case value => exact hs ▸ .some (.string _)
  | identifier x, h    => by
    cases TermDocument.shows_of_ofJson? h
    case identifier fs hk ho hs hn =>
      refine .of_onlyFields rfl ho <| List.forall_mem_cons.2 ⟨?kind, List.forall_mem_singleton.2 ?name⟩
      case kind => exact hk ▸ .some (.string _)
      case name => exact hs ▸ .some (.string _)
  | operation op ts, h => by
    cases TermDocument.shows_of_ofJson? h
    case operation fs items hk hi ho hp hds =>
      refine .of_onlyFields rfl ho <| List.forall_mem_cons.2 ⟨?kind, List.forall_mem_cons.2 ⟨?operator,
        List.forall_mem_singleton.2 ?operands⟩⟩
      case kind     => exact hk ▸ .some (.string _)
      case operator => exact hp ▸ .some (.string _)
      case operands => exact hi ▸ .some (.array (same_of_forall₂ ts hds))

theorem same_of_forall₂ {js : List Json} : (ts : List Term) →
    List.Forall₂ (fun j d => TermDocument.ofJson? j = some d) js (documentAll ts) →
    List.Forall₂ Json.Same (toJsonAll ts) js
  | [], .nil             => .nil
  | t :: ts, .cons h hs => .cons (same_of_ofJson? t h) (same_of_forall₂ ts hs)

end

mutual

theorem ofJson?_toJson : (t : Term) → t.WellFormed → TermDocument.ofJson? t.toJson = some t.document
  | literal _, .literal h        =>
    (TermDocument.Shows.literal rfl rfl rfl (Number.isNumberText_text h)).ofJson?_eq
  | identifier _, .identifier h  =>
    (TermDocument.Shows.identifier rfl rfl rfl (ne_empty_of_isIdentifier h)).ofJson?_eq
  | operation _ ts, .operation _ h =>
    (TermDocument.Shows.operation rfl rfl rfl rfl (forall₂_toJsonAll ts h)).ofJson?_eq

theorem forall₂_toJsonAll : (ts : List Term) → (∀ t ∈ ts, t.WellFormed) →
    List.Forall₂ (fun j d => TermDocument.ofJson? j = some d) (toJsonAll ts) (documentAll ts)
  | [], _      => .nil
  | t :: ts, h =>
    have ⟨ht, hts⟩ := List.forall_mem_cons.1 h
    .cons (ofJson?_toJson t ht) (forall₂_toJsonAll ts hts)

end

mutual

theorem toTerm_document : (t : Term) → t.WellFormed → t.Writable → t.document.toTerm = .ok t
  | literal v, .literal h, hw            =>
    TermDocument.toTerm_literal_eq_ok.2 ⟨v, Number.read_text h (hw v List.mem_cons_self), rfl⟩
  | identifier _, .identifier h, _       => if_pos h
  | operation _ ts, .operation ha h, hw =>
    TermDocument.toTerm_operation_eq_ok.2 ⟨ts, toTermAll_documentAll ts h hw, ha, rfl⟩

theorem toTermAll_documentAll : (ts : List Term) → (∀ t ∈ ts, t.WellFormed) →
    (∀ v ∈ literalsAll ts, v.Writable) → TermDocument.toTermAll (documentAll ts) = .ok ts
  | [], _, _       => rfl
  | t :: ts, h, hw =>
    have ⟨ht, hts⟩ := List.forall_mem_cons.1 h
    have ⟨hw, hws⟩ := List.forall_mem_append.1 hw
    TermDocument.toTermAll_cons_eq_ok.2
      ⟨t, ts, toTerm_document t ht hw, toTermAll_documentAll ts hts hws, rfl⟩

end

theorem ofJson_eq_ok_iff {j : Json} {t : Term} :
    ofJson j = .ok t ↔ ∃ d, TermDocument.ofJson? j = some d ∧ d.toTerm = .ok t := by
  simp only [ofJson, Except.bind_eq_ok, TermDocument.read_eq_ok_iff]

-- Writing a term and reading its document gives the term back. Reading a document and writing its term
-- gives the document back, but for the spelling of numbers, and reading that gives the same term again.
theorem documents_invert_terms :
    (∀ t : Term, t.WellFormed → t.Writable →
      TermDocument.read t.toJson = .ok t.document ∧ ofJson t.toJson = .ok t) ∧
    ∀ j t, ofJson j = .ok t →
      t.Writable ∧ Json.Same t.toJson j.respell ∧ ofJson t.toJson = .ok t ∧ ofJson j.respell = .ok t := by
  have hr : ∀ t : Term, t.WellFormed → t.Writable → ofJson t.toJson = .ok t :=
    fun t hf hw => ofJson_eq_ok_iff.2 ⟨t.document, ofJson?_toJson t hf, toTerm_document t hf hw⟩
  refine ⟨?written, ?read⟩
  case written =>
    exact fun t hf hw => ⟨TermDocument.read_eq_ok_iff.2 (ofJson?_toJson t hf), hr t hf hw⟩
  case read =>
    intro j t h
    obtain ⟨d, hd, ht⟩ := ofJson_eq_ok_iff.1 h
    have ⟨hf, hw⟩ := TermDocument.sound_of_toTerm d ht
    have hj := TermDocument.ofJson?_respell d hd ht
    exact ⟨hw, same_of_ofJson? t hj, hr t hf hw,
      ofJson_eq_ok_iff.2 ⟨t.document, hj, toTerm_document t hf hw⟩⟩

-- A ratio over one stays a ratio, and leading zeros are lost; the fields may stand in any order.
theorem documents_invert_terms_nested :
    let t := operation .add
      [literal (.rational ⟨-4, 1⟩), operation .ln [identifier "x"], literal (.integer 7)]
    let j := .object [("operands", .array [
        .object [("value", .string "-8/2"), ("kind", .string "literal")],
        .object [("kind", .string "operation"), ("operator", .string "ln"),
          ("operands", .array [.object [("kind", .string "identifier"), ("name", .string "x")]])],
        .object [("kind", .string "literal"), ("value", .string "007")]]),
      ("operator", .string "+"), ("kind", .string "operation")]
    t.WellFormed ∧ t.Writable ∧ ofJson t.toJson = .ok t ∧ ofJson j = .ok t ∧
      Json.Same t.toJson j.respell := by
  intro t j
  have hf : t.WellFormed := by decide +kernel
  have hw : t.Writable := by decide +kernel
  have hj : ofJson j = .ok t := by
    refine ofJson_eq_ok_iff.2 ⟨.operation .add [.literal "-8/2", .operation .ln [.identifier "x"],
      .literal "007"], ?shown, by decide +kernel⟩
    refine TermDocument.ofJson?_eq_some_iff.2
      (.operation rfl rfl rfl rfl (.cons ?_ (.cons ?_ (.cons ?_ .nil))))
    · exact TermDocument.ofJson?_eq_some_iff.2 (.literal rfl rfl rfl rfl)
    · refine TermDocument.ofJson?_eq_some_iff.2 (.operation rfl rfl rfl rfl (.cons ?_ .nil))
      exact TermDocument.ofJson?_eq_some_iff.2 (.identifier rfl rfl rfl (by decide))
    · exact TermDocument.ofJson?_eq_some_iff.2 (.literal rfl rfl rfl rfl)
  exact ⟨hf, hw, (documents_invert_terms.1 t hf hw).2, hj, (documents_invert_terms.2 j t hj).2.1⟩

end Term

end TermReduction
