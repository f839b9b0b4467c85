import TermReduction.Json
import TermReduction.Text.Pattern

/-!
How a pattern is matched from the left: a run of characters ends where the rest of the pattern cannot
begin, so that there is one way only to cut a text into the parts of the pattern.
-/

namespace TermReduction.Pattern

variable {a b c : Pattern} {p : Char → Bool} {cs : List Char}

theorem matches_optional : (optional a).Matches cs ↔ cs = [] ∨ a.Matches cs :=
  .rfl

theorem matches_some : (some p).Matches cs ↔ cs ≠ [] ∧ ∀ c ∈ cs, p c := by
  constructor
  case mp =>
    rintro ⟨_, ys, ⟨c, hc, rfl⟩, hys, rfl⟩
    exact ⟨List.cons_ne_nil c ys, List.forall_mem_cons.2 ⟨hc, hys⟩⟩
  case mpr =>
    rintro ⟨hne, h⟩
    cases cs
    case nil       => contradiction
    case cons c cs =>
      obtain ⟨hc, hcs⟩ := List.forall_mem_cons.1 h
      exact ⟨[c], cs, ⟨c, hc, rfl⟩, hcs, rfl⟩

theorem seq_assoc : (seq (seq a b) c).Matches cs ↔ (seq a (seq b c)).Matches cs := by
  constructor
  case mp =>
    rintro ⟨_, zs, ⟨xs, ys, hx, hy, rfl⟩, hz, rfl⟩
    exact ⟨xs, ys ++ zs, hx, ⟨ys, zs, hy, hz, rfl⟩, (List.append_assoc ..).symm⟩
  case mpr =>
    rintro ⟨xs, _, hx, ⟨ys, zs, hy, hz, rfl⟩, rfl⟩
    exact ⟨xs ++ ys, zs, ⟨xs, ys, hx, hy, rfl⟩, hz, List.append_assoc ..⟩

theorem seq_congr_right (h : ∀ {ys}, b.Matches ys ↔ c.Matches ys) :
    (seq a b).Matches cs ↔ (seq a c).Matches cs := by
  simp only [Matches, h]

theorem seq_either :
    (seq (either a b) c).Matches cs ↔ (seq a c).Matches cs ∨ (seq b c).Matches cs := by
  simp only [Matches, or_and_right, exists_or]

theorem seq_empty : (seq empty a).Matches cs ↔ a.Matches cs := by
  simp [Matches]

theorem seq_optional :
    (seq (optional a) b).Matches cs ↔ b.Matches cs ∨ (seq a b).Matches cs := by
  rw [optional, seq_either, seq_empty]

theorem seq_seq_optional :
    (seq a (seq (optional b) c)).Matches cs ↔ (seq a c).Matches cs ∨ (seq a (seq b c)).Matches cs := by
  constructor
  case mp =>
    rintro ⟨xs, ys, hx, hy, rfl⟩
    exact (seq_optional.1 hy).imp (⟨xs, ys, hx, ·, rfl⟩) (⟨xs, ys, hx, ·, rfl⟩)
  case mpr =>
    rintro (⟨xs, ys, hx, hy, rfl⟩ | ⟨xs, ys, hx, hy, rfl⟩)
    · exact ⟨xs, ys, hx, seq_optional.2 (.inl hy), rfl⟩
    · exact ⟨xs, ys, hx, seq_optional.2 (.inr hy), rfl⟩

-- A run takes in another one behind it.
theorem seq_some_many :
    (seq (some p) (seq (many p) b)).Matches cs ↔ (seq (some p) b).Matches cs := by
  constructor
  case mp =>
    rintro ⟨xs, _, hx, ⟨ys, zs, hy, hz, rfl⟩, rfl⟩
    obtain ⟨hne, hx⟩ := matches_some.1 hx
    have hxy : (some p).Matches (xs ++ ys) :=
      matches_some.2 ⟨List.append_ne_nil_of_left_ne_nil hne ys, List.forall_mem_append.2 ⟨hx, hy⟩⟩
    exact ⟨xs ++ ys, zs, hxy, hz, List.append_assoc ..⟩
  case mpr =>
    rintro ⟨xs, zs, hx, hz, rfl⟩
    exact ⟨xs, zs, hx, ⟨[], zs, List.forall_mem_nil _, hz, rfl⟩, rfl⟩

theorem seq_one_cons {d : Char} : (seq (one p) b).Matches (d :: cs) ↔ p d ∧ b.Matches cs := by
  constructor
  case mp =>
    rintro ⟨_, ys, ⟨c, hc, rfl⟩, hy, h⟩
    cases h
    exact ⟨hc, hy⟩
  case mpr => exact fun ⟨hd, hb⟩ => ⟨[d], cs, ⟨d, hd, rfl⟩, hb, rfl⟩

theorem not_seq_one_nil : ¬(seq (one p) b).Matches [] := by
  rintro ⟨_, _, ⟨_, _, rfl⟩, _, h⟩
  contradiction

-- Whether the pattern matches the empty text.
def isNullable : Pattern → Bool
  | empty      => true
  | one _      => false
  | many _     => true
  | seq a b    => a.isNullable && b.isNullable
  | either a b => a.isNullable || b.isNullable

-- Whether the pattern matches a text that begins with the character.
def starts (c : Char) : Pattern → Bool
  | empty      => false
  | one p      => p c
  | many p     => p c
  | seq a b    => a.starts c || a.isNullable && b.starts c
  | either a b => a.starts c || b.starts c

-- Whether the character has a place in the pattern.
def uses (c : Char) : Pattern → Bool
  | empty      => false
  | one p      => p c
  | many p     => p c
  | seq a b    => a.uses c || b.uses c
  | either a b => a.uses c || b.uses c

@[simp] theorem isNullable_some : (some p).isNullable = false :=
  rfl

@[simp] theorem isNullable_optional : (optional a).isNullable = true :=
  rfl

@[simp] theorem starts_some {d : Char} : (some p).starts d = p d := by
  simp [some, starts, isNullable]

@[simp] theorem starts_optional {d : Char} : (optional a).starts d = a.starts d := by
  simp [optional, starts]

theorem isNullable_of_matches : {a : Pattern} → a.Matches [] → a.isNullable
  | empty, _               => rfl
  | many _, _              => rfl
  | seq a b, h             => by
    obtain ⟨xs, ys, ha, hb, h⟩ := h
    obtain ⟨rfl, rfl⟩ := List.append_eq_nil_iff.1 h
    rw [isNullable, isNullable_of_matches ha, isNullable_of_matches hb]
    rfl
  | either a b, .inl h     => by rw [isNullable, isNullable_of_matches h, Bool.true_or]
  | either a b, .inr h     => by rw [isNullable, isNullable_of_matches h, Bool.or_true]

theorem starts_of_matches {d : Char} {cs : List Char} :
    {a : Pattern} → a.Matches (d :: cs) → a.starts d
  | one p, h           => by
    obtain ⟨c, hc, h⟩ := h
    cases h
    exact hc
  | many p, h          => h d List.mem_cons_self
  | seq a b, h         => by
    obtain ⟨xs, ys, ha, hb, h⟩ := h
    cases xs
    case nil  =>
      rw [List.nil_append] at h
      subst h
      rw [starts, isNullable_of_matches ha, starts_of_matches hb, Bool.true_and, Bool.or_true]
    case cons =>
      cases h
      rw [starts, starts_of_matches ha, Bool.true_or]
  | either a b, .inl h => by rw [starts, starts_of_matches h, Bool.true_or]
  | either a b, .inr h => by rw [starts, starts_of_matches h, Bool.or_true]

theorem uses_of_matches {cs : List Char} : {a : Pattern} → a.Matches cs → ∀ c ∈ cs, a.uses c
  | empty, h           => by
    cases h
    exact List.forall_mem_nil _
  | one p, h           => by
    obtain ⟨c, hc, rfl⟩ := h
    exact List.forall_mem_singleton.2 hc
  | many p, h          => h
  | seq a b, h         => by
    obtain ⟨xs, ys, ha, hb, rfl⟩ := h
    intro c hc
    cases List.mem_append.1 hc
    case inl hc => rw [uses, uses_of_matches ha c hc, Bool.true_or]
    case inr hc => rw [uses, uses_of_matches hb c hc, Bool.or_true]
  | either a b, .inl h => fun c hc => by rw [uses, uses_of_matches h c hc, Bool.true_or]
  | either a b, .inr h => fun c hc => by rw [uses, uses_of_matches h c hc, Bool.or_true]

-- The rest of the pattern begins behind all characters of the class.
theorem seq_many (hb : ∀ c, b.starts c → p c = false) :
    (seq (many p) b).Matches cs ↔ b.Matches (cs.dropWhile p) := by
  constructor
  case mp =>
    rintro ⟨xs, ys, hx, hy, rfl⟩
    rw [List.dropWhile_append_of_pos hx]
    cases ys
    case nil       => exact hy
    case cons y ys =>
      have hp : ¬p y := Bool.not_eq_true _ ▸ hb y (starts_of_matches hy)
      rwa [List.dropWhile_cons_of_neg hp]
  case mpr =>
    intro h
    exact ⟨cs.takeWhile p, cs.dropWhile p, List.all_eq_true.1 List.all_takeWhile, h,
      List.takeWhile_append_dropWhile⟩

theorem seq_some (hb : ∀ c, b.starts c → p c = false) :
    (seq (some p) b).Matches cs ↔ cs.takeWhile p ≠ [] ∧ b.Matches (cs.dropWhile p) := by
  rw [some, seq_assoc]
  cases cs
  case nil       => exact iff_of_false not_seq_one_nil (fun h => h.1 rfl)
  case cons c cs =>
    rw [seq_one_cons, seq_many hb]
    by_cases hc : p c <;> simp [hc]

theorem seq_optional_nil : (seq (optional (one p)) b).Matches [] ↔ b.Matches [] := by
  rw [seq_optional, or_iff_left not_seq_one_nil]

-- A character that may be left out is taken if it is there.
theorem seq_optional_cons {d : Char} (hb : ∀ c, b.starts c → p c = false) :
    (seq (optional (one p)) b).Matches (d :: cs) ↔ b.Matches (if p d then cs else d :: cs) := by
  rw [seq_optional, seq_one_cons]
  split
  case isTrue hd  =>
    have hn : ¬b.Matches (d :: cs) := fun h => by simp [hb d (starts_of_matches h)] at hd
    simp [hd, hn]
  case isFalse hd => simp [hd]

-- Where a line break has no place in the pattern, the one behind the text can be left out of account.
theorem found_iff {s : String} (h : a.uses '\n' = false) :
    a.Found s ↔ a.Matches (Json.dropFinalNewline s.toList) := by
  unfold Json.dropFinalNewline
  split
  case isTrue hl =>
    obtain ⟨cs, hcs⟩ := List.getLast?_eq_some_iff.1 hl
    have hn : ¬a.Matches s.toList := by
      intro hm
      have := uses_of_matches hm '\n' (hcs ▸ List.mem_append_right cs List.mem_cons_self)
      simp [h] at this
    rw [Found, or_iff_right hn, hcs, List.dropLast_concat]
    simp
  case isFalse hl =>
    rw [Found, or_iff_left]
    rintro ⟨cs, _, hcs⟩
    exact hl (hcs ▸ List.getLast?_concat)

end TermReduction.Pattern
