import TermReduction.Token

/-!
How texts fall into tokens: at a blank or a bracket the scanner begins anew, so the tokens on both sides of
it are those of the two texts on their own. Nothing but blanks is lost, and tokens that are joined with
blanks are found again.
-/

namespace TermReduction.Token

-- A character that ends a word.
def isSeparator (c : Char) : Bool :=
  isBlank c || isBracket c

-- The tokens of the characters of a text.
def scanChars (cs : List Char) : List String :=
  consWord (split cs).1 (split cs).2

-- A text that is one token and no bracket.
structure Unbroken (s : String) : Prop where
  ne_nil         : s.toList ≠ []
  isSeparator_eq : ∀ c ∈ s.toList, isSeparator c = false

-- A text that is one token.
inductive IsToken : String → Prop
  | opening : IsToken opening
  | closing : IsToken closing
  | word {s : String} : Unbroken s → IsToken s

variable {cs ds word : List Char} {ts : List String} {s : String} {c : Char}

-- Characters one by one, in the three ways in which the scanner takes the next.
theorem charsInduction {motive : List Char → Prop}
    (nil     : motive [])
    (blank   : ∀ c cs, isBlank c → motive cs → motive (c :: cs))
    (bracket : ∀ c cs, isBracket c → motive cs → motive (c :: cs))
    (word    : ∀ c cs, isBlank c = false → isBracket c = false → motive cs → motive (c :: cs)) :
    (cs : List Char) → motive cs
  | []      => nil
  | c :: cs => by
    have ih := charsInduction nil blank bracket word cs
    cases hb : isBlank c
    case true  => exact blank c cs hb ih
    case false =>
      cases hk : isBracket c
      case true  => exact bracket c cs hk ih
      case false => exact word c cs hb hk ih

theorem consWord_append (word : List Char) (ts us : List String) :
    consWord word (ts ++ us) = consWord word ts ++ us := by
  by_cases h : word = [] <;> simp [consWord, h]

theorem isSeparator_eq_false :
    isSeparator c = false ↔ isBlank c = false ∧ isBracket c = false :=
  Bool.or_eq_false_iff

theorem split_fst_of_isSeparator (h : isSeparator c) : (split (c :: cs)).1 = [] := by
  cases (Bool.or_eq_true ..).mp h
  case inl h => rw [split_blank h]
  case inr h => rw [split_bracket h]

theorem scanChars_of_split_fst (h : (split cs).1 = []) : scanChars cs = (split cs).2 := by
  rw [scanChars, h]
  rfl

theorem scanChars_blank (h : isBlank c) (cs : List Char) : scanChars (c :: cs) = scanChars cs := by
  rw [scanChars, split_blank h]
  rfl

theorem scanChars_bracket (h : isBracket c) (cs : List Char) :
    scanChars (c :: cs) = String.ofList [c] :: scanChars cs := by
  rw [scanChars, split_bracket h]
  rfl

-- The induction is on the characters in front, whose open word is not gone on with.
theorem split_append (h : (split ds).1 = []) (cs : List Char) :
    split (cs ++ ds) = ((split cs).1, (split cs).2 ++ (split ds).2) := by
  induction cs using charsInduction
  case nil                => exact Prod.ext h rfl
  case blank c cs hb ih   => rw [List.cons_append, split_blank hb, split_blank hb, ih, consWord_append]
  case bracket c cs hk ih =>
    rw [List.cons_append, split_bracket hk, split_bracket hk, ih, consWord_append, List.cons_append]
  case word c cs hb hk ih => rw [List.cons_append, split_of_not hb hk, split_of_not hb hk, ih]

theorem scanChars_append (h : (split ds).1 = []) (cs : List Char) :
    scanChars (cs ++ ds) = scanChars cs ++ scanChars ds := by
  rw [scanChars, split_append h, consWord_append, ← scanChars_of_split_fst h]
  rfl

theorem split_word (h : ∀ c ∈ cs, isSeparator c = false) : split cs = (cs, []) := by
  induction cs
  case nil          => rfl
  case cons c cs ih =>
    obtain ⟨hc, hcs⟩ := List.forall_mem_cons.1 h
    obtain ⟨hb, hk⟩ := isSeparator_eq_false.1 hc
    rw [split_of_not hb hk, ih hcs]

theorem Unbroken.scanChars_eq {s : String} (h : Unbroken s) : scanChars s.toList = [s] := by
  rw [scanChars, split_word h.isSeparator_eq, consWord, if_neg h.ne_nil, String.ofList_toList]

theorem IsToken.bracket (h : isBracket c) : IsToken (String.ofList [c]) := by
  rcases isBracket_iff.1 h with rfl | rfl
  case inl => exact .opening
  case inr => exact .closing

theorem isToken_consWord (hw : ∀ c ∈ word, isSeparator c = false) (ht : ∀ t ∈ ts, IsToken t) :
    ∀ t ∈ consWord word ts, IsToken t := by
  unfold consWord
  split
  case isTrue    => exact ht
  case isFalse h =>
    have hs : Unbroken (String.ofList word) := ⟨by simpa using h, by simpa using hw⟩
    exact List.forall_mem_cons.2 ⟨.word hs, ht⟩

-- No separator is taken into the open word, so that it makes a token as soon as it is closed.
theorem isToken_split (cs : List Char) :
    (∀ c ∈ (split cs).1, isSeparator c = false) ∧ ∀ t ∈ (split cs).2, IsToken t := by
  induction cs using charsInduction
  case nil                => exact ⟨nofun, nofun⟩
  case blank c cs hb ih   =>
    rw [split_blank hb]
    exact ⟨nofun, isToken_consWord ih.1 ih.2⟩
  case bracket c cs hk ih =>
    rw [split_bracket hk]
    exact ⟨nofun, List.forall_mem_cons.2 ⟨.bracket hk, isToken_consWord ih.1 ih.2⟩⟩
  case word c cs hb hk ih =>
    rw [split_of_not hb hk]
    exact ⟨List.forall_mem_cons.2 ⟨isSeparator_eq_false.2 ⟨hb, hk⟩, ih.1⟩, ih.2⟩

theorem isToken_scan (s : String) : ∀ t ∈ scan s, IsToken t :=
  isToken_consWord (isToken_split s.toList).1 (isToken_split s.toList).2

theorem flatMap_consWord (word : List Char) (ts : List String) :
    (consWord word ts).flatMap String.toList = word ++ ts.flatMap String.toList := by
  by_cases h : word = [] <;> simp [consWord, h]

-- The open word and the tokens behind it keep every character that is no blank.
theorem flatMap_split (cs : List Char) :
    (split cs).1 ++ (split cs).2.flatMap String.toList = cs.filter (!isBlank ·) := by
  induction cs using charsInduction
  case nil                => rfl
  case blank c cs hb ih   => simp [split_blank hb, flatMap_consWord, ih, hb]
  case bracket c cs hk ih => simp [split_bracket hk, flatMap_consWord, ih, isBlank_of_isBracket hk]
  case word c cs hb hk ih => simp [split_of_not hb hk, ih, hb]

theorem join_scan (s : String) : String.join (scan s) = String.ofList (s.toList.filter (!isBlank ·)) := by
  rw [← flatMap_split, ← flatMap_consWord, ← String.toList_join, String.ofList_toList]
  rfl

-- What is in front of a separator is scanned as if it ended there.
theorem scan_append_separator (h : isSeparator c) (a b : String) :
    scan (a ++ String.singleton c ++ b) = scan a ++ scanChars (c :: b.toList) := by
  have hl : (a ++ String.singleton c ++ b).toList = a.toList ++ c :: b.toList := by simp
  calc scan (a ++ String.singleton c ++ b)
    _ = scanChars (a.toList ++ c :: b.toList) := congrArg scanChars hl
    _ = scan a ++ scanChars (c :: b.toList)   := scanChars_append (split_fst_of_isSeparator h) a.toList

theorem scan_append_blank (h : isBlank c) (a b : String) :
    scan (a ++ String.singleton c ++ b) = scan a ++ scan b := by
  rw [scan_append_separator ((Bool.or_eq_true ..).mpr (.inl h)), scanChars_blank h]
  rfl

theorem scan_append_bracket (h : isBracket c) (a b : String) :
    scan (a ++ String.singleton c ++ b) = scan a ++ [String.singleton c] ++ scan b := by
  rw [scan_append_separator ((Bool.or_eq_true ..).mpr (.inr h)), scanChars_bracket h, List.append_assoc,
    String.singleton_eq_ofList]
  rfl

theorem IsToken.scan_eq : IsToken s → scan s = [s]
  | .opening | .closing => rfl
  | .word h             => h.scanChars_eq

-- Between two tokens there is a blank, so each is found on its own.
theorem scan_intercalate : {ts : List String} → (∀ t ∈ ts, IsToken t) → scan (" ".intercalate ts) = ts
  | [], _           => scan_empty
  | [t], h          => by
    rw [String.intercalate_singleton]
    exact (List.forall_mem_singleton.1 h).scan_eq
  | t :: u :: ts, h => by
    have ⟨ht, hts⟩ := List.forall_mem_cons.1 h
    have hb : isBlank ' ' := by decide
    calc scan (" ".intercalate (t :: u :: ts))
      _ = scan (t ++ String.singleton ' ' ++ " ".intercalate (u :: ts)) := by
        rw [String.intercalate_cons_cons]
        rfl
      _ = scan t ++ scan (" ".intercalate (u :: ts)) := scan_append_blank hb ..
      _ = t :: u :: ts                               := by rw [ht.scan_eq, scan_intercalate hts]; rfl

-- A text falls into brackets and words, which keep all of it but the blanks. It can be cut at every blank
-- and on both sides of every bracket, and tokens that are joined with blanks are the tokens of what comes
-- out.
theorem scan_splits :
    (∀ s : String, (∀ t ∈ scan s, IsToken t) ∧
      String.join (scan s) = String.ofList (s.toList.filter (!isBlank ·))) ∧
    (∀ (a b : String) (c : Char), isBlank c → scan (a ++ String.singleton c ++ b) = scan a ++ scan b) ∧
    (∀ a b p : String, p = opening ∨ p = closing → scan (a ++ p ++ b) = scan a ++ [p] ++ scan b) ∧
    (∀ ts : List String, (∀ t ∈ ts, IsToken t) → scan (" ".intercalate ts) = ts) ∧
    ∀ s : String, scan (" ".intercalate (scan s)) = scan s := by
  refine ⟨fun s => ⟨isToken_scan s, join_scan s⟩, fun a b _ h => scan_append_blank h a b,
    fun a b p h => ?bracket, fun _ => scan_intercalate, fun s => scan_intercalate (isToken_scan s)⟩
  case bracket =>
    rcases h with rfl | rfl
    · exact scan_append_bracket (c := '(') (by decide) a b
    · exact scan_append_bracket (c := ')') (by decide) a b

-- Words that touch brackets, and a blank from outside ASCII.
theorem scan_splits_unspaced :
    isBlank '\u2003' ∧ (∀ t ∈ ["(", "+x", ")"], IsToken t) ∧
      scan ("(+ 1.5(" ++ String.singleton '\u2003' ++ "y)") = ["(", "+", "1.5", "(", "y", ")"] ∧
      scan ("1.5x" ++ "(" ++ "y") = ["1.5x", "(", "y"] ∧
      scan (" ".intercalate ["(", "+x", ")"]) = ["(", "+x", ")"] := by
  have hb : isBlank '\u2003' := by decide
  have hs : scan "(+x)" = ["(", "+x", ")"] := by decide +kernel
  have ht : ∀ t ∈ ["(", "+x", ")"], IsToken t := hs ▸ isToken_scan "(+x)"
  obtain ⟨-, hblank, hbracket, hjoin, -⟩ := scan_splits
  exact ⟨hb, ht, (hblank _ _ _ hb).trans (by decide +kernel),
    (hbracket _ _ _ (.inl rfl)).trans (by decide +kernel), hjoin _ ht⟩

end TermReduction.Token
