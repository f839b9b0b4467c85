import Mathlib.Data.List.Forall2
import TermReduction.Proofs.Term.Folding

/-!
What folding does at each position of a term. Innermost operations give way to their values, all other
operations stay with the numbers and identifiers among their operands, and the term gets smaller by as
many operations as have been folded.
-/

namespace TermReduction.Term

def operands : Term → List Term
  | operation _ ts => ts
  | _              => []

-- The part of a term at a position. A position is the list of the indices of the operands on the way
-- from the whole term to the part.
def subterm? (t : Term) : List Nat → Option Term
  | []     => some t
  | i :: p => t.operands[i]?.bind (·.subterm? p)

-- What it is to fold the innermost operations of `t`, all of them and nothing else.
structure FoldsInnermost [Binary64.Elementary] (b : Bindings) (t u : Term) (n : Nat) : Prop where
  -- Each innermost operation has been replaced by its value.
  innermost {p s} : t.subterm? p = some s → s.isInnermost →
    ∃ v, s.eval b = .ok v ∧ u.subterm? p = some (.literal v)
  -- Each operation around another one is there as before, and so are its operands, unless they are
  -- operations themselves.
  others {p op ts} : t.subterm? p = some (operation op ts) → (operation op ts).isInnermost = false →
    ∃ us, u.subterm? p = some (operation op us) ∧
      List.Forall₂ (fun t u => t.isOperation = false → u = t) ts us
  count  : t.subterms.countP isInnermost = n
  pos    : 0 < n
  height : u.height + 1 = t.height
  size   : u.size + n = t.size

variable {b : Bindings} {t u s : Term} {ts us : List Term} {n : Nat} {p : List Nat}

theorem subterm?_cons_eq_some {i : Nat} :
    t.subterm? (i :: p) = some s ↔ ∃ c, t.operands[i]? = some c ∧ c.subterm? p = some s :=
  Option.bind_eq_some_iff

-- Numbers and identifiers have no parts but themselves.
theorem eq_of_subterm? (ht : t.isOperation = false) (h : t.subterm? p = some s) : s = t := by
  cases p
  case nil      => exact (Option.some.inj h).symm
  case cons i p =>
    have ⟨c, hc, _⟩ := subterm?_cons_eq_some.1 h
    cases t <;> simp [operands, isOperation] at hc ht

theorem isInnermost_iff_forall {op : Operator} :
    (operation op ts).isInnermost ↔ ∀ t ∈ ts, t.isOperation = false := by
  simp [isInnermost]

theorem subterms_of_not_isOperation (h : t.isOperation = false) : t.subterms = [t] := by
  cases t <;> simp [isOperation, subterms] at h ⊢

theorem size_of_not_isOperation (h : t.isOperation = false) : t.size = 0 := by
  cases t <;> simp [isOperation, size] at h ⊢

theorem isInnermost_of_not_isOperation (h : t.isOperation = false) : t.isInnermost = false := by
  cases t <;> simp [isOperation, isInnermost] at h ⊢

theorem countP_subtermsAll_eq_zero (h : ∀ t ∈ ts, t.isOperation = false) :
    (subtermsAll ts).countP isInnermost = 0 := by
  induction ts
  case nil          => rfl
  case cons t ts ih =>
    have ⟨ht, hs⟩ := List.forall_mem_cons.1 h
    simp [subtermsAll, subterms_of_not_isOperation ht, isInnermost_of_not_isOperation ht, ih hs]

theorem sizeAll_eq_zero (h : ∀ t ∈ ts, t.isOperation = false) : sizeAll ts = 0 := by
  induction ts
  case nil          => rfl
  case cons t ts ih =>
    have ⟨ht, hs⟩ := List.forall_mem_cons.1 h
    rw [sizeAll, size_of_not_isOperation ht, ih hs]

variable [Binary64.Elementary]

theorem Folds.eq_of_not_isOperation (ht : t.isOperation = false) : Folds b t u n → u = t
  | .literal _ | .identifier _   => rfl
  | .innermost .. | .operation .. => nomatch ht

theorem FoldsAll.forall₂ {ts us : List Term} {n : Nat} (h : FoldsAll b ts us n) :
    List.Forall₂ (fun t u => t.isOperation = false → u = t) ts us := by
  cases h
  case nil       => exact .nil
  case cons h hs => exact .cons (fun ht => h.eq_of_not_isOperation ht) hs.forall₂

theorem FoldsAll.getElem? {ts us : List Term} {n i : Nat} :
    FoldsAll b ts us n → ts[i]? = some t → ∃ u m, us[i]? = some u ∧ Folds b t u m
  | .cons h hs, ht => by
    cases i
    case zero =>
      cases ht
      exact ⟨_, _, rfl, h⟩
    case succ i => exact hs.getElem? ht

-- An operation folds in its place, on its own.
theorem Folds.subterm? (h : Folds b t u n) (hs : t.subterm? p = some s) (ho : s.isOperation) :
    ∃ w m, u.subterm? p = some w ∧ Folds b s w m := by
  induction p generalizing t u n
  case nil =>
    cases hs
    exact ⟨u, n, rfl, h⟩
  case cons i p ih =>
    have ⟨c, hc, hcs⟩ := subterm?_cons_eq_some.1 hs
    cases h
    case literal        => contradiction
    case identifier     => contradiction
    case innermost hi _ =>
      have hn : c.isOperation = false := isInnermost_iff_forall.1 hi c (List.mem_of_getElem? hc)
      rw [eq_of_subterm? hn hcs, hn] at ho
      contradiction
    case operation hf   =>
      have ⟨w, m, hw, hcw⟩ := hf.getElem? hc
      have ⟨w', m', hw', hsw⟩ := ih hcw hcs
      exact ⟨w', m', subterm?_cons_eq_some.2 ⟨w, hw, hw'⟩, hsw⟩

mutual

theorem Folds.countP_eq {t u : Term} {n : Nat} :
    Folds b t u n → t.subterms.countP isInnermost = n
  | .literal _ | .identifier _ => rfl
  | .innermost hi _            => by
    simp [subterms, hi, countP_subtermsAll_eq_zero (isInnermost_iff_forall.1 hi)]
  | .operation hi hs           => by simp [subterms, hi, hs.countP_eq]

theorem FoldsAll.countP_eq {ts us : List Term} {n : Nat} :
    FoldsAll b ts us n → (subtermsAll ts).countP isInnermost = n
  | .nil       => rfl
  | .cons h hs => by rw [subtermsAll, List.countP_append, h.countP_eq, hs.countP_eq]

end

mutual

-- Without its innermost operations a term has as many operations less.
theorem Folds.size_eq {t u : Term} {n : Nat} : Folds b t u n → u.size + n = t.size
  | .literal _ | .identifier _ => rfl
  | .innermost hi _            => by
    simp [size, sizeAll_eq_zero (isInnermost_iff_forall.1 hi)]
  | .operation _ hs            => by
    rw [size, size, ← hs.sizeAll_eq]
    omega

theorem FoldsAll.sizeAll_eq {ts us : List Term} {n : Nat} :
    FoldsAll b ts us n → sizeAll us + n = sizeAll ts
  | .nil       => rfl
  | .cons h hs => by
    rw [sizeAll, sizeAll, ← h.size_eq, ← hs.sizeAll_eq]
    omega

end

mutual

-- Going down from an operation, one always comes to an innermost one.
theorem Folds.pos {t u : Term} {n : Nat} : Folds b t u n → t.height ≠ 0 → 0 < n
  | .literal _, h | .identifier _, h => absurd rfl h
  | .innermost .., _                 => Nat.one_pos
  | .operation hi hs, _              =>
    hs.pos fun h => by simp [isInnermost_iff.2 h] at hi

theorem FoldsAll.pos {ts us : List Term} {n : Nat} : FoldsAll b ts us n → heightAll ts ≠ 0 → 0 < n
  | .nil, h                        => absurd rfl h
  | @FoldsAll.cons _ _ t _ _ _ _ _ h hs, hne => by
    by_cases ht : t.height = 0
    case pos =>
      have hts : 0 < _ := hs.pos fun h => hne (by simp [heightAll, ht, h])
      omega
    case neg =>
      have hm : 0 < _ := h.pos ht
      omega

end

theorem Folds.foldsInnermost (h : Folds b t u n) (ht : t.isOperation) : FoldsInnermost b t u n := by
  have hne : t.height ≠ 0 := by simp [height_eq_zero, ht]
  refine { innermost := ?innermost, others := ?others, count := h.countP_eq, pos := h.pos hne,
           height := ?height, size := h.size_eq }
  case innermost =>
    intro p s hs hi
    match s, hi with
    | .operation op ts, hi =>
      have ⟨w, m, hw, hf⟩ := h.subterm? hs rfl
      cases hf
      case innermost v _ hv => exact ⟨v, hv, hw⟩
      case operation hn _   => simp [hi] at hn
  case others =>
    intro p op ts hs hn
    have ⟨w, m, hw, hf⟩ := h.subterm? hs rfl
    cases hf
    case innermost hi _    => simp [hi] at hn
    case operation us _ hs => exact ⟨us, hw, hs.forall₂⟩
  case height =>
    rw [h.height_eq]
    exact Nat.sub_add_cancel (Nat.pos_of_ne_zero hne)

end TermReduction.Term
