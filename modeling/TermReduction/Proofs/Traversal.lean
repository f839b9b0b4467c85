import Mathlib.Data.List.Forall2
import TermReduction.Proofs.Except

/-!
Lists of computations that may fail: all succeed, one for each item, or the first failure is that of one
of them.
-/

namespace List

variable {α β ε : Type} {xs : List α}

theorem mapM_eq_some_iff {f : α → Option β} {ys : List β} :
    xs.mapM f = some ys ↔ Forall₂ (fun x y => f x = some y) xs ys := by
  induction xs generalizing ys
  case nil          => simp [eq_comm]
  case cons x xs ih =>
    rw [mapM_cons, forall₂_cons_left_iff]
    simp only [Option.pure_def, Option.bind_eq_bind, Option.bind_eq_some_iff, Option.some.injEq, ih]
    constructor
    · rintro ⟨y, hy, ys, hys, rfl⟩
      exact ⟨y, ys, hy, hys, rfl⟩
    · rintro ⟨y, ys, hy, hys, rfl⟩
      exact ⟨y, hy, ys, hys, rfl⟩

theorem attach_mapM_eq_some_iff {f : α → Option β} {ys : List β} :
    (xs.attach.mapM fun ⟨x, _⟩ => f x) = some ys ↔ Forall₂ (fun x y => f x = some y) xs ys := by
  have h : Forall₂ (fun x y => f x = some y) (xs.attach.map Subtype.val) ys ↔
      Forall₂ (fun x y => f x.val = some y) xs.attach ys := forall₂_map_left_iff
  rw [attach_map_subtype_val] at h
  exact mapM_eq_some_iff.trans h.symm

-- What each result is known to be, all of them are.
theorem forall_mem_of_mapM_eq_some {f : α → Option β} {ys : List β} {p : β → Prop}
    (h : xs.mapM f = some ys) (hp : ∀ x y, f x = some y → p y) : ∀ y ∈ ys, p y := by
  replace h := mapM_eq_some_iff.1 h
  induction h
  case nil           => exact forall_mem_nil p
  case cons hy _ ih => exact forall_mem_cons.2 ⟨hp _ _ hy, ih⟩

theorem exists_of_mapM_eq_error {f : α → Except ε β} {e : ε} (h : xs.mapM f = .error e) :
    ∃ x ∈ xs, f x = .error e := by
  induction xs
  case nil          => cases h
  case cons x xs ih =>
    rw [mapM_cons, Except.bind_eq_error] at h
    obtain hx | ⟨y, _, h⟩ := h
    · exact ⟨x, mem_cons_self, hx⟩
    · obtain h | ⟨ys, _, h⟩ := Except.bind_eq_error.1 h
      · obtain ⟨z, hz, h⟩ := ih h
        exact ⟨z, mem_cons_of_mem x hz, h⟩
      · cases h

end List
