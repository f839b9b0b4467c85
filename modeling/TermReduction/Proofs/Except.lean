/-!
Chains of computations that may fail: when they succeed, and how they fail.
-/

namespace Except

-- Every failure is among those that `P` admits.
def FailsAs {ε α : Type _} (P : ε → Prop) : Except ε α → Prop
  | ok _    => True
  | error e => P e

-- The failure is the one that is given, and if none is given, there is a value.
def FailsFor {ε α : Type _} (x : Except ε α) : Option ε → Prop
  | some e => x = error e
  | none   => ∃ a, x = ok a

variable {ε α β : Type _} {x : Except ε α} {e : ε}

@[simp] theorem ok_bind {a : α} {f : α → Except ε β} : ok a >>= f = f a :=
  rfl

@[simp] theorem error_bind {f : α → Except ε β} : error e >>= f = error e :=
  rfl

@[simp] theorem pure_eq_ok {a : α} : (pure a : Except ε α) = ok a :=
  rfl

theorem bind_eq_ok {f : α → Except ε β} {b : β} :
    x >>= f = ok b ↔ ∃ a, x = ok a ∧ f a = ok b := by
  cases x <;> simp

theorem bind_eq_error {f : α → Except ε β} :
    x >>= f = error e ↔ x = error e ∨ ∃ a, x = ok a ∧ f a = error e := by
  cases x <;> simp

namespace FailsAs

variable {P Q : ε → Prop} {y : Except ε α}

theorem of_eq (h : x.FailsAs P) (he : x = error e) : P e := by
  rwa [he] at h

theorem ok (a : α) : (ok a).FailsAs P :=
  trivial

theorem error (h : P e) : (error e : Except ε α).FailsAs P :=
  h

theorem mono (hpq : ∀ e, P e → Q e) (h : x.FailsAs P) : x.FailsAs Q := by
  cases x
  case ok      => trivial
  case error e => exact hpq e h

theorem bind {f : α → Except ε β} (hx : x.FailsAs P) (hf : ∀ a, (f a).FailsAs P) :
    (x >>= f).FailsAs P := by
  cases x
  case ok a    => exact hf a
  case error e => exact hx

theorem map {f : α → β} (hx : x.FailsAs P) : (x.map f).FailsAs P := by
  cases x
  case ok      => trivial
  case error e => exact hx

theorem ite {p : Prop} [Decidable p] (hx : x.FailsAs P) (hy : y.FailsAs P) :
    (if p then x else y).FailsAs P := by
  split <;> assumption

end FailsAs

namespace FailsFor

variable {o o' : Option ε}

theorem error_iff (h : x.FailsFor o) : x = error e ↔ o = some e := by
  cases o
  case none   =>
    obtain ⟨a, rfl⟩ := h
    simp
  case some f =>
    cases h
    simp

theorem ok_iff (h : x.FailsFor o) : (∃ a, x = ok a) ↔ o = none := by
  cases o
  case none   => exact iff_of_true h rfl
  case some f =>
    cases h
    simp

-- What comes first fails first.
theorem bind {f : α → Except ε β} (hx : x.FailsFor o) (hf : ∀ a, x = ok a → (f a).FailsFor o') :
    (x >>= f).FailsFor (o <|> o') := by
  cases o
  case none   =>
    obtain ⟨a, rfl⟩ := hx
    exact hf a rfl
  case some e =>
    cases hx
    exact rfl

theorem bind_value {f : α → Except ε β} (hx : x.FailsFor o) (hf : ∀ a, x = ok a → ∃ b, f a = ok b) :
    (x >>= f).FailsFor o := by
  have h : (x >>= f).FailsFor (o <|> none) := hx.bind hf
  simpa using h

theorem map {f : α → β} (hx : x.FailsFor o) : (x.map f).FailsFor o := by
  cases o
  case none   =>
    obtain ⟨a, rfl⟩ := hx
    exact ⟨f a, rfl⟩
  case some e =>
    cases hx
    exact rfl

theorem check {p q : Prop} [Decidable p] [Decidable q] (h : p ↔ q) (hx : ¬p → ∃ a, x = ok a) :
    (if p then error e else x).FailsFor (if q then some e else none) := by
  by_cases hp : p
  case pos =>
    rw [if_pos hp, if_pos (h.1 hp)]
    exact rfl
  case neg =>
    rw [if_neg hp, if_neg (mt h.2 hp)]
    exact hx hp

end FailsFor

end Except
