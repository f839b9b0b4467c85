import TermReduction.Proofs.Reduction.History
import TermReduction.Proofs.Term.Commutation

/-!
Other bindings for a term or for a reduction. They change nothing as long as they give the identifiers of
the term the same values.
-/

namespace TermReduction

-- Two bindings are alike to the identifiers `names`. What they bind to the names of constants is never
-- looked up.
def Bindings.Agree (b c : Bindings) (names : List String) : Prop :=
  ∀ x ∈ names, isConstantName x = false → b.get? x = c.get? x

instance (b c : Bindings) (names : List String) : Decidable (b.Agree c names) :=
  inferInstanceAs (Decidable (∀ x ∈ names, isConstantName x = false → b.get? x = c.get? x))

namespace Bindings.Agree

variable {b c : Bindings} {names names' : List String}

theorem nil (b c : Bindings) : b.Agree c [] :=
  fun _ hx => absurd hx List.not_mem_nil

theorem mono (hn : names' ⊆ names) (h : b.Agree c names) : b.Agree c names' :=
  fun x hx => h x (hn hx)

theorem lookup_eq (h : b.Agree c names) : ∀ x ∈ names, b.lookup x = c.lookup x := by
  intro x hx
  unfold lookup
  cases hc : isConstantName x
  case true  => rfl
  case false => rw [h x hx hc]

end Bindings.Agree

namespace Reduction

variable [Binary64.Elementary] {r r' : Reduction} {c : Bindings} {ss : List Step}

def withBindings (r : Reduction) (b : Bindings) : Reduction :=
  { r with bindings := b }

-- Steps bring no identifiers in, so bindings that agree at the start agree all along.
theorem Path.agree (h : r.Path ss r') (ha : r.bindings.Agree c r.root.identifiers) :
    r'.bindings.Agree c r'.root.identifiers :=
  h.keeps (P := fun r => r.bindings.Agree c r.root.identifiers)
    (fun hs ha => ha.mono (Phase.step_simplifies hs).identifiers_sublist.subset) ha

variable (ha : r.bindings.Agree c r.root.identifiers)
include ha

theorem step_withBindings : r.phase.step r.root c = r.phase.step r.root r.bindings :=
  (Phase.step_congr ha.lookup_eq).symm

theorem next_withBindings : (r.withBindings c).next = (r.next.1, r.next.2.withBindings c) := by
  simp only [next, withBindings, step_withBindings ha]
  cases r.phase.step r.root r.bindings <;> rfl

-- The induction is on the steps that are allowed, and agreement is what each step keeps.
theorem runFor_withBindings (n : Nat) :
    (r.withBindings c).runFor n = ((r.runFor n).1, (r.runFor n).2.withBindings c) := by
  induction n generalizing r
  case zero      =>
    by_cases hd : r.phase = .done
    case pos => rw [runFor_of_done hd, runFor_of_done (r := r.withBindings c) hd]
    case neg =>
      rw [runFor_zero hd, runFor_zero (r := r.withBindings c) hd]
      rfl
  case succ n ih =>
    by_cases hd : r.phase = .done
    case pos => rw [runFor_of_done hd, runFor_of_done (r := r.withBindings c) hd]
    case neg =>
      have hc : (r.withBindings c).phase ≠ .done := hd
      match hs : r.phase.step r.root r.bindings with
      | .error e =>
        have he := (step_withBindings ha).trans hs
        rw [(runFor_of_step_error hd hs).2, (runFor_of_step_error hc he).2]
      | .ok s    =>
        have he := (step_withBindings ha).trans hs
        have hi : ((r.withBindings c).advance s).runFor n =
            (((r.advance s).runFor n).1, ((r.advance s).runFor n).2.withBindings c) :=
          ih (Path.agree (.cons hs (.nil _)) ha)
        rw [(runFor_of_step_ok hd hs).2, (runFor_of_step_ok hc he).2, hi]

theorem call_withBindings : (k : Call) →
    (r.withBindings c).call k = ((r.call k).1, (r.call k).2.withBindings c)
  | .next => by rw [call, call, next_withBindings ha]
  | .run  => runFor_withBindings ha _

theorem callAll_withBindings (cs : List Call) :
    (r.withBindings c).callAll cs = (r.callAll cs).withBindings c := by
  induction cs generalizing r
  case nil          => rfl
  case cons k cs ih =>
    rw [callAll, callAll, call_withBindings ha]
    exact ih ((path_call r k).agree ha)

end Reduction

-- Bindings matter only through the identifiers that a term has and that are not names of constants. Under
-- any two that agree on these the term evaluates to the same value or fails with the same error, and so
-- does every call on its reduction, which goes through the same phases and terms. A term with a value has
-- no names of constants for identifiers, and all that it has are bound.
theorem Term.bindings_matter_through_identifiers [Binary64.Elementary] (t : Term) :
    (∀ b c, b.Agree c t.identifiers → t.eval b = t.eval c ∧
      ∀ limit calls,
        let r := (Reduction.start t b limit).callAll calls
        let s := (Reduction.start t c limit).callAll calls
        r.phase = s.phase ∧ r.root = s.root ∧ ∀ k, (r.call k).1 = (s.call k).1) ∧
    ∀ b v, t.eval b = .ok v → ∀ x ∈ t.identifiers, (∃ w, b.get? x = some w) ∧ x ≠ "e" ∧ x ≠ "pi" := by
  refine ⟨fun b c h => ⟨eval_congr t h.lookup_eq, fun limit calls => ?calls⟩, fun b v hv x hx => ?value⟩
  case calls =>
    intro r s
    have ha : r.bindings.Agree c r.root.identifiers :=
      (Reduction.path_callAll (Reduction.start t b limit) calls).agree h
    have hs : s = r.withBindings c := Reduction.callAll_withBindings (r := Reduction.start t b limit) h calls
    rw [hs]
    exact ⟨rfl, rfl, fun k => by rw [Reduction.call_withBindings ha k]⟩
  case value =>
    obtain ⟨hc, hb⟩ := exists_substitute_iff.1 (exists_substitute t hv) x hx
    refine ⟨hb, ?_, ?_⟩ <;> (rintro rfl; contradiction)

open scoped Binary64.Rounded

-- What is bound to a name that the term does not have is of no account, and neither is what is bound to the
-- name of a constant that it has.
theorem Term.bindings_matter_through_identifiers_constant :
    let x := Term.identifier "x"
    let t := Term.operation .sub [x, .operation .div [.literal (.integer 6), x]]
    let u := Term.operation .add [x, .identifier "e"]
    let b := (Bindings.empty.insert "x" (.integer 2)).insert "e" (.integer 3)
    let c := (Bindings.empty.insert "y" (.integer 7)).insert "x" (.integer 2)
    let s := (Reduction.start t c 2).callAll [.next]
    b.Agree c t.identifiers ∧ t.eval b = .ok (.integer (-1)) ∧ t.eval c = .ok (.integer (-1)) ∧
      (s.call .run).1 = .ok [["(", "-", "2", "3", ")"], ["-1"]] ∧ (∃ w, b.get? "x" = some w) ∧
        b.Agree c u.identifiers ∧ u.eval c = .error (.reservedIdentifier "e") := by
  intro x t u b c s
  have ht : b.Agree c t.identifiers := by decide +kernel
  have hu : b.Agree c u.identifiers := by decide +kernel
  have hv : t.eval b = .ok (.integer (-1)) := by decide +kernel
  have he : u.eval b = .error (.reservedIdentifier "e") := by decide +kernel
  have hr : (((Reduction.start t b 2).callAll [.next]).call .run).1 =
      .ok [["(", "-", "2", "3", ")"], ["-1"]] := by decide +kernel
  obtain ⟨hagree, hbound⟩ := bindings_matter_through_identifiers t
  obtain ⟨heval, hcalls⟩ := hagree b c ht
  have hw := (hbound b _ hv "x" List.mem_cons_self).1
  have hc := ((bindings_matter_through_identifiers u).1 b c hu).1
  exact ⟨ht, hv, heval.symm.trans hv, ((hcalls 2 [.next]).2.2 .run).symm.trans hr, hw, hu, hc.symm.trans he⟩

end TermReduction
