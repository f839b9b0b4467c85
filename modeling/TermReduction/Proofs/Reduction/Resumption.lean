import TermReduction.Proofs.Reduction.Rebinding
import TermReduction.Proofs.Term.Text

/-!
A reduction can be resumed from what it shows. The tokens of each step are read as the root behind that
step, and a new reduction of that root, whatever its bindings, makes the rest of the steps.
-/

namespace TermReduction.Reduction

variable {r r' : Reduction} {n m k : Nat} {c : Bindings}
variable {tokens : List String} {shown rest : List (List String)}

theorem Fits.start_eq (hf : r.Fits) (c : Bindings) : start r.root c r.limit = r.withBindings c := by
  rw [start, ← hf]
  rfl

section

variable [Binary64.Elementary]

theorem runFor_eq_ok_nil : r.runFor n = (.ok [], r') ↔ r.phase = .done ∧ r = r' := by
  by_cases hd : r.phase = .done
  case pos => simp [runFor_of_done, hd]
  case neg =>
    cases n
    case zero   => simp [runFor_zero hd, hd]
    case succ n => simp [runFor_succ_eq_ok hd, hd]

-- The tokens that a run begins with are those of its first step.
theorem runFor_eq_ok_cons : r.runFor n = (.ok (tokens :: rest), r') ↔
    r.phase ≠ .done ∧ ∃ m s, n = m + 1 ∧ r.next = (.ok tokens, s) ∧ s.runFor m = (.ok rest, r') := by
  by_cases hd : r.phase = .done
  case pos => simp [runFor_of_done, hd]
  case neg =>
    cases n
    case zero   => simp [runFor_zero hd]
    case succ n => simp [runFor_succ_eq_ok hd, hd]

-- A run that arrives does so under any higher limit as well.
theorem runFor_mono (h : r.runFor n = (.ok shown, r')) (hn : n ≤ m) :
    r.runFor m = (.ok shown, r') := by
  induction shown generalizing r n m
  case nil                 => exact runFor_eq_ok_nil.2 (runFor_eq_ok_nil.1 h)
  case cons tokens rest ih =>
    have ⟨hd, n', s, he, hs, hr⟩ := runFor_eq_ok_cons.1 h
    exact runFor_eq_ok_cons.2 ⟨hd, m - 1, s, by omega, hs, ih hr (by omega)⟩

theorem callAll_replicate_succ (r : Reduction) (k : Nat) :
    r.callAll (.replicate (k + 1) .next) = (r.callAll (.replicate k .next)).next.2 := by
  rw [List.replicate_succ', callAll_append]
  rfl

-- A run that arrives goes through what single steps lead to.
theorem runFor_drop (h : r.runFor n = (.ok shown, r')) (hk : k ≤ shown.length) :
    ∃ ss m, m ≤ n ∧ r.Path ss (r.callAll (.replicate k .next)) ∧
      (r.callAll (.replicate k .next)).runFor m = (.ok (shown.drop k), r') := by
  induction k generalizing r n shown
  case zero      => exact ⟨[], n, Nat.le_refl n, .nil r, h⟩
  case succ k ih =>
    match shown with
    | tokens :: rest =>
      have ⟨_, m, s, he, hs, hr⟩ := runFor_eq_ok_cons.1 h
      have ⟨ss, m', hm, hp, hr'⟩ := ih hr (Nat.le_of_succ_le_succ hk)
      have hc : (r.call .next).2 = s := congrArg Prod.snd hs
      have ⟨st, hst, _, ha⟩ := next_eq_ok.1 hs
      rw [List.replicate_succ, callAll, hc]
      exact ⟨st :: ss, m', by omega, .cons hst (ha ▸ hp), hr'⟩

-- The root behind a step is what the step has shown, and it has no identifiers.
theorem Fits.shown_by_next (hf : r.Fits) (hd : r.phase ≠ .done) (h : r.next = (.ok tokens, r')) :
    r'.root.tokens = tokens ∧ r'.root.Writable ∧ r'.root.identifiers = [] := by
  have ⟨s, hs, ht, hr⟩ := next_eq_ok.1 h
  have ⟨ha, _, hw⟩ := Phase.step_eq_ok.1 hs
  cases hr
  refine ⟨ht, hw, ?identifiers⟩
  case identifiers => exact Phase.identifiers_initial_act (hf ▸ hd) (hf ▸ ha)

-- Each list of tokens of a run that arrives spells the root behind its step, so that the run can be
-- resumed from it: a new reduction shows what the run has shown after it, and arrives at the same root.
theorem run_resumes {t : Term} {b : Bindings} {limit : Int} (ht : t.WellFormed) (hb : b.WellFormed)
    (h : (start t b limit).run = (.ok shown, r)) (hk : shown[k]? = some tokens) :
    let s := (start t b limit).callAll (.replicate (k + 1) .next)
    Term.ofTokens tokens = .ok s.root ∧
      ∀ c, ∃ r', (start s.root c limit).run = (.ok (shown.drop (k + 1)), r') ∧ r'.root = r.root := by
  intro s
  have ⟨hlt, he⟩ := List.getElem?_eq_some_iff.1 hk
  have ⟨ss, m, hm, hp, hr⟩ := runFor_drop h (Nat.le_of_lt hlt)
  rw [List.drop_eq_getElem_cons hlt, he] at hr
  have ⟨hd, m', s', hm', hn, hrest⟩ := runFor_eq_ok_cons.1 hr
  have hs : s = s' := by
    rw [← show _ = s' from congrArg Prod.snd hn]
    exact callAll_replicate_succ _ k
  have ⟨st, hst, _, ha⟩ := next_eq_ok.1 hn
  have hall : (start t b limit).Path (ss ++ [st]) s := hp.append (.cons hst (ha ▸ hs ▸ .nil s'))
  have ⟨hshown, hw, hi⟩ := (hp.fits rfl).shown_by_next hd (hs ▸ hn)
  have hl : s.limit = limit := hall.limit
  refine ⟨?read, fun c => ⟨r.withBindings c, ?rest, rfl⟩⟩
  case read => exact hshown ▸ (Term.derives_tokens (hall.wellFormed hb ht) hw).ofTokens_eq
  case rest =>
    have hb : s.bindings.Agree c s.root.identifiers := hi ▸ .nil s.bindings c
    have hc : (s.withBindings c).runFor m' = (.ok (shown.drop (k + 1)), r.withBindings c) := by
      rw [runFor_withBindings hb, hs, hrest]
    have hle : m' ≤ limit.toNat := by
      have : m ≤ limit.toNat := hm
      omega
    rw [← hl, (hall.fits rfl).start_eq c, run]
    exact runFor_mono hc (hl ▸ hle)

end

open scoped Binary64.Rounded

-- Negatives keep their kinds: a fraction over one is still a fraction, and a whole real still real.
theorem run_resumes_negatives :
    let t := Term.operation .add [.operation .sub [.literal (.rational ⟨4, 1⟩)],
      .operation .sub [.identifier "x"]]
    let u := Term.operation .add [.literal (.rational ⟨-4, 1⟩), .literal (.real ⟨-2000000000000000⟩)]
    let b := Bindings.empty.insert "x" (.real ⟨2000000000000000⟩)
    let first := ["(", "+", "(", "-", "4/1", ")", "(", "-", "2.0", ")", ")"]
    let second := ["(", "+", "-4/1", "-2.0", ")"]
    t.WellFormed ∧ b.WellFormed ∧ ∃ r, (start t b 3).run = (.ok [first, second, ["-6"]], r) ∧
      Term.ofTokens second = .ok u ∧
        ∃ r', (start u .empty 3).run = (.ok [["-6"]], r') ∧ r'.root = r.root := by
  intro t u b first second
  have ht : t.WellFormed := by decide +kernel
  have hb : b.WellFormed := Bindings.wellFormed_empty.insert (v := .real _) trivial "x"
  have ho : (start t b 3).run.1 = .ok [first, second, ["-6"]] := by decide +kernel
  have hu : ((start t b 3).callAll (.replicate 2 .next)).root = u := by decide +kernel
  have ⟨r, hr⟩ : ∃ r, (start t b 3).run = (.ok [first, second, ["-6"]], r) := by
    generalize (start t b 3).run = x at ho
    exact ⟨x.2, Prod.ext ho rfl⟩
  have ⟨hread, hrest⟩ := run_resumes (k := 1) ht hb hr rfl
  rw [hu] at hread hrest
  exact ⟨ht, hb, r, hr, hread, hrest .empty⟩

end TermReduction.Reduction
