import TermReduction.Proofs.Operator.Naming
import TermReduction.Proofs.Reduction.History

/-!
Where errors that name an identifier come from. Whether a term is evaluated or reduced step by step, they
are errors of looking up an identifier that the term has had from the start.
-/

namespace TermReduction

-- If the error names an identifier, then one of `names`, and it is that of looking it up.
def Error.IsLookup (b : Bindings) (names : List String) (e : Error) : Prop :=
  ∀ x, e.Names x → x ∈ names ∧ b.lookup x = .error e

variable {b : Bindings} {e : Error} {names names' : List String}

theorem Error.NamesNone.isLookup (h : e.NamesNone) : e.IsLookup b names :=
  fun x hx => absurd hx (h x)

theorem Error.IsLookup.mono (hn : names ⊆ names') (h : e.IsLookup b names) : e.IsLookup b names' :=
  fun x hx => ⟨hn (h x hx).1, (h x hx).2⟩

theorem Error.IsLookup.append {α β : Type} {c : Except Error α} {f : α → Except Error β}
    (hc : c.FailsAs (IsLookup b names)) (hf : ∀ a, (f a).FailsAs (IsLookup b names')) :
    (c >>= f).FailsAs (IsLookup b (names ++ names')) :=
  (hc.mono fun _ => .mono (List.subset_append_left ..)).bind fun a =>
    (hf a).mono fun _ => .mono (List.subset_append_right ..)

theorem Bindings.names_of_lookup {x y : String} (h : b.lookup x = .error e) (hy : e.Names y) :
    y = x := by
  unfold lookup at h
  split at h
  case isTrue  => cases h; cases hy; rfl
  case isFalse => cases hg : b.get? x <;> rw [hg] at h <;> cases h; cases hy; rfl

theorem Bindings.lookup_failsAs (b : Bindings) (x : String) :
    (b.lookup x).FailsAs (Error.IsLookup b [x]) := by
  cases h : b.lookup x
  case ok    => exact .ok _
  case error =>
    intro y hy
    have hx : x = y := (names_of_lookup h hy).symm
    exact hx ▸ ⟨List.mem_cons_self, h⟩

namespace Term

mutual

theorem substitute_failsAs (b : Bindings) :
    (t : Term) → (t.substitute b).FailsAs (Error.IsLookup b t.identifiers)
  | literal _      => .ok _
  | identifier x   => (b.lookup_failsAs x).map
  | operation _ ts => (substituteAll_failsAs b ts).map

theorem substituteAll_failsAs (b : Bindings) :
    (ts : List Term) → (substituteAll b ts).FailsAs (Error.IsLookup b (identifiersAll ts))
  | []      => .ok _
  | t :: ts => Error.IsLookup.append (substitute_failsAs b t) fun _ => (substituteAll_failsAs b ts).map

end

variable [Binary64.Elementary]

mutual

theorem eval_failsAs (b : Bindings) : (t : Term) → (t.eval b).FailsAs (Error.IsLookup b t.identifiers)
  | literal _       => .ok _
  | identifier x    => b.lookup_failsAs x
  | operation op ts => (evalAll_failsAs b ts).bind fun vs =>
    (op.namesNone_apply vs).mono fun _ => Error.NamesNone.isLookup

theorem evalAll_failsAs (b : Bindings) :
    (ts : List Term) → (evalAll b ts).FailsAs (Error.IsLookup b (identifiersAll ts))
  | []      => .ok _
  | t :: ts => Error.IsLookup.append (eval_failsAs b t) fun _ => (evalAll_failsAs b ts).map

end

mutual

theorem foldInnermost_failsAs (b : Bindings) :
    (t : Term) → (t.foldInnermost b).FailsAs (Error.IsLookup b t.identifiers)
  | literal _       => .ok _
  | identifier _    => .ok _
  | operation op ts =>
    .ite (eval_failsAs b (operation op ts)).map (foldInnermostAll_failsAs b ts).map

theorem foldInnermostAll_failsAs (b : Bindings) :
    (ts : List Term) → (foldInnermostAll b ts).FailsAs (Error.IsLookup b (identifiersAll ts))
  | []      => .ok _
  | t :: ts => Error.IsLookup.append (foldInnermost_failsAs b t) fun _ => (foldInnermostAll_failsAs b ts).map

end

end Term

theorem Phase.step_failsAs [Binary64.Elementary] (phase : Phase) (t : Term) (b : Bindings) :
    (phase.step t b).FailsAs (Error.IsLookup b t.identifiers) := by
  refine .bind ?_ fun _ => .ite (.ok _) (.error nofun)
  cases phase
  case symbolic => exact (t.substitute_failsAs b).map
  case reducing => exact (t.foldInnermost_failsAs b).map
  case done     => exact .ok _

namespace Reduction

variable [Binary64.Elementary] {r r' : Reduction} {ss : List Step}

-- Steps bring no identifiers in.
theorem Path.identifiers_subset (h : r.Path ss r') : r'.root.identifiers ⊆ r.root.identifiers :=
  h.keeps (P := (·.root.identifiers ⊆ r.root.identifiers))
    (fun hs hr => List.Subset.trans (Phase.step_simplifies hs).identifiers_sublist.subset hr)
    (List.Subset.refl _)

theorem call_failsAs (r : Reduction) (c : Call) :
    (r.call c).1.FailsAs (Error.IsLookup r.bindings r.root.identifiers) := by
  cases h : (r.call c).1
  case ok      => exact .ok _
  case error e =>
    obtain hs | ⟨_, rfl, _⟩ := error_of_call h
    case inl =>
      exact ((Phase.step_failsAs _ _ _).of_eq hs).mono (path_call r c).identifiers_subset
    case inr => exact .error nofun

-- Calls in front of the last one leave it with no other identifiers and with the same bindings.
theorem call_failsAs_callAll (t : Term) (b : Bindings) (limit : Int) (cs : List Call) (c : Call) :
    (((start t b limit).callAll cs).call c).1.FailsAs (Error.IsLookup b t.identifiers) := by
  have hp := path_callAll (start t b limit) cs
  have hb : ((start t b limit).callAll cs).bindings = b := hp.bindings
  have hc := call_failsAs ((start t b limit).callAll cs) c
  rw [hb] at hc
  exact hc.mono fun _ => .mono hp.identifiers_subset

end Reduction

end TermReduction
