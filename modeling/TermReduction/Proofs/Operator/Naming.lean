import TermReduction.Operator.Application
import TermReduction.Proofs.Except

/-!
Errors that name an identifier. Arithmetic has nothing to do with identifiers, so however an operator
fails, its error names none.
-/

namespace TermReduction

-- `e.Names x` holds when the error says that the identifier `x` has no value.
inductive Error.Names : Error → String → Prop
  | undefined {x} : Names (.undefinedIdentifier x) x
  | reserved {x} : Names (.reservedIdentifier x) x

def Error.NamesNone (e : Error) : Prop :=
  ∀ x, ¬e.Names x

theorem Error.namesNone_ofOperand (v : Number) (rel : Relation) (n : Nat) :
    (Error.ofOperand v rel n).NamesNone := by
  unfold ofOperand
  split <;> exact nofun

namespace Fixed

theorem namesNone_round (x : Decimal) : (round x).FailsAs Error.NamesNone :=
  .ite (.error nofun) (.ok _)

theorem namesNone_quotient (x y : Decimal) : (quotient x y).FailsAs Error.NamesNone :=
  .ite (.error nofun) (.ok _)

theorem namesNone_sqrt (x : Decimal) : (sqrt x).FailsAs Error.NamesNone :=
  .ite (.error nofun) (.ok _)

theorem namesNone_negate (x : Fixed) : x.negate.FailsAs Error.NamesNone :=
  .ite (.error nofun) (.ok _)

end Fixed

namespace Decimal

variable (x y : Decimal)

theorem namesNone_fit : x.fit.FailsAs Error.NamesNone :=
  .ite (.error nofun) (.ite (.ok _) (.ok _))

theorem namesNone_powerOfTen (k : Int) : (powerOfTen k).FailsAs Error.NamesNone :=
  .ite (.error nofun) (namesNone_fit _)

variable [Binary64.Elementary]

theorem namesNone_log10 : x.log10.FailsAs Error.NamesNone :=
  .ite (.error nofun) (.ok _)

theorem namesNone_log10Fixed : x.log10Fixed.FailsAs Error.NamesNone :=
  x.namesNone_log10.map

theorem namesNone_ln : x.ln.FailsAs Error.NamesNone :=
  x.namesNone_log10.bind fun _ => Fixed.namesNone_quotient _ _

theorem namesNone_log : (x.log y).FailsAs Error.NamesNone :=
  x.namesNone_log10.bind fun _ => y.namesNone_log10.bind fun _ => Fixed.namesNone_quotient _ _

theorem namesNone_antilog : x.antilog.FailsAs Error.NamesNone :=
  (namesNone_powerOfTen _).bind fun _ => namesNone_fit _

theorem namesNone_power : (x.power y).FailsAs Error.NamesNone :=
  x.namesNone_log10Fixed.bind fun _ => (namesNone_fit _).bind fun _ => namesNone_antilog _

theorem namesNone_exp : x.exp.FailsAs Error.NamesNone :=
  (namesNone_fit _).bind fun _ => namesNone_antilog _

end Decimal

namespace Number

variable (v w : Number)

theorem namesNone_round (x : Decimal) : (round x).FailsAs Error.NamesNone :=
  (Fixed.namesNone_round x).map

theorem namesNone_ensureNonZero : v.ensureNonZero.FailsAs Error.NamesNone :=
  .ite (.error (Error.namesNone_ofOperand _ _ _)) (.ok _)

theorem namesNone_ensurePositive : v.ensurePositive.FailsAs Error.NamesNone :=
  .ite (.ok _) (.error (Error.namesNone_ofOperand _ _ _))

theorem namesNone_positiveFixed : v.positiveFixed.FailsAs Error.NamesNone :=
  v.namesNone_ensurePositive.bind fun _ => .ite (.error (Error.namesNone_ofOperand _ _ _)) (.ok _)

theorem namesNone_neg : v.neg.FailsAs Error.NamesNone := by
  cases v
  case integer  => exact .ok _
  case rational => exact .ok _
  case real x   => exact x.namesNone_negate.map

theorem namesNone_div : (v.div w).FailsAs Error.NamesNone :=
  w.namesNone_ensureNonZero.bind fun _ => .ite (Fixed.namesNone_quotient _ _).map (.ok _)

theorem namesNone_inv : v.inv.FailsAs Error.NamesNone :=
  v.namesNone_ensureNonZero.bind fun _ => .ite (Fixed.namesNone_quotient _ _).map (.ok _)

theorem namesNone_sqrt : v.sqrt.FailsAs Error.NamesNone :=
  .ite (.error (Error.namesNone_ofOperand _ _ _)) (Fixed.namesNone_sqrt _).map

variable [Binary64.Elementary]

theorem namesNone_pow : (v.pow w).FailsAs Error.NamesNone := by
  refine v.namesNone_ensurePositive.bind fun _ => w.namesNone_ensurePositive.bind fun _ => ?_
  split
  case h_1 => exact .ok _
  case h_2 => exact .ok _
  case h_3 =>
    exact v.namesNone_positiveFixed.bind fun _ => (Decimal.namesNone_power _ _).bind namesNone_round

theorem namesNone_exp : v.exp.FailsAs Error.NamesNone :=
  v.namesNone_ensurePositive.bind fun _ => (Decimal.namesNone_exp _).bind namesNone_round

theorem namesNone_ln : v.ln.FailsAs Error.NamesNone :=
  v.namesNone_positiveFixed.bind fun _ => (Decimal.namesNone_ln _).map

theorem namesNone_log : (v.log w).FailsAs Error.NamesNone :=
  v.namesNone_positiveFixed.bind fun _ => w.namesNone_positiveFixed.bind fun _ =>
    .ite (.error (Error.namesNone_ofOperand _ _ _)) (Decimal.namesNone_log _ _).map

end Number

theorem Operator.namesNone_apply [Binary64.Elementary] (op : Operator) (vs : List Number) :
    (op.apply vs).FailsAs Error.NamesNone := by
  unfold apply
  split
  case h_1  => exact .ok _
  case h_2  => exact .ok _
  case h_3  => exact Number.namesNone_neg _
  case h_4  => exact .ok _
  case h_5  => exact Number.namesNone_inv _
  case h_6  => exact Number.namesNone_div _ _
  case h_7  => exact Number.namesNone_exp _
  case h_8  => exact Number.namesNone_ln _
  case h_9  => exact Number.namesNone_sqrt _
  case h_10 => exact Number.namesNone_pow _ _
  case h_11 => exact Number.namesNone_log _ _
  case h_12 => exact .error nofun

end TermReduction
