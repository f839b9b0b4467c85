import TermReduction.Error

/-!
The operators, their symbols and how many operands each of them takes.
-/

namespace TermReduction

-- A range of numbers of operands, without an upper end if there is no maximum.
structure Arity where
  minimum : Nat
  maximum : Option Nat
deriving DecidableEq

namespace Arity

def any : Arity := ⟨0, none⟩

def atLeastOne : Arity := ⟨1, none⟩

def one : Arity := ⟨1, some 1⟩

def two : Arity := ⟨2, some 2⟩

def Accepts (a : Arity) (count : Int) : Prop :=
  a.minimum ≤ count ∧ ∀ m ∈ a.maximum, count ≤ m

instance (a : Arity) (count : Int) : Decidable (a.Accepts count) :=
  match h : a.maximum with
  | none   => decidable_of_iff (a.minimum ≤ count) (by simp [Accepts, h])
  | some m => decidable_of_iff (a.minimum ≤ count ∧ count ≤ m) (by simp [Accepts, h])

def check (a : Arity) (count : Int) : Except Error Unit :=
  if a.Accepts count then .ok () else .error (.arity count a.minimum a.maximum)

end Arity

inductive Operator
  | add
  | sub
  | mul
  | div
  | exp
  | expt
  | ln
  | log
  | sqrt
deriving DecidableEq

namespace Operator

def all : List Operator :=
  [add, sub, mul, div, exp, expt, ln, log, sqrt]

def symbol : Operator → String
  | add  => "+"
  | sub  => "-"
  | mul  => "*"
  | div  => "/"
  | exp  => "exp"
  | expt => "expt"
  | ln   => "ln"
  | log  => "log"
  | sqrt => "sqrt"

def arity : Operator → Arity
  | add | mul       => .any
  | sub | div       => .atLeastOne
  | exp | ln | sqrt => .one
  | expt | log      => .two

def ofSymbol? (symbol : String) : Option Operator :=
  all.find? (·.symbol = symbol)

def ofSymbol (symbol : String) : Except Error Operator :=
  (ofSymbol? symbol).elim (.error (.unknownOperator symbol)) .ok

theorem ofSymbol?_symbol (op : Operator) : ofSymbol? op.symbol = some op := by
  cases op <;> decide

theorem symbol_of_ofSymbol? {s : String} {op : Operator} (h : ofSymbol? s = some op) :
    op.symbol = s := by
  simpa using List.find?_some h

theorem ofSymbol_eq_ok {s : String} {op : Operator} : ofSymbol s = .ok op ↔ op.symbol = s := by
  constructor
  case mp =>
    intro h
    cases hs : ofSymbol? s <;> rw [ofSymbol, hs] at h
    case none => contradiction
    case some => exact Except.ok.inj h ▸ symbol_of_ofSymbol? hs
  case mpr =>
    rintro rfl
    rw [ofSymbol, ofSymbol?_symbol]
    rfl

end Operator

end TermReduction
