import TermReduction.Number.Text

/-!
The two constants. Their names are reserved: they stand for their literals in a list of tokens and
are never looked up as variables.
-/

namespace TermReduction

inductive Constant
  | e
  | pi
deriving DecidableEq

namespace Constant

def all : List Constant := [e, pi]

def name : Constant → String
  | e  => "e"
  | pi => "pi"

def value : Constant → Number
  | e  => .real ⟨2718281828459045⟩
  | pi => .real ⟨3141592653589793⟩

def ofName? (name : String) : Option Constant :=
  all.find? (·.name = name)

theorem ofName?_name (c : Constant) : ofName? c.name = some c := by
  cases c <;> rfl

end Constant

def isConstantName (name : String) : Bool :=
  (Constant.ofName? name).isSome

-- The literal of a constant in place of its name, and every other token as it is.
def expandConstant (token : String) : String :=
  (Constant.ofName? token).elim token (·.value.text)

def expandConstants (tokens : List String) : List String :=
  tokens.map expandConstant

end TermReduction
