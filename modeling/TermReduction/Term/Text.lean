import TermReduction.Term.Basic
import TermReduction.Token

/-!
The two written forms of a term: its tokens, and its text with blanks between them. A term with an
integer that is too long has neither.
-/

namespace TermReduction.Term

mutual

-- The numbers of a term, from left to right.
def literals : Term → List Number
  | literal v      => [v]
  | identifier _   => []
  | operation _ ts => literalsAll ts

def literalsAll : List Term → List Number
  | []      => []
  | t :: ts => literals t ++ literalsAll ts

end

def Writable (t : Term) : Prop :=
  ∀ v ∈ t.literals, v.Writable

instance : DecidablePred Writable :=
  fun t => inferInstanceAs (Decidable (∀ v ∈ t.literals, v.Writable))

mutual

def tokens : Term → List String
  | literal v       => [v.text]
  | identifier x    => [x]
  | operation op ts => Token.opening :: op.symbol :: tokensAll ts ++ [Token.closing]

def tokensAll : List Term → List String
  | []      => []
  | t :: ts => tokens t ++ tokensAll ts

end

mutual

def text : Term → String
  | literal v       => v.text
  | identifier x    => x
  | operation op ts => Token.opening ++ op.symbol ++ textAll ts ++ Token.closing

-- The texts of the operands, with a blank before each.
def textAll : List Term → String
  | []      => ""
  | t :: ts => " " ++ text t ++ textAll ts

end

def write (t : Term) : Except Error String :=
  if t.Writable then .ok t.text else .error .tooManyDigits

def writeTokens (t : Term) : Except Error (List String) :=
  if t.Writable then .ok t.tokens else .error .tooManyDigits

end TermReduction.Term
