import TermReduction.Text.Pattern

/-!
The patterns of spelt numbers.
-/

namespace TermReduction.Numeral

def isSign (c : Char) : Bool :=
  c = '+' || c = '-'

def isExponentMark (c : Char) : Bool :=
  c = 'e' || c = 'E'

-- An optional sign and digits.
def integerPattern : Pattern :=
  .seq (.optional (.one isSign)) (.some Char.isDigit)

-- Digits with a point among them or behind them, or none.
def pointedPattern : Pattern :=
  .seq (.some Char.isDigit) (.seq (.optional (.one (· = '.'))) (.many Char.isDigit))

-- Digits behind a point.
def placesPattern : Pattern :=
  .seq (.one (· = '.')) (.some Char.isDigit)

def exponentPattern : Pattern :=
  .seq (.one isExponentMark) integerPattern

-- An optional sign, digits with or without a point, and an optional exponent.
def decimalPattern : Pattern :=
  .seq (.optional (.one isSign))
    (.seq (.either pointedPattern placesPattern) (.optional exponentPattern))

-- An optional minus sign and two runs of digits with a slash between them.
def ratioPattern : Pattern :=
  .seq (.optional (.one (· = '-')))
    (.seq (.some Char.isDigit) (.seq (.one (· = '/')) (.some Char.isDigit)))

end TermReduction.Numeral
