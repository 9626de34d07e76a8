import Chip8.Text.Numeral

/-!
# Comparators

A comparator is a condition on a number, as breakpoints use it.

## Main definitions

* `Relation`, `Comparator`, `Comparator.check`, `Comparator.text`.
-/

namespace Chip8

/-- How a number stands to a bound. -/
inductive Relation where
  | lt | le | eq | ne | ge | gt
  deriving DecidableEq, Repr

namespace Relation

/-- Whether a number stands so to a bound. -/
def holds (r : Relation) (value bound : UInt16) : Bool :=
  match r with
  | lt => value < bound
  | le => value ≤ bound
  | eq => value = bound
  | ne => value ≠ bound
  | ge => bound ≤ value
  | gt => bound < value

/-- The sign of a relation. -/
def symbol : Relation → String
  | lt => "<"
  | le => "<="
  | eq => "=="
  | ne => "!="
  | ge => ">="
  | gt => ">"

end Relation

/-- A condition on a number. -/
inductive Comparator where
  | never
  | is (relation : Relation) (bound : UInt16)
  | always
  deriving DecidableEq, Repr

namespace Comparator

/-- Whether a number meets the condition. -/
def check (c : Comparator) (value : UInt16) : Bool :=
  match c with
  | never => false
  | is relation bound => relation.holds value bound
  | always => true

/-- A comparator as it is shown. -/
def text : Comparator → String
  | never => "never"
  | is relation bound => relation.symbol ++ " " ++ Text.decimal bound.toNat
  | always => "always"

end Comparator

end Chip8
