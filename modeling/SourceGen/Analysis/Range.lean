import SourceGen.Tree.Basic

/-!
# Literal ranges

Integer literals and the number of elements of a range between two of them. Integers are 64 bits
wide: a literal or a step of the count that does not fit has no value.

## Main definitions

* `Expr.integer?`: the value of an integer literal.
* `Range`: the parts of a range.
* `Range.count?`: the number of elements of a range with literal bounds.
-/

namespace SourceGen

/-- The integer, if it fits into 64 bits. -/
def fitsWord (n : Int) : Option Int :=
  if -9223372036854775808 ≤ n ∧ n ≤ 9223372036854775807 then some n else none

/-- The value of decimal digits. -/
def digitsValue (cs : List Char) : Nat :=
  cs.foldl (fun n c => 10 * n + (c.toNat - '0'.toNat)) 0

/-- The value of a nonempty sequence of decimal digits. -/
def digits? (cs : List Char) : Option Int :=
  if cs.isEmpty || !cs.all Char.isDigit then none else some (digitsValue cs)

/-- The value of a number text: an optional sign and decimal digits, which may have underscores
anywhere. -/
def integerText? (text : String) : Option Int :=
  match text.toList.filter (· != '_') with
  | '+' :: cs => (digits? cs).bind fitsWord
  | '-' :: cs => (digits? cs).bind fun n => fitsWord (-n)
  | cs => (digits? cs).bind fitsWord

/-- The value of an integer literal, possibly behind minus signs. -/
def Expr.integer? : Expr → Option Int
  | .literal (.number text) => integerText? text
  | .unary .minus operand false => operand.integer?.bind fun n => fitsWord (-n)
  | _ => none

/-- The parts of a range; an omitted start is zero. -/
structure Range where
  start : Option Expr
  stop : Option Expr
  inclusive : Bool

namespace Range

/-- The parts of an expression that is a range. -/
def of? : Expr → Option Range
  | .range start stop inclusive => some ⟨start, stop, inclusive⟩
  | _ => none

/-- The value of the start, if it is a literal or omitted. -/
def startValue? (r : Range) : Option Int :=
  match r.start with
  | some start => start.integer?
  | none => some 0

/-- The number of elements, if both bounds are literals and every step fits. -/
def count? (r : Range) : Option Int := do
  let start ← r.startValue?
  let stop ← (← r.stop).integer?
  -- A range that runs far backwards has no count either, although it is empty.
  let difference ← fitsWord (stop - start)
  let count ← fitsWord (difference + if r.inclusive then 1 else 0)
  return max count 0

/-- Both bounds are literals; an omitted start counts as one, an omitted end does not. -/
def hasLiteralBounds (r : Range) : Bool :=
  r.startValue?.isSome && (r.stop.bind Expr.integer?).isSome

end Range

end SourceGen
