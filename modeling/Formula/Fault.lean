/-
  Formula.Fault

  What can go wrong: the causes that this library knows, failures that a
  caller's function reports in words of its own, the category that each belongs
  to, and the message that each carries.

    * `Fault.category` — decides how a failure is treated.
    * `Fault.isContained` — whether evaluation turns the failure into the value
      that is no number. Failures of the four arithmetic categories are contained,
      all others leave the evaluation.
    * `Fault.message` — the wording, one text for each cause.
-/
import Formula.Decimal.ByteSize
import Formula.Text.Quoted

namespace Formula

/-- The category of a failure. The first four are arithmetic: an operand outside
    the domain, a division by zero, a result out of range and an operand that is
    no number. `unsupported` is an operation that a value does not have, `position` a
    place that a list does not have, `memory` a lack of room, and `other` is every
    category that a caller may add. -/
inductive Category where
  | value
  | zeroDivision
  | overflow
  | type
  | unsupported
  | position
  | memory
  | other (label : Text)
  deriving DecidableEq, Repr

/-- A failure, by its cause. -/
inductive Fault where
  /-- A text has the shape of a number and cannot be converted to one. -/
  | unreadable (text : Text)
  /-- A negative number of sample points was asked for. -/
  | negativeCount (count : Int)
  /-- More sample points were asked for than can be counted. -/
  | uncountable
  /-- A list of sample points has no last one. -/
  | noLastPoint
  /-- More sample points were asked for than can be addressed. -/
  | unaddressable
  /-- There is no room for a number of sample points. -/
  | noRoom (count : Nat)
  /-- The parts of a nested list have different sizes; the sizes that its parts agree
      on are carried. -/
  | irregular (sizes : List Nat)
  /-- A list is nested more deeply than the limit. -/
  | tooDeep (limit : Nat)
  /-- A value that is no number stands where a whole number is needed. -/
  | nanToInteger
  /-- An infinity stands where a whole number is needed. -/
  | infinityToInteger
  /-- A number token carries no number that could be written. -/
  | missingValue
  /-- An operation on floats meets a missing number. Where the operation has several
      operands, the position of the missing one is given. -/
  | missingOperand (operation : Text) (position : Option Nat)
  /-- The opposite of a missing number is asked for. -/
  | missingOpposite
  /-- A function answered with something that is no real number. -/
  | notReal (kind : Text)
  /-- The expression was given and left unfilled. -/
  | unfilledExpression
  /-- A point was given and left unfilled. -/
  | unfilledPoint
  /-- The binding at a position was given and left unfilled. -/
  | unfilledBinding (position : Nat)
  /-- The level of the log was given and left unfilled. -/
  | unfilledLogLevel
  /-- A text stands for no level of the log. -/
  | unknownLevel (text : Text)
  /-- Something that is neither a number nor a text stands where a level of the log
      is needed; it is carried as it is shown. -/
  | notLevel (shown : Text)
  | divisionByZero
  | outsideDomain
  | outOfRange
  /-- A failure that a caller's function reports. -/
  | reported (category : Category) (message : Text)
  deriving DecidableEq, Repr

namespace Fault

def category : Fault → Category
  | unreadable _ | negativeCount _ | nanToInteger | outsideDomain | unfilledBinding _
  | unknownLevel _ | uncountable | unaddressable | irregular _ | tooDeep _ => .value
  | divisionByZero => .zeroDivision
  | infinityToInteger | outOfRange => .overflow
  | missingValue | missingOperand _ _ | missingOpposite | notReal _ | unfilledExpression
  | unfilledPoint | notLevel _ => .type
  | unfilledLogLevel => .unsupported
  | noLastPoint => .position
  | noRoom _ => .memory
  | reported c _ => c

/-- The bytes that a number takes up. -/
def numberBytes : Nat := 8

/-- Sizes as they are shown; a comma follows one that stands alone. -/
def showSizes : List Nat → Text
  | [n] => "(".toList ++ decimal n ++ ",)".toList
  | ns => "(".toList ++ List.intercalate ", ".toList (ns.map decimal) ++ ")".toList

def message : Fault → Text
  | unreadable text => "could not convert string to float: ".toList ++ quoted text
  | negativeCount count =>
    "Number of samples, ".toList ++ signedDecimal count ++ ", must be non-negative.".toList
  | uncountable => "Maximum allowed size exceeded".toList
  | noLastPoint => "index -1 is out of bounds for axis 0 with size 0".toList
  | unaddressable =>
    "array is too big; `arr.size * arr.dtype.itemsize` is larger than ".toList ++
      "the maximum possible size.".toList
  | noRoom count =>
    "Unable to allocate ".toList ++ ByteSize.render (numberBytes * count) ++
      " for an array with shape ".toList ++ showSizes [count] ++
      " and data type float64".toList
  | irregular sizes =>
    "setting an array element with a sequence. The requested array has an inhomogeneous ".toList ++
      "shape after ".toList ++ decimal sizes.length ++
      " dimensions. The detected shape was ".toList ++ showSizes sizes ++
      " + inhomogeneous part.".toList
  | tooDeep limit =>
    "setting an array element with a sequence. The requested array would exceed the ".toList ++
      "maximum number of dimension of ".toList ++ decimal limit ++ ".".toList
  | nanToInteger => "cannot convert float NaN to integer".toList
  | infinityToInteger => "cannot convert float infinity to integer".toList
  | missingValue => "unsupported format string passed to NoneType.__format__".toList
  | missingOperand operation position =>
    "Cannot cast ufunc ".toList ++ quoted operation ++ " input ".toList ++
      (match position with
        | some n => decimal n ++ [' ']
        | none => []) ++
      "from dtype('O') to dtype('float64') with casting rule 'same_kind'".toList
  | missingOpposite => "unsupported operand type(s) for *: 'float' and 'NoneType'".toList
  | notReal kind =>
    "float() argument must be a string or a real number, not ".toList ++ quoted kind
  | unfilledExpression => "expected string or bytes-like object, got 'list'".toList
  | unfilledPoint => "unsupported format string passed to list.__format__".toList
  | unfilledBinding position =>
    "dictionary update sequence element #".toList ++ decimal position ++
      " has length 0; 2 is required".toList
  | unfilledLogLevel => "'list' object has no attribute 'upper'".toList
  | unknownLevel text => "Unknown level: ".toList ++ quoted text
  | notLevel shown => "Level not an integer or a valid string: ".toList ++ shown
  | divisionByZero => "float division by zero".toList
  | outsideDomain => "math domain error".toList
  | outOfRange => "math range error".toList
  | reported _ message => message

end Fault

/-- Whether failures of a category become the value that is no number. -/
def Category.isArithmetic : Category → Bool
  | .unsupported | .position | .memory | .other _ => false
  | _ => true

/-- Whether evaluation turns a failure into the value that is no number. -/
def Fault.isContained (f : Fault) : Bool :=
  f.category.isArithmetic

end Formula
