/-
  Formula.Samples

  Sample points: evenly spaced numbers, and lists of numbers nested to any depth.

    * `evenlySpaced start stop count` — `count` numbers from `start` to `stop`. The
      last one is `stop` itself; the others are multiples of the step added to
      `start`. Where the step vanishes although the ends differ, the distance is
      scaled instead. A count below zero or beyond `roomFor?` is refused.
    * `listLength count` — the length of the list that is asked for: the count as it
      is measured in floats.
    * `Samples.flatten` — all numbers of a nested list, from left to right.
    * `Samples.sizes` — the sizes of a nested list from the outside in, as far as all
      parts agree on them.
    * `Samples.numbers?` — the numbers of a regular nested list, one in which parts
      side by side have the same sizes; an irregular one is refused, and so is one of more
      than 64 levels.
-/
import Formula.Fault

namespace Formula

/-- The distance of sample `i` from the start, when `intervals` intervals cover
    `distance`. -/
def sampleOffset (distance : Float) (intervals i : Nat) : Float :=
  if intervals = 0 then Float.ofNat i * distance
  else
    let step := distance / Float.ofNat intervals
    if step == 0.0 then Float.ofNat i / Float.ofNat intervals * distance
    else Float.ofNat i * step

/-- Sample `i` of `count` samples from `start` to `stop`. -/
def sample (start stop : Float) (count i : Nat) : Float :=
  if 1 < count ∧ i + 1 = count then stop
  else sampleOffset (stop - start) (count - 1) i + start

/-- A count rounded to the 53 binary figures of a float, a tie to the even one. -/
def listLength (count : Nat) : Nat :=
  roundDiv count (Nat.pow 2 (Nat.log2 count - 52)) * Nat.pow 2 (Nat.log2 count - 52)

/-- Whether there is room for a list of a length. Lengths stay below `2 ^ 63`, and so do
    the bytes of all points; a list of 8 GiB is the least that is too large. The length
    `2 ^ 63` itself wraps round to a list without a last point. -/
def roomFor? (length : Nat) : Except Fault Unit :=
  if Nat.pow 2 63 < length then .error .uncountable
  else if length = Nat.pow 2 63 then .error .noLastPoint
  else if Nat.pow 2 63 ≤ Fault.numberBytes * length then .error .unaddressable
  else if Nat.pow 2 33 ≤ Fault.numberBytes * length then .error (.noRoom length)
  else .ok ()

/-- A number of evenly spaced points from `start` to `stop`. -/
def evenlySpaced (start stop : Float) (count : Int) : Except Fault (List Float) :=
  if count < 0 then .error (.negativeCount count)
  else
    (roomFor? (listLength count.toNat)).map fun _ =>
      (List.range count.toNat).map (sample start stop count.toNat)

/-- The number of points where the caller asks for none in particular. -/
def defaultSampleCount : Int := 11

/-- Numbers, nested to any depth. -/
inductive Samples where
  | one (x : Float)
  | many (parts : List Samples)

mutual

def Samples.flatten : Samples → List Float
  | .one x => [x]
  | .many parts => Samples.flattenAll parts

def Samples.flattenAll : List Samples → List Float
  | [] => []
  | part :: parts => part.flatten ++ Samples.flattenAll parts

end

/-- The longest common beginning of two lists of sizes. -/
def commonSizes : List Nat → List Nat → List Nat
  | m :: ms, n :: ns => if m = n then m :: commonSizes ms ns else []
  | _, _ => []

mutual

/-- The sizes of a nested list, from the outside in, as far as all parts agree. -/
def Samples.sizes : Samples → List Nat
  | .one _ => []
  | .many parts => parts.length :: Samples.sizesOfAll parts

/-- The sizes on which nested lists side by side agree. -/
def Samples.sizesOfAll : List Samples → List Nat
  | [] => []
  | [part] => part.sizes
  | part :: parts => commonSizes part.sizes (Samples.sizesOfAll parts)

end

mutual

/-- Whether parts side by side have the same sizes, at every depth. -/
def Samples.isRegular : Samples → Bool
  | .one _ => true
  | .many parts => Samples.areAlike parts

/-- Whether nested lists are regular and have the same sizes. -/
def Samples.areAlike : List Samples → Bool
  | [] => true
  | part :: parts =>
    part.isRegular && Samples.areAlike parts &&
      (parts.head?.map Samples.sizes).all (· == part.sizes)

end

/-- The number of levels that a nested list may have. -/
def Samples.deepest : Nat := 64

/-- The numbers of a regular nested list, from left to right. Levels beyond the deepest one are
    not looked at, so parts that differ only there are not told apart. -/
def Samples.numbers? (s : Samples) : Except Fault (List Float) :=
  if s.isRegular && s.sizes.length ≤ deepest then .ok s.flatten
  else if s.sizes.length < deepest then .error (.irregular s.sizes)
  else .error (.tooDeep deepest)

end Formula
