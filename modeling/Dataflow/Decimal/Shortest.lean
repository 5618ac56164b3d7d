/-! # The shortest decimal of a binary number

A positive binary number `m * 2 ^ q` owns the interval of reals that round to it, its ends
included when `m` is even. For growing digit counts the two decimals beside the number are
tried, and the first grid with a decimal in the interval wins; of two, the nearer one.
Everything is computed in natural numbers over a common denominator.
-/
namespace Dataflow.Decimal

/-- `digits * 10 ^ exponent` -/
structure Scientific where
  digits : Nat
  exponent : Int
deriving DecidableEq, Inhabited

/-- A number, the ends of its rounding interval and whether they belong to it, all over one
denominator. -/
structure Interval where
  low : Nat
  value : Nat
  high : Nat
  denominator : Nat
  closed : Bool

/-- The interval of `m * 2 ^ q`. Below a power of two the spacing halves. -/
def Interval.ofBinary (m : Nat) (q : Int) (narrow : Bool) : Interval :=
  let up := (q - 2).toNat
  let down := (2 - q).toNat
  let scale := Nat.pow 2 up
  { low := (if narrow then 4 * m - 1 else 4 * m - 2) * scale
    value := 4 * m * scale
    high := (4 * m + 2) * scale
    denominator := Nat.pow 2 down
    closed := m % 2 == 0 }

def placesToOne (n d : Nat) : Nat → Nat → Nat
  | 0, j => j
  | fuel + 1, j => if d ≤ n * Nat.pow 10 j then j else placesToOne n d fuel (j + 1)

/-- The exponent of the leading digit of `n / d`; no double is below `10 ^ (-324)`. -/
def leadingExponent (n d : Nat) : Int :=
  if d ≤ n then (Nat.toDigits 10 (n / d)).length - 1
  else -(placesToOne n d 400 1 : Int)

namespace Interval

def holds (i : Interval) (s : Scientific) : Bool :=
  let up := Nat.pow 10 s.exponent.toNat
  let down := Nat.pow 10 (-s.exponent).toNat
  let x := s.digits * up * i.denominator
  let low := i.low * down
  let high := i.high * down
  if i.closed then low ≤ x && x ≤ high else low < x && x < high

/-- The two neighbors of the value among the multiples of `10 ^ exponent`, the nearer first. -/
def beside (i : Interval) (exponent : Int) : List Scientific :=
  let up := Nat.pow 10 exponent.toNat
  let down := Nat.pow 10 (-exponent).toNat
  let n := i.value * down
  let d := i.denominator * up
  let floor : Scientific := ⟨n / d, exponent⟩
  let ceiling : Scientific := ⟨n / d + 1, exponent⟩
  let twice := 2 * (n % d)
  if twice < d || (twice == d && n / d % 2 == 0) then [floor, ceiling] else [ceiling, floor]

def shortestFrom (i : Interval) (leading : Int) : Nat → Nat → Scientific
  | 0, _ => ⟨i.value / i.denominator, 0⟩
  | fuel + 1, count =>
    match (i.beside (leading - count + 1)).find? i.holds with
    | some s => s
    | none => shortestFrom i leading fuel (count + 1)

/-- Seventeen digits always suffice. -/
def shortest (i : Interval) : Scientific :=
  i.shortestFrom (leadingExponent i.value i.denominator) 17 1

end Interval

def Scientific.strip : Nat → Scientific → Scientific
  | 0, s => s
  | fuel + 1, s =>
    if s.digits ≠ 0 ∧ s.digits % 10 = 0 then strip fuel ⟨s.digits / 10, s.exponent + 1⟩ else s

def Scientific.trim (s : Scientific) : Scientific := s.strip 20

def hiddenBit : Nat := 0x10000000000000

def exponentRange : Nat := 0x800

def ofFinite (x : Float) : Scientific :=
  let bits := x.toBits.toNat
  let fraction := bits % hiddenBit
  let exponent : Nat := bits / hiddenBit % exponentRange
  if exponent = 0 then
    if fraction = 0 then ⟨0, 0⟩ else (Interval.ofBinary fraction (-1074) false).shortest.trim
  else
    (Interval.ofBinary (hiddenBit + fraction) ((exponent : Int) - 1075)
      (fraction == 0 && exponent != 1)).shortest.trim

end Dataflow.Decimal
