import Dataflow.Decimal.Written
import Dataflow.Json.Reader

/-! # Numbers

A number without point or exponent is an integer as long as it fits 64 bits. Every other
number is a double: its digits are gathered in 64 bits, further digits only shift the
exponent, and one multiplication or division by a power of ten follows.
-/
namespace Dataflow.Json

inductive Number where
  | natural (value : Nat)
  | negative (magnitude : Nat)
  | float (value : Float)

def Number.found : Number → Found
  | natural value => .integer value
  | negative magnitude => .integer (-magnitude)
  | float value => .decimal (Decimal.written value)

/-- Magnitudes from here on do not fit a signed word of 64 bits, or only below zero. -/
def signedLimit : Nat := 0x8000000000000000

def isDigit (c : Char) : Bool := '0' ≤ c && c ≤ '9'

def digitValue (c : Char) : Nat := c.toNat - '0'.toNat

def isExponentMark (c : Char) : Bool := c = 'e' || c = 'E'

/-- Digits gathered so far, how many of them count, and how many were left out. -/
structure Digits where
  value : Nat
  taken : Nat
  dropped : Nat

/-- After the first digit that does not fit 64 bits all others are left out too. -/
def Digits.push (d : Digits) (c : Char) : Digits :=
  let next := d.value * 10 + digitValue c
  if d.dropped = 0 ∧ next < UInt64.size then ⟨next, d.taken + 1, 0⟩
  else { d with dropped := d.dropped + 1 }

def gather (value : Nat) (cs : List Char) : Digits := cs.foldl Digits.push ⟨value, 0, 0⟩

def powerOfTen (n : Nat) : Float := Float.ofScientific 1 false n

/-- The greatest power of ten below infinity. -/
def greatestPower : Nat := 308

def shrink (x : Float) (places : Nat) : Float :=
  if places ≤ greatestPower then x / powerOfTen places
  else if x == 0 then x
  else shrink (x / powerOfTen greatestPower) (places - greatestPower)
termination_by places
decreasing_by simp only [greatestPower] at *; omega

def assemble (negative : Bool) (value : Nat) (exponent : Int) : Except Fault Float :=
  let x := value.toUInt64.toFloat
  let signed (x : Float) : Except Fault Float := .ok (if negative then -x else x)
  match exponent with
  | .negSucc n => signed (shrink x (n + 1))
  | .ofNat n =>
    if n ≤ greatestPower then
      let y := x * powerOfTen n
      if y.isInf then .error (.malformed .tooLarge) else signed y
    else if x == 0 then signed x
    else .error (.malformed .tooLarge)

/-- The greatest exponent that is taken at its word. -/
def exponentLimit : Nat := 0x80000000

/-- The exponent behind its mark: sign and magnitude. -/
def readExponent (rest : List Char) : Except Fault ((Bool × Nat) × List Char) :=
  let (negative, rest) := match rest with
    | '+' :: rest => (false, rest)
    | '-' :: rest => (true, rest)
    | rest => (false, rest)
  match rest with
  | [] => .error (.ended .value)
  | c :: _ =>
    if isDigit c then
      let digits := rest.takeWhile isDigit
      .ok ((negative, digits.foldl (fun n c => n * 10 + digitValue c) 0), rest.dropWhile isDigit)
    else .error (.malformed .number)

def withExponent (negative : Bool) (value : Nat) (start : Int) (rest : List Char) :
    Except Fault (Float × List Char) := do
  let ((down, power), rest) ← readExponent rest
  if exponentLimit ≤ power then
    if value ≠ 0 ∧ !down then .error (.malformed .tooLarge)
    else return (if negative then -0 else 0, rest)
  else
    let x ← assemble negative value (if down then start - power else start + power)
    return (x, rest)

/-- A double whose point or exponent mark is next, or that ends here. -/
def readFloat (negative : Bool) (whole : Digits) (rest : List Char) :
    Except Fault (Float × List Char) :=
  let exponent : Int := whole.dropped
  match rest with
  | '.' :: rest => do
    let places := rest.takeWhile isDigit
    let rest := rest.dropWhile isDigit
    if places.isEmpty then
      .error (if rest.isEmpty then .ended .value else .malformed .number)
    else
      let all := gather whole.value places
      let exponent := exponent - all.taken
      match rest with
      | c :: behind =>
        if isExponentMark c then withExponent negative all.value exponent behind
        else return (← assemble negative all.value exponent, rest)
      | [] => return (← assemble negative all.value exponent, rest)
  | c :: behind =>
    if isExponentMark c then withExponent negative whole.value exponent behind
    else do return (← assemble negative whole.value exponent, rest)
  | [] => do return (← assemble negative whole.value exponent, rest)

def startsFloat : List Char → Bool
  | c :: _ => c = '.' || isExponentMark c
  | [] => false

/-- The leading digits of a number: a zero stands alone. -/
def readWhole (rest : List Char) : Except Fault (Digits × List Char) :=
  match rest with
  | [] => .error (.ended .value)
  | '0' :: rest =>
    if (rest.takeWhile isDigit).isEmpty then .ok (⟨0, 1, 0⟩, rest) else .error (.malformed .number)
  | c :: _ =>
    if isDigit c then .ok (gather 0 (rest.takeWhile isDigit), rest.dropWhile isDigit)
    else .error (.malformed .number)

/-- A number behind its sign. Minus zero and what is below 64 bits are doubles. -/
def readNumber (negative : Bool) (rest : List Char) : Except Fault (Number × List Char) := do
  let (whole, rest) ← readWhole rest
  if startsFloat rest || whole.dropped ≠ 0 then
    let (x, rest) ← readFloat negative whole rest
    return (.float x, rest)
  else if !negative then return (.natural whole.value, rest)
  else if whole.value = 0 ∨ signedLimit < whole.value then
    return (.float (-whole.value.toUInt64.toFloat), rest)
  else return (.negative whole.value, rest)

/-- Digits behind an exponent mark that nobody asks for. -/
def skipExponent (rest : List Char) : Except Fault (List Char) :=
  let rest := match rest with
    | '+' :: rest => rest
    | '-' :: rest => rest
    | rest => rest
  if (rest.takeWhile isDigit).isEmpty then .error (.malformed .number)
  else .ok (rest.dropWhile isDigit)

def skipFloat : List Char → Except Fault (List Char)
  | [] => .ok []
  | c :: rest =>
    if c = '.' then
      let behind := rest.dropWhile isDigit
      if (rest.takeWhile isDigit).isEmpty then .error (.malformed .number)
      else match behind with
        | e :: rest => if isExponentMark e then skipExponent rest else .ok behind
        | [] => .ok behind
    else if isExponentMark c then skipExponent rest
    else .ok (c :: rest)

/-- A number behind its sign that nobody asks for. -/
def skipNumber (rest : List Char) : Except Fault (List Char) :=
  match readWhole rest with
  | .ok (_, rest) => skipFloat rest
  | .error _ => .error (.malformed .number)

namespace Reader

def number : Reader Number := ofRest fun
  | '-' :: rest => readNumber true rest
  | rest => readNumber false rest

def passNumber : Reader Unit := ofRest fun rest => do
  let rest ← skipNumber (match rest with
    | '-' :: rest => rest
    | rest => rest)
  return ((), rest)

end Reader

end Dataflow.Json
