import Dataflow.Decimal.Shortest

/-! # How a decimal is written

Leading exponents from -5 to 15 are written out, with at least one place after the point.
Beyond, the exponent follows an `e`, always with its sign.
-/
namespace Dataflow.Decimal

structure Format where
  leastExponent : Int
  greatestExponent : Int

def messageFormat : Format := ⟨-5, 15⟩

def Scientific.written (format : Format) (s : Scientific) : String :=
  let digits := Nat.toDigits 10 s.digits
  let leading := s.exponent + digits.length - 1
  if format.leastExponent ≤ leading ∧ leading ≤ format.greatestExponent then
    if 0 ≤ s.exponent then
      String.ofList (digits ++ List.replicate s.exponent.toNat '0' ++ ['.', '0'])
    else if 0 ≤ leading then
      let whole := leading.toNat + 1
      String.ofList (digits.take whole ++ '.' :: digits.drop whole)
    else
      String.ofList ('0' :: '.' :: List.replicate ((-leading).toNat - 1) '0' ++ digits)
  else
    let mantissa := match digits with
      | d :: e :: rest => d :: '.' :: e :: rest
      | _ => digits
    let sign := if leading < 0 then '-' else '+'
    String.ofList (mantissa ++ ['e', sign] ++ Nat.toDigits 10 leading.natAbs)

/-- The sign bit counts, so that zero has a sign too. -/
def written (x : Float) : String :=
  let text := (ofFinite x).written messageFormat
  if x.toBits.toNat < 0x8000000000000000 then text else "-" ++ text

end Dataflow.Decimal
