/-! # JSON values and how they are written

Compact text has no blanks. Pretty text puts every item of a non-empty list or object on a
line of its own, two blanks deeper than its parent, and a blank after the colon.
-/
namespace Dataflow

inductive Json where
  | null
  | number (value : Int)
  | text (value : String)
  | list (items : List Json)
  | object (fields : List (String × Json))

namespace Json

def hexDigit (n : Nat) : Char := Nat.digitChar (n % 16)

/-- Quotes, backslashes and controls are escaped. -/
def escapeChar (c : Char) : List Char :=
  if c = '"' then ['\\', '"']
  else if c = '\\' then ['\\', '\\']
  else if c = '\x08' then ['\\', 'b']
  else if c = '\x0c' then ['\\', 'f']
  else if c = '\n' then ['\\', 'n']
  else if c = '\r' then ['\\', 'r']
  else if c = '\t' then ['\\', 't']
  else if c.toNat < 0x20 then
    ['\\', 'u', '0', '0', hexDigit (c.toNat / 16), hexDigit c.toNat]
  else [c]

def writeText (s : String) : List Char := '"' :: s.toList.flatMap escapeChar ++ ['"']

def writeNumber (n : Int) : List Char :=
  match n with
  | .ofNat n => Nat.toDigits 10 n
  | .negSucc n => '-' :: Nat.toDigits 10 (n + 1)

inductive Style where
  | compact
  | pretty
deriving DecidableEq

namespace Style

/-- The line break before an item at this depth. -/
def gap : Style → Nat → List Char
  | compact, _ => []
  | pretty, depth => '\n' :: List.replicate (2 * depth) ' '

def colon : Style → List Char
  | compact => [':']
  | pretty => [':', ' ']

end Style

mutual

def write (style : Style) (depth : Nat) : Json → List Char
  | null => ['n', 'u', 'l', 'l']
  | number n => writeNumber n
  | text s => writeText s
  | list items => '[' :: writeItems style depth true items
  | object fields => '{' :: writeFields style depth true fields

/-- The rest of a list after its bracket or an item. -/
def writeItems (style : Style) (depth : Nat) (first : Bool) : List Json → List Char
  | [] => (if first then [] else style.gap depth) ++ [']']
  | item :: items =>
    (if first then [] else [',']) ++ style.gap (depth + 1) ++ write style (depth + 1) item
      ++ writeItems style depth false items

/-- The rest of an object after its brace or a field. -/
def writeFields (style : Style) (depth : Nat) (first : Bool) :
    List (String × Json) → List Char
  | [] => (if first then [] else style.gap depth) ++ ['}']
  | (key, value) :: fields =>
    (if first then [] else [',']) ++ style.gap (depth + 1) ++ writeText key ++ style.colon
      ++ write style (depth + 1) value ++ writeFields style depth false fields

end

def compact (j : Json) : String := String.ofList (j.write .compact 0)

def pretty (j : Json) : String := String.ofList (j.write .pretty 0)

end Json

end Dataflow
