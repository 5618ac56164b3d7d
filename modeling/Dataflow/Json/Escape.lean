import Dataflow.Json.Reader

/-! # Texts between quotes

Characters below the blank must be escaped. A character outside the first plane is escaped
as a pair of surrogates, and a surrogate alone is refused.
-/
namespace Dataflow.Json

def shortEscape? (c : Char) : Option Char :=
  if c = '"' then some '"'
  else if c = '\\' then some '\\'
  else if c = '/' then some '/'
  else if c = 'b' then some '\x08'
  else if c = 'f' then some '\x0c'
  else if c = 'n' then some '\n'
  else if c = 'r' then some '\r'
  else if c = 't' then some '\t'
  else none

def hexValue? (c : Char) : Option Nat :=
  if '0' ≤ c ∧ c ≤ '9' then some (c.toNat - '0'.toNat)
  else if 'a' ≤ c ∧ c ≤ 'f' then some (c.toNat - 'a'.toNat + 10)
  else if 'A' ≤ c ∧ c ≤ 'F' then some (c.toNat - 'A'.toNat + 10)
  else none

def byteCount (cs : List Char) : Nat := cs.foldl (fun n c => n + c.utf8Size) 0

/-- Four hexadecimal digits. With fewer than four bytes left the text has ended. -/
def hexQuad (rest : List Char) : Except Fault (Nat × List Char) :=
  if byteCount (rest.take 4) < 4 then .error (.ended .text)
  else match rest with
    | a :: b :: c :: d :: rest =>
      match hexValue? a, hexValue? b, hexValue? c, hexValue? d with
      | some a, some b, some c, some d => .ok (((a * 16 + b) * 16 + c) * 16 + d, rest)
      | _, _, _, _ => .error (.malformed .escape)
    | _ => .error (.malformed .escape)

def isLeading (n : Nat) : Bool := 0xD800 ≤ n && n ≤ 0xDBFF

def isTrailing (n : Nat) : Bool := 0xDC00 ≤ n && n ≤ 0xDFFF

def joinSurrogates (leading trailing : Nat) : Char :=
  Char.ofNat (0x10000 + (leading - 0xD800) * 0x400 + (trailing - 0xDC00))

/-- The character of a numbered escape, after its `u`. -/
def numbered (rest : List Char) : Except Fault (Char × List Char) := do
  let (n, rest) ← hexQuad rest
  if isTrailing n then .error (.malformed .loneSurrogate)
  else if isLeading n then
    match rest with
    | [] => .error (.ended .text)
    | ['\\'] => .error (.ended .text)
    | '\\' :: 'u' :: rest =>
      let (m, rest) ← hexQuad rest
      if isTrailing m then return (joinSurrogates n m, rest)
      else .error (.malformed .loneSurrogate)
    | _ => .error (.malformed .brokenSurrogate)
  else return (Char.ofNat n, rest)

/-- The character of an escape, after its backslash. -/
def escaped : List Char → Except Fault (Char × List Char)
  | [] => .error (.ended .text)
  | c :: rest =>
    match shortEscape? c with
    | some d => .ok (d, rest)
    | none => if c = 'u' then numbered rest else .error (.malformed .escape)

/-- A text up to its closing quote, read behind the opening one. -/
def textBody : Nat → List Char → Except Fault (List Char × List Char)
  | 0, _ => .error (.ended .text)
  | _ + 1, [] => .error (.ended .text)
  | fuel + 1, c :: rest =>
    if c = '"' then .ok ([], rest)
    else if c = '\\' then do
      let (d, rest) ← escaped rest
      let (cs, rest) ← textBody fuel rest
      return (d :: cs, rest)
    else if c.toNat < 0x20 then .error (.malformed .control)
    else do
      let (cs, rest) ← textBody fuel rest
      return (c :: cs, rest)

/-- An escape whose character nobody asks for: surrogates need no partner. -/
def skipEscape : List Char → Except Fault (List Char)
  | [] => .error (.ended .text)
  | c :: rest =>
    if (shortEscape? c).isSome then .ok rest
    else if c = 'u' then do
      let (_, rest) ← hexQuad rest
      return rest
    else .error (.malformed .escape)

def skipText : Nat → List Char → Except Fault (List Char)
  | 0, _ => .error (.ended .text)
  | _ + 1, [] => .error (.ended .text)
  | fuel + 1, c :: rest =>
    if c = '"' then .ok rest
    else if c = '\\' then do
      let rest ← skipEscape rest
      skipText fuel rest
    else if c.toNat < 0x20 then .error (.malformed .control)
    else skipText fuel rest

namespace Reader

/-- A text whose opening quote is next. -/
def quoted : Reader String := do
  advance
  let fuel ← fuel
  let cs ← ofRest (textBody fuel)
  return String.ofList cs

def passText : Reader Unit := do
  advance
  let fuel ← fuel
  ofRest fun rest => do
    let rest ← skipText fuel rest
    return ((), rest)

end Reader

end Dataflow.Json
