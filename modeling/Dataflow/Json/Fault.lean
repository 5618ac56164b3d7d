import Dataflow.Error
import Dataflow.Text.Quoted

/-! # Why a JSON text cannot be read

A text ends too early, is malformed, or holds a value that does not fit what is wanted.
-/
namespace Dataflow.Json

/-- What the text ends inside of. -/
inductive Place where
  | list
  | object
  | text
  | value
deriving DecidableEq

def Place.message : Place → String
  | list => "EOF while parsing a list"
  | object => "EOF while parsing an object"
  | text => "EOF while parsing a string"
  | value => "EOF while parsing a value"

inductive Malformed where
  | colon
  | listSeparator
  | objectSeparator
  | keyword
  | value
  | escape
  | number
  | tooLarge
  | control
  | key
  | loneSurrogate
  | brokenSurrogate
  | trailingComma
  | trailingText
deriving DecidableEq

def Malformed.message : Malformed → String
  | colon => "expected `:`"
  | listSeparator => "expected `,` or `]`"
  | objectSeparator => "expected `,` or `\x7d`"
  | keyword => "expected ident"
  | value => "expected value"
  | escape => "invalid escape"
  | number => "invalid number"
  | tooLarge => "number out of range"
  | control => "control character (\\u0000-\\u001F) found while parsing a string"
  | key => "key must be a string"
  | loneSurrogate => "lone leading surrogate in hex escape"
  | brokenSurrogate => "unexpected end of hex escape"
  | trailingComma => "trailing comma"
  | trailingText => "trailing characters"

/-- What a text holds where something else is wanted. -/
inductive Found where
  | integer (value : Int)
  | decimal (digits : String)
  | boolean (value : Bool)
  | null
  | text (value : String)
  | sequence
  | map
  | bareVariant
deriving DecidableEq

def Found.message : Found → String
  | integer value => s!"integer `{value}`"
  | decimal digits => s!"floating point `{digits}`"
  | boolean value => s!"boolean `{value}`"
  | null => "null"
  | text value =>
    let quoted := Text.quoted value
    s!"string {quoted}"
  | sequence => "sequence"
  | map => "map"
  | bareVariant => "unit variant"

inductive Mismatch where
  | kind (found : Found) (wanted : String)
  | range (found : Found) (wanted : String)
  | tooShort (length : Nat) (wanted : String)
  | missing (field : String)
  | repeated (field : String)
  | unknownVariant (name : String) (known : List String)
  | refused (error : Error)
deriving DecidableEq

/-- Names in backquotes, two of them joined by a word. -/
def oneOf : List String → String
  | [] => "there are no variants"
  | [a] => s!"expected `{a}`"
  | [a, b] => s!"expected `{a}` or `{b}`"
  | names =>
    let words := Text.commas (names.map (fun name => s!"`{name}`"))
    s!"expected one of {words}"

def Mismatch.message : Mismatch → String
  | kind found wanted =>
    let what := found.message
    s!"invalid type: {what}, expected {wanted}"
  | range found wanted =>
    let what := found.message
    s!"invalid value: {what}, expected {wanted}"
  | tooShort length wanted => s!"invalid length {length}, expected {wanted}"
  | missing field => s!"missing field `{field}`"
  | repeated field => s!"duplicate field `{field}`"
  | unknownVariant name known =>
    let choice := oneOf known
    s!"unknown variant `{name}`, {choice}"
  | refused error => error.message

inductive Fault where
  | ended (inside : Place)
  | malformed (why : Malformed)
  | unfit (what : Mismatch)
deriving DecidableEq

def Fault.message : Fault → String
  | ended inside => inside.message
  | malformed why => why.message
  | unfit what => what.message

end Dataflow.Json
