/-! # Laying out words

Numbers in lower-case hexadecimal, words set flush right, and lists of words with
commas between them.
-/
namespace Dataflow.Text

/-- Fills up on the left to at least `width` characters. -/
def alignRight (width : Nat) (fill : Char) (word : String) : String :=
  String.ofList (List.replicate (width - word.length) fill) ++ word

def hex (n : Nat) : String := String.ofList (Nat.toDigits 16 n)

def commas (words : List String) : String := ", ".intercalate words

end Dataflow.Text
