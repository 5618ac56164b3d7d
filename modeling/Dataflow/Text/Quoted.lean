import Dataflow.Text.Align
import Dataflow.Text.Hidden

/-! # Quoted text in messages

A text between double quotes. Quotes, backslashes and the usual controls have short
escapes, hidden characters are shown by number, all else stands for itself.
-/
namespace Dataflow.Text

def quoteChar (c : Char) : List Char :=
  if c = '"' then ['\\', '"']
  else if c = '\\' then ['\\', '\\']
  else if c = '\n' then ['\\', 'n']
  else if c = '\r' then ['\\', 'r']
  else if c = '\t' then ['\\', 't']
  else if c.toNat = 0 then ['\\', '0']
  else if isHidden c then ['\\', 'u', '{'] ++ Nat.toDigits 16 c.toNat ++ ['}']
  else [c]

def quoted (s : String) : String :=
  String.ofList ('"' :: s.toList.flatMap quoteChar ++ ['"'])

end Dataflow.Text
