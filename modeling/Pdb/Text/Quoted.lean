import Pdb.Text
import Pdb.Text.Unseen

/-! # Quoted text

A text between quotes, so that it can be told from what is around it. Quotes and backslashes get a
backslash in front, and characters that cannot be seen are written by their code. -/

namespace Pdb.Text

def quotedChar (c : Char) : List Char :=
  if c = '"' then ['\\', '"']
  else if c = '\\' then ['\\', '\\']
  else if c = '\n' then ['\\', 'n']
  else if c = '\r' then ['\\', 'r']
  else if c = '\t' then ['\\', 't']
  else if c = '\x00' then ['\\', '0']
  else if isUnseen c then ['\\', 'u', '\x7b'] ++ (hex 1 c.toNat).toList ++ ['\x7d']
  else [c]

def quoted (s : String) : String := String.ofList ('"' :: s.toList.flatMap quotedChar ++ ['"'])

end Pdb.Text
