import NodeDecl.Text.Hexadecimal
import NodeDecl.Text.Printable

/-! # Quoted text

Text in double quotes, for messages: quotes and backslashes are escaped, and characters that
cannot be shown are written by their code point in hexadecimal.
-/

namespace NodeDecl.Text

def quotedChar (c : Char) : List Char :=
  match c with
  | '\x00' => ['\\', '0']
  | '\t' => ['\\', 't']
  | '\n' => ['\\', 'n']
  | '\r' => ['\\', 'r']
  | '"' => ['\\', '"']
  | '\\' => ['\\', '\\']
  | c => if isPrintable c then [c] else
    ['\\', 'u', '\x7b'] ++ hexDigits c.toNat ++ ['\x7d']

def quoted (s : String) : String := .ofList ('"' :: s.toList.flatMap quotedChar ++ ['"'])

end NodeDecl.Text
