import ClassGraph.Text.CodePoint
import ClassGraph.Text.Hex
import ClassGraph.Text.Printable

/-! Quoted text for messages. What cannot be shown is written by its number. -/

namespace ClassGraph.Text

/-- Double quotes are used only around a text that holds a single quote and no double quote. -/
def quoteMark (t : Text) : Char :=
  if t.contains '\'' && !t.contains '"' then '"' else '\''

/-- A code point by its number, in two, four or eight digits. -/
def escapeCode (code : Nat) : List Char :=
  if code < 0x100 then '\\' :: 'x' :: hexDigits 2 code
  else if code < 0x10000 then '\\' :: 'u' :: hexDigits 4 code
  else '\\' :: 'U' :: hexDigits 8 code

/-- One code point between the quotation marks `mark`. Line ends and tabs have short escapes; what
else cannot be shown is given by number. -/
def quoteCodePoint (mark : Char) : CodePoint → List Char
  | .scalar c =>
    if c = mark || c = '\\' then ['\\', c]
    else if c = '\n' then ['\\', 'n']
    else if c = '\r' then ['\\', 'r']
    else if c = '\t' then ['\\', 't']
    else if isPrintable c then [c]
    else escapeCode c.toNat
  | c => escapeCode c.code

def quoted (t : Text) : String :=
  let mark := quoteMark t
  String.ofList (mark :: t.flatMap (quoteCodePoint mark) ++ [mark])

end ClassGraph.Text
