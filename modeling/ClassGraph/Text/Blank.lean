import ClassGraph.Text.CodePoint
import ClassGraph.Text.CodeTable

/-! Blank characters: the ones that separate words and count for nothing else. -/

namespace ClassGraph.Text

/-- The blank characters beyond ASCII. -/
def wideBlanks : CodeTable :=
  [(0x85, 0x85), (0xa0, 0xa0), (0x1680, 0x1680), (0x2000, 0x200a), (0x2028, 0x2029),
   (0x202f, 0x202f), (0x205f, 0x205f), (0x3000, 0x3000)]

/-- White space of any script, and the four ASCII separators U+001C to U+001F. -/
def isBlank (c : CodePoint) : Bool :=
  if c.code < 0x80 then
    c == ' ' || (0x09 ≤ c.code && c.code ≤ 0x0d) || (0x1c ≤ c.code && c.code ≤ 0x1f)
  else wideBlanks.contains c.code

theorem isBlank_newline : isBlank '\n' = true := by decide

theorem isBlank_space : isBlank ' ' = true := by decide

def isBlankText (t : Text) : Bool := t.all isBlank

end ClassGraph.Text
