import ClassGraph.Decimal.Notation
import ClassGraph.Json.Basic
import ClassGraph.Text.Hex

/-! JSON text: ASCII only, indented by two blanks a level or on one line. -/

namespace ClassGraph.Json

/-- Floating point numbers are written plainly; the three values without digits have names. -/
def numberStyle : Decimal.Style :=
  { Decimal.plainStyle with infinity := "Infinity", notANumber := "NaN" }

def writeUnit (code : Nat) : List Char := '\\' :: 'u' :: Text.hexDigits 4 code

/-- One character of a text. A character beyond the basic plane is written as two units. -/
def writeChar (c : Char) : List Char :=
  if c = '"' || c = '\\' then ['\\', c]
  else if c = '\n' then ['\\', 'n']
  else if c = '\r' then ['\\', 'r']
  else if c = '\t' then ['\\', 't']
  else if c.toNat = 0x08 then ['\\', 'b']
  else if c.toNat = 0x0c then ['\\', 'f']
  else if 0x20 ≤ c.toNat && c.toNat < 0x7f then [c]
  else if c.toNat < 0x10000 then writeUnit c.toNat
  else
    let beyond := c.toNat - 0x10000
    writeUnit (0xd800 + beyond / 0x400) ++ writeUnit (0xdc00 + beyond % 0x400)

/-- One code point of a text. A surrogate is written as the unit that it is. -/
def writeCodePoint : CodePoint → List Char
  | .scalar c => writeChar c
  | c => writeUnit c.code

def writeText (t : Text) : List Char := '"' :: t.flatMap writeCodePoint ++ ['"']

/-- Where lines break and what separates a key from its value. -/
structure Layout where
  lineBreak : Nat → List Char
  colon : List Char

/-- One line for each item and member, indented by two blanks a level. -/
def Layout.indented : Layout := ⟨fun level => '\n' :: List.replicate (2 * level) ' ', [':', ' ']⟩

def Layout.compact : Layout := ⟨fun _ => [], [':']⟩

mutual

/-- The text of a value that stands `level` levels deep. -/
def writeAt (layout : Layout) (level : Nat) : Json → List Char
  | null => ['n', 'u', 'l', 'l']
  | bool true => ['t', 'r', 'u', 'e']
  | bool false => ['f', 'a', 'l', 's', 'e']
  | int i => (toString i).toList
  | real x => (Decimal.write64 numberStyle x).toList
  | str s => writeText s
  | arr [] => ['[', ']']
  | arr (item :: items) =>
    '[' :: layout.lineBreak (level + 1) ++ writeAt layout (level + 1) item ++
      writeItems layout (level + 1) items ++ layout.lineBreak level ++ [']']
  | obj [] => ['\x7b', '\x7d']
  | obj ((key, value) :: members) =>
    '\x7b' :: layout.lineBreak (level + 1) ++ writeText key ++ layout.colon ++
      writeAt layout (level + 1) value ++ writeMembers layout (level + 1) members ++
      layout.lineBreak level ++ ['\x7d']

/-- The items after the first, each behind a comma. -/
def writeItems (layout : Layout) (level : Nat) : List Json → List Char
  | [] => []
  | item :: items =>
    ',' :: layout.lineBreak level ++ writeAt layout level item ++ writeItems layout level items

/-- The members after the first, each behind a comma. -/
def writeMembers (layout : Layout) (level : Nat) : List (Text × Json) → List Char
  | [] => []
  | (key, value) :: members =>
    ',' :: layout.lineBreak level ++ writeText key ++ layout.colon ++
      writeAt layout level value ++ writeMembers layout level members

end

def write (layout : Layout) (value : Json) : String := String.ofList (writeAt layout 0 value)

def pretty (value : Json) : String := value.write .indented

def line (value : Json) : String := value.write .compact

mutual

/-- Whether a number without digits (an infinity, or a result that is not a number) stands in the
value; strict JSON has no text for it. -/
def hasDigitlessNumber : Json → Bool
  | real x =>
    match Decimal.reading64 x with
    | .finite _ _ => false
    | _ => true
  | arr items => anyDigitlessItem items
  | obj members => anyDigitlessMember members
  | _ => false

def anyDigitlessItem : List Json → Bool
  | [] => false
  | item :: items => hasDigitlessNumber item || anyDigitlessItem items

def anyDigitlessMember : List (Text × Json) → Bool
  | [] => false
  | (_, value) :: members => hasDigitlessNumber value || anyDigitlessMember members

end

mutual

def isEncodable : Json → Bool
  | str t => t.isEncodable
  | arr items => areEncodable items
  | obj members => areEncodableMembers members
  | _ => true

def areEncodable : List Json → Bool
  | [] => true
  | item :: items => isEncodable item && areEncodable items

/-- Whether they can in all members, the keys among them. -/
def areEncodableMembers : List (Text × Json) → Bool
  | [] => true
  | (key, value) :: members => key.isEncodable && isEncodable value && areEncodableMembers members

end

end ClassGraph.Json
