import ClassGraph.Text.CodePoint
import ClassGraph.Text.Search

/-!
Texts as bytes. Which of the Unicode encodings a JSON text comes in can be told from its first
bytes: from a mark in front of it, or from where the zeros stand, for the text itself begins with
two ASCII characters. A surrogate without its partner is decoded as what it is.
-/

namespace ClassGraph.Text

inductive ByteOrder where
  | big
  | little
deriving DecidableEq, Repr

/-- The encodings, by the width of their units. -/
inductive Encoding where
  | utf8
  | utf16 (order : ByteOrder)
  | utf32 (order : ByteOrder)
deriving DecidableEq, Repr

/-! ## Units of one byte -/

/-- What the first byte of a code point tells: how many bytes follow, the bits that it holds, and
the least code point that needs so many bytes. -/
structure Lead where
  tails : Nat
  bits : Nat
  least : Nat
deriving DecidableEq, Repr

def Lead.ofByte? (byte : Nat) : Option Lead :=
  if byte < 0x80 then some ⟨0, byte, 0⟩
  else if byte < 0xc0 then none
  else if byte < 0xe0 then some ⟨1, byte - 0xc0, 0x80⟩
  else if byte < 0xf0 then some ⟨2, byte - 0xe0, 0x800⟩
  else if byte < 0xf8 then some ⟨3, byte - 0xf0, 0x10000⟩
  else none

/-- Appends the bits of the bytes that follow a first byte. -/
def appendTails? (bits : Nat) : (tails : Nat) → List UInt8 → Option (Nat × List UInt8)
  | 0, rest => some (bits, rest)
  | _ + 1, [] => none
  | tails + 1, byte :: rest =>
    if 0x80 ≤ byte.toNat && byte.toNat < 0xc0 then
      appendTails? (0x40 * bits + (byte.toNat - 0x80)) tails rest
    else none

theorem length_appendTails {bits tails code : Nat} {bytes rest : List UInt8}
    (h : appendTails? bits tails bytes = some (code, rest)) : rest.length ≤ bytes.length := by
  fun_induction appendTails? bits tails bytes with
  | case1 =>
    simp only [Option.some.injEq, Prod.mk.injEq] at h
    exact h.2 ▸ Nat.le_refl _
  | case2 => simp at h
  | case3 bits tails byte more hb ih =>
    have := ih h
    simp only [List.length_cons]
    omega
  | case4 => simp at h

/-- The text of bytes in UTF-8. Every code point has to stand in its shortest form. -/
def decodeUtf8? (bytes : List UInt8) : Option Text :=
  match bytes with
  | [] => some []
  | first :: following =>
    match Lead.ofByte? first.toNat with
    | none => none
    | some lead =>
      match h : appendTails? lead.bits lead.tails following with
      | none => none
      | some (code, rest) =>
        have := length_appendTails h
        if code < lead.least then none
        else
          match CodePoint.ofNat? code with
          | none => none
          | some c => (decodeUtf8? rest).map (c :: ·)
termination_by bytes.length
decreasing_by simp only [List.length_cons]; omega

/-! ## Wider units -/

def unitOf (order : ByteOrder) (bytes : List UInt8) : Nat :=
  let bytes := match order with
    | .big => bytes
    | .little => bytes.reverse
  bytes.foldl (fun value byte => 0x100 * value + byte.toNat) 0

/-- Units of two bytes; nothing if a byte is left over. -/
def units16? (order : ByteOrder) : List UInt8 → Option (List Nat)
  | [] => some []
  | a :: b :: rest => (units16? order rest).map (unitOf order [a, b] :: ·)
  | _ => none

/-- Units of four bytes; nothing if bytes are left over. -/
def units32? (order : ByteOrder) : List UInt8 → Option (List Nat)
  | [] => some []
  | a :: b :: c :: d :: rest => (units32? order rest).map (unitOf order [a, b, c, d] :: ·)
  | _ => none

/-- The text of units of two bytes: two that make up a pair stand for one character. -/
def ofUnits16 : List Nat → Text
  | [] => []
  | [unit] => [.ofNat unit]
  | high :: low :: rest =>
    if CodePoint.opensPair high && CodePoint.closesPair low then .ofPair high low :: ofUnits16 rest
    else .ofNat high :: ofUnits16 (low :: rest)

/-! ## Any encoding -/

def Encoding.decode? : Encoding → List UInt8 → Option Text
  | .utf8, bytes => decodeUtf8? bytes
  | .utf16 order, bytes => (units16? order bytes).map ofUnits16
  | .utf32 order, bytes => (units32? order bytes).bind (List.mapM CodePoint.ofNat?)

/-- The marks in front of a text; a longer one goes before those that begin it. -/
def Encoding.marks : List (List UInt8 × Encoding) :=
  [([0xff, 0xfe, 0, 0], .utf32 .little), ([0, 0, 0xfe, 0xff], .utf32 .big),
   ([0xff, 0xfe], .utf16 .little), ([0xfe, 0xff], .utf16 .big), ([0xef, 0xbb, 0xbf], .utf8)]

def Encoding.guess : List UInt8 → Encoding
  | a :: b :: c :: d :: _ =>
    if a = 0 then if b = 0 then .utf32 .big else .utf16 .big
    else if b = 0 then if c = 0 ∧ d = 0 then .utf32 .little else .utf16 .little
    else .utf8
  | [a, b] => if a = 0 then .utf16 .big else if b = 0 then .utf16 .little else .utf8
  | _ => .utf8

/-- The text of bytes whose encoding is to be told from themselves. -/
def decode? (bytes : List UInt8) : Option Text :=
  match Encoding.marks.findSome? fun (mark, encoding) =>
      (stripWord? mark bytes).map fun rest => (encoding, rest) with
  | some (encoding, rest) => encoding.decode? rest
  | none => (Encoding.guess bytes).decode? bytes

end ClassGraph.Text
