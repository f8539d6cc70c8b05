import PayloadSchema.Xml.Charset
import PayloadSchema.Xml.NameChar

/-!
# Encodings

A document is a sequence of bytes in one of a few encodings. Decoding never fails: a byte sequence with no
meaning becomes a character that no document may hold, so it is refused at the place where it is met.
-/

namespace PayloadSchema.Xml

def badChar : Char := '\uffff'

inductive Encoding where
  | utf8
  | utf16 (bigEndian : Bool)
  | latin1
  | ascii
  /-- One byte to a character: the characters of the bytes from 128 on. -/
  | table (upper : Array (Option Char))

namespace Encoding

def unit : Encoding → Nat
  | .utf16 _ => 2
  | _ => 1

def nameRule : Encoding → NameRule
  | .utf16 _ | .latin1 => ⟨true⟩
  | _ => ⟨false⟩

def isTail (b : UInt8) : Bool := 0x80 ≤ b && b ≤ 0xBF

def charOf (n : Nat) : Char :=
  if h : n.isValidChar then Char.ofNatAux n h else badChar

def decodeUtf8 : List UInt8 → List Char
  | [] => []
  | a :: rest =>
    if a < 0x80 then charOf a.toNat :: decodeUtf8 rest
    else if 0xC2 ≤ a && a ≤ 0xDF then
      match rest with
      | b :: rest' =>
        if isTail b then charOf ((a.toNat - 0xC0) * 64 + (b.toNat - 0x80)) :: decodeUtf8 rest'
        else [badChar]
      | [] => [badChar]
    else if 0xE0 ≤ a && a ≤ 0xEF then
      match rest with
      | b :: c :: rest' =>
        if isTail b && isTail c && (a != 0xE0 || 0xA0 ≤ b) && (a != 0xED || b ≤ 0x9F) then
          charOf ((a.toNat - 0xE0) * 4096 + (b.toNat - 0x80) * 64 + (c.toNat - 0x80)) ::
            decodeUtf8 rest'
        else [badChar]
      | _ => [badChar]
    else if 0xF0 ≤ a && a ≤ 0xF4 then
      match rest with
      | b :: c :: d :: rest' =>
        if isTail b && isTail c && isTail d && (a != 0xF0 || 0x90 ≤ b) && (a != 0xF4 || b ≤ 0x8F) then
          charOf ((a.toNat - 0xF0) * 262144 + (b.toNat - 0x80) * 4096 + (c.toNat - 0x80) * 64 +
            (d.toNat - 0x80)) :: decodeUtf8 rest'
        else [badChar]
      | _ => [badChar]
    else [badChar]

/-- Joins bytes into units of two. A byte that is left over becomes a unit with no meaning. -/
def units16 (bigEndian : Bool) : List UInt8 → List Nat
  | a :: b :: rest =>
    (if bigEndian then a.toNat * 256 + b.toNat else b.toNat * 256 + a.toNat) ::
      units16 bigEndian rest
  | [_] => [0xFFFF]
  | [] => []

/-- Decodes units of two bytes. A leading surrogate takes ten bits of the unit after it, whichever
that is; a trailing surrogate alone has no meaning. -/
def decodeUnits : List Nat → List Char
  | [] => []
  | u :: rest =>
    if 0xD800 ≤ u ∧ u ≤ 0xDBFF then
      match rest with
      | v :: rest' => charOf (0x10000 + (u - 0xD800) * 1024 + v % 1024) :: decodeUnits rest'
      | [] => [badChar]
    else charOf u :: decodeUnits rest

def byteChar (upper : Array (Option Char)) (b : UInt8) : Char :=
  if b < 0x80 then charOf b.toNat else ((upper[b.toNat - 0x80]?).getD none).getD badChar

def decode : Encoding → List UInt8 → List Char
  | .utf8, bytes => decodeUtf8 bytes
  | .utf16 bigEndian, bytes => decodeUnits (units16 bigEndian bytes)
  | .latin1, bytes => bytes.map fun b => charOf b.toNat
  | .ascii, bytes => bytes.map (byteChar #[])
  | .table upper, bytes => bytes.map (byteChar upper)

/-- The encoding that the first bytes of a document show, and the bytes after a byte order mark. -/
def detect : List UInt8 → Encoding × List UInt8
  | 0xFE :: 0xFF :: rest => (.utf16 true, rest)
  | 0xFF :: 0xFE :: rest => (.utf16 false, rest)
  | 0xEF :: 0xBB :: 0xBF :: rest => (.utf8, rest)
  | 0x00 :: b :: rest => (.utf16 true, 0x00 :: b :: rest)
  | a :: 0x00 :: rest => (.utf16 false, a :: 0x00 :: rest)
  | bytes => (.utf8, bytes)

def ofName? (name : String) : Option Encoding :=
  match String.ofList (name.toList.map Char.toUpper) with
  | "UTF-8" => some .utf8
  | "ISO-8859-1" => some .latin1
  | "US-ASCII" => some .ascii
  | "UTF-16" | "UTF-16BE" => some (.utf16 true)
  | "UTF-16LE" => some (.utf16 false)
  | _ => none

/-- Whether a document that shows one encoding may declare another. The two must agree in the size of a
unit, and in the order of bytes where a unit has two. -/
def mayDeclare : Encoding → Encoding → Bool
  | .utf16 a, .utf16 b => a == b
  | .utf16 _, _ | _, .utf16 _ => false
  | _, _ => true

end Encoding

end PayloadSchema.Xml
