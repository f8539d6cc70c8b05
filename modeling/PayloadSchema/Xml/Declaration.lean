import PayloadSchema.Fault
import PayloadSchema.Xml.Encoding

/-!
# The declaration at the head of a document

A document may start with a declaration of its version, its encoding and whether it stands alone. The
version comes first and may be any word; the other two are optional and keep their order.
-/

namespace PayloadSchema.Xml

structure Declaration where
  encoding : Option String
  standalone : Bool

namespace Declaration

def isValueChar (c : Char) : Bool :=
  c.isAlphanum || c == '.' || c == '-' || c == '_'

/-- One item of a declaration, a name with a value between quotes, and what follows it. An item comes
after white space; without an item there is only white space left. The outer `none` is a mistake. -/
def item? (cs : List Char) : Option (Option (List Char × List Char × List Char)) :=
  match cs with
  | [] => some none
  | c :: _ =>
    if !isSpace c then none
    else
      let start := cs.dropWhile isSpace
      if start.isEmpty then some none
      else
        let isNameChar (c : Char) : Bool := !isSpace c && c != '=' && c.toNat < 0x80
        match (start.dropWhile isNameChar).dropWhile isSpace with
        | '=' :: afterEquals =>
          match afterEquals.dropWhile isSpace with
          | quote :: body =>
            if quote == '\x22' || quote == '\x27' then
              match body.dropWhile isValueChar with
              | close :: rest =>
                if close == quote && start.head? != some '=' then
                  some (some (start.takeWhile isNameChar, body.takeWhile isValueChar, rest))
                else none
              | [] => none
            else none
          | [] => none
        | _ => none

def readStandalone? (encoding : Option String) (key value rest : List Char) : Option Declaration :=
  if key = "standalone".toList ∧ rest.all isSpace then
    if value = "yes".toList then some ⟨encoding, true⟩
    else if value = "no".toList then some ⟨encoding, false⟩
    else none
  else none

def ofBody? (body : List Char) : Option Declaration := do
  let (key, _, rest) ← (← item? body)
  if key = "version".toList then
    match ← item? rest with
    | none => some ⟨none, false⟩
    | some (key, value, rest) =>
      if key = "encoding".toList then
        match value with
        | c :: _ =>
          if c.isAlpha then
            let encoding := some (String.ofList value)
            match ← item? rest with
            | none => some ⟨encoding, false⟩
            | some (key, value, rest) => readStandalone? encoding key value rest
          else none
        | [] => none
      else readStandalone? none key value rest
  else none

/-- Splits a list at the first question mark with a closing angle bracket. -/
def splitAtClose : List Char → Option (List Char × List Char)
  | '?' :: '>' :: rest => some ([], rest)
  | c :: cs => (splitAtClose cs).map fun r => (c :: r.1, r.2)
  | [] => none

/-- The declaration at the start of a document, and the number of characters it takes; `none` when the
document starts with something else. -/
def atStart (cs : List Char) : Except Fault (Option (Declaration × Nat)) :=
  match cs with
  | '<' :: '?' :: 'x' :: 'm' :: 'l' :: c :: rest =>
    if isSpace c || c == '?' then
      match splitAtClose (c :: rest) with
      | some (body, _) =>
        if body.all isChar then
          match ofBody? body with
          | some d => .ok (some (d, body.length + 7))
          | none => .error (.problem .notWellFormed)
        else .error (.problem .notWellFormed)
      | none => .error (.problem .notWellFormed)
    else .ok none
  | _ => .ok none

end Declaration

/-- The characters of a document without its declaration, the rule for its names, and whether it stands
alone. -/
structure Decoded where
  rule : NameRule
  standalone : Bool
  chars : List Char

def Encoding.declared (shown : Encoding) (name : String) : Except Fault Encoding :=
  match Encoding.ofName? name with
  | some e =>
    if shown.mayDeclare e then .ok e
    else if String.ofList (name.toList.map Char.toUpper) = "UTF-16" ∧ shown.unit = 2 then .ok shown
    else .error (.problem .notWellFormed)
  | none =>
    match Charset.find? name with
    | some (.singleByte upper) => .ok (.table upper)
    | some .multiByte => .error (.badValue .multiByteEncoding)
    | some .foreign => .error (.problem .notWellFormed)
    | none => .error .unknownEncoding

/-- Decodes a document: the first bytes show an encoding, in which the declaration is read, and the rest
is in the encoding that it declares. -/
def decodeDocument (bytes : List UInt8) : Except Fault Decoded := do
  let (shown, body) := Encoding.detect bytes
  let chars := shown.decode body
  match ← Declaration.atStart chars with
  | none => pure ⟨shown.nameRule, false, chars⟩
  | some (d, length) =>
    match d.encoding with
    | none => pure ⟨shown.nameRule, d.standalone, chars.drop length⟩
    | some name =>
      let actual ← shown.declared name
      pure ⟨actual.nameRule, d.standalone, actual.decode (body.drop (length * shown.unit))⟩

end PayloadSchema.Xml
