import PayloadSchema.Xml.Reference

/-!
# Markup

The content of a document is a sequence of tags and of character data; comments and processing
instructions add nothing to it. This module cuts the characters of a document into such pieces.
-/

namespace PayloadSchema.Xml

inductive Markup where
  /-- A start tag with its attributes, as written; an empty tag closes itself. -/
  | start (name : List Char) (attributes : List (List Char × List Char)) (closed : Bool)
  | stop (name : List Char)
  /-- Character data as it stands between tags and references. -/
  | plain (cs : List Char)
  /-- Character data from a reference or a section of its own. -/
  | given (cs : List Char)

/-- What follows a comment, from after its opening mark. Two hyphens may only end it. -/
def skipComment? : List Char → Option (List Char)
  | '-' :: '-' :: cs =>
    match cs with
    | '>' :: rest => some rest
    | _ => none
  | c :: cs => if isChar c then skipComment? cs else none
  | [] => none

def skipToClose? : List Char → Option (List Char)
  | '?' :: '>' :: rest => some rest
  | c :: cs => if isChar c then skipToClose? cs else none
  | [] => none

/-- What follows a processing instruction, from after its opening mark. Its target is a name, but not the
one of the declaration in any spelling. -/
def skipInstruction? (rule : NameRule) (cs : List Char) : Option (List Char) := do
  let (target, rest) ← rule.name? cs
  if target.map Char.toLower = "xml".toList then none
  else
    match rest with
    | '?' :: '>' :: rest => some rest
    | c :: rest => if isSpace c then skipToClose? rest else none
    | [] => none

def section? : List Char → Option (List Char × List Char)
  | ']' :: ']' :: '>' :: rest => some ([], rest)
  | c :: cs => if isChar c then (section? cs).map fun r => (c :: r.1, r.2) else none
  | [] => none

/-- Whether character data holds only characters of a document and not the closing mark of a section. -/
def isPlain : List Char → Bool
  | ']' :: ']' :: '>' :: _ => false
  | c :: cs => isChar c && isPlain cs
  | [] => true

def attributeValue? (rule : ValueRule) (cs : List Char) : Option (List Char × List Char) :=
  match cs.dropWhile isSpace with
  | '=' :: cs =>
    match cs.dropWhile isSpace with
    | quote :: cs =>
      if quote = '\x22' ∨ quote = '\x27' then
        match cs.dropWhile (· ≠ quote) with
        | _ :: rest => (rule.value? none (cs.takeWhile (· ≠ quote))).map (·, rest)
        | [] => none
      else none
    | [] => none
  | _ => none

/-- The attributes of a start tag, whether the tag closes itself, and what follows it. Each attribute comes
after white space. The fuel is the number of characters that are left. -/
def attributes? (rule : ValueRule) : (fuel : Nat) → List Char →
    Option (List (List Char × List Char) × Bool × List Char)
  | 0, _ => none
  | fuel + 1, cs =>
    match cs.dropWhile isSpace with
    | '>' :: rest => some ([], false, rest)
    | '/' :: '>' :: rest => some ([], true, rest)
    | start =>
      match cs with
      | c :: _ =>
        if isSpace c then do
          let (name, rest) ← rule.names.qualifiedName? start
          let (value, rest) ← attributeValue? rule rest
          let (more, closed, rest) ← attributes? rule fuel rest
          some ((name, value) :: more, closed, rest)
        else none
      | [] => none

/-- The name of an end tag, and what follows it. Colons may stand anywhere after the first character,
since the name has to match the one of the start tag. -/
def endTag? (rule : NameRule) : List Char → Option (List Char × List Char)
  | [] => none
  | c :: cs =>
    let isPart (c : Char) : Bool := rule.isPart c || c == ':'
    if rule.isStart c then
      match (cs.dropWhile isPart).dropWhile isSpace with
      | '>' :: rest => some (c :: cs.takeWhile isPart, rest)
      | _ => none
    else none

/-- One piece of content at the start of a nonempty list, if it is not a comment or a processing
instruction, and what follows. -/
def piece? (rule : ValueRule) : List Char → Option (Option Markup × List Char)
  | '<' :: '!' :: '-' :: '-' :: cs => (skipComment? cs).map (none, ·)
  | '<' :: '!' :: '[' :: 'C' :: 'D' :: 'A' :: 'T' :: 'A' :: '[' :: cs =>
    (section? cs).map fun r => (some (.given (lineFeeds r.1)), r.2)
  | '<' :: '?' :: cs => (skipInstruction? rule.names cs).map (none, ·)
  | '<' :: '/' :: cs => (endTag? rule.names cs).map fun r => (some (.stop r.1), r.2)
  | '<' :: cs => do
    let (name, rest) ← rule.names.qualifiedName? cs
    let (attributes, closed, rest) ← attributes? rule (rest.length + 1) rest
    some (some (.start name attributes closed), rest)
  | '&' :: cs =>
    match cs.dropWhile (· ≠ ';') with
    | _ :: rest =>
      match Reference.ofBody? rule.names (cs.takeWhile (· ≠ ';')) with
      | some (.char c) => some (some (.given [c]), rest)
      | some (.entity name) => (predefined? name).map fun c => (some (.given [c]), rest)
      | none => none
    | [] => none
  | cs =>
    let isData (c : Char) : Bool := c != '<' && c != '&'
    let data := cs.takeWhile isData
    if isPlain data then some (some (.plain (lineFeeds data)), cs.dropWhile isData) else none

/-- The pieces of a list of characters. Each piece takes at least one character, so the fuel is enough when
it exceeds their number. -/
def piecesWithin? (rule : ValueRule) : (fuel : Nat) → List Char → Option (List Markup)
  | _, [] => some []
  | 0, _ => none
  | fuel + 1, cs => do
    let (piece, rest) ← piece? rule cs
    let more ← piecesWithin? rule fuel rest
    some (piece.toList ++ more)

def pieces? (rule : ValueRule) (cs : List Char) : Option (List Markup) :=
  piecesWithin? rule cs.length cs

end PayloadSchema.Xml
