import PayloadSchema.Xml.NameChar

/-!
# References and attribute values

A reference stands for one character, given by its number, or for an entity. Five entities are known in
every document; any other would have to be declared, and declarations are refused.
-/

namespace PayloadSchema.Xml

def NameRule.isName (rule : NameRule) : List Char → Bool
  | [] => false
  | c :: cs => rule.isStart c && cs.all rule.isPart

def NameRule.name? (rule : NameRule) : List Char → Option (List Char × List Char)
  | [] => none
  | c :: cs =>
    if rule.isStart c then some (c :: cs.takeWhile rule.isPart, cs.dropWhile rule.isPart) else none

/-- The name at the start of a list, which may have a prefix before a colon, and what follows it. -/
def NameRule.qualifiedName? (rule : NameRule) (cs : List Char) : Option (List Char × List Char) := do
  let (first, rest) ← rule.name? cs
  match rest with
  | ':' :: rest =>
    let (second, rest) ← rule.name? rest
    some (first ++ ':' :: second, rest)
  | rest => some (first, rest)

def hexValue? (c : Char) : Option Nat :=
  if c.isDigit then some (c.toNat - 0x30)
  else if 'a' ≤ c ∧ c ≤ 'f' then some (c.toNat - 0x57)
  else if 'A' ≤ c ∧ c ≤ 'F' then some (c.toNat - 0x37)
  else none

def decimalValue? (c : Char) : Option Nat :=
  if c.isDigit then some (c.toNat - 0x30) else none

def numeral? (base : Nat) (digit? : Char → Option Nat) (cs : List Char) : Option Nat :=
  if cs.isEmpty then none
  else (cs.mapM digit?).map (·.foldl (fun n d => base * n + d) 0)

def numbered? (n : Nat) : Option Char :=
  if h : n.isValidChar then
    let c := Char.ofNatAux n h
    if isChar c then some c else none
  else none

inductive Reference where
  | char (c : Char)
  | entity (name : List Char)

def Reference.ofBody? (rule : NameRule) : List Char → Option Reference
  | '#' :: 'x' :: ds => (numeral? 16 hexValue? ds).bind fun n => (numbered? n).map .char
  | '#' :: ds => (numeral? 10 decimalValue? ds).bind fun n => (numbered? n).map .char
  | name => if rule.isName name then some (.entity name) else none

def predefined? (name : List Char) : Option Char :=
  [("lt".toList, '<'), ("gt".toList, '>'), ("amp".toList, '&'), ("apos".toList, '\x27'),
    ("quot".toList, '\x22')].lookup name

/-- What the values of attributes may refer to. After a reference to an outside part of the document type
an entity may have been declared there, so an unknown one is passed over. -/
structure ValueRule where
  names : NameRule
  skipsUnknown : Bool

def ValueRule.expand? (rule : ValueRule) (body : List Char) : Option (List Char) :=
  match Reference.ofBody? rule.names body with
  | none => none
  | some (.char c) => some [c]
  | some (.entity name) =>
    match predefined? name with
    | some c => some [c]
    | none => if rule.skipsUnknown then some [] else none

/-- The value of an attribute from the text between its quotes. White space becomes a space, and a carriage
return counts as one with a line feed after it. While a reference is read, `pending` holds what has been
read of it, last first. -/
def ValueRule.value? (rule : ValueRule) : (pending : Option (List Char)) → List Char →
    Option (List Char)
  | none, [] => some []
  | some _, [] => none
  | none, '\r' :: '\n' :: cs => (rule.value? none cs).map (' ' :: ·)
  | none, c :: cs =>
    if c = '&' then rule.value? (some []) cs
    else if isSpace c then (rule.value? none cs).map (' ' :: ·)
    else if c = '<' || !isChar c then none
    else (rule.value? none cs).map (c :: ·)
  | some body, c :: cs =>
    if c = ';' then
      match rule.expand? body.reverse with
      | some added => (rule.value? none cs).map (added ++ ·)
      | none => none
    else rule.value? (some (c :: body)) cs

/-- Runs of spaces become one space, and spaces at both ends are dropped: the value of an attribute whose
declared type is a list of words. -/
def collapseSpaces (cs : List Char) : List Char :=
  let rec go (pending : Bool) : List Char → List Char
    | [] => []
    | c :: cs =>
      if c = ' ' then go true cs else if pending then ' ' :: c :: go false cs else c :: go false cs
  go false (cs.dropWhile (· = ' '))

def lineFeeds : List Char → List Char
  | [] => []
  | '\r' :: '\n' :: cs => '\n' :: lineFeeds cs
  | '\r' :: cs => '\n' :: lineFeeds cs
  | c :: cs => c :: lineFeeds cs

end PayloadSchema.Xml
