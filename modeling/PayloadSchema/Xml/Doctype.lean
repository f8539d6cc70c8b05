import PayloadSchema.Fault
import PayloadSchema.Xml.Markup

/-!
# Document types

A document may declare its type before the root element. Declared attributes matter: a default is added
where the attribute is not written, and the declared type says whether spaces count. Elements and notations
are only checked for their form. A declared entity is refused as soon as its declaration is understood,
unless it repeats one that every document knows, or stands after a reference to an outside part that is not
read.
-/

namespace PayloadSchema.Xml

namespace Doctype

/-- The form of a name in a declaration: without a colon, with a prefix, or any other word of name
characters. -/
inductive NameForm where
  | plain
  | qualified
  | word
deriving DecidableEq

/-- A piece of the part of a document before its root. -/
inductive Token where
  | name (text : List Char) (form : NameForm)
  /-- A name with an occurrence mark. -/
  | marked
  | literal (text : List Char)
  | hashed (text : List Char)
  | percent
  | parameter
  | openBracket
  | closeBracket
  | openParen
  /-- A closing parenthesis with its occurrence mark. -/
  | closeParen (mark : Option Char)
  | comma
  | bar
  | declaration (keyword : List Char)
  | close
  /-- A comment or a processing instruction. -/
  | aside
  /-- The start tag of the root, which is left where it is. -/
  | root

def nameForm (rule : NameRule) (text : List Char) : NameForm :=
  match text with
  | c :: _ =>
    if rule.isStart c then
      match text.dropWhile (· ≠ ':') with
      | [] => .plain
      | _ :: after => if after.isEmpty || after.contains ':' then .word else .qualified
    else .word
  | [] => .word

def nameToken? (rule : NameRule) (cs : List Char) : Option (Token × List Char) :=
  let isPart (c : Char) : Bool := rule.isPart c || c == ':'
  let text := cs.takeWhile isPart
  let form := nameForm rule text
  if text.isEmpty then none
  else
    match cs.dropWhile isPart with
    | [] => some (.name text form, [])
    | c :: rest =>
      if isSpace c || [')', '>', ',', '|', '[', '%'].contains c then some (.name text form, c :: rest)
      else if ['+', '*', '?'].contains c && form ≠ .word then some (.marked, rest)
      else none

/-- The text of a literal up to its quote. Only white space and a few marks may follow the quote. -/
def literal? (quote : Char) (cs : List Char) : Option (Token × List Char) :=
  let text := cs.takeWhile (· ≠ quote)
  if text.all isChar then
    match cs.dropWhile (· ≠ quote) with
    | [] => none
    | [_] => some (.literal text, [])
    | _ :: c :: rest =>
      if isSpace c || c == '>' || c == '%' || c == '[' then some (.literal text, c :: rest) else none
  else none

def hashed? (rule : NameRule) (cs : List Char) : Option (Token × List Char) := do
  let (text, rest) ← rule.name? cs
  match rest with
  | [] => some (.hashed text, [])
  | c :: _ =>
    if isSpace c || [')', '>', '%', '|'].contains c then some (.hashed text, rest) else none

def percent? (rule : NameRule) (cs : List Char) : Option (Token × List Char) :=
  match cs with
  | [] => some (.percent, [])
  | c :: _ =>
    if isSpace c || c == '%' then some (.percent, cs)
    else
      match rule.name? cs with
      | some (_, ';' :: rest) => some (.parameter, rest)
      | _ => none

def closeParen? (cs : List Char) : Option (Token × List Char) :=
  match cs with
  | [] => some (.closeParen none, [])
  | c :: rest =>
    if ['*', '+', '?'].contains c then some (.closeParen (some c), rest)
    else if isSpace c || ['>', ',', '|', ')'].contains c then some (.closeParen none, cs)
    else none

def token? (rule : NameRule) (cs : List Char) : Option (Token × List Char) :=
  match cs.dropWhile isSpace with
  | [] => none
  | '\x22' :: cs => literal? '\x22' cs
  | '\x27' :: cs => literal? '\x27' cs
  | '<' :: '!' :: '-' :: '-' :: cs => (skipComment? cs).map (.aside, ·)
  | '<' :: '!' :: cs =>
    let isKeyword (c : Char) : Bool := c.isAlpha || c == '_'
    match cs.dropWhile isKeyword with
    | c :: rest => if isSpace c then some (.declaration (cs.takeWhile isKeyword), rest) else none
    | [] => none
  | '<' :: '?' :: cs => (skipInstruction? rule cs).map (.aside, ·)
  | '<' :: c :: cs => if rule.isStart c then some (.root, '<' :: c :: cs) else none
  | '%' :: cs => percent? rule cs
  | ',' :: cs => some (.comma, cs)
  | '[' :: cs => some (.openBracket, cs)
  | ']' :: cs => some (.closeBracket, cs)
  | '(' :: cs => some (.openParen, cs)
  | ')' :: cs => closeParen? cs
  | '|' :: cs => some (.bar, cs)
  | '>' :: cs => some (.close, cs)
  | '#' :: cs => hashed? rule cs
  | cs => nameToken? rule cs

end Doctype

structure AttributeRule where
  element : List Char
  name : List Char
  /-- Whether the value is any text; otherwise it is a list of words. -/
  isText : Bool
  default : Option (List Char)

/-- The state of reading the part of a document before its root. -/
structure Prolog where
  rest : List Char
  /-- Whether a part of the type lies outside of the document. -/
  outside : Bool
  /-- Whether declarations still count. -/
  counting : Bool
  rules : List AttributeRule

abbrev PrologReader := StateT Prolog (Except Fault)

namespace Doctype

structure Context where
  names : NameRule
  standalone : Bool

def refuse : PrologReader α := throw (.problem .notWellFormed)

def next (ctx : Context) : PrologReader Token := do
  match token? ctx.names (← get).rest with
  | some (t, rest) =>
    modify ({ · with rest := rest })
    pure t
  | none => refuse

def isPublicChar (c : Char) : Bool :=
  c.isAlphanum || " \r\n-'()+,./:=?;!*#@$_%".toList.contains c

def normalPublicId (cs : List Char) : List Char :=
  collapseSpaces (cs.map fun c => if c = '\r' ∨ c = '\n' then ' ' else c)

def plainName (ctx : Context) : PrologReader (List Char) := do
  match ← next ctx with
  | .name text .plain => pure text
  | _ => refuse

def anyName (ctx : Context) : PrologReader (List Char) := do
  match ← next ctx with
  | .name text form => if form = .word then refuse else pure text
  | _ => refuse

def literal (ctx : Context) : PrologReader (List Char) := do
  match ← next ctx with
  | .literal text => pure text
  | _ => refuse

def publicId (ctx : Context) : PrologReader (List Char) := do
  let text ← literal ctx
  if text.all isPublicChar then pure (normalPublicId text) else refuse

def close (ctx : Context) : PrologReader Unit := do
  match ← next ctx with
  | .close => pure ()
  | _ => refuse

def forbid (name : List Char) (systemId publicId : Option (List Char)) : PrologReader Unit :=
  throw (.problem (.entityDeclared (String.ofList name) (systemId.map String.ofList)
    (publicId.map String.ofList)))

/-- Whether a text may be the value of an entity: each ampersand starts a reference, and there is no
percent sign. While a reference is read, `pending` holds what has been read of it, last first. -/
def isEntityValue (rule : NameRule) : (pending : Option (List Char)) → List Char → Bool
  | none, [] => true
  | some _, [] => false
  | none, c :: cs =>
    if c = '&' then isEntityValue rule (some []) cs else c != '%' && isEntityValue rule none cs
  | some body, c :: cs =>
    if c = ';' then (Reference.ofBody? rule body.reverse).isSome && isEntityValue rule none cs
    else isEntityValue rule (some (c :: body)) cs

/-- Reads what follows the identifiers of an outside entity. Only an entity for documents, not one for
types, may be unparsed. -/
def outsideEntity (ctx : Context) (general counts : Bool) (name systemId : List Char)
    (publicId : Option (List Char)) : PrologReader Unit := do
  match ← next ctx with
  | .close => if counts then forbid name systemId publicId
  | .name text .plain =>
    if general && text = "NDATA".toList then
      let _ ← plainName ctx
      if counts then forbid name systemId publicId
      close ctx
    else refuse
  | _ => refuse

def entityDefinition (ctx : Context) (general counts : Bool) (name : List Char) :
    PrologReader Unit := do
  match ← next ctx with
  | .literal value =>
    if counts then forbid name none none
    if (← get).counting && !isEntityValue ctx.names none value then refuse
    close ctx
  | .name text .plain =>
    if text = "SYSTEM".toList then
      let systemId ← literal ctx
      outsideEntity ctx general counts name systemId none
    else if text = "PUBLIC".toList then
      let identifier ← publicId ctx
      let systemId ← literal ctx
      outsideEntity ctx general counts name systemId (some identifier)
    else refuse
  | _ => refuse

def entityDeclaration (ctx : Context) : PrologReader Unit := do
  let counting := (← get).counting
  match ← next ctx with
  | .percent =>
    let name ← plainName ctx
    entityDefinition ctx false counting name
  | .name name .plain =>
    entityDefinition ctx true (counting && (predefined? name).isNone) name
  | _ => refuse

def alternatives (ctx : Context) (words : Bool) : (fuel : Nat) → PrologReader Unit
  | 0 => refuse
  | fuel + 1 => do
    match ← next ctx with
    | .name _ form => if !words && form ≠ .plain then refuse
    | _ => refuse
    match ← next ctx with
    | .bar => alternatives ctx words fuel
    | .closeParen none => pure ()
    | _ => refuse

def remaining : PrologReader Nat := do
  pure (← get).rest.length

/-- Reads the type of an attribute: whether it is any text, and whether it is an identifier. -/
def attributeType (ctx : Context) : PrologReader (Bool × Bool) := do
  match ← next ctx with
  | .openParen =>
    alternatives ctx true (← remaining)
    pure (false, false)
  | .name text .plain =>
    if text = "CDATA".toList then pure (true, false)
    else if text = "ID".toList then pure (false, true)
    else if text = "NOTATION".toList then
      match ← next ctx with
      | .openParen =>
        alternatives ctx false (← remaining)
        pure (false, false)
      | _ => refuse
    else if ["IDREF", "IDREFS", "ENTITY", "ENTITIES", "NMTOKEN", "NMTOKENS"].contains
        (String.ofList text) then pure (false, false)
    else refuse
  | _ => refuse

def attributeDefault (ctx : Context) (isText : Bool) : PrologReader (Option (List Char)) := do
  let value (raw : List Char) : PrologReader (Option (List Char)) := do
    let s ← get
    if s.counting then
      match ValueRule.value? ⟨ctx.names, s.outside && !ctx.standalone⟩ none raw with
      | some v => pure (some (if isText then v else collapseSpaces v))
      | none => refuse
    else pure none
  match ← next ctx with
  | .literal raw => value raw
  | .hashed text =>
    if text = "FIXED".toList then value (← literal ctx)
    else if text = "IMPLIED".toList ∨ text = "REQUIRED".toList then pure none
    else refuse
  | _ => refuse

/-- Adds what a declaration says of an attribute. A default or an identifier is only added when nothing
has been said of the attribute before. -/
def addRule (rules : List AttributeRule) (rule : AttributeRule) (isId : Bool) : List AttributeRule :=
  if (rule.default.isSome || isId) &&
      rules.any (fun r => r.element = rule.element && r.name = rule.name) then rules
  else rules ++ [rule]

def attributeRules (ctx : Context) (element : List Char) : (fuel : Nat) → PrologReader Unit
  | 0 => refuse
  | fuel + 1 => do
    match ← next ctx with
    | .close => pure ()
    | .name name form =>
      if form = .word then refuse
      let (isText, isId) ← attributeType ctx
      let default ← attributeDefault ctx isText
      modify fun s =>
        if s.counting then { s with rules := addRule s.rules ⟨element, name, isText, default⟩ isId }
        else s
      attributeRules ctx element fuel
    | _ => refuse

/-- Reads a content model from where a member is expected or, when `after` holds, from after a member. The
stack holds the connector of each open group, innermost first; a group keeps to one connector. -/
def contentModel (ctx : Context) : (fuel : Nat) → (after : Bool) → List (Option Char) →
    PrologReader Unit
  | 0, _, _ => refuse
  | _ + 1, _, [] => pure ()
  | fuel + 1, false, stack => do
    match ← next ctx with
    | .openParen => contentModel ctx fuel false (none :: stack)
    | .marked => contentModel ctx fuel true stack
    | .name _ form => if form = .word then refuse else contentModel ctx fuel true stack
    | _ => refuse
  | fuel + 1, true, connector :: stack => do
    match ← next ctx with
    | .closeParen _ => contentModel ctx fuel true stack
    | .comma =>
      if connector = some '|' then refuse else contentModel ctx fuel false (some ',' :: stack)
    | .bar =>
      if connector = some ',' then refuse else contentModel ctx fuel false (some '|' :: stack)
    | _ => refuse

/-- Reads the rest of a mixed content model after the word for character data; with alternatives the
closing parenthesis has to be marked as repeated. -/
def mixedModel (ctx : Context) (alternatives : Bool) : (fuel : Nat) → PrologReader Unit
  | 0 => refuse
  | fuel + 1 => do
    match ← next ctx with
    | .closeParen mark =>
      if mark ≠ some '*' ∧ (alternatives ∨ mark ≠ none) then refuse
    | .bar =>
      let _ ← anyName ctx
      mixedModel ctx true fuel
    | _ => refuse

def elementDeclaration (ctx : Context) : PrologReader Unit := do
  let _ ← anyName ctx
  match ← next ctx with
  | .name text .plain => if text ≠ "EMPTY".toList ∧ text ≠ "ANY".toList then refuse
  | .openParen =>
    let before ← get
    match ← next ctx with
    | .hashed text =>
      if text = "PCDATA".toList then mixedModel ctx false (← remaining) else refuse
    | _ =>
      set before
      contentModel ctx (before.rest.length + 1) false [none]
  | _ => refuse
  close ctx

def notationDeclaration (ctx : Context) : PrologReader Unit := do
  let _ ← plainName ctx
  match ← next ctx with
  | .name text .plain =>
    if text = "SYSTEM".toList then
      let _ ← literal ctx
      close ctx
    else if text = "PUBLIC".toList then
      let _ ← publicId ctx
      match ← next ctx with
      | .literal _ => close ctx
      | .close => pure ()
      | _ => refuse
    else refuse
  | _ => refuse

def attributeDeclaration (ctx : Context) : PrologReader Unit := do
  let element ← anyName ctx
  attributeRules ctx element (← remaining)

def subset (ctx : Context) : (fuel : Nat) → PrologReader Unit
  | 0 => refuse
  | fuel + 1 => do
    match ← next ctx with
    | .closeBracket => pure ()
    | .aside => subset ctx fuel
    | .parameter =>
      modify fun s => { s with outside := true, counting := ctx.standalone }
      subset ctx fuel
    | .declaration keyword =>
      if keyword = "ENTITY".toList then entityDeclaration ctx
      else if keyword = "ATTLIST".toList then attributeDeclaration ctx
      else if keyword = "ELEMENT".toList then elementDeclaration ctx
      else if keyword = "NOTATION".toList then notationDeclaration ctx
      else refuse
      subset ctx fuel
    | _ => refuse

def inside (ctx : Context) : Token → PrologReader Unit
  | .close => pure ()
  | .openBracket => do
    subset ctx (← remaining)
    close ctx
  | _ => refuse

def doctype (ctx : Context) : PrologReader Unit := do
  let _ ← anyName ctx
  match ← next ctx with
  | .name text .plain =>
    if text = "SYSTEM".toList then
      let _ ← literal ctx
      modify ({ · with outside := true })
    else if text = "PUBLIC".toList then
      let _ ← publicId ctx
      let _ ← literal ctx
      modify ({ · with outside := true })
    else refuse
    inside ctx (← next ctx)
  | t => inside ctx t

def prolog (ctx : Context) : (fuel : Nat) → (seen : Bool) → PrologReader Unit
  | 0, _ => refuse
  | fuel + 1, seen => do
    match ← next ctx with
    | .aside => prolog ctx fuel seen
    | .root => pure ()
    | .declaration keyword =>
      if seen || keyword ≠ "DOCTYPE".toList then refuse
      doctype ctx
      prolog ctx fuel true
    | _ => refuse

end Doctype

def Prolog.read (names : NameRule) (standalone : Bool) (cs : List Char) : Except Fault Prolog := do
  let ctx : Doctype.Context := ⟨names, standalone⟩
  let (_, s) ← (Doctype.prolog ctx (cs.length + 1) false).run ⟨cs, false, true, []⟩
  pure s

end PayloadSchema.Xml
