import PayloadSchema.Xml.Doctype

/-!
# Trees of tags

The pieces of a document's content nest into one tree. Names are still as written here, prefix and all, and
so are the declarations of namespaces, which stand among the attributes.
-/

namespace PayloadSchema.Xml

/-- An element as written: its name, its attributes, the text before its first child, and its children. -/
inductive Tree where
  | mk (name : String) (attributes : List (String × String)) (text : String) (children : List Tree)

mutual

def Tree.decEq : (t t' : Tree) → Decidable (t = t')
  | .mk name attributes text children, .mk name' attributes' text' children' =>
    have := Tree.decEqAll children children'
    decidable_of_iff (name = name' ∧ attributes = attributes' ∧ text = text' ∧ children = children') (by simp)

def Tree.decEqAll : (ts ts' : List Tree) → Decidable (ts = ts')
  | [], [] => isTrue rfl
  | [], _ :: _ => isFalse nofun
  | _ :: _, [] => isFalse nofun
  | t :: ts, t' :: ts' =>
    have := Tree.decEq t t'
    have := Tree.decEqAll ts ts'
    decidable_of_iff (t = t' ∧ ts = ts') (by simp)

end

instance : DecidableEq Tree := Tree.decEq

/-- An element whose end tag has not been met. Text and children are held last first. -/
structure OpenTree where
  name : List Char
  attributes : List (String × String)
  texts : List (List Char)
  children : List Tree

namespace OpenTree

def addText (t : OpenTree) (cs : List Char) : OpenTree :=
  if t.children.isEmpty then { t with texts := cs :: t.texts } else t

def addChild (t : OpenTree) (child : Tree) : OpenTree :=
  { t with children := child :: t.children }

def closed (t : OpenTree) : Tree :=
  .mk (String.ofList t.name) t.attributes (String.ofList t.texts.reverse.flatten) t.children.reverse

end OpenTree

/-- The attributes of an element under what the document type says of them: values that are lists of words
have their spaces collapsed, and missing attributes with a default are added in the order declared. -/
def ruledAttributes (rules : List AttributeRule) (element : List Char)
    (written : List (List Char × List Char)) : List (String × String) :=
  let own := rules.filter (·.element = element)
  let given := written.map fun a =>
    match own.find? (·.name = a.1) with
    | some rule => (a.1, if rule.isText then a.2 else collapseSpaces a.2)
    | none => a
  let added := own.filterMap fun rule =>
    if written.any (·.1 = rule.name) then none else rule.default.map (rule.name, ·)
  (given ++ added).map fun a => (String.ofList a.1, String.ofList a.2)

/-- Nests pieces into the element that is open innermost, until the outermost one is closed. Gives that
element and the pieces after it. -/
def nest? (rules : List AttributeRule) : OpenTree → List OpenTree → List Markup →
    Option (Tree × List Markup)
  | _, _, [] => none
  | t, outer, .start name attributes closed :: rest =>
    let inner : OpenTree := ⟨name, ruledAttributes rules name attributes, [], []⟩
    if closed then nest? rules (t.addChild inner.closed) outer rest
    else nest? rules inner (t :: outer) rest
  | t, outer, .stop name :: rest =>
    if name = t.name then
      match outer with
      | [] => some (t.closed, rest)
      | parent :: outer => nest? rules (parent.addChild t.closed) outer rest
    else none
  | t, outer, .plain cs :: rest => nest? rules (t.addText cs) outer rest
  | t, outer, .given cs :: rest => nest? rules (t.addText cs) outer rest

def Markup.isTrailing : Markup → Bool
  | .plain cs => cs.all isSpace
  | _ => false

def Tree.ofMarkup? (rules : List AttributeRule) : List Markup → Option Tree
  | .start name attributes closed :: rest =>
    let root : OpenTree := ⟨name, ruledAttributes rules name attributes, [], []⟩
    if closed then if rest.all Markup.isTrailing then some root.closed else none
    else
      match nest? rules root [] rest with
      | some (tree, after) => if after.all Markup.isTrailing then some tree else none
      | none => none
  | _ => none

end PayloadSchema.Xml
