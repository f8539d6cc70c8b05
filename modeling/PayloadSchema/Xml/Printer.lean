import PayloadSchema.Xml.Expanded

/-!
# Printing documents

A tree of tags is printed without text: its elements, their attributes in order, and between elements
either nothing or a line break and the indentation of the next tag. An element without children is printed
as one tag that is closed at once.
-/

namespace PayloadSchema.Xml

/-- A character inside an attribute value. Characters that markup or the reading of an attribute would
change are written as references. -/
def escapedChar (c : Char) : List Char :=
  match c with
  | '&' => "&amp;".toList
  | '<' => "&lt;".toList
  | '>' => "&gt;".toList
  | '\x22' => "&quot;".toList
  | '\r' => "&#13;".toList
  | '\n' => "&#10;".toList
  | '\t' => "&#09;".toList
  | _ => [c]

def escaped (value : String) : String :=
  String.ofList (value.toList.flatMap escapedChar)

def printAttributes (attributes : List (String × String)) : String :=
  String.join (attributes.map fun a => " " ++ a.1 ++ "=\x22" ++ escaped a.2 ++ "\x22")

/-- What stands in front of a tag: nothing, or a new line that is indented by two spaces a level. -/
def lineStart (indent : Option Nat) : String :=
  match indent with
  | none => ""
  | some level => "\n" ++ String.ofList (List.replicate (2 * level) ' ')

mutual

def Tree.print (indent : Option Nat) : Tree → String
  | .mk name attributes _ [] => "<" ++ name ++ printAttributes attributes ++ " />"
  | .mk name attributes _ (child :: children) =>
    "<" ++ name ++ printAttributes attributes ++ ">" ++
      Tree.printAll (indent.map (· + 1)) (child :: children) ++ lineStart indent ++ "</" ++ name ++ ">"

def Tree.printAll (indent : Option Nat) : List Tree → String
  | [] => ""
  | t :: ts => lineStart indent ++ t.print indent ++ Tree.printAll indent ts

end

def Tree.toText (pretty : Bool) (root : Tree) : Except Fault String := do
  pure ((← root.labelled).print (if pretty then some 0 else none))

end PayloadSchema.Xml
