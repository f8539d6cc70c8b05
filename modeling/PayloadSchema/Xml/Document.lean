import PayloadSchema.Xml.Declaration
import PayloadSchema.Xml.Scope

/-!
# Documents

Reading a document from its bytes: decoding, the part before the root, the pieces of the content, their
nesting, and the resolution of names.
-/

namespace PayloadSchema.Xml

def Element.ofChars (d : Decoded) : Except Fault Element := do
  let prolog ← Prolog.read d.rule d.standalone d.chars
  let rule : ValueRule := ⟨d.rule, prolog.outside && !d.standalone⟩
  let root : Option Element := do
    let pieces ← pieces? rule prolog.rest
    let tree ← Tree.ofMarkup? prolog.rules pieces
    Element.ofTree? .base tree
  match root with
  | some e => pure e
  | none => throw (.problem .notWellFormed)

def Element.ofBytes (bytes : List UInt8) : Except Fault Element := do
  Element.ofChars (← decodeDocument bytes)

end PayloadSchema.Xml
