/-!
# Blank characters

White space as Unicode knows it, and the two operations that depend on it: cutting blanks off both ends
of a text, and splitting a text into the runs between blanks.
-/

namespace PayloadSchema.Text

/-- Whether a character is white space: the line and information separators, the spaces of general
punctuation and the no-break spaces, but neither the zero width space nor the byte order mark. -/
def isBlank (c : Char) : Bool :=
  let n := c.toNat
  (0x09 ≤ n && n ≤ 0x0D) || (0x1C ≤ n && n ≤ 0x20) || n == 0x85 || n == 0xA0 || n == 0x1680 ||
    (0x2000 ≤ n && n ≤ 0x200A) || n == 0x2028 || n == 0x2029 || n == 0x202F || n == 0x205F ||
    n == 0x3000

def dropTail (p : Char → Bool) (cs : List Char) : List Char :=
  (cs.reverse.dropWhile p).reverse

def trimChars (cs : List Char) : List Char :=
  dropTail isBlank (cs.dropWhile isBlank)

def trim (s : String) : String :=
  String.ofList (trimChars s.toList)

/-- The maximal runs of characters that are not blank; `word` holds the current run, last first. -/
def wordsFrom (word : List Char) : List Char → List (List Char)
  | [] => if word.isEmpty then [] else [word.reverse]
  | c :: cs =>
    if isBlank c then
      if word.isEmpty then wordsFrom [] cs else word.reverse :: wordsFrom [] cs
    else wordsFrom (c :: word) cs

/-- The words of a text: its maximal runs without a blank, in order. -/
def words (s : String) : List String :=
  (wordsFrom [] s.toList).map String.ofList

end PayloadSchema.Text
