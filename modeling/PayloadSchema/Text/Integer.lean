import PayloadSchema.Text.Blank
import PayloadSchema.Text.Digit
import PayloadSchema.Text.Quoted

/-!
# Integers in text

An integer is written with an optional sign and decimal digits of any script; a single underscore may
stand between two digits, and blanks may surround the whole. Texts of more than 4300 digits are refused
before anything after the digits is looked at.
-/

namespace PayloadSchema.Text

inductive IntegerError where
  /-- The text does not have the form of an integer. -/
  | malformed (text : String)
  /-- The text has more digits than are accepted. -/
  | tooLong (digits : Nat)
deriving DecidableEq, Repr

def maxDigits : Nat := 4300

/-- The text of the refusal; at most 200 characters of the quoted text are shown. -/
def IntegerError.message : IntegerError → String
  | .malformed text =>
    "invalid literal for int() with base 10: " ++ String.ofList ((quotedChars text.toList).take 200)
  | .tooLong digits =>
    s!"Exceeds the limit ({maxDigits} digits) for integer string conversion: value has {digits} " ++
      "digits; use sys.set_int_max_str_digits() to increase the limit"

/-- The digits at the start of a list, underscores dropped, and what follows them. The result is `none`
when an underscore is not between two digits; `afterDigit` says whether a digit comes just before. -/
def scanDigits (afterDigit : Bool) : List Char → Option (List Nat × List Char)
  | [] => if afterDigit then some ([], []) else none
  | c :: cs =>
    match digitValue? c with
    | some d => (scanDigits true cs).map fun r => (d :: r.1, r.2)
    | none =>
      if c = '_' then
        if afterDigit then scanDigits false cs else none
      else if afterDigit then some ([], c :: cs) else none

def scanSign : List Char → Bool × List Char
  | '-' :: cs => (true, cs)
  | '+' :: cs => (false, cs)
  | cs => (false, cs)

def ofDigits (ds : List Nat) : Nat :=
  ds.foldl (fun n d => 10 * n + d) 0

def readInteger (s : String) : Except IntegerError Int :=
  let (negative, body) := scanSign (s.toList.dropWhile isBlank)
  match scanDigits false body with
  | none => .error (.malformed s)
  | some (ds, rest) =>
    if maxDigits < ds.length then .error (.tooLong ds.length)
    else if rest.all isBlank then
      .ok (if negative then -(ofDigits ds : Int) else ofDigits ds)
    else .error (.malformed s)

end PayloadSchema.Text
