import Progression.Value.Number
import Progression.Text.Numeral
import Progression.Text.Order
import Progression.Text.Quoted

/-! # Values

A value is whatever a caller hands over or stores: a number, or something that only looks like one. It
has a quoted form, which error messages use, and a display form, unless there is an integer in it with too
many digits to be written. -/

namespace Progression

inductive Value where
  | number (n : Number)
  | truth (b : Bool)
  | complex (re im : Double)
  | text (s : String)
  | null
  deriving DecidableEq

namespace Value

abbrev int (n : Int) : Value := .number (.int n)
abbrev double (v : Double) : Value := .number (.double v)
abbrev decimal (d : Decimal) : Value := .number (.decimal d)
abbrev fraction (r : Rat) : Value := .number (.fraction r)

instance : Inhabited Value := ⟨.null⟩

/-- The name of a value's kind. -/
def kind : Value → String
  | .number n => n.kind
  | .truth _ => "bool"
  | .complex _ _ => "complex"
  | .text _ => "str"
  | .null => "NoneType"

def intText (n : Int) : String := String.ofList (Text.intDigits n)

def truthText (b : Bool) : String := if b then "True" else "False"

/-- A complex number: the imaginary part alone if the real part is a positive zero. -/
def complexText (re im : Double) : String :=
  let part := Double.Layout.part.chars
  if re = 0 then String.ofList (part im ++ ['j'])
  else
    let sign := if im.negative then [] else ['+']
    "(" ++ String.ofList (part re ++ sign ++ part im ++ ['j']) ++ ")"

/-- Whether the integers in a value have few enough digits for the value to be written, in either form. -/
def isWritable : Value → Bool
  | .number (.int n) => Text.hasFewDigits n
  | .number (.fraction r) => Text.hasFewDigits r.num && Text.hasFewDigits r.den
  | _ => true

/-- The form in which messages quote a value. -/
def quoted : Value → String
  | .number (.int n) => intText n
  | .number (.double v) => v.toText
  | .number (.decimal d) => "Decimal('" ++ d.toText ++ "')"
  | .number (.fraction r) => "Fraction(" ++ intText r.num ++ ", " ++ intText r.den ++ ")"
  | .truth b => truthText b
  | .complex re im => complexText re im
  | .text s => Text.quotedString s
  | .null => "None"

/-- The plain form of a value. -/
def display : Value → String
  | .number (.decimal d) => d.toText
  | .number (.fraction r) =>
    if r.den = 1 then intText r.num else intText r.num ++ "/" ++ intText r.den
  | .text s => s
  | v => v.quoted

/-- The number that a value counts as in comparisons and sums: the truth values are 0 and 1. -/
def asNumber? : Value → Option Number
  | .number n => some n
  | .truth b => some (.int (if b then 1 else 0))
  | _ => none

/-- The real and the imaginary part of a value that is a complex number or counts as a number. -/
def parts? : Value → Option (Number × Number)
  | .complex re im => some (.double re, .double im)
  | v => v.asNumber?.map fun n => (n, .int 0)

/-- Whether two values are the same: by their parts, whatever their kinds. A text or null is the same as
what it equals. -/
def same (a b : Value) : Bool :=
  match a.parts?, b.parts? with
  | some (re, im), some (re', im') => re.same re' && im.same im'
  | none, none => a = b
  | _, _ => false

@[simp] theorem same_int (m n : Int) : (int m).same (int n) = decide (m = n) := by
  simp [same, parts?, asNumber?]

theorem same_symm {a b : Value} (h : a.same b = true) : b.same a = true := by
  unfold same at *
  grind [Number.same_symm]

theorem same_trans {a b c : Value} (hab : a.same b = true) (hbc : b.same c = true) :
    a.same c = true := by
  unfold same at *
  grind [Number.same_trans]

/-- Whether a value is a not-a-number that no operation accepts. -/
def isSignaling : Value → Bool
  | .number n => n.isSignaling
  | _ => false

/-- Whether a value counts as true: every value does but zero, the empty text and null. -/
def isTruthy : Value → Bool
  | .number n => !n.same (.int 0)
  | .truth b => b
  | .complex re im => !(re.isZero && im.isZero)
  | .text s => s != ""
  | .null => false

end Value
end Progression
