import Progression.Text.Digit

/-! # Number literals

A literal is a sign, digits with a point among them, and an exponent; only the digits on one side of
the point are needed. The scanner takes the longest literal that a text begins with and keeps its
parts, from which both the spelling and the number can be read off. -/

namespace Progression.Text

/-- The sign in front of digits. -/
inductive Sign where
  | absent
  | plus
  | minus
  deriving DecidableEq

namespace Sign

def spelling : Sign → List Char
  | absent => []
  | plus => ['+']
  | minus => ['-']

/-- The sign that a text begins with, and what follows it. -/
def scan : List Char → Sign × List Char
  | '+' :: rest => (plus, rest)
  | '-' :: rest => (minus, rest)
  | cs => (absent, cs)

@[simp] theorem spelling_append_scan (cs : List Char) : (scan cs).1.spelling ++ (scan cs).2 = cs := by
  unfold scan
  split <;> rfl

end Sign

/-- The power of ten behind a literal. -/
structure Exponent where
  capital : Bool
  sign : Sign
  digits : List Char
  deriving DecidableEq

namespace Exponent

def mark (capital : Bool) : Char := if capital then 'E' else 'e'

def spelling (e : Exponent) : List Char := mark e.capital :: (e.sign.spelling ++ e.digits)

def value (e : Exponent) : Int :=
  if e.sign = .minus then -(digitsValue e.digits : Int) else digitsValue e.digits

/-- The exponent that a text begins with. A mark without digits is none. -/
def scan? : List Char → Option (Exponent × List Char)
  | c :: cs =>
    if c = mark false ∨ c = mark true then
      let (sign, afterSign) := Sign.scan cs
      let (digits, rest) := spanDigits afterSign
      if digits.isEmpty then none else some (⟨c = mark true, sign, digits⟩, rest)
    else none
  | [] => none

theorem spelling_append_of_scan? {cs rest : List Char} {e : Exponent} (h : scan? cs = some (e, rest)) :
    e.spelling ++ rest = cs := by
  cases cs with
  | nil => cases h
  | cons c cs =>
      simp only [scan?] at h
      split at h
      · rename_i hc
        split at h
        · cases h
        · obtain ⟨rfl, rfl⟩ := Prod.mk.inj (Option.some.inj h)
          have hmark : mark (decide (c = mark true)) = c := by
            by_cases hcap : c = mark true
            · simp [hcap]
            · simpa [hcap] using (hc.resolve_right hcap).symm
          rw [spelling, hmark, List.cons_append, List.append_assoc, spanDigits_append,
            Sign.spelling_append_scan]
      · cases h

end Exponent

/-- The parts of a number literal. `fraction` holds the digits after the point, if there is one. -/
structure Literal where
  sign : Sign
  whole : List Char
  fraction : Option (List Char)
  exponent : Option Exponent
  deriving DecidableEq

namespace Literal

/-- A point and the digits after it. -/
def fractionSpelling : Option (List Char) → List Char
  | none => []
  | some digits => '.' :: digits

def exponentSpelling : Option Exponent → List Char
  | none => []
  | some e => e.spelling

/-- The text of a literal. -/
def spelling (l : Literal) : List Char :=
  l.sign.spelling ++ (l.whole ++ (fractionSpelling l.fraction ++ exponentSpelling l.exponent))

/-- The digits after the point. -/
def fractionDigits (l : Literal) : List Char := l.fraction.getD []

/-- Whether the number is written with a minus sign. -/
def negative (l : Literal) : Bool := l.sign == .minus

/-- The integer that all digits in front of the exponent write. -/
def coefficient (l : Literal) : Nat := digitsValue (l.whole ++ l.fractionDigits)

/-- The power of ten that scales the coefficient. -/
def scale (l : Literal) : Int :=
  (match l.exponent with | none => 0 | some e => e.value) - l.fractionDigits.length

/-- A point and the digits after it. A point that follows no digits needs some behind it. -/
def scanFraction (whole : List Char) : List Char → Option (List Char) × List Char
  | '.' :: cs =>
    let (digits, rest) := spanDigits cs
    if whole.isEmpty && digits.isEmpty then (none, '.' :: cs) else (some digits, rest)
  | cs => (none, cs)

/-- The longest literal that a text begins with, and what follows it. -/
def scan? (cs : List Char) : Option (Literal × List Char) :=
  let (sign, afterSign) := Sign.scan cs
  let (whole, afterWhole) := spanDigits afterSign
  let (fraction, afterFraction) := scanFraction whole afterWhole
  if whole.isEmpty && fraction.isNone then none
  else
    match Exponent.scan? afterFraction with
    | some (exponent, rest) => some (⟨sign, whole, fraction, some exponent⟩, rest)
    | none => some (⟨sign, whole, fraction, none⟩, afterFraction)

@[simp] theorem fractionSpelling_append_scanFraction (whole cs : List Char) :
    fractionSpelling (scanFraction whole cs).1 ++ (scanFraction whole cs).2 = cs := by
  unfold scanFraction
  split
  · rename_i more
    simp only
    split
    · rfl
    · rw [fractionSpelling, List.cons_append, spanDigits_append]
  · rfl

/-- The scanner loses no character. -/
theorem spelling_append_of_scan? {cs rest : List Char} {l : Literal} (h : scan? cs = some (l, rest)) :
    l.spelling ++ rest = cs := by
  simp only [scan?] at h
  split at h
  · cases h
  · split at h
    · rename_i hexponent
      obtain ⟨rfl, rfl⟩ := Prod.mk.inj (Option.some.inj h)
      simp [spelling, exponentSpelling, Exponent.spelling_append_of_scan? hexponent]
    · obtain ⟨rfl, rfl⟩ := Prod.mk.inj (Option.some.inj h)
      simp [spelling, exponentSpelling]

/-- The literal that a whole text is. -/
def ofText? (cs : List Char) : Option Literal :=
  match scan? cs with
  | some (l, []) => some l
  | _ => none

end Literal
end Progression.Text
