/-! # Blank characters

The blanks are the separators of the character set and the controls that move the print position. The
four information separators among them end a line of text but are no blanks around a numeral. -/

namespace Progression.Text

def isInformationSeparator (c : Char) : Bool := 0x1c ≤ c.toNat && c.toNat ≤ 0x1f

def isBlank (c : Char) : Bool :=
  (0x09 ≤ c.toNat && c.toNat ≤ 0x0d) || isInformationSeparator c || c.toNat == 0x20 || c.toNat == 0x85 ||
    c.toNat == 0xa0 || c.toNat == 0x1680 || (0x2000 ≤ c.toNat && c.toNat ≤ 0x200a) ||
    c.toNat == 0x2028 || c.toNat == 0x2029 || c.toNat == 0x202f || c.toNat == 0x205f ||
    c.toNat == 0x3000

/-- A blank that may surround a numeral. -/
def isNumeralBlank (c : Char) : Bool := isBlank c && !isInformationSeparator c

/-- The text without the characters at either end that satisfy `p`. -/
def trim (p : Char → Bool) (cs : List Char) : List Char :=
  ((cs.dropWhile p).reverse.dropWhile p).reverse

/-- The text without blanks at either end. -/
def strip (cs : List Char) : List Char := trim isBlank cs

end Progression.Text
