import Progression.Double.Shortest

/-! # Layout of doubles

A double is written positionally if its leading digit stands near the point, and otherwise with one
digit before the point and an exponent of at least two digits. -/

namespace Progression.Double

/-- The exponents of the leading digit that are written positionally, from `least` to below `bound`,
and whether an integer keeps a point and a zero. -/
structure Layout where
  least : Int
  bound : Int
  keepPoint : Bool

/-- The layout of numbers that stand on their own. -/
def Layout.standard : Layout := ⟨-4, 16, true⟩

/-- The layout of the parts of a complex number. -/
def Layout.part : Layout := ⟨-4, 16, false⟩

/-- How many zeros end the digits. -/
def trailingZeros (ds : List Char) : Nat := (ds.reverse.takeWhile (· == '0')).length

/-- Digits without trailing zeros; at least one digit stays. -/
def significantDigits (ds : List Char) : List Char :=
  let kept := ds.take (ds.length - trailingZeros ds)
  if kept.isEmpty then ['0'] else kept

def zeros (n : Nat) : List Char := List.replicate n '0'

/-- Digits with a point after the first `lead + 1` of them; `lead` is the exponent of the first. -/
def Layout.positional (layout : Layout) (ds : List Char) (lead : Int) : List Char :=
  if lead < 0 then '0' :: '.' :: (zeros (-lead - 1).toNat ++ ds)
  else
    let whole := lead.toNat + 1
    if ds.length ≤ whole then
      ds ++ zeros (whole - ds.length) ++ (if layout.keepPoint then ['.', '0'] else [])
    else ds.take whole ++ '.' :: ds.drop whole

/-- The exponent behind a mark: its sign and at least two digits. -/
def exponentText (lead : Int) : List Char :=
  let ds := Text.decimalDigits lead.natAbs
  'e' :: (if lead < 0 then '-' else '+') :: (zeros (2 - ds.length) ++ ds)

/-- Digits with a point after the first, and the exponent of the first. -/
def scientific (ds : List Char) (lead : Int) : List Char :=
  (match ds with
    | [] => []
    | [d] => [d]
    | d :: more => d :: '.' :: more) ++ exponentText lead

/-- A decimal number in a layout. -/
def Layout.digits (layout : Layout) (d : DecimalDigits) : List Char :=
  let ds := Text.decimalDigits d.coefficient
  let lead := d.exponent + ds.length - 1
  if layout.least ≤ lead ∧ lead < layout.bound then layout.positional (significantDigits ds) lead
  else scientific (significantDigits ds) lead

/-- The text of the magnitude of a rank. -/
def Layout.magnitude (layout : Layout) (rank : Nat) : List Char :=
  layout.digits (if rank = 0 then ⟨0, 0⟩ else shortestDigits rank)

/-- The text of a double in a layout. -/
def Layout.chars (layout : Layout) : Double → List Char
  | .nan => ['n', 'a', 'n']
  | .infinite s => (if s then ['-'] else []) ++ ['i', 'n', 'f']
  | .finite s rank => (if s then ['-'] else []) ++ layout.magnitude rank

/-- The text of a double. -/
def chars (v : Double) : List Char := Layout.standard.chars v

def toText (v : Double) : String := String.ofList v.chars

end Progression.Double
