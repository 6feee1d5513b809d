/-! # The order of texts

Texts are ordered character by character, by code points; a text comes before its continuations. -/

namespace Progression.Text

/-- Whether `s` comes before `t`. -/
def precedes : List Char → List Char → Bool
  | _, [] => false
  | [], _ :: _ => true
  | c :: s, d :: t => c.toNat < d.toNat || (c == d && precedes s t)

end Progression.Text
