/-! # Excerpts

An excerpt shows the part of a text around an index, with an ellipsis at each side where the text goes
on, and a caret line to be printed below it. -/

namespace Progression.Text

/-- A window of a text and the line that points into it. -/
structure Excerpt where
  window : List Char
  caret : List Char
  deriving DecidableEq

/-- The sign that text was cut off. -/
def ellipsis : List Char := ['.', '.', '.']

/-- The characters from `start` on up to `stop`; a negative `stop` counts from the end. -/
def slice (text : List Char) (start : Nat) (stop : Int) : List Char :=
  let stop := if stop < 0 then text.length + stop else stop
  (text.take stop.toNat).drop start

/-- The excerpt of at most `width` characters before the index and as many from the index on. -/
def excerpt (text : List Char) (index width : Int) : Excerpt :=
  let start := (index - width).toNat
  let stop := min (text.length : Int) (index + width)
  let before := if 0 < start then ellipsis else []
  let after := if stop < text.length then ellipsis else []
  { window := before ++ slice text start stop ++ after
    caret := List.replicate (index - start + before.length).toNat ' ' ++ ['^'] }

/-- The width of an excerpt in error messages. -/
def excerptWidth : Nat := 10

end Progression.Text
