/-!
# Scanning text

A class of characters is given by ranges of code points, both ends included. A text is cut at the
first occurrence of a mark, or at every occurrence.
-/

namespace RdfStar.Text

def inRanges (ranges : List (Nat × Nat)) (c : Char) : Bool :=
  ranges.any fun r => decide (r.1 ≤ c.toNat ∧ c.toNat ≤ r.2)

/-- The text before the first mark, which is the whole text if there is none. -/
def before (mark : Char) : List Char → List Char
  | [] => []
  | c :: rest => if c = mark then [] else c :: before mark rest

/-- The text after the first mark, if there is one. -/
def after? (mark : Char) : List Char → Option (List Char)
  | [] => none
  | c :: rest => if c = mark then some rest else after? mark rest

/-- The pieces of a text between the marks. -/
def pieces (mark : Char) : List Char → List (List Char)
  | [] => [[]]
  | c :: rest =>
    if c = mark then [] :: pieces mark rest
    else match pieces mark rest with
      | [] => [[c]]
      | piece :: others => (c :: piece) :: others

end RdfStar.Text
