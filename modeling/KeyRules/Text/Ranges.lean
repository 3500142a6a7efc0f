/-!
# KeyRules — tables of characters

A class of characters is written down as the ranges of its code points, each with its first and
its last member.

* `inRanges` — membership of a character in such a table.
-/

namespace KeyRules.Text

/-- A character belongs to a table when one of the table's ranges holds its code point. -/
def inRanges (ranges : List (Nat × Nat)) (c : Char) : Bool :=
  ranges.any fun range => range.1 ≤ c.toNat && c.toNat ≤ range.2

end KeyRules.Text
