/-!
Character classes as tables. A class is a list of code-point ranges, both ends included, that are
disjoint and ascend. `within` looks a character up in such a table; the first range that does not
end below the character decides, so the rest of the table is never read.
-/

namespace DiceTables.Text

/-- Whether the code point lies in one of the ranges of an ascending table. -/
def within (n : Nat) : List (Nat × Nat) → Bool
  | [] => false
  | (first, last) :: rest => if last < n then within n rest else decide (first ≤ n)

end DiceTables.Text
