/-!
# Classes of characters

A class of characters is a table of inclusive ranges of code points. The tables themselves
stand in modules of their own, one for each property; this one says how a table is read.
-/

namespace Chiptune
namespace Text

/-- Inclusive ranges of code points. -/
abbrev Ranges := List (Nat × Nat)

/-- Whether some range of the table holds the code point. -/
def Ranges.holds (table : Ranges) (point : Nat) : Bool :=
  table.any fun r => r.1 ≤ point && point ≤ r.2

/-- A whole run of code points lies in a table once one of its ranges covers the run. -/
theorem Ranges.holds_of_covers {table : Ranges} {first last point : Nat}
    (covered : table.any (fun r => r.1 ≤ first && last ≤ r.2) = true)
    (lower : first ≤ point) (upper : point ≤ last) : table.holds point = true := by
  simp only [List.any_eq_true, Bool.and_eq_true, decide_eq_true_eq, Prod.exists] at covered
  obtain ⟨a, b, member, ha, hb⟩ := covered
  simp only [Ranges.holds, List.any_eq_true, Bool.and_eq_true, decide_eq_true_eq, Prod.exists]
  exact ⟨a, b, member, by omega, by omega⟩

end Text
end Chiptune
