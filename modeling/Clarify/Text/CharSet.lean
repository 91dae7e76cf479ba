/-!
# Sets of characters

A set of characters is given by its edges: the code points at which it begins and ends in turn, in
ascending order. Such a list is how a property of the Unicode standard is tabulated.

Results:
* `contains_iff`: a character is in the set if an odd number of edges lie at it or before it.
-/

namespace Clarify

/-- A set of characters by its edges. -/
structure CharSet where
  edges : List Nat

namespace CharSet

/-- Whether `n` is inside, where `inside` says so for what lies before the first edge. -/
def isInside (n : Nat) (inside : Bool) : List Nat → Bool
  | [] => inside
  | edge :: rest => if n < edge then inside else isInside n (!inside) rest

/-- Whether a character belongs to the set. -/
def contains (s : CharSet) (c : Char) : Bool := isInside c.toNat false s.edges

theorem isInside_eq (n : Nat) (inside : Bool) (edges : List Nat) :
    isInside n inside edges =
      (inside ^^ decide ((edges.takeWhile fun edge => !decide (n < edge)).length % 2 = 1)) := by
  induction edges generalizing inside with
  | nil => simp [isInside]
  | cons edge rest ih =>
    unfold isInside
    by_cases before : n < edge
    · simp [before]
    · rw [if_neg before, ih, List.takeWhile_cons_of_pos (by simpa using before), List.length_cons]
      rcases Nat.mod_two_eq_zero_or_one
        ((rest.takeWhile fun edge => !decide (n < edge)).length) with h | h
        <;> cases inside <;> simp [h, Nat.add_mod]

theorem contains_iff (s : CharSet) (c : Char) :
    s.contains c = true ↔
      (s.edges.takeWhile fun edge => !decide (c.toNat < edge)).length % 2 = 1 := by
  simp [contains, isInside_eq]

end CharSet

end Clarify
