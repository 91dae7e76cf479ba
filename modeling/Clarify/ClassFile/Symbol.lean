import Std.Data.TreeSet

/-!
# Symbols

A symbol is a named thing of a class file together with its type. Symbols are ordered by kind,
then by name, then by descriptor; texts are ordered by their characters, which is the order of
their UTF-8 bytes.
-/

namespace Clarify

/-- What a symbol names. -/
inductive SymbolKind where
  | «class»
  | field
  | method
deriving Repr, DecidableEq

/-- The word for a kind. -/
def SymbolKind.word : SymbolKind → String
  | .class => "class"
  | .field => "field"
  | .method => "method"

/-- The place of a kind in the order of symbols. -/
def SymbolKind.rank : SymbolKind → Nat
  | .class => 0
  | .field => 1
  | .method => 2

theorem SymbolKind.rank_inj {k l : SymbolKind} (h : k.rank = l.rank) : k = l := by
  cases k <;> cases l <;> simp_all [rank]

/-- A named thing with its type; a class has the empty descriptor. -/
structure Symbol where
  kind : SymbolKind
  name : String
  descriptor : String
deriving Repr, DecidableEq

namespace Symbol

/-- The order of symbols. -/
def order : Symbol → Symbol → Ordering :=
  compareLex (compareOn fun s => s.kind.rank) (compareLex (compareOn name) (compareOn descriptor))

instance : Ord Symbol := ⟨order⟩

instance : Std.TransOrd Symbol :=
  inferInstanceAs (Std.TransCmp (compareLex (compareOn fun s : Symbol => s.kind.rank)
    (compareLex (compareOn name) (compareOn descriptor))))

instance : Std.LawfulEqOrd Symbol where
  eq_of_compare {s t} h := by
    change order s t = .eq at h
    simp only [order, compareLex, compareOn, Ordering.then_eq_eq, Std.compare_eq_iff_eq] at h
    obtain ⟨kinds, names, descriptors⟩ := h
    cases s
    cases t
    simp only [mk.injEq]
    exact ⟨SymbolKind.rank_inj kinds, names, descriptors⟩

end Symbol

end Clarify
