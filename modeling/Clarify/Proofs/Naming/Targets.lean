import Clarify.Naming.Mapping
import Mathlib.Data.Finset.Card

/-!
# The new names of a mapping

Beside its entries a mapping counts, for each new name, the old names that map to it. Every mapping
that is built from an empty one by its operations counts them rightly, so it tells of each name
whether it is a new one.

Results:
* `Counted.put`, and with it `Counted.insertIfAbsent` and `Counted.override`: no operation
  miscounts.
* `isTarget_iff`: a name is a target if some old name maps to it.
-/

namespace Clarify.Mapping

/-- A count as it stands in the table: a name that none is left for is not there. -/
def countEntry : Nat → Option Nat
  | 0 => none
  | n + 1 => some (n + 1)

theorem getD_countEntry (n : Nat) : (countEntry n).getD 0 = n := by
  cases n <;> rfl

theorem countEntry_ne_zero (n : Nat) : countEntry n ≠ some 0 := by
  cases n <;> simp [countEntry]

/-- For each new name, the table has the number of old names that map to it. -/
def Counted (m : Mapping) : Prop :=
  ∀ name, ∃ olds : Finset String, (∀ old, old ∈ olds ↔ m.resolve? old = some name) ∧
    m.targets[name]? = countEntry olds.card

variable {m : Mapping} {old new name : String} {n : Nat}

theorem getElem?_release {targets : Std.TreeMap String Nat} (h : targets[name]? = countEntry n)
    (key : String) :
    (release targets name)[key]? = if name = key then countEntry (n - 1) else targets[key]? := by
  unfold release
  rw [h]
  rcases n with _ | _ | n
  · simp [countEntry, Std.TreeMap.getElem?_erase]
  · simp [countEntry, Std.TreeMap.getElem?_erase]
  · simp [countEntry, Std.TreeMap.getElem?_insert]

theorem getElem?_claim {targets : Std.TreeMap String Nat} (h : targets[name]? = countEntry n)
    (key : String) :
    (claim targets name)[key]? = if name = key then countEntry (n + 1) else targets[key]? := by
  rw [claim, Std.TreeMap.getElem?_insert, h]
  cases n <;> simp [countEntry]

theorem counted_empty : empty.Counted := by
  intro name
  exact ⟨∅, by simp [resolve?, get?, empty], by simp [empty, countEntry]⟩

theorem resolve?_put (m : Mapping) (old key : String) (entry : Entry) :
    (m.put old entry).resolve? key = if old = key then some entry.newName else m.resolve? key := by
  rw [resolve?, get?_put]
  split <;> rfl

/-- The old name is taken from the count of the name that it had, and goes into that of its new one.
-/
theorem Counted.put (h : m.Counted) (old : String) (entry : Entry) : (m.put old entry).Counted := by
  choose olds mem count using h
  -- The counts without the old name, whatever it was mapped to.
  obtain ⟨released, targets, rest⟩ : ∃ released, (m.put old entry).targets =
      claim released entry.newName ∧
        ∀ name : String, released[name]? = countEntry ((olds name).erase old).card := by
    rcases found : m.get? old with _ | before
    · refine ⟨m.targets, by rw [Mapping.put, found], fun name => ?_⟩
      have absent : old ∉ olds name := by
        rw [mem, resolve?, found]
        simp
      rw [Finset.erase_eq_of_notMem absent]
      exact count name
    · refine ⟨release m.targets before.newName, by rw [Mapping.put, found], fun name => ?_⟩
      have here : old ∈ olds name ↔ before.newName = name := by
        rw [mem, resolve?, found]
        exact Option.some_inj
      rw [getElem?_release (count before.newName)]
      split
      · next same =>
        subst same
        rw [Finset.card_erase_of_mem (here.2 rfl)]
      · next ne => rw [Finset.erase_eq_of_notMem (mt here.1 ne), count]
  intro name
  by_cases same : entry.newName = name
  · refine ⟨insert old ((olds name).erase old), fun key => ?_, ?_⟩
    · rw [resolve?_put, Finset.mem_insert, Finset.mem_erase, mem]
      by_cases here : old = key
      · simp [here, same]
      · simp [here, Ne.symm here]
    · rw [Finset.card_insert_of_notMem (Finset.notMem_erase old _)]
      rw [targets, getElem?_claim (rest entry.newName), if_pos same, same]
  · refine ⟨(olds name).erase old, fun key => ?_, ?_⟩
    · rw [resolve?_put, Finset.mem_erase, mem]
      by_cases here : old = key
      · simp [here, same]
      · simp [here, Ne.symm here]
    · rw [targets, getElem?_claim (rest entry.newName), if_neg same, rest]

theorem Counted.insertIfAbsent (h : m.Counted) (old new : String) (origin : Origin) :
    (m.insertIfAbsent old new origin).2.Counted := by
  unfold Mapping.insertIfAbsent
  split
  · exact h
  · exact h.put old _

theorem Counted.override (h : m.Counted) (old new : String) : (m.override old new).Counted :=
  h.put old _

/-- What holds of the empty mapping and stays when a name of the dictionary is inserted holds of the
mapping with the dictionary. -/
theorem withDictionary_induction {P : Mapping → Prop} (nothing : P empty)
    (insert : ∀ m old new, P m → P (m.insertIfAbsent old new .dictionary).2) :
    P withDictionary :=
  List.foldlRecOn dictionary _ nothing fun m h row _ => insert m row.1 row.2 h

theorem counted_withDictionary : withDictionary.Counted :=
  withDictionary_induction counted_empty fun _ old new h => h.insertIfAbsent old new .dictionary

/-- A name is a target if some old name maps to it. -/
theorem Counted.isTarget_iff (h : m.Counted) :
    m.isTarget name = true ↔ ∃ old, m.resolve? old = some name := by
  obtain ⟨olds, mem, count⟩ := h name
  rw [isTarget, Std.TreeMap.contains_eq_isSome_getElem?, count]
  simp only [← mem]
  constructor
  · intro some
    refine Finset.card_pos.1 (Nat.pos_of_ne_zero fun zero => ?_)
    rw [zero] at some
    cases some
  · rintro ⟨old, here⟩
    obtain ⟨n, card⟩ := Nat.exists_eq_succ_of_ne_zero (Finset.card_pos.2 ⟨old, here⟩).ne'
    rw [card]
    rfl

end Clarify.Mapping
