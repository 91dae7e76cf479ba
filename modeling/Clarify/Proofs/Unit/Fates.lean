import Clarify.Pass.Junk

/-!
# What becomes of the methods of a class

Results:
* `removeJunk_eq`: the methods that stay, and the report of those that do not.
* `fates_suspect_iff`: pruning never changes whether a method is removed as a suspect.
* `fates_of_not_isRemovable`: a method that may not be removed stays.
-/

namespace Clarify.Junk

/-! ## Pruning -/

theorem size_pruneRound (calls : Calls) (prunable : Array Bool) (fates : Fates) :
    (pruneRound calls prunable fates).size = fates.size :=
  Array.size_mapIdx

theorem pruneRound_suspect_iff (calls : Calls) (prunable : Array Bool) (fates : Fates) (k : Nat) :
    (pruneRound calls prunable fates)[k]? = some (some .suspect) ↔
      fates[k]? = some (some .suspect) := by
  rw [pruneRound, Array.getElem?_mapIdx]
  rcases fates[k]? with _ | _ | reason
  · simp
  · rw [Option.map_some]
    split
    · next known => cases known
    · split <;> simp
  · simp

theorem prune_spec (calls : Calls) (prunable : Array Bool) (fates : Fates) :
    (prune calls prunable fates).size = fates.size ∧ ∀ k : Nat,
      (prune calls prunable fates)[k]? = some (some .suspect) ↔
        fates[k]? = some (some .suspect) := by
  induction fates using prune.induct calls prunable with
  | case1 fates next fewer ih =>
    obtain ⟨size, same⟩ := ih
    rw [prune, if_pos fewer]
    exact ⟨size.trans (size_pruneRound ..),
      fun k => (same k).trans (pruneRound_suspect_iff calls prunable fates k)⟩
  | case2 fates next settled =>
    rw [prune, if_neg settled]
    exact ⟨rfl, fun _ => Iff.rfl⟩

/-- Pruning leaves a method alone that is not prunable. -/
theorem getElem?_prune_of_not {calls : Calls} {prunable : Array Bool} {fates : Fates} {k : Nat}
    (keep : prunable.getD k false = false) : (prune calls prunable fates)[k]? = fates[k]? := by
  induction fates using prune.induct calls prunable with
  | case1 fates next fewer ih =>
    rw [prune, if_pos fewer, ih]
    show (pruneRound calls prunable fates)[k]? = fates[k]?
    rw [pruneRound, Array.getElem?_mapIdx, keep]
    rcases fates[k]? with _ | _ | reason <;> rfl
  | case2 fates next settled => rw [prune, if_neg settled]

section Fates

variable {c : ClassFile} {calls : Calls} {suspects : Suspects}
  {formerNames : Std.TreeMap String String}

theorem size_fates : (fates c calls suspects formerNames).size = c.methods.size := by
  unfold fates
  dsimp only
  split
  · rw [(prune_spec ..).1, suspectFates, Array.size_map]
  · rw [suspectFates, Array.size_map]

/-- A method is removed as a suspect exactly if it is one and may be removed. -/
theorem fates_suspect_iff {k : Nat} {m : Member} (here : c.methods[k]? = some m) :
    (fates c calls suspects formerNames)[k]? = some (some .suspect) ↔
      isSuspect suspects formerNames (c.nameOf m) = true ∧ isRemovable c m = true := by
  have start : (suspectFates c suspects formerNames)[k]? = some (some .suspect) ↔
      isSuspect suspects formerNames (c.nameOf m) = true ∧ isRemovable c m = true := by
    rw [suspectFates, Array.getElem?_map, here, Option.map_some, Option.some.injEq]
    split
    · next both => simpa using both
    · next other => simpa using other
  unfold fates
  dsimp only
  split
  · rw [(prune_spec ..).2, start]
  · exact start

/-- A method that may not be removed stays, suspect or not. -/
theorem fates_of_not_isRemovable {k : Nat} {m : Member} (here : c.methods[k]? = some m)
    (keep : isRemovable c m = false) :
    (fates c calls suspects formerNames)[k]? = some none := by
  have start : (suspectFates c suspects formerNames)[k]? = some none := by
    rw [suspectFates, Array.getElem?_map, here, Option.map_some, keep, Bool.and_false]
    rfl
  unfold fates
  dsimp only
  split
  · rw [getElem?_prune_of_not ?_, start]
    rw [Array.getD_eq_getD_getElem?, Array.getElem?_map, here, Option.map_some, keep,
      Bool.and_false]
    rfl
  · exact start

end Fates

/-! ## The report -/

/-- The methods of a class, each with what becomes of it. -/
def fated (c : ClassFile) (suspects : Suspects) (formerNames : Std.TreeMap String String) :
    List (Member × Option RemovalReason) :=
  c.methods.toList.zip (fates c (callsOf c) suspects formerNames).toList

section Fated

variable (c : ClassFile) (suspects : Suspects) (formerNames : Std.TreeMap String String)

theorem map_fst_fated : (fated c suspects formerNames).map Prod.fst = c.methods.toList := by
  have length : c.methods.toList.length =
      (fates c (callsOf c) suspects formerNames).toList.length := by
    rw [Array.length_toList, Array.length_toList, size_fates]
  exact List.map_fst_zip (Nat.le_of_eq length)

theorem fated_eq : fated c suspects formerNames = c.methods.toList.zipIdx.map fun (m, position) =>
    (m, (fates c (callsOf c) suspects formerNames).getD position none) := by
  refine List.ext_getElem? fun k => ?_
  have size : (fates c (callsOf c) suspects formerNames).size = c.methods.size := size_fates
  rw [fated, List.zip, List.getElem?_zipWith, List.getElem?_map, List.getElem?_zipIdx,
    Array.getElem?_toList, Array.getElem?_toList]
  rcases here : c.methods[k]? with _ | m
  · rfl
  · have inside : k < (fates c (callsOf c) suspects formerNames).size := by
      rw [size]
      exact (Array.getElem?_eq_some_iff.1 here).1
    simp [inside]

/-- The methods that stay, and the report of those that do not. -/
theorem removeJunk_eq (spent : List Symbol) :
    (c.removeJunk suspects formerNames spent).1 = { c with
      methods := (((fated c suspects formerNames).filter fun row => row.2.isNone).map
        Prod.fst).toArray } ∧
    (c.removeJunk suspects formerNames spent).2.removed =
      (fated c suspects formerNames).filterMap fun (m, fate) => fate.map fun reason =>
        { label := c.labelOf m, formerName := formerNames[c.nameOf m]?, reason } := by
  rw [← List.filterMap_eq_map, List.filterMap_filter, fated_eq, List.filterMap_map,
    List.filterMap_map]
  unfold ClassFile.removeJunk
  simp only [List.filterMap_map]
  exact ⟨rfl, rfl⟩

/-- Where no method is to be removed, the class stays as it is, and no removal is told. -/
theorem removeJunk_eq_self (spent : List Symbol)
    (all : ∀ row ∈ fated c suspects formerNames, row.2 = none) :
    (c.removeJunk suspects formerNames spent).1 = c ∧
      (c.removeJunk suspects formerNames spent).2.removed = [] := by
  obtain ⟨file, removed⟩ := removeJunk_eq c suspects formerNames spent
  have kept : (fated c suspects formerNames).filter (fun row => row.2.isNone) =
      fated c suspects formerNames :=
    List.filter_eq_self.2 fun row mem => Option.isNone_iff_eq_none.2 (all row mem)
  rw [file, removed, kept, map_fst_fated]
  refine ⟨rfl, List.filterMap_eq_nil_iff.2 fun row mem => ?_⟩
  exact Option.map_eq_none_iff.2 (all row mem)

end Fated

end Clarify.Junk
