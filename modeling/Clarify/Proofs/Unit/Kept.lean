import Clarify.Proofs.Unit.Callers
import Mathlib.Order.Monotone.Basic

/-!
# Removing junk again

The methods that are left stand in the order in which they stood before, so a reference that led to
one of them leads to it still. Each that may be removed is called by a handle or by another one that
is left. So there is no junk left.

Results:
* `exists_places`: where the methods that are left stood before.
* `removeJunk_removeJunk`: removing junk once more removes nothing.
-/

namespace Clarify

namespace Junk

/-! ## Positions before and after -/

/-- The places of a row behind one more item that stays. -/
def shifted (place : Nat → Nat) : Nat → Nat
  | 0 => 0
  | j + 1 => place j + 1

theorem exists_places_filter {α : Type} (p : α → Bool) (row : List α) :
    ∃ place : Nat → Nat, StrictMono place ∧ (∀ j, (row.filter p)[j]? = row[place j]?) ∧
      ∀ (k : Nat) (a : α), row[k]? = some a → p a = true → ∃ j, place j = k := by
  induction row with
  | nil => exact ⟨id, strictMono_id, fun j => by simp, fun k a here => by simp at here⟩
  | cons a row ih =>
    obtain ⟨place, mono, same, onto⟩ := ih
    by_cases keep : p a = true
    · refine ⟨shifted place, strictMono_nat_of_lt_succ fun j => ?_, fun j => ?_,
        fun k b here good => ?_⟩
      · cases j with
        | zero => exact Nat.succ_pos _
        | succ j => exact Nat.succ_lt_succ (mono (Nat.lt_succ_self j))
      · rw [List.filter_cons_of_pos keep]
        cases j with
        | zero => rfl
        | succ j => exact same j
      · cases k with
        | zero => exact ⟨0, rfl⟩
        | succ k =>
          obtain ⟨j, at'⟩ := onto k b here good
          exact ⟨j + 1, congrArg (· + 1) at'⟩
    · refine ⟨fun j => place j + 1, fun i j lt => Nat.succ_lt_succ (mono lt), fun j => ?_,
        fun k b here good => ?_⟩
      · rw [List.filter_cons_of_neg keep]
        exact same j
      · cases k with
        | zero =>
          cases here
          exact absurd good keep
        | succ k =>
          obtain ⟨j, at'⟩ := onto k b here good
          exact ⟨j, congrArg (· + 1) at'⟩

/-- Where the methods that are left stood before. -/
structure Places (methods : Array Member) (fates : Fates) (kept : Array Member)
    (place : Nat → Nat) : Prop where
  size : fates.size = methods.size
  mono : StrictMono place
  same : ∀ j, kept[j]? = methods[place j]?
  spared : ∀ j : Nat, j < kept.size → fates[place j]? = some none
  onto : ∀ k : Nat, fates[k]? = some none → ∃ j, place j = k

variable {c : ClassFile} {suspects : Suspects} {formerNames : Std.TreeMap String String}
  {kept : Array Member} {fates : Fates} {place : Nat → Nat}

theorem exists_places (c : ClassFile) (suspects : Suspects)
    (formerNames : Std.TreeMap String String) (spent : List Symbol) :
    ∃ kept place, (c.removeJunk suspects formerNames spent).1 = { c with methods := kept } ∧
      Places c.methods (Junk.fates c (callsOf c) suspects formerNames) kept place := by
  obtain ⟨place, mono, same, onto⟩ :=
    exists_places_filter (fun row => row.2.isNone) (fated c suspects formerNames)
  refine ⟨_, place, (removeJunk_eq ..).1, size_fates, mono, fun j => ?_, fun j inside => ?_,
    fun k decided => ?_⟩
  · rw [List.getElem?_toArray, List.getElem?_map, same, ← List.getElem?_map, map_fst_fated,
      Array.getElem?_toList]
  · rw [List.size_toArray, List.length_map] at inside
    have here := List.getElem?_eq_getElem inside
    generalize eq : ((fated c suspects formerNames).filter fun row => row.2.isNone)[j] = row at here
    have stays : row.2.isNone = true := (List.mem_filter.1 (List.mem_of_getElem? here)).2
    obtain ⟨m, fate⟩ := row
    obtain rfl : fate = none := Option.isNone_iff_eq_none.1 stays
    exact (getElem?_fated ((same j).symm.trans here)).2
  · have size : (Junk.fates c (callsOf c) suspects formerNames).size = c.methods.size := size_fates
    have inside : k < c.methods.size := size ▸ (Array.getElem?_eq_some_iff.1 decided).1
    refine onto k (c.methods[k], none) (List.getElem?_zip_eq_some.2 ⟨?_, ?_⟩) rfl
    · rw [Array.getElem?_toList, Array.getElem?_eq_getElem inside]
    · rw [Array.getElem?_toList, decided]

/-! ## Calls before and after -/

theorem ownMethod?_eq_some_iff {table : Std.TreeMap Symbol Nat} {index : UInt16} {k : Nat} :
    ownMethod? c table index = some k ↔ ∃ r, c.pool.memberRef? index = some r ∧
      r.owner = c.className ∧ table[(⟨.method, r.name, r.descriptor⟩ : Symbol)]? = some k := by
  unfold ownMethod?
  rcases c.pool.memberRef? index with _ | r
  · simp
  · by_cases own : r.owner = c.className <;> simp [own]

section Places

variable (places : Places c.methods fates kept place)

include places

/-- The first method with a symbol is the first one still. -/
theorem Places.getElem?_positions {name descriptor : String} {j : Nat}
    (here : (positions c)[(⟨.method, name, descriptor⟩ : Symbol)]? = some (place j)) :
    (positions { c with methods := kept })[(⟨.method, name, descriptor⟩ : Symbol)]? = some j := by
  rw [Junk.getElem?_positions] at here ⊢
  have symbol (i : Nat) : (ClassFile.symbolsOf { c with methods := kept } .method)[i]? =
      (c.symbolsOf .method)[place i]? := by
    rw [getElem?_symbolsOf_method, getElem?_symbolsOf_method, ← places.same]
    rfl
  obtain ⟨declared, first⟩ := (ClassFile.findMember?_eq_some_iff
    (s := ⟨.method, name, descriptor⟩)).1 here
  refine (ClassFile.findMember?_eq_some_iff (s := ⟨.method, name, descriptor⟩)).2
    ⟨(symbol j).trans declared, fun i before => ?_⟩
  rw [symbol]
  exact first (place i) (places.mono before)

theorem Places.ownMethod? {index : UInt16} {j : Nat}
    (own : ownMethod? c (positions c) index = some (place j)) :
    ownMethod? { c with methods := kept } (positions { c with methods := kept }) index =
      some j := by
  obtain ⟨r, found, owner, at'⟩ := ownMethod?_eq_some_iff.1 own
  exact ownMethod?_eq_some_iff.2 ⟨r, found, owner, places.getElem?_positions at'⟩

/-- A method that was called by what is left is called still. -/
theorem Places.isCalled {j : Nat} (isCalled : IsCalled (callsOf c) fates (place j))
    {fates' : Fates} (all : ∀ i : Nat, i < kept.size → fates'[i]? = some none) :
    IsCalled (callsOf { c with methods := kept }) fates' j := by
  obtain pinned | ⟨caller, callees, there, stay, ne, mem⟩ := isCalled
  · obtain ⟨constant, inside, handled⟩ := List.mem_filterMap.1 pinned
    refine .inl (List.mem_filterMap.2 ⟨constant, inside, ?_⟩)
    unfold handled? at handled ⊢
    split at handled
    · exact places.ownMethod? handled
    · cases handled
  · obtain ⟨m, here, rfl⟩ := Option.map_eq_some_iff.1 ((Array.getElem?_map ..).symm.trans there)
    have decided : fates[caller]? = some none := by
      have inside : caller < fates.size := places.size ▸ (Array.getElem?_eq_some_iff.1 here).1
      rw [stays, Array.getD_eq_getD_getElem?, Array.getElem?_eq_getElem inside, Option.getD_some,
        Option.isNone_iff_eq_none] at stay
      rw [Array.getElem?_eq_getElem inside, stay]
    obtain ⟨i, rfl⟩ := places.onto caller decided
    have here' : kept[i]? = some m := (places.same i).trans here
    have inside : i < kept.size := (Array.getElem?_eq_some_iff.1 here').1
    refine .inr ⟨i, callees { c with methods := kept } (positions { c with methods := kept }) m,
      ?_, ?_, fun same => ne (congrArg place same), ?_⟩
    · show (kept.map _)[i]? = _
      rw [Array.getElem?_map, here']
      rfl
    · rw [stays, Array.getD_eq_getD_getElem?, all i inside]
      rfl
    · obtain ⟨body, instructions, x, index, own, decoded, mem, invoke, operand, refers⟩ :=
        mem_callees_iff.1 mem
      exact mem_callees_iff.2 ⟨body, instructions, x, index, own, decoded, mem, invoke, operand,
        places.ownMethod? refers⟩

end Places

/-! ## Nothing more to remove -/

/-- Where each prunable method that is left is called, nothing is pruned. -/
theorem prune_eq_self {calls : Calls} {prunable : Array Bool} {fates : Fates}
    (reached : ∀ k : Nat, fates[k]? = some none → prunable.getD k false = true →
      IsCalled calls fates k) : prune calls prunable fates = fates := by
  have still : pruneRound calls prunable fates = fates := by
    refine Array.ext_getElem? fun k => ?_
    rw [pruneRound, Array.getElem?_mapIdx]
    rcases here : fates[k]? with _ | _ | reason
    · rfl
    · rw [Option.map_some]
      by_cases may : prunable.getD k false = true
      · have marked := (getD_called calls fates k).2
          ⟨(Array.getElem?_eq_some_iff.1 here).1, reached k here may⟩
        simp only [may, marked, Bool.not_true, Bool.and_false, Bool.false_eq_true, if_false]
      · simp only [may, Bool.false_and, Bool.false_eq_true, if_false]
    · rfl
  rw [prune, still, if_neg (Nat.lt_irrefl _)]

/-- A name that is suspect with no former names on record is suspect with any on record. -/
theorem isSuspect_of_emptyc {name : String} (h : isSuspect suspects ∅ name = true) :
    isSuspect suspects formerNames name = true := by
  rw [isSuspect, Std.TreeMap.getElem?_emptyc, Option.any_none, Bool.or_false] at h
  exact Bool.or_eq_true_iff.2 (.inl h)

section Fates

variable {formerNames' : Std.TreeMap String String}
  (fewer : ∀ name, isSuspect suspects formerNames' name = true →
    isSuspect suspects formerNames name = true)
  (places : Places c.methods (Junk.fates c (callsOf c) suspects formerNames) kept place)

include fewer places

/-- No method that is left is suspect. -/
theorem Places.suspectFates_eq_none (j : Nat) (inside : j < kept.size) :
    (suspectFates { c with methods := kept } suspects formerNames')[j]? = some none := by
  have here : kept[j]? = some kept[j] := Array.getElem?_eq_getElem inside
  have spared : (Junk.fates c (callsOf c) suspects formerNames)[place j]? ≠
      some (some .suspect) := by
    rw [places.spared j inside]
    simp
  rw [ne_eq, fates_suspect_iff ((places.same j).symm.trans here)] at spared
  rw [suspectFates, Array.getElem?_map, here, Option.map_some, if_neg]
  intro both
  obtain ⟨suspect, removable⟩ := Bool.and_eq_true_iff.1 both
  exact spared ⟨fewer _ suspect, removable⟩

/-- No method that is left is to be removed: those that may be pruned are called. -/
theorem Places.fates_eq_none {j : Nat} (inside : j < kept.size) :
    (Junk.fates { c with methods := kept } (callsOf { c with methods := kept }) suspects
      formerNames')[j]? = some none := by
  by_cases alone : isAlone c = true
  · have before : Junk.fates c (callsOf c) suspects formerNames =
        prune (callsOf c) (c.methods.map fun m => m.isPrivate && isRemovable c m)
          (suspectFates c suspects formerNames) := if_pos alone
    have after : Junk.fates { c with methods := kept } (callsOf { c with methods := kept }) suspects
        formerNames' = prune (callsOf { c with methods := kept })
          (kept.map fun m => m.isPrivate && isRemovable c m)
          (suspectFates { c with methods := kept } suspects formerNames') := if_pos alone
    rw [after, prune_eq_self fun k left may => ?_]
    · exact places.suspectFates_eq_none fewer j inside
    have inside : k < kept.size := by
      have := (Array.getElem?_eq_some_iff.1 left).1
      rwa [suspectFates, Array.size_map] at this
    have spared := places.spared k inside
    refine places.isCalled ?_ (places.suspectFates_eq_none fewer)
    rw [before] at spared ⊢
    refine prune_settled spared ?_
    rw [Array.getD_eq_getD_getElem?, Array.getElem?_map] at may ⊢
    rwa [← places.same k]
  · have after : Junk.fates { c with methods := kept } (callsOf { c with methods := kept }) suspects
        formerNames' = suspectFates { c with methods := kept } suspects formerNames' :=
      if_neg alone
    rw [after]
    exact places.suspectFates_eq_none fewer j inside

end Fates

/-- Removing junk once more removes nothing, if no name has become suspect since. -/
theorem removeJunk_removeJunk (c : ClassFile) (suspects : Suspects)
    {formerNames formerNames' : Std.TreeMap String String}
    (fewer : ∀ name, isSuspect suspects formerNames' name = true →
      isSuspect suspects formerNames name = true) (spent spent' : List Symbol) :
    ((c.removeJunk suspects formerNames spent).1.removeJunk suspects formerNames' spent').1 =
        (c.removeJunk suspects formerNames spent).1 ∧
      ((c.removeJunk suspects formerNames spent).1.removeJunk suspects formerNames'
        spent').2.removed = [] := by
  obtain ⟨kept, place, same, places⟩ := exists_places c suspects formerNames spent
  rw [same]
  refine removeJunk_eq_self _ suspects formerNames' spent' fun row mem => ?_
  obtain ⟨j, here⟩ := List.mem_iff_getElem?.1 mem
  obtain ⟨m, fate⟩ := row
  obtain ⟨there, decided⟩ := getElem?_fated here
  rw [places.fates_eq_none fewer (Array.getElem?_eq_some_iff.1 there).1] at decided
  exact (Option.some.inj decided).symm

end Junk

end Clarify
