import Clarify.Proofs.Unit.Kept
import Clarify.Proofs.Naming.Renamed
import Mathlib.Data.Set.Basic
import Mathlib.Order.Bounds.Defs

/-!
# Dead private methods

Pruning goes in rounds, and a round looks only at the methods that are left. What all rounds remove
together is the least set that is closed under one rule: a private method goes if no handle leads to
it and all other methods that call it go. So two private methods that call each other stay, although
nobody else calls them.

Results:
* `isCalled_callsOf_iff`: the calls on record are the calls of the class.
* `mem_of_pruneRound`: what a round removes is in every closed set.
* `isLeast_prune`: what all rounds remove is the least closed set.
* `removeJunk_isLeast`: what is left of a class, what is told about the rest, and that no junk is
  left.
-/

namespace Clarify

namespace ClassFile

/-! ## Calls inside a class -/

/-- A reference leads to the first method of the class with its name and descriptor. -/
def LeadsTo (c : ClassFile) (index : UInt16) (k : Nat) : Prop :=
  ∃ r, c.pool.memberRef? index = some r ∧ r.owner = c.className ∧
    c.findMethod? r.name r.descriptor = some k

/-- An instruction of the method at one position invokes the method at another one. -/
def CallsAt (c : ClassFile) (j k : Nat) : Prop :=
  ∃ caller body instructions i index, c.methods[j]? = some caller ∧ caller.body? = some body ∧
    body.instructions = .ok instructions ∧ i ∈ instructions ∧ Opcode.isInvoke i.opcode = true ∧
    i.poolIndex? = some index ∧ c.LeadsTo index k

/-- A method handle in the pool leads to the method at a position. -/
def Pins (c : ClassFile) (k : Nat) : Prop :=
  ∃ kind reference, some (.methodHandle kind reference) ∈ c.pool.slots ∧ c.LeadsTo reference k

/-- A private method that neither the virtual machine nor the serialization calls and that is not
native. -/
def MayBePruned (c : ClassFile) (k : Nat) : Prop :=
  ∃ m, c.methods[k]? = some m ∧ m.isPrivate = true ∧ m.isNative = false ∧
    Name.isSpecial (c.symbolOf .method m) = false ∧
    Name.isSerializationHook (c.nameOf m) (c.descriptorOf m) = false

/-- Next to the suspects, a set has every method that may be pruned, that no handle leads to, and
all other callers of which are suspects or in the set. -/
def PruneClosed (c : ClassFile) (suspects dead : Set Nat) : Prop :=
  ∀ k, c.MayBePruned k → k ∉ suspects → ¬c.Pins k →
    (∀ j, j ≠ k → c.CallsAt j k → j ∈ suspects ∨ j ∈ dead) → k ∈ dead

end ClassFile

namespace Junk

variable {c : ClassFile} {calls : Calls} {prunable : Array Bool} {fates : Fates} {k : Nat}

/-! ## Calls on record -/

theorem ownMethod?_positions_iff {index : UInt16} :
    ownMethod? c (positions c) index = some k ↔ c.LeadsTo index k := by
  rw [ownMethod?_eq_some_iff, ClassFile.LeadsTo]
  simp only [getElem?_positions, ClassFile.findMethod?_eq]
  rfl

theorem mem_pinned_iff : k ∈ (callsOf c).pinned ↔ c.Pins k := by
  rw [callsOf, List.mem_filterMap]
  constructor
  · rintro ⟨constant, mem, handled⟩
    unfold handled? at handled
    split at handled
    · next kind reference =>
      exact ⟨kind, reference, Array.mem_toList_iff.1 mem, ownMethod?_positions_iff.1 handled⟩
    · cases handled
  · rintro ⟨kind, reference, mem, leads⟩
    exact ⟨_, Array.mem_toList_iff.2 mem, ownMethod?_positions_iff.2 leads⟩

theorem mem_callees_callsOf_iff {j : Nat} :
    (∃ callees, (callsOf c).callees[j]? = some callees ∧ k ∈ callees) ↔ c.CallsAt j k := by
  rw [callsOf]
  simp only [Array.getElem?_map, Option.map_eq_some_iff]
  constructor
  · rintro ⟨_, ⟨caller, here, rfl⟩, mem⟩
    obtain ⟨body, instructions, i, index, own, decoded, inside, invoke, operand, refers⟩ :=
      mem_callees_iff.1 mem
    exact ⟨caller, body, instructions, i, index, here, own, decoded, inside, invoke, operand,
      ownMethod?_positions_iff.1 refers⟩
  · rintro ⟨caller, body, instructions, i, index, here, own, decoded, inside, invoke, operand,
      leads⟩
    exact ⟨_, ⟨caller, here, rfl⟩, mem_callees_iff.2 ⟨body, instructions, i, index, own, decoded,
      inside, invoke, operand, ownMethod?_positions_iff.2 leads⟩⟩

/-- The calls on record are the calls of the class. -/
theorem isCalled_callsOf_iff : IsCalled (callsOf c) fates k ↔
    c.Pins k ∨ ∃ j, j ≠ k ∧ c.CallsAt j k ∧ stays fates j = true := by
  rw [IsCalled, mem_pinned_iff]
  refine or_congr_right ⟨?_, ?_⟩
  · rintro ⟨j, callees, there, stay, ne, mem⟩
    exact ⟨j, ne, mem_callees_callsOf_iff.1 ⟨callees, there, mem⟩, stay⟩
  · rintro ⟨j, ne, called, stay⟩
    obtain ⟨callees, there, mem⟩ := mem_callees_callsOf_iff.2 called
    exact ⟨j, callees, there, stay, ne, mem⟩

theorem getD_prunable_iff :
    (c.methods.map fun m => m.isPrivate && isRemovable c m).getD k false = true ↔
      c.MayBePruned k := by
  rw [Array.getD_eq_getD_getElem?, Array.getElem?_map, ClassFile.MayBePruned]
  rcases c.methods[k]? with _ | m
  · simp
  · simp [isRemovable, ClassFile.symbolOf, and_assoc]

theorem not_stays_iff : ¬stays fates k = true ↔ ∃ reason, fates[k]? = some (some reason) := by
  rw [stays, Array.getD_eq_getD_getElem?]
  rcases fates[k]? with _ | _ | reason <;> simp

/-! ## The least closed set -/

/-- The positions of the methods that are removed for a reason. -/
def removedFor (fates : Fates) (reason : RemovalReason) : Set Nat :=
  {k | fates[k]? = some (some reason)}

theorem not_stays_iff_mem : ¬stays fates k = true ↔
    k ∈ removedFor fates .suspect ∨ k ∈ removedFor fates .unreferenced := by
  rw [not_stays_iff]
  constructor
  · rintro ⟨_ | _, removed⟩
    · exact .inl removed
    · exact .inr removed
  · rintro (removed | removed)
    · exact ⟨_, removed⟩
    · exact ⟨_, removed⟩

section Rounds

variable {dead : Set Nat}
  (may : ∀ k, prunable.getD k false = true → c.MayBePruned k)

include may

/-- What a round removes is in every closed set. -/
theorem mem_of_pruneRound (closed : c.PruneClosed (removedFor fates .suspect) dead)
    (before : removedFor fates .unreferenced ⊆ dead) :
    removedFor (pruneRound (callsOf c) prunable fates) .unreferenced ⊆ dead := by
  intro k removed
  obtain old | ⟨left, prunable, unreached⟩ := pruneRound_unreferenced removed
  · exact before old
  · rw [isCalled_callsOf_iff, not_or] at unreached
    obtain ⟨unpinned, uncalled⟩ := unreached
    refine closed k (may k prunable) (fun suspect => ?_) unpinned fun j ne called => ?_
    · cases left.symm.trans suspect
    · have gone : ¬stays fates j = true := fun stay => uncalled ⟨j, ne, called, stay⟩
      exact (not_stays_iff_mem.1 gone).imp_right fun old => before old

theorem removedFor_prune_subset (closed : c.PruneClosed (removedFor fates .suspect) dead)
    (before : removedFor fates .unreferenced ⊆ dead) :
    removedFor (prune (callsOf c) prunable fates) .unreferenced ⊆ dead := by
  induction fates using prune.induct (callsOf c) prunable with
  | case1 fates next fewer ih =>
    rw [prune, if_pos fewer]
    have suspects : removedFor next .suspect = removedFor fates .suspect :=
      Set.ext fun k => pruneRound_suspect_iff (callsOf c) prunable fates k
    exact ih (suspects ▸ closed) (mem_of_pruneRound may closed before)
  | case2 fates next settled =>
    rw [prune, if_neg settled]
    exact before

end Rounds

/-- What all rounds remove is closed, since all prunable methods that are left are called. -/
theorem pruneClosed_prune (may : ∀ k, c.MayBePruned k → prunable.getD k false = true)
    (size : fates.size = c.methods.size) :
    c.PruneClosed (removedFor fates .suspect)
      (removedFor (prune (callsOf c) prunable fates) .unreferenced) := by
  obtain ⟨sameSize, sameSuspects⟩ := prune_spec (callsOf c) prunable fates
  have suspects : removedFor (prune (callsOf c) prunable fates) .suspect =
      removedFor fates .suspect := Set.ext sameSuspects
  intro k prunable' unsuspected unpinned callers
  rw [← suspects] at unsuspected callers
  have marked := may k prunable'
  obtain ⟨m, here, -⟩ := prunable'
  have inside : k < (prune (callsOf c) prunable fates).size := by
    rw [sameSize, size]
    exact (Array.getElem?_eq_some_iff.1 here).1
  rcases fate : (prune (callsOf c) prunable fates)[k] with _ | _ | _
  · have left := (Array.getElem?_eq_getElem inside).trans (congrArg some fate)
    obtain pinned | ⟨j, ne, called, stay⟩ :=
      isCalled_callsOf_iff.1 (prune_settled left marked)
    · exact absurd pinned unpinned
    · exact absurd stay (not_stays_iff_mem.2 (callers j ne called))
  · exact absurd ((Array.getElem?_eq_getElem inside).trans (congrArg some fate)) unsuspected
  · exact (Array.getElem?_eq_getElem inside).trans (congrArg some fate)

/-- What all rounds remove is the least closed set. -/
theorem isLeast_prune (may : ∀ k, prunable.getD k false = true ↔ c.MayBePruned k)
    (size : fates.size = c.methods.size) (none : removedFor fates .unreferenced = ∅) :
    IsLeast {dead | c.PruneClosed (removedFor fates .suspect) dead}
      (removedFor (prune (callsOf c) prunable fates) .unreferenced) := by
  refine ⟨pruneClosed_prune (fun k => (may k).2) size, fun dead closed => ?_⟩
  refine removedFor_prune_subset (fun k => (may k).1) closed ?_
  rw [none]
  exact Set.empty_subset dead

/-- No method has been pruned before the first round. -/
theorem removedFor_suspectFates (c : ClassFile) (suspects : Suspects)
    (formerNames : Std.TreeMap String String) :
    removedFor (suspectFates c suspects formerNames) .unreferenced = ∅ := by
  refine Set.eq_empty_of_forall_notMem fun k removed => ?_
  have pruned : (suspectFates c suspects formerNames)[k]? = some (some .unreferenced) := removed
  rw [suspectFates, Array.getElem?_map, Option.map_eq_some_iff] at pruned
  obtain ⟨m, -, fate⟩ := pruned
  split at fate <;> cases fate

/-! ## Classes without junk -/

variable (c) (suspects : Suspects) (formerNames : Std.TreeMap String String)

/-- Unless another class has access to private members, the pruned methods are the least closed
set. -/
theorem isLeast_fates (alone : isAlone c = true) :
    IsLeast {dead | c.PruneClosed (removedFor (Junk.fates c (callsOf c) suspects formerNames)
        .suspect) dead}
      (removedFor (Junk.fates c (callsOf c) suspects formerNames) .unreferenced) := by
  have pruned : Junk.fates c (callsOf c) suspects formerNames =
      prune (callsOf c) (c.methods.map fun m => m.isPrivate && isRemovable c m)
        (suspectFates c suspects formerNames) := if_pos alone
  have size : (suspectFates c suspects formerNames).size = c.methods.size := Array.size_map
  have sameSuspects : removedFor (Junk.fates c (callsOf c) suspects formerNames) .suspect =
      removedFor (suspectFates c suspects formerNames) .suspect := by
    rw [pruned]
    exact Set.ext (prune_spec ..).2
  rw [sameSuspects, pruned]
  exact isLeast_prune (fun _ => getD_prunable_iff) size (removedFor_suspectFates ..)

/-- Suspect methods that may be removed are removed as such. The methods that are pruned are the
least set closed under the rule for dead methods, or none where another class has access to private
members. The others stay in their order, nothing else in the class changes, the removed ones are
told in their order, and no junk is left. -/
theorem removeJunk_isLeast (spent : List Symbol) :
    ∃ fates : Fates, fates.size = c.methods.size ∧
      (∀ (k : Nat) (m : Member), c.methods[k]? = some m → (k ∈ removedFor fates .suspect ↔
        isSuspect suspects formerNames (c.nameOf m) = true ∧ isRemovable c m = true)) ∧
      (c.hasAttribute "NestHost" = false → c.hasAttribute "NestMembers" = false →
        IsLeast {dead | c.PruneClosed (removedFor fates .suspect) dead}
          (removedFor fates .unreferenced)) ∧
      (c.hasAttribute "NestHost" = true ∨ c.hasAttribute "NestMembers" = true →
        removedFor fates .unreferenced = ∅) ∧
      (c.removeJunk suspects formerNames spent).1 = { c with
        methods := (((c.methods.toList.zip fates.toList).filter fun row => row.2.isNone).map
          Prod.fst).toArray } ∧
      (c.removeJunk suspects formerNames spent).2.removed =
        (c.methods.toList.zip fates.toList).filterMap (fun (m, fate) => fate.map fun reason =>
          { label := c.labelOf m, formerName := formerNames[c.nameOf m]?, reason }) ∧
      ((c.removeJunk suspects formerNames spent).1.removeJunk suspects formerNames spent).1 =
        (c.removeJunk suspects formerNames spent).1 ∧
      ((c.removeJunk suspects formerNames spent).1.removeJunk suspects formerNames
        spent).2.removed = [] := by
  obtain ⟨file, removed⟩ := removeJunk_eq c suspects formerNames spent
  refine ⟨Junk.fates c (callsOf c) suspects formerNames, size_fates,
    fun k m here => fates_suspect_iff here, fun host members => ?_, fun nested => ?_, file, removed,
    removeJunk_removeJunk c suspects (fun _ suspect => suspect) spent spent⟩
  · exact isLeast_fates c suspects formerNames (by rw [isAlone, host, members]; rfl)
  · have shared : ¬isAlone c = true := by
      rw [isAlone]
      obtain host | members := nested
      · simp [host]
      · simp [members]
    rw [show Junk.fates c (callsOf c) suspects formerNames = suspectFates c suspects formerNames
      from if_neg shared]
    exact removedFor_suspectFates c suspects formerNames

end Junk

end Clarify
