import Clarify.Proofs.Naming.Links
import Clarify.Proofs.Unit.Fates

/-!
# Who calls the methods that are pruned

A virtual machine resolves a reference by the bytes of its owner, name and descriptor. Pruning looks
at the texts that they stand for, and takes the first method of a name and descriptor. Different
bytes can stand for the same text: every surrogate that stands alone reads as U+FFFD. So a method
can be pruned although it is called, if an earlier one has the same name and descriptor as a text.

Results:
* `getElem?_positions`: the position on record for a symbol is that of the first method that has it.
* `unreached_prune`: neither a handle nor another method that stays refers to a pruned method, by
  the positions on record.
* `prune_settled`: at the end each prunable method that stays is referred to.
* `shadowed_of_called`: which pruned methods are called all the same.
-/

namespace Clarify

/-! ## References as a virtual machine resolves them -/

/-- The bytes of an owner, a name and a descriptor. -/
structure RawRef where
  owner : Bytes
  name : Bytes
  descriptor : Bytes
deriving DecidableEq

namespace Pool

/-- The bytes of the name of a class. -/
def rawClassName? (p : Pool) (index : UInt16) : Option Bytes :=
  match p.get? index with
  | some (.classRef name) => p.rawText? name
  | _ => none

/-- The bytes of a name and descriptor. -/
def rawNameAndType? (p : Pool) (index : UInt16) : Option (Bytes × Bytes) :=
  match p.get? index with
  | some (.nameAndType name descriptor) => do
    return (← p.rawText? name, ← p.rawText? descriptor)
  | _ => none

/-- The bytes of a member reference. -/
def rawRef? (p : Pool) (index : UInt16) : Option RawRef :=
  match p.get? index with
  | some (.memberRef _ owner pair) => do
    let (name, descriptor) ← p.rawNameAndType? pair
    return { owner := ← p.rawClassName? owner, name, descriptor }
  | _ => none

end Pool

namespace ClassFile

/-- The bytes that a reference to a method of the class has. -/
def rawRefOf? (c : ClassFile) (m : Member) : Option RawRef := do
  return {
    owner := ← c.pool.rawClassName? c.thisClass
    name := ← c.pool.rawText? m.name
    descriptor := ← c.pool.rawText? m.descriptor }

/-- A member reference has the bytes of a method of the class. -/
def Resolves (c : ClassFile) (index : UInt16) (m : Member) : Prop :=
  ∃ r, c.pool.rawRef? index = some r ∧ c.rawRefOf? m = some r

/-- A method has a body with an invocation of a method of the class. -/
def Invokes (c : ClassFile) (caller callee : Member) : Prop :=
  ∃ body instructions i index, caller.body? = some body ∧ body.instructions = .ok instructions ∧
    i ∈ instructions ∧ Opcode.isInvoke i.opcode = true ∧ i.poolIndex? = some index ∧
    c.Resolves index callee

/-- A method handle refers to a method of the class. -/
def Handles (c : ClassFile) (callee : Member) : Prop :=
  ∃ index kind reference, c.pool.get? index = some (.methodHandle kind reference) ∧
    c.Resolves reference callee

/-! ## Texts of references -/

variable {c : ClassFile} {m : Member} {index : UInt16}

theorem rawRefOf?_eq_some {r : RawRef} (h : c.rawRefOf? m = some r) :
    c.pool.rawClassName? c.thisClass = some r.owner ∧ c.pool.rawText? m.name = some r.name ∧
      c.pool.rawText? m.descriptor = some r.descriptor := by
  simp only [rawRefOf?, Option.bind_eq_bind, Option.bind_eq_some_iff] at h
  obtain ⟨owner, foundOwner, name, foundName, descriptor, foundDescriptor, same⟩ := h
  cases same
  exact ⟨foundOwner, foundName, foundDescriptor⟩

theorem className?_of_rawClassName? {p : Pool} {bytes : Bytes}
    (h : p.rawClassName? index = some bytes) :
    p.className? index = some (ModifiedUtf8.decode bytes) := by
  unfold Pool.rawClassName? at h
  split at h
  · next n here =>
    refine Pool.className?_eq_some_iff.2 ⟨n, here, ?_⟩
    rw [Pool.text?, h]
    rfl
  · cases h

theorem nameAndType?_of_rawNameAndType? {p : Pool} {name descriptor : Bytes}
    (h : p.rawNameAndType? index = some (name, descriptor)) :
    p.nameAndType? index = some (ModifiedUtf8.decode name, ModifiedUtf8.decode descriptor) := by
  unfold Pool.rawNameAndType? at h
  split at h
  · next n d here =>
    simp only [Option.bind_eq_bind, Option.bind_eq_some_iff] at h
    obtain ⟨name, foundName, descriptor, foundDescriptor, same⟩ := h
    cases same
    refine Pool.nameAndType?_eq_some_iff.2 ⟨n, d, here, ?_, ?_⟩
    · rw [Pool.text?, foundName]
      rfl
    · rw [Pool.text?, foundDescriptor]
      rfl
  · cases h

/-- A reference with the bytes of a method has its texts, too. -/
theorem Resolves.memberRef? (h : c.Resolves index m) :
    ∃ kind, c.pool.memberRef? index = some ⟨kind, c.className, c.nameOf m, c.descriptorOf m⟩ := by
  obtain ⟨r, ref, own⟩ := h
  obtain ⟨foundThis, foundName, foundDescriptor⟩ := rawRefOf?_eq_some own
  unfold Pool.rawRef? at ref
  split at ref
  · next kind owner pair here =>
    simp only [Option.bind_eq_bind, Option.bind_eq_some_iff] at ref
    obtain ⟨⟨name, descriptor⟩, foundPair, owner', foundOwner, same⟩ := ref
    cases same
    refine ⟨kind, Pool.memberRef?_eq_some_iff.2 ⟨owner, pair, here, ?_, ?_⟩⟩
    · rw [className?_of_rawClassName? foundOwner, className, className?_of_rawClassName? foundThis]
      rfl
    · rw [nameAndType?_of_rawNameAndType? foundPair, nameOf, descriptorOf, Pool.text?, Pool.text?,
        foundName, foundDescriptor]
      rfl
  · cases ref

end ClassFile

namespace Junk

/-! ## The positions on record -/

section Positions

variable {c : ClassFile}

/-- The position on record for a symbol is that of the first method that has it. -/
theorem getElem?_positions (c : ClassFile) (s : Symbol) :
    (positions c)[s]? = (c.symbolsOf .method).findIdx? (· == s) := by
  have fold (row : List Member) (n : Nat) (table : Std.TreeMap Symbol Nat) :
      ((row.zipIdx n).foldl (fun table entry =>
          table.insertIfNew (c.symbolOf .method entry.1) entry.2) table)[s]? =
        table[s]?.or (((row.map (c.symbolOf .method)).findIdx? (· == s)).map (· + n)) := by
    induction row generalizing n table with
    | nil => simp
    | cons m row ih =>
      rw [List.zipIdx_cons, List.foldl_cons, ih, Std.TreeMap.getElem?_insertIfNew, List.map_cons,
        List.findIdx?_cons]
      simp only [Std.compare_eq_iff_eq, beq_iff_eq]
      by_cases here : c.symbolOf .method m = s
      · subst here
        by_cases known : c.symbolOf .method m ∈ table
        · simp [known]
        · simp [known]
      · simp only [here, false_and, if_false, Option.map_map]
        congr 2
        funext k
        simp only [Function.comp_apply]
        omega
  refine (fold c.methods.toList 0 ∅).trans ?_
  rw [Std.TreeMap.getElem?_emptyc, Option.none_or]
  simp [ClassFile.symbolsOf, ClassFile.membersOf]

theorem getElem?_symbolsOf_method (c : ClassFile) (k : Nat) :
    (c.symbolsOf .method)[k]? = (c.methods[k]?).map (c.symbolOf .method) := by
  show (c.methods.toList.map (c.symbolOf .method))[k]? = _
  rw [List.getElem?_map, Array.getElem?_toList]

/-- A reference with the bytes of a method refers to the method, by the positions on record, unless
an earlier one has the same symbol. -/
theorem ownMethod?_of_resolves {index : UInt16} {k : Nat} {m : Member}
    (here : c.methods[k]? = some m) (resolves : c.Resolves index m)
    (first : ∀ j m', j < k → c.methods[j]? = some m' →
      c.symbolOf .method m' ≠ c.symbolOf .method m) :
    ownMethod? c (positions c) index = some k := by
  obtain ⟨kind, ref⟩ := resolves.memberRef?
  simp only [ownMethod?, ref, Option.bind_eq_bind, Option.bind_some, ne_eq, not_true, if_false,
    getElem?_positions]
  have declared : (c.symbolsOf .method)[k]? = some (c.symbolOf .method m) := by
    rw [getElem?_symbolsOf_method, here]
    rfl
  refine (ClassFile.findMember?_eq_some_iff (s := c.symbolOf .method m)).2 ⟨declared, ?_⟩
  intro j before same
  rw [Symbol.kind, ClassFile.symbolOf, getElem?_symbolsOf_method, Option.map_eq_some_iff] at same
  obtain ⟨m', there, same⟩ := same
  exact first j m' before there same

theorem mem_callees_iff {table : Std.TreeMap Symbol Nat} {caller : Member} {k : Nat} :
    k ∈ callees c table caller ↔ ∃ body instructions i index, caller.body? = some body ∧
      body.instructions = .ok instructions ∧ i ∈ instructions ∧ Opcode.isInvoke i.opcode = true ∧
      i.poolIndex? = some index ∧ ownMethod? c table index = some k := by
  unfold callees
  rcases own : caller.body? with _ | body
  · simp
  · rcases decoded : body.instructions with e | instructions
    · simp [decoded, Except.toOption]
    · simp only [Option.bind_some, decoded, Except.toOption, Array.mem_toList_iff,
        Array.mem_filterMap]
      constructor
      · rintro ⟨i, mem, h⟩
        split at h
        · cases h
        · next invoke =>
          obtain ⟨index, operand, found⟩ := Option.bind_eq_some_iff.1 h
          exact ⟨body, instructions, i, index, rfl, decoded, mem, by simpa using invoke, operand,
            found⟩
      · rintro ⟨_, _, i, index, same, decoded', mem, invoke, operand, found⟩
        cases same
        rw [decoded] at decoded'
        cases decoded'
        refine ⟨i, mem, ?_⟩
        rw [if_neg (by simp [invoke]), operand]
        exact found

end Positions

/-! ## Pruning -/

section Prune

variable {calls : Calls} {prunable : Array Bool} {fates : Fates} {k : Nat}

theorem getD_marked (size : Nat) (positions : List Nat) (k : Nat) :
    (marked size positions).getD k false = true ↔ k < size ∧ k ∈ positions := by
  have fold (positions : List Nat) (marks : Array Bool) :
      (positions.foldl (fun marks position => marks.setIfInBounds position true) marks).getD k
        false = true ↔ marks.getD k false = true ∨ k < marks.size ∧ k ∈ positions := by
    induction positions generalizing marks with
    | nil => simp
    | cons p positions ih =>
      rw [List.foldl_cons, ih]
      simp only [Array.size_setIfInBounds, Array.getD_eq_getD_getElem?,
        Array.getElem?_setIfInBounds, List.mem_cons]
      by_cases here : p = k
      · subst here
        by_cases inside : p < marks.size <;> simp [inside]
      · have ne : k ≠ p := Ne.symm here
        simp [here, ne]
  rw [marked, fold]
  have blank : (Array.replicate size false).getD k false = false := by
    rw [Array.getD_eq_getD_getElem?, Array.getElem?_replicate]
    by_cases inside : k < size <;> simp [inside]
  simp [blank]

/-- A handle or another method that stays refers to the method at a position. -/
def IsCalled (calls : Calls) (fates : Fates) (k : Nat) : Prop :=
  k ∈ calls.pinned ∨ ∃ caller callees : _, calls.callees[caller]? = some callees ∧
    stays fates caller = true ∧ caller ≠ k ∧ k ∈ callees

theorem getD_called (calls : Calls) (fates : Fates) (k : Nat) :
    (called calls fates).getD k false = true ↔ k < fates.size ∧ IsCalled calls fates k := by
  rw [called, getD_marked, IsCalled, List.mem_append, List.mem_flatMap]
  refine and_congr_right fun _ => or_congr_right ?_
  constructor
  · rintro ⟨⟨callees, caller⟩, mem, inside⟩
    rw [List.mem_zipIdx_iff_getElem?, Array.getElem?_toList] at mem
    dsimp only at mem inside
    split at inside
    · next stay =>
      obtain ⟨there, ne⟩ := List.mem_filter.1 inside
      exact ⟨caller, callees, mem, stay, fun same => of_decide_eq_true ne same.symm, there⟩
    · cases inside
  · rintro ⟨caller, callees, there, stay, ne, mem⟩
    refine ⟨(callees, caller), ?_, ?_⟩
    · rw [List.mem_zipIdx_iff_getElem?, Array.getElem?_toList]
      exact there
    · dsimp only
      rw [if_pos stay]
      exact List.mem_filter.2 ⟨mem, decide_eq_true (Ne.symm ne)⟩

theorem IsCalled.mono {fates' : Fates} (h : IsCalled calls fates' k)
    (fewer : ∀ j, stays fates' j = true → stays fates j = true) : IsCalled calls fates k := by
  obtain pinned | ⟨caller, callees, there, stay, ne, mem⟩ := h
  · exact .inl pinned
  · exact .inr ⟨caller, callees, there, fewer caller stay, ne, mem⟩

theorem stays_of_pruneRound (h : stays (pruneRound calls prunable fates) k = true) :
    stays fates k = true := by
  unfold stays pruneRound at *
  rw [Array.getD_eq_getD_getElem?] at *
  rw [Array.getElem?_mapIdx] at h
  rcases here : fates[k]? with _ | _ | reason
  · rfl
  · rfl
  · rw [here] at h
    cases h

/-- What a round prunes has not been removed before, may be pruned, and is not called. -/
theorem pruneRound_unreferenced
    (h : (pruneRound calls prunable fates)[k]? = some (some .unreferenced)) :
    fates[k]? = some (some .unreferenced) ∨
      fates[k]? = some none ∧ prunable.getD k false = true ∧ ¬IsCalled calls fates k := by
  rw [pruneRound, Array.getElem?_mapIdx] at h
  rcases here : fates[k]? with _ | _ | reason
  · rw [here] at h
    cases h
  · rw [here, Option.map_some] at h
    dsimp only at h
    split at h
    · next both =>
      obtain ⟨may, unmarked⟩ := Bool.and_eq_true_iff.1 both
      have inside : k < fates.size := (Array.getElem?_eq_some_iff.1 here).1
      refine .inr ⟨rfl, may, fun isCalled => ?_⟩
      rw [(getD_called calls fates k).2 ⟨inside, isCalled⟩] at unmarked
      cases unmarked
    · cases h
  · rw [here] at h
    exact .inl h

/-- Neither a handle nor another method that stays refers to a method that was pruned. -/
def Unreached (calls : Calls) (fates : Fates) : Prop :=
  ∀ k, fates[k]? = some (some .unreferenced) → ¬IsCalled calls fates k

theorem unreached_pruneRound (h : Unreached calls fates) :
    Unreached calls (pruneRound calls prunable fates) := by
  intro k removed isCalled
  have before := isCalled.mono fun j => stays_of_pruneRound
  obtain old | ⟨-, -, unreached⟩ := pruneRound_unreferenced removed
  · exact h k old before
  · exact unreached before

theorem unreached_prune (h : Unreached calls fates) :
    Unreached calls (prune calls prunable fates) := by
  induction fates using prune.induct calls prunable with
  | case1 fates next fewer ih =>
    rw [prune, if_pos fewer]
    exact ih (unreached_pruneRound h)
  | case2 fates next settled =>
    rw [prune, if_neg settled]
    exact h

/-- Where as many are left as before, nothing has changed. -/
theorem mapIdx_eq_self_of_countP {α : Type} {f : Nat → Option α → Option α}
    (keeps : ∀ i a, f i (some a) = some a) (row : List (Option α)) :
    (row.mapIdx f).countP Option.isNone ≤ row.countP Option.isNone ∧
      (row.countP Option.isNone ≤ (row.mapIdx f).countP Option.isNone → row.mapIdx f = row) := by
  induction row generalizing f with
  | nil => simp
  | cons head row ih =>
    obtain ⟨fewer, same⟩ := ih fun i => keeps (i + 1)
    rw [List.mapIdx_cons, List.countP_cons, List.countP_cons]
    rcases head with _ | a
    · rcases first : f 0 none with _ | a
      · simpa using ⟨fewer, same⟩
      · simp only [Option.isNone_none, Option.isNone_some, if_true, Bool.false_eq_true, if_false]
        exact ⟨by omega, by omega⟩
    · rw [keeps 0 a]
      simpa using ⟨fewer, same⟩

theorem pruneRound_eq_self (h : keptCount fates ≤ keptCount (pruneRound calls prunable fates)) :
    pruneRound calls prunable fates = fates := by
  unfold keptCount pruneRound at h
  unfold pruneRound
  rw [← Array.countP_toList, ← Array.countP_toList, Array.toList_mapIdx] at h
  rw [← Array.toList_inj, Array.toList_mapIdx]
  exact (mapIdx_eq_self_of_countP (fun _ _ => rfl) fates.toList).2 h

theorem pruneRound_prune (calls : Calls) (prunable : Array Bool) (fates : Fates) :
    pruneRound calls prunable (prune calls prunable fates) = prune calls prunable fates := by
  induction fates using prune.induct calls prunable with
  | case1 fates next fewer ih =>
    rw [prune, if_pos fewer]
    exact ih
  | case2 fates next settled =>
    rw [prune, if_neg settled]
    exact pruneRound_eq_self (Nat.le_of_not_lt settled)

/-- At the end each prunable method that stays is called. -/
theorem prune_settled (inside : (prune calls prunable fates)[k]? = some none)
    (may : prunable.getD k false = true) : IsCalled calls (prune calls prunable fates) k := by
  have size : k < (prune calls prunable fates).size := (Array.getElem?_eq_some_iff.1 inside).1
  have settled := congrArg (·[k]?) (pruneRound_prune calls prunable fates)
  rw [pruneRound, Array.getElem?_mapIdx, inside, Option.map_some] at settled
  by_contra unreached
  have unmarked := fun marked => unreached ((getD_called calls _ k).1 marked).2
  rw [may, eq_false_of_ne_true unmarked] at settled
  simp at settled

end Prune

section Fates

variable {c : ClassFile} {calls : Calls} {suspects : Suspects}
  {formerNames : Std.TreeMap String String}

theorem unreached_fates : Unreached calls (fates c calls suspects formerNames) := by
  have start : Unreached calls (suspectFates c suspects formerNames) := by
    intro k removed
    rw [suspectFates, Array.getElem?_map, Option.map_eq_some_iff] at removed
    obtain ⟨m, -, same⟩ := removed
    split at same <;> cases same
  unfold fates
  dsimp only
  split
  · exact unreached_prune start
  · exact start

end Fates

end Junk

/-! ## Calls of methods that were removed -/

namespace ClassFile

/-- The bytes by which a virtual machine tells the methods of a class apart. -/
def rawNameOf (c : ClassFile) (m : Member) : Option Bytes × Option Bytes :=
  (c.pool.rawText? m.name, c.pool.rawText? m.descriptor)

/-- No two methods have the same bytes for their names and descriptors, as a virtual machine
demands. -/
def MethodsApart (c : ClassFile) : Prop := (c.methods.toList.map c.rawNameOf).Nodup

theorem MethodsApart.ne {c : ClassFile} (apart : c.MethodsApart) {j k : Nat} {m m' : Member}
    (ne : j ≠ k) (there : c.methods[j]? = some m') (here : c.methods[k]? = some m) :
    c.rawNameOf m' ≠ c.rawNameOf m := by
  intro same
  have inside : j < (c.methods.toList.map c.rawNameOf).length := by
    simpa using (Array.getElem?_eq_some_iff.1 there).1
  refine ne ((List.getElem?_inj inside apart).1 ?_)
  rw [List.getElem?_map, List.getElem?_map, Array.getElem?_toList, Array.getElem?_toList, there,
    here, Option.map_some, Option.map_some, same]

end ClassFile

namespace Junk

variable {c : ClassFile}

/-- A member of a pool is in the row of its slots. -/
theorem mem_slots {p : Pool} {index : UInt16} {constant : Constant}
    (here : p.get? index = some constant) : some constant ∈ p.slots.toList := by
  have there := Option.join_eq_some_iff.1 here
  exact Array.mem_toList_iff.2 (Array.mem_of_getElem? there)

theorem mem_pinned {k : Nat} {index reference : UInt16} {kind : UInt8}
    (here : c.pool.get? index = some (.methodHandle kind reference))
    (refers : ownMethod? c (positions c) reference = some k) : k ∈ (callsOf c).pinned :=
  List.mem_filterMap.2 ⟨_, mem_slots here, refers⟩

theorem getElem?_fated {suspects : Suspects} {formerNames : Std.TreeMap String String} {k : Nat}
    {m : Member} {fate : Option RemovalReason}
    (row : (fated c suspects formerNames)[k]? = some (m, fate)) :
    c.methods[k]? = some m ∧ (fates c (callsOf c) suspects formerNames)[k]? = some fate := by
  obtain ⟨here, decided⟩ := List.getElem?_zip_eq_some.1 row
  rw [Array.getElem?_toList] at here decided
  exact ⟨here, decided⟩

theorem mem_methods_removeJunk {suspects : Suspects} {formerNames : Std.TreeMap String String}
    {spent : List Symbol} {m : Member}
    (mem : m ∈ (c.removeJunk suspects formerNames spent).1.methods) :
    ∃ j : Nat, c.methods[j]? = some m ∧
      (fates c (callsOf c) suspects formerNames)[j]? = some none := by
  rw [(removeJunk_eq ..).1, List.mem_toArray, List.mem_map] at mem
  obtain ⟨⟨m, fate⟩, kept, rfl⟩ := mem
  obtain ⟨mem, stays⟩ := List.mem_filter.1 kept
  obtain ⟨j, row⟩ := List.mem_iff_getElem?.1 mem
  obtain ⟨here, decided⟩ := getElem?_fated row
  obtain rfl : fate = none := Option.isNone_iff_eq_none.1 stays
  exact ⟨j, here, decided⟩

/-- A method that is removed as never called, although a method that stays invokes it or a handle
refers to it, comes after another one that has the same texts for its name and descriptor, but not
the same bytes. So where no two methods look the same, nothing that stays refers to a pruned
method. -/
theorem shadowed_of_called (apart : c.MethodsApart) (suspects : Suspects)
    (formerNames : Std.TreeMap String String) (spent : List Symbol) :
    (c.removeJunk suspects formerNames spent).1 = { c with
      methods := (((fated c suspects formerNames).filter fun row => row.2.isNone).map
        Prod.fst).toArray } ∧
    (c.removeJunk suspects formerNames spent).2.removed =
      (fated c suspects formerNames).filterMap (fun (m, fate) => fate.map fun reason =>
        { label := c.labelOf m, formerName := formerNames[c.nameOf m]?, reason }) ∧
    ∀ (k : Nat) (m : Member),
      (fated c suspects formerNames)[k]? = some (m, some .unreferenced) →
      ((∃ caller ∈ (c.removeJunk suspects formerNames spent).1.methods,
          (c.removeJunk suspects formerNames spent).1.Invokes caller m) ∨
        (c.removeJunk suspects formerNames spent).1.Handles m) →
      ∃ (j : Nat) (m' : Member), j < k ∧ c.methods[j]? = some m' ∧
        c.symbolOf .method m' = c.symbolOf .method m ∧ c.rawNameOf m' ≠ c.rawNameOf m := by
  refine ⟨(removeJunk_eq ..).1, (removeJunk_eq ..).2, fun k m row called => ?_⟩
  obtain ⟨here, removed⟩ := getElem?_fated row
  by_contra alone
  push Not at alone
  have first (j : Nat) (m' : Member) (before : j < k) (there : c.methods[j]? = some m') :
      c.symbolOf .method m' ≠ c.symbolOf .method m := fun same =>
    apart.ne (Nat.ne_of_lt before) there here (alone j m' before there same)
  refine unreached_fates k removed ?_
  obtain ⟨caller, mem, invokes⟩ | handles := called
  · obtain ⟨j, there, stays⟩ := mem_methods_removeJunk mem
    rw [(removeJunk_eq ..).1] at invokes
    obtain ⟨body, instructions, i, index, own, decoded, inside, invoke, operand, resolves⟩ :=
      invokes
    have called : k ∈ callees c (positions c) caller :=
      mem_callees_iff.2 ⟨body, instructions, i, index, own, decoded, inside, invoke, operand,
        ownMethod?_of_resolves here resolves first⟩
    refine .inr ⟨j, callees c (positions c) caller, ?_, ?_, ?_, called⟩
    · rw [callsOf, Array.getElem?_map, there, Option.map_some]
    · rw [Junk.stays, Array.getD_eq_getD_getElem?, stays]
      rfl
    · rintro rfl
      rw [stays] at removed
      cases removed
  · rw [(removeJunk_eq ..).1] at handles
    obtain ⟨index, kind, reference, constant, resolves⟩ := handles
    exact .inl (mem_pinned constant (ownMethod?_of_resolves here resolves first))

/-! ### Two methods that look the same -/

/-- The method of `shadowing` that stays in any case. -/
def shadowingRun : Member :=
  { access := Access.public ||| Access.static, name := 11, descriptor := 5
    attributes := [.code 10 ⟨0, 0, #[0xB8, 0, 7, 0xB8, 0, 9, 0xB1], [], []⟩] }

/-- A private method of `shadowing` with the given bytes for its name. -/
def shadowingTarget (name : UInt16) : Member :=
  { access := Access.private ||| Access.static, name, descriptor := 5
    attributes := [.code 10 ⟨0, 0, #[0xB1], [], []⟩] }

/-- A class with a method that calls two private ones. Their names are two surrogates, each of which
stands alone. -/
def shadowing : ClassFile where
  minorVersion := 0
  majorVersion := 52
  pool := ⟨#[none, some (.utf8 [0x41]), some (.classRef 1), some (.utf8 [0xED, 0xA0, 0x80]),
    some (.utf8 [0xED, 0xA0, 0x81]), some (.utf8 (ModifiedUtf8.encode "()V")),
    some (.nameAndType 3 5), some (.memberRef .method 2 6), some (.nameAndType 4 5),
    some (.memberRef .method 2 8), some (.utf8 (ModifiedUtf8.encode "Code")),
    some (.utf8 (ModifiedUtf8.encode "run")),
    some (.utf8 (ModifiedUtf8.encode "java/lang/Object")), some (.classRef 12)]⟩
  access := Access.public
  thisClass := 2
  superClass := 13
  interfaces := []
  fields := #[]
  methods := #[shadowingRun, shadowingTarget 3, shadowingTarget 4]
  attributes := []

theorem parse_shadowing : ClassFile.parse shadowing.write = .ok shadowing :=
  Except.eq_ok_of_toOption (by decide +kernel)

theorem methodsApart_shadowing : shadowing.MethodsApart := by
  unfold ClassFile.MethodsApart
  decide +kernel

/-- The second private method is never called by the positions on record. -/
theorem fated_shadowing : fated shadowing .empty ∅ = [(shadowingRun, none),
    (shadowingTarget 3, none), (shadowingTarget 4, some .unreferenced)] := by
  decide +kernel

theorem removeJunk_shadowing : (shadowing.removeJunk .empty ∅ []).1 =
    { shadowing with methods := #[shadowingRun, shadowingTarget 3] } := by
  rw [(removeJunk_eq ..).1, fated_shadowing]
  rfl

/-- The method that stays invokes the one that is removed. -/
theorem invokes_shadowing :
    (shadowing.removeJunk .empty ∅ []).1.Invokes shadowingRun (shadowingTarget 4) := by
  obtain ⟨instructions, decoded, mem⟩ := ClassFile.exists_ok_of_map_toOption
    (f := fun row : Array Instruction => row.contains ⟨3, 0xB8, 2, .index 9⟩) (b := true)
    (show (Code.decode #[0xB8, 0, 7, 0xB8, 0, 9, 0xB1]).toOption.map _ = _ by
      decide +kernel)
  rw [removeJunk_shadowing]
  exact ⟨_, instructions, _, 9, rfl, decoded, Array.contains_iff_mem.1 mem, rfl, rfl,
    ⟨[0x41], [0xED, 0xA0, 0x81], [0x28, 0x29, 0x56]⟩, by decide +kernel, by decide +kernel⟩

/-- The method that is called and removed comes after one that looks the same. -/
theorem shadowed_of_called_shadowing : shadowing.MethodsApart ∧
    (fated shadowing .empty ∅)[2]? = some (shadowingTarget 4, some .unreferenced) ∧
    (∃ caller ∈ (shadowing.removeJunk .empty ∅ []).1.methods,
      (shadowing.removeJunk .empty ∅ []).1.Invokes caller (shadowingTarget 4)) ∧
    ∃ (j : Nat) (m' : Member), j < 2 ∧ shadowing.methods[j]? = some m' ∧
      shadowing.symbolOf .method m' = shadowing.symbolOf .method (shadowingTarget 4) ∧
      shadowing.rawNameOf m' ≠ shadowing.rawNameOf (shadowingTarget 4) := by
  have removed : (fated shadowing .empty ∅)[2]? = some (shadowingTarget 4, some .unreferenced) := by
    rw [fated_shadowing]
    rfl
  have called : ∃ caller ∈ (shadowing.removeJunk .empty ∅ []).1.methods,
      (shadowing.removeJunk .empty ∅ []).1.Invokes caller (shadowingTarget 4) := by
    refine ⟨shadowingRun, ?_, invokes_shadowing⟩
    rw [removeJunk_shadowing]
    simp
  exact ⟨methodsApart_shadowing, removed, called,
    (shadowed_of_called methodsApart_shadowing .empty ∅ []).2.2 2 _ removed (.inl called)⟩

/-- A method goes as never called, although a method that stays invokes it, in a class no two
methods of which have the same bytes for their names and descriptors. -/
theorem exists_dangling : ∃ (bytes : Bytes) (c : ClassFile) (caller callee : Member),
    ClassFile.parse bytes = .ok c ∧ c.MethodsApart ∧ callee ∈ c.methods ∧
      callee ∉ (c.removeJunk .empty ∅ []).1.methods ∧
      (c.removeJunk .empty ∅ []).2.removed = [⟨c.labelOf callee, none, .unreferenced⟩] ∧
      caller ∈ (c.removeJunk .empty ∅ []).1.methods ∧
      (c.removeJunk .empty ∅ []).1.Invokes caller callee := by
  refine ⟨shadowing.write, shadowing, shadowingRun, shadowingTarget 4, parse_shadowing,
    methodsApart_shadowing, ?_, ?_, ?_, ?_, invokes_shadowing⟩
  · simp [shadowing]
  · rw [removeJunk_shadowing]
    decide +kernel
  · rw [(removeJunk_eq ..).2, fated_shadowing]
    rfl
  · rw [removeJunk_shadowing]
    simp

end Junk

end Clarify
