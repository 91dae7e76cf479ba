import Clarify.Proofs.Naming.Renamed

/-!
# Classes that keep their names

Results:
* `ClassFile.rename_eq_self`: where no member and no reference gets another name, renaming leaves
  the class as it is, and needs no room in the pool.
-/

namespace Clarify

theorem Plan.target?_eq_some_iff {plan : Plan} {store : Mapping} {s : Symbol} {newName : String} :
    plan.target? store s = some newName ↔ Name.isSpecial s = false ∧
      plan.blocked.contains s = false ∧ store.resolve? s.name = some newName ∧
        newName ≠ s.name := by
  unfold target?
  split
  · next kept =>
    refine iff_of_false (Option.some_ne_none newName).symm fun ⟨special, free, _⟩ => ?_
    rw [special, free] at kept
    cases kept
  · next moves =>
    obtain ⟨special, free⟩ := Bool.or_eq_false_iff.1 (Bool.eq_false_iff.2 moves)
    simp only [special, free, Option.filter_eq_some_iff, decide_eq_true_eq, true_and]

/-- A new name of a member is one of the store. -/
theorem Plan.resolve?_of_target? {plan : Plan} {store : Mapping} {s : Symbol} {newName : String}
    (h : plan.target? store s = some newName) : store.resolve? s.name = some newName :=
  (target?_eq_some_iff.1 h).2.2.1

/-- A member that ends with the name that it has gets no other. -/
theorem Plan.target?_eq_none_of_finalName {plan : Plan} {store : Mapping} {s : Symbol}
    (same : plan.finalName store s = s.name) : plan.target? store s = none := by
  rcases moves : plan.target? store s with _ | newName
  · rfl
  · rw [Rename.finalName_of_target? moves] at same
    exact absurd same (target?_eq_some_iff.1 moves).2.2.2

namespace Rename

/-- Nor does such a reference. -/
theorem linkTarget?_eq_none_of_linkName {store : Mapping} {plan : Plan} {c : ClassFile}
    {r : MemberRef} (same : linkName store plan c r = r.name) :
    linkTarget? store plan c r = none := by
  rw [linkName_eq] at same
  rw [linkTarget?]
  by_cases owner : isRenamedOwner plan c r.owner = true
  · rw [if_pos owner] at same ⊢
    exact Plan.target?_eq_none_of_finalName same
  · rw [if_neg owner]

/-- Steps that leave the pool alone. -/
theorem mapM_eq_ok {α β : Type} {f : α → PoolStep β} {g : α → β} {p : Pool} {xs : List α}
    (h : ∀ x ∈ xs, f x p = .ok (g x, p)) : xs.mapM f p = .ok (xs.map g, p) := by
  induction xs with
  | nil => rfl
  | cons x xs ih =>
    obtain ⟨first, rest⟩ := List.forall_mem_cons.1 h
    exact mapM_cons_eq_ok_iff.2 ⟨g x, p, xs.map g, first, ih rest, rfl⟩

variable {store : Mapping} {plan : Plan} {c : ClassFile}

/-- No member of the class gets another name, and neither does any that it refers to. -/
structure Still (store : Mapping) (plan : Plan) (c : ClassFile) : Prop where
  members : ∀ kind, ∀ s ∈ c.symbolsOf kind, plan.target? store s = none
  links : ∀ l r, c.linked? l = some r → linkTarget? store plan c r = none

theorem Still.declaration (still : Still store plan c) {kind : SymbolKind} {m : Member}
    (mem : m ∈ c.membersOf kind) (p : Pool) :
    declaration store plan c kind m p = .ok ((m, none), p) := by
  have keeps := still.members kind _ (List.mem_map_of_mem (Array.mem_toList_iff.2 mem))
  simp only [Rename.declaration, keeps]
  rfl

theorem Still.references (still : Still store plan c) (size : c.pool.size ≤ Pool.capacity) :
    references store plan c = [] := by
  refine List.eq_nil_iff_forall_not_mem.2 fun r mem => ?_
  obtain ⟨here, target⟩ := (mem_references_iff size).1 mem
  obtain ⟨owner, name, descriptor, foundOwner, foundPair, -⟩ :=
    exists_names_of_referenceTarget? target
  have linked : c.linked? (.entry r.index) = some ⟨r.kind, owner, name, descriptor⟩ :=
    Pool.memberRef?_eq_some_iff.2 ⟨_, _, here, foundOwner, foundPair⟩
  rw [referenceTarget?_eq (r := ⟨r.kind, owner, name, descriptor⟩) store plan foundOwner foundPair,
    still.links _ _ linked] at target
  cases target

theorem Still.enclosing (still : Still store plan c) {a : Attribute} (mem : a ∈ c.attributes)
    (p : Pool) : enclosing store plan c a p = .ok ((a, false), p) := by
  by_cases named : c.pool.text? a.name = some "EnclosingMethod"
  · simp only [Rename.enclosing, named, ne_eq, not_true, if_false]
    rcases info : a.info with _ | ⟨c1, _ | ⟨c2, _ | ⟨m1, _ | ⟨m2, _ | ⟨x, rest⟩⟩⟩⟩⟩
    case cons.cons.cons.cons.nil =>
      rcases target : referenceTarget? store plan c .method (word16 c1 c2) (word16 m1 m2)
        with _ | newName
      · by_cases unnamed : word16 m1 m2 = 0
        · simp only [unnamed, if_true]
          rfl
        · simp only [unnamed, if_false, target]
          rfl
      · exfalso
        obtain ⟨owner, name, descriptor, foundOwner, foundPair, -⟩ :=
          exists_names_of_referenceTarget? target
        obtain ⟨k, here⟩ := List.mem_iff_getElem?.1 mem
        have linked : c.linked? (.enclosing k) = some ⟨.method, owner, name, descriptor⟩ := by
          rw [ClassFile.linked?, here]
          exact enclosing?_eq_some_iff.2 ⟨named, c1, c2, m1, m2, info, foundOwner, foundPair, rfl⟩
        have same := referenceTarget?_eq (r := ⟨.method, owner, name, descriptor⟩) store plan
          foundOwner foundPair
        rw [still.links _ _ linked] at same
        rw [show RefKind.symbolKind .method = .method from rfl, target] at same
        cases same
    all_goals rfl
  · simp only [Rename.enclosing, named, ne_eq, not_false_eq_true, if_true]
    rfl

end Rename

open Rename in
/-- Renaming leaves a class as it is that keeps its names. -/
theorem ClassFile.rename_eq_self {c : ClassFile} {store : Mapping} {plan : Plan}
    (still : Still store plan c) (size : c.pool.size ≤ Pool.capacity) :
    c.rename store plan = .ok ⟨c, [], 0⟩ := by
  have members (kind : SymbolKind) :
      (c.membersOf kind).toList.mapM (declaration store plan c kind) c.pool =
        .ok ((c.membersOf kind).toList.map fun m => (m, none), c.pool) :=
    mapM_eq_ok fun m mem => still.declaration (Array.mem_toList_iff.1 mem) c.pool
  have attributes : c.attributes.mapM (enclosing store plan c) c.pool =
      .ok (c.attributes.map fun a => (a, false), c.pool) :=
    mapM_eq_ok fun a mem => still.enclosing mem c.pool
  have run : steps store plan c c.pool = .ok ((c.fields.toList.map fun m => (m, none),
      c.methods.toList.map fun m => (m, none), 0, c.attributes.map fun a => (a, false)),
      c.pool) := by
    rw [steps, bind_eq_ok_iff]
    refine ⟨_, _, members .field, bind_eq_ok_iff.2 ⟨_, _, members .method, ?_⟩⟩
    rw [still.references size]
    exact bind_eq_ok_iff.2 ⟨(), c.pool, rfl, bind_eq_ok_iff.2 ⟨c.pool, c.pool, rfl,
      bind_eq_ok_iff.2 ⟨_, _, attributes, rfl⟩⟩⟩
  rw [rename]
  refine Except.bind_eq_ok_iff.2 ⟨_, run, ?_⟩
  have firsts (row : Array Member) :
      ((row.toList.map fun m => (m, (none : Option Renaming))).map Prod.fst).toArray = row := by
    simp [Function.comp_def]
  have seconds (row : Array Member) :
      (row.toList.map fun m => (m, (none : Option Renaming))).filterMap Prod.snd = [] := by
    rw [List.filterMap_map]
    exact List.filterMap_eq_nil_iff.2 fun _ _ => rfl
  have same : (c.attributes.map fun a => (a, false)).map Prod.fst = c.attributes := by
    simp [Function.comp_def]
  have unnamed : (c.attributes.map fun a => (a, false)).filter Prod.snd = [] := by
    rw [List.filter_map]
    simp [Function.comp_def]
  simp only [firsts, seconds, List.filterMap_append, List.append_nil, same, unnamed]
  rfl

end Clarify
