import Clarify.Proofs.Naming.Renamed

/-!
# Invariants of renaming

Renaming changes a constant pool in three ways: it adds a new name, it adds a new name together with
the descriptor of an old one, and it gives a member reference another pair. What survives each of
them holds of the pool of the renamed class.

Results:
* `Stable.rename`: a property of pools that survives new names is kept by renaming.
-/

namespace Clarify.Rename

/-- A step after which the pool is as it should be, if it was before. -/
def Preserves {α : Type} (holds : Pool → Prop) (step : PoolStep α) : Prop :=
  ∀ p a q, step p = .ok (a, q) → holds p → holds q

section Steps

variable {α β : Type} {holds : Pool → Prop} {f : α → PoolStep β}

theorem preserves_pure (a : α) : Preserves holds (pure a) := by
  intro p b q h held
  obtain ⟨-, rfl⟩ := pure_eq_ok_iff.1 h
  exact held

theorem preserves_throw (e : UnitError) : Preserves holds (throw e : PoolStep α) := by
  intro p a q h
  cases h

theorem preserves_get : Preserves holds (get : PoolStep Pool) := by
  intro p a q h held
  cases h
  exact held

theorem Preserves.bind {x : PoolStep α} (hx : Preserves holds x) (hf : ∀ a, Preserves holds (f a)) :
    Preserves holds (x >>= f) := by
  intro p b r h held
  obtain ⟨a, q, first, second⟩ := bind_eq_ok_iff.1 h
  exact hf a q b r second (hx p a q first held)

theorem preserves_mapM (hf : ∀ a, Preserves holds (f a)) (xs : List α) :
    Preserves holds (xs.mapM f) := by
  induction xs with
  | nil =>
    rw [List.mapM_nil]
    exact preserves_pure _
  | cons x xs ih =>
    rw [List.mapM_cons]
    exact (hf x).bind fun b => ih.bind fun bs => preserves_pure _

theorem preserves_forM {g : α → PoolStep Unit} {xs : List α}
    (hg : ∀ a ∈ xs, Preserves holds (g a)) : Preserves holds (xs.forM g) := by
  induction xs with
  | nil => exact preserves_pure _
  | cons x xs ih =>
    obtain ⟨first, rest⟩ := List.forall_mem_cons.1 hg
    rw [List.forM_eq_forM, List.forM_cons, ← List.forM_eq_forM]
    exact first.bind fun _ => ih rest

end Steps

/-- A property of pools that survives the new names of a class. -/
structure Stable (holds : Pool → Prop) (store : Mapping) (plan : Plan) (c : ClassFile) :
    Prop where
  text : ∀ s newName, plan.target? store s = some newName → Preserves holds (text newName)
  namedLike : ∀ s newName, plan.target? store s = some newName → ∀ index,
    Preserves holds (namedLike index newName)
  repoint : ∀ r ∈ references store plan c, Preserves holds (repoint r)

namespace Stable

variable {holds : Pool → Prop} {store : Mapping} {plan : Plan} {c : ClassFile}

theorem declaration (h : Stable holds store plan c) (kind : SymbolKind) (m : Member) :
    Preserves holds (declaration store plan c kind m) := by
  unfold Rename.declaration
  dsimp only
  split
  · exact preserves_pure _
  · next newName moves => exact (h.text _ _ moves).bind fun name => preserves_pure _

theorem enclosing (h : Stable holds store plan c) (pool : Pool) (a : Attribute) :
    Preserves holds (enclosing store plan { c with pool } a) := by
  unfold Rename.enclosing
  split
  · exact preserves_pure _
  · split
    · dsimp only
      split
      · exact preserves_pure _
      · split
        · exact preserves_pure _
        · next newName target =>
          obtain ⟨-, name, descriptor, -, -, moves⟩ := exists_names_of_referenceTarget? target
          exact (h.namedLike _ newName moves _).bind fun pair => preserves_pure _
    · exact preserves_pure _

theorem steps (h : Stable holds store plan c) : Preserves holds (steps store plan c) := by
  unfold Rename.steps
  refine (preserves_mapM (h.declaration .field) _).bind fun fields => ?_
  refine (preserves_mapM (h.declaration .method) _).bind fun methods => ?_
  refine (preserves_forM h.repoint).bind fun _ => ?_
  refine preserves_get.bind fun pool => ?_
  exact (preserves_mapM (h.enclosing pool) _).bind fun attributes => preserves_pure _

/-- A property of pools that survives new names is kept by renaming. -/
theorem rename (h : Stable holds store plan c) {renamed : Renamed} (held : holds c.pool)
    (eq : c.rename store plan = .ok renamed) : holds renamed.file.pool := by
  rw [ClassFile.rename, Except.bind_eq_ok_iff] at eq
  obtain ⟨⟨parts, pool⟩, run, eq⟩ := eq
  cases eq
  exact h.steps _ _ _ run held

end Stable

/-- A reference that gets a new name, and that name. -/
theorem exists_target?_of_mem_references {store : Mapping} {plan : Plan} {c : ClassFile}
    {r : Reference} (mem : r ∈ references store plan c) :
    ∃ s, plan.target? store s = some r.newName := by
  obtain ⟨⟨slot, k⟩, -, h⟩ := List.mem_filterMap.1 mem
  dsimp only at h
  split at h
  · obtain ⟨newName, target, rfl⟩ := Option.map_eq_some_iff.1 h
    obtain ⟨-, name, descriptor, -, -, moves⟩ := exists_names_of_referenceTarget? target
    exact ⟨_, moves⟩
  · cases h

end Clarify.Rename
