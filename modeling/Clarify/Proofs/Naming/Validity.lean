import Clarify.Proofs.ClassFile.RoundTrip
import Clarify.Proofs.Naming.Blocking
import Clarify.Proofs.Naming.Links
import Clarify.Proofs.Naming.Sound

/-!
# The names that renaming writes

A plan blocks the renames of declared members to names that are not valid. A reference is renamed by
the same plan, but it can be to a member that no class declares, such as one that is inherited from
outside the archive. Nothing blocks such a rename, so whatever name the mapping has is written.

Results:
* `Plan.isValid_of_target?`: what a plan makes of a declared member.
* `ClassFile.isValid_rename`: every name that is written is valid, except where a reference is to a
  member that no class declares.
* `ClassFile.exists_invalid`: a class with such a reference.
-/

namespace Clarify

namespace Plan

variable {surveys : List Survey} {store : Mapping} {s : Symbol} {newName : String}

/-- A declared member with a new name that is not valid is blocked. -/
theorem blocked_of_isInvalid {survey : Survey} (known : survey ∈ surveys)
    (declared : s ∈ survey.members) (invalid : IsInvalid store s) :
    (build surveys store).1.blocked.contains s = true := by
  refine (Grows.settle surveys store _).keeps s ?_
  rw [contains_foldl_iff _ fun survey d s => contains_blockInvalids_iff d survey s]
  exact .inr ⟨survey, known, declared, invalid⟩

/-- A declared member gets no name that is not valid. -/
theorem isValid_of_target? {survey : Survey} (known : survey ∈ surveys)
    (declared : s ∈ survey.members)
    (moves : (build surveys store).1.target? store s = some newName) :
    Name.isValid newName = true := by
  obtain ⟨special, free, resolved, -⟩ := target?_eq_some_iff.1 moves
  by_contra invalid
  have blocked := blocked_of_isInvalid known declared
    ⟨special, newName, resolved, Bool.eq_false_iff.2 invalid⟩
  rw [free] at blocked
  cases blocked

/-- Only declared members are blocked. -/
theorem exists_survey_of_blocked (blocked : (build surveys store).1.blocked.contains s = true) :
    ∃ survey ∈ surveys, s ∈ survey.members := by
  refine ((Grows.settle surveys store _).declared s blocked).elim (fun early => ?_)
    List.mem_flatMap.1
  rw [contains_foldl_iff _ fun survey d s => contains_blockInvalids_iff d survey s] at early
  refine early.elim (fun never => ?_) fun ⟨survey, known, declared, _⟩ => ⟨survey, known, declared⟩
  simp at never

end Plan

namespace Rename

variable {store : Mapping} {plan : Plan} {c : ClassFile} {p q : Pool}

/-- An attribute that changes names a method by the name that the plan has for it. -/
theorem enclosing?_of_changed {a : Attribute} {row : Attribute × Bool}
    (keeps : c.pool.KeepsNames p) (size : p.size ≤ Pool.capacity)
    (h : enclosing store plan c a p = .ok (row, q)) (changed : row.1 ≠ a) :
    ∃ (r : MemberRef) (newName : String), plan.target? store r.symbol = some newName ∧
      q.enclosing? row.1 = some { r with name := newName } := by
  obtain ⟨rfl, -⟩ | ⟨named, c1, c2, m1, m2, newName, pair, -, target, interned, rfl⟩ :=
    enclosing_cases h
  · exact absurd rfl changed
  obtain ⟨owner, name, descriptor, foundOwner, foundPair, moves⟩ :=
    exists_names_of_referenceTarget? target
  obtain ⟨found, grown⟩ := grown_of_namedLike size (keeps.nameAndType? foundPair) interned
  have keeps := keeps.trans grown.extends'.keepsNames
  refine ⟨⟨.method, owner, name, descriptor⟩, newName, moves, ?_⟩
  rw [enclosing?_eq_some_iff]
  refine ⟨keeps.text? named, c1, c2, _, _, rfl, keeps.className? foundOwner, ?_, rfl⟩
  rw [word16_be16]
  exact found

theorem mapM_enclosing_changed {attributes : List Attribute} {rows : List (Attribute × Bool)}
    (keeps : c.pool.KeepsNames p) (size : p.size ≤ Pool.capacity)
    (h : attributes.mapM (enclosing store plan c) p = .ok (rows, q)) :
    Grown p q ∧ ∀ (k : Nat) (a b : Attribute), attributes[k]? = some a →
      (rows.map Prod.fst)[k]? = some b → b ≠ a →
      ∃ (r : MemberRef) (newName : String), plan.target? store r.symbol = some newName ∧
        q.enclosing? b = some { r with name := newName } := by
  induction attributes generalizing rows p with
  | nil =>
    rw [List.mapM_nil] at h
    obtain ⟨rfl, rfl⟩ := pure_eq_ok_iff.1 h
    exact ⟨⟨.refl _, size⟩, fun k a b mem => by simp at mem⟩
  | cons first attributes ih =>
    obtain ⟨row, p', rest, head, others, rfl⟩ := mapM_cons_eq_ok_iff.1 h
    have grown := grown_of_enclosing keeps size head
    obtain ⟨grown', tail⟩ := ih (keeps.trans grown.extends'.keepsNames) grown.size_le others
    refine ⟨grown.trans grown', fun k a b mem mem' changed => ?_⟩
    cases k with
    | zero =>
      cases mem
      cases mem'
      obtain ⟨r, newName, moves, found⟩ := enclosing?_of_changed keeps size head changed
      exact ⟨r, newName, moves, enclosing?_mono grown'.extends'.keepsNames found⟩
    | succ k => exact tail k a b mem mem' changed

end Rename

namespace ClassFile

open Rename

section Archive

variable {classes : List ClassFile} {surveyed store : Mapping} {policy : NamingPolicy}
  {c : ClassFile} {c' : Renamed}

/-- No class of the archive declares the member. -/
def Undeclared (classes : List ClassFile) (s : Symbol) : Prop :=
  ∀ d ∈ classes, s ∉ d.symbolsOf s.kind

theorem isValid_or_undeclared {s : Symbol} {newName : String}
    (moves : (Plan.ofClasses classes surveyed policy store).target? store s = some newName) :
    Name.isValid newName = true ∨ Undeclared classes s := by
  by_cases declared : ∃ d ∈ classes, s ∈ d.symbolsOf s.kind
  · obtain ⟨d, mem, here⟩ := declared
    have known : d.survey surveyed policy ∈ classes.map fun c => c.survey surveyed policy :=
      List.mem_map.2 ⟨d, mem, rfl⟩
    exact .inl (Plan.isValid_of_target? known (mem_members_survey here) moves)
  · exact .inr fun d mem here => declared ⟨d, mem, here⟩

/-- A member that no class declares is not blocked. -/
theorem not_blocked_of_undeclared {s : Symbol} (undeclared : Undeclared classes s) :
    (Plan.ofClasses classes surveyed policy store).blocked.contains s = false := by
  refine Bool.eq_false_iff.2 fun blocked => ?_
  obtain ⟨survey, known, declared⟩ := Plan.exists_survey_of_blocked blocked
  obtain ⟨d, mem, rfl⟩ := List.mem_map.1 known
  refine undeclared d mem ?_
  rw [members_survey, List.mem_append] at declared
  rcases declared with here | here
  · rwa [kind_of_mem_symbolsOf here]
  · rwa [kind_of_mem_symbolsOf here]

theorem isRenamedOwner_ofClasses_iff (hc : c ∈ classes) {owner : String} :
    isRenamedOwner (Plan.ofClasses classes surveyed policy store) c owner = true ↔
      ∃ d ∈ classes, d.className = owner := by
  rw [isRenamedOwner, Bool.or_eq_true, beq_iff_eq, Plan.ofClasses, Plan.contains_classes_build_iff]
  constructor
  · rintro (rfl | ⟨survey, known, rfl⟩)
    · exact ⟨c, hc, rfl⟩
    · obtain ⟨d, mem, rfl⟩ := List.mem_map.1 known
      exact ⟨d, mem, rfl⟩
  · rintro ⟨d, mem, rfl⟩
    exact .inr ⟨_, List.mem_map.2 ⟨d, mem, rfl⟩, rfl⟩

/-- Which references get a name that is not valid. -/
theorem linkName_invalid_iff (hc : c ∈ classes) {r : MemberRef} {newName : String}
    (moves : newName ≠ r.name) (invalid : Name.isValid newName = false) :
    linkName store (Plan.ofClasses classes surveyed policy store) c r = newName ↔
      (∃ d ∈ classes, d.className = r.owner) ∧ Undeclared classes r.symbol ∧
        Name.isSpecial r.symbol = false ∧ store.resolve? r.name = some newName := by
  rw [linkName, linkTarget?]
  constructor
  · intro final
    by_cases owner : isRenamedOwner (Plan.ofClasses classes surveyed policy store) c r.owner = true
    · rw [if_pos owner] at final
      rcases target : (Plan.ofClasses classes surveyed policy store).target? store r.symbol
        with _ | name
      · rw [target, Option.getD_none] at final
        exact absurd final.symm moves
      · rw [target, Option.getD_some] at final
        subst final
        obtain ⟨special, -, resolved, -⟩ := Plan.target?_eq_some_iff.1 target
        have undeclared := (isValid_or_undeclared target).resolve_left (by simp [invalid])
        exact ⟨(isRenamedOwner_ofClasses_iff hc).1 owner, undeclared, special, resolved⟩
    · rw [if_neg owner, Option.getD_none] at final
      exact absurd final.symm moves
  · rintro ⟨owner, undeclared, special, resolved⟩
    have free : (Plan.ofClasses classes surveyed policy store).blocked.contains r.symbol = false :=
      not_blocked_of_undeclared undeclared
    have target := Plan.target?_eq_some_iff.2 ⟨special, free, resolved, moves⟩
    rw [if_pos ((isRenamedOwner_ofClasses_iff hc).2 owner), target, Option.getD_some]

/-- Every name that renaming writes is valid, except where a reference is to a member that no class
of the archive declares: there it is whatever the mapping has. -/
theorem isValid_rename (parsed : ∀ c ∈ classes, ∃ bytes, ClassFile.parse bytes = .ok c)
    (hc : c ∈ classes)
    (renamed : c.rename store (Plan.ofClasses classes surveyed policy store) = .ok c') :
    (∀ (kind : SymbolKind) (k : Nat) (s s' : Symbol), (c.symbolsOf kind)[k]? = some s →
      (c'.file.symbolsOf kind)[k]? = some s' → s' = s ∨ Name.isValid s'.name = true) ∧
    (∀ l r, c.linked? l = some r → ∃ newName,
      c'.file.linked? l = some { r with name := newName } ∧
      (newName ≠ r.name ∧ Name.isValid newName = false ↔
        (∃ d ∈ classes, d.className = r.owner) ∧ Undeclared classes r.symbol ∧
          Name.isSpecial r.symbol = false ∧ ∃ invalid, store.resolve? r.name = some invalid ∧
            invalid ≠ r.name ∧ Name.isValid invalid = false)) ∧
    ∀ (k : Nat) (a b : Attribute), c.attributes[k]? = some a → c'.file.attributes[k]? = some b →
      b ≠ a → ∃ (r : MemberRef) (newName : String),
        c'.file.linked? (.enclosing k) = some { r with name := newName } ∧
          (Name.isValid newName = true ∨ Undeclared classes r.symbol) := by
  obtain ⟨bytes, parse⟩ := parsed c hc
  have wf := wellFormed_of_parse parse
  have sound := (parse_eq_ok_iff.1 parse).1.1
  refine ⟨fun kind k s s' here here' => ?_, fun l r linked => ?_,
    fun k a b here here' changed => ?_⟩
  · rw [symbolsOf_rename wf renamed, List.getElem?_map, here, Option.map_some] at here'
    cases here'
    rcases moves : (Plan.ofClasses classes surveyed policy store).target? store s with _ | newName
    · exact .inl (Plan.finalSymbol_of_target?_eq_none moves)
    · have declared : ¬ Undeclared classes s := by
        intro undeclared
        refine undeclared c hc ?_
        rw [kind_of_mem_symbolsOf (List.mem_of_getElem? here)]
        exact List.mem_of_getElem? here
      right
      rw [Plan.finalSymbol, finalName_of_target? moves]
      exact (isValid_or_undeclared moves).resolve_right declared
  · have same (p : Pool) (keeps : c.pool.KeepsNames p) :
        isRenamedOwner (Plan.ofClasses classes surveyed policy store) { c with pool := p } r.owner =
          isRenamedOwner (Plan.ofClasses classes surveyed policy store) c r.owner := by
      have same : ClassFile.className { c with pool := p } = c.className :=
        sound.className_eq keeps rfl
      rw [isRenamedOwner, isRenamedOwner, same]
    refine ⟨_, linked?_rename_of_isRenamedOwner_eq wf renamed linked same, ?_⟩
    constructor
    · rintro ⟨moves, invalid⟩
      obtain ⟨owner, undeclared, special, resolved⟩ := (linkName_invalid_iff hc moves invalid).1 rfl
      exact ⟨owner, undeclared, special, _, resolved, moves, invalid⟩
    · rintro ⟨owner, undeclared, special, newName, resolved, moves, invalid⟩
      rw [(linkName_invalid_iff hc moves invalid).2 ⟨owner, undeclared, special, resolved⟩]
      exact ⟨moves, invalid⟩
  · obtain ⟨fields, methods, rows, p₁, p₂, p₃, u, first, second, third, last, -, -, attributes,
      -⟩ := rename_eq_ok renamed
    obtain ⟨evolved, -, -⟩ := sound.evolved_members first second third
    rw [attributes] at here'
    obtain ⟨-, each⟩ := mapM_enclosing_changed (.refl _) evolved.sound.size_le last
    obtain ⟨r, newName, moves, found⟩ := each k a b here here' changed
    refine ⟨r, newName, ?_, isValid_or_undeclared moves⟩
    rw [linked?, attributes, here']
    exact found

end Archive

/-- The declared method `a` keeps its name, and so does the reference to it. -/
theorem isValid_rename_declared : ∃ c' newName,
    (sample [3]).rename (Mapping.empty.override "a" "x;y")
      (samplePlan [3] (Mapping.empty.override "a" "x;y")) = .ok c' ∧
    c'.file.linked? (.entry 6) = some ⟨.method, "A", newName, "()V"⟩ ∧
    ¬ (newName ≠ "a" ∧ Name.isValid newName = false) := by
  obtain ⟨c', renamed, -⟩ := exists_ok_of_map_toOption (f := fun _ => ()) (b := ())
    (show ((sample [3]).rename (Mapping.empty.override "a" "x;y")
      (samplePlan [3] (Mapping.empty.override "a" "x;y"))).toOption.map _ = _ by decide +kernel)
  obtain ⟨-, links, -⟩ := isValid_rename
    (parse_sample [3] (Except.eq_ok_of_toOption (by decide +kernel)))
    (List.mem_singleton_self _) renamed
  obtain ⟨newName, linked, invalid⟩ :=
    links (.entry 6) ⟨.method, "A", "a", "()V"⟩ (by decide +kernel)
  have declared : (⟨.method, "a", "()V"⟩ : Symbol) ∈ (sample [3]).symbolsOf .method := by
    decide +kernel
  refine ⟨c', newName, renamed, linked, fun written => ?_⟩
  obtain ⟨-, undeclared, -⟩ := invalid.1 written
  exact undeclared _ (List.mem_singleton_self _) declared

/-- Where the method is called `b`, the reference to `a` gets a name that no method can have. -/
theorem exists_invalid : ∃ (classes : List ClassFile) (surveyed store : Mapping)
    (policy : NamingPolicy) (c : ClassFile) (c' : Renamed) (l : Link) (r r' : MemberRef),
    (∀ c ∈ classes, ∃ bytes, ClassFile.parse bytes = .ok c) ∧ c ∈ classes ∧
    c.rename store (Plan.ofClasses classes surveyed policy store) = .ok c' ∧
    c.linked? l = some r ∧ c'.file.linked? l = some r' ∧ r'.name ≠ r.name ∧
    Name.isValid r'.name = false := by
  obtain ⟨c', renamed, linked⟩ := exists_ok_of_map_toOption
    (f := fun c' : Renamed => c'.file.linked? (.entry 6))
    (b := some ⟨.method, "A", "x;y", "()V"⟩)
    (show ((sample [7]).rename (Mapping.empty.override "a" "x;y")
      (samplePlan [7] (Mapping.empty.override "a" "x;y"))).toOption.map _ = _ by decide +kernel)
  exact ⟨[sample [7]], .empty, Mapping.empty.override "a" "x;y", ⟨.silent, 0, 0⟩, sample [7], c',
    .entry 6, ⟨.method, "A", "a", "()V"⟩, _,
    parse_sample [7] (Except.eq_ok_of_toOption (by decide +kernel)), List.mem_singleton_self _,
    renamed, by decide +kernel, linked, by decide +kernel, by decide +kernel⟩

end ClassFile

end Clarify
