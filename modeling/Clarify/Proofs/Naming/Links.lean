import Clarify.Proofs.Naming.Renamed
import Clarify.Proofs.Naming.Settled

/-!
# Links across an archive

The classes of an archive are renamed one by one, each by the same plan. A reference to a member
that another class declares still leads to that member, in the same place. A reference to a member
that the class does not declare can come to lead to one that gets the same name.

Results:
* `linked?_rename_of_declared`: references to declared members, and different members, stay so.
* `linked?_rename_of_not_declared`: which members other references lead to.
-/

namespace Clarify

/-- The plan for the classes of an archive. -/
def Plan.ofClasses (classes : List ClassFile) (surveyed : Mapping) (policy : NamingPolicy)
    (store : Mapping) : Plan :=
  (Plan.build (classes.map fun c => c.survey surveyed policy) store).1

namespace ClassFile

/-! ## A class that refers to one of its methods -/

/-- The bytes of a class `A` with a reference to its method `a`, whose methods have their names at
the given indices. -/
def sampleBytes (names : List UInt8) : Bytes :=
  [0xCA, 0xFE, 0xBA, 0xBE, 0, 0, 0, 52, 0, 8,
    1, 0, 1, 0x41, 7, 0, 1, 1, 0, 1, 0x61, 1, 0, 3, 0x28, 0x29, 0x56, 12, 0, 3, 0, 4,
    10, 0, 2, 0, 5, 1, 0, 1, 0x62,
    0, 1, 0, 2, 0, 0, 0, 0, 0, 0, 0, UInt8.ofNat names.length]
    ++ names.flatMap (fun name => [0, 1, 0, name, 0, 4, 0, 0]) ++ [0, 0]

/-- The class of those bytes. -/
def sample (names : List UInt8) : ClassFile where
  minorVersion := 0
  majorVersion := 52
  pool := ⟨#[none, some (.utf8 [0x41]), some (.classRef 1), some (.utf8 [0x61]),
    some (.utf8 [0x28, 0x29, 0x56]), some (.nameAndType 3 4), some (.memberRef .method 2 5),
    some (.utf8 [0x62])]⟩
  access := 1
  thisClass := 2
  superClass := 0
  interfaces := []
  fields := #[]
  methods := (names.map fun name => ⟨1, name.toUInt16, 4, []⟩).toArray
  attributes := []

/-- A plan for the class alone. -/
def samplePlan (names : List UInt8) (store : Mapping) : Plan :=
  Plan.ofClasses [sample names] .empty ⟨.silent, 0, 0⟩ store

theorem parse_sample (names : List UInt8) (h : parse (sampleBytes names) = .ok (sample names)) :
    ∀ c ∈ [sample names], ∃ bytes, ClassFile.parse bytes = .ok c := by
  intro c hc
  rw [List.mem_singleton.1 hc]
  exact ⟨sampleBytes names, h⟩

theorem exists_ok_of_map_toOption {ε α β : Type} {x : Except ε α} {f : α → β} {b : β}
    (h : x.toOption.map f = some b) : ∃ a, x = .ok a ∧ f a = b := by
  cases x with
  | error e => cases h
  | ok a => exact ⟨a, rfl, Option.some.inj h⟩

section Archive

variable {classes : List ClassFile} {surveyed store : Mapping} {policy : NamingPolicy}
  {c d : ClassFile} {c' d' : Renamed}

theorem members_survey :
    (c.survey store policy).members = c.symbolsOf .field ++ c.symbolsOf .method := by
  show (Survey.declared c).map Prod.fst = _
  rw [Survey.declared, List.map_append, List.map_map, List.map_map]
  rfl

theorem mem_members_survey {kind : SymbolKind} {s : Symbol} (h : s ∈ c.symbolsOf kind) :
    s ∈ (c.survey store policy).members := by
  rw [members_survey, List.mem_append]
  cases kind with
  | «class» => cases h
  | field => exact .inl h
  | method => exact .inr h

theorem kind_of_mem_symbolsOf {kind : SymbolKind} {s : Symbol} (h : s ∈ c.symbolsOf kind) :
    s.kind = kind := by
  obtain ⟨m, -, rfl⟩ := List.mem_map.1 h
  rfl

theorem findMember?_eq_some_iff {s : Symbol} {p : Nat} : c.findMember? s = some p ↔
    (c.symbolsOf s.kind)[p]? = some s ∧ ∀ k < p, (c.symbolsOf s.kind)[k]? ≠ some s := by
  rw [findMember?, List.findIdx?_eq_some_iff_getElem]
  constructor
  · rintro ⟨inside, here, before⟩
    refine ⟨?_, fun k hk => ?_⟩
    · rw [List.getElem?_eq_getElem inside, eq_of_beq here]
    · rw [List.getElem?_eq_getElem (by omega), ne_eq, Option.some.injEq]
      simpa using before k hk
  · rintro ⟨here, before⟩
    obtain ⟨inside, here⟩ := List.getElem?_eq_some_iff.1 here
    refine ⟨inside, beq_iff_eq.2 here, fun k hk => ?_⟩
    have := before k hk
    rw [List.getElem?_eq_getElem (by omega), ne_eq, Option.some.injEq] at this
    simpa using this

/-- In a renamed class, a member is found by a final symbol if it had a symbol that ends so. -/
theorem findMember?_rename {plan : Plan} (wf : c.WellFormed)
    (renamed : c.rename store plan = .ok c') {x : Symbol}
    (apart : ∀ s ∈ c.symbolsOf x.kind, ∀ t ∈ c.symbolsOf x.kind,
      plan.finalSymbol store s = plan.finalSymbol store t → s = t) {p : Nat} :
    c'.file.findMember? (plan.finalSymbol store x) = some p ↔ ∃ s, c.findMember? s = some p ∧
      s.kind = x.kind ∧ plan.finalSymbol store s = plan.finalSymbol store x := by
  have kind : (plan.finalSymbol store x).kind = x.kind := rfl
  rw [findMember?_eq_some_iff, kind, symbolsOf_rename wf renamed, List.getElem?_map,
    Option.map_eq_some_iff]
  simp only [List.getElem?_map, ne_eq, Option.map_eq_some_iff, not_exists, not_and]
  constructor
  · rintro ⟨⟨s, here, same⟩, before⟩
    have sameKind := kind_of_mem_symbolsOf (List.mem_of_getElem? here)
    refine ⟨s, findMember?_eq_some_iff.2 ?_, sameKind, same⟩
    rw [sameKind]
    exact ⟨here, fun k hk earlier => before k hk s earlier same⟩
  · rintro ⟨s, found, sameKind, same⟩
    rw [findMember?_eq_some_iff, sameKind] at found
    refine ⟨⟨s, found.1, same⟩, fun k hk t earlier same' => found.2 k hk ?_⟩
    rw [apart s (List.mem_of_getElem? found.1) t (List.mem_of_getElem? earlier)
      (same.trans same'.symm)]
    exact earlier

/-- Final symbols tell the members of a class of the archive apart. -/
theorem finalSymbol_inj (hc : c ∈ classes) {kind : SymbolKind} :
    ∀ s ∈ c.symbolsOf kind, ∀ t ∈ c.symbolsOf kind,
      (Plan.ofClasses classes surveyed policy store).finalSymbol store s =
        (Plan.ofClasses classes surveyed policy store).finalSymbol store t → s = t := by
  intro s hs t ht same
  have mem : c.survey surveyed policy ∈ classes.map fun c => c.survey surveyed policy :=
    List.mem_map.2 ⟨c, hc, rfl⟩
  exact Plan.settled_build _ store _ mem s (mem_members_survey hs) t (mem_members_survey ht) same

theorem contains_className (hc : c ∈ classes) :
    (Plan.ofClasses classes surveyed policy store).classes.contains c.className = true := by
  have mem : c.survey surveyed policy ∈ classes.map fun c => c.survey surveyed policy :=
    List.mem_map.2 ⟨c, hc, rfl⟩
  exact Plan.contains_classes_build store mem

/-- Where a reference of one class leads in another one, when both are renamed. -/
theorem findMember?_of_linked? (wf : c.WellFormed) (wf' : d.WellFormed) (hc : c ∈ classes)
    (renamed : c.rename store (Plan.ofClasses classes surveyed policy store) = .ok c')
    (renamed' : d.rename store (Plan.ofClasses classes surveyed policy store) = .ok d')
    {l : Link} {r : MemberRef} (linked : d.linked? l = some r) (owner : r.owner = c.className) :
    ∃ newName, newName = (Plan.ofClasses classes surveyed policy store).finalName store r.symbol ∧
      d'.file.linked? l = some { r with name := newName } ∧
      ∀ p, c'.file.findMember? (MemberRef.symbol { r with name := newName }) = some p ↔
        ∃ s, c.findMember? s = some p ∧ s.kind = r.symbol.kind ∧
          (Plan.ofClasses classes surveyed policy store).finalSymbol store s =
            (Plan.ofClasses classes surveyed policy store).finalSymbol store r.symbol :=
  ⟨_, rfl, linked?_rename wf' renamed' linked (owner ▸ contains_className hc),
    fun _ => findMember?_rename (x := r.symbol) wf renamed (finalSymbol_inj hc)⟩

/-- References to declared members of a class still lead to the members in the same places, and
members that were told apart by their names still are. -/
theorem linked?_rename_of_declared
    (parsed : ∀ c ∈ classes, ∃ bytes, ClassFile.parse bytes = .ok c) (hc : c ∈ classes)
    (hd : d ∈ classes)
    (renamed : c.rename store (Plan.ofClasses classes surveyed policy store) = .ok c')
    (renamed' : d.rename store (Plan.ofClasses classes surveyed policy store) = .ok d') :
    (∀ l r p, d.linked? l = some r → r.owner = c.className → c.findMember? r.symbol = some p →
      ∃ newName, d'.file.linked? l = some { r with name := newName } ∧
        c'.file.findMember? (MemberRef.symbol { r with name := newName }) = some p) ∧
    ∀ (kind : SymbolKind) (p q : Nat) (s t : Symbol), (c.symbolsOf kind)[p]? = some s →
      (c.symbolsOf kind)[q]? = some t → s.descriptor = t.descriptor → s.name ≠ t.name →
      ∃ s' t', (c'.file.symbolsOf kind)[p]? = some s' ∧ (c'.file.symbolsOf kind)[q]? = some t' ∧
        s'.descriptor = s.descriptor ∧ t'.descriptor = t.descriptor ∧ s'.name ≠ t'.name := by
  obtain ⟨_, parse⟩ := parsed c hc
  obtain ⟨_, parse'⟩ := parsed d hd
  have wf := wellFormed_of_parse parse
  constructor
  · intro l r p linked owner declared
    obtain ⟨newName, -, linked', found⟩ :=
      findMember?_of_linked? wf (wellFormed_of_parse parse') hc renamed renamed' linked owner
    exact ⟨newName, linked', (found p).2 ⟨r.symbol, declared, rfl, rfl⟩⟩
  · intro kind p q s t hs ht descriptors names
    rw [symbolsOf_rename wf renamed, List.getElem?_map, List.getElem?_map, hs, ht]
    refine ⟨_, _, rfl, rfl, rfl, rfl, fun same => names ?_⟩
    have kinds : s.kind = t.kind := (kind_of_mem_symbolsOf (List.mem_of_getElem? hs)).trans
      (kind_of_mem_symbolsOf (List.mem_of_getElem? ht)).symm
    have final : (Plan.ofClasses classes surveyed policy store).finalSymbol store s =
        (Plan.ofClasses classes surveyed policy store).finalSymbol store t :=
      Symbol.mk.injEq .. ▸ ⟨kinds, same, descriptors⟩
    exact congrArg Symbol.name (finalSymbol_inj hc s (List.mem_of_getElem? hs) t
      (List.mem_of_getElem? ht) final)

/-- Two methods swap their names, and the reference follows. -/
theorem linked?_rename_swap : ∃ c' newName,
    (sample [3, 7]).rename ((Mapping.empty.override "a" "b").override "b" "a")
      (samplePlan [3, 7] ((Mapping.empty.override "a" "b").override "b" "a")) = .ok c' ∧
    c'.file.linked? (.entry 6) = some ⟨.method, "A", newName, "()V"⟩ ∧
    c'.file.findMember? ⟨.method, newName, "()V"⟩ = some 0 := by
  obtain ⟨c', renamed, -⟩ := exists_ok_of_map_toOption (f := fun _ => ()) (b := ())
    (show ((sample [3, 7]).rename ((Mapping.empty.override "a" "b").override "b" "a")
      (samplePlan [3, 7] ((Mapping.empty.override "a" "b").override "b" "a"))).toOption.map _ = _ by
        decide +kernel)
  obtain ⟨newName, linked, found⟩ :=
    (linked?_rename_of_declared
      (parse_sample [3, 7] (Except.eq_ok_of_toOption (by decide +kernel)))
      (List.mem_singleton_self _) (List.mem_singleton_self _) renamed renamed).1
      (.entry 6) ⟨.method, "A", "a", "()V"⟩ 0 (by decide +kernel) (by decide +kernel)
      (by decide +kernel)
  exact ⟨c', newName, renamed, linked, found⟩

/-- A reference to a member that a class does not declare leads to the member that has its final
name afterwards, if the class has one, and to none otherwise. -/
theorem linked?_rename_of_not_declared
    (parsed : ∀ c ∈ classes, ∃ bytes, ClassFile.parse bytes = .ok c) (hc : c ∈ classes)
    (hd : d ∈ classes)
    (renamed : c.rename store (Plan.ofClasses classes surveyed policy store) = .ok c')
    (renamed' : d.rename store (Plan.ofClasses classes surveyed policy store) = .ok d')
    {l : Link} {r : MemberRef} (linked : d.linked? l = some r) (owner : r.owner = c.className)
    (inherited : c.findMember? r.symbol = none) :
    ∃ newName, newName = (Plan.ofClasses classes surveyed policy store).finalName store r.symbol ∧
      d'.file.linked? l = some { r with name := newName } ∧
      ∀ p, c'.file.findMember? (MemberRef.symbol { r with name := newName }) = some p ↔
        ∃ s, c.findMember? s = some p ∧ s.kind = r.symbol.kind ∧ s.descriptor = r.descriptor ∧
          s.name ≠ r.name ∧
          (Plan.ofClasses classes surveyed policy store).finalName store s = newName := by
  obtain ⟨_, parse⟩ := parsed c hc
  obtain ⟨_, parse'⟩ := parsed d hd
  obtain ⟨newName, final, linked', found⟩ := findMember?_of_linked? (wellFormed_of_parse parse)
    (wellFormed_of_parse parse') hc renamed renamed' linked owner
  refine ⟨newName, final, linked', fun p => (found p).trans (exists_congr fun s => ?_)⟩
  refine and_congr_right fun declared => and_congr_right fun kind => ?_
  rw [Plan.finalSymbol, Plan.finalSymbol, Symbol.mk.injEq, ← final]
  constructor
  · rintro ⟨-, name, descriptor⟩
    refine ⟨descriptor, fun same => ?_, name⟩
    have same : s = r.symbol := by
      obtain ⟨kind', name', descriptor'⟩ := s
      cases kind
      cases descriptor
      cases same
      rfl
    rw [same, inherited] at declared
    cases declared
  · rintro ⟨descriptor, -, name⟩
    exact ⟨kind, name, descriptor⟩

/-- The method `b`, which is declared, catches the reference to `a`, which is not. -/
theorem exists_captured : ∃ (classes : List ClassFile) (surveyed store : Mapping)
    (policy : NamingPolicy) (c d : ClassFile) (c' d' : Renamed) (l : Link) (r r' : MemberRef),
    (∀ c ∈ classes, ∃ bytes, ClassFile.parse bytes = .ok c) ∧ c ∈ classes ∧ d ∈ classes ∧
    c.rename store (Plan.ofClasses classes surveyed policy store) = .ok c' ∧
    d.rename store (Plan.ofClasses classes surveyed policy store) = .ok d' ∧
    d.linked? l = some r ∧ r.owner = c.className ∧ c.findMember? r.symbol = none ∧
    d'.file.linked? l = some r' ∧ c'.file.findMember? r'.symbol = some 0 := by
  obtain ⟨c', renamed, facts⟩ := exists_ok_of_map_toOption
    (f := fun c' : Renamed =>
      (c'.file.linked? (.entry 6), c'.file.findMember? ⟨.method, "b", "()V"⟩))
    (b := (some ⟨.method, "A", "b", "()V"⟩, some 0))
    (show ((sample [7]).rename (Mapping.empty.override "a" "b")
      (samplePlan [7] (Mapping.empty.override "a" "b"))).toOption.map _ = _ by decide +kernel)
  obtain ⟨linked, found⟩ := Prod.mk.inj facts
  exact ⟨[sample [7]], .empty, Mapping.empty.override "a" "b", ⟨.silent, 0, 0⟩, sample [7],
    sample [7], c', c', .entry 6, ⟨.method, "A", "a", "()V"⟩, _,
    parse_sample [7] (Except.eq_ok_of_toOption (by decide +kernel)), List.mem_singleton_self _,
    List.mem_singleton_self _, renamed, renamed, by decide +kernel, by decide +kernel,
    by decide +kernel, linked, found⟩

/-- Renamed to `c`, a name that no method gets, the reference leads to none. -/
theorem linked?_rename_free : ∃ c' newName,
    (sample [7]).rename (Mapping.empty.override "a" "c")
      (samplePlan [7] (Mapping.empty.override "a" "c")) = .ok c' ∧
    c'.file.linked? (.entry 6) = some ⟨.method, "A", newName, "()V"⟩ ∧
    ∀ p, c'.file.findMember? ⟨.method, newName, "()V"⟩ = some p ↔
      ∃ s, (sample [7]).findMember? s = some p ∧ s.kind = .method ∧ s.descriptor = "()V" ∧
        s.name ≠ "a" ∧
        (samplePlan [7] (Mapping.empty.override "a" "c")).finalName
          (Mapping.empty.override "a" "c") s = newName := by
  obtain ⟨c', renamed, -⟩ := exists_ok_of_map_toOption (f := fun _ => ()) (b := ())
    (show ((sample [7]).rename (Mapping.empty.override "a" "c")
      (samplePlan [7] (Mapping.empty.override "a" "c"))).toOption.map _ = _ by decide +kernel)
  obtain ⟨newName, -, linked, found⟩ :=
    linked?_rename_of_not_declared
      (parse_sample [7] (Except.eq_ok_of_toOption (by decide +kernel)))
      (List.mem_singleton_self _) (List.mem_singleton_self _) renamed renamed
      (l := .entry 6) (r := ⟨.method, "A", "a", "()V"⟩) (by decide +kernel) (by decide +kernel)
      (by decide +kernel)
  exact ⟨c', newName, renamed, linked, found⟩

end Archive

end ClassFile

end Clarify
