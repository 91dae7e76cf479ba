import Clarify.Proofs.Naming.Again
import Clarify.Proofs.Naming.Links
import Clarify.Run.ArchiveRun

/-!
# Names that are made up

A proposal is for a member whose name looks machine-made, and an empty name does not. The new name
is a lead word with the old name behind it, or with digits in its place where the old name has
other characters than those of plain identifiers. So it is valid whatever the old name is and
whatever a predictor has to say, which only chooses the lead word. The dictionary is valid too, so a
run adds no entry to its mapping that could not be set by hand.

Results:
* `Name.isValid_synthesize`: a new name is valid if its lead word is.
* `ClassFile.storable_proposal`: what a survey proposes.
* `Mapping.Storable.run`: what a run leaves in its mapping.
-/

namespace Clarify

namespace Name

/-! ## New names -/

theorem isForbiddenChar_eq_false {c : Char} (h : isIdentifierChar c = true) :
    isForbiddenChar c = false := by
  rw [Bool.eq_false_iff]
  intro forbidden
  simp only [isForbiddenChar, Bool.or_eq_true, beq_iff_eq] at forbidden
  obtain ((((rfl | rfl) | rfl) | rfl) | rfl) | rfl := forbidden
  all_goals exact absurd h (by decide)

theorem isIdentifierChar_toUpper {c : Char} (h : isIdentifierChar c = true) :
    isIdentifierChar c.toUpper = true := by
  have letters : ∀ n < 123, 97 ≤ n → isIdentifierChar (Char.ofNat n).toUpper = true := by decide
  by_cases lower : 'a'.val ≤ c.val ∧ c.val ≤ 'z'.val
  · have first : 97 ≤ c.toNat := UInt32.le_iff_toNat_le.1 lower.1
    have last : c.toNat ≤ 122 := UInt32.le_iff_toNat_le.1 lower.2
    have upper := letters c.toNat (by omega) first
    rwa [Char.ofNat_toNat] at upper
  · have same : c.toUpper = c := dif_neg lower
    rwa [same]

theorem isForbiddenChar_digit : ∀ n < 16, isForbiddenChar (Hex.digit n) = false := by decide

theorem isForbiddenChar_fingerprint (old : String) :
    ∀ c ∈ (fingerprint old).toList, isForbiddenChar c = false := by
  intro c mem
  rw [fingerprint, Hex.encode, Hex.toList_push, String.toList_empty, List.nil_append,
    List.mem_flatMap] at mem
  obtain ⟨b, -, mem⟩ := mem
  have size := b.toNat_lt
  simp only [List.mem_cons, List.not_mem_nil, or_false] at mem
  obtain rfl | rfl := mem
  · exact isForbiddenChar_digit _ (by omega)
  · exact isForbiddenChar_digit _ (by omega)

/-- The tail of a new name has no forbidden character, whatever the old name has. -/
theorem isForbiddenChar_qualifier (old : String) :
    ∀ c ∈ (qualifier old).toList, isForbiddenChar c = false := by
  have marked : ∀ c ∈ ("X" ++ fingerprint old).toList, isForbiddenChar c = false := by
    intro c mem
    rw [String.toList_append, List.mem_append] at mem
    obtain mark | mem := mem
    · rw [List.mem_singleton.1 mark]
      rfl
    · exact isForbiddenChar_fingerprint old c mem
  unfold qualifier
  split
  · exact marked
  · next first rest _ =>
    split
    · next plain =>
      obtain ⟨head, tail⟩ := List.forall_mem_cons.1 (List.all_eq_true.1 plain)
      rw [String.toList_ofList]
      refine List.forall_mem_cons.2 ⟨?_, fun c mem => ?_⟩
      · exact isForbiddenChar_eq_false (isIdentifierChar_toUpper head)
      · exact isForbiddenChar_eq_false (tail c mem)
    · exact marked

/-- A new name is valid if its lead word is. -/
theorem isValid_synthesize {lead : String} (h : isValid lead = true) (old : String) :
    isValid (synthesize lead old) = true := by
  obtain ⟨nonempty, allowed⟩ := (isValid_iff lead).1 h
  rw [isValid_iff, synthesize, String.toList_append]
  refine ⟨fun empty => nonempty (List.append_eq_nil_iff.1 empty).1, fun c mem => ?_⟩
  obtain mem | mem := List.mem_append.1 mem
  · exact allowed c mem
  · exact isForbiddenChar_qualifier old c mem

/-- An entry that could be set by hand: there is an old name, and the new one is valid. -/
def Storable (old new : String) : Prop := old ≠ "" ∧ isValid new = true

theorem ne_empty_of_isObfuscated {maxLength : Nat} {name : String}
    (h : isObfuscated maxLength name = true) : name ≠ "" := by
  rintro rfl
  rw [isObfuscated] at h
  cases h

end Name

/-! ## Proposals -/

namespace Survey

theorem isValid_defaultLead (kind : SymbolKind) : Name.isValid (defaultLead kind) = true := by
  cases kind <;> decide

theorem isValid_categoryLead (c : Category) (kind : SymbolKind) :
    Name.isValid (categoryLead c kind) = true := by
  cases c <;> cases kind <;> decide

variable {store : Mapping} {policy : NamingPolicy}

/-- Whatever the predictor says of a member, the name that is proposed for it is valid. -/
theorem propose_spec (policy : NamingPolicy) (s : Symbol) (x : Option Features) :
    (propose policy s x).oldName = s.name ∧
      Name.isValid (propose policy s x).newName = true := by
  unfold propose
  split
  · exact ⟨rfl, Name.isValid_synthesize (isValid_categoryLead _ _) _⟩
  · exact ⟨rfl, Name.isValid_synthesize (isValid_defaultLead _) _⟩

theorem storable_addProposal (inbound : Std.TreeMap Symbol Nat) {found : Array Proposal}
    (h : ∀ p ∈ found, Name.Storable p.oldName p.newName) (s : Symbol) (m : Member) :
    ∀ p ∈ addProposal store policy inbound found s m, Name.Storable p.oldName p.newName := by
  unfold addProposal
  split
  · exact h
  · next wanted =>
    intro p mem
    obtain mem | rfl := Array.mem_push.1 mem
    · exact h p mem
    · obtain ⟨old, valid⟩ := propose_spec policy s
        (features? s (if s.kind = .method then callCount m else 0) ((inbound[s]?).getD 0))
      have wants : wantsName store policy s m = true := by
        simp only [Bool.or_eq_true, not_or, Bool.not_eq_true, Bool.not_eq_false'] at wanted
        exact wanted.1
      have obfuscated : Name.isObfuscated policy.maxObfuscatedLength s.name = true := by
        simp only [wantsName, Bool.and_eq_true] at wants
        exact wants.1.1.2
      exact ⟨old ▸ Name.ne_empty_of_isObfuscated obfuscated, valid⟩

end Survey

/-- What a survey proposes could be set by hand. -/
theorem ClassFile.storable_proposal {c : ClassFile} {store : Mapping} {policy : NamingPolicy}
    {p : Proposal} (mem : p ∈ (c.survey store policy).proposals) :
    Name.Storable p.oldName p.newName := by
  have all : ∀ p ∈ (Survey.declared c).foldl (fun found x =>
      Survey.addProposal store policy (Survey.inboundCounts c) found x.1 x.2) #[],
        Name.Storable p.oldName p.newName := by
    refine List.foldlRecOn (motive := fun found : Array Proposal =>
      ∀ p ∈ found, Name.Storable p.oldName p.newName) _ _ ?_ ?_
    · intro p mem
      cases Array.not_mem_empty p mem
    · intro found h x _
      exact Survey.storable_addProposal _ h x.1 x.2
  exact all p (Array.mem_toList_iff.1 mem)

example : ((ClassFile.sample [3]).survey .empty ⟨.silent, 0, 2⟩).proposals.map
    (fun p => (p.oldName, p.newName)) = [("a", "methodA")] := by
  decide +kernel

/-! ## The mapping of a run -/

theorem ArchiveRun.exists_of_surveyOutcome {d : Disturbance} {m : Mapping} {policy : NamingPolicy}
    {u : UnitSource} {survey : Survey} (h : surveyOutcome d m policy u = .ok survey) :
    ∃ c : ClassFile, survey = c.survey m policy := by
  unfold surveyOutcome at h
  split at h
  · cases h
  · unfold surveyUnit at h
    split at h
    · next c _ =>
      cases h
      exact ⟨c, rfl⟩
    · cases h

namespace Mapping

/-- Every entry could be set by hand. -/
def Storable (m : Mapping) : Prop :=
  ∀ old entry, m.get? old = some entry → Name.Storable old entry.newName

variable {m : Mapping}

theorem Storable.insertIfAbsent (h : m.Storable) {old new : String} (fit : Name.Storable old new)
    (origin : Origin) : (m.insertIfAbsent old new origin).2.Storable := by
  intro key entry here
  rw [get?_insertIfAbsent] at here
  split at here
  · next same =>
    subst same
    cases there : m.get? old with
    | none =>
      rw [there] at here
      cases here
      exact fit
    | some entry' =>
      rw [there] at here
      cases here
      exact h old _ there
  · exact h key entry here

theorem storable_withDictionary : withDictionary.Storable := by
  have fit : ∀ row ∈ dictionary, row.1 ≠ "" ∧ Name.isValid row.2 = true := by decide
  refine List.foldlRecOn (motive := Storable) dictionary _ ?_ ?_
  · intro old entry here
    cases here
  · intro m h row mem
    exact h.insertIfAbsent (fit row mem) .dictionary

theorem Storable.ofSurveys (h : m.Storable) {surveys : List Survey}
    (fit : ∀ survey ∈ surveys, ∀ p ∈ survey.proposals, Name.Storable p.oldName p.newName) :
    (Settled.ofSurveys m surveys).store.Storable := by
  show ((surveys.flatMap Survey.proposals).foldl Commitment.commit _).store.Storable
  refine List.foldlRecOn (motive := fun c : Commitment => c.store.Storable) _ _ h ?_
  intro c h p mem
  obtain ⟨survey, known, proposed⟩ := List.mem_flatMap.1 mem
  obtain ⟨same, -⟩ | ⟨store, -⟩ := c.commit_eq p
  · rwa [same]
  · rw [store]
    exact h.insertIfAbsent (fit survey known p proposed) .predicted

/-- A run over any archive, with any predictor, leaves entries only that could be set by hand. -/
theorem Storable.run (h : m.Storable) (d : Disturbance) (setup : RunSetup) (a : Archive) :
    (ArchiveRun.run d setup m a).store.Storable := by
  refine h.ofSurveys fun survey known p proposed => ?_
  obtain ⟨x, mem, surveyed⟩ := List.mem_filterMap.1 known
  obtain ⟨u, -, rfl⟩ := List.mem_map.1 mem
  obtain ⟨c, rfl⟩ := ArchiveRun.exists_of_surveyOutcome (Except.eq_ok_of_toOption surveyed)
  exact ClassFile.storable_proposal proposed

end Mapping

end Clarify
