import Clarify.Proofs.Naming.Blocking
import Clarify.Proofs.Naming.Targets
import Clarify.Run.Settled

/-!
# Names of a second run

Once the names of an archive are settled, every member that wants a name has one. A renamed member
has a name that is the target of a mapping, so it wants no other: a second survey makes no
proposals, and the mapping stays as it is. The plan can still change. It blocks a rename because of
a collision, and where one of the members that collide has gone, the rename is free the second time.

Results:
* `proposals_eq_nil`: where no member wants a name, a survey makes no proposals.
* `served_ofSurveys`: once names are settled, no member of a surveyed class wants one.
* `Became.served`: nor does a member of such a class under its new name.
* `Became.still_iff`: a renamed class keeps its names under another plan exactly if that plan frees
  none of them.
* `rename_congr`: plans that block the same, for the same classes, rename a class in the same way.
-/

namespace Clarify

/-! ## What is committed -/

namespace Commitment

/-- A commitment that counts its targets, and has an entry for every name that it has seen. -/
structure Sound (c : Commitment) : Prop where
  counted : c.store.Counted
  seen : ∀ name, c.seen.contains name = true → ∃ entry, c.store.get? name = some entry

variable {c : Commitment} {p : Proposal}

theorem exists_of_insertIfAbsent (m : Mapping) (old new : String) (origin : Origin) :
    ∃ entry, (m.insertIfAbsent old new origin).2.get? old = some entry := by
  rw [Mapping.get?_insertIfAbsent, if_pos rfl]
  exact ⟨_, rfl⟩

/-- What committing a proposal does to the store and to the names that were seen. -/
theorem commit_eq (c : Commitment) (p : Proposal) :
    c.commit p = c ∧ c.seen.contains p.oldName = true ∨
      (c.commit p).store = (c.store.insertIfAbsent p.oldName p.newName .predicted).2 ∧
        (c.commit p).seen = c.seen.insert p.oldName := by
  unfold commit
  split
  · next seen => exact .inl ⟨rfl, seen⟩
  · dsimp only
    split <;> exact .inr ⟨rfl, rfl⟩

theorem sound_commit (h : c.Sound) (p : Proposal) :
    (c.commit p).Sound ∧ ∃ entry, (c.commit p).store.get? p.oldName = some entry := by
  obtain ⟨same, seen⟩ | ⟨store, seen⟩ := c.commit_eq p
  · rw [same]
    exact ⟨h, h.seen _ seen⟩
  · have here : ∃ entry, (c.commit p).store.get? p.oldName = some entry := by
      rw [store]
      exact exists_of_insertIfAbsent ..
    refine ⟨⟨store ▸ h.counted.insertIfAbsent _ _ _, fun name found => ?_⟩, here⟩
    rw [seen, Std.TreeSet.contains_insert, Bool.or_eq_true, beq_iff_eq,
      Std.compare_eq_iff_eq] at found
    obtain rfl | found := found
    · exact here
    · obtain ⟨entry, old⟩ := h.seen name found
      exact ⟨entry, get?_commit_of_some old⟩

theorem get?_foldl_commit {name : String} {entry : Entry} (row : List Proposal)
    (h : c.store.get? name = some entry) :
    (row.foldl commit c).store.get? name = some entry := by
  induction row generalizing c with
  | nil => exact h
  | cons p row ih => exact ih (get?_commit_of_some h)

/-- After a row of proposals, each has an entry for its old name. -/
theorem sound_foldl (h : c.Sound) (row : List Proposal) :
    (row.foldl commit c).Sound ∧
      ∀ p ∈ row, ∃ entry, (row.foldl commit c).store.get? p.oldName = some entry := by
  induction row generalizing c with
  | nil => exact ⟨h, List.forall_mem_nil _⟩
  | cons p row ih =>
    obtain ⟨sound, entry, here⟩ := sound_commit h p
    obtain ⟨sound', rest⟩ := ih sound
    refine ⟨sound', List.forall_mem_cons.2 ⟨⟨entry, ?_⟩, rest⟩⟩
    exact get?_foldl_commit row here

end Commitment

section Settled

variable {store : Mapping} {surveys : List Survey}

theorem sound_start (counted : store.Counted) :
    Commitment.Sound { store, seen := ∅, predicted := 0, notes := [] } :=
  ⟨counted, fun name found => by simp at found⟩

theorem Settled.counted (counted : store.Counted) :
    (Settled.ofSurveys store surveys).store.Counted :=
  (Commitment.sound_foldl (sound_start counted) _).1.counted

theorem Settled.get?_of_get? {name : String} {entry : Entry} (h : store.get? name = some entry) :
    (Settled.ofSurveys store surveys).store.get? name = some entry :=
  Commitment.get?_foldl_commit _ h

theorem Settled.exists_of_proposal (counted : store.Counted) {survey : Survey}
    (mem : survey ∈ surveys) {p : Proposal} (proposed : p ∈ survey.proposals) :
    ∃ entry, (Settled.ofSurveys store surveys).store.get? p.oldName = some entry :=
  (Commitment.sound_foldl (sound_start counted) _).2 p (List.mem_flatMap.2 ⟨survey, mem, proposed⟩)

/-- Without proposals, the mapping stays as it is, and the plan is made from it. -/
theorem Settled.ofSurveys_of_nil (none : ∀ survey ∈ surveys, survey.proposals = []) :
    (Settled.ofSurveys store surveys).store = store ∧
      (Settled.ofSurveys store surveys).plan = (Plan.build surveys store).1 ∧
      (Settled.ofSurveys store surveys).predicted = 0 := by
  have nothing : surveys.flatMap Survey.proposals = [] := List.flatMap_eq_nil_iff.2 none
  simp only [ofSurveys, nothing, List.foldl_nil, and_self]

end Settled

/-! ## Who wants a name -/

namespace Survey

variable {store : Mapping} {policy : NamingPolicy} {inbound : Std.TreeMap Symbol Nat}

/-- The proposals for a row of members. -/
def proposalsFor (store : Mapping) (policy : NamingPolicy) (inbound : Std.TreeMap Symbol Nat)
    (row : List (Symbol × Member)) (found : Array Proposal) : Array Proposal :=
  row.foldl (fun found x => addProposal store policy inbound found x.1 x.2) found

theorem oldName_propose (policy : NamingPolicy) (s : Symbol) (x : Option Features) :
    (propose policy s x).oldName = s.name := by
  unfold propose
  split <;> rfl

/-- Proposals stay, and who wants a name gets one. -/
theorem addProposal_spec (store : Mapping) (policy : NamingPolicy)
    (inbound : Std.TreeMap Symbol Nat) (found : Array Proposal) (s : Symbol) (m : Member) :
    (∀ p ∈ found, p ∈ addProposal store policy inbound found s m) ∧
      (wantsName store policy s m = true →
        ∃ p ∈ addProposal store policy inbound found s m, p.oldName = s.name) := by
  unfold addProposal
  split
  · next pass =>
    refine ⟨fun p mem => mem, fun wants => ?_⟩
    rw [wants, Bool.not_true, Bool.false_or, Array.any_eq_true'] at pass
    obtain ⟨p, mem, same⟩ := pass
    exact ⟨p, mem, beq_iff_eq.1 same⟩
  · refine ⟨fun p mem => Array.mem_push.2 (.inl mem), fun _ => ?_⟩
    exact ⟨_, Array.mem_push_self, oldName_propose ..⟩

theorem proposalsFor_spec (store : Mapping) (policy : NamingPolicy)
    (inbound : Std.TreeMap Symbol Nat) (row : List (Symbol × Member)) (found : Array Proposal) :
    (∀ p ∈ found, p ∈ proposalsFor store policy inbound row found) ∧
      ∀ x ∈ row, wantsName store policy x.1 x.2 = true →
        ∃ p ∈ proposalsFor store policy inbound row found, p.oldName = x.1.name := by
  induction row generalizing found with
  | nil => exact ⟨fun p mem => mem, List.forall_mem_nil _⟩
  | cons x row ih =>
    obtain ⟨keeps, gets⟩ := addProposal_spec store policy inbound found x.1 x.2
    obtain ⟨keeps', gets'⟩ := ih (addProposal store policy inbound found x.1 x.2)
    refine ⟨fun p mem => keeps' p (keeps p mem), List.forall_mem_cons.2 ⟨fun wants => ?_, gets'⟩⟩
    obtain ⟨p, mem, name⟩ := gets wants
    exact ⟨p, keeps' p mem, name⟩

theorem proposalsFor_eq_self {row : List (Symbol × Member)}
    (none : ∀ x ∈ row, wantsName store policy x.1 x.2 = false) (found : Array Proposal) :
    proposalsFor store policy inbound row found = found := by
  induction row generalizing found with
  | nil => rfl
  | cons x row ih =>
    obtain ⟨first, rest⟩ := List.forall_mem_cons.1 none
    have pass : addProposal store policy inbound found x.1 x.2 = found := by
      rw [addProposal, first]
      rfl
    rw [proposalsFor, List.foldl_cons, pass]
    exact ih rest found

end Survey

/-- No member of the class wants a name. -/
def ClassFile.Served (store : Mapping) (policy : NamingPolicy) (c : ClassFile) : Prop :=
  ∀ kind, ∀ m ∈ c.membersOf kind, Survey.wantsName store policy (c.symbolOf kind m) m = false

variable {store : Mapping} {policy : NamingPolicy} {c d : ClassFile}

theorem mem_declared {kind : SymbolKind} {m : Member} (mem : m ∈ c.membersOf kind) :
    (c.symbolOf kind m, m) ∈ Survey.declared c := by
  cases kind with
  | «class» => simp [ClassFile.membersOf] at mem
  | field => exact List.mem_append_left _ (List.mem_map_of_mem (Array.mem_toList_iff.2 mem))
  | method => exact List.mem_append_right _ (List.mem_map_of_mem (Array.mem_toList_iff.2 mem))

theorem exists_of_mem_declared {x : Symbol × Member} (mem : x ∈ Survey.declared c) :
    ∃ kind, x.2 ∈ c.membersOf kind ∧ x.1 = c.symbolOf kind x.2 := by
  obtain mem | mem := List.mem_append.1 mem
  · obtain ⟨m, here, rfl⟩ := List.mem_map.1 mem
    exact ⟨.field, Array.mem_toList_iff.1 here, rfl⟩
  · obtain ⟨m, here, rfl⟩ := List.mem_map.1 mem
    exact ⟨.method, Array.mem_toList_iff.1 here, rfl⟩

theorem proposals_eq_nil (h : c.Served store policy) : (c.survey store policy).proposals = [] := by
  have none : ∀ x ∈ Survey.declared c, Survey.wantsName store policy x.1 x.2 = false := by
    intro x mem
    obtain ⟨kind, mem, symbol⟩ := exists_of_mem_declared mem
    rw [symbol]
    exact h kind _ mem
  show (Survey.proposalsFor store policy _ (Survey.declared c) #[]).toList = []
  rw [Survey.proposalsFor_eq_self none]

theorem exists_proposal {kind : SymbolKind} {m : Member} (mem : m ∈ c.membersOf kind)
    (wants : Survey.wantsName store policy (c.symbolOf kind m) m = true) :
    ∃ p ∈ (c.survey store policy).proposals, p.oldName = (c.symbolOf kind m).name := by
  obtain ⟨p, found, name⟩ := (Survey.proposalsFor_spec store policy (Survey.inboundCounts c)
    (Survey.declared c) #[]).2 _ (mem_declared mem) wants
  exact ⟨p, Array.mem_toList_iff.2 found, name⟩

theorem wantsName_iff {s : Symbol} {m : Member} : Survey.wantsName store policy s m = true ↔
    Name.isSpecial s = false ∧ m.isSynthetic = false ∧
      Name.isObfuscated policy.maxObfuscatedLength s.name = true ∧
      store.resolve? s.name = none ∧ store.isTarget s.name = false := by
  simp [Survey.wantsName, and_assoc]

/-- Once names are settled, no member of a class that was surveyed wants one. -/
theorem served_ofSurveys (counted : store.Counted) {surveys : List Survey}
    (mem : c.survey store policy ∈ surveys) :
    c.Served (Settled.ofSurveys store surveys).store policy := by
  intro kind m here
  rw [← Bool.not_eq_true, wantsName_iff]
  rintro ⟨special, synthetic, obfuscated, unresolved, untargeted⟩
  have kept {name : String} {newName : String} (h : store.resolve? name = some newName) :
      (Settled.ofSurveys store surveys).store.resolve? name = some newName := by
    obtain ⟨entry, found, rfl⟩ := Option.map_eq_some_iff.1 h
    rw [Mapping.resolve?, Settled.get?_of_get? found]
    rfl
  have wants : Survey.wantsName store policy (c.symbolOf kind m) m = true := by
    refine wantsName_iff.2 ⟨special, synthetic, obfuscated, ?_, ?_⟩
    · refine Option.eq_none_iff_forall_ne_some.2 fun newName resolved => ?_
      rw [kept resolved] at unresolved
      cases unresolved
    · rw [← Bool.not_eq_true, counted.isTarget_iff]
      rintro ⟨old, resolved⟩
      rw [(Settled.counted counted).isTarget_iff.2 ⟨old, kept resolved⟩] at untargeted
      cases untargeted
  obtain ⟨p, proposed, name⟩ := exists_proposal here wants
  obtain ⟨entry, found⟩ := Settled.exists_of_proposal counted mem proposed
  rw [Mapping.resolve?, ← name, found] at unresolved
  cases unresolved

/-! ## What becomes of a class -/

/-- The second class is what became of the first one: its members are members of the first, under
their final names, and it refers to members by new names, or by names that the plan leaves alone. -/
structure Became (store : Mapping) (plan : Plan) (c d : ClassFile) : Prop where
  className : d.className = c.className
  members : ∀ kind, ∀ m ∈ d.membersOf kind, ∃ m' ∈ c.membersOf kind,
    d.symbolOf kind m = plan.finalSymbol store (c.symbolOf kind m') ∧ m.access = m'.access
  links : ∀ l r, d.linked? l = some r →
    (∃ old, store.resolve? old = some r.name) ∨ Rename.linkTarget? store plan c r = none

/-- No member wants another name once it has a new one. -/
theorem Became.served {plan : Plan} (became : Became store plan c d) (counted : store.Counted)
    (served : c.Served store policy) : d.Served store policy := by
  intro kind m mem
  obtain ⟨m', mem', symbol, access⟩ := became.members kind m mem
  rw [symbol]
  obtain target | ⟨-, same⟩ := Plan.finalSymbol_cases store plan (c.symbolOf kind m')
  · rw [← Bool.not_eq_true, wantsName_iff]
    rintro ⟨-, -, -, -, untargeted⟩
    rw [counted.isTarget_iff.2 target] at untargeted
    cases untargeted
  · have synthetic : m.isSynthetic = m'.isSynthetic := by
      rw [Member.isSynthetic, Member.isSynthetic, access]
    have wants := served kind m' mem'
    rw [Survey.wantsName] at wants ⊢
    rw [same, synthetic, wants]

/-! ## Names that are free by now -/

section Frees

variable {p q : Plan} {s : Symbol}

theorem target?_eq_none_iff (apart : store.Apart) (movable : p.Movable store)
    (settled : p.target? store s = none) : q.target? store s = none ↔ ¬p.Frees q s := by
  constructor
  · rintro still ⟨blocked, free⟩
    obtain ⟨special, newName, resolved⟩ := movable s blocked
    have other : newName ≠ s.name := by
      rintro rfl
      rw [apart _ _ resolved] at resolved
      cases resolved
    rw [Plan.target?_eq_some_iff.2 ⟨special, free, resolved, other⟩] at still
    cases still
  · intro kept
    refine Option.eq_none_iff_forall_ne_some.2 fun newName moves => ?_
    obtain ⟨special, free, resolved, other⟩ := Plan.target?_eq_some_iff.1 moves
    by_cases blocked : p.blocked.contains s = true
    · exact kept ⟨blocked, free⟩
    · rw [Plan.target?_eq_some_iff.2
        ⟨special, Bool.eq_false_iff.2 blocked, resolved, other⟩] at settled
      cases settled

/-- A new name is no old one, so it is kept, and nothing frees it. -/
theorem target?_eq_none_of_target (apart : store.Apart) (movable : p.Movable store)
    (target : ∃ old, store.resolve? old = some s.name) :
    q.target? store s = none ∧ ¬p.Frees q s := by
  obtain ⟨old, resolved⟩ := target
  have none := apart old s.name resolved
  refine ⟨?_, fun frees => ?_⟩
  · rw [Plan.target?, none]
    exact ite_self _
  · obtain ⟨-, newName, resolved⟩ := movable s frees.1
    rw [none] at resolved
    cases resolved

section Still

variable (became : Became store p c d) (apart : store.Apart) (movable : p.Movable store)

include became apart movable

/-- A member of a renamed class keeps its name unless that name is free by now. -/
theorem Became.member_iff {kind : SymbolKind} (mem : s ∈ d.symbolsOf kind) :
    q.target? store s = none ↔ ¬p.Frees q s := by
  obtain ⟨m, here, rfl⟩ := List.mem_map.1 mem
  obtain ⟨m', -, symbol, -⟩ := became.members kind m (Array.mem_toList_iff.1 here)
  rw [symbol]
  obtain target | ⟨none, same⟩ := Plan.finalSymbol_cases store p (c.symbolOf kind m')
  · obtain ⟨none, kept⟩ := target?_eq_none_of_target (q := q) apart movable target
    exact iff_of_true none kept
  · rw [same]
    exact target?_eq_none_iff apart movable none

/-- So does a reference, if its owner is renamed at all. -/
theorem Became.link_iff
    (fewer : ∀ name, q.classes.contains name = true → p.classes.contains name = true) {l : Link}
    {r : MemberRef} (linked : d.linked? l = some r) : Rename.linkTarget? store q d r = none ↔
      (Rename.isRenamedOwner q d r.owner = true → ¬p.Frees q r.symbol) := by
  rw [Rename.linkTarget?]
  by_cases owner : Rename.isRenamedOwner q d r.owner = true
  · rw [if_pos owner]
    simp only [owner, forall_const]
    obtain target | none := became.links l r linked
    · obtain ⟨none, kept⟩ := target?_eq_none_of_target (q := q) (s := r.symbol) apart movable target
      exact iff_of_true none kept
    · have owner' : Rename.isRenamedOwner p c r.owner = true := by
        rw [Rename.isRenamedOwner, Bool.or_eq_true] at owner ⊢
        exact owner.imp (fun own => became.className ▸ own) (fewer _)
      rw [Rename.linkTarget?, if_pos owner'] at none
      exact target?_eq_none_iff apart movable none
  · rw [if_neg owner]
    simp only [owner, Bool.false_eq_true, false_implies]

/-- A renamed class keeps its names under another plan exactly if that plan frees none of them. -/
theorem Became.still_iff
    (fewer : ∀ name, q.classes.contains name = true → p.classes.contains name = true) :
    Rename.Still store q d ↔
      (∀ kind, ∀ s ∈ d.symbolsOf kind, ¬p.Frees q s) ∧
        ∀ l r, d.linked? l = some r → Rename.isRenamedOwner q d r.owner = true →
          ¬p.Frees q r.symbol := by
  constructor
  · intro still
    refine ⟨fun kind s mem => ?_, fun l r linked => ?_⟩
    · exact (became.member_iff apart movable mem).1 (still.members kind s mem)
    · exact (became.link_iff apart movable fewer linked).1 (still.links l r linked)
  · rintro ⟨members, links⟩
    refine ⟨fun kind s mem => ?_, fun l r linked => ?_⟩
    · exact (became.member_iff apart movable mem).2 (members kind s mem)
    · exact (became.link_iff apart movable fewer linked).2 (links l r linked)

end Still

end Frees

/-! ## Plans that agree -/

section Congr

variable {p q : Plan} (blocked : ∀ s, p.blocked.contains s = q.blocked.contains s)
  (classes : ∀ name, p.classes.contains name = q.classes.contains name)

include blocked

theorem Rename.declaration_congr (kind : SymbolKind) (m : Member) :
    Rename.declaration store p c kind m = Rename.declaration store q c kind m := by
  rw [Rename.declaration, Rename.declaration, Plan.target?_congr blocked]

include classes

theorem Rename.referenceTarget?_congr (kind : SymbolKind) (owner pair : UInt16) :
    Rename.referenceTarget? store p c kind owner pair =
      Rename.referenceTarget? store q c kind owner pair := by
  have owners (name : String) :
      Rename.isRenamedOwner p c name = Rename.isRenamedOwner q c name := by
    rw [Rename.isRenamedOwner, Rename.isRenamedOwner, classes]
  simp only [Rename.referenceTarget?, owners, Plan.target?_congr blocked]

/-- Plans that block the same, for the same classes, rename a class in the same way. -/
theorem ClassFile.rename_congr : c.rename store p = c.rename store q := by
  have declaration (kind : SymbolKind) :
      Rename.declaration store p c kind = Rename.declaration store q c kind :=
    funext (Rename.declaration_congr blocked kind)
  have references : Rename.references store p c = Rename.references store q c := by
    simp only [Rename.references, Rename.referenceTarget?_congr blocked classes]
  have enclosing (c : ClassFile) (a : Attribute) :
      Rename.enclosing store p c a = Rename.enclosing store q c a := by
    simp only [Rename.enclosing, Rename.referenceTarget?_congr blocked classes]
  simp only [rename, Rename.steps, declaration, references, funext (enclosing _)]

end Congr

end Clarify
