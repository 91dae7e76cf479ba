import Clarify.Proofs.Naming.Again
import Mathlib.Data.List.Forall2
import Mathlib.Data.Set.Function
import Mathlib.Logic.Equiv.Basic

/-!
# Names that do not count

A prediction looks at the shape of a member, at its code, and at the number of references to it.
So a class whose members have other names gets the same predictions, as long as the members that
want a name do so under both names.

Two classes are compared by what a survey reads of them: the texts and flags of the members, and
the instructions of the methods with the members that they refer to. Where the constant pool keeps
those texts does not matter.

Results:
* `tallied_inboundCounts`: references are counted alike under both names.
* `proposals_of_renamedBy`: the proposals for a class whose members have other names.
-/

namespace Clarify

/-- A symbol with its name under a map of names. -/
def Symbol.mapName (f : String → String) (s : Symbol) : Symbol := { s with name := f s.name }

/-- A reference under a map of the names of one class. One to another class stays as it is. -/
def MemberRef.mapOwn (f : String → String) (own : String) (r : MemberRef) : MemberRef :=
  if r.owner = own then { r with name := f r.name } else r

namespace ClassFile

/-! ## A class under other names -/

/-- The member that an instruction refers to. -/
def reference? (c : ClassFile) (i : Instruction) : Option MemberRef :=
  i.poolIndex?.bind c.pool.memberRef?

/-- The names of the members of a class: of those that it declares, and of those that its code
refers to as its own. -/
def memberNames (c : ClassFile) : Set String :=
  {name | (∃ kind, ∃ m ∈ c.membersOf kind, c.nameOf m = name) ∨
    ∃ m ∈ c.methods, ∃ i ∈ Survey.instructionsOf m, ∃ r, c.reference? i = some r ∧
      r.owner = c.className ∧ r.name = name}

/-- Instructions that do the same, and refer to the same member under its name in each class. -/
structure RefersAlike (f : String → String) (c d : ClassFile) (i j : Instruction) : Prop where
  opcode : j.opcode = i.opcode
  reference : d.reference? j = (c.reference? i).map (MemberRef.mapOwn f c.className)

/-- Members that are declared alike, but for their names. -/
structure DeclaredAlike (f : String → String) (c d : ClassFile) (kind : SymbolKind)
    (m n : Member) : Prop where
  symbol : d.symbolOf kind n = (c.symbolOf kind m).mapName f
  access : n.access = m.access

theorem DeclaredAlike.isSynthetic {f : String → String} {c d : ClassFile} {kind : SymbolKind}
    {m n : Member} (h : DeclaredAlike f c d kind m n) : n.isSynthetic = m.isSynthetic := by
  rw [Member.isSynthetic, Member.isSynthetic, h.access]

/-- The second class is the first one under a map of the names of its members, which is applied to
every declaration and to every reference that the class makes to itself. -/
structure RenamedBy (f : String → String) (c d : ClassFile) : Prop where
  className : d.className = c.className
  fields : List.Forall₂ (DeclaredAlike f c d .field) c.fields.toList d.fields.toList
  methods : List.Forall₂ (fun m n => DeclaredAlike f c d .method m n ∧
    List.Forall₂ (RefersAlike f c d) (Survey.instructionsOf m).toList
      (Survey.instructionsOf n).toList) c.methods.toList d.methods.toList

end ClassFile

/-- Proposals that say the same of two members, each under its own name. -/
structure Proposal.RenamedBy (f : String → String) (p q : Proposal) : Prop where
  kind : q.kind = p.kind
  category : q.category = p.category
  confidence : q.confidence = p.confidence
  oldName : q.oldName = f p.oldName
  newName : ∃ lead, p.newName = Name.synthesize lead p.oldName ∧
    q.newName = Name.synthesize lead (f p.oldName)

namespace Survey

/-- A nondescript name: no member has to keep it, it looks machine-made, and the mapping does not
know it. -/
structure Nondescript (store : Mapping) (policy : NamingPolicy) (name : String) : Prop where
  ordinary : ∀ descriptor, Name.isSpecial ⟨.method, name, descriptor⟩ = false
  obfuscated : Name.isObfuscated policy.maxObfuscatedLength name = true
  unmapped : store.resolve? name = none
  untargeted : store.isTarget name = false

/-- The proposal is for the member at a place of a row: the member wants a name, and no member
before it wants one for the same name. -/
def ProposedAt (store : Mapping) (policy : NamingPolicy) (row : List (Symbol × Member)) (k : Nat)
    (p : Proposal) : Prop :=
  ∃ s m, row[k]? = some (s, m) ∧ wantsName store policy s m = true ∧
    (∀ x ∈ row.take k, wantsName store policy x.1 x.2 = true → x.1.name ≠ s.name) ∧
    p.kind = s.kind ∧ p.oldName = s.name

/-- What a survey proposes for a row of members: the proposals are for the members at the given
places, in their order, and every member that wants a name has one by its name. -/
structure Surveyed (store : Mapping) (policy : NamingPolicy) (row : List (Symbol × Member))
    (places : List Nat) (proposals : List Proposal) : Prop where
  ascending : places.Pairwise (· < ·)
  proposed : List.Forall₂ (ProposedAt store policy row) places proposals
  served : ∀ x ∈ row, wantsName store policy x.1 x.2 = true →
    ∃ p ∈ proposals, p.oldName = x.1.name

/-! ## Counts -/

variable {f : String → String} {c d : ClassFile} {names : Set String}

theorem ownReference?_eq (c : ClassFile) (own : String) (i : Instruction) :
    ownReference? c own i =
      (c.reference? i).bind fun r => if r.owner = own then some r.symbol else none := by
  unfold ownReference? ClassFile.reference?
  cases i.poolIndex? <;> rfl

theorem ownReference?_eq_some_iff {i : Instruction} {s : Symbol} :
    ownReference? c c.className i = some s ↔
      ∃ r, c.reference? i = some r ∧ r.owner = c.className ∧ r.symbol = s := by
  simp only [ownReference?_eq, Option.bind_eq_some_iff, Option.ite_none_right_eq_some,
    Option.some.injEq]

theorem ownReference?_of_refersAlike (className : d.className = c.className) {i j : Instruction}
    (alike : ClassFile.RefersAlike f c d i j) :
    ownReference? d d.className j = (ownReference? c c.className i).map (Symbol.mapName f) := by
  rw [ownReference?_eq, ownReference?_eq, alike.reference, className]
  cases c.reference? i with
  | none => rfl
  | some r =>
    simp only [Option.map_some, Option.bind_some, MemberRef.mapOwn]
    by_cases own : r.owner = c.className
    · simp only [if_pos own]
      rfl
    · simp only [if_neg own, Option.map_none]

/-- Counts for members that have certain names, the same for each under both of its names. -/
def Tallied (f : String → String) (names : Set String)
    (counts counts' : Std.TreeMap Symbol Nat) : Prop :=
  ∀ s : Symbol, s.name ∈ names → (counts'[s.mapName f]?).getD 0 = (counts[s]?).getD 0

theorem mapName_inj (inj : Set.InjOn f names) {s t : Symbol} (hs : s.name ∈ names)
    (ht : t.name ∈ names) : s.mapName f = t.mapName f ↔ s = t := by
  refine ⟨fun same => ?_, congrArg _⟩
  obtain ⟨kind, name, descriptor⟩ := s
  obtain ⟨kind', name', descriptor'⟩ := t
  simp only [Symbol.mapName, Symbol.mk.injEq] at same ⊢
  exact ⟨same.1, inj hs ht same.2.1, same.2.2⟩

/-- One more reference on both sides. Different members keep different names, so it counts for the
same member. -/
theorem Tallied.insert (inj : Set.InjOn f names) {counts counts' : Std.TreeMap Symbol Nat}
    (h : Tallied f names counts counts') {s : Symbol} (mem : s.name ∈ names) :
    Tallied f names (counts.insert s ((counts[s]?).getD 0 + 1))
      (counts'.insert (s.mapName f) ((counts'[s.mapName f]?).getD 0 + 1)) := by
  intro t ht
  simp only [Std.TreeMap.getElem?_insert, Std.compare_eq_iff_eq, mapName_inj inj mem ht]
  split
  · rw [Option.getD_some, Option.getD_some, h s mem]
  · exact h t ht

/-- The code of a class refers to each of its members as often under either name. -/
theorem tallied_inboundCounts (renamed : ClassFile.RenamedBy f c d)
    (inj : Set.InjOn f c.memberNames) :
    Tallied f c.memberNames (inboundCounts c) (inboundCounts d) := by
  -- Each method and each instruction is kept with where it stands, since only names that occur in
  -- the class are kept apart.
  have methods := (List.forall₂_and_left (p := (· ∈ c.methods.toList)) _ _).2
    ⟨fun _ mem => mem, renamed.methods⟩
  simp only [inboundCounts, ← Array.foldl_toList]
  refine List.rel_foldl (P := Tallied f c.memberNames) ?_ (fun s _ => rfl) methods
  rintro counts counts' h m n ⟨method, -, body⟩
  have body := (List.forall₂_and_left (p := (· ∈ (instructionsOf m).toList)) _ _).2
    ⟨fun _ mem => mem, body⟩
  refine List.rel_foldl (P := Tallied f c.memberNames) ?_ h body
  rintro counts counts' h i j ⟨inside, alike⟩
  dsimp only
  rw [ownReference?_of_refersAlike renamed.className alike]
  cases own : ownReference? c c.className i with
  | none => exact h
  | some s =>
    obtain ⟨r, refers, owner, rfl⟩ := ownReference?_eq_some_iff.1 own
    exact h.insert inj (.inr ⟨m, Array.mem_toList_iff.1 method, i, Array.mem_toList_iff.1 inside,
      r, refers, owner, rfl⟩)

/-! ## Who wants a name, and which one -/

/-- Entries of two rows for the same member, under its name in each class. -/
structure Counterpart (f : String → String) (x y : Symbol × Member) : Prop where
  symbol : y.1 = x.1.mapName f
  synthetic : y.2.isSynthetic = x.2.isSynthetic
  calls : x.1.kind = .method → callCount y.2 = callCount x.2

theorem callCount_of_refersAlike {m n : Member}
    (body : List.Forall₂ (ClassFile.RefersAlike f c d) (instructionsOf m).toList
      (instructionsOf n).toList) : callCount n = callCount m := by
  simp only [callCount, ← Array.foldl_toList]
  refine List.rel_foldl (P := fun k k' : Nat => k' = k) ?_ rfl body
  rintro k _ rfl i j alike
  dsimp only
  rw [alike.opcode]

theorem counterpart_declared (renamed : ClassFile.RenamedBy f c d) :
    List.Forall₂ (Counterpart f) (declared c) (declared d) := by
  refine List.rel_append ?_ ?_
  · rw [List.forall₂_map_left_iff, List.forall₂_map_right_iff]
    refine renamed.fields.imp fun m n alike => ⟨alike.symbol, alike.isSynthetic, fun method => ?_⟩
    cases method
  · rw [List.forall₂_map_left_iff, List.forall₂_map_right_iff]
    refine renamed.methods.imp ?_
    rintro m n ⟨alike, body⟩
    exact ⟨alike.symbol, alike.isSynthetic, fun _ => callCount_of_refersAlike body⟩

section Wants

variable {store : Mapping} {policy : NamingPolicy} {x y : Symbol × Member}

/-- Under a nondescript name, a member wants another one unless the compiler made it. -/
theorem wantsName_of_nondescript {s : Symbol} (plain : Nondescript store policy s.name)
    (m : Member) : wantsName store policy s m =
      (decide (s.kind ≠ .class) && !m.isSynthetic) := by
  have special : Name.isSpecial s = decide (s.kind = .class) := by
    obtain ⟨kind, name, descriptor⟩ := s
    cases kind with
    | «class» => rfl
    | field => rfl
    | method => exact plain.ordinary descriptor
  rw [wantsName, special, plain.obfuscated, plain.unmapped, plain.untargeted]
  simp

theorem Counterpart.wantsName (h : Counterpart f x y)
    (plain : f x.1.name ≠ x.1.name →
      Nondescript store policy x.1.name ∧ Nondescript store policy (f x.1.name)) :
    Survey.wantsName store policy y.1 y.2 = Survey.wantsName store policy x.1 x.2 := by
  rw [h.symbol]
  by_cases same : f x.1.name = x.1.name
  · have symbol : x.1.mapName f = x.1 := by
      rw [Symbol.mapName, same]
    rw [symbol, Survey.wantsName, Survey.wantsName, h.synthetic]
  · obtain ⟨before, after⟩ := plain same
    rw [wantsName_of_nondescript before, wantsName_of_nondescript (s := x.1.mapName f) after,
      h.synthetic]
    rfl

theorem kind_propose (policy : NamingPolicy) (s : Symbol) (features : Option Features) :
    (propose policy s features).kind = s.kind := by
  unfold propose
  split <;> rfl

/-- Which category is predicted does not depend on the name, nor does the lead word. -/
theorem renamedBy_propose (f : String → String) (policy : NamingPolicy) (s : Symbol)
    (features : Option Features) :
    (propose policy s features).RenamedBy f (propose policy (s.mapName f) features) := by
  unfold propose
  split
  · exact ⟨rfl, rfl, rfl, rfl, _, rfl, rfl⟩
  · exact ⟨rfl, rfl, rfl, rfl, _, rfl, rfl⟩

theorem any_of_renamedBy {ps qs : List Proposal} (h : List.Forall₂ (Proposal.RenamedBy f) ps qs)
    {name : String} (inj : ∀ p ∈ ps, f p.oldName = f name → p.oldName = name) :
    qs.any (·.oldName == f name) = ps.any (·.oldName == name) := by
  induction h with
  | nil => rfl
  | cons same _ ih =>
    obtain ⟨first, rest⟩ := List.forall_mem_cons.1 inj
    rw [List.any_cons, List.any_cons, ih rest, same.oldName]
    congr 1
    exact Bool.eq_iff_iff.2 (by simpa using ⟨first, congrArg f⟩)

end Wants

/-! ## Both surveys, member by member -/

section Run

variable {store : Mapping} {policy : NamingPolicy} {inbound inbound' : Std.TreeMap Symbol Nat}
  {xs ys : List (Symbol × Member)} {x y : Symbol × Member} {p : Proposal} {k : Nat}
  {found found' : Array Proposal}

theorem ProposedAt.lt (h : ProposedAt store policy xs k p) : k < xs.length := by
  obtain ⟨s, m, here, -⟩ := h
  exact (List.getElem?_eq_some_iff.1 here).1

/-- A proposal is for some member of the row. -/
theorem ProposedAt.exists_mem (h : ProposedAt store policy xs k p) :
    ∃ x ∈ xs, x.1.name = p.oldName := by
  obtain ⟨s, m, here, -, -, -, name⟩ := h
  exact ⟨(s, m), List.mem_of_getElem? here, name.symm⟩

theorem ProposedAt.append (h : ProposedAt store policy xs k p) (more : List (Symbol × Member)) :
    ProposedAt store policy (xs ++ more) k p := by
  have inside := h.lt
  obtain ⟨s, m, here, rest⟩ := h
  refine ⟨s, m, ?_, ?_⟩
  · rw [List.getElem?_append_left inside, here]
  · rwa [List.take_append_of_le_length inside.le]

/-- Whether a member gets no proposal after those that others got. -/
def skips (store : Mapping) (policy : NamingPolicy) (found : Array Proposal)
    (x : Symbol × Member) : Bool :=
  !wantsName store policy x.1 x.2 || found.any (·.oldName == x.1.name)

/-- The features that a member is known by. -/
def featuresOf? (inbound : Std.TreeMap Symbol Nat) (x : Symbol × Member) : Option Features :=
  features? x.1 (if x.1.kind = .method then callCount x.2 else 0) ((inbound[x.1]?).getD 0)

theorem addProposal_eq (store : Mapping) (policy : NamingPolicy)
    (inbound : Std.TreeMap Symbol Nat) (found : Array Proposal) (x : Symbol × Member) :
    addProposal store policy inbound found x.1 x.2 =
      if skips store policy found x then found
      else found.push (propose policy x.1 (featuresOf? inbound x)) := rfl

namespace Surveyed

variable {places : List Nat} {ps : List Proposal}

theorem lt_of_mem (h : Surveyed store policy xs places ps) : ∀ k ∈ places, k < xs.length :=
  ((List.forall₂_and_left _ _).1 (h.proposed.imp fun _ _ here => ⟨here.lt, here⟩)).1

theorem exists_of_mem (h : Surveyed store policy xs places ps) :
    ∀ p ∈ ps, ∃ x ∈ xs, x.1.name = p.oldName :=
  ((List.forall₂_and_left _ _).1
    (h.proposed.flip.imp fun _ _ here => ⟨ProposedAt.exists_mem here, here⟩)).1

/-- A member that is skipped had no wish, or has a proposal by its name. -/
theorem concat_of_skips (h : Surveyed store policy xs places found.toList)
    (skip : skips store policy found x = true) :
    Surveyed store policy (xs ++ [x]) places found.toList where
  ascending := h.ascending
  proposed := h.proposed.imp fun _ _ proposed => proposed.append [x]
  served := by
    refine List.forall_mem_append.2 ⟨h.served, List.forall_mem_singleton.2 fun wants => ?_⟩
    rw [skips, wants, Bool.not_true, Bool.false_or, Array.any_eq_true'] at skip
    obtain ⟨p, mem, same⟩ := skip
    exact ⟨p, Array.mem_toList_iff.2 mem, beq_iff_eq.1 same⟩

/-- A member that is not skipped is the first one that wants a name for its own. -/
theorem concat_of_not_skips (h : Surveyed store policy xs places found.toList)
    (first : skips store policy found x = false) (features : Option Features) :
    Surveyed store policy (xs ++ [x]) (places ++ [xs.length])
      (found.push (propose policy x.1 features)).toList := by
  simp only [skips, Bool.or_eq_false_iff, Bool.not_eq_false', Array.any_eq_false',
    beq_iff_eq] at first
  obtain ⟨wants, fresh⟩ := first
  rw [Array.toList_push]
  refine ⟨?_, ?_, ?_⟩
  · refine List.pairwise_append.2 ⟨h.ascending, List.pairwise_singleton .., fun k mem => ?_⟩
    exact List.forall_mem_singleton.2 (h.lt_of_mem k mem)
  · refine List.rel_append (h.proposed.imp fun _ _ proposed => proposed.append [x]) (.cons ?_ .nil)
    refine ⟨x.1, x.2, List.getElem?_concat_length, wants, ?_, kind_propose .., oldName_propose ..⟩
    rw [List.take_left]
    intro z mem wish same
    obtain ⟨p, there, name⟩ := h.served z mem wish
    exact fresh p (Array.mem_toList_iff.1 there) (name.trans same)
  · refine List.forall_mem_append.2 ⟨fun z mem wish => ?_, List.forall_mem_singleton.2 fun _ => ?_⟩
    · obtain ⟨p, there, name⟩ := h.served z mem wish
      exact ⟨p, List.mem_append_left _ there, name⟩
    · exact ⟨_, List.mem_append_right _ (List.mem_singleton.2 rfl), oldName_propose ..⟩

end Surveyed

/-- The proposals for two rows so far: they are for members at the same places, and say the same of
them. -/
def Abreast (f : String → String) (store : Mapping) (policy : NamingPolicy)
    (xs ys : List (Symbol × Member)) (ps qs : List Proposal) : Prop :=
  ∃ places, Surveyed store policy xs places ps ∧ Surveyed store policy ys places qs ∧
    List.Forall₂ (Proposal.RenamedBy f) ps qs

/-- What has to be known of the next members for them to be treated alike. -/
structure Matched (f : String → String) (store : Mapping) (policy : NamingPolicy)
    (inbound inbound' : Std.TreeMap Symbol Nat) (x y : Symbol × Member) : Prop extends
    Counterpart f x y where
  wants : wantsName store policy y.1 y.2 = wantsName store policy x.1 x.2
  counts : (inbound'[y.1]?).getD 0 = (inbound[x.1]?).getD 0

theorem Matched.featuresOf? (h : Matched f store policy inbound inbound' x y) :
    Survey.featuresOf? inbound' y = Survey.featuresOf? inbound x := by
  have calls : (if y.1.kind = .method then callCount y.2 else 0) =
      if x.1.kind = .method then callCount x.2 else 0 := by
    have kind : y.1.kind = x.1.kind := by rw [h.symbol]; rfl
    rw [kind]
    split
    · next method => exact h.calls method
    · rfl
  rw [Survey.featuresOf?, calls, h.counts, h.symbol]
  rfl

/-- The next member of each row. Its name is taken on both sides or on neither. -/
theorem Abreast.addProposal (h : Abreast f store policy xs ys found.toList found'.toList)
    (length : ys.length = xs.length) (matched : Matched f store policy inbound inbound' x y)
    (inj : Set.InjOn f names) (known : ∀ z ∈ xs ++ [x], z.1.name ∈ names) :
    Abreast f store policy (xs ++ [x]) (ys ++ [y])
      (addProposal store policy inbound found x.1 x.2).toList
      (addProposal store policy inbound' found' y.1 y.2).toList := by
  obtain ⟨places, left, right, agree⟩ := h
  obtain ⟨before, here⟩ := List.forall_mem_append.1 known
  have here := List.forall_mem_singleton.1 here
  -- A proposal for the same new name is one for the same old name, as each is for a member before.
  have taken : found'.any (·.oldName == y.1.name) = found.any (·.oldName == x.1.name) := by
    rw [← Array.any_toList, ← Array.any_toList, matched.symbol]
    refine any_of_renamedBy agree fun p mem same => ?_
    obtain ⟨z, there, name⟩ := left.exists_of_mem p mem
    exact inj (name ▸ before z there) here same
  have skip : skips store policy found' y = skips store policy found x := by
    rw [skips, skips, matched.wants, taken]
  rw [addProposal_eq, addProposal_eq, skip]
  cases first : skips store policy found x with
  | true =>
    exact ⟨places, left.concat_of_skips first, right.concat_of_skips (skip.trans first), agree⟩
  | false =>
    refine ⟨places ++ [xs.length], left.concat_of_not_skips first _, ?_, ?_⟩
    · rw [← length]
      exact right.concat_of_not_skips (skip.trans first) _
    · simp only [Bool.false_eq_true, if_false, Array.toList_push]
      refine List.rel_append agree (.cons ?_ .nil)
      rw [matched.featuresOf?, matched.symbol]
      exact renamedBy_propose ..

/-- The rest of both rows, member by member. -/
theorem Abreast.proposalsFor {xs' ys' : List (Symbol × Member)}
    (matched : List.Forall₂ (Matched f store policy inbound inbound') xs' ys')
    (h : Abreast f store policy xs ys found.toList found'.toList)
    (length : ys.length = xs.length) (inj : Set.InjOn f names)
    (known : ∀ z ∈ xs ++ xs', z.1.name ∈ names) :
    Abreast f store policy (xs ++ xs') (ys ++ ys')
      (proposalsFor store policy inbound xs' found).toList
      (proposalsFor store policy inbound' ys' found').toList := by
  induction matched generalizing xs ys found found' with
  | nil =>
    rw [List.append_nil, List.append_nil]
    exact h
  | cons first _ ih =>
    rw [List.append_cons] at known ⊢
    rw [List.append_cons ys]
    have step := h.addProposal length first inj (List.forall_mem_append.1 known).1
    exact ih step (by simp [length]) known

end Run

end Survey

namespace ClassFile

open Survey

variable {f : String → String} {c d : ClassFile} {store : Mapping} {policy : NamingPolicy}

theorem name_mem_memberNames {x : Symbol × Member} (mem : x ∈ declared c) :
    x.1.name ∈ c.memberNames := by
  obtain ⟨kind, member, symbol⟩ := exists_of_mem_declared mem
  exact .inl ⟨kind, x.2, member, by rw [symbol]; rfl⟩

/-- Let the names of the members of a class be changed by a map that keeps different names apart, in
every declaration and in every reference that the class makes to itself. If each name that changes
is nondescript, before and after, then the members at the same places get proposals, in the same
order. They have the same category and the same confidence, and the new name has the same lead word,
with the name after the change behind it. -/
theorem proposals_of_renamedBy (renamed : RenamedBy f c d) (inj : Set.InjOn f c.memberNames)
    (plain : ∀ name ∈ c.memberNames, f name ≠ name →
      Nondescript store policy name ∧ Nondescript store policy (f name)) :
    ∃ places,
      Surveyed store policy (declared c) places (c.survey store policy).proposals ∧
      Surveyed store policy (declared d) places (d.survey store policy).proposals ∧
      List.Forall₂ (Proposal.RenamedBy f) (c.survey store policy).proposals
        (d.survey store policy).proposals := by
  have counts := tallied_inboundCounts renamed inj
  have rows := (List.forall₂_and_left (p := (· ∈ declared c)) _ _).2
    ⟨fun _ mem => mem, counterpart_declared renamed⟩
  have matched : List.Forall₂ (Matched f store policy (inboundCounts c) (inboundCounts d))
      (declared c) (declared d) := by
    refine rows.imp ?_
    rintro x y ⟨mem, counterpart⟩
    have name := name_mem_memberNames mem
    exact ⟨counterpart, counterpart.wantsName (plain _ name), counterpart.symbol ▸ counts x.1 name⟩
  have start : Abreast f store policy [] [] (#[] : Array Proposal).toList
      (#[] : Array Proposal).toList :=
    ⟨[], ⟨.nil, .nil, List.forall_mem_nil _⟩, ⟨.nil, .nil, List.forall_mem_nil _⟩, .nil⟩
  exact Abreast.proposalsFor matched start rfl inj fun x mem => name_mem_memberNames mem

/-! ### A class with two names -/

/-- A class with a field and a method of the first name, and a method of the second name. The first
method reads the field, and calls the second one and a method `b` of another class. -/
def twoNames (first second : String) : ClassFile where
  minorVersion := 0
  majorVersion := 52
  pool := ⟨#[none, some (.utf8 [0x41]), some (.classRef 1),
    some (.utf8 (ModifiedUtf8.encode first)), some (.utf8 (ModifiedUtf8.encode second)),
    some (.utf8 [0x49]), some (.utf8 [0x28, 0x29, 0x56]),
    some (.nameAndType 3 5), some (.memberRef .field 2 7),
    some (.nameAndType 4 6), some (.memberRef .method 2 9),
    some (.utf8 [0x42]), some (.classRef 11), some (.utf8 [0x62]),
    some (.nameAndType 13 6), some (.memberRef .method 12 14),
    some (.utf8 (ModifiedUtf8.encode "Code"))]⟩
  access := 1
  thisClass := 2
  superClass := 0
  interfaces := []
  fields := #[⟨Access.static, 3, 5, []⟩]
  methods := #[
    ⟨Access.static, 3, 6, [.code 16 ⟨1, 0, #[0xB2, 0, 8, 0x57, 0xB8, 0, 10, 0xB8, 0, 15, 0xB1],
      [], []⟩]⟩,
    ⟨Access.static, 4, 6, [.code 16 ⟨0, 0, #[0xB1], [], []⟩]⟩]
  attributes := []

theorem renamedBy_twoNames :
    RenamedBy (Equiv.swap "a" "b") (twoNames "a" "b") (twoNames "b" "a") := by
  have fields : ∀ m ∈ (twoNames "a" "b").fields.toList, (twoNames "b" "a").symbolOf .field m =
      ((twoNames "a" "b").symbolOf .field m).mapName (Equiv.swap "a" "b") := by
    decide +kernel
  have methods : ∀ m ∈ (twoNames "a" "b").methods.toList, (twoNames "b" "a").symbolOf .method m =
      ((twoNames "a" "b").symbolOf .method m).mapName (Equiv.swap "a" "b") := by
    decide +kernel
  have references : ∀ m ∈ (twoNames "a" "b").methods.toList, ∀ i ∈ (instructionsOf m).toList,
      (twoNames "b" "a").reference? i = ((twoNames "a" "b").reference? i).map
        (MemberRef.mapOwn (Equiv.swap "a" "b") (twoNames "a" "b").className) := by
    decide +kernel
  refine ⟨by decide +kernel, List.forall₂_same.2 fun m mem => ⟨fields m mem, rfl⟩,
    List.forall₂_same.2 fun m mem => ⟨⟨methods m mem, rfl⟩, ?_⟩⟩
  exact List.forall₂_same.2 fun i inside => ⟨rfl, references m mem i inside⟩

/-- A policy whose predictor says the same of every member. -/
def getterPolicy : NamingPolicy := ⟨⟨"get", fun _ => some ⟨.get, 1⟩⟩, 0, 2⟩

/-- The two names of the class are exchanged. -/
theorem proposals_of_renamedBy_twoNames :
    RenamedBy (Equiv.swap "a" "b") (twoNames "a" "b") (twoNames "b" "a") ∧
    (Nondescript .empty getterPolicy "a" ∧ Nondescript .empty getterPolicy "b") ∧
    ∃ places,
      Surveyed .empty getterPolicy (declared (twoNames "a" "b")) places
        ((twoNames "a" "b").survey .empty getterPolicy).proposals ∧
      Surveyed .empty getterPolicy (declared (twoNames "b" "a")) places
        ((twoNames "b" "a").survey .empty getterPolicy).proposals ∧
      List.Forall₂ (Proposal.RenamedBy (Equiv.swap "a" "b"))
        ((twoNames "a" "b").survey .empty getterPolicy).proposals
        ((twoNames "b" "a").survey .empty getterPolicy).proposals := by
  have a : Nondescript .empty getterPolicy "a" := ⟨fun _ => rfl, by decide, by decide, by decide⟩
  have b : Nondescript .empty getterPolicy "b" := ⟨fun _ => rfl, by decide, by decide, by decide⟩
  refine ⟨renamedBy_twoNames, ⟨a, b⟩, proposals_of_renamedBy renamedBy_twoNames
    (Equiv.swap "a" "b").injective.injOn fun name _ changes => ?_⟩
  obtain ⟨-, rfl | rfl⟩ := Equiv.swap_apply_ne_self_iff.1 changes
  · rw [Equiv.swap_apply_left]
    exact ⟨a, b⟩
  · rw [Equiv.swap_apply_right]
    exact ⟨b, a⟩

example : ((twoNames "a" "b").survey .empty ⟨.silent, 0, 2⟩).proposals.map
      (fun p => (p.oldName, p.newName)) = [("a", "fieldA"), ("b", "methodB")] ∧
    ((twoNames "b" "a").survey .empty ⟨.silent, 0, 2⟩).proposals.map
      (fun p => (p.oldName, p.newName)) = [("b", "fieldB"), ("a", "methodA")] := by
  decide +kernel

end ClassFile

end Clarify
