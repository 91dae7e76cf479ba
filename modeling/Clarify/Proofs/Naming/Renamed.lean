import Clarify.Naming.Rename
import Clarify.Proofs.ClassFile.WellFormed

/-!
# What renaming does to a class

Every member gets its final name, and so does every reference to a member of a class of the archive,
whether the class that is referred to declares the member or not.

Results:
* `symbolsOf_rename`: the members have their final symbols, in the same order.
* `linked?_rename`: the references have their final names.
-/

namespace Clarify

/-! ## Links -/

/-- The members of a kind that a class declares. -/
def ClassFile.membersOf (c : ClassFile) : SymbolKind → Array Member
  | .class => #[]
  | .field => c.fields
  | .method => c.methods

/-- The symbols of the members of a kind, in declaration order. -/
def ClassFile.symbolsOf (c : ClassFile) (kind : SymbolKind) : List Symbol :=
  (c.membersOf kind).toList.map (c.symbolOf kind)

/-- The position of the first member with the given symbol. -/
def ClassFile.findMember? (c : ClassFile) (s : Symbol) : Option Nat :=
  (c.symbolsOf s.kind).findIdx? (· == s)

/-- A place where a class refers to a member. -/
inductive Link where
  /-- A member reference of the constant pool. -/
  | entry (index : UInt16)
  /-- The method around a local class, in the attribute at the position. -/
  | enclosing (position : Nat)

/-- The method that an attribute names as the one around the class. -/
def Pool.enclosing? (p : Pool) (a : Attribute) : Option MemberRef := do
  if p.text? a.name ≠ some "EnclosingMethod" then none
  match a.info with
  | [c1, c2, m1, m2] =>
    let owner ← p.className? (word16 c1 c2)
    let (name, descriptor) ← p.nameAndType? (word16 m1 m2)
    return { kind := .method, owner, name, descriptor }
  | _ => none

/-- The member that a class refers to at a place. -/
def ClassFile.linked? (c : ClassFile) : Link → Option MemberRef
  | .entry index => c.pool.memberRef? index
  | .enclosing position => do c.pool.enclosing? (← c.attributes[position]?)

/-- Looking for a method is looking for a member. -/
theorem ClassFile.findMethod?_eq (c : ClassFile) (name descriptor : String) :
    c.findMethod? name descriptor = c.findMember? ⟨.method, name, descriptor⟩ := by
  have test (m : Member) : (c.nameOf m == name && c.descriptorOf m == descriptor) =
      (c.symbolOf .method m == ⟨.method, name, descriptor⟩) := by
    rw [Bool.eq_iff_iff]
    simp [ClassFile.symbolOf]
  have row (p : Member → Bool) : c.methods.findIdx? p = c.methods.toList.findIdx? p := by
    cases c.methods
    rw [List.findIdx?_toArray]
  rw [findMethod?, row, findMember?, symbolsOf, List.findIdx?_map]
  congr 1
  funext m
  exact test m

/-! ## Steps on a pool -/

namespace Rename

section Steps

variable {α β : Type} {p q r : Pool}

theorem bind_eq_ok_iff {x : PoolStep α} {f : α → PoolStep β} {b : β} :
    (x >>= f) p = .ok (b, r) ↔ ∃ a q, x p = .ok (a, q) ∧ f a q = .ok (b, r) := by
  show (x p >>= fun (a, q) => f a q) = _ ↔ _
  rw [Except.bind_eq_ok_iff]
  exact ⟨fun ⟨(a, q), h, h'⟩ => ⟨a, q, h, h'⟩, fun ⟨a, q, h, h'⟩ => ⟨(a, q), h, h'⟩⟩

theorem pure_eq_ok_iff {a b : α} : (pure a : PoolStep α) p = .ok (b, q) ↔ a = b ∧ p = q := by
  show Except.ok (a, p) = .ok (b, q) ↔ _
  rw [Except.ok.injEq, Prod.mk.injEq]

theorem mapM_cons_eq_ok_iff {f : α → PoolStep β} {x : α} {xs : List α} {zs : List β} :
    (x :: xs).mapM f p = .ok (zs, r) ↔ ∃ y q ys, f x p = .ok (y, q) ∧ xs.mapM f q = .ok (ys, r) ∧
      zs = y :: ys := by
  rw [List.mapM_cons, bind_eq_ok_iff]
  constructor
  · rintro ⟨y, q, first, h⟩
    obtain ⟨ys, q', rest, h⟩ := bind_eq_ok_iff.1 h
    obtain ⟨rfl, rfl⟩ := pure_eq_ok_iff.1 h
    exact ⟨y, q, ys, first, rest, rfl⟩
  · rintro ⟨y, q, ys, first, rest, rfl⟩
    exact ⟨y, q, first, bind_eq_ok_iff.2 ⟨ys, r, rest, rfl⟩⟩

theorem constant_eq_ok_iff {c : Constant} {index : UInt16} :
    constant c p = .ok (index, q) ↔ p.intern? c = some (index, q) := by
  unfold constant
  split
  · next added found => rw [found, Except.ok.injEq, Option.some.injEq]
  · next full => rw [full]; exact ⟨nofun, nofun⟩

/-- The second pool is the first one with constants added, and is not too large. -/
structure Grown (p q : Pool) : Prop where
  extends' : p.Extends q
  size_le : q.size ≤ Pool.capacity

theorem Grown.trans (h : Grown p q) (h' : Grown q r) : Grown p r :=
  ⟨h.extends'.trans h'.extends', h'.size_le⟩

theorem grown_of_constant {c : Constant} {index : UInt16} (size : p.size ≤ Pool.capacity)
    (h : constant c p = .ok (index, q)) : q.get? index = some c ∧ Grown p q := by
  rw [constant_eq_ok_iff] at h
  exact ⟨Pool.get?_of_intern? size h, Pool.extends_of_intern? h, Pool.size_le_of_intern? size h⟩

theorem grown_of_text {value : String} {index : UInt16} (size : p.size ≤ Pool.capacity)
    (h : text value p = .ok (index, q)) : q.text? index = some value ∧ Grown p q := by
  obtain ⟨found, grown⟩ := grown_of_constant size h
  exact ⟨Pool.text?_of_get? found, grown⟩

/-- The new name stands with the descriptor that was there. -/
theorem grown_of_namedLike {index pair : UInt16} {name descriptor newName : String}
    (size : p.size ≤ Pool.capacity) (old : p.nameAndType? index = some (name, descriptor))
    (h : namedLike index newName p = .ok (pair, q)) :
    q.nameAndType? pair = some (newName, descriptor) ∧ Grown p q := by
  obtain ⟨n, d, here, -, foundDescriptor⟩ := Pool.nameAndType?_eq_some_iff.1 old
  rw [namedLike, bind_eq_ok_iff] at h
  obtain ⟨p', p'', state, h⟩ := h
  cases state
  simp only [Pool.get, here] at h
  rw [bind_eq_ok_iff] at h
  obtain ⟨i, q', interned, h⟩ := h
  obtain ⟨foundName, grown⟩ := grown_of_text size interned
  obtain ⟨found, grown'⟩ := grown_of_constant grown.size_le h
  refine ⟨?_, grown.trans grown'⟩
  rw [Pool.nameAndType?_eq_some_iff]
  exact ⟨i, d, found, grown'.extends'.keepsNames.text? foundName,
    (grown.trans grown').extends'.keepsNames.text? foundDescriptor⟩

end Steps

/-! ## Declarations -/

section Declarations

variable {store : Mapping} {plan : Plan} {c : ClassFile} {kind : SymbolKind} {p q : Pool}

theorem finalName_of_target? {s : Symbol} {newName : String}
    (h : plan.target? store s = some newName) : plan.finalName store s = newName := by
  rw [Plan.finalName, h]
  rfl

theorem finalName_of_target?_eq_none {s : Symbol} (h : plan.target? store s = none) :
    plan.finalName store s = s.name := by
  rw [Plan.finalName, h]
  rfl

/-- A member has its final symbol in every pool that keeps the names. -/
theorem declaration_spec {m : Member} {row : Member × Option Renaming}
    (member : ClassFile.WellFormedMember c.pool m) (keeps : c.pool.KeepsNames p)
    (size : p.size ≤ Pool.capacity) (h : declaration store plan c kind m p = .ok (row, q)) :
    Grown p q ∧ ∀ d : ClassFile, q.KeepsNames d.pool →
      d.symbolOf kind row.1 = plan.finalSymbol store (c.symbolOf kind m) := by
  obtain ⟨nameBytes, name⟩ := member.name
  obtain ⟨descriptorBytes, descriptor⟩ := member.descriptor
  have nameOf {d : ClassFile} (keeps : c.pool.KeepsNames d.pool) : d.nameOf m = c.nameOf m := by
    rw [ClassFile.nameOf, ClassFile.nameOf, Pool.text?, Pool.text?, name, keeps.rawText? name]
  have descriptorOf {d : ClassFile} (keeps : c.pool.KeepsNames d.pool) :
      d.descriptorOf m = c.descriptorOf m := by
    rw [ClassFile.descriptorOf, ClassFile.descriptorOf, Pool.text?, Pool.text?, descriptor,
      keeps.rawText? descriptor]
  rcases moves : plan.target? store (c.symbolOf kind m) with _ | newName
  · simp only [declaration, moves] at h
    obtain ⟨rfl, rfl⟩ := pure_eq_ok_iff.1 h
    refine ⟨⟨.refl p, size⟩, fun d keeps' => ?_⟩
    rw [Plan.finalSymbol, finalName_of_target?_eq_none moves, ClassFile.symbolOf,
      ClassFile.symbolOf, nameOf (keeps.trans keeps'), descriptorOf (keeps.trans keeps')]
  · simp only [declaration, moves] at h
    rw [bind_eq_ok_iff] at h
    obtain ⟨index, q', interned, h⟩ := h
    obtain ⟨rfl, rfl⟩ := pure_eq_ok_iff.1 h
    obtain ⟨found, grown⟩ := grown_of_text size interned
    refine ⟨grown, fun d keeps' => ?_⟩
    have keeps'' := (keeps.trans grown.extends'.keepsNames).trans keeps'
    have renamed : d.pool.text? index = some newName := keeps'.text? found
    rw [Plan.finalSymbol, finalName_of_target? moves, ClassFile.symbolOf, ClassFile.symbolOf,
      ClassFile.nameOf]
    simp only [renamed, Option.getD_some]
    congr 1
    exact descriptorOf keeps''

theorem mapM_declaration_spec {members : List Member} {rows : List (Member × Option Renaming)}
    (wellFormed : ∀ m ∈ members, ClassFile.WellFormedMember c.pool m) (keeps : c.pool.KeepsNames p)
    (size : p.size ≤ Pool.capacity)
    (h : members.mapM (declaration store plan c kind) p = .ok (rows, q)) :
    Grown p q ∧ ∀ d : ClassFile, q.KeepsNames d.pool →
      rows.map (fun row => d.symbolOf kind row.1) =
        members.map fun m => plan.finalSymbol store (c.symbolOf kind m) := by
  induction members generalizing rows p with
  | nil =>
    rw [List.mapM_nil] at h
    obtain ⟨rfl, rfl⟩ := pure_eq_ok_iff.1 h
    exact ⟨⟨.refl p, size⟩, fun _ _ => rfl⟩
  | cons m members ih =>
    obtain ⟨row, p', rest, first, others, rfl⟩ := mapM_cons_eq_ok_iff.1 h
    obtain ⟨grown, head⟩ := declaration_spec (wellFormed m (by simp)) keeps size first
    obtain ⟨grown', tail⟩ := ih (fun m hm => wellFormed m (by simp [hm]))
      (keeps.trans grown.extends'.keepsNames) grown.size_le others
    refine ⟨grown.trans grown', fun d keeps' => ?_⟩
    rw [List.map_cons, List.map_cons, tail d keeps',
      head d (grown'.extends'.keepsNames.trans keeps')]

end Declarations

/-! ## References -/

section References

variable {store : Mapping} {plan : Plan} {c : ClassFile} {p q : Pool}

/-- The new name of a reference, if it gets another one. -/
def linkTarget? (store : Mapping) (plan : Plan) (c : ClassFile) (r : MemberRef) : Option String :=
  if isRenamedOwner plan c r.owner then plan.target? store r.symbol else none

/-- The name that a reference ends with. -/
def linkName (store : Mapping) (plan : Plan) (c : ClassFile) (r : MemberRef) : String :=
  (linkTarget? store plan c r).getD r.name

/-- References to members of other classes than those of the archive keep their names. -/
theorem linkName_eq (store : Mapping) (plan : Plan) (c : ClassFile) (r : MemberRef) :
    linkName store plan c r =
      if isRenamedOwner plan c r.owner then plan.finalName store r.symbol else r.name := by
  rw [linkName, linkTarget?]
  split <;> rfl

theorem linkName_congr {d : ClassFile} {r : MemberRef}
    (same : isRenamedOwner plan d r.owner = isRenamedOwner plan c r.owner) :
    linkName store plan d r = linkName store plan c r := by
  rw [linkName_eq, linkName_eq, same]

theorem referenceTarget?_eq (store : Mapping) (plan : Plan) {r : MemberRef} {owner pair : UInt16}
    (foundOwner : c.pool.className? owner = some r.owner)
    (foundPair : c.pool.nameAndType? pair = some (r.name, r.descriptor)) :
    referenceTarget? store plan c r.kind.symbolKind owner pair = linkTarget? store plan c r := by
  simp only [referenceTarget?, foundOwner, foundPair, Option.bind_eq_bind, Option.bind_some,
    linkTarget?]
  cases isRenamedOwner plan c r.owner <;> rfl

/-- A place that gets a new name has names, and the new one is that of their symbol. -/
theorem exists_names_of_referenceTarget? {kind : SymbolKind} {owner pair : UInt16}
    {newName : String} (h : referenceTarget? store plan c kind owner pair = some newName) :
    ∃ ownerName name descriptor, c.pool.className? owner = some ownerName ∧
      c.pool.nameAndType? pair = some (name, descriptor) ∧
      plan.target? store { kind, name, descriptor } = some newName := by
  unfold referenceTarget? at h
  simp only [Option.bind_eq_bind, Option.bind_eq_some_iff] at h
  obtain ⟨ownerName, foundOwner, h⟩ := h
  split at h
  · cases h
  · obtain ⟨⟨name, descriptor⟩, foundPair, moves⟩ := Option.bind_eq_some_iff.1 h
    exact ⟨ownerName, name, descriptor, foundOwner, foundPair, moves⟩

theorem mem_references_iff (size : c.pool.size ≤ Pool.capacity) {r : Reference} :
    r ∈ references store plan c ↔
      c.pool.get? r.index = some (.memberRef r.kind r.owner r.pair) ∧
        referenceTarget? store plan c r.kind.symbolKind r.owner r.pair = some r.newName := by
  rw [references, List.mem_filterMap]
  constructor
  · rintro ⟨⟨slot, k⟩, mem, h⟩
    rw [List.mem_zipIdx_iff_getElem?, Array.getElem?_toList] at mem
    have inside : k < 65536 :=
      Nat.lt_of_lt_of_le (Array.getElem?_eq_some_iff.1 mem).1 (Nat.le_trans size (by decide))
    simp only at h mem
    split at h
    · obtain ⟨newName, target, rfl⟩ := Option.map_eq_some_iff.1 h
      rw [Pool.get?_eq_some_iff, UInt16.toNat_ofNat_of_lt' inside]
      exact ⟨mem, target⟩
    · cases h
  · rintro ⟨found, target⟩
    rw [Pool.get?_eq_some_iff, ← Array.getElem?_toList] at found
    refine ⟨(some (.memberRef r.kind r.owner r.pair), r.index.toNat),
      List.mem_zipIdx_iff_getElem?.2 found, ?_⟩
    simp only [target, Option.map_some, UInt16.ofNat_toNat]

/-- The pool has the reference under its new name, with the descriptor that `old` had. -/
def Repointed (old q : Pool) (r : Reference) : Prop :=
  ∃ pair, q.get? r.index = some (.memberRef r.kind r.owner pair) ∧
    ∀ name descriptor, old.nameAndType? r.pair = some (name, descriptor) →
      q.nameAndType? pair = some (r.newName, descriptor)

/-- A reference with its new name, and everything else as it was. -/
theorem repoint_spec {r : Reference} {u : Unit} {owner pair : UInt16} {name descriptor : String}
    (here : p.get? r.index = some (.memberRef r.kind owner pair))
    (old : p.nameAndType? r.pair = some (name, descriptor)) (size : p.size ≤ Pool.capacity)
    (h : repoint r p = .ok (u, q)) :
    p.KeepsNames q ∧ q.size ≤ Pool.capacity ∧ Repointed p q r ∧
      ∀ index c, index ≠ r.index → p.get? index = some c → q.get? index = some c := by
  rw [repoint, bind_eq_ok_iff] at h
  obtain ⟨pair', p', named, h⟩ := h
  cases h
  obtain ⟨found, grown⟩ := grown_of_namedLike size old named
  have inside := Pool.lt_size_of_get? (grown.extends' _ _ here)
  have keeps := Pool.keepsNames_replace (grown.extends' _ _ here) rfl
    (.memberRef r.kind r.owner pair')
  refine ⟨grown.extends'.keepsNames.trans keeps, ?_, ⟨pair', ?_, ?_⟩, ?_⟩
  · rw [Pool.size_replace]
    exact grown.size_le
  · exact Pool.get?_replace_self inside _
  · intro name' descriptor' old'
    rw [old] at old'
    cases old'
    exact keeps.nameAndType? found
  · intro index c ne found
    rw [Pool.get?_replace_of_ne (Ne.symm ne)]
    exact grown.extends' index c found

/-- All references with their new names, and everything else as it was. -/
theorem forM_repoint_spec {found : List Reference} {u : Unit}
    (here : ∀ r ∈ found, ∃ owner pair, p.get? r.index = some (.memberRef r.kind owner pair))
    (old : ∀ r ∈ found, ∃ name descriptor, p.nameAndType? r.pair = some (name, descriptor))
    (same : ∀ r ∈ found, ∀ r' ∈ found, r'.index = r.index → r' = r)
    (size : p.size ≤ Pool.capacity) (h : found.forM repoint p = .ok (u, q)) :
    p.KeepsNames q ∧ q.size ≤ Pool.capacity ∧ (∀ r ∈ found, Repointed p q r) ∧
      ∀ index c, (∀ r ∈ found, index ≠ r.index) → p.get? index = some c →
        q.get? index = some c := by
  induction found generalizing p with
  | nil =>
    cases h
    exact ⟨.refl _, size, nofun, fun _ _ _ found => found⟩
  | @cons r rest ih =>
    rw [List.forM_eq_forM, List.forM_cons, ← List.forM_eq_forM, bind_eq_ok_iff] at h
    obtain ⟨_, p', first, others⟩ := h
    obtain ⟨owner, pair, isRef⟩ := here r (by simp)
    obtain ⟨name, descriptor, isPair⟩ := old r (by simp)
    obtain ⟨keeps, size', ⟨pair', place, named⟩, elsewhere⟩ := repoint_spec isRef isPair size first
    have here' : ∀ r' ∈ rest, ∃ owner pair,
        p'.get? r'.index = some (.memberRef r'.kind owner pair) := by
      intro r' hr'
      by_cases eq : r'.index = r.index
      · obtain rfl := same r (by simp) r' (by simp [hr']) eq
        exact ⟨_, _, place⟩
      · obtain ⟨owner, pair, isRef⟩ := here r' (by simp [hr'])
        exact ⟨owner, pair, elsewhere _ _ eq isRef⟩
    have old' : ∀ r' ∈ rest, ∃ name descriptor,
        p'.nameAndType? r'.pair = some (name, descriptor) := by
      intro r' hr'
      obtain ⟨name, descriptor, isPair⟩ := old r' (by simp [hr'])
      exact ⟨name, descriptor, keeps.nameAndType? isPair⟩
    obtain ⟨keeps', size'', repointed, elsewhere'⟩ := ih here' old'
      (fun r hr r' hr' => same r (by simp [hr]) r' (by simp [hr'])) size' others
    have earlier {r' : Reference} (h : Repointed p' q r') : Repointed p q r' := by
      obtain ⟨pair, place, named⟩ := h
      exact ⟨pair, place, fun name descriptor isPair => named _ _ (keeps.nameAndType? isPair)⟩
    refine ⟨keeps.trans keeps', size'', fun r' hr' => ?_, fun index c ne found => ?_⟩
    · obtain rfl | hr' := List.mem_cons.1 hr'
      · by_cases again : ∃ r'' ∈ rest, r''.index = r'.index
        · obtain ⟨r'', hr'', eq⟩ := again
          obtain rfl := same r' (by simp) r'' (by simp [hr'']) eq
          exact earlier (repointed r'' hr'')
        · refine ⟨pair', ?_, fun name descriptor isPair =>
            keeps'.nameAndType? (named name descriptor isPair)⟩
          exact elsewhere' _ _ (fun r'' hr'' eq => again ⟨r'', hr'', eq.symm⟩) place
      · exact earlier (repointed r' hr')
    · exact elsewhere' index c (fun r' hr' => ne r' (by simp [hr']))
        (elsewhere index c (ne r (by simp)) found)

end References

/-! ## The enclosing method -/

section Enclosing

theorem enclosing?_eq_some_iff {p : Pool} {a : Attribute} {r : MemberRef} :
    p.enclosing? a = some r ↔ p.text? a.name = some "EnclosingMethod" ∧ ∃ c1 c2 m1 m2,
      a.info = [c1, c2, m1, m2] ∧ p.className? (word16 c1 c2) = some r.owner ∧
        p.nameAndType? (word16 m1 m2) = some (r.name, r.descriptor) ∧ r.kind = .method := by
  obtain ⟨kind, owner, name, descriptor⟩ := r
  unfold Pool.enclosing?
  by_cases named : p.text? a.name = some "EnclosingMethod"
  · simp only [named, ne_eq, not_true, if_false, true_and]
    split
    · next c1 c2 m1 m2 info =>
      simp only [Option.bind_eq_bind, Option.bind_eq_some_iff, info]
      constructor
      · rintro ⟨ownerName, foundOwner, ⟨name', descriptor'⟩, foundPair, eq⟩
        cases eq
        exact ⟨c1, c2, m1, m2, rfl, foundOwner, foundPair, rfl⟩
      · rintro ⟨_, _, _, _, eq, foundOwner, foundPair, rfl⟩
        cases eq
        exact ⟨owner, foundOwner, (name, descriptor), foundPair, rfl⟩
    · next other =>
      refine ⟨nofun, ?_⟩
      rintro ⟨c1, c2, m1, m2, info, -⟩
      exact absurd info (other c1 c2 m1 m2)
  · simp only [named, ne_eq, not_false_eq_true, if_true, false_and, iff_false]
    exact nofun

variable {store : Mapping} {plan : Plan} {c : ClassFile} {old p q : Pool}

/-- An attribute stays, or is given a pair with a new name; the mark tells which. -/
theorem enclosing_cases {a : Attribute} {row : Attribute × Bool}
    (h : enclosing store plan c a p = .ok (row, q)) :
    (row = (a, false) ∧ q = p ∧ ∀ c1 c2 m1 m2, c.pool.text? a.name = some "EnclosingMethod" →
      a.info = [c1, c2, m1, m2] → word16 m1 m2 = 0 ∨
        referenceTarget? store plan c .method (word16 c1 c2) (word16 m1 m2) = none) ∨
    c.pool.text? a.name = some "EnclosingMethod" ∧ ∃ c1 c2 m1 m2 newName pair,
      a.info = [c1, c2, m1, m2] ∧
      referenceTarget? store plan c .method (word16 c1 c2) (word16 m1 m2) = some newName ∧
      namedLike (word16 m1 m2) newName p = .ok (pair, q) ∧
      row = ({ a with info := [c1, c2] ++ be16 pair }, true) := by
  by_cases named : c.pool.text? a.name = some "EnclosingMethod"
  · simp only [enclosing, named, ne_eq, not_true, if_false] at h
    rcases info : a.info with _ | ⟨c1, _ | ⟨c2, _ | ⟨m1, _ | ⟨m2, _ | ⟨x, rest⟩⟩⟩⟩⟩
    case cons.cons.cons.cons.nil =>
      by_cases unnamed : word16 m1 m2 = 0
      · simp only [info, unnamed, if_true] at h
        obtain ⟨rfl, rfl⟩ := pure_eq_ok_iff.1 h
        refine .inl ⟨rfl, rfl, fun x1 x2 y1 y2 _ info' => ?_⟩
        cases info'
        exact .inl unnamed
      · simp only [info, unnamed, if_false] at h
        rcases target : referenceTarget? store plan c .method (word16 c1 c2) (word16 m1 m2)
          with _ | newName
        · simp only [target] at h
          obtain ⟨rfl, rfl⟩ := pure_eq_ok_iff.1 h
          refine .inl ⟨rfl, rfl, fun x1 x2 y1 y2 _ info' => ?_⟩
          cases info'
          exact .inr target
        · simp only [target] at h
          obtain ⟨pair, p', interned, h⟩ := bind_eq_ok_iff.1 h
          obtain ⟨rfl, rfl⟩ := pure_eq_ok_iff.1 h
          exact .inr ⟨named, c1, c2, m1, m2, newName, pair, rfl, target, interned, rfl⟩
    all_goals
      simp only [info] at h
      obtain ⟨rfl, rfl⟩ := pure_eq_ok_iff.1 h
      refine .inl ⟨rfl, rfl, fun x1 x2 y1 y2 _ info' => ?_⟩
      cases info'
  · simp only [enclosing, named, ne_eq, not_false_eq_true, if_true] at h
    obtain ⟨rfl, rfl⟩ := pure_eq_ok_iff.1 h
    exact .inl ⟨rfl, rfl, fun x1 x2 y1 y2 named' => absurd named' named⟩

theorem grown_of_enclosing {a : Attribute} {row : Attribute × Bool} (keeps : c.pool.KeepsNames p)
    (size : p.size ≤ Pool.capacity) (h : enclosing store plan c a p = .ok (row, q)) :
    Grown p q := by
  obtain ⟨-, rfl, -⟩ | ⟨-, _, _, _, _, _, _, -, target, interned, -⟩ := enclosing_cases h
  · exact ⟨.refl _, size⟩
  · obtain ⟨-, name, descriptor, -, isPair, -⟩ := exists_names_of_referenceTarget? target
    exact (grown_of_namedLike size (keeps.nameAndType? isPair) interned).2

/-- The attribute names the method by its final name. -/
theorem enclosing_spec {a : Attribute} {row : Attribute × Bool} {r : MemberRef}
    (zero : old.get? 0 = none) (keeps : old.KeepsNames c.pool) (keeps' : c.pool.KeepsNames p)
    (size : p.size ≤ Pool.capacity) (found : old.enclosing? a = some r)
    (h : enclosing store plan c a p = .ok (row, q)) :
    q.enclosing? row.1 = some { r with name := linkName store plan c r } := by
  obtain ⟨kind, owner, name, descriptor⟩ := r
  obtain ⟨named, c1, c2, m1, m2, info, foundOwner, foundPair, rfl⟩ := enclosing?_eq_some_iff.1 found
  have nonzero : word16 m1 m2 ≠ 0 := by
    intro zero'
    obtain ⟨n, d, here, -⟩ := Pool.nameAndType?_eq_some_iff.1 foundPair
    rw [zero', zero] at here
    cases here
  have target : referenceTarget? store plan c .method (word16 c1 c2) (word16 m1 m2) =
      linkTarget? store plan c ⟨.method, owner, name, descriptor⟩ :=
    referenceTarget?_eq store plan (keeps.className? foundOwner) (keeps.nameAndType? foundPair)
  have keeps' := keeps.trans keeps'
  rw [linkName, ← target, enclosing?_eq_some_iff]
  obtain ⟨rfl, rfl, stays⟩ | ⟨-, _, _, _, _, newName, pair, info', moves, interned, rfl⟩ :=
    enclosing_cases h
  · rw [(stays c1 c2 m1 m2 (keeps.text? named) info).resolve_left nonzero]
    exact ⟨keeps'.text? named, c1, c2, m1, m2, info, keeps'.className? foundOwner,
      keeps'.nameAndType? foundPair, rfl⟩
  · cases info.symm.trans info'
    obtain ⟨foundPair', grown⟩ := grown_of_namedLike size (keeps'.nameAndType? foundPair) interned
    have keeps' := keeps'.trans grown.extends'.keepsNames
    rw [moves]
    refine ⟨keeps'.text? named, c1, c2, _, _, rfl, keeps'.className? foundOwner, ?_, rfl⟩
    rw [show word16 _ _ = pair from word16_be16 pair]
    exact foundPair'

/-- An attribute still names its method when the pool has grown. -/
theorem enclosing?_mono {a : Attribute} {r : MemberRef} (keeps : p.KeepsNames q)
    (h : p.enclosing? a = some r) : q.enclosing? a = some r := by
  rw [enclosing?_eq_some_iff] at h ⊢
  obtain ⟨named, c1, c2, m1, m2, info, foundOwner, foundPair, kind⟩ := h
  exact ⟨keeps.text? named, c1, c2, m1, m2, info, keeps.className? foundOwner,
    keeps.nameAndType? foundPair, kind⟩

theorem mapM_enclosing_spec {attributes : List Attribute} {rows : List (Attribute × Bool)}
    (zero : old.get? 0 = none) (keeps : old.KeepsNames c.pool) (keeps' : c.pool.KeepsNames p)
    (size : p.size ≤ Pool.capacity)
    (h : attributes.mapM (enclosing store plan c) p = .ok (rows, q)) :
    Grown p q ∧ ∀ (k : Nat) (a : Attribute) (r : MemberRef), attributes[k]? = some a →
      old.enclosing? a = some r → (rows[k]?).bind (fun row => q.enclosing? row.1) =
        some { r with name := linkName store plan c r } := by
  induction attributes generalizing rows p with
  | nil =>
    rw [List.mapM_nil] at h
    obtain ⟨rfl, rfl⟩ := pure_eq_ok_iff.1 h
    exact ⟨⟨.refl _, size⟩, fun k a r mem => by simp at mem⟩
  | cons b attributes ih =>
    obtain ⟨row, p', rest, first, others, rfl⟩ := mapM_cons_eq_ok_iff.1 h
    have grown := grown_of_enclosing keeps' size first
    obtain ⟨grown', tail⟩ := ih (keeps'.trans grown.extends'.keepsNames) grown.size_le others
    refine ⟨grown.trans grown', fun k a r mem found => ?_⟩
    cases k with
    | zero =>
      cases mem
      exact enclosing?_mono grown'.extends'.keepsNames
        (enclosing_spec zero keeps keeps' size found first)
    | succ k => exact tail k a r mem found

end Enclosing

end Rename

/-! ## The renamed class -/

namespace ClassFile

open Rename

variable {c : ClassFile} {store : Mapping} {plan : Plan} {renamed : Renamed}

/-- The steps that a class goes through when it is renamed. -/
theorem rename_eq_ok (h : c.rename store plan = .ok renamed) :
    ∃ fields methods attributes p₁ p₂ p₃, ∃ u : Unit,
      c.fields.toList.mapM (declaration store plan c .field) c.pool = .ok (fields, p₁) ∧
      c.methods.toList.mapM (declaration store plan c .method) p₁ = .ok (methods, p₂) ∧
      (references store plan c).forM repoint p₂ = .ok (u, p₃) ∧
      c.attributes.mapM (enclosing store plan { c with pool := p₃ }) p₃ =
        .ok (attributes, renamed.file.pool) ∧
      renamed.file.fields = (fields.map Prod.fst).toArray ∧
      renamed.file.methods = (methods.map Prod.fst).toArray ∧
      renamed.file.attributes = attributes.map Prod.fst ∧
      renamed.declarations = (fields ++ methods).filterMap Prod.snd ∧
      renamed.references =
        (references store plan c).length + (attributes.filter Prod.snd).length := by
  rw [rename, Except.bind_eq_ok_iff] at h
  obtain ⟨⟨⟨fields, methods, count, attributes⟩, pool⟩, run, h⟩ := h
  cases h
  have run : steps store plan c c.pool = .ok ((fields, methods, count, attributes), pool) := run
  rw [steps, bind_eq_ok_iff] at run
  obtain ⟨fields, p₁, first, run⟩ := run
  obtain ⟨methods, p₂, second, run⟩ := bind_eq_ok_iff.1 run
  obtain ⟨u, p₃, third, run⟩ := bind_eq_ok_iff.1 run
  obtain ⟨p, p', state, run⟩ := bind_eq_ok_iff.1 run
  cases state
  obtain ⟨attributes, p₄, last, run⟩ := bind_eq_ok_iff.1 run
  cases run
  exact ⟨fields, methods, attributes, p₁, p₂, p₃, u, first, second, third, last, rfl, rfl, rfl,
    rfl, rfl⟩

/-- The references that get a new name lead to entries of the pool. -/
theorem forM_references_spec {p q : Pool} {u : Unit} (wf : c.WellFormed) (grown : Grown c.pool p)
    (h : (references store plan c).forM repoint p = .ok (u, q)) :
    p.KeepsNames q ∧ q.size ≤ Pool.capacity ∧
      (∀ r ∈ references store plan c, Repointed p q r) ∧
      ∀ index c', (∀ r ∈ references store plan c, index ≠ r.index) → p.get? index = some c' →
        q.get? index = some c' := by
  refine forM_repoint_spec (fun r hr => ?_) (fun r hr => ?_) (fun r hr r' hr' same => ?_)
    grown.size_le h
  · exact ⟨_, _, grown.extends' _ _ ((mem_references_iff wf.size_le).1 hr).1⟩
  · obtain ⟨-, name, descriptor, -, found, -⟩ :=
      exists_names_of_referenceTarget? ((mem_references_iff wf.size_le).1 hr).2
    exact ⟨name, descriptor, grown.extends'.keepsNames.nameAndType? found⟩
  · obtain ⟨found, target⟩ := (mem_references_iff wf.size_le).1 hr
    obtain ⟨found', target'⟩ := (mem_references_iff wf.size_le).1 hr'
    obtain ⟨index, kind, owner, pair, newName⟩ := r
    obtain ⟨index', kind', owner', pair', newName'⟩ := r'
    cases same
    rw [found] at found'
    cases found'
    rw [target] at target'
    cases target'
    rfl

/-- What renaming a class makes of its members, of its references and of its enclosing method. The
references are changed when the names of the members are there already, and before the enclosing
method gets its name, so the pool has grown when the owner of that method is looked at. -/
theorem rename_spec (wf : c.WellFormed) (h : c.rename store plan = .ok renamed) :
    (∀ kind, renamed.file.symbolsOf kind = (c.symbolsOf kind).map (plan.finalSymbol store)) ∧
    (∃ p q, Grown c.pool p ∧ p.KeepsNames q ∧ Grown q renamed.file.pool ∧
      (∀ r ∈ references store plan c, Repointed p q r) ∧
      ∀ index c', (∀ r ∈ references store plan c, index ≠ r.index) → p.get? index = some c' →
        q.get? index = some c') ∧
    ∃ p, c.pool.KeepsNames p ∧ ∀ (k : Nat) (a : Attribute) (r : MemberRef),
      c.attributes[k]? = some a → c.pool.enclosing? a = some r →
      (renamed.file.attributes[k]?).bind (fun a => renamed.file.pool.enclosing? a) =
        some { r with name := linkName store plan { c with pool := p } r } := by
  obtain ⟨fields, methods, attributes, p₁, p₂, p₃, u, first, second, third, last, isFields,
    isMethods, isAttributes, -⟩ := rename_eq_ok h
  obtain ⟨grown₁, declaredFields⟩ := mapM_declaration_spec
    (fun m hm => wf.fields m (Array.mem_toList_iff.1 hm)) (.refl _) wf.size_le first
  obtain ⟨grown₂, declaredMethods⟩ := mapM_declaration_spec
    (fun m hm => wf.methods m (Array.mem_toList_iff.1 hm)) grown₁.extends'.keepsNames
    grown₁.size_le second
  have grown := grown₁.trans grown₂
  obtain ⟨keeps₃, size₃, repointed, elsewhere⟩ := forM_references_spec wf grown third
  obtain ⟨grown₄, enclosed⟩ := mapM_enclosing_spec (c := { c with pool := p₃ })
    wf.get?_zero (grown.extends'.keepsNames.trans keeps₃) (.refl _) size₃ last
  have keeps := keeps₃.trans grown₄.extends'.keepsNames
  refine ⟨fun kind => ?_, ⟨p₂, p₃, grown, keeps₃, grown₄, repointed, elsewhere⟩,
    p₃, grown.extends'.keepsNames.trans keeps₃, ?_⟩
  · cases kind with
    | «class» => rfl
    | field =>
      rw [symbolsOf, symbolsOf, membersOf, membersOf, isFields, List.map_map, List.map_map]
      exact declaredFields _ (grown₂.extends'.keepsNames.trans keeps)
    | method =>
      rw [symbolsOf, symbolsOf, membersOf, membersOf, isMethods, List.map_map, List.map_map]
      exact declaredMethods _ keeps
  · intro k a r mem found
    rw [isAttributes, List.getElem?_map, Option.bind_map]
    exact enclosed k a r mem found

/-- The members have their final symbols, in the same order. -/
theorem symbolsOf_rename (wf : c.WellFormed) (h : c.rename store plan = .ok renamed)
    (kind : SymbolKind) :
    renamed.file.symbolsOf kind = (c.symbolsOf kind).map (plan.finalSymbol store) :=
  (rename_spec wf h).1 kind

/-- A reference gets its final name, if its owner counts as renamed no less and no more when the
pool has grown. -/
theorem linked?_rename_of_isRenamedOwner_eq (wf : c.WellFormed)
    (h : c.rename store plan = .ok renamed) {l : Link} {r : MemberRef}
    (found : c.linked? l = some r)
    (same : ∀ p, c.pool.KeepsNames p →
      isRenamedOwner plan { c with pool := p } r.owner = isRenamedOwner plan c r.owner) :
    renamed.file.linked? l = some { r with name := linkName store plan c r } := by
  obtain ⟨-, ⟨p, q, grown, keeps', grown', repointed, elsewhere⟩, p', keeps'', enclosed⟩ :=
    rename_spec wf h
  have keeps := grown.extends'.keepsNames.trans keeps'
  cases l with
  | enclosing position =>
    simp only [linked?, Option.bind_eq_bind, Option.bind_eq_some_iff] at found
    obtain ⟨a, mem, found⟩ := found
    rw [← linkName_congr (same p' keeps'')]
    exact enclosed position a r mem found
  | entry index =>
    obtain ⟨owner, pair, here, foundOwner, foundPair⟩ := Pool.memberRef?_eq_some_iff.1 found
    have target := referenceTarget?_eq store plan foundOwner foundPair
    rw [linked?, Pool.memberRef?_eq_some_iff, linkName]
    rcases moves : linkTarget? store plan c r with _ | newName
    · have kept : q.get? index = some (.memberRef r.kind owner pair) := by
        refine elsewhere index _ (fun r' hr' same => ?_) (grown.extends' _ _ here)
        obtain ⟨found', target'⟩ := (mem_references_iff wf.size_le).1 hr'
        rw [← same, here] at found'
        obtain ⟨kind, owner', pair'⟩ := Constant.memberRef.inj (Option.some.inj found')
        rw [← kind, ← owner', ← pair', target, moves] at target'
        cases target'
      exact ⟨owner, pair, grown'.extends' _ _ kept,
        grown'.extends'.keepsNames.className? (keeps.className? foundOwner),
        grown'.extends'.keepsNames.nameAndType? (keeps.nameAndType? foundPair)⟩
    · obtain ⟨pair', place, named⟩ := repointed ⟨index, r.kind, owner, pair, newName⟩
        ((mem_references_iff wf.size_le).2 ⟨here, target.trans moves⟩)
      have foundPair' := named _ _ (grown.extends'.keepsNames.nameAndType? foundPair)
      exact ⟨owner, pair', grown'.extends' _ _ place,
        grown'.extends'.keepsNames.className? (keeps.className? foundOwner),
        grown'.extends'.keepsNames.nameAndType? foundPair'⟩

/-- A reference to a member of a class of the archive has the final name of the member. -/
theorem linked?_rename (wf : c.WellFormed) (h : c.rename store plan = .ok renamed) {l : Link}
    {r : MemberRef} (found : c.linked? l = some r)
    (archive : plan.classes.contains r.owner = true) :
    renamed.file.linked? l = some { r with name := plan.finalName store r.symbol } := by
  have renames (c : ClassFile) : isRenamedOwner plan c r.owner = true := by
    rw [isRenamedOwner, archive, Bool.or_true]
  rw [linked?_rename_of_isRenamedOwner_eq wf h found fun p _ => by rw [renames, renames],
    linkName_eq, if_pos (renames c)]

end ClassFile

end Clarify
