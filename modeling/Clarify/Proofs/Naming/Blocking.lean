import Clarify.Proofs.Naming.Settled
import Clarify.Proofs.Naming.Unchanged
import Mathlib.Data.List.Forall2

/-!
# What a plan blocks

A rename is blocked if the new name is not valid, and when a class comes up in which another member
ends with the same symbol. Where no new name is an old one, a member that has its new name keeps it.
So going through the members under their final names, in the same order, blocks the same again: each
of them ends where it ended before. Where a member has gone, this need not be so, since it can have
been the one that a rename collided with.

Results:
* `contains_blockClass_iff`: what going through a class blocks.
* `movable_build`: what a plan blocks would get another name.
* `contains_blocked_build`: a plan for members under their final names blocks what the first one
  did.
-/

namespace Clarify

/-- No new name is itself an old one. -/
def Mapping.Apart (m : Mapping) : Prop :=
  ∀ old newName, m.resolve? old = some newName → m.resolve? newName = none

namespace Plan

variable {store : Mapping} {p q : Plan} {d e : Draft} {s : Symbol} {className : String}

/-! ## Single steps -/

/-- A row of steps blocks what one of them blocks. -/
theorem contains_foldl_iff {α : Type} {step : Draft → α → Draft} (blocks : α → Symbol → Prop)
    (each : ∀ x d s, (step d x).plan.blocked.contains s = true ↔
      d.plan.blocked.contains s = true ∨ blocks x s) (row : List α) (d : Draft) (s : Symbol) :
    (row.foldl step d).plan.blocked.contains s = true ↔
      d.plan.blocked.contains s = true ∨ ∃ x ∈ row, blocks x s := by
  induction row generalizing d with
  | nil => simp
  | cons x row ih =>
    rw [List.foldl_cons, ih, each, or_assoc, List.exists_mem_cons_iff]

/-- The new name of a member is not valid. -/
def IsInvalid (store : Mapping) (s : Symbol) : Prop :=
  Name.isSpecial s = false ∧
    ∃ newName, store.resolve? s.name = some newName ∧ Name.isValid newName = false

theorem contains_blockInvalid_iff (x : Symbol) (d : Draft) (s : Symbol) :
    (blockInvalid store className d x).plan.blocked.contains s = true ↔
      d.plan.blocked.contains s = true ∨ x = s ∧ IsInvalid store s := by
  unfold blockInvalid IsInvalid
  by_cases special : Name.isSpecial x = true
  · rw [if_pos special]
    refine ⟨.inl, fun h => h.resolve_right ?_⟩
    rintro ⟨rfl, other, -⟩
    rw [special] at other
    cases other
  rw [if_neg special]
  rcases resolved : store.resolve? x.name with _ | newName
  · refine ⟨.inl, fun h => h.resolve_right ?_⟩
    rintro ⟨rfl, -, newName, other, -⟩
    rw [resolved] at other
    cases other
  · by_cases valid : Name.isValid newName = true
    · dsimp only
      rw [if_pos valid]
      refine ⟨.inl, fun h => h.resolve_right ?_⟩
      rintro ⟨rfl, -, newName', other, invalid⟩
      rw [resolved] at other
      cases other
      rw [valid] at invalid
      cases invalid
    · dsimp only
      rw [if_neg valid, contains_block]
      refine or_congr_right ⟨?_, And.left⟩
      rintro rfl
      exact ⟨rfl, Bool.eq_false_iff.2 special, newName, resolved, Bool.eq_false_iff.2 valid⟩

theorem contains_blockGroup_iff (group : Symbol × List Symbol) (d : Draft) (s : Symbol) :
    (blockGroup className d group).plan.blocked.contains s = true ↔
      d.plan.blocked.contains s = true ∨
        2 ≤ group.2.length ∧ s ∈ group.2 ∧ s.name ≠ group.1.name := by
  unfold blockGroup
  split
  · next few => exact ⟨.inl, fun h => h.resolve_right fun more => by omega⟩
  · next many =>
    rw [contains_foldl_iff (fun x s => x = s ∧ s.name ≠ group.1.name) fun x d s => ?_]
    · refine or_congr_right ⟨?_, fun h => ⟨s, h.2.1, rfl, h.2.2⟩⟩
      rintro ⟨x, mem, rfl, ne⟩
      exact ⟨Nat.le_of_not_lt many, mem, ne⟩
    · split
      · next same =>
        refine ⟨.inl, fun h => h.resolve_right ?_⟩
        rintro ⟨rfl, ne⟩
        exact ne same
      · next ne =>
        rw [contains_block]
        refine or_congr_right ⟨?_, And.left⟩
        rintro rfl
        exact ⟨rfl, ne⟩

/-- A member would get another name and share it with another member. -/
def Collides (store : Mapping) (p : Plan) (members : List Symbol) (s : Symbol) : Prop :=
  s ∈ members ∧ p.finalName store s ≠ s.name ∧
    2 ≤ members.countP fun t => p.finalSymbol store t = p.finalSymbol store s

/-- Going through a class blocks the members that collide. -/
theorem contains_blockClass_iff (survey : Survey) (d : Draft) (s : Symbol) :
    (blockClass store d survey).plan.blocked.contains s = true ↔
      d.plan.blocked.contains s = true ∨ Collides store d.plan survey.members s := by
  rw [blockClass, contains_foldl_iff _ contains_blockGroup_iff, Collides,
    List.countP_eq_length_filter]
  refine or_congr_right ⟨?_, fun h => ?_⟩
  · rintro ⟨⟨key, group⟩, mem, two, inside, ne⟩
    rw [mem_groups _ _ mem] at two inside
    obtain ⟨member, final⟩ := List.mem_filter.1 inside
    obtain rfl := of_decide_eq_true final
    exact ⟨member, Ne.symm ne, two⟩
  · obtain ⟨mem, moves, two⟩ := h
    exact ⟨_, exists_group _ _ mem, two, List.mem_filter.2 ⟨mem, decide_eq_true rfl⟩,
      Ne.symm moves⟩

/-! ## What is blocked would move -/

/-- What the plan blocks would get another name. -/
def Movable (store : Mapping) (p : Plan) : Prop :=
  ∀ s, p.blocked.contains s = true →
    Name.isSpecial s = false ∧ ∃ newName, store.resolve? s.name = some newName

/-- A member that does not end with its own name would get another one. -/
theorem resolve?_of_finalName_ne (ne : p.finalName store s ≠ s.name) :
    Name.isSpecial s = false ∧ ∃ newName, store.resolve? s.name = some newName := by
  rcases moves : p.target? store s with _ | newName
  · exact absurd (Rename.finalName_of_target?_eq_none moves) ne
  · obtain ⟨special, -, resolved, -⟩ := target?_eq_some_iff.1 moves
    exact ⟨special, newName, resolved⟩

theorem movable_blockInvalid (h : d.plan.Movable store) (x : Symbol) :
    (blockInvalid store className d x).plan.Movable store := by
  intro s blocked
  obtain old | ⟨rfl, special, newName, resolved, -⟩ := (contains_blockInvalid_iff x d s).1 blocked
  · exact h s old
  · exact ⟨special, newName, resolved⟩

theorem movable_blockRound (h : d.plan.Movable store) (surveys : List Survey) :
    (blockRound surveys store d).plan.Movable store := by
  refine List.foldlRecOn (motive := fun d : Draft => d.plan.Movable store) surveys _ h
    fun d h survey _ s blocked => ?_
  obtain old | ⟨-, moves, -⟩ := (contains_blockClass_iff survey d s).1 blocked
  · exact h s old
  · exact resolve?_of_finalName_ne moves

theorem movable_settle (h : d.plan.Movable store) (surveys : List Survey) :
    (settle surveys store d).plan.Movable store := by
  induction d using settle.induct surveys store with
  | case1 d next fewer ih =>
    rw [settle, if_pos fewer]
    exact ih (movable_blockRound h surveys)
  | case2 d next notFewer =>
    rw [settle, if_neg notFewer]
    exact movable_blockRound h surveys

/-- What a plan blocks would get another name. -/
theorem movable_build (surveys : List Survey) (store : Mapping) :
    (build surveys store).1.Movable store := by
  refine movable_settle ?_ surveys
  refine List.foldlRecOn (motive := fun d : Draft => d.plan.Movable store) surveys _ ?_
    fun d h survey _ => ?_
  · intro s blocked
    simp at blocked
  · exact List.foldlRecOn (motive := fun d : Draft => d.plan.Movable store) survey.members _ h
      fun d h s _ => movable_blockInvalid h s

/-- The first plan keeps a member from its new name, and the second one does not. -/
def Frees (p q : Plan) (s : Symbol) : Prop :=
  p.blocked.contains s = true ∧ q.blocked.contains s = false

/-! ## Members under their final names -/

/-- The second plan blocks what the first one blocks. -/
def Covers (p q : Plan) : Prop := ∀ s, q.blocked.contains s = true → p.blocked.contains s = true

theorem Covers.trans {r : Plan} (h : p.Covers q) (h' : q.Covers r) : p.Covers r :=
  fun s blocked => h s (h' s blocked)

theorem finalSymbol_of_target?_eq_none (still : p.target? store s = none) :
    p.finalSymbol store s = s := by
  rw [finalSymbol, Rename.finalName_of_target?_eq_none still]

/-- A member has a new name, or none was found for it. -/
theorem finalSymbol_cases (store : Mapping) (p : Plan) (s : Symbol) :
    (∃ old, store.resolve? old = some (p.finalSymbol store s).name) ∨
      p.target? store s = none ∧ p.finalSymbol store s = s := by
  rcases moves : p.target? store s with _ | newName
  · exact .inr ⟨rfl, finalSymbol_of_target?_eq_none moves⟩
  · refine .inl ⟨s.name, ?_⟩
    rw [finalSymbol, Rename.finalName_of_target? moves]
    exact resolve?_of_target? moves

/-- A name that is not to be changed is the final one. -/
theorem finalSymbol_eq_self (none : store.resolve? s.name = none) : p.finalSymbol store s = s := by
  have still : p.target? store s = Option.none := by
    rw [target?, none]
    exact ite_self _
  exact finalSymbol_of_target?_eq_none still

theorem finalSymbol_of_blocked (store : Mapping) (blocked : p.blocked.contains s = true) :
    p.finalSymbol store s = s := by
  have still : p.target? store s = none := by
    rw [target?, blocked, Bool.or_true, if_pos rfl]
  exact finalSymbol_of_target?_eq_none still

section Final

variable (apart : store.Apart)

include apart

/-- Under a plan that blocks no more, a final symbol ends where the symbol itself ends. -/
theorem finalSymbol_finalSymbol (covers : p.Covers q) (s : Symbol) :
    q.finalSymbol store (p.finalSymbol store s) = q.finalSymbol store s := by
  rcases moves : p.target? store s with _ | newName
  · rw [finalSymbol_of_target?_eq_none moves]
  · obtain ⟨special, free, resolved, ne⟩ := target?_eq_some_iff.1 moves
    have free' : q.blocked.contains s = false :=
      Bool.eq_false_iff.2 fun blocked => by rw [covers s blocked] at free; cases free
    have moves' := target?_eq_some_iff.2 ⟨special, free', resolved, ne⟩
    have final : p.finalSymbol store s = q.finalSymbol store s := by
      rw [finalSymbol, finalSymbol, Rename.finalName_of_target? moves,
        Rename.finalName_of_target? moves']
    rw [final]
    refine finalSymbol_eq_self ?_
    rw [finalSymbol, Rename.finalName_of_target? moves']
    exact apart _ _ resolved

/-- A member that has a name to go to has not got its new name yet. -/
theorem mem_of_mem_map_finalSymbol {members : List Symbol}
    (mem : s ∈ members.map (p.finalSymbol store)) {newName : String}
    (resolved : store.resolve? s.name = some newName) : s ∈ members := by
  obtain ⟨t, member, rfl⟩ := List.mem_map.1 mem
  obtain ⟨old, target⟩ | ⟨-, same⟩ := finalSymbol_cases store p t
  · rw [apart _ _ target] at resolved
    cases resolved
  · rwa [same]

/-- Under a plan that blocks no more, the same members collide when they have their final names, as
long as those that collide are blocked in the end. -/
theorem collides_map_finalSymbol_iff (covers : p.Covers q) {members : List Symbol}
    (blocked : ∀ s, Collides store q members s → p.blocked.contains s = true) :
    Collides store q (members.map (p.finalSymbol store)) s ↔ Collides store q members s := by
  have count : (members.map (p.finalSymbol store)).countP
      (fun t => q.finalSymbol store t = q.finalSymbol store s) =
        members.countP fun t => q.finalSymbol store t = q.finalSymbol store s := by
    rw [List.countP_map]
    refine List.countP_congr fun t _ => ?_
    rw [Function.comp_apply, finalSymbol_finalSymbol apart covers]
  constructor
  · rintro ⟨mem, moves, two⟩
    obtain ⟨-, newName, resolved⟩ := resolve?_of_finalName_ne moves
    exact ⟨mem_of_mem_map_finalSymbol apart mem resolved, moves, count ▸ two⟩
  · intro collides
    obtain ⟨mem, moves, two⟩ := collides
    refine ⟨?_, moves, count ▸ two⟩
    rw [← finalSymbol_of_blocked store (blocked s ⟨mem, moves, two⟩)]
    exact List.mem_map_of_mem mem

end Final

/-! ## Planning again -/

/-- The members of the second survey are those of the first one, under the same or their final
names. -/
def Follows (store : Mapping) (p : Plan) (a b : Survey) : Prop :=
  b.members = a.members ∨ b.members = a.members.map (p.finalSymbol store)

/-- Two drafts block the same. -/
def Alike (d e : Draft) : Prop := ∀ s, d.plan.blocked.contains s = e.plan.blocked.contains s

/-- Steps that each block the same make the same of two rows. -/
theorem Alike.foldl {step : Draft → Survey → Draft} {surveys surveys' : List Survey}
    (follows : List.Forall₂ (Follows store p) surveys surveys')
    (keeps : ∀ d a, (step d a).plan.Covers d.plan)
    (each : ∀ {d e a b}, Follows store p a b → Alike d e → p.Covers (step d a).plan →
      Alike (step d a) (step e b))
    (alike : Alike d e) (covers : p.Covers (surveys.foldl step d).plan) :
    Alike (surveys.foldl step d) (surveys'.foldl step e) := by
  induction follows generalizing d e with
  | nil => exact alike
  | @cons a b surveys surveys' first rest ih =>
    have later : (surveys.foldl step (step d a)).plan.Covers (step d a).plan :=
      List.foldlRecOn (motive := fun d' : Draft => d'.plan.Covers (step d a).plan) surveys _
        (fun s blocked => blocked) fun d' h x _ => (keeps d' x).trans h
    exact ih (each first alike (covers.trans later)) covers

theorem Alike.collides_iff (alike : Alike d e) (members : List Symbol) (s : Symbol) :
    Collides store d.plan members s ↔ Collides store e.plan members s := by
  have final (s : Symbol) : d.plan.finalSymbol store s = e.plan.finalSymbol store s :=
    finalSymbol_congr alike s
  have name (s : Symbol) : d.plan.finalName store s = e.plan.finalName store s :=
    congrArg Symbol.name (final s)
  simp only [Collides, final, name]

theorem Alike.openCount_eq (alike : Alike d e) (surveys : List Survey) :
    openCount surveys d = openCount surveys e :=
  List.countP_congr fun s _ => by rw [alike]

section Again

variable {surveys surveys' : List Survey} (apart : store.Apart)

include apart

theorem Alike.blockClass (alike : Alike d e) {a b : Survey} (follows : Follows store p a b)
    (covers : p.Covers (blockClass store d a).plan) :
    Alike (Plan.blockClass store d a) (Plan.blockClass store e b) := by
  have same : ∀ s, Collides store d.plan b.members s ↔ Collides store d.plan a.members s := by
    obtain same | mapped := follows
    · rw [same]
      exact fun s => Iff.rfl
    · rw [mapped]
      refine fun s => collides_map_finalSymbol_iff apart (fun s blocked => covers s ?_)
        fun s collides => covers s ?_
      · exact (contains_blockClass_iff a d s).2 (.inl blocked)
      · exact (contains_blockClass_iff a d s).2 (.inr collides)
  intro s
  rw [Bool.eq_iff_iff, contains_blockClass_iff, contains_blockClass_iff, alike,
    ← alike.collides_iff, same]

theorem Alike.blockRound (alike : Alike d e)
    (follows : List.Forall₂ (Follows store p) surveys surveys')
    (covers : p.Covers (blockRound surveys store d).plan) :
    Alike (Plan.blockRound surveys store d) (Plan.blockRound surveys' store e) :=
  Alike.foldl follows (fun d a s blocked => (contains_blockClass_iff a d s).2 (.inl blocked))
    (fun follows alike covers => alike.blockClass apart follows covers) alike covers

omit apart in
theorem settle_of_lt
    (fewer : openCount surveys (Plan.blockRound surveys store d) < openCount surveys d) :
    Plan.settle surveys store d = Plan.settle surveys store (Plan.blockRound surveys store d) := by
  rw [Plan.settle, if_pos fewer]

omit apart in
theorem settle_of_not_lt
    (notFewer : ¬openCount surveys (Plan.blockRound surveys store d) < openCount surveys d) :
    Plan.settle surveys store d = Plan.blockRound surveys store d := by
  rw [Plan.settle, if_neg notFewer]

/-- Blocking comes to the same end, and each round blocks the same on the way there. -/
theorem Alike.settle (alike : Alike d e) (follows : List.Forall₂ (Follows store p) surveys surveys')
    (covers : p.Covers (settle surveys store d).plan) :
    Alike (Plan.settle surveys store d) (Plan.settle surveys' store e) := by
  revert e
  induction d using settle.induct surveys store with
  | case1 d next fewer ih =>
    intro e alike
    rw [settle_of_lt fewer] at covers ⊢
    have round := alike.blockRound apart follows
      (covers.trans (Grows.settle surveys store _).keeps)
    rw [settle_of_lt (d := e)]
    · exact ih covers round
    · by_contra notFewer
      -- If the second run blocked nothing in the round, neither did the first one.
      have still := contains_eq_of_openCount_le (Grows.blockRound surveys' store e)
        (Nat.le_of_not_lt notFewer)
      have still' : Alike (Plan.blockRound surveys store d) d :=
        fun s => ((round s).trans (still s)).trans (alike s).symm
      exact absurd fewer (still'.openCount_eq surveys ▸ Nat.lt_irrefl _)
  | case2 d next notFewer =>
    intro e alike
    rw [settle_of_not_lt notFewer] at covers ⊢
    have round := alike.blockRound apart follows covers
    have still := contains_eq_of_openCount_le (Grows.blockRound surveys store d)
      (Nat.le_of_not_lt notFewer)
    have still' : Alike (Plan.blockRound surveys' store e) e :=
      fun s => ((round s).symm.trans (still s)).trans (alike s)
    rw [settle_of_not_lt (still'.openCount_eq surveys' ▸ Nat.lt_irrefl _)]
    exact round

omit apart in
theorem contains_blockInvalids_iff (d : Draft) (survey : Survey) (s : Symbol) :
    (survey.members.foldl (blockInvalid store survey.className) d).plan.blocked.contains s = true ↔
      d.plan.blocked.contains s = true ∨ s ∈ survey.members ∧ IsInvalid store s := by
  rw [contains_foldl_iff _ contains_blockInvalid_iff]
  refine or_congr_right ⟨?_, fun h => ⟨s, h.1, rfl, h.2⟩⟩
  rintro ⟨x, mem, rfl, invalid⟩
  exact ⟨mem, invalid⟩

/-- The members with names that are not valid are the same. -/
theorem Alike.blockInvalids (alike : Alike d e) {a b : Survey} (follows : Follows store p a b)
    (covers : p.Covers (a.members.foldl (blockInvalid store a.className) d).plan) :
    Alike (a.members.foldl (blockInvalid store a.className) d)
      (b.members.foldl (blockInvalid store b.className) e) := by
  intro s
  rw [Bool.eq_iff_iff, contains_blockInvalids_iff, contains_blockInvalids_iff, alike]
  refine or_congr_right (and_congr_left fun invalid => ?_)
  obtain same | mapped := follows
  · rw [same]
  · rw [mapped]
    constructor
    · intro mem
      have blocked := covers s ((contains_blockInvalids_iff d a s).2 (.inr ⟨mem, invalid⟩))
      rw [← finalSymbol_of_blocked store blocked]
      exact List.mem_map_of_mem mem
    · intro mem
      obtain ⟨-, newName, resolved, -⟩ := invalid
      exact mem_of_mem_map_finalSymbol apart mem resolved

/-- A plan for members under their final names blocks what the first one did. -/
theorem contains_blocked_build
    (follows : List.Forall₂ (Follows store (build surveys store).1) surveys surveys') (s : Symbol) :
    (build surveys' store).1.blocked.contains s = (build surveys store).1.blocked.contains s := by
  refine (Alike.settle apart (Alike.foldl follows ?_ ?_ ?_ ?_) follows ?_ s).symm
  · exact fun d a s blocked => (contains_blockInvalids_iff d a s).2 (.inl blocked)
  · exact fun follows alike covers => alike.blockInvalids apart follows covers
  · exact fun s => rfl
  · exact (Grows.settle surveys store _).keeps
  · exact fun s blocked => blocked

end Again

end Plan

end Clarify
