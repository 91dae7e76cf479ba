import Clarify.Proofs.Naming.Validity
import Mathlib.Data.List.Nodup
import Mathlib.Logic.Function.Iterate

/-!
# The collision guard

A blocked rename gives a name back in every class, where it can collide with another one. So the
classes are gone through again until a round blocks nothing. Each round before blocks one more
declaration at least, which bounds the number of rounds, and a round that blocks nothing leaves the
plan as it is. Whenever something is blocked, the collision is noted.

Results:
* `blockRound_eq_self`: a round that blocks nothing changes nothing.
* `exists_iterate_settle`: blocking comes to an end after as many rounds as there are declarations,
  or earlier.
* `build_induction`: what blocking a member keeps, planning keeps.
* `settles_build`: what holds of every plan that is built.
-/

namespace Clarify.Plan

variable {surveys : List Survey} {store : Mapping} {d : Draft} {className : String}

/-! ## Rounds that block nothing -/

theorem covers_block (d : Draft) (c : Collision) : (d.block c).plan.Covers d.plan :=
  fun s blocked => (contains_block d c s).2 (.inl blocked)

theorem block_eq_self {c : Collision} (same : d.plan.Covers (d.block c).plan) : d.block c = d := by
  have blocked := same c.member ((contains_block d c _).2 (.inr rfl))
  rw [Draft.block, if_pos blocked]

/-- A row of steps that blocks nothing changes nothing, if this holds of each step. -/
theorem foldl_eq_self {α : Type} {step : Draft → α → Draft}
    (keeps : ∀ d x, (step d x).plan.Covers d.plan)
    (still : ∀ d x, d.plan.Covers (step d x).plan → step d x = d) {row : List α}
    (same : d.plan.Covers (row.foldl step d).plan) : row.foldl step d = d := by
  induction row with
  | nil => rfl
  | cons x row ih =>
    rw [List.foldl_cons] at same ⊢
    have later : (row.foldl step (step d x)).plan.Covers (step d x).plan :=
      List.foldlRecOn (motive := fun e : Draft => e.plan.Covers (step d x).plan) row _
        (fun s blocked => blocked) fun e covers y _ => (keeps e y).trans covers
    have first := still d x (same.trans later)
    rw [first] at same ⊢
    exact ih same

theorem covers_blockGroup (d : Draft) (group : Symbol × List Symbol) :
    (blockGroup className d group).plan.Covers d.plan :=
  fun s blocked => (contains_blockGroup_iff group d s).2 (.inl blocked)

theorem blockGroup_eq_self {group : Symbol × List Symbol}
    (same : d.plan.Covers (blockGroup className d group).plan) :
    blockGroup className d group = d := by
  unfold blockGroup at same ⊢
  split at same
  · next few => rw [if_pos few]
  · next many =>
    rw [if_neg many]
    refine foldl_eq_self (fun d s => ?_) (fun d s => ?_) same
    · split
      · exact fun t blocked => blocked
      · exact covers_block d _
    · split
      · exact fun _ => rfl
      · exact block_eq_self

theorem covers_blockClass (d : Draft) (survey : Survey) :
    (blockClass store d survey).plan.Covers d.plan :=
  fun s blocked => (contains_blockClass_iff survey d s).2 (.inl blocked)

theorem blockClass_eq_self {survey : Survey}
    (same : d.plan.Covers (blockClass store d survey).plan) : blockClass store d survey = d :=
  foldl_eq_self covers_blockGroup (fun _ _ => blockGroup_eq_self) same

/-- A round that blocks nothing changes nothing. -/
theorem blockRound_eq_self (same : d.plan.Covers (blockRound surveys store d).plan) :
    blockRound surveys store d = d :=
  foldl_eq_self covers_blockClass (fun _ _ => blockClass_eq_self) same

/-! ## The end of the rounds -/

/-- Each round but the last one blocks something, and the last one changes nothing. -/
theorem exists_iterate_settle (surveys : List Survey) (store : Mapping) (d : Draft) :
    ∃ n, n + openCount surveys (settle surveys store d) ≤ openCount surveys d ∧
      settle surveys store d = (blockRound surveys store)^[n] d ∧
      blockRound surveys store (settle surveys store d) = settle surveys store d := by
  induction d using settle.induct surveys store with
  | case1 d next fewer ih =>
    obtain ⟨n, bound, rounds, still⟩ := ih
    rw [settle_of_lt fewer]
    refine ⟨n + 1, ?_, ?_, still⟩
    · rw [Nat.add_right_comm]
      exact Nat.lt_of_le_of_lt bound fewer
    · rw [Function.iterate_succ_apply]
      exact rounds
  | case2 d next notFewer =>
    have same := contains_eq_of_openCount_le (Grows.blockRound surveys store d)
      (Nat.le_of_not_lt notFewer)
    have still := blockRound_eq_self fun s blocked => (same s).symm.trans blocked
    rw [settle_of_not_lt notFewer, still]
    exact ⟨0, Nat.le_of_eq (Nat.zero_add _), rfl, still⟩

/-- A plan as it stands before the first round: the renames to names that are not valid are
blocked. -/
def opened (surveys : List Survey) (store : Mapping) : Draft :=
  surveys.foldl (fun d survey => survey.members.foldl (blockInvalid store survey.className) d)
    { plan := { classes := Std.TreeSet.ofList (surveys.map Survey.className), blocked := ∅ }
      collisions := [] }

theorem build_eq (surveys : List Survey) (store : Mapping) :
    build surveys store = ((settle surveys store (opened surveys store)).plan,
      (settle surveys store (opened surveys store)).collisions.reverse) := rfl

/-! ## What planning keeps -/

/-- What blocking a member keeps, planning keeps. -/
theorem build_induction {motive : Draft → Prop}
    (start : ∀ classes, motive { plan := { classes, blocked := ∅ }, collisions := [] })
    (block : ∀ d c, motive d → motive (d.block c)) (surveys : List Survey) (store : Mapping) :
    motive (settle surveys store (opened surveys store)) := by
  have invalid (className : String) (d : Draft) (s : Symbol) (h : motive d) :
      motive (blockInvalid store className d s) := by
    unfold blockInvalid
    split
    · exact h
    · split
      · split
        · exact h
        · exact block _ _ h
      · exact h
  have group (className : String) (d : Draft) (group : Symbol × List Symbol) (h : motive d) :
      motive (blockGroup className d group) := by
    unfold blockGroup
    split
    · exact h
    · refine List.foldlRecOn group.2 _ h fun d h s _ => ?_
      split
      · exact h
      · exact block _ _ h
  have round (d : Draft) (h : motive d) : motive (blockRound surveys store d) :=
    List.foldlRecOn surveys _ h fun d h survey _ =>
      List.foldlRecOn _ _ h fun d h x _ => group survey.className d x h
  have opening : motive (opened surveys store) :=
    List.foldlRecOn surveys _ (start _) fun d h survey _ =>
      List.foldlRecOn survey.members _ h fun d h s _ => invalid survey.className d s h
  obtain ⟨n, -, rounds, -⟩ := exists_iterate_settle surveys store (opened surveys store)
  rw [rounds]
  exact Function.Iterate.rec motive opening round n

/-- The collisions that are noted list what is blocked, each member once. -/
def Draft.Listed (d : Draft) : Prop :=
  (d.collisions.map Collision.member).Nodup ∧
    ∀ s, s ∈ d.collisions.map Collision.member ↔ d.plan.blocked.contains s = true

theorem Draft.Listed.block (h : d.Listed) (c : Collision) : (d.block c).Listed := by
  obtain ⟨nodup, listed⟩ := h
  unfold Draft.block
  split
  · exact ⟨nodup, listed⟩
  · next free =>
    refine ⟨List.nodup_cons.2 ⟨fun mem => free ((listed _).1 mem), nodup⟩, fun s => ?_⟩
    rw [List.map_cons, List.mem_cons, listed, Std.TreeSet.contains_insert, Bool.or_eq_true,
      beq_iff_eq, Std.compare_eq_iff_eq, eq_comm]

theorem listed_settle (surveys : List Survey) (store : Mapping) :
    (settle surveys store (opened surveys store)).Listed :=
  build_induction (fun _ => ⟨List.nodup_nil, fun s => by simp⟩) (fun _ c h => h.block c) surveys
    store

/-! ## Every plan -/

/-- The rounds of blocking come to an end. Then members of a class that end with the same symbol had
the same name before, no declared member gets a name that is not valid, only declared members are
blocked that are not special and would get another name, and the collisions list each of them
once. -/
theorem settles_build (surveys : List Survey) (store : Mapping) :
    (∃ n ≤ (surveys.flatMap Survey.members).length, ∃ last : Draft,
      last = (blockRound surveys store)^[n] (opened surveys store) ∧
      blockRound surveys store last = last ∧
      build surveys store = (last.plan, last.collisions.reverse)) ∧
    (∀ survey ∈ surveys, ∀ s ∈ survey.members, ∀ t ∈ survey.members, s.kind = t.kind →
      s.descriptor = t.descriptor →
      (build surveys store).1.finalName store s = (build surveys store).1.finalName store t →
      s.name = t.name) ∧
    (∀ survey ∈ surveys, ∀ s ∈ survey.members, ∀ newName, Name.isSpecial s = false →
      store.resolve? s.name = some newName → Name.isValid newName = false →
      (build surveys store).1.target? store s = none) ∧
    (∀ s, (build surveys store).1.blocked.contains s = true → Name.isSpecial s = false ∧
      (∃ survey ∈ surveys, s ∈ survey.members) ∧
      ∃ newName, store.resolve? s.name = some newName) ∧
    ((build surveys store).2.map Collision.member).Nodup ∧
    ∀ s, s ∈ (build surveys store).2.map Collision.member ↔
      (build surveys store).1.blocked.contains s = true := by
  obtain ⟨n, bound, rounds, still⟩ := exists_iterate_settle surveys store (opened surveys store)
  obtain ⟨nodup, listed⟩ := listed_settle surveys store
  refine ⟨⟨n, ?_, _, rounds, still, build_eq surveys store⟩, ?_, ?_, ?_, ?_, ?_⟩
  · have most : openCount surveys (opened surveys store) ≤ _ := List.countP_le_length
    omega
  · intro survey known s hs t ht kind descriptor name
    have final : (build surveys store).1.finalSymbol store s =
        (build surveys store).1.finalSymbol store t :=
      Symbol.mk.injEq .. ▸ ⟨kind, name, descriptor⟩
    exact congrArg Symbol.name (settled_build surveys store survey known s hs t ht final)
  · intro survey known s hs newName special resolved invalid
    have blocked := blocked_of_isInvalid known hs ⟨special, newName, resolved, invalid⟩
    rw [target?, blocked, Bool.or_true, if_pos rfl]
  · intro s blocked
    obtain ⟨special, moves⟩ := movable_build surveys store s blocked
    exact ⟨special, exists_survey_of_blocked blocked, moves⟩
  · rw [build_eq, List.map_reverse]
    exact List.nodup_reverse.2 nodup
  · intro s
    rw [build_eq, List.map_reverse, List.mem_reverse]
    exact listed s

end Clarify.Plan
