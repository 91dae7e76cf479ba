import Clarify.Naming.Plan
import Mathlib.Tactic.ByContra

/-!
# Settled plans

Blocking goes on until a round blocks nothing. Then no two members of one class end with the same
symbol, unless they had the same symbol before.

Results:
* `getD_groups`: the group of a symbol holds the members that end with it.
* `settled_settle`: at the end a round would block nothing.
* `Settled.finalSymbol_inj`: final symbols tell the members of a class apart.
-/

namespace Clarify.Plan

/-! ## Groups -/

section Groups

variable (p : Plan) (store : Mapping)

theorem getD_groups (members : List Symbol) (key : Symbol) :
    ((groups p store members)[key]?).getD [] =
      members.filter fun s => p.finalSymbol store s = key := by
  induction members with
  | nil => simp [groups]
  | cons s members ih =>
    rw [groups] at ih
    rw [groups, List.foldr_cons, Std.TreeMap.getElem?_insert, List.filter_cons]
    simp only [Std.compare_eq_iff_eq]
    by_cases here : p.finalSymbol store s = key
    · subst here
      simp [ih]
    · simp [here, ih]

/-- The group of a symbol holds the members that end with it. -/
theorem mem_groups {members group : List Symbol} {key : Symbol}
    (h : (key, group) ∈ (groups p store members).toList) :
    group = members.filter fun s => p.finalSymbol store s = key := by
  rw [Std.TreeMap.mem_toList_iff_getElem?_eq_some] at h
  rw [← getD_groups, h]
  rfl

theorem exists_group {members : List Symbol} {s : Symbol} (hs : s ∈ members) :
    (p.finalSymbol store s, members.filter fun t => p.finalSymbol store t = p.finalSymbol store s) ∈
      (groups p store members).toList := by
  have group := getD_groups p store members (p.finalSymbol store s)
  rw [Std.TreeMap.mem_toList_iff_getElem?_eq_some]
  rcases found : (groups p store members)[p.finalSymbol store s]? with _ | l
  · rw [found, Option.getD_none] at group
    have mem : s ∈ members.filter fun t => p.finalSymbol store t = p.finalSymbol store s := by
      simp [hs]
    rw [← group] at mem
    cases mem
  · rw [found, Option.getD_some] at group
    rw [group]

end Groups

/-! ## What blocking does -/

theorem contains_block (d : Draft) (c : Collision) (s : Symbol) :
    (d.block c).plan.blocked.contains s = true ↔
      d.plan.blocked.contains s = true ∨ c.member = s := by
  unfold Draft.block
  split
  · next already =>
    refine ⟨.inl, ?_⟩
    rintro (h | rfl)
    · exact h
    · exact already
  · simp only [Std.TreeSet.contains_insert, Bool.or_eq_true, beq_iff_eq, Std.compare_eq_iff_eq]
    exact or_comm

theorem classes_block (d : Draft) (c : Collision) : (d.block c).plan.classes = d.plan.classes := by
  unfold Draft.block
  split <;> rfl

/-- A later draft, which blocks some more of the given members. -/
structure Grows (declared : List Symbol) (d e : Draft) : Prop where
  classes : e.plan.classes = d.plan.classes
  keeps : ∀ s, d.plan.blocked.contains s = true → e.plan.blocked.contains s = true
  declared : ∀ s, e.plan.blocked.contains s = true →
    d.plan.blocked.contains s = true ∨ s ∈ declared

namespace Grows

variable {declared : List Symbol} {d e f : Draft}

theorem refl (declared : List Symbol) (d : Draft) : Grows declared d d :=
  ⟨rfl, fun _ h => h, fun _ h => .inl h⟩

theorem trans (h : Grows declared d e) (h' : Grows declared e f) : Grows declared d f where
  classes := h'.classes.trans h.classes
  keeps s mem := h'.keeps s (h.keeps s mem)
  declared s mem := (h'.declared s mem).elim (h.declared s) .inr

theorem block (d : Draft) {c : Collision} (h : c.member ∈ declared) :
    Grows declared d (d.block c) where
  classes := classes_block d c
  keeps s mem := (contains_block d c s).2 (.inl mem)
  declared s mem := by
    obtain mem | rfl := (contains_block d c s).1 mem
    · exact .inl mem
    · exact .inr h

/-- A row of steps that each block some more. -/
theorem foldl {α : Type} {step : Draft → α → Draft} {row : List α}
    (h : ∀ x ∈ row, ∀ d, Grows declared d (step d x)) (d : Draft) :
    Grows declared d (row.foldl step d) := by
  induction row generalizing d with
  | nil => exact .refl declared d
  | cons x row ih =>
    exact (h x (by simp) d).trans (ih (fun y hy => h y (by simp [hy])) _)

theorem blockGroup (className : String) (d : Draft) {group : Symbol × List Symbol}
    (h : ∀ s ∈ group.2, s ∈ declared) : Grows declared d (blockGroup className d group) := by
  unfold Plan.blockGroup
  split
  · exact .refl declared d
  · refine .foldl (fun s hs d => ?_) d
    split
    · exact .refl declared d
    · exact .block d (h s hs)

theorem blockClass (store : Mapping) (d : Draft) {survey : Survey}
    (h : ∀ s ∈ survey.members, s ∈ declared) :
    Grows declared d (blockClass store d survey) := by
  refine .foldl (fun group mem d => .blockGroup _ d fun s hs => h s ?_) d
  rw [mem_groups _ store mem] at hs
  exact (List.mem_filter.1 hs).1

theorem blockInvalid (store : Mapping) (className : String) (d : Draft) {s : Symbol}
    (h : s ∈ declared) : Grows declared d (blockInvalid store className d s) := by
  unfold Plan.blockInvalid
  split
  · exact .refl declared d
  · split
    · split
      · exact .refl declared d
      · exact .block d h
    · exact .refl declared d

theorem blockRound (surveys : List Survey) (store : Mapping) (d : Draft) :
    Grows (surveys.flatMap Survey.members) d (blockRound surveys store d) := by
  refine .foldl (fun survey mem d => ?_) d
  exact .blockClass store d fun s hs => List.mem_flatMap.2 ⟨survey, mem, hs⟩

end Grows

/-! ## The end of blocking -/

/-- No two members of one class end with one symbol, unless they had it before. -/
def Settled (surveys : List Survey) (store : Mapping) (p : Plan) : Prop :=
  ∀ survey ∈ surveys, ∀ s ∈ survey.members, ∀ t ∈ survey.members,
    p.finalSymbol store s = p.finalSymbol store t → s = t

section Equal

variable {p q : Plan} {store : Mapping}

theorem target?_congr (h : ∀ s, p.blocked.contains s = q.blocked.contains s) (s : Symbol) :
    p.target? store s = q.target? store s := by
  rw [target?, target?, h]

theorem finalSymbol_congr (h : ∀ s, p.blocked.contains s = q.blocked.contains s) (s : Symbol) :
    p.finalSymbol store s = q.finalSymbol store s := by
  rw [finalSymbol, finalSymbol, finalName, finalName, target?_congr h]

/-- A member with another final name is not blocked. -/
theorem not_blocked_of_ne {s : Symbol} (h : p.finalName store s ≠ s.name) :
    p.blocked.contains s = false := by
  rw [← Bool.not_eq_true]
  intro blocked
  refine h ?_
  rw [finalName, target?, blocked, Bool.or_true, if_pos rfl]
  rfl

end Equal

/-- Of a group of two or more, the members that would get another name are blocked. -/
theorem blocked_of_blockGroup {className : String} {d : Draft} {group : Symbol × List Symbol}
    (two : 2 ≤ group.2.length) {s : Symbol} (hs : s ∈ group.2) (ne : s.name ≠ group.1.name) :
    (blockGroup className d group).plan.blocked.contains s = true := by
  rw [blockGroup, if_neg (by omega)]
  generalize group.2 = row at hs
  induction row generalizing d with
  | nil => cases hs
  | cons t row ih =>
    rw [List.foldl_cons]
    obtain rfl | hs := List.mem_cons.1 hs
    · rw [if_neg ne]
      have grows (d : Draft) : Grows row d (row.foldl (fun d s => if s.name = group.1.name then d
          else d.block { className, member := s, newName := group.1.name }) d) := by
        refine .foldl (fun u hu d => ?_) d
        split
        · exact .refl row d
        · exact .block d hu
      exact (grows _).keeps s ((contains_block d _ s).2 (.inr rfl))
    · exact ih hs

theorem two_le_length_of_ne {α : Type} {row : List α} {x y : α} (hx : x ∈ row) (hy : y ∈ row)
    (ne : x ≠ y) : 2 ≤ row.length := by
  match row with
  | [] => cases hx
  | [z] => exact absurd ((List.mem_singleton.1 hx).trans (List.mem_singleton.1 hy).symm) ne
  | _ :: _ :: rest => exact Nat.le_add_left 2 rest.length

/-- Once a class was gone through, the members that share a final symbol and would get it are
blocked. -/
theorem blocked_of_blockClass {store : Mapping} {d : Draft} {survey : Survey} {s t : Symbol}
    (hs : s ∈ survey.members) (ht : t ∈ survey.members) (ne : s ≠ t)
    (eq : d.plan.finalSymbol store t = d.plan.finalSymbol store s)
    (moves : d.plan.finalName store s ≠ s.name) :
    (blockClass store d survey).plan.blocked.contains s = true := by
  have group := exists_group d.plan store hs
  obtain ⟨before, behind, split⟩ := List.append_of_mem group
  have mem {u : Symbol} (hu : u ∈ survey.members)
      (eq : d.plan.finalSymbol store u = d.plan.finalSymbol store s) :
      u ∈ survey.members.filter fun t => d.plan.finalSymbol store t = d.plan.finalSymbol store s :=
    List.mem_filter.2 ⟨hu, decide_eq_true eq⟩
  have two := two_le_length_of_ne (mem hs rfl) (mem ht eq) ne
  rw [blockClass, split, List.foldl_append, List.foldl_cons]
  have grows (e : Draft) :
      Grows survey.members e (behind.foldl (blockGroup survey.className) e) := by
    refine .foldl (fun group' hgroup' e => ?_) e
    have mem' : (group'.1, group'.2) ∈ (groups d.plan store survey.members).toList := by
      rw [split]
      exact List.mem_append_right before (List.mem_cons_of_mem _ hgroup')
    refine .blockGroup _ e fun u hu => ?_
    rw [mem_groups d.plan store mem'] at hu
    exact (List.mem_filter.1 hu).1
  exact (grows _).keeps s (blocked_of_blockGroup two (mem hs rfl) (Ne.symm moves))

/-- A class that blocks nothing has no two members that would end with one symbol. -/
theorem finalSymbol_inj_of_blockClass {store : Mapping} {d : Draft} {survey : Survey}
    (same : ∀ s, (blockClass store d survey).plan.blocked.contains s = d.plan.blocked.contains s)
    {s t : Symbol} (hs : s ∈ survey.members) (ht : t ∈ survey.members)
    (eq : d.plan.finalSymbol store s = d.plan.finalSymbol store t) : s = t := by
  by_contra ne
  have stays {s t : Symbol} (hs : s ∈ survey.members) (ht : t ∈ survey.members) (ne : s ≠ t)
      (eq : d.plan.finalSymbol store t = d.plan.finalSymbol store s) :
      d.plan.finalName store s = s.name := by
    by_contra moves
    have blocked := blocked_of_blockClass hs ht ne eq moves
    rw [same, not_blocked_of_ne moves] at blocked
    cases blocked
  have sName := stays hs ht ne eq.symm
  have tName := stays ht hs (Ne.symm ne) eq
  simp only [finalSymbol, Symbol.mk.injEq, sName, tName] at eq
  exact ne (by cases s; cases t; simpa using eq)

/-- A round that does not make fewer declarations open blocks nothing. -/
theorem contains_eq_of_openCount_le {surveys : List Survey} {d e : Draft}
    (grows : Grows (surveys.flatMap Survey.members) d e)
    (count : openCount surveys d ≤ openCount surveys e) (s : Symbol) :
    e.plan.blocked.contains s = d.plan.blocked.contains s := by
  rw [Bool.eq_iff_iff]
  refine ⟨fun blocked => ?_, grows.keeps s⟩
  by_contra free
  obtain mem := (grows.declared s blocked).resolve_left free
  obtain ⟨before, behind, split⟩ := List.append_of_mem mem
  have fewer (row : List Symbol) : row.countP (fun s => !e.plan.blocked.contains s) ≤
      row.countP fun s => !d.plan.blocked.contains s := by
    refine List.countP_mono_left fun t _ => ?_
    rw [Bool.not_eq_true', Bool.not_eq_true', ← Bool.not_eq_true, ← Bool.not_eq_true]
    exact mt (grows.keeps t)
  have := fewer before
  have := fewer behind
  rw [Bool.not_eq_true] at free
  rw [openCount, openCount, split, List.countP_append, List.countP_append, List.countP_cons,
    List.countP_cons, blocked, free] at count
  simp only [Bool.not_true, Bool.not_false, if_true, Bool.false_eq_true, if_false] at count
  omega

/-- At the end a round would block nothing. -/
theorem settled_settle (surveys : List Survey) (store : Mapping) (d : Draft) :
    Settled surveys store (settle surveys store d).plan := by
  induction d using settle.induct surveys store with
  | case1 d next fewer ih =>
    rw [settle, if_pos fewer]
    exact ih
  | case2 d next notFewer =>
    rw [settle, if_neg notFewer]
    intro survey mem s hs t ht eq
    -- Nothing is blocked between `d` and `next`, and the class comes up in between.
    obtain ⟨before, behind, split⟩ := List.append_of_mem mem
    have declared {survey : Survey} (mem : survey ∈ surveys) (e : Draft) :
        Grows (surveys.flatMap Survey.members) e (blockClass store e survey) :=
      .blockClass store e fun s hs => List.mem_flatMap.2 ⟨survey, mem, hs⟩
    have start : Grows (surveys.flatMap Survey.members) d (before.foldl (blockClass store) d) :=
      .foldl (fun survey mem => declared (by simp [split, mem])) d
    have round : next = behind.foldl (blockClass store)
        (blockClass store (before.foldl (blockClass store) d) survey) := by
      show blockRound surveys store d = _
      rw [blockRound, split, List.foldl_append, List.foldl_cons]
    have finish : Grows (surveys.flatMap Survey.members)
        (blockClass store (before.foldl (blockClass store) d) survey) next := by
      rw [round]
      exact .foldl (fun survey mem => declared (by simp [split, mem])) _
    have here := declared mem (before.foldl (blockClass store) d)
    generalize before.foldl (blockClass store) d = e at start finish here
    have back := contains_eq_of_openCount_le ((start.trans here).trans finish)
      (Nat.not_lt.1 notFewer)
    have same (s : Symbol) : e.plan.blocked.contains s = next.plan.blocked.contains s := by
      rw [Bool.eq_iff_iff]
      refine ⟨fun h => finish.keeps s (here.keeps s h), fun h => start.keeps s ?_⟩
      rw [← back]
      exact h
    have unchanged (s : Symbol) :
        (blockClass store e survey).plan.blocked.contains s = e.plan.blocked.contains s := by
      rw [Bool.eq_iff_iff]
      refine ⟨fun h => ?_, here.keeps s⟩
      rw [same]
      exact finish.keeps s h
    refine finalSymbol_inj_of_blockClass unchanged hs ht ?_
    rw [finalSymbol_congr same, finalSymbol_congr same]
    exact eq

/-- The plan that is built is settled, and knows the classes of the surveys. -/
theorem settled_build (surveys : List Survey) (store : Mapping) :
    Settled surveys store (build surveys store).1 :=
  settled_settle surveys store _

theorem Grows.settle (surveys : List Survey) (store : Mapping) (d : Draft) :
    Grows (surveys.flatMap Survey.members) d (settle surveys store d) := by
  induction d using settle.induct surveys store with
  | case1 d next fewer ih =>
    rw [Plan.settle, if_pos fewer]
    exact (Grows.blockRound surveys store d).trans ih
  | case2 d next notFewer =>
    rw [Plan.settle, if_neg notFewer]
    exact .blockRound surveys store d

theorem classes_build (surveys : List Survey) (store : Mapping) :
    (build surveys store).1.classes = Std.TreeSet.ofList (surveys.map Survey.className) := by
  have valid (d : Draft) : Grows (surveys.flatMap Survey.members) d (surveys.foldl
      (fun d survey => survey.members.foldl (blockInvalid store survey.className) d) d) := by
    refine .foldl (fun survey mem d => ?_) d
    exact .foldl (fun s hs d => .blockInvalid store _ d (List.mem_flatMap.2 ⟨survey, mem, hs⟩)) d
  exact (Grows.settle surveys store _).classes.trans (valid _).classes

theorem contains_classes_build_iff {surveys : List Survey} {store : Mapping} {name : String} :
    (build surveys store).1.classes.contains name = true ↔
      ∃ survey ∈ surveys, survey.className = name := by
  rw [classes_build, Std.TreeSet.contains_ofList, List.contains_iff_mem, List.mem_map]

theorem contains_classes_build {surveys : List Survey} (store : Mapping) {survey : Survey}
    (h : survey ∈ surveys) : (build surveys store).1.classes.contains survey.className = true :=
  contains_classes_build_iff.2 ⟨survey, h, rfl⟩

end Clarify.Plan
