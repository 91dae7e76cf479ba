import Clarify.Naming.Mapping
import Mathlib.Data.List.Induction

/-!
# A mapping in the hands of several workers

Workers share one mapping, and each call of a worker is one step. So however the calls of all
workers fall between each other, and whatever a worker makes of the answers that it got, there is
one row of calls. After it, a name has the entry of its latest override. Without an override it
keeps the entry that it had before, and without that one it has the entry of its first insertion.

Results:
* `get?_perform`: what one call does to the entry of each name.
* `get?_after`: what a row of calls does.
* `exists_get?_after`: an entry stays, or a manual one takes its place.
* `get?_after_of_some`: an entry stays until it is overridden.
* `history_of_calls`: the entries after any row of calls, and what the workers are told.
-/

namespace Clarify.Mapping

/-- What a worker asks of a mapping. -/
inductive Call where
  /-- An entry for an old name that may have none. -/
  | insert (old new : String) (origin : Origin)
  /-- A manual entry in place of whatever is there. -/
  | override (old new : String)
deriving Repr, DecidableEq

namespace Call

/-- The old name that a call is about. -/
def old : Call → String
  | insert old _ _ => old
  | override old _ => old

/-- The entry that a call sets for a name whatever is there. -/
def overriding? (key : String) : Call → Option Entry
  | insert _ _ _ => none
  | override old new => if old = key then some ⟨new, .manual⟩ else none

/-- The entry that a call sets for a name that has none. -/
def inserted? (key : String) : Call → Option Entry
  | insert old new origin => if old = key then some ⟨new, origin⟩ else none
  | override _ _ => none

variable {key : String} {call : Call} {entry : Entry}

theorem overriding?_eq_some_iff : call.overriding? key = some entry ↔
    ∃ new, call = override key new ∧ entry = ⟨new, .manual⟩ := by
  cases call with
  | insert old new origin => simp [overriding?]
  | override old new => simp [overriding?, eq_comm]

end Call

/-- What the caller is told, if anything, and the mapping after the call. -/
def perform (m : Mapping) : Call → Option Entry × Mapping
  | .insert old new origin =>
    let (entry, m) := m.insertIfAbsent old new origin
    (some entry, m)
  | .override old new => (none, m.override old new)

variable {ι : Type}

/-- The mapping after a row of calls, each with the worker that made it. -/
def after (m : Mapping) (calls : List (ι × Call)) : Mapping :=
  calls.foldl (fun m x => (m.perform x.2).2) m

/-- What the caller of one more call is told. -/
def told (m : Mapping) (calls : List (ι × Call)) (call : Call) : Option Entry :=
  ((m.after calls).perform call).1

/-- The entry of the latest override of a name. -/
def latestOverride? (key : String) (calls : List (ι × Call)) : Option Entry :=
  calls.reverse.findSome? fun x => x.2.overriding? key

/-- The entry of the first insertion for a name. -/
def firstInsertion? (key : String) (calls : List (ι × Call)) : Option Entry :=
  calls.findSome? fun x => x.2.inserted? key

/-! ## One call -/

variable (m : Mapping) (key : String)

/-- What one call does to the entry of each name. -/
theorem get?_perform (call : Call) : (m.perform call).2.get? key =
    (call.overriding? key).or ((m.get? key).or (call.inserted? key)) := by
  cases call with
  | insert old new origin =>
    show (m.insertIfAbsent old new origin).2.get? key = _
    rw [get?_insertIfAbsent, Call.overriding?, Option.none_or, Call.inserted?]
    by_cases here : old = key
    · subst here
      rw [if_pos rfl, if_pos rfl]
      cases m.get? old <;> rfl
    · rw [if_neg here, if_neg here, Option.or_none]
  | override old new =>
    show (m.override old new).get? key = _
    rw [get?_override, Call.overriding?, Call.inserted?, Option.or_none]
    by_cases here : old = key
    · rw [if_pos here, if_pos here]
      rfl
    · rw [if_neg here, if_neg here]
      rfl

variable {key}

/-- A call that is about another name brings nothing for this one. -/
theorem get?_perform_of_ne {call : Call} (ne : call.old ≠ key) :
    (m.perform call).2.get? key = m.get? key := by
  have nothing : call.overriding? key = none ∧ call.inserted? key = none := by
    cases call with
    | insert old new origin => exact ⟨rfl, if_neg ne⟩
    | override old new => exact ⟨if_neg ne, rfl⟩
  rw [get?_perform, nothing.1, nothing.2, Option.none_or, Option.or_none]

/-- Whoever inserts is told the entry that is in force afterwards. -/
theorem told_insert (old new : String) (origin : Origin) :
    ∃ entry, (m.perform (.insert old new origin)).1 = some entry ∧
      (m.perform (.insert old new origin)).2.get? old = some entry ∧
      ∀ found, m.get? old = some found → entry = found := by
  refine ⟨(m.insertIfAbsent old new origin).1, rfl, ?_, fun found here => ?_⟩
  · show (m.insertIfAbsent old new origin).2.get? old = _
    rw [get?_insertIfAbsent, if_pos rfl, insertIfAbsent_fst]
  · rw [insertIfAbsent_fst, here, Option.getD_some]

/-! ## A row of calls -/

theorem after_append (calls more : List (ι × Call)) :
    m.after (calls ++ more) = (m.after calls).after more :=
  List.foldl_append

theorem after_concat (calls : List (ι × Call)) (x : ι × Call) :
    m.after (calls ++ [x]) = ((m.after calls).perform x.2).2 :=
  m.after_append calls [x]

theorem latestOverride?_concat (key : String) (calls : List (ι × Call)) (x : ι × Call) :
    latestOverride? key (calls ++ [x]) = (x.2.overriding? key).or (latestOverride? key calls) := by
  rw [latestOverride?, List.reverse_append, List.findSome?_append, List.reverse_singleton,
    List.findSome?_singleton]
  rfl

theorem firstInsertion?_concat (key : String) (calls : List (ι × Call)) (x : ι × Call) :
    firstInsertion? key (calls ++ [x]) = (firstInsertion? key calls).or (x.2.inserted? key) := by
  rw [firstInsertion?, List.findSome?_append, List.findSome?_singleton]
  rfl

/-- The entry of a name after a row of calls. -/
theorem get?_after (key : String) (calls : List (ι × Call)) :
    (m.after calls).get? key =
      (latestOverride? key calls).or ((m.get? key).or (firstInsertion? key calls)) := by
  induction calls using List.reverseRecOn with
  | nil => exact (Option.or_none).symm
  | append_singleton calls x ih =>
    rw [after_concat, get?_perform, ih, latestOverride?_concat, firstInsertion?_concat]
    simp only [Option.or_assoc]

/-- An entry stays, or a manual one takes its place. -/
theorem exists_get?_after {entry : Entry} (here : m.get? key = some entry)
    (calls : List (ι × Call)) : ∃ entry', (m.after calls).get? key = some entry' ∧
      (entry' = entry ∨ entry'.origin = .manual) := by
  rw [get?_after, here, Option.some_or]
  cases latest : latestOverride? key calls with
  | none => exact ⟨entry, rfl, .inl rfl⟩
  | some entry' =>
    obtain ⟨x, -, overrides⟩ := List.exists_of_findSome?_eq_some latest
    obtain ⟨new, -, rfl⟩ := Call.overriding?_eq_some_iff.1 overrides
    exact ⟨_, rfl, .inr rfl⟩

/-- An entry stays until it is overridden. -/
theorem get?_after_of_some {entry : Entry} (here : m.get? key = some entry)
    {calls : List (ι × Call)} (kept : ∀ x ∈ calls, ∀ new, x.2 ≠ .override key new) :
    (m.after calls).get? key = some entry := by
  have none : latestOverride? key calls = none := by
    refine Option.eq_none_iff_forall_ne_some.2 fun entry latest => ?_
    obtain ⟨x, mem, overrides⟩ := List.exists_of_findSome?_eq_some latest
    obtain ⟨new, same, -⟩ := Call.overriding?_eq_some_iff.1 overrides
    exact kept x (List.mem_reverse.1 mem) new same
  rw [get?_after, none, here, Option.none_or, Option.some_or]

/-- After any row of calls, a name has the entry of its latest override, else the one that it had
before all calls, else that of its first insertion. A call changes no other name. Whoever inserts is
told the entry that is in force right afterwards, and so is everybody who inserts for that name
until it is overridden. -/
theorem history_of_calls (calls : List (ι × Call)) :
    (∀ key, (m.after calls).get? key =
      (latestOverride? key calls).or ((m.get? key).or (firstInsertion? key calls))) ∧
    (∀ (worker : ι) (call : Call) (key : String), call.old ≠ key →
      (m.after (calls ++ [(worker, call)])).get? key = (m.after calls).get? key) ∧
    ∀ (worker : ι) (old new : String) (origin : Origin), ∃ entry,
      m.told calls (.insert old new origin) = some entry ∧
      (m.after (calls ++ [(worker, .insert old new origin)])).get? old = some entry ∧
      ∀ between : List (ι × Call), (∀ x ∈ between, ∀ other, x.2 ≠ .override old other) →
        ∀ (new' : String) (origin' : Origin),
          m.told (calls ++ (worker, .insert old new origin) :: between)
            (.insert old new' origin') = some entry := by
  refine ⟨fun key => m.get?_after key calls, fun worker call key ne => ?_,
    fun worker old new origin => ?_⟩
  · rw [after_concat]
    exact get?_perform_of_ne _ ne
  · obtain ⟨entry, answer, here, -⟩ := (m.after calls).told_insert old new origin
    rw [← m.after_concat calls (worker, .insert old new origin)] at here
    refine ⟨entry, answer, here, fun between kept new' origin' => ?_⟩
    have stays := get?_after_of_some _ here kept
    rw [← after_append, List.append_assoc, List.singleton_append] at stays
    obtain ⟨entry', answer', -, same⟩ := (m.after
      (calls ++ (worker, .insert old new origin) :: between)).told_insert old new' origin'
    rw [told, answer', same entry stays]

/-- Two workers propose a name for `a`, and the second one also for `zov`, which is in the
dictionary, before a third overrides `a`. -/
theorem history_of_calls_threeWorkers :
    (withDictionary.after [(1, .insert "a" "methodA" .predicted),
        (2, .insert "zov" "isZov" .predicted), (2, .insert "a" "fieldA" .predicted),
        (3, .override "a" "attackTarget")]).get? "a" = some ⟨"attackTarget", .manual⟩ ∧
    (withDictionary.after [(1, .insert "a" "methodA" .predicted)]).get? "vodka" =
      withDictionary.get? "vodka" ∧
    ∃ entry, withDictionary.told ([] : List (Nat × Call)) (.insert "a" "methodA" .predicted) =
        some entry ∧
      withDictionary.told
        [(1, .insert "a" "methodA" .predicted), (2, .insert "zov" "isZov" .predicted)]
        (.insert "a" "fieldA" .predicted) = some entry := by
  obtain ⟨entries, -⟩ := withDictionary.history_of_calls
    [(1, .insert "a" "methodA" .predicted), (2, .insert "zov" "isZov" .predicted),
      (2, .insert "a" "fieldA" .predicted), (3, .override "a" "attackTarget")]
  obtain ⟨-, others, answers⟩ := withDictionary.history_of_calls ([] : List (Nat × Call))
  obtain ⟨entry, first, -, rest⟩ := answers 1 "a" "methodA" .predicted
  exact ⟨entries "a", others 1 _ "vodka" (by decide), entry, first,
    rest [(2, .insert "zov" "isZov" .predicted)] (by simp) "fieldA" .predicted⟩

end Clarify.Mapping
