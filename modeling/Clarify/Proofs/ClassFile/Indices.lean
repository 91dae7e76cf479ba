import Clarify.Proofs.ClassFile.RoundTrip

/-!
# Indices of a pool that grows

A pool grows by calls, each of which is about one constant and gives out its index. A call to
intern makes do with the first place where the constant is already, any other one puts it behind the
last slot, and a call for which not enough slots are left changes nothing. Slots are only ever
added, and never more than an index of 16 bits can reach, so an index that was given out stays good.

Results:
* `step_perform`: what one call does, in its three cases.
* `Regular.after`: after any row of calls slot 0 is empty, and every slot can be reached.
* `prefix_after`: after any row of calls the slots before are what they were.
* `indices_after`: what the indices that are given out stand for, from the start and for good.
-/

namespace Clarify.Pool

/-! ## Specification -/

/-- A call on a pool. -/
inductive Call where
  | push (c : Constant)
  | intern (c : Constant)
  | internText (text : String)
deriving Repr, DecidableEq

/-- The constant that a call is about. -/
def Call.constant : Call → Constant
  | push c => c
  | intern c => c
  | internText text => .utf8 (ModifiedUtf8.encode text)

/-- The call makes do with a constant that is there already. -/
def Call.Reuses : Call → Prop
  | push _ => False
  | intern _ => True
  | internText _ => True

/-- The index that a call gives out, and the pool after it, unless the call is refused. -/
def outcome? (p : Pool) : Call → Option (UInt16 × Pool)
  | .push c => p.push? c
  | .intern c => p.intern? c
  | .internText text => p.internText? text

/-- The index that a call gives out. -/
def told? (p : Pool) (call : Call) : Option UInt16 := (p.outcome? call).map Prod.fst

/-- The pool after a call, which is the one before if the call is refused. -/
def perform (p : Pool) (call : Call) : Pool := ((p.outcome? call).map Prod.snd).getD p

/-- The pool after a row of calls. -/
def after (p : Pool) (calls : List Call) : Pool := calls.foldl perform p

/-- The index is the first one with the constant. -/
def FirstAt (p : Pool) (c : Constant) (index : UInt16) : Prop :=
  p.get? index = some c ∧ ∀ before < index, p.get? before ≠ some c

/-- The constant of a call is there, and the call makes do with it. -/
def Knows (p : Pool) (call : Call) : Prop := call.Reuses ∧ some call.constant ∈ p.slots

/-- What a call does: the index that it gives out, and the pool after it. -/
inductive Step (p : Pool) (call : Call) : Option UInt16 → Pool → Prop
  | reused {index : UInt16} : p.Knows call → p.FirstAt call.constant index →
      Step p call (some index) p
  | added {index : UInt16} {q : Pool} : ¬p.Knows call → call.constant.width ≤ p.freeSlots →
      index.toNat = p.size → q.slots.toList = p.slots.toList ++ slotsOf (some call.constant) →
      Step p call (some index) q
  | refused : ¬p.Knows call → p.freeSlots < call.constant.width → Step p call none p

/-- Slot 0 is empty, and there are no more slots than an index can reach. -/
structure Regular (p : Pool) : Prop where
  first : p.slots[0]? = some none
  size_le : p.size ≤ capacity

/-! ## One call -/

section Steps

variable {p q : Pool} {c : Constant} {call : Call} {index : UInt16} {told : Option UInt16}

theorem getElem?_of_prefix {α : Type} {xs ys : List α} {k : Nat} {x : α} (h : xs <+: ys)
    (found : xs[k]? = some x) : ys[k]? = some x := by
  obtain ⟨rest, rfl⟩ := h
  rw [List.getElem?_append_left (List.getElem?_eq_some_iff.1 found).1, found]

theorem length_slotsOf (c : Constant) : (slotsOf (some c)).length = c.width := by
  rw [slotsOf, Constant.width]
  split <;> rfl

theorem firstAt_of_find? (size : p.size ≤ capacity) (h : p.find? c = some index) :
    p.FirstAt c index := by
  refine ⟨get?_eq_some_iff.2 (toNat_of_find? size h), ?_⟩
  intro before lt there
  rw [find?, Option.map_eq_some_iff] at h
  obtain ⟨k, found, rfl⟩ := h
  obtain ⟨inside, -, earlier⟩ := Array.findIdx?_eq_some_iff_getElem.1 found
  have small : k < 65536 := Nat.lt_of_lt_of_le inside (Nat.le_trans size (by decide))
  rw [UInt16.lt_iff_toNat_lt, UInt16.toNat_ofNat_of_lt' small] at lt
  obtain ⟨bound, same⟩ := Array.getElem?_eq_some_iff.1 (get?_eq_some_iff.1 there)
  apply earlier before.toNat lt
  rw [same, beq_self_eq_true]

theorem step_of_push? (unknown : ¬p.Knows call)
    (outcome : p.outcome? call = p.push? call.constant) :
    Step p call (p.told? call) (p.perform call) := by
  rw [told?, perform, outcome]
  cases pushed : p.push? call.constant with
  | none =>
    rw [push?, pushSlot?_eq_none_iff, length_slotsOf] at pushed
    exact .refused unknown pushed
  | some given =>
    obtain ⟨index, q⟩ := given
    obtain ⟨place, slots, -⟩ := push?_eq_some pushed
    refine .added unknown (Nat.le_of_not_lt fun short => ?_) place slots
    rw [← length_slotsOf, ← pushSlot?_eq_none_iff] at short
    cases short.symm.trans pushed

theorem step_of_intern? (size : p.size ≤ capacity) (reuses : call.Reuses)
    (outcome : p.outcome? call = p.intern? call.constant) :
    Step p call (p.told? call) (p.perform call) := by
  cases found : p.find? call.constant with
  | none =>
    have absent := find?_eq_none_iff.1 found
    apply step_of_push? fun knows => absent knows.2
    rw [outcome, intern?, found]
  | some index =>
    have first := firstAt_of_find? size found
    have there := (some_mem_slots_iff size).2 ⟨index, first.1⟩
    rw [told?, perform, outcome, intern?, found]
    exact .reused ⟨reuses, there⟩ first

/-- What a call does, in its three cases. -/
theorem step_perform (size : p.size ≤ capacity) (call : Call) :
    Step p call (p.told? call) (p.perform call) := by
  cases call with
  | push c => exact step_of_push? (fun knows => knows.1) rfl
  | intern c => exact step_of_intern? size trivial rfl
  | internText text => exact step_of_intern? size trivial rfl

namespace Step

/-- A call leaves all slots what they were. -/
theorem extends_slots (step : Step p call told q) : p.slots.toList <+: q.slots.toList := by
  cases step with
  | reused knows first => exact List.prefix_rfl
  | added unknown room place slots =>
    rw [slots]
    exact List.prefix_append ..
  | refused unknown short => exact List.prefix_rfl

theorem regular (step : Step p call told q) (h : p.Regular) : q.Regular := by
  cases step with
  | reused knows first => exact h
  | refused unknown short => exact h
  | added unknown room place slots =>
    constructor
    · have first := h.first
      rw [← Array.getElem?_toList] at first ⊢
      exact getElem?_of_prefix (slots ▸ List.prefix_append ..) first
    · have length := congrArg List.length slots
      rw [List.length_append, Array.length_toList, Array.length_toList, length_slotsOf] at length
      rw [freeSlots, size] at room
      have := h.size_le
      rw [size] at this ⊢
      omega

/-- The index that a call gives out has its constant. -/
theorem get? (step : Step p call (some index) q) : q.get? index = some call.constant := by
  cases step with
  | reused knows first => exact first.1
  | added unknown room place slots =>
    obtain ⟨rest, head⟩ := slotsOf_some call.constant
    rw [get?_eq_some_iff, ← Array.getElem?_toList, slots, place, size, head,
      ← Array.length_toList, List.getElem?_append_right (Nat.le_refl _), Nat.sub_self]
    rfl

theorem told_eq_none_iff (step : Step p call told q) :
    told = none ↔ ¬p.Knows call ∧ p.freeSlots < call.constant.width := by
  cases step with
  | reused knows first => simp [knows]
  | added unknown room place slots => simp [room]
  | refused unknown short => simp [unknown, short]

/-- A call that is refused changes nothing. -/
theorem eq_of_refused (step : Step p call none q) : q = p := by
  cases step with
  | refused unknown short => rfl

/-- A constant that is known is told the first index of, and nothing is added. -/
theorem of_knows (step : Step p call told q) (knows : p.Knows call) :
    q = p ∧ ∃ index, told = some index ∧ p.FirstAt call.constant index := by
  cases step with
  | reused _ first => exact ⟨rfl, _, rfl, first⟩
  | added unknown room place slots => exact absurd knows unknown
  | refused unknown short => exact absurd knows unknown

end Step

end Steps

/-! ## Rows of calls -/

section Rows

variable {p : Pool} {call : Call} {calls : List Call}

@[simp] theorem after_nil (p : Pool) : p.after [] = p := rfl

@[simp] theorem after_cons (p : Pool) (call : Call) (calls : List Call) :
    p.after (call :: calls) = (p.perform call).after calls := rfl

theorem after_append (p : Pool) (calls more : List Call) :
    p.after (calls ++ more) = (p.after calls).after more :=
  List.foldl_append

theorem regular_empty : empty.Regular := ⟨rfl, by decide⟩

theorem regular_of_read {s t : Cursor} (h : read s = .ok p t) : p.Regular := by
  obtain ⟨⟨sound, -⟩, -⟩ := (reads s p t).1 h
  obtain ⟨constants, laid⟩ := sound.laid
  refine ⟨?_, sound.size_le⟩
  rw [← Array.getElem?_toList, laid, List.getElem?_cons_zero]

theorem Regular.after (h : p.Regular) (calls : List Call) : (p.after calls).Regular := by
  induction calls generalizing p with
  | nil => exact h
  | cons call calls ih => exact ih ((step_perform h.size_le call).regular h)

/-- After any row of calls the slots before are what they were. -/
theorem prefix_after (h : p.Regular) (calls : List Call) :
    p.slots.toList <+: (p.after calls).slots.toList := by
  induction calls generalizing p with
  | nil => exact List.prefix_rfl
  | cons call calls ih =>
    have step := step_perform h.size_le call
    exact step.extends_slots.trans (ih (step.regular h))

/-- A constant is found at its index after any row of calls. -/
theorem get?_after (h : p.Regular) {index : UInt16} {c : Constant} (found : p.get? index = some c)
    (calls : List Call) : (p.after calls).get? index = some c := by
  rw [get?_eq_some_iff, ← Array.getElem?_toList] at found ⊢
  exact getElem?_of_prefix (prefix_after h calls) found

theorem Regular.ne_zero_of_get? (h : p.Regular) {index : UInt16} {c : Constant}
    (found : p.get? index = some c) : index ≠ 0 := by
  rintro rfl
  have first := h.first
  rw [get?_eq_some_iff, UInt16.toNat_zero, first] at found
  cases found

/-- In a pool that is new or was read, after any row of calls: there are no more slots than an index
can reach, and all of them stay as they are. The index that a call gives out is not 0 and has the
constant of the call, then and after any later calls. A call is refused just if its constant is not
known and needs more slots than are left, and changes nothing then. The index of a known constant is
its first one, and nothing is added for it. -/
theorem indices_after {p : Pool} (start : p = empty ∨ ∃ s t, read s = .ok p t)
    (calls : List Call) :
    (p.after calls).size ≤ capacity ∧
      (∀ more, (p.after calls).slots.toList <+: (p.after (calls ++ more)).slots.toList) ∧
      ∀ call,
        (∀ index, (p.after calls).told? call = some index →
          index ≠ 0 ∧ ∀ more, (p.after (calls ++ call :: more)).get index = .ok call.constant) ∧
        ((p.after calls).told? call = none ↔ ¬(p.after calls).Knows call ∧
          (p.after calls).freeSlots < call.constant.width) ∧
        ((p.after calls).told? call = none → p.after (calls ++ [call]) = p.after calls) ∧
        ((p.after calls).Knows call → p.after (calls ++ [call]) = p.after calls ∧
          ∃ index, (p.after calls).told? call = some index ∧
            (p.after calls).FirstAt call.constant index) := by
  have regular : p.Regular := by
    obtain rfl | ⟨s, t, accepted⟩ := start
    · exact regular_empty
    · exact regular_of_read accepted
  have now := regular.after calls
  refine ⟨now.size_le, fun more => ?_, fun call => ?_⟩
  · rw [after_append]
    exact prefix_after now more
  have step := step_perform now.size_le call
  have next := step.regular now
  simp only [after_append, after_cons, after_nil]
  refine ⟨fun index told => ?_, step.told_eq_none_iff, fun told => ?_, step.of_knows⟩
  · rw [told] at step
    refine ⟨next.ne_zero_of_get? step.get?, fun more => ?_⟩
    rw [get, get?_after next step.get? more]
  · rw [told] at step
    exact step.eq_of_refused

/-- A pool with a text at index 1 and a long at index 2, whose second slot is the last one. -/
def writtenPair : Bytes := [0, 4, 1, 0, 1, 97, 5, 0, 0, 0, 0, 0, 0, 0, 7]

/-- The pool that the bytes are read to. -/
def pair : Pool := ⟨#[none, some (.utf8 [97]), some (.long 7), none]⟩

/-- The text is known, and the long is put behind the last slot all the same. -/
def pairCalls : List Call := [.internText "a", .push (.long 7)]

theorem read_writtenPair : read (.start writtenPair) = .ok pair ⟨[], 15⟩ := by
  have size : pair.size ≤ capacity := by decide
  have short : pair.Short := short_of_all (by decide +kernel)
  have check : pair.check = .ok () := Except.eq_ok_of_toOption (by decide +kernel)
  have laid : pair.slots.toList = none :: layOut [.utf8 [97], .long 7] := rfl
  apply (reads _ _ _).2
  exact ⟨⟨⟨size, ⟨_, laid⟩, (check_eq_ok_iff size).1 check⟩, short⟩, by decide, rfl⟩

theorem indices_after_pair : read (.start writtenPair) = .ok pair ⟨[], 15⟩ ∧
    (pair.after [.internText "a"]).told? (.push (.long 7)) = some 4 ∧
    (∀ more, (pair.after ([.internText "a"] ++ .push (.long 7) :: more)).get 4 = .ok (.long 7)) ∧
    (∃ index, (pair.after pairCalls).told? (.intern (.long 7)) = some index ∧
      (pair.after pairCalls).FirstAt (.long 7) index) ∧
    (pair.after pairCalls).told? (.intern (.long 7)) = some 2 := by
  have start : ∃ s t, read s = .ok pair t := ⟨_, _, read_writtenPair⟩
  have told : (pair.after [.internText "a"]).told? (.push (.long 7)) = some 4 := by decide +kernel
  have known : (pair.after pairCalls).Knows (.intern (.long 7)) := ⟨trivial, by decide +kernel⟩
  obtain ⟨-, -, before⟩ := indices_after (.inr start) [.internText "a"]
  obtain ⟨-, -, behind⟩ := indices_after (.inr start) pairCalls
  exact ⟨read_writtenPair, told, ((before _).1 4 told).2, ((behind _).2.2.2 known).2,
    by decide +kernel⟩

end Rows

end Clarify.Pool
