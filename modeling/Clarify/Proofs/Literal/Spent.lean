import Clarify.Proofs.Literal.Accounts
import Clarify.Proofs.Literal.Rounds
import Clarify.Proofs.Unit.Additions

/-!
# Helpers without calls

A helper is listed as spent if it had calls and each of them was recovered, by two counts that are
made apart. The counts agree with what is left in the code: the calls of a class that go away are
those that are recovered, and none are added. But calls inside of helpers are neither counted nor
recovered. **A spent helper may still be called**, by another helper or by itself.

Results:
* `mem_spent_iff`: the counts compare all calls of a helper with the recovered ones.
* `callsStatic_recoverLiterals_iff`: the calls of static methods that are left.
* `spent_recoverLiterals`: which helpers are spent, and which calls of them are left.
-/

namespace Clarify

/-- In a method with a body that is not native, the instruction calls a static method of the class
with the name and the descriptor of a symbol. -/
structure ClassFile.CallsStatic (c : ClassFile) (s : Symbol) (k : Nat) (i : Instruction) :
    Prop where
  method : ∃ m, c.methods[k]? = some m ∧ m.isNative = false
  code : ∃ code instructions, c.codeAt? k = some code ∧ Code.decode code = .ok instructions ∧
    i ∈ instructions
  opcode : i.opcode = Opcode.invokestatic
  refers : ∃ index r, i.poolIndex? = some index ∧ c.pool.memberRef? index = some r ∧
    r.owner = c.className ∧ r.name = s.name ∧ r.descriptor = s.descriptor

/-- A method of the class is a helper. -/
def ClassFile.IsHelper (c : ClassFile) (k : Nat) : Prop := ∃ h ∈ c.helpers, h.method = k

/-- The symbol of a helper. -/
def Helper.symbol (h : Helper) : Symbol :=
  { kind := .method, name := h.name, descriptor := Helper.descriptor }

/-! ## Helpers by their positions -/

namespace ClassFile

variable {c : ClassFile}

theorem method_of_helperOf? {m : Member} {k : Nat} {h : Helper}
    (helper : c.helperOf? m k = some h) : h.method = k := by
  simp only [helperOf?, Option.bind_eq_bind, Option.bind_eq_some_iff] at helper
  obtain ⟨body, -, helper⟩ := helper
  split at helper
  · cases helper
    rfl
  · cases helper

theorem mem_helpers_iff {h : Helper} :
    h ∈ c.helpers ↔ ∃ m, c.methods[h.method]? = some m ∧ c.helperOf? m h.method = some h := by
  rw [helpers, List.mem_filterMap]
  constructor
  · rintro ⟨⟨m, k⟩, mem, helper⟩
    have here := List.mk_mem_zipIdx_iff_getElem?.1 mem
    rw [Array.getElem?_toList] at here
    obtain rfl := method_of_helperOf? helper
    exact ⟨m, here, helper⟩
  · rintro ⟨m, here, helper⟩
    refine ⟨(m, h.method), List.mk_mem_zipIdx_iff_getElem?.2 ?_, helper⟩
    rw [Array.getElem?_toList]
    exact here

/-- A method is one helper at most. -/
theorem eq_of_mem_helpers {g h : Helper} (hg : g ∈ c.helpers) (hh : h ∈ c.helpers)
    (method : g.method = h.method) : g = h := by
  obtain ⟨m, here, helper⟩ := mem_helpers_iff.1 hg
  obtain ⟨m', here', helper'⟩ := mem_helpers_iff.1 hh
  rw [method] at here helper
  cases here.symm.trans here'
  exact Option.some.inj (helper.symm.trans helper')

/-- The helper that a call of a name is looked up as has the name. -/
theorem name_of_find? {name : String} {h : Helper}
    (first : c.helpers.find? (fun g => g.name == name) = some h) : h.name = name := by
  have named := List.find?_some first
  rwa [beq_iff_eq] at named

end ClassFile

namespace Literal

variable {c : ClassFile} {s : Symbol} {k : Nat} {i : Instruction}

/-! ## The two counts -/

/-- Where the items of one row are among those of another one, and neither row has an item twice,
equal counts say that no item is missing. -/
theorem countP_eq_iff {α : Type} {xs ys : List α} (apart : xs.Nodup) (apart' : ys.Nodup)
    (sub : ys ⊆ xs) (q : α → Bool) :
    ys.countP q = xs.countP q ↔ ∀ x ∈ xs, q x = true → x ∈ ys := by
  have sub' : ys.filter q ⊆ xs.filter q := List.filter_subset q sub
  rw [List.countP_eq_length_filter, List.countP_eq_length_filter]
  constructor
  · intro same x hx hq
    have all := (List.subperm_of_subset (apart'.filter q) sub').perm_of_length_le
      (Nat.le_of_eq same.symm)
    exact (List.mem_filter.1 (all.mem_iff.2 (List.mem_filter.2 ⟨hx, hq⟩))).1
  · intro all
    refine ((List.perm_ext_iff_of_nodup (apart'.filter q) (apart.filter q)).2 fun x => ?_).length_eq
    constructor
    · exact fun mem => sub' mem
    · intro mem
      obtain ⟨hx, hq⟩ := List.mem_filter.1 mem
      exact List.mem_filter.2 ⟨all x hx hq, hq⟩

/-- A recovered call is one of the calls of the class, and all that is known of it comes from the
call. -/
theorem decodeCall?_of_mem_found {p : Plain} (hp : p ∈ found c) :
    p.call ∈ calls c ∧ decodeCall? c.pool p.call = some (.ok p) := by
  rw [found_eq_filterMap, List.mem_filterMap] at hp
  obtain ⟨call, mem, plain⟩ := hp
  obtain ⟨same, decoded⟩ := plain?_eq_some plain
  cases same
  exact ⟨mem, decoded⟩

theorem nodup_recovered (c : ClassFile) : (recovered c).Nodup := by
  obtain ⟨lost, -, perm⟩ := exists_lost c
  rw [recovered, List.nodup_reverse]
  exact (List.nodup_append.1 (perm.nodup_iff.2 (nodup_found c))).1

theorem nodup_map_call_recovered (c : ClassFile) : ((recovered c).map Plain.call).Nodup := by
  refine (nodup_recovered c).map_on fun p hp q hq same => ?_
  have first := (decodeCall?_of_mem_found (mem_found_of_mem_recovered hp)).2
  have second := (decodeCall?_of_mem_found (mem_found_of_mem_recovered hq)).2
  rw [same, second] at first
  cases first
  rfl

theorem map_call_recovered_subset (c : ClassFile) : (recovered c).map Plain.call ⊆ calls c := by
  intro call mem
  obtain ⟨p, hp, rfl⟩ := List.mem_map.1 mem
  exact (decodeCall?_of_mem_found (mem_found_of_mem_recovered hp)).1

theorem spent_eq (c : ClassFile) :
    c.recoverLiterals.2.spent = spent c.helpers (calls c) (recovered c) := by
  unfold ClassFile.recoverLiterals
  dsimp only
  split
  · next none =>
    rw [List.isEmpty_iff.1 none]
    rfl
  · rfl

/-- The helper of a call is the first one with its name, and the call is outside of helpers. -/
theorem find?_of_mem_calls {call : Call} (mem : call ∈ calls c) :
    c.helpers.find? (fun h => h.name == call.helper.name) = some call.helper ∧
      ¬c.IsHelper call.method := by
  obtain ⟨s, looked, mem⟩ := mem_calls_iff.1 mem
  obtain ⟨inside, place, -⟩ := in_of_mem_callsIn looked mem
  obtain ⟨index, r, -, -, -, -, first⟩ := inside.refers
  rw [← ClassFile.name_of_find? first] at first
  refine ⟨first, ?_⟩
  rintro ⟨h, helper, same⟩
  exact inside.notHelper h helper (same.trans place)

/-- A helper is spent if it had calls and each of them was recovered. -/
theorem mem_spent_iff : s ∈ c.recoverLiterals.2.spent ↔ ∃ h ∈ c.helpers, h.symbol = s ∧
    (∃ call ∈ calls c, call.helper = h) ∧
      ∀ call ∈ calls c, call.helper = h → ∃ p ∈ recovered c, p.call = call := by
  rw [spent_eq, spent, List.mem_filterMap]
  refine exists_congr fun h => and_congr_right fun mem => ?_
  have own {call : Call} (hc : call ∈ calls c) :
      (call.helper.method == h.method) = true ↔ call.helper = h := by
    rw [beq_iff_eq]
    constructor
    · exact ClassFile.eq_of_mem_helpers
        (List.mem_of_find?_eq_some (find?_of_mem_calls hc).1) mem
    · exact congrArg Helper.method
  have had : ((calls c).countP fun call => call.helper.method == h.method) ≠ 0 ↔
      ∃ call ∈ calls c, call.helper = h := by
    rw [← Nat.pos_iff_ne_zero, List.countP_pos_iff]
    exact exists_congr fun call => and_congr_right own
  have all : ((recovered c).countP fun p => p.call.helper.method == h.method) =
      ((calls c).countP fun call => call.helper.method == h.method) ↔
      ∀ call ∈ calls c, call.helper = h → ∃ p ∈ recovered c, p.call = call := by
    have counts := countP_eq_iff (nodup_calls c).of_map (nodup_map_call_recovered c)
      (map_call_recovered_subset c) fun call => call.helper.method == h.method
    rw [List.countP_map] at counts
    refine counts.trans (forall₂_congr fun call hc => ?_)
    rw [own hc, List.mem_map]
  rw [← had, ← all]
  dsimp only
  split
  · next both =>
    obtain ⟨some, same⟩ := Bool.and_eq_true_iff.1 both
    rw [Option.some.injEq, and_iff_left ⟨of_decide_eq_true some, eq_of_beq same⟩]
    rfl
  · next missing =>
    constructor
    · intro none
      cases none
    · rintro ⟨-, some, same⟩
      exact absurd (Bool.and_eq_true_iff.2 ⟨decide_eq_true some, beq_iff_eq.2 same⟩) missing

/-! ## The code that is left -/

section Changed

variable {code changed : Array UInt8} {instructions instructions' : Array Instruction}
  (sound : c.Sound) (here : c.codeAt? k = some code) (decoded : Code.decode code = .ok instructions)
  (there : c.recoverLiterals.1.codeAt? k = some changed)
  (decoded' : Code.decode changed = .ok instructions')

include sound here decoded there decoded'

theorem mem_changed {o : Nat} (start : Code.IsStart instructions o)
    (read : Code.instructionAt changed o = .ok i) : i ∈ instructions' := by
  obtain ⟨code', row, at', decodes, starts⟩ := isStart_recoverLiterals sound here decoded
  cases there.symm.trans at'
  cases decoded'.symm.trans decodes
  exact Flow.mem_of_instructionAt decoded' (starts o start) read

/-- What is neither the load nor the call of a recovered call stays. -/
theorem mem_changed_of_other (mem : i ∈ instructions)
    (other : ∀ p ∈ recovered c, p.call.method = k → p.load ≠ i ∧ p.call.invoke ≠ i) :
    i ∈ instructions' := by
  obtain ⟨code', at', read⟩ := instructionAt_of_other here decoded mem other
  cases there.symm.trans at'
  exact mem_changed sound here decoded there decoded' ⟨i, mem, rfl⟩ read

/-- What is new is the `nop`s in place of the recovered calls and the loads before them. -/
theorem mem_of_mem_changed (mem : i ∈ instructions') (busy : i.opcode ≠ Opcode.nop)
    (noLoad : Helper.isConstantLoad i = false) :
    i ∈ instructions ∧ ∀ p ∈ recovered c, p.call.method = k → p.call.invoke ≠ i := by
  have run := recovering_outcome sound.pool.size_le
  have file := (recoverLiterals_eq c).1
  obtain ⟨code', at', size, -⟩ := spares_recoverLiterals c k code here
  cases there.symm.trans at'
  have inside := Code.offset_lt_of_mem decoded' mem
  rw [size] at inside
  -- The instruction starts inside of some instruction of the old code.
  obtain ⟨j, hj, lo, hi⟩ := Flow.exists_covering (Code.tiles_of_decode decoded) (Nat.zero_le _)
    inside
  rw [Array.mem_toList_iff] at hj
  have covered {j' : Instruction} (hj' : j' ∈ instructions') (offset : j'.offset = j.offset)
      (next : j'.next = j.next) : j' = i := by
    by_contra ne
    have room : i.offset < i.next := Nat.lt_add_of_pos_right i.length_pos
    have apart := Code.next_le_or_next_le decoded' hj' mem ne
    rw [offset, next] at apart
    omega
  by_cases isCall : ∃ p ∈ recovered c, p.call.method = k ∧ p.call.invoke = j
  · obtain ⟨p, hp, rfl, rfl⟩ := isCall
    obtain ⟨code', at', nops⟩ := run.removed p (List.mem_reverse.1 hp)
    rw [← file, there] at at'
    cases at'
    have opcode := (Code.instructionAt_eq_ok_iff.1 (Code.instructionAt_of_mem decoded' mem)).2.2
    exact absurd (opcode.trans (nops i.offset lo hi)) busy
  by_cases isLoad : ∃ p ∈ recovered c, p.call.method = k ∧ p.load = j
  · obtain ⟨p, hp, rfl, rfl⟩ := isLoad
    obtain ⟨x, -, ⟨code', at', -, read⟩, -⟩ := run.yields p (List.mem_reverse.1 hp)
    rw [← file, there] at at'
    cases at'
    have same := covered (mem_changed sound here decoded there decoded' ⟨_, hj, rfl⟩ read) rfl rfl
    have load := (loadedString?_eq_some
      (isSite_of_mem_found (mem_found_of_mem_recovered hp)).load).2
    rw [← same] at noLoad
    exact absurd load (by rw [show Helper.isConstantLoad p.load = false from noLoad]; decide)
  · have stays : j ∈ instructions' := mem_changed_of_other sound here decoded there decoded' hj
      fun p hp method => ⟨fun load => isLoad ⟨p, hp, method, load⟩,
        fun call => isCall ⟨p, hp, method, call⟩⟩
    obtain rfl := covered stays rfl rfl
    exact ⟨hj, fun p hp method call => isCall ⟨p, hp, method, call⟩⟩

end Changed

/-! ## The calls that are left -/

/-- A method has code if it had code before. -/
theorem exists_codeAt? {changed : Array UInt8}
    (there : c.recoverLiterals.1.codeAt? k = some changed) : ∃ code, c.codeAt? k = some code := by
  obtain ⟨m', method', body', isBody', -⟩ := codeAt?_eq_some_iff.1 there
  have same := congrArg (fun methods : Array Member => methods[k]?) (emptied_recoverLiterals c)
  simp only [Array.getElem?_map, method', Option.map_some] at same
  obtain ⟨m, method, same⟩ := Option.map_eq_some_iff.1 same.symm
  have bodies := congrArg Member.body? same
  rw [Member.emptied, Member.emptied, Member.body?_mapBody, Member.body?_mapBody, isBody',
    Option.map_some, Option.map_eq_some_iff] at bodies
  obtain ⟨body, isBody, -⟩ := bodies
  exact ⟨body.bytes, codeAt?_eq_some_iff.2 ⟨m, method, body, isBody, rfl⟩⟩

theorem exists_decode (sound : c.Sound) {code : Array UInt8} (here : c.codeAt? k = some code) :
    ∃ instructions, Code.decode code = .ok instructions := by
  obtain ⟨m, method, body, isBody, rfl⟩ := codeAt?_eq_some_iff.1 here
  exact ((sound.methods.2 m (Array.mem_of_getElem? method)).body isBody).decodes

theorem className_recoverLiterals (sound : c.Sound) :
    c.recoverLiterals.1.className = c.className :=
  sound.className_eq (standing_recoverLiterals sound).keeps.blank.keepsNames
    (by rw [(rebodied_recoverLiterals c).frame])

/-- Member references are the same ones before and after. -/
theorem memberRef?_recoverLiterals (sound : c.Sound) {index : UInt16} {r : MemberRef} :
    c.recoverLiterals.1.pool.memberRef? index = some r ↔ c.pool.memberRef? index = some r := by
  have keeps := (standing_recoverLiterals sound).keeps
  constructor
  · intro found
    have enlarged : Pool.Enlarged (fun _ => False) c.pool c.recoverLiterals.1.pool :=
      enlarged_recoverLiterals (.refl sound.pool.size_le)
    obtain ⟨x, old⟩ := enlarged.memberRef? sound.pool found
    rw [keeps.memberRef? old] at found
    exact found ▸ old
  · exact keeps.memberRef?

theorem isConstantLoad_of_invokestatic (opcode : i.opcode = Opcode.invokestatic) :
    Helper.isConstantLoad i = false := by
  rw [Helper.isConstantLoad, opcode]
  decide

/-- The calls of static methods of the class that are left are those that were not recovered. -/
theorem callsStatic_recoverLiterals_iff (sound : c.Sound) :
    c.recoverLiterals.1.CallsStatic s k i ↔
      c.CallsStatic s k i ∧ ∀ p ∈ recovered c, p.call.method = k → p.call.invoke ≠ i := by
  constructor
  · intro left
    obtain ⟨m', method', own'⟩ := left.method
    obtain ⟨changed, instructions', there, decoded', mem⟩ := left.code
    obtain ⟨index, r, operand, found, owner, named⟩ := left.refers
    obtain ⟨code, here⟩ := exists_codeAt? there
    obtain ⟨instructions, decoded⟩ := exists_decode sound here
    obtain ⟨old, notCall⟩ := mem_of_mem_changed sound here decoded there decoded' mem
      (by rw [left.opcode]; decide) (isConstantLoad_of_invokestatic left.opcode)
    obtain ⟨m, method, -⟩ := codeAt?_eq_some_iff.1 here
    obtain ⟨m'', method'', access⟩ := method_recoverLiterals method
    cases method'.symm.trans method''
    refine ⟨⟨⟨m, method, ?_⟩, ⟨code, instructions, here, decoded, old⟩, left.opcode,
      index, r, operand, (memberRef?_recoverLiterals sound).1 found, ?_, named⟩, notCall⟩
    · rw [Member.isNative, ← access]
      exact own'
    · rw [owner, className_recoverLiterals sound]
  · rintro ⟨call, notCall⟩
    obtain ⟨m, method, own⟩ := call.method
    obtain ⟨code, instructions, here, decoded, mem⟩ := call.code
    obtain ⟨index, r, operand, found, owner, named⟩ := call.refers
    obtain ⟨changed, instructions', there, decoded', -⟩ :=
      isStart_recoverLiterals sound here decoded
    obtain ⟨m', method', access⟩ := method_recoverLiterals method
    have stays := mem_changed_of_other sound here decoded there decoded' mem fun p hp at' => by
      refine ⟨fun load => ?_, notCall p hp at'⟩
      have constant := (loadedString?_eq_some
        (isSite_of_mem_found (mem_found_of_mem_recovered hp)).load).2
      rw [load, isConstantLoad_of_invokestatic call.opcode] at constant
      cases constant
    refine ⟨⟨m', method', ?_⟩, ⟨changed, instructions', there, decoded', stays⟩, call.opcode,
      index, r, operand, (memberRef?_recoverLiterals sound).2 found, ?_, named⟩
    · rw [Member.isNative, access]
      exact own
    · rw [owner, className_recoverLiterals sound]

/-- No call inside of a helper is recovered. -/
theorem not_isHelper_of_mem_recovered {p : Plain} (hp : p ∈ recovered c) :
    ¬c.IsHelper p.call.method := by
  rintro ⟨h, mem, same⟩
  exact (isSite_of_mem_found (mem_found_of_mem_recovered hp)).notHelper h mem same

/-- Outside of helpers, the calls of a helper's name and descriptor are those that are found for
the first helper of the name. -/
theorem callsStatic_iff_mem_calls (outside : ¬c.IsHelper k) {h : Helper}
    (first : c.helpers.find? (fun g => g.name == s.name) = some h)
    (descriptor : s.descriptor = Helper.descriptor) :
    c.CallsStatic s k i ↔
      ∃ call ∈ calls c, call.helper = h ∧ call.method = k ∧ call.invoke = i := by
  constructor
  · intro static
    obtain ⟨m, method, own⟩ := static.method
    obtain ⟨code, instructions, here, decoded, mem⟩ := static.code
    obtain ⟨index, r, operand, found, owner, named, descriptor'⟩ := static.refers
    obtain ⟨m', method', body, isBody, rfl⟩ := codeAt?_eq_some_iff.1 here
    cases method.symm.trans method'
    let site : CallSite := ⟨⟨k, m, body, instructions⟩, i, h⟩
    have inside : site.In c :=
      { here := method, own, isBody, decoded, mem, opcode := static.opcode
        notHelper := fun g hg same => outside ⟨g, hg, same⟩
        refers := ⟨index, r, operand, found, owner, descriptor'.trans descriptor,
          named.symm ▸ first⟩ }
    obtain ⟨looked, call, mem', same⟩ := exists_call inside
    have place := (in_of_mem_callsIn looked mem').2.1
    exact ⟨call, mem_calls_iff.2 ⟨_, looked, mem'⟩, congrArg CallSite.helper same, place,
      congrArg CallSite.invoke same⟩
  · rintro ⟨call, mem, rfl, rfl, rfl⟩
    obtain ⟨scan, looked, mem⟩ := mem_calls_iff.1 mem
    obtain ⟨inside, place, -⟩ := in_of_mem_callsIn looked mem
    obtain ⟨index, r, operand, found, owner, descriptor', first'⟩ := inside.refers
    rw [place]
    have named : r.name = s.name :=
      (ClassFile.name_of_find? first').symm.trans (ClassFile.name_of_find? first)
    exact ⟨⟨_, inside.here, inside.own⟩,
      ⟨_, _, codeAt?_eq_some_iff.2 ⟨_, inside.here, _, inside.isBody, rfl⟩, inside.decoded,
        inside.mem⟩, inside.opcode,
      index, r, operand, found, owner, named, descriptor'.trans descriptor.symm⟩

/-- Spent are the helpers that were called from outside of helpers and are not any more. -/
theorem mem_spent_iff_callsStatic (sound : c.Sound) : s ∈ c.recoverLiterals.2.spent ↔
    (∃ h ∈ c.helpers, h.symbol = s) ∧ (∃ k i, ¬c.IsHelper k ∧ c.CallsStatic s k i) ∧
      ∀ k i, ¬c.IsHelper k → ¬c.recoverLiterals.1.CallsStatic s k i := by
  rw [mem_spent_iff]
  constructor
  · rintro ⟨h, mem, rfl, ⟨call, hc, rfl⟩, all⟩
    obtain ⟨first, outside⟩ := find?_of_mem_calls hc
    refine ⟨⟨_, mem, rfl⟩, ⟨call.method, call.invoke, outside,
      (callsStatic_iff_mem_calls outside first rfl).2 ⟨call, hc, rfl, rfl, rfl⟩⟩, ?_⟩
    intro k i outside' left
    obtain ⟨static, notCall⟩ := (callsStatic_recoverLiterals_iff sound).1 left
    obtain ⟨other, ho, helper, rfl, rfl⟩ := (callsStatic_iff_mem_calls outside' first rfl).1 static
    obtain ⟨p, hp, same⟩ := all other ho helper
    exact notCall p hp (congrArg Call.method same) (congrArg Call.invoke same)
  · rintro ⟨⟨h, mem, rfl⟩, ⟨k, i, outside, static⟩, none⟩
    have some : (c.helpers.find? fun g => g.name == h.symbol.name).isSome = true :=
      List.find?_isSome.2 ⟨h, mem, beq_self_eq_true h.name⟩
    obtain ⟨g, first⟩ := Option.isSome_iff_exists.1 some
    have named : g.name = h.name := ClassFile.name_of_find? first
    obtain ⟨call, hc, helper, -⟩ := (callsStatic_iff_mem_calls outside first rfl).1 static
    refine ⟨g, List.mem_of_find?_eq_some first, ?_, ⟨call, hc, helper⟩, ?_⟩
    · rw [Helper.symbol, named]
      rfl
    · intro other ho helper'
      by_contra lost
      have outside' := (find?_of_mem_calls ho).2
      refine none _ _ outside' ((callsStatic_recoverLiterals_iff sound).2
        ⟨(callsStatic_iff_mem_calls outside' first rfl).2 ⟨other, ho, helper', rfl, rfl⟩, ?_⟩)
      intro p hp method invoke
      exact lost ⟨p, hp, eq_of_mem_calls
        (decodeCall?_of_mem_found (mem_found_of_mem_recovered hp)).1 ho method invoke⟩

/-- Spent are the helpers that were called from outside of helpers and are not any more. The calls
of a spent helper that are left are those inside of helpers, as they were: it has none left only if
no helper called it, itself included. All bodies can still be decoded, so no call goes unseen. -/
theorem spent_recoverLiterals {bytes : Bytes} (parsed : ClassFile.parse bytes = .ok c)
    (s : Symbol) :
    (s ∈ c.recoverLiterals.2.spent ↔
      (∃ h ∈ c.helpers, h.symbol = s) ∧ (∃ k i, ¬c.IsHelper k ∧ c.CallsStatic s k i) ∧
        ∀ k i, ¬c.IsHelper k → ¬c.recoverLiterals.1.CallsStatic s k i) ∧
    (s ∈ c.recoverLiterals.2.spent → ∀ k i,
      c.recoverLiterals.1.CallsStatic s k i ↔ c.IsHelper k ∧ c.CallsStatic s k i) ∧
    ∀ k code, c.recoverLiterals.1.codeAt? k = some code →
      ∃ instructions, Code.decode code = .ok instructions := by
  have sound := (ClassFile.parse_eq_ok_iff.1 parsed).1.1
  refine ⟨mem_spent_iff_callsStatic sound, fun isSpent k i => ?_,
    fun k code here => exists_decode sound.recoverLiterals here⟩
  obtain ⟨-, -, none⟩ := (mem_spent_iff_callsStatic sound).1 isSpent
  constructor
  · intro left
    refine ⟨?_, ((callsStatic_recoverLiterals_iff sound).1 left).1⟩
    by_contra outside
    exact none k i outside left
  · rintro ⟨helper, static⟩
    refine (callsStatic_recoverLiterals_iff sound).2 ⟨static, ?_⟩
    rintro p hp rfl
    exact absurd helper (not_isHelper_of_mem_recovered hp)

/-- The class `crossed` with one call in its method `m`, and with a second helper `e` that hands its
argument on to the first one. -/
def relayed : ClassFile := { crossed with
  pool := ⟨crossed.pool.slots ++ #[some (.utf8 [0x65])]⟩
  methods := (crossed.methods.modify 1 fun m => { m with
    attributes := [.code 7 ⟨8, 8, #[0x12, 9, 0xB8, 0, 6, 0xB0], [], []⟩] }).push
      { access := Access.public ||| Access.static, name := 22, descriptor := 4
        attributes := [.code 7 ⟨8, 8, #[0x2A, 0xB8, 0, 6, 0xB0], [], []⟩] } }

theorem parse_relayed : ClassFile.parse relayed.write = .ok relayed :=
  Except.eq_ok_of_toOption (by decide +kernel)

/-- The symbol of the first helper of `relayed`. -/
def relayedTarget : Symbol := { kind := .method, name := "d", descriptor := Helper.descriptor }

/-- The call in the second helper of `relayed`. -/
def relayedCall : Instruction := ⟨1, Opcode.invokestatic, 2, .index 6⟩

theorem callsStatic_relayed : relayed.CallsStatic relayedTarget 2 relayedCall where
  method := ⟨_, rfl, by decide⟩
  code := by
    obtain ⟨instructions, decoded, mem⟩ := ClassFile.exists_ok_of_map_toOption
      (f := fun row : Array Instruction => row.contains relayedCall) (b := true)
      (show (Code.decode #[0x2A, 0xB8, 0, 6, 0xB0]).toOption.map _ = _ by decide +kernel)
    exact ⟨_, instructions, rfl, decoded, Array.contains_iff_mem.1 mem⟩
  opcode := rfl
  refers := ⟨6, ⟨.method, "S", "d", Helper.descriptor⟩, rfl, by decide +kernel, by decide +kernel,
    rfl, rfl⟩

/-- The first helper is spent, and the second one calls it as before. -/
theorem spent_recoverLiterals_relayed : ClassFile.parse relayed.write = .ok relayed ∧
    relayed.recoverLiterals.2.spent = [relayedTarget] ∧
    ∀ k i, relayed.recoverLiterals.1.CallsStatic relayedTarget k i ↔
      relayed.IsHelper k ∧ relayed.CallsStatic relayedTarget k i := by
  have isSpent : relayed.recoverLiterals.2.spent = [relayedTarget] := by decide +kernel
  obtain ⟨-, left, -⟩ := spent_recoverLiterals parse_relayed relayedTarget
  exact ⟨parse_relayed, isSpent, left (by rw [isSpent]; exact List.mem_singleton.2 rfl)⟩

/-- A helper that is spent and still called, by another helper. -/
theorem exists_spent_called : ∃ s ∈ relayed.recoverLiterals.2.spent, ∃ k i,
    relayed.recoverLiterals.1.CallsStatic s k i := by
  have helpers : relayed.helpers.map Helper.method = [0, 2] := by decide +kernel
  have isSpent : relayed.recoverLiterals.2.spent = [relayedTarget] := by decide +kernel
  have sound := (ClassFile.parse_eq_ok_iff.1 parse_relayed).1.1
  refine ⟨relayedTarget, by rw [isSpent]; exact List.mem_singleton.2 rfl, 2, relayedCall,
    (callsStatic_recoverLiterals_iff sound).2 ⟨callsStatic_relayed, fun p hp at' => ?_⟩⟩
  have helper : 2 ∈ relayed.helpers.map Helper.method := by rw [helpers]; decide
  obtain ⟨h, mem, same⟩ := List.mem_map.1 helper
  exact absurd ⟨h, mem, same.trans at'.symm⟩ (not_isHelper_of_mem_recovered hp)

end Literal

end Clarify
