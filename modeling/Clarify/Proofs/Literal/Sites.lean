import Clarify.Pass.Literal
import Clarify.Proofs.ClassFile.WellFormed

/-!
# The calls that are found

A call with a plain text is a load of a constant string and, right behind it, the call of a helper.
No two of them share a byte.

Results:
* `isSite_of_mem_found`: what a call with a plain text is.
* `pairwise_found`: the calls lie behind each other.
-/

namespace Clarify

/-- The machine code of the method at a position. -/
def ClassFile.codeAt? (c : ClassFile) (position : Nat) : Option (Array UInt8) :=
  (c.methods[position]?).bind fun m => m.body?.map Code.bytes

namespace Literal

theorem codeAt?_eq_some_iff {c : ClassFile} {k : Nat} {code : Array UInt8} :
    c.codeAt? k = some code ↔
      ∃ m, c.methods[k]? = some m ∧ ∃ body, m.body? = some body ∧ body.bytes = code := by
  rw [ClassFile.codeAt?, Option.bind_eq_some_iff]
  simp only [Option.map_eq_some_iff]

/-! ## Definitions -/

/-- The calls with a plain text, as they are found in a class. -/
def found (c : ClassFile) : List Plain :=
  ((((scanned c).flatMap (findingsIn c c.helpers)).filterMap Finding.call?).filterMap
    (decodeCall? c.pool)).filterMap Except.toOption

/-- The constants of a class that get another text. -/
def edited (c : ClassFile) : Std.TreeSet UInt16 := exclusive c (scanned c) (found c)

/-- The second instruction calls the helper. -/
def Invokes (c : ClassFile) (p : Plain) : Prop :=
  p.call.invoke.opcode = Opcode.invokestatic ∧
    ∃ index r, p.call.invoke.poolIndex? = some index ∧ c.pool.memberRef? index = some r ∧
      r.owner = c.className ∧ r.descriptor = Helper.descriptor ∧
      c.helpers.find? (fun h => h.name == r.name) = some p.call.helper

/-- The text is what the helper makes of the units of the string constant. -/
def Decodes (c : ClassFile) (p : Plain) : Prop :=
  ∃ decoding units, p.call.helper.decoding = some decoding ∧
    unitsAt? c.pool p.index = some units ∧ decoding.decode units = .ok p.text ∧
    p.unchanged = (Utf16.ofString p.text == units)

/-- A load of a constant string with the call of a helper right behind it, in a method that is
neither native nor a helper, and the text that the helper makes of the string. -/
structure IsSite (c : ClassFile) (p : Plain) : Prop where
  method : ∃ m, c.methods[p.call.method]? = some m ∧ m.isNative = false ∧
    p.call.label = c.labelOf m
  notHelper : ∀ h ∈ c.helpers, h.method ≠ p.call.method
  code : ∃ code instructions, c.codeAt? p.call.method = some code ∧
    Code.decode code = .ok instructions ∧ p.load ∈ instructions ∧ p.call.invoke ∈ instructions
  next : p.load.next = p.call.invoke.offset
  load : loadedString? c.pool p.load = some p.index
  invokes : Invokes c p
  decodes : Decodes c p

/-- A call that stands in another method, or behind an earlier call. -/
def Behind (earlier later : Plain) : Prop :=
  earlier.call.method ≠ later.call.method ∨ earlier.call.invoke.next ≤ later.load.offset

/-! ## Instructions and the ones before them -/

/-- An instruction stands right behind the one before it. -/
theorem next_of_mem_zip {code : Array UInt8} {pc : Nat} {row : List Instruction}
    (tiles : Code.Tiles code pc row) {before : Option Instruction}
    (place : ∀ x, before = some x → x.next = pc) {load i : Instruction}
    (mem : (some load, i) ∈ (before :: row.map some).zip row) :
    load.next = i.offset ∧ (before = some load ∨ load ∈ row) ∧ i ∈ row := by
  induction tiles generalizing before with
  | nil => simp at mem
  | @cons pc j rest _ read _ ih =>
    rw [List.map_cons, List.zip_cons_cons, List.mem_cons] at mem
    obtain eq | mem := mem
    · cases eq
      exact ⟨(place load rfl).trans (Code.offset_of_instructionAt read).symm, .inl rfl, by simp⟩
    · obtain ⟨next, from', here⟩ := ih (fun x eq => by cases eq; rfl) mem
      refine ⟨next, .inr ?_, by simp [here]⟩
      obtain eq | mem := from'
      · cases eq
        simp
      · simp [mem]

/-- An instruction stands behind the earlier ones, and so does the one before it, unless it is the
earlier one itself. -/
theorem pairwise_zip {code : Array UInt8} {pc : Nat} {row : List Instruction}
    (tiles : Code.Tiles code pc row) (before : Option Instruction) :
    ((before :: row.map some).zip row).Pairwise fun x y =>
      ∀ load, y.1 = some load → load = x.2 ∨ x.2.next ≤ load.offset := by
  induction tiles generalizing before with
  | nil => simp
  | @cons pc j rest _ read tiles ih =>
    rw [List.map_cons, List.zip_cons_cons, List.pairwise_cons]
    refine ⟨?_, ih (some j)⟩
    rintro ⟨y, i⟩ mem load rfl
    obtain ⟨-, from', -⟩ := next_of_mem_zip tiles (fun x eq => by cases eq; rfl) mem
    obtain eq | mem := from'
    · cases eq
      exact .inl rfl
    · exact .inr (tiles.read mem).2

/-! ## One call -/

/-- The plain text behind a finding. -/
def plain? (pool : Pool) (f : Finding) : Option Plain :=
  f.call?.bind fun call => (decodeCall? pool call).bind Except.toOption

theorem found_eq (c : ClassFile) :
    found c = ((scanned c).flatMap (findingsIn c c.helpers)).filterMap (plain? c.pool) := by
  rw [found, List.filterMap_filterMap, List.filterMap_filterMap]
  rfl

theorem decodeCall?_eq_ok {pool : Pool} {call : Call} {p : Plain}
    (h : decodeCall? pool call = some (.ok p)) :
    p.call = call ∧ call.load = some (p.load, p.index) ∧ ∃ decoding units,
      call.helper.decoding = some decoding ∧ unitsAt? pool p.index = some units ∧
        decoding.decode units = .ok p.text ∧ p.unchanged = (Utf16.ofString p.text == units) := by
  simp only [decodeCall?, Option.bind_eq_bind, Option.bind_eq_some_iff] at h
  obtain ⟨⟨load, index⟩, place, decoding, rule, units, raw, h⟩ := h
  split at h
  · next text decoded =>
    cases h
    exact ⟨rfl, place, decoding, units, rule, raw, decoded, rfl⟩
  · cases h

theorem plain?_eq_some {pool : Pool} {f : Finding} {p : Plain} (h : plain? pool f = some p) :
    f = .call p.call ∧ decodeCall? pool p.call = some (.ok p) := by
  rw [plain?, Option.bind_eq_some_iff] at h
  obtain ⟨call, isCall, h⟩ := h
  obtain ⟨decoded, h, ok⟩ := Option.bind_eq_some_iff.1 h
  rcases decoded with e | q
  · cases ok
  · cases ok
    rw [(decodeCall?_eq_ok h).1]
    rcases f with k | name
    · cases isCall
      exact ⟨rfl, h⟩
    · cases isCall

theorem finding?_eq_call {c : ClassFile} {helpers : List Helper} {method : Nat} {label : String}
    {marks : Array Bool} {previous : Option Instruction} {i : Instruction} {call : Call}
    (h : finding? c helpers method label marks previous i = some (.call call)) :
    call.method = method ∧ call.label = label ∧ call.invoke = i ∧
      call.load = loadBefore? c.pool marks previous i ∧ i.opcode = Opcode.invokestatic ∧
      ∃ index r, i.poolIndex? = some index ∧ c.pool.memberRef? index = some r ∧
        r.owner = c.className ∧ r.descriptor = Helper.descriptor ∧
        helpers.find? (fun h => h.name == r.name) = some call.helper := by
  unfold finding? at h
  split at h
  · cases h
  · next isCall =>
    simp only [Option.bind_eq_bind, Option.bind_eq_some_iff] at h
    obtain ⟨index, operand, r, ref, h⟩ := h
    split at h
    · cases h
    · next own =>
      rw [not_or, Decidable.not_not, Decidable.not_not] at own
      split at h
      · next helper found =>
        cases h
        exact ⟨rfl, rfl, rfl, rfl, Decidable.not_not.1 isCall, index, r, operand, ref, own.1,
          own.2, found⟩
      · split at h <;> cases h

theorem loadedString?_eq_some_iff {pool : Pool} {i : Instruction} {index : UInt16} :
    loadedString? pool i = some index ↔ Helper.isConstantLoad i = true ∧
      i.poolIndex? = some index ∧ (pool.string? index).isSome = true := by
  simp only [loadedString?, Option.bind_eq_bind, Option.bind_eq_some_iff]
  constructor
  · rintro ⟨n, operand, found⟩
    split at found
    · next loads =>
      cases found
      obtain ⟨constant, string⟩ := Bool.and_eq_true_iff.1 loads
      exact ⟨constant, operand, string⟩
    · cases found
  · rintro ⟨constant, operand, string⟩
    exact ⟨index, operand, if_pos (Bool.and_eq_true_iff.2 ⟨constant, string⟩)⟩

theorem loadedString?_eq_some {pool : Pool} {i : Instruction} {index : UInt16}
    (h : loadedString? pool i = some index) :
    i.poolIndex? = some index ∧ Helper.isConstantLoad i = true := by
  obtain ⟨constant, operand, -⟩ := loadedString?_eq_some_iff.1 h
  exact ⟨operand, constant⟩

theorem loadBefore?_eq_some_iff {pool : Pool} {marks : Array Bool} {previous : Option Instruction}
    {invoke load : Instruction} {index : UInt16} :
    loadBefore? pool marks previous invoke = some (load, index) ↔
      previous = some load ∧ loadedString? pool load = some index ∧
        ¬marks.getD invoke.offset false = true := by
  constructor
  · intro found
    simp only [loadBefore?, Option.bind_eq_bind, Option.bind_eq_some_iff] at found
    obtain ⟨i, rfl, n, loads, found⟩ := found
    split at found
    · cases found
    · next alone =>
      cases found
      exact ⟨rfl, loads, alone⟩
  · rintro ⟨rfl, loads, alone⟩
    rw [loadBefore?, Option.bind_eq_bind, Option.bind_some, loads, Option.bind_eq_bind,
      Option.bind_some, if_neg alone]

/-! ## All calls -/

/-- What is looked at in a method, if anything. -/
def scan? (m : Member) (position : Nat) : Option Scanned := do
  if m.isNative then none
  let body ← m.body?
  let instructions ← body.instructions.toOption
  return { position, method := m, body, instructions }

theorem scanned_eq (c : ClassFile) :
    scanned c = c.methods.toList.zipIdx.filterMap fun (m, position) => scan? m position :=
  rfl

theorem scan?_eq_some {m : Member} {position : Nat} {s : Scanned} (h : scan? m position = some s) :
    s.position = position ∧ s.method = m ∧ m.isNative = false ∧ m.body? = some s.body ∧
      s.body.instructions = .ok s.instructions := by
  unfold scan? at h
  split at h
  · cases h
  · next own =>
    simp only [Option.bind_eq_bind, Option.bind_eq_some_iff] at h
    obtain ⟨body, hasBody, instructions, decoded, h⟩ := h
    cases h
    refine ⟨rfl, rfl, eq_false_of_ne_true own, hasBody, ?_⟩
    rcases e : body.instructions with _ | row
    · rw [e] at decoded
      cases decoded
    · rw [e] at decoded
      cases decoded
      rfl

/-- What is looked at: the bodies of the methods that are not native. -/
theorem mem_scanned_iff {c : ClassFile} {s : Scanned} : s ∈ scanned c ↔
    c.methods[s.position]? = some s.method ∧ s.method.isNative = false ∧
      s.method.body? = some s.body ∧ s.body.instructions = .ok s.instructions := by
  rw [scanned_eq, List.mem_filterMap]
  constructor
  · rintro ⟨⟨m, position⟩, mem, scan⟩
    obtain ⟨place, rfl, own, body, decoded⟩ := scan?_eq_some scan
    have here := List.mk_mem_zipIdx_iff_getElem?.1 mem
    rw [Array.getElem?_toList, ← place] at here
    exact ⟨here, own, body, decoded⟩
  · rintro ⟨here, own, isBody, decoded⟩
    refine ⟨(s.method, s.position), ?_, ?_⟩
    · rw [List.mk_mem_zipIdx_iff_getElem?, Array.getElem?_toList]
      exact here
    · simp only [scan?, own, Bool.false_eq_true, if_false, isBody, decoded, Except.toOption,
        Option.bind_eq_bind, Option.bind_some]
      rfl

/-- No method is looked at twice. -/
theorem pairwise_scanned (c : ClassFile) :
    (scanned c).Pairwise fun s t => s.position ≠ t.position := by
  rw [scanned_eq, List.pairwise_filterMap]
  have apart : c.methods.toList.zipIdx.Pairwise fun x y => x.2 ≠ y.2 := by
    rw [← List.pairwise_map (f := Prod.snd), List.zipIdx_map_snd]
    exact List.nodup_range'
  refine apart.imp fun {x y} ne s hs t ht => ?_
  rw [(scan?_eq_some hs).1, (scan?_eq_some ht).1]
  exact ne

theorem filterMap_findingsIn {c : ClassFile} {helpers : List Helper} {s : Scanned} :
    (findingsIn c helpers s).filterMap (plain? c.pool) =
      if helpers.any fun h => h.method == s.position then [] else
        (Helper.withPrevious s.instructions.toList).filterMap fun (previous, i) =>
          (finding? c helpers s.position (c.labelOf s.method) (s.body.jumpMarks s.instructions)
            previous i).bind (plain? c.pool) := by
  unfold findingsIn
  split
  · rfl
  · rw [List.filterMap_filterMap]

/-- A call with a plain text comes from an instruction and the one before it. -/
theorem plain_of_finding {c : ClassFile} {method : Nat} {label : String} {marks : Array Bool}
    {previous : Option Instruction} {i : Instruction} {p : Plain}
    (h : (finding? c c.helpers method label marks previous i).bind (plain? c.pool) = some p) :
    (previous = some p.load ∧ i = p.call.invoke ∧ p.call.method = method ∧ p.call.label = label) ∧
      loadedString? c.pool p.load = some p.index ∧ Invokes c p ∧ Decodes c p := by
  obtain ⟨f, finds, h⟩ := Option.bind_eq_some_iff.1 h
  obtain ⟨rfl, decoded⟩ := plain?_eq_some h
  obtain ⟨rfl, rfl, rfl, load, invoke⟩ := finding?_eq_call finds
  obtain ⟨-, loaded, text⟩ := decodeCall?_eq_ok decoded
  rw [loaded] at load
  obtain ⟨rfl, string, -⟩ := loadBefore?_eq_some_iff.1 load.symm
  exact ⟨⟨rfl, rfl, rfl, rfl⟩, string, invoke, text⟩

/-- A load of a constant calls nothing. -/
theorem load_ne_invoke {c : ClassFile} {p q : Plain}
    (load : loadedString? c.pool p.load = some p.index) (invoke : Invokes c q) :
    p.load ≠ q.call.invoke := by
  intro same
  have constant := (loadedString?_eq_some load).2
  rw [same, Helper.isConstantLoad, invoke.1] at constant
  exact absurd constant (by decide)

/-- What a call with a plain text is. -/
theorem isSite_of_mem_found {c : ClassFile} {p : Plain} (h : p ∈ found c) : IsSite c p := by
  rw [found_eq, List.filterMap_flatMap, List.mem_flatMap] at h
  obtain ⟨s, looked, h⟩ := h
  obtain ⟨here, own, body, decoded⟩ := mem_scanned_iff.1 looked
  rw [filterMap_findingsIn] at h
  split at h
  · cases h
  · next notHelper =>
    obtain ⟨⟨previous, i⟩, pair, h⟩ := List.mem_filterMap.1 h
    obtain ⟨⟨rfl, rfl, method, label⟩, string, invoke, text⟩ := plain_of_finding h
    obtain ⟨next, loadMem, invokeMem⟩ :=
      next_of_mem_zip (Code.tiles_of_decode decoded) (fun _ eq => by cases eq) pair
    refine ⟨⟨s.method, by rw [method]; exact here, own, label⟩, ?_,
      ⟨s.body.bytes, s.instructions, ?_, decoded, ?_, ?_⟩, next, string, invoke, text⟩
    · intro h mem same
      refine notHelper (List.any_eq_true.2 ⟨h, mem, ?_⟩)
      rw [beq_iff_eq, same, method]
    · rw [method, ClassFile.codeAt?, here, Option.bind_some, body]
      rfl
    · exact Array.mem_toList_iff.1 (loadMem.resolve_left nofun)
    · exact Array.mem_toList_iff.1 invokeMem

/-- The calls lie behind each other. -/
theorem pairwise_found (c : ClassFile) : (found c).Pairwise Behind := by
  rw [found_eq, List.filterMap_flatMap, List.pairwise_flatMap]
  constructor
  · intro s looked
    rw [filterMap_findingsIn]
    split
    · exact .nil
    · obtain ⟨-, -, -, decoded⟩ := mem_scanned_iff.1 looked
      rw [List.pairwise_filterMap]
      refine (pairwise_zip (Code.tiles_of_decode decoded) none).imp ?_
      rintro ⟨_, i⟩ ⟨previous, j⟩ apart p hp q hq
      obtain ⟨⟨-, rfl, -⟩, -, invoke, -⟩ := plain_of_finding hp
      obtain ⟨⟨rfl, -⟩, load, -⟩ := plain_of_finding hq
      -- The load of a call right behind another one is not that other call.
      exact .inr ((apart q.load rfl).resolve_left (load_ne_invoke load invoke))
  · refine (pairwise_scanned c).imp ?_
    intro s t ne p hp q hq
    rw [filterMap_findingsIn] at hp hq
    split at hp
    · cases hp
    · split at hq
      · cases hq
      · obtain ⟨⟨previous, i⟩, -, hp⟩ := List.mem_filterMap.1 hp
        obtain ⟨⟨_, j⟩, -, hq⟩ := List.mem_filterMap.1 hq
        obtain ⟨⟨-, -, here, -⟩, -⟩ := plain_of_finding hp
        obtain ⟨⟨-, -, there, -⟩, -⟩ := plain_of_finding hq
        exact .inl (by rw [here, there]; exact ne)

end Literal

end Clarify
