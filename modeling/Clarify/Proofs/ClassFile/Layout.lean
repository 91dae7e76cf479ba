import Clarify.ClassFile.Code
import Clarify.Proofs.Except

/-!
# The layout of machine code

What decoding an instruction reads, and how the instructions of a body lie one behind the other.

Results:
* `instructionAt_shift`: an instruction without targets is read the same wherever its bytes stand.
* `instructionAt_congr`: reading an instruction depends on its own bytes and the size of the code.
* `decode_eq_ok_iff`: code decodes to a row of instructions exactly if they tile it and every target
  is the offset of one of them.
-/

namespace Clarify

/-- A property of all bytes is checked byte by byte. -/
theorem forall_byte {p : UInt8 → Prop} (h : ∀ n : Fin 256, p (UInt8.ofFin n)) (b : UInt8) :
    p b :=
  h b.toFin

namespace Code

/-! ## What decoding reads -/

theorem need_eq_ok_iff {code : Array UInt8} {offset length : Nat} {u : Unit} :
    need code offset length = .ok u ↔ offset + length ≤ code.size := by
  unfold need
  split <;> simp [*]

theorem target_eq_ok_iff {code : Array UInt8} {pc t : Nat} {distance : Int} :
    target code pc distance = .ok t ↔ (pc : Int) + distance = t ∧ t < code.size := by
  simp only [target]
  split
  · simp only [Except.ok.injEq]; omega
  · simp only [reduceCtorEq, false_iff]; omega

theorem wideAt_eq_ok_iff {code : Array UInt8} {pc n : Nat} {o : Operand} :
    wideAt code pc = .ok (o, n) ↔ pc + n < code.size ∧
      (byteAt code (pc + 1) = Opcode.iinc ∧
          o = .increment (wordAt code (pc + 2)) (shortAt code (pc + 4)) ∧ n = 5 ∨
        byteAt code (pc + 1) ≠ Opcode.iinc ∧ Opcode.isLocalAccess (byteAt code (pc + 1)) ∧
          o = .slot (wordAt code (pc + 2)) ∧ n = 3) := by
  unfold wideAt
  simp only [Except.bind_eq_ok_iff, need_eq_ok_iff, exists_const]
  constructor
  · rintro ⟨-, h⟩
    split at h
    · simp only [Except.bind_eq_ok_iff, need_eq_ok_iff, exists_const, Except.pure_eq_ok_iff,
        Prod.mk.injEq] at h
      obtain ⟨room, rfl, rfl⟩ := h
      exact ⟨by omega, .inl ⟨‹_›, rfl, rfl⟩⟩
    · split at h
      · simp only [Except.bind_eq_ok_iff, need_eq_ok_iff, exists_const, Except.pure_eq_ok_iff,
          Prod.mk.injEq] at h
        obtain ⟨room, rfl, rfl⟩ := h
        exact ⟨by omega, .inr ⟨‹_›, ‹_›, rfl, rfl⟩⟩
      · exact absurd h Except.throw_eq_ok_iff.1
  · rintro ⟨room, ⟨op, rfl, rfl⟩ | ⟨op, slot, rfl, rfl⟩⟩
    · rw [if_pos op]
      simp only [Except.bind_eq_ok_iff, need_eq_ok_iff, exists_const, Except.pure_eq_ok_iff,
        and_true]
      omega
    · rw [if_neg op, if_pos slot]
      simp only [Except.bind_eq_ok_iff, need_eq_ok_iff, exists_const, Except.pure_eq_ok_iff,
        and_true]
      omega

theorem tableSwitchAt_eq_ok_iff {code : Array UInt8} {pc n : Nat} {o : Operand} :
    tableSwitchAt code pc = .ok (o, n) ↔ ∃ default targets count,
      o = .switch default targets ∧ n = padding pc + 12 + count * 4 ∧ pc + n < code.size ∧
        0 < count ∧
        intAt code (pc + 1 + padding pc + 8) - intAt code (pc + 1 + padding pc + 4) + 1 = count ∧
        target code pc (intAt code (pc + 1 + padding pc)) = .ok default ∧
        targetsFrom code pc (pc + 1 + padding pc + 12) 4 count = .ok targets := by
  unfold tableSwitchAt
  simp only [Except.bind_eq_ok_iff, need_eq_ok_iff, exists_const]
  constructor
  · rintro ⟨room, default, first, h⟩
    split at h
    · simp [Except.bind_eq_ok_iff, Except.throw_eq_ok_iff] at h
    · simp only [Except.bind_eq_ok_iff, need_eq_ok_iff, exists_const, Except.pure_eq_ok_iff,
        Prod.mk.injEq] at h
      obtain ⟨behind, targets, rest, rfl, rfl⟩ := h
      exact ⟨default, targets, _, rfl, rfl, by omega, by omega, by omega, first, rest⟩
  · rintro ⟨default, targets, count, rfl, rfl, room, positive, number, first, rest⟩
    refine ⟨by omega, default, first, ?_⟩
    rw [if_neg (by omega), number]
    simp only [Except.bind_eq_ok_iff, need_eq_ok_iff, exists_const, Except.pure_eq_ok_iff,
      Prod.mk.injEq]
    exact ⟨by simp only [Int.toNat_natCast]; omega, targets, rest, rfl, by simp⟩

theorem lookupSwitchAt_eq_ok_iff {code : Array UInt8} {pc n : Nat} {o : Operand} :
    lookupSwitchAt code pc = .ok (o, n) ↔ ∃ default targets count,
      o = .switch default targets ∧ n = padding pc + 8 + count * 8 ∧ pc + n < code.size ∧
        intAt code (pc + 1 + padding pc + 4) = count ∧
        target code pc (intAt code (pc + 1 + padding pc)) = .ok default ∧
        targetsFrom code pc (pc + 1 + padding pc + 12) 8 count = .ok targets := by
  unfold lookupSwitchAt
  simp only [Except.bind_eq_ok_iff, need_eq_ok_iff, exists_const]
  constructor
  · rintro ⟨room, default, first, h⟩
    split at h
    · simp [Except.bind_eq_ok_iff, Except.throw_eq_ok_iff] at h
    · simp only [Except.bind_eq_ok_iff, need_eq_ok_iff, exists_const, Except.pure_eq_ok_iff,
        Prod.mk.injEq] at h
      obtain ⟨behind, targets, rest, rfl, rfl⟩ := h
      exact ⟨default, targets, _, rfl, rfl, by omega, by omega, first, rest⟩
  · rintro ⟨default, targets, count, rfl, rfl, room, number, first, rest⟩
    refine ⟨by omega, default, first, ?_⟩
    rw [if_neg (by omega), number]
    simp only [Except.bind_eq_ok_iff, need_eq_ok_iff, exists_const, Except.pure_eq_ok_iff,
      Prod.mk.injEq]
    exact ⟨by simp only [Int.toNat_natCast]; omega, targets, rest, rfl, by simp⟩

theorem instructionAt_eq_ok_iff {code : Array UInt8} {pc : Nat} {i : Instruction} :
    instructionAt code pc = .ok i ↔
      operandAt code pc = .ok (i.operand, i.operandLength) ∧ i.offset = pc ∧
        i.opcode = byteAt code pc := by
  simp only [instructionAt, Except.bind_eq_ok_iff, Except.pure_eq_ok_iff]
  constructor
  · rintro ⟨found, h, rfl⟩
    exact ⟨h, rfl, rfl⟩
  · rintro ⟨h, rfl, op⟩
    exact ⟨_, h, by rw [← op]⟩

theorem instructionAt_of_bare {code : Array UInt8} {pc : Nat}
    (bare : Opcode.shape? (byteAt code pc) = some .bare) :
    instructionAt code pc = .ok ⟨pc, byteAt code pc, 0, .bare⟩ :=
  instructionAt_eq_ok_iff.2 ⟨by simp only [operandAt, bare], rfl, rfl⟩

/-! ## Bytes that are the same in two places -/

/-- The `n` bytes of `a` from `p` on are those of `b` from `q` on. -/
def SameBytes (a : Array UInt8) (p : Nat) (b : Array UInt8) (q n : Nat) : Prop :=
  ∀ k < n, byteAt b (q + k) = byteAt a (p + k)

namespace SameBytes

variable {a b c : Array UInt8} {p q r n : Nat}

theorem refl (a : Array UInt8) (p n : Nat) : SameBytes a p a p n := fun _ _ => rfl

theorem symm (h : SameBytes a p b q n) : SameBytes b q a p n := fun k hk => (h k hk).symm

theorem trans (h : SameBytes a p b q n) (h' : SameBytes b q c r n) : SameBytes a p c r n :=
  fun k hk => (h' k hk).trans (h k hk)

theorem mono (h : SameBytes a p b q n) {m : Nat} (hm : m ≤ n) : SameBytes a p b q m :=
  fun k hk => h k (by omega)

theorem drop (h : SameBytes a p b q n) (m : Nat) : SameBytes a (p + m) b (q + m) (n - m) :=
  fun k hk => by rw [Nat.add_assoc, Nat.add_assoc]; exact h (m + k) (by omega)

theorem wordAt (h : SameBytes a p b q n) {k : Nat} (hk : k + 1 < n) :
    wordAt b (q + k) = wordAt a (p + k) := by
  simp only [Code.wordAt, Nat.add_assoc]
  rw [h k (by omega), h (k + 1) hk]

theorem shortAt (h : SameBytes a p b q n) {k : Nat} (hk : k + 1 < n) :
    shortAt b (q + k) = shortAt a (p + k) := by
  simp only [Code.shortAt, h.wordAt hk]

theorem intAt (h : SameBytes a p b q n) {k : Nat} (hk : k + 3 < n) :
    intAt b (q + k) = intAt a (p + k) := by
  simp only [Code.intAt, Nat.add_assoc]
  rw [h k (by omega), h (k + 1) (by omega), h (k + 2) (by omega), h (k + 3) hk]

theorem intAt_here (h : SameBytes a p b p n) {k : Nat} (lo : p ≤ k) (hi : k + 3 < p + n) :
    Code.intAt b k = Code.intAt a k := by
  obtain ⟨j, rfl⟩ := Nat.exists_eq_add_of_le lo
  exact h.intAt (by omega)

end SameBytes

/-- Stretches of code are equal if their bytes are. -/
theorem extract_eq_extract_iff {a b : Array UInt8} {p q n : Nat} (ha : p + n ≤ a.size)
    (hb : q + n ≤ b.size) : b.extract q (q + n) = a.extract p (p + n) ↔ SameBytes a p b q n := by
  have byte {c : Array UInt8} {r k : Nat} (hc : r + n ≤ c.size) (hk : k < n) :
      (c.extract r (r + n))[k]? = some (byteAt c (r + k)) := by
    rw [Array.getElem?_extract, if_pos (by omega), byteAt, Array.getD_eq_getD_getElem?,
      Array.getElem?_eq_getElem (by omega), Option.getD_some]
  constructor
  · intro h k hk
    have at' := congrArg (·[k]?) h
    simp only [byte ha hk, byte hb hk, Option.some.injEq] at at'
    exact at'
  · intro h
    refine Array.ext_getElem? fun k => ?_
    by_cases hk : k < n
    · rw [byte ha hk, byte hb hk, h k hk]
    · rw [Array.getElem?_eq_none, Array.getElem?_eq_none] <;> rw [Array.size_extract] <;> omega

/-! ## Reading an instruction elsewhere -/

theorem targetsFrom_congr {a b : Array UInt8} {pc start stride count : Nat}
    (size : b.size = a.size)
    (same : ∀ i < count, intAt b (start + i * stride) = intAt a (start + i * stride)) :
    targetsFrom b pc start stride count = targetsFrom a pc start stride count := by
  unfold targetsFrom
  have step : ∀ l : List Nat, (∀ i ∈ l, i < count) →
      (l.mapM fun i => target b pc (intAt b (start + i * stride))) =
        l.mapM fun i => target a pc (intAt a (start + i * stride)) := by
    intro l
    induction l with
    | nil => intro _; simp only [List.mapM_nil]
    | cons i l ih =>
      intro inside
      rw [List.mapM_cons, List.mapM_cons, ih fun j hj => inside j (by simp [hj]),
        same i (inside i (by simp))]
      simp only [target, size]
  exact step _ fun i hi => List.mem_range.1 hi

/-- An instruction without targets is read the same wherever its bytes stand. -/
theorem instructionAt_shift {a b : Array UInt8} {p q : Nat} {i : Instruction}
    (h : instructionAt a p = .ok i) (flat : i.targets = [])
    (same : SameBytes a p b q i.length) (room : q + i.length ≤ b.size) :
    instructionAt b q = .ok { i with offset := q } := by
  rw [instructionAt_eq_ok_iff] at h ⊢
  obtain ⟨ho, -, op⟩ := h
  obtain ⟨offset, opcode, n, o⟩ := i
  simp only [Instruction.length] at same room ho op ⊢
  have first : byteAt b q = byteAt a p := same 0 (by omega)
  refine ⟨?_, trivial, by rw [op, first]⟩
  unfold operandAt at ho ⊢
  rw [first]
  simp only at ho ⊢
  split at ho
  case h_1 => cases ho
  case h_2 => exact ho
  case h_10 | h_11 =>
    simp only [Except.bind_eq_ok_iff, need_eq_ok_iff, exists_const] at ho
    obtain ⟨-, t, -, h⟩ := ho
    cases h
    simp [Instruction.targets] at flat
  case h_12 =>
    obtain ⟨default, targets, count, rfl, -⟩ := tableSwitchAt_eq_ok_iff.1 ho
    simp [Instruction.targets] at flat
  case h_13 =>
    obtain ⟨default, targets, count, rfl, -⟩ := lookupSwitchAt_eq_ok_iff.1 ho
    simp [Instruction.targets] at flat
  case h_16 =>
    rw [wideAt_eq_ok_iff] at ho ⊢
    obtain ⟨-, ⟨op, rfl, rfl⟩ | ⟨op, slot, rfl, rfl⟩⟩ := ho
    · rw [same 1 (by omega), same.wordAt (by omega), same.shortAt (by omega)]
      exact ⟨by omega, .inl ⟨op, rfl, rfl⟩⟩
    · rw [same 1 (by omega), same.wordAt (by omega)]
      exact ⟨by omega, .inr ⟨op, slot, rfl, rfl⟩⟩
  all_goals
    simp only [Except.bind_eq_ok_iff, need_eq_ok_iff, exists_const, Except.pure_eq_ok_iff,
      Prod.mk.injEq] at ho ⊢
    obtain ⟨-, rfl, rfl⟩ := ho
    refine ⟨by omega, ?_, rfl⟩
  · rw [same 1 (by omega)]
  · rw [same.shortAt (by omega)]
  · rw [same 1 (by omega)]
  · rw [same.wordAt (by omega)]
  · rw [same.wordAt (by omega)]
  · rw [same 1 (by omega)]
  · rw [same 1 (by omega), same 2 (by omega)]
  · rw [same 1 (by omega)]
  · rw [same.wordAt (by omega), same 3 (by omega)]

theorem two_le_length_of_wide {code : Array UInt8} {pc : Nat} {i : Instruction}
    (h : instructionAt code pc = .ok i) (wide : i.opcode = Opcode.wide) : 2 ≤ i.length := by
  obtain ⟨ho, -, opcode⟩ := instructionAt_eq_ok_iff.1 h
  rw [operandAt, ← opcode, wide] at ho
  obtain ⟨-, ⟨-, -, n⟩ | ⟨-, -, -, n⟩⟩ := wideAt_eq_ok_iff.1 ho <;>
    rw [Instruction.length, n] <;> omega

/-- An instruction that is read inside the code ends inside it. -/
theorem next_le_size {code : Array UInt8} {pc : Nat} {i : Instruction}
    (h : instructionAt code pc = .ok i) (inside : pc < code.size) : i.next ≤ code.size := by
  obtain ⟨ho, rfl, -⟩ := instructionAt_eq_ok_iff.1 h
  obtain ⟨offset, opcode, n, o⟩ := i
  simp only [Instruction.next, Instruction.length] at ho inside ⊢
  unfold operandAt at ho
  simp only at ho
  split at ho
  case h_1 => cases ho
  case h_2 => cases ho; omega
  case h_12 =>
    obtain ⟨default, targets, count, -, -, room, -⟩ := tableSwitchAt_eq_ok_iff.1 ho
    omega
  case h_13 =>
    obtain ⟨default, targets, count, -, -, room, -⟩ := lookupSwitchAt_eq_ok_iff.1 ho
    omega
  case h_16 => have := (wideAt_eq_ok_iff.1 ho).1; omega
  case h_10 | h_11 =>
    simp only [Except.bind_eq_ok_iff, need_eq_ok_iff, exists_const] at ho
    obtain ⟨room, t, -, h⟩ := ho
    cases h
    omega
  all_goals
    simp only [Except.bind_eq_ok_iff, need_eq_ok_iff, exists_const, Except.pure_eq_ok_iff,
      Prod.mk.injEq] at ho
    obtain ⟨room, -, rfl⟩ := ho
    omega

/-- Reading an instruction depends on its own bytes and on the size of the code. -/
theorem instructionAt_congr {a b : Array UInt8} {p : Nat} {i : Instruction}
    (h : instructionAt a p = .ok i) (inside : p < a.size) (size : b.size = a.size)
    (same : SameBytes a p b p i.length) : instructionAt b p = .ok i := by
  have room := next_le_size h inside
  obtain ⟨ho, rfl, op⟩ := instructionAt_eq_ok_iff.1 h
  by_cases flat : i.targets = []
  · exact instructionAt_shift h flat same (size ▸ room)
  obtain ⟨p, opcode, n, o⟩ := i
  simp only [Instruction.length, Instruction.next] at same room ho op ⊢
  have first : byteAt b p = byteAt a p := same 0 (by omega)
  refine instructionAt_eq_ok_iff.2 ⟨?_, rfl, by rw [first]; exact op⟩
  unfold operandAt at ho ⊢
  simp only [first] at ho ⊢
  split at ho
  case h_10 | h_11 =>
    simp only [Except.bind_eq_ok_iff, need_eq_ok_iff, exists_const, Except.pure_eq_ok_iff,
      Prod.mk.injEq, target_eq_ok_iff] at ho ⊢
    obtain ⟨-, t, ht, rfl, rfl⟩ := ho
    refine ⟨by omega, t, ?_, rfl, rfl⟩
    first
    | rw [same.shortAt (by omega), size]; exact ht
    | rw [same.intAt (by omega), size]; exact ht
  case h_12 =>
    rw [tableSwitchAt_eq_ok_iff] at ho ⊢
    obtain ⟨default, targets, count, rfl, rfl, -, positive, number, first, rest⟩ := ho
    refine ⟨default, targets, count, rfl, rfl, by omega, positive, ?_, ?_, ?_⟩
    · rw [same.intAt_here (by omega) (by omega), same.intAt_here (by omega) (by omega)]
      exact number
    · rw [same.intAt_here (by omega) (by omega)]
      simpa only [target, size] using first
    · rw [targetsFrom_congr size fun k hk => same.intAt_here (by omega) (by omega)]
      exact rest
  case h_13 =>
    rw [lookupSwitchAt_eq_ok_iff] at ho ⊢
    obtain ⟨default, targets, count, rfl, rfl, -, number, first, rest⟩ := ho
    refine ⟨default, targets, count, rfl, rfl, by omega, ?_, ?_, ?_⟩
    · rw [same.intAt_here (by omega) (by omega)]
      exact number
    · rw [same.intAt_here (by omega) (by omega)]
      simpa only [target, size] using first
    · rw [targetsFrom_congr size fun k hk => same.intAt_here (by omega) (by omega)]
      exact rest
  -- No other shape has targets.
  case h_1 => cases ho
  case h_2 => cases ho; exact absurd rfl flat
  case h_16 =>
    obtain ⟨-, ⟨-, rfl, -⟩ | ⟨-, -, rfl, -⟩⟩ := wideAt_eq_ok_iff.1 ho <;> exact absurd rfl flat
  all_goals
    simp only [Except.bind_eq_ok_iff, need_eq_ok_iff, exists_const, Except.pure_eq_ok_iff,
      Prod.mk.injEq] at ho
    obtain ⟨-, rfl, -⟩ := ho
    exact absurd rfl flat

/-! ## Rows of instructions -/

/-- The instructions lie one behind the other in the code, from `pc` to its end. -/
inductive Tiles (code : Array UInt8) : Nat → List Instruction → Prop
  | nil : Tiles code code.size []
  | cons {pc : Nat} {i : Instruction} {rest : List Instruction} : pc < code.size →
      instructionAt code pc = .ok i → Tiles code i.next rest → Tiles code pc (i :: rest)

theorem offset_of_instructionAt {code : Array UInt8} {pc : Nat} {i : Instruction}
    (h : instructionAt code pc = .ok i) : i.offset = pc :=
  (instructionAt_eq_ok_iff.1 h).2.1

theorem instructionsFrom_eq_ok_iff {code : Array UInt8} {pc : Nat} (inside : pc ≤ code.size)
    {found result : Array Instruction} :
    instructionsFrom code pc found = .ok result ↔
      ∃ rest, Tiles code pc rest ∧ result.toList = found.toList ++ rest := by
  induction pc, found using instructionsFrom.induct code with
  | case1 pc found below i read ih =>
    have place := offset_of_instructionAt read
    have room := next_le_size read below
    rw [Instruction.next, place] at room
    rw [instructionsFrom, dif_pos below]
    simp only [read]
    rw [ih room]
    constructor
    · rintro ⟨rest, tiles, eq⟩
      refine ⟨i :: rest, .cons below read ?_, by simp [eq]⟩
      rwa [Instruction.next, place]
    · rintro ⟨rest, tiles, eq⟩
      cases tiles with
      | nil => omega
      | @cons _ j rest _ read' tiles =>
        rw [read] at read'
        cases read'
        refine ⟨rest, ?_, by simp [eq]⟩
        rwa [Instruction.next, place] at tiles
  | case2 pc found below e read =>
    rw [instructionsFrom, dif_pos below]
    simp only [read, reduceCtorEq, false_iff]
    rintro ⟨rest, tiles, -⟩
    cases tiles with
    | nil => omega
    | cons _ read' _ => rw [read] at read'; cases read'
  | case3 pc found below =>
    rw [instructionsFrom, dif_neg below]
    obtain rfl : pc = code.size := by omega
    constructor
    · rintro h
      cases h
      exact ⟨[], .nil, by simp⟩
    · rintro ⟨rest, tiles, eq⟩
      cases tiles with
      | nil => simp [Array.toList_inj.1 (eq.trans (List.append_nil _))]
      | cons below' => exact absurd below' below

/-- An offset at which an instruction of the row starts. -/
def IsStart (instructions : Array Instruction) (pc : Nat) : Prop :=
  ∃ i ∈ instructions, i.offset = pc

theorem forM_eq_ok_iff {α : Type} {f : α → Except FormatError Unit} {xs : List α} {u : Unit} :
    forM xs f = .ok u ↔ ∀ x ∈ xs, f x = .ok () := by
  induction xs with
  | nil => simp [pure, Except.pure]
  | cons x xs ih =>
    rw [List.forM_cons, Except.bind_eq_ok_iff]
    simp only [List.mem_cons, forall_eq_or_imp, ih]
    exact ⟨fun ⟨(), h, rest⟩ => ⟨h, rest⟩, fun ⟨h, rest⟩ => ⟨(), h, rest⟩⟩

theorem checkTargets_eq_ok_iff {starts : Array Bool} {i : Instruction} {u : Unit} :
    checkTargets starts i = .ok u ↔ ∀ t ∈ i.targets, starts.getD t false = true := by
  rw [checkTargets, List.forM_eq_forM, forM_eq_ok_iff]
  refine forall₂_congr fun t _ => ?_
  split <;> simp [*]

theorem Tiles.offset_lt {code : Array UInt8} {pc : Nat} {row : List Instruction}
    (h : Tiles code pc row) {i : Instruction} (hi : i ∈ row) : i.offset < code.size := by
  induction h with
  | nil => cases hi
  | cons below read _ ih =>
    obtain rfl | hi := List.mem_cons.1 hi
    · rw [offset_of_instructionAt read]; exact below
    · exact ih hi

/-- The check of all targets, behind a row of instructions that tile the code. -/
theorem forM_checkTargets_eq_ok_iff {code : Array UInt8} {instructions : Array Instruction}
    (tiles : Tiles code 0 instructions.toList) {u : Unit} :
    instructions.forM (checkTargets (marks code.size instructions)) = .ok u ↔
      ∀ i ∈ instructions, ∀ t ∈ i.targets, IsStart instructions t := by
  rw [Except.forM_toList, forM_eq_ok_iff]
  simp only [checkTargets_eq_ok_iff, getD_marks, Array.mem_toList_iff]
  refine forall₂_congr fun i _ => forall₂_congr fun t _ => ⟨And.right, fun h => ⟨?_, h⟩⟩
  obtain ⟨j, hj, rfl⟩ := h
  exact tiles.offset_lt (Array.mem_toList_iff.2 hj)

/-- Code decodes to a row of instructions exactly if they tile it and every target is the offset of
one of them. -/
theorem decode_eq_ok_iff {code : Array UInt8} {instructions : Array Instruction} :
    decode code = .ok instructions ↔ Tiles code 0 instructions.toList ∧
      ∀ i ∈ instructions, ∀ t ∈ i.targets, IsStart instructions t := by
  simp only [decode, Except.bind_eq_ok_iff, Except.pure_eq_ok_iff,
    instructionsFrom_eq_ok_iff (Nat.zero_le _)]
  constructor
  · rintro ⟨row, ⟨rest, tiles, eq⟩, u, checked, rfl⟩
    rw [List.nil_append] at eq
    rw [← eq] at tiles
    exact ⟨tiles, (forM_checkTargets_eq_ok_iff tiles).1 checked⟩
  · rintro ⟨tiles, targets⟩
    exact ⟨_, ⟨_, tiles, rfl⟩, (), (forM_checkTargets_eq_ok_iff tiles).2 targets, rfl⟩

namespace Tiles

variable {a code : Array UInt8} {pc : Nat} {row : List Instruction}

theorem read (h : Tiles code pc row) {i : Instruction} (hi : i ∈ row) :
    instructionAt code i.offset = .ok i ∧ pc ≤ i.offset := by
  induction h with
  | nil => cases hi
  | @cons pc j rest _ read _ ih =>
    obtain rfl | hi := List.mem_cons.1 hi
    · rw [offset_of_instructionAt read]; exact ⟨read, Nat.le_refl pc⟩
    · obtain ⟨read', le⟩ := ih hi
      rw [Instruction.next, offset_of_instructionAt read] at le
      exact ⟨read', by omega⟩

/-- No instruction reaches into a later one. -/
theorem pairwise (h : Tiles code pc row) : row.Pairwise fun i j => i.next ≤ j.offset := by
  induction h with
  | nil => exact .nil
  | cons _ _ tiles ih => exact .cons (fun j hj => (tiles.read hj).2) ih

/-- An instruction ends where the next one starts. -/
theorem getElem?_succ (h : Tiles code pc row) {k : Nat} {i : Instruction} (hi : row[k]? = some i) :
    match row[k + 1]? with
    | some j => j.offset = i.next
    | none => i.next = code.size := by
  induction h generalizing k with
  | nil => simp at hi
  | @cons pc j rest _ _ tiles ih =>
    cases k with
    | succ k => exact ih hi
    | zero =>
      simp only [List.getElem?_cons_zero, Option.some.injEq] at hi
      subst hi
      rw [List.getElem?_cons_succ]
      generalize j.next = n at tiles
      cases tiles with
      | nil => rfl
      | cons _ read' _ => exact offset_of_instructionAt read'

/-- Other code of the same size, with instructions of the same lengths at the same places. -/
theorem map (h : Tiles a pc row) (size : code.size = a.size) {f : Instruction → Instruction}
    (same : ∀ i ∈ row, instructionAt code i.offset = .ok (f i) ∧ (f i).length = i.length) :
    Tiles code pc (row.map f) := by
  induction h with
  | nil => exact size ▸ .nil
  | @cons pc i rest below read _ ih =>
    obtain ⟨read', length⟩ := same i (by simp)
    have place := offset_of_instructionAt read
    have place' := offset_of_instructionAt read'
    rw [place] at read' place'
    refine .cons (size ▸ below) read' ?_
    rw [Instruction.next, place', length, ← place]
    exact ih fun j hj => same j (by simp [hj])

end Tiles

/-! ## The instructions of a body -/

section Decoded

variable {code : Array UInt8} {instructions : Array Instruction} {i j : Instruction}

theorem tiles_of_decode (h : decode code = .ok instructions) :
    Tiles code 0 instructions.toList :=
  (decode_eq_ok_iff.1 h).1

theorem instructionAt_of_mem (h : decode code = .ok instructions) (hi : i ∈ instructions) :
    instructionAt code i.offset = .ok i :=
  ((tiles_of_decode h).read hi.val).1

theorem offset_lt_of_mem (h : decode code = .ok instructions) (hi : i ∈ instructions) :
    i.offset < code.size :=
  (tiles_of_decode h).offset_lt hi.val

theorem next_le_of_mem (h : decode code = .ok instructions) (hi : i ∈ instructions) :
    i.next ≤ code.size :=
  next_le_size (instructionAt_of_mem h hi) (offset_lt_of_mem h hi)

theorem next_le_or_next_le (h : decode code = .ok instructions) (hi : i ∈ instructions)
    (hj : j ∈ instructions) (ne : i ≠ j) : i.next ≤ j.offset ∨ j.next ≤ i.offset := by
  have apart := (tiles_of_decode h).pairwise
  refine (List.Pairwise.forall_of_forall_of_flip
    (R := fun i j : Instruction => i = j ∨ i.next ≤ j.offset ∨ j.next ≤ i.offset)
    (fun _ _ => .inl rfl) (apart.imp fun le => .inr (.inl le))
    (apart.imp fun le => .inr (.inr le)) hi.val hj.val).resolve_left ne

theorem eq_of_offset_eq (h : decode code = .ok instructions) (hi : i ∈ instructions)
    (hj : j ∈ instructions) (same : i.offset = j.offset) : i = j := by
  have read := instructionAt_of_mem h hi
  rw [same, instructionAt_of_mem h hj] at read
  exact (Except.ok.inj read).symm

theorem nodup_of_decode (h : decode code = .ok instructions) : instructions.toList.Nodup := by
  refine (tiles_of_decode h).pairwise.imp fun {i j} apart same => ?_
  have := i.length_pos
  rw [same, Instruction.next] at apart
  subst same
  omega

theorem next_eq_size_or_isStart (h : decode code = .ok instructions) (hi : i ∈ instructions) :
    i.next = code.size ∨ IsStart instructions i.next := by
  obtain ⟨k, hk⟩ := List.getElem?_of_mem hi.val
  have := (tiles_of_decode h).getElem?_succ hk
  split at this
  · next j hj => exact .inr ⟨j, Array.mem_toList_iff.1 (List.mem_of_getElem? hj), this⟩
  · exact .inl this

theorem isStart_of_mem_targets (h : decode code = .ok instructions) (hi : i ∈ instructions)
    {t : Nat} (ht : t ∈ i.targets) : IsStart instructions t :=
  (decode_eq_ok_iff.1 h).2 i hi t ht

theorem decode_map {a : Array UInt8} (h : decode a = .ok instructions) (size : code.size = a.size)
    {f : Instruction → Instruction}
    (same : ∀ i ∈ instructions, instructionAt code i.offset = .ok (f i) ∧ (f i).length = i.length)
    (targets : ∀ i ∈ instructions, ∀ t ∈ (f i).targets, IsStart instructions t) :
    decode code = .ok (instructions.map f) := by
  rw [decode_eq_ok_iff]
  constructor
  · rw [Array.toList_map]
    exact (tiles_of_decode h).map size fun i hi => same i (Array.mem_toList_iff.1 hi)
  · rintro j hj t ht
    obtain ⟨i, hi, rfl⟩ := Array.mem_map.1 hj
    obtain ⟨k, hk, rfl⟩ := targets i hi t ht
    exact ⟨f k, Array.mem_map_of_mem hk, offset_of_instructionAt (same k hk).1⟩

end Decoded

end Code

end Clarify
