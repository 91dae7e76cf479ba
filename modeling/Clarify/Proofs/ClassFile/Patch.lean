import Clarify.Proofs.ClassFile.Layout

/-!
# Changing code in place

What the bytes and the instructions of a body are after another target was written into a branch,
or after an instruction was replaced by `nop`s.

Results:
* `instructionAt_retarget?`: a branch with another target is the same branch with that target.
* `sameBytes_overwrite`: bytes outside of the place that was written over stay as they are.
* `decode_set`: other code of the same size, in which one instruction gave way to another.
* `decode_afterRetarget`: which targets a branch can be sent to, and what the code decodes to then.
-/

namespace Clarify

namespace Opcode

theorem shape?_eq_branch_iff : ∀ op, shape? op = some .branch ↔
    isConditional op = true ∨ op = goto ∨ op = jsr :=
  forall_byte (by decide +kernel)

theorem shape?_eq_wideBranch_iff : ∀ op, shape? op = some .wideBranch ↔
    op = gotoWide ∨ op = jsrWide :=
  forall_byte (by decide +kernel)

end Opcode

namespace Code

/-! ## Bytes written over others -/

theorem byteAt_overwrite_of_outside {bytes : Bytes} {code : Array UInt8} {offset k : Nat}
    (outside : k < offset ∨ offset + bytes.length ≤ k) :
    byteAt (overwrite code offset bytes) k = byteAt code k := by
  induction bytes generalizing code offset with
  | nil => rfl
  | cons b bytes ih =>
    rw [List.length_cons] at outside
    rw [overwrite, ih (by omega), byteAt, byteAt, Array.getD_eq_getD_getElem?,
      Array.getD_eq_getD_getElem?, Array.getElem?_setIfInBounds_ne (by omega)]

theorem byteAt_overwrite {bytes : Bytes} {code : Array UInt8} {offset k : Nat}
    (inside : k < bytes.length) (room : offset + k < code.size) :
    byteAt (overwrite code offset bytes) (offset + k) = bytes[k] := by
  induction bytes generalizing code offset k with
  | nil => cases inside
  | cons b bytes ih =>
    cases k with
    | zero =>
      rw [overwrite, byteAt_overwrite_of_outside (.inl (by omega)), byteAt,
        Array.getD_eq_getD_getElem?]
      simp [show offset < code.size by omega]
    | succ k =>
      rw [overwrite, show offset + (k + 1) = offset + 1 + k by omega,
        ih (Nat.lt_of_succ_lt_succ inside) (by rw [Array.size_setIfInBounds]; omega)]
      rfl

/-- Bytes outside of the place that was written over stay as they are. -/
theorem sameBytes_overwrite {code : Array UInt8} {offset p n : Nat} {bytes : Bytes}
    (apart : p + n ≤ offset ∨ offset + bytes.length ≤ p) :
    SameBytes code p (overwrite code offset bytes) p n :=
  fun k hk => byteAt_overwrite_of_outside (by omega)

theorem byteAt_nopOut {code : Array UInt8} {i : Instruction} {k : Nat} (lo : i.offset ≤ k)
    (hi : k < i.next) (room : i.next ≤ code.size) : byteAt (nopOut code i) k = Opcode.nop := by
  obtain ⟨j, rfl⟩ := Nat.exists_eq_add_of_le lo
  rw [Instruction.next] at hi room
  rw [nopOut, byteAt_overwrite (by rw [List.length_replicate]; omega) (by omega),
    List.getElem_replicate]

/-! ## Distances -/

theorem signed16_ofNat_emod {d : Int} (lo : -32768 ≤ d) (hi : d < 32768) :
    signed16 (UInt16.ofNat (d % 65536).toNat) = d := by
  rw [signed16, UInt16.toNat_ofNat']
  split <;> omega

theorem signed32_ofNat_emod {d : Int} (lo : -2147483648 ≤ d) (hi : d < 2147483648) :
    signed32 (UInt32.ofNat (d % 4294967296).toNat) = d := by
  rw [signed32, UInt32.toNat_ofNat']
  split <;> omega

theorem length_shortOperand? {d : Int} {bytes : Bytes} (h : shortOperand? d = some bytes) :
    bytes.length = 2 := by
  unfold shortOperand? at h
  split at h <;> cases h
  rfl

theorem length_wideOperand? {d : Int} {bytes : Bytes} (h : wideOperand? d = some bytes) :
    bytes.length = 4 := by
  unfold wideOperand? at h
  split at h <;> cases h
  rfl

theorem wordAt_overwrite {code : Array UInt8} {offset : Nat} {x y : UInt8}
    (room : offset + 2 ≤ code.size) :
    wordAt (overwrite code offset [x, y]) offset = word16 x y := by
  have high : byteAt (overwrite code offset [x, y]) offset = x :=
    byteAt_overwrite (k := 0) (by simp) (by omega)
  have low : byteAt (overwrite code offset [x, y]) (offset + 1) = y :=
    byteAt_overwrite (by simp) (by omega)
  rw [wordAt, high, low]

theorem shortAt_overwrite {code : Array UInt8} {offset : Nat} {d : Int} {bytes : Bytes}
    (h : shortOperand? d = some bytes) (room : offset + 2 ≤ code.size) :
    shortAt (overwrite code offset bytes) offset = d := by
  unfold shortOperand? at h
  split at h
  · next fits =>
    cases h
    rw [shortAt, be16, wordAt_overwrite room, word16_be16, signed16_ofNat_emod fits.1 fits.2]
  · cases h

theorem intAt_overwrite {code : Array UInt8} {offset : Nat} {d : Int} {bytes : Bytes}
    (h : wideOperand? d = some bytes) (room : offset + 4 ≤ code.size) :
    intAt (overwrite code offset bytes) offset = d := by
  have int (x y z w : UInt8) :
      intAt (overwrite code offset [x, y, z, w]) offset = signed32 (word32 x y z w) := by
    have first : byteAt (overwrite code offset [x, y, z, w]) offset = x :=
      byteAt_overwrite (k := 0) (by simp) (by omega)
    have second : byteAt (overwrite code offset [x, y, z, w]) (offset + 1) = y :=
      byteAt_overwrite (by simp) (by omega)
    have third : byteAt (overwrite code offset [x, y, z, w]) (offset + 2) = z :=
      byteAt_overwrite (by simp) (by omega)
    have last : byteAt (overwrite code offset [x, y, z, w]) (offset + 3) = w :=
      byteAt_overwrite (by simp) (by omega)
    rw [intAt, first, second, third, last]
  unfold wideOperand? at h
  split at h
  · next fits =>
    cases h
    rw [be32, int, word32_be32, signed32_ofNat_emod fits.1 fits.2]
  · cases h

/-! ## Branches with another target -/

theorem operandAt_of_branch {code : Array UInt8} {pc n : Nat} {o : Operand}
    (shape : Opcode.shape? (byteAt code pc) = some .branch) :
    operandAt code pc = .ok (o, n) ↔ pc + 3 ≤ code.size ∧
      ∃ t, target code pc (shortAt code (pc + 1)) = .ok t ∧ .branch t = o ∧ 2 = n := by
  simp only [operandAt, shape, Except.bind_eq_ok_iff, need_eq_ok_iff, exists_const,
    Except.pure_eq_ok_iff, Prod.mk.injEq]

theorem operandAt_of_wideBranch {code : Array UInt8} {pc n : Nat} {o : Operand}
    (shape : Opcode.shape? (byteAt code pc) = some .wideBranch) :
    operandAt code pc = .ok (o, n) ↔ pc + 5 ≤ code.size ∧
      ∃ t, target code pc (intAt code (pc + 1)) = .ok t ∧ .branch t = o ∧ 4 = n := by
  simp only [operandAt, shape, Except.bind_eq_ok_iff, need_eq_ok_iff, exists_const,
    Except.pure_eq_ok_iff, Prod.mk.injEq]

/-- Only branches have a single target for an operand. -/
theorem shape?_of_branch {code : Array UInt8} {i : Instruction} {u : Nat}
    (read : instructionAt code i.offset = .ok i) (branch : i.operand = .branch u) :
    Opcode.shape? i.opcode = some .branch ∨ Opcode.shape? i.opcode = some .wideBranch := by
  obtain ⟨read, -, opcode⟩ := instructionAt_eq_ok_iff.1 read
  rw [branch] at read
  rw [opcode]
  simp only [operandAt] at read
  split at read
  case h_10 shape => exact .inl shape
  case h_11 shape => exact .inr shape
  case h_1 => cases read
  case h_2 => cases read
  case h_12 =>
    obtain ⟨_, _, _, no, -⟩ := tableSwitchAt_eq_ok_iff.1 read
    cases no
  case h_13 =>
    obtain ⟨_, _, _, no, -⟩ := lookupSwitchAt_eq_ok_iff.1 read
    cases no
  case h_16 =>
    obtain ⟨-, ⟨-, no, -⟩ | ⟨-, -, no, -⟩⟩ := wideAt_eq_ok_iff.1 read <;> cases no
  all_goals
    simp only [Except.bind_eq_ok_iff, Except.pure_eq_ok_iff, Prod.mk.injEq, reduceCtorEq,
      false_and, and_false, exists_false] at read

/-- The operand of a branch has room for a distance: it has 16 bits, or 32 in the wide forms. -/
def HasRoom (opcode : UInt8) (distance : Int) : Prop :=
  if opcode = Opcode.gotoWide ∨ opcode = Opcode.jsrWide then
    -2147483648 ≤ distance ∧ distance < 2147483648
  else -32768 ≤ distance ∧ distance < 32768

theorem shortOperand?_eq_none_iff {d : Int} :
    shortOperand? d = none ↔ ¬(-32768 ≤ d ∧ d < 32768) := by
  rw [shortOperand?, ite_eq_right_iff]
  exact ⟨fun h fits => Option.some_ne_none _ (h fits), fun h fits => absurd fits h⟩

theorem wideOperand?_eq_none_iff {d : Int} :
    wideOperand? d = none ↔ ¬(-2147483648 ≤ d ∧ d < 2147483648) := by
  rw [wideOperand?, ite_eq_right_iff]
  exact ⟨fun h fits => Option.some_ne_none _ (h fits), fun h fits => absurd fits h⟩

/-- A branch has an operand for every distance for which there is room. -/
theorem branchOperand?_eq_none_iff {op : UInt8} {d : Int}
    (branch : Opcode.shape? op = some .branch ∨ Opcode.shape? op = some .wideBranch) :
    branchOperand? op d = none ↔ ¬HasRoom op d := by
  rw [Opcode.shape?_eq_branch_iff, Opcode.shape?_eq_wideBranch_iff] at branch
  rw [branchOperand?, HasRoom]
  split
  · exact wideOperand?_eq_none_iff
  · next short =>
    rw [if_pos (branch.resolve_right short)]
    exact shortOperand?_eq_none_iff

/-- The operand of a branch is as long as the operand that is written over it. -/
theorem length_branchOperand? {code : Array UInt8} {i : Instruction} {d : Int} {bytes : Bytes}
    (read : instructionAt code i.offset = .ok i) (h : branchOperand? i.opcode d = some bytes) :
    bytes.length = i.operandLength := by
  obtain ⟨read, -, opcode⟩ := instructionAt_eq_ok_iff.1 read
  unfold branchOperand? at h
  rw [opcode] at h
  split at h
  · next wide =>
    obtain ⟨-, t, -, -, n⟩ :=
      (operandAt_of_wideBranch ((Opcode.shape?_eq_wideBranch_iff _).2 wide)).1 read
    rw [length_wideOperand? h, n]
  · split at h
    · next short =>
      obtain ⟨-, t, -, -, n⟩ :=
        (operandAt_of_branch ((Opcode.shape?_eq_branch_iff _).2 short)).1 read
      rw [length_shortOperand? h, n]
    · cases h

/-- A branch with another target is the same branch with that target. -/
theorem instructionAt_retarget? {code changed : Array UInt8} {i : Instruction} {t : Nat}
    (read : instructionAt code i.offset = .ok i) (inside : i.offset < code.size)
    (h : retarget? code i t = some changed) (ht : t < code.size) :
    instructionAt changed i.offset = .ok { i with operand := .branch t } := by
  have size := size_retarget? h
  obtain ⟨bytes, operand, rfl⟩ := Option.map_eq_some_iff.1 h
  have room := next_le_size read inside
  have length := length_branchOperand? read operand
  have op : byteAt (overwrite code (i.offset + 1) bytes) i.offset = byteAt code i.offset :=
    byteAt_overwrite_of_outside (.inl (by omega))
  rw [instructionAt_eq_ok_iff] at read ⊢
  obtain ⟨read, -, opcode⟩ := read
  refine ⟨?_, rfl, by rw [op]; exact opcode⟩
  unfold branchOperand? at operand
  rw [opcode] at operand
  rw [Instruction.next, Instruction.length, ← length] at room
  split at operand
  · next wide =>
    have shape := (Opcode.shape?_eq_wideBranch_iff _).2 wide
    rw [operandAt_of_wideBranch (op ▸ shape), intAt_overwrite operand (by
      rw [length_wideOperand? operand] at room; omega)]
    refine ⟨by rw [size]; rw [length_wideOperand? operand] at room; omega, t, ?_, rfl, ?_⟩
    · rw [target_eq_ok_iff, size]; omega
    · rw [← length, length_wideOperand? operand]
  · split at operand
    · next short =>
      have shape := (Opcode.shape?_eq_branch_iff _).2 short
      rw [operandAt_of_branch (op ▸ shape), shortAt_overwrite operand (by
        rw [length_shortOperand? operand] at room; omega)]
      refine ⟨by rw [size]; rw [length_shortOperand? operand] at room; omega, t, ?_, rfl, ?_⟩
      · rw [target_eq_ok_iff, size]; omega
      · rw [← length, length_shortOperand? operand]
    · cases operand

/-- A branch with another target leaves the bytes of all other instructions as they are. -/
theorem sameBytes_retarget? {code changed : Array UInt8} {i : Instruction} {t : Int} {p n : Nat}
    (read : instructionAt code i.offset = .ok i) (h : retarget? code i t = some changed)
    (apart : p + n ≤ i.offset ∨ i.next ≤ p) : SameBytes code p changed p n := by
  obtain ⟨bytes, operand, rfl⟩ := Option.map_eq_some_iff.1 h
  have length := length_branchOperand? read operand
  rw [Instruction.next, Instruction.length, ← length] at apart
  exact sameBytes_overwrite (by omega)

/-! ## Decoding what was changed -/

section Changed

variable {a code : Array UInt8} {instructions : Array Instruction} {i j : Instruction} {k : Nat}

/-- One instruction gives way to another one that is as long. -/
theorem decode_set (h : decode a = .ok instructions) (size : code.size = a.size)
    (here : instructions[k]? = some i) (read : instructionAt code i.offset = .ok j)
    (length : j.length = i.length)
    (others : ∀ i' ∈ instructions, i' ≠ i → instructionAt code i'.offset = .ok i')
    (targets : ∀ t ∈ j.targets, IsStart instructions t) :
    decode code = .ok (instructions.setIfInBounds k j) := by
  have mapped := decode_map h size (f := fun i' => if i' = i then j else i')
    (fun i' mem => by
      by_cases same : i' = i
      · subst same
        simpa using ⟨read, length⟩
      · simpa [same] using others i' mem same)
    (fun i' mem t target => by
      by_cases same : i' = i
      · rw [if_pos same] at target
        exact targets t target
      · rw [if_neg same] at target
        exact isStart_of_mem_targets h mem target)
  rw [mapped]
  congr 1
  apply Array.ext_getElem?
  intro m
  rw [Array.getElem?_map, Array.getElem?_setIfInBounds]
  have inside : k < instructions.size := (Array.getElem?_eq_some_iff.1 here).1
  by_cases same : k = m
  · subst same
    rw [here, Option.map_some, if_pos rfl, if_pos rfl, if_pos inside]
  · rw [if_neg same]
    cases there : instructions[m]? with
    | none => rfl
    | some i' =>
      have ne : i' ≠ i := by
        rintro rfl
        apply same
        apply (List.getElem?_inj inside (nodup_of_decode h)).1
        rw [Array.getElem?_toList, Array.getElem?_toList, here, there]
      simp [ne]

/-- The code after an attempt to send a branch to another target, which leaves it as it is where the
operand cannot hold the distance. -/
def afterRetarget (code : Array UInt8) (i : Instruction) (target : Int) : Array UInt8 :=
  (retarget? code i target).getD code

/-- The instructions of a code in which a branch was sent to another target. -/
theorem decode_retarget? {changed : Array UInt8} {t : Nat} (h : decode code = .ok instructions)
    (here : instructions[k]? = some i) (start : IsStart instructions t)
    (sent : retarget? code i t = some changed) :
    decode changed = .ok (instructions.setIfInBounds k { i with operand := .branch t }) := by
  have hi : i ∈ instructions := Array.mem_of_getElem? here
  have read := instructionAt_of_mem h hi
  have size := size_retarget? sent
  obtain ⟨s, hs, place⟩ := start
  have inside : t < code.size := place ▸ offset_lt_of_mem h hs
  apply decode_set h size here
  · exact instructionAt_retarget? read (offset_lt_of_mem h hi) sent inside
  · rfl
  · intro j hj ne
    have apart := next_le_or_next_le h hj hi ne
    exact instructionAt_congr (instructionAt_of_mem h hj) (offset_lt_of_mem h hj) size
      (sameBytes_retarget? read sent apart)
  · intro t' mem
    rw [List.mem_singleton.1 mem]
    exact ⟨s, hs, place⟩

/-- A branch cannot be sent to a target exactly if its operand has no room for the distance. -/
theorem retarget?_eq_none_iff {u : Nat} {t : Int} (h : decode code = .ok instructions)
    (hi : i ∈ instructions) (branch : i.operand = .branch u) :
    retarget? code i t = none ↔ ¬HasRoom i.opcode (t - i.offset) := by
  rw [retarget?, Option.map_eq_none_iff]
  exact branchOperand?_eq_none_iff (shape?_of_branch (instructionAt_of_mem h hi) branch)

/-- A branch can be sent to any start of an instruction that its operand has room for. Then the code
decodes to the same instructions with that target in the one operand, and has the same bytes
everywhere else. Without room the code stays as it is. -/
theorem decode_afterRetarget {u t : Nat} (h : decode code = .ok instructions)
    (here : instructions[k]? = some i) (branch : i.operand = .branch u)
    (start : IsStart instructions t) :
    ((retarget? code i t).isSome = true ↔ HasRoom i.opcode (t - i.offset)) ∧
    (HasRoom i.opcode (t - i.offset) →
      decode (afterRetarget code i t) =
        .ok (instructions.setIfInBounds k { i with operand := .branch t }) ∧
      (afterRetarget code i t).size = code.size ∧
      ∀ p, p < i.offset ∨ i.next ≤ p → byteAt (afterRetarget code i t) p = byteAt code p) ∧
    (¬HasRoom i.opcode (t - i.offset) → afterRetarget code i t = code) := by
  have hi : i ∈ instructions := Array.mem_of_getElem? here
  have stuck := retarget?_eq_none_iff (t := t) h hi branch
  refine ⟨?_, ?_, ?_⟩
  · rw [Option.isSome_iff_ne_none, ne_eq, stuck, Classical.not_not]
  · intro room
    obtain ⟨changed, sent⟩ := Option.ne_none_iff_exists'.1 (mt stuck.1 (not_not_intro room))
    rw [afterRetarget, sent, Option.getD_some]
    refine ⟨decode_retarget? h here start sent, size_retarget? sent, ?_⟩
    intro p outside
    exact sameBytes_retarget? (n := 1) (instructionAt_of_mem h hi) sent outside 0 Nat.one_pos
  · intro tight
    rw [afterRetarget, stuck.2 tight, Option.getD_none]

end Changed

/-- Code with a table switch, a jump of each width, and a return. -/
def switchingCode : Array UInt8 :=
  #[0x03, 0xaa, 0x00, 0x00, 0x00, 0x00, 0x00, 0x13, 0x00, 0x00, 0x00, 0x00, 0x00, 0x00, 0x00, 0x00,
    0x00, 0x00, 0x00, 0x16, 0xa7, 0x00, 0x03, 0xc8, 0xff, 0xff, 0xff, 0xe9, 0xb1]

/-- The instructions of that code. -/
def switchingInstructions : Array Instruction :=
  #[⟨0, 0x03, 0, .bare⟩, ⟨1, 0xaa, 18, .switch 20 [23]⟩, ⟨20, 0xa7, 2, .branch 23⟩,
    ⟨23, 0xc8, 4, .branch 0⟩, ⟨28, 0xb1, 0, .bare⟩]

/-- The short jump goes back to the switch. -/
theorem decode_afterRetarget_switchingCode :
    HasRoom Opcode.goto (1 - 20) ∧
      decode (afterRetarget switchingCode ⟨20, Opcode.goto, 2, .branch 23⟩ 1) =
        .ok #[⟨0, 0x03, 0, .bare⟩, ⟨1, 0xaa, 18, .switch 20 [23]⟩, ⟨20, 0xa7, 2, .branch 1⟩,
          ⟨23, 0xc8, 4, .branch 0⟩, ⟨28, 0xb1, 0, .bare⟩] := by
  have room : HasRoom Opcode.goto (1 - 20) := by simp [HasRoom, Opcode.goto]
  have decoded : decode switchingCode = .ok switchingInstructions :=
    Except.eq_ok_of_toOption (by decide +kernel)
  have start : IsStart switchingInstructions 1 :=
    ⟨⟨1, 0xaa, 18, .switch 20 [23]⟩, by decide +kernel, rfl⟩
  obtain ⟨-, sent, -⟩ := decode_afterRetarget (i := ⟨20, Opcode.goto, 2, .branch 23⟩) (k := 2)
    decoded rfl rfl start
  exact ⟨room, (sent room).1⟩

end Code

end Clarify
