import Clarify.Proofs.ClassFile.Layout

/-!
# The bytes that decoding asks for

`byteAt` has an answer for every offset, so nothing in its type tells whether decoding stays inside
the code. Here decoding gets its bytes from a fetch that may fail or answer anything behind the end,
and knows of the code itself only how long it is. It comes to the same, whatever the fetch does
there: before each byte is asked for, it has been made sure that it is there.

Results:
* `room_bind`: what follows a check for room may ask for the bytes that the check is about.
* `operandWith_eq`: no operand needs a byte behind the end.
* `decodeWith_eq`: decoding by any fetch that has the bytes of the code is decoding.
-/

namespace Clarify.Code

/-! ## Decoding by a fetch -/

/-- Why decoding by a fetch stops: there is no byte at an offset, or the code is refused. -/
inductive Halt where
  | outside (offset : Nat)
  | refused (e : FormatError)
deriving Repr, DecidableEq

/-- Where decoding gets its bytes from. -/
abbrev Fetch := Nat → Except Halt UInt8

section Fetch

variable (fetch : Fetch) (size : Nat)

def fetchWord (at' : Nat) : Except Halt UInt16 := do
  return word16 (← fetch at') (← fetch (at' + 1))

def fetchShort (at' : Nat) : Except Halt Int := do
  return signed16 (← fetchWord fetch at')

def fetchInt (at' : Nat) : Except Halt Int := do
  return signed32 (word32 (← fetch at') (← fetch (at' + 1)) (← fetch (at' + 2)) (← fetch (at' + 3)))

/-- Refuses code of a size that leaves no `length` bytes at `offset`. -/
def room (offset length : Nat) : Except Halt Unit :=
  if offset + length ≤ size then .ok ()
  else .error (.refused (.truncated offset (offset + length - size)))

/-- The offset at a distance from `pc`, which has to be less than the size of the code. -/
def landing (pc : Nat) (distance : Int) : Except Halt Nat :=
  let t := (pc : Int) + distance
  if 0 ≤ t ∧ t < size then .ok t.toNat else .error (.refused (.badBranch pc t))

def landingsWith (pc start stride count : Nat) : Except Halt (List Nat) :=
  (List.range count).mapM fun i => do landing size pc (← fetchInt fetch (start + i * stride))

def tableSwitchWith (pc : Nat) : Except Halt (Operand × Nat) := do
  let base := pc + 1 + padding pc
  room size base 12
  let default ← landing size pc (← fetchInt fetch base)
  let low ← fetchInt fetch (base + 4)
  let high ← fetchInt fetch (base + 8)
  if high < low then throw (.refused (.malformedCode (.emptyTable pc)))
  let count := (high - low + 1).toNat
  room size (base + 12) (count * 4)
  let targets ← landingsWith fetch size pc (base + 12) 4 count
  return (.switch default targets, padding pc + 12 + count * 4)

def lookupSwitchWith (pc : Nat) : Except Halt (Operand × Nat) := do
  let base := pc + 1 + padding pc
  room size base 8
  let default ← landing size pc (← fetchInt fetch base)
  let pairs ← fetchInt fetch (base + 4)
  if pairs < 0 then throw (.refused (.malformedCode (.negativePairs pc)))
  let count := pairs.toNat
  room size (base + 8) (count * 8)
  let targets ← landingsWith fetch size pc (base + 12) 8 count
  return (.switch default targets, padding pc + 8 + count * 8)

def wideWith (pc : Nat) : Except Halt (Operand × Nat) := do
  room size pc 2
  let op ← fetch (pc + 1)
  if op = Opcode.iinc then
    room size pc 6
    return (.increment (← fetchWord fetch (pc + 2)) (← fetchShort fetch (pc + 4)), 5)
  else if Opcode.isLocalAccess op then
    room size pc 4
    return (.slot (← fetchWord fetch (pc + 2)), 3)
  else throw (.refused (.badOpcode op (pc + 1)))

/-- The operand behind an opcode at `pc`, and its length. -/
def operandWith (pc : Nat) (op : UInt8) : Except Halt (Operand × Nat) :=
  match Opcode.shape? op with
  | none => .error (.refused (.badOpcode op pc))
  | some .bare => .ok (.bare, 0)
  | some .byte => do
    room size pc 2
    return (.byte (signed8 (← fetch (pc + 1))), 1)
  | some .short => do
    room size pc 3
    return (.short (← fetchShort fetch (pc + 1)), 2)
  | some .narrowIndex => do
    room size pc 2
    return (.index (← fetch (pc + 1)).toUInt16, 1)
  | some .index => do
    room size pc 3
    return (.index (← fetchWord fetch (pc + 1)), 2)
  | some .callSite => do
    room size pc 5
    return (.index (← fetchWord fetch (pc + 1)), 4)
  | some .slot => do
    room size pc 2
    return (.slot (← fetch (pc + 1)).toUInt16, 1)
  | some .increment => do
    room size pc 3
    return (.increment (← fetch (pc + 1)).toUInt16 (signed8 (← fetch (pc + 2))), 2)
  | some .branch => do
    room size pc 3
    return (.branch (← landing size pc (← fetchShort fetch (pc + 1))), 2)
  | some .wideBranch => do
    room size pc 5
    return (.branch (← landing size pc (← fetchInt fetch (pc + 1))), 4)
  | some .tableSwitch => tableSwitchWith fetch size pc
  | some .lookupSwitch => lookupSwitchWith fetch size pc
  | some .arrayType => do
    room size pc 2
    return (.arrayType (← fetch (pc + 1)), 1)
  | some .multiArray => do
    room size pc 4
    return (.multiArray (← fetchWord fetch (pc + 1)) (← fetch (pc + 3)), 3)
  | some .wide => wideWith fetch size pc

def instructionWith (pc : Nat) : Except Halt Instruction := do
  let opcode ← fetch pc
  let (operand, operandLength) ← operandWith fetch size pc opcode
  return { offset := pc, opcode, operandLength, operand }

def instructionsWith (pc : Nat) (found : Array Instruction) : Except Halt (Array Instruction) :=
  if _inside : pc < size then
    match instructionWith fetch size pc with
    | .ok i => instructionsWith (pc + i.length) (found.push i)
    | .error e => .error e
  else .ok found
termination_by size - pc
decreasing_by have := i.length_pos; omega

/-- The instructions of code of a size, the bytes of which a fetch has. -/
def decodeWith : Except Halt (Array Instruction) := do
  let instructions ← instructionsWith fetch size 0 #[]
  let starts := marks size instructions
  instructions.forM fun i => (checkTargets starts i).mapError .refused
  return instructions

end Fetch

/-! ## Checks -/

section Checks

variable {α : Type} {code : Array UInt8} {pc offset length : Nat} {distance : Int}

theorem landing_eq :
    landing code.size pc distance = (target code pc distance).mapError .refused := by
  simp only [landing, target]
  split <;> rfl

/-- What follows a check for room may ask for the bytes that the check is about. -/
theorem room_bind {k : Unit → Except Halt α} {l : Unit → Except FormatError α}
    (same : offset + length ≤ code.size → k () = (l ()).mapError .refused) :
    room code.size offset length >>= k = (need code offset length >>= l).mapError .refused := by
  by_cases inside : offset + length ≤ code.size
  · rw [room, need, if_pos inside, if_pos inside]
    exact same inside
  · rw [room, need, if_neg inside, if_neg inside]
    rfl

theorem landing_bind {k : Nat → Except Halt α} {l : Nat → Except FormatError α}
    (same : ∀ t, k t = (l t).mapError .refused) :
    landing code.size pc distance >>= k = (target code pc distance >>= l).mapError .refused := by
  rw [landing_eq, Except.mapError_bind]
  exact congrArg _ (funext same)

end Checks

/-! ## Decoding asks for no byte behind the end -/

section Bytes

variable {code : Array UInt8} {fetch : Fetch} {pc : Nat}
  (has : ∀ at' < code.size, fetch at' = .ok (byteAt code at'))

include has

theorem fetchWord_eq {at' : Nat} (inside : at' + 1 < code.size) :
    fetchWord fetch at' = .ok (wordAt code at') := by
  rw [fetchWord, has at' (by omega), has (at' + 1) inside]
  rfl

theorem fetchShort_eq {at' : Nat} (inside : at' + 1 < code.size) :
    fetchShort fetch at' = .ok (shortAt code at') := by
  rw [fetchShort, fetchWord_eq has inside]
  rfl

theorem fetchInt_eq {at' : Nat} (inside : at' + 3 < code.size) :
    fetchInt fetch at' = .ok (intAt code at') := by
  rw [fetchInt, has at' (by omega), has (at' + 1) (by omega), has (at' + 2) (by omega),
    has (at' + 3) inside]
  rfl

theorem landingsWith_eq {start stride count : Nat}
    (inside : ∀ i < count, start + i * stride + 3 < code.size) :
    landingsWith fetch code.size pc start stride count =
      (targetsFrom code pc start stride count).mapError .refused := by
  unfold landingsWith targetsFrom
  refine Except.mapM_mapError fun i mem => ?_
  rw [fetchInt_eq has (inside i (List.mem_range.1 mem))]
  exact landing_eq

theorem tableSwitchWith_eq :
    tableSwitchWith fetch code.size pc = (tableSwitchAt code pc).mapError .refused := by
  unfold tableSwitchWith tableSwitchAt
  refine room_bind fun header => ?_
  rw [fetchInt_eq has (by omega), fetchInt_eq has (by omega), fetchInt_eq has (by omega)]
  refine landing_bind fun default => ?_
  simp only [Except.ok_bind]
  split
  · rfl
  · refine room_bind fun rows => ?_
    rw [landingsWith_eq has fun i before => by omega, Except.mapError_bind]
    rfl

theorem lookupSwitchWith_eq :
    lookupSwitchWith fetch code.size pc = (lookupSwitchAt code pc).mapError .refused := by
  unfold lookupSwitchWith lookupSwitchAt
  refine room_bind fun header => ?_
  rw [fetchInt_eq has (by omega), fetchInt_eq has (by omega)]
  refine landing_bind fun default => ?_
  simp only [Except.ok_bind]
  split
  · rfl
  · refine room_bind fun rows => ?_
    rw [landingsWith_eq has fun i before => by omega, Except.mapError_bind]
    rfl

theorem wideWith_eq : wideWith fetch code.size pc = (wideAt code pc).mapError .refused := by
  unfold wideWith wideAt
  refine room_bind fun opcode => ?_
  rw [has (pc + 1) (by omega), Except.ok_bind]
  dsimp only
  split
  · refine room_bind fun rest => ?_
    rw [fetchWord_eq has (by omega), fetchShort_eq has (by omega)]
    rfl
  · split
    · refine room_bind fun rest => ?_
      rw [fetchWord_eq has (by omega)]
      rfl
    · rfl

/-- No operand needs a byte behind the end. -/
theorem operandWith_eq :
    operandWith fetch code.size pc (byteAt code pc) = (operandAt code pc).mapError .refused := by
  unfold operandWith operandAt
  dsimp only
  rcases Opcode.shape? (byteAt code pc) with _ | shape
  · rfl
  cases shape with
  | bare => rfl
  | tableSwitch => exact tableSwitchWith_eq has
  | lookupSwitch => exact lookupSwitchWith_eq has
  | wide => exact wideWith_eq has
  | byte | narrowIndex | slot | arrayType =>
    refine room_bind fun inside => ?_
    rw [has (pc + 1) (by omega)]
    rfl
  | short =>
    refine room_bind fun inside => ?_
    rw [fetchShort_eq has (by omega)]
    rfl
  | index | callSite =>
    refine room_bind fun inside => ?_
    rw [fetchWord_eq has (by omega)]
    rfl
  | increment =>
    refine room_bind fun inside => ?_
    rw [has (pc + 1) (by omega), has (pc + 2) (by omega)]
    rfl
  | branch =>
    refine room_bind fun inside => ?_
    rw [fetchShort_eq has (by omega)]
    exact landing_bind fun t => rfl
  | wideBranch =>
    refine room_bind fun inside => ?_
    rw [fetchInt_eq has (by omega)]
    exact landing_bind fun t => rfl
  | multiArray =>
    refine room_bind fun inside => ?_
    rw [fetchWord_eq has (by omega), has (pc + 3) (by omega)]
    rfl

theorem instructionWith_eq (inside : pc < code.size) :
    instructionWith fetch code.size pc = (instructionAt code pc).mapError .refused := by
  rw [instructionWith, has pc inside, Except.ok_bind, operandWith_eq has, instructionAt,
    Except.mapError_bind]
  rfl

theorem instructionsWith_eq (found : Array Instruction) :
    instructionsWith fetch code.size pc found =
      (instructionsFrom code pc found).mapError .refused := by
  induction pc, found using instructionsFrom.induct code with
  | case1 pc found inside i read ih =>
    rw [instructionsWith, instructionsFrom, dif_pos inside, dif_pos inside,
      instructionWith_eq has inside, read]
    exact ih
  | case2 pc found inside e read =>
    rw [instructionsWith, instructionsFrom, dif_pos inside, dif_pos inside,
      instructionWith_eq has inside, read]
    rfl
  | case3 pc found behind =>
    rw [instructionsWith, instructionsFrom, dif_neg behind, dif_neg behind]
    rfl

/-- Decoding by a fetch that has the bytes of the code is decoding, whatever the fetch does behind
the end. -/
theorem decodeWith_eq : decodeWith fetch code.size = (decode code).mapError .refused := by
  unfold decodeWith decode
  rw [instructionsWith_eq has, Except.mapError_bind]
  refine congrArg _ (funext fun instructions => ?_)
  dsimp only
  rw [Except.mapError_bind, Except.forM_toList, Except.forM_toList, Except.forM_mapError]
  rfl

end Bytes

end Clarify.Code
