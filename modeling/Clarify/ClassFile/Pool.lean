import Clarify.ClassFile.Constant
import Clarify.Text.ModifiedUtf8

/-!
# The constant pool

A pool is a row of slots. Slot 0 holds nothing, and neither does the second slot of an 8-byte
constant. Constants are only ever added at the end, so an index once given out stays good.

Results:
* `pushSlot?_eq_none_iff`: an entry is refused exactly when it needs more slots than are left.
* `slots_pushSlot?`: an entry that is taken goes behind the slots that were there.
-/

namespace Clarify

/-- The slots of a constant pool; an empty one holds no usable constant (`ConstantPool`). -/
structure Pool where
  slots : Array (Option Constant)
deriving Repr, DecidableEq

/-- A member reference with its parts spelled out. -/
structure MemberRef where
  kind : RefKind
  owner : String
  name : String
  descriptor : String
deriving Repr, DecidableEq

namespace Pool

/-- The pool of no constants: only slot 0 (`ConstantPool::new`). -/
def empty : Pool := ⟨#[none]⟩

/-- The number of slots, slot 0 included (`ConstantPool::len`). -/
def size (p : Pool) : Nat := p.slots.size

/-- Whether there is nothing but slot 0 (`ConstantPool::is_empty`). -/
def isEmpty (p : Pool) : Bool := p.size ≤ 1

/-- How many slots a pool can have (`MAX_POOL_INDEX`). -/
def capacity : Nat := 65535

/-- How many more slots fit (`ConstantPool::free_slots`). -/
def freeSlots (p : Pool) : Nat := capacity - p.size

/-! ## Looking up -/

/-- The constant at an index. -/
def get? (p : Pool) (index : UInt16) : Option Constant :=
  (p.slots[index.toNat]?).join

/-- The constant at an index, or why there is none. -/
def get (p : Pool) (index : UInt16) : Except FormatError Constant :=
  match p.get? index with
  | some c => .ok c
  | none => .error (.badIndex index .unusable)

/-- The bytes of the text constant at an index. -/
def rawText? (p : Pool) (index : UInt16) : Option Bytes :=
  match p.get? index with
  | some (.utf8 bytes) => some bytes
  | _ => none

/-- The text at an index (`ConstantPool::utf8`). -/
def text? (p : Pool) (index : UInt16) : Option String :=
  (p.rawText? index).map ModifiedUtf8.decode

/-- The name of the class at an index (`ConstantPool::class_name`). -/
def className? (p : Pool) (index : UInt16) : Option String :=
  match p.get? index with
  | some (.classRef name) => p.text? name
  | _ => none

/-- The text of the string constant at an index (`ConstantPool::string`). -/
def string? (p : Pool) (index : UInt16) : Option String :=
  match p.get? index with
  | some (.string value) => p.text? value
  | _ => none

/-- The name and the descriptor at an index (`ConstantPool::name_and_type`). -/
def nameAndType? (p : Pool) (index : UInt16) : Option (String × String) :=
  match p.get? index with
  | some (.nameAndType name descriptor) => do
    let name ← p.text? name
    let descriptor ← p.text? descriptor
    return (name, descriptor)
  | _ => none

/-- The member reference at an index (`ConstantPool::member_ref`). -/
def memberRef? (p : Pool) (index : UInt16) : Option MemberRef :=
  match p.get? index with
  | some (.memberRef kind owner pair) => do
    let (name, descriptor) ← p.nameAndType? pair
    let owner ← p.className? owner
    return { kind, owner, name, descriptor }
  | _ => none

/-- The value of the integer constant at an index (`ConstantPool::integer`). -/
def integer? (p : Pool) (index : UInt16) : Option Int :=
  match p.get? index with
  | some (.integer bits) => some (signed32 bits)
  | _ => none

/-! ## Checking references -/

/-- Refuses an index that names no text (`ConstantPool::expect_utf8`). -/
def expectText (p : Pool) (index : UInt16) : Except FormatError Unit := do
  match ← p.get index with
  | .utf8 _ => return ()
  | _ => throw (.badIndex index .notUtf8)

/-- Refuses an index that names no class (`ConstantPool::expect_class`). -/
def expectClass (p : Pool) (index : UInt16) : Except FormatError Unit := do
  match ← p.get index with
  | .classRef _ => return ()
  | _ => throw (.badIndex index .notClass)

/-- Refuses an index that names no name with a descriptor (`ConstantPool::expect_name_and_type`). -/
def expectNameAndType (p : Pool) (index : UInt16) : Except FormatError Unit := do
  match ← p.get index with
  | .nameAndType .. => return ()
  | _ => throw (.badIndex index .notNameAndType)

/-- Refuses an index that names no member. -/
def expectMember (p : Pool) (index : UInt16) : Except FormatError Unit := do
  match ← p.get index with
  | .memberRef .. => return ()
  | _ => throw (.badIndex index .handleTarget)

/-- Refuses a constant whose indices name entries of the wrong kind (part of
`ConstantPool::validate`). -/
def checkConstant (p : Pool) : Constant → Except FormatError Unit
  | .classRef name | .module name | .package name => p.expectText name
  | .string value => p.expectText value
  | .methodType descriptor => p.expectText descriptor
  | .nameAndType name descriptor => do
    p.expectText name
    p.expectText descriptor
  | .memberRef _ owner pair => do
    p.expectClass owner
    p.expectNameAndType pair
  | .dynamic _ pair | .invokeDynamic _ pair => p.expectNameAndType pair
  | .methodHandle kind reference => do
    if kind < 1 || 9 < kind then throw (.badIndex reference .handleKind)
    p.expectMember reference
  | _ => return ()

/-- Refuses a pool some constant of which refers to an entry of the wrong kind
(`ConstantPool::validate`). -/
def check (p : Pool) : Except FormatError Unit :=
  p.slots.forM fun slot =>
    match slot with
    | some c => p.checkConstant c
    | none => .ok ()

/-! ## Adding constants -/

/-- The slots that an entry takes: the one that holds it and, for an 8-byte constant, an empty
one. -/
def slotsOf : Option Constant → List (Option Constant)
  | some c => if c.isWide then [some c, none] else [some c]
  | none => [none]

/-- Adds an entry at the end and tells its index, unless its slots do not fit. -/
def pushSlot? (p : Pool) (entry : Option Constant) : Option (UInt16 × Pool) :=
  if p.freeSlots < (slotsOf entry).length then none
  else some (UInt16.ofNat p.size, ⟨p.slots.appendList (slotsOf entry)⟩)

/-- Adds a constant at the end and tells its index, unless it does not fit
(`ConstantPool::push`). -/
def push? (p : Pool) (c : Constant) : Option (UInt16 × Pool) := p.pushSlot? (some c)

/-- The first index that holds the given constant (part of `ConstantPool::intern`). -/
def find? (p : Pool) (c : Constant) : Option UInt16 :=
  (p.slots.findIdx? (· == some c)).map UInt16.ofNat

/-- The first index of a constant, which is added at the end if the pool does not have it
(`ConstantPool::intern`). -/
def intern? (p : Pool) (c : Constant) : Option (UInt16 × Pool) :=
  match p.find? c with
  | some index => some (index, p)
  | none => p.push? c

/-- The first index of a text, which is added at the end if the pool does not have it
(`ConstantPool::intern_utf8`). -/
def internText? (p : Pool) (text : String) : Option (UInt16 × Pool) :=
  p.intern? (.utf8 (ModifiedUtf8.encode text))

/-- The pool with another constant at an index that is in use (`ConstantPool::get_mut`). -/
def replace (p : Pool) (index : UInt16) (c : Constant) : Pool :=
  ⟨p.slots.setIfInBounds index.toNat (some c)⟩

/-! ## The written form -/

/-- The number of slots, then the constants in order. -/
def write (p : Pool) : Bytes :=
  be16 (UInt16.ofNat p.size) ++ p.slots.toList.flatMap fun slot => (slot.map Constant.write).getD []

/-- Reads constants until there are `count` slots (part of `ConstantPool::parse`). -/
def readSlots (count : Nat) (slots : Array (Option Constant)) : Reader (Array (Option Constant)) :=
  if _short : slots.size < count then do
    let c ← Constant.read slots.size
    if c.isWide then
      if slots.size + 1 < count then readSlots count ((slots.push (some c)).push none)
      else throw (.badIndex (UInt16.ofNat slots.size) .noSecondSlot)
    else readSlots count (slots.push (some c))
  else pure slots
termination_by count - slots.size
decreasing_by all_goals simp only [Array.size_push]; omega

/-- Reads a pool and checks the references inside it (`ConstantPool::parse`). -/
def read : Reader Pool := do
  let count ← Reader.u16
  if count = 0 then throw (.badIndex 0 .emptyPool)
  let pool := Pool.mk (← readSlots count.toNat #[none])
  match pool.check with
  | .ok _ => return pool
  | .error e => throw e

/-! ## What adding does -/

theorem slots_pushSlot? {p q : Pool} {entry : Option Constant} {index : UInt16}
    (h : p.pushSlot? entry = some (index, q)) :
    q.slots.toList = p.slots.toList ++ slotsOf entry := by
  unfold pushSlot? at h
  split at h
  · cases h
  · simp only [Option.some.injEq, Prod.mk.injEq] at h
    rw [← h.2]
    simp

theorem pushSlot?_eq_none_iff {p : Pool} {entry : Option Constant} :
    p.pushSlot? entry = none ↔ p.freeSlots < (slotsOf entry).length := by
  unfold pushSlot?
  split <;> simp [*]

end Pool

end Clarify
