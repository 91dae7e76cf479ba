import Clarify.Pass.Helper

/-!
# Recovering literals

A call of a helper right behind the load of a constant string is replaced by the load of the plain
text, and the call by `nop`s, so no literal is ever decoded twice. Everything is decoded before
anything is changed. The string constant itself gets the plain text if nothing but recovered calls
load it; otherwise the load gets a constant of its own.

Native methods and the helpers themselves are not looked at.
-/

namespace Clarify

/-- Why a literal stays encoded (`LiteralRecoveryFailure`). -/
inductive LiteralFailure where
  | helperNotFound (method : String)
  /-- The call is not right behind the load of a constant string, or control can reach it from
  somewhere else. -/
  | nonConstantArgument (helper method : String) (offset : Nat)
  | unsupportedDecoding (helper : String)
  | undecodable (helper : String) (index : UInt16) (fault : DecodeFault)
  | poolFull (index : UInt16)
deriving Repr, DecidableEq

/-- The wording of a failure. -/
def LiteralFailure.message : LiteralFailure → String
  | .helperNotFound method => s!"decrypt helper {method} not found in unit"
  | .nonConstantArgument helper method offset =>
    s!"call to {helper} at {method}@{offset} does not take a constant literal"
  | .unsupportedDecoding helper => s!"decoding rule of helper {helper} is not supported"
  | .undecodable helper index fault =>
    s!"literal #{index} could not be decoded by {helper}: {fault.message}"
  | .poolFull index => s!"no room to rewrite literal #{index}"

/-- A recovered literal: the method, the offset of its load, and the plain text. -/
structure RecoveredLiteral where
  method : String
  offset : Nat
  text : String
deriving Repr, DecidableEq

/-- What became of the literals of a class. -/
structure LiteralReport where
  recovered : List RecoveredLiteral
  failures : List LiteralFailure
  /-- Helpers that had calls and have none left. -/
  spent : List Symbol

namespace Literal

/-! ## Finding calls -/

/-- A call of a helper. -/
structure Call where
  helper : Helper
  /-- The position and the label of the calling method. -/
  method : Nat
  label : String
  invoke : Instruction
  /-- The load of a string constant right before the call, and the index of the constant. -/
  load : Option (Instruction × UInt16)

/-- What a call to a static method of the class with the descriptor of a helper is. -/
inductive Finding where
  | call (c : Call)
  /-- The class has no such method. -/
  | missing (name : String)

/-- The index of the string constant that an instruction loads. -/
def loadedString? (pool : Pool) (i : Instruction) : Option UInt16 := do
  let index ← i.poolIndex?
  if Helper.isConstantLoad i && (pool.string? index).isSome then some index else none

/-- The load of a string constant right before a call that control reaches from there only. -/
def loadBefore? (pool : Pool) (marks : Array Bool) (previous : Option Instruction)
    (invoke : Instruction) : Option (Instruction × UInt16) := do
  let load ← previous
  let index ← loadedString? pool load
  if marks.getD invoke.offset false then none else some (load, index)

/-- What an instruction is, if it calls a static method of the class with the descriptor of a helper
(part of `recover_literals`). -/
def finding? (c : ClassFile) (helpers : List Helper) (method : Nat) (label : String)
    (marks : Array Bool) (previous : Option Instruction) (i : Instruction) : Option Finding := do
  if i.opcode ≠ Opcode.invokestatic then none
  let r ← c.pool.memberRef? (← i.poolIndex?)
  if r.owner ≠ c.className ∨ r.descriptor ≠ Helper.descriptor then none
  match helpers.find? fun h => h.name == r.name with
  | some helper =>
    some (.call { helper, method, label, invoke := i, load := loadBefore? c.pool marks previous i })
  | none => if (c.findMethod? r.name r.descriptor).isNone then some (.missing r.name) else none

/-- A method that is looked at: its position, its body and its instructions. -/
structure Scanned where
  position : Nat
  method : Member
  body : Code
  instructions : Array Instruction

/-- The methods with a body that are not native. -/
def scanned (c : ClassFile) : List Scanned :=
  c.methods.toList.zipIdx.filterMap fun (method, position) => do
    if method.isNative then none
    let body ← method.body?
    let instructions ← body.instructions.toOption
    return { position, method, body, instructions }

/-- What is found in a method, in code order. -/
def findingsIn (c : ClassFile) (helpers : List Helper) (s : Scanned) : List Finding :=
  if helpers.any fun h => h.method == s.position then []
  else
    let marks := s.body.jumpMarks s.instructions
    let label := c.labelOf s.method
    (Helper.withPrevious s.instructions.toList).filterMap fun (previous, i) =>
      finding? c helpers s.position label marks previous i

/-- The call that a finding is. -/
def Finding.call? : Finding → Option Call
  | .call c => some c
  | .missing _ => none

/-- The failure that a finding is by itself. -/
def Finding.failure? (own : String) : Finding → Option LiteralFailure
  | .missing name => some (.helperNotFound (own ++ "." ++ name))
  | .call c =>
    if c.load.isSome then none
    else some (.nonConstantArgument c.helper.label c.label c.invoke.offset)

/-- How often each string constant is loaded (part of `recover_literals`). -/
def loadCounts (c : ClassFile) (methods : List Scanned) : Std.TreeMap UInt16 Nat :=
  methods.foldl (fun counts s =>
    s.instructions.foldl (fun counts i =>
      match loadedString? c.pool i with
      | some index => counts.insert index ((counts[index]?).getD 0 + 1)
      | none => counts) counts) ∅

/-! ## Decoding -/

/-- A call with the plain text of its literal (`Site`). -/
structure Plain where
  call : Call
  load : Instruction
  index : UInt16
  text : String
  /-- Whether the literal is plain already. -/
  unchanged : Bool

/-- The units of a string constant. -/
def unitsAt? (pool : Pool) (index : UInt16) : Option (List UInt16) :=
  match pool.get? index with
  | some (.string value) => (pool.rawText? value).map ModifiedUtf8.units
  | _ => none

/-- The plain text behind a call, where there is a literal and a rule. -/
def decodeCall? (pool : Pool) (c : Call) : Option (Except LiteralFailure Plain) := do
  let (load, index) ← c.load
  let decoding ← c.helper.decoding
  let units ← unitsAt? pool index
  match decoding.decode units with
  | .ok text =>
    some (.ok { call := c, load, index, text, unchanged := Utf16.ofString text == units })
  | .error fault => some (.error (.undecodable c.helper.label index fault))

/-! ## Which constants may change -/

/-- The 16-bit words of a byte string. -/
def words : Bytes → List UInt16
  | a :: b :: rest => word16 a b :: words rest
  | _ => []

/-- The arguments of `count` bootstrap methods. An argument or a method that the bytes have no
room for ends the list. -/
def bootstrapArguments (count : Nat) (table : Bytes) : List UInt16 :=
  match count, table with
  | count + 1, _ :: _ :: a :: b :: rest =>
    let arguments := 2 * (word16 a b).toNat
    words (rest.take arguments) ++ bootstrapArguments count (rest.drop arguments)
  | _, _ => []

/-- The constants that an attribute of the class uses. -/
def usedByClass (pool : Pool) (a : Attribute) : List UInt16 :=
  if pool.text? a.name = some "BootstrapMethods" then
    match a.info with
    | x :: y :: table => bootstrapArguments (word16 x y).toNat table
    | _ => []
  else []

/-- The constants that an attribute of a field uses. -/
def usedByField (pool : Pool) : MemberAttribute → List UInt16
  | .other a =>
    if pool.text? a.name = some "ConstantValue" then (words a.info).take 1 else []
  | .code .. => []

/-- The constants that attributes use, which never change (`attribute_string_uses`). -/
def pinned (c : ClassFile) : List UInt16 :=
  (c.fields.toList.flatMap fun m => m.attributes.flatMap (usedByField c.pool))
    ++ c.attributes.flatMap (usedByClass c.pool)

/-- The plain texts found for each constant. -/
def textsByIndex (plains : List Plain) : Std.TreeMap UInt16 (List String) :=
  plains.foldl (fun texts p => texts.insert p.index (p.text :: (texts[p.index]?).getD [])) ∅

/-- Whether all items of a list are the same. -/
def allSame : List String → Bool
  | [] => true
  | first :: rest => rest.all (· == first)

/-- The constants that nothing but recovered calls load, all with the same plain text (part of
`recover_literals`). -/
def exclusive (c : ClassFile) (methods : List Scanned) (plains : List Plain) :
    Std.TreeSet UInt16 :=
  let counts := loadCounts c methods
  let fixed := Std.TreeSet.ofList (pinned c)
  Std.TreeSet.ofList <| (textsByIndex plains).toList.filterMap fun (index, texts) =>
    if !fixed.contains index && (counts[index]?).getD 0 == texts.length && allSame texts then
      some index
    else none

/-! ## Changing the class -/

/-- The class under way, and the string constants that have their plain text already. -/
structure Progress where
  file : ClassFile
  repointed : Std.TreeSet UInt16

/-- Gives a string constant its plain text; no result where the pool is full (`repoint_string`). -/
def repoint? (s : Progress) (p : Plain) : Option Progress :=
  if s.repointed.contains p.index then some s
  else
    (s.file.pool.internText? p.text).map fun (text, pool) =>
      { file := { s.file with pool := pool.replace p.index (.string text) }
        repointed := s.repointed.insert p.index }

/-- The operand of a load with the given opcode, if it can hold the index. -/
def loadOperand? (opcode : UInt8) (index : UInt16) : Option Bytes :=
  if opcode = Opcode.ldc then
    if index < 256 then some [UInt8.ofNat index.toNat] else none
  else some (be16 index)

/-- The class with the bytes of one method changed. -/
def editMethod (c : ClassFile) (method : Nat) (edit : Array UInt8 → Array UInt8) : ClassFile :=
  { c with
    methods := c.methods.modify method fun m => m.mapBody fun body =>
      { body with bytes := edit body.bytes } }

/-- Gives a load a constant of its own, and tells whether it has one; what the pool got before it
was full stays there (`rewrite_ldc`). -/
def reload (s : Progress) (p : Plain) : Progress × Bool :=
  match s.file.pool.internText? p.text with
  | none => (s, false)
  | some (text, pool) =>
    match pool.intern? (.string text) with
    | none => ({ s with file := { s.file with pool } }, false)
    | some (index, pool) =>
      let file := { s.file with pool }
      match loadOperand? p.load.opcode index with
      | none => ({ s with file }, false)
      | some operand =>
        let edit := fun bytes => Code.overwrite bytes (p.load.offset + 1) operand
        ({ s with file := editMethod file p.call.method edit }, true)

/-- Makes the load of a literal yield its plain text, and tells whether it does (part of
`recover_literals`). -/
def settle (exclusive : Std.TreeSet UInt16) (s : Progress) (p : Plain) : Progress × Bool :=
  if p.unchanged then (s, true)
  else if exclusive.contains p.index then
    match repoint? s p with
    | some s => (s, true)
    | none => (s, false)
  else reload s p

/-- Removes a call, behind which there is now its result already (part of `recover_literals`). -/
def removeCall (c : ClassFile) (call : Call) : ClassFile :=
  editMethod c call.method fun bytes => Code.nopOut bytes call.invoke

/-- The calls that were recovered and those that were not, each the latest first. -/
structure Outcome where
  progress : Progress
  recovered : List Plain
  failed : List LiteralFailure

/-- Recovers one call (part of `recover_literals`). -/
def recoverCall (exclusive : Std.TreeSet UInt16) (o : Outcome) (p : Plain) : Outcome :=
  match settle exclusive o.progress p with
  | (s, true) =>
    { o with
      progress := { s with file := removeCall s.file p.call }, recovered := p :: o.recovered }
  | (s, false) => { o with progress := s, failed := .poolFull p.index :: o.failed }

/-- The failures that helpers are by themselves. -/
def helperFailures (helpers : List Helper) : List LiteralFailure :=
  helpers.filterMap fun h =>
    if h.decoding.isNone then some (.unsupportedDecoding h.label) else none

/-- The helpers whose calls were all recovered, and that had some (part of `recover_literals`). -/
def spent (helpers : List Helper) (calls : List Call) (recovered : List Plain) : List Symbol :=
  helpers.filterMap fun h =>
    let total := calls.countP fun c => c.helper.method == h.method
    if total ≠ 0 && recovered.countP (fun p => p.call.helper.method == h.method) == total then
      some { kind := .method, name := h.name, descriptor := Helper.descriptor }
    else none

end Literal

open Literal in
/-- The class with its literals recovered, and what became of each (`recover_literals`). -/
def ClassFile.recoverLiterals (c : ClassFile) : ClassFile × LiteralReport :=
  let helpers := c.helpers
  if helpers.isEmpty then (c, { recovered := [], failures := [], spent := [] })
  else
    let methods := scanned c
    let findings := methods.flatMap (findingsIn c helpers)
    let calls := findings.filterMap Finding.call?
    let decoded := calls.filterMap (decodeCall? c.pool)
    let plains := decoded.filterMap Except.toOption
    let outcome := plains.foldl (recoverCall (exclusive c methods plains))
      { progress := { file := c, repointed := ∅ }, recovered := [], failed := [] }
    let recovered := outcome.recovered.reverse
    let undecoded := decoded.filterMap fun
      | .ok _ => none
      | .error failure => some failure
    (outcome.progress.file, {
      recovered := recovered.map fun p =>
        { method := p.call.label, offset := p.load.offset, text := p.text }
      failures := helperFailures helpers ++ findings.filterMap (Finding.failure? c.className)
        ++ undecoded ++ outcome.failed.reverse
      spent := spent helpers calls recovered })

end Clarify
