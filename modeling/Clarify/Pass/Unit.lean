import Clarify.Naming.Rename
import Clarify.Pass.Flow
import Clarify.Pass.Junk
import Clarify.Pass.Literal
import Clarify.Run.Log
import Clarify.Text.Quoted

/-!
# Clarifying one class

A class goes through four passes: its members are renamed, its literals recovered, the flow of
control in its methods simplified, and its junk methods removed. The log tells what each pass did.

Results:
* `clarifyClass_error`: whatever goes wrong, only the remarks on native methods are logged.
-/

namespace Clarify

/-- What all classes of a run are clarified with (`UnitContext`). -/
structure PassContext where
  store : Mapping
  plan : Plan
  suspects : Suspects

/-- What was changed in a class, or in several (`UnitStats`). -/
structure ChangeCounts where
  symbolsRenamed : Nat
  referencesRenamed : Nat
  literalsRecovered : Nat
  literalFailures : Nat
  jumpsThreaded : Nat
  branchesCollapsed : Nat
  methodsRemoved : Nat
  nativeMethods : Nat
deriving Repr, DecidableEq

namespace ChangeCounts

/-- No change. -/
def zero : ChangeCounts := ⟨0, 0, 0, 0, 0, 0, 0, 0⟩

instance : Add ChangeCounts where
  add a b := {
    symbolsRenamed := a.symbolsRenamed + b.symbolsRenamed
    referencesRenamed := a.referencesRenamed + b.referencesRenamed
    literalsRecovered := a.literalsRecovered + b.literalsRecovered
    literalFailures := a.literalFailures + b.literalFailures
    jumpsThreaded := a.jumpsThreaded + b.jumpsThreaded
    branchesCollapsed := a.branchesCollapsed + b.branchesCollapsed
    methodsRemoved := a.methodsRemoved + b.methodsRemoved
    nativeMethods := a.nativeMethods + b.nativeMethods }

end ChangeCounts

/-- A clarified class and what each pass reports. -/
structure Clarified where
  file : ClassFile
  declarations : List Renaming
  references : Nat
  literals : LiteralReport
  flow : FlowCounts
  junk : JunkReport

namespace Clarified

/-! ## The passes -/

/-- A method with its flow of control simplified; native methods stay as they are. -/
def simplifyMethod (m : Member) : Except FormatError (Member × FlowCounts) :=
  if m.isNative then .ok (m, .none)
  else
    match m.body? with
    | none => .ok (m, .none)
    | some body => do
      let (simple, counts) ← body.simplify
      return (m.mapBody fun _ => simple, counts)

/-- A class with the flow of control in its methods simplified. -/
def simplifyAll (c : ClassFile) : Except FormatError (ClassFile × FlowCounts) := do
  let methods ← c.methods.toList.mapM simplifyMethod
  return ({ c with methods := (methods.map Prod.fst).toArray },
    (methods.map Prod.snd).foldl (· + ·) .none)

/-- The old names of renamed methods by their new ones; of several the last (part of
`transform_unit`). -/
def formerNames (declarations : List Renaming) : Std.TreeMap String String :=
  declarations.foldl (fun names r =>
    if r.kind = .method then names.insert r.newName r.oldName else names) ∅

/-- A class after all four passes (part of `transform_unit`). -/
def ofClass (ctx : PassContext) (c : ClassFile) : Except UnitError Clarified := do
  let renamed ← c.rename ctx.store ctx.plan
  let (recovered, literals) := renamed.file.recoverLiterals
  let (simple, flow) ← (simplifyAll recovered).mapError .malformed
  let (file, junk) :=
    simple.removeJunk ctx.suspects (formerNames renamed.declarations) literals.spent
  return { file, declarations := renamed.declarations, references := renamed.references, literals,
           flow, junk }

/-! ## What is reported -/

/-- What is logged about each native method of a class. -/
def nativeNotes (entry : String) (c : ClassFile) : List Note :=
  c.nativeMethods.map fun label =>
    ⟨.warn, s!"{entry}: native method {label}: manual review required"⟩

/-- What is logged about a removed method. -/
def removalNote (entry : String) (r : Removal) : Note :=
  let was := match r.formerName with
    | some name => ", was " ++ name
    | none => ""
  ⟨.info, s!"{entry}: removed junk method {r.label} ({r.reason.word}{was})"⟩

/-- What is logged about the passes (part of `transform_unit`). -/
def notes (entry : String) (r : Clarified) : List Note :=
  (r.declarations.map fun d =>
      ⟨.debug, s!"{entry}: renamed {d.descriptor} {d.oldName} -> {d.newName}"⟩)
    ++ (r.literals.recovered.map fun l =>
      ⟨.debug, s!"{entry}: recovered {Text.quoted l.text} in {l.method}@{l.offset}"⟩)
    ++ (r.literals.failures.map fun f =>
      ⟨.warn, s!"{entry}: literal not recovered: {f.message}"⟩)
    ++ (if r.flow.isEmpty then [] else
      [⟨.debug, s!"{entry}: threaded {r.flow.threaded} jump(s), "
        ++ s!"collapsed {r.flow.collapsed} branch(es)"⟩])
    ++ (r.junk.warnings.map fun w => ⟨.warn, s!"{entry}: {w}"⟩)
    ++ (r.junk.pruned.map fun label =>
      ⟨.info, s!"{entry}: decrypt helper {label} inlined at every call site"⟩)
    ++ r.junk.removed.map (removalNote entry)

/-- What was changed in a class with the given number of native methods. -/
def counts (r : Clarified) (natives : Nat) : ChangeCounts where
  symbolsRenamed := r.declarations.length
  referencesRenamed := r.references
  literalsRecovered := r.literals.recovered.length
  literalFailures := r.literals.failures.length
  jumpsThreaded := r.flow.threaded
  branchesCollapsed := r.flow.collapsed
  methodsRemoved := r.junk.removed.length
  nativeMethods := natives

end Clarified

/-- The bytes of a clarified class and what was changed in it. -/
structure UnitOutput where
  bytes : Bytes
  counts : ChangeCounts
deriving Repr, DecidableEq

/-- Clarifies a class that was read from the entry of the given name. -/
def clarifyClass (ctx : PassContext) (entry : String) (c : ClassFile) :
    Except UnitError UnitOutput × List Note :=
  let natives := Clarified.nativeNotes entry c
  match Clarified.ofClass ctx c with
  | .ok r =>
    (.ok { bytes := r.file.write, counts := r.counts natives.length }, natives ++ r.notes entry)
  | .error e => (.error e, natives)

/-- Clarifies the class in the bytes of an entry, and tells what is to be logged
(`transform_unit`). -/
def clarifyUnit (ctx : PassContext) (entry : String) (bytes : Bytes) :
    Except UnitError UnitOutput × List Note :=
  match ClassFile.parse bytes with
  | .ok c => clarifyClass ctx entry c
  | .error e => (.error (.malformed e), [])

theorem clarifyClass_error {ctx : PassContext} {entry : String} {c : ClassFile} {e : UnitError}
    (h : (clarifyClass ctx entry c).1 = .error e) :
    (clarifyClass ctx entry c).2 = Clarified.nativeNotes entry c := by
  unfold clarifyClass at h ⊢
  cases r : Clarified.ofClass ctx c with
  | ok clarified => simp [r] at h
  | error e' => rfl

end Clarify
