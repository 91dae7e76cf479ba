import Clarify.Naming.Name
import Clarify.Naming.Suspects
import Clarify.Pass.Helper

/-!
# Removing junk methods

Suspect methods go in any case. Private methods that no other method of the class calls go too,
and then those that only they called, and so on, unless other classes may have access to private
members. Native methods and those that the virtual machine calls by itself stay.

Results:
* `keptCount_pruneRound_le`: a round of pruning never brings a method back.
-/

namespace Clarify

/-- Why a method is removed. -/
inductive RemovalReason where
  | suspect
  | unreferenced
deriving Repr, DecidableEq

/-- The word for a reason (`RemovalReason::as_str`). -/
def RemovalReason.word : RemovalReason → String
  | .suspect => "suspect"
  | .unreferenced => "never called"

/-- A removed method (`RemovedMethod`). -/
structure Removal where
  label : String
  /-- The name before the class was renamed, if it had another one. -/
  formerName : Option String
  reason : RemovalReason
deriving Repr, DecidableEq

/-- What was removed from a class. -/
structure JunkReport where
  removed : List Removal
  /-- The spent helpers among the removed methods. -/
  pruned : List String
  warnings : List String
deriving Repr, DecidableEq

namespace Junk

/-! ## Calls inside a class -/

/-- The positions of methods by name and descriptor; of several the first. -/
def positions (c : ClassFile) : Std.TreeMap Symbol Nat :=
  (c.methods.toList.zipIdx).foldl (fun table (m, position) =>
    table.insertIfNew (c.symbolOf .method m) position) ∅

/-- The position of the method of the class itself that a reference refers to. -/
def ownMethod? (c : ClassFile) (positions : Std.TreeMap Symbol Nat) (index : UInt16) :
    Option Nat := do
  let r ← c.pool.memberRef? index
  if r.owner ≠ c.className then none
  positions[({ kind := .method, name := r.name, descriptor := r.descriptor } : Symbol)]?

/-- The methods of the class itself that a method calls. -/
def callees (c : ClassFile) (positions : Std.TreeMap Symbol Nat) (m : Member) : List Nat :=
  match m.body?.bind fun body => body.instructions.toOption with
  | some instructions =>
    (instructions.filterMap fun i => do
      if !Opcode.isInvoke i.opcode then none
      ownMethod? c positions (← i.poolIndex?)).toList
  | none => []

/-- The method that a method handle refers to. -/
def handled? (c : ClassFile) (positions : Std.TreeMap Symbol Nat) : Option Constant → Option Nat
  | some (.methodHandle _ reference) => ownMethod? c positions reference
  | _ => none

/-- Who calls whom in a class. -/
structure Calls where
  /-- For each method, the methods that it calls. -/
  callees : Array (List Nat)
  /-- The methods that handles refer to, which may be called from anywhere. -/
  pinned : List Nat

/-- The calls of a class (`own_calls`). -/
def callsOf (c : ClassFile) : Calls :=
  let table := positions c
  { callees := c.methods.map (callees c table)
    pinned := c.pool.slots.toList.filterMap (handled? c table) }

/-! ## Fates -/

/-- What becomes of each method: the reason why it is removed, or nothing. -/
abbrev Fates := Array (Option RemovalReason)

/-- Whether a method stays. -/
def stays (fates : Fates) (position : Nat) : Bool := (fates.getD position none).isNone

/-- How many methods stay. -/
def keptCount (fates : Fates) : Nat := fates.countP Option.isNone

/-- Marks for the methods with the given positions. -/
def marked (size : Nat) (positions : List Nat) : Array Bool :=
  positions.foldl (fun marks position => marks.setIfInBounds position true)
    (Array.replicate size false)

/-- Marks for the methods that handles refer to or that another method calls which stays. -/
def called (calls : Calls) (fates : Fates) : Array Bool :=
  let fromMethods := calls.callees.toList.zipIdx.flatMap fun (callees, caller) =>
    if stays fates caller then callees.filter (· ≠ caller) else []
  marked fates.size (calls.pinned ++ fromMethods)

/-- Removes the prunable methods that nobody calls (part of `eliminate_junk`). -/
def pruneRound (calls : Calls) (prunable : Array Bool) (fates : Fates) : Fates :=
  let called := called calls fates
  fates.mapIdx fun position fate =>
    match fate with
    | some reason => some reason
    | none =>
      if prunable.getD position false && !called.getD position false then some .unreferenced
      else none

/-- Removes prunable methods until all that are left are called (part of `eliminate_junk`). -/
def prune (calls : Calls) (prunable : Array Bool) (fates : Fates) : Fates :=
  let next := pruneRound calls prunable fates
  if keptCount next < keptCount fates then prune calls prunable next else fates
termination_by keptCount fates

/-- Whether a method may be removed at all. -/
def isRemovable (c : ClassFile) (m : Member) : Bool :=
  let s := c.symbolOf .method m
  !m.isNative && !Name.isSpecial s && !Name.isSerializationHook s.name s.descriptor

/-- Whether a method is suspect under its name or under the one it had before. -/
def isSuspect (suspects : Suspects) (formerNames : Std.TreeMap String String) (name : String) :
    Bool :=
  suspects.contains name || (formerNames[name]?).any suspects.contains

/-- The fates of the methods before any is pruned (part of `eliminate_junk`). -/
def suspectFates (c : ClassFile) (suspects : Suspects) (formerNames : Std.TreeMap String String) :
    Fates :=
  c.methods.map fun m =>
    if isSuspect suspects formerNames (c.nameOf m) && isRemovable c m then some .suspect else none

/-- Whether no other class has access to private members (part of `eliminate_junk`). -/
def isAlone (c : ClassFile) : Bool := !c.hasAttribute "NestHost" && !c.hasAttribute "NestMembers"

/-- The fates of all methods (part of `eliminate_junk`). -/
def fates (c : ClassFile) (calls : Calls) (suspects : Suspects)
    (formerNames : Std.TreeMap String String) : Fates :=
  let start := suspectFates c suspects formerNames
  if isAlone c then
    prune calls (c.methods.map fun m => m.isPrivate && isRemovable c m) start
  else start

/-- Whether a handle or a method that stays refers to a method. -/
def isReferenced (calls : Calls) (fates : Fates) (position : Nat) : Bool :=
  calls.pinned.contains position || calls.callees.toList.zipIdx.any fun (callees, caller) =>
    stays fates caller && callees.contains position

theorem keptCount_pruneRound_le (calls : Calls) (prunable : Array Bool) (fates : Fates) :
    keptCount (pruneRound calls prunable fates) ≤ keptCount fates := by
  have shrink : ∀ (l : List (Option RemovalReason))
      (f : Nat → Option RemovalReason → Option RemovalReason),
      (∀ i r, f i (some r) = some r) →
        (l.mapIdx f).countP Option.isNone ≤ l.countP Option.isNone := by
    intro l
    induction l with
    | nil => intro f _; simp
    | cons a l ih =>
      intro f keep
      rw [List.mapIdx_cons, List.countP_cons, List.countP_cons]
      have rest := ih (fun i => f (i + 1)) fun i r => keep (i + 1) r
      cases a with
      | some r => simpa [keep 0 r] using rest
      | none =>
        have : (if Option.isNone (f 0 none) = true then 1 else 0) ≤ 1 := by split <;> omega
        simp only [Option.isNone_none, if_true]
        omega
  simp only [keptCount, pruneRound, ← Array.countP_toList, Array.toList_mapIdx]
  exact shrink _ _ fun _ _ => rfl

end Junk

open Junk in
/-- The class without its junk methods, and what was removed. `formerNames` tells the name that a
renamed method had before (`eliminate_junk`). -/
def ClassFile.removeJunk (c : ClassFile) (suspects : Suspects)
    (formerNames : Std.TreeMap String String) (spent : List Symbol) : ClassFile × JunkReport :=
  let calls := callsOf c
  let fates := fates c calls suspects formerNames
  let rows := c.methods.toList.zipIdx.map fun (m, position) =>
    (m, position, fates.getD position none)
  let removed := rows.filterMap fun (m, _, fate) => fate.map fun reason =>
    { label := c.labelOf m, formerName := formerNames[c.nameOf m]?, reason }
  let warnings := rows.filterMap fun (m, position, fate) =>
    if fate = some .suspect ∧ isReferenced calls fates position then
      some (c.labelOf m ++ " is still referenced; removing it anyway")
    else none
  let pruned := spent.filterMap fun s => do
    let position ← c.findMethod? s.name s.descriptor
    if stays fates position then none else c.methods[position]?.map c.labelOf
  let kept := rows.filterMap fun (m, _, fate) => if fate.isNone then some m else none
  ({ c with methods := kept.toArray }, { removed, pruned, warnings })

end Clarify
