import Clarify.Naming.Plan
import Clarify.Pass.UnitError

/-!
# Renaming

Renaming changes the declarations of a class and every reference it makes to a member of a class
of the archive. A symbol gets its new name by an index to another text, never by a change of the
text itself, so other uses of the same text stay as they are. A class is renamed completely or
not at all: where the constant pool has no room left, there is no renamed class.
-/

namespace Clarify

/-- A renamed declaration (`Rename`). -/
structure Renaming where
  kind : SymbolKind
  oldName : String
  newName : String
  descriptor : String
deriving Repr, DecidableEq

/-- A renamed class and what was renamed in it (`RenameOutcome`). -/
structure Renamed where
  file : ClassFile
  /-- The renamed declarations: fields, then methods, in declaration order. -/
  declarations : List Renaming
  /-- How many references got another name. -/
  references : Nat

namespace Rename

/-- A step that may add to a constant pool. -/
abbrev PoolStep := StateT Pool (Except UnitError)

/-- The index of a constant, added unless the pool has it. -/
def constant (c : Constant) : PoolStep UInt16 := fun pool =>
  match pool.intern? c with
  | some added => .ok added
  | none => .error .poolFull

/-- The index of a text, added unless the pool has it. -/
def text (value : String) : PoolStep UInt16 := constant (.utf8 (ModifiedUtf8.encode value))

/-- The index of a name and descriptor that differs from the one at `index` by its name
(`rebuild_name_and_type`). -/
def namedLike (index : UInt16) (newName : String) : PoolStep UInt16 := do
  match (← get).get index with
  | .ok (.nameAndType _ descriptor) => constant (.nameAndType (← text newName) descriptor)
  | .ok _ => throw (.malformed (.badIndex index .notNameAndType))
  | .error e => throw (.malformed e)

/-- A declaration under its new name, if it gets one (part of `rename_unit`). -/
def declaration (store : Mapping) (plan : Plan) (c : ClassFile) (kind : SymbolKind) (m : Member) :
    PoolStep (Member × Option Renaming) := do
  let s := c.symbolOf kind m
  match plan.target? store s with
  | none => return (m, none)
  | some newName =>
    let name ← text newName
    return ({ m with name }, some { kind, oldName := s.name, newName, descriptor := s.descriptor })

/-- Whether the members of a class are renamed: it is the class itself or one of the archive. -/
def isRenamedOwner (plan : Plan) (c : ClassFile) (owner : String) : Bool :=
  owner == c.className || plan.classes.contains owner

/-- The new name for a reference to a member of class `owner`, whose name and descriptor stand at
index `pair`. -/
def referenceTarget? (store : Mapping) (plan : Plan) (c : ClassFile) (kind : SymbolKind)
    (owner pair : UInt16) : Option String := do
  let ownerName ← c.pool.className? owner
  if !isRenamedOwner plan c ownerName then none
  let (name, descriptor) ← c.pool.nameAndType? pair
  plan.target? store { kind, name, descriptor }

/-- A member reference of the pool that gets a new name. -/
structure Reference where
  index : UInt16
  kind : RefKind
  owner : UInt16
  pair : UInt16
  newName : String

/-- The member references of the pool that get a new name, in order (part of `rename_unit`). -/
def references (store : Mapping) (plan : Plan) (c : ClassFile) : List Reference :=
  c.pool.slots.toList.zipIdx.filterMap fun (slot, index) =>
    match slot with
    | some (.memberRef kind owner pair) =>
      (referenceTarget? store plan c kind.symbolKind owner pair).map fun newName =>
        { index := UInt16.ofNat index, kind, owner, pair, newName }
    | _ => none

/-- Gives a member reference its new name (part of `rename_unit`). -/
def repoint (r : Reference) : PoolStep Unit := do
  let pair ← namedLike r.pair r.newName
  modify fun pool => pool.replace r.index (.memberRef r.kind r.owner pair)

/-- The attribute that names the method around a local class, under the new name of that method; and
whether it got one (part of `rename_unit`). -/
def enclosing (store : Mapping) (plan : Plan) (c : ClassFile) (a : Attribute) :
    PoolStep (Attribute × Bool) := do
  if c.pool.text? a.name ≠ some "EnclosingMethod" then return (a, false)
  match a.info with
  | [c1, c2, m1, m2] =>
    let method := word16 m1 m2
    if method = 0 then return (a, false)
    match referenceTarget? store plan c .method (word16 c1 c2) method with
    | none => return (a, false)
    | some newName =>
      let pair ← namedLike method newName
      return ({ a with info := [c1, c2] ++ be16 pair }, true)
  | _ => return (a, false)

/-- Renames in the pool and gives back the parts of the class that change. Attributes are not
checked when a class is read, so one may name an index that only the renamed references fill. -/
def steps (store : Mapping) (plan : Plan) (c : ClassFile) :
    PoolStep (List (Member × Option Renaming) × List (Member × Option Renaming) × Nat
      × List (Attribute × Bool)) := do
  let fields ← c.fields.toList.mapM (declaration store plan c .field)
  let methods ← c.methods.toList.mapM (declaration store plan c .method)
  let found := references store plan c
  found.forM repoint
  let pool ← get
  let attributes ← c.attributes.mapM (enclosing store plan { c with pool })
  return (fields, methods, found.length, attributes)

end Rename

/-- The class with the names that the plan settles (`rename_unit`). -/
def ClassFile.rename (c : ClassFile) (store : Mapping) (plan : Plan) :
    Except UnitError Renamed := do
  let ((fields, methods, references, attributes), pool) ← (Rename.steps store plan c).run c.pool
  return {
    file := { c with
      pool
      fields := (fields.map Prod.fst).toArray
      methods := (methods.map Prod.fst).toArray
      attributes := attributes.map Prod.fst }
    declarations := (fields ++ methods).filterMap Prod.snd
    references := references + (attributes.filter Prod.snd).length }

end Clarify
