import Clarify.Naming.Survey

/-!
# Rename plans

A plan settles, before any class is changed, which members keep their names although the mapping
has new ones for them. A rename is blocked if the new name is not valid, or if two members of one
class would end with the same name and descriptor. A blocked rename is blocked in every class.
-/

namespace Clarify

/-- A rename that is refused, in the class where this was found. -/
structure Collision where
  className : String
  member : Symbol
  newName : String
deriving Repr, DecidableEq

/-- What is settled before classes are renamed (`RenamePlan`). -/
structure Plan where
  /-- The names of all classes of the archive. -/
  classes : Std.TreeSet String
  /-- The members that keep their names everywhere. -/
  blocked : Std.TreeSet Symbol

namespace Plan

/-- The new name of a member, if it gets another one (`RenamePlan::target`). -/
def target? (p : Plan) (store : Mapping) (s : Symbol) : Option String :=
  if Name.isSpecial s || p.blocked.contains s then none
  else (store.resolve? s.name).filter (· ≠ s.name)

/-- The name that a member ends with. -/
def finalName (p : Plan) (store : Mapping) (s : Symbol) : String :=
  (p.target? store s).getD s.name

/-- The member under its final name. -/
def finalSymbol (p : Plan) (store : Mapping) (s : Symbol) : Symbol :=
  { s with name := p.finalName store s }

/-! ## Blocking -/

/-- A plan under way, with the collisions found so far, the latest first. -/
structure Draft where
  plan : Plan
  collisions : List Collision

/-- Blocks a member and notes the collision, unless it is blocked already. -/
def Draft.block (d : Draft) (c : Collision) : Draft :=
  if d.plan.blocked.contains c.member then d
  else
    { plan := { d.plan with blocked := d.plan.blocked.insert c.member }
      collisions := c :: d.collisions }

/-- Blocks a member whose new name is not valid (part of `RenamePlan::build`). -/
def blockInvalid (store : Mapping) (className : String) (d : Draft) (s : Symbol) : Draft :=
  if Name.isSpecial s then d
  else
    match store.resolve? s.name with
    | some newName =>
      if Name.isValid newName then d else d.block { className, member := s, newName }
    | none => d

/-- The members of a class under each final symbol, in declaration order (part of
`RenamePlan::build`). -/
def groups (p : Plan) (store : Mapping) (members : List Symbol) :
    Std.TreeMap Symbol (List Symbol) :=
  members.foldr (fun s map =>
    let key := p.finalSymbol store s
    map.insert key (s :: (map[key]?).getD [])) ∅

/-- Blocks the members of a group that would get the name they share. -/
def blockGroup (className : String) (d : Draft) (group : Symbol × List Symbol) : Draft :=
  if group.2.length < 2 then d
  else
    group.2.foldl (fun d s =>
      if s.name = group.1.name then d
      else d.block { className, member := s, newName := group.1.name }) d

/-- Blocks the renames that collide in one class (part of `RenamePlan::build`). -/
def blockClass (store : Mapping) (d : Draft) (survey : Survey) : Draft :=
  (groups d.plan store survey.members).toList.foldl (blockGroup survey.className) d

/-- Blocks the renames that collide in some class, as the plan stood when each class came up. -/
def blockRound (surveys : List Survey) (store : Mapping) (d : Draft) : Draft :=
  surveys.foldl (blockClass store) d

/-- How many declarations are not blocked. -/
def openCount (surveys : List Survey) (d : Draft) : Nat :=
  (surveys.flatMap Survey.members).countP fun s => !d.plan.blocked.contains s

/-- Blocks renames for as long as a round blocks another one: each can make a further one collide,
with the name that is now kept (part of `RenamePlan::build`). -/
def settle (surveys : List Survey) (store : Mapping) (d : Draft) : Draft :=
  let next := blockRound surveys store d
  if openCount surveys next < openCount surveys d then settle surveys store next else next
termination_by openCount surveys d

/-- The plan for the classes of the surveys, and the collisions in the order they were found. -/
def build (surveys : List Survey) (store : Mapping) : Plan × List Collision :=
  let start : Draft :=
    { plan := { classes := Std.TreeSet.ofList (surveys.map Survey.className), blocked := ∅ }
      collisions := [] }
  let valid := surveys.foldl
    (fun d survey => survey.members.foldl (blockInvalid store survey.className) d) start
  let settled := settle surveys store valid
  (settled.plan, settled.collisions.reverse)

end Plan

end Clarify
