import Clarify.Decimal.Fixed
import Clarify.Naming.Plan
import Clarify.Run.Log

/-!
# Settling names

After the survey and before any class is changed, the proposals of all classes go into the
mapping: in the order of the archive, the first one for each old name, unless the name has an
entry already. Then the plan of all renames is made.

Results:
* `get?_commit_of_some`: a name that has an entry keeps it.
-/

namespace Clarify

/-- Proposals going into the mapping. -/
structure Commitment where
  store : Mapping
  /-- The old names that a proposal was seen for. -/
  seen : Std.TreeSet String
  predicted : Nat
  /-- What is logged, the latest first. -/
  notes : List Note

namespace Commitment

/-- Why a name was chosen. -/
def reason (p : Proposal) : String :=
  match p.category with
  | some c => c.word ++ " " ++ Decimal.fixed 2 p.confidence
  | none => "default"

/-- Commits a proposal (part of `Deobfuscator::settle_names`). It counts if the name in force
afterwards is a predicted one and just the one proposed. -/
def commit (c : Commitment) (p : Proposal) : Commitment :=
  if c.seen.contains p.oldName then c
  else
    let seen := c.seen.insert p.oldName
    let (entry, store) := c.store.insertIfAbsent p.oldName p.newName .predicted
    if entry.origin = .predicted ∧ entry.newName = p.newName then
      { store, seen, predicted := c.predicted + 1
        notes := ⟨.info, s!"predicted mapping {p.oldName} -> {p.newName} ({reason p})"⟩
          :: c.notes }
    else { c with store, seen }

theorem get?_commit_of_some {c : Commitment} {p : Proposal} {name : String} {entry : Entry}
    (h : c.store.get? name = some entry) : (c.commit p).store.get? name = some entry := by
  have kept : (c.store.insertIfAbsent p.oldName p.newName .predicted).2.get? name = some entry := by
    rw [Mapping.get?_insertIfAbsent]
    by_cases same : p.oldName = name
    · simp [same, h]
    · simp [same, h]
  unfold commit
  split
  · exact h
  · dsimp only
    split <;> exact kept

end Commitment

/-- The names of a run. -/
structure Settled where
  store : Mapping
  plan : Plan
  predicted : Nat
  collisions : Nat
  notes : List Note

/-- What is logged about a rename that is refused. -/
def Collision.note (c : Collision) : Note :=
  ⟨.warn, s!"{c.className}: keeping {c.member.name} {c.member.descriptor}: "
    ++ s!"{c.newName} would collide"⟩

/-- Settles the names for the surveys of an archive (`Deobfuscator::settle_names`). -/
def Settled.ofSurveys (store : Mapping) (surveys : List Survey) : Settled :=
  let committed := (surveys.flatMap Survey.proposals).foldl Commitment.commit
    { store, seen := ∅, predicted := 0, notes := [] }
  let (plan, collisions) := Plan.build surveys committed.store
  { store := committed.store, plan, predicted := committed.predicted
    collisions := collisions.length
    notes := committed.notes.reverse ++ collisions.map Collision.note }

end Clarify
