import Clarify.Naming.Mapping
import Clarify.Naming.Name
import Clarify.Naming.Predictor
import Std.Data.TreeMap

/-!
# Surveys

A survey lists the members that a class declares and proposes names for those that look
machine-made and have none yet. It reads the mapping and leaves it as it is.
-/

namespace Clarify

/-- How names are proposed. -/
structure NamingPolicy where
  predictor : NamePredictor
  /-- A prediction with less confidence does not count. -/
  minConfidence : Float
  /-- Names up to this length look machine-made. -/
  maxObfuscatedLength : Nat

/-- A new name that a survey proposes. -/
structure Proposal where
  kind : SymbolKind
  oldName : String
  newName : String
  category : Option Category
  confidence : Float

/-- What a survey found in one class (`UnitSurvey`). -/
structure Survey where
  className : String
  /-- Fields, then methods, in declaration order. -/
  members : List Symbol
  proposals : List Proposal

/-- What kind of member a reference refers to (`ref_kind_symbol`). -/
def RefKind.symbolKind : RefKind → SymbolKind
  | .field => .field
  | .method | .interfaceMethod => .method

/-- The member that a reference refers to, whatever class owns it. -/
def MemberRef.symbol (r : MemberRef) : Symbol :=
  { kind := r.kind.symbolKind, name := r.name, descriptor := r.descriptor }

namespace Survey

/-! ## Counting references -/

/-- The instructions of a method, none where it has no body. -/
def instructionsOf (m : Member) : Array Instruction :=
  match m.body? with
  | some body => (body.instructions.toOption).getD #[]
  | none => #[]

/-- How many calls a method makes (part of `reference_counts`). -/
def callCount (m : Member) : Nat :=
  (instructionsOf m).foldl (fun n i => if Opcode.isInvoke i.opcode then n + 1 else n) 0

/-- The member of the class itself that an instruction refers to. -/
def ownReference? (c : ClassFile) (own : String) (i : Instruction) : Option Symbol := do
  let r ← c.pool.memberRef? (← i.poolIndex?)
  if r.owner = own then some r.symbol else none

/-- How often the code of a class refers to each of its own members (part of `reference_counts`). -/
def inboundCounts (c : ClassFile) : Std.TreeMap Symbol Nat :=
  let own := c.className
  c.methods.foldl (fun counts m =>
    (instructionsOf m).foldl (fun counts i =>
      match ownReference? c own i with
      | some s => counts.insert s ((counts[s]?).getD 0 + 1)
      | none => counts) counts) ∅

/-! ## Proposals -/

/-- The features of a member, unless its descriptor is malformed. -/
def features? (s : Symbol) (calls references : Nat) : Option Features :=
  match s.kind with
  | .field =>
    (Descriptor.fieldKind? s.descriptor).map fun kind => .ofCounts 0 kind 0 references
  | _ =>
    (Descriptor.methodShape? s.descriptor).map fun (arity, kind) =>
      .ofCounts arity kind calls references

/-- The lead word of a new name without a prediction. -/
def defaultLead : SymbolKind → String
  | .field => "field"
  | _ => "method"

/-- The lead word of a new name with a predicted category. -/
def categoryLead (c : Category) : SymbolKind → String
  | .field => c.fieldLead
  | _ => c.methodLead

/-- The proposal for a member with the given features (`candidate`). -/
def propose (policy : NamingPolicy) (s : Symbol) (x : Option Features) : Proposal :=
  match (x.bind policy.predictor.predict?).filter fun p => policy.minConfidence ≤ p.confidence with
  | some p =>
    { kind := s.kind, oldName := s.name
      newName := Name.synthesize (categoryLead p.category s.kind) s.name
      category := some p.category, confidence := p.confidence }
  | none =>
    { kind := s.kind, oldName := s.name
      newName := Name.synthesize (defaultLead s.kind) s.name
      category := none, confidence := 0 }

/-- Whether a member should get a new name: it may be renamed, is written by hand, looks
machine-made, and its name is neither mapped nor the target of a mapping (`wants_prediction`). -/
def wantsName (store : Mapping) (policy : NamingPolicy) (s : Symbol) (m : Member) : Bool :=
  !Name.isSpecial s && !m.isSynthetic && Name.isObfuscated policy.maxObfuscatedLength s.name
    && (store.resolve? s.name).isNone && !store.isTarget s.name

/-- The proposals with one for another member, unless its name has one already (part of
`survey`). -/
def addProposal (store : Mapping) (policy : NamingPolicy)
    (inbound : Std.TreeMap Symbol Nat) (found : Array Proposal) (s : Symbol) (m : Member) :
    Array Proposal :=
  if !wantsName store policy s m || found.any (·.oldName == s.name) then found
  else
    let calls := if s.kind = .method then callCount m else 0
    found.push (propose policy s (features? s calls ((inbound[s]?).getD 0)))

/-- The declared members with their symbols: fields, then methods. -/
def declared (c : ClassFile) : List (Symbol × Member) :=
  c.fields.toList.map (fun m => (c.symbolOf .field m, m))
    ++ c.methods.toList.map fun m => (c.symbolOf .method m, m)

end Survey

/-- The survey of a class (`survey`). -/
def ClassFile.survey (c : ClassFile) (store : Mapping) (policy : NamingPolicy) : Survey :=
  let inbound := Survey.inboundCounts c
  let members := Survey.declared c
  { className := c.className
    members := members.map Prod.fst
    proposals := (members.foldl (fun found (s, m) =>
      Survey.addProposal store policy inbound found s m) #[]).toList }

end Clarify
