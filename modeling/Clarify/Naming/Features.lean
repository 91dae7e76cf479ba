import Clarify.ClassFile.Descriptor
import Clarify.Naming.LogScale

/-!
# What a prediction looks at

A member is described by four numbers: how many parameters it has, what kind of value it yields,
how many calls its body makes, and how often its own class refers to it. Its name plays no part.
-/

namespace Clarify

/-- The shape of a member and how it is wired into its class. -/
structure Features where
  arity : Float
  returnKind : Float
  outboundCalls : Float
  inboundReferences : Float

namespace Features

/-- The features of a member with the given counts, which are taken on the logarithmic scale
(`Features::from_counts`). -/
def ofCounts (arity : Nat) (kind : ValueKind) (outbound inbound : Nat) : Features where
  arity := LogScale.ofCount arity
  returnKind := Float.ofNat kind.indicator
  outboundCalls := LogScale.ofCount outbound
  inboundReferences := LogScale.ofCount inbound

end Features

/-- What a member is likely to do. -/
inductive Category where
  | attack
  | calculate
  | update
  | get
  | is
deriving Repr, DecidableEq

namespace Category

/-- Every category, in the order of the built-in classifier. -/
def all : List Category := [attack, calculate, update, get, is]

/-- The word for a category (`Category::as_str`). -/
def word : Category → String
  | attack => "attack"
  | calculate => "calculate"
  | update => "update"
  | get => "get"
  | is => "is"

/-- The category that a word stands for. -/
def ofWord? (word : String) : Option Category := all.find? fun c => c.word == word

/-- The lead word of new names of methods (`Category::method_prefix`). -/
def methodLead (c : Category) : String := c.word

/-- The lead word of new names of fields (`Category::field_prefix`). -/
def fieldLead : Category → String
  | is => "flag"
  | get => "value"
  | _ => "field"

theorem ofWord?_word (c : Category) : ofWord? c.word = some c := by
  cases c <;> rfl

end Category

end Clarify
