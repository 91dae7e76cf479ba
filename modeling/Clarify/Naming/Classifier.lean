import Clarify.Json
import Clarify.Naming.Features

/-!
# The classifier

Multinomial logistic regression over the four features: one row of weights for each category,
and the category with the largest share wins. Training starts from zero weights and takes a fixed
number of steps down the gradient over all samples, so the same samples always give the same
classifier.
-/

namespace Clarify

/-- The weights of one category: one for each feature, and a constant. -/
structure WeightRow where
  arity : Float
  returnKind : Float
  outboundCalls : Float
  inboundReferences : Float
  bias : Float

/-- A row of weights for each category (`LogisticPredictor`). -/
structure Classifier where
  rows : List (Category × WeightRow)

/-- A category and the share it has among all. -/
structure Prediction where
  category : Category
  confidence : Float

/-- Why there is no classifier (`PredictionUnavailable`). -/
inductive ClassifierError where
  | noSamples
  | labelOutOfRange
  | noCategories
  | rowCount (categories rows : Nat)
  | rowLength (row length : Nat)
  | notFinite
  | unreadable (path reason : String)
  | unparsable (path : String)
deriving Repr, DecidableEq

/-- The wording of a classifier error. The reason why a model is no model is left open. -/
def ClassifierError.message (e : ClassifierError) : String :=
  "Name prediction unavailable: " ++
    match e with
    | .noSamples => "empty training set"
    | .labelOutOfRange => "training label out of range"
    | .noCategories => "model has no categories"
    | .rowCount categories rows => s!"model has {categories} categories but {rows} weight rows"
    | .rowLength row length => s!"weight row {row} has {length} values, expected 5"
    | .notFinite => "model contains non-finite weights"
    | .unreadable path reason => s!"cannot read model {path}: {reason}"
    | .unparsable path => s!"cannot parse model {path}: "

namespace WeightRow

/-- No weight at all. -/
def zero : WeightRow := ⟨0, 0, 0, 0, 0⟩

/-- The weights as a list, the constant last. -/
def toList (w : WeightRow) : List Float :=
  [w.arity, w.returnKind, w.outboundCalls, w.inboundReferences, w.bias]

/-- A row from its five weights. -/
def ofList? : List Float → Option WeightRow
  | [a, r, o, i, b] => some ⟨a, r, o, i, b⟩
  | _ => none

/-- The score of a member. -/
def score (w : WeightRow) (x : Features) : Float :=
  w.bias + (w.arity * x.arity + w.returnKind * x.returnKind
    + w.outboundCalls * x.outboundCalls + w.inboundReferences * x.inboundReferences)

/-- A row with a multiple of a member's features added. -/
def addScaled (w : WeightRow) (factor : Float) (x : Features) : WeightRow where
  arity := w.arity + factor * x.arity
  returnKind := w.returnKind + factor * x.returnKind
  outboundCalls := w.outboundCalls + factor * x.outboundCalls
  inboundReferences := w.inboundReferences + factor * x.inboundReferences
  bias := w.bias + factor

end WeightRow

namespace Classifier

/-! ## Shares -/

/-- The larger of two numbers; what is no number does not count. -/
def larger (a b : Float) : Float :=
  if a.isNaN then b else if b.isNaN then a else if a < b then b else a

/-- The share of each score among all: the exponentials of the scores, divided by their sum
(`softmax`). The largest score is taken off first, which keeps the exponentials finite. -/
def shares (scores : List Float) : List Float :=
  let top := scores.foldl larger (-1.0 / 0.0)
  let weights := scores.map fun s => Float.exp (s - top)
  let total := weights.foldl (· + ·) 0
  weights.map (· / total)

/-- The first category with the largest share. -/
def strongest : Prediction → List Prediction → Prediction
  | best, [] => best
  | best, p :: rest => strongest (if best.confidence < p.confidence then p else best) rest

/-- The category that a member most likely belongs to (`LogisticPredictor::predict`). -/
def predict? (c : Classifier) (x : Features) : Option Prediction :=
  let confidences := shares (c.rows.map fun row => row.2.score x)
  match (c.rows.zip confidences).map fun (row, confidence) => ⟨row.1, confidence⟩ with
  | [] => none
  | first :: rest => some (strongest first rest)

/-! ## Training -/

/-- How many steps training takes (`TRAIN_EPOCHS`). -/
def steps : Nat := 2000

/-- How far a step goes (`LEARNING_RATE`). -/
def rate : Float := 0.5

/-- How strongly weights are drawn to zero (`L2`). -/
def decay : Float := 0.001

/-- A member with the number of its category. -/
structure Sample where
  features : Features
  label : Nat

/-- What one sample adds to the gradient. -/
def addSample (rows : List WeightRow) (gradient : List WeightRow) (s : Sample) : List WeightRow :=
  let confidences := shares (rows.map fun w => w.score s.features)
  (gradient.zip confidences.zipIdx).map fun (g, (p, i)) =>
    g.addScaled (p - if i = s.label then 1 else 0) s.features

/-- A row of weights after a step down its gradient over `count` samples. -/
def descend (count : Float) (w g : WeightRow) : WeightRow :=
  let move (w g : Float) : Float := w - rate * (g / count + decay * w)
  { arity := move w.arity g.arity
    returnKind := move w.returnKind g.returnKind
    outboundCalls := move w.outboundCalls g.outboundCalls
    inboundReferences := move w.inboundReferences g.inboundReferences
    bias := w.bias - rate * (g.bias / count) }

/-- All rows after a step. -/
def step (samples : List Sample) (rows : List WeightRow) : List WeightRow :=
  let gradient := samples.foldl (addSample rows) (rows.map fun _ => .zero)
  List.zipWith (descend (Float.ofNat samples.length)) rows gradient

/-- A classifier whose weights are all finite (`LogisticPredictor::validate`). -/
def checked (c : Classifier) : Except ClassifierError Classifier :=
  if c.rows.all fun row => row.2.toList.all Float.isFinite then .ok c else .error .notFinite

/-- The classifier of a row of samples. -/
def train (categories : List Category) (samples : List Sample) :
    Except ClassifierError Classifier :=
  if categories.isEmpty || samples.isEmpty then .error .noSamples
  else if samples.any fun s => categories.length ≤ s.label then .error .labelOutOfRange
  else
    let rows := steps.repeat (step samples) (categories.map fun _ => .zero)
    checked ⟨categories.zip rows⟩

/-- Members of every category: parameters, kind of value, calls, references (`TRAINING_SET`). -/
def builtInSamples : List (Nat × ValueKind × Nat × Nat × Nat) := [
  (1, .void, 4, 1, 0),
  (2, .void, 6, 1, 0),
  (1, .void, 3, 0, 0),
  (2, .primitive, 0, 2, 1),
  (3, .primitive, 1, 3, 1),
  (1, .primitive, 0, 1, 1),
  (0, .void, 1, 6, 2),
  (0, .void, 2, 4, 2),
  (1, .void, 0, 5, 2),
  (0, .void, 0, 1, 2),
  (0, .reference, 0, 3, 3),
  (0, .primitive, 0, 4, 3),
  (0, .reference, 1, 2, 3),
  (0, .boolean, 0, 2, 4),
  (1, .boolean, 1, 1, 4),
  (0, .boolean, 1, 3, 4)]

/-- The classifier trained on the built-in samples (`LogisticPredictor::train_default`). -/
def builtIn : Except ClassifierError Classifier :=
  train Category.all (builtInSamples.map fun (arity, kind, outbound, inbound, label) =>
    { features := .ofCounts arity kind outbound inbound, label })

/-! ## Stored models -/

/-- A stored model: its categories and a list of weights for each (`ModelFile`). -/
structure Model where
  categories : List Category
  weights : List (List Float)

/-- The model that a JSON value describes. -/
def Model.ofJson? (j : Json) : Option Model := do
  match ← j.record? ["categories", "weights"] with
  | [some categories, some weights] =>
    let categories ← (← categories.items?).mapM fun c => do Category.ofWord? (← c.variant?)
    let weights ← (← weights.items?).mapM fun row => do (← row.items?).mapM Json.float?
    return { categories, weights }
  | _ => none

/-- The rows of a model, numbered from `i` on. -/
def rowsFrom (i : Nat) : List (List Float) → Except ClassifierError (List WeightRow)
  | [] => .ok []
  | weights :: rest =>
    match WeightRow.ofList? weights with
    | some row => (rowsFrom (i + 1) rest).map (row :: ·)
    | none => .error (.rowLength i weights.length)

/-- The classifier of a stored model (`LogisticPredictor::from_model`). -/
def ofModel (m : Model) : Except ClassifierError Classifier := do
  if m.categories.isEmpty then throw .noCategories
  if m.categories.length ≠ m.weights.length then
    throw (.rowCount m.categories.length m.weights.length)
  let rows ← rowsFrom 0 m.weights
  checked ⟨m.categories.zip rows⟩

end Classifier

end Clarify
