import Clarify.Naming.Classifier

/-!
# Predictors

What proposes a category for a member. A predictor that has no opinion leaves a member to its
default name. A project has no predictor or a classifier; a run works with any.
-/

namespace Clarify

/-- What predicts categories. -/
structure NamePredictor where
  /-- The word for the predictor in reports. -/
  word : String
  /-- What is said about a member. -/
  predict? : Features → Option Prediction

/-- The predictors of a project. -/
inductive Predictor where
  /-- Never has an opinion. -/
  | silent
  | classifier (c : Classifier)

namespace Predictor

/-- The word for a predictor in reports. -/
def word : Predictor → String
  | silent => "noop"
  | classifier _ => "logistic"

/-- What a predictor says about a member. -/
def predict? (p : Predictor) (x : Features) : Option Prediction :=
  match p with
  | silent => none
  | classifier c => c.predict? x

/-- The predictor as a run works with it. -/
def toNamePredictor (p : Predictor) : NamePredictor := ⟨p.word, p.predict?⟩

instance : Coe Predictor NamePredictor := ⟨toNamePredictor⟩

end Predictor

/-- The predictor that never has an opinion (`NoopPredictor`). -/
def NamePredictor.silent : NamePredictor := Predictor.silent

end Clarify
