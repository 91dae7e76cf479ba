import Clarify.ClassFile.FormatError

/-!
# Why a class is passed through

A class that cannot be clarified goes into the output as it was. This is the cause that is
reported for it.
-/

namespace Clarify

/-- Why a class is not clarified (`TransformError`). -/
inductive UnitError where
  | malformed (cause : FormatError)
  | unreadable (reason : String)
  | poolFull
  | timeout
  | crashed (reason : String)
deriving Repr, DecidableEq

/-- The wording of a cause. -/
def UnitError.message : UnitError → String
  | .malformed cause => "parse failed: " ++ cause.message
  | .unreadable reason => "could not read entry: " ++ reason
  | .poolFull => "constant pool is full"
  | .timeout => "transformation did not finish before the run deadline"
  | .crashed reason => "worker panicked: " ++ reason

end Clarify
