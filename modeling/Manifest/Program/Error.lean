import Manifest.Value.Merge

/-!
# Failures of evaluation
-/

namespace Manifest

inductive EvalError where
  | unresolvedIdentifier (name : String)
  | cycle (name : String)
  | missingArgument (name : String)
  | notAFunction (name : String)
  | notASequence (left : String)
  | mergeMismatch (conflict : MergeConflict)
  | noSuchField (field target : String)
  | unsupported (form : String)
  /-- The depth allowance is used up, which says nothing about the document
  but that it calls functions without end. -/
  | exhausted
deriving DecidableEq

def EvalError.message : EvalError → String
  | unresolvedIdentifier name => "unresolved identifier \"" ++ name ++ "\""
  | cycle name => "\"" ++ name ++ "\" is defined in terms of itself"
  | missingArgument name => "function \"" ++ name ++ "\" was called without an argument"
  | notAFunction name => "\"" ++ name ++ "\" is not a function but was given an argument"
  | notASequence left =>
      "cannot merge into " ++ left ++ ": left side of a vector merge must be a sequence"
  | mergeMismatch conflict =>
      "cannot merge " ++ conflict.right ++ " into " ++ conflict.left ++ " at \"" ++
        conflict.place ++ "\""
  | noSuchField field target => "field \"" ++ field ++ "\" not found on " ++ target
  | unsupported form => form ++ " expressions cannot be evaluated"
  | exhausted => "evaluation does not end"

end Manifest
