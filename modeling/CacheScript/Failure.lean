/-
Failures: why a script could not be built, and why a run of it stopped. Each
has one wording, and a failed run has a code for callers.
-/
import CacheScript.Text.Quoted

namespace CacheScript

/-- Why a definition makes no script. -/
inductive BuildFailure where
  | unknownTag (tag : String)
  | missingAttribute (tag name : String)
  | unexpectedChildren (tag : String)
deriving DecidableEq

/-- The wording of a failure to build. -/
def BuildFailure.message : BuildFailure → String
  | unknownTag tag => "unknown node tag " ++ Text.quoted tag
  | missingAttribute tag name =>
    "node " ++ Text.quoted tag ++ " requires attribute " ++ Text.quoted name
  | unexpectedChildren tag => "node " ++ Text.quoted tag ++ " cannot have children"

/-- Why a run stopped. -/
inductive Failure where
  /-- No store is bound under the name. -/
  | missingCacheContext (name : String)
  | objectNotFound (key : String)
  | storeNotRegistered (id : String)
  /-- Nothing of the wanted kind is bound under the name. -/
  | missingBinding (name : String)
  | thrown (code message : String)
deriving DecidableEq

namespace Failure

/-- The code that callers see. -/
def code : Failure → String
  | missingCacheContext _ => "core.e1001"
  | storeNotRegistered _ => "core.e1002"
  | missingBinding _ => "core.e1003"
  | objectNotFound _ => "clnt.e2007"
  | thrown code _ => code

/-- The wording of a failure. -/
def message : Failure → String
  | missingCacheContext name =>
    "It must be in a cache context, check your together script (no store under " ++
      Text.quoted name ++ ")"
  | objectNotFound key => "Can not find object, id=" ++ key
  | storeNotRegistered id => "Store " ++ Text.quoted id ++ " is not registered in this session"
  | missingBinding name => "Nothing bound under " ++ Text.quoted name
  | thrown code message => code ++ ": " ++ message

end Failure

end CacheScript
