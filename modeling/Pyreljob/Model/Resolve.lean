import Pyreljob.Lib.Dict
import Pyreljob.Lib.Dotted
import Pyreljob.Model.Task

/-!
From a class to its name and back: `job_name` and `_resolve` of `pyreljob/task.py`, and the registry
of a worker.

What can be imported, and what attributes there are, is up to the interpreter, which is a parameter.
`_resolve` does not know where the module ends in a dotted path, and tries the longest one first.
-/

namespace Pyreljob

open Lib

/-- What an import or the access to an attribute raises. -/
inductive Raised
  | importError
  | attributeError
  | other (exc : Exc)
  deriving DecidableEq

/-- An interpreter with its objects, and the base classes that one may ask for. -/
structure Interpreter (Obj Base : Type) where
  /-- `importlib.import_module`. -/
  importModule : String → Except Raised Obj
  getattr : Obj → String → Except Raised Obj
  /-- `isinstance(obj, type) and issubclass(obj, base)`. -/
  isSubclass : Obj → Base → Bool
  /-- `cls.__module__`. -/
  moduleName : Obj → String
  /-- `cls.__qualname__`. -/
  qualname : Obj → String

namespace Interpreter

variable {Obj Base : Type} (W : Interpreter Obj Base)

def jobName (cls : Obj) : String := W.moduleName cls ++ "." ++ W.qualname cls

/-- `for attr in path: obj = getattr(obj, attr)`. -/
def getattrs : Obj → List String → Except Raised Obj
  | obj, [] => .ok obj
  | obj, attr :: path =>
    match W.getattr obj attr with
    | .ok obj => getattrs obj path
    | .error e => .error e

/-- The loop of `_resolve`, from the first `i` parts down. -/
def resolveFrom (base : Base) (parts : List String) : ℕ → Except Raised (Option Obj)
  | 0 => .ok none
  | i + 1 =>
    match W.importModule (Dotted.join (parts.take (i + 1))) with
    | .error .importError => resolveFrom base parts i
    | .error e => .error e
    | .ok m =>
      match W.getattrs m (parts.drop (i + 1)) with
      | .error .attributeError => .ok none
      | .error e => .error e
      | .ok obj => .ok (if W.isSubclass obj base then some obj else none)

def resolve (name : String) (base : Base) : Except Raised (Option Obj) :=
  let parts := Dotted.split name
  W.resolveFrom base parts (parts.length - 1)

/-- `Worker._resolve`: the class, and the registry afterwards. -/
def lookup (job : Base) (registry : Dict Obj) (name : String) :
    Except Raised (Option Obj × Dict Obj) :=
  match registry.get? name with
  | some cls => .ok (some cls, registry)
  | none =>
    match W.resolve name job with
    | .error e => .error e
    | .ok none => .ok (none, registry)
    | .ok (some cls) => .ok (some cls, registry.set name cls)

/-- Names that are looked up one after the other; an exception leaves the registry as it is. -/
def lookups (job : Base) : Dict Obj → List String → Dict Obj
  | registry, [] => registry
  | registry, name :: names =>
    match W.lookup job registry name with
    | .ok (_, registry') => lookups job registry' names
    | .error _ => lookups job registry names

end Interpreter

end Pyreljob
