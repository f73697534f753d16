import Pyreljob.Model.Submit

/-!
The parameters of a job: `Job.as_dict` and `Job.from_dict` of `pyreljob/task.py`, for a class that is a
dataclass and overrides neither.

`as_dict` is `asdict`, which goes through a value all the way down and makes a `dict` of every dataclass
instance it meets. What it returns is stored in a JSON column, and what comes back from there is passed
to the constructor, top level keys as keyword arguments. The constructor is the one that the decorator
has made, with or without a `__post_init__`, or one that somebody has written. What user code does with
its arguments is a function of them here.
-/

namespace Pyreljob

open Lib

/-! ### Values -/

/-- What an attribute can hold. -/
inductive Obj
  | null
  | bool (b : Bool)
  | num (n : ℤ)
  | float (x : Rat)
  | str (s : String)
  | list (l : List Obj)
  | dict (d : List (String × Obj))
  /-- An instance of a dataclass: the name of its class, and its attributes. -/
  | inst (cls : String) (attrs : List (String × Obj))

namespace Obj

mutual

/-- `_asdict_inner` of the module `dataclasses`. -/
def asdict : Obj → Value
  | null => .null
  | bool b => .bool b
  | num n => .num n
  | float x => .float x
  | str s => .str s
  | list l => .list (asdictList l)
  | dict d => .dict (asdictItems d)
  | inst _ attrs => .dict (asdictItems attrs)

def asdictList : List Obj → List Value
  | [] => []
  | v :: l => v.asdict :: asdictList l

def asdictItems : List (String × Obj) → List (String × Value)
  | [] => []
  | (k, v) :: d => (k, v.asdict) :: asdictItems d

end

mutual

/-- What a JSON column returns for a value. -/
def ofValue : Value → Obj
  | .null => null
  | .bool b => bool b
  | .num n => num n
  | .float x => float x
  | .str s => str s
  | .list l => list (ofValues l)
  | .dict d => dict (ofItems d)

def ofValues : List Value → List Obj
  | [] => []
  | v :: l => ofValue v :: ofValues l

def ofItems : List (String × Value) → List (String × Obj)
  | [] => []
  | (k, v) :: d => (k, ofValue v) :: ofItems d

end

mutual

/-- The value is a dataclass instance, or holds one somewhere. -/
def holdsInstance : Obj → Bool
  | null | bool _ | num _ | float _ | str _ => false
  | list l => anyHolds l
  | dict d => itemsHold d
  | inst .. => true

def anyHolds : List Obj → Bool
  | [] => false
  | v :: l => v.holdsInstance || anyHolds l

def itemsHold : List (String × Obj) → Bool
  | [] => false
  | (_, v) :: d => v.holdsInstance || itemsHold d

end

end Obj

namespace Obj

/-- The number that it is, as `==` takes it: `True == 1 == 1.0`. -/
def number : Obj → Option Rat
  | bool b => some (if b then 1 else 0)
  | num n => some n
  | float x => some x
  | null | str _ | list _ | dict _ | inst _ _ => none

mutual

/-- `==`, where the classes of the instances compare their fields. -/
def same : Obj → Obj → Bool
  | null, null => true
  | str s, str s' => s = s'
  | list l, list l' => sameList l l'
  | dict d, dict d' => d.length = d'.length && sameItems d d'
  | inst cls attrs, inst cls' attrs' => cls = cls' && sameItems attrs attrs'
  | v, v' => v.number.isSome && v.number = v'.number

def sameList : List Obj → List Obj → Bool
  | [], [] => true
  | v :: l, v' :: l' => v.same v' && sameList l l'
  | [], _ :: _ | _ :: _, [] => false

/-- What is under a key here is the same there. -/
def sameItems : List (String × Obj) → List (String × Obj) → Bool
  | [], _ => true
  | (k, v) :: d, d' => (Dict.get? d' k).any (fun v' => v.same v') && sameItems d d'

end

end Obj

/-! ### Classes -/

/-- A field of a dataclass, or one of its `InitVar`s. -/
structure FieldDecl where
  name : String
  init : Bool := true
  default : Option Obj := none
  compare : Bool := true
  /-- It is an `InitVar`: a parameter of the constructor, and no attribute. -/
  initVar : Bool := false

/-- `__dataclass_fields__`, in the order in which they are declared. -/
structure Fields where
  decls : List FieldDecl
  distinct : (decls.map FieldDecl.name).Nodup
  params : ∀ f ∈ decls, f.initVar → f.init

namespace Fields

/-- `fields(cls)`. -/
def attrs (F : Fields) : List FieldDecl := F.decls.filter fun f => !f.initVar

/-- The others. -/
def initVars (F : Fields) : List FieldDecl := F.decls.filter fun f => f.initVar

end Fields

/-- An instance: what its fields hold; `none` for one that was never set. -/
@[ext] structure JobInstance (F : Fields) where
  attrs : List (FieldDecl × Option Obj)
  declared : attrs.map Prod.fst = F.attrs

/-- How an instance is made from keyword arguments. -/
inductive Constructor (F : Fields)
  /-- The `__init__` that the decorator makes. The `__post_init__` of the class, if there is one, gets
  the instance and the values of the `InitVar`s; it may set fields, and it may raise. -/
  | generated (postInit : Option (JobInstance F → List Obj → Except Exc (JobInstance F)))
  /-- An `__init__` that somebody has written, for this class or for a base class. -/
  | written (call : Dict Value → Except Exc (JobInstance F))

/-- The `__eq__` that the decorator makes. -/
def JobInstance.fieldsEqual {F : Fields} (j j' : JobInstance F) : Bool :=
  (j.attrs.zip j'.attrs).all fun (a, a') =>
    !a.1.compare || a.2.any fun v => a'.2.any fun v' => v.same v'

/-- A `Job` subclass that is a dataclass. -/
structure Dataclass extends JobType where
  /-- `__qualname__`. -/
  qualname : String := shortName
  fields : Fields
  constructor : Constructor fields := .generated none
  /-- What `==` says of two instances that are not the same object: with `eq=False`, always no. -/
  eq : JobInstance fields → JobInstance fields → Bool := JobInstance.fieldsEqual

namespace Dataclass

variable (cls : Dataclass)

/-- The first key that no parameter of the constructor takes. -/
def unexpected (data : Dict Value) : Option String :=
  (data.map Prod.fst).find? fun k => !cls.fields.decls.any fun f => f.init && f.name = k

/-- The parameters that have no default and are not there. -/
def missing (data : Dict Value) : List String :=
  (cls.fields.decls.filter fun f => f.init && f.default.isNone && (data.get? f.name).isNone).map
    FieldDecl.name

/-- `'a'`, `'a' and 'b'`, or `'a', 'b', and 'c'`. -/
def enumerated (names : List String) : String :=
  let quoted := names.map fun name => "'" ++ name ++ "'"
  match quoted with
  | [] => ""
  | [a] => a
  | [a, b] => a ++ " and " ++ b
  | _ => ", ".intercalate quoted.dropLast ++ ", and " ++ quoted.getLastD ""

/-- What the generated constructor sets a field to, or hands on of an `InitVar`. -/
def initial (data : Dict Value) (f : FieldDecl) : Option Obj :=
  if f.init then ((data.get? f.name).map Obj.ofValue).or f.default else f.default

/-- The instance as the generated constructor leaves it to `__post_init__`. -/
def assigned (data : Dict Value) : JobInstance cls.fields where
  attrs := cls.fields.attrs.map fun f => (f, initial data f)
  declared := by simp [Function.comp_def]

/-- The generated constructor with keyword arguments. -/
def generatedInit (postInit : Option (JobInstance cls.fields → List Obj →
    Except Exc (JobInstance cls.fields))) (data : Dict Value) : Except Exc (JobInstance cls.fields) :=
  match cls.unexpected data with
  | some k => .error (.other "TypeError"
      (cls.qualname ++ ".__init__() got an unexpected keyword argument '" ++ k ++ "'"))
  | none => match cls.missing data with
    | [] => match postInit with
      | none => .ok (cls.assigned data)
      | some post => post (cls.assigned data) (cls.fields.initVars.filterMap (initial data))
    | [name] => .error (.other "TypeError"
        (cls.qualname ++ ".__init__() missing 1 required positional argument: " ++ enumerated [name]))
    | names => .error (.other "TypeError" (cls.qualname ++ ".__init__() missing " ++
        toString names.length ++ " required positional arguments: " ++ enumerated names))

/-- `from_dict`: `cls(**data)`. -/
def fromDict (data : Dict Value) : Except Exc (JobInstance cls.fields) :=
  match cls.constructor with
  | .generated postInit => cls.generatedInit postInit data
  | .written call => call data

end Dataclass

namespace JobInstance

variable {cls : Dataclass}

/-- The items of `as_dict`, of an instance of the class with this name. -/
def items (shortName : String) : List (FieldDecl × Option Obj) → Except Exc (Dict Value)
  | [] => .ok []
  | (f, none) :: _ => .error (.other "AttributeError"
      ("'" ++ shortName ++ "' object has no attribute '" ++ f.name ++ "'"))
  | (f, some v) :: attrs => do
    let data ← items shortName attrs
    .ok ((f.name, v.asdict) :: data)

/-- `as_dict`; the class is a dataclass, so the guard lets it pass. -/
def asDict (j : JobInstance cls.fields) : Except Exc (Dict Value) := items cls.shortName j.attrs

/-- The `next_runtime` of a class, as it is called with an instance. -/
abbrev NextRuntime (cls : Dataclass) :=
  JobInstance cls.fields → Option RunRow → TaskContext → Except Exc (Option Time)

/-- What the manager makes use of: `next_runtime(None, TaskContext(0, job_name(job)))` is for the first
schedule. -/
def toJob (nextRuntime : NextRuntime cls) (j : JobInstance cls.fields) : Job where
  cls := cls.toJobType
  asDict := j.asDict
  firstRuntime := nextRuntime j none { jobId := 0, job := cls.name }

end JobInstance

/-- What the worker does with the row of a job when it reschedules it:
`job_cls.from_dict(job.args or {}).next_runtime(run, ctx)`. -/
def Dataclass.nextRuntimeOf (cls : Dataclass) (nextRuntime : JobInstance.NextRuntime cls) (job : JobRow)
    (run : RunRow) (ctx : TaskContext) : Except Exc (Option Time) := do
  let j ← cls.fromDict (job.args.getD [])
  nextRuntime j (some run) ctx

end Pyreljob
