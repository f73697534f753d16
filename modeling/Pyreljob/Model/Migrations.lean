import Mathlib.Data.List.Sort
import Pyreljob.Lib.Pool
import Pyreljob.Model.Task

/-!
`pyreljob/migrations/runner.py`, for any number of runners with one list of migrations.

What the steps do to the schema is up to their functions: a function takes a schema to a schema, or
raises. A step is one transaction, `CREATE TABLE` included; where it raises, or where the version is
there already, nothing of it stays.
-/

namespace Pyreljob

open Lib

/-- `Migration`. -/
structure Migration (Schema : Type) where
  version : ℤ
  description : String
  fn : Schema → Except Exc Schema

/-- What a runner finds. -/
structure Migrated (Schema : Type) where
  schema : Schema
  /-- The rows of `schema_migrations`; `none` where there is no such table yet. -/
  table : Option (List (ℤ × String)) := none

namespace Migrated

variable {Schema : Type}

/-- The versions that are recorded, in the order in which they were. -/
def versions (db : Migrated Schema) : List ℤ := (db.table.getD []).map Prod.fst

/-- The transaction of `_apply`. -/
def apply (db : Migrated Schema) (m : Migration Schema) : Migrated Schema × Except Exc Unit :=
  let rows := db.table.getD []
  match m.fn db.schema with
  | .error exc => (db, .error exc)
  | .ok schema =>
    if m.version ∈ rows.map Prod.fst then (db, .error (.integrityError "schema_migrations.version"))
    else ({ schema := schema, table := some (rows ++ [(m.version, m.description)]) }, .ok ())

end Migrated

/-! ### The runner -/

/-- What a runner asks of the database. -/
inductive MigrationReq (Schema : Type)
  /-- `_table_exists`. -/
  | tableExists
  /-- `SELECT MAX(version) FROM schema_migrations`. -/
  | maxVersion
  /-- `_apply`. -/
  | apply (m : Migration Schema)

/-- What the database returns. -/
abbrev MigrationReq.Reply {Schema : Type} : MigrationReq Schema → Type
  | tableExists => Bool
  | maxVersion => Option ℤ
  | apply _ => Unit

/-- A program of a runner. -/
abbrev MigrationIo (Schema : Type) (α : Type) :=
  Prog (MigrationReq Schema) MigrationReq.Reply Exc α

namespace MigrationRunner

variable {Schema : Type}

/-- The list of `__init__`. -/
def sorted (migrations : List (Migration Schema)) : List (Migration Schema) :=
  migrations.insertionSort fun m m' => m.version ≤ m'.version

def version : MigrationIo Schema (Option ℤ) := do
  if ← Prog.call MigrationReq.tableExists then Prog.call MigrationReq.maxVersion else pure none

def pending (migrations : List (Migration Schema)) : MigrationIo Schema (List (Migration Schema)) := do
  let current := (← version).getD 0
  pure ((sorted migrations).filter fun m => current < m.version)

/-- The loop of `up` over the pending migrations. -/
def upFrom (steps : Option ℤ) :
    List (Migration Schema) → List (Migration Schema) → MigrationIo Schema (List (Migration Schema))
  | [], applied => pure applied
  | m :: ms, applied =>
    if steps.any fun n => n ≤ (applied.length : ℤ) then pure applied
    else do
      Prog.call (MigrationReq.apply m)
      upFrom steps ms (applied ++ [m])

def up (migrations : List (Migration Schema)) (steps : Option ℤ) :
    MigrationIo Schema (List (Migration Schema)) := do
  upFrom steps (← pending migrations) []

end MigrationRunner

/-! ### Any number of runners -/

/-- A request is executed, or raises for a reason of its own and is rolled back. -/
inductive MigrationAnswer
  | done
  | fail (exc : Exc)

/-- A request on the database. -/
def Migrated.exec {Schema : Type} (db : Migrated Schema) :
    (r : MigrationReq Schema) → Migrated Schema × Except Exc r.Reply
  | .tableExists => (db, .ok db.table.isSome)
  | .maxVersion =>
    match db.table with
    | none => (db, .error (.other "OperationalError" "no such table: schema_migrations"))
    | some rows => (db, .ok (rows.map Prod.fst).max?)
  | .apply m => db.apply m

/-- An answered request. -/
def Migrated.answer {Schema : Type} (db : Migrated Schema) (r : MigrationReq Schema) :
    MigrationAnswer → Option (Migrated Schema × Except Exc r.Reply)
  | .done => some (db.exec r)
  | .fail exc => some (db, .error exc)

/-- A state of the database with its runners; each of them was started by an `up` with its `steps`. -/
abbrev Migrators (Schema : Type) :=
  Pool (Migrated Schema) (Option ℤ) MigrationAnswer (MigrationReq Schema) MigrationReq.Reply Exc

namespace Migrators

variable {Schema : Type}

/-- The program of a call of `up`. -/
def program (migrations : List (Migration Schema)) (steps : Option ℤ) : MigrationIo Schema Unit := do
  let _ ← MigrationRunner.up migrations steps
  pure ()

/-- A database that was never migrated, and no runner yet. -/
def init (schema : Schema) : Migrators Schema := { shared := { schema := schema } }

/-- Reached by any interleaving of calls of `up` with these migrations. -/
def Reached (migrations : List (Migration Schema)) (schema : Schema) (p : Migrators Schema) : Prop :=
  Pool.Run Migrated.answer (program migrations) (fun _ _ => True) (init schema) p

end Migrators

end Pyreljob
