import Mathlib.Data.List.Forall2
import Mathlib.Logic.Function.Basic
import Pyreljob.Lib.Dict

/-!
Databases whose tables change: the statements of SQL that define data, and the two that move it.

A table has named columns and rows, and a row says what is in every column. What a cell may hold is up
to the caller; `NULL` is `none`. A statement that meets a table or a column that is not there, or one
that is there already, is a fault. Where the dialects differ a statement asks the session.
-/

namespace Pyreljob.Lib.Sql

abbrev Row (V : Type) := String → Option V

/-- What an insertion that does not name a column puts there. -/
inductive Default (V : Type)
  | value (v : Option V)
  | currentTimestamp
  /-- The primary key: the insertions are counted. -/
  | key

/-- A column. -/
structure Column (V : Type) where
  default : Default V := .value none
  notNull : Bool := false

/-- A table. -/
structure Relation (V : Type) where
  columns : Dict (Column V)
  rows : List (Row V) := []
  /-- The last key that was handed out. -/
  seq : ℕ := 0

/-- An index on some columns of a table. -/
structure Index where
  name : String
  table : String
  columns : List String
  unique : Bool := false
  deriving DecidableEq

structure Database (V : Type) where
  tables : Dict (Relation V) := []
  indexes : List Index := []

/-- Why a statement is refused. -/
inductive Fault
  | noSuchTable (table : String)
  | noSuchColumn (column : String)
  | duplicateColumn (column : String)
  | indexedColumn (column : String)
  | nonConstantDefault (column : String)
  | notNull (column : String)
  | notUnique (index : String)

/-- Where the statements are executed: the dialect, the clock, and how keys are stored. -/
structure Session (V : Type) where
  postgres : Bool
  now : V
  key : ℕ → V

variable {V : Type}

def Default.eval (c : Session V) (k : ℕ) : Default V → Option V
  | value v => v
  | currentTimestamp => some c.now
  | key => some (c.key k)

def Default.isConstant : Default V → Bool
  | value _ => true
  | _ => false

/-! ### One table -/

namespace Relation

def requires (R : Relation V) : List String → Except Fault Unit
  | [] => .ok ()
  | column :: columns =>
    if (R.columns.get? column).isSome then R.requires columns else .error (.noSuchColumn column)

def missing (R : Relation V) (columns : List String) (r : Row V) : Option String :=
  columns.find? fun column => (R.columns.get? column).any Column.notNull && (r column).isNone

/-- What is written to these columns is not `NULL` where it must not be. -/
def check (R : Relation V) (columns : List String) (rows : List (Row V)) : Except Fault Unit :=
  match rows.findSome? (R.missing columns) with
  | some column => .error (.notNull column)
  | none => .ok ()

/-- `ADD COLUMN`. A table that has rows needs something to put there, and SQLite needs a constant. -/
def addColumn (R : Relation V) (c : Session V) (column : String) (x : Column V) :
    Except Fault (Relation V) := do
  if (R.columns.get? column).isSome then throw (.duplicateColumn column)
  if !x.default.isConstant && !R.rows.isEmpty && !c.postgres then throw (.nonConstantDefault column)
  let R' : Relation V := { R with columns := R.columns ++ [(column, x)] }
  let rows := R.rows.mapIdx fun k r => Function.update r column (x.default.eval c (k + 1))
  R'.check [column] rows
  pure { R' with rows := rows }

def renameColumn (R : Relation V) (column column' : String) : Except Fault (Relation V) :=
  if (R.columns.get? column).isNone then .error (.noSuchColumn column)
  else if (R.columns.get? column').isSome then .error (.duplicateColumn column')
  else .ok { R with
    columns := R.columns.map fun x => if x.1 = column then (column', x.2) else x
    rows := R.rows.map fun r => Function.update (Function.update r column' (r column)) column none }

def dropColumn (R : Relation V) (column : String) : Except Fault (Relation V) :=
  if (R.columns.get? column).isNone then .error (.noSuchColumn column)
  else .ok { R with
    columns := R.columns.filter fun x => x.1 ≠ column
    rows := R.rows.map fun r => Function.update r column none }

/-- `SET column = f, ...`: every `f` is taken at the row as it was. -/
def assign : List (String × (Row V → Option V)) → Row V → Row V
  | [], r => r
  | (column, f) :: sets, r => Function.update (assign sets r) column (f r)

/-- `UPDATE ... SET ... WHERE p`, with the columns that the statement reads. -/
def update (R : Relation V) (columns : List String) (p : Row V → Bool)
    (sets : List (String × (Row V → Option V))) : Except Fault (Relation V) := do
  R.requires (columns ++ sets.map Prod.fst)
  R.check (sets.map Prod.fst) ((R.rows.filter p).map (assign sets))
  pure { R with rows := R.rows.map fun r => if p r then assign sets r else r }

def inserted (R : Relation V) (c : Session V) (values : Dict (Option V)) (k : ℕ) : Row V := fun column =>
  match values.get? column, R.columns.get? column with
  | some v, _ => v
  | none, some x => x.default.eval c k
  | none, none => none

/-- `INSERT INTO ... SELECT`: a row for each row of the source. -/
def insertSelect (R : Relation V) (c : Session V) (source : Relation V)
    (values : List (String × String × (Row V → Option V))) : Except Fault (Relation V) := do
  R.requires (values.map Prod.fst)
  source.requires (values.map fun x => x.2.1)
  let rows := source.rows.mapIdx fun k r =>
    R.inserted c (values.map fun x => (x.1, x.2.2 r)) (R.seq + k + 1)
  R.check (R.columns.map Prod.fst) rows
  pure { R with rows := R.rows ++ rows, seq := R.seq + rows.length }

/-- No two rows have the same in these columns; `NULL`s do not conflict. -/
def Unique [DecidableEq V] (R : Relation V) (columns : List String) : Prop :=
  ((R.rows.map fun r => columns.map r).filter fun vs => vs.all Option.isSome).Nodup

instance [DecidableEq V] (R : Relation V) (columns : List String) : Decidable (R.Unique columns) :=
  inferInstanceAs (Decidable (List.Nodup _))

end Relation

/-! ### The database -/

namespace Database

def createTable (db : Database V) (table : String) (columns : Dict (Column V)) : Database V :=
  if (db.tables.get? table).isSome then db
  else { db with tables := db.tables.set table { columns := columns } }

/-- A table that must be there. -/
def table (db : Database V) (table : String) : Except Fault (Relation V) :=
  match db.tables.get? table with
  | some R => .ok R
  | none => .error (.noSuchTable table)

def columns (db : Database V) (table : String) : Except Fault (List String) := do
  let R ← db.table table
  pure (R.columns.map Prod.fst)

def onTable (db : Database V) (table : String) (f : Relation V → Except Fault (Relation V)) :
    Except Fault (Database V) := do
  let R ← db.table table
  let R' ← f R
  pure { db with tables := db.tables.set table R' }

def addColumn (db : Database V) (c : Session V) (table column : String) (x : Column V) :
    Except Fault (Database V) :=
  db.onTable table fun R => R.addColumn c column x

def update (db : Database V) (table : String) (columns : List String) (p : Row V → Bool)
    (sets : List (String × (Row V → Option V))) : Except Fault (Database V) :=
  db.onTable table fun R => R.update columns p sets

def renameColumn (db : Database V) (table column column' : String) : Except Fault (Database V) := do
  let db ← db.onTable table fun R => R.renameColumn column column'
  pure { db with
    indexes := db.indexes.map fun i =>
      if i.table = table then { i with columns := i.columns.map fun x => if x = column then column' else x }
      else i }

/-- PostgreSQL drops the indexes on the column with it, SQLite refuses. -/
def dropColumn (db : Database V) (c : Session V) (table column : String) :
    Except Fault (Database V) :=
  if (db.indexes.any fun i => i.table = table ∧ column ∈ i.columns) && !c.postgres then
    .error (.indexedColumn column)
  else do
    let db ← db.onTable table fun R => R.dropColumn column
    pure { db with indexes := db.indexes.filter fun i => ¬ (i.table = table ∧ column ∈ i.columns) }

def insertSelect (db : Database V) (c : Session V) (table source : String)
    (values : List (String × String × (Row V → Option V))) : Except Fault (Database V) := do
  let S ← db.table source
  db.onTable table fun R => R.insertSelect c S values

def createIndex [DecidableEq V] (db : Database V) (i : Index) : Except Fault (Database V) :=
  if db.indexes.any fun i' => i'.name = i.name then .ok db
  else do
    let R ← db.table i.table
    R.requires i.columns
    if i.unique ∧ ¬ R.Unique i.columns then .error (.notUnique i.name)
    else pure { db with indexes := db.indexes ++ [i] }

def dropIndex (db : Database V) (name : String) : Database V :=
  { db with indexes := db.indexes.filter fun i => i.name ≠ name }

end Database

/-! ### What the statements do -/

lemma ok_bind {ε α β : Type} {m : Except ε α} {x : α} {f : α → Except ε β} {y : Except ε β}
    (hm : m = .ok x) (hf : f x = y) : m >>= f = y := by
  rw [hm]
  exact hf

/-- A statement that is executed, where it is enough that the last one comes to something good. -/
lemma exists_bind {ε α β : Type} {m : Except ε α} {x : α} {f : α → Except ε β} {P : β → Prop}
    (hm : m = .ok x) (hf : ∃ y, f x = .ok y ∧ P y) : ∃ y, m >>= f = .ok y ∧ P y := by
  obtain ⟨y, hy, hP⟩ := hf
  exact ⟨y, ok_bind hm hy, hP⟩

/-- The same for a statement that is executed where something holds. -/
lemma exists_bind_if {ε α β : Type} {p : Prop} [Decidable p] {m m' : Except ε α} {x : α}
    {f : α → Except ε β} {P : β → Prop} (hp : p) (hm : m = .ok x)
    (hf : ∃ y, f x = .ok y ∧ P y) : ∃ y, (if p then m else m') >>= f = .ok y ∧ P y :=
  exists_bind ((if_pos hp).trans hm) hf

/-- What holds of a row and its image under a statement holds all along the table. -/
lemma forall₂_mapIdx {α β γ : Type} {P : α → β → Prop} {Q : α → γ → Prop} {l : List α} {l' : List β}
    {f : ℕ → β → γ} (h : List.Forall₂ P l l') (hf : ∀ k a b, P a b → Q a (f k b)) :
    List.Forall₂ Q l (l'.mapIdx f) := by
  induction h generalizing f with
  | nil => exact .nil
  | cons hab _ ih =>
    rw [List.mapIdx_cons]
    exact .cons (hf 0 _ _ hab) (ih fun k a b => hf (k + 1) a b)

lemma exists_of_forall₂ {α β : Type} {P : α → β → Prop} {l : List α} {l' : List β} {b : β}
    (h : List.Forall₂ P l l') (hb : b ∈ l') : ∃ a ∈ l, P a b := by
  induction h with
  | nil => cases hb
  | cons hab _ ih =>
    rcases List.mem_cons.1 hb with rfl | hb
    · exact ⟨_, List.mem_cons_self, hab⟩
    · obtain ⟨a, ha, hP⟩ := ih hb
      exact ⟨a, List.mem_cons_of_mem _ ha, hP⟩

namespace Relation

variable {R : Relation V} {columns : Dict (Column V)} {rows : List (Row V)} {seq : ℕ}
variable {c : Session V} {column column' : String}

lemma check_ok {names : List String} (h : ∀ r ∈ rows, ∀ column ∈ names,
    (R.columns.get? column).any Column.notNull = true → (r column).isSome = true) :
    R.check names rows = .ok () := by
  have hnone : rows.findSome? (R.missing names) = none := by
    refine List.findSome?_eq_none_iff.2 fun r hr => ?_
    simp only [missing, List.find?_eq_none, Bool.and_eq_true, not_and]
    intro column hcolumn hnotNull
    simpa [Option.ne_none_iff_isSome] using h r hr column hcolumn hnotNull
  rw [check, hnone]

lemma addColumn_value {v : Option V} {b : Bool} (hnew : (columns.get? column).isSome = false)
    (hv : b = true → v.isSome = true) :
    addColumn ⟨columns, rows, seq⟩ c column ⟨.value v, b⟩ =
      .ok ⟨columns ++ [(column, ⟨.value v, b⟩)], rows.map fun r => Function.update r column v, seq⟩ := by
  have hget : Dict.get? (columns ++ [(column, (⟨.value v, b⟩ : Column V))]) column =
      some ⟨.value v, b⟩ := by
    have hnone : columns.get? column = none := by simpa using hnew
    rw [Dict.get?_append, hnone, Option.none_or, Dict.get?_cons, if_pos rfl]
  have hrows : (rows.mapIdx fun k r => Function.update r column (Default.eval c (k + 1) (.value v))) =
      rows.map fun r => Function.update r column v :=
    List.ext_getElem (by simp) (by simp [Default.eval])
  have hcheck : check ⟨columns ++ [(column, ⟨.value v, b⟩)], rows, seq⟩ [column]
      (rows.map fun r => Function.update r column v) = .ok () := by
    refine check_ok fun r hr column' hcolumn' hnotNull => ?_
    obtain rfl := List.mem_singleton.1 hcolumn'
    obtain ⟨r', -, rfl⟩ := List.mem_map.1 hr
    rw [hget] at hnotNull
    simpa using hv hnotNull
  unfold addColumn
  simp only [hnew, Default.isConstant, hrows, hcheck]
  rfl

lemma addColumn_empty {x : Column V} (hnew : (columns.get? column).isSome = false) :
    addColumn ⟨columns, [], seq⟩ c column x = .ok ⟨columns ++ [(column, x)], [], seq⟩ := by
  unfold addColumn
  simp only [hnew, List.isEmpty_nil, Bool.not_true, Bool.and_false, Bool.false_and,
    List.mapIdx_nil]
  rfl

lemma renameColumn_ok (hold : (columns.get? column).isNone = false)
    (hnew : (columns.get? column').isSome = false) :
    renameColumn ⟨columns, rows, seq⟩ column column' =
      .ok ⟨columns.map fun x => if x.1 = column then (column', x.2) else x,
        rows.map fun r => Function.update (Function.update r column' (r column)) column none, seq⟩ := by
  rw [renameColumn, hold, hnew]
  rfl

lemma dropColumn_ok (hold : (columns.get? column).isNone = false) :
    dropColumn ⟨columns, rows, seq⟩ column =
      .ok ⟨columns.filter fun x => x.1 ≠ column, rows.map fun r => Function.update r column none, seq⟩ := by
  rw [dropColumn, hold]
  rfl

lemma update_ok {names : List String} {p : Row V → Bool} {sets : List (String × (Row V → Option V))}
    (hrequires : requires ⟨columns, rows, seq⟩ (names ++ sets.map Prod.fst) = .ok ())
    (hsets : ∀ r ∈ rows, p r = true → ∀ column ∈ sets.map Prod.fst,
      (columns.get? column).any Column.notNull = true → (assign sets r column).isSome = true) :
    update ⟨columns, rows, seq⟩ names p sets =
      .ok ⟨columns, rows.map fun r => if p r then assign sets r else r, seq⟩ := by
  have hcheck : check ⟨columns, rows, seq⟩ (sets.map Prod.fst) ((rows.filter p).map (assign sets)) =
      .ok () := by
    refine check_ok fun r hr column hcolumn hnotNull => ?_
    obtain ⟨r', hr', rfl⟩ := List.mem_map.1 hr
    obtain ⟨hmem, hp⟩ := List.mem_filter.1 hr'
    exact hsets r' hmem hp column hcolumn hnotNull
  exact ok_bind hrequires (ok_bind hcheck rfl)

lemma insertSelect_ok {columns' : Dict (Column V)} {rows' : List (Row V)} {seq' : ℕ}
    {values : List (String × String × (Row V → Option V))}
    (hrequires : requires ⟨columns, rows, seq⟩ (values.map Prod.fst) = .ok ())
    (hsource : requires ⟨columns', rows', seq'⟩ (values.map fun x => x.2.1) = .ok ())
    (hfilled : ∀ r ∈ rows', ∀ k, ∀ column ∈ columns.map Prod.fst,
      (columns.get? column).any Column.notNull = true →
        (inserted ⟨columns, rows, seq⟩ c (values.map fun x => (x.1, x.2.2 r)) k column).isSome = true) :
    insertSelect ⟨columns, rows, seq⟩ c ⟨columns', rows', seq'⟩ values =
      .ok ⟨columns, rows ++ rows'.mapIdx fun k r =>
        inserted ⟨columns, rows, seq⟩ c (values.map fun x => (x.1, x.2.2 r)) (seq + k + 1),
        seq + rows'.length⟩ := by
  have hcheck : check ⟨columns, rows, seq⟩ (columns.map Prod.fst) (rows'.mapIdx fun k r =>
      inserted ⟨columns, rows, seq⟩ c (values.map fun x => (x.1, x.2.2 r)) (seq + k + 1)) = .ok () := by
    refine check_ok fun r hr column hcolumn hnotNull => ?_
    obtain ⟨k, hk, rfl⟩ := List.mem_mapIdx.1 hr
    exact hfilled _ (List.getElem_mem hk) _ column hcolumn hnotNull
  refine ok_bind hrequires (ok_bind hsource (ok_bind hcheck ?_))
  rw [List.length_mapIdx]
  rfl

lemma unique_of_null [DecidableEq V] (h : ∀ r ∈ R.rows, r column = none) : R.Unique [column] := by
  have hnil : ((R.rows.map fun r => [column].map r).filter fun vs => vs.all Option.isSome) = [] := by
    refine List.filter_eq_nil_iff.2 fun vs hvs => ?_
    obtain ⟨r, hr, rfl⟩ := List.mem_map.1 hvs
    simp [h r hr]
  rw [Unique, hnil]
  exact List.nodup_nil

end Relation

lemma Database.createIndex_ok [DecidableEq V] {db : Database V} {i : Index} {R : Relation V}
    (hname : (db.indexes.any fun i' => i'.name = i.name) = false) (htable : db.table i.table = .ok R)
    (hrequires : R.requires i.columns = .ok ()) (hunique : i.unique = true → R.Unique i.columns) :
    db.createIndex i = .ok { db with indexes := db.indexes ++ [i] } := by
  rw [createIndex, hname, if_neg nofun]
  refine ok_bind htable (ok_bind hrequires ?_)
  rw [if_neg fun h => h.2 (hunique h.1)]
  rfl

end Pyreljob.Lib.Sql
