import Pyreljob.Lib.Pattern
import Pyreljob.Model.Backend

/-!
`list_jobs` and `list_runs`, the queries that filter by a tag, and `recent_failures` and `counts`.

The column `tags` holds JSON text, and the queries look for the tag in this text with `LIKE`. So what
they return depends on how a string is written in JSON and on what the dialect makes of a pattern.
-/

namespace Pyreljob

open Lib

/-! ### The text of the column -/

/-- A number below 2¹⁶ in four hexadecimal digits. -/
def hex4 (n : ℕ) : List Char :=
  [(n / 4096 % 16).digitChar, (n / 256 % 16).digitChar, (n / 16 % 16).digitChar, (n % 16).digitChar]

/-- Printable, and in ASCII. -/
def Printable (c : Char) : Prop := 32 ≤ c.toNat ∧ c.toNat ≤ 126

instance (c : Char) : Decidable (Printable c) := inferInstanceAs (Decidable (_ ∧ _))

/-- A character inside a string of `json.dumps`, which writes ASCII only. -/
def escapeChar (c : Char) : List Char :=
  if c = '\x22' then ['\\', '\x22']
  else if c = '\\' then ['\\', '\\']
  else if c = '\n' then ['\\', 'n']
  else if c = '\r' then ['\\', 'r']
  else if c = '\t' then ['\\', 't']
  else if c = '\x0c' then ['\\', 'f']
  else if c = '\x08' then ['\\', 'b']
  else if Printable c then [c]
  else if c.toNat < 0x10000 then ['\\', 'u'] ++ hex4 c.toNat
  else
    -- a surrogate pair
    let n := c.toNat - 0x10000
    ['\\', 'u'] ++ hex4 (0xd800 + n / 1024) ++ ['\\', 'u'] ++ hex4 (0xdc00 + n % 1024)

/-- A string inside its quotation marks. -/
def escape (s : List Char) : List Char := s.flatMap escapeChar

/-- The quotation mark. -/
abbrev quote : Char := '\x22'

/-- The elements of a list, from the first quotation mark on. -/
def dumpElements (s : List Char) : List (List Char) → List Char
  | [] => quote :: (escape s ++ [quote, ']'])
  | s' :: ss => quote :: (escape s ++ [quote, ',', ' '] ++ dumpElements s' ss)

/-- `json.dumps` of a list of strings. -/
def dumps : List String → List Char
  | [] => ['[', ']']
  | s :: ss => '[' :: dumpElements s.toList (ss.map String.toList)

/-! ### `LIKE` -/

namespace Dialect

/-- What `LIKE` takes for the same character: SQLite does not tell upper from lower case in ASCII. -/
def same : Dialect → Char → Char → Bool
  | sqlite, a, b => a.toLower = b.toLower
  | postgres, a, b => a = b

/-- The escape character of a `LIKE` without `ESCAPE`. -/
def escape : Dialect → Option Char
  | sqlite => none
  | postgres => some '\\'

/-- `text LIKE pattern`. -/
def like (d : Dialect) (text pattern : List Char) : Bool :=
  Glob.fits d.same (Glob.parse '%' '_' d.escape pattern) text

end Dialect

/-- The pattern of `contains(f'"{tag}"')`. -/
def tagPattern (tag : String) : List Char := '%' :: quote :: (tag.toList ++ [quote, '%'])

/-- `cast(JobModel.tags, String).contains(f'"{tag}"')`. It is NULL for a job without tags; where these
are stored as the text `null`, there is no quotation mark in it. -/
def JobRow.tagLike (d : Dialect) (tag : String) (j : JobRow) : Bool :=
  match j.tags with
  | none => false
  | some tags => d.like (dumps tags) (tagPattern tag)

/-! ### The queries -/

namespace DB

def listJobs (db : DB) (d : Dialect) (limit offset : ℕ) (tag : Option String) : List JobRow :=
  let jobs := db.jobs.rows.insertionSort fun j j' => j'.id ≤ j.id
  ((jobs.filter fun j => tag.all fun t => j.tagLike d t).drop offset).take limit

/-- `list_runs`; a pair is a `RunWithJob`. -/
def listRuns (db : DB) (d : Dialect) (limit offset : ℕ) (tag : Option String) :
    List (RunRow × JobRow) :=
  let runs := db.runs.rows.insertionSort fun r r' => r'.id ≤ r.id
  let joined := runs.flatMap fun r => (db.jobs.select fun j => j.id = r.jobId).map fun j => (r, j)
  ((joined.filter fun p => tag.all fun t => p.2.tagLike d t).drop offset).take limit

/-- `finished_at DESC`. -/
def FinishedAfter (r r' : RunRow) : Prop := r'.finishedAt.all fun t' => r.finishedAt.any fun t => t' ≤ t

instance : DecidableRel FinishedAfter := fun _ _ => inferInstanceAs (Decidable (_ = true))

def recentFailures (db : DB) (limit : ℕ) : List RunRow :=
  ((db.runs.select fun r => r.status = .failed).insertionSort FinishedAfter).take limit

/-- The statuses that `counts` groups by. -/
def countedStatuses (db : DB) (queue : Option String) : List RunStatus :=
  let joined := db.runs.rows.flatMap fun r => (db.jobs.select fun j => j.id = r.jobId).map fun j => (r, j)
  (joined.filter fun p => queue.all fun q => q = "" ∨ p.2.queue = q).map fun p => p.1.status

/-- `counts`: a status and the number of its runs, for each status that there is. -/
def counts (db : DB) (queue : Option String) : List (RunStatus × ℕ) :=
  (db.countedStatuses queue).dedup.map fun s => (s, (db.countedStatuses queue).count s)

end DB

end Pyreljob
