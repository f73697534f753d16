import Mathlib.Data.List.Basic

/-!
Names in parts, with dots between them.
-/

namespace Pyreljob.Lib.Dotted

/-- `path.split(".")`. -/
def split (path : String) : List String := (path.toList.splitOn '.').map String.ofList

/-- `".".join(parts)`. -/
def join (parts : List String) : String := ".".intercalate parts

lemma split_ne_nil (path : String) : split path ≠ [] := by simp [split]

lemma join_split (path : String) : join (split path) = path := by
  apply String.toList_inj.1
  have hparts : ((path.toList.splitOn '.').map String.ofList).map String.toList =
      path.toList.splitOn '.' := by simp
  rw [join, String.toList_intercalate, split, hparts]
  exact List.intercalate_splitOn '.'

lemma split_dot (path path' : String) : split (path ++ "." ++ path') = split path ++ split path' := by
  have htext : (path ++ "." ++ path').toList = path.toList ++ '.' :: path'.toList := by simp
  rw [split, htext, List.splitOn_append_cons_self, List.map_append]
  rfl

lemma join_append {parts parts' : List String} (h : parts ≠ []) (h' : parts' ≠ []) :
    join (parts ++ parts') = join parts ++ "." ++ join parts' :=
  String.intercalate_append_of_ne_nil h h'

end Pyreljob.Lib.Dotted
