/-!
# How paths are written

A path is shown in its simplest form: without empty parts and without parts that are a single point.
Parts that go up stay, as they may lead through links. A path that starts at the root keeps one
slash, or two if it was written with exactly two.
-/

namespace WorldDoc.Command

/-- The parts of a path between its slashes that lead somewhere. -/
def pathParts (path : String) : List String :=
  ((path.toList.splitOn '/').map String.ofList).filter fun part => part ≠ "" && part ≠ "."

/-- The slashes that a path keeps at its start. -/
def pathRoot (path : String) : String :=
  match (path.toList.takeWhile (· = '/')).length with
  | 0 => ""
  | 2 => "//"
  | _ => "/"

/-- A path in its simplest form; the empty path is the current directory. -/
def simplifyPath (path : String) : String :=
  let simple := pathRoot path ++ "/".intercalate (pathParts path)
  if simple.isEmpty then "." else simple

end WorldDoc.Command
