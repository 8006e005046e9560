/-!
# Paths

Paths are texts with slashes between their parts.  `Path.clean` gives the
shortest equal path: points and empty parts are dropped, and two points take
back the part before them.
-/

namespace JobWeave.Path

/-- Puts one more part behind the parts so far, the last of which is first. -/
def push (rooted : Bool) (seen : List String) (part : String) : List String :=
  if part = "" || part = "." then seen
  else if part = ".." then
    match seen with
    | [] => if rooted then [] else [".."]
    | ".." :: _ => ".." :: seen
    | _ :: rest => rest
  else part :: seen

/-- The parts of a path that mean something. -/
def normalParts (rooted : Bool) (parts : List String) : List String :=
  (parts.foldl (push rooted) []).reverse

/-- The shortest equal path. -/
def clean (path : String) : String :=
  let rooted := path.startsWith "/"
  let body := "/".intercalate (normalParts rooted (path.splitOn "/"))
  if rooted then "/" ++ body else if body = "" then "." else body

/-- The last part of a path. -/
def base (path : String) : String :=
  match ((path.splitOn "/").filter (· != "")).getLast? with
  | some p => p
  | none => if path = "" then "." else "/"

/-- A file in a directory. -/
def join (directory file : String) : String :=
  clean (directory ++ "/" ++ file)

end JobWeave.Path
