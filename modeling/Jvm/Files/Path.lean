/-!
# Paths

File names as text, with slashes between their parts. The functions here never look at a file
system: `..` takes back the part before it.
-/

namespace Jvm.Path

def isAbsolute (path : String) : Bool := path.toList.head? == some '/'

/-- Resolves the parts of a path onto a reversed list: empty parts and `.` are dropped, and `..` takes
back the part before it. Above the root there is nothing; above a relative path `..` stays. -/
def resolve (rooted : Bool) : List String → List String → List String
  | done, [] => done.reverse
  | done, part :: rest =>
    if part = "" || part = "." then resolve rooted done rest
    else if part = ".." then
      match done with
      | [] => resolve rooted (if rooted then [] else [".."]) rest
      | top :: below =>
        if top = ".." then resolve rooted (".." :: done) rest else resolve rooted below rest
    else resolve rooted (part :: done) rest

/-- The shortest path with the same meaning. -/
def clean (path : String) : String :=
  let rooted := isAbsolute path
  let body := "/".intercalate (resolve rooted [] (path.splitOn "/"))
  if rooted then "/" ++ body else if body = "" then "." else body

/-- Parts put together to one clean path; empty parts are left out. -/
def join (parts : List String) : String :=
  match parts.filter (· ≠ "") with
  | [] => ""
  | nonempty => clean ("/".intercalate nonempty)

def directory (path : String) : String :=
  clean (String.ofList (path.toList.reverse.dropWhile (· ≠ '/')).reverse)

/-- What follows the last point of the last part, with the point; empty when there is none. -/
def extension (path : String) : String :=
  let last := (path.toList.reverse.takeWhile (· ≠ '/')).reverse
  if last.contains '.' then
    "." ++ String.ofList (last.reverse.takeWhile (· ≠ '.')).reverse
  else ""

/-- A path seen from the root, where relative paths start at the directory `base`. -/
def absolute (base path : String) : String :=
  if isAbsolute path then clean path else join [base, path]

def splitList (list : String) : List String := if list = "" then [] else list.splitOn ":"

end Jvm.Path
