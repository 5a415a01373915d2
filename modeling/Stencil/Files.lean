/-! Files by the paths that lead to them, as seen from one folder. -/

namespace Stencil

inductive FileEntry where
  | file (content : ByteArray)
  | folder

/-- The entries of a folder under the names that lead to them. Folders on the way to an entry
are there as well. -/
structure Folder where
  entries : List (List String × FileEntry) := []

namespace Folder

/-- The names in a path, without those that stay in a folder. -/
def names (path : String) : List String :=
  (path.splitOn "/").filter fun name => name != "" && name != "."

/-- Of two entries at one path the later one counts. -/
def ofList (files : List (String × FileEntry)) : Folder :=
  ⟨(files.map fun (path, entry) => (names path, entry)).reverse⟩

private def isBefore : List String → List String → Bool
  | [], _ => true
  | _ :: _, [] => false
  | name :: rest, other :: others => name == other && isBefore rest others

def entryAt? (folder : Folder) (names : List String) : Option FileEntry :=
  match folder.entries.find? fun entry => entry.1 == names with
  | some (_, entry) => some entry
  | none => if folder.entries.any fun entry => isBefore names entry.1 then some .folder else none

/-- Follow names one by one. Only a folder has anything below it; no name and a single dot stay
in it, and two dots leave it. -/
def follow? (folder : Folder) : (here : List String) → List String → Option FileEntry
  | [], [] => some .folder
  | here, [] => folder.entryAt? here
  | here, name :: rest =>
      let isFolder := here.isEmpty || match folder.entryAt? here with
        | some .folder => true
        | _ => false
      if !isFolder then none
      else if name = "" || name = "." then folder.follow? here rest
      else if name = ".." then if here.isEmpty then none else folder.follow? here.dropLast rest
      else folder.follow? (here ++ [name]) rest

/-- The content of the file at a path. Paths that lead outside have none. -/
def file? (folder : Folder) (path : String) : Option ByteArray :=
  if path.startsWith "/" || path.isEmpty then none
  else match folder.follow? [] (path.splitOn "/") with
    | some (.file content) => some content
    | _ => none

end Folder

namespace FilePath

/-- A path below another one. -/
def join (root path : String) : String :=
  if root.isEmpty || root.endsWith "/" then root ++ path else root ++ "/" ++ path

private def lastName (path : String) : List Char :=
  match (Folder.names path).getLast? with
  | some name => name.toList
  | none => []

/-- What follows the last point of the last name in a path, nothing where that point is the
first character. -/
def fileExtension (path : String) : String :=
  let name := lastName path
  let back := name.reverse.takeWhile (· != '.')
  if name.length ≤ back.length + 1 then "" else String.ofList back.reverse

end FilePath

end Stencil
