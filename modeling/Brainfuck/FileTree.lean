import Brainfuck.Stream.Source

/-!
# File trees

Files and directories below a current directory, and what opening a path finds there.
A path is a sequence of bytes, cut at slashes into names. It is followed from left to
right, and the first name that cannot be followed decides the error. Of what lies
outside the current directory only its directories upwards are known.

Opening a directory succeeds; reading it is what fails.
-/

namespace Brainfuck

/-- A path, as the system takes it. -/
abbrev Path := List UInt8

namespace Path

/-- The byte `/`. -/
def slash : UInt8 := 47

/-- The name `.`, by which every directory knows itself. -/
def here : Path := [46]

/-- The name `..`, by which every directory knows the one above it. -/
def above : Path := [46, 46]

/-- The greatest number of bytes in a name. -/
def nameLimit : Nat := 255

/-- The greatest number of bytes in a path. -/
def lengthLimit : Nat := 4095

/-- The names in a path; slashes next to each other, at the start or at the end give no
empty names. -/
def names (p : Path) : List Path := (p.splitOn slash).filter (· ≠ [])

/-- The path of `name` inside the directory `base`. -/
def join (base name : Path) : Path :=
  if base = [] ∨ base.getLast? = some slash then base ++ name else base ++ slash :: name

end Path

namespace IoError

/-- A path holds a zero byte. -/
def zeroInName : IoError := ⟨.invalidName, "file name contained an unexpected NUL byte"⟩

/-- There is no such file or directory. -/
def notFound : IoError := ⟨.notFound, "No such file or directory (os error 2)"⟩

/-- A name follows something that is no directory. -/
def notADirectory : IoError := ⟨.notADirectory, "Not a directory (os error 20)"⟩

/-- A directory is read as a file. -/
def isADirectory : IoError := ⟨.isADirectory, "Is a directory (os error 21)"⟩

/-- A name or a path is too long. -/
def nameTooLong : IoError := ⟨.nameTooLong, "File name too long (os error 36)"⟩

end IoError

/-- What stands at a path. -/
inductive FileTree.Entry where
  /-- A file with its bytes. -/
  | file (bytes : List UInt8)
  /-- A directory. -/
  | directory
  deriving DecidableEq, Repr

/-- What stands below the current directory, by the names that lead there. Where a path
is listed twice, the first counts. -/
structure FileTree where
  /-- The files and directories. -/
  entries : List (List Path × FileTree.Entry)

namespace FileTree

/-- A place reached on the way along a path. -/
inductive Place where
  /-- The names that lead from the current directory to it, the last one first. -/
  | below (names : List Path)
  /-- Some directory above the current one, or beside it. -/
  | outside
  deriving DecidableEq, Repr

/-- What stands at a place. -/
def entry? (t : FileTree) : Place → Option Entry
  | .outside => some .directory
  | .below [] => some .directory
  | .below names => t.entries.lookup names.reverse

/-- The place reached from a directory by one name. -/
def Place.enter (name : Path) : Place → Place
  | .outside => .outside
  | .below names =>
    if name = Path.here then .below names
    else if name = Path.above then
      match names with
      | [] => .outside
      | _ :: outer => .below outer
    else .below (name :: names)

/-- Follow names from a place; nothing outside the tree is found but directories above. -/
def follow (t : FileTree) (place : Place) : List Path → Except IoError Entry
  | [] =>
    match t.entry? place with
    | some e => .ok e
    | none => .error .notFound
  | name :: rest =>
    match t.entry? place with
    | none => .error .notFound
    | some (.file _) => .error .notADirectory
    | some .directory =>
      if name = Path.here ∨ name = Path.above then follow t (place.enter name) rest
      else if Path.nameLimit < name.length then .error .nameTooLong
      else if place = .outside then .error .notFound
      else follow t (place.enter name) rest

/-- What stands at a path. -/
def find (t : FileTree) (p : Path) : Except IoError Entry :=
  if 0 ∈ p then .error .zeroInName
  else if p = [] then .error .notFound
  else if Path.lengthLimit < p.length then .error .nameTooLong
  else do
    let found ← t.follow (if p.head? = some Path.slash then .outside else .below []) (Path.names p)
    match found with
    | .directory => .ok .directory
    | .file bytes => if p.getLast? = some Path.slash then .error .notADirectory else .ok (.file bytes)

/-- Open what stands at a path for reading. -/
def openAt (t : FileTree) (p : Path) : Except IoError Source := do
  match ← t.find p with
  | .file bytes => .ok (.ofBytes bytes)
  | .directory => .ok [.failure .isADirectory]

/-- The places reached one after another along names from a place. -/
def Place.along (place : Place) : List Path → List Place
  | [] => []
  | name :: rest => place.enter name :: (place.enter name).along rest

/-- An entry for a place; none for what is outside the tree. -/
def Place.holding? (entry : Entry) : Place → Option (List Path × Entry)
  | .outside => none
  | .below names => some (names.reverse, entry)

/-- A directory at every place reached along names from the current directory. -/
def directoriesAlong (names : List Path) : List (List Path × Entry) :=
  ((Place.below []).along names).filterMap (Place.holding? .directory)

/-- The entry for a file at the end of a path. -/
def fileAt? (p : Path) (bytes : List UInt8) : Option (List Path × Entry) :=
  ((Place.below []).along (Path.names p)).getLast?.bind (Place.holding? (.file bytes))

/-- The tree in which some directories are made and then some files are written, with all
the directories on the way to them. What was written last to a file counts. -/
def ofLists (directories : List Path) (files : List (Path × List UInt8)) : FileTree where
  entries :=
    files.reverse.filterMap (fun (p, bytes) => fileAt? p bytes) ++
      (files.flatMap fun (p, _) => directoriesAlong (Path.names p).dropLast) ++
        directories.flatMap fun p => directoriesAlong (Path.names p)

end FileTree

end Brainfuck
