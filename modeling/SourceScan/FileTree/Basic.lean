import SourceScan.FileTree.Path

/-!
# File trees

Directories and files, without links and permissions, and the operations on them that a path
names. A path is followed step by step from the working directory, or from the root. Each step
needs a directory to stand in. Only the following of the path, the making of a directory, and the
opening of a file can fail, and a failure changes nothing.
-/

namespace SourceScan

/-- Why an operation on files failed. -/
inductive FileError where
  | notFound
  | alreadyExists
  | notADirectory
  | isADirectory
  | nameTooLong
  | nulInName
  | notText
  | other (text : String)
deriving DecidableEq, Inhabited

def FileError.message : FileError → String
  | notFound => "No such file or directory (os error 2)"
  | alreadyExists => "File exists (os error 17)"
  | notADirectory => "Not a directory (os error 20)"
  | isADirectory => "Is a directory (os error 21)"
  | nameTooLong => "File name too long (os error 36)"
  | nulInName => "file name contained an unexpected NUL byte"
  | notText => "stream did not contain valid UTF-8"
  | other text => text

/-- A place in a tree: the names on the way from the root. -/
abbrev Location := List String

/-- What stands at a place. -/
inductive FileEntry where
  | directory
  | file (content : ByteArray)
deriving Inhabited

/-- **A file tree:** what stands at each place, and the place where relative paths start. -/
structure FileTree where
  entry? : Location → Option FileEntry
  workingDirectory : Location

namespace FileTree

/-- The tree with nothing in it but the working directory and those on the way to it. -/
def bare (workingDirectory : Location) : FileTree where
  entry? place := if place.isPrefixOf workingDirectory then some .directory else none
  workingDirectory := workingDirectory

/-- The tree with something else at one place. -/
def set (t : FileTree) (place : Location) (entry : FileEntry) : FileTree :=
  { t with entry? := fun other => if other = place then some entry else t.entry? other }

/-! ## Following a path -/

def maxName : Nat := 255

def maxPath : Nat := 4095

/-- A place that is a directory. -/
def directoryAt (t : FileTree) (place : Location) : Except FileError Location :=
  match t.entry? place with
  | some .directory => .ok place
  | some (.file _) => .error .notADirectory
  | none => .error .notFound

/-- **One step from a place,** which has to be a directory. There need not be anything where the
step leads. -/
def follow (t : FileTree) (place : Location) (name : String) : Except FileError Location := do
  let place ← t.directoryAt place
  if name = "." then pure place
  else if name = ".." then pure place.dropLast
  else if maxName < name.utf8ByteSize then throw .nameTooLong
  else pure (place ++ [name])

/-- Where a path starts, if it can be followed at all. -/
def startOf (t : FileTree) (p : FilePath) : Except FileError Location :=
  if p.text.contains '\x00' then .error .nulInName
  else if p = .empty then .error .notFound
  else if maxPath < p.text.utf8ByteSize then .error .nameTooLong
  else .ok (if p.isAbsolute then [] else t.workingDirectory)

/-- **What a path names.** Only a directory can be named with a slash at the end. -/
def lookUp (t : FileTree) (p : FilePath) : Except FileError FileEntry := do
  let place ← p.steps.foldlM t.follow (← t.startOf p)
  match t.entry? place with
  | none => throw .notFound
  | some .directory => pure .directory
  | some (.file content) =>
    if p.endsInSlash then throw .notADirectory else pure (.file content)

def hasPath (t : FileTree) (p : FilePath) : Bool := (t.lookUp p).toOption.isSome

def isDirectory (t : FileTree) (p : FilePath) : Bool :=
  match t.lookUp p with
  | .ok .directory => true
  | _ => false

/-- The directory that a path leads to before its last step, and the name of that step. There is
no such name if the last step is `.` or `..`, or if the path has no steps. -/
def lookUpLast (t : FileTree) (p : FilePath) : Except FileError (Location × Option String) := do
  let place ← p.steps.dropLast.foldlM t.follow (← t.startOf p)
  let place ← t.directoryAt place
  pure (place, p.steps.getLast?.filter fun name => name != "." && name != "..")

/-! ## Operations -/

def readText (t : FileTree) (p : FilePath) : Except FileError String := do
  match ← t.lookUp p with
  | .directory => throw .isADirectory
  | .file content =>
    match String.fromUTF8? content with
    | some text => pure text
    | none => throw .notText

/-- **Writing a file,** which is made if it is not there and otherwise gets new content. -/
def writeBytes (t : FileTree) (p : FilePath) (content : ByteArray) :
    Except FileError FileTree := do
  match ← t.lookUpLast p with
  | (_, none) => throw .isADirectory
  | (directory, some name) =>
    if p.endsInSlash then throw .isADirectory
    let place ← t.follow directory name
    match t.entry? place with
    | some .directory => throw .isADirectory
    | _ => pure (t.set place (.file content))

def writeText (t : FileTree) (p : FilePath) (text : String) : Except FileError FileTree :=
  t.writeBytes p text.toUTF8

def makeDirectory (t : FileTree) (p : FilePath) : Except FileError FileTree := do
  match ← t.lookUpLast p with
  | (_, none) => throw .alreadyExists
  | (directory, some name) =>
    let place ← t.follow directory name
    match t.entry? place with
    | some _ => throw .alreadyExists
    | none => pure (t.set place .directory)

def ensureDirectory (t : FileTree) (p : FilePath) : Except FileError FileTree :=
  match t.makeDirectory p with
  | .ok t => .ok t
  | .error e => if t.isDirectory p then .ok t else .error e

/-- **Making a directory and all those above it** that are missing. What has been made before a
failure stays, so the tree comes back together with the failure. -/
def makeDirectories (t : FileTree) (p : FilePath) : FileTree × Except FileError Unit :=
  if p = .empty then (t, .ok ())
  else match t.ensureDirectory p with
  | .ok t => (t, .ok ())
  | .error .notFound =>
    match _h : p.parent? with
    | none => (t, .error (.other "failed to create whole tree"))
    | some above =>
      match t.makeDirectories above with
      | (t, .error e) => (t, .error e)
      | (t, .ok ()) =>
        match t.ensureDirectory p with
        | .ok t => (t, .ok ())
        | .error e => (t, .error e)
  | .error e => (t, .error e)
termination_by p.depth
decreasing_by exact FilePath.depth_lt_of_parent? _h

end FileTree

end SourceScan
