import PageRegions.Fault

/-!
# Files and directories

The files that regions use form a tree. It is kept as a list of paths, each the names from the root
down, and what is found there; the root itself is always a directory. A path is handed over as a
text: relative ones start from the working directory, repeated slashes count once, `.` stays where
it is and `..` goes up. What a path denotes is found by walking down name by name (`walk`), and the
first name that leads nowhere decides the error.

The operations below `FileTree` itself answer as the host does, with a `HostError`. Those at the
end of the file are what the library calls: they answer with a `Fault` that says what was attempted.
-/

set_option autoImplicit false

namespace PageRegions

inductive Entry where
  | directory
  /-- A file, its bytes in the memory block of the given number. -/
  | file (block size : Nat)
  /-- A device that takes whatever is written to it, or refuses it all. -/
  | device (refuses : Bool)
  deriving DecidableEq, Repr

/-- A tree of files, and the directory that relative paths start from. -/
structure FileTree where
  here : List String
  entries : List (List String × Entry)
  deriving DecidableEq, Repr

namespace FileTree

/-- The longest name, in bytes. -/
def longestName : Nat := 255

/-- The longest path, in bytes. -/
def longestPath : Nat := 4095

/-- A tree with an empty working directory, and the devices. -/
def scratch : FileTree where
  here := ["tmp", "session"]
  entries :=
    [(["tmp"], .directory), (["tmp", "session"], .directory), (["dev"], .directory),
      (["dev", "null"], .device false), (["dev", "full"], .device true)]

def entry? (t : FileTree) (path : List String) : Option Entry :=
  if path = [] then some .directory else (t.entries.find? fun e => e.1 = path).map (·.2)

def isDirectory (t : FileTree) (path : List String) : Bool := t.entry? path = some .directory

def children (t : FileTree) (path : List String) : List String :=
  t.entries.filterMap fun e =>
    if e.1 ≠ [] ∧ e.1.dropLast = path then e.1.getLast? else none

def add (t : FileTree) (path : List String) (entry : Entry) : FileTree :=
  { t with entries := t.entries ++ [(path, entry)] }

def remove (t : FileTree) (path : List String) : FileTree :=
  { t with entries := t.entries.filter fun e => e.1 ≠ path }

def resize (t : FileTree) (path : List String) (size : Nat) : FileTree :=
  { t with entries := t.entries.map fun e =>
      match e with
      | (p, .file block old) => (p, .file block (if p = path then size else old))
      | other => other }

/-! ## Walking -/

/-- A path as it was written. -/
structure Written where
  absolute : Bool
  names : List String
  /-- A slash behind the last name asks for a directory. -/
  slashed : Bool
  deriving DecidableEq, Repr

/-- Takes a path text apart, as far as the host sees it. -/
def Written.ofText (path : String) : Written :=
  let s := (Text.visible path).toList
  ⟨s.head? = some '/', ((Text.pieces '/' s).filter (· ≠ [])).map String.ofList,
    s.getLast? = some '/'⟩

/-- Refuses the empty path and paths that are too long. -/
def checkLength (path : String) : Except HostError Unit :=
  let length := (Text.visible path).length
  if length = 0 then .error .noEntry
  else if longestPath < length then .error .nameTooLong
  else .ok ()

/-- One step of a walk, from `path` to `name`. -/
def walkStep (t : FileTree) (path : List String) (name : String) : Except HostError (List String) :=
  if !t.isDirectory path then .error .notDirectory
  else if name = "." then .ok path
  else if name = ".." then .ok path.dropLast
  else if longestName < name.length then .error .nameTooLong
  else if (t.entry? (path ++ [name])).isSome then .ok (path ++ [name])
  else .error .noEntry

def walk (t : FileTree) (path : List String) : List String → Except HostError (List String)
  | [] => .ok path
  | name :: more =>
    match t.walkStep path name with
    | .error e => .error e
    | .ok next => t.walk next more

def start (t : FileTree) (w : Written) : List String := if w.absolute then [] else t.here

def resolve (t : FileTree) (path : String) : Except HostError (List String) :=
  match checkLength path with
  | .error e => .error e
  | .ok () =>
    let w := Written.ofText path
    match t.walk (t.start w) w.names with
    | .error e => .error e
    | .ok found => if w.slashed && !t.isDirectory found then .error .notDirectory else .ok found

inductive Last where
  | root
  | here
  | up
  | name (name : String)
  deriving DecidableEq, Repr

def Last.ofNames (names : List String) : Last :=
  match names.getLast? with
  | none => .root
  | some "." => .here
  | some ".." => .up
  | some other => .name other

/-- The place that a path text names, which need not exist: the directory it lies in, the last part
of the path, and whether a slash follows. -/
structure Place where
  directory : List String
  last : Last
  slashed : Bool
  deriving DecidableEq, Repr

def place (t : FileTree) (path : String) : Except HostError Place :=
  match checkLength path with
  | .error e => .error e
  | .ok () =>
    let w := Written.ofText path
    match t.walk (t.start w) w.names.dropLast with
    | .error e => .error e
    | .ok directory =>
      if !t.isDirectory directory then .error .notDirectory
      else
        match Last.ofNames w.names with
        | .name name =>
          if longestName < name.length then .error .nameTooLong
          else .ok ⟨directory, .name name, w.slashed⟩
        | last => .ok ⟨directory, last, w.slashed⟩

/-! ## What the host does -/

def list (t : FileTree) (path : String) : Except HostError (List String) :=
  match t.resolve path with
  | .error e => .error e
  | .ok found => if t.isDirectory found then .ok (t.children found) else .error .notDirectory

def makeDirectory (t : FileTree) (path : String) : Except HostError FileTree :=
  match t.place path with
  | .error e => .error e
  | .ok ⟨directory, .name name, _⟩ =>
    let target := directory ++ [name]
    if (t.entry? target).isSome then .error .alreadyExists else .ok (t.add target .directory)
  | .ok _ => .error .alreadyExists

def unlink (t : FileTree) (path : String) : Except HostError FileTree :=
  match t.place path with
  | .error e => .error e
  | .ok ⟨directory, .name name, slashed⟩ =>
    let target := directory ++ [name]
    match t.entry? target with
    | none => .error .noEntry
    | some .directory => .error .isDirectory
    | some _ => if slashed then .error .notDirectory else .ok (t.remove target)
  | .ok _ => .error .isDirectory

def removeDirectory (t : FileTree) (path : String) : Except HostError FileTree :=
  match t.place path with
  | .error e => .error e
  | .ok ⟨_, .root, _⟩ => .error .busy
  | .ok ⟨_, .here, _⟩ => .error .invalidArgument
  | .ok ⟨_, .up, _⟩ => .error .notEmpty
  | .ok ⟨directory, .name name, _⟩ =>
    let target := directory ++ [name]
    match t.entry? target with
    | none => .error .noEntry
    | some .directory =>
      if t.children target = [] then .ok (t.remove target) else .error .notEmpty
    | some _ => .error .notDirectory

/-- Opens a file for writing, and makes it if it is missing: its absolute path, and the tree with
it. A new file is empty, with its bytes in the given block. -/
def openFile (t : FileTree) (block : Nat) (path : String) :
    Except HostError (List String × FileTree) :=
  match t.place path with
  | .error e => .error e
  | .ok ⟨directory, .name name, slashed⟩ =>
    let target := directory ++ [name]
    if slashed then .error .isDirectory
    else
      match t.entry? target with
      | none => .ok (target, t.add target (.file block 0))
      | some .directory => .error .isDirectory
      | some _ => .ok (target, t)
  | .ok _ => .error .isDirectory

/-! ## What the library calls -/

def check (t : FileTree) (path : String) : Except Fault Unit :=
  match t.resolve path with
  | .ok _ => .ok ()
  | .error _ => .error .missingFile

def isDirectoryText (t : FileTree) (path : String) : Bool :=
  match t.resolve path with
  | .ok found => t.isDirectory found
  | .error _ => false

def listing (t : FileTree) (path : String) : Except Fault (List String) :=
  (t.list path).mapError (.fileTaskFailed .list path)

def deleteFile (t : FileTree) (path : String) : Except Fault Unit × FileTree :=
  match t.unlink path with
  | .ok t => (.ok (), t)
  | .error e => (.error (.fileTaskFailed .delete path e), t)

def deleteDirectory (t : FileTree) (path : String) : Except Fault Unit × FileTree :=
  match t.removeDirectory path with
  | .ok t => (.ok (), t)
  | .error e => (.error (.fileTaskFailed .removeDirectory path e), t)

def ensureDirectory (t : FileTree) (path : String) : Except Fault Unit × FileTree :=
  match t.makeDirectory path with
  | .ok t => (.ok (), t)
  | .error .alreadyExists =>
    if t.isDirectoryText path then (.ok (), t) else (.error (.notADirectory path), t)
  | .error e => (.error (.fileTaskFailed .makeDirectory path e), t)

/-- The part of a path in front of its last slash, unless that is its first character. -/
def parentText? (path : List Char) : Option (List Char) :=
  match path.reverse.dropWhile (· ≠ '/') with
  | [] => none
  | [_] => none
  | _ :: t => some t.reverse

theorem parentText?_length {path parent : List Char} (h : parentText? path = some parent) :
    parent.length < path.length := by
  have hle : (path.reverse.dropWhile (· ≠ '/')).length ≤ path.length := by
    have := (List.dropWhile_sublist (fun c => decide (c ≠ '/')) (l := path.reverse)).length_le
    simpa using this
  unfold parentText? at h
  split at h
  · cases h
  · cases h
  · next c t _ hs =>
    cases h
    rw [hs] at hle
    simp only [List.length_cons, List.length_reverse] at hle ⊢
    omega

/-- Makes a directory and those it lies in, as far as they are missing. Whatever lies at the path
already is left alone. -/
def ensurePath (t : FileTree) (path : List Char) : Except Fault Unit × FileTree :=
  let text := String.ofList path
  match t.check text with
  | .ok () => (.ok (), t)
  | .error _ =>
    match _h : parentText? path with
    | none => t.ensureDirectory text
    | some parent =>
      match t.ensurePath parent with
      | (.error fault, t) => (.error fault, t)
      | (.ok (), t) => t.ensureDirectory text
  termination_by path.length
  decreasing_by exact parentText?_length _h

/-- Makes a directory and those it lies in. The empty path names none. -/
def ensureDirectories (t : FileTree) (path : String) : Except Fault Unit × FileTree :=
  if path = "" then (.error .emptyDirectoryName, t) else t.ensurePath path.toList

/-- The directory for tests: the one that was asked for, or the fallback if that is empty. It is
made if it is missing, but not the directories it lies in. -/
def testDirectory (t : FileTree) (wanted fallback : String) :
    String × (Except Fault Unit × FileTree) :=
  let path := if Text.visible wanted = "" then fallback else Text.visible wanted
  (path, t.ensureDirectory path)

end FileTree

end PageRegions
