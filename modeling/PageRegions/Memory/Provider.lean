import PageRegions.Host.Host

/-!
# Providers of mapped memory

A provider is told the sizes of the chunks that it may map and maps them one at a time. One kind
maps fresh memory. The other maps files, one for each chunk, in a directory of its own: files that
an earlier run left there are deleted before the first chunk is mapped, and its own are deleted when
it is shut down. A chunk that cannot be mapped leaves neither a mapping nor a file behind.
-/

set_option autoImplicit false

namespace PageRegions

inductive Backing where
  | anonymous
  | files (directory : String)
  deriving DecidableEq, Repr

def Backing.name : Backing → String
  | .anonymous => "AnonymousMemoryProvider"
  | .files _ => "MappedFileMemoryProvider"

structure Provider where
  backing : Backing
  chunks : List UInt64
  /-- The chunks that are mapped, in order. -/
  mappings : List Mapping
  /-- The files of those chunks. -/
  files : List String
  deriving DecidableEq, Repr

namespace Provider

def fresh (backing : Backing) : Provider := ⟨backing, [], [], []⟩

def fileName (directory : String) (index : Nat) : String :=
  directory ++ "/allocator-" ++ toString index ++ ".bin"

/-- Whether a name is one that `fileName` gives to files. -/
def isFileName (name : String) : Bool :=
  Text.startsWith name "allocator-" && Text.endsWith name ".bin"

/-- Deletes the files of the given names that look like files of chunks. The first failure ends
it. -/
def deleteStale (directory : String) : List String → Host → Except Fault Unit × Host
  | [], h => (.ok (), h)
  | name :: more, h =>
    if isFileName name then
      match h.deleteFile (directory ++ "/" ++ name) with
      | (.error fault, h) => (.error fault, h)
      | (.ok (), h) =>
        deleteStale directory more
          (h.note .info ("Deleted stale allocator file " ++ Text.visible directory ++ "/" ++ name))
    else deleteStale directory more h

/-- Makes the directory for files and clears it of old ones. -/
def prepare (directory : String) (h : Host) : Except Fault Unit × Host :=
  match h.ensureDirectories directory with
  | (.error fault, h) => (.error fault, h)
  | (.ok (), h) =>
    match h.files.listing directory with
    | .error fault => (.error fault, h)
    | .ok names => deleteStale directory names h

/-- Announces the sizes of the chunks. Nothing is mapped then. -/
def announce (p : Provider) (sizes : List UInt64) (h : Host) :
    Except Fault Unit × Provider × Host :=
  match p.backing with
  | .anonymous => (.ok (), { p with chunks := sizes, mappings := [] }, h)
  | .files directory =>
    match prepare directory h with
    | (.error fault, h) => (.error fault, p, h)
    | (.ok (), h) => (.ok (), { p with chunks := sizes, mappings := [], files := [] }, h)

def longestFile : Nat := (1 <<< 63) - 1

def blockOf? (files : FileTree) (path : List String) : Option Nat :=
  match files.entry? path with
  | some (.file block _) => some block
  | _ => none

/-- Maps a file of the given length, which is made for it. If that fails there is no file
afterwards. What is no file, such as a device, has no length to set. -/
def mapFile (path : String) (size : UInt64) (h : Host) : Except Fault Mapping × Host :=
  match h.openFile path with
  | (.error e, h) => (.error (.swapFileNotOpened path e), h)
  | (.ok target, h) =>
    match blockOf? h.files target with
    | none => (.error (.swapFileNotSized path .invalidArgument), (h.deleteFile path).2)
    | some block =>
      if longestFile < size.toNat then
        (.error (.swapFileNotSized path .invalidArgument), (h.deleteFile path).2)
      else
        match { h with files := h.files.resize target size.toNat }.mapBlock block size with
        | (⟨some block, length⟩, h) => (.ok ⟨some block, length⟩, h)
        | (⟨none, _⟩, h) =>
          (.error (.swapFileNotMapped path (if size = 0 then .success else .outOfMemory)),
            (h.deleteFile path).2)

def next (p : Provider) (h : Host) : Except Fault Mapping × Provider × Host :=
  match p.chunks[p.mappings.length]? with
  | none => (.error .chunksExhausted, p, h)
  | some size =>
    match p.backing with
    | .anonymous =>
      match h.mapAnonymous size with
      | (⟨some block, length⟩, h) =>
        let mapping := ⟨some block, length⟩
        (.ok mapping, { p with mappings := p.mappings ++ [mapping] }, h)
      | (⟨none, _⟩, h) => (.error (.anonymousMappingFailed size), p, h)
    | .files directory =>
      let path := fileName directory p.mappings.length
      match mapFile path size h with
      | (.ok mapping, h) =>
        (.ok mapping,
          { p with mappings := p.mappings ++ [mapping], files := p.files ++ [path] }, h)
      | (.error fault, h) => (.error fault, p, h)

/-- A chunk that was mapped is one of those that were announced and adds to those mapped before. -/
theorem next_ok {p p' : Provider} {h h' : Host} {m : Mapping} (hn : p.next h = (.ok m, p', h')) :
    p'.chunks = p.chunks ∧ p'.mappings = p.mappings ++ [m]
      ∧ p.mappings.length < p.chunks.length := by
  unfold next at hn
  split at hn
  · cases hn
  · next size hs =>
    have hlt := (List.getElem?_eq_some_iff.1 hs).1
    split at hn
    · split at hn
      · cases hn
        exact ⟨rfl, rfl, hlt⟩
      · cases hn
    · simp only at hn
      split at hn
      · cases hn
        exact ⟨rfl, rfl, hlt⟩
      · cases hn

/-- Deletes files, all of them whatever happens; the first failure is the result. -/
def deleteAll : List String → Host → Except Fault Unit × Host
  | [], h => (.ok (), h)
  | path :: more, h =>
    match h.deleteFile path with
    | (.ok (), h) => deleteAll more h
    | (.error fault, h) =>
      let (_, h) := deleteAll more
        (h.note .error ("Failed to delete allocator file " ++ Text.visible path ++ ": "
          ++ fault.text))
      (.error fault, h)

/-- Unmaps all chunks and deletes their files. The sizes stay announced. -/
def shutdown (p : Provider) (h : Host) : Except Fault Unit × Provider × Host :=
  match p.backing with
  | .anonymous => (.ok (), { p with mappings := [] }, h)
  | .files _ =>
    let (result, h) := deleteAll p.files h
    (result, { p with mappings := [], files := [] }, h)

/-- What is left on the host when a provider is dropped. -/
def drop (p : Provider) (h : Host) : Host :=
  if p.files = [] then h else (p.shutdown h).2.2

end Provider

end PageRegions
