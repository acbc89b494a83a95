import DeviceConsole.Storage.Path
import DeviceConsole.Stream

/-!
Where files are read and written.

A `Disk` is the three operations that this library asks of a file system, in any monad. `Storage`
is a file system as a value: absolute paths with what is there, names that are links, and the folder
from which relative paths start. It answers as the operating system does, also where an operation
fails half-way: folders that were made before another could not be made stay, and a file is emptied
before it is written, so that a write that breaks off leaves a beginning of the new text in it. When
that happens is part of the storage (`Mishap`). Left out are devices and pipes, and other programs
that change files while this one runs.
-/
namespace DeviceConsole

/-- Reading a file, making a folder with those it lies in, and writing a text to a file. -/
structure Disk (m : Type → Type) where
  load : String → m (Except Fault Stream)
  makeFolders : String → m (Except Fault Unit)
  save : String → String → m (Except Fault Unit)

/-- What is at a place. A name that stands for another path is kept apart (`Storage.links`). -/
inductive Entry where
  | file (bytes : List UInt8)
  | folder
deriving DecidableEq, Repr

/-- What can come in the way of writing a file. -/
inductive Mishap where
  /-- The file cannot be opened, and nothing happens to it. -/
  | refused (fault : Fault)
  /-- The file is opened, which empties it, and the fault is met behind so many bytes. -/
  | brokenOff (after : Nat) (fault : Fault)
deriving DecidableEq, Repr

structure Storage where
  home : List String := []
  entries : List (List String × Entry) := []
  /-- Names that stand for another path. It starts in the folder of the name unless it is absolute.
  A second name of a file is such a name too, with the absolute path of the first: no name is ever
  taken away, so the two cannot be told apart. -/
  links : List (List String × String) := []
  /-- Why no folder can be made at a place, although nothing is there. -/
  barred : List String → Option Fault := fun _ => none
  /-- What comes in the way of writing some bytes at a place. It may be something else for other
  bytes, so of several writes any can fail. -/
  mishap : List String → List UInt8 → Option Mishap := fun _ _ => none

namespace Storage

/-- What is at an absolute path, given by its parts. The root is a folder. -/
def get? (s : Storage) (path : List String) : Option Entry :=
  if path = [] then some .folder else s.entries.lookup path

/-- The same storage with something at a path. -/
def put (path : List String) (entry : Entry) (s : Storage) : Storage :=
  { s with entries :=
      if (s.entries.lookup path).isSome then
        s.entries.map fun e => if e.1 = path then (path, entry) else e
      else s.entries ++ [(path, entry)] }

/-- Replacing what is at a path replaces it there and nowhere else. -/
theorem lookup_replace (path p : List String) (entry : Entry)
    (entries : List (List String × Entry)) :
    (entries.map fun e => if e.1 = path then (path, entry) else e).lookup p =
      if p = path then (entries.lookup p).map fun _ => entry else entries.lookup p := by
  induction entries with
  | nil => simp
  | cons e entries ih =>
    obtain ⟨key, old⟩ := e
    by_cases hp : p = key
    · subst hp
      by_cases hkey : p = path <;> simp [hkey]
    · have hbeq : (p == key) = false := beq_false_of_ne hp
      by_cases hkey : key = path
      · subst hkey
        simp [List.lookup_cons, hbeq, hp, ih]
      · simp [List.lookup_cons, hbeq, hkey, ih]

theorem get?_put_self {path : List String} (h : path ≠ []) (entry : Entry) (s : Storage) :
    (s.put path entry).get? path = some entry := by
  rw [get?, if_neg h, put]
  dsimp only
  split
  · next hsome =>
    obtain ⟨old, hold⟩ := Option.isSome_iff_exists.1 hsome
    simp [lookup_replace, hold]
  · next hnone =>
    have hlookup : s.entries.lookup path = none := Option.not_isSome_iff_eq_none.1 hnone
    simp [List.lookup_append, hlookup]

theorem get?_put_of_ne {path p : List String} (h : p ≠ path) (entry : Entry) (s : Storage) :
    (s.put path entry).get? p = s.get? p := by
  unfold put get?
  dsimp only
  split
  · rfl
  · split
    · rw [lookup_replace, if_neg h]
    · have hp : (p == path) = false := beq_false_of_ne h
      simp [List.lookup_append, List.lookup_cons, hp]

/-! ### Walking -/

/-- The longest part and the longest path, in bytes. -/
def maxPartLength : Nat := 255
def maxPathLength : Nat := 4095

/-- Paths that cannot be asked for. -/
def checkPath (path : String) : Except Fault Unit :=
  if path.toList.contains '\x00' then .error .nameHoldsNull
  else if path.isEmpty then .error .notFound
  else if path.utf8ByteSize > maxPathLength then .error .nameTooLong
  else .ok ()

/-- A named part, which the folder need not have. -/
def locate (s : Storage) (folder : List String) (part : String) : Except Fault (List String) :=
  match s.get? folder with
  | none => .error .notFound
  | some (.file _) => .error .notDirectory
  | some .folder =>
    if part = "." then .ok folder
    else if part = ".." then .ok folder.dropLast
    else if part.utf8ByteSize > maxPartLength then .error .nameTooLong
    else .ok (folder ++ [part])

/-- Where a path starts that is read in a folder. -/
def origin (folder : List String) (path : String) : List String :=
  if Path.isAbsolute path then [] else folder

/-- The parts of a path, with one more behind a slash at its end: it asks for a folder. -/
def steps (path : String) : List String :=
  Path.parts path ++ if Path.asksFolder path then ["."] else []

/-- From a folder along some parts, up to the first name that is a link. Only the last part need not
be there. -/
def walkParts (s : Storage)
    (onLink : (folder : List String) → (path : String) → (rest : List String) →
      Except Fault (List String)) :
    (folder parts : List String) → Except Fault (List String)
  | folder, [] => .ok folder
  | folder, part :: rest => do
    let place ← s.locate folder part
    match s.links.lookup place with
    | some path => onLink folder path rest
    | none =>
      if rest.isEmpty || (s.get? place).isSome then s.walkParts onLink place rest
      else .error .notFound

/-- From a folder along some parts, through so many links at most. -/
def follow (s : Storage) : (links : Nat) → (folder parts : List String) →
    Except Fault (List String)
  | 0 => s.walkParts fun _ _ _ => .error .tooManyLinks
  | links + 1 => s.walkParts fun folder path rest =>
      s.follow links (origin folder path) (steps path ++ rest)

/-- How many links there may be on the way. -/
def maxLinks : Nat := 40

/-- The place that a path names, whether or not something is there. -/
def lead (s : Storage) (path : String) : Except Fault (List String) :=
  s.follow maxLinks (origin s.home path) (Path.parts path)

/-- Where a path leads. -/
def walk (s : Storage) (path : String) : Except Fault (List String) := do
  let place ← s.follow maxLinks (origin s.home path) (steps path)
  if (s.get? place).isSome then pure place else .error .notFound

/-! ### Operations -/

/-- The stream of a file. A folder can be opened, but not read. -/
def load (path : String) (s : Storage) : Except Fault Stream := do
  checkPath path
  match s.get? (← s.walk path) with
  | some (.file bytes) => pure (.whole bytes)
  | some .folder => pure (.failing .isDirectory)
  | none => .error .notFound

/-- A new folder. A link is not followed for its last part: its name is taken. -/
def makeFolder (start parts : List String) (s : Storage) : Except Fault Storage :=
  match parts.getLast? with
  | none => .error .alreadyExists
  | some last => do
    let folder ← s.follow maxLinks start parts.dropLast
    let place ← s.locate folder last
    if last = "." || last = ".." || (s.get? place).isSome || (s.links.lookup place).isSome then
      .error .alreadyExists
    else match s.barred place with
      | some fault => .error fault
      | none => pure (s.put place .folder)

/-- Whether some parts lead to a folder. -/
def isFolder (s : Storage) (start parts : List String) : Bool :=
  match s.follow maxLinks start parts with
  | .ok place => s.get? place = some .folder
  | .error _ => false

/-- The parts of the folder in which the last of some parts lies. -/
def outer (parts : List String) : List String :=
  let significant (reversed : List String) := reversed.dropWhile (· == ".")
  (significant ((significant parts.reverse).drop 1)).reverse

theorem outer_length (parts : List String) (h : parts ≠ []) :
    (outer parts).length < parts.length := by
  have h1 := (List.dropWhile_suffix (l := parts.reverse) (· == ".")).length_le
  have h2 := (List.dropWhile_suffix (l := (parts.reverse.dropWhile (· == ".")).drop 1)
    (· == ".")).length_le
  have h3 : 0 < parts.length := List.length_pos_iff.2 h
  simp only [outer, List.length_reverse, List.length_drop] at *
  omega

/-- A folder with those it lies in, and the storage as far as it got. -/
def makeFoldersAt (start parts : List String) (s : Storage) : Except Fault Unit × Storage :=
  if _ : parts = [] then (.ok (), s)
  else
    let settle (fault : Fault) (s : Storage) : Except Fault Unit × Storage :=
      (if s.isFolder start parts then .ok () else .error fault, s)
    match s.makeFolder start parts with
    | .ok s => (.ok (), s)
    | .error .notFound =>
      match makeFoldersAt start (outer parts) s with
      | (.error fault, s) => (.error fault, s)
      | (.ok (), s) =>
        match s.makeFolder start parts with
        | .ok s => (.ok (), s)
        | .error fault => settle fault s
    | .error fault => settle fault s
termination_by parts.length
decreasing_by exact outer_length parts ‹_›

/-- A folder with those it lies in. -/
def makeFolders (path : String) (s : Storage) : Except Fault Unit × Storage :=
  if path.isEmpty then (.ok (), s)
  else match checkPath path with
    | .error fault => (.error fault, s)
    | .ok () => s.makeFoldersAt (origin s.home path) (Path.parts path)

/-- What comes in the way of writing some bytes at a place before all of them are written. -/
def obstacle? (s : Storage) (place : List String) (bytes : List UInt8) : Option Mishap :=
  (s.mishap place bytes).filter fun
    | .refused _ => true
    | .brokenOff after _ => after < bytes.length

/-- A file with the given bytes, in place of the one that was there, or with as many of them as could
be written. -/
def write (place : List String) (bytes : List UInt8) (s : Storage) : Except Fault Unit × Storage :=
  if s.get? place = some .folder then (.error .isDirectory, s)
  else match s.obstacle? place bytes with
    | none => (.ok (), s.put place (.file bytes))
    | some (.refused fault) => (.error fault, s)
    | some (.brokenOff after fault) => (.error fault, s.put place (.file (bytes.take after)))

/-- A file with the given text, in place of the one that was there. -/
def save (path : String) (content : String) (s : Storage) : Except Fault Unit × Storage :=
  match checkPath path >>= fun () => s.lead path with
  | .error fault => (.error fault, s)
  | .ok place => s.write place (Stream.bytesOf content)

/-- The storage as a disk. -/
def disk : Disk (StateM Storage) where
  load path := do return (← get).load path
  makeFolders path := modifyGet (makeFolders path)
  save path content := modifyGet (save path content)

end Storage

end DeviceConsole
