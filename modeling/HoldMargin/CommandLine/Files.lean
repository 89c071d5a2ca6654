import Std.Data.TreeMap
/-!
# Files of a command

A command reads and writes files by their paths. What it is given to do so
is a `FileAccess`, so that it can be run on files that are a mere value: a
`FileTree` holds files and directories, of which one is the working
directory. A path is followed step by step, from the root or from the
working directory, and every step but the last has to lead to a directory.
The bytes of a file need not be a text, and then the file is there and cannot
be read. Writing makes a file or replaces one, and does nothing else
(`get?_write`).
-/

namespace HoldMargin.CommandLine

/-- Access to files; what fails is answered with the reason in words. -/
structure FileAccess (m : Type → Type) where
  /-- Whether there is a file at a path. -/
  isFile : String → m Bool
  read : String → m (Except String String)
  write : String → String → m (Except String Unit)

/-- Why no text is read or written at a path. -/
inductive PathFault where
  | notFound
  /-- The path goes on behind a file. -/
  | notDirectory
  /-- The path ends at a directory. -/
  | isDirectory
  /-- The path, or a name in it, is longer than any may be. -/
  | nameTooLong
  /-- The bytes of the file are not a text. -/
  | notText
deriving DecidableEq

/-- The reason as systems give it. -/
def PathFault.message : PathFault → String
  | .notFound => "No such file or directory (os error 2)"
  | .notDirectory => "Not a directory (os error 20)"
  | .isDirectory => "Is a directory (os error 21)"
  | .nameTooLong => "File name too long (os error 36)"
  | .notText => "stream did not contain valid UTF-8"

/-! ## Paths -/

namespace Path

/-- The most bytes of a path. -/
def maxSize : Nat := 4095

/-- The most bytes of a name. -/
def maxNameSize : Nat := 255

/-- The steps of a path, without the empty names that slashes in a row leave. -/
def steps (path : String) : List String := (path.splitOn "/").filter (· ≠ "")

/-- Whether a path starts at the root. -/
def isAbsolute (path : String) : Bool := path.startsWith "/"

/-- Whether a path says that it ends at a directory. -/
def namesDirectory (path : String) : Bool := path.endsWith "/"

end Path

/-! ## Trees of files -/

/-- A place in a tree: the names on the way back from it to the root, which
is the place without names. -/
abbrev Place := List String

/-- The place one step away from a directory. A dot stays, and two dots go
back towards the root, which leads back to itself. -/
def Place.step (dir : Place) (name : String) : Except PathFault Place :=
  if name = "." then .ok dir
  else if name = ".." then .ok dir.tail
  else if Path.maxNameSize < name.utf8ByteSize then .error .nameTooLong
  else .ok (name :: dir)

/-- Bytes that are not those of a text. -/
structure Binary where
  bytes : List UInt8
  not_text : ¬ bytes.toByteArray.IsValidUTF8
deriving DecidableEq

/-- What is found at a place: a file whose bytes are a text, one whose bytes are
not, or a directory. -/
inductive FileEntry where
  | file (text : String)
  | binary (b : Binary)
  | directory
deriving DecidableEq

/-- Files and directories. -/
structure FileTree where
  /-- What is found below the root. -/
  entries : Std.TreeMap Place FileEntry := ∅
  /-- The working directory. -/
  here : Place := []

namespace FileTree

/-- What is found at a place. The root is a directory. -/
def get? (t : FileTree) : Place → Option FileEntry
  | [] => some .directory
  | place => t.entries[place]?

/-- The tree with an entry at a place. -/
def put (t : FileTree) (place : Place) (e : FileEntry) : FileTree :=
  { t with entries := t.entries.insert place e }

/-- The directory one step away from a directory. -/
def enter (t : FileTree) (dir : Place) (name : String) : Except PathFault Place := do
  let place ← dir.step name
  match t.get? place with
  | some .directory => .ok place
  | some (.file _) | some (.binary _) => .error .notDirectory
  | none => .error .notFound

/-- The directory in which the last step of a path is taken. -/
def approach (t : FileTree) (path : String) : Except PathFault Place :=
  if path = "" then .error .notFound
  else if Path.maxSize < path.utf8ByteSize then .error .nameTooLong
  else (Path.steps path).dropLast.foldlM t.enter (if Path.isAbsolute path then [] else t.here)

/-- The place a path leads to, whether or not something is there. -/
def locate (t : FileTree) (path : String) : Except PathFault Place := do
  let dir ← t.approach path
  match (Path.steps path).getLast? with
  | some name => dir.step name
  | none => .ok dir

/-- The text of the file at a path. -/
def read (t : FileTree) (path : String) : Except PathFault String := do
  match t.get? (← t.locate path) with
  | some (.file text) => if Path.namesDirectory path then .error .notDirectory else .ok text
  | some (.binary _) => .error (if Path.namesDirectory path then .notDirectory else .notText)
  | some .directory => .error .isDirectory
  | none => .error .notFound

/-- Whether there is a file at a path, of a text or not. -/
def isFile (t : FileTree) (path : String) : Bool :=
  match t.read path with
  | .ok _ | .error .notText => true
  | .error _ => false

/-- Puts a file at a place, unless there is a directory. -/
def putFile (t : FileTree) (text : String) (place : Place) : Except PathFault FileTree :=
  match t.get? place with
  | some .directory => .error .isDirectory
  | _ => .ok (t.put place (.file text))

/-- The tree with a file at a path, in place of an earlier one. A path that
says that it ends at a directory is refused before its last step. -/
def write (t : FileTree) (path text : String) : Except PathFault FileTree := do
  let _ ← t.approach path
  if Path.namesDirectory path then .error .isDirectory
  else t.putFile text (← t.locate path)

/-- Access to the files of a tree. -/
def access : FileAccess (StateM FileTree) where
  isFile path := do return (← get).isFile path
  read path := do return ((← get).read path).mapError PathFault.message
  write path text := do
    match (← get).write path text with
    | .ok t =>
      set t
      return .ok ()
    | .error fault => return .error fault.message

/-! ## What writing does -/

@[simp] theorem get?_root (t : FileTree) : t.get? [] = some .directory := rfl

theorem get?_put (t : FileTree) (place other : Place) (e : FileEntry) (h : place ≠ []) :
    (t.put place e).get? other = if other = place then some e else t.get? other := by
  cases other with
  | nil => simp [Ne.symm h]
  | cons name dir =>
    simp only [get?, put, Std.TreeMap.getElem?_insert]
    by_cases hp : name :: dir = place
    · simp [hp]
    · have hne : compare place (name :: dir) ≠ .eq := fun he =>
        hp (Std.LawfulEqOrd.eq_of_compare he).symm
      simp [hp, hne]

/-- **Writing changes what is at one place, and nothing else.** -/
theorem get?_write {t t' : FileTree} {path text : String} (h : t.write path text = .ok t') :
    ∃ place, t.locate path = .ok place ∧
      ∀ other, t'.get? other = if other = place then some (.file text) else t.get? other := by
  unfold write at h
  cases happroach : t.approach path with
  | error fault => simp [happroach, bind, Except.bind] at h
  | ok dir =>
    simp only [happroach, bind, Except.bind] at h
    split at h
    · simp at h
    · cases hlocate : t.locate path with
      | error fault => simp [hlocate] at h
      | ok place =>
        simp only [hlocate, putFile] at h
        refine ⟨place, rfl, fun other => ?_⟩
        split at h
        · simp at h
        · rename_i hdir
          have hroot : place ≠ [] := by
            rintro rfl
            exact hdir rfl
          cases h
          exact get?_put t place other (.file text) hroot

end FileTree

end HoldMargin.CommandLine
