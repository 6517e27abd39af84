import Upkeep.Files.Path
import Upkeep.Text.Bytes

/-!
# Files

A tree of directories, plain files and symbolic links under one root. A plain file is a directory
entry that refers to an *inode*, which holds the bytes: when the entry is removed, those who have
the file open go on with an inode that nobody else can find.

A path is followed part by part from the root. Where a link stands on the way, its target is
followed in its place, and then the rest of the path (`Files.resolveFrom`); on one path no more than
`Files.maxLinks` links are followed. Operations on an entry *locate* their path: they follow all
parts but the last, to find a directory and a name in it, and do not mind whether the entry of that
name is a link. Those that are after what is behind a link follow the last part as well.

An open file may carry an advisory lock, shared or exclusive. The lock belongs to the open file and
excludes other open files of the same inode; it ends when the file is closed.
-/

namespace Upkeep

/-- Why a file operation fails. -/
inductive FileFault where
  | notFound | busy | alreadyExists | notDirectory | isDirectory | invalidArgument | nameTooLong
  | notEmpty | tooManyLinks | nulInName | notText
  deriving DecidableEq, Inhabited

def FileFault.message : FileFault → String
  | .notFound => "No such file or directory (os error 2)"
  | .busy => "Device or resource busy (os error 16)"
  | .alreadyExists => "File exists (os error 17)"
  | .notDirectory => "Not a directory (os error 20)"
  | .isDirectory => "Is a directory (os error 21)"
  | .invalidArgument => "Invalid argument (os error 22)"
  | .nameTooLong => "File name too long (os error 36)"
  | .notEmpty => "Directory not empty (os error 39)"
  | .tooManyLinks => "Too many levels of symbolic links (os error 40)"
  | .nulInName => "file name contained an unexpected NUL byte"
  | .notText => "stream did not contain valid UTF-8"

/-- The names that lead from the root to an entry. -/
abbrev Place := List String

/-- A directory entry. -/
inductive FileNode where
  | file (inode : Nat)
  | directory
  | link (target : FilePath)
  deriving DecidableEq

/-- The two kinds of advisory locks. -/
inductive LockMode where
  | exclusive | shared
  deriving DecidableEq, Inhabited

/-- An open file. -/
structure OpenFile where
  handle : Nat
  inode : Nat
  deriving DecidableEq

/-- An advisory lock that an open file carries. -/
structure FileLock where
  holder : OpenFile
  mode : LockMode
  deriving DecidableEq

/-- The state of the file system. -/
structure Files where
  nodes : List (Place × FileNode) := []
  /-- The bytes of the inodes; an inode without an entry is empty. -/
  contents : List (Nat × Bytes) := []
  locks : List FileLock := []
  nextInode : Nat := 0
  nextHandle : Nat := 0

/-- Where a path leads. -/
inductive Destination where
  /-- To a name in a directory. If the path goes on with a slash, the name has to be that of a
  directory. -/
  | entry (directory : Place) (name : String) (slash : Bool)
  /-- By points to a directory that is there. -/
  | here (place : Place)
  deriving DecidableEq

namespace Files

/-- The result of an operation that changes the file system if it succeeds. -/
abbrev Result (α : Type) := Except FileFault α

/-- The files after an operation, which stay as they are if it fails. -/
def attempt (fs : Files) (r : Result Files) : Files × Result Unit :=
  match r with
  | .ok fs => (fs, .ok ())
  | .error fault => (fs, .error fault)

/-! ## Entries -/

/-- The entry at a place. The root is a directory. -/
def node? (fs : Files) (p : Place) : Option FileNode :=
  if p = [] then some .directory else fs.nodes.lookup p

def setNode (fs : Files) (p : Place) (n : FileNode) : Files :=
  { fs with nodes := (p, n) :: fs.nodes.filter (·.1 != p) }

def eraseNode (fs : Files) (p : Place) : Files :=
  { fs with nodes := fs.nodes.filter (·.1 != p) }

/-- The most bytes that a name may have. -/
def maxName : Nat := 255

/-- What a directory has under a name. -/
def child? (fs : Files) (d : Place) (n : String) : Result (Option FileNode) :=
  if maxName < n.utf8ByteSize then .error .nameTooLong else .ok (fs.node? (d ++ [n]))

/-! ## Where paths lead -/

/-- Where the target of a link begins: a target with a slash in front starts from the root, any
other from the directory of the link. -/
def base (d : Place) (target : FilePath) : Place := if target.head? = some .blank then [] else d

/-- Follows a path from a directory on, through directories. `jump` follows the target of a link
with the rest of the path; `links` is how many links may still be followed before that. -/
def advance (fs : Files) (jump : Place → FilePath → Result (Destination × Nat)) (links : Nat) :
    Place → FilePath → Result (Destination × Nat)
  | d, [] => .ok (.here d, links)
  | d, .blank :: p | d, .dot :: p => advance fs jump links d p
  | d, .up :: p => advance fs jump links d.dropLast p
  | d, .name n :: p => do
    match ← fs.child? d n with
    | some .directory => advance fs jump links (d ++ [n]) p
    | some (.link target) => jump (base d target) (target ++ p)
    | some (.file _) =>
      if p.all (· = .blank) then .ok (.entry d n (p ≠ []), links) else .error .notDirectory
    | none => if p.all (· = .blank) then .ok (.entry d n (p ≠ []), links) else .error .notFound

/-- Where a path leads from a directory if so many links may be followed, and how many may be
followed after that. The end is a directory, or the name of a file or of nothing. -/
def resolveFrom (fs : Files) : Nat → Place → FilePath → Result (Destination × Nat)
  | 0 => fs.advance (fun _ _ => .error .tooManyLinks) 0
  | links + 1 => fs.advance (fs.resolveFrom links) (links + 1)

/-- The most links that are followed on one path. -/
def maxLinks : Nat := 40

/-- The directory that stands where a path has led. -/
def enter (fs : Files) : Destination → Result Place
  | .here d => .ok d
  | .entry d n _ => do
    match ← fs.child? d n with
    | none => .error .notFound
    | some _ => .error .notDirectory

/-- The directory that a path leads to. -/
def walk (fs : Files) (p : FilePath) : Result Place := do
  fs.enter (← fs.resolveFrom maxLinks [] p).1

/-- The most bytes that the text of a path may have. -/
def maxPath : Nat := 4095

/-- Why a text is not even looked up as a path. -/
def textFault? (s : String) : Option FileFault :=
  if '\x00' ∈ s.toList then some .nulInName
  else if maxPath < s.utf8ByteSize then some .nameTooLong
  else none

/-- Where a path leads when a link at its end is not followed; the directories on the way must
exist. -/
def locate (fs : Files) (p : FilePath) : Result Destination :=
  match textFault? p.text with
  | some fault => .error fault
  | none =>
    match p.unslashed.getLast? with
    | some (.name n) => do
      return .entry (← fs.walk p.unslashed.dropLast) n (p.getLast? = some .blank)
    | _ => .here <$> fs.walk p

/-- Where a path leads when a link at its end is followed as well. -/
def resolve (fs : Files) (p : FilePath) : Result Destination :=
  match textFault? p.text with
  | some fault => .error fault
  | none => do return (← fs.resolveFrom maxLinks [] p).1

/-- What stands at the end of a path, links followed. -/
def status (fs : Files) (p : FilePath) : Result FileNode := do
  match ← fs.resolve p with
  | .here _ => .ok .directory
  | .entry d n slash =>
    match ← fs.child? d n with
    | some (.file i) => if slash then .error .notDirectory else .ok (.file i)
    | _ => .error .notFound

def isDirectory (fs : Files) (p : FilePath) : Bool :=
  match fs.status p with
  | .ok .directory => true
  | _ => false

/-- Something stands at the end of a path. -/
def pathExists (fs : Files) (p : FilePath) : Bool := (fs.status p).isOk

/-! ## Plain files -/

/-- The inode of an existing plain file. -/
def inode (fs : Files) (p : FilePath) : Result Nat := do
  match ← fs.status p with
  | .file i => .ok i
  | _ => .error .isDirectory

/-- The inode of a plain file, which is made if nothing is there. A path that can only lead to a
directory is refused before anything is looked up in the last directory. -/
def inodeOrNew (fs : Files) (p : FilePath) : Result (Nat × Files) := do
  match ← fs.locate p with
  | .here _ | .entry _ _ true => .error .isDirectory
  | .entry _ _ false =>
    match ← fs.resolve p with
    | .here _ | .entry _ _ true => .error .isDirectory
    | .entry d n false =>
      match ← fs.child? d n with
      | some (.file i) => .ok (i, fs)
      | _ =>
        let fs := fs.setNode (d ++ [n]) (.file fs.nextInode)
        .ok (fs.nextInode, { fs with nextInode := fs.nextInode + 1 })

def bytes (fs : Files) (i : Nat) : Bytes := (fs.contents.lookup i).getD []

def setBytes (fs : Files) (i : Nat) (b : Bytes) : Files :=
  { fs with contents := (i, b) :: fs.contents.filter (·.1 != i) }

/-- The bytes of a file. -/
def read (fs : Files) (p : FilePath) : Result Bytes := do return fs.bytes (← fs.inode p)

/-- The text of a file. -/
def readText (fs : Files) (p : FilePath) : Result String := do
  match Text.decode? (← fs.read p) with
  | some s => .ok s
  | none => .error .notText

/-- Writes over a file, or makes it. -/
def write (fs : Files) (p : FilePath) (b : Bytes) : Result Files := do
  let (i, fs) ← fs.inodeOrNew p
  return fs.setBytes i b

/-- Adds to the end of a file, or makes it. -/
def append (fs : Files) (p : FilePath) (b : Bytes) : Result Files := do
  let (i, fs) ← fs.inodeOrNew p
  return fs.setBytes i (fs.bytes i ++ b)

/-! ## Directories and entries -/

def makeDirectory (fs : Files) (p : FilePath) : Result Files := do
  match ← fs.locate p with
  | .here _ => .error .alreadyExists
  | .entry d n _ =>
    match ← fs.child? d n with
    | some _ => .error .alreadyExists
    | none => .ok (fs.setNode (d ++ [n]) .directory)

/-- Makes a directory unless it is there. -/
def ensureDirectory (fs : Files) (p : FilePath) : Result Files :=
  match fs.makeDirectory p with
  | .error .alreadyExists => if fs.isDirectory p then .ok fs else .error .alreadyExists
  | r => r

/-- Makes the first of some directories, and first those of the others without which it has nowhere
to stand. What has been made stays when a later one fails. -/
def ensureFirst (fs : Files) : List FilePath → Files × Result Unit
  | [] => (fs, .ok ())
  | p :: above =>
    match fs.ensureDirectory p with
    | .error .notFound =>
      match ensureFirst fs above with
      | (fs, .ok ()) => fs.attempt (fs.ensureDirectory p)
      | failed => failed
    | r => fs.attempt r

/-- Makes a directory with all directories on the way. -/
def makeDirectories (fs : Files) (p : FilePath) : Files × Result Unit :=
  fs.ensureFirst (p :: p.ancestors)

/-- Removes an entry that is no directory. -/
def unlink (fs : Files) (p : FilePath) : Result Files := do
  match ← fs.locate p with
  | .here _ => .error .isDirectory
  | .entry d n slash =>
    match ← fs.child? d n with
    | none => .error .notFound
    | some .directory => .error .isDirectory
    | some _ => if slash then .error .notDirectory else .ok (fs.eraseNode (d ++ [n]))

/-- Removes all that is below a place. -/
def emptied (fs : Files) (p : Place) : Files :=
  { fs with nodes := fs.nodes.filter fun (q, _) => q = p || !p.isPrefixOf q }

/-- Removes a directory with all that is below it. A directory that is given by points is emptied,
but not removed. -/
def removeTree (fs : Files) (p : FilePath) : Files × Result Unit :=
  match fs.locate p with
  | .error fault => (fs, .error fault)
  | .ok (.here d) =>
    (fs.emptied d, .error (if p.unslashed.getLast? = some .up then .notEmpty else .invalidArgument))
  | .ok (.entry d n _) =>
    match fs.child? d n with
    | .error fault => (fs, .error fault)
    | .ok none => (fs, .error .notFound)
    | .ok (some .directory) => ((fs.emptied (d ++ [n])).eraseNode (d ++ [n]), .ok ())
    | .ok (some _) => (fs, .error .notDirectory)

/-- Makes a symbolic link. -/
def makeLink (fs : Files) (p target : FilePath) : Result Files :=
  match textFault? target.text with
  | some fault => .error fault
  | none => do
    match ← fs.locate p with
    | .here _ => .error .alreadyExists
    | .entry d n slash =>
      match ← fs.child? d n with
      | some _ => .error .alreadyExists
      | none => if slash then .error .notFound else .ok (fs.setNode (d ++ [n]) (.link target))

/-- Moves a plain file to a name, in place of a file that has it. -/
def rename (fs : Files) (p q : FilePath) : Result Files := do
  match ← fs.locate p, ← fs.locate q with
  | .entry d n s, .entry d' n' s' =>
    match ← fs.child? d n, ← fs.child? d' n' with
    | none, _ => .error .notFound
    | some .directory, _ => .error .isDirectory
    | some node, old =>
      if s || s' then .error .notDirectory
      else if old = some .directory then .error .isDirectory
      else if d ++ [n] = d' ++ [n'] then .ok fs
      else .ok ((fs.eraseNode (d ++ [n])).setNode (d' ++ [n']) node)
  | _, _ => .error .busy

/-- The names of all entries below a place, sorted, with a slash after those of directories. -/
def listing (fs : Files) (below : Place) : List String :=
  let inside := fs.nodes.filter fun (p, _) => below.isPrefixOf p && p != below
  let names := inside.map fun (p, n) =>
    String.intercalate "/" (p.drop below.length) ++ if n = .directory then "/" else ""
  names.mergeSort (· ≤ ·)

/-! ## Open files and locks -/

/-- Opens an existing file. -/
def openExisting (fs : Files) (p : FilePath) : Result (OpenFile × Files) := do
  let i ← fs.inode p
  return (⟨fs.nextHandle, i⟩, { fs with nextHandle := fs.nextHandle + 1 })

/-- Opens a file, which is made if nothing is there. -/
def openOrCreate (fs : Files) (p : FilePath) : Result (OpenFile × Files) := do
  let (i, fs) ← fs.inodeOrNew p
  return (⟨fs.nextHandle, i⟩, { fs with nextHandle := fs.nextHandle + 1 })

/-- A lock stands in the way of another open file that wants a lock of some mode. -/
def FileLock.blocks (l : FileLock) (f : OpenFile) (mode : LockMode) : Bool :=
  l.holder.inode = f.inode && l.holder != f && (l.mode = .exclusive || mode = .exclusive)

/-- Locks an open file, unless another one's lock is in the way. -/
def tryLock? (fs : Files) (f : OpenFile) (mode : LockMode) : Option Files :=
  if fs.locks.any (FileLock.blocks · f mode) then none
  else some { fs with locks := ⟨f, mode⟩ :: fs.locks.filter (·.holder != f) }

/-- Ends the lock of an open file, as closing it does. -/
def unlock (fs : Files) (f : OpenFile) : Files :=
  { fs with locks := fs.locks.filter (·.holder != f) }

end Files

end Upkeep
