import Upkeep.Digest.Sha256
import Upkeep.Files.Basic

/-!
# Resource locks

A keeper takes locks on resources, which are named by texts. Each resource has a lock file in the
keeper's directory, under a short name computed from the text; a keeper that holds the resource has
that file open and locked. Keepers over one directory exclude each other through the files alone.

The steps on the file system come one after the other in each call: to take a lock, the file is
opened or made, locked, and entered into the table; to give one up, the entry is taken out, the file
is unlocked, and its name is removed.
-/

namespace Upkeep

/-- The name of the lock file of a resource: the first sixteen digits of a digest of the text. -/
def lockFileName (resource : String) : String :=
  String.ofList ((Sha256.hex (Sha256.digest (Text.encode resource))).toList.take 16) ++ ".lock"

/-- A keeper of locks, with the open files of the resources that it holds. -/
structure LockKeeper where
  directory : FilePath
  fileName : String → String := lockFileName
  held : List (String × OpenFile) := []

namespace LockKeeper

/-- Makes the directory and a keeper over it. -/
def create (fs : Files) (directory : FilePath) : Files × Except FileFault LockKeeper :=
  match fs.makeDirectories directory with
  | (fs, .ok ()) => (fs, .ok { directory })
  | (fs, .error fault) => (fs, .error fault)

/-- The text for a directory that cannot be made. -/
def createMessage (directory : FilePath) (fault : FileFault) : String :=
  "failed to create lock directory: cannot create " ++ directory.text ++ ": " ++ fault.message

/-- Where the lock file of a resource is. -/
def path (k : LockKeeper) (resource : String) : FilePath :=
  k.directory ++ [.name (k.fileName resource)]

def isHeld (k : LockKeeper) (resource : String) : Bool := (k.held.lookup resource).isSome

/-- The resources held, sorted. -/
def heldNames (k : LockKeeper) : List String := (k.held.map (·.1)).mergeSort (· ≤ ·)

/-- Tries to take the lock of a resource that is not held. -/
def take (k : LockKeeper) (fs : Files) (resource : String) (mode : LockMode) :
    Bool × Files × LockKeeper :=
  match fs.openOrCreate (k.path resource) with
  | .error _ => (false, fs, k)
  | .ok (f, fs) =>
    match fs.tryLock? f mode with
    | none => (false, fs, k)
    | some fs => (true, fs, { k with held := (resource, f) :: k.held })

/-- Takes a lock; that of a resource held already counts as taken. -/
def acquire (k : LockKeeper) (fs : Files) (resource : String) (mode : LockMode) :
    Bool × Files × LockKeeper :=
  if k.isHeld resource then (true, fs, k) else k.take fs resource mode

/-- Takes a lock, but not that of a resource held already. -/
def acquireUnheld (k : LockKeeper) (fs : Files) (resource : String) (mode : LockMode) :
    Bool × Files × LockKeeper :=
  if k.isHeld resource then (false, fs, k) else k.take fs resource mode

/-- Unlocks an open file and removes its name, whatever the name stands for by now. -/
def letGo (fs : Files) (p : FilePath) (f : OpenFile) : Files :=
  let fs := fs.unlock f
  match fs.unlink p with
  | .ok fs => fs
  | .error _ => fs

/-- Gives up a resource, if it is held. -/
def release (k : LockKeeper) (fs : Files) (resource : String) : Files × LockKeeper :=
  match k.held.lookup resource with
  | none => (fs, k)
  | some f =>
    (letGo fs (k.path resource) f, { k with held := k.held.filter (·.1 != resource) })

/-- Lets go of some open files, one after the other. -/
def letGoEach (k : LockKeeper) (fs : Files) (files : List (String × OpenFile)) : Files :=
  files.foldl (fun fs (resource, f) => letGo fs (k.path resource) f) fs

/-- Gives up everything, as a keeper does at its end. -/
def releaseAll (k : LockKeeper) (fs : Files) : Files × LockKeeper :=
  (k.letGoEach fs k.held, { k with held := [] })

/-- Whether anyone holds a resource: an exclusive lock on the file is tried and given up at once. A
file that cannot be opened for another reason than that it is missing counts as locked. -/
def probe (k : LockKeeper) (fs : Files) (resource : String) : Bool × Files :=
  if k.isHeld resource then (true, fs)
  else match fs.openExisting (k.path resource) with
    | .error .notFound => (false, fs)
    | .error _ => (true, fs)
    | .ok (f, fs) =>
      match fs.tryLock? f .exclusive with
      | none => (true, fs)
      | some fs => (false, fs.unlock f)

/-- Whether anyone holds a resource. -/
def isLocked (k : LockKeeper) (fs : Files) (resource : String) : Bool := (k.probe fs resource).1

/-- Takes the locks of all resources in order, each once, or none of them. -/
def acquireAll (k : LockKeeper) (fs : Files) (resources : List String) :
    Option (List String) × Files × LockKeeper :=
  go k fs [] resources
where
  /-- Goes on after the locks of `taken`, the latest first. -/
  go (k : LockKeeper) (fs : Files) (taken : List String) :
      List String → Option (List String) × Files × LockKeeper
    | [] => (some taken.reverse, fs, k)
    | r :: rest =>
      if r ∈ taken then go k fs taken rest
      else match k.acquireUnheld fs r .exclusive with
        | (true, fs, k) => go k fs (r :: taken) rest
        | (false, fs, k) =>
          let (fs, k) := taken.reverse.foldl (fun (fs, k) r => k.release fs r) (fs, k)
          (none, fs, k)

end LockKeeper

end Upkeep
