import Upkeep.Config.Fields
import Upkeep.Files.Basic
import Upkeep.Toml.Printer
import Upkeep.Toml.Reader

/-!
# Stored configuration

Configuration files are TOML. A new file is written under a temporary name beside its place and
then moved there, so that its place always holds a whole file, the old one or the new one.
-/

namespace Upkeep

/-- Why a configuration is not loaded or stored. -/
inductive ConfigFault where
  | unreadable (path : FilePath) (fault : FileFault)
  | unparsable (path : FilePath)
  | unwritable (path : FilePath) (fault : FileFault)
  | invalid (why : InvalidConfig)
  deriving DecidableEq

/-- The text of a fault. A text that cannot be parsed has no message of its own. -/
def ConfigFault.message? : ConfigFault → Option String
  | .unreadable p fault =>
    some ("failed to read config file '" ++ p.text ++ "': " ++ fault.message)
  | .unparsable _ => none
  | .unwritable p fault =>
    some ("failed to write config file '" ++ p.text ++ "': " ++ fault.message)
  | .invalid why => some why.message

namespace ConfigTree

mutual

/-- A TOML value as a configuration text. -/
def ofToml : Toml.Value → ConfigTree
  | .integer i => .int i
  | .string s => .text s
  | .array items => .list (ofTomlItems items)
  | .table _ fields => .table (ofTomlFields fields)
  | _ => .other

def ofTomlItems : List Toml.Value → List ConfigTree
  | [] => []
  | v :: r => ofToml v :: ofTomlItems r

def ofTomlFields : List (String × Toml.Value) → List (String × ConfigTree)
  | [] => []
  | (k, v) :: r => (k, ofToml v) :: ofTomlFields r

end

end ConfigTree

namespace Config

/-- The configuration that a TOML text gives. Values beyond the settings of a section that is given
as a list are passed over. -/
def ofToml? (text : String) : Option Config := do
  ofTree? true (.table (ConfigTree.ofTomlFields (← Toml.parse? text)))

/-- The TOML text of a configuration, unless a number is too large for the format. -/
def toToml? (c : Config) : Option String := Toml.print? c.entries

/-- The configuration of a file, which must be valid. -/
def load (fs : Files) (p : FilePath) : Except ConfigFault Config :=
  match fs.readText p with
  | .error fault => .error (.unreadable p fault)
  | .ok text =>
    match ofToml? text with
    | none => .error (.unparsable p)
    | some c =>
      match c.invalid? with
      | some why => .error (.invalid why)
      | none => .ok c

/-! ## Places -/

/-- The file of an application below a directory for settings of the whole desktop. -/
def desktopFile (application : String) (base : FilePath) : FilePath :=
  base ++ [.name application, .name "config.toml"]

/-- The file of an application below a home directory, where a configuration is written. -/
def homeFile (application : String) (home : FilePath) : FilePath :=
  home ++ [.name ("." ++ application), .name "config.toml"]

/-- The first of some places where something is. -/
def locate (fs : Files) (places : List FilePath) : Option FilePath := places.find? fs.pathExists

/-- The configuration from the first place where something is, with that place, or the defaults. -/
def loadFirst (fs : Files) (places : List FilePath) :
    Except ConfigFault (Option FilePath × Config) :=
  match locate fs places with
  | none => .ok (none, {})
  | some p => (some p, ·) <$> load fs p

/-! ## Writing -/

/-- The name without what follows its last point, unless that point comes first. -/
def stem (name : String) : String :=
  let cs := name.toList
  let tail := cs.reverse.takeWhile (· != '.')
  let front := cs.length - tail.length - 1
  if tail.length < cs.length && 0 < front then String.ofList (cs.take front) else name

/-- The temporary file beside a file, which has the name of that file with another ending. Only if
taking the ending off leaves nothing but two points, these stand for the directory above, and no
other ending is put on. -/
def temporary (p : FilePath) : FilePath :=
  let t := p.trimmed
  match t.getLast? with
  | some (.name n) =>
    t.dropLast ++ [if stem n = "." && t = p then .up else .name (stem n ++ ".toml.tmp")]
  | _ => p

/-- The steps of writing a file on the file system, one after the other: its directory is made, the
temporary file is made empty, then filled, and then moved. -/
inductive WriteStep where
  | makeParent | createTemporary | fillTemporary | moveIntoPlace
  deriving DecidableEq

/-- The path that a step is about. -/
def WriteStep.path (p : FilePath) : WriteStep → FilePath
  | makeParent | moveIntoPlace => p
  | createTemporary | fillTemporary => temporary p

/-- One step of writing `text` to `p`. -/
def WriteStep.run (p : FilePath) (text : String) (fs : Files) :
    WriteStep → Files × Files.Result Unit
  | makeParent => fs.makeDirectories p.parent
  | createTemporary => fs.attempt (fs.write (temporary p) [])
  | fillTemporary => fs.attempt (fs.write (temporary p) (Text.encode text))
  | moveIntoPlace => fs.attempt (fs.rename (temporary p) p)

/-- Some steps of writing, up to the first that fails. What was done up to then stays. -/
def runSteps (p : FilePath) (text : String) (fs : Files) :
    List WriteStep → Files × Except ConfigFault Unit
  | [] => (fs, .ok ())
  | s :: r =>
    match s.run p text fs with
    | (fs, .ok ()) => runSteps p text fs r
    | (fs, .error fault) => (fs, .error (.unwritable (s.path p) fault))

/-- Writes a valid configuration to a file. The directory is made before the text is found to be
storable. -/
def store (fs : Files) (p : FilePath) (c : Config) : Files × Except ConfigFault Unit :=
  match c.invalid? with
  | some why => (fs, .error (.invalid why))
  | none =>
    match runSteps p "" fs [.makeParent] with
    | (fs, .error fault) => (fs, .error fault)
    | (fs, .ok ()) =>
      match c.toToml? with
      | none => (fs, .error (.invalid .notStorable))
      | some text => runSteps p text fs [.createTemporary, .fillTemporary, .moveIntoPlace]

end Config

end Upkeep
