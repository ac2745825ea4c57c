import MarkupLint.Config.Settings
import MarkupLint.Files.Resolve
import MarkupLint.Log
import MarkupLint.Text.Utf8
import MarkupLint.Toml.Read

/-!
# Configuration files

A configuration is in a file of its own, or in a section of the file that describes a project.  It
is looked for from a directory upward: the first directory with one of the files settles the search,
where a project file only counts if it has the section.
-/

namespace MarkupLint
namespace Config

/-- The name of the files that hold nothing but a configuration. -/
def ownFileName : String := ".svglintrc.toml"

/-- The name of the files that describe a project. -/
def projectFileName : String := "pyproject.toml"

/-- A configuration file: its name as it is shown, and the absolute name that leads to it. -/
structure ConfigFile where
  name : Files.PathName
  place : Files.PathName
deriving DecidableEq, Repr, Inhabited

namespace ConfigFile

/-- A file with an absolute name. -/
def atPlace (place : Files.PathName) : ConfigFile := ⟨place, place⟩

/-- The name as it is shown. -/
def text (file : ConfigFile) : String := file.name.text

/-- Whether this is the file of a project. -/
def isProject (file : ConfigFile) : Bool := file.name.lastPart == projectFileName

/-- Whether there is such a regular file. -/
def isPresent (host : Files.Host) (file : ConfigFile) : Except Failure Bool :=
  host.leadsTo Files.FileNode.isFile file.place.text file.text

/-- The error of a configuration file. -/
def stop (file : ConfigFile) (fault : Fault) : Stop := .error ⟨fault, some file.text⟩

/-- The failure to decode a file. -/
def undecodable (fault : Text.DecodingFault) : Failure := .of "UnicodeDecodeError" [fault.message]

/-- The refusal of the text of a file; a number with too many digits and values that are too deep inside
each other are failures. -/
def refuse (file : ConfigFile) (refusal : Toml.Refusal) : Stop :=
  match refusal.cause with
  | .tooManyDigits count => .failure (.ofValue (Text.tooManyDigits count))
  | .tooDeep => .failure .tooDeep
  | _ => file.stop (.invalidToml refusal)

/-- The table that a file describes. -/
def table (host : Files.Host) (file : ConfigFile) : Except Stop (Table Value) :=
  match host.readBytes file.place.text with
  | .error .nulCharacter => .error (.failure (Files.PathFault.nulCharacter.failure file.text))
  | .error fault => .error (file.stop (.unreadable (fault.message file.text)))
  | .ok bytes =>
    match Text.decode bytes with
    | .error fault => .error (.failure (undecodable fault))
    | .ok text => (Toml.read host.room.values text).mapError file.refuse

end ConfigFile

/-- The table of tools in the description of a project, if it is a table; there may be none. -/
def toolsOf? (project : Table Value) : Option (Table Value) :=
  match project.value? "tool" with
  | none => some []
  | some (.table tools) => some tools
  | some _ => none

/-- The name of the section of the configuration among the tools. -/
def sectionName : String := "svglint"

/-- The section in the description of a project, which is empty if it is missing. -/
def sectionOf (project : Table Value) : Value :=
  match toolsOf? project with
  | some tools => (tools.value? sectionName).getD (.table [])
  | none => .null

/-- Whether the description of a project has the section. -/
def hasSection (project : Table Value) : Bool :=
  (toolsOf? project).any fun tools => Table.hasKey tools sectionName

/-- The configuration file of a directory, if it has one. -/
def candidateIn? (host : Files.Host) (directory : Files.PathName) :
    Except Stop (Option ConfigFile) := do
  let fileOf := fun name => ConfigFile.atPlace (directory.join ⟨.relative, [name]⟩)
  let own := fileOf ownFileName
  if ← (own.isPresent host).mapError .failure then return some own
  let project := fileOf projectFileName
  if ← (project.isPresent host).mapError .failure then
    if hasSection (← project.table host) then return some project
  return none

/-- The directories from a directory upward: as many of its parts are left as given, then fewer. -/
def directoriesFrom (directory : Files.PathName) : Nat → List Files.PathName
  | 0 => [{ directory with parts := [] }]
  | count + 1 =>
    { directory with parts := directory.parts.take (count + 1) } ::
      directoriesFrom directory count

/-- The first configuration file of the directories. -/
def firstCandidate? (host : Files.Host) :
    List Files.PathName → Except Stop (Option ConfigFile)
  | [] => .ok none
  | directory :: rest =>
    match candidateIn? host directory with
    | .error stop => .error stop
    | .ok (some file) => .ok (some file)
    | .ok none => firstCandidate? host rest

/-- The configuration file that is found from a directory upward. -/
def find? (host : Files.Host) (start : Files.PathName) :
    Except Stop (Option ConfigFile) :=
  match host.resolve start with
  | .error failure => .error (.failure failure)
  | .ok directory =>
    firstCandidate? host (directoriesFrom directory directory.parts.length)

/-- What loading a configuration leads to. -/
structure Loading where
  result : Except Stop Settings
  logs : List LogRecord
deriving Inhabited

/-- What is noted while a configuration is loaded. -/
def loadRecord (message : String) : LogRecord := ⟨.debug, "svglint.config", message⟩

/-- The settings in a configuration file. -/
def settingsIn (host : Files.Host) (file : ConfigFile) : Except Stop Settings := do
  let table ← file.table host
  if file.isProject then
    match sectionOf table with
    | .table entries => Settings.ofValue (.table entries) (some file.text)
    | _ => throw (file.stop .sectionNotTable)
  else Settings.ofValue (.table table) (some file.text)

/-- Load the configuration in a file. -/
def loadFile (host : Files.Host) (file : ConfigFile) : Loading :=
  ⟨settingsIn host file, [loadRecord s!"Loading configuration from {file.text}"]⟩

/-- Load the configuration in the file with a name that is read in a directory, or in the file that
is found from the directory upward. -/
def load (host : Files.Host) (directory : Files.PathName) (name? : Option Files.PathName) :
    Loading :=
  match name? with
  | some name =>
    let file : ConfigFile := ⟨name, directory.join name⟩
    match file.isPresent host with
    | .error failure => ⟨.error (.failure failure), []⟩
    | .ok false => ⟨.error (file.stop .fileNotFound), []⟩
    | .ok true => loadFile host file
  | none =>
    match find? host directory with
    | .error stop => ⟨.error stop, []⟩
    | .ok none =>
      ⟨.ok .standard, [loadRecord "No configuration file found, using defaults"]⟩
    | .ok (some file) => loadFile host file

end Config
end MarkupLint
