import RunLedger.Config.Text
import RunLedger.Text

/-!
# Configuration files

A `ConfigFile` is a path with what lies there: whether a file can be made at the path, and the bytes
of the file if there is one. It is read by `ConfigFile.read` and written by `ConfigFile.write`. The
settings of a store lie in a file of its folder; where the folder or the file is missing, opening
the store makes them (`StorePlace.settings`).
-/

set_option autoImplicit false

namespace RunLedger

/-- A path, whether its folder exists, and the bytes of the file there. -/
structure ConfigFile where
  path : String
  hasFolder : Bool
  content? : Option (List UInt8)
deriving DecidableEq, Inhabited

namespace ConfigFile

/-- The settings in a file. What is wrong with them is told with the path. -/
def read (file : ConfigFile) : Except Failure Config :=
  match file.content? >>= Text.ofUtf8? with
  | none => .error (.configuration (.unreadableFile file.path))
  | some document =>
    match Config.parse document with
    | .ok config => .ok config
    | .error (.configuration cause) => .error (.configuration (.inFile file.path cause))
    | .error failure => .error failure

/-- Writes a text; none if the folder is missing. -/
def overwrite? (file : ConfigFile) (document : String) : Option ConfigFile :=
  if file.hasFolder then some { file with content? := some (Text.utf8 document) } else none

/-- Writes settings, whether they make sense or not. -/
def write (file : ConfigFile) (config : Config) : Except Failure ConfigFile :=
  match config.written? with
  | none => .error (.configuration .unwritable)
  | some document =>
    match file.overwrite? document with
    | none => .error (.configuration (.fileNotWritten file.path))
    | some file => .ok file

/-- Writes the standard settings unless there is a file. -/
def writeStandard (file : ConfigFile) : Except Failure ConfigFile :=
  if file.content?.isSome then .ok file
  else
    match file.overwrite? Config.standardText with
    | none => .error (.configuration (.defaultNotWritten file.path))
    | some file => .ok file

/-- The name of the file with the settings of a store. -/
def name : String := "runstore.toml"

end ConfigFile

/-- What lies where a store is to be opened. -/
inductive StorePlace where
  /-- Nothing yet. -/
  | vacant
  /-- A file. -/
  | file
  /-- A folder, with the bytes of its settings if it has any. -/
  | folder (settings? : Option (List UInt8))
deriving DecidableEq, Inhabited

namespace StorePlace

/-- The file of the settings in a folder that exists by now. -/
def configFile (path : String) (settings? : Option (List UInt8)) : ConfigFile where
  path := path ++ "/" ++ ConfigFile.name
  hasFolder := true
  content? := settings?

/-- The file of the settings of a store, made with the standard settings where it is missing. -/
def prepare (place : StorePlace) (path : String) : Except Failure ConfigFile :=
  match place with
  | vacant => (configFile path none).writeStandard
  | file => .error (.configuration (.folderNotCreated path))
  | folder settings? => (configFile path settings?).writeStandard

/-- The settings of a store. -/
def settings (place : StorePlace) (path : String) : Except Failure Config := do
  (← place.prepare path).read

end StorePlace

end RunLedger
