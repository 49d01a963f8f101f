import MarkupTidy.Settings.Reader
import MarkupTidy.Files.Write
import MarkupTidy.Toml.Reader
import MarkupTidy.Toml.Writer

/-!
The settings file of a workspace. Settings are one table of the file; saving them keeps the other
tables. Settings without a value are left out, since the file format has none for them.
-/
namespace MarkupTidy.Settings

/-- The table that holds the settings. -/
def tableName : String := "tidy"

/-- The options' name within that table. -/
def optionsName : String := "options"

/-- Where the settings file of a workspace lies. -/
def filePath (workspace : Path) : Path := (workspace.child ".tidyhtml").child "config.toml"

/-- A fault of a settings file as a fault of the program. -/
def ofTomlFault (path : Path) : Toml.Fault (Option Text.Place) → Fault
  | .malformed problem place => .settings path.text (.malformed problem place)
  | .tooManyDigits count => .numeralTooLong count
  | .tooDeep => .tooDeep none

/-- The tables in the octets of a settings file. -/
def readTables (path : Path) (octets : Text.Utf8.Octets) : Except Fault Toml.Table :=
  match Text.Utf8.decode octets with
  | .error fault => .error (.undecodable fault)
  | .ok text => (Toml.read text).mapError (ofTomlFault path)

/-- The settings among the tables of a file; the options have a shorter name there. -/
def ofTables (path : Path) (tables : Toml.Table) : Except Fault Settings :=
  match (tables.lookup tableName).getD (.table []) with
  | .table values =>
    let others := values.filter fun entry => entry.1 != optionsName
    let named := match values.lookup optionsName with
      | some options => Pairs.set SettingName.options.name options others
      | none => others
    (ofGiven named).mapError fun settings => .settings path.text (.mismatched settings)
  | _ => .error (.settings path.text .notATable)

/-- The settings of a workspace, standard ones if it has no settings file. -/
def load (host : Host) (workspace : Path) : Except Fault Settings := do
  let path := filePath workspace
  if ← host.exists? path then
    let octets ← host.readOctets path
    let tables ← readTables path octets
    ofTables path tables
  else .ok {}

/-- The settings as the entries of their table. -/
def toTable (settings : Settings) : Toml.Table :=
  let isOptions (entry : String × Value) : Bool := entry.1 == SettingName.options.name
  let plain := settings.dump.filter fun entry => !isOptions entry && !entry.2.isNull
  let options := settings.options.entries
  if options.isEmpty then plain else plain ++ [(optionsName, .table options)]

def ofUnwritable : Toml.Unwritable → Fault
  | .null => .notStorable Value.null.kind
  | .tooManyDigits => .integerTooLong
  | .tooDeep => .tooDeep none

/-- The tables of the settings file that is there. -/
def existingTables (host : Host) (path : Path) : Except Fault Toml.Table := do
  if ← host.exists? path then
    let octets ← host.readOctets path
    readTables path octets
  else .ok []

/-- The octets of a settings file with these settings among the tables that are there. -/
def fileOctets (existing : Toml.Table) (settings : Settings) :
    Except Fault Text.Utf8.Octets :=
  ((Toml.write (Pairs.set tableName (.table settings.toTable) existing)).mapError
    ofUnwritable).map Text.Utf8.encode

/-- Save settings in the settings file of a workspace. -/
def save (host : Host) (workspace : Path) (settings : Settings) : Except Fault Path × Host :=
  let path := filePath workspace
  match existingTables host path >>= fun existing => fileOctets existing settings with
  | .error fault => (.error fault, host)
  | .ok octets =>
    let (result, host) := host.replaceFile path octets
    (result.map fun _ => path, host)

end MarkupTidy.Settings
