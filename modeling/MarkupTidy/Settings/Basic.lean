import MarkupTidy.Options.OptionMap

/-!
Settings: which engine runs, which options derive from a document, where base options come from,
and when output is held back. A time limit is a positive number of seconds.
-/
namespace MarkupTidy

/-- A positive number of seconds. -/
abbrev TimeLimit := { seconds : Binary64 // seconds.isPositive = true }

/-- The time limit where none is set. -/
def TimeLimit.standard : TimeLimit := ⟨Binary64.ofRatio false 30 1, by decide⟩

structure Settings where
  /-- The path or name of the engine; without it the search path decides. -/
  executable : Option String := none
  /-- Names of custom elements in the document count as block-level tags. -/
  dynamicTags : Bool := true
  /-- A document without a body element is shown without one. -/
  dynamicBody : Bool := false
  /-- Errors are shown where the options do not say how many. -/
  showErrors : Bool := false
  options : OptionMap := .empty
  /-- Output that comes with warnings is held back. -/
  stopOnWarning : Bool := false
  /-- A changed number of tags is reported. -/
  secureTagCount : Bool := false
  /-- Override files are looked for. -/
  fileSearch : Bool := true
  overrideName : String := ".htmlTidy"
  /-- How long a run may take; without a limit it may take forever. -/
  timeout : Option TimeLimit := some TimeLimit.standard

instance : Inhabited Settings := ⟨{}⟩

/-- A setting's name in settings files and its name in host applications. -/
structure SettingName where
  name : String
  hostName : String

namespace SettingName

def executable : SettingName := ⟨"tidy_exec_path", "tidyExecPath"⟩
def dynamicTags : SettingName := ⟨"enable_dynamic_tags", "enableDynamicTags"⟩
def dynamicBody : SettingName := ⟨"enable_dynamic_body", "enableDynamicBody"⟩
def showErrors : SettingName := ⟨"show_errors", "showErrors"⟩
def options : SettingName := ⟨"options_tidy", "optionsTidy"⟩
def stopOnWarning : SettingName := ⟨"stop_on_warning", "stopOnWarning"⟩
def secureTagCount : SettingName := ⟨"secure_tag_count", "secureTagCount"⟩
def fileSearch : SettingName := ⟨"file_search_enabled", "fileSearchEnabled"⟩
def overrideName : SettingName := ⟨"options_file_name", "optionsFileName"⟩
def timeout : SettingName := ⟨"timeout", "timeout"⟩

end SettingName

/-- All settings by name. -/
def Settings.dump (s : Settings) : List (String × Value) :=
  [(SettingName.executable.name, s.executable.elim .null .text),
    (SettingName.dynamicTags.name, .bool s.dynamicTags),
    (SettingName.dynamicBody.name, .bool s.dynamicBody),
    (SettingName.showErrors.name, .bool s.showErrors),
    (SettingName.options.name, .table s.options.entries),
    (SettingName.stopOnWarning.name, .bool s.stopOnWarning),
    (SettingName.secureTagCount.name, .bool s.secureTagCount),
    (SettingName.fileSearch.name, .bool s.fileSearch),
    (SettingName.overrideName.name, .text s.overrideName),
    (SettingName.timeout.name, s.timeout.elim .null fun limit => .float limit.val)]

end MarkupTidy
