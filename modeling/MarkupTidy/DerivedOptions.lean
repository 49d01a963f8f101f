import MarkupTidy.CustomTags
import MarkupTidy.Fault
import MarkupTidy.Settings.Basic

/-!
Options that derive from a document and the options it already has: its custom elements as
block-level tags, whether it is shown without a body element, and how many errors are shown.
-/
namespace MarkupTidy.DerivedOptions

def blocklevelTags : String := "newBlocklevelTags"

def showBodyOnly : String := "showBodyOnly"

def showErrors : String := "showErrors"

/-- How many errors are shown where the options do not say. -/
def standardErrors : Int := 6

/-- A value that counts as set, as text. -/
def setText (value : Option Value) : Except Fault (List Char) :=
  match value with
  | none => .ok []
  | some value =>
    if value.isSet then
      match value.plainText? with
      | some s => .ok s.toList
      | none => .error .integerTooLong
    else .ok []

/-- The block-level tags, if there are any. -/
def deriveTags (text : List Char) (existing : OptionMap) (settings : Settings) :
    Except Fault (List (String × Value)) :=
  if settings.dynamicTags then do
    let current ← setText (existing.find? blocklevelTags)
    let tags := CustomTags.extend text current
    .ok (if tags.isEmpty then [] else [(blocklevelTags, .text (String.ofList tags))])
  else .ok []

def deriveBody (text : List Char) (settings : Settings) : List (String × Value) :=
  if settings.dynamicBody then [(showBodyOnly, .bool !Text.occurs "<body".toList text)] else []

def deriveErrors (existing : OptionMap) (settings : Settings) : List (String × Value) :=
  if settings.showErrors && !(existing.find? showErrors).any Value.isSet then
    [(showErrors, .int standardErrors)]
  else []

/-- The options that derive from a text and merge over its existing options. -/
def derive (text : String) (existing : OptionMap) (settings : Settings) :
    Except Fault OptionMap := do
  let tags ← deriveTags text.toList existing settings
  .ok (.ofPairs (tags ++ deriveBody text.toList settings ++ deriveErrors existing settings))

end MarkupTidy.DerivedOptions
