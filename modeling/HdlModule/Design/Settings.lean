import HdlModule.Text.Duration
import HdlModule.Identifier.Reserved
import HdlModule.Text.Quoted

/-!
# Settings of a design

The settings that the modules of a design share.

## Main definitions

* `Settings`: the settings
* `Settings.text`: the settings as they are shown
-/

namespace HdlModule

/-- The settings that the modules of a design share. -/
structure Settings where
  /-- Whether reserved words are shown in upper case. -/
  upperCaseKeywords : Bool
  /-- How long the syntax check may take, if that is limited. -/
  checkLimit? : Option Duration
  /-- The template of new modules, if it is not the built-in one. -/
  template? : Option String
deriving DecidableEq

namespace Settings

/-- The settings that hold where nothing else is said: lower case, half a minute, the built-in
template. -/
def standard : Settings := ⟨false, some (Duration.ofSeconds 30), none⟩

/-- The case in which reserved words are shown. -/
def keywordCase (settings : Settings) : KeywordCase :=
  if settings.upperCaseKeywords then .upper else .lower

/-- An optional value as it is shown. -/
def optionText : Option String → String
  | some text => "Some(" ++ text ++ ")"
  | none => "None"

/-- The settings as they are shown. -/
def text (settings : Settings) : String :=
  "ContentConfig \x7b upper_case_keywords: " ++
    (if settings.upperCaseKeywords then "true" else "false") ++
    ", precheck_timeout: " ++ optionText (settings.checkLimit?.map Duration.text) ++
    ", template: " ++ optionText (settings.template?.map quoted) ++ " \x7d"

end Settings

end HdlModule
