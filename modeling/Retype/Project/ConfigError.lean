import Retype.Json.Literal
import Retype.Project.Trouble

/-!
# Refused settings

Why a settings file, or what a command is asked to do with a project, is refused.
-/

set_option autoImplicit false

namespace Retype

inductive ConfigError where
  | fileMissing (path : String)
  | unreadable (path : String) (why : Trouble)
  | notAnObject (path : String)
  | unknownKey (file key : String)
  | placement (value : Json)
  | unknownIndicator (name : String)
  | thresholdCount (name : String)
  | cutPoints
  | projectMissing (root : String)
  | sourcesMissing (root : String) (dirs : List String)
  | outside (file root : String)
  | noFile (file : String)
  | notRead (file : String)
  deriving Repr, Inhabited

namespace ConfigError

def message : ConfigError → String
  | fileMissing path => "Config file not found: " ++ path
  | unreadable path why => "Cannot read " ++ path ++ ": " ++ why.message
  | notAnObject path => path ++ " must contain a JSON object"
  | unknownKey file key => "Unknown config key in " ++ file ++ ": " ++ key
  | placement value => "interface_mode must be 'inline' or 'external', got " ++ value.literal
  | unknownIndicator name => "Unknown complexity indicator: " ++ name
  | thresholdCount name => "Indicator " ++ name ++ " needs exactly three thresholds"
  | cutPoints => "tier_cut_points must be three ascending numbers"
  | projectMissing root => "Project directory not found: " ++ root
  | sourcesMissing root dirs =>
    "No source directory found under " ++ root ++ ": " ++ String.intercalate ", " dirs
  | outside file root => file ++ " is outside the project root " ++ root
  | noFile file => "File not found: " ++ file
  | notRead file => "Cannot read " ++ file

end ConfigError

abbrev ConfigFailure := Failure ConfigError

end Retype
