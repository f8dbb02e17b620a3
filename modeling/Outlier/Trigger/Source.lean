import Outlier.Trigger.Yaml

/-! # Where written conditions come from

A written condition is a JSON value, a YAML text, or a YAML file, which has to be there and to be
UTF-8 text. -/

namespace Outlier

/-- Why a source holds no written condition. -/
inductive SourceFault where
  | json (e : DecodeError)
  | yaml
  | noFile
  | notText
  deriving DecidableEq

/-- The message of a fault. -/
def SourceFault.message : SourceFault → String
  | json e => "JSON parse error: " ++ e.message
  | yaml => "YAML parse error"
  | noFile => "IO error: No such file or directory (os error 2)"
  | notText => "IO error: stream did not contain valid UTF-8"

namespace TriggerSpec

/-- The condition in a JSON value. -/
def fromJson (j : Json) : Except SourceFault TriggerSpec := (ofJson j).mapError .json

/-- The condition in a YAML text. -/
def fromYaml (text : String) : Except SourceFault TriggerSpec :=
  match ofYamlText? text with
  | some s => .ok s
  | none => .error .yaml

/-- The condition in a YAML file; there are no bytes when the file is missing. -/
def fromFile (bytes : Option ByteArray) : Except SourceFault TriggerSpec :=
  match bytes with
  | none => .error .noFile
  | some bytes => match String.fromUTF8? bytes with
    | some text => fromYaml text
    | none => .error .notText

end TriggerSpec
end Outlier
