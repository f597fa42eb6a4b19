import Workbench.Format.Ini
import Workbench.Format.PlainText
import Workbench.Format.Requirements
import Workbench.Format.SetupScript
import Workbench.Format.Toml
import Workbench.Format.Yaml
import Workbench.Json.Reader
import Workbench.Text.Utf8
set_option autoImplicit false

namespace Workbench

inductive Dialect where
  | toml | ini | yaml | json | keyValue | requirements | setupScript | text
  deriving DecidableEq, Repr

def Dialect.name : Dialect → String
  | .toml => "toml"
  | .ini => "ini"
  | .yaml => "yaml"
  | .json => "json"
  | .keyValue => "key_value"
  | .requirements => "requirements"
  | .setupScript => "setup_script"
  | .text => "text"

def Dialect.all : List Dialect :=
  [.toml, .ini, .yaml, .json, .keyValue, .requirements, .setupScript, .text]

def Dialect.ofName? (s : String) : Option Dialect := Dialect.all.find? fun d => d.name == s

inductive ReadError where
  | badUtf8 (f : Utf8.Fault)
  | empty
  | ini (e : Ini.Error)
  | json (message : String)
  | jsonNotObject
  | toml (p : Toml.Position)
  | yaml (e : Yaml.DocumentError)
  | yamlEmpty
  | yamlNotMapping
  | unreadable (reason : String)
  | given (reason : String)
  deriving DecidableEq, Repr

def ReadError.message : ReadError → String
  | .badUtf8 f => "invalid UTF-8: " ++ f.message
  | .empty => "empty file"
  | .ini e => e.message
  | .json m => "JSON parse error: " ++ m
  | .jsonNotObject => "JSON document is not an object"
  | .toml p => p.message
  | .yaml e => "YAML parse error: " ++ String.ofList (Text.trim (Text.firstLine e.message.toList))
  | .yamlEmpty => "YAML document is empty"
  | .yamlNotMapping => "YAML document is not a mapping"
  | .unreadable reason => "read failed: " ++ reason
  | .given reason => reason

namespace Dialect

def readJson (text : List Char) : Except ReadError Json :=
  match Json.parseChars text with
  | .error f => .error (.json (f.message text))
  | .ok v => if v.isObject then .ok v else .error .jsonNotObject

def readYaml (text : List Char) : Except ReadError Json :=
  match Yaml.parse text with
  | .error e => .error (.yaml e)
  | .ok .null => .error .yamlEmpty
  | .ok v => if v.isObject then .ok v else .error .yamlNotMapping

def parse (d : Dialect) (text : List Char) : Except ReadError Json :=
  match d with
  | .toml => (Toml.parse text).mapError .toml
  | .ini => (Ini.parse text).mapError .ini
  | .yaml => readYaml text
  | .json => readJson text
  | .keyValue => (Ini.parsePlain text).mapError .ini
  | .requirements => .ok (Requirements.parse text)
  | .setupScript => .ok (SetupScript.parse text)
  | .text => .ok (PlainText.measure text)

def dropMark : List Char → List Char
  | '\ufeff' :: r => r
  | r => r

/-- Decodes and reads bytes. Plain text is decoded lossily; for every other dialect a byte order
mark is dropped, and invalid UTF-8 and blank content are errors. -/
def parseBytes (d : Dialect) (bytes : List UInt8) : Except ReadError Json :=
  if d = .text then .ok (PlainText.measure (Utf8.decodeLossy bytes))
  else
    match Utf8.decode bytes with
    | .error f => .error (.badUtf8 f)
    | .ok decoded =>
      let body := dropMark decoded
      if Text.allBlank body then .error .empty else d.parse body

end Dialect
end Workbench
