import WorkerHost.Files.Path
import WorkerHost.Json.Reader
import WorkerHost.Source.Fetch
import WorkerHost.Toml.Reader
import WorkerHost.Value.OfJson
/-!
The configuration of a worker: a map, read from JSON or TOML text or given as a value.
-/

namespace WorkerHost

open Json

/-! ## Formats -/

/-- A format of configuration text. -/
inductive ConfigFormat where
  | json
  | toml
  deriving DecidableEq

namespace ConfigFormat

def text : ConfigFormat → String
  | json => "json"
  | toml => "toml"

def ofText? : String → Option ConfigFormat
  | "json" => some json
  | "toml" => some toml
  | _ => none

/-- The format that the extension of a URL or path says; a query or fragment is not part of it. -/
def ofUrl? (url : String) : Option ConfigFormat := do
  ofText? (← Path.extension? (String.ofList (url.toList.takeWhile fun c => c != '?' && c != '#')))

/-- The format that a text looks like: JSON if it starts like an object. -/
def detect (text : String) : ConfigFormat :=
  if (Text.trimStart text.toList).head? == some '\x7b' then json else toml

end ConfigFormat

/-! ## Configurations -/

/-- Why a configuration or the settings can not be used. -/
inductive ConfigError where
  | parse (format : ConfigFormat) (url : Option String) (detail : String)
  | settings
  deriving DecidableEq

def ConfigError.message : ConfigError → String
  | parse format url detail =>
    "Invalid " ++ format.text ++ " config" ++ (url.map (" at " ++ ·)).getD "" ++ ": " ++ detail
  | settings => "Invalid settings"

/-- The document of a configuration text, or what is wrong with the text. -/
def readConfig (format : ConfigFormat) (text : String) : Except String Document := do
  let doc ←
    match format with
    | .json =>
      let bytes := Text.Utf8.ofString text
      (Document.read bytes).mapError (·.message bytes)
    | .toml =>
      match Toml.read text.toList with
      | some doc => (Toml.settleRoot doc).mapError (·.message)
      | none => throw "not a TOML document"
  match doc with
  | .obj _ => return doc
  | _ => throw "expected a table at the top level"

/-- The configuration that a text gives, a tree of fresh objects. -/
def parseConfig (h : Heap) (text : String) (format : ConfigFormat) (url : Option String) :
    Except ConfigError (Value × Heap) :=
  match readConfig format text with
  | .ok doc => .ok (h.ofJson doc)
  | .error detail => .error (.parse format url detail)

/-- Where a configuration comes from. -/
inductive ConfigSource where
  | inline (text : String) (format : Option ConfigFormat)
  | url (url : String)
  | value (v : Value)

/-- Why a configuration can not be had. -/
inductive ConfigFailure where
  | fetch (e : FetchError)
  | config (e : ConfigError)

namespace ConfigSource

/-- The configuration that a source gives. The format of a text is the one asked for, else the one
that its URL says, else the one it looks like. -/
def resolve (f : FileFetch) (h : Heap) : ConfigSource → Except ConfigFailure (Value × Heap)
  | value v => .ok (v, h)
  | inline text format =>
    (parseConfig h text (format.getD (.detect text)) none).mapError .config
  | url u => do
    let text ← (f.fetch u).mapError .fetch
    (parseConfig h text ((ConfigFormat.ofUrl? u).getD (.detect text)) (some u)).mapError .config

end ConfigSource
end WorkerHost
