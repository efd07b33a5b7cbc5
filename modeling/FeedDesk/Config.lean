import FeedDesk.Dialog.Controller
import FeedDesk.Text.Blank
import FeedDesk.Text.Quoted
import FeedDesk.Toml.Document

/-!
# Configuration

The settings of the program, read from a TOML file. Every key is optional; other keys do no harm
and are named so that they can be warned about. A file that is missing or blank leaves all settings
at their defaults.
-/
namespace FeedDesk

structure Config where
  serverUrl : String := "http://127.0.0.1:6789"
  username : Option String := none
  password : Option String := none
  requestTimeout : UInt64 := 30
  pageSize : UInt64 := 100
  transmitDelay : UInt64 := 500
  zone : Int32 := 0
  deriving DecidableEq, Repr, Inhabited

/-- Why the settings cannot be read. -/
inductive ConfigError where
  | unreadable
  | malformed
  | tooLarge (size : Nat)
  deriving DecidableEq, Repr

namespace ConfigError

def sizeLimit : Nat := 1048576

def unreadableDetail : String := "the file cannot be read as text"

def malformedDetail : String := "not the expected document"

def message : ConfigError → String
  | unreadable => "Cannot read config file: " ++ unreadableDetail
  | malformed => "Invalid TOML in config file: " ++ malformedDetail
  | tooLarge size =>
    "Config file too large: " ++ Nat.repr size ++ " bytes (limit " ++ Nat.repr sizeLimit ++ ")"

def causes : ConfigError → List String
  | unreadable => [unreadableDetail]
  | malformed => [malformedDetail]
  | tooLarge _ => []

end ConfigError

namespace Toml.Value

/-- The content of a text. A point in time counts as the text it is written with. -/
def asText? : Value → Option String
  | .text s => some s
  | .moment m => some m.text
  | _ => none

def asUInt64? : Value → Option UInt64
  | .integer i => if 0 ≤ i then some (UInt64.ofNat i.toNat) else none
  | _ => none

def asInt32? : Value → Option Int32
  | .integer i => if -Int.pow 2 31 ≤ i ∧ i < Int.pow 2 31 then some (Int32.ofInt i) else none
  | _ => none

end Toml.Value

namespace Config

def knownKeys : List String :=
  ["server_url", "username", "password", "request_timeout_secs", "page_size", "transmit_delay_ms",
    "time_zone_correction_hours"]

def unknownKeys (t : Toml.Table) : List String :=
  ((t.map Prod.fst).filter (!knownKeys.contains ·)).mergeSort fun a b => decide (a ≤ b)

/-- The value of a key, or a default if the key is missing. A value of another kind is refused. -/
def setting {α : Type} (t : Toml.Table) (key : String) (default : α)
    (read : Toml.Value → Option α) : Option α :=
  match t.lookup key with
  | none => some default
  | some v => read v

def ofTable? (t : Toml.Table) : Option Config := do
  let d : Config := {}
  pure {
    serverUrl := ← setting t "server_url" d.serverUrl Toml.Value.asText?
    username := ← setting t "username" d.username fun v => v.asText?.map some
    password := ← setting t "password" d.password fun v => v.asText?.map some
    requestTimeout := ← setting t "request_timeout_secs" d.requestTimeout Toml.Value.asUInt64?
    pageSize := ← setting t "page_size" d.pageSize Toml.Value.asUInt64?
    transmitDelay := ← setting t "transmit_delay_ms" d.transmitDelay Toml.Value.asUInt64?
    zone := ← setting t "time_zone_correction_hours" d.zone Toml.Value.asInt32? }

/-- A password from outside replaces the one in the file unless it is empty. -/
def withPassword (c : Config) : Option String → Config
  | some p => if p = "" then c else { c with password := some p }
  | none => c

/-- The description of the settings, without the password. -/
def description (c : Config) : String :=
  Text.describe "Config" [
    ("server_url", Text.quoted c.serverUrl),
    ("username", Text.quotedOption c.username),
    ("password", Text.quotedOption (c.password.map fun _ => Text.redacted)),
    ("request_timeout_secs", Nat.repr c.requestTimeout.toNat),
    ("page_size", Nat.repr c.pageSize.toNat),
    ("transmit_delay_ms", Nat.repr c.transmitDelay.toNat),
    ("time_zone_correction_hours", Int.repr c.zone.toInt)]

/-- What a view takes from the settings. A page has at least one row. -/
def dialogSettings (c : Config) : DialogSettings where
  pageSize := max 1 c.pageSize.toNat
  transmitDelay := c.transmitDelay.toNat
  zone := c.zone

end Config

inductive ConfigFile where
  | missing
  | unreadable
  | found (content : ByteArray)

/-- Settings that were read, and the keys that are warned about. -/
structure LoadedConfig where
  config : Config := {}
  unknownKeys : List String := []
  deriving DecidableEq, Repr

namespace LoadedConfig

def ofText (text : String) : Except ConfigError LoadedConfig :=
  if Text.isAllBlank text then .ok {}
  else
    match Toml.parse? text with
    | none => .error .malformed
    | some t =>
      match Config.ofTable? t with
      | none => .error .malformed
      | some config => .ok ⟨config, Config.unknownKeys t⟩

/-- The keys of a text that are warned about. This is done before the settings are taken from the
table, and so whether or not they can be. -/
def warnedKeys (text : String) : List String :=
  if Text.isAllBlank text then []
  else
    match Toml.parse? text with
    | none => []
    | some t => Config.unknownKeys t

def ofFile : ConfigFile → Except ConfigError LoadedConfig
  | .missing => .ok {}
  | .unreadable => .error .unreadable
  | .found content =>
    if ConfigError.sizeLimit < content.size then .error (.tooLarge content.size)
    else
      match String.fromUTF8? content with
      | none => .error .unreadable
      | some text => ofText text

end LoadedConfig

end FeedDesk
