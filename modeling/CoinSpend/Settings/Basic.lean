import CoinSpend.Event
import CoinSpend.Settings.File
import CoinSpend.Text.Character

/-!
# Settings

The network that transactions are looked up on, and the file that keeps them. They have default
values, may be given in a file, and may be overridden from the environment.
-/

namespace CoinSpend

/-- The settings of the library. Model of `Config`. -/
structure Settings where
  testnet : Bool
  storePath : String
deriving DecidableEq, Repr

/-- The values that the environment gives for settings, as far as it does. -/
structure Overrides where
  testnet : Option String
  storePath : Option String
deriving DecidableEq, Repr

namespace Settings

/-- The settings where nothing else is said. Model of `Config.default`. -/
def default : Settings := ⟨false, "tx.cache"⟩

/-- The truth value that a word stands for, in letters of either case and with white space around
it. Model of `parse_flag`. -/
def flag? (word : String) : Option Bool :=
  let word := String.ofList ((Blank.trim word.toList).map Char.toLower)
  if ["1", "true", "yes", "on"].contains word then some true
  else if ["0", "false", "no", "off"].contains word then some false
  else none

/-- The settings with the network flag overridden. Part of `override`. -/
def overrideFlag (settings : Settings) : Option String → Except Error Settings
  | none => .ok settings
  | some word =>
    match flag? word with
    | none => .error (.badFlagOverride word)
    | some testnet => .ok { settings with testnet := testnet }

/-- The settings with the store's path overridden. Part of `override`. -/
def overridePath (settings : Settings) : Option String → Except Error Settings
  | none => .ok settings
  | some path =>
    if path = "" then .error .emptyPathOverride else .ok { settings with storePath := path }

/-- Overrides the network flag and then the store's path. The first unusable value ends it; the
result is the settings afterwards, and the error if there was one. Model of
`Config.apply_overrides`. -/
def override (settings : Settings) (overrides : Overrides) : Settings × Option Error :=
  match settings.overrideFlag overrides.testnet with
  | .error e => (settings, some e)
  | .ok flagged =>
    match flagged.overridePath overrides.storePath with
    | .error e => (flagged, some e)
    | .ok done => (done, none)

/-- The default settings with overrides. An unusable value is told, and ends the overriding. Model
of `Config.new`. -/
def ofEnvironment (overrides : Overrides) : Logged Settings :=
  match default.override overrides with
  | (settings, none) => .silent settings
  | (settings, some e) => ⟨[.overrideIgnored e], settings⟩

/-- The settings with the value of a key, which must be known and have a value of its sort. -/
def assign? (settings : Settings) : String × SettingsFile.Value → Option Settings
  | ("testnet", .flag value) => some { settings with testnet := value }
  | ("tx_cache_path", .text value) => some { settings with storePath := value }
  | _ => none

/-- The settings that entries give. No key may be repeated. -/
def ofEntries? (entries : List (String × SettingsFile.Value)) : Option Settings :=
  if (entries.map Prod.fst).Nodup then entries.foldlM assign? default else none

/-- The settings of a file's content, with overrides. Model of `Config.from_toml_str`. -/
def read (text : String) (overrides : Overrides) : Except Error Settings :=
  match (SettingsFile.read text.toList).bind ofEntries? with
  | none => .error .malformedSettings
  | some settings =>
    match settings.override overrides with
    | (settings, none) => .ok settings
    | (_, some e) => .error e

/-- The settings of a file, if there is one, with overrides. Its bytes must be UTF-8. Model of
`Config.from_toml_file`. -/
def load (file : Option ByteArray) (overrides : Overrides) : Except Error Settings :=
  match file.bind String.fromUTF8? with
  | none => .error .unreadableSettings
  | some text => read text overrides

end Settings

end CoinSpend
