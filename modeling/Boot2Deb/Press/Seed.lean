import Mathlib
import Boot2Deb.Lib.Shell

/-!
# The seed file (`engine/src/press/seed.rs`, `first-boot.d/10-seed`)

The tool reads a seed with `parse`, the board with a loop of its first-boot hook. Both take up
`key=value` lines; they differ in what they trim and in whether an empty value counts.
-/

namespace Boot2Deb.Press
open Rust

/-- `SeedKeys`. -/
structure SeedKeys where
  hostname : Option Str
  authorizedKeys : List Str
  wifiSsid : Option Str
  wifiPsk : Option Str
  staticIp : Option Str
deriving DecidableEq

namespace SeedKeys

def empty : SeedKeys := ⟨none, [], none, none, none⟩

/-- One turn of the loop of `parse`. -/
def parseLine (keys : SeedKeys) (line : Str) : SeedKeys :=
  let line := trim line
  if line.isEmpty || line.head? = some '#' then keys
  else match stripPrefix line "hostname=".toList with
    | some v => if (trim v).isEmpty then keys else { keys with hostname := some (trim v) }
    | none => match stripPrefix line "authorized_key=".toList with
      | some v =>
        if (trim v).isEmpty then keys
        else { keys with authorizedKeys := keys.authorizedKeys ++ [trim v] }
      | none => match stripPrefix line "wifi_ssid=".toList with
        | some v => if (trim v).isEmpty then keys else { keys with wifiSsid := some (trim v) }
        | none => match stripPrefix line "wifi_psk=".toList with
          | some v => if (trim v).isEmpty then keys else { keys with wifiPsk := some (trim v) }
          | none => match stripPrefix line "static_ip=".toList with
            | some v => if (trim v).isEmpty then keys else { keys with staticIp := some (trim v) }
            | none => keys

/-- `parse`. -/
def parse (text : Str) : SeedKeys := (lines text).foldl parseLine empty

end SeedKeys

/-- The variables of the hook. -/
structure SeedVars where
  hostname : Str
  keys : Str
  wifiSsid : Str
  wifiPsk : Str
  staticIp : Str

namespace SeedVars

def unset : SeedVars := ⟨[], [], [], [], []⟩

/-- The line a turn of the loop works on: blanks around it gone, then one carriage return. -/
def hookLine (raw : Str) : Str := Shell.dropSuffix (Shell.trimBlanks (Shell.lineText raw)) ['\r']

/-- The `case` of the loop. -/
def assign (vars : SeedVars) (line : Str) : SeedVars :=
  if line.isEmpty || line.head? = some '#' then vars
  else match stripPrefix line "hostname=".toList with
    | some v => { vars with hostname := v }
    | none => match stripPrefix line "authorized_key=".toList with
      | some v => { vars with keys := vars.keys ++ v ++ ['\n'] }
      | none => match stripPrefix line "wifi_ssid=".toList with
        | some v => { vars with wifiSsid := v }
        | none => match stripPrefix line "wifi_psk=".toList with
          | some v => { vars with wifiPsk := v }
          | none => match stripPrefix line "static_ip=".toList with
            | some v => { vars with staticIp := v }
            | none => vars

/-- The loop over the seed. -/
def read (text : Str) : SeedVars :=
  ((Shell.readLines Shell.trimBlanks text).map (Shell.dropSuffix · ['\r'])).foldl assign unset

/-- What the hook applies: an empty variable is nothing, the keys are read line by line, and the
blanks of an address are deleted. -/
def applied (vars : SeedVars) : SeedKeys where
  hostname := Shell.nonempty vars.hostname
  authorizedKeys := (Shell.readLines id vars.keys).filter (!·.isEmpty)
  wifiSsid := Shell.nonempty vars.wifiSsid
  wifiPsk := Shell.nonempty vars.wifiPsk
  staticIp := Shell.nonempty (Shell.deleteBlanks vars.staticIp)

end SeedVars

end Boot2Deb.Press
