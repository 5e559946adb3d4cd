import Boot2Deb.Config.Layers
import Boot2Deb.Core.Values
import Boot2Deb.Lib.ChainWalk

/-!
# Devices and what they extend (`core/src/loader.rs`)

`device_with_lineage` walks from a device along `extends`, merges the levels it finds from the
base-most on, and puts the entries of the accumulated arrays of all levels behind one another.
-/

namespace Boot2Deb.Config
open Rust Lib

/-! ### Accumulated arrays -/

/-- `ACCUMULATED`. -/
def ACCUMULATED : List Str :=
  ["caveats".toList, "expect".toList, "nonfree_firmware_packages".toList, "packages".toList,
    "exclude".toList, "initramfs.modules".toList]

/-- The entries of a level that are not there yet, behind the others. -/
def pushNew (entries : List Toml) : List Toml → List Toml
  | [] => entries
  | e :: level =>
    if entries.any fun held => held.same e then pushNew entries level
    else pushNew (entries ++ [e]) level

/-- The loop of `accumulated_arrays` over the levels, the base-most first; none where no level has
the key. -/
def accumulate (key : Str) :
    Option (List Toml) → List (Toml × Path) → Outcome ConfigError (Option (List Toml))
  | entries, [] => .ok entries
  | entries, (value, path) :: levels =>
    match value.atKey key with
    | none => accumulate key entries levels
    | some (.array level) => accumulate key (some (pushNew (entries.getD []) level)) levels
    | some other => .err (.invalidDeviceField path key other.typeStr)

/-- `accumulated_arrays` of a chain, the device first. -/
def accumulatedArrays (chain : List (Toml × Path)) :
    Outcome ConfigError (List (Str × List Toml)) := do
  let found ← Outcome.mapM (fun key => do
    let entries ← accumulate key none chain.reverse
    .ok (entries.map fun entries => (key, entries))) ACCUMULATED
  .ok found.reduceOption

/-! ### The walk -/

/-- `validate_device_name`. -/
def validateDeviceName (name : Str) : Outcome ConfigError Unit :=
  (Core.Hostname.check name).mapErr fun why => .invalidDeviceName name why

def EXTENDS : Str := "extends".toList

/-- The device a merged level names as its parent. -/
def parentOf (device : Str) (value : Toml) : Outcome ConfigError (Option Str) :=
  match value.get EXTENDS with
  | none => .ok none
  | some (.string p) => .ok (some p)
  | some other => .err (.invalidDeviceExtends device other.typeStr)

def deviceRel (name : Str) : Str := "devices/".toList ++ name ++ ".toml".toList

def cycleError (name : Str) (lineage : List Str) : ConfigError :=
  .deviceExtendsCycle name (join " -> ".toList lineage)

namespace ConfigRoot

/-- The loop of `device_with_lineage`: the names seen, the device first, and their own values,
`extends` kept in the device's alone. None where the fuel runs out. -/
def walkExtends (root : ConfigRoot) (parse : Str → Option Document) (name : Str) :
    ℕ → List Str → List (Toml × Path) → Str → Lookup (Option (List Str × List (Toml × Path)))
  | 0, _, _, _ => pure none
  | fuel + 1, lineage, chain, current => do
    Recorded.lift (validateDeviceName current)
    if current ∈ lineage then Recorded.lift (.err (cycleError name (lineage ++ [current])))
    else
      let (value, path) ← root.mergeValue parse "device" current (deviceRel current)
      let parent ← Recorded.lift (parentOf current value)
      let value := if chain.isEmpty then value else value.remove EXTENDS
      match parent with
      | none => pure (some (lineage ++ [current], chain ++ [(value, path)]))
      | some p => root.walkExtends parse name fuel (lineage ++ [current]) (chain ++ [(value, path)]) p

/-- The merge of the levels, the device first, and the path errors are reported at. -/
def mergeChain (chain : List (Toml × Path)) : Outcome ConfigError (Toml × Path) :=
  match chain.reverse with
  | [] => .panic
  | base :: levels => .ok (levels.foldl (fun merged level => (merged.1.merge level.1, level.2)) base)

/-- The accumulated arrays, put over a merged device. -/
def setKeys (accumulated : List (Str × List Toml)) : Toml → Toml
  | .table rows =>
    .table (accumulated.foldl (fun rows (key, entries) => Toml.setKey rows key entries) rows)
  | other => other

/-- `device_with_lineage`: the device of a merged table (`try_into`), and its lineage, the base-most
first. None where the fuel runs out. -/
def deviceWithLineage {Device : Type} (root : ConfigRoot) (parse : Str → Option Document)
    (tryInto : Toml → Option Device) (fuel : ℕ) (name : Str) :
    Lookup (Option (Device × List Str)) := do
  match ← root.walkExtends parse name fuel [] [] name with
  | none => pure none
  | some (lineage, chain) =>
    let accumulated ← Recorded.lift (accumulatedArrays chain)
    let (merged, topPath) ← Recorded.lift (mergeChain chain)
    let device ← Recorded.lift (Outcome.okOr (tryInto (setKeys accumulated merged)) (.parse topPath))
    pure (some (device, lineage.reverse))

end ConfigRoot

end Boot2Deb.Config
