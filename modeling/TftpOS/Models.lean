import TftpOS.Python.Value

/-!
# Core data models

The dataclasses of `tftpos/models.py` that the matcher, the plugins and the engine pass
around. A profile read from a TOML file is not type-checked by the sources, so the fields that
`load_profile` copies from the file hold TOML values.
-/

namespace TftpOS

/-- `BootFirmware`. -/
inductive BootFirmware where
  | bios
  | uefi
  deriving DecidableEq

/-- `ProvisionProfile`. -/
structure ProvisionProfile where
  name : Toml
  osFamily : Toml
  osVersion : Toml
  vendor : Toml := .str ""
  arch : Toml := .str "x86_64"
  firmware : BootFirmware := .bios
  installUrl : Toml := .str ""
  autoinstallUrl : Toml := .str ""
  network : Toml := .dict []
  disk : Toml := .dict []
  packages : Toml := .list []
  postScripts : Toml := .list []
  extra : Toml := .dict []
  ipxeCommands : Toml := .list []
  dhcpOptions : Toml := .dict []

/-- `HostRule`: what a rule selects, and the criteria under which it does. -/
structure HostRule where
  profile : String
  osFamily : String
  osVersion : String
  vendor : String := ""
  priority : ℤ := 100
  mac : Option String := none
  macPrefix : Option String := none
  hostnamePattern : Option String := none
  subnet : Option String := none
  serial : Option String := none
  group : Option String := none
  arch : Option String := none
  deriving DecidableEq

/-- The keyword arguments of a match: what the request says about the host. -/
structure Request where
  mac : Option String := none
  hostname : Option String := none
  subnet : Option String := none
  serial : Option String := none
  groups : Option (List String) := none
  arch : Option String := none

end TftpOS
