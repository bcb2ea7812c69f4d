import TftpOS.Models
import TftpOS.Python.Json
import TftpOS.Python.Os

/-!
# Configuration

The paths of `TftpOSConfig` and `load_profile` of `tftpos/config.py`. Reading TOML, and
printing the values it reads, is what `TomlLib` stands for.
-/

namespace TftpOS

/-- Why a TOML file does not load. -/
inductive TomlError where
  /-- A `TOMLDecodeError`. -/
  | malformed (msg : String)
  /-- A `UnicodeDecodeError`. -/
  | encoding (msg : String)

/-- The `tomllib` module, and the text of its values. -/
structure TomlLib where
  /-- `tomllib.load`. -/
  loads : Bytes → Except TomlError (List (String × Toml))
  /-- `str(v)`. -/
  text : Toml → String
  /-- `repr(v)`. -/
  repr : Toml → String

/-- The paths of a `TftpOSConfig`. -/
structure TftpOSConfig where
  tftpRoot : PyPath := ⟨true, [.name "srv", .name "tftp"]⟩
  dataDir : PyPath := ⟨true, [.name "etc", .name "tftpos"]⟩

/-- `v.lower()`. -/
def lowerValue (py : StrLib) : Toml → Except PyExc String
  | .str s => .ok (py.lower s)
  | _ => .error ⟨.attributeError, "no attribute 'lower'"⟩

/-- `load_profile`. -/
def loadProfile (py : StrLib) (toml : TomlLib) (cwd : Lib.Loc String) (fs : FS) (path : PyPath) :
    Except PyExc ProvisionProfile := do
  let bytes ← readBytes cwd fs path
  let data : Toml ←
    match toml.loads bytes with
    | .ok kvs => .ok (.dict kvs)
    | .error (.malformed msg) =>
      .error ⟨.valueError, "malformed profile file " ++ pathText path ++ ": " ++ msg⟩
    | .error (.encoding msg) => .error ⟨.valueError, msg⟩
  let profile ← data.getItem "profile" data
  let firmwareStr ← lowerValue py (← profile.getItem "firmware" (.str "bios"))
  let firmware := if firmwareStr = "uefi" then BootFirmware.uefi else BootFirmware.bios
  return {
    name := ← profile.item "name"
    osFamily := ← profile.item "os_family"
    osVersion := ← profile.item "os_version"
    vendor := ← profile.getItem "vendor" (.str "")
    arch := ← profile.getItem "arch" (.str "x86_64")
    firmware
    installUrl := ← profile.getItem "install_url" (.str "")
    autoinstallUrl := ← profile.getItem "autoinstall_url" (.str "")
    network := ← profile.getItem "network" (.dict [])
    disk := ← profile.getItem "disk" (.dict [])
    packages := ← profile.getItem "packages" (.list [])
    postScripts := ← profile.getItem "post_scripts" (.list [])
    extra := ← profile.getItem "extra" (.dict [])
    ipxeCommands := ← profile.getItem "ipxe_commands" (.list [])
    dhcpOptions := ← profile.getItem "dhcp_options" (.dict []) }

end TftpOS
