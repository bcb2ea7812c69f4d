import TftpOS.Config
import TftpOS.Lib.Rounding
import TftpOS.RateLimit

/-!
# Loading the configuration

`load_config` of `tftpos/config.py`, from the bytes of the file to the `TftpOSConfig`, with the
dataclasses it builds. The `tomllib` module, what `int` and `float` read from a text, and
`urlparse` are the fields of `ConfigLib`; `int` and `float` of any other value, `Path`, and the
check of `WebhookConfig` are defined here.

A field that the loader copies without a conversion holds the TOML value it found, of whatever
type. `Raised` is an exception: one of the built-in classes, or the `ConfigError` of
`tftpos/errors.py`.
-/

namespace TftpOS

open Lib

/-- The TOML values that JSON does not have. -/
inductive TomlLeaf where
  | moment (d : DateTime)
  | infinite (negative : Bool)
  | nan

/-- A value of a configuration file. -/
abbrev Setting := Value TomlLeaf

/-- Values of the type `float`. -/
inductive PyFloat where
  | finite (q : ℚ)
  | infinite (negative : Bool)
  | nan

/-- `ConfigError`. -/
structure ConfigError where
  message : String
  suggestion : Option String := none

/-- An exception that may leave `load_config`. -/
inductive Raised where
  | builtin (e : PyExc)
  /-- An `OverflowError`. -/
  | overflow (msg : String)
  | config (e : ConfigError)

/-- What the loader uses of the standard library. -/
structure ConfigLib where
  /-- `tomllib.load`. -/
  loads : Bytes → Except TomlError (List (String × Setting))
  /-- `repr(v)`. -/
  repr : Setting → String
  /-- `int(text)`; `none` is a `ValueError`. -/
  intOfText : String → Option ℤ
  /-- `float(text)`; `none` is a `ValueError`. -/
  floatOfText : String → Option PyFloat
  /-- The scheme and the network location `urlparse` finds; `none` is a `ValueError`. -/
  urlparse : String → Option (String × String)

namespace Loading

/-! ### The dataclasses -/

/-- `RateLimitSettings`. -/
structure RateLimitSettings where
  enabled : Setting := .bool false
  tftpRequestsPerMinute : PyFloat := .finite 300
  tftpBurst : ℤ := 50
  apiRequestsPerMinute : PyFloat := .finite 60
  apiBurst : ℤ := 20
  authRequestsPerMinute : PyFloat := .finite 10
  authBurst : ℤ := 5

/-- `LoggingConfig`. -/
structure LoggingConfig where
  level : Setting := .str "INFO"
  jsonFormat : Setting := .bool false
  logFile : Option PyPath := none
  maxBytes : ℤ := 10485760
  backupCount : ℤ := 5
  syslogEnabled : Setting := .bool false
  syslogAddress : Setting := .str "/dev/log"
  journaldEnabled : Setting := .bool false

/-- `AuditConfig`. -/
structure AuditConfig where
  enabled : Setting := .bool true
  logFile : Option PyPath := none
  maxBytes : ℤ := 52428800
  backupCount : ℤ := 10
  logToStdout : Setting := .bool false
  bufferSize : ℤ := 1000
  syslogEnabled : Setting := .bool false
  syslogAddress : Setting := .str "/dev/log"

/-- `DatabaseConfig`. -/
structure DatabaseConfig where
  backend : Setting := .str "sqlite"
  url : Setting := .str "sqlite:///tftpos.db"

/-- `WebhookConfig`. -/
structure WebhookConfig where
  url : Setting
  events : Setting := .list []
  secret : Setting := .str ""
  retryCount : ℤ := 3
  timeout : PyFloat := .finite 10

/-- `TftpOSConfig`, with the fields it has besides those two paths. -/
structure TftpOSConfig extends TftpOS.TftpOSConfig where
  serverHost : Setting := .str "0.0.0.0"
  serverPort : Setting := .int 8443
  tlsCert : Option PyPath := none
  tlsKey : Option PyPath := none
  tlsAutoGenerate : Setting := .bool true
  distroRoot : PyPath := ⟨true, [.name "srv", .name "tftpos", .name "distros"]⟩
  authEnabled : Setting := .bool false
  serviceName : Setting := .str "tftpos"
  enableDiscovery : Setting := .bool false
  rateLimit : RateLimitSettings := {}
  logging : LoggingConfig := {}
  audit : AuditConfig := {}
  database : DatabaseConfig := {}
  webhooks : List WebhookConfig := []

/-! ### Conversions -/

variable (lib : ConfigLib)

/-- `sys.float_info.mant_dig`: the number of binary digits of a float. -/
@[irreducible]
def mantDig : ℕ := 53

/-- `sys.float_info.max_exp`: floats stay below this power of two. -/
@[irreducible]
def maxExp : ℕ := 1024

/-- `float(n)`: the nearest float, if it is in range. -/
def floatOfInt (n : ℤ) : Option ℚ :=
  let magnitude := roundBits mantDig n.natAbs
  if magnitude < 2 ^ maxExp then some (if n < 0 then -magnitude else magnitude) else none

/-- A raised `ValueError`. -/
def valueError (msg : String) : Raised := .builtin ⟨.valueError, msg⟩

/-- A raised `TypeError`. -/
def typeError (msg : String) : Raised := .builtin ⟨.typeError, msg⟩

/-- `int(v)`. -/
def toInt : Setting → Except Raised ℤ
  | .bool b => .ok (if b then 1 else 0)
  | .int n => .ok n
  | .float q => .ok (RateLimiter.int q)
  | .str s =>
    match lib.intOfText s with
    | some n => .ok n
    | none =>
      .error (valueError ("invalid literal for int() with base 10: " ++ lib.repr (.str s)))
  | .leaf (.infinite _) => .error (.overflow "cannot convert float infinity to integer")
  | .leaf .nan => .error (valueError "cannot convert float NaN to integer")
  | _ => .error (typeError "int() argument must be a string or a real number")

/-- `float(v)`. -/
def toFloat : Setting → Except Raised PyFloat
  | .bool b => .ok (.finite (if b then 1 else 0))
  | .int n =>
    match floatOfInt n with
    | some q => .ok (.finite q)
    | none => .error (.overflow "int too large to convert to float")
  | .float q => .ok (.finite q)
  | .str s =>
    match lib.floatOfText s with
    | some x => .ok x
    | none => .error (valueError ("could not convert string to float: " ++ lib.repr (.str s)))
  | .leaf (.infinite negative) => .ok (.infinite negative)
  | .leaf .nan => .ok .nan
  | _ => .error (typeError "float() argument must be a string or a real number")

/-- `Path(v)`. -/
def toPath : Setting → Except Raised PyPath
  | .str s => .ok (parsePath s)
  | _ => .error (typeError "expected str, bytes or os.PathLike object")

/-- `Path(v) if v else None`. -/
def toOptionalPath (v : Setting) : Except Raised (Option PyPath) :=
  if v.truthy then (toPath v).map some else .ok none

/-- `section.get(key, default)`. -/
def get (table : Setting) (key : String) (default : Setting) : Except Raised Setting :=
  (table.getItem key default).mapError .builtin

/-- `urlparse(url).scheme`. A value that is not a text is taken for bytes. -/
def urlScheme : Setting → Except Raised String
  | .str s =>
    match lib.urlparse s with
    | some (scheme, _) => .ok scheme
    | none => .error (valueError "Invalid URL")
  | v =>
    if v.truthy then .error (.builtin ⟨.attributeError, "no attribute 'decode'"⟩)
    -- bytes differ from every text, so the scheme found is none of those allowed
    else .ok ""

/-! ### The sections -/

/-- The settings of `[rate_limit]`. -/
def rateLimitSettings (rl : Setting) : Except Raised RateLimitSettings := do
  return {
    enabled := ← get rl "enabled" (.bool false)
    tftpRequestsPerMinute := ← toFloat lib (← get rl "tftp_requests_per_minute" (.int 300))
    tftpBurst := ← toInt lib (← get rl "tftp_burst" (.int 50))
    apiRequestsPerMinute := ← toFloat lib (← get rl "api_requests_per_minute" (.int 60))
    apiBurst := ← toInt lib (← get rl "api_burst" (.int 20))
    authRequestsPerMinute := ← toFloat lib (← get rl "auth_requests_per_minute" (.int 10))
    authBurst := ← toInt lib (← get rl "auth_burst" (.int 5)) }

/-- The settings of `[logging]`. -/
def loggingConfig (log : Setting) : Except Raised LoggingConfig := do
  let logFileRaw ← get log "log_file" .null
  return {
    level := ← get log "level" (.str "INFO")
    jsonFormat := ← get log "json_format" (.bool false)
    logFile := ← toOptionalPath logFileRaw
    maxBytes := ← toInt lib (← get log "max_bytes" (.int 10485760))
    backupCount := ← toInt lib (← get log "backup_count" (.int 5))
    syslogEnabled := ← get log "syslog_enabled" (.bool false)
    syslogAddress := ← get log "syslog_address" (.str "/dev/log")
    journaldEnabled := ← get log "journald_enabled" (.bool false) }

/-- The settings of `[audit]`. -/
def auditConfig (auditData : Setting) : Except Raised AuditConfig := do
  let auditLogFileRaw ← get auditData "log_file" .null
  return {
    enabled := ← get auditData "enabled" (.bool true)
    logFile := ← toOptionalPath auditLogFileRaw
    maxBytes := ← toInt lib (← get auditData "max_bytes" (.int 52428800))
    backupCount := ← toInt lib (← get auditData "backup_count" (.int 10))
    logToStdout := ← get auditData "log_to_stdout" (.bool false)
    bufferSize := ← toInt lib (← get auditData "buffer_size" (.int 1000))
    syslogEnabled := ← get auditData "syslog_enabled" (.bool false)
    syslogAddress := ← get auditData "syslog_address" (.str "/dev/log") }

/-- The settings of `[database]`. -/
def databaseConfig (dbSection : Setting) : Except Raised DatabaseConfig := do
  return {
    backend := ← get dbSection "backend" (.str "sqlite")
    url := ← get dbSection "url" (.str "sqlite:///tftpos.db") }

/-- `WebhookConfig.__post_init__`. -/
def postInit (url : Setting) : Except Raised Unit := do
  let scheme ← urlScheme lib url
  if scheme = "http" ∨ scheme = "https" then return ()
  else throw (valueError ("webhook url must use http or https: " ++ lib.repr url))

/-- The settings of one entry of `[[webhooks]]`. -/
def webhookConfig (wh : Setting) : Except Raised WebhookConfig := do
  let url ← (wh.item "url").mapError .builtin
  let webhook : WebhookConfig := {
    url
    events := ← get wh "events" (.list [])
    secret := ← get wh "secret" (.str "")
    retryCount := ← toInt lib (← get wh "retry_count" (.int 3))
    timeout := ← toFloat lib (← get wh "timeout" (.float 10)) }
  postInit lib url
  return webhook

/-- The loop over `[[webhooks]]`. -/
def webhookConfigs (webhooksData : Setting) : Except Raised (List WebhookConfig) := do
  let entries ← webhooksData.iter.mapError .builtin
  entries.mapM (webhookConfig lib)

/-- `tls_section.get(key) or server.get(server_key)`. -/
def tlsSetting (tlsSection server : Setting) (key serverKey : String) : Except Raised Setting := do
  let v ← get tlsSection key .null
  if v.truthy then return v else get server serverKey .null

/-- `load_config`, once the file is parsed. -/
def loadData (data : Setting) : Except Raised TftpOSConfig := do
  let server ← get data "server" (.dict [])
  let paths ← get data "paths" (.dict [])
  let auth ← get data "auth" (.dict [])
  let discovery ← get data "discovery" (.dict [])
  let rl ← get data "rate_limit" (.dict [])
  let log ← get data "logging" (.dict [])
  let auditData ← get data "audit" (.dict [])
  let tlsSection ← get data "tls" (.dict [])
  let dbSection ← get data "database" (.dict [])
  let tlsCert ← tlsSetting tlsSection server "cert" "tls_cert"
  let tlsKey ← tlsSetting tlsSection server "key" "tls_key"
  let tlsAutoGenerate ← get tlsSection "auto_generate" (.bool true)
  let rateLimit ← rateLimitSettings lib rl
  let logging ← loggingConfig lib log
  let audit ← auditConfig lib auditData
  let database ← databaseConfig dbSection
  let webhooks ← webhookConfigs lib (← get data "webhooks" (.list []))
  return {
    serverHost := ← get server "host" (.str "0.0.0.0")
    serverPort := ← get server "port" (.int 8443)
    tlsCert := ← toOptionalPath tlsCert
    tlsKey := ← toOptionalPath tlsKey
    tlsAutoGenerate
    tftpRoot := ← toPath (← get paths "tftp_root" (.str "/srv/tftp"))
    distroRoot := ← toPath (← get paths "distro_root" (.str "/srv/tftpos/distros"))
    dataDir := ← toPath (← get paths "data_dir" (.str "/etc/tftpos"))
    authEnabled := ← get auth "enabled" (.bool false)
    serviceName := ← get discovery "service_name" (.str "tftpos")
    enableDiscovery := ← get discovery "enabled" (.bool false)
    rateLimit, logging, audit, database, webhooks }

/-- `load_config`. -/
def loadConfig (cwd : Loc String) (fs : FS) (path : PyPath) : Except Raised TftpOSConfig :=
  match readBytes cwd fs path with
  | .error e =>
    if e.cls.isOSError then
      .error (valueError ("cannot read config file " ++ pathText path ++ ": " ++ e.msg))
    else .error (.builtin e)
  | .ok bytes =>
    match lib.loads bytes with
    | .error (.malformed msg) =>
      .error (valueError ("malformed config file " ++ pathText path ++ ": " ++ msg))
    | .error (.encoding msg) => .error (valueError msg)
    | .ok kvs => loadData lib (.dict kvs)

end Loading

end TftpOS
