import Mathlib.Algebra.Group.Int.Defs
import Mathlib.Logic.Function.Basic

/-!
The configuration options of the driver shim: what an option is, the texts its values are read
from and printed to, and the operations that set a value.
-/

namespace MxGpu.Conf

open Function

abbrev Text := List UInt8

def ascii (s : String) : Text := s.toList.map fun c => c.val.toUInt8

/-- `enum gim_conf_opt_idx`. -/
inductive ConfOpt
  | vfNumber
  | ipDiscoveryLoadType
  | fwLoadType
  | logLevel
  | guard
  | schPolicy
  | fullaccessTimeout
  | perfMonEn
  | skipCheckBgpu
  | powerSavingMode
  | mmPolicy
  | hangDumpTimeout
  | fbSharingMode
  | acceleratorPartitionMode
  | memoryPartitionMode
  | ccMode
  | partitionFullAccessEn
  | debugDumpReserveSize
  | hangDetectionMode
  | deferredFullLiveUpdate
  | asymmetricFbMode
  | bpMode
  | pfFbSize
  | badPageRecordThreshold
  | rasVfTelemetryPolicy
  | maxCperCount
  | debugMode
  | sentinelMode
  | enableLiveMigration
  | thermalThrottleRateLimit
  | vfHbmMgmtMode
  | enableUniras
  | shaderHashMode
  deriving DecidableEq, Repr

def ConfOpt.all : List ConfOpt :=
  [.vfNumber, .ipDiscoveryLoadType, .fwLoadType, .logLevel, .guard, .schPolicy,
    .fullaccessTimeout, .perfMonEn, .skipCheckBgpu, .powerSavingMode, .mmPolicy,
    .hangDumpTimeout, .fbSharingMode, .acceleratorPartitionMode, .memoryPartitionMode, .ccMode,
    .partitionFullAccessEn, .debugDumpReserveSize, .hangDetectionMode, .deferredFullLiveUpdate,
    .asymmetricFbMode, .bpMode, .pfFbSize, .badPageRecordThreshold, .rasVfTelemetryPolicy,
    .maxCperCount, .debugMode, .sentinelMode, .enableLiveMigration, .thermalThrottleRateLimit,
    .vfHbmMgmtMode, .enableUniras, .shaderHashMode]

/-- The constant fields of `struct gim_conf_opt`. -/
structure OptInfo where
  name : Text
  min : Int
  max : Int
  defaultValue : Int
  array : Bool
  persistent : Bool

def perGpu (name : String) (min max defaultValue : Int) : OptInfo :=
  ⟨ascii name, min, max, defaultValue, true, false⟩

def single (name : String) (min max defaultValue : Int) : OptInfo :=
  ⟨ascii name, min, max, defaultValue, false, false⟩

/-- `conf_opts`. -/
def ConfOpt.info : ConfOpt → OptInfo
  | .vfNumber => { perGpu "vf_num" 1 31 1 with persistent := true }
  | .ipDiscoveryLoadType => perGpu "ip_discovery_load_type" 1 2 1
  | .fwLoadType => perGpu "fw_load_type" 1 4 1
  | .logLevel => perGpu "log_level" 0 4 2
  | .guard => perGpu "guard" 0 1 1
  | .schPolicy => perGpu "sch_policy" 1 5 0
  | .fullaccessTimeout => perGpu "fullaccess_timeout" 0 500000 0
  | .perfMonEn => perGpu "perf_mon_enable" 0 1 0
  | .skipCheckBgpu => perGpu "skip_check_bgpu" 0 2 0
  | .powerSavingMode => single "power_saving_mode" 0 2 0
  | .mmPolicy => perGpu "mm_policy" 0 1 0
  | .hangDumpTimeout => perGpu "hangdump_timeout" 0 60000 10000
  | .fbSharingMode => single "fb_sharing_mode" 0 8 0
  | .acceleratorPartitionMode =>
    { single "accelerator_partition_mode" 0 9 0 with persistent := true }
  | .memoryPartitionMode => { single "memory_partition_mode" 0 9 0 with persistent := true }
  | .ccMode => { single "cc_mode" 0 3 3 with persistent := true }
  | .partitionFullAccessEn => single "per_partition_fullaccess_enable" 0 1 1
  | .debugDumpReserveSize => perGpu "debug_dump_reserve_size" 0 256 0
  | .hangDetectionMode => perGpu "hang_detection_mode" 0 2 1
  | .deferredFullLiveUpdate => single "deferred_full_live_update" 0 1 0
  | .asymmetricFbMode => perGpu "asymmetric_fb_mode" 0 2 1
  | .bpMode => single "bp_mode" 0 2 0
  | .pfFbSize => perGpu "pf_fb_size" 256 1024 0
  | .badPageRecordThreshold => perGpu "bad_page_record_threshold" (-2) 256 (-1)
  | .rasVfTelemetryPolicy => perGpu "ras_vf_telemetry_policy" 0 3 0
  | .maxCperCount => perGpu "max_cper_count" (-1) 4096 0
  | .debugMode => single "debug_mode" 0 31 0
  | .sentinelMode => single "sentinel_mode" 0 1 0
  | .enableLiveMigration => single "enable_live_migration" 0 1 0
  | .thermalThrottleRateLimit => perGpu "thermal_throttle_rate_limit" 0 60000000 60000000
  | .vfHbmMgmtMode => single "vf_hbm_mgmt_mode" 0 2 0
  | .enableUniras => single "enable_uniras" 0 1 0
  | .shaderHashMode => single "shader_hash_mode" 0 1 0

def maxGpuNum : Nat := 32

/-- The mutable fields of `struct gim_conf_opt`. -/
structure OptState where
  value : Nat → Int
  repeatValIdx : Nat
  changed : Bool

/-- `conf_opts` in one state. -/
abbrev Opts := ConfOpt → OptState

/-! Numbers as texts. -/

def isDigit (c : UInt8) : Bool := 48 ≤ c && c ≤ 57

def digitsValue (digits : Text) : Nat := digits.foldl (fun n c => 10 * n + (c.toNat - 48)) 0

/-- `_kstrtoull` in base 10: digits to the end of the text or to one line feed before it. -/
def kstrtoull (s : Text) : Option Nat :=
  let digits := s.takeWhile isDigit
  let rest := s.dropWhile isDigit
  if digits = [] then none
  else if rest = [] ∨ rest = [10] then some (digitsValue digits) else none

/-- `kstrtoint` in base 10. -/
def kstrtoint (s : Text) : Option Int :=
  let value : Option Int :=
    match s with
    | 45 :: digits => (kstrtoull digits).map fun n => -(n : Int)
    | 43 :: digits => (kstrtoull digits).map fun n => (n : Int)
    | digits => (kstrtoull digits).map fun n => (n : Int)
  value.filter fun v => -2 ^ 31 ≤ v && v < 2 ^ 31

/-- What the format `%d` prints. -/
def printInt (v : Int) : Text :=
  let digits := (Nat.toDigits 10 v.natAbs).map fun c => c.val.toUInt8
  if v < 0 then 45 :: digits else digits

/-! Single options. -/

def toLower (c : UInt8) : UInt8 := if 65 ≤ c ∧ c ≤ 90 then c + 32 else c

/-- `gim_conf_search_config_key`: the first option whose name the key starts with. -/
def searchConfigKey (key : Text) : Option ConfOpt :=
  ConfOpt.all.find? fun o => (o.info.name.map toLower).isPrefixOf (key.map toLower)

def validOpt (o : ConfOpt) (value : Int) : Bool := o.info.min ≤ value && value ≤ o.info.max

namespace Opts

variable (s : Opts)

def initial : Opts := fun o => ⟨fun i => if i = 0 then o.info.defaultValue else 0, 1, false⟩

def setConfOpt (o : ConfOpt) (value : Int) : Opts :=
  update s o { s o with value := update (s o).value 0 value }

def fill (o : ConfOpt) (value : Int) : Opts :=
  if o.info.array then update s o { s o with value := fun _ => value }
  else s.setConfOpt o value

def given (o : ConfOpt) (values : List Int) (i : Nat) : Int :=
  values.getD i (values.getLast?.getD o.info.defaultValue)

def tokenValue (o : ConfOpt) (token : Text) : Int :=
  match kstrtoint token with
  | some value => if validOpt o value then value else o.info.defaultValue
  | none => o.info.defaultValue

def handleArrayToken (token : Text) (o : ConfOpt) : Opts :=
  let values := ((token.splitOn 44).take maxGpuNum).map (tokenValue o)
  update s o
    { s o with
      value := given o values
      repeatValIdx := values.length }

def setArrayValue (o : ConfOpt) (arrayVal : List (BitVec 32)) : Opts :=
  let values := (arrayVal.take maxGpuNum).map fun v =>
    if validOpt o v.toInt then v.toInt else o.info.defaultValue
  update s o
    { value := given o values
      repeatValIdx := values.length
      changed := (s o).changed ||
        (List.range values.length).any fun i => given o values i != (s o).value i }

/-- The loop of `gim_conf_trunc_conf_file` that restores the defaults. -/
def fillDefault : Opts := ConfOpt.all.foldl (fun s o => s.fill o o.info.defaultValue) s

def initPersistConfig : Opts :=
  ConfOpt.all.foldl
    (fun s o => if o ≠ .vfNumber ∧ o.info.persistent then s.fill o o.info.max else s) s

def clearSavedPersistConfig (configFileCreated : Bool) : Opts :=
  let unchanged (s : Opts) : Opts :=
    update s .vfNumber { s .vfNumber with changed := false }
  let s := if configFileCreated then unchanged s else s
  if (s .vfNumber).changed then
    unchanged (ConfOpt.all.foldl
      (fun s o =>
        if o ≠ .vfNumber ∧ o.info.persistent then s.fill o o.info.defaultValue else s) s)
  else s

end Opts

end MxGpu.Conf
