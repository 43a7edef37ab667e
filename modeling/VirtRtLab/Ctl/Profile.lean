import Mathlib.Algebra.Order.Ring.Int
import Mathlib.Data.List.Basic

/-!
Lab profiles of `virtrtlabctl.py` and what the command derives from them. A TOML file is given by its values as
`str()` and `int()` read them.
-/

namespace VirtRtLab.Ctl

structure Error where
  message : String
  exitCode : ℕ
  deriving DecidableEq, Repr

def SYSFS_ROOT : String := "/sys/kernel/virtrtlab"
def RUN_DIR : String := "/run/virtrtlab"

inductive Module where
  | core | uart | gpio
  deriving DecidableEq, Repr

def Module.name : Module → String
  | .core => "virtrtlab_core"
  | .uart => "virtrtlab_uart"
  | .gpio => "virtrtlab_gpio"

def KNOWN_MODULES : List Module := [.core, .uart, .gpio]

inductive DevType where
  | uart | gpio
  deriving DecidableEq, Repr

-- `MODULE_MAP`
def DevType.ofName : String → Option DevType
  | "uart" => some .uart
  | "gpio" => some .gpio
  | _ => none

def DevType.module : DevType → Module
  | .uart => .uart
  | .gpio => .gpio

def DevType.param : DevType → String
  | .uart => "num_uart_devices"
  | .gpio => "num_gpio_devs"

structure Device where
  type : DevType
  count : ℤ
  deriving DecidableEq, Repr

structure Profile where
  devices : List Device
  seed : Option String
  moduleDir : Option String

inductive RawDevice where
  | other
  -- `some none` is a count that `int()` refuses
  | table (type : Option String) (count : Option (Option ℤ))

structure Toml where
  -- `some none` is a value that is not an array
  devices : Option (Option (List RawDevice))
  seed : Option String
  moduleDir : Option String

inductive TomlFile where
  | invalid (exc : String)
  | valid (data : Toml)

structure Args where
  config : Option String
  uart : Option ℤ
  gpio : Option ℤ

-- POSIX keeps exactly two leading slashes
def pathRoot : List Char → List Char
  | '/' :: '/' :: '/' :: _ => ['/']
  | '/' :: '/' :: _ => ['/', '/']
  | '/' :: _ => ['/']
  | _ => []

/-- `str(Path(path))`. -/
def pathStr (path : String) : String :=
  let parts := (path.toList.splitOn '/').filter (fun part => part ≠ [] ∧ part ≠ ['.'])
  let s := pathRoot path.toList ++ ['/'].intercalate parts
  if s = [] then "." else String.ofList s

example : pathStr "./lab//x.toml/" = "lab/x.toml" := by decide +kernel

def locate (files : String → Option TomlFile) (args : Args) : Except Error (Option TomlFile) :=
  match args.config.filter (· ≠ "") with
  | some path =>
    let tomlPath := pathStr path
    match files tomlPath with
    | none => .error ⟨s!"config file not found: {tomlPath}", 2⟩
    | some file => .ok (some file)
  | none => .ok ((files "lab.toml").or (files "/etc/virtrtlab/lab.toml"))

def readDevice (i : ℕ) : RawDevice → Except Error (String × ℤ)
  | .other | .table none _ => .error ⟨s!"profile parse error: devices[{i}] missing 'type' key", 2⟩
  | .table (some type) none => .ok (type, 1)
  | .table (some _) (some none) => .error ⟨s!"profile parse error: devices[{i}].count must be an integer", 2⟩
  | .table (some type) (some (some count)) => .ok (type, count)

def readDevices (i : ℕ) : List RawDevice → Except Error (List (String × ℤ))
  | [] => .ok []
  | d :: ds =>
    match readDevice i d with
    | .error e => .error e
    | .ok dev =>
      match readDevices (i + 1) ds with
      | .error e => .error e
      | .ok devs => .ok (dev :: devs)

def readToml (data : Toml) : Except Error (List (String × ℤ)) :=
  match data.devices with
  | none => .ok []
  | some none => .error ⟨"profile parse error: 'devices' must be an array of tables", 2⟩
  | some (some devices) => readDevices 0 devices

-- `by_type`: a later entry of a type hides the earlier ones
def byType (devices : List (String × ℤ)) (type : String) : Option ℕ :=
  (devices.reverse.findIdx? (fun d => d.1 = type)).map (fun k => devices.length - 1 - k)

def inline (index : Option ℕ) (type : String) (count : Option ℤ) (devices : List (String × ℤ)) :
    List (String × ℤ) :=
  match count with
  | none => devices
  | some count =>
    match index with
    | some i => devices.modify i (fun d => (d.1, count))
    | none => devices ++ [(type, count)]

def applyInline (args : Args) (devices : List (String × ℤ)) : List (String × ℤ) :=
  inline (byType devices "gpio") "gpio" args.gpio (inline (byType devices "uart") "uart" args.uart devices)

def validate : List (String × ℤ) → Except Error (List Device)
  | [] => .ok []
  | (type, count) :: ds =>
    match DevType.ofName type with
    | none => .error ⟨s!"unknown device type: {type}", 2⟩
    | some type =>
      match validate ds with
      | .error e => .error e
      | .ok devs => .ok (⟨type, count⟩ :: devs)

def noProfile : Error :=
  ⟨"no lab profile found (searched: ./lab.toml, /etc/virtrtlab/lab.toml);" ++
    " pass --config <file> or use --uart/--gpio inline flags", 2⟩

def resolveDevices (args : Args) (devices : List (String × ℤ)) : Except Error (List Device) :=
  if applyInline args devices = [] then .error noProfile else validate (applyInline args devices)

def resolveProfile (files : String → Option TomlFile) (args : Args) : Except Error Profile :=
  match locate files args with
  | .error e => .error e
  | .ok none => (resolveDevices args []).map (fun devices => ⟨devices, none, none⟩)
  | .ok (some (.invalid exc)) => .error ⟨s!"profile parse error: {exc}", 2⟩
  | .ok (some (.valid data)) =>
    match readToml data with
    | .error e => .error e
    | .ok devices => (resolveDevices args devices).map (fun devices => ⟨devices, data.seed, data.moduleDir⟩)

def modulesLoadOrder (devices : List Device) : List Module :=
  devices.foldl (fun names dev => if dev.type.module ∈ names then names else names ++ [dev.type.module]) [.core]

def indices (first count : ℤ) : List ℤ := (List.range count.toNat).map (fun i => first + i)

def socketPath (idx : ℤ) : String := s!"{RUN_DIR}/uart{idx}.sock"

def expectedSockets (devices : List Device) : List String :=
  devices.flatMap (fun dev => if dev.type = .uart then (indices 0 dev.count).map socketPath else [])

structure UartEntry where
  name : String
  autPath : String
  wirePath : String
  socketPath : String
  env : List (String × String)

structure GpioEntry where
  name : String
  chipPath : String
  controlPath : String
  env : List (String × String)
  sysfsBase : Option ℤ
  warnings : List String

inductive Entry where
  | uart (entry : UartEntry)
  | gpio (entry : GpioEntry)

inductive ChipPath where
  | missing
  | unreadable (exc : String)
  | text (path : String)

-- `unreadable` also when `int()` refuses the text
inductive SysfsBase where
  | missing
  | unreadable
  | value (base : ℤ)

structure GpioSysfs where
  chipPath : ChipPath
  sysfsBase : SysfsBase

def uartEntry (idx : ℤ) : UartEntry where
  name := s!"uart{idx}"
  autPath := s!"/dev/ttyVIRTLAB{idx}"
  wirePath := s!"/dev/virtrtlab-wire{idx}"
  socketPath := socketPath idx
  env := [(s!"VIRTRTLAB_UART{idx}", s!"/dev/ttyVIRTLAB{idx}")]

def gpioEntry (sysfs : ℤ → GpioSysfs) (idx : ℤ) : Except Error GpioEntry :=
  let ctrl := s!"{SYSFS_ROOT}/devices/gpio{idx}"
  match (sysfs idx).chipPath with
  | .missing => .error ⟨s!"gpio{idx}: chip_path not found in sysfs (is virtrtlab_gpio loaded?)", 4⟩
  | .unreadable exc => .error ⟨s!"gpio{idx}: cannot read chip_path: {exc}", 4⟩
  | .text path =>
    if path = "" then .error ⟨s!"gpio{idx}: chip_path is empty in sysfs", 4⟩
    else
      let entry : GpioEntry :=
        { name := s!"gpio{idx}", chipPath := path, controlPath := ctrl,
          env := [(s!"VIRTRTLAB_GPIOCHIP{idx}", path), (s!"VIRTRTLAB_GPIOCTRL{idx}", ctrl)],
          sysfsBase := none, warnings := [] }
      match (sysfs idx).sysfsBase with
      | .value base =>
        .ok { entry with sysfsBase := some base, env := entry.env ++ [(s!"VIRTRTLAB_GPIOBASE{idx}", toString base)] }
      | .unreadable =>
        .ok { entry with warnings := [s!"gpio{idx}: sysfs_base unreadable, omitting VIRTRTLAB_GPIOBASE{idx}"] }
      | .missing =>
        .ok { entry with warnings := [s!"legacy sysfs GPIO ABI unavailable; VIRTRTLAB_GPIOBASE{idx} omitted"] }

def gpioEntries (sysfs : ℤ → GpioSysfs) : List ℤ → Except Error (List Entry)
  | [] => .ok []
  | idx :: rest =>
    match gpioEntry sysfs idx with
    | .error e => .error e
    | .ok entry =>
      match gpioEntries sysfs rest with
      | .error e => .error e
      | .ok entries => .ok (.gpio entry :: entries)

def contractFrom (sysfs : ℤ → GpioSysfs) (uartIdx gpioIdx : ℤ) : List Device → Except Error (List Entry)
  | [] => .ok []
  | ⟨.uart, count⟩ :: devices =>
    (contractFrom sysfs (uartIdx + count) gpioIdx devices).map (fun rest =>
      (indices uartIdx count).map (fun idx => Entry.uart (uartEntry idx)) ++ rest)
  | ⟨.gpio, count⟩ :: devices =>
    match gpioEntries sysfs (indices gpioIdx count) with
    | .error e => .error e
    | .ok entries => (contractFrom sysfs uartIdx (gpioIdx + count) devices).map (fun rest => entries ++ rest)

def resolveAutContract (sysfs : ℤ → GpioSysfs) (devices : List Device) : Except Error (List Entry) :=
  contractFrom sysfs 0 0 devices

end VirtRtLab.Ctl
