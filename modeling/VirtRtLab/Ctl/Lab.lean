import VirtRtLab.Ctl.Profile

/-!
`cmd_up` and `cmd_down`, with the kernel modules that are loaded, the state file `modules.list`, the daemon and the
commands run so far. What the commands find outside is the `Env` of a call.
-/

namespace VirtRtLab.Ctl

inductive Loaded where
  | nothing
  | core (uart gpio : Bool)
  deriving DecidableEq, Repr

namespace Loaded

def has : Loaded → Module → Bool
  | .nothing, _ => false
  | .core _ _, .core => true
  | .core uart _, .uart => uart
  | .core _ gpio, .gpio => gpio

def insmod : Loaded → Module → Option Loaded
  | .nothing, .core => some (.core false false)
  | .nothing, _ => none
  | .core _ _, .core => none
  | .core uart gpio, .uart => if uart then none else some (.core true gpio)
  | .core uart gpio, .gpio => if gpio then none else some (.core uart true)

def rmmod : Loaded → Module → Option Loaded
  | .nothing, _ => none
  | .core uart gpio, .core => if uart || gpio then none else some .nothing
  | .core uart gpio, .uart => if uart then some (.core false gpio) else none
  | .core uart gpio, .gpio => if gpio then some (.core uart false) else none

end Loaded

inductive Command where
  | mkdir
  | insmod (m : Module) (path : String) (param : Option (String × ℤ))
  | rmmod (m : Module)
  | seed (text : String)
  | modulesList (ms : List Module)
  | daemon (numUarts : ℤ)

structure Lab where
  loaded : Loaded
  modulesList : Option (List Module)
  daemon : Bool
  log : List Command

structure Env where
  sudoPrefix : Bool
  mkdir : Bool
  findKo : Module → Option String → Except Error String
  insmod : Module → ℤ → Bool
  seedExit : ℕ
  listExit : ℕ
  launch : Except Error Unit
  socket : String → Bool
  sysfs : ℤ → GpioSysfs

def commandFailed (sudoPrefix : Bool) (cmd : String) : Error :=
  ⟨"Command failed: " ++ (if sudoPrefix then "sudo " else "") ++ cmd, 1⟩

def Lab.ran (lab : Lab) (c : Command) : Lab := { lab with log := lab.log ++ [c] }

def insmodText (path : String) : Option (String × ℤ) → String
  | none => "insmod " ++ path
  | some (param, count) => s!"insmod {path} {param}={count}"

def insmod (env : Env) (lab : Lab) (m : Module) (path : String) (param : Option (String × ℤ)) :
    Except Error Lab :=
  let loaded := if env.insmod m ((param.map Prod.snd).getD 0) then lab.loaded.insmod m else none
  match loaded with
  | some loaded => .ok { lab.ran (.insmod m path param) with loaded := loaded }
  | none => .error (commandFailed env.sudoPrefix (insmodText path param))

-- `_rmmod` with `ignore_error=True`
def rmmod (lab : Lab) (m : Module) : Lab :=
  { lab.ran (.rmmod m) with loaded := (lab.loaded.rmmod m).getD lab.loaded }

def modulesToLoad (devices : List Device) : List (Module × Option (String × ℤ)) :=
  (.core, none) :: devices.map (fun dev => (dev.type.module, some (dev.type.param, dev.count)))

/-- The loop of `cmd_up` over `modules_to_load`; `done` is `loaded_this_run`. -/
def loadModules (env : Env) (moduleDir : Option String) : List (Module × Option (String × ℤ)) → List Module → Lab →
    Except Error Unit × Lab
  | [], _, lab => (.ok (), lab)
  | (m, param) :: rest, done, lab =>
    if lab.loaded.has m then loadModules env moduleDir rest done lab
    else
      match env.findKo m moduleDir with
      | .error e => (.error e, lab)
      | .ok path =>
        match insmod env lab m path param with
        | .error e => (.error e, done.reverse.foldl rmmod (lab.ran (.insmod m path param)))
        | .ok lab' => loadModules env moduleDir rest (done ++ [m]) lab'

def writeSeed (env : Env) (seed : Option String) (lab : Lab) : Except Error Unit × Lab :=
  match seed with
  | none => (.ok (), lab)
  | some text =>
    if env.seedExit = 0 then (.ok (), lab.ran (.seed text))
    else
      let code := env.seedExit
      (.error ⟨s!"failed to write bus seed: tee exited {code}", 4⟩, lab.ran (.seed text))

def writeModulesList (env : Env) (devices : List Device) (lab : Lab) : Except Error Unit × Lab :=
  let ms := (modulesLoadOrder devices).filter lab.loaded.has
  if env.listExit = 0 then (.ok (), { lab.ran (.modulesList ms) with modulesList := some ms })
  else
    let code := env.listExit
    (.error ⟨s!"failed to write {RUN_DIR}/modules.list: sudo tee exited {code}", 1⟩, lab.ran (.modulesList ms))

/-- `cmd_up` from `_ensure_run_dir` to the start of the daemon. -/
def prepare (env : Env) (p : Profile) (lab : Lab) : Except Error Unit × Lab :=
  if !env.mkdir then (.error (commandFailed env.sudoPrefix s!"mkdir -p {RUN_DIR}"), lab.ran .mkdir)
  else
    match loadModules env p.moduleDir (modulesToLoad p.devices) [] (lab.ran .mkdir) with
    | (.error e, lab) => (.error e, lab)
    | (.ok (), lab) =>
      match writeSeed env p.seed lab with
      | (.error e, lab) => (.error e, lab)
      | (.ok (), lab) => writeModulesList env p.devices lab

def uartCount (devices : List Device) : ℤ := ((devices.filter (fun d => d.type = .uart)).map Device.count).sum

-- `parse_args` of the daemon
def daemonAccepts (numUarts : ℤ) : Bool := 1 ≤ numUarts ∧ numUarts ≤ 8

def launchDaemon (env : Env) (devices : List Device) (lab : Lab) : Except Error Unit × Lab :=
  if lab.daemon then (.ok (), lab)
  else
    match env.launch with
    | .error e => (.error e, lab.ran (.daemon (uartCount devices)))
    | .ok () =>
      (.ok (), { lab.ran (.daemon (uartCount devices)) with daemon := daemonAccepts (uartCount devices) })

def pollSockets (env : Env) (socks : List String) : Except Error Unit :=
  let remaining := socks.filter (fun s => !env.socket s)
  if remaining = [] then .ok ()
  else
    let missing := String.intercalate ", " remaining
    .error ⟨s!"timeout waiting for sockets: {missing}", 3⟩

def bringUp (env : Env) (p : Profile) (lab : Lab) : Except Error (List Entry) × Lab :=
  match launchDaemon env p.devices lab with
  | (.error e, lab) => (.error e, lab)
  | (.ok (), lab) =>
    match pollSockets env (expectedSockets p.devices) with
    | .error e => (.error e, lab)
    | .ok () => (resolveAutContract env.sysfs p.devices, lab)

def alreadyUp (p : Profile) (lab : Lab) : Bool := (modulesLoadOrder p.devices).all lab.loaded.has && lab.daemon

def cmdUp (env : Env) (p : Profile) (lab : Lab) : Except Error (List Entry) × Lab :=
  if alreadyUp p lab then (resolveAutContract env.sysfs p.devices, lab)
  else
    match prepare env p lab with
    | (.error e, lab) => (.error e, lab)
    | (.ok (), lab) => bringUp env p lab

def cmdDown (lab : Lab) : Lab :=
  let modules := lab.modulesList.getD KNOWN_MODULES
  let lab := modules.reverse.foldl (fun lab m => if lab.loaded.has m then rmmod lab m else lab)
    { lab with daemon := false }
  { lab with modulesList := none }

def Env.working : Env where
  sudoPrefix := true
  mkdir := true
  findKo m _ := .ok s!"./{m.name}.ko"
  insmod m count :=
    match m with
    | .core => true
    | .uart => 1 ≤ count ∧ count ≤ 4
    | .gpio => 1 ≤ count ∧ count ≤ 32
  seedExit := 0
  listExit := 0
  launch := .ok ()
  socket _ := true
  sysfs _ := ⟨.text "/dev/gpiochip4", .missing⟩

def Lab.empty : Lab := ⟨.nothing, none, false, []⟩

end VirtRtLab.Ctl
