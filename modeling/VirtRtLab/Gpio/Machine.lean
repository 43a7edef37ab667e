import VirtRtLab.Lib.Transition
import VirtRtLab.Gpio.Device

/-!
One GPIO device in an arbitrary environment: any number of concurrent `inject_store` calls, the delay timers
and work items of the lines, the AUT, sysfs stores, bus notifications and other users of the bus. Each step is
one critical section, one draw outside of them or one cancel call; the expiry of a timer is one step with its
callback.
-/

namespace VirtRtLab.Gpio

open Kernel VirtRtLab.Core Transition

structure Sys where
  bus : Bus
  dev : Dev

inductive Obs where
  | snapshot (line : Fin LINES) (gen : ℕ) (val : UInt8)
  | read (line : Fin LINES) (gen : ℕ)
  | commit (line : Fin LINES) (gen : ℕ) (flipped changed : Bool)
  | reset
  | returned (k : ℕ) (r : Except Errno ℕ)
  deriving DecidableEq

inductive Act where
  | injectStore (buf : Bytes)
  | inject (k : ℕ) (hiFirst : Bool)
  | timerExpire (line : Fin LINES)
  | workStart (line : Fin LINES)
  | work (line : Fin LINES)
  | directionInput (offset : Fin LINES)
  | directionOutput (offset : Fin LINES) (value : Int)
  | set (offset : Fin LINES) (value : Int)
  | setMultiple (mask bits : ℕ)
  | attrStore (attr : Attr) (buf : Bytes)
  | resetStore (buf : Bytes)
  | notify (event : BusEvent)
  | notifier
  | bus (a : Bus.Act)
  deriving DecidableEq

def commitLine (d : Dev) (ℓ : Fin LINES) (gen : ℕ) (snapVal newVal : UInt8) : Dev :=
  let line := d.lines ℓ
  { d with
    statBitflips := if newVal ≠ snapVal then d.statBitflips + 1 else d.statBitflips
    statValueChanges :=
      if !line.isOutput && newVal ≠ line.value then d.statValueChanges + 1 else d.statValueChanges
    lines := Function.update d.lines ℓ
      { line with applyGen := gen, value := if line.isOutput then line.value else newVal } }

def stepApply (b : Bus) (d : Dev) (ℓ : Fin LINES) : ApplyPc → Option (Bus × Dev × ApplyPc × List Obs)
  | .idle => none
  | .enter =>
    let line := d.lines ℓ
    if sameGen line.snapGen line.applyGen then some (b, d, .idle, [])
    else if line.snapBitflipPpm = 0 then
      some (b, d, .commit line.snapGen line.snapValue line.snapValue, [.read ℓ line.snapGen])
    else some (b, d, .flip line.snapGen line.snapValue line.snapBitflipPpm, [.read ℓ line.snapGen])
  | .flip gen snapVal bitflipPpm =>
    let newVal := if gate b.nextPrngU32 bitflipPpm then snapVal ^^^ 1 else snapVal
    some (b.drawn, d, .commit gen snapVal newVal, [])
  | .commit gen snapVal newVal =>
    if !sameGen (d.lines ℓ).snapGen gen then some (b, d, .idle, [])
    else some (b, commitLine d ℓ gen snapVal newVal, .idle,
      [.commit ℓ gen (newVal ≠ snapVal) (!(d.lines ℓ).isOutput && newVal ≠ (d.lines ℓ).value)])

/-- The critical section of `inject_store` once both gates are passed. -/
def takeSnapshot (d : Dev) (ℓ : Fin LINES) (val : UInt8) : Dev :=
  d.setLine ℓ { d.lines ℓ with
    snapValue := val, snapBitflipPpm := d.attrs.bitflipRatePpm, snapGen := (d.lines ℓ).snapGen + 1 }

def dispatch (ℓ : Fin LINES) (latencyNs jitterNs : UInt64) : InjectPc :=
  if latencyNs = 0 ∧ jitterNs = 0 then .apply ℓ .enter
  else if jitterNs = 0 then .arm ℓ latencyNs
  else .jitter ℓ latencyNs jitterNs

def stepInject (b : Bus) (d : Dev) (k : ℕ) (hiFirst : Bool) : Option (Bus × Dev × List Obs) :=
  match d.inject? k with
  | none => none
  | some ⟨count, .parsed ℓ val⟩ =>
    if b.isUp then some (b, d.setInject k (some ⟨count, .gated ℓ val⟩), [])
    else some (b, d.setInject k none, [.returned k (.error .eio)])
  | some ⟨count, .gated ℓ val⟩ =>
    if !d.attrs.enabled then some (b, d.setInject k none, [.returned k (.ok count)])
    else
      let b' := if d.attrs.dropRatePpm = 0 then b else b.drawn
      if d.attrs.dropRatePpm ≠ 0 && gate b.nextPrngU32 d.attrs.dropRatePpm then
        some (b', { d with statDrops := d.statDrops + 1 }.setInject k none, [.returned k (.ok count)])
      else
        some (b', (takeSnapshot d ℓ val).setInject k (some ⟨count, dispatch ℓ d.attrs.latencyNs d.attrs.jitterNs⟩),
          [.snapshot ℓ ((d.lines ℓ).snapGen + 1) val])
  | some ⟨count, .apply ℓ pc⟩ =>
    match stepApply b d ℓ pc with
    | none => none
    | some (b', d', .idle, o) => some (b', d'.setInject k none, o ++ [.returned k (.ok count)])
    | some (b', d', pc', o) => some (b', d'.setInject k (some ⟨count, .apply ℓ pc'⟩), o)
  | some ⟨count, .jitter ℓ latencyNs jitterNs⟩ =>
    some (b.drawn, d.setInject k (some ⟨count, .jitter2 ℓ latencyNs jitterNs b.nextPrngU32⟩), [])
  | some ⟨count, .jitter2 ℓ latencyNs jitterNs first⟩ =>
    -- C leaves open which operand of `|` is evaluated first
    let sample := if hiFirst then jitterSample first b.nextPrngU32 jitterNs
      else jitterSample b.nextPrngU32 first jitterNs
    some (b.drawn, d.setInject k (some ⟨count, .arm ℓ (latencyNs + sample)⟩), [])
  | some ⟨count, .arm ℓ delayNs⟩ =>
    some (b, (d.setLine ℓ { d.lines ℓ with delayTimer := some delayNs }).setInject k none, [.returned k (.ok count)])

def stepWork (b : Bus) (d : Dev) (ℓ : Fin LINES) : Option (Bus × Dev × List Obs) :=
  match stepApply b d ℓ (d.lines ℓ).work with
  | none => none
  | some (b', d', pc', o) => some (b', d'.setLine ℓ { d'.lines ℓ with work := pc' }, o)

def NotifierPc.next (ℓ : Fin LINES) : NotifierPc :=
  if h : ℓ.val + 1 < LINES then .cancelTimer ⟨ℓ.val + 1, h⟩ else .critical

def resetDev (d : Dev) : Dev where
  attrs := .default
  lines := fun ℓ => { d.lines ℓ with applyGen := (d.lines ℓ).snapGen }
  statValueChanges := 0
  statDrops := 0
  statBitflips := 0
  injects := d.injects
  notifier := .idle

def stepNotifier (d : Dev) : Option (Dev × List Obs) :=
  match d.notifier with
  | .idle => none
  | .cancelTimer ℓ => some ({ d.setLine ℓ { d.lines ℓ with delayTimer := none } with notifier := .cancelWork ℓ }, [])
  | .cancelWork ℓ =>
    if (d.lines ℓ).work ≠ .idle then none
    else some ({ d.setLine ℓ { d.lines ℓ with workQueued := false } with notifier := .next ℓ }, [])
  | .critical => some (resetDev d, [.reset])

def setValue (line : Line) (value : Bool) : Line :=
  if line.isOutput then { line with value := if value then 1 else 0 } else line

def stepDev (d : Dev) : Act → Option (Dev × List Obs)
  | .injectStore buf =>
    match parseInject buf with
    | .error e => some (d.call none, [.returned d.injects.length (.error e)])
    | .ok (ℓ, val) => some (d.call (some ⟨buf.length, .parsed ℓ val⟩), [])
  | .timerExpire ℓ =>
    if (d.lines ℓ).delayTimer.isSome then
      some (d.setLine ℓ { d.lines ℓ with delayTimer := none, workQueued := true }, [])
    else none
  | .workStart ℓ =>
    if (d.lines ℓ).workQueued ∧ (d.lines ℓ).work = .idle then
      some (d.setLine ℓ { d.lines ℓ with workQueued := false, work := .enter }, [])
    else none
  | .directionInput ℓ => some (d.setLine ℓ { d.lines ℓ with isOutput := false }, [])
  | .directionOutput ℓ value =>
    some (d.setLine ℓ { d.lines ℓ with isOutput := true, value := if value ≠ 0 then 1 else 0 }, [])
  | .set ℓ value => some (d.setLine ℓ (setValue (d.lines ℓ) (value ≠ 0)), [])
  | .setMultiple mask bits =>
    some ({ d with lines := fun ℓ => if mask.testBit ℓ then setValue (d.lines ℓ) (bits.testBit ℓ) else d.lines ℓ }, [])
  | .attrStore attr buf =>
    match d.attrs.store MAX_LATENCY_NS MAX_PPM attr buf with
    | .error _ => some (d, [])
    | .ok attrs => some ({ d with attrs }, [])
  | .resetStore buf =>
    match kstrtou32 buf 0 with
    | .ok 0 => some ({ d with statValueChanges := 0, statDrops := 0, statBitflips := 0 }, [])
    | _ => some (d, [])
  | .notify .reset => if d.notifier = .idle then some ({ d with notifier := .cancelTimer 0 }, []) else none
  | .notify _ => if d.notifier = .idle then some (d, []) else none
  | .notifier => stepNotifier d
  | .inject _ _ | .work _ | .bus _ => none

def machine : Machine Sys Act Obs := fun s a =>
  match a with
  | .inject k hiFirst => (stepInject s.bus s.dev k hiFirst).map (fun r => (⟨r.1, r.2.1⟩, r.2.2))
  | .work ℓ => (stepWork s.bus s.dev ℓ).map (fun r => (⟨r.1, r.2.1⟩, r.2.2))
  | .bus b => (s.bus.step b).map (fun bus => (⟨bus, s.dev⟩, []))
  | a => (stepDev s.dev a).map (fun r => (⟨s.bus, r.1⟩, r.2))

def start : Sys := ⟨.init, .init⟩

end VirtRtLab.Gpio
