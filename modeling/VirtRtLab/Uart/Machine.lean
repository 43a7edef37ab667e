import VirtRtLab.Lib.Transition
import VirtRtLab.Uart.Device

/-!
One UART device in an arbitrary environment: any number of TTY writers, the TX engine, the port life cycle,
one wire session with any number of readers, sysfs stores, bus notifications, and other users of the bus.
Each step is one critical section, one access outside of them or one cancel call; the expiry of `tx_timer`
is one step with its callback.
-/

namespace VirtRtLab.Uart

open Kernel VirtRtLab.Core Transition

structure Sys where
  bus : Bus
  dev : Dev
  deriving DecidableEq

inductive Obs where
  | accepted (bs : Bytes)
  | burst (bs : Bytes) (flipPpm : UInt32)
  | queued (bs : Bytes)
  | overran (n : ℕ)
  | dropped (n : ℕ)
  | wireRead (bs : Bytes)
  | returned (r : Except Errno Bytes)
  | rxInserted (n : ℕ)
  | rxOverran (n : ℕ)
  deriving DecidableEq

inductive Act where
  | ttyWrite (buf : Bytes)
  | writer (k : ℕ)
  | timerExpire
  | workStart
  | work (hiFirst : Bool)
  | portActivate
  | portShutdown
  | port (ok : Bool)
  | wireOpen
  | wireOpened
  | wireRelease
  | wireReleased
  | wireRead (count : ℕ) (nonblock : Bool)
  | reader (k : ℕ) (ok : Bool)
  | readReturn (k : ℕ)
  | wireChunk (chunk n : ℕ)
  | attrStore (attr : Attr) (buf : Bytes)
  | setTermios (t : Termios)
  | bufSzStore (side : BufSide) (buf : Bytes)
  | bufSzCommit (k : ℕ)
  | resetStore (buf : Bytes)
  | resetStat (k : ℕ)
  | notify (event : BusEvent)
  | notifier
  | bus (a : Bus.Act)
  deriving DecidableEq

def stepWriter (b : Bus) (d : Dev) (k : ℕ) : Option (Dev × List Obs) :=
  match d.writers[k]? with
  | none => none
  | some (.called buf) =>
    if b.isUp then some ({ d with writers := d.writers.set k (.gated buf) }, [])
    else some ({ d with writers := d.writers.eraseIdx k }, [])
  | some (.gated buf) =>
    if d.attrs.enabled then some ({ d with writers := d.writers.set k (.ready buf d.termios.baud) }, [])
    else some ({ d with writers := d.writers.eraseIdx k }, [])
  | some (.ready buf baud) =>
    if d.txFifo.room buf = 0 then some ({ d with writers := d.writers.eraseIdx k }, [])
    else some ({ d with txFifo := d.txFifo.put buf, writers := d.writers.set k (.enqueued baud) },
      [.accepted (buf.take (d.txFifo.room buf))])
  | some (.enqueued baud) =>
    some ({ d with txTimer := some (byteNs baud), writers := d.writers.eraseIdx k }, [])

def flipped (burst : Bytes) (rnd rnd2 : UInt32) : Bytes :=
  burst.modify ((rnd / 1000000).toNat % burst.length) (fun c => c ^^^ ((1 : UInt8) <<< (rnd2 &&& 7).toUInt8))

def delayNs (snap : TxSnap) (len : ℕ) : UInt64 :=
  byteNs snap.baud * UInt64.ofNat len + snap.attrs.latencyNs

def stepWork (b : Bus) (d : Dev) (hiFirst : Bool) : Option (Bus × Dev × List Obs) :=
  match d.txWork with
  | .idle => none
  | .entered =>
    let burst := d.txFifo.front BURST_SZ
    if burst = [] then some (b, { d with txWork := .idle }, [])
    else some (b, { d with txFifo := d.txFifo.get BURST_SZ, txWork := .dequeued burst }, [])
  | .dequeued burst =>
    some (b, { d with statTxBytes := d.statTxBytes + UInt64.ofNat burst.length, txWork := .counted burst }, [])
  | .counted burst =>
    some (b, { d with txWork := .gates burst ⟨d.attrs, d.termios.baud⟩ }, [.burst burst d.attrs.bitflipRatePpm])
  | .gates burst snap =>
    if !snap.attrs.enabled then some (b, { d with txWork := .drop burst.length snap }, [])
    else if snap.attrs.dropRatePpm = 0 then some (b, { d with txWork := .flip burst snap }, [])
    else if gate b.nextPrngU32 snap.attrs.dropRatePpm then
      some (b.drawn, { d with txWork := .drop burst.length snap }, [])
    else some (b.drawn, { d with txWork := .flip burst snap }, [])
  | .drop len snap =>
    some (b, { d with statDrops := d.statDrops + UInt64.ofNat len, txWork := .rearm len snap }, [.dropped len])
  | .flip burst snap =>
    if snap.attrs.bitflipRatePpm = 0 then some (b, { d with txWork := .deliver burst snap }, [])
    else if gate b.nextPrngU32 snap.attrs.bitflipRatePpm then
      some (b.drawn, { d with txWork := .flipBit burst snap b.nextPrngU32 }, [])
    else some (b.drawn, { d with txWork := .deliver burst snap }, [])
  | .flipBit burst snap rnd =>
    some (b.drawn, { d with txWork := .deliver (flipped burst rnd b.nextPrngU32) snap }, [])
  | .deliver burst snap =>
    let written := d.rxFifo.room burst
    some (b, { d with
      rxFifo := d.rxFifo.put burst
      txWork := if written < burst.length then .overrun burst.length (burst.length - written) snap
        else .rearm burst.length snap }, [.queued (burst.take written)])
  | .overrun len lost snap =>
    some (b, { d with statOverruns := d.statOverruns + UInt64.ofNat lost, txWork := .rearm len snap },
      [.overran lost])
  | .rearm len snap =>
    if d.txFifo.isEmpty then some (b, { d with txWork := .idle }, [])
    else if snap.attrs.jitterNs = 0 then some (b, { d with txWork := .arm (delayNs snap len) }, [])
    else some (b, { d with txWork := .jitter len snap }, [])
  | .jitter len snap => some (b.drawn, { d with txWork := .jitter2 len snap b.nextPrngU32 }, [])
  | .jitter2 len snap first =>
    -- C leaves open which operand of `|` is evaluated first
    let sample := if hiFirst then jitterSample first b.nextPrngU32 snap.attrs.jitterNs
      else jitterSample b.nextPrngU32 first snap.attrs.jitterNs
    some (b.drawn, { d with txWork := .arm (delayNs snap len + sample) }, [])
  | .arm delay => some (b, { d with txTimer := some delay, txWork := .idle }, [])

def stepPort (d : Dev) (ok : Bool) : Option (Dev × List Obs) :=
  match d.port with
  | .closed => none
  | .sized txSz rxSz =>
    if ok then some ({ d with txFifo := .alloc txSz.toNat, port := .txAlloc rxSz }, [])
    else some ({ d with port := .closed }, [])
  | .txAlloc rxSz =>
    if ok then some ({ d with rxFifo := .alloc rxSz.toNat, port := .allocated }, [])
    else some ({ d with txFifo := .free, port := .closed }, [])
  | .allocated => some ({ d with portActive := true, port := .opened }, [])
  | .opened => none
  | .shutWork =>
    if d.txWork = .idle then some ({ d with txWorkQueued := false, port := .shutLen }, []) else none
  -- `kfifo_len`, the count and `kfifo_free` run without `tx_lock`
  | .shutLen => some ({ d with port := .shutCount d.txFifo.len }, [])
  | .shutCount pending =>
    some ({ d with statDrops := d.statDrops + UInt64.ofNat pending, port := .shutTx pending }, [.dropped pending])
  | .shutTx _ => some ({ d with txFifo := .free, port := .shutRx }, [])
  | .shutRx => some ({ d with portActive := false, rxFifo := .free, port := .closed }, [])

def Dev.readable (d : Dev) : Bool := !d.rxFifo.isEmpty || !d.portActive || d.wireResetPending

/-- `virtrtlab_wire_read`, one access. `ok = false` is a failed allocation, a signal or a copy fault. -/
def stepRead (d : Dev) (pc : ReadPc) (ok : Bool) : Option (Dev × ReadPc × List Obs) :=
  match pc with
  | .called count nonblock =>
    if count = 0 then some (d, .ret (.ok []), [])
    else if d.wireResetPending then some (d, .ret (.ok []), [])
    else if !ok then some (d, .ret (.error .enomem), [])
    else if nonblock then some (d, .locked (min count PAGE_SIZE) true, [])
    else some (d, .wait (min count PAGE_SIZE), [])
  | .wait rdSz =>
    if d.readable then some (d, .woken rdSz, [])
    else if !ok then some (d, .ret (.error .erestartsys), [])
    else none
  | .woken rdSz =>
    if d.wireResetPending then some (d, .ret (.ok []), []) else some (d, .locked rdSz false, [])
  | .locked rdSz nonblock =>
    if !d.portActive then some (d, .ret (.ok []), [])
    else if d.rxFifo.front rdSz = [] then
      if nonblock then some (d, .ret (.error .eagain), []) else some (d, .wait rdSz, [])
    else some ({ d with rxFifo := d.rxFifo.get rdSz },
      .ret (if ok then .ok (d.rxFifo.front rdSz) else .error .efault), [.wireRead (d.rxFifo.front rdSz)])
  | .ret _ => none

def stepNotifier (d : Dev) : Option (Dev × List Obs) :=
  match d.notifier with
  | .idle => none
  | .downWork =>
    if d.txWork = .idle then some ({ d with txWorkQueued := false, notifier := .downFlush }, []) else none
  | .downFlush => some ({ d with txFifo := d.txFifo.reset, notifier := .downCount d.txFifo.len }, [])
  | .downCount pending =>
    some ({ d with statDrops := d.statDrops + UInt64.ofNat pending, notifier := .idle }, [.dropped pending])
  | .resetWork =>
    if d.txWork = .idle then some ({ d with txWorkQueued := false, notifier := .resetFlush }, []) else none
  | .resetFlush => some ({ d with txFifo := d.txFifo.reset, notifier := .resetAttrs }, [])
  | .resetAttrs =>
    some ({ d with attrs := .default, notifier := .resetStats [.txBytes, .rxBytes, .overruns, .drops] }, [])
  | .resetStats (st :: rest) => some ({ d.zeroStat st with notifier := .resetStats rest }, [])
  | .resetStats [] => some ({ d with wireResetPending := true, notifier := .idle }, [])

def bufSzStore (d : Dev) (side : BufSide) (buf : Bytes) : Dev :=
  match kstrtou32 buf 0 with
  | .error _ => d
  | .ok val =>
    if !bufSzValid val then d
    else if d.wireOpenCount ≠ 0 || d.portActive then d
    else { d with sizers := d.sizers ++ [(side, val)] }

def bufSzCommit (d : Dev) (k : ℕ) : Option Dev :=
  match d.sizers[k]? with
  | none => none
  | some (.tx, val) => some { d with txBufSz := val, sizers := d.sizers.eraseIdx k }
  | some (.rx, val) => some { d with rxBufSz := val, sizers := d.sizers.eraseIdx k }

def resetStore (d : Dev) (buf : Bytes) : Dev :=
  match kstrtou32 buf 0 with
  | .ok 0 => { d with resets := d.resets ++ [[.txBytes, .rxBytes, .overruns, .drops]] }
  | _ => d

def resetStat (d : Dev) (k : ℕ) : Option Dev :=
  match d.resets[k]? with
  | none => none
  | some [] => some { d with resets := d.resets.eraseIdx k }
  | some (st :: rest) => some { d.zeroStat st with resets := d.resets.set k rest }

def attrStore (d : Dev) (attr : Attr) (buf : Bytes) : Dev :=
  match d.attrs.store MAX_FAULT_NS MAX_PPM attr buf with
  | .error _ => d
  | .ok attrs => { d with attrs }

def stepDev (d : Dev) : Act → Option (Dev × List Obs)
  | .ttyWrite buf => some ({ d with writers := d.writers ++ [.called buf] }, [])
  | .timerExpire => if d.txTimer.isSome then some ({ d with txTimer := none, txWorkQueued := true }, []) else none
  | .workStart =>
    if d.txWorkQueued ∧ d.txWork = .idle then some ({ d with txWorkQueued := false, txWork := .entered }, []) else none
  | .portActivate => if d.port = .closed then some ({ d with port := .sized d.txBufSz d.rxBufSz }, []) else none
  | .portShutdown => if d.port = .opened then some ({ d with txTimer := none, port := .shutWork }, []) else none
  | .port ok => stepPort d ok
  | .wireOpen => if d.wireOpenCount = 0 then some ({ d with wireOpenCount := 1, wire := .opening }, []) else some (d, [])
  | .wireOpened =>
    if d.wire = .opening then some ({ d with wireResetPending := false, wire := .opened }, []) else none
  | .wireRelease =>
    if d.wire = .opened ∧ d.readers = [] then some ({ d with rxFifo := d.rxFifo.reset, wire := .releasing }, [])
    else none
  | .wireReleased =>
    if d.wire = .releasing then some ({ d with wireOpenCount := 0, wire := .closed }, []) else none
  | .wireRead count nonblock =>
    if d.wire = .opened then some ({ d with readers := d.readers ++ [.called count nonblock] }, []) else none
  | .reader k ok =>
    match d.readers[k]? with
    | none => none
    | some pc =>
      match stepRead d pc ok with
      | none => none
      | some (d', pc', o) => some ({ d' with readers := d.readers.set k pc' }, o)
  | .readReturn k =>
    match d.readers[k]? with
    | some (.ret r) => some ({ d with readers := d.readers.eraseIdx k }, [.returned r])
    | _ => none
  | .wireChunk chunk n =>
    if d.wire = .opened ∧ 0 < chunk ∧ n ≤ chunk ∧ chunk ≤ 256 then
      some ({ d with
        statRxBytes := d.statRxBytes + UInt64.ofNat n
        statOverruns := d.statOverruns + UInt64.ofNat (chunk - n) }, [.rxInserted n, .rxOverran (chunk - n)])
    else none
  | .attrStore attr buf => some (attrStore d attr buf, [])
  | .setTermios t => some ({ d with termios := t }, [])
  | .bufSzStore side buf => some (bufSzStore d side buf, [])
  | .bufSzCommit k => (bufSzCommit d k).map (fun d' => (d', []))
  | .resetStore buf => some (resetStore d buf, [])
  | .resetStat k => (resetStat d k).map (fun d' => (d', []))
  | .notify .up => if d.notifier = .idle then some (d, []) else none
  | .notify .down => if d.notifier = .idle then some ({ d with txTimer := none, notifier := .downWork }, []) else none
  | .notify .reset => if d.notifier = .idle then some ({ d with txTimer := none, notifier := .resetWork }, []) else none
  | .notifier => stepNotifier d
  | .writer _ | .work _ | .bus _ => none

def machine : Machine Sys Act Obs := fun s a =>
  match a with
  | .writer k => (stepWriter s.bus s.dev k).map (fun r => (⟨s.bus, r.1⟩, r.2))
  | .work hiFirst => (stepWork s.bus s.dev hiFirst).map (fun r => (⟨r.1, r.2.1⟩, r.2.2))
  | .bus b => (s.bus.step b).map (fun bus => (⟨bus, s.dev⟩, []))
  | a => (stepDev s.dev a).map (fun r => (⟨s.bus, r.1⟩, r.2))

def start : Sys := ⟨.init, .init⟩

def openPort : List Act := [.portActivate, .port true, .port true, .port true]

def write (bs : Bytes) : List Act := [.ttyWrite bs, .writer 0, .writer 0, .writer 0, .writer 0]

def transmit (steps : ℕ) : List Act := [.timerExpire, .workStart] ++ List.replicate steps (.work true)

def openWire : List Act := [.wireOpen, .wireOpened]

def releaseWire : List Act := [.wireRelease, .wireReleased]

def blockingRead : List Act := [.wireRead 16 false, .reader 0 true, .reader 0 true, .reader 0 true, .reader 0 true]

def busDown : List Act := [.bus (.setState .down), .notify .down, .notifier, .notifier, .notifier]

def busReset : List Act := .notify .reset :: List.replicate 8 .notifier

end VirtRtLab.Uart
