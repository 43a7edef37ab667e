import VirtRtLab.Lib.Fifo
import VirtRtLab.Core.Bus
import VirtRtLab.Core.Attrs

/-!
State of one UART device of `virtrtlab_uart.c`, with a program counter for every activity that can be
under way on it. A program counter names the next access to shared data; what the source does between two
such accesses is local. A freed kfifo is a queue of size 0.
-/

namespace VirtRtLab.Uart

open Kernel VirtRtLab.Core

def MAX_FAULT_NS : UInt64 := 10000000000
def MAX_PPM : UInt32 := 1000000
def BUF_SZ_MIN : UInt32 := 64
def BUF_SZ_MAX : UInt32 := 65536
def DEFAULT_BUF_SZ : UInt32 := 4096
def BURST_SZ : ℕ := 64
def DEFAULT_BAUD : UInt32 := 38400
def NSEC_PER_SEC : UInt64 := 1000000000
def PAGE_SIZE : ℕ := 4096

inductive Parity where
  | none | even | odd
  deriving DecidableEq, Repr

structure Termios where
  baud : UInt32
  parity : Parity
  databits : UInt8
  stopbits : UInt8
  deriving DecidableEq, Repr

inductive Stat where
  | txBytes | rxBytes | overruns | drops
  deriving DecidableEq, Repr

inductive BufSide where
  | tx | rx
  deriving DecidableEq, Repr

structure TxSnap where
  attrs : FaultAttrs
  baud : UInt32
  deriving DecidableEq, Repr

inductive TxPc where
  | idle
  | entered
  | dequeued (burst : Bytes)
  | counted (burst : Bytes)
  | gates (burst : Bytes) (snap : TxSnap)
  | drop (len : ℕ) (snap : TxSnap)
  | flip (burst : Bytes) (snap : TxSnap)
  | flipBit (burst : Bytes) (snap : TxSnap) (rnd : UInt32)
  | deliver (burst : Bytes) (snap : TxSnap)
  | overrun (len lost : ℕ) (snap : TxSnap)
  | rearm (len : ℕ) (snap : TxSnap)
  | jitter (len : ℕ) (snap : TxSnap)
  | jitter2 (len : ℕ) (snap : TxSnap) (first : UInt32)
  | arm (delayNs : UInt64)
  deriving DecidableEq, Repr

-- between the emptiness test of a run that found more bytes and its `hrtimer_start`
def TxPc.rearming : TxPc → Bool
  | .jitter _ _ | .jitter2 _ _ _ | .arm _ => true
  | _ => false

def TxPc.holding : TxPc → Bytes
  | .dequeued burst | .counted burst | .gates burst _ | .flip burst _ | .flipBit burst _ _ | .deliver burst _ => burst
  | _ => []

def TxPc.toGo : TxPc → ℕ
  | .idle => 0
  | .arm _ => 1
  | .jitter2 _ _ _ => 2
  | .jitter _ _ => 3
  | .rearm _ _ => 4
  | .overrun _ _ _ | .drop _ _ => 5
  | .deliver _ _ => 6
  | .flipBit _ _ _ => 7
  | .flip _ _ => 8
  | .gates _ _ => 9
  | .counted _ => 10
  | .dequeued _ => 11
  | .entered => 12

inductive WritePc where
  | called (buf : Bytes)
  | gated (buf : Bytes)
  | ready (buf : Bytes) (baud : UInt32)
  | enqueued (baud : UInt32)
  deriving DecidableEq, Repr

inductive PortPc where
  | closed
  | sized (txSz rxSz : UInt32)
  | txAlloc (rxSz : UInt32)
  | allocated
  | opened
  | shutWork
  | shutLen
  | shutCount (pending : ℕ)
  | shutTx (pending : ℕ)
  | shutRx
  deriving DecidableEq, Repr

inductive WirePc where
  | closed | opening | opened | releasing
  deriving DecidableEq, Repr

inductive ReadPc where
  | called (count : ℕ) (nonblock : Bool)
  | wait (rdSz : ℕ)
  | woken (rdSz : ℕ)
  | locked (rdSz : ℕ) (nonblock : Bool)
  | ret (r : Except Errno Bytes)
  deriving DecidableEq

inductive NotifierPc where
  | idle
  | downWork
  | downFlush
  | downCount (pending : ℕ)
  | resetWork
  | resetFlush
  | resetAttrs
  | resetStats (rest : List Stat)
  deriving DecidableEq, Repr

structure Dev where
  attrs : FaultAttrs
  termios : Termios
  txBufSz : UInt32
  rxBufSz : UInt32
  wireOpenCount : ℕ
  portActive : Bool
  wireResetPending : Bool
  txFifo : Fifo UInt8
  rxFifo : Fifo UInt8
  statTxBytes : UInt64
  statRxBytes : UInt64
  statOverruns : UInt64
  statDrops : UInt64
  txTimer : Option UInt64
  txWorkQueued : Bool
  txWork : TxPc
  writers : List WritePc
  port : PortPc
  wire : WirePc
  readers : List ReadPc
  notifier : NotifierPc
  sizers : List (BufSide × UInt32)
  resets : List (List Stat)
  deriving DecidableEq

def Dev.init : Dev where
  attrs := .default
  termios := ⟨DEFAULT_BAUD, .none, 8, 1⟩
  txBufSz := DEFAULT_BUF_SZ
  rxBufSz := DEFAULT_BUF_SZ
  wireOpenCount := 0
  portActive := false
  wireResetPending := false
  txFifo := .free
  rxFifo := .free
  statTxBytes := 0
  statRxBytes := 0
  statOverruns := 0
  statDrops := 0
  txTimer := none
  txWorkQueued := false
  txWork := .idle
  writers := []
  port := .closed
  wire := .closed
  readers := []
  notifier := .idle
  sizers := []
  resets := []

/-- Nanoseconds for one byte at 10 bits a byte; a zero rate counts as 9600 baud. -/
def byteNs (baud : UInt32) : UInt64 :=
  10 * NSEC_PER_SEC / (if baud = 0 then 9600 else baud.toUInt64)

def bufSzValid (val : UInt32) : Bool :=
  val ≥ BUF_SZ_MIN && val ≤ BUF_SZ_MAX && (val &&& (val - 1)) == 0

def Dev.zeroStat (d : Dev) : Stat → Dev
  | .txBytes => { d with statTxBytes := 0 }
  | .rxBytes => { d with statRxBytes := 0 }
  | .overruns => { d with statOverruns := 0 }
  | .drops => { d with statDrops := 0 }

end VirtRtLab.Uart
