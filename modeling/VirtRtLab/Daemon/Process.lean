import Mathlib.Data.Fin.Basic
import Mathlib.Logic.Function.Basic
import VirtRtLab.Kernel.Text

/-!
State of `virtrtlabd` with `n` UART instances: the instances of `instance.h`, the open files and the epoll set of
the process, the socket paths, the rest of the current `epoll_wait` batch, and the system call the single thread
makes next. A descriptor of -1 is `none`.
-/

namespace VirtRtLab.Daemon

open Kernel

def WIRE_BUF_SIZE : ℕ := 4096
def SOCK_BUF_SIZE : ℕ := 4096
def MAX_EVENTS : ℕ := 32

inductive Role where
  | wire | server | client
  deriving DecidableEq, Repr

inductive InstState where
  | waitClient | relaying
  deriving DecidableEq, Repr

structure Inst where
  fd : Role → Option ℕ
  state : InstState

structure File (n : ℕ) where
  inst : Fin n
  role : Role
  nonblock : Bool
  deriving DecidableEq

inductive Event (n : ℕ) where
  | ready (i : Fin n) (role : Role)
  | signal
  deriving DecidableEq

/-- The handlers of `instance.c` by their next system call. -/
inductive Pc (n : ℕ) where
  | idle
  | accept (i : Fin n)
  | wireRead (i : Fin n)
  | wireClose (i : Fin n)
  | wireReopen (i : Fin n)
  | send (i : Fin n) (buf : Bytes)
  | clientRecv (i : Fin n)
  | wireWrite (i : Fin n) (buf : Bytes)
  | drainGetfl (i : Fin n)
  | drainSetfl (i : Fin n) (save : Bool)
  | drainRead (i : Fin n) (save : Bool)
  | drainClose (i : Fin n) (save : Bool)
  | drainReopen (i : Fin n) (save : Bool)
  | drainRestore (i : Fin n) (save : Bool)
  deriving DecidableEq

inductive Status where
  | running | exited | aborted
  deriving DecidableEq, Repr

structure Proc (n : ℕ) where
  insts : Fin n → Inst
  files : ℕ → Option (File n)
  watched : ℕ → Option (Fin n × Role)
  paths : Fin n → Bool
  status : Status
  batch : List (Event n)
  pc : Pc n

variable {n : ℕ}

namespace Proc

def fd (p : Proc n) (i : Fin n) (r : Role) : Option ℕ := (p.insts i).fd r

def setFd (p : Proc n) (i : Fin n) (r : Role) (v : Option ℕ) : Proc n :=
  { p with insts := Function.update p.insts i { p.insts i with fd := Function.update (p.insts i).fd r v } }

def setState (p : Proc n) (i : Fin n) (state : InstState) : Proc n :=
  { p with insts := Function.update p.insts i { p.insts i with state } }

/-- `close`; it also takes the descriptor out of the epoll set. The field is set to -1, which the handlers do
at once, or at the next `wire_open` before anything reads it. -/
def close (p : Proc n) (i : Fin n) (r : Role) : Proc n :=
  match p.fd i r with
  | none => p
  | some f =>
    { p with files := Function.update p.files f none, watched := Function.update p.watched f none }.setFd i r none

def epollDel (p : Proc n) (i : Fin n) (r : Role) : Proc n :=
  match p.fd i r with
  | none => p
  | some f => { p with watched := Function.update p.watched f none }

/-- `epoll_loop_add`; `none` is the call of `abort`. -/
def epollAdd (p : Proc n) (i : Fin n) (r : Role) : Option (Proc n) :=
  match p.fd i r with
  | none => none
  | some f =>
    if p.files f = none ∨ p.watched f ≠ none then none
    else some { p with watched := Function.update p.watched f (some (i, r)) }

def store (p : Proc n) (i : Fin n) (r : Role) (f : ℕ) : Proc n :=
  { p with files := Function.update p.files f (some ⟨i, r, false⟩) }.setFd i r (some f)

def setNonblock (p : Proc n) (i : Fin n) (v : Bool) : Proc n :=
  match p.fd i .wire with
  | none => p
  | some f => { p with files := Function.update p.files f ((p.files f).map (fun file => { file with nonblock := v })) }

def nonblock (p : Proc n) (i : Fin n) : Bool :=
  match (p.fd i .wire).bind p.files with
  | some file => file.nonblock
  | none => false

end Proc

end VirtRtLab.Daemon
