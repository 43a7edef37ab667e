import VirtRtLab.Lib.Transition
import VirtRtLab.Daemon.Process

/-!
`epoll_loop_run` with any outcome of every system call. Each step is one system call that can fail or wait,
together with what the handler does up to the next one; `epoll_ctl`, `unlink` and the closing of a socket belong
to the step before.
-/

namespace VirtRtLab.Daemon

open Kernel Transition

variable {n : ℕ}

inductive Obs (n : ℕ) where
  | accepted (i : Fin n)
  | wireRead (i : Fin n) (bs : Bytes)
  | sent (i : Fin n) (bs : Bytes) (whole : Bool)
  | clientClosed (i : Fin n)
  | drained (i : Fin n) (bs : Bytes)
  | reopenFailed (i : Fin n)
  | aborted
  deriving DecidableEq

inductive Source where
  | fd (f : ℕ)
  | signal
  deriving DecidableEq

inductive Act (n : ℕ) where
  | wait (sources : List Source)
  | waitFail
  | dispatch
  | accept (r : Option ℕ)
  | read (r : Except Errno Bytes)
  | closeWire
  | open (r : Option ℕ)
  | send (r : Except Errno ℕ)
  | recv (r : Except Errno Bytes)
  | write (r : Except Errno ℕ)
  | fcntl (ok : Bool)

def event (p : Proc n) : Source → Option (Event n)
  | .fd f => (p.watched f).map (fun c => .ready c.1 c.2)
  | .signal => some .signal

def clientClose (p : Proc n) (i : Fin n) : Proc n × List (Obs n) :=
  match p.fd i .client with
  | none => (p, [])
  | some _ => (p.close i .client, [.clientClosed i])

def instanceDestroy (p : Proc n) (i : Fin n) : Proc n :=
  (({ p with paths := Function.update p.paths i false }.close i .client).close i .server).close i .wire

def enterWaitClient (p : Proc n) (i : Fin n) : Option (Proc n) :=
  (p.epollAdd i .server).map (fun p => p.setState i .waitClient)

def finish (p : Proc n) (r : Option (Proc n)) (o : List (Obs n)) : Proc n × List (Obs n) :=
  match r with
  | none => ({ p with status := .aborted }, o ++ [.aborted])
  | some q => ({ q with pc := .idle }, o)

/-- `close_client_and_drain` up to its first `fcntl`. -/
def closeClientAndDrain (p : Proc n) (i : Fin n) : Proc n × List (Obs n) :=
  let (q, o) := clientClose p i
  ({ q.epollDel i .wire with pc := .drainGetfl i }, o)

def onAccepted (p : Proc n) (i : Fin n) (f : ℕ) : Option (Proc n) :=
  ((((p.store i .client f).epollDel i .server).epollAdd i .wire).bind (fun p => p.epollAdd i .client)).map
    (fun p => p.setState i .relaying)

def onSignal (p : Proc n) : Proc n :=
  let q := (List.finRange n).foldl instanceDestroy p
  { q with status := .exited }

def dispatch (p : Proc n) : Event n → Proc n
  | .ready i .server => if (p.insts i).state = .waitClient then { p with pc := .accept i } else p
  | .ready i .wire => if (p.insts i).state = .relaying then { p with pc := .wireRead i } else p
  | .ready i .client => if (p.insts i).state = .relaying then { p with pc := .clientRecv i } else p
  | .signal => onSignal p

def fresh (p : Proc n) : Option ℕ → Bool
  | none => true
  | some f => p.files f = none

def stepHandler (p : Proc n) (pc : Pc n) (a : Act n) : Option (Proc n × List (Obs n)) :=
  match pc, a with
  | .accept i, .accept r =>
    if !fresh p r || (p.fd i .server = none && r.isSome) then none
    else
      match r with
      | none => some ({ p with pc := .idle }, [])
      | some f => some (finish p (onAccepted p i f) [.accepted i])
  | .wireRead i, .read r =>
    if ¬(p.fd i .wire = none ↔ r = .error .ebadf) then none
    else
      match r with
      | .error _ => some ({ p with pc := .idle }, [])
      | .ok [] => some ({ p.epollDel i .wire with pc := .wireClose i }, [])
      | .ok bs => if bs.length ≤ WIRE_BUF_SIZE then some ({ p with pc := .send i bs }, [.wireRead i bs]) else none
  | .wireClose i, .closeWire => some ({ p.close i .wire with pc := .wireReopen i }, [])
  | .wireReopen i, .open r =>
    if !fresh p r then none
    else
      match r with
      | none =>
        let (q, o) := clientClose p i
        some ({ instanceDestroy q i with pc := .idle }, .reopenFailed i :: o)
      | some f =>
        let (q, o) := clientClose (p.store i .wire f) i
        some (finish q (enterWaitClient q i) o)
  | .send i buf, .send r =>
    if ¬(p.fd i .client = none ↔ r = .error .ebadf) then none
    else
      match r with
      | .error _ =>
        let (q, o) := closeClientAndDrain p i
        some (q, .sent i [] false :: o)
      | .ok nw =>
        if nw = buf.length then some ({ p with pc := .idle }, [.sent i buf true])
        else if nw < buf.length then
          let (q, o) := closeClientAndDrain p i
          some (q, .sent i (buf.take nw) false :: o)
        else none
  | .clientRecv i, .recv r =>
    if ¬(p.fd i .client = none ↔ r = .error .ebadf) then none
    else
      match r with
      | .error _ | .ok [] => some (closeClientAndDrain p i)
      | .ok bs => if bs.length ≤ SOCK_BUF_SIZE then some ({ p with pc := .wireWrite i bs }, []) else none
  | .wireWrite _ _, .write _ => some ({ p with pc := .idle }, [])
  | .drainGetfl i, .fcntl ok =>
    if p.fd i .wire = none && ok then none
    else if ok then some ({ p with pc := .drainSetfl i (p.nonblock i) }, [])
    else some (finish p (enterWaitClient p i) [])
  | .drainSetfl i save, .fcntl ok =>
    if ok then some ({ p.setNonblock i true with pc := .drainRead i save }, [])
    else some (finish p (enterWaitClient p i) [])
  | .drainRead i save, .read r =>
    match r with
    | .error _ => some ({ p with pc := .drainRestore i save }, [])
    | .ok [] => some ({ p with pc := .drainClose i save }, [])
    | .ok bs => if bs.length ≤ WIRE_BUF_SIZE then some (p, [.drained i bs]) else none
  | .drainClose i save, .closeWire => some ({ p.close i .wire with pc := .drainReopen i save }, [])
  | .drainReopen i save, .open r =>
    if !fresh p r then none
    else
      match r with
      | none => some ({ p with pc := .idle }, [.reopenFailed i])
      | some f => some ({ p.store i .wire f with pc := .drainRestore i save }, [])
  | .drainRestore i save, .fcntl ok =>
    let q := if ok then p.setNonblock i save else p
    some (finish q (enterWaitClient q i) [])
  | _, _ => none

def machine : Machine (Proc n) (Act n) (Obs n) := fun p a =>
  if p.status ≠ .running then none
  else
    match p.pc, a with
    | .idle, .wait sources =>
      if p.batch = [] ∧ sources.Nodup ∧ sources.length ≤ MAX_EVENTS then
        (sources.mapM (event p)).map (fun batch => ({ p with batch }, []))
      else none
    | .idle, .waitFail => if p.batch = [] then some ({ p with status := .exited }, []) else none
    | .idle, .dispatch =>
      match p.batch with
      | [] => none
      | e :: rest => some (dispatch { p with batch := rest } e, [])
    | .idle, _ => none
    | pc, a => stepHandler p pc a

end VirtRtLab.Daemon
