import VirtRtLab.Kernel.Decimal
import VirtRtLab.Lib.Ledger
import VirtRtLab.Daemon.Process

/-!
`uart_instance_init` with any outcome of its system calls, and the calls that went through.
-/

namespace VirtRtLab.Daemon

open Kernel Ledger

def WIRE_PATH_MAX : ℕ := 64
def SOCK_PATH_MAX : ℕ := 108

-- `sizeof(addr.sun_path)`
def SUN_PATH_MAX : ℕ := 108

structure CString where
  bytes : Bytes
  noNul : 0 ∉ bytes

/-- `snprintf` into a buffer of `size` bytes, the last of them for the terminator. -/
def snprintf (size : ℕ) (text : Bytes) : Bytes := text.take (size - 1)

def strlen (s : Bytes) : ℕ := (cstr s).length

inductive Call where
  | open (path : Bytes) (fd : ℕ)
  | socket (fd : ℕ)
  | unlink (path : Bytes)
  | umask (mask : ℕ)
  | bind (fd : ℕ) (path : Bytes)
  | chown (path : Bytes) (gid : ℕ)
  | epollAdd (fd : ℕ)
  | close (fd : ℕ)
  deriving DecidableEq

structure Outcomes where
  wireOpen : Option ℕ
  socket : Option ℕ
  bind : Bool
  chown : Bool
  listen : Bool

structure UartInstance where
  idx : ℕ
  wireFd : Option ℕ
  serverFd : Option ℕ
  clientFd : Option ℕ
  state : InstState
  wirePath : Bytes
  sockPath : Bytes

-- "/dev/virtrtlab-wire"
def wirePrefix : Bytes :=
  [47, 100, 101, 118, 47, 118, 105, 114, 116, 114, 116, 108, 97, 98, 45, 119, 105, 114, 101]

-- "/uart" and ".sock"
def sockPrefix : Bytes := [47, 117, 97, 114, 116]
def sockSuffix : Bytes := [46, 115, 111, 99, 107]

def sockPathText (runDir : CString) (idx : ℕ) : Bytes := runDir.bytes ++ sockPrefix ++ decimal idx ++ sockSuffix

def UartInstance.blank (runDir : CString) (idx : ℕ) : UartInstance where
  idx := idx
  wireFd := none
  serverFd := none
  clientFd := none
  state := .waitClient
  wirePath := snprintf WIRE_PATH_MAX (wirePrefix ++ decimal idx)
  sockPath := snprintf SOCK_PATH_MAX (sockPathText runDir idx)

def closeFd (fd : Option ℕ) : List Call := fd.toList.map .close

abbrev InitResult := UartInstance × Bool × List Call

def errWire (inst : UartInstance) (log : List Call) : InitResult :=
  ({ inst with wireFd := none }, false, log ++ closeFd inst.wireFd)

def errServer (inst : UartInstance) (log : List Call) : InitResult :=
  errWire { inst with serverFd := none } (log ++ closeFd inst.serverFd)

def errBound (inst : UartInstance) (log : List Call) : InitResult := errServer inst (log ++ [.unlink inst.sockPath])

/-- `epoll_loop_add` is taken to work: it aborts the process when it does not. -/
def uartInstanceInit (out : Outcomes) (runDir : CString) (gid : Option ℕ) (mask idx : ℕ) : InitResult :=
  let inst := UartInstance.blank runDir idx
  match out.wireOpen with
  | none => (inst, false, [])
  | some wireFd =>
    let inst := { inst with wireFd := some wireFd }
    let log := [.open inst.wirePath wireFd]
    match out.socket with
    | none => errWire inst log
    | some serverFd =>
      let inst := { inst with serverFd := some serverFd }
      let log := log ++ [.socket serverFd, .unlink inst.sockPath]
      if SUN_PATH_MAX ≤ strlen inst.sockPath then errServer inst log
      else
        let sunPath := snprintf SUN_PATH_MAX (cstr inst.sockPath)
        if out.bind then
          let log := log ++ [.umask 0o117, .bind serverFd sunPath, .umask mask] ++
            (gid.toList.filter (fun _ => out.chown)).map (.chown inst.sockPath)
          if out.listen then (inst, true, log ++ [.epollAdd serverFd]) else errBound inst log
        else errServer inst (log ++ [.umask 0o117, .umask mask])

def UartInstance.fds (inst : UartInstance) : List ℕ :=
  inst.clientFd.toList ++ inst.serverFd.toList ++ inst.wireFd.toList

def uartInstanceDestroy (inst : UartInstance) : UartInstance × List Call :=
  ({ inst with clientFd := none, serverFd := none, wireFd := none },
    .unlink inst.sockPath :: closeFd inst.clientFd ++ closeFd inst.serverFd ++ closeFd inst.wireFd)

def fdOp : Call → Option (Op ℕ)
  | .open _ fd | .socket fd => some (.acquire fd)
  | .close fd => some (.release fd)
  | _ => none

def fdOps (log : List Call) : List (Op ℕ) := log.filterMap fdOp

def Call.files (files : List Bytes) : Call → List Bytes
  | .bind _ path => path :: files
  | .unlink path => files.filter (fun file => file ≠ path)
  | _ => files

def socketFiles (files : List Bytes) (log : List Call) : List Bytes := log.foldl Call.files files

def Call.mask (mask : ℕ) : Call → ℕ
  | .umask mask => mask
  | _ => mask

def umaskAfter (mask : ℕ) (log : List Call) : ℕ := log.foldl Call.mask mask

section

variable {log log' : List Call} {files : List Bytes} {path : Bytes} {mask : ℕ}

@[simp] theorem fdOps_nil : fdOps [] = [] := rfl

@[simp] theorem fdOps_cons (c : Call) : fdOps (c :: log) = (fdOp c).toList ++ fdOps log := by
  rw [fdOps, List.filterMap_cons]
  cases fdOp c <;> rfl

@[simp] theorem fdOps_append : fdOps (log ++ log') = fdOps log ++ fdOps log' := List.filterMap_append

@[simp] theorem fdOps_chown (gids : List ℕ) : fdOps (gids.map (.chown path)) = [] := by
  simp [fdOps, fdOp, List.filterMap_map, Function.comp_def]

@[simp] theorem fdOps_closeFd (fd : Option ℕ) : fdOps (closeFd fd) = fd.toList.map .release := by
  cases fd <;> rfl

@[simp] theorem socketFiles_nil : socketFiles files [] = files := rfl

@[simp] theorem socketFiles_cons (c : Call) : socketFiles files (c :: log) = socketFiles (c.files files) log := rfl

@[simp] theorem socketFiles_append : socketFiles files (log ++ log') = socketFiles (socketFiles files log) log' :=
  List.foldl_append

@[simp] theorem socketFiles_chown (gids : List ℕ) : socketFiles files (gids.map (.chown path)) = files := by
  induction gids with
  | nil => rfl
  | cons gid gids ih => exact ih

@[simp] theorem socketFiles_closeFd (fd : Option ℕ) : socketFiles files (closeFd fd) = files := by
  cases fd <;> rfl

@[simp] theorem umaskAfter_nil : umaskAfter mask [] = mask := rfl

@[simp] theorem umaskAfter_cons (c : Call) : umaskAfter mask (c :: log) = umaskAfter (c.mask mask) log := rfl

@[simp] theorem umaskAfter_append : umaskAfter mask (log ++ log') = umaskAfter (umaskAfter mask log) log' :=
  List.foldl_append

@[simp] theorem umaskAfter_chown (gids : List ℕ) : umaskAfter mask (gids.map (.chown path)) = mask := by
  induction gids with
  | nil => rfl
  | cons gid gids ih => exact ih

@[simp] theorem umaskAfter_closeFd (fd : Option ℕ) : umaskAfter mask (closeFd fd) = mask := by
  cases fd <;> rfl

end

variable {runDir : CString} {gid : Option ℕ} {mask idx : ℕ} {out : Outcomes}

theorem not_mem_decimal (n : ℕ) : (0 : UInt8) ∉ decimal n := by
  intro h
  obtain ⟨d, hd, h0⟩ := mem_decimal h
  exact (decimalDigit_ne hd).1 h0.symm

theorem cstr_of_noNul {s : Bytes} (h : 0 ∉ s) : cstr s = s := by
  apply List.takeWhile_eq_self_iff.mpr
  intro c hc
  exact decide_eq_true fun h0 => h (h0 ▸ hc)

theorem noNul_sockPathText (runDir : CString) (idx : ℕ) : 0 ∉ sockPathText runDir idx := by
  simp [sockPathText, sockPrefix, sockSuffix, runDir.noNul, not_mem_decimal]

theorem sockPath_blank (runDir : CString) (idx : ℕ) :
    (UartInstance.blank runDir idx).sockPath = (sockPathText runDir idx).take 107 := rfl

theorem noNul_sockPath (runDir : CString) (idx : ℕ) : 0 ∉ (UartInstance.blank runDir idx).sockPath :=
  fun h => noNul_sockPathText runDir idx (List.mem_of_mem_take h)

/-- The length check never fires: the buffer was cut to its size before. -/
theorem strlen_sockPath (runDir : CString) (idx : ℕ) : strlen (UartInstance.blank runDir idx).sockPath < SUN_PATH_MAX := by
  rw [strlen, cstr_of_noNul (noNul_sockPath runDir idx), sockPath_blank, List.length_take]
  exact Nat.lt_of_le_of_lt (Nat.min_le_left _ _) (by decide)

theorem sunPath_eq (runDir : CString) (idx : ℕ) :
    snprintf SUN_PATH_MAX (cstr (UartInstance.blank runDir idx).sockPath) = (UartInstance.blank runDir idx).sockPath := by
  rw [cstr_of_noNul (noNul_sockPath runDir idx), sockPath_blank, snprintf, List.take_take]
  rfl

def boundPaths (log : List Call) : List Bytes := log.filterMap (fun
  | .bind _ path => some path
  | _ => none)

def UartInstance.Up (inst : UartInstance) : Prop :=
  ∃ wireFd serverFd, inst.wireFd = some wireFd ∧ inst.serverFd = some serverFd ∧ inst.clientFd = none ∧
    inst.state = .waitClient

structure Inited (runDir : CString) (mask idx : ℕ) (r : InitResult) : Prop where
  sockPath : r.1.sockPath = (UartInstance.blank runDir idx).sockPath
  fds : ∀ h, stack h (fdOps r.2.2) = some (r.1.fds ++ h)
  failed : r.2.1 = false → r.1.fds = []
  files : ∀ files, ∀ path ∈ socketFiles files r.2.2, path ∈ files ∨ r.2.1 = true ∧ path = r.1.sockPath
  umask : umaskAfter mask r.2.2 = mask
  bound : r.2.1 = true → boundPaths r.2.2 = [r.1.sockPath]
  up : r.2.1 = true → r.1.Up

theorem inited (out : Outcomes) (runDir : CString) (gid : Option ℕ) (mask idx : ℕ) :
    Inited runDir mask idx (uartInstanceInit out runDir gid mask idx) := by
  obtain ⟨inst, hb⟩ : ∃ inst, UartInstance.blank runDir idx = inst := ⟨_, rfl⟩
  have hc : inst.clientFd = none := hb ▸ rfl
  have hs : inst.serverFd = none := hb ▸ rfl
  unfold uartInstanceInit
  cases out.wireOpen with
  | none => exact ⟨rfl, fun _ => rfl, fun _ => rfl, fun _ _ hp => .inl hp, rfl, fun h => (by cases h), fun h => by cases h⟩
  | some wireFd =>
    dsimp only
    cases out.socket with
    | none =>
      refine ⟨rfl, fun _ => ?_, fun _ => rfl, fun _ _ hp => .inl hp, rfl, fun h => (by cases h), fun h => by cases h⟩
      simp [errWire, UartInstance.fds, fdOp, stack, hb, hc, hs]
    | some serverFd =>
      dsimp only
      rw [if_neg (Nat.not_le.mpr (strlen_sockPath runDir idx)), sunPath_eq]
      cases out.bind with
      | false =>
        refine ⟨rfl, fun _ => ?_, fun _ => rfl, fun _ _ hp => .inl (List.mem_of_mem_filter hp), rfl,
          fun h => (by cases h), fun h => by cases h⟩
        simp [errServer, errWire, UartInstance.fds, fdOp, stack, hb, hc]
      | true =>
        rw [if_pos rfl]
        cases out.listen with
        | true =>
          refine ⟨rfl, fun _ => ?_, fun h => (by cases h), fun files path hp => ?_, ?_, fun _ => ?_,
            fun _ => ⟨wireFd, serverFd, rfl, rfl, rfl, rfl⟩⟩
          · simp [UartInstance.fds, fdOp, stack, hb, hc]
          · simp only [List.cons_append, List.nil_append, socketFiles_cons, socketFiles_append, socketFiles_chown,
              socketFiles_nil, Call.files, if_true, List.mem_cons] at hp
            rcases hp with hp | hp
            · exact .inr ⟨rfl, hp⟩
            · exact .inl (List.mem_of_mem_filter hp)
          · simp [Call.mask]
          · simp [boundPaths, List.filterMap_map]
        | false =>
          rw [if_neg (by decide)]
          refine ⟨rfl, fun _ => ?_, fun _ => rfl, fun files path hp => .inl ?_, ?_, fun h => (by cases h),
            fun h => by cases h⟩
          · simp [errBound, errServer, errWire, UartInstance.fds, fdOp, stack, hb, hc]
          · simp [errBound, errServer, errWire, Call.files] at hp
            exact hp.1
          · simp [errBound, errServer, errWire, Call.mask]

structure PathExact (runDir : CString) (idx : ℕ) : Prop where
  exact : ∀ out gid mask inst log, uartInstanceInit out runDir gid mask idx = (inst, true, log) →
    boundPaths log = [sockPathText runDir idx] ∧
      (uartInstanceDestroy inst).2.head? = some (.unlink (sockPathText runDir idx))
  tooLong : SUN_PATH_MAX ≤ (sockPathText runDir idx).length →
    ∀ out gid mask, (uartInstanceInit out runDir gid mask idx).2.1 = false
  distinct : ∀ idx', idx' ≠ idx → ∀ out out' gid gid' mask mask' inst inst' log log',
    uartInstanceInit out runDir gid mask idx = (inst, true, log) →
      uartInstanceInit out' runDir gid' mask' idx' = (inst', true, log') → boundPaths log ≠ boundPaths log'

theorem bound_eq {inst : UartInstance} {log : List Call} (h : uartInstanceInit out runDir gid mask idx = (inst, true, log)) :
    boundPaths log = [(sockPathText runDir idx).take 107] ∧ inst.sockPath = (sockPathText runDir idx).take 107 := by
  have hi := inited out runDir gid mask idx
  rw [h] at hi
  have hpath : inst.sockPath = (sockPathText runDir idx).take 107 := hi.sockPath
  refine ⟨?_, hpath⟩
  rw [← hpath]
  exact hi.bound rfl

theorem prefix_separator {c : UInt8} {xs ys ts us : Bytes} (hx : c ∉ xs) (hy : c ∉ ys)
    (h : xs ++ c :: ts <+: ys ++ c :: us) : xs = ys := by
  induction xs generalizing ys with
  | nil =>
    cases ys with
    | nil => rfl
    | cons y ys =>
      obtain ⟨rfl, -⟩ := List.cons_prefix_cons.mp h
      exact absurd (List.mem_cons_self ..) hy
  | cons x xs ih =>
    cases ys with
    | nil =>
      obtain ⟨rfl, -⟩ := List.cons_prefix_cons.mp h
      exact absurd (List.mem_cons_self ..) hx
    | cons y ys =>
      obtain ⟨rfl, hrest⟩ := List.cons_prefix_cons.mp h
      rw [ih (fun hm => hx (List.mem_cons_of_mem _ hm)) (fun hm => hy (List.mem_cons_of_mem _ hm)) hrest]

theorem dot_not_mem_decimal (n : ℕ) : (46 : UInt8) ∉ decimal n := by
  intro h
  obtain ⟨d, hd, hdot⟩ := mem_decimal h
  interval_cases d <;> cases hdot

theorem sockPathText_cut {idx idx' : ℕ} (h : sockPathText runDir idx <+: sockPathText runDir idx') : idx = idx' := by
  simp only [sockPathText, List.append_assoc, List.prefix_append_right_inj] at h
  rw [← value_decimal idx, ← value_decimal idx', prefix_separator (dot_not_mem_decimal idx) (dot_not_mem_decimal idx') h]

def allWork : Outcomes := ⟨some 5, some 6, true, true, true⟩

theorem init_allWork (runDir : CString) (idx : ℕ) :
    ∃ inst log, uartInstanceInit allWork runDir none 0 idx = (inst, true, log) := by
  simp only [uartInstanceInit, allWork, if_true]
  rw [if_neg (Nat.not_le.mpr (strlen_sockPath runDir idx))]
  exact ⟨_, _, rfl⟩

/-- The path is exact if and only if it fits: one that does not is cut, and the instance starts all the same. -/
theorem sock_path_exact (runDir : CString) (idx : ℕ) :
    PathExact runDir idx ↔ (sockPathText runDir idx).length < SUN_PATH_MAX := by
  constructor
  · intro h
    by_contra hlong
    obtain ⟨inst, log, hok⟩ := init_allWork runDir idx
    have hfails := h.tooLong (Nat.le_of_not_lt hlong) allWork none 0
    rw [hok] at hfails
    cases hfails
  · intro hfits
    have htake : (sockPathText runDir idx).take 107 = sockPathText runDir idx :=
      List.take_of_length_le (Nat.le_of_lt_succ hfits)
    refine ⟨fun out gid mask inst log h => ?_, fun hlong => absurd hlong (Nat.not_le.mpr hfits), ?_⟩
    · obtain ⟨hbound, hpath⟩ := bound_eq h
      rw [htake] at hbound hpath
      refine ⟨hbound, ?_⟩
      rw [← hpath]
      rfl
    · intro idx' hne out out' gid gid' mask mask' inst inst' log log' h h' he
      rw [(bound_eq h).1, (bound_eq h').1, htake, List.singleton_inj] at he
      apply hne
      exact (sockPathText_cut (he ▸ List.take_prefix _ _)).symm

-- 104 bytes: both sockets are cut to the directory and "/ua"
def longDir : CString := ⟨47 :: List.replicate 103 97, by decide⟩

theorem long_run_dir_cut : (¬∀ (runDir : CString) (idx : ℕ), PathExact runDir idx) ∧
    ∃ inst inst' log log', uartInstanceInit allWork longDir none 0 0 = (inst, true, log) ∧
      uartInstanceInit allWork longDir none 0 1 = (inst', true, log') ∧ boundPaths log = boundPaths log' := by
  obtain ⟨inst, log, h⟩ := init_allWork longDir 0
  obtain ⟨inst', log', h'⟩ := init_allWork longDir 1
  have hsame : boundPaths log = boundPaths log' := by
    rw [(bound_eq h).1, (bound_eq h').1]
    decide +kernel
  refine ⟨fun hall => ?_, inst, inst', log, log', h, h', hsame⟩
  exact (hall longDir 0).distinct 1 (by decide) _ _ _ _ _ _ _ _ _ _ h h' hsame

end VirtRtLab.Daemon
