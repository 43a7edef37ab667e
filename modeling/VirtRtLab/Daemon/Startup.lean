import VirtRtLab.Daemon.Init
import VirtRtLab.Daemon.Invariant

namespace VirtRtLab.Daemon

open Kernel Ledger

def destroyAll (insts : ℕ → UartInstance) : ℕ → List Call
  | 0 => []
  | i + 1 => (uartInstanceDestroy (insts i)).2 ++ destroyAll insts i

def initInstances (out : ℕ → Outcomes) (runDir : CString) (gid : Option ℕ) (mask : ℕ) :
    ℕ → ℕ → (ℕ → UartInstance) → Option (ℕ → UartInstance) × List Call
  | 0, _, insts => (some insts, [])
  | rest + 1, i, insts =>
    let (inst, ok, log) := uartInstanceInit (out i) runDir gid mask i
    if ok then
      let (result, log') := initInstances out runDir gid (umaskAfter mask log) rest (i + 1) (Function.update insts i inst)
      (result, log ++ log')
    else (none, log ++ destroyAll insts i)

/-- `main` from `setup_signalfd` to the event loop, or to its exit. `garbage` is what the array holds at first. -/
def startup (out : ℕ → Outcomes) (runDir : CString) (gid : Option ℕ) (mask numUarts sigFd epollFd : ℕ)
    (garbage : ℕ → UartInstance) : Option (ℕ → UartInstance) × List Call :=
  let (result, log) := initInstances out runDir gid mask numUarts 0 garbage
  match result with
  | some insts => (some insts, [.socket sigFd, .socket epollFd, .epollAdd sigFd] ++ log)
  | none => (none, [.socket sigFd, .socket epollFd, .epollAdd sigFd] ++ log ++ [.close sigFd, .close epollFd])

theorem fdOps_destroy (inst : UartInstance) : fdOps (uartInstanceDestroy inst).2 = inst.fds.map .release := by
  simp [uartInstanceDestroy, UartInstance.fds, fdOp]

theorem socketFiles_destroy (inst : UartInstance) (files : List Bytes) :
    socketFiles files (uartInstanceDestroy inst).2 = files.filter (fun file => file ≠ inst.sockPath) := by
  simp [uartInstanceDestroy, Call.files]

theorem umaskAfter_destroy (inst : UartInstance) (mask : ℕ) : umaskAfter mask (uartInstanceDestroy inst).2 = mask := by
  simp [uartInstanceDestroy, Call.mask]

def heldBy (insts : ℕ → UartInstance) : ℕ → List ℕ
  | 0 => []
  | i + 1 => (insts i).fds ++ heldBy insts i

section

variable {insts : ℕ → UartInstance} {files : List Bytes}

theorem stack_destroyAll (h : List ℕ) (i : ℕ) : stack (heldBy insts i ++ h) (fdOps (destroyAll insts i)) = some h := by
  induction i with
  | zero => rfl
  | succ i ih =>
    rw [heldBy, destroyAll, fdOps_append, fdOps_destroy, List.append_assoc]
    exact stack_trans (stack_release _) ih

theorem socketFiles_destroyAll {i : ℕ} (hf : ∀ path ∈ files, ∃ j < i, path = (insts j).sockPath) :
    socketFiles files (destroyAll insts i) = [] := by
  induction i generalizing files with
  | zero =>
    apply List.eq_nil_iff_forall_not_mem.mpr
    intro path hp
    obtain ⟨j, hj, -⟩ := hf path hp
    exact absurd hj (Nat.not_lt_zero j)
  | succ i ih =>
    rw [destroyAll, socketFiles_append, socketFiles_destroy]
    apply ih
    intro path hp
    obtain ⟨hmem, hne⟩ := List.mem_filter.mp hp
    obtain ⟨j, hj, rfl⟩ := hf path hmem
    refine ⟨j, ?_, rfl⟩
    rcases Nat.lt_succ_iff_lt_or_eq.mp hj with hlt | rfl
    · exact hlt
    · simp at hne

theorem umaskAfter_destroyAll (mask i : ℕ) : umaskAfter mask (destroyAll insts i) = mask := by
  induction i with
  | zero => rfl
  | succ i ih => rw [destroyAll, umaskAfter_append, umaskAfter_destroy, ih]

theorem heldBy_update (inst : UartInstance) {i k : ℕ} (hi : i ≤ k) :
    heldBy (Function.update insts k inst) i = heldBy insts i := by
  induction i with
  | zero => rfl
  | succ i ih => rw [heldBy, heldBy, Function.update_of_ne (by omega), ih (by omega)]

structure Undone (mask : ℕ) (held : List ℕ) (files : List Bytes) (log : List Call) : Prop where
  fds : ∀ h, stack (held ++ h) (fdOps log) = some h
  files : socketFiles files log = []
  umask : umaskAfter mask log = mask

theorem initInstances_fails {out : ℕ → Outcomes} {runDir : CString} {gid : Option ℕ} {mask rest i : ℕ}
    (hf : ∀ path ∈ files, ∃ j < i, path = (insts j).sockPath)
    (h : (initInstances out runDir gid mask rest i insts).1 = none) :
    Undone mask (heldBy insts i) files (initInstances out runDir gid mask rest i insts).2 := by
  induction rest generalizing i insts files with
  | zero => cases h
  | succ rest ih =>
    obtain ⟨hpath, hfds, hfailed, hfiles, humask, -, -⟩ := inited (out i) runDir gid mask i
    obtain ⟨⟨inst, ok, log⟩, hr⟩ : ∃ r, uartInstanceInit (out i) runDir gid mask i = r := ⟨_, rfl⟩
    rw [hr] at hpath hfds hfailed hfiles humask
    simp only [initInstances, hr] at h ⊢
    cases ok with
    | true =>
      rw [if_pos rfl] at h ⊢
      dsimp only at h humask ⊢
      rw [humask] at h ⊢
      have hup : ∀ path ∈ socketFiles files log, ∃ j < i + 1, path = (Function.update insts i inst j).sockPath := by
        intro path hp
        rcases hfiles files path hp with hp | ⟨-, rfl⟩
        · obtain ⟨j, hj, rfl⟩ := hf path hp
          exact ⟨j, by omega, by rw [Function.update_of_ne hj.ne]⟩
        · exact ⟨i, Nat.lt_succ_self i, by rw [Function.update_self]⟩
      obtain ⟨hstack, hnone, hmask⟩ := ih hup h
      refine ⟨fun h => ?_, ?_, ?_⟩
      · rw [fdOps_append]
        have hrest := hstack h
        rw [heldBy, Function.update_self, heldBy_update _ (Nat.le_refl i), List.append_assoc] at hrest
        exact stack_trans (hfds _) hrest
      · rw [socketFiles_append]
        exact hnone
      · rw [umaskAfter_append, humask, hmask]
    | false =>
      rw [if_neg (by decide)]
      have hleft : ∀ path ∈ socketFiles files log, ∃ j < i, path = (insts j).sockPath := by
        intro path hp
        rcases hfiles files path hp with hp | ⟨hok, -⟩
        · exact hf path hp
        · cases hok
      refine ⟨fun h => ?_, ?_, ?_⟩
      · rw [fdOps_append]
        have hnothing := hfds (heldBy insts i ++ h)
        rw [hfailed rfl, List.nil_append] at hnothing
        exact stack_trans hnothing (stack_destroyAll h i)
      · rw [socketFiles_append, socketFiles_destroyAll hleft]
      · rw [umaskAfter_append, humask, umaskAfter_destroyAll]

end

theorem destroy_again (inst : UartInstance) :
    uartInstanceDestroy (uartInstanceDestroy inst).1 = ((uartInstanceDestroy inst).1, [.unlink inst.sockPath]) := rfl

theorem initInstances_up {out : ℕ → Outcomes} {runDir : CString} {gid : Option ℕ} {mask rest i : ℕ}
    {insts insts' : ℕ → UartInstance} {log : List Call} (hup : ∀ j < i, (insts j).Up)
    (h : initInstances out runDir gid mask rest i insts = (some insts', log)) : ∀ j < i + rest, (insts' j).Up := by
  induction rest generalizing i insts mask log with
  | zero =>
    cases h
    exact hup
  | succ rest ih =>
    have hi := inited (out i) runDir gid mask i
    obtain ⟨⟨inst, ok, log'⟩, hr⟩ : ∃ r, uartInstanceInit (out i) runDir gid mask i = r := ⟨_, rfl⟩
    rw [hr] at hi
    simp only [initInstances, hr] at h
    cases ok with
    | true =>
      obtain ⟨hres, -⟩ := Prod.mk.inj h
      intro j hj
      have hrest : initInstances out runDir gid (umaskAfter mask log') rest (i + 1) (Function.update insts i inst) =
        (some insts', _) := Prod.ext hres rfl
      refine ih ?_ hrest j (by omega)
      intro k hk
      rcases Nat.lt_succ_iff_lt_or_eq.mp hk with hk | rfl
      · rw [Function.update_of_ne hk.ne]
        exact hup k hk
      · rw [Function.update_self]
        exact hi.up rfl
    | false => cases h

theorem startup_up {out : ℕ → Outcomes} {runDir : CString} {gid : Option ℕ} {mask n sigFd epollFd : ℕ}
    {garbage insts : ℕ → UartInstance} {log : List Call}
    (h : startup out runDir gid mask n sigFd epollFd garbage = (some insts, log)) : ∀ i < n, (insts i).Up := by
  unfold startup at h
  obtain ⟨⟨result, loop⟩, hr⟩ : ∃ r, initInstances out runDir gid mask n 0 garbage = r := ⟨_, rfl⟩
  rw [hr] at h
  cases result with
  | none => cases h
  | some insts' =>
    cases h
    intro i hi
    exact initInstances_up (fun j hj => absurd hj (Nat.not_lt_zero j)) hr i (by omega)

section

variable {n : ℕ} {insts : ℕ → UartInstance}

def UartInstance.fd (inst : UartInstance) : Role → Option ℕ
  | .wire => inst.wireFd
  | .server => inst.serverFd
  | .client => inst.clientFd

def owner (insts : ℕ → UartInstance) (n : ℕ) (f : ℕ) : Option (Fin n × Role) :=
  ((List.finRange n).flatMap (fun i => [(i, .wire), (i, .server), (i, .client)])).find?
    (fun x => (insts x.1).fd x.2 = some f)

def launched (n : ℕ) (insts : ℕ → UartInstance) : Proc n where
  insts i := ⟨(insts i).fd, (insts i).state⟩
  files f := (owner insts n f).map (fun x => ⟨x.1, x.2, false⟩)
  watched f := (owner insts n f).filter (fun x => x.2 = .server)
  paths _ := true
  status := .running
  batch := []
  pc := .idle

theorem mem_fds {inst : UartInstance} {r : Role} {f : ℕ} (h : inst.fd r = some f) : f ∈ inst.fds := by
  cases r <;> simp_all [UartInstance.fd, UartInstance.fds]

theorem role_inj {inst : UartInstance} (h : inst.fds.Nodup) {r s : Role} {f : ℕ} (hr : inst.fd r = some f)
    (hs : inst.fd s = some f) : r = s := by
  obtain ⟨hcs, -, hwire⟩ := List.nodup_append'.mp h
  obtain ⟨-, -, hserver⟩ := List.nodup_append'.mp hcs
  cases r <;> cases s <;> simp_all [UartInstance.fd, List.Disjoint]

theorem mem_heldBy {f i : ℕ} (hi : i < n) (hf : f ∈ (insts i).fds) : f ∈ heldBy insts n := by
  induction n with
  | zero => exact absurd hi (Nat.not_lt_zero i)
  | succ n ih =>
    rw [heldBy, List.mem_append]
    rcases Nat.lt_succ_iff_lt_or_eq.mp hi with hlt | rfl
    · exact .inr (ih hlt)
    · exact .inl hf

theorem fd_inj (h : (heldBy insts n).Nodup) {i j : ℕ} (hi : i < n) (hj : j < n) {r s : Role} {f : ℕ}
    (hr : (insts i).fd r = some f) (hs : (insts j).fd s = some f) : i = j ∧ r = s := by
  induction n with
  | zero => exact absurd hi (Nat.not_lt_zero i)
  | succ n ih =>
    rw [heldBy, List.nodup_append'] at h
    obtain ⟨hn, hrest, hdisj⟩ := h
    rcases Nat.lt_succ_iff_lt_or_eq.mp hi with hi | rfl
    · rcases Nat.lt_succ_iff_lt_or_eq.mp hj with hj | rfl
      · exact ih hrest hi hj
      · exact absurd (mem_heldBy hi (mem_fds hr)) (hdisj (mem_fds hs))
    · rcases Nat.lt_succ_iff_lt_or_eq.mp hj with hj | rfl
      · exact absurd (mem_heldBy hj (mem_fds hs)) (hdisj (mem_fds hr))
      · exact ⟨rfl, role_inj hn hr hs⟩

theorem owner_iff (h : (heldBy insts n).Nodup) {f : ℕ} {i : Fin n} {r : Role} :
    owner insts n f = some (i, r) ↔ (insts i).fd r = some f := by
  constructor
  · intro ho
    simpa using List.find?_some ho
  · intro hr
    have hsome : (owner insts n f).isSome = true := by
      rw [owner, List.find?_isSome]
      refine ⟨(i, r), List.mem_flatMap.mpr ⟨i, List.mem_finRange i, ?_⟩, by simpa using hr⟩
      cases r <;> simp
    obtain ⟨⟨j, s⟩, ho⟩ := Option.isSome_iff_exists.mp hsome
    have hs : (insts j).fd s = some f := by simpa using List.find?_some ho
    obtain ⟨hij, rfl⟩ := fd_inj h i.isLt j.isLt hr hs
    rw [ho, Fin.ext hij]

theorem owned_launched (h : (heldBy insts n).Nodup) : Owned (launched n insts) := by
  constructor
  · intro i r f hf
    have ho := (owner_iff h).mpr hf
    exact ⟨false, by simp [launched, ho]⟩
  · intro f i r b hf
    obtain ⟨⟨j, s⟩, ho, hx⟩ := Option.map_eq_some_iff.mp hf
    cases hx
    exact (owner_iff h).mp ho
  · intro f i r hf
    exact (owner_iff h).mp (Option.filter_eq_some_iff.mp hf).1

theorem launched_started {out : ℕ → Outcomes} {runDir : CString} {gid : Option ℕ} {mask sigFd epollFd : ℕ}
    {garbage : ℕ → UartInstance} {log : List Call}
    (h : startup out runDir gid mask n sigFd epollFd garbage = (some insts, log)) (hd : (heldBy insts n).Nodup) :
    Started (launched n insts) := by
  have hup := startup_up h
  refine ⟨owned_launched hd, fun i => ?_, fun _ => rfl, rfl, rfl, rfl⟩
  obtain ⟨wireFd, serverFd, hw, hs, hc, hstate⟩ := hup i i.isLt
  have hserver := (owner_iff (n := n) hd (i := i) (r := .server)).mpr hs
  have hwire := (owner_iff (n := n) hd (i := i) (r := .wire)).mpr hw
  simp [Proc.look, Proc.link, Proc.fd, launched, UartInstance.fd, hw, hs, hc, hstate, hserver, hwire, Look.wait]

end

section

variable {n : ℕ} {p : Proc n} {i : Fin n}

theorem fd_close (p : Proc n) (i : Fin n) (r s : Role) : (p.close i r).fd i s = if s = r then none else p.fd i s := by
  unfold Proc.close
  split
  · rename_i hf
    by_cases hs : s = r
    · rw [if_pos hs, hs, hf]
    · rw [if_neg hs]
  · rw [fd_setFd]
    simp only [true_and]
    rfl

theorem close_of_none {r : Role} (h : p.fd i r = none) : p.close i r = p := by rw [Proc.close, h]

theorem paths_close (p : Proc n) (i : Fin n) (r : Role) : (p.close i r).paths = p.paths := by
  unfold Proc.close
  split <;> rfl

theorem fd_instanceDestroy (p : Proc n) (i : Fin n) (r : Role) : (instanceDestroy p i).fd i r = none := by
  unfold instanceDestroy
  rw [fd_close, fd_close, fd_close]
  cases r <;> rfl

theorem instanceDestroy_again (p : Proc n) (i : Fin n) :
    instanceDestroy (instanceDestroy p i) i = instanceDestroy p i := by
  have hpaths : Function.update (instanceDestroy p i).paths i false = (instanceDestroy p i).paths := by
    apply Function.update_eq_self_iff.mpr
    rw [instanceDestroy, paths_close, paths_close, paths_close]
    exact (Function.update_self i false p.paths).symm
  have hfd := fd_instanceDestroy p i
  generalize instanceDestroy p i = q at hpaths hfd
  rw [instanceDestroy, hpaths]
  rw [close_of_none (p := q) (hfd .client), close_of_none (hfd .server), close_of_none (hfd .wire)]

end

/-- When an instance fails to start, all descriptors of the run are closed, each once, no socket file of the run is
left and the umask is the old one. A second `uart_instance_destroy` closes nothing. -/
theorem startup_all_or_nothing {out : ℕ → Outcomes} {runDir : CString} {gid : Option ℕ}
    {mask numUarts sigFd epollFd : ℕ} {garbage : ℕ → UartInstance} {log : List Call}
    (h : startup out runDir gid mask numUarts sigFd epollFd garbage = (none, log)) :
    held [] (fdOps log) = some [] ∧ (∀ fd, (fdOps log).count (.acquire fd) = (fdOps log).count (.release fd)) ∧
      socketFiles [] log = [] ∧ umaskAfter mask log = mask ∧
      (∀ inst, uartInstanceDestroy (uartInstanceDestroy inst).1 = ((uartInstanceDestroy inst).1, [.unlink inst.sockPath])) ∧
      ∀ (n : ℕ) (p : Proc n) (i : Fin n), instanceDestroy (instanceDestroy p i) i = instanceDestroy p i := by
  unfold startup at h
  obtain ⟨⟨result, loop⟩, hr⟩ : ∃ r, initInstances out runDir gid mask numUarts 0 garbage = r := ⟨_, rfl⟩
  rw [hr] at h
  cases result with
  | some insts => cases h
  | none =>
    cases h
    have hnone : ∀ path ∈ ([] : List Bytes), ∃ j < 0, path = (garbage j).sockPath := by simp
    obtain ⟨hstack, hfiles, humask⟩ := initInstances_fails hnone (congrArg Prod.fst hr)
    rw [hr] at hstack hfiles humask
    have hfds : held [] (fdOps ([.socket sigFd, .socket epollFd, .epollAdd sigFd] ++ loop ++
        [.close sigFd, .close epollFd])) = some [] := by
      have hloop := held_of_stack (hstack [epollFd, sigFd])
      have hopen : held [] (fdOps [.socket sigFd, .socket epollFd, .epollAdd sigFd]) = some [epollFd, sigFd] := rfl
      have hclose : held [epollFd, sigFd] (fdOps [.close sigFd, .close epollFd]) = some [] := by
        by_cases he : epollFd = sigFd
        · simp [fdOp, held, he]
        · simp [fdOp, held, he]
      rw [fdOps_append, fdOps_append]
      exact held_trans (held_trans hopen hloop) hclose
    refine ⟨hfds, fun fd => ?_, ?_, ?_, destroy_again, fun _ => instanceDestroy_again⟩
    · simpa using held_count hfds fd
    · simpa [Call.files] using hfiles
    · simpa [Call.mask] using humask

def missingWire : ℕ → Outcomes
  | 0 => ⟨some 5, some 6, true, true, true⟩
  | _ => ⟨none, some 7, true, true, true⟩

-- "/run"
def run : CString := ⟨[47, 114, 117, 110], by decide⟩

theorem startup_all_or_nothing_missing_wire : ∃ log,
    startup missingWire run (some 100) 0o022 2 3 4 (UartInstance.blank run) = (none, log) ∧
      .close 5 ∈ log ∧ held [] (fdOps log) = some [] := by
  obtain ⟨log, h, hmem⟩ : ∃ log, startup missingWire run (some 100) 0o022 2 3 4 (UartInstance.blank run) = (none, log) ∧
      .close 5 ∈ log := ⟨_, rfl, by decide +kernel⟩
  exact ⟨log, h, hmem, (startup_all_or_nothing h).1⟩

end VirtRtLab.Daemon
