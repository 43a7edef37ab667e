import VirtRtLab.Lib.WaitQueue
import VirtRtLab.Uart.WireSteps

/-!
The wait queue of the wire device. A reader in `wait_event_interruptible` and a process in `poll` test their
conditions by three reads without a lock; `tx_work`, `virtrtlab_port_shutdown` and the bus notifier call
`wake_up_interruptible` one access after they have changed what is waited for.
-/

namespace VirtRtLab.Uart

open Kernel VirtRtLab.Core Transition WaitQueue

inductive Cond where
  | data | closed | reset
  deriving DecidableEq

def Dev.holds (d : Dev) : Cond → Bool
  | .data => !d.rxFifo.isEmpty
  | .closed => !d.portActive
  | .reset => d.wireResetPending

-- the condition of `virtrtlab_wire_read`, and the masks of `virtrtlab_wire_poll` that its callers wait for
def readConds : List Cond := [.data, .closed, .reset]
def pollConds : List Cond := [.data, .reset, .closed]

inductive Waker where
  | txWork | portShutdown | busNotifier
  deriving DecidableEq

structure Wq where
  sys : Sys
  sleepers : List (Waiter Cond)
  pollers : List (Waiter Cond)
  owes : Waker → Bool

inductive WqAct where
  | act (a : Act)
  | prepare (k : ℕ)
  | test (k : ℕ)
  | signal (k : ℕ)
  | poll
  | pollPrepare (k : ℕ)
  | pollTest (k : ℕ)
  | pollReturn (k : ℕ)
  | wake (w : Waker)
  deriving DecidableEq

def wakerOf (d : Dev) : Act → Option Waker
  | .work _ =>
    match d.txWork with
    | .deliver burst _ => if d.rxFifo.room burst = 0 then none else some .txWork
    | _ => none
  | .port _ => if d.port = .shutRx then some .portShutdown else none
  | .notifier =>
    match d.notifier with
    | .downCount _ | .resetStats [] => some .busNotifier
    | _ => none
  | _ => none

def TxPc.overrunning : TxPc → Bool
  | .overrun _ _ _ => true
  | _ => false

def TxPc.delivered : TxPc → Bool
  | .overrun _ _ _ | .rearm _ _ => true
  | _ => false

def waiting (d : Dev) (k : ℕ) : Bool :=
  match d.readers[k]? with
  | some (.wait _) => true
  | _ => false

/-- Who owes a wake-up calls it before anything else; a waiting reader moves by its own tests. -/
def allowed (s : Wq) : Act → Bool
  | .work _ => !s.owes .txWork || s.sys.dev.txWork.overrunning
  | .portActivate => !s.owes .portShutdown
  | .notify _ => !s.owes .busNotifier
  | .reader k _ => !waiting s.sys.dev k
  | _ => true

def resleep (sleepers : List (Waiter Cond)) : Act → List (Waiter Cond)
  | .wireRead _ _ => sleepers ++ [.fresh]
  | .reader k _ => sleepers.set k .fresh
  | .readReturn k => sleepers.eraseIdx k
  | _ => sleepers

def owing (owes : Waker → Bool) (w : Option Waker) : Waker → Bool := fun w' => owes w' || w = some w'

def canPrepare (conds : List Cond) (w : Waiter Cond) : Bool := !w.queued && (w.seen = [] || w.seen = conds)

def nextTest (conds : List Cond) (w : Waiter Cond) : Option Cond := conds[w.seen.length]?

-- `tx_work` counts what it lost before the call, and rearms the timer after it
def canWake (d : Dev) : Waker → Bool
  | .txWork =>
    match d.txWork with
    | .rearm _ _ => true
    | _ => false
  | _ => true

def Wq.wokenBy (s : Wq) (w : Waker) : Wq :=
  { s with
    sleepers := s.sleepers.map .wake
    pollers := s.pollers.map .wake
    owes := Function.update s.owes w false }

def wqStep (s : Wq) : WqAct → Option (Wq × List Obs)
  | .act a =>
    if allowed s a then
      (Uart.machine s.sys a).map (fun r =>
        (⟨r.1, resleep s.sleepers a, s.pollers, owing s.owes (wakerOf s.sys.dev a)⟩, r.2))
    else none
  | .prepare k =>
    match s.sleepers[k]? with
    | none => none
    | some w =>
      if waiting s.sys.dev k && canPrepare readConds w then some ({ s with sleepers := s.sleepers.set k .prepare }, [])
      else none
  | .test k =>
    match s.sleepers[k]? with
    | none => none
    | some w =>
      match nextTest readConds w with
      | none => none
      | some c =>
        if !waiting s.sys.dev k then none
        else if s.sys.dev.holds c then
          (Uart.machine s.sys (.reader k true)).map (fun r =>
            ({ s with sys := r.1, sleepers := s.sleepers.set k .fresh }, r.2))
        else some ({ s with sleepers := s.sleepers.set k (w.test c) }, [])
  -- a signal ends the wait once the condition was found false
  | .signal k =>
    match s.sleepers[k]? with
    | none => none
    | some w =>
      if waiting s.sys.dev k && w.seen = readConds then
        some ({ s with
          sys := { s.sys with dev := { s.sys.dev with
            readers := s.sys.dev.readers.set k (.ret (.error .erestartsys)) } }
          sleepers := s.sleepers.set k .fresh }, [])
      else none
  | .poll => if s.sys.dev.wire = .opened then some ({ s with pollers := s.pollers ++ [.prepare] }, []) else none
  | .pollPrepare k =>
    match s.pollers[k]? with
    | none => none
    | some w => if canPrepare pollConds w then some ({ s with pollers := s.pollers.set k .prepare }, []) else none
  | .pollTest k =>
    match s.pollers[k]? with
    | none => none
    | some w =>
      match nextTest pollConds w with
      | none => none
      | some c =>
        if s.sys.dev.holds c then some ({ s with pollers := s.pollers.eraseIdx k }, [])
        else some ({ s with pollers := s.pollers.set k (w.test c) }, [])
  | .pollReturn k => if k < s.pollers.length then some ({ s with pollers := s.pollers.eraseIdx k }, []) else none
  | .wake w => if s.owes w && canWake s.sys.dev w then some (s.wokenBy w, []) else none

def wqMachine : Machine Wq WqAct Obs := wqStep

def wqStart : Wq := ⟨start, [], [], fun _ => false⟩

def Wq.Owed (s : Wq) : Prop := ∃ w, s.owes w = true

/-- The waker's own steps up to its call: `tx_work` may have to count an overrun first. -/
def OwnWake (w : Waker) (as : List WqAct) : Prop :=
  as = [.wake w] ∨ w = .txWork ∧ as = [.act (.work true), .wake w]

structure WqOk (s : Wq) : Prop where
  paired : s.sleepers.length = s.sys.dev.readers.length
  sleepers : ∀ w ∈ s.sleepers, Covered (fun c => s.sys.dev.holds c = true) s.Owed w
  pollers : ∀ w ∈ s.pollers, Covered (fun c => s.sys.dev.holds c = true) s.Owed w
  delivered : s.owes .txWork = true → s.sys.dev.txWork.delivered = true

section Raise

variable {b b' : Bus} {d d' : Dev} {a : Act} {o : List Obs} {c : Cond}

def DataOnly (d d' : Dev) : Prop := d'.portActive = d.portActive ∧ d'.wireResetPending = d.wireResetPending

theorem holds_of_data (h : DataOnly d d') (hd : d.rxFifo.data = [] → d'.rxFifo.data = []) (hc : d'.holds c = true) :
    d.holds c = true := by
  cases c with
  | data =>
    simp only [Dev.holds, Bool.not_eq_true', ← Bool.not_eq_true, Fifo.isEmpty_iff] at hc ⊢
    exact fun he => hc (hd he)
  | closed =>
    rw [Dev.holds, h.1] at hc
    exact hc
  | reset =>
    rw [Dev.holds, h.2] at hc
    exact hc

theorem data_put_nil {q : Fifo UInt8} {bs : Bytes} (h : q.room bs = 0) (hq : q.data = []) : (q.put bs).data = [] := by
  rw [Fifo.data_put, h, hq]
  rfl

theorem WorkStep.raises (h : WorkStep b d b' d' o) (hiFirst : Bool) (hc : d'.holds c = true) :
    d.holds c = true ∨ wakerOf d (.work hiFirst) = some .txWork := by
  cases h with
  | @deliver burst snap hpc hr | @deliverPart burst snap hpc hr =>
    by_cases hroom : d.rxFifo.room burst = 0
    · left
      have hd : DataOnly d { d with rxFifo := d.rxFifo.put burst } := ⟨rfl, rfl⟩
      exact holds_of_data hd (data_put_nil hroom)
        (by cases c <;> exact hc)
    · right
      simp only [wakerOf, hpc, hroom, ↓reduceIte]
  | _ => exact .inl (by cases c <;> exact hc)

theorem DevStep.raises (h : DevStep b d a d' o) (hc : d'.holds c = true) :
    d.holds c = true ∨ ∃ w, wakerOf d a = some w := by
  cases h with
  | @rxAlloc rxSz hp =>
    left
    have hd : DataOnly d { d with rxFifo := .alloc rxSz.toNat } := ⟨rfl, rfl⟩
    exact holds_of_data hd (fun _ => rfl) (by cases c <;> exact hc)
  | portActive hp =>
    left
    cases c with
    | closed => cases hc
    | data | reset => exact hc
  | shutRx hp =>
    right
    exact ⟨.portShutdown, by simp only [wakerOf, hp, ↓reduceIte]⟩
  | wireOpened hw =>
    left
    cases c with
    | reset => cases hc
    | data | closed => exact hc
  | wireRelease hw hr =>
    left
    have hd : DataOnly d { d with rxFifo := d.rxFifo.reset } := ⟨rfl, rfl⟩
    exact holds_of_data hd (fun _ => rfl) (by cases c <;> exact hc)
  | @readTakes k ok rdSz nonblock hk ha hf =>
    left
    have hd : DataOnly d { d with rxFifo := d.rxFifo.get rdSz } := ⟨rfl, rfl⟩
    refine holds_of_data hd (fun he => ?_) (by cases c <;> exact hc)
    rw [Fifo.data_get, he, List.drop_nil]
  | @resetStat k st rest hk => exact .inl (by cases st <;> cases c <;> exact hc)
  | @resetZero st rest hn => exact .inl (by cases st <;> cases c <;> exact hc)
  | resetWire hn =>
    right
    exact ⟨.busNotifier, by simp only [wakerOf, hn]⟩
  | _ => exact .inl (by cases c <;> exact hc)

end Raise

/-- Who makes a condition of the wire true calls `wake_up_interruptible` afterwards. -/
theorem machine_raises {s t : Sys} {a : Act} {o : List Obs} {c : Cond} (h : Uart.machine s a = some (t, o))
    (hc : t.dev.holds c = true) : s.dev.holds c = true ∨ ∃ w, wakerOf s.dev a = some w := by
  obtain ⟨hiFirst, rfl, hw⟩ | ⟨b, -, -, hd, rfl⟩ | ⟨-, hd⟩ := machine_cases h
  · rcases hw.raises hiFirst hc with hc | hw
    · exact .inl hc
    · exact .inr ⟨_, hw⟩
  · rw [hd] at hc
    exact .inl hc
  · exact hd.raises hc

section Keep

variable {b b' : Bus} {d d' : Dev} {a : Act} {o : List Obs} {sleepers : List (Waiter Cond)}

theorem resleep_mem {w : Waiter Cond} (h : w ∈ resleep sleepers a) : w ∈ sleepers ∨ w = .fresh := by
  unfold resleep at h
  split at h
  · rcases List.mem_append.mp h with h | h
    · exact .inl h
    · exact .inr (List.mem_singleton.mp h)
  · exact List.mem_or_eq_of_mem_set h
  · exact .inl (List.mem_of_mem_eraseIdx h)
  · exact .inl h

theorem DevStep.paired (h : DevStep b d a d' o) (hp : sleepers.length = d.readers.length) :
    (resleep sleepers a).length = d'.readers.length := by
  cases h with
  | refused ha =>
    cases a with
    | attrStore | bufSzStore | resetStore | notify => exact hp
    | _ => cases ha
  | readCall =>
    simp only [resleep, List.length_append, hp]
    rfl
  | readGoesOn | readTakes => simpa only [resleep, List.length_set] using hp
  | @readReturn k r hk =>
    have hk' : k < d.readers.length := (List.getElem?_eq_some_iff.mp hk).1
    rw [resleep, List.length_eraseIdx_of_lt (hp ▸ hk'), List.length_eraseIdx_of_lt hk', hp]
  | @resetStat k st rest hk => cases st <;> exact hp
  | @resetZero st rest hn => cases st <;> exact hp
  | _ => exact hp

theorem DevStep.txWork_kept (h : DevStep b d a d' o) : d'.txWork = d.txWork ∨ d.txWork = .idle := by
  cases h with
  | workStart hq hw => exact .inr hw
  | @resetStat k st rest hk => cases st <;> exact .inl rfl
  | @resetZero st rest hn => cases st <;> exact .inl rfl
  | _ => exact .inl rfl

theorem WorkStep.delivered (h : WorkStep b d b' d' o) (hiFirst : Bool)
    (hw : d.txWork.overrunning = true ∨ wakerOf d (.work hiFirst) = some .txWork) : d'.txWork.delivered = true := by
  have hpc : (∃ len lost snap, d.txWork = .overrun len lost snap) ∨ ∃ burst snap, d.txWork = .deliver burst snap := by
    rcases hw with hw | hw
    · unfold TxPc.overrunning at hw
      split at hw
      · exact .inl ⟨_, _, _, ‹_›⟩
      · cases hw
    · simp only [wakerOf] at hw
      split at hw
      · exact .inr ⟨_, _, ‹_›⟩
      · cases hw
  rcases hpc with ⟨len, lost, snap, hpc⟩ | ⟨burst, snap, hpc⟩
  · cases h with
    | overrun => rfl
    | _ => simp_all
  · cases h with
    | deliver | deliverPart => rfl
    | _ => simp_all

end Keep

section Step

variable {s t : Wq} {o : List Obs}

theorem owing_none (owes : Waker → Bool) : owing owes none = owes := by
  funext w
  simp [owing]

theorem owing_of_owes {owes : Waker → Bool} {w : Waker} (h : owes w = true) (w' : Option Waker) :
    owing owes w' w = true := by
  simp [owing, h]

theorem wqOk_start : WqOk wqStart := by
  constructor
  · rfl
  · rintro w ⟨⟩
  · rintro w ⟨⟩
  · intro h
    cases h

theorem machine_paired {s t : Sys} {a : Act} {o : List Obs} {sleepers : List (Waiter Cond)}
    (hm : Uart.machine s a = some (t, o)) (hp : sleepers.length = s.dev.readers.length) :
    (resleep sleepers a).length = t.dev.readers.length := by
  obtain ⟨hiFirst, rfl, hw⟩ | ⟨b, rfl, -, hd, rfl⟩ | ⟨-, hd⟩ := machine_cases hm
  · rw [hw.readers]
    exact hp
  · rw [hd]
    exact hp
  · exact hd.paired hp

theorem machine_delivered {s t : Sys} {a : Act} {o : List Obs} {owes : Waker → Bool}
    (hm : Uart.machine s a = some (t, o)) (hd : owes .txWork = true → s.dev.txWork.delivered = true)
    (hw : ∀ hiFirst, a = .work hiFirst → owes .txWork = true → s.dev.txWork.overrunning = true)
    (ho : owing owes (wakerOf s.dev a) .txWork = true) : t.dev.txWork.delivered = true := by
  simp only [owing, Bool.or_eq_true, decide_eq_true_eq] at ho
  obtain ⟨hiFirst, rfl, hst⟩ | ⟨b, rfl, -, hdev, rfl⟩ | ⟨hne, hst⟩ := machine_cases hm
  · rcases ho with ho | ho
    · exact hst.delivered hiFirst (.inl (hw hiFirst rfl ho))
    · exact hst.delivered hiFirst (.inr ho)
  · rw [hdev]
    rcases ho with ho | ho
    · exact hd ho
    · cases ho
  · have howed : owes .txWork = true := by
      rcases ho with ho | ho
      · exact ho
      · unfold wakerOf at ho
        split at ho
        · exact absurd hst DevStep.not_work
        · split at ho <;> cases ho
        · split at ho <;> cases ho
        · cases ho
    rcases hst.txWork_kept with hk | hk
    · rw [hk]
      exact hd howed
    · have := hd howed
      rw [hk] at this
      cases this

theorem WqOk.machine (h : WqOk s) {a : Act} {u : Sys} (hm : Uart.machine s.sys a = some (u, o))
    (hw : ∀ hiFirst, a = .work hiFirst → s.owes .txWork = true → s.sys.dev.txWork.overrunning = true) :
    WqOk ⟨u, resleep s.sleepers a, s.pollers, owing s.owes (wakerOf s.sys.dev a)⟩ := by
  have hstep {w : Waiter Cond} (hc : Covered (fun c => s.sys.dev.holds c = true) s.Owed w) :
      Covered (fun c => u.dev.holds c = true) (∃ w, owing s.owes (wakerOf s.sys.dev a) w = true) w := by
    refine hc.step (fun c hh => ?_) ?_
    · rcases machine_raises hm hh with hh | ⟨w, hw⟩
      · exact .inl hh
      · exact .inr ⟨w, by simp [owing, hw]⟩
    · rintro ⟨w, ho⟩
      exact ⟨w, owing_of_owes ho _⟩
  constructor
  · exact machine_paired hm h.paired
  · intro w hmem
    rcases resleep_mem hmem with hmem | rfl
    · exact hstep (h.sleepers w hmem)
    · exact covered_fresh
  · exact fun w hmem => hstep (h.pollers w hmem)
  · exact machine_delivered hm h.delivered hw

theorem WqOk.set_sleeper (h : WqOk s) {k : ℕ} {w : Waiter Cond}
    (hw : Covered (fun c => s.sys.dev.holds c = true) s.Owed w) : WqOk { s with sleepers := s.sleepers.set k w } := by
  refine ⟨(List.length_set).trans h.paired, fun w' hmem => ?_, h.pollers, h.delivered⟩
  rcases List.mem_or_eq_of_mem_set hmem with hmem | rfl
  · exact h.sleepers w' hmem
  · exact hw

theorem WqOk.set_pollers (h : WqOk s) {pollers : List (Waiter Cond)}
    (hp : ∀ w ∈ pollers, w ∈ s.pollers ∨ Covered (fun c => s.sys.dev.holds c = true) s.Owed w) :
    WqOk { s with pollers } := by
  refine ⟨h.paired, h.sleepers, fun w hmem => ?_, h.delivered⟩
  rcases hp w hmem with hmem | hc
  · exact h.pollers w hmem
  · exact hc

theorem WqOk.set_poller (h : WqOk s) {k : ℕ} {w : Waiter Cond}
    (hw : Covered (fun c => s.sys.dev.holds c = true) s.Owed w) : WqOk { s with pollers := s.pollers.set k w } := by
  apply h.set_pollers
  intro w' hmem
  rcases List.mem_or_eq_of_mem_set hmem with hmem | rfl
  · exact .inl hmem
  · exact .inr hw

theorem WqOk.drop_poller (h : WqOk s) (k : ℕ) : WqOk { s with pollers := s.pollers.eraseIdx k } :=
  h.set_pollers (fun _ hmem => .inl (List.mem_of_mem_eraseIdx hmem))

theorem WqOk.wake (h : WqOk s) (w : Waker) : WqOk (s.wokenBy w) := by
  constructor
  · exact (List.length_map _).trans h.paired
  · intro w' hmem
    obtain ⟨v, -, rfl⟩ := List.mem_map.mp hmem
    exact covered_wake v
  · intro w' hmem
    obtain ⟨v, -, rfl⟩ := List.mem_map.mp hmem
    exact covered_wake v
  · intro ho
    have ho' : Function.update s.owes w false .txWork = true := ho
    by_cases hw : w = .txWork
    · subst hw
      simp at ho'
    · rw [Function.update_of_ne (Ne.symm hw)] at ho'
      exact h.delivered ho'

theorem WqOk.signalled (h : WqOk s) {k : ℕ} {pc : ReadPc} : WqOk { s with
    sys := { s.sys with dev := { s.sys.dev with readers := s.sys.dev.readers.set k pc } } } :=
  ⟨h.paired.trans List.length_set.symm, fun w hmem hq c hc hh => h.sleepers w hmem hq c hc (by cases c <;> exact hh),
    fun w hmem hq c hc hh => h.pollers w hmem hq c hc (by cases c <;> exact hh), h.delivered⟩

theorem wqMachine_ok {a : WqAct} (h : WqOk s) (hm : wqMachine s a = some (t, o)) : WqOk t := by
  cases a with
  | act a =>
    simp only [wqMachine, wqStep] at hm
    split at hm
    · rename_i hall
      obtain ⟨⟨u, o'⟩, hu, hr⟩ := Option.map_eq_some_iff.mp hm
      cases hr
      apply h.machine hu
      rintro hiFirst rfl ho
      simpa [allowed, ho] using hall
    · cases hm
  | prepare k =>
    simp only [wqMachine, wqStep] at hm
    split at hm
    · cases hm
    · split at hm <;> cases hm
      exact h.set_sleeper covered_prepare
  | test k =>
    simp only [wqMachine, wqStep] at hm
    split at hm
    · cases hm
    · rename_i w hk
      split at hm
      · cases hm
      · split at hm
        · cases hm
        · split at hm
          · obtain ⟨⟨u, o'⟩, hu, hr⟩ := Option.map_eq_some_iff.mp hm
            cases hr
            have hok := h.machine hu (by rintro hiFirst ⟨⟩)
            have hnone : wakerOf s.sys.dev (.reader k true) = none := rfl
            rw [hnone, owing_none] at hok
            exact hok
          · rename_i hc
            cases hm
            exact h.set_sleeper ((h.sleepers w (List.mem_of_getElem? hk)).test hc)
  | signal k =>
    simp only [wqMachine, wqStep] at hm
    split at hm
    · cases hm
    · split at hm <;> cases hm
      exact h.signalled.set_sleeper covered_fresh
  | poll =>
    simp only [wqMachine, wqStep] at hm
    split at hm <;> cases hm
    apply h.set_pollers
    intro w hmem
    rcases List.mem_append.mp hmem with hmem | hmem
    · exact .inl hmem
    · rw [List.mem_singleton.mp hmem]
      exact .inr covered_prepare
  | pollPrepare k =>
    simp only [wqMachine, wqStep] at hm
    split at hm
    · cases hm
    · split at hm <;> cases hm
      exact h.set_poller covered_prepare
  | pollTest k =>
    simp only [wqMachine, wqStep] at hm
    split at hm
    · cases hm
    · rename_i w hk
      split at hm
      · cases hm
      · split at hm
        · cases hm
          exact h.drop_poller k
        · rename_i hc
          cases hm
          exact h.set_poller ((h.pollers w (List.mem_of_getElem? hk)).test hc)
  | pollReturn k =>
    simp only [wqMachine, wqStep] at hm
    split at hm <;> cases hm
    exact h.drop_poller k
  | wake w =>
    simp only [wqMachine, wqStep] at hm
    split at hm <;> cases hm
    exact h.wake w

theorem wokenBy_awake (s : Wq) (w : Waker) :
    (∀ v ∈ (s.wokenBy w).sleepers, ¬ v.Asleep readConds) ∧ ∀ v ∈ (s.wokenBy w).pollers, ¬ v.Asleep pollConds := by
  constructor
  · intro v hmem
    obtain ⟨v, -, rfl⟩ := List.mem_map.mp hmem
    exact v.not_asleep_wake _
  · intro v hmem
    obtain ⟨v, -, rfl⟩ := List.mem_map.mp hmem
    exact v.not_asleep_wake _

theorem wqMachine_wake {w : Waker} (ho : s.owes w = true) (hc : canWake s.sys.dev w = true) :
    wqMachine s (.wake w) = some (s.wokenBy w, []) := by
  simp only [wqMachine, wqStep, ho, hc, Bool.and_self, ↓reduceIte]

theorem wqMachine_overrun {len lost : ℕ} {snap : TxSnap} (hpc : s.sys.dev.txWork = .overrun len lost snap) :
    ∃ u o, wqMachine s (.act (.work true)) = some (u, o) ∧ u.owes = s.owes ∧
      u.sys.dev.holds = s.sys.dev.holds ∧ u.sys.dev.txWork = .rearm len snap := by
  have hwaker : wakerOf s.sys.dev (.work true) = none := by simp only [wakerOf, hpc]
  have hover : (TxPc.overrun len lost snap).overrunning = true := rfl
  refine ⟨⟨⟨s.sys.bus, { s.sys.dev with
    statOverruns := s.sys.dev.statOverruns + UInt64.ofNat lost, txWork := .rearm len snap }⟩,
    s.sleepers, s.pollers, s.owes⟩, [.overran lost], ?_, rfl, ?_, rfl⟩
  · simp only [wqMachine, wqStep, allowed, hover, Bool.or_true, ↓reduceIte, Uart.machine, stepWork, hpc, hwaker,
      owing_none, resleep, Option.map_some]
  · funext c
    cases c <;> rfl

theorem canWake_of_ne {d : Dev} {w : Waker} (hw : w ≠ .txWork) : canWake d w = true := by
  cases w with
  | txWork => exact absurd rfl hw
  | portShutdown | busNotifier => rfl

theorem WqOk.awakes (h : WqOk s) {w : Waker} (hw : s.owes w = true) :
    ∃ as os t, exec wqMachine Always s as = some (t, os) ∧ OwnWake w as ∧ t.sys.dev.holds = s.sys.dev.holds ∧
      (∀ v ∈ t.sleepers, ¬ v.Asleep readConds) ∧ ∀ v ∈ t.pollers, ¬ v.Asleep pollConds := by
  by_cases hc : canWake s.sys.dev w = true
  · exact ⟨[.wake w], _, s.wokenBy w, exec_cons.mpr ⟨trivial, _, _, _, wqMachine_wake hw hc, rfl, rfl⟩,
      .inl rfl, rfl, wokenBy_awake s w⟩
  · obtain rfl : w = .txWork := by
      by_contra hne
      exact hc (canWake_of_ne hne)
    have hd := h.delivered hw
    obtain ⟨len, lost, snap, hpc⟩ : ∃ len lost snap, s.sys.dev.txWork = .overrun len lost snap := by
      unfold TxPc.delivered at hd
      split at hd
      · exact ⟨_, _, _, ‹_›⟩
      · rename_i hpc
        exact absurd (by simp only [canWake, hpc]) hc
      · cases hd
    obtain ⟨u, o, hm, howes, hholds, hrearm⟩ := wqMachine_overrun hpc
    have hwake : wqMachine u (.wake .txWork) = some (u.wokenBy .txWork, []) := by
      apply wqMachine_wake
      · rw [howes]
        exact hw
      · rw [canWake, hrearm]
    exact ⟨[.act (.work true), .wake .txWork], _, u.wokenBy .txWork,
      exec_cons.mpr ⟨trivial, u, _, _, hm, exec_cons.mpr ⟨trivial, _, _, _, hwake, rfl, rfl⟩, rfl⟩,
      .inr ⟨rfl, rfl⟩, hholds, wokenBy_awake u .txWork⟩

end Step

theorem readable_holds {d : Dev} (h : d.readable = true) {conds : List Cond} (hc : ∀ c, c ∈ conds) :
    ∃ c ∈ conds, d.holds c = true := by
  simp only [Dev.readable, Bool.or_eq_true] at h
  rcases h with (h | h) | h
  · exact ⟨.data, hc _, h⟩
  · exact ⟨.closed, hc _, h⟩
  · exact ⟨.reset, hc _, h⟩

/-- No wake-up of the wire is lost: while a reader or a poller sleeps on a readable wire, some thread of the driver
is on its way to `wake_up_interruptible`, and its own next steps end in that call, which wakes them all. -/
theorem no_lost_wakeup {os : List Obs} {s : Wq} (h : Run wqMachine Always wqStart os s) :
    (s.sys.dev.readable = true → (∃ w ∈ s.sleepers, w.Asleep readConds) ∨ (∃ w ∈ s.pollers, w.Asleep pollConds) →
      s.Owed) ∧
    (∀ w, s.owes w = true → ∃ as os t, exec wqMachine Always s as = some (t, os) ∧ OwnWake w as ∧
      t.sys.dev.holds = s.sys.dev.holds ∧ (∀ v ∈ t.sleepers, ¬ v.Asleep readConds) ∧
        ∀ v ∈ t.pollers, ¬ v.Asleep pollConds) := by
  have hok : WqOk s := h.invariant WqOk wqOk_start (fun _ _ _ _ hi _ hm => wqMachine_ok hi hm)
  constructor
  · intro hr hw
    rcases hw with ⟨w, hmem, ha⟩ | ⟨w, hmem, ha⟩
    · exact (hok.sleepers w hmem).of_asleep ha (readable_holds hr (by intro c; cases c <;> decide))
    · exact (hok.pollers w hmem).of_asleep ha (readable_holds hr (by intro c; cases c <;> decide))
  · intro w hw
    exact hok.awakes hw

def byteForSleeper : List WqAct :=
  (openPort ++ openWire ++ [Act.wireRead 16 false, .reader 0 true]).map .act ++ List.replicate 3 (.test 0) ++
    [.prepare 0] ++ List.replicate 3 (.test 0) ++ (write [65] ++ transmit 6).map .act

theorem no_lost_wakeup_sleeper : ∃ os s w, Run wqMachine Always wqStart os s ∧ s.sys.dev.readable = true ∧
    (∃ w ∈ s.sleepers, w.Asleep readConds) ∧ s.owes w = true ∧
    ∃ as os t, exec wqMachine Always s as = some (t, os) ∧ OwnWake w as ∧ t.sys.dev.holds = s.sys.dev.holds ∧
      (∀ v ∈ t.sleepers, ¬ v.Asleep readConds) ∧ ∀ v ∈ t.pollers, ¬ v.Asleep pollConds := by
  obtain ⟨os, s, hrun, hr, hs⟩ := Run.exists_of_exec (M := wqMachine) (P := Always) (s := wqStart) byteForSleeper
    (fun _ s => s.sys.dev.readable = true ∧ ∃ w ∈ s.sleepers, w.Asleep readConds) (by decide +kernel)
  obtain ⟨howed, hwake⟩ := no_lost_wakeup hrun
  obtain ⟨w, hw⟩ : s.Owed := howed hr (.inl hs)
  exact ⟨os, s, w, hrun, hr, hs, hw, hwake w hw⟩

end VirtRtLab.Uart
