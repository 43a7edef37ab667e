import VirtRtLab.Uart.Attributes

namespace VirtRtLab.Uart

open Kernel VirtRtLab.Core Transition

/-- The sizes that sysfs reports are those of the live kfifos. In `shutRx` the port is going down: `tx_fifo` is freed
already, and `port_active` is cleared next. -/
def LiveSizes (d : Dev) : Prop :=
  d.portActive = true → d.rxFifo.size = d.rxBufSz.toNat ∧ (d.port ≠ .shutRx → d.txFifo.size = d.txBufSz.toNat)

/-- A store that passed its busy test changes a size of a port that is no longer closed. -/
def lateResize (d : Dev) : Act → Bool
  | .bufSzCommit k =>
    match d.sizers[k]? with
    | some (side, val) => d.port ≠ .closed && val ≠ d.bufSz side
    | none => false
  | _ => false

def NoLateResize (s : Sys) (a : Act) : Prop := lateResize s.dev a = false

instance (s : Sys) (a : Act) : Decidable (NoLateResize s a) := inferInstanceAs (Decidable (_ = _))

structure SizeView where
  port : PortPc
  active : Bool
  txBufSz : UInt32
  rxBufSz : UInt32
  txSize : ℕ
  rxSize : ℕ

def Dev.sizeView (d : Dev) : SizeView :=
  ⟨d.port, d.portActive, d.txBufSz, d.rxBufSz, d.txFifo.size, d.rxFifo.size⟩

def SizeView.Held (v : SizeView) : Prop :=
  match v.port with
  | .closed => v.active = false
  | .sized txSz rxSz => v.active = false ∧ txSz = v.txBufSz ∧ rxSz = v.rxBufSz
  | .txAlloc rxSz => v.active = false ∧ v.txSize = v.txBufSz.toNat ∧ rxSz = v.rxBufSz
  | .shutRx => v.rxSize = v.rxBufSz.toNat
  | _ => v.txSize = v.txBufSz.toNat ∧ v.rxSize = v.rxBufSz.toNat

theorem live_of_held {d : Dev} (h : d.sizeView.Held) : LiveSizes d := by
  intro ha
  unfold SizeView.Held Dev.sizeView at h
  cases hp : d.port with
  | closed =>
    simp only [hp, ha] at h
    cases h
  | sized txSz rxSz =>
    simp only [hp, ha] at h
    cases h.1
  | txAlloc rxSz =>
    simp only [hp, ha] at h
    cases h.1
  | shutRx =>
    simp only [hp] at h
    exact ⟨h, fun hne => absurd rfl hne⟩
  | _ =>
    simp only [hp] at h
    exact ⟨h.2, fun _ => h.1⟩

theorem WorkStep.sizeView {b b' : Bus} {d d' : Dev} {o : List Obs} (h : WorkStep b d b' d' o) :
    d'.sizeView = d.sizeView := by
  cases h <;> rfl

theorem sizeView_zeroStat (d : Dev) (st : Stat) : (d.zeroStat st).sizeView = d.sizeView := by
  cases st <;> rfl

theorem resize_cases {d : Dev} {k : ℕ} {side : BufSide} {val : UInt32} (hk : d.sizers[k]? = some (side, val))
    (hl : lateResize d (.bufSzCommit k) = false) : d.port = .closed ∨ val = d.bufSz side := by
  simp only [lateResize, hk, Bool.and_eq_false_iff, decide_eq_false_iff_not, not_not] at hl
  exact hl

theorem held_of_closed {d d' : Dev} (hp : d.port = .closed) (hp' : d'.port = .closed)
    (ha : d'.portActive = d.portActive) (h : d.sizeView.Held) : d'.sizeView.Held := by
  unfold SizeView.Held Dev.sizeView at h ⊢
  simp only [hp, hp', ha] at h ⊢
  exact h

theorem DevStep.held {b : Bus} {d d' : Dev} {a : Act} {o : List Obs} (h : DevStep b d a d' o)
    (hl : lateResize d a = false) (hd : d.sizeView.Held) : d'.sizeView.Held := by
  cases h with
  | portActivate hp =>
    unfold SizeView.Held Dev.sizeView at hd ⊢
    simp only [hp] at hd ⊢
    exact ⟨hd, trivial, trivial⟩
  | txAlloc hp =>
    unfold SizeView.Held Dev.sizeView at hd ⊢
    simp only [hp] at hd ⊢
    exact ⟨hd.1, congrArg UInt32.toNat hd.2.1, hd.2.2⟩
  | rxAlloc hp =>
    unfold SizeView.Held Dev.sizeView at hd ⊢
    simp only [hp] at hd ⊢
    exact ⟨hd.2.1, congrArg UInt32.toNat hd.2.2⟩
  | txAllocFails hp | rxAllocFails hp =>
    unfold SizeView.Held Dev.sizeView at hd ⊢
    simp only [hp] at hd ⊢
    exact hd.1
  | portActive hp | portShutdown hp | shutWork hp | shutLen hp | shutCount hp =>
    unfold SizeView.Held Dev.sizeView at hd ⊢
    simp only [hp] at hd ⊢
    exact hd
  | shutTx hp =>
    unfold SizeView.Held Dev.sizeView at hd ⊢
    simp only [hp] at hd ⊢
    exact hd.2
  | shutRx hp => rfl
  | bufSzTx hk | bufSzRx hk =>
    rcases resize_cases hk hl with hp | rfl
    · exact held_of_closed hp hp rfl hd
    · exact hd
  | resetStat hk | resetZero hn =>
    show (d.zeroStat _).sizeView.Held
    rw [sizeView_zeroStat]
    exact hd
  | _ => exact hd

theorem machine_held {s t : Sys} {a : Act} {o : List Obs} (hm : machine s a = some (t, o)) (hl : NoLateResize s a)
    (h : s.dev.sizeView.Held) : t.dev.sizeView.Held := by
  obtain ⟨hiFirst, rfl, hw⟩ | ⟨b, -, -, hd, -⟩ | ⟨-, hd⟩ := machine_cases hm
  · rw [hw.sizeView]
    exact h
  · rw [hd]
    exact h
  · exact hd.held hl h

theorem live_sizes {s : Sys} {os : List Obs} (h : Run machine NoLateResize start os s) : LiveSizes s.dev := by
  apply live_of_held
  apply h.invariant (fun s => s.dev.sizeView.Held)
  · rfl
  · intro s a t o hs hp hm
    exact machine_held hm hp hs

def resizeTx : List Act := [.bufSzStore .tx [49, 50, 56], .bufSzCommit 0]

theorem live_sizes_resized : ∃ os s, Run machine NoLateResize start os s ∧ s.dev.portActive = true ∧
    s.dev.txBufSz = 128 ∧ LiveSizes s.dev := by
  obtain ⟨os, s, hrun, ha, htx⟩ := Run.exists_of_exec (M := machine) (P := NoLateResize) (s := start)
    (resizeTx ++ openPort) (fun _ s => s.dev.portActive = true ∧ s.dev.txBufSz = 128) (by decide +kernel)
  exact ⟨os, s, hrun, ha, htx, live_sizes hrun⟩

theorem store_overtaken_by_open : ¬∀ (os : List Obs) (s : Sys), Run machine Always start os s → LiveSizes s.dev := by
  intro hall
  obtain ⟨os, s, hrun, ha, hp, htx, hsz⟩ := Run.exists_of_exec (M := machine) (P := Always) (s := start)
    ([.bufSzStore .tx [49, 50, 56]] ++ openPort ++ [.bufSzCommit 0])
    (fun _ s => s.dev.portActive = true ∧ s.dev.port = .opened ∧ s.dev.txBufSz = 128 ∧ s.dev.txFifo.size = 4096)
    (by decide +kernel)
  have hlive := (hall os s hrun ha).2 (by simp [hp])
  rw [htx, hsz] at hlive
  exact absurd hlive (by decide)

end VirtRtLab.Uart
