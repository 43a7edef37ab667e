import VirtRtLab.Uart.Steps

namespace VirtRtLab.Uart

open Kernel VirtRtLab.Core

structure Poll where
  pollIn : Bool
  pollOut : Bool
  pollHup : Bool
  deriving DecidableEq, Repr

def wirePoll (d : Dev) : Poll where
  pollIn := !d.rxFifo.isEmpty
  pollOut := d.portActive
  pollHup := d.wireResetPending || !d.portActive

def PortPc.starting : PortPc → Bool
  | .closed | .sized _ _ | .txAlloc _ | .allocated => true
  | _ => false

structure WireView where
  rx : Bytes
  active : Bool
  starting : Bool
  reset : Bool
  wire : WirePc
  readers : List ReadPc

def Dev.wireView (d : Dev) : WireView :=
  ⟨d.rxFifo.data, d.portActive, d.port.starting, d.wireResetPending, d.wire, d.readers⟩

def WireView.readable (v : WireView) : Bool := !v.rx.isEmpty || !v.active || v.reset

/-- `epoll_wait` reports the wire exactly when a blocking read would not sleep. -/
theorem wirePoll_readable (d : Dev) : ((wirePoll d).pollIn || (wirePoll d).pollHup) = d.readable := by
  simp only [wirePoll, Dev.readable]
  cases d.rxFifo.isEmpty <;> cases d.portActive <;> cases d.wireResetPending <;> rfl

def ReadPc.bytes : ReadPc → Bytes
  | .ret (.ok bs) => bs
  | _ => []

inductive WireStep (d : Dev) : Act → WireView → List Obs → Prop
  | quiet (a o) (ho : ∀ bs, .queued bs ∉ o) : WireStep d a d.wireView o
  | queued (hiFirst) (burst : Bytes) : WireStep d (.work hiFirst)
      { d.wireView with rx := d.rxFifo.data ++ burst.take (d.rxFifo.room burst) }
      [.queued (burst.take (d.rxFifo.room burst))]
  | alloc (ok rxSz) (hp : d.port = .txAlloc rxSz) :
      WireStep d (.port ok) { d.wireView with rx := [], starting := true } []
  | activate (ok) (hp : d.port = .allocated) : WireStep d (.port ok)
      { d.wireView with active := true, starting := false } []
  | shut (ok) : WireStep d (.port ok) { d.wireView with rx := [], active := false, starting := true } []
  | reset : WireStep d .notifier { d.wireView with reset := true } []
  | opening : WireStep d .wireOpen { d.wireView with wire := .opening } []
  | opened : WireStep d .wireOpened { d.wireView with wire := .opened, reset := false } []
  | release : WireStep d .wireRelease { d.wireView with rx := [], wire := .releasing } []
  | released : WireStep d .wireReleased { d.wireView with wire := .closed } []
  | readCall (count nonblock) : WireStep d (.wireRead count nonblock)
      { d.wireView with readers := d.readers ++ [.called count nonblock] } []
  | readGoesOn (k ok pc pc') (hk : d.readers[k]? = some pc) (hn : ∀ r, pc ≠ .ret r) (hb : pc'.bytes = []) :
      WireStep d (.reader k ok) { d.wireView with readers := d.readers.set k pc' } []
  | readTakes (k ok rdSz nonblock r) (hk : d.readers[k]? = some (.locked rdSz nonblock))
      (hr : r = .ok (d.rxFifo.front rdSz) ∨ r = .error .efault) :
      WireStep d (.reader k ok)
        { d.wireView with rx := d.rxFifo.data.drop rdSz, readers := d.readers.set k (.ret r) }
        [.wireRead (d.rxFifo.front rdSz)]
  | readReturn (k r) (hk : d.readers[k]? = some (.ret r)) : WireStep d (.readReturn k)
      { d.wireView with readers := d.readers.eraseIdx k } [.returned r]

theorem WorkStep.wire {b b' : Bus} {d d' : Dev} {o : List Obs} (h : WorkStep b d b' d' o) (hiFirst : Bool) :
    WireStep d (.work hiFirst) d'.wireView o := by
  cases h with
  | deliver hpc hr => exact .queued hiFirst _
  | deliverPart hpc hr => exact .queued hiFirst _
  | _ => exact .quiet _ _ (by simp)

theorem quiet_of_wireView {d d' : Dev} (a : Act) {o : List Obs} (hv : d'.wireView = d.wireView)
    (ho : ∀ bs, .queued bs ∉ o) : WireStep d a d'.wireView o := by
  rw [hv]
  exact .quiet _ _ ho

theorem quiet_of_port {d : Dev} {e : Dev} (a : Act) {o : List Obs} (hv : e.wireView = { d.wireView with
    starting := e.port.starting }) (hp : e.port.starting = d.port.starting) (ho : ∀ bs, .queued bs ∉ o) :
    WireStep d a e.wireView o := by
  apply quiet_of_wireView a _ ho
  rw [hv, hp]
  rfl

theorem wireView_zeroStat (d : Dev) (st : Stat) : (d.zeroStat st).wireView = d.wireView := by
  cases st <;> rfl

theorem DevStep.wire {b : Bus} {d d' : Dev} {a : Act} {o : List Obs} (h : DevStep b d a d' o) :
    WireStep d a d'.wireView o := by
  cases h with
  | portActivate hp | txAlloc hp | txAllocFails hp | rxAllocFails hp | portShutdown hp | shutWork hp | shutLen hp
  | shutCount hp | shutTx hp => exact quiet_of_port _ rfl (by rw [hp]; rfl) (by simp)
  | rxAlloc hp => exact .alloc true _ hp
  | portActive hp => exact .activate _ hp
  | shutRx => exact .shut _
  | wireOpen => exact .opening
  | wireOpened => exact .opened
  | wireRelease => exact .release
  | wireReleased => exact .released
  | readCall => exact .readCall _ _
  | @readGoesOn k ok pc pc' hk hs hb =>
    apply WireStep.readGoesOn k ok pc pc' hk
    · rintro r rfl
      cases hs
    · unfold ReadPc.bytes
      split
      · exact hb _ rfl
      · rfl
  | @readTakes k ok rdSz nonblock hk =>
    apply WireStep.readTakes k ok rdSz nonblock _ hk
    cases ok with
    | true => exact .inl rfl
    | false => exact .inr rfl
  | readReturn hk => exact .readReturn _ _ hk
  | resetWire => exact .reset
  | resetStat | resetZero => exact quiet_of_wireView _ (wireView_zeroStat d _) (by simp)
  | _ => exact .quiet _ _ (by simp)

theorem machine_wire {s t : Sys} {a : Act} {o : List Obs} (h : machine s a = some (t, o)) :
    WireStep s.dev a t.dev.wireView o := by
  obtain ⟨hiFirst, rfl, hw⟩ | ⟨b, -, -, hd, rfl⟩ | ⟨-, hd⟩ := machine_cases h
  · exact hw.wire hiFirst
  · rw [hd]
    exact .quiet _ _ (by simp)
  · exact hd.wire

def WireView.PortOk (v : WireView) : Prop := v.starting = true → v.active = false

theorem starting_of_port {d : Dev} {rxSz : UInt32} (h : d.port = .txAlloc rxSz) : d.wireView.starting = true :=
  congrArg PortPc.starting h

theorem WireStep.portOk {d : Dev} {a : Act} {v : WireView} {o : List Obs} (h : WireStep d a v o)
    (hp : d.wireView.PortOk) : v.PortOk := by
  cases h with
  | alloc ok rxSz hport =>
    intro _
    exact hp (starting_of_port hport)
  | activate ok hport =>
    intro hs
    cases hs
  | shut ok =>
    intro _
    rfl
  | _ => exact hp

theorem WireStep.readers {d : Dev} {a : Act} {v : WireView} {o : List Obs} (h : WireStep d a v o) :
    v.readers = d.readers ∨
    (∃ count nonblock, a = .wireRead count nonblock ∧ v.readers = d.readers ++ [.called count nonblock]) ∨
    (∃ k ok pc, a = .reader k ok ∧ v.readers = d.readers.set k pc) ∨ ∃ k, a = .readReturn k := by
  cases h with
  | readCall count nonblock => exact .inr (.inl ⟨count, nonblock, rfl, rfl⟩)
  | readGoesOn k ok pc pc' hk hn hb => exact .inr (.inr (.inl ⟨k, ok, pc', rfl, rfl⟩))
  | readTakes k ok rdSz nonblock r hk hr => exact .inr (.inr (.inl ⟨k, ok, .ret r, rfl, rfl⟩))
  | readReturn k r hk => exact .inr (.inr (.inr ⟨k, rfl⟩))
  | _ => exact .inl rfl

/-- `wire_open_count` is 1 from the `atomic_cmpxchg` of an open to the end of the release, and only an open wire
is read. -/
structure Dev.WireOk (d : Dev) : Prop where
  count : d.wireOpenCount = if d.wire = .closed then 0 else 1
  inside : d.wire ≠ .opened → d.readers = []

section

variable {b b' : Bus} {d d' : Dev} {a : Act} {o : List Obs}

theorem Dev.WireOk.frame (h : d.WireOk) (he : (d'.wireOpenCount, d'.wire, d'.readers) =
    (d.wireOpenCount, d.wire, d.readers)) : d'.WireOk := by
  simp only [Prod.mk.injEq] at he
  obtain ⟨hc, hw, hr⟩ := he
  constructor
  · rw [hc, hw]; exact h.count
  · rw [hw, hr]; exact h.inside

theorem Dev.WireOk.closed (h : d.WireOk) (hc : d.wireOpenCount = 0) : d.wire = .closed := by
  by_contra hne
  have hcount := h.count
  rw [if_neg hne, hc] at hcount
  cases hcount

theorem Dev.WireOk.open (h : d.WireOk) (hw : d.wire ≠ .closed) : d.wireOpenCount = 1 := by
  rw [h.count, if_neg hw]

theorem Dev.WireOk.reading (h : d.WireOk) {k : ℕ} {pc : ReadPc} (hk : d.readers[k]? = some pc) : d.wire = .opened := by
  by_contra hne
  rw [h.inside hne] at hk
  cases hk

theorem Dev.WireOk.readers (h : d.WireOk) (hc : d'.wireOpenCount = d.wireOpenCount) (hw : d'.wire = d.wire)
    (ho : d.wire = .opened) : d'.WireOk := by
  constructor
  · rw [hc, hw]; exact h.count
  · intro hne
    exact absurd (hw.trans ho) hne

theorem DevStep.wireOk (h : DevStep b d a d' o) (hd : d.WireOk) : d'.WireOk := by
  cases h with
  | wireOpen hc => exact ⟨rfl, fun _ => hd.inside (by simp [hd.closed hc])⟩
  | wireOpened hw => exact ⟨hd.open (by simp [hw]), fun hne => absurd rfl hne⟩
  | wireRelease hw hr => exact ⟨hd.open (by simp [hw]), fun _ => hr⟩
  | wireReleased hw => exact ⟨rfl, fun _ => hd.inside (by simp [hw])⟩
  | readCall hw => exact hd.readers rfl rfl hw
  | readGoesOn hk | readTakes hk | readReturn hk => exact hd.readers rfl rfl (hd.reading hk)
  | @resetStat k st | @resetZero st => cases st <;> exact hd.frame rfl
  | _ => exact hd.frame rfl

theorem WorkStep.wireOk (h : WorkStep b d b' d' o) (hd : d.WireOk) : d'.WireOk := by
  cases h <;> exact hd.frame rfl

end

theorem machine_wireOk {s t : Sys} {a : Act} {o : List Obs} (h : machine s a = some (t, o)) (hs : s.dev.WireOk) :
    t.dev.WireOk := by
  obtain ⟨hiFirst, -, hw⟩ | ⟨b, -, -, hd, -⟩ | ⟨-, hd⟩ := machine_cases h
  · exact hw.wireOk hs
  · rwa [hd]
  · exact hd.wireOk hs

theorem wireOk_init : Dev.init.WireOk := ⟨rfl, fun _ => rfl⟩

def ReadPc.Honest (reset : Bool) : ReadPc → Prop
  | .called count _ => count ≠ 0
  | .ret r => r = .ok [] → reset = true
  | _ => True

theorem ReadPc.Honest.mono {pc : ReadPc} {reset reset' : Bool} (h : pc.Honest reset)
    (hr : reset = true → reset' = true) : pc.Honest reset' := by
  cases pc with
  | ret r => exact fun he => hr (h he)
  | called | wait | woken | locked => exact h

section

variable {b b' : Bus} {d d' : Dev} {a : Act} {o : List Obs} {reset : Bool}

theorem stepRead_honest {pc pc' : ReadPc} {ok : Bool} (hs : stepRead d pc ok = some (d, pc', []))
    (hh : pc.Honest reset) (hp : d.wireResetPending = true → reset = true)
    (hl : ∀ rdSz nonblock, pc = .locked rdSz nonblock → d.portActive = true ∨ d.wireResetPending = true) :
    pc'.Honest reset := by
  cases pc with
  | called count nonblock =>
    have hc : count ≠ 0 := hh
    simp only [stepRead, hc, ↓reduceIte] at hs
    split at hs
    · cases hs
      exact fun _ => hp ‹_›
    · split at hs
      · cases hs
        exact fun he => by cases he
      · split at hs <;> cases hs <;> trivial
  | wait rdSz =>
    simp only [stepRead] at hs
    split at hs
    · cases hs
      trivial
    · split at hs <;> cases hs
      exact fun he => by cases he
  | woken rdSz =>
    simp only [stepRead] at hs
    split at hs <;> cases hs
    · exact fun _ => hp ‹_›
    · trivial
  | locked rdSz nonblock =>
    simp only [stepRead] at hs
    split at hs
    · rename_i ha
      cases hs
      intro _
      rcases hl rdSz nonblock rfl with hactive | hpending
      · simp [hactive] at ha
      · exact hp hpending
    · split at hs
      · split at hs <;> cases hs
        · exact fun he => by cases he
        · trivial
      · simp at hs
  | ret r => cases hs

theorem DevStep.honest (h : DevStep b d a d' o) (hh : ∀ pc ∈ d.readers, pc.Honest reset)
    (hp : d.wireResetPending = true → reset = true) (hc : ∀ count nonblock, a = .wireRead count nonblock → count ≠ 0)
    (hl : ∀ k ok rdSz nonblock, a = .reader k ok → d.readers[k]? = some (.locked rdSz nonblock) →
      d.portActive = true ∨ d.wireResetPending = true) : ∀ pc ∈ d'.readers, pc.Honest reset := by
  have hset (k : ℕ) {pc : ReadPc} (hpc : pc.Honest reset) : ∀ x ∈ d.readers.set k pc, x.Honest reset := by
    intro x hx
    rcases List.mem_or_eq_of_mem_set hx with hx | rfl
    · exact hh x hx
    · exact hpc
  cases h with
  | @readCall count nonblock hw =>
    intro pc hpc
    rcases List.mem_append.mp hpc with hpc | hpc
    · exact hh pc hpc
    · rw [List.mem_singleton.mp hpc]
      exact hc count nonblock rfl
  | @readGoesOn k ok pc pc' hk hs hb =>
    apply hset k
    apply stepRead_honest hs (hh pc (List.mem_of_getElem? hk)) hp
    rintro rdSz nonblock rfl
    exact hl k ok rdSz nonblock rfl hk
  | @readTakes k ok rdSz nonblock hk ha hf =>
    apply hset k
    intro he
    cases ok with
    | true => exact absurd (Except.ok.inj he) hf
    | false => cases he
  | readReturn => exact fun pc hpc => hh pc (List.mem_of_mem_eraseIdx hpc)
  | @resetStat k st | @resetZero st => cases st <;> exact hh
  | _ => exact hh

end

theorem WorkStep.pending {b b' : Bus} {d d' : Dev} {o : List Obs} (h : WorkStep b d b' d' o) :
    d'.wireResetPending = d.wireResetPending := by
  cases h <;> rfl

theorem WorkStep.readers {b b' : Bus} {d d' : Dev} {o : List Obs} (h : WorkStep b d b' d' o) :
    d'.readers = d.readers := by
  cases h <;> rfl

theorem DevStep.pending {b : Bus} {d d' : Dev} {a : Act} {o : List Obs} (h : DevStep b d a d' o)
    (hp : d'.wireResetPending = true) :
    d.wireResetPending = true ∧ a ≠ .wireOpened ∨ a = .notifier ∧ d.notifier = .resetStats [] := by
  cases h with
  | wireOpened => cases hp
  | resetWire hn => exact .inr ⟨rfl, hn⟩
  | @resetStat k st | @resetZero st => cases st <;> exact .inl ⟨hp, by simp⟩
  | refused ha =>
    refine .inl ⟨hp, ?_⟩
    rintro rfl
    cases ha
  | _ => exact .inl ⟨hp, by simp⟩

theorem machine_pending {s t : Sys} {a : Act} {o : List Obs} (h : machine s a = some (t, o))
    (hp : t.dev.wireResetPending = true) :
    s.dev.wireResetPending = true ∧ a ≠ .wireOpened ∨ a = .notifier ∧ s.dev.notifier = .resetStats [] := by
  obtain ⟨hiFirst, rfl, hw⟩ | ⟨b, rfl, -, hd, -⟩ | ⟨-, hd⟩ := machine_cases h
  · exact .inl ⟨hw.pending ▸ hp, by simp⟩
  · rw [hd] at hp
    exact .inl ⟨hp, by simp⟩
  · exact hd.pending hp

theorem machine_honest {s t : Sys} {a : Act} {o : List Obs} {reset : Bool} (h : machine s a = some (t, o))
    (hh : ∀ pc ∈ s.dev.readers, pc.Honest reset) (hp : s.dev.wireResetPending = true → reset = true)
    (hc : ∀ count nonblock, a = .wireRead count nonblock → count ≠ 0)
    (hl : ∀ k ok rdSz nonblock, a = .reader k ok → s.dev.readers[k]? = some (.locked rdSz nonblock) →
      s.dev.portActive = true ∨ s.dev.wireResetPending = true) : ∀ pc ∈ t.dev.readers, pc.Honest reset := by
  obtain ⟨hiFirst, rfl, hw⟩ | ⟨b, rfl, -, hd, -⟩ | ⟨-, hd⟩ := machine_cases h
  · rw [hw.readers]
    exact hh
  · rw [hd]
    exact hh
  · exact hd.honest hh hp hc hl

end VirtRtLab.Uart
