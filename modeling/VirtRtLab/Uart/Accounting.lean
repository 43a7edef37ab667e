import VirtRtLab.Uart.Steps

namespace VirtRtLab.Uart

open Kernel VirtRtLab.Core Transition

def Obs.acceptedLen : Obs → ℕ
  | .accepted bs => bs.length
  | _ => 0

def Obs.queuedLen : Obs → ℕ
  | .queued bs => bs.length
  | _ => 0

def Obs.overranLen : Obs → ℕ
  | .overran n => n
  | _ => 0

def Obs.rxOverranLen : Obs → ℕ
  | .rxOverran n => n
  | _ => 0

def Obs.droppedLen : Obs → ℕ
  | .dropped n => n
  | _ => 0

def total (f : Obs → ℕ) (os : List Obs) : ℕ := (os.map f).sum

@[simp] theorem total_nil (f : Obs → ℕ) : total f [] = 0 := rfl

@[simp] theorem total_cons (f : Obs → ℕ) (o : Obs) (os : List Obs) : total f (o :: os) = f o + total f os := by
  simp [total]

@[simp] theorem total_append (f : Obs → ℕ) (os os' : List Obs) : total f (os ++ os') = total f os + total f os' := by
  simp [total]

-- the overrun of a burst is part of it until it is counted
def TxPc.undecided : TxPc → ℕ
  | .dequeued burst | .counted burst | .gates burst _ | .flip burst _ | .flipBit burst _ _ | .deliver burst _ =>
    burst.length
  | .drop len _ => len
  | .overrun _ lost _ => lost
  | _ => 0

def NotifierPc.undecided : NotifierPc → ℕ
  | .downCount pending => pending
  | _ => 0

-- between its count and `kfifo_free`, `virtrtlab_port_shutdown` has given up on what is still queued
def inTxFifo (d : Dev) : ℕ :=
  match d.port with
  | .shutTx _ => 0
  | _ => d.txFifo.len

def undecided (d : Dev) : ℕ := d.txWork.undecided + d.notifier.undecided

structure Balanced (d₀ : Dev) (os : List Obs) (d : Dev) : Prop where
  bytes : UInt64.ofNat (inTxFifo d₀ + undecided d₀ + total Obs.acceptedLen os) =
    UInt64.ofNat (inTxFifo d) + UInt64.ofNat (undecided d) + UInt64.ofNat (total Obs.queuedLen os) +
      UInt64.ofNat (total Obs.overranLen os) + d.statDrops
  overruns : d.statOverruns = UInt64.ofNat (total Obs.overranLen os) + UInt64.ofNat (total Obs.rxOverranLen os)

def zeroes (d : Dev) : Act → Bool
  | .resetStore _ | .resetStat _ | .notify .reset => true
  | .notifier =>
    match d.notifier with
    | .resetWork | .resetFlush | .resetAttrs | .resetStats _ => true
    | _ => false
  | _ => false

def NoReset (s : Sys) (a : Act) : Prop := zeroes s.dev a = false

instance (s : Sys) (a : Act) : Decidable (NoReset s a) := inferInstanceAs (Decidable (_ = _))

def movesTx (d : Dev) : Act → Bool
  | .writer k =>
    match d.writers[k]? with
    | some (.ready buf _) => d.txFifo.room buf != 0
    | _ => false
  | .work _ => d.txWork = .entered && !d.txFifo.isEmpty
  | .notifier => d.notifier = .downFlush && !d.txFifo.isEmpty
  | _ => false

def portBusy (d : Dev) : Bool :=
  match d.port with
  | .txAlloc _ | .shutCount _ | .shutTx _ => true
  | _ => false

/-- Nobody moves a byte into or out of `tx_fifo` while the port counts or frees it. -/
def Undisturbed (s : Sys) (a : Act) : Prop := portBusy s.dev = true → movesTx s.dev a = false

instance (s : Sys) (a : Act) : Decidable (Undisturbed s a) := inferInstanceAs (Decidable (_ → _))

def Accountable (s : Sys) (a : Act) : Prop := NoReset s a ∧ Undisturbed s a

instance (s : Sys) (a : Act) : Decidable (Accountable s a) := inferInstanceAs (Decidable (_ ∧ _))

def PortAgrees (d : Dev) : Prop :=
  match d.port with
  | .closed | .sized _ _ | .shutRx => d.txFifo.size = 0
  | .txAlloc _ => d.txFifo.len = 0
  | .shutCount pending | .shutTx pending => d.txFifo.len = pending
  | _ => True

structure Books (d d' : Dev) (o : List Obs) : Prop where
  bytes : inTxFifo d + undecided d + total Obs.acceptedLen o =
    inTxFifo d' + undecided d' + total Obs.queuedLen o + total Obs.overranLen o + total Obs.droppedLen o
  drops : d'.statDrops = d.statDrops + UInt64.ofNat (total Obs.droppedLen o)
  overruns : d'.statOverruns =
    d.statOverruns + UInt64.ofNat (total Obs.overranLen o) + UInt64.ofNat (total Obs.rxOverranLen o)

def Dev.booked (d : Dev) : PortPc × Fifo UInt8 × ℕ × UInt64 × UInt64 :=
  (d.port, d.txFifo, undecided d, d.statDrops, d.statOverruns)

theorem Books.quiet {d d' : Dev} (h : d'.booked = d.booked) : Books d d' [] := by
  simp only [Dev.booked, Prod.mk.injEq] at h
  obtain ⟨hp, htx, hu, hdr, hov⟩ := h
  constructor
  · simp [inTxFifo, hp, htx, hu]
  · simp [hdr]
  · simp [hov]

theorem PortAgrees.quiet {d d' : Dev} (h : PortAgrees d) (hp : d'.port = d.port) (htx : d'.txFifo = d.txFifo) :
    PortAgrees d' := by
  unfold PortAgrees
  rw [hp, htx]
  exact h

theorem inTxFifo_of_not_busy {d : Dev} (h : portBusy d = false) : inTxFifo d = d.txFifo.len := by
  unfold portBusy at h
  unfold inTxFifo
  split at h <;> simp_all

theorem PortAgrees.of_not_busy {d d' : Dev} (h : PortAgrees d) (hb : portBusy d = false) (hp : d'.port = d.port)
    (hs : d'.txFifo.size = d.txFifo.size) : PortAgrees d' := by
  unfold PortAgrees at h ⊢
  unfold portBusy at hb
  rw [hp]
  generalize d.port = port at h hb ⊢
  cases port with
  | closed | sized | shutRx => exact hs.trans h
  | txAlloc | shutCount | shutTx => cases hb
  | _ => trivial

theorem idle_of_movesTx {d : Dev} {a : Act} (hm : portBusy d = true → movesTx d a = false)
    (ha : movesTx d a = true) : portBusy d = false := by
  by_contra hb
  have hno := hm (by simpa using hb)
  rw [ha] at hno
  cases hno

theorem Books.moves {d d' : Dev} {o : List Obs} (hidle : portBusy d = false) (hp : PortAgrees d)
    (hport : d'.port = d.port) (hs : d'.txFifo.size = d.txFifo.size)
    (hb : d.txFifo.len + undecided d + total Obs.acceptedLen o =
      d'.txFifo.len + undecided d' + total Obs.queuedLen o + total Obs.overranLen o + total Obs.droppedLen o)
    (hdr : d'.statDrops = d.statDrops + UInt64.ofNat (total Obs.droppedLen o))
    (hov : d'.statOverruns =
      d.statOverruns + UInt64.ofNat (total Obs.overranLen o) + UInt64.ofNat (total Obs.rxOverranLen o)) :
    Books d d' o ∧ PortAgrees d' := by
  have hidle' : portBusy d' = false := by
    unfold portBusy at hidle ⊢
    rwa [hport]
  constructor
  · constructor
    · rw [inTxFifo_of_not_busy hidle, inTxFifo_of_not_busy hidle']
      exact hb
    · exact hdr
    · exact hov
  · exact hp.of_not_busy hidle hport hs

theorem Books.stage {d d' : Dev} {o : List Obs} (htx : d'.txFifo = d.txFifo) (hport : d'.port = d.port)
    (hn : d'.notifier = d.notifier)
    (hb : d.txWork.undecided + total Obs.acceptedLen o =
      d'.txWork.undecided + total Obs.queuedLen o + total Obs.overranLen o + total Obs.droppedLen o)
    (hdr : d'.statDrops = d.statDrops + UInt64.ofNat (total Obs.droppedLen o))
    (hov : d'.statOverruns =
      d.statOverruns + UInt64.ofNat (total Obs.overranLen o) + UInt64.ofNat (total Obs.rxOverranLen o))
    (hp : PortAgrees d) : Books d d' o ∧ PortAgrees d' := by
  constructor
  · constructor
    · simp only [inTxFifo, undecided, htx, hport, hn]
      omega
    · exact hdr
    · exact hov
  · exact hp.quiet hport htx

theorem WorkStep.books {b b' : Bus} {d d' : Dev} {o : List Obs} {hiFirst : Bool} (h : WorkStep b d b' d' o)
    (hp : PortAgrees d) (hm : portBusy d = true → movesTx d (.work hiFirst) = false) :
    Books d d' o ∧ PortAgrees d' := by
  cases h with
  | dequeue hpc he =>
    have hne : d.txFifo.isEmpty = false := by
      simp only [Fifo.front, ne_eq, List.take_eq_nil_iff, not_or] at he
      simpa [Fifo.isEmpty] using he.2
    have hidle := idle_of_movesTx hm (by simp [movesTx, hpc, hne])
    refine Books.moves hidle hp rfl rfl ?_ (by simp) (by simp)
    simp only [undecided, hpc, TxPc.undecided, Fifo.len, Fifo.data_get, Fifo.front, total_nil,
      List.length_drop, List.length_take]
    omega
  | nothing hpc | count hpc | snap hpc | disabled hpc | noDropRate hpc | dropFires hpc | dropSpares hpc
  | noFlipRate hpc | flipFires hpc | flipSpares hpc | done hpc | noJitter hpc | jitter hpc | draw hpc
  | draw2 hpc | arm hpc | drop hpc | overrun hpc =>
    refine Books.stage rfl rfl rfl ?_ ?_ ?_ hp
    · simp [hpc, TxPc.undecided, Obs.acceptedLen, Obs.queuedLen, Obs.overranLen, Obs.droppedLen]
    · simp [Obs.droppedLen]
    · simp [Obs.overranLen, Obs.rxOverranLen]
  | flipBit hpc =>
    refine Books.stage rfl rfl rfl ?_ ?_ ?_ hp
    · simp [hpc, TxPc.undecided, flipped]
    · simp
    · simp
  | deliver hpc hr | deliverPart hpc hr =>
    refine Books.stage rfl rfl rfl ?_ ?_ ?_ hp
    · simp only [hpc, TxPc.undecided, total_cons, total_nil, Obs.acceptedLen, Obs.queuedLen, Obs.overranLen,
        Obs.droppedLen, List.length_take]
      omega
    · simp [Obs.droppedLen]
    · simp [Obs.overranLen, Obs.rxOverranLen]

theorem PortAgrees.len_of_sized {d : Dev} {txSz rxSz : UInt32} (h : PortAgrees d) (hp : d.port = .sized txSz rxSz) :
    d.txFifo.len = 0 := by
  have hfits := d.txFifo.fits
  simp only [PortAgrees, hp] at h
  unfold Fifo.len
  omega

theorem Books.port {d d' : Dev} (hb : inTxFifo d = inTxFifo d') (hw : d'.txWork = d.txWork)
    (hn : d'.notifier = d.notifier) (hdr : d'.statDrops = d.statDrops) (hov : d'.statOverruns = d.statOverruns) :
    Books d d' [] := by
  constructor
  · simp [undecided, hb, hw, hn]
  · simp [hdr]
  · simp [hov]

theorem DevStep.books_port {b : Bus} {d d' : Dev} {ok : Bool} {o : List Obs} (h : DevStep b d (.port ok) d' o)
    (hp : PortAgrees d) : Books d d' o ∧ PortAgrees d' := by
  cases h with
  | refused => exact ⟨.quiet rfl, hp⟩
  | txAlloc hport =>
    have hlen := hp.len_of_sized hport
    exact ⟨.port (by simp [inTxFifo, hport, hlen]) rfl rfl rfl rfl, rfl⟩
  | txAllocFails hport | shutRx hport =>
    exact ⟨.port (by simp [inTxFifo, hport]) rfl rfl rfl rfl, by simpa [PortAgrees, hport] using hp⟩
  | rxAllocFails hport =>
    simp only [PortAgrees, hport] at hp
    exact ⟨.port (by simp [inTxFifo, hport, hp]) rfl rfl rfl rfl, rfl⟩
  | rxAlloc hport | portActive hport | shutWork hport =>
    exact ⟨.port (by simp [inTxFifo, hport]) rfl rfl rfl rfl, trivial⟩
  | shutLen hport | shutTx hport => exact ⟨.port (by simp [inTxFifo, hport]) rfl rfl rfl rfl, rfl⟩
  | @shutCount ok pending hport =>
    simp only [PortAgrees, hport] at hp
    constructor
    · constructor
      · simp only [inTxFifo, undecided, hport, hp, total_cons, total_nil, Obs.acceptedLen, Obs.queuedLen,
          Obs.overranLen, Obs.droppedLen]
        omega
      · simp [Obs.droppedLen]
      · simp [Obs.overranLen, Obs.rxOverranLen]
    · exact hp

theorem DevStep.books_notifier {b : Bus} {d d' : Dev} {o : List Obs} (h : DevStep b d .notifier d' o)
    (hp : PortAgrees d) (hz : zeroes d .notifier = false) (hm : portBusy d = true → movesTx d .notifier = false) :
    Books d d' o ∧ PortAgrees d' := by
  cases h with
  | refused => exact ⟨.quiet rfl, hp⟩
  | downWork hn hw => exact ⟨.quiet (by simp [Dev.booked, undecided, hn, NotifierPc.undecided]), hp⟩
  | downFlush hn =>
    by_cases he : d.txFifo.data = []
    · have hreset : d.txFifo.reset = d.txFifo := Fifo.reset_of_empty he
      have hlen : d.txFifo.len = 0 := by simp [Fifo.len, he]
      exact ⟨.quiet (by simp [Dev.booked, undecided, hn, hreset, hlen, NotifierPc.undecided]), hp.quiet rfl hreset⟩
    · have hidle := idle_of_movesTx hm (by simp [movesTx, hn, Fifo.isEmpty, he])
      refine Books.moves hidle hp rfl rfl ?_ (by simp) (by simp)
      simp only [undecided, hn, NotifierPc.undecided, Fifo.len, Fifo.data_reset, total_nil, List.length_nil]
      omega
  | downCount hn =>
    constructor
    · constructor
      · simp only [inTxFifo, undecided, hn, NotifierPc.undecided, total_cons, total_nil, Obs.acceptedLen,
          Obs.queuedLen, Obs.overranLen, Obs.droppedLen]
        omega
      · simp [Obs.droppedLen]
      · simp [Obs.overranLen, Obs.rxOverranLen]
    · exact hp
  | resetWork hn | resetFlush hn | resetAttrs hn | resetZero hn | resetWire hn => simp [zeroes, hn] at hz

theorem DevStep.books {b : Bus} {d d' : Dev} {a : Act} {o : List Obs} (h : DevStep b d a d' o) (hp : PortAgrees d)
    (hz : zeroes d a = false) (hm : portBusy d = true → movesTx d a = false) : Books d d' o ∧ PortAgrees d' := by
  have hstep := h
  cases h with
  | txAlloc | txAllocFails | rxAlloc | rxAllocFails | portActive | shutWork | shutLen | shutCount | shutTx | shutRx =>
    exact hstep.books_port hp
  | downWork | downFlush | downCount | resetWork | resetFlush | resetAttrs | resetZero | resetWire =>
    exact hstep.books_notifier hp hz hm
  | @accept k buf baud hk hr =>
    have hidle := idle_of_movesTx hm (by simp [movesTx, hk, hr])
    have hlen := d.txFifo.room_le buf
    refine Books.moves hidle hp rfl rfl ?_ (by simp [Obs.droppedLen]) (by simp [Obs.overranLen, Obs.rxOverranLen])
    simp only [undecided, Fifo.len, Fifo.data_put, total_cons, total_nil, Obs.acceptedLen, Obs.queuedLen,
      Obs.overranLen, Obs.droppedLen, List.length_append, List.length_take]
    omega
  | portActivate hport =>
    exact ⟨.port (by simp [inTxFifo, hport]) rfl rfl rfl rfl, by simpa [PortAgrees, hport] using hp⟩
  | portShutdown hport => exact ⟨.port (by simp [inTxFifo, hport]) rfl rfl rfl rfl, trivial⟩
  | workStart hq hw => exact ⟨.quiet (by simp [Dev.booked, undecided, hw, TxPc.undecided]), hp⟩
  | down hn => exact ⟨.quiet (by simp [Dev.booked, undecided, hn, NotifierPc.undecided]), hp⟩
  | readTakes | readReturn | wireChunk =>
    constructor
    · constructor <;> simp [inTxFifo, undecided, Obs.acceptedLen, Obs.queuedLen, Obs.overranLen,
        Obs.rxOverranLen, Obs.droppedLen]
    · exact hp
  | resetStore | resetStat | resetEnds | reset => cases hz
  | _ => exact ⟨.quiet rfl, hp⟩

theorem machine_books {s t : Sys} {a : Act} {o : List Obs} (hp : PortAgrees s.dev) (ha : Accountable s a)
    (h : machine s a = some (t, o)) : Books s.dev t.dev o ∧ PortAgrees t.dev := by
  obtain ⟨hz, hm⟩ := ha
  obtain ⟨hiFirst, rfl, hw⟩ | ⟨b, -, -, hd, rfl⟩ | ⟨-, hd⟩ := machine_cases h
  · exact hw.books hp hm
  · rw [hd]
    exact ⟨.quiet rfl, hp⟩
  · exact hd.books hp hz hm

structure Fresh (d : Dev) : Prop where
  drops : d.statDrops = 0
  overruns : d.statOverruns = 0
  port : PortAgrees d

structure Ledger (d₀ : Dev) (os : List Obs) (d : Dev) : Prop where
  bytes : inTxFifo d₀ + undecided d₀ + total Obs.acceptedLen os =
    inTxFifo d + undecided d + total Obs.queuedLen os + total Obs.overranLen os + total Obs.droppedLen os
  drops : d.statDrops = UInt64.ofNat (total Obs.droppedLen os)
  overruns : d.statOverruns = UInt64.ofNat (total Obs.overranLen os) + UInt64.ofNat (total Obs.rxOverranLen os)
  port : PortAgrees d

theorem Ledger.step {d₀ : Dev} {os o : List Obs} {s t : Sys} {a : Act} (hl : Ledger d₀ os s.dev)
    (ha : Accountable s a) (h : machine s a = some (t, o)) : Ledger d₀ (os ++ o) t.dev := by
  obtain ⟨hb, hp⟩ := machine_books hl.port ha h
  constructor
  · have h1 := hl.bytes
    have h2 := hb.bytes
    simp only [total_append]
    omega
  · rw [hb.drops, hl.drops, total_append, UInt64.ofNat_add]
  · rw [hb.overruns, hl.overruns, total_append, total_append, UInt64.ofNat_add, UInt64.ofNat_add]
    ac_rfl
  · exact hp

theorem Ledger.balanced {d₀ d : Dev} {os : List Obs} (h : Ledger d₀ os d) : Balanced d₀ os d := by
  constructor
  · rw [h.bytes, h.drops]
    simp only [UInt64.ofNat_add]
  · exact h.overruns

theorem tx_accounting {s₀ s : Sys} {os : List Obs} (h₀ : Fresh s₀.dev) (h : Run machine Accountable s₀ os s) :
    Balanced s₀.dev os s.dev := by
  have hl : Ledger s₀.dev os s.dev := by
    apply h.history (fun os s => Ledger s₀.dev os s.dev)
    · exact ⟨rfl, h₀.drops, h₀.overruns, h₀.port⟩
    · intro os t a u o hi ha hm
      exact hi.step ha hm
  exact hl.balanced

theorem fresh_start : Fresh start.dev := ⟨rfl, rfl, rfl⟩

theorem tx_accounting_down_flush : ∃ os s, Run machine Accountable start os s ∧ total Obs.acceptedLen os = 5 ∧
    total Obs.queuedLen os = 3 ∧ s.dev.statDrops = 2 ∧ Balanced start.dev os s.dev := by
  obtain ⟨os, s, hrun, ha, hq, hd⟩ := Run.exists_of_exec (M := machine) (P := Accountable) (s := start)
    [.portActivate, .port true, .port true, .port true, .ttyWrite [1, 2, 3], .writer 0, .writer 0, .writer 0,
      .writer 0, .timerExpire, .workStart, .work true, .work true, .work true, .work true, .work true, .work true,
      .work true, .ttyWrite [4, 5], .writer 0, .writer 0, .writer 0, .writer 0, .bus (.setState .down),
      .notify .down, .notifier, .notifier, .notifier]
    (fun os s => total Obs.acceptedLen os = 5 ∧ total Obs.queuedLen os = 3 ∧ s.dev.statDrops = 2)
    (by decide +kernel)
  exact ⟨os, s, hrun, ha, hq, hd, tx_accounting fresh_start hrun⟩

theorem shutdown_and_down_count_twice :
    ¬ ∀ os s, Run machine NoReset start os s → Balanced start.dev os s.dev := by
  intro hall
  -- the bus goes down after the last close has read `kfifo_len` and before it adds it to `stat_drops`
  obtain ⟨os, s, hrun, ha, htx, hu, hq, ho, hd⟩ := Run.exists_of_exec (M := machine) (P := NoReset) (s := start)
    [.portActivate, .port true, .port true, .port true, .ttyWrite [1, 2, 3, 4, 5], .writer 0, .writer 0, .writer 0,
      .writer 0, .portShutdown, .port true, .port true, .bus (.setState .down), .notify .down, .notifier, .notifier,
      .notifier, .port true, .port true, .port true]
    (fun os s => total Obs.acceptedLen os = 5 ∧ inTxFifo s.dev = 0 ∧ undecided s.dev = 0 ∧
      total Obs.queuedLen os = 0 ∧ total Obs.overranLen os = 0 ∧ s.dev.statDrops = 10)
    (by decide +kernel)
  have hbytes := (hall os s hrun).bytes
  rw [ha, htx, hu, hq, ho, hd] at hbytes
  revert hbytes
  decide

end VirtRtLab.Uart
