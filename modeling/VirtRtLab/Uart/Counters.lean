import VirtRtLab.Uart.Accounting

namespace VirtRtLab.Uart

open Kernel VirtRtLab.Core Transition

def statOrder : List Stat := [.txBytes, .rxBytes, .overruns, .drops]

def halfZeroed (rest : List Stat) : Bool := rest.contains .drops && !rest.contains .txBytes

def NotifierPc.halfZeroed : NotifierPc → Bool
  | .resetStats rest => Uart.halfZeroed rest
  | _ => false

def halfDone (d : Dev) : Bool := d.resets.any halfZeroed || d.notifier.halfZeroed

def startsZeroing (d : Dev) : Act → Bool
  | .resetStat k =>
    match d.resets[k]? with
    | some (.txBytes :: _) => true
    | _ => false
  | .notifier =>
    match d.notifier with
    | .resetStats (.txBytes :: _) => true
    | _ => false
  | _ => false

def TxPc.inFlight : TxPc → Bool
  | .idle | .entered | .rearm _ _ | .jitter _ _ | .jitter2 _ _ _ | .arm _ => false
  | _ => true

def TxPc.uncounted : TxPc → ℕ
  | .dequeued burst => burst.length
  | _ => 0

def counting (d : Dev) : Act → ℕ
  | .work _ => d.txWork.uncounted
  | _ => 0

structure Tally where
  counted : ℕ
  dropped : ℕ
  overran : ℕ
  queued : ℕ
  deriving DecidableEq

def Tally.zero : Tally := ⟨0, 0, 0, 0⟩

def Tally.next (n : Tally) (d : Dev) (a : Act) (o : List Obs) : Tally :=
  if startsZeroing d a then .zero
  else ⟨n.counted + counting d a, n.dropped + total Obs.droppedLen o, n.overran + total Obs.overranLen o,
    n.queued + total Obs.queuedLen o⟩

def tallying : Observer Sys Act Obs Tally Obs where
  next n s a r := n.next s.dev a r.2
  shows _ _ _ r := r.2

def dequeues (d : Dev) : Act → Bool
  | .work _ => d.txWork = .entered && !d.txFifo.isEmpty
  | _ => false

def idleResets (d : Dev) (a : Act) : Bool :=
  (!startsZeroing d a || !d.txWork.inFlight) && (!dequeues d a || !halfDone d)

/-- No flush, of a bus DOWN or of a port shutdown, found bytes in `tx_fifo`. -/
def flushesNothing (d : Dev) : Act → Bool
  | .notifier =>
    match d.notifier with
    | .downCount pending => pending = 0
    | _ => true
  | .port _ =>
    match d.port with
    | .shutCount pending => pending = 0
    | _ => true
  | _ => true

def IdleResets (x : Sys × Tally) (a : Act) : Prop := idleResets x.1.dev a = true

instance (x : Sys × Tally) (a : Act) : Decidable (IdleResets x a) := inferInstanceAs (Decidable (_ = _))

def FlushesNothing (x : Sys × Tally) (a : Act) : Prop := IdleResets x a ∧ flushesNothing x.1.dev a = true

instance (x : Sys × Tally) (a : Act) : Decidable (FlushesNothing x a) := inferInstanceAs (Decidable (_ ∧ _))

-- what is counted in `stat_tx_bytes` and not yet elsewhere
def TxPc.open : TxPc → ℕ
  | .dequeued _ => 0
  | pc => pc.undecided

structure Law (n : Tally) (d : Dev) : Prop where
  tx : d.statTxBytes = UInt64.ofNat n.counted
  drops : d.statDrops = UInt64.ofNat n.dropped
  sum : n.counted = n.dropped + n.overran + n.queued + d.txWork.open

structure Cleared (n : Tally) (d : Dev) : Prop where
  tx : d.statTxBytes = 0
  tally : n = .zero
  idle : d.txWork.inFlight = false

structure Ordered (d : Dev) : Prop where
  resets : ∀ rest ∈ d.resets, rest <:+ statOrder
  notifier : ∀ rest, d.notifier = .resetStats rest → rest <:+ statOrder

structure Tallied (n : Tally) (d : Dev) : Prop where
  ordered : Ordered d
  law : halfDone d = false → Law n d
  cleared : halfDone d = true → Cleared n d

section

variable {n : Tally} {b b' : Bus} {d d' : Dev} {a : Act} {o : List Obs}

theorem open_of_not_inFlight {pc : TxPc} (h : pc.inFlight = false) : pc.open = 0 := by
  cases pc with
  | idle | entered | rearm | jitter | jitter2 | arm => rfl
  | _ => cases h

theorem WorkStep.counts (h : WorkStep b d b' d' o) :
    d'.statTxBytes = d.statTxBytes + UInt64.ofNat d.txWork.uncounted ∧
    d'.statDrops = d.statDrops + UInt64.ofNat (total Obs.droppedLen o) ∧
    d.txWork.uncounted + d.txWork.open = d'.txWork.open + total Obs.droppedLen o + total Obs.overranLen o +
      total Obs.queuedLen o := by
  cases h with
  | count hpc => simp [hpc, TxPc.uncounted, TxPc.open, TxPc.undecided]
  | flipBit hpc => simp [hpc, TxPc.uncounted, TxPc.open, TxPc.undecided, flipped]
  | drop hpc =>
    simp only [hpc, TxPc.uncounted, TxPc.open, TxPc.undecided, total_cons, total_nil, Obs.droppedLen, Obs.overranLen,
      Obs.queuedLen]
    refine ⟨by simp, rfl, by omega⟩
  | deliver hpc hr | deliverPart hpc hr | overrun hpc =>
    simp only [hpc, TxPc.uncounted, TxPc.open, TxPc.undecided, total_cons, total_nil, Obs.droppedLen, Obs.overranLen,
      Obs.queuedLen, List.length_take]
    refine ⟨by simp, by simp, by omega⟩
  | nothing hpc | dequeue hpc | snap hpc | disabled hpc | noDropRate hpc | dropFires hpc | dropSpares hpc
  | noFlipRate hpc | flipFires hpc | flipSpares hpc | done hpc | noJitter hpc | jitter hpc | draw hpc
  | draw2 hpc | arm hpc =>
    simp [hpc, TxPc.uncounted, TxPc.open, TxPc.undecided, Obs.droppedLen, Obs.overranLen, Obs.queuedLen]

theorem WorkStep.law (h : WorkStep b d b' d' o) (hl : Law n d) (hiFirst : Bool) :
    Law (n.next d (.work hiFirst) o) d' := by
  obtain ⟨htx, hdrops, hopen⟩ := h.counts
  have hnext : n.next d (.work hiFirst) o = ⟨n.counted + d.txWork.uncounted, n.dropped + total Obs.droppedLen o,
    n.overran + total Obs.overranLen o, n.queued + total Obs.queuedLen o⟩ := rfl
  have hsum := hl.sum
  rw [hnext]
  constructor
  · rw [htx, hl.tx, UInt64.ofNat_add]
  · rw [hdrops, hl.drops, UInt64.ofNat_add]
  · dsimp only
    omega

theorem WorkStep.cleared (h : WorkStep b d b' d' o) (hc : Cleared n d) {hiFirst : Bool}
    (hd : dequeues d (.work hiFirst) = false) : Cleared (n.next d (.work hiFirst) o) d' := by
  have hidle := hc.idle
  cases h with
  | dequeue hpc he =>
    have hempty : d.txFifo.isEmpty = true := by simpa [dequeues, hpc] using hd
    exact absurd (by simp [Fifo.front, d.txFifo.isEmpty_iff.mp hempty]) he
  | nothing hpc | done hpc | noJitter hpc | jitter hpc | draw hpc | draw2 hpc | arm hpc =>
    refine ⟨hc.tx, ?_, rfl⟩
    simp [hc.tally, Tally.next, startsZeroing, counting, hpc, TxPc.uncounted, Tally.zero]
  | count hpc | snap hpc | disabled hpc | noDropRate hpc | dropFires hpc | dropSpares hpc | drop hpc | noFlipRate hpc
  | flipFires hpc | flipSpares hpc | flipBit hpc | deliver hpc | deliverPart hpc | overrun hpc =>
    rw [hpc] at hidle
    cases hidle

theorem WorkStep.tallied (h : WorkStep b d b' d' o) (hn : Tallied n d) {hiFirst : Bool}
    (hi : idleResets d (.work hiFirst) = true) : Tallied (n.next d (.work hiFirst) o) d' := by
  have hkeep : d'.resets = d.resets ∧ d'.notifier = d.notifier := by cases h <;> exact ⟨rfl, rfl⟩
  have hhalf : halfDone d' = halfDone d := by simp only [halfDone, hkeep.1, hkeep.2]
  constructor
  · exact ⟨hkeep.1 ▸ hn.ordered.resets, hkeep.2 ▸ hn.ordered.notifier⟩
  · rw [hhalf]
    intro hz
    exact h.law (hn.law hz) hiFirst
  · rw [hhalf]
    intro hz
    apply h.cleared (hn.cleared hz)
    simpa [idleResets, startsZeroing, hz] using hi

theorem Tallied.keep (h : Tallied n d) (ho : Ordered d') (hh : halfDone d' = halfDone d)
    (hd : (d'.statTxBytes, d'.statDrops, d'.txWork.open, d'.txWork.inFlight) =
      (d.statTxBytes, d.statDrops, d.txWork.open, d.txWork.inFlight)) : Tallied n d' := by
  simp only [Prod.mk.injEq] at hd
  obtain ⟨htx, hdr, hop, hfl⟩ := hd
  constructor
  · exact ho
  · rw [hh]
    intro hz
    have hl := h.law hz
    exact ⟨htx.trans hl.tx, hdr.trans hl.drops, hop ▸ hl.sum⟩
  · rw [hh]
    intro hz
    have hc := h.cleared hz
    exact ⟨htx.trans hc.tx, hc.tally, hfl.trans hc.idle⟩

theorem suffix_cases {st : Stat} {rest : List Stat} (h : st :: rest <:+ statOrder) :
    st = .txBytes ∧ halfZeroed rest = true ∨
    st ≠ .txBytes ∧ halfZeroed (st :: rest) = true ∧ (st = .drops ∨ halfZeroed rest = true) := by
  rcases List.suffix_cons_iff.mp h with heq | h
  · cases heq
    exact .inl ⟨rfl, rfl⟩
  right
  rcases List.suffix_cons_iff.mp h with heq | h
  · cases heq
    exact ⟨by decide, rfl, .inr rfl⟩
  rcases List.suffix_cons_iff.mp h with heq | h
  · cases heq
    exact ⟨by decide, rfl, .inr rfl⟩
  rcases List.suffix_cons_iff.mp h with heq | h
  · cases heq
    exact ⟨by decide, rfl, .inl rfl⟩
  · cases List.suffix_nil.mp h

theorem Tallied.store (h : Tallied n d) {st : Stat} {rest : List Stat} (hs : st :: rest <:+ statOrder)
    (ho : Ordered d') (hhalf : halfZeroed (st :: rest) = true → halfDone d = true)
    (hhalf' : halfZeroed rest = true → halfDone d' = true) (hw : d'.txWork = d.txWork)
    (htx : d'.statTxBytes = (d.zeroStat st).statTxBytes) (hdr : d'.statDrops = (d.zeroStat st).statDrops)
    {n' : Tally} (hn : n' = if st = .txBytes then .zero else n)
    (hidle : st = .txBytes → d.txWork.inFlight = false) : Tallied n' d' := by
  rcases suffix_cases hs with ⟨rfl, hrest⟩ | ⟨hne, hfirst, hrest⟩
  · have hz := hhalf' hrest
    constructor
    · exact ho
    · intro hz'
      rw [hz] at hz'
      cases hz'
    · intro _
      exact ⟨htx, by simpa using hn, hw ▸ hidle rfl⟩
  · have hc := h.cleared (hhalf hfirst)
    have hn' : n' = .zero := by
      rw [hn, if_neg hne]
      exact hc.tally
    have htx' : d'.statTxBytes = 0 := by
      rw [htx, ← hc.tx]
      cases st with
      | txBytes => exact absurd rfl hne
      | _ => rfl
    have hfl : d'.txWork.inFlight = false := hw ▸ hc.idle
    constructor
    · exact ho
    · intro hz
      have hst : st = .drops := by
        rcases hrest with hrest | hrest
        · exact hrest
        · rw [hhalf' hrest] at hz
          cases hz
      constructor
      · rw [htx', hn']
        rfl
      · rw [hdr, hst, hn']
        rfl
      · rw [hn', open_of_not_inFlight hfl]
        rfl
    · intro _
      exact ⟨htx', hn', hfl⟩

theorem Ordered.set (h : Ordered d) {k : ℕ} {st : Stat} {rest : List Stat} (hk : d.resets[k]? = some (st :: rest))
    (hr : d'.resets = d.resets.set k rest) (hn : d'.notifier = d.notifier) : Ordered d' := by
  constructor
  · rw [hr]
    intro l hl
    rcases List.mem_or_eq_of_mem_set hl with hl | rfl
    · exact h.resets l hl
    · exact (List.suffix_cons st l).trans (h.resets _ (List.mem_of_getElem? hk))
  · rw [hn]
    exact h.notifier

theorem halfDone_of_mem {rest : List Stat} (hm : rest ∈ d.resets) (hr : halfZeroed rest = true) : halfDone d = true := by
  simp only [halfDone, Bool.or_eq_true]
  exact .inl (List.any_eq_true.mpr ⟨rest, hm, hr⟩)

theorem halfDone_of_notifier {rest : List Stat} (hm : d.notifier = .resetStats rest) (hr : halfZeroed rest = true) :
    halfDone d = true := by
  simp [halfDone, hm, NotifierPc.halfZeroed, hr]

theorem any_eraseIdx {p : List Stat → Bool} {ls : List (List Stat)} {k : ℕ} {l : List Stat} (hk : ls[k]? = some l)
    (hl : p l = false) : (ls.eraseIdx k).any p = ls.any p := by
  rw [Bool.eq_iff_iff, List.any_eq_true, List.any_eq_true]
  constructor
  · rintro ⟨x, hx, hp⟩
    exact ⟨x, List.mem_of_mem_eraseIdx hx, hp⟩
  · rintro ⟨x, hx, hp⟩
    obtain ⟨i, hi⟩ := List.getElem?_of_mem hx
    refine ⟨x, List.mem_eraseIdx_iff_getElem?.mpr ⟨i, ?_, hi⟩, hp⟩
    rintro rfl
    cases hk.symm.trans hi
    rw [hl] at hp
    cases hp

theorem DevStep.tallied (h : DevStep b d a d' o) (hn : Tallied n d) (hi : idleResets d a = true)
    (hf : flushesNothing d a = true) : Tallied (n.next d a o) d' := by
  have hord := hn.ordered
  cases h with
  | @resetStat k st rest hk =>
    have hlt : k < d.resets.length := (List.getElem?_eq_some_iff.mp hk).1
    refine hn.store (hord.resets _ (List.mem_of_getElem? hk)) (hord.set hk rfl ?_)
      (halfDone_of_mem (List.mem_of_getElem? hk)) (halfDone_of_mem (List.mem_set hlt _)) ?_ ?_ ?_ ?_ ?_
    · cases st <;> rfl
    · cases st <;> rfl
    · cases st <;> rfl
    · cases st <;> rfl
    · cases st <;> simp [Tally.next, startsZeroing, counting, hk]
    · rintro rfl
      simpa [idleResets, startsZeroing, dequeues, hk] using hi
  | @resetZero st rest hk =>
    refine hn.store (hord.notifier _ hk) ⟨?_, ?_⟩ (halfDone_of_notifier hk) (halfDone_of_notifier rfl) ?_ ?_ ?_ ?_ ?_
    · cases st <;> exact hord.resets
    · rintro l ⟨rfl⟩
      exact (List.suffix_cons st rest).trans (hord.notifier _ hk)
    · cases st <;> rfl
    · cases st <;> rfl
    · cases st <;> rfl
    · cases st <;> simp [Tally.next, startsZeroing, counting, hk]
    · rintro rfl
      simpa [idleResets, startsZeroing, dequeues, hk] using hi
  | resetStore =>
    refine hn.keep ⟨?_, hord.notifier⟩ ?_ rfl
    · intro l hl
      rcases List.mem_append.mp hl with hl | hl
      · exact hord.resets l hl
      · rw [List.mem_singleton.mp hl]
        exact List.suffix_refl _
    · simp [halfDone, halfZeroed]
  | @resetEnds k hk =>
    have hnext : n.next d (.resetStat k) [] = n := by simp [Tally.next, startsZeroing, counting, hk]
    rw [hnext]
    refine hn.keep ⟨fun l hl => hord.resets l (List.mem_of_mem_eraseIdx hl), hord.notifier⟩ ?_ rfl
    simp only [halfDone]
    rw [any_eraseIdx hk rfl]
  | resetAttrs hp =>
    have hnext : n.next d .notifier [] = n := by simp [Tally.next, startsZeroing, counting, hp]
    rw [hnext]
    refine hn.keep ⟨hord.resets, ?_⟩ ?_ rfl
    · rintro l ⟨rfl⟩
      exact List.suffix_refl _
    · simp [halfDone, hp, NotifierPc.halfZeroed, halfZeroed]
  | @downCount pending hp =>
    have hzero : pending = 0 := by simpa [flushesNothing, hp] using hf
    have hnext : n.next d .notifier [.dropped pending] = n := by
      simp [Tally.next, startsZeroing, counting, hp, hzero, Obs.droppedLen, Obs.overranLen, Obs.queuedLen]
    rw [hnext]
    refine hn.keep ⟨hord.resets, by simp⟩ ?_ (by simp [hzero])
    simp [halfDone, hp, NotifierPc.halfZeroed]
  | @shutCount ok pending hp =>
    have hzero : pending = 0 := by simpa [flushesNothing, hp] using hf
    have hnext : n.next d (.port ok) [.dropped pending] = n := by
      simp [Tally.next, startsZeroing, counting, hzero, Obs.droppedLen, Obs.overranLen, Obs.queuedLen]
    rw [hnext]
    exact hn.keep ⟨hord.resets, hord.notifier⟩ rfl (by simp [hzero])
  | downWork hp | downFlush hp | resetWork hp | resetFlush hp | resetWire hp =>
    have hnext : n.next d .notifier [] = n := by simp [Tally.next, startsZeroing, counting, hp]
    rw [hnext]
    refine hn.keep ⟨hord.resets, by simp⟩ ?_ rfl
    simp [halfDone, hp, NotifierPc.halfZeroed, halfZeroed]
  | down hp | reset hp =>
    refine hn.keep ⟨hord.resets, by simp⟩ ?_ rfl
    simp [halfDone, hp, NotifierPc.halfZeroed]
  | workStart hq hw => exact hn.keep ⟨hord.resets, hord.notifier⟩ rfl (by simp [hw, TxPc.open, TxPc.inFlight, TxPc.undecided])
  | refused ha =>
    cases a with
    | attrStore | bufSzStore | resetStore | notify => exact hn
    | _ => cases ha
  | _ => exact hn.keep ⟨hord.resets, hord.notifier⟩ rfl rfl

end

theorem machine_tallied {x y : Sys × Tally} {a : Act} {e : List Obs} (h : Tallied x.2 x.1.dev) (hg : FlushesNothing x a)
    (hobs : observed machine tallying x a = some (y, e)) : Tallied y.2 y.1.dev := by
  obtain ⟨o, hm, hn, -⟩ := observed_eq_some hobs
  have hn' : y.2 = x.2.next x.1.dev a o := hn
  rw [hn']
  obtain ⟨hiFirst, rfl, hw⟩ | ⟨b, rfl, -, hd, rfl⟩ | ⟨-, hd⟩ := machine_cases hm
  · exact hw.tallied h hg.1
  · rw [hd]
    exact h
  · exact hd.tallied h hg.1 hg.2

theorem tallied_start : Tallied .zero Dev.init := by
  constructor
  · constructor
    · intro rest hr
      cases hr
    · intro rest hr
      cases hr
  · intro _
    exact ⟨rfl, rfl, rfl⟩
  · intro hz
    cases hz

theorem Law.le (n : Tally) (d : Dev) (h : Law n d) (hn : n.counted < 2 ^ 64) : d.statDrops ≤ d.statTxBytes := by
  have hsum := h.sum
  rw [UInt64.le_iff_toNat_le, h.tx, h.drops, UInt64.toNat_ofNat', UInt64.toNat_ofNat', Nat.mod_eq_of_lt (by omega),
    Nat.mod_eq_of_lt (by omega)]
  omega

/-- The law of `tx_bytes`, `drops` and `overruns`, between two counter resets and two bursts. -/
theorem counter_law {es : List Obs} {x : Sys × Tally}
    (h : Run (observed machine tallying) FlushesNothing (start, .zero) es x)
    (hf : x.1.dev.txWork.inFlight = false) (hz : halfDone x.1.dev = false) :
    x.1.dev.statTxBytes = x.1.dev.statDrops + UInt64.ofNat x.2.overran + UInt64.ofNat x.2.queued ∧
    (x.2.counted < 2 ^ 64 → x.1.dev.statDrops ≤ x.1.dev.statTxBytes) := by
  have hinv : Tallied x.2 x.1.dev := by
    apply h.invariant (fun x => Tallied x.2 x.1.dev) tallied_start
    intro x a y e hi hg hm
    exact machine_tallied hi hg hm
  have hl := hinv.law hz
  refine ⟨?_, hl.le⟩
  rw [hl.tx, hl.drops, hl.sum, open_of_not_inFlight hf]
  simp only [UInt64.ofNat_add, Nat.add_zero]

theorem counter_law_drop_and_delivery : ∃ es x,
    Run (observed machine tallying) FlushesNothing (start, .zero) es x ∧ x.2 = ⟨3, 2, 0, 1⟩ ∧
    x.1.dev.statTxBytes = x.1.dev.statDrops + UInt64.ofNat 0 + UInt64.ofNat 1 ∧
    x.1.dev.statDrops ≤ x.1.dev.statTxBytes := by
  obtain ⟨es, x, hrun, hx, hf, hz⟩ := Run.exists_of_exec (M := observed machine tallying) (P := FlushesNothing)
    (s := (start, .zero))
    ([.attrStore .dropRatePpm [49, 48, 48, 48, 48, 48, 48]] ++ openPort ++ write [65, 66] ++ transmit 6 ++
      [.attrStore .dropRatePpm [48]] ++ write [67] ++ transmit 7)
    (fun _ x => x.2 = ⟨3, 2, 0, 1⟩ ∧ x.1.dev.txWork.inFlight = false ∧ halfDone x.1.dev = false) (by decide +kernel)
  obtain ⟨hlaw, hle⟩ := counter_law hrun hf hz
  rw [hx] at hlaw hle
  exact ⟨es, x, hrun, hx, hlaw, hle (by decide)⟩

theorem flushed_bytes_were_not_counted : ¬ ∀ es x, Run (observed machine tallying) IdleResets (start, .zero) es x →
    x.1.dev.txWork.inFlight = false → halfDone x.1.dev = false →
    x.1.dev.statTxBytes = x.1.dev.statDrops + UInt64.ofNat x.2.overran + UInt64.ofNat x.2.queued := by
  intro hall
  -- the bus goes down with a byte in `tx_fifo`
  obtain ⟨es, x, hrun, hx, htx, hdr, hf, hz⟩ := Run.exists_of_exec (M := observed machine tallying) (P := IdleResets)
    (s := (start, .zero)) (openPort ++ write [65] ++ busDown)
    (fun _ x => x.2 = ⟨0, 1, 0, 0⟩ ∧ x.1.dev.statTxBytes = 0 ∧ x.1.dev.statDrops = 1 ∧
      x.1.dev.txWork.inFlight = false ∧ halfDone x.1.dev = false) (by decide +kernel)
  have hlaw := hall es x hrun hf hz
  rw [htx, hdr, hx] at hlaw
  revert hlaw
  decide

end VirtRtLab.Uart
