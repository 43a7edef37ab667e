import Mathlib.Order.Basic
import Mathlib.Data.Nat.Basic
import VirtRtLab.Uart.WireSteps

namespace VirtRtLab.Uart

open Kernel VirtRtLab.Core Transition

/-- For every byte in `tx_fifo`, in the hand of `tx_work` and in `rx_fifo`, how many RESETs had begun when it was
accepted; and how many were done when the present wire session was opened. -/
structure Stamps where
  tx : List ℕ
  hand : List ℕ
  rx : List ℕ
  begun : ℕ
  done : ℕ
  epoch : ℕ
  deriving DecidableEq

structure Delivery where
  bytes : Bytes
  stamps : List ℕ
  epoch : ℕ
  deriving DecidableEq

def Delivery.Isolated (e : Delivery) : Prop := e.stamps.length = e.bytes.length ∧ ∀ t ∈ e.stamps, e.epoch ≤ t

namespace Stamps

def none : Stamps := ⟨[], [], [], 0, 0, 0⟩

def nextTx (n : Stamps) (d d' : Dev) : Act → List ℕ
  | .writer _ => n.tx ++ List.replicate (d'.txFifo.len - d.txFifo.len) n.begun
  | .work _ => n.tx.drop (d.txFifo.len - d'.txFifo.len)
  | _ => n.tx

def nextHand (n : Stamps) (d : Dev) : Act → List ℕ
  | .work _ => if d.txWork = .entered then n.tx.take BURST_SZ else n.hand
  | _ => n.hand

def nextRx (n : Stamps) (d d' : Dev) : Act → List ℕ
  | .work _ => n.rx ++ n.hand.take (d'.rxFifo.len - d.rxFifo.len)
  | .reader _ _ => n.rx.drop (d.rxFifo.len - d'.rxFifo.len)
  | _ => n.rx

def next (n : Stamps) (d d' : Dev) (a : Act) : Stamps where
  tx := if d'.txFifo.isEmpty then [] else n.nextTx d d' a
  hand := n.nextHand d a
  rx := if d'.rxFifo.isEmpty then [] else n.nextRx d d' a
  begun := if a = .notify .reset then n.begun + 1 else n.begun
  done := if a = .notifier ∧ d.notifier = .resetStats [] then n.begun else n.done
  epoch := if a = .wireOpen ∧ d.wireOpenCount = 0 then n.done else n.epoch

def shows (n : Stamps) (a : Act) (o : List Obs) : List Delivery :=
  match a, o with
  | .reader _ _, [.wireRead bs] => [⟨bs, n.rx.take bs.length, n.epoch⟩]
  | _, _ => []

end Stamps

def stamping : Observer Sys Act Obs Stamps Delivery where
  next n s a r := n.next s.dev r.1.dev a
  shows n _ a r := n.shows a r.2

/-- A `wire_open` that gets in finds no byte, in `rx_fifo` or in the hand of `tx_work`, that was accepted before a
RESET already done. -/
def OpensClean (x : Sys × Stamps) : Act → Prop
  | .wireOpen => x.1.dev.wireOpenCount = 0 → (∀ t ∈ x.2.rx, x.2.done ≤ t) ∧
      (x.1.dev.txWork.holding ≠ [] → ∀ t ∈ x.2.hand, x.2.done ≤ t)
  | _ => True

instance (x : Sys × Stamps) (a : Act) : Decidable (OpensClean x a) := by
  unfold OpensClean
  split <;> infer_instance

def NotifierPc.flushed : NotifierPc → Bool
  | .resetAttrs | .resetStats _ => true
  | _ => false

def Stamps.floor (n : Stamps) (d : Dev) : ℕ := if d.notifier.flushed then n.begun else n.done

structure Aligned (n : Stamps) (d : Dev) : Prop where
  tx : n.tx.length = d.txFifo.len
  hand : d.txWork.holding ≠ [] → n.hand.length = d.txWork.holding.length
  rx : n.rx.length = d.rxFifo.len

structure Current (n : Stamps) (d : Dev) : Prop where
  done : n.done ≤ n.begun
  epoch : n.epoch ≤ n.done
  tx : ∀ t ∈ n.tx, n.floor d ≤ t
  hand : d.wire ≠ .closed → d.txWork.holding ≠ [] → ∀ t ∈ n.hand, n.epoch ≤ t
  rx : d.wire ≠ .closed → ∀ t ∈ n.rx, n.epoch ≤ t

section

variable {n : Stamps} {b b' : Bus} {d d' : Dev} {a : Act} {o : List Obs}

theorem length_eq_zero_of_isEmpty {q : Fifo UInt8} (h : q.isEmpty = true) : q.len = 0 := by
  rw [Fifo.len, q.isEmpty_iff.mp h, List.length_nil]

def txMoves (d d' : Dev) : Act → Prop
  | .writer _ => d.txFifo.len ≤ d'.txFifo.len
  | .work _ => d'.txFifo.len ≤ d.txFifo.len
  | _ => d'.txFifo.len = d.txFifo.len

def rxMoves (d d' : Dev) : Act → Prop
  | .work _ => d'.rxFifo.len = d.rxFifo.len ∨ d.txWork.holding ≠ [] ∧ d.rxFifo.len ≤ d'.rxFifo.len ∧
      d'.rxFifo.len - d.rxFifo.len ≤ d.txWork.holding.length
  | .reader _ _ => d'.rxFifo.len ≤ d.rxFifo.len
  | _ => d'.rxFifo.len = d.rxFifo.len

def handMoves (d d' : Dev) : Act → Prop
  | .work _ => d.txWork = .entered ∧ d'.txWork.holding.length = min BURST_SZ d.txFifo.len ∨
      d.txWork ≠ .entered ∧ d'.txWork.holding.length = d.txWork.holding.length
  | _ => d'.txWork.holding = d.txWork.holding

theorem txMoves_self (d : Dev) (a : Act) : txMoves d d a := by
  cases a with
  | writer | work => exact le_rfl
  | _ => rfl

theorem rxMoves_self (d : Dev) (a : Act) : rxMoves d d a := by
  cases a with
  | work => exact .inl rfl
  | reader => exact le_rfl
  | _ => rfl

theorem handMoves_self {d : Dev} {a : Act} (ha : a.refusable = true) : handMoves d d a := by
  cases a with
  | work => cases ha
  | _ => rfl

theorem Aligned.next_tx (h : Aligned n d) (hm : d'.txFifo.isEmpty = true ∨ txMoves d d' a) :
    (n.next d d' a).tx.length = d'.txFifo.len := by
  have hlen := h.tx
  simp only [Stamps.next]
  split
  · rw [length_eq_zero_of_isEmpty ‹_›, List.length_nil]
  · replace hm : txMoves d d' a := hm.resolve_left ‹_›
    cases a with
    | writer k =>
      simp only [Stamps.nextTx, txMoves, List.length_append, List.length_replicate] at *
      omega
    | work hiFirst =>
      simp only [Stamps.nextTx, txMoves, List.length_drop] at *
      omega
    | _ => exact hlen.trans hm.symm

theorem Aligned.next_hand (h : Aligned n d) (hm : d'.txWork.holding = [] ∨ handMoves d d' a)
    (hne : d'.txWork.holding ≠ []) : (n.next d d' a).hand.length = d'.txWork.holding.length := by
  have hlen := h.tx
  have hpos := List.length_pos_iff.mpr hne
  replace hm : handMoves d d' a := hm.resolve_left hne
  cases a with
  | work hiFirst =>
    simp only [Stamps.next, Stamps.nextHand]
    rcases hm with ⟨hpc, hm⟩ | ⟨hpc, hm⟩
    · rw [if_pos hpc, hm, List.length_take, hlen]
    · rw [if_neg hpc, hm]
      rw [hm] at hpos
      exact h.hand (List.length_pos_iff.mp hpos)
  | _ =>
    have heq : d'.txWork.holding = d.txWork.holding := hm
    rw [heq] at hne ⊢
    exact h.hand hne

theorem Aligned.next_rx (h : Aligned n d) (hm : d'.rxFifo.isEmpty = true ∨ rxMoves d d' a) :
    (n.next d d' a).rx.length = d'.rxFifo.len := by
  have hlen := h.rx
  simp only [Stamps.next]
  split
  · rw [length_eq_zero_of_isEmpty ‹_›, List.length_nil]
  · replace hm : rxMoves d d' a := hm.resolve_left ‹_›
    cases a with
    | work hiFirst =>
      simp only [Stamps.nextRx, List.length_append, List.length_take]
      rcases hm with hm | ⟨hne, hle, hroom⟩
      · omega
      · have := h.hand hne
        omega
    | reader k ok =>
      simp only [Stamps.nextRx, rxMoves, List.length_drop] at *
      omega
    | _ => exact hlen.trans hm.symm

theorem rxMoves_put {burst : Bytes} {snap : TxSnap} {hiFirst : Bool} (hpc : d.txWork = .deliver burst snap)
    (hd : d'.rxFifo = d.rxFifo.put burst) : rxMoves d d' (.work hiFirst) := by
  have hle := d.rxFifo.room_le burst
  have hlen : d'.rxFifo.len = d.rxFifo.len + d.rxFifo.room burst := by
    simp only [hd, Fifo.len, Fifo.data_put, List.length_append, List.length_take]
    omega
  have hhold : d.txWork.holding = burst := by rw [hpc]; rfl
  by_cases hb : burst = []
  · left
    have hnil : burst.length = 0 := by rw [hb, List.length_nil]
    omega
  · right
    rw [hhold]
    exact ⟨hb, by omega, by omega⟩

theorem WorkStep.aligned (h : WorkStep b d b' d' o) (hn : Aligned n d) (hiFirst : Bool) :
    Aligned (n.next d d' (.work hiFirst)) d' := by
  have htx : txMoves d d' (.work hiFirst) := by
    cases h with
    | dequeue => simp [txMoves, Fifo.len]
    | _ => exact le_rfl
  have hhand : d'.txWork.holding = [] ∨ handMoves d d' (.work hiFirst) := by
    cases h with
    | dequeue hpc => exact .inr (.inl ⟨hpc, List.length_take ..⟩)
    | count hpc | snap hpc | noDropRate hpc | dropSpares hpc | noFlipRate hpc | flipFires hpc | flipSpares hpc
    | flipBit hpc => exact .inr (.inr ⟨by simp [hpc], by simp [hpc, TxPc.holding, flipped]⟩)
    | _ => exact .inl rfl
  have hrx : rxMoves d d' (.work hiFirst) := by
    cases h with
    | @deliver burst snap hpc hr => exact rxMoves_put hpc rfl
    | @deliverPart burst snap hpc hr => exact rxMoves_put hpc rfl
    | _ => exact .inl rfl
  exact ⟨hn.next_tx (.inr htx), hn.next_hand hhand, hn.next_rx (.inr hrx)⟩

theorem DevStep.aligned (h : DevStep b d a d' o) (hn : Aligned n d) : Aligned (n.next d d' a) d' := by
  have htx : d'.txFifo.isEmpty = true ∨ txMoves d d' a := by
    cases h with
    | accept => exact .inr (by simp [txMoves, Fifo.len])
    | writeUp | writeDown | writeEnabled | writeDisabled | writeFull | writeArm => exact .inr le_rfl
    | txAlloc | rxAllocFails | shutTx | downFlush | resetFlush => exact .inl rfl
    | @resetStat k st | @resetZero st => cases st <;> exact .inr rfl
    | refused => exact .inr (txMoves_self d a)
    | _ => exact .inr rfl
  have hhand : d'.txWork.holding = [] ∨ handMoves d d' a := by
    cases h with
    | workStart => exact .inl rfl
    | @resetStat k st | @resetZero st => cases st <;> exact .inr rfl
    | refused ha => exact .inr (handMoves_self ha)
    | _ => exact .inr rfl
  have hrx : d'.rxFifo.isEmpty = true ∨ rxMoves d d' a := by
    cases h with
    | readGoesOn => exact .inr le_rfl
    | readTakes => exact .inr (by simp [rxMoves, Fifo.len])
    | rxAlloc | shutRx | wireRelease => exact .inl rfl
    | @resetStat k st | @resetZero st => cases st <;> exact .inr rfl
    | refused => exact .inr (rxMoves_self d a)
    | _ => exact .inr rfl
  exact ⟨hn.next_tx htx, hn.next_hand hhand, hn.next_rx hrx⟩

theorem Stamps.mem_tx {t : ℕ} (ht : t ∈ (n.next d d' a).tx) : t ∈ n.tx ∨ t = n.begun := by
  simp only [Stamps.next] at ht
  split at ht
  · cases ht
  · unfold Stamps.nextTx at ht
    split at ht
    · exact (List.mem_append.mp ht).imp_right List.eq_of_mem_replicate
    · exact .inl (List.mem_of_mem_drop ht)
    · exact .inl ht

def taking (d : Dev) (a : Act) : Prop := d.txWork = .entered ∧ ∃ hiFirst, a = .work hiFirst

theorem Stamps.mem_hand {t : ℕ} (ht : t ∈ (n.next d d' a).hand) : t ∈ n.tx ∨ t ∈ n.hand ∧ ¬ taking d a := by
  simp only [Stamps.next, Stamps.nextHand] at ht
  split at ht
  · split at ht
    · exact .inl (List.mem_of_mem_take ht)
    · exact .inr ⟨ht, fun h => absurd h.1 ‹_›⟩
  · rename_i hne
    refine .inr ⟨ht, ?_⟩
    rintro ⟨-, hiFirst, rfl⟩
    exact hne hiFirst rfl

theorem Stamps.mem_rx {t : ℕ} (ht : t ∈ (n.next d d' a).rx) :
    t ∈ n.rx ∨ (∃ hiFirst, a = .work hiFirst) ∧ d.rxFifo.len < d'.rxFifo.len ∧ t ∈ n.hand := by
  simp only [Stamps.next] at ht
  split at ht
  · cases ht
  · unfold Stamps.nextRx at ht
    split at ht
    · rcases List.mem_append.mp ht with ht | ht
      · exact .inl ht
      · refine .inr ⟨⟨_, rfl⟩, ?_, List.mem_of_mem_take ht⟩
        have hpos := List.length_pos_iff.mpr (List.ne_nil_of_mem ht)
        rw [List.length_take] at hpos
        omega
    · exact .inl (List.mem_of_mem_drop ht)
    · exact .inl ht

theorem Current.done_le_floor (h : Current n d) : n.done ≤ n.floor d := by
  unfold Stamps.floor
  split
  · exact h.done
  · exact le_rfl

theorem Current.floor_le_begun (h : Current n d) : n.floor d ≤ n.begun := by
  unfold Stamps.floor
  split
  · exact le_rfl
  · exact h.done

theorem Current.next (h : Current n d) (hopen : ¬ (a = .wireOpen ∧ d.wireOpenCount = 0))
    (hwire : d'.wire ≠ .closed → d.wire ≠ .closed)
    (hfloor : d'.txFifo.isEmpty = true ∨ (n.next d d' a).floor d' ≤ n.floor d)
    (hhand : d'.txWork.holding ≠ [] → taking d a ∨ d.txWork.holding ≠ [])
    (hrx : d'.rxFifo.len ≤ d.rxFifo.len ∨ d.txWork.holding ≠ []) : Current (n.next d d' a) d' := by
  have hepoch : (n.next d d' a).epoch = n.epoch := if_neg hopen
  have hdone : n.done ≤ (n.next d d' a).done := by
    simp only [Stamps.next]
    split
    · exact h.done
    · exact le_rfl
  have hold : n.epoch ≤ n.floor d := h.epoch.trans h.done_le_floor
  constructor
  · have := h.done
    simp only [Stamps.next]
    split <;> split <;> omega
  · rw [hepoch]
    exact h.epoch.trans hdone
  · intro t ht
    rcases hfloor with hempty | hle
    · simp only [Stamps.next, hempty, ↓reduceIte] at ht
      cases ht
    · rcases Stamps.mem_tx ht with ht | rfl
      · exact hle.trans (h.tx t ht)
      · exact hle.trans h.floor_le_begun
  · intro hw hne t ht
    rw [hepoch]
    rcases Stamps.mem_hand ht with ht | ⟨ht, hn⟩
    · exact hold.trans (h.tx t ht)
    · exact h.hand (hwire hw) ((hhand hne).resolve_left hn) t ht
  · intro hw t ht
    rw [hepoch]
    rcases Stamps.mem_rx ht with ht | ⟨-, hlt, ht⟩
    · exact h.rx (hwire hw) t ht
    · exact h.hand (hwire hw) (hrx.resolve_left (Nat.not_le_of_lt hlt)) t ht

theorem Current.openWire (h : Current n d) (hc : d.wireOpenCount = 0) (hrx : ∀ t ∈ n.rx, n.done ≤ t)
    (hhand : d.txWork.holding ≠ [] → ∀ t ∈ n.hand, n.done ≤ t) :
    Current (n.next d { d with wireOpenCount := 1, wire := .opening } .wireOpen)
      { d with wireOpenCount := 1, wire := .opening } := by
  have hepoch : (n.next d { d with wireOpenCount := 1, wire := .opening } .wireOpen).epoch = n.done :=
    if_pos ⟨rfl, hc⟩
  constructor
  · exact h.done
  · exact hepoch.le
  · intro t ht
    rcases Stamps.mem_tx ht with ht | rfl
    · exact h.tx t ht
    · exact h.floor_le_begun
  · intro _ hne t ht
    rw [hepoch]
    exact hhand hne t ht
  · intro _ t ht
    rw [hepoch]
    rcases Stamps.mem_rx ht with ht | ⟨⟨_, ha⟩, -⟩
    · exact hrx t ht
    · cases ha

theorem WorkStep.current (h : WorkStep b d b' d' o) (hn : Current n d) (hiFirst : Bool) :
    Current (n.next d d' (.work hiFirst)) d' := by
  have hfloor : (n.next d d' (.work hiFirst)).floor d' = n.floor d := by cases h <;> rfl
  have hwire : d'.wire = d.wire := by cases h <;> rfl
  refine hn.next (by simp) (by simp [hwire]) (.inr hfloor.le) ?_ ?_
  · cases h with
    | dequeue hpc => exact fun _ => .inl ⟨hpc, _, rfl⟩
    | count hpc | snap hpc | noDropRate hpc | dropSpares hpc | noFlipRate hpc | flipFires hpc | flipSpares hpc
    | flipBit hpc =>
      intro hne
      right
      simpa [hpc, TxPc.holding, flipped] using hne
    | _ => exact fun hne => absurd rfl hne
  · cases h with
    | @deliver burst snap hpc | @deliverPart burst snap hpc =>
      by_cases hb : burst = []
      · left
        simp [hb, Fifo.len]
      · right
        rw [hpc]
        exact hb
    | _ => exact .inl le_rfl

theorem DevStep.current (h : DevStep b d a d' o) (hn : Current n d) (hc : OpensClean (⟨b, d⟩, n) a) :
    Current (n.next d d' a) d' := by
  cases h with
  | wireOpen hcount => exact hn.openWire hcount (hc hcount).1 (hc hcount).2
  | wireBusy hcount => exact hn.next (by simp [hcount]) id (.inr le_rfl) .inr (.inl le_rfl)
  | workStart =>
    exact hn.next (by simp) id (.inr le_rfl) (fun hne => absurd rfl hne) (.inl le_rfl)
  | wireOpened hw => exact hn.next (by simp) (by simp [hw]) (.inr le_rfl) .inr (.inl le_rfl)
  | wireRelease hw => exact hn.next (by simp) (by simp [hw]) (.inr le_rfl) .inr (.inl (Nat.zero_le _))
  | wireReleased => exact hn.next (by simp) (by simp) (.inr le_rfl) .inr (.inl le_rfl)
  | txAlloc | rxAllocFails | shutTx | downFlush | resetFlush =>
    exact hn.next (by simp) id (.inl rfl) .inr (.inl le_rfl)
  | rxAlloc | shutRx => exact hn.next (by simp) id (.inr le_rfl) .inr (.inl (Nat.zero_le _))
  | readTakes =>
    refine hn.next (by simp) id (.inr le_rfl) .inr (.inl ?_)
    simp [Fifo.len]
  | down hi | downWork hi | downCount hi | reset hi | resetWork hi | resetAttrs hi | resetWire hi =>
    refine hn.next (by simp) id (.inr ?_) .inr (.inl le_rfl)
    simp [Stamps.floor, Stamps.next, NotifierPc.flushed, hi]
  | @resetZero st rest hi =>
    cases st <;> refine hn.next (by simp) id (.inr ?_) .inr (.inl le_rfl) <;>
      simp [Stamps.floor, Stamps.next, NotifierPc.flushed, hi]
  | @resetStat k st =>
    cases st <;> exact hn.next (by simp) id (.inr le_rfl) .inr (.inl le_rfl)
  | refused ha =>
    cases a with
    | attrStore | bufSzStore | resetStore =>
      exact hn.next (by simp) id (.inr le_rfl) .inr (.inl le_rfl)
    | notify event =>
      cases event with
      | up => exact hn.next (by simp) id (.inr le_rfl) .inr (.inl le_rfl)
      | _ => cases ha
    | _ => cases ha
  | _ => exact hn.next (by simp) id (.inr le_rfl) .inr (.inl le_rfl)

theorem DevStep.isolated (h : DevStep b d a d' o) (hd : d.WireOk) (ha : Aligned n d) (hc : Current n d) {e : Delivery}
    (he : e ∈ n.shows a o) : e.Isolated := by
  cases h with
  | @readTakes k ok rdSz nonblock hk =>
    have heq := List.mem_singleton.mp he
    rw [heq]
    constructor
    · have hlen := ha.rx
      simp only [List.length_take, Fifo.front, Fifo.len] at hlen ⊢
      omega
    · intro t ht
      exact hc.rx (by simp [hd.reading hk]) t (List.mem_of_mem_take ht)
  | refused ha =>
    cases a with
    | attrStore | bufSzStore | resetStore | notify => cases he
    | _ => cases ha
  | _ => cases he

end

structure Dated (x : Sys × Stamps) : Prop where
  wire : x.1.dev.WireOk
  aligned : Aligned x.2 x.1.dev
  current : Current x.2 x.1.dev

theorem Dated.step {x y : Sys × Stamps} {a : Act} {e : List Delivery} (h : Dated x) (hc : OpensClean x a)
    (hobs : observed machine stamping x a = some (y, e)) : Dated y ∧ ∀ p ∈ e, p.Isolated := by
  obtain ⟨o, hm, hn, rfl⟩ := observed_eq_some hobs
  have hn' : y.2 = x.2.next x.1.dev y.1.dev a := hn
  have hok := machine_wireOk hm h.wire
  obtain ⟨hiFirst, rfl, hw⟩ | ⟨b, rfl, -, hd, rfl⟩ | ⟨-, hd⟩ := machine_cases hm
  · refine ⟨⟨hok, ?_, ?_⟩, by simp [stamping, Stamps.shows]⟩
    · rw [hn']
      exact hw.aligned h.aligned hiFirst
    · rw [hn']
      exact hw.current h.current hiFirst
  · refine ⟨⟨hok, ?_, ?_⟩, by simp [stamping, Stamps.shows]⟩
    · rw [hn', hd]
      exact ⟨h.aligned.next_tx (.inr rfl), h.aligned.next_hand (.inr rfl), h.aligned.next_rx (.inr rfl)⟩
    · rw [hn', hd]
      exact h.current.next (by simp) id (.inr le_rfl) .inr (.inl le_rfl)
  · refine ⟨⟨hok, ?_, ?_⟩, fun p hp => hd.isolated h.wire h.aligned h.current hp⟩
    · rw [hn']
      exact hd.aligned h.aligned
    · rw [hn']
      exact hd.current h.current hc

theorem dated_start : Dated (start, .none) := by
  refine ⟨wireOk_init, ⟨rfl, fun hne => absurd rfl hne, rfl⟩, ?_⟩
  constructor
  · exact le_rfl
  · exact le_rfl
  · simp [Stamps.none]
  · simp [Stamps.none]
  · simp [Stamps.none]

/-- No session gets a byte that was accepted before a RESET that was done when the session was opened. -/
theorem wire_reset_isolation {es : List Delivery} {x : Sys × Stamps}
    (h : Run (observed machine stamping) OpensClean (start, .none) es x) : ∀ e ∈ es, e.Isolated := by
  have hinv : Dated x ∧ ∀ e ∈ es, e.Isolated := by
    apply h.shown Dated Delivery.Isolated dated_start
    intro x a y e hi hc hm
    exact hi.step hc hm
  exact hinv.2

theorem wire_reset_isolation_reopened : ∃ es x, Run (observed machine stamping) OpensClean (start, .none) es x ∧
    es = [⟨[66], [1], 1⟩] ∧ ∀ e ∈ es, e.Isolated := by
  obtain ⟨es, x, hrun, hes⟩ := Run.exists_of_exec (M := observed machine stamping) (P := OpensClean)
    (s := (start, .none))
    (openPort ++ openWire ++ write [65] ++ transmit 7 ++ busReset ++ releaseWire ++ openWire ++ write [66] ++
      transmit 7 ++ blockingRead)
    (fun es _ => es = [⟨[66], [1], 1⟩]) (by decide +kernel)
  exact ⟨es, x, hrun, hes, wire_reset_isolation hrun⟩

theorem byte_survives_reset : ¬ ∀ es x, Run (observed machine stamping) Always (start, .none) es x →
    ∀ e ∈ es, e.Isolated := by
  intro hall
  -- nobody has the wire open when the RESET comes
  obtain ⟨es, x, hrun, hes⟩ := Run.exists_of_exec (M := observed machine stamping) (P := Always)
    (s := (start, .none))
    (openPort ++ write [65] ++ transmit 7 ++ busReset ++ openWire ++ blockingRead)
    (fun es _ => ⟨[65], [0], 1⟩ ∈ es) (by decide +kernel)
  have h := (hall es x hrun _ hes).2 0 (by simp)
  exact absurd h (by decide)

end VirtRtLab.Uart
