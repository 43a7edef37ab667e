import VirtRtLab.Lib.Effort
import VirtRtLab.Uart.Baseline
import VirtRtLab.Uart.Stream
import VirtRtLab.Uart.Stranding

/-!
How long a UART can be busy with what the AUT wrote.
-/

namespace VirtRtLab.Uart

open Kernel VirtRtLab.Core Transition Effort

def Act.engine : Act → Bool
  | .writer _ | .timerExpire | .workStart | .work _ => true
  | _ => false

/-- Steps of the engine for a byte that is taken out of `tx_fifo` by itself: a whole run of `tx_work`, which arms
`tx_timer` at its end. -/
def BYTE_STEPS : ℕ := 14

def TxPc.owed : TxPc → ℕ
  | .idle => 0
  | .entered => 1
  | pc => pc.toGo + 3

def WritePc.owed : WritePc → ℕ
  | .called _ => 7
  | .gated _ => 6
  | .ready _ _ => 5
  | .enqueued _ => 4

def Dev.owed (d : Dev) : ℕ :=
  BYTE_STEPS * d.txFifo.len + d.txWork.owed + 2 * d.txWorkQueued.toNat + 3 * d.txTimer.isSome.toNat +
    (d.writers.map WritePc.owed).sum

def Sys.owed (s : Sys) : ℕ := s.dev.owed

def prices : Prices Act Obs where
  counts := Act.engine
  asks
    | .ttyWrite _ => 7
    | _ => 0
  shows
    | .accepted bs => BYTE_STEPS * bs.length
    | _ => 0

section

variable {b b' : Bus} {d d' : Dev} {a : Act} {o : List Obs}

theorem WorkStep.paid (h : WorkStep b d b' d' o) (hiFirst : Bool) :
    Paid prices Sys.owed ⟨b, d⟩ (.work hiFirst) ⟨b', d'⟩ o := by
  have htimer := Bool.toNat_le d.txTimer.isSome
  unfold Paid Sys.owed
  cases h with
  | nothing hpc he =>
    simp only [Dev.owed, TxPc.owed, hpc, prices, Act.engine, Bool.toNat_true]
    omega
  | dequeue hpc he =>
    have hpos : 0 < d.txFifo.data.length := by
      apply List.length_pos_iff.mpr
      intro hd
      simp [Fifo.front, hd] at he
    simp only [Dev.owed, TxPc.owed, TxPc.toGo, hpc, prices, Act.engine, Bool.toNat_true, Fifo.len, Fifo.data_get,
      List.length_drop, BURST_SZ, BYTE_STEPS]
    omega
  | arm hpc =>
    simp only [Dev.owed, TxPc.owed, TxPc.toGo, hpc, prices, Act.engine, Bool.toNat_true, Option.isSome_some]
    omega
  | done hpc he =>
    simp only [Dev.owed, TxPc.owed, TxPc.toGo, hpc, prices, Act.engine, Bool.toNat_true]
    omega
  | count hpc | snap hpc | disabled hpc | noDropRate hpc | dropFires hpc | dropSpares hpc | drop hpc | noFlipRate hpc
  | flipFires hpc | flipSpares hpc | flipBit hpc | deliver hpc | deliverPart hpc | overrun hpc | noJitter hpc
  | jitter hpc | draw hpc | draw2 hpc =>
    simp only [Dev.owed, TxPc.owed, TxPc.toGo, hpc, prices, Act.engine, Bool.toNat_true]
    omega

theorem owed_zeroStat (d : Dev) (st : Stat) : (d.zeroStat st).owed = d.owed := by
  cases st <;> rfl

theorem writer_paid {k : ℕ} {pc pc' : WritePc} (hk : d.writers[k]? = some pc) (hlt : pc'.owed < pc.owed) :
    Paid prices Sys.owed ⟨b, d⟩ (.writer k) ⟨b, { d with writers := d.writers.set k pc' }⟩ [] := by
  have hsum := sum_map_set (f := WritePc.owed) hk pc'
  unfold Paid Sys.owed
  simp only [Dev.owed, prices, Act.engine, Bool.toNat_true, List.map_nil, List.sum_nil]
  omega

theorem writer_ends {k : ℕ} {pc : WritePc} (hk : d.writers[k]? = some pc) :
    Paid prices Sys.owed ⟨b, d⟩ (.writer k) ⟨b, { d with writers := d.writers.eraseIdx k }⟩ [] := by
  have hsum := sum_map_eraseIdx (f := WritePc.owed) hk
  have hpos : 4 ≤ pc.owed := by
    cases pc <;> simp [WritePc.owed]
  unfold Paid Sys.owed
  simp only [Dev.owed, prices, Act.engine, Bool.toNat_true, List.map_nil, List.sum_nil]
  omega

theorem DevStep.paid (h : DevStep b d a d' o) : Paid prices Sys.owed ⟨b, d⟩ a ⟨b', d'⟩ o := by
  have hless (hle : d'.owed ≤ d.owed) (ha : a.engine = false) : Paid prices Sys.owed ⟨b, d⟩ a ⟨b', d'⟩ o := by
    unfold Paid Sys.owed
    simp only [prices, ha, Bool.toNat_false]
    omega
  cases h with
  | refused ha => exact .of_eq rfl (by cases a <;> first | rfl | cases ha)
  | writeCall =>
    simp [Paid, Sys.owed, prices, Act.engine, Dev.owed, WritePc.owed]
    omega
  | writeUp hk | writeEnabled hk => exact writer_paid (b := b) hk (by simp [WritePc.owed])
  | writeDown hk | writeDisabled hk | writeFull hk => exact writer_ends (b := b) hk
  | @accept k buf baud hk hr =>
    have hsum := sum_map_set (f := WritePc.owed) hk (.enqueued baud)
    simp only [WritePc.owed] at hsum
    simp only [Paid, Sys.owed, prices, Act.engine, Dev.owed, Fifo.len, Fifo.data_put, List.length_append, Bool.toNat_true,
      List.map_cons, List.map_nil, List.sum_cons, List.sum_nil, Nat.mul_add]
    omega
  | @writeArm k baud hk =>
    have hsum := sum_map_eraseIdx (f := WritePc.owed) hk
    simp only [WritePc.owed] at hsum
    simp only [Paid, Sys.owed, prices, Act.engine, Dev.owed, Bool.toNat_true, Option.isSome_some]
    omega
  | timerExpire ht =>
    simp only [Paid, Sys.owed, prices, Act.engine, Dev.owed, ht, Bool.toNat_true, Option.isSome_none, Bool.toNat_false]
    omega
  | workStart hq hw =>
    simp only [Paid, Sys.owed, prices, Act.engine, Dev.owed, hq, hw, TxPc.owed, Bool.toNat_true, Bool.toNat_false]
    omega
  | txAlloc | rxAllocFails | shutTx | downFlush | resetFlush =>
    apply hless _ rfl
    simp only [Dev.owed, Fifo.reset, Fifo.len_alloc, Fifo.len_free]
    omega
  | portShutdown | down | reset =>
    apply hless _ rfl
    simp only [Dev.owed, Option.isSome_none, Bool.toNat_false]
    omega
  | shutWork | downWork | resetWork =>
    apply hless _ rfl
    simp only [Dev.owed, Bool.toNat_false]
    omega
  | @resetStat k st | @resetZero st =>
    apply hless _ rfl
    exact (owed_zeroStat d st).le
  | _ => exact .of_eq rfl rfl

end

theorem machine_paid {s t : Sys} {a : Act} {o : List Obs} (h : machine s a = some (t, o)) :
    Paid prices Sys.owed s a t o := by
  obtain ⟨hiFirst, rfl, hw⟩ | ⟨x, rfl, -, hd, -⟩ | ⟨-, hd⟩ := machine_cases h
  · exact hw.paid hiFirst
  · refine .of_eq ?_ rfl
    simp only [Sys.owed, hd]
  · exact hd.paid

def Act.write : Act → Bool
  | .ttyWrite _ => true
  | _ => false

theorem asks_eq (as : List Act) : (as.map prices.asks).sum = 7 * as.countP Act.write := by
  induction as with
  | nil => rfl
  | cons a as ih =>
    rw [List.map_cons, List.sum_cons, ih, List.countP_cons]
    cases a with
    | ttyWrite buf =>
      simp only [prices, Act.write, ↓reduceIte]
      omega
    | _ => simp [prices, Act.write]

theorem shows_eq (os : List Obs) : (os.map prices.shows).sum = BYTE_STEPS * (acc os).length := by
  induction os with
  | nil => rfl
  | cons ob os ih =>
    have hacc : acc (ob :: os) = ob.acceptedBytes ++ acc os := rfl
    rw [List.map_cons, List.sum_cons, ih, hacc, List.length_append, Nat.mul_add]
    cases ob <;> rfl

theorem empty_at_rest {os : List Obs} {s : Sys} (h : Run machine Always start os s)
    (hrest : ∀ a, a.engine = true → machine s a = none) (ht : s.dev.tearing = false) : s.dev.txFifo.data = [] := by
  by_contra hne
  have hidle : s.dev.txWork = .idle := by
    by_contra hw
    obtain ⟨t, o, hm⟩ := work_enabled hw
    have hnone := hrest _ (rfl : (Act.work true).engine = true)
    rw [hm] at hnone
    cases hnone
  cases attended_run h hne with
  | timer htimer =>
    have hnone := hrest .timerExpire rfl
    simp [machine, stepDev, htimer] at hnone
  | queued hq =>
    have hnone := hrest .workStart rfl
    simp [machine, stepDev, hq, hidle] at hnone
  | untested hu => simp [hidle, TxPc.untested] at hu
  | rearming hr => simp [hidle, TxPc.rearming] at hr
  | starting hs =>
    obtain ⟨k, baud, hk⟩ := hs
    have hnone := hrest (.writer k) rfl
    simp [machine, stepWriter, hk] at hnone
  | tearing htear => simp [ht] at htear

/-- Whatever else happens and in whatever order, the engine makes at most `7` steps for a `tty_write` and `BYTE_STEPS`
for a byte it accepted, and where it stops without a teardown it leaves no byte behind. -/
theorem engine_comes_to_rest {as : List Act} {os : List Obs} {s : Sys} (h : exec machine Always start as = some (s, os)) :
    as.countP Act.engine + s.dev.owed ≤ 7 * as.countP Act.write + BYTE_STEPS * (acc os).length ∧
      ((∀ a, a.engine = true → machine s a = none) → s.dev.tearing = false → s.dev.txFifo.data = []) := by
  constructor
  · have hpaid := exec_paid prices Sys.owed (fun t a u o _ hm => machine_paid hm) h
    have hstart : start.owed = 0 := rfl
    rw [asks_eq, shows_eq, hstart, Nat.zero_add] at hpaid
    exact hpaid
  · exact empty_at_rest (Run.of_exec as h)

theorem engine_at_rest {s : Sys} (hw : s.dev.writers = []) (ht : s.dev.txTimer = none) (hq : s.dev.txWorkQueued = false)
    (hi : s.dev.txWork = .idle) {a : Act} (ha : a.engine = true) : machine s a = none := by
  cases a with
  | writer k => simp [machine, stepWriter, hw]
  | timerExpire => simp [machine, stepDev, ht]
  | workStart => simp [machine, stepDev, hq]
  | work hiFirst => simp [machine, stepWork, hi]
  | _ => cases ha

def bothBursts : List Act := twoBursts ++ .work true :: transmit 7

theorem engine_comes_to_rest_two_bursts : ∃ os s, exec machine Always start bothBursts = some (s, os) ∧
    bothBursts.countP Act.engine = 23 ∧ (acc os).length = 65 ∧
    bothBursts.countP Act.engine + s.dev.owed ≤ 7 * bothBursts.countP Act.write + BYTE_STEPS * (acc os).length ∧
    s.dev.txFifo.data = [] := by
  have hrun : (exec machine Always start bothBursts).any (fun r =>
      (acc r.2).length = 65 ∧ r.1.dev.writers = [] ∧ r.1.dev.txTimer = none ∧ r.1.dev.txWorkQueued = false ∧
        r.1.dev.txWork = .idle ∧ r.1.dev.tearing = false) = true := by decide +kernel
  obtain ⟨⟨s, os⟩, he, hs⟩ := (Option.any_eq_true _ _).mp hrun
  obtain ⟨hacc, hw, ht, hq, hi, htear⟩ := of_decide_eq_true hs
  obtain ⟨hsteps, hrest⟩ := engine_comes_to_rest he
  exact ⟨os, s, he, by decide, hacc, hsteps, hrest (fun a ha => engine_at_rest hw ht hq hi ha) htear⟩

end VirtRtLab.Uart
