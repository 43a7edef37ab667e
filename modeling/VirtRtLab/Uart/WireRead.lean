import VirtRtLab.Uart.WireSteps

namespace VirtRtLab.Uart

open Kernel VirtRtLab.Core Transition

/-- One access of a call of `virtrtlab_wire_read`. Between two of them the device may change in any way. -/
structure Access where
  pc : ReadPc
  ok : Bool
  before : Dev
  after : Dev

inductive Reads : ReadPc → List Access → Except Errno Bytes → Prop
  | ret (r) : Reads (.ret r) [] r
  | step {pc pc' ok d d' o as r} (hs : stepRead d pc ok = some (d', pc', o)) (ht : Reads pc' as r) :
      Reads pc (⟨pc, ok, d, d'⟩ :: as) r

def Access.takes (a : Access) : Bool :=
  match a.pc with
  | .locked _ _ => a.before.portActive && !a.before.rxFifo.isEmpty
  | _ => false

def Access.idle (a : Access) : Prop := a.after.rxFifo = a.before.rxFifo

/-- What the caller got is what left `rx_fifo`, all in one access. -/
def Exact (count : ℕ) (as : List Access) : Except Errno Bytes → Prop
  | .ok (c :: bs) => (c :: bs).length ≤ min count PAGE_SIZE ∧ ∃ first last, as = first ++ [last] ∧
      (∀ a ∈ first, a.idle) ∧ last.before.rxFifo.data = c :: bs ++ last.after.rxFifo.data
  | _ => ∀ a ∈ as, a.idle

def ReadPc.Sized (count : ℕ) : ReadPc → Prop
  | .called c _ => c = count
  | .wait rdSz | .woken rdSz | .locked rdSz _ => 0 < count ∧ rdSz = min count PAGE_SIZE
  | .ret _ => True

theorem stepRead_sized {count : ℕ} {d d' : Dev} {pc pc' : ReadPc} {ok : Bool} {o : List Obs}
    (h : stepRead d pc ok = some (d', pc', o)) (hz : pc.Sized count) : pc'.Sized count := by
  cases pc with
  | called c nonblock =>
    simp only [stepRead] at h
    cases hz
    repeat' split at h
    all_goals cases h
    all_goals first | exact trivial | exact ⟨Nat.pos_of_ne_zero ‹_›, rfl⟩
  | wait | woken | locked =>
    simp only [stepRead] at h
    repeat' split at h
    all_goals cases h
    all_goals first | exact trivial | exact hz
  | ret r => cases h

theorem front_eq_nil_iff {α : Type} {q : Fifo α} {n : ℕ} (hn : 0 < n) : q.front n = [] ↔ q.data = [] := by
  simp [Fifo.front, Nat.ne_of_gt hn]

theorem takes_of_quiet {count : ℕ} {d d' : Dev} {pc pc' : ReadPc} {ok : Bool}
    (h : stepRead d pc ok = some (d', pc', [])) (hz : pc.Sized count) : (Access.mk pc ok d d').takes = false := by
  cases pc with
  | locked rdSz nonblock =>
    obtain ⟨hpos, rfl⟩ := hz
    have hsz : 0 < min count PAGE_SIZE := by rw [PAGE_SIZE]; omega
    simp only [stepRead, front_eq_nil_iff hsz] at h
    split at h
    · rename_i ha
      simpa [Access.takes] using fun hact => absurd hact (by simpa using ha)
    · split at h
      · simp [Access.takes, Fifo.isEmpty, *]
      · cases h
  | _ => rfl

theorem exact_cons {count : ℕ} {a : Access} {as : List Access} {r : Except Errno Bytes} (ha : a.idle) :
    Exact count (a :: as) r ↔ Exact count as r := by
  unfold Exact
  split
  · rename_i c bs
    apply and_congr_right'
    constructor
    · rintro ⟨first, last, has, hfirst, hdata⟩
      cases first with
      | nil =>
        obtain ⟨rfl, -⟩ := List.cons.inj has
        rw [ha] at hdata
        have := congrArg List.length hdata
        simp only [List.length_append, List.length_cons] at this
        omega
      | cons a' first =>
        obtain ⟨-, rfl⟩ := List.cons.inj has
        exact ⟨first, last, rfl, fun a h => hfirst a (.tail _ h), hdata⟩
    · rintro ⟨first, last, rfl, hfirst, hdata⟩
      refine ⟨a :: first, last, rfl, ?_, hdata⟩
      rintro a' (_ | ⟨_, h⟩)
      · exact ha
      · exact hfirst a' h
  · simp [ha]

theorem exact_take {count rdSz : ℕ} {nonblock ok : Bool} {d : Dev} (hle : rdSz ≤ min count PAGE_SIZE)
    (hf : d.rxFifo.front rdSz ≠ []) :
    Exact count [⟨.locked rdSz nonblock, ok, d, { d with rxFifo := d.rxFifo.get rdSz }⟩]
      (if ok then .ok (d.rxFifo.front rdSz) else .error .efault) ↔ ok = true := by
  have hsplit : d.rxFifo.data = d.rxFifo.front rdSz ++ d.rxFifo.data.drop rdSz := (List.take_append_drop _ _).symm
  have hlen : (d.rxFifo.front rdSz).length ≤ rdSz := List.length_take_le _ _
  cases ok with
  | true =>
    simp only [if_true, iff_true]
    generalize hb : d.rxFifo.front rdSz = bs at hf hsplit hlen
    cases bs with
    | nil => exact absurd rfl hf
    | cons c bs => exact ⟨Nat.le_trans hlen hle, [], _, rfl, by simp, hsplit⟩
  | false =>
    simp only [Bool.false_eq_true, if_false, iff_false]
    intro hex
    have hsame := congrArg Fifo.data (hex _ (.head _))
    rw [Fifo.data_get] at hsame
    rw [hsame] at hsplit
    exact hf (List.self_eq_append_left.mp hsplit)

theorem Reads.exact_iff {count : ℕ} {pc : ReadPc} {as : List Access} {r : Except Errno Bytes} (h : Reads pc as r)
    (hz : pc.Sized count) (hr : ∀ bs, pc = .ret (.ok bs) → bs = []) :
    Exact count as r ↔ ∀ a ∈ as, a.takes = true → a.ok = true := by
  induction h with
  | ret r =>
    unfold Exact
    split
    · cases hr _ rfl
    · simp
  | @step pc pc' ok d d' o as r hs ht ih =>
    obtain ⟨rfl, rfl, hret⟩ | ⟨rdSz, nonblock, rfl, ha, hf, rfl, rfl, rfl⟩ := stepRead_cases hs
    · have hidle : (Access.mk pc ok d' d').idle := rfl
      rw [exact_cons hidle, ih (stepRead_sized hs hz) hret, List.forall_mem_cons, takes_of_quiet hs hz]
      simp
    · cases ht with
      | step hs' => cases hs'
      | ret =>
        rw [exact_take hz.2.le hf, List.forall_mem_cons]
        have hdata : d.rxFifo.data ≠ [] := fun hd => hf (by rw [Fifo.front, hd, List.take_nil])
        simp [Access.takes, ha, Fifo.isEmpty, hdata]

/-- A read is exact if and only if `copy_to_user` does not fail on bytes it has taken. -/
theorem wireRead_exact {count : ℕ} {nonblock : Bool} {as : List Access} {r : Except Errno Bytes}
    (h : Reads (.called count nonblock) as r) :
    Exact count as r ↔ ∀ a ∈ as, a.takes = true → a.ok = true :=
  h.exact_iff rfl (by simp)

theorem byte_received : ∃ os s, Run machine Always start os s ∧ s.dev.portActive = true ∧
    s.dev.wireResetPending = false ∧ s.dev.rxFifo.data = [65] := by
  obtain ⟨os, s, hrun, hs⟩ := Run.exists_of_exec (M := machine) (P := Always) (s := start)
    (openPort ++ openWire ++ write [65] ++ transmit 6)
    (fun _ s => s.dev.portActive = true ∧ s.dev.wireResetPending = false ∧ s.dev.rxFifo.data = [65]) (by decide +kernel)
  exact ⟨os, s, hrun, hs⟩

theorem reads_byte {d : Dev} (ok : Bool) (ha : d.portActive = true) (hr : d.wireResetPending = false)
    (hd : d.rxFifo.data = [65]) :
    Reads (.called 16 true) [⟨.called 16 true, true, d, d⟩,
      ⟨.locked 16 true, ok, d, { d with rxFifo := d.rxFifo.get 16 }⟩] (if ok then .ok [65] else .error .efault) := by
  have hcalled : stepRead d (.called 16 true) true = some (d, .locked 16 true, []) := by simp [stepRead, hr, PAGE_SIZE]
  have hlocked : stepRead d (.locked 16 true) ok = some ({ d with rxFifo := d.rxFifo.get 16 },
      .ret (if ok then .ok [65] else .error .efault), [.wireRead [65]]) := by
    simp [stepRead, ha, Fifo.front, hd]
  exact .step hcalled (.step hlocked (.ret _))

theorem wireRead_exact_byte : ∃ as, Reads (.called 16 true) as (.ok [65]) ∧ Exact 16 as (.ok [65]) := by
  obtain ⟨os, s, -, ha, hr, hd⟩ := byte_received
  have h := reads_byte true ha hr hd
  exact ⟨_, h, (wireRead_exact h).mpr (by simp)⟩

theorem copy_fault_loses_byte : ¬∀ (count : ℕ) (nonblock : Bool) (as : List Access) (r : Except Errno Bytes),
    Reads (.called count nonblock) as r → Exact count as r := by
  intro hall
  obtain ⟨os, s, -, ha, hr, hd⟩ := byte_received
  have hex : Exact 16 _ (.error .efault) := hall _ _ _ _ (reads_byte false ha hr hd)
  have hsame := congrArg Fifo.data (hex _ (.tail _ (.head _)))
  rw [Fifo.data_get, hd] at hsame
  cases hsame

def readAlone : ℕ → Dev → ReadPc → Option (Dev × Except Errno Bytes)
  | _, d, .ret r => some (d, r)
  | 0, _, _ => none
  | fuel + 1, d, pc =>
    match stepRead d pc true with
    | none => none
    | some (d', pc', _) => readAlone fuel d' pc'

theorem readAlone_nonblocking (d : Dev) {count : ℕ} (hc : 0 < count) : readAlone 2 d (.called count true) = some (
    if (wirePoll d).pollHup then (d, .ok [])
    else if (wirePoll d).pollIn then
      ({ d with rxFifo := d.rxFifo.get (min count PAGE_SIZE) }, .ok (d.rxFifo.front (min count PAGE_SIZE)))
    else (d, .error .eagain)) := by
  have hsz : 0 < min count PAGE_SIZE := by rw [PAGE_SIZE]; omega
  have hne : count ≠ 0 := Nat.ne_of_gt hc
  by_cases hr : d.wireResetPending = true
  · simp [readAlone, stepRead, wirePoll, hr, hne]
  · by_cases ha : d.portActive = true
    · by_cases hd : d.rxFifo.data = []
      · simp [readAlone, stepRead, wirePoll, Fifo.isEmpty, front_eq_nil_iff hsz, hr, hne, ha, hd]
      · simp [readAlone, stepRead, wirePoll, Fifo.isEmpty, front_eq_nil_iff hsz, hr, hne, ha, hd]
    · simp [readAlone, stepRead, wirePoll, hr, hne, ha]

theorem poll_wait_read_agree (d : Dev) {count : ℕ} (hc : 0 < count) :
    ∃ d' r, readAlone 2 d (.called count true) = some (d', r) ∧
      ((wirePoll d).pollIn = true ∨ (wirePoll d).pollHup = true ↔ d.readable = true) ∧
      (d.readable = true ↔ r ≠ .error .eagain) ∧
      ((∃ c bs, r = .ok (c :: bs)) ↔
        d.portActive = true ∧ d.wireResetPending = false ∧ (wirePoll d).pollIn = true) ∧
      (r = .ok [] ↔ (wirePoll d).pollHup = true) := by
  have hread := readAlone_nonblocking d hc
  have hagree : (wirePoll d).pollIn = true ∨ (wirePoll d).pollHup = true ↔ d.readable = true := by
    rw [← wirePoll_readable, Bool.or_eq_true]
  have hopen : (wirePoll d).pollHup = true ↔ ¬(d.portActive = true ∧ d.wireResetPending = false) := by
    simp only [wirePoll]
    cases d.wireResetPending <;> cases d.portActive <;> decide
  by_cases hup : (wirePoll d).pollHup = true
  · rw [if_pos hup] at hread
    refine ⟨d, .ok [], hread, hagree, ?_, ?_, ?_⟩
    · simp [← hagree, hup]
    · have hclosed := hopen.mp hup
      simpa using fun ha hr => absurd ⟨ha, hr⟩ hclosed
    · simp [hup]
  · obtain ⟨ha, hr⟩ := not_not.mp (fun h => hup (hopen.mpr h))
    rw [if_neg hup] at hread
    by_cases hin : (wirePoll d).pollIn = true
    · rw [if_pos hin] at hread
      have hne : d.rxFifo.front (min count PAGE_SIZE) ≠ [] := by
        rw [Ne, front_eq_nil_iff (by rw [PAGE_SIZE]; omega)]
        simpa [wirePoll, Fifo.isEmpty] using hin
      refine ⟨_, _, hread, hagree, ?_, ?_, ?_⟩
      · simp [← hagree, hin]
      · simp [ha, hr, hin, List.ne_nil_iff_exists_cons.mp hne]
      · simp [hne, hup]
    · rw [if_neg hin] at hread
      refine ⟨_, _, hread, hagree, ?_, ?_, ?_⟩
      · simp [← hagree, hin, hup]
      · simp [hin]
      · simp [hup]

theorem poll_wait_read_agree_byte : ∃ os s d r, Run machine Always start os s ∧ (wirePoll s.dev).pollIn = true ∧
    readAlone 2 s.dev (.called 16 true) = some (d, r) ∧ r ≠ .error .eagain := by
  obtain ⟨os, s, hrun, -, -, hd⟩ := byte_received
  have hin : (wirePoll s.dev).pollIn = true := by simp [wirePoll, Fifo.isEmpty, hd]
  obtain ⟨d, r, hread, hpoll, hwait, -, -⟩ := poll_wait_read_agree s.dev (show 0 < 16 by decide)
  exact ⟨os, s, d, r, hrun, hin, hread, hwait.mp (hpoll.mp (.inl hin))⟩

end VirtRtLab.Uart
