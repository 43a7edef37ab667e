import VirtRtLab.Uart.Lossless
import VirtRtLab.Uart.Pacing
import VirtRtLab.Uart.Timing

/-!
The calls of the TTY layer beside `write`: what `write_room` and `chars_in_buffer` answer, and `set_termios`.
-/

namespace VirtRtLab.Uart

open Kernel VirtRtLab.Core Transition

def ttyWriteRoom (d : Dev) : ℕ := d.txFifo.avail

def ttyCharsInBuffer (d : Dev) : ℕ := d.txFifo.len

def CSIZE : UInt32 := 0x30
def CS5 : UInt32 := 0
def CS6 : UInt32 := 0x10
def CS7 : UInt32 := 0x20
def CSTOPB : UInt32 := 0x40
def PARENB : UInt32 := 0x100
def PARODD : UInt32 := 0x200

/-- `virtrtlab_tty_set_termios`; `baud` is what `tty_termios_baud_rate` says. -/
def ttySetTermios (cflag baud : UInt32) : Termios where
  baud := baud
  parity := if cflag &&& PARENB ≠ 0 then (if cflag &&& PARODD ≠ 0 then .odd else .even) else .none
  databits :=
    let csize := cflag &&& CSIZE
    if csize = CS5 then 5 else if csize = CS6 then 6 else if csize = CS7 then 7 else 8
  stopbits := if cflag &&& CSTOPB ≠ 0 then 2 else 1

structure Termios.Valid (t : Termios) : Prop where
  databits : 5 ≤ t.databits ∧ t.databits ≤ 8
  stopbits : t.stopbits = 1 ∨ t.stopbits = 2

theorem ttySetTermios_valid (cflag baud : UInt32) : (ttySetTermios cflag baud).Valid := by
  constructor
  · simp only [ttySetTermios]
    split_ifs <;> decide
  · simp only [ttySetTermios]
    split_ifs <;> decide

theorem DevStep.termios {b : Bus} {d d' : Dev} {a : Act} {o : List Obs} (h : DevStep b d a d' o) :
    d'.termios = d.termios ∨ a = .setTermios d'.termios := by
  cases h with
  | setTermios => exact .inr rfl
  | @resetStat k st | @resetZero st => cases st <;> exact .inl rfl
  | _ => exact .inl rfl

theorem WorkStep.termios {b b' : Bus} {d d' : Dev} {o : List Obs} (h : WorkStep b d b' d' o) :
    d'.termios = d.termios := by
  cases h <;> rfl

def Decoded (_ : Sys) (a : Act) : Prop := ∀ t, a = .setTermios t → ∃ cflag baud, t = ttySetTermios cflag baud

theorem termios_valid {os : List Obs} {s : Sys} (h : Run machine Decoded start os s) : s.dev.termios.Valid := by
  apply h.invariant (fun s => s.dev.termios.Valid)
  · exact ⟨by decide, by decide⟩
  · intro t a u o ht ha hm
    rcases machine_cases hm with ⟨hiFirst, rfl, hw⟩ | ⟨b, rfl, -, hd, -⟩ | ⟨-, hd⟩
    · rw [hw.termios]
      exact ht
    · rw [hd]
      exact ht
    · rcases hd.termios with hsame | hset
      · rw [hsame]
        exact ht
      · obtain ⟨cflag, baud, he⟩ := ha _ hset
        rw [he]
        exact ttySetTermios_valid cflag baud

structure Offer where
  buf : Bytes
  taken : Bytes
  deriving DecidableEq

/-- Shows every write call that reaches `tx_fifo`. -/
def offering : Observer Sys Act Obs Unit Offer where
  next _ _ _ _ := ()
  shows _ s a r :=
    match a with
    | .writer k =>
      match s.dev.writers[k]? with
      | some (.ready buf _) => [⟨buf, acc r.2⟩]
      | _ => []
    | _ => []

def offered (es : List Offer) : ℕ := (es.map (fun e => e.buf.length)).sum

section

variable {b b' : Bus} {d d' : Dev} {o : List Obs}

theorem avail_get (q : Fifo UInt8) (n : ℕ) : q.avail ≤ (q.get n).avail := by
  simp only [Fifo.avail, Fifo.len, List.length_drop, Fifo.get]
  omega

theorem avail_reset (q : Fifo UInt8) : q.avail ≤ q.reset.avail := Nat.sub_le _ _

theorem avail_put (q : Fifo UInt8) (bs : Bytes) : (q.put bs).avail = q.avail - q.room bs := by
  have hroom := q.room_le bs
  simp only [Fifo.avail, Fifo.len, List.length_append, List.length_take, Fifo.put]
  omega

theorem WorkStep.avail (h : WorkStep b d b' d' o) : ttyWriteRoom d ≤ ttyWriteRoom d' ∧ d'.port = d.port := by
  cases h with
  | dequeue => exact ⟨avail_get _ _, rfl⟩
  | _ => exact ⟨Nat.le_refl _, rfl⟩

theorem DevStep.avail {a : Act} (h : DevStep b d a d' o) (hp : d.port = .opened) (ha : a ≠ .portShutdown) :
    d'.port = .opened ∧ (ttyWriteRoom d ≤ ttyWriteRoom d' ∨
      ∃ k buf baud, a = .writer k ∧ d.writers[k]? = some (.ready buf baud)) := by
  cases h with
  | accept hk => exact ⟨hp, .inr ⟨_, _, _, rfl, hk⟩⟩
  | downFlush | resetFlush => exact ⟨hp, .inl (avail_reset _)⟩
  | portShutdown => exact absurd rfl ha
  | portActivate hp' | txAlloc hp' | txAllocFails hp' | rxAlloc hp' | rxAllocFails hp' | portActive hp' | shutLen hp'
  | shutWork hp' | shutCount hp' | shutTx hp' | shutRx hp' =>
    rw [hp] at hp'
    cases hp'
  | @resetStat k st | @resetZero st => cases st <;> exact ⟨hp, .inl (Nat.le_refl _)⟩
  | _ => exact ⟨hp, .inl (Nat.le_refl _)⟩

theorem DevStep.offer {k : ℕ} {buf : Bytes} {baud : UInt32} (h : DevStep b d (.writer k) d' o)
    (hk : d.writers[k]? = some (.ready buf baud)) :
    acc o = buf.take (d.txFifo.room buf) ∧ ttyWriteRoom d ≤ ttyWriteRoom d' + buf.length := by
  cases h with
  | refused ha => cases ha
  | writeUp hk' | writeDown hk' | writeEnabled hk' | writeDisabled hk' | writeArm hk' =>
    rw [hk] at hk'
    cases hk'
  | writeFull hk' hr =>
    rw [hk] at hk'
    cases hk'
    rw [hr]
    exact ⟨rfl, Nat.le_add_right _ _⟩
  | accept hk' =>
    rw [hk] at hk'
    cases hk'
    have hroom := d.txFifo.room_le buf
    have hput := avail_put d.txFifo buf
    refine ⟨by simp [acc, Obs.acceptedBytes], ?_⟩
    simp only [ttyWriteRoom]
    omega

variable {x y : Sys × Unit} {a : Act} {es : List Offer}

theorem offering_ready {r : Sys × List Obs} {k : ℕ} {buf : Bytes} {baud : UInt32}
    (hk : x.1.dev.writers[k]? = some (.ready buf baud)) : offering.shows () x.1 (.writer k) r = [⟨buf, acc r.2⟩] := by
  simp [offering, hk]

theorem offering_silent {r : Sys × List Obs}
    (h : ¬ ∃ k buf baud, a = .writer k ∧ x.1.dev.writers[k]? = some (.ready buf baud)) :
    offering.shows () x.1 a r = [] := by
  simp only [offering]
  split
  · split
    · exact absurd ⟨_, _, _, rfl, ‹_›⟩ h
    · rfl
  · rfl

theorem offering_step (h : observed machine offering x a = some (y, es)) (hp : x.1.dev.port = .opened)
    (ha : a ≠ .portShutdown) : y.1.dev.port = .opened ∧
      ttyWriteRoom x.1.dev ≤ ttyWriteRoom y.1.dev + offered es ∧
      (offered es ≤ ttyWriteRoom x.1.dev → ∀ e ∈ es, e.taken = e.buf) := by
  obtain ⟨o, hm, -, rfl⟩ := observed_eq_some h
  by_cases hr : ∃ k buf baud, a = .writer k ∧ x.1.dev.writers[k]? = some (.ready buf baud)
  · obtain ⟨k, buf, baud, rfl, hk⟩ := hr
    rcases machine_cases hm with ⟨hiFirst, hw, -⟩ | ⟨b, hb, -⟩ | ⟨-, hd⟩
    · cases hw
    · cases hb
    · obtain ⟨hacc, hle⟩ := hd.offer hk
      rw [offering_ready hk, hacc]
      refine ⟨(hd.avail hp ha).1, by simpa [offered] using hle, fun hfit e he => ?_⟩
      rw [List.mem_singleton.mp he]
      simp only [offered, List.map_cons, List.map_nil, List.sum_cons, List.sum_nil, Nat.add_zero] at hfit
      have hroom : x.1.dev.txFifo.room buf = buf.length := Nat.min_eq_left hfit
      rw [hroom]
      exact List.take_length
  · rw [offering_silent hr]
    refine ⟨?_, ?_, fun _ e he => nomatch he⟩ <;>
    rcases machine_cases hm with ⟨hiFirst, -, hw⟩ | ⟨b, -, -, hd, -⟩ | ⟨-, hd⟩
    · rw [hw.avail.2, hp]
    · rw [hd, hp]
    · exact (hd.avail hp ha).1
    · exact hw.avail.1
    · rw [hd]
      exact Nat.le_refl _
    · exact (hd.avail hp ha).2.resolve_right hr

/-- The promise of `write_room`: while the port stays open, writers that together offer no more than what it said are
all served in full, whatever runs between them. -/
theorem write_room_kept {s : Sys} {t : Sys × Unit}
    (h : Run (observed machine offering) (fun _ a => a ≠ .portShutdown) (s, ()) es t) (hp : s.dev.port = .opened)
    (hn : offered es ≤ ttyWriteRoom s.dev) :
    (∀ e ∈ es, e.taken = e.buf) ∧ ttyWriteRoom s.dev ≤ ttyWriteRoom t.1.dev + offered es := by
  have hkept : t.1.dev.port = .opened ∧ ttyWriteRoom s.dev ≤ ttyWriteRoom t.1.dev + offered es ∧
      (offered es ≤ ttyWriteRoom s.dev → ∀ e ∈ es, e.taken = e.buf) := by
    apply h.history (fun es t => t.1.dev.port = .opened ∧ ttyWriteRoom s.dev ≤ ttyWriteRoom t.1.dev + offered es ∧
      (offered es ≤ ttyWriteRoom s.dev → ∀ e ∈ es, e.taken = e.buf))
    · exact ⟨hp, Nat.le_add_right _ _, fun _ e he => nomatch he⟩
    · rintro es t a u es' ⟨hopen, hle, hfull⟩ ha hm
      obtain ⟨hopen', hle', hfull'⟩ := offering_step hm hopen ha
      have hsum : offered (es ++ es') = offered es + offered es' := by simp [offered]
      refine ⟨hopen', by omega, fun hfit e he => ?_⟩
      rcases List.mem_append.mp he with he | he
      · exact hfull (by omega) e he
      · exact hfull' (by omega) e he
  exact ⟨hkept.2.2 hn, hkept.2.1⟩

end

def twoWrites : List Act :=
  [.ttyWrite [65, 66], .writer 0, .writer 0, .writer 0, .writer 0, .timerExpire, .workStart, .work true,
    .ttyWrite [67, 68, 69], .writer 0, .writer 0, .writer 0]

theorem write_room_kept_two_writes : ∃ es t,
    Run (observed machine offering) (fun _ a => a ≠ .portShutdown) (opened 0, ()) es t ∧
    es = [⟨[65, 66], [65, 66]⟩, ⟨[67, 68, 69], [67, 68, 69]⟩] ∧ (∀ e ∈ es, e.taken = e.buf) ∧
    4096 ≤ ttyWriteRoom t.1.dev + offered es := by
  obtain ⟨es, t, hrun, hes⟩ := Run.exists_of_exec (M := observed machine offering) (P := fun _ a => a ≠ .portShutdown)
    (s := (opened 0, ())) twoWrites (fun es _ => es = [⟨[65, 66], [65, 66]⟩, ⟨[67, 68, 69], [67, 68, 69]⟩])
    (by decide +kernel)
  have hroom : offered es ≤ ttyWriteRoom (opened 0).dev := by
    rw [hes]
    decide
  have hkept := write_room_kept hrun rfl hroom
  exact ⟨es, t, hrun, hes, hkept⟩

theorem holding_le {d : Dev} (h : Timely d) : d.txWork.holding.length ≤ BURST_SZ := by
  have hw := h.work
  cases hpc : d.txWork <;> rw [hpc] at hw
  case dequeued | counted => exact hw
  case gates | flip | flipBit | deliver => exact hw.1
  all_goals exact Nat.zero_le _

/-- What `tcdrain` waits for: once `chars_in_buffer` is 0, all that was accepted has gone to the wire but for one burst at
most, which `tx_work` still holds. -/
theorem drained_but_one_burst {os : List Obs} {s : Sys} (h : Run machine (fun s a => keeps s a = true) start os s)
    (hz : ttyCharsInBuffer s.dev = 0) :
    acc os = out os ++ (s.dev.rxFifo.data ++ s.dev.txWork.holding) ∧ s.dev.txWork.holding.length ≤ BURST_SZ := by
  have hbytes := lossless_stream h
  have hnil : s.dev.txFifo.data = [] := List.length_eq_zero_iff.mp hz
  have htimely : Timely s.dev := timely_run (h.mono (fun _ _ _ => trivial))
  rw [hbytes, Dev.inside, hnil, List.append_nil]
  exact ⟨rfl, holding_le htimely⟩

theorem drained_but_one_burst_in_hand : ∃ os, ∃ s : Sys, ttyCharsInBuffer s.dev = 0 ∧ acc os = [65, 66] ∧ out os = [] ∧
    s.dev.rxFifo.data = [] ∧ s.dev.txWork.holding = [65, 66] ∧
    acc os = out os ++ (s.dev.rxFifo.data ++ s.dev.txWork.holding) := by
  obtain ⟨os, s, hrun, hz, ha, ho, hr, hh⟩ := Run.exists_of_exec (M := machine)
    (P := fun s a => keeps s a = true) (s := start)
    (openPort ++ write [65, 66] ++ [.timerExpire, .workStart, .work true])
    (fun os s => ttyCharsInBuffer s.dev = 0 ∧ acc os = [65, 66] ∧ out os = [] ∧ s.dev.rxFifo.data = [] ∧
      s.dev.txWork.holding = [65, 66]) (by decide +kernel)
  exact ⟨os, s, hz, ha, ho, hr, hh, (drained_but_one_burst hrun hz).1⟩

end VirtRtLab.Uart
