import VirtRtLab.Uart.Machine

/-!
`virtrtlab_wire_write`, one call with nobody else at work. For each chunk of the user's buffer `copy` says whether
`copy_from_user` succeeds, and `room` how many bytes `tty_insert_flip_string` could take.
-/

namespace VirtRtLab.Uart

open Kernel VirtRtLab.Core Transition

def WRITE_CHUNK : ℕ := 256

inductive FlipOp where
  | insert (bs : Bytes)
  | push
  deriving DecidableEq

def FlipOp.bytes : FlipOp → Bytes
  | .insert bs => bs
  | .push => []

def inserted (ops : List FlipOp) : Bytes := ops.flatMap FlipOp.bytes

structure Writing where
  dev : Dev
  flip : List FlipOp
  done : ℕ
  fault : Bool

def Writing.insert (w : Writing) (bs : Bytes) : Writing where
  dev := { w.dev with statRxBytes := w.dev.statRxBytes + UInt64.ofNat bs.length }
  flip := w.flip ++ [.insert bs]
  done := w.done + bs.length
  fault := w.fault

def Writing.overrun (w : Writing) (lost : ℕ) : Writing :=
  { w with dev := { w.dev with statOverruns := w.dev.statOverruns + UInt64.ofNat lost } }

def writeLoop (copy : ℕ → Bool) (room : ℕ → ℕ) (k : ℕ) (rest : Bytes) (w : Writing) : Writing :=
  if h : rest = [] then w
  else
    let chunk := rest.take WRITE_CHUNK
    if copy k then
      let n := min (room k) chunk.length
      if 0 < n then
        if n < chunk.length then (w.insert (chunk.take n)).overrun (chunk.length - n)
        else writeLoop copy room (k + 1) (rest.drop n) (w.insert (chunk.take n))
      else { w.overrun chunk.length with flip := w.flip ++ [.insert []] }
    else { w with fault := true }
termination_by rest.length
decreasing_by
  have := List.length_pos_iff.mpr h
  rw [List.length_drop]
  exact Nat.sub_lt this ‹_›

/-- The result, the device and what was done to the flip buffer. -/
def wireWrite (copy : ℕ → Bool) (room : ℕ → ℕ) (buf : Bytes) (d : Dev) : Except Errno ℕ × Dev × List FlipOp :=
  if buf = [] then (.ok 0, d, [])
  else
    let w := writeLoop copy room 0 buf ⟨d, [], 0, false⟩
    if w.fault then (if w.done ≠ 0 then .ok w.done else .error .efault, w.dev, w.flip)
    else if w.done ≠ 0 then (.ok w.done, w.dev, w.flip ++ [.push])
    else (.error .eagain, w.dev, w.flip)

@[simp] theorem inserted_nil : inserted [] = [] := rfl

@[simp] theorem inserted_insert (ops : List FlipOp) (bs : Bytes) :
    inserted (ops ++ [.insert bs]) = inserted ops ++ bs := by
  simp [inserted, FlipOp.bytes]

@[simp] theorem inserted_push (ops : List FlipOp) : inserted (ops ++ [.push]) = inserted ops := by
  simp [inserted, FlipOp.bytes]

theorem Writing.insert_nil (w : Writing) (lost : ℕ) :
    (w.insert []).overrun lost = { w.overrun lost with flip := w.flip ++ [.insert []] } := by
  simp [Writing.insert, Writing.overrun]

theorem Writing.overrun_zero (w : Writing) : w.overrun 0 = w := by
  simp [Writing.overrun]

section

variable {copy : ℕ → Bool} {room : ℕ → ℕ}

/-- The loop rule: the end of the buffer, a copy fault, a short insert, or a whole chunk and the rest of the loop. -/
theorem writeLoop_rule (Q : ℕ → Bytes → Writing → Writing → Prop)
    (done : ∀ k w, Q k [] w w)
    (fault : ∀ k rest w, rest ≠ [] → copy k = false → Q k rest w { w with fault := true })
    (short : ∀ k rest w, copy k = true → room k < min WRITE_CHUNK rest.length →
      Q k rest w ((w.insert (rest.take (room k))).overrun (min WRITE_CHUNK rest.length - room k)))
    (whole : ∀ k rest w u n, copy k = true → n ≤ room k → n = min WRITE_CHUNK rest.length → 0 < n →
      Q (k + 1) (rest.drop n) (w.insert (rest.take n)) u → Q k rest w u)
    (k : ℕ) (rest : Bytes) (w : Writing) : Q k rest w (writeLoop copy room k rest w) := by
  induction hl : rest.length using Nat.strongRecOn generalizing k rest w with
  | ind l ih =>
    rw [writeLoop]
    by_cases h : rest = []
    · rw [dif_pos h, h]
      exact done k w
    · rw [dif_neg h]
      have hlen : 0 < min WRITE_CHUNK rest.length := by
        have := List.length_pos_iff.mpr h
        rw [WRITE_CHUNK]
        omega
      simp only [List.length_take, List.take_take]
      by_cases hc : copy k = true
      · rw [if_pos hc]
        by_cases hr : room k < min WRITE_CHUNK rest.length
        · rw [Nat.min_eq_left hr.le, Nat.min_eq_left (Nat.le_trans hr.le (Nat.min_le_left _ _)), if_pos hr]
          by_cases hpos : 0 < room k
          · rw [if_pos hpos]
            exact short k rest w hc hr
          · have h0 : room k = 0 := Nat.eq_zero_of_not_pos hpos
            have hs := short k rest w hc hr
            rw [h0, List.take_zero, Nat.sub_zero, Writing.insert_nil] at hs
            rw [if_neg hpos]
            exact hs
        · have hr' : min WRITE_CHUNK rest.length ≤ room k := Nat.le_of_not_lt hr
          rw [Nat.min_eq_right hr', Nat.min_eq_left (Nat.min_le_left _ _), if_pos hlen, if_neg (Nat.lt_irrefl _)]
          apply whole k rest w _ _ hc hr' rfl hlen
          apply ih _ _ _ _ _ rfl
          rw [List.length_drop, hl]
          omega
      · rw [if_neg hc]
        exact fault k rest w h (by simpa using hc)

/-- A call inserts a prefix of the buffer and counts it; the bytes it counts as overruns come next. They are all that
is left exactly when no chunk but the last is cut short. -/
structure Counts (copy : ℕ → Bool) (room : ℕ → ℕ) (k : ℕ) (rest : Bytes) (w u : Writing) (r lost : ℕ) : Prop where
  le : r + lost ≤ rest.length
  done : u.done = w.done + r
  flip : inserted u.flip = inserted w.flip ++ rest.take r
  dev : u.dev = { w.dev with
    statRxBytes := w.dev.statRxBytes + UInt64.ofNat r
    statOverruns := w.dev.statOverruns + UInt64.ofNat lost }
  all : (∀ j, copy j = true) →
    (r + lost = rest.length ↔ ∀ j, (j + 1) * WRITE_CHUNK < rest.length → WRITE_CHUNK ≤ room (k + j))

theorem Counts.whole {k : ℕ} {rest : Bytes} {w u : Writing} {r lost n : ℕ} (hr : n ≤ room k)
    (hn : n = min WRITE_CHUNK rest.length) (h : Counts copy room (k + 1) (rest.drop n) (w.insert (rest.take n)) u r lost) :
    Counts copy room k rest w u (n + r) lost := by
  obtain ⟨hle, hdone, hflip, hdev, hall⟩ := h
  have hmin : n ≤ rest.length := hn ▸ Nat.min_le_right _ _
  have hlen : (rest.take n).length = n := by rw [List.length_take, Nat.min_eq_left hmin]
  rw [List.length_drop] at hle hall
  refine ⟨by omega, ?_, ?_, ?_, fun hcopy => ?_⟩
  · rw [hdone, Writing.insert, hlen, Nat.add_assoc]
  · rw [hflip, Writing.insert, inserted_insert, List.append_assoc, List.take_add]
  · rw [hdev, Writing.insert, hlen, UInt64.ofNat_add, ← UInt64.add_assoc]
  · constructor
    · intro heq j hj
      cases j with
      | zero =>
        rw [Nat.add_zero]
        omega
      | succ j =>
        rw [Nat.succ_mul] at hj
        have hroom := (hall hcopy).mp (by omega) j (by omega)
        rwa [Nat.add_right_comm, Nat.add_assoc] at hroom
    · intro hroom
      have heq : r + lost = rest.length - n := by
        apply (hall hcopy).mpr
        intro j hj
        rw [Nat.add_right_comm, Nat.add_assoc]
        exact hroom (j + 1) (by rw [Nat.succ_mul]; omega)
      omega

theorem writeLoop_counts (copy : ℕ → Bool) (room : ℕ → ℕ) (k : ℕ) (rest : Bytes) (w : Writing) :
    ∃ r lost, Counts copy room k rest w (writeLoop copy room k rest w) r lost := by
  apply writeLoop_rule (fun k rest w u => ∃ r lost, Counts copy room k rest w u r lost)
  · intro k w
    exact ⟨0, 0, by simp, rfl, by simp, by simp, by simp⟩
  · intro k rest w _ hc
    refine ⟨0, 0, by simp, rfl, by simp, by simp, fun hcopy => ?_⟩
    rw [hcopy] at hc
    cases hc
  · intro k rest w _ hr
    have hmin := Nat.min_le_right WRITE_CHUNK rest.length
    have hlen : (rest.take (room k)).length = room k := by rw [List.length_take]; omega
    refine ⟨room k, min WRITE_CHUNK rest.length - room k, by omega, ?_, ?_, ?_, fun _ => ?_⟩
    · rw [Writing.overrun, Writing.insert, hlen]
    · rw [Writing.overrun, Writing.insert, inserted_insert]
    · rw [Writing.overrun, Writing.insert, hlen]
    · constructor
      · intro heq j hj
        have : WRITE_CHUNK ≤ (j + 1) * WRITE_CHUNK := Nat.le_mul_of_pos_left _ (Nat.succ_pos j)
        omega
      · intro hroom
        have h0 : WRITE_CHUNK < rest.length → WRITE_CHUNK ≤ room k := by simpa using hroom 0
        omega
  · rintro k rest w u n _ hr hn _ ⟨r, lost, h⟩
    exact ⟨n + r, lost, h.whole hr hn⟩

structure FaultsAt (copy : ℕ → Bool) (room : ℕ → ℕ) (k len j : ℕ) : Prop where
  reached : j * WRITE_CHUNK < len
  before : ∀ i < j, copy (k + i) = true ∧ WRITE_CHUNK ≤ room (k + i)
  faults : copy (k + j) = false

theorem FaultsAt.succ_iff {k len j : ℕ} (hc : copy k = true) (hr : min WRITE_CHUNK len ≤ room k) :
    FaultsAt copy room k len (j + 1) ↔ FaultsAt copy room (k + 1) (len - min WRITE_CHUNK len) j := by
  have hk (i : ℕ) : k + 1 + i = k + (i + 1) := by omega
  constructor
  · rintro ⟨hreach, hbefore, hfault⟩
    rw [Nat.succ_mul] at hreach
    refine ⟨by omega, fun i hi => ?_, ?_⟩
    · rw [hk]
      exact hbefore (i + 1) (Nat.succ_lt_succ hi)
    · rw [hk]
      exact hfault
  · rintro ⟨hreach, hbefore, hfault⟩
    refine ⟨by rw [Nat.succ_mul]; omega, fun i hi => ?_, ?_⟩
    · cases i with
      | zero => exact ⟨hc, by rw [Nat.add_zero]; omega⟩
      | succ i =>
        rw [← hk]
        exact hbefore i (Nat.lt_of_succ_lt_succ hi)
    · rw [← hk]
      exact hfault

structure Faults (copy : ℕ → Bool) (room : ℕ → ℕ) (k len : ℕ) (w u : Writing) : Prop where
  out : u.fault = true → ∃ j, FaultsAt copy room k len j ∧ u.done = w.done + j * WRITE_CHUNK
  back : ∀ j, FaultsAt copy room k len j → u.fault = true ∧ u.done = w.done + j * WRITE_CHUNK

theorem Faults.whole {k n : ℕ} {rest : Bytes} {w u : Writing} (hc : copy k = true) (hr : n ≤ room k)
    (hn : n = min WRITE_CHUNK rest.length)
    (h : Faults copy room (k + 1) (rest.drop n).length (w.insert (rest.take n)) u) :
    Faults copy room k rest.length w u := by
  have hdone : (w.insert (rest.take n)).done = w.done + n := by
    simp only [Writing.insert, List.length_take]
    omega
  obtain ⟨hout, hback⟩ := h
  rw [List.length_drop, hdone] at hout hback
  subst hn
  refine ⟨fun hf => ?_, fun j hj => ?_⟩
  · obtain ⟨j, hj, hu⟩ := hout hf
    have := hj.reached
    exact ⟨j + 1, (FaultsAt.succ_iff hc hr).mpr hj, by rw [hu, Nat.succ_mul]; omega⟩
  · cases j with
    | zero => exact absurd hj.faults (by simp [hc])
    | succ j =>
      have hnext := (FaultsAt.succ_iff hc hr).mp hj
      have := hnext.reached
      obtain ⟨hf, hu⟩ := hback j hnext
      exact ⟨hf, by rw [hu, Nat.succ_mul]; omega⟩

theorem writeLoop_faults (copy : ℕ → Bool) (room : ℕ → ℕ) (k : ℕ) (rest : Bytes) (w : Writing) (hw : w.fault = false) :
    Faults copy room k rest.length w (writeLoop copy room k rest w) := by
  revert hw
  apply writeLoop_rule (fun k rest w u => w.fault = false → Faults copy room k rest.length w u)
  · intro k w hw
    exact ⟨fun hf => by simp [hw] at hf, fun j hj => absurd hj.reached (Nat.not_lt_zero _)⟩
  · intro k rest w hrest hc _
    have hlen := List.length_pos_iff.mpr hrest
    refine ⟨fun _ => ⟨0, ⟨by omega, by simp, hc⟩, by simp⟩, fun j hj => ?_⟩
    cases j with
    | zero => simp
    | succ j => exact absurd (hj.before 0 (Nat.succ_pos j)).1 (by simp [hc])
  · intro k rest w hc hr hw
    refine ⟨fun hf => by simp [Writing.overrun, Writing.insert, hw] at hf, fun j hj => ?_⟩
    cases j with
    | zero => exact absurd hj.faults (by simp [hc])
    | succ j =>
      have := (hj.before 0 (Nat.succ_pos j)).2
      rw [Nat.add_zero] at this
      omega
  · intro k rest w u n hc hr hn _ h hw
    exact (h hw).whole hc hr hn

theorem writeLoop_no_push (copy : ℕ → Bool) (room : ℕ → ℕ) (k : ℕ) (rest : Bytes) (w : Writing)
    (hw : .push ∉ w.flip) : .push ∉ (writeLoop copy room k rest w).flip := by
  revert hw
  apply writeLoop_rule (fun _ _ w u => .push ∉ w.flip → .push ∉ u.flip)
  · intro k w hw
    exact hw
  · intro k rest w _ _ hw
    exact hw
  · intro k rest w _ _ hw
    simpa [Writing.overrun, Writing.insert] using hw
  · intro k rest w u n _ _ _ _ h hw
    exact h (by simpa [Writing.insert] using hw)

theorem chunk_step {w : Writing} {rest : Bytes} {chunk n : ℕ} (b : Bus) (hw : w.dev.wire = .opened)
    (hc : chunk = min WRITE_CHUNK rest.length) (hpos : 0 < chunk) (hn : n ≤ chunk) :
    machine ⟨b, w.dev⟩ (.wireChunk chunk n) =
      some (⟨b, ((w.insert (rest.take n)).overrun (chunk - n)).dev⟩, [.rxInserted n, .rxOverran (chunk - n)]) := by
  have hlen : (rest.take n).length = n := by rw [List.length_take]; omega
  have hguard : w.dev.wire = .opened ∧ 0 < chunk ∧ n ≤ chunk ∧ chunk ≤ 256 := by
    rw [hc]
    exact ⟨hw, hc ▸ hpos, hc ▸ hn, Nat.min_le_left _ _⟩
  simp only [machine, stepDev, if_pos hguard, Option.map_some, Writing.overrun, Writing.insert, hlen]

theorem writeLoop_run (b : Bus) (copy : ℕ → Bool) (room : ℕ → ℕ) (k : ℕ) (rest : Bytes) (w : Writing)
    (hw : w.dev.wire = .opened) :
    ∃ os, Run machine Always ⟨b, w.dev⟩ os ⟨b, (writeLoop copy room k rest w).dev⟩ := by
  revert hw
  apply writeLoop_rule (fun _ _ w u => w.dev.wire = .opened → ∃ os, Run machine Always ⟨b, w.dev⟩ os ⟨b, u.dev⟩)
  · intro k w _
    exact ⟨_, .refl⟩
  · intro k rest w _ _ _
    exact ⟨_, .refl⟩
  · intro k rest w _ hr hw
    exact ⟨_, .step .refl trivial (chunk_step b hw rfl (by omega) hr.le)⟩
  · intro k rest w u n _ _ hn hpos h hw
    obtain ⟨os, hrun⟩ := h hw
    have hone := chunk_step b hw hn hpos (Nat.le_refl n)
    rw [Nat.sub_self, Writing.overrun_zero] at hone
    have hfirst : Run machine Always ⟨b, w.dev⟩ _ _ := .step .refl trivial hone
    exact ⟨_, hfirst.trans hrun⟩

end

theorem wireWrite_loop (copy : ℕ → Bool) (room : ℕ → ℕ) {buf : Bytes} (d : Dev) (hb : buf ≠ []) :
    (wireWrite copy room buf d).2.1 = (writeLoop copy room 0 buf ⟨d, [], 0, false⟩).dev ∧
      inserted (wireWrite copy room buf d).2.2 = inserted (writeLoop copy room 0 buf ⟨d, [], 0, false⟩).flip := by
  rw [wireWrite, if_neg hb]
  dsimp only
  split
  · exact ⟨rfl, rfl⟩
  · split
    · exact ⟨rfl, inserted_push _⟩
    · exact ⟨rfl, rfl⟩

/-- On the device, a call is a sequence of the machine's chunk steps. -/
theorem wireWrite_run (b : Bus) (copy : ℕ → Bool) (room : ℕ → ℕ) (buf : Bytes) {d : Dev} (hw : d.wire = .opened) :
    ∃ os, Run machine Always ⟨b, d⟩ os ⟨b, (wireWrite copy room buf d).2.1⟩ := by
  by_cases hb : buf = []
  · rw [wireWrite, if_pos hb]
    exact ⟨_, .refl⟩
  · rw [(wireWrite_loop copy room d hb).1]
    exact writeLoop_run b copy room 0 buf ⟨d, [], 0, false⟩ hw

def Delivered (r : Except Errno ℕ × Dev × List FlipOp) : Prop :=
  inserted r.2.2 ≠ [] → r.1 = .ok (inserted r.2.2).length ∧ r.2.2.getLast? = some .push

section

variable (copy : ℕ → Bool) (room : ℕ → ℕ) (buf : Bytes) (d : Dev)

theorem writeLoop_inserted :
    (inserted (writeLoop copy room 0 buf ⟨d, [], 0, false⟩).flip).length =
      (writeLoop copy room 0 buf ⟨d, [], 0, false⟩).done := by
  obtain ⟨r, lost, h⟩ := writeLoop_counts copy room 0 buf ⟨d, [], 0, false⟩
  have := h.le
  rw [h.flip, h.done, inserted_nil, List.nil_append, List.length_take, Nat.zero_add]
  omega

theorem wireWrite_delivered (hb : buf ≠ []) : Delivered (wireWrite copy room buf d) ↔
    ¬((writeLoop copy room 0 buf ⟨d, [], 0, false⟩).fault = true ∧
      (writeLoop copy room 0 buf ⟨d, [], 0, false⟩).done ≠ 0) := by
  have hlen := writeLoop_inserted copy room buf d
  have hpush := writeLoop_no_push copy room 0 buf ⟨d, [], 0, false⟩ (by simp)
  rw [wireWrite, if_neg hb]
  generalize writeLoop copy room 0 buf ⟨d, [], 0, false⟩ = w at hlen hpush
  dsimp only
  by_cases hf : w.fault = true
  · rw [if_pos hf]
    by_cases hd : w.done = 0
    · simp [Delivered, hd, List.length_eq_zero_iff.mp (hlen.trans hd)]
    · rw [if_pos hd]
      have hne : inserted w.flip ≠ [] := fun he => hd (by rw [← hlen, he]; rfl)
      have hlast : w.flip.getLast? ≠ some .push := fun h => hpush (List.mem_of_getLast? h)
      simp [Delivered, hf, hd, hne, hlast]
  · rw [if_neg hf]
    by_cases hd : w.done = 0
    · simp [Delivered, hd, List.length_eq_zero_iff.mp (hlen.trans hd)]
    · rw [if_pos hd]
      simp [Delivered, hf, hlen]

theorem wireWrite_not_delivered {k : ℕ} (hk : 0 < k) (h : FaultsAt copy room 0 buf.length k) :
    ¬Delivered (wireWrite copy room buf d) := by
  have hb : buf ≠ [] := by
    rintro rfl
    exact absurd h.reached (Nat.not_lt_zero _)
  obtain ⟨hf, hd⟩ := (writeLoop_faults copy room 0 buf ⟨d, [], 0, false⟩ rfl).back k h
  rw [wireWrite_delivered copy room buf d hb, not_not]
  refine ⟨hf, ?_⟩
  rw [hd, WRITE_CHUNK]
  omega

/-- The bytes a call inserted are reported and pushed if and only if no chunk faults after one that went in. -/
theorem wireWrite_delivers : Delivered (wireWrite copy room buf d) ↔
    ∀ k, 0 < k → k * WRITE_CHUNK < buf.length → (∀ j < k, copy j = true ∧ WRITE_CHUNK ≤ room j) → copy k = true := by
  constructor
  · intro hdel k hk hlen hbefore
    by_contra hc
    refine wireWrite_not_delivered copy room buf d hk ⟨hlen, ?_, ?_⟩ hdel
    · intro i hi
      rw [Nat.zero_add]
      exact hbefore i hi
    · simpa using hc
  · intro hcopy
    by_cases hb : buf = []
    · intro hne
      rw [wireWrite, if_pos hb] at hne
      exact absurd rfl hne
    · rw [wireWrite_delivered copy room buf d hb]
      rintro ⟨hf, hd⟩
      obtain ⟨k, hat, hdone⟩ := (writeLoop_faults copy room 0 buf ⟨d, [], 0, false⟩ rfl).out hf
      have hk : 0 < k := by
        apply Nat.pos_of_ne_zero
        rintro rfl
        exact hd (by simp [hdone])
      have hbefore := hat.before
      have hfault := hat.faults
      simp only [Nat.zero_add] at hbefore hfault
      rw [hcopy k hk hat.reached hbefore] at hfault
      cases hfault

end

theorem first_chunk_not_pushed : ¬∀ (copy : ℕ → Bool) (room : ℕ → ℕ) (buf : Bytes) (d : Dev),
    Delivered (wireWrite copy room buf d) := by
  intro h
  refine wireWrite_not_delivered (fun k => k = 0) (fun _ => 256) (List.replicate 257 0) .init Nat.one_pos ?_ (h _ _ _ _)
  refine ⟨by rw [List.length_replicate]; decide, ?_, rfl⟩
  intro i hi
  obtain rfl := Nat.lt_one_iff.mp hi
  exact ⟨rfl, by decide⟩

end VirtRtLab.Uart
