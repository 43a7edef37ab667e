import VirtRtLab.Uart.WireWrite
import VirtRtLab.Daemon.Invariant

namespace VirtRtLab.Lab

open Kernel Uart Transition

variable {n : ℕ}

structure Accounted (buf : Bytes) (d : Dev) (r : Except Errno ℕ × Dev × List FlipOp) : Prop where
  first : inserted r.2.2 = buf.take (inserted r.2.2).length
  received : r.2.1.statRxBytes = d.statRxBytes + UInt64.ofNat (inserted r.2.2).length
  lost : r.2.1.statOverruns = d.statOverruns + UInt64.ofNat (buf.length - (inserted r.2.2).length)

theorem ofNat_inj {a b : ℕ} (ha : a < 2 ^ 64) (hb : b < 2 ^ 64) : UInt64.ofNat a = UInt64.ofNat b ↔ a = b := by
  constructor
  · intro h
    have := congrArg UInt64.toNat h
    rwa [UInt64.toNat_ofNat_of_lt' ha, UInt64.toNat_ofNat_of_lt' hb] at this
  · rintro rfl
    rfl

theorem accounted_iff (room : ℕ → ℕ) {buf : Bytes} (d : Dev) (hb : buf ≠ []) (hlen : buf.length < 2 ^ 64) :
    Accounted buf d (wireWrite (fun _ => true) room buf d) ↔
      ∀ k, (k + 1) * WRITE_CHUNK < buf.length → WRITE_CHUNK ≤ room k := by
  obtain ⟨hdev, hins⟩ := wireWrite_loop (fun _ => true) room d hb
  obtain ⟨r, lost, h⟩ := writeLoop_counts (fun _ => true) room 0 buf ⟨d, [], 0, false⟩
  have hle := h.le
  have htake : inserted (wireWrite (fun _ => true) room buf d).2.2 = buf.take r := by
    rw [hins, h.flip, inserted_nil, List.nil_append]
  have hr : (buf.take r).length = r := by
    rw [List.length_take]
    omega
  have hall := h.all (fun _ => rfl)
  simp only [Nat.zero_add] at hall
  rw [← hall]
  constructor
  · intro ha
    have hlost := ha.lost
    rw [htake, hr, hdev, h.dev, UInt64.add_right_inj, ofNat_inj (by omega) (by omega)] at hlost
    omega
  · intro heq
    have hrest : buf.length - r = lost := by omega
    refine ⟨?_, ?_, ?_⟩
    · rw [htake, hr]
    · rw [htake, hr, hdev, h.dev]
    · rw [htake, hr, hdev, h.dev, hrest]

theorem recv_writes {p q : Daemon.Proc n} {i : Fin n} {buf : Bytes} {o : List (Daemon.Obs n)}
    (hpc : p.pc = .clientRecv i) (h : Daemon.machine p (.recv (.ok buf)) = some (q, o)) (hb : buf ≠ []) :
    buf.length ≤ Daemon.SOCK_BUF_SIZE ∧ q.pc = .wireWrite i buf ∧
      ∀ r, Daemon.machine q (.write r) = some ({ q with pc := .idle }, []) := by
  unfold Daemon.machine at h
  split at h
  · cases h
  · rename_i hrun
    cases buf with
    | nil => exact absurd rfl hb
    | cons c buf =>
      simp only [hpc, Daemon.stepHandler] at h
      split at h
      · cases h
      · split at h
        · rename_i hlen
          cases h
          refine ⟨hlen, rfl, fun r => ?_⟩
          simp only [Daemon.machine, if_neg hrun, Daemon.stepHandler]
        · cases h

/-- A message is accounted for if and only if no chunk of it but the last is cut short. -/
theorem message_accounted {p q : Daemon.Proc n} {i : Fin n} {buf : Bytes} {o : List (Daemon.Obs n)}
    (hpc : p.pc = .clientRecv i) (h : Daemon.machine p (.recv (.ok buf)) = some (q, o)) (hb : buf ≠ [])
    (room : ℕ → ℕ) (d : Dev) :
    q.pc = .wireWrite i buf ∧ (∀ r, Daemon.machine q (.write r) = some ({ q with pc := .idle }, [])) ∧
      (Accounted buf d (wireWrite (fun _ => true) room buf d) ↔
        ∀ k, (k + 1) * WRITE_CHUNK < buf.length → WRITE_CHUNK ≤ room k) := by
  obtain ⟨hlen, hq, hw⟩ := recv_writes hpc h hb
  rw [Daemon.SOCK_BUF_SIZE] at hlen
  exact ⟨hq, hw, accounted_iff room d hb (by omega)⟩

theorem client_readable : ∃ os p, Run Daemon.machine Always (Daemon.start 1) os p ∧ p.pc = .clientRecv 0 ∧
    ∀ buf : Bytes, buf ≠ [] → buf.length ≤ Daemon.SOCK_BUF_SIZE →
      Daemon.machine p (.recv (.ok buf)) = some ({ p with pc := .wireWrite 0 buf }, []) := by
  refine ⟨_, _, Run.of_exec [.wait [.fd 1], .dispatch, .accept (some 2), .wait [.fd 2], .dispatch] rfl, rfl, ?_⟩
  intro buf hb hlen
  cases buf with
  | nil => exact absurd rfl hb
  | cons c buf => exact if_pos hlen

theorem message_accounted_two_bytes : ∃ os p q o, Run Daemon.machine Always (Daemon.start 1) os p ∧
    Daemon.machine p (.recv (.ok [104, 105])) = some (q, o) ∧
      Accounted [104, 105] .init (wireWrite (fun _ => true) (fun _ => 1) [104, 105] .init) := by
  obtain ⟨os, p, hrun, hpc, hrecv⟩ := client_readable
  have hq := hrecv [104, 105] (by decide) (by decide)
  obtain ⟨-, -, hiff⟩ := message_accounted hpc hq (by decide) (fun _ => 1) .init
  refine ⟨os, p, _, _, hrun, hq, hiff.mpr fun k hk => ?_⟩
  rw [WRITE_CHUNK, List.length_cons, List.length_cons, List.length_nil] at hk
  omega

theorem chunks_never_tried : ¬∀ (os : List (Daemon.Obs 1)) (p q : Daemon.Proc 1) (i : Fin 1) (buf : Bytes)
    (o : List (Daemon.Obs 1)) (room : ℕ → ℕ) (d : Dev), Run Daemon.machine Always (Daemon.start 1) os p →
      p.pc = .clientRecv i → Daemon.machine p (.recv (.ok buf)) = some (q, o) → buf ≠ [] →
        Accounted buf d (wireWrite (fun _ => true) room buf d) := by
  intro hall
  obtain ⟨os, p, hrun, hpc, hrecv⟩ := client_readable
  have hlen : (List.replicate 512 (0 : UInt8)).length = 512 := List.length_replicate
  have hb : List.replicate 512 (0 : UInt8) ≠ [] := fun he => by
    rw [he] at hlen
    cases hlen
  have hq := hrecv _ hb (by rw [hlen]; decide)
  have hacc := hall os p _ 0 _ _ (fun _ => 100) .init hrun hpc hq hb
  have hroom := (accounted_iff _ _ hb (by rw [hlen]; decide)).mp hacc 0 (by rw [hlen]; decide)
  exact absurd hroom (by decide)

end VirtRtLab.Lab
