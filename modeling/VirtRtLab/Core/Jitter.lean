import Mathlib.Tactic.Ring
import Mathlib.Tactic.Linarith
import VirtRtLab.Core.Period

/-!
The jitter sample as a function of the state of the generator: its value, what the order of the two draws changes, and
which offsets it takes.
-/

namespace VirtRtLab.Core

open Function

theorem combined_toNat (hi lo : UInt32) : (hi.toUInt64 <<< 32 ||| lo.toUInt64).toNat = hi.toNat * 2 ^ 32 + lo.toNat := by
  have hhi : hi.toNat < 2 ^ 32 := hi.toNat_lt
  have hlo : lo.toNat < 2 ^ 32 := lo.toNat_lt
  have hshift : (hi.toUInt64 <<< 32).toNat = hi.toNat <<< 32 := by
    rw [UInt64.toNat_shiftLeft]
    exact Nat.mod_eq_of_lt (by rw [UInt32.toNat_toUInt64, Nat.shiftLeft_eq]; simp; omega)
  rw [UInt64.toNat_or, hshift, UInt32.toNat_toUInt64, ← Nat.shiftLeft_add_eq_or_of_lt hlo, Nat.shiftLeft_eq]

theorem succ_toNat {jitterNs : UInt64} (h : jitterNs.toNat + 1 < 2 ^ 64) : (jitterNs + 1).toNat = jitterNs.toNat + 1 := by
  rw [UInt64.toNat_add]
  exact Nat.mod_eq_of_lt h

theorem jitterSample_toNat {jitterNs : UInt64} (hi lo : UInt32) (h : jitterNs.toNat + 1 < 2 ^ 64) :
    (jitterSample hi lo jitterNs).toNat = (hi.toNat * 2 ^ 32 + lo.toNat) % (jitterNs.toNat + 1) := by
  unfold jitterSample
  rw [UInt64.toNat_mod, combined_toNat, succ_toNat h]

theorem offset_le (hi lo : UInt32) (jitterNs : UInt64) :
    (hi.toNat * 2 ^ 32 + lo.toNat) % (jitterNs.toNat + 1) ≤ jitterNs.toNat :=
  Nat.lt_succ_iff.mp (Nat.mod_lt _ (Nat.succ_pos _))

theorem add_jitterSample_toNat {base jitterNs : UInt64} (hi lo : UInt32) (h : base.toNat + jitterNs.toNat + 1 < 2 ^ 64) :
    (base + jitterSample hi lo jitterNs).toNat =
      base.toNat + (hi.toNat * 2 ^ 32 + lo.toNat) % (jitterNs.toNat + 1) := by
  have hle := offset_le hi lo jitterNs
  rw [UInt64.toNat_add, jitterSample_toNat _ _ (by omega)]
  exact Nat.mod_eq_of_lt (by omega)

theorem jittered_toNat {base jitterNs : UInt64} (hi lo : UInt32) (h : base.toNat + jitterNs.toNat + 1 < 2 ^ 64) :
    (if jitterNs = 0 then base else base + jitterSample hi lo jitterNs).toNat =
      base.toNat + (hi.toNat * 2 ^ 32 + lo.toNat) % (jitterNs.toNat + 1) := by
  split
  · rename_i hj
    have hone : (0 : UInt64).toNat + 1 = 1 := rfl
    rw [hj, hone, Nat.mod_one, Nat.add_zero]
  · exact add_jitterSample_toNat hi lo h

namespace Bus

/-- The sample of two consecutive draws; C leaves open which operand of `|` is evaluated first. -/
def sample (b : Bus) (hiFirst : Bool) (jitterNs : UInt64) : UInt64 :=
  if hiFirst then jitterSample b.nextPrngU32 b.drawn.nextPrngU32 jitterNs
  else jitterSample b.drawn.nextPrngU32 b.nextPrngU32 jitterNs

theorem sample_toNat {jitterNs : UInt64} (b : Bus) (hiFirst : Bool) (h : jitterNs.toNat + 1 < 2 ^ 64) :
    ∃ hi lo : UInt32, hi ≠ 0 ∧ lo ≠ 0 ∧
      (b.sample hiFirst jitterNs).toNat = (hi.toNat * 2 ^ 32 + lo.toNat) % (jitterNs.toNat + 1) := by
  have hfirst := nextPrngU32_ne_zero b
  have hsecond := nextPrngU32_ne_zero b.drawn
  cases hiFirst with
  | true => exact ⟨_, _, hfirst, hsecond, jitterSample_toNat _ _ h⟩
  | false => exact ⟨_, _, hsecond, hfirst, jitterSample_toNat _ _ h⟩

theorem order_iff {jitterNs : UInt64} (b : Bus) (h : jitterNs.toNat + 1 < 2 ^ 64) :
    b.sample true jitterNs = b.sample false jitterNs ↔
      (jitterNs.toNat + 1 : ℤ) ∣ (2 ^ 32 - 1) * (b.drawn.nextPrngU32.toNat - b.nextPrngU32.toNat) := by
  have hdiff : ((b.drawn.nextPrngU32.toNat * 2 ^ 32 + b.nextPrngU32.toNat : ℕ) : ℤ) -
      (b.nextPrngU32.toNat * 2 ^ 32 + b.drawn.nextPrngU32.toNat : ℕ) =
      (2 ^ 32 - 1) * (b.drawn.nextPrngU32.toNat - b.nextPrngU32.toNat) := by
    push_cast
    ring
  have hmod : ((jitterNs.toNat + 1 : ℕ) : ℤ) = jitterNs.toNat + 1 := by push_cast; rfl
  rw [← UInt64.toNat_inj, ← hdiff, ← hmod, ← Nat.modEq_iff_dvd]
  unfold sample
  rw [if_pos rfl, if_neg Bool.false_ne_true, jitterSample_toNat _ _ h, jitterSample_toNat _ _ h]
  rfl

def adjacent : Bus := ⟨.up, 1625261664⟩

theorem adjacent_draws : adjacent.nextPrngU32 = 2456421193 ∧ adjacent.drawn.nextPrngU32 = 2456421192 := by decide

theorem order_iff_forall {jitterNs : UInt64} (h : jitterNs.toNat + 1 < 2 ^ 64) :
    (∀ b : Bus, b.prngState ≠ 0 → b.sample true jitterNs = b.sample false jitterNs) ↔
      jitterNs.toNat + 1 ∣ 2 ^ 32 - 1 := by
  constructor
  · intro hall
    have hadj := (order_iff adjacent h).mp (hall adjacent (by decide))
    rw [adjacent_draws.1, adjacent_draws.2] at hadj
    have hneg : ((2 : ℤ) ^ 32 - 1) * ((2456421192 : UInt32).toNat - (2456421193 : UInt32).toNat) =
        -((2 ^ 32 - 1 : ℕ) : ℤ) := by decide
    rw [hneg, dvd_neg] at hadj
    exact Int.natCast_dvd_natCast.mp hadj
  · intro hdvd b _
    apply (order_iff b h).mpr
    have hcast : (jitterNs.toNat + 1 : ℤ) ∣ 2 ^ 32 - 1 := Int.natCast_dvd_natCast.mpr hdvd
    exact hcast.mul_right _

/-- The order of evaluation is invisible in a sample exactly when `jitter_ns + 1` divides `2 ^ 32 - 1` times the
distance of the two draws, and never shows exactly when it divides `2 ^ 32 - 1`. -/
theorem sample_order {jitterNs : UInt64} (hj : jitterNs ≤ 10000000000) :
    (∀ b : Bus, b.prngState ≠ 0 → (b.sample true jitterNs = b.sample false jitterNs ↔
      (jitterNs.toNat + 1 : ℤ) ∣ (2 ^ 32 - 1) * (b.drawn.nextPrngU32.toNat - b.nextPrngU32.toNat))) ∧
    ((∀ b : Bus, b.prngState ≠ 0 → b.sample true jitterNs = b.sample false jitterNs) ↔
      jitterNs.toNat + 1 ∣ 2 ^ 32 - 1) := by
  have hle : jitterNs.toNat ≤ 10000000000 := UInt64.le_iff_toNat_le.mp hj
  have h : jitterNs.toNat + 1 < 2 ^ 64 := by omega
  exact ⟨fun b _ => order_iff b h, order_iff_forall h⟩

theorem sample_order_two_ns : init.sample true 2 = init.sample false 2 :=
  (sample_order (by decide)).2.mpr (by decide) init (by decide)

theorem sample_order_shows : init.sample true 1000000 = 261994 ∧ init.sample false 1000000 = 914472 := by decide

theorem nextPrngU32_congr {b c : Bus} (h : b.prngState = c.prngState) : b.nextPrngU32 = c.nextPrngU32 := by
  unfold nextPrngU32
  rw [h]

theorem exists_nextPrngU32 {v : UInt32} (hv : v ≠ 0) : ∃ b : Bus, b.prngState ≠ 0 ∧ b.nextPrngU32 = v := by
  obtain ⟨n, hn⟩ : ∃ n, 2 ^ 32 - 1 = n + 1 := ⟨2 ^ 32 - 2, rfl⟩
  have hperiod := iterate_minimalPeriod (f := drawn) (x := ⟨.up, v⟩)
  rw [minimalPeriod_drawn hv, hn, iterate_succ_apply'] at hperiod
  refine ⟨drawn^[n] ⟨.up, v⟩, ?_, congrArg prngState hperiod⟩
  rw [iterate_drawn hv]
  exact toBitVec_ne_zero.mp (iterate_ne_zero (toBitVec_ne_zero.mpr hv) n)

theorem exists_second {v : UInt32} (hv : v ≠ 0) : ∃ b : Bus, b.prngState ≠ 0 ∧ b.drawn.nextPrngU32 = v := by
  obtain ⟨c, hc, rfl⟩ := exists_nextPrngU32 hv
  obtain ⟨b, hb, hbc⟩ := exists_nextPrngU32 hc
  exact ⟨b, hb, nextPrngU32_congr hbc⟩

end Bus

def Reachable (hiFirst : Bool) (jitterNs : UInt64) (d : ℕ) : Prop :=
  ∃ b : Bus, b.prngState ≠ 0 ∧ (b.sample hiFirst jitterNs).toNat = d

open Classical in
noncomputable def unreachable (hiFirst : Bool) (jitterNs : UInt64) : Finset ℕ :=
  (Finset.range (jitterNs.toNat + 1)).filter (fun d => ¬Reachable hiFirst jitterNs d)

theorem exists_low {m d : ℕ} (hd : d < m) (hm : m < 2 ^ 32) : ∃ v : UInt32, v ≠ 0 ∧ v.toNat % m = d := by
  obtain ⟨n, hn, hnm, hnd⟩ : ∃ n, n ≠ 0 ∧ n < 2 ^ 32 ∧ n % m = d := by
    by_cases h0 : d = 0
    · exact ⟨m, by omega, hm, by rw [Nat.mod_self, h0]⟩
    · exact ⟨d, h0, hd.trans hm, Nat.mod_eq_of_lt hd⟩
  have hv : (UInt32.ofNat n).toNat = n := UInt32.toNat_ofNat_of_lt' hnm
  refine ⟨UInt32.ofNat n, ?_, by rw [hv, hnd]⟩
  rw [ne_eq, ← UInt32.toNat_inj, hv]
  exact hn

theorem reachable_of_dvd {hiFirst : Bool} {jitterNs : UInt64} (h : jitterNs.toNat + 1 ∣ 2 ^ 31) {d : ℕ}
    (hd : d ≤ jitterNs.toNat) : Reachable hiFirst jitterNs d := by
  have hm : jitterNs.toNat + 1 ≤ 2 ^ 31 := Nat.le_of_dvd (by decide) h
  obtain ⟨v, hv, hlow⟩ := exists_low (Nat.lt_succ_of_le hd) (hm.trans_lt (by decide))
  have hhigh (hi : UInt32) : (hi.toNat * 2 ^ 32 + v.toNat) % (jitterNs.toNat + 1) = d := by
    obtain ⟨k, hk⟩ : jitterNs.toNat + 1 ∣ hi.toNat * 2 ^ 32 := Dvd.dvd.mul_left (h.trans (by decide)) _
    rw [hk, Nat.mul_add_mod, hlow]
  cases hiFirst with
  | true =>
    obtain ⟨b, hb, hbv⟩ := Bus.exists_second hv
    refine ⟨b, hb, ?_⟩
    rw [Bus.sample, if_pos rfl, jitterSample_toNat _ _ (by omega), hbv, hhigh]
  | false =>
    obtain ⟨b, hb, hbv⟩ := Bus.exists_nextPrngU32 hv
    refine ⟨b, hb, ?_⟩
    rw [Bus.sample, if_neg Bool.false_ne_true, jitterSample_toNat _ _ (by omega), hbv, hhigh]

theorem card_reachable_le (hiFirst : Bool) (jitterNs : UInt64) (s : Finset ℕ)
    (h : ∀ d ∈ s, Reachable hiFirst jitterNs d) : s.card ≤ 2 ^ 32 - 1 := by
  have hsub : s ⊆ states.image (fun n => (Bus.sample ⟨.up, UInt32.ofNat n⟩ hiFirst jitterNs).toNat) := by
    intro d hd
    obtain ⟨b, hb, rfl⟩ := h d hd
    refine Finset.mem_image.mpr ⟨b.prngState.toNat, mem_states.mpr (toBitVec_ne_zero.mpr hb), ?_⟩
    rw [UInt32.ofNat_toNat]
    rfl
  calc s.card ≤ _ := Finset.card_le_card hsub
    _ ≤ states.card := Finset.card_image_le
    _ = 2 ^ 32 - 1 := card_states

theorem card_unreachable (hiFirst : Bool) (jitterNs : UInt64) :
    jitterNs.toNat + 1 - (2 ^ 32 - 1) ≤ (unreachable hiFirst jitterNs).card := by
  classical
  have hreach := card_reachable_le hiFirst jitterNs
    ((Finset.range (jitterNs.toNat + 1)).filter (Reachable hiFirst jitterNs)) (fun d hd => (Finset.mem_filter.mp hd).2)
  have hsplit := Finset.card_filter_add_card_filter_not (s := Finset.range (jitterNs.toNat + 1))
    (Reachable hiFirst jitterNs)
  rw [Finset.card_range] at hsplit
  unfold unreachable
  omega

theorem not_all_reachable {hiFirst : Bool} {jitterNs : UInt64} (h : 2 ^ 32 - 1 ≤ jitterNs.toNat) :
    ¬∀ d ≤ jitterNs.toNat, Reachable hiFirst jitterNs d := by
  intro hall
  have hcard := card_reachable_le hiFirst jitterNs (Finset.range (jitterNs.toNat + 1))
    (fun d hd => hall d (by rw [Finset.mem_range] at hd; omega))
  rw [Finset.card_range] at hcard
  omega

/-- Where `jitter_ns + 1` is a power of two up to `2 ^ 31`, every offset is reachable; but a generator with a state of
32 bits reaches at most `2 ^ 32 - 1` offsets. -/
theorem jitter_range (hiFirst : Bool) (jitterNs : UInt64) :
    (jitterNs.toNat + 1 ∣ 2 ^ 31 → ∀ d ≤ jitterNs.toNat, Reachable hiFirst jitterNs d) ∧
      (2 ^ 32 - 1 ≤ jitterNs.toNat → ¬∀ d ≤ jitterNs.toNat, Reachable hiFirst jitterNs d) ∧
      jitterNs.toNat + 1 - (2 ^ 32 - 1) ≤ (unreachable hiFirst jitterNs).card :=
  ⟨fun h _ hd => reachable_of_dvd h hd, not_all_reachable, card_unreachable hiFirst jitterNs⟩

theorem jitter_range_ends :
    (∀ d ≤ 1023, Reachable true 1023 d) ∧ ¬∀ d ≤ 10000000000, Reachable true 10000000000 d :=
  ⟨(jitter_range true 1023).1 (by decide), (jitter_range true 10000000000).2.1 (by decide)⟩

theorem offset_zero_unreachable : ¬Reachable true 8589934591 0 ∧ ¬Reachable false 8589934591 0 := by
  have hzero (hiFirst : Bool) : ¬Reachable hiFirst 8589934591 0 := by
    rintro ⟨b, -, hd⟩
    have hm : (8589934591 : UInt64).toNat = 8589934591 := rfl
    have hfits : (8589934591 : UInt64).toNat + 1 < 2 ^ 64 := by decide
    obtain ⟨hi, lo, -, hlo, hv⟩ := b.sample_toNat hiFirst hfits
    have hlt : lo.toNat < 2 ^ 32 := lo.toNat_lt
    have hpos : lo.toNat ≠ 0 := fun h => hlo (UInt32.toNat_inj.mp h)
    rw [hd, hm] at hv
    omega
  exact ⟨hzero true, hzero false⟩

end VirtRtLab.Core
