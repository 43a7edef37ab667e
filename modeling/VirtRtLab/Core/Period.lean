import Mathlib.Data.Nat.Count
import Mathlib.Tactic.NormNum.Prime
import VirtRtLab.Lib.BinaryPoly
import VirtRtLab.Lib.Cycle
import VirtRtLab.Core.Seed

/-!
The step of the generator as a linear map over GF(2), and its period.
-/

namespace VirtRtLab.Core

open BinaryPoly Function

def xorshift (x : BitVec 32) : BitVec 32 := Xorshift.left 5 (Xorshift.right 17 (Xorshift.left 13 x))

theorem xorshift_xor (x y : BitVec 32) : xorshift (x ^^^ y) = xorshift x ^^^ xorshift y := by
  simp only [xorshift, Xorshift.left_xor, Xorshift.right_xor]

def transition : AddMonoid.End (Word 32) where
  toFun := xorshift
  map_zero' := rfl
  map_add' := xorshift_xor

def CHARPOLY : ℕ := 0x1003ec241

theorem charpoly_root : eval transition CHARPOLY = 0 := by
  apply Word.ext_bits
  intro i hi
  rw [eval_apply (k := 33) transition (by decide)]
  revert i
  decide +kernel

theorem transition_pow {n : ℕ} (hn : n < 2 ^ 32) : eval transition (powMod 32 CHARPOLY 32 n) = transition ^ n :=
  eval_powMod Word.end_add_self (by decide) (by decide) (by decide) charpoly_root hn

theorem transition_period : transition ^ (2 ^ 32 - 1) = 1 := by
  have h : powMod 32 CHARPOLY 32 (2 ^ 32 - 1) = 1 := by decide +kernel
  rw [← transition_pow (by decide), h, eval_one]

-- the powers of `transition` and zero are a field: `transition ^ m + 1` is a power again
theorem transition_shift {m j : ℕ} (hm : m < 2 ^ 32) (hj : j < 2 ^ 32)
    (h : powMod 32 CHARPOLY 32 m ^^^ 1 = powMod 32 CHARPOLY 32 j) : transition ^ m + 1 = transition ^ j := by
  rw [← transition_pow hm, ← transition_pow hj, ← h, eval_xor Word.end_add_self, eval_one]

theorem period_factors : 2 ^ 32 - 1 = 3 * 5 * 17 * 257 * 65537 := by norm_num

theorem prime_dvd_period {p : ℕ} (hp : p.Prime) (h : p ∣ 2 ^ 32 - 1) :
    p = 3 ∨ p = 5 ∨ p = 17 ∨ p = 257 ∨ p = 65537 := by
  rw [period_factors] at h
  simp only [hp.dvd_mul] at h
  have hprimes : Nat.Prime 3 ∧ Nat.Prime 5 ∧ Nat.Prime 17 ∧ Nat.Prime 257 ∧ Nat.Prime 65537 := by norm_num
  obtain ⟨h3, h5, h17, h257, h65537⟩ := hprimes
  simp only [Nat.prime_dvd_prime_iff_eq hp h3, Nat.prime_dvd_prime_iff_eq hp h5, Nat.prime_dvd_prime_iff_eq hp h17,
    Nat.prime_dvd_prime_iff_eq hp h257, Nat.prime_dvd_prime_iff_eq hp h65537, or_assoc] at h
  exact h

theorem transition_quotient {p : ℕ} (hp : p.Prime) (h : p ∣ 2 ^ 32 - 1) :
    ∃ j, transition ^ ((2 ^ 32 - 1) / p) + 1 = transition ^ j := by
  rcases prime_dvd_period hp h with rfl | rfl | rfl | rfl | rfl
  · exact ⟨2863311530, transition_shift (by decide) (by decide) (by decide +kernel)⟩
  · exact ⟨1145324612, transition_shift (by decide) (by decide) (by decide +kernel)⟩
  · exact ⟨3991793133, transition_shift (by decide) (by decide) (by decide +kernel)⟩
  · exact ⟨2812716966, transition_shift (by decide) (by decide) (by decide +kernel)⟩
  · exact ⟨3034363099, transition_shift (by decide) (by decide) (by decide +kernel)⟩

theorem xorshift_ne_zero {x : BitVec 32} (hx : x ≠ 0) : xorshift x ≠ 0 := by
  have h13 : Xorshift.left 13 x ≠ 0 := Xorshift.xor_shiftLeft_ne_zero (by decide) hx
  have h17 : Xorshift.right 17 (Xorshift.left 13 x) ≠ 0 := Xorshift.xor_ushiftRight_ne_zero (by decide) h13
  exact Xorshift.xor_shiftLeft_ne_zero (by decide) h17

theorem iterate_ne_zero {x : BitVec 32} (hx : x ≠ 0) (n : ℕ) : xorshift^[n] x ≠ 0 := by
  induction n generalizing x with
  | zero => exact hx
  | succ n ih => exact ih (xorshift_ne_zero hx)

theorem transition_pow_apply (n : ℕ) (x : BitVec 32) : (transition ^ n) x = xorshift^[n] x := by
  rw [AddMonoid.End.coe_pow]
  rfl

theorem minimalPeriod_xorshift {x : BitVec 32} (hx : x ≠ 0) : minimalPeriod xorshift x = 2 ^ 32 - 1 := by
  apply Cycle.minimalPeriod_eq
  · rw [← transition_pow_apply, transition_period]
    rfl
  · intro p hp hdvd hfix
    obtain ⟨j, hj⟩ := transition_quotient hp hdvd
    have hzero : (transition ^ j) x = 0 := by
      rw [← hj]
      have hsum : (transition ^ ((2 ^ 32 - 1) / p) + 1 : AddMonoid.End (Word 32)) x =
          xorshift^[(2 ^ 32 - 1) / p] x ^^^ x := by
        rw [← transition_pow_apply]
        rfl
      rw [hsum, hfix, BitVec.xor_self]
      rfl
    rw [transition_pow_apply] at hzero
    exact iterate_ne_zero hx j hzero

section count

variable {m p r : ℕ}

theorem count_mod_lt_of_le (hr : r ≤ m) : Nat.count (fun n => n % m < p) r = min p r := by
  induction r with
  | zero => simp
  | succ r ih =>
    rw [Nat.count_succ, ih (by omega), Nat.mod_eq_of_lt (by omega)]
    split <;> omega

theorem count_mod_lt (hp : p ≤ m) (hr : r ≤ m) (q : ℕ) :
    Nat.count (fun n => n % m < p) (q * m + r) = q * p + min p r := by
  induction q with
  | zero => rw [Nat.zero_mul, Nat.zero_mul, Nat.zero_add, Nat.zero_add, count_mod_lt_of_le hr]
  | succ q ih =>
    have hsplit : (q + 1) * m + r = (q * m + r) + m := by rw [Nat.succ_mul]; omega
    have hshift : Nat.count (fun n => (n + m) % m < p) (q * m + r) = q * p + min p r := by
      simpa only [Nat.add_mod_right] using ih
    rw [hsplit, Nat.count_add', hshift, count_mod_lt_of_le le_rfl, Nat.succ_mul]
    omega

end count

namespace Bus

variable {b : Bus}

theorem nextPrngU32_toBitVec (hb : b.prngState ≠ 0) : b.nextPrngU32.toBitVec = xorshift b.prngState.toBitVec := by
  unfold nextPrngU32
  rw [if_neg hb]
  rfl

theorem iterate_drawn (hb : b.prngState ≠ 0) (n : ℕ) :
    drawn^[n] b = { b with prngState := ⟨xorshift^[n] b.prngState.toBitVec⟩ } := by
  induction n generalizing b with
  | zero => rfl
  | succ n ih =>
    rw [iterate_succ_apply, ih (nextPrngU32_ne_zero b), iterate_succ_apply, ← nextPrngU32_toBitVec hb]
    rfl

theorem iterate_drawn_eq (hb : b.prngState ≠ 0) (n : ℕ) :
    drawn^[n] b = b ↔ xorshift^[n] b.prngState.toBitVec = b.prngState.toBitVec := by
  rw [iterate_drawn hb]
  constructor
  · intro h
    exact congrArg (fun c : Bus => c.prngState.toBitVec) h
  · intro h
    rw [h]

theorem minimalPeriod_drawn (hb : b.prngState ≠ 0) : minimalPeriod drawn b = 2 ^ 32 - 1 := by
  rw [← minimalPeriod_xorshift (toBitVec_ne_zero.mpr hb), minimalPeriod_eq_minimalPeriod_iff]
  exact fun n => iterate_drawn_eq hb n

theorem countP_draws (P : UInt32 → Bool) (n : ℕ) :
    (b.draws n).countP P = Nat.count (fun i => P (drawn^[i] b).nextPrngU32) n := by
  induction n generalizing b with
  | zero => rfl
  | succ n ih =>
    rw [draws, List.countP_cons, ih, Nat.count_succ']
    rfl

end Bus

def states : Finset ℕ := (Finset.range (2 ^ 32)).erase 0

theorem card_states : states.card = 2 ^ 32 - 1 := by
  unfold states
  rw [Finset.card_erase_of_mem (by rw [Finset.mem_range]; decide), Finset.card_range]

theorem mem_states {x : BitVec 32} : x.toNat ∈ states ↔ x ≠ 0 := by
  unfold states
  rw [Finset.mem_erase, Finset.mem_range, and_iff_left x.isLt]
  exact not_congr (BitVec.toNat_inj (x := x) (y := 0))

theorem card_filter_states {p : ℕ} (hp : 1 ≤ p) (hp' : p ≤ 1000000) :
    (states.filter (fun n => n % 1000000 < p)).card = 4294 * p + min p 967296 - 1 := by
  have hsplit : 2 ^ 32 = 4294 * 1000000 + 967296 := by norm_num
  have hzero : 0 ∈ (Finset.range (2 ^ 32)).filter (fun n => n % 1000000 < p) := by
    rw [Finset.mem_filter, Finset.mem_range]
    exact ⟨by decide, hp⟩
  unfold states
  rw [Finset.filter_erase, Finset.card_erase_of_mem hzero, ← Nat.count_eq_card_filter_range, hsplit,
    count_mod_lt hp' (by decide)]

namespace Bus

variable {b : Bus}

theorem gate_iff {draw ppm : UInt32} : gate draw ppm = true ↔ draw.toNat % 1000000 < ppm.toNat := by
  simp only [gate, decide_eq_true_eq, UInt32.lt_iff_toNat_lt, UInt32.toNat_mod]
  rfl

theorem nextPrngU32_iterate (n : ℕ) : (drawn^[n] b).nextPrngU32 = (drawn^[n] b.drawn).prngState := by
  rw [← iterate_succ_apply, iterate_succ_apply']
  rfl

theorem iterate_mem_states (hb : b.prngState ≠ 0) (n : ℕ) : (xorshift^[n] b.prngState.toBitVec).toNat ∈ states :=
  mem_states.mpr (iterate_ne_zero (toBitVec_ne_zero.mpr hb) n)

theorem visits_once (hb : b.prngState ≠ 0) {v : UInt32} (hv : v ≠ 0) :
    ∃! i, i < 2 ^ 32 - 1 ∧ (drawn^[i] b).prngState = v := by
  have hx : b.prngState.toBitVec ≠ 0 := toBitVec_ne_zero.mpr hb
  have hmem : v.toBitVec.toNat ∈ states := mem_states.mpr (toBitVec_ne_zero.mpr hv)
  have hperiod := (minimalPeriod_xorshift hx).trans card_states.symm
  have h := Cycle.existsUnique_iterate (fun _ _ => BitVec.eq_of_toNat_eq) (iterate_mem_states hb) hperiod hmem
  rw [card_states] at h
  simpa only [iterate_drawn hb, ← UInt32.toBitVec_inj] using h

theorem countP_gate (b : Bus) {p : UInt32} (hp : 1 ≤ p) (hp' : p ≤ 1000000) :
    (b.draws (2 ^ 32 - 1)).countP (gate · p) = 4294 * p.toNat + min p.toNat 967296 - 1 := by
  have hnext := nextPrngU32_ne_zero b
  have hx : b.nextPrngU32.toBitVec ≠ 0 := toBitVec_ne_zero.mpr hnext
  have hperiod := (minimalPeriod_xorshift hx).trans card_states.symm
  have hcard := Cycle.card_filter_iterate (fun _ _ => BitVec.eq_of_toNat_eq) (iterate_mem_states (b := b.drawn) hnext)
    hperiod (fun n => n % 1000000 < p.toNat)
  have hpnat : 1 ≤ p.toNat := UInt32.le_iff_toNat_le.mp hp
  have hpnat' : p.toNat ≤ 1000000 := UInt32.le_iff_toNat_le.mp hp'
  rw [card_filter_states hpnat hpnat', ← Nat.count_eq_card_filter_range, card_states] at hcard
  rw [countP_draws, ← hcard]
  simp only [gate_iff, nextPrngU32_iterate, iterate_drawn (b := b.drawn) hnext]
  rfl

/-- The generator runs through all non-zero states, so that a gate opens as often in a period as it is set to, up to the
remainder of `2 ^ 32` modulo a million. -/
theorem prng_full_period (b : Bus) :
    (b.prngState ≠ 0 → minimalPeriod drawn b = 2 ^ 32 - 1 ∧
      ∀ v : UInt32, v ≠ 0 → ∃! i, i < 2 ^ 32 - 1 ∧ (drawn^[i] b).prngState = v) ∧
    ∀ p : UInt32, 1 ≤ p → p ≤ 1000000 →
      (b.draws (2 ^ 32 - 1)).countP (gate · p) = 4294 * p.toNat + min p.toNat 967296 - 1 := by
  constructor
  · exact fun hb => ⟨minimalPeriod_drawn hb, fun v hv => visits_once hb hv⟩
  · exact fun p hp hp' => countP_gate b hp hp'

theorem prng_full_period_default :
    minimalPeriod drawn init = 2 ^ 32 - 1 ∧ (init.draws (2 ^ 32 - 1)).countP (gate · 250000) = 1073749999 :=
  ⟨((prng_full_period init).1 (by decide)).1, (prng_full_period init).2 250000 (by decide) (by decide)⟩

end Bus

end VirtRtLab.Core
