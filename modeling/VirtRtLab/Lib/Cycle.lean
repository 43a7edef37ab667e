import Mathlib.Data.Nat.Prime.Basic
import Mathlib.Dynamics.PeriodicPts.Lemmas

/-!
Orbits of full length: when a point has a given period, and what a walk along an orbit as large as the set it stays in
visits.
-/

namespace VirtRtLab.Cycle

open Function

variable {α β : Type*} {f : α → α} {x : α} {n : ℕ}

theorem minimalPeriod_eq (hx : f^[n] x = x) (hp : ∀ p, p.Prime → p ∣ n → f^[n / p] x ≠ x) :
    minimalPeriod f x = n := by
  obtain ⟨k, hk⟩ := IsPeriodicPt.minimalPeriod_dvd (f := f) hx
  by_cases h1 : k = 1
  · rw [hk, h1, Nat.mul_one]
  · -- a proper divisor misses a prime factor of `n`
    obtain ⟨p, hpp, m, rfl⟩ := Nat.exists_prime_and_dvd h1
    have hdiv : n / p = minimalPeriod f x * m := by
      rw [hk, Nat.mul_left_comm, Nat.mul_div_cancel_left _ hpp.pos]
    have hfix : f^[n / p] x = x := by
      rw [hdiv]
      exact (isPeriodicPt_minimalPeriod f x).trans_dvd (Nat.dvd_mul_right _ m)
    have hpn : p ∣ n := by
      rw [hk, Nat.mul_left_comm]
      exact Nat.dvd_mul_right p _
    exact absurd hfix (hp p hpp hpn)

section walk

variable [DecidableEq β] {e : α → β} {s : Finset β}

theorem image_iterate (he : Injective e) (hs : ∀ i, e (f^[i] x) ∈ s) (hm : minimalPeriod f x = s.card) :
    (Finset.range s.card).image (fun i => e (f^[i] x)) = s := by
  apply Finset.eq_of_subset_of_card_le
  · intro y hy
    obtain ⟨i, -, rfl⟩ := Finset.mem_image.mp hy
    exact hs i
  · rw [Finset.card_image_of_injOn, Finset.card_range]
    intro i hi j hj hij
    rw [Finset.coe_range, ← hm] at hi hj
    exact iterate_injOn_Iio_minimalPeriod hi hj (he hij)

theorem existsUnique_iterate (he : Injective e) (hs : ∀ i, e (f^[i] x) ∈ s) (hm : minimalPeriod f x = s.card) {y : α}
    (hy : e y ∈ s) : ∃! i, i < s.card ∧ f^[i] x = y := by
  have hmem : e y ∈ (Finset.range s.card).image (fun i => e (f^[i] x)) := by rwa [image_iterate he hs hm]
  obtain ⟨i, hi, hiy⟩ := Finset.mem_image.mp hmem
  refine ⟨i, ⟨Finset.mem_range.mp hi, he hiy⟩, ?_⟩
  rintro j ⟨hj, hjy⟩
  rw [Finset.mem_range] at hi
  rw [← hm] at hi hj
  exact iterate_injOn_Iio_minimalPeriod hj hi (hjy.trans (he hiy).symm)

theorem card_filter_iterate (he : Injective e) (hs : ∀ i, e (f^[i] x) ∈ s) (hm : minimalPeriod f x = s.card)
    (P : β → Prop) [DecidablePred P] :
    ((Finset.range s.card).filter (fun i => P (e (f^[i] x)))).card = (s.filter P).card := by
  have hcard : (s.filter P).card = (((Finset.range s.card).image (fun i => e (f^[i] x))).filter P).card := by
    rw [image_iterate he hs hm]
  rw [hcard, Finset.filter_image, Finset.card_image_of_injOn]
  intro i hi j hj hij
  simp only [Finset.mem_coe, Finset.mem_filter, Finset.mem_range, ← hm] at hi hj
  exact iterate_injOn_Iio_minimalPeriod hi.1 hj.1 (he hij)

end walk

end VirtRtLab.Cycle
