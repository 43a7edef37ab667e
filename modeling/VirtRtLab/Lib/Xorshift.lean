import Mathlib.Data.BitVec
import Mathlib.Data.Nat.Find

namespace VirtRtLab.Xorshift

variable {w k : ℕ} {x : BitVec w}

theorem exists_bit (hx : x ≠ 0) : ∃ i, x.getLsbD i = true := by
  by_contra hne
  apply hx
  apply BitVec.eq_of_getLsbD_eq
  intro i _
  have hi : x.getLsbD i = false := by
    cases hb : x.getLsbD i with
    | false => rfl
    | true => exact absurd ⟨i, hb⟩ hne
  simpa using hi

theorem ne_zero_of_bit {i : ℕ} (hi : x.getLsbD i = true) : x ≠ 0 := by
  rintro rfl
  simp at hi

theorem xor_shiftLeft_ne_zero (hk : 0 < k) (hx : x ≠ 0) : x ^^^ (x <<< k) ≠ 0 := by
  have hbit := Nat.find_spec (exists_bit hx)
  have hlow {j : ℕ} (hj : j < Nat.find (exists_bit hx)) : x.getLsbD j = false :=
    eq_false_of_ne_true (Nat.find_min (exists_bit hx) hj)
  generalize Nat.find (exists_bit hx) = i at hbit hlow
  apply ne_zero_of_bit (i := i)
  rw [BitVec.getLsbD_xor, BitVec.getLsbD_shiftLeft, hbit]
  by_cases hik : i < k
  · simp [hik]
  · have hlt : i - k < i := by omega
    simp [hlow hlt]

theorem xor_ushiftRight_ne_zero (hk : 0 < k) (hx : x ≠ 0) : x ^^^ (x >>> k) ≠ 0 := by
  obtain ⟨i₀, hi₀⟩ := exists_bit hx
  have hle : i₀ ≤ w := (BitVec.lt_of_getLsbD hi₀).le
  have hbit : x.getLsbD (Nat.findGreatest (fun i => x.getLsbD i = true) w) = true :=
    Nat.findGreatest_spec (P := fun i => x.getLsbD i = true) hle hi₀
  have hhigh {j : ℕ} (hj : Nat.findGreatest (fun i => x.getLsbD i = true) w < j) : x.getLsbD j = false := by
    by_cases hjw : j ≤ w
    · exact eq_false_of_ne_true (Nat.findGreatest_is_greatest hj hjw)
    · exact BitVec.getLsbD_of_ge x j (by omega)
  generalize Nat.findGreatest (fun i => x.getLsbD i = true) w = i at hbit hhigh
  apply ne_zero_of_bit (i := i)
  have hgt : i < k + i := by omega
  rw [BitVec.getLsbD_xor, BitVec.getLsbD_ushiftRight, hbit, hhigh hgt]
  rfl

def left (k : ℕ) (x : BitVec w) : BitVec w := x ^^^ (x <<< k)

def right (k : ℕ) (x : BitVec w) : BitVec w := x ^^^ (x >>> k)

theorem left_xor (k : ℕ) (x y : BitVec w) : left k (x ^^^ y) = left k x ^^^ left k y := by
  unfold left
  rw [BitVec.shiftLeft_xor_distrib]
  ac_rfl

theorem right_xor (k : ℕ) (x y : BitVec w) : right k (x ^^^ y) = right k x ^^^ right k y := by
  unfold right
  rw [BitVec.ushiftRight_xor_distrib]
  ac_rfl

end VirtRtLab.Xorshift
