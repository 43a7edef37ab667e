import Mathlib.Algebra.Group.Hom.End
import Mathlib.Algebra.Ring.Commute
import Mathlib.Data.BitVec
import Mathlib.Data.Nat.Cast.Commute
import Mathlib.Tactic.Abel
import Mathlib.Tactic.NoncommRing

/-!
Polynomials over GF(2) as bit masks, at an element of a ring in which `x + x = 0`: products and powers modulo a
mask that the element is a root of are computed on the masks.
-/

namespace VirtRtLab.BinaryPoly

def timesX (w p a : ℕ) : ℕ := if 2 ^ w ≤ 2 * a then (2 * a) ^^^ p else 2 * a

def mulMod (w p : ℕ) : ℕ → ℕ → ℕ → ℕ
  | 0, _, _ => 0
  | k + 1, a, b => (b % 2 * a) ^^^ mulMod w p k (timesX w p a) (b / 2)

/-- The power `n < 2 ^ k` of the indeterminate, modulo the mask `p` of degree `w`. -/
def powMod (w p : ℕ) : ℕ → ℕ → ℕ
  | 0, _ => 1
  | k + 1, n =>
    let r := powMod w p k (n / 2)
    let s := mulMod w p w r r
    if n % 2 = 1 then timesX w p s else s

theorem xor_lt {w a b : ℕ} (ha : 2 ^ w ≤ a) (ha' : a < 2 ^ (w + 1)) (hb : 2 ^ w ≤ b) (hb' : b < 2 ^ (w + 1)) :
    a ^^^ b < 2 ^ w := by
  rw [pow_succ] at ha' hb'
  have hadiv : a / 2 ^ w = 1 := Nat.div_eq_of_lt_le (by omega) (by omega)
  have hbdiv : b / 2 ^ w = 1 := Nat.div_eq_of_lt_le (by omega) (by omega)
  have hdiv : (a ^^^ b) / 2 ^ w = 0 := by rw [Nat.xor_div_two_pow, hadiv, hbdiv, Nat.xor_self]
  exact Nat.lt_of_div_eq_zero (Nat.two_pow_pos w) hdiv

theorem timesX_lt {w p a : ℕ} (hp : 2 ^ w ≤ p) (hp' : p < 2 ^ (w + 1)) (ha : a < 2 ^ w) : timesX w p a < 2 ^ w := by
  unfold timesX
  split
  · rename_i hs
    exact xor_lt hs (by rw [pow_succ]; omega) hp hp'
  · omega

theorem mulMod_lt {w p : ℕ} (hp : 2 ^ w ≤ p) (hp' : p < 2 ^ (w + 1)) (k : ℕ) {a : ℕ} (b : ℕ) (ha : a < 2 ^ w) :
    mulMod w p k a b < 2 ^ w := by
  induction k generalizing a b with
  | zero => exact Nat.two_pow_pos w
  | succ k ih =>
    have hterm : b % 2 * a < 2 ^ w := by
      rcases Nat.mod_two_eq_zero_or_one b with hb | hb
      · rw [hb, Nat.zero_mul]
        exact Nat.two_pow_pos w
      · rwa [hb, Nat.one_mul]
    exact Nat.xor_lt_two_pow hterm (ih _ (timesX_lt hp hp' ha))

theorem powMod_lt {w p : ℕ} (hw : 0 < w) (hp : 2 ^ w ≤ p) (hp' : p < 2 ^ (w + 1)) (k n : ℕ) : powMod w p k n < 2 ^ w := by
  induction k generalizing n with
  | zero => exact Nat.one_lt_two_pow (by omega)
  | succ k ih =>
    have hs := mulMod_lt hp hp' w (powMod w p k (n / 2)) (ih (n / 2))
    unfold powMod
    dsimp only
    split
    · exact timesX_lt hp hp' hs
    · exact hs

section ring

variable {R : Type*} [Ring R] {t : R} {w p : ℕ}

def eval (t : R) (n : ℕ) : R := if n = 0 then 0 else (n % 2 : ℕ) + t * eval t (n / 2)

theorem eval_zero (t : R) : eval t 0 = 0 := by
  rw [eval, if_pos rfl]

theorem eval_eq (t : R) (n : ℕ) : eval t n = (n % 2 : ℕ) + t * eval t (n / 2) := by
  by_cases hn : n = 0
  · simp [hn, eval_zero]
  · rw [eval, if_neg hn]

theorem eval_one (t : R) : eval t 1 = 1 := by
  rw [eval_eq, eval_zero]
  simp

theorem eval_double (t : R) (a : ℕ) : eval t (2 * a) = t * eval t a := by
  rw [eval_eq, Nat.mul_mod_right, Nat.mul_div_cancel_left a (by decide), Nat.cast_zero, zero_add]

theorem eval_bit_mul (t : R) (b a : ℕ) : eval t (b % 2 * a) = (b % 2 : ℕ) * eval t a := by
  rcases Nat.mod_two_eq_zero_or_one b with hb | hb
  · rw [hb, Nat.zero_mul, Nat.cast_zero, zero_mul, eval_zero]
  · rw [hb, Nat.one_mul, Nat.cast_one, one_mul]

theorem commute_eval (t : R) (n : ℕ) : Commute t (eval t n) := by
  induction n using Nat.strong_induction_on with
  | _ n ih =>
    by_cases hn : n = 0
    · rw [hn, eval_zero]
      exact Commute.zero_right t
    · rw [eval_eq]
      have hhalf : Commute t (eval t (n / 2)) := ih _ (by omega)
      exact ((Nat.cast_commute _ t).symm).add_right ((Commute.refl t).mul_right hhalf)

variable (h2 : ∀ r : R, r + r = 0)
include h2

theorem cast_xor_mod_two (a b : ℕ) : (((a ^^^ b) % 2 : ℕ) : R) = (a % 2 : ℕ) + (b % 2 : ℕ) := by
  have hone : (1 : R) + 1 = 0 := h2 1
  have hx : (a ^^^ b) % 2 = (a % 2) ^^^ (b % 2) := Nat.xor_mod_two_pow (n := 1)
  rw [hx]
  rcases Nat.mod_two_eq_zero_or_one a with ha | ha
  · simp [ha]
  · rcases Nat.mod_two_eq_zero_or_one b with hb | hb
    · simp [ha, hb]
    · simp [ha, hb, hone]

theorem eval_xor (t : R) (a b : ℕ) : eval t (a ^^^ b) = eval t a + eval t b := by
  induction a using Nat.strong_induction_on generalizing b with
  | _ a ih =>
    by_cases ha : a = 0
    · rw [ha, Nat.zero_xor, eval_zero, zero_add]
    · have hhalf := ih (a / 2) (by omega) (b / 2)
      rw [eval_eq t (a ^^^ b), Nat.xor_div_two, hhalf, cast_xor_mod_two h2, eval_eq t a, eval_eq t b]
      noncomm_ring

theorem eval_timesX (hroot : eval t p = 0) (a : ℕ) : eval t (timesX w p a) = t * eval t a := by
  unfold timesX
  split
  · rw [eval_xor h2, hroot, add_zero, eval_double]
  · exact eval_double t a

theorem eval_mulMod (hroot : eval t p = 0) {k a b : ℕ} (hb : b < 2 ^ k) :
    eval t (mulMod w p k a b) = eval t a * eval t b := by
  induction k generalizing a b with
  | zero =>
    have hb0 : b = 0 := by omega
    rw [hb0, eval_zero, mul_zero]
    exact eval_zero t
  | succ k ih =>
    have hrest : b / 2 < 2 ^ k := by omega
    have hcomm : t * eval t a = eval t a * t := commute_eval t a
    rw [mulMod, eval_xor h2, eval_bit_mul, ih hrest, eval_timesX h2 hroot, hcomm, eval_eq t b, mul_add, mul_assoc,
      Nat.cast_comm]

theorem eval_powMod (hw : 0 < w) (hp : 2 ^ w ≤ p) (hp' : p < 2 ^ (w + 1)) (hroot : eval t p = 0) {k n : ℕ}
    (hn : n < 2 ^ k) : eval t (powMod w p k n) = t ^ n := by
  induction k generalizing n with
  | zero =>
    have hn0 : n = 0 := by omega
    rw [hn0, pow_zero]
    exact eval_one t
  | succ k ih =>
    have hrest : n / 2 < 2 ^ k := by omega
    have hsquare : eval t (mulMod w p w (powMod w p k (n / 2)) (powMod w p k (n / 2))) = t ^ (2 * (n / 2)) := by
      rw [eval_mulMod h2 hroot (powMod_lt hw hp hp' k (n / 2)), ih hrest, ← pow_add, two_mul]
    unfold powMod
    dsimp only
    split
    · have hodd : n = 2 * (n / 2) + 1 := by omega
      rw [eval_timesX h2 hroot, hsquare, ← pow_succ', ← hodd]
    · have heven : n = 2 * (n / 2) := by omega
      rw [hsquare, ← heven]

end ring

section action

variable {V : Type*} [AddCommGroup V]

/-- What the mask `n < 2 ^ k`, evaluated at an additive map, does to a vector. -/
def applyMask (f : V → V) : ℕ → ℕ → V → V
  | 0, _, _ => 0
  | k + 1, n, x => (if n % 2 = 1 then x else 0) + applyMask f k (n / 2) (f x)

theorem eval_apply (f : AddMonoid.End V) {k n : ℕ} (hn : n < 2 ^ k) (x : V) : eval f n x = applyMask f k n x := by
  induction k generalizing n x with
  | zero =>
    have hn0 : n = 0 := by omega
    rw [hn0, eval_zero]
    rfl
  | succ k ih =>
    have hrest : n / 2 < 2 ^ k := by omega
    have hcomm : f * eval f (n / 2) = eval f (n / 2) * f := commute_eval f (n / 2)
    have hsplit : eval f n x = ((n % 2 : ℕ) : AddMonoid.End V) x + eval f (n / 2) (f x) := by
      rw [eval_eq, hcomm]
      rfl
    rw [hsplit, ih hrest, applyMask]
    rcases Nat.mod_two_eq_zero_or_one n with h | h
    · simp [h]
    · simp [h]

end action

def Word (w : ℕ) := BitVec w

namespace Word

variable {w : ℕ}

instance : DecidableEq (Word w) := inferInstanceAs (DecidableEq (BitVec w))

instance : Add (Word w) := ⟨BitVec.xor⟩

instance : Zero (Word w) := ⟨0#w⟩

instance : Neg (Word w) := ⟨id⟩

instance : AddCommGroup (Word w) where
  add_assoc x y z := BitVec.xor_assoc x y z
  zero_add x := BitVec.zero_xor
  add_zero x := BitVec.xor_zero
  neg_add_cancel x := BitVec.xor_self
  add_comm x y := BitVec.xor_comm x y
  nsmul := nsmulRec
  zsmul := zsmulRec

theorem add_self (x : Word w) : x + x = 0 := BitVec.xor_self

theorem end_add_self (f : AddMonoid.End (Word w)) : f + f = 0 := by
  ext x
  exact add_self (f x)

def ofNat (w n : ℕ) : Word w := BitVec.ofNat w n

theorem ofNat_xor (m n : ℕ) : ofNat w (m ^^^ n) = ofNat w m + ofNat w n := BitVec.ofNat_xor

theorem ext_bits {f g : AddMonoid.End (Word w)} (h : ∀ i < w, f (ofNat w (2 ^ i)) = g (ofNat w (2 ^ i))) : f = g := by
  have hlow (k : ℕ) (hk : k ≤ w) : ∀ n < 2 ^ k, f (ofNat w n) = g (ofNat w n) := by
    induction k with
    | zero =>
      intro n hn
      have hn0 : ofNat w n = 0 := by
        rw [Nat.lt_one_iff.mp hn]
        rfl
      rw [hn0, map_zero, map_zero]
    | succ k ih =>
      intro n hn
      by_cases hnk : n < 2 ^ k
      · exact ih (by omega) n hnk
      · have hrest : 2 ^ k ^^^ n < 2 ^ k := xor_lt le_rfl (Nat.pow_lt_pow_succ (by decide)) (by omega) hn
        have hn' : n = 2 ^ k ^^^ (2 ^ k ^^^ n) := by rw [← Nat.xor_assoc, Nat.xor_self, Nat.zero_xor]
        rw [hn', ofNat_xor, map_add, map_add, h k (by omega), ih (by omega) _ hrest]
  ext x
  have hx : x = ofNat w (BitVec.toNat x) :=
    ((BitVec.ofNat_toNat w x).trans (BitVec.setWidth_eq x)).symm
  rw [hx]
  exact hlow w le_rfl _ (BitVec.isLt x)

end Word

end VirtRtLab.BinaryPoly
