import Mathlib.Data.List.TakeWhile
import Mathlib.Data.Nat.Digits.Lemmas
import Mathlib.Tactic.IntervalCases
import VirtRtLab.Kernel.Text

/-!
What `sysfs_emit` prints with `%u`, `%llu` or `%d` of a Boolean, and that the kernel's parsers read it back.
-/

namespace VirtRtLab.Kernel

def decimalDigit (d : ℕ) : UInt8 := UInt8.ofNat (48 + d)

def decimal (n : ℕ) : Bytes := if n = 0 then [48] else (Nat.digits 10 n).reverse.map decimalDigit

def emitUnsigned (n : ℕ) : Bytes := decimal n ++ [10]

def emitBool (b : Bool) : Bytes := emitUnsigned b.toNat

theorem digit_decimalDigit {d : ℕ} (hd : d < 10) : digit (decimalDigit d) = d := by
  interval_cases d <;> decide

theorem decimalDigit_ne {d : ℕ} (hd : d < 10) : decimalDigit d ≠ 0 ∧ decimalDigit d ≠ 43 := by
  interval_cases d <;> decide

theorem decimalDigit_ne_zero {d : ℕ} (hd : d < 10) (h0 : d ≠ 0) : decimalDigit d ≠ 48 := by
  interval_cases d
  · exact absurd rfl h0
  all_goals decide

theorem mem_decimal {n : ℕ} {c : UInt8} (hc : c ∈ decimal n) : ∃ d, d < 10 ∧ c = decimalDigit d := by
  unfold decimal at hc
  split at hc
  · rw [List.mem_singleton.mp hc]
    exact ⟨0, by decide, by decide⟩
  · obtain ⟨d, hd, rfl⟩ := List.mem_map.mp hc
    exact ⟨d, Nat.digits_lt_base (by decide) (List.mem_reverse.mp hd), rfl⟩

theorem value_map (ds : List ℕ) (hds : ∀ d ∈ ds, d < 10) : value 10 (ds.reverse.map decimalDigit) = Nat.ofDigits 10 ds := by
  induction ds with
  | nil => rfl
  | cons d ds ih =>
    have hd : digit (decimalDigit d) = d := digit_decimalDigit (hds d (List.mem_cons_self ..))
    have hrest := ih (fun e he => hds e (List.mem_cons_of_mem _ he))
    simp only [value, List.reverse_cons, List.map_append, List.map_cons, List.map_nil, List.foldl_append,
      List.foldl_cons, List.foldl_nil, hd] at hrest ⊢
    rw [hrest, Nat.ofDigits_cons, Nat.mul_comm, Nat.add_comm]

theorem value_decimal (n : ℕ) : value 10 (decimal n) = n := by
  unfold decimal
  split
  · rename_i h0
    rw [h0]
    rfl
  · rw [value_map _ (fun d hd => Nat.digits_lt_base (by decide) hd), Nat.ofDigits_digits]

theorem decimal_ne_nil (n : ℕ) : decimal n ≠ [] := by
  unfold decimal
  split
  · simp
  · rename_i h0
    simpa using Nat.digits_ne_nil_iff_ne_zero.mpr h0

theorem head_decimal {n : ℕ} (h0 : n ≠ 0) : ∃ c cs, decimal n = c :: cs ∧ c ≠ 48 := by
  have hne : Nat.digits 10 n ≠ [] := Nat.digits_ne_nil_iff_ne_zero.mpr h0
  have hlast := Nat.getLast_digit_ne_zero 10 h0
  have hlt : (Nat.digits 10 n).getLast hne < 10 := Nat.digits_lt_base (by decide) (List.getLast_mem hne)
  rw [decimal, if_neg h0, ← List.dropLast_append_getLast hne, List.reverse_append]
  exact ⟨_, _, rfl, decimalDigit_ne_zero hlt hlast⟩

theorem cstr_emitUnsigned (n : ℕ) : cstr (emitUnsigned n) = emitUnsigned n := by
  apply List.takeWhile_eq_self_iff.mpr
  intro c hc
  rcases List.mem_append.mp hc with hc | hc
  · obtain ⟨d, hd, rfl⟩ := mem_decimal hc
    simp [(decimalDigit_ne hd).1]
  · rw [List.mem_singleton.mp hc]
    decide

theorem head_ne_plus (n : ℕ) : (emitUnsigned n).head? ≠ some 43 := by
  cases hd : decimal n with
  | nil => exact absurd hd (decimal_ne_nil n)
  | cons c cs =>
    obtain ⟨d, hlt, hc⟩ := mem_decimal (n := n) (c := c) (by simp [hd])
    simp only [emitUnsigned, hd, List.cons_append, List.head?_cons, hc]
    exact fun h => (decimalDigit_ne hlt).2 (Option.some.inj h)

theorem decimal_digits {n : ℕ} : ∀ c ∈ decimal n, decide (digit c < 10) = true := by
  intro c hc
  obtain ⟨d, hd, rfl⟩ := mem_decimal hc
  simp [digit_decimalDigit hd, hd]

theorem kstrtoull_of_radix {n base : ℕ} (hn : n < 2 ^ 64) (hr : fixupRadix (emitUnsigned n) base = (10, emitUnsigned n)) :
    kstrtoull (emitUnsigned n) base = .ok n := by
  have htake : (emitUnsigned n).takeWhile (fun c => digit c < 10) = decimal n := by
    rw [emitUnsigned, List.takeWhile_append_of_pos decimal_digits]
    exact List.append_nil _
  have hdrop : (emitUnsigned n).dropWhile (fun c => digit c < 10) = [10] := by
    rw [emitUnsigned, List.dropWhile_append_of_pos decimal_digits]
    rfl
  unfold kstrtoull
  simp only [cstr_emitUnsigned, head_ne_plus, if_false, hr, htake, hdrop, value_decimal]
  rw [if_neg (Nat.not_le.mpr hn), if_neg (decimal_ne_nil n)]
  rfl

theorem kstrtoull_decimal {n : ℕ} (hn : n < 2 ^ 64) : kstrtoull (emitUnsigned n) 10 = .ok n :=
  kstrtoull_of_radix hn rfl

/-- A number is never printed with a leading zero, which would make it octal. -/
theorem kstrtoull_auto {n : ℕ} (hn : n < 2 ^ 64) : kstrtoull (emitUnsigned n) 0 = .ok n := by
  by_cases h0 : n = 0
  · rw [h0]
    decide
  · obtain ⟨c, cs, hc, h48⟩ := head_decimal h0
    apply kstrtoull_of_radix hn
    have hemit : emitUnsigned n = c :: (cs ++ [10]) := by rw [emitUnsigned, hc, List.cons_append]
    rw [hemit]
    unfold fixupRadix
    split
    · rename_i he
      exact absurd (List.cons.inj he).1 h48
    · simp [h48]

theorem kstrtoull_bare {n : ℕ} (hn : n < 2 ^ 64) : kstrtoull (decimal n) 0 = .ok n := by
  by_cases h0 : n = 0
  · rw [h0]
    decide
  · obtain ⟨c, cs, hc, h48⟩ := head_decimal h0
    have hradix : fixupRadix (decimal n) 0 = (10, decimal n) := by
      rw [hc]
      unfold fixupRadix
      split
      · rename_i he
        exact absurd (List.cons.inj he).1 h48
      · simp [h48]
    have hcstr : cstr (decimal n) = decimal n := by
      apply List.takeWhile_eq_self_iff.mpr
      intro c hc
      obtain ⟨d, hd, rfl⟩ := mem_decimal hc
      simpa using (decimalDigit_ne hd).1
    have hplus : (decimal n).head? ≠ some 43 := by
      rw [hc]
      intro he
      cases he
      obtain ⟨d, hd, hd43⟩ := mem_decimal (hc ▸ List.mem_cons_self)
      exact (decimalDigit_ne hd).2 hd43.symm
    have htake : (decimal n).takeWhile (fun c => digit c < 10) = decimal n :=
      List.takeWhile_eq_self_iff.mpr decimal_digits
    have hdrop : (decimal n).dropWhile (fun c => digit c < 10) = [] := List.dropWhile_eq_nil_iff.mpr decimal_digits
    unfold kstrtoull
    simp only [hcstr, hplus, if_false, hradix, htake, hdrop, value_decimal]
    rw [if_neg (Nat.not_le.mpr hn), if_neg (decimal_ne_nil n)]
    rfl

theorem kstrtou64_emit (v : UInt64) : kstrtou64 (emitUnsigned v.toNat) 0 = .ok v := by
  rw [kstrtou64, kstrtoull_auto v.toNat_lt]
  simp [Except.map]

theorem kstrtou32_of_ull {v : UInt32} {base : ℕ} (h : kstrtoull (emitUnsigned v.toNat) base = .ok v.toNat) :
    kstrtou32 (emitUnsigned v.toNat) base = .ok v := by
  have hlt : v.toNat < 2 ^ 32 := v.toNat_lt
  rw [kstrtou32, h]
  simp only [hlt, if_true, UInt32.ofNat_toNat]

theorem kstrtou32_emit (v : UInt32) : kstrtou32 (emitUnsigned v.toNat) 0 = .ok v :=
  kstrtou32_of_ull (kstrtoull_auto (by have := v.toNat_lt; omega))

theorem kstrtou32_emit_decimal (v : UInt32) : kstrtou32 (emitUnsigned v.toNat) 10 = .ok v :=
  kstrtou32_of_ull (kstrtoull_decimal (by have := v.toNat_lt; omega))

theorem kstrtobool_emit (b : Bool) : kstrtobool (emitBool b) = .ok b := by
  cases b <;> decide

theorem digit_lt_ten (c : UInt8) : digit c < 10 ↔ 48 ≤ c ∧ c ≤ 57 := by
  unfold digit
  split
  · rename_i h
    have hle : c.toNat ≤ 57 := UInt8.le_iff_toNat_le.mp h.2
    exact ⟨fun _ => h, fun _ => by omega⟩
  · rename_i h
    split
    · rename_i h'
      have hge : 97 ≤ (c ||| 0x20).toNat := UInt8.le_iff_toNat_le.mp h'.1
      exact ⟨fun _ => by omega, fun hc => absurd hc h⟩
    · simp [h]

/-- What `kstrtoull` reads as a decimal number: one plus sign, digits, one newline, and whatever a NUL hides. -/
structure Numeral (buf : Bytes) (v : ℕ) (sign ds newline hidden : Bytes) : Prop where
  eq : buf = sign ++ ds ++ newline ++ hidden
  sign : sign = [] ∨ sign = [43]
  ne : ds ≠ []
  digits : ∀ c ∈ ds, 48 ≤ c ∧ c ≤ 57
  value : value 10 ds = v
  newline : newline = [] ∨ newline = [10]
  hidden : hidden = [] ∨ hidden.head? = some 0

theorem kstrtoull_ten (buf : Bytes) : kstrtoull buf 10 =
    (let s := if (cstr buf).head? = some 43 then (cstr buf).tail else cstr buf
    let ds := s.takeWhile (fun c => digit c < 10)
    let rest := s.dropWhile (fun c => digit c < 10)
    if 2 ^ 64 ≤ value 10 ds then .error .erange
    else if ds = [] then .error .einval
    else if rest = [] ∨ rest = [10] then .ok (value 10 ds)
    else .error .einval) := by
  simp [kstrtoull, fixupRadix]

theorem numeral_of_kstrtoull {buf : Bytes} {v : ℕ} (h : kstrtoull buf 10 = .ok v) :
    v < 2 ^ 64 ∧ ∃ sign ds newline hidden, Numeral buf v sign ds newline hidden := by
  rw [kstrtoull_ten] at h
  dsimp only at h
  generalize hs : (if (cstr buf).head? = some 43 then (cstr buf).tail else cstr buf) = s at h
  have hsign : ∃ sign, (sign = [] ∨ sign = [43]) ∧ cstr buf = sign ++ s := by
    split at hs
    · rename_i hh
      refine ⟨[43], .inr rfl, ?_⟩
      rw [← hs, List.singleton_append]
      exact (List.cons_head?_tail hh).symm
    · exact ⟨[], .inl rfl, hs⟩
  obtain ⟨sign, hsign, hcstr⟩ := hsign
  split at h
  · cases h
  · split at h
    · cases h
    · rename_i hlt hne
      split at h
      · rename_i hrest
        cases h
        refine ⟨Nat.lt_of_not_le hlt, sign, _, _, buf.dropWhile (· ≠ 0), ?_, hsign, hne, ?_, rfl, hrest, ?_⟩
        · rw [List.append_assoc sign, List.takeWhile_append_dropWhile, ← hcstr, cstr, List.takeWhile_append_dropWhile]
        · intro c hc
          exact (digit_lt_ten c).mp (by simpa using List.mem_takeWhile_imp hc)
        · cases hd : buf.dropWhile (· ≠ 0) with
          | nil => exact .inl rfl
          | cons c cs =>
            have hnot := List.head?_dropWhile_not (fun c => decide (c ≠ 0)) buf
            rw [hd] at hnot
            exact .inr (by simpa using hnot)
      · cases h

theorem Numeral.cstr_eq {buf : Bytes} {v : ℕ} {sign ds newline hidden : Bytes}
    (h : Numeral buf v sign ds newline hidden) : cstr buf = sign ++ ds ++ newline := by
  obtain ⟨rfl, hsign, hne, hdigits, rfl, hnewline, hhidden⟩ := h
  have hnul : ∀ c ∈ sign ++ ds ++ newline, decide (c ≠ 0) = true := by
    intro c hc
    simp only [List.mem_append] at hc
    apply decide_eq_true
    rintro rfl
    rcases hc with (hc | hc) | hc
    · rcases hsign with rfl | rfl <;> simp at hc
    · exact absurd (hdigits 0 hc) (by decide)
    · rcases hnewline with rfl | rfl <;> simp at hc
  rw [cstr, List.takeWhile_append_of_pos hnul]
  cases hidden with
  | nil => simp
  | cons c cs =>
    rcases hhidden with hh | hh
    · cases hh
    · cases hh
      simp

theorem Numeral.kstrtoull {buf : Bytes} {v : ℕ} {sign ds newline hidden : Bytes}
    (h : Numeral buf v sign ds newline hidden) (hv : v < 2 ^ 64) : kstrtoull buf 10 = .ok v := by
  have hcstr := h.cstr_eq
  obtain ⟨-, hsign, hne, hdigits, rfl, hnewline, -⟩ := h
  have hdec : ∀ c ∈ ds, decide (digit c < 10) = true := fun c hc => decide_eq_true ((digit_lt_ten c).mpr (hdigits c hc))
  have hstrip : (if (sign ++ ds ++ newline).head? = some 43 then (sign ++ ds ++ newline).tail
      else sign ++ ds ++ newline) = ds ++ newline := by
    rcases hsign with rfl | rfl
    · cases ds with
      | nil => exact absurd rfl hne
      | cons c cs =>
        have hc : c ≠ 43 := by
          rintro rfl
          exact absurd (hdigits 43 (.head _)) (by decide)
        simp [hc]
    · rfl
  have htake : (ds ++ newline).takeWhile (fun c => digit c < 10) = ds := by
    rw [List.takeWhile_append_of_pos hdec]
    rcases hnewline with rfl | rfl <;> simp +decide
  have hdrop : (ds ++ newline).dropWhile (fun c => digit c < 10) = newline := by
    rw [List.dropWhile_append_of_pos hdec]
    rcases hnewline with rfl | rfl <;> simp +decide
  simp only [kstrtoull_ten, hcstr, hstrip, htake, hdrop]
  rw [if_neg (Nat.not_le.mpr hv), if_neg hne, if_pos hnewline]

end VirtRtLab.Kernel
