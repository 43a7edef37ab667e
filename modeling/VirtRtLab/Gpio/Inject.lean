import VirtRtLab.Kernel.Decimal
import VirtRtLab.Gpio.Device

namespace VirtRtLab.Gpio

open Kernel

def stripNewline (buf : Bytes) : Bytes := if buf.getLast? = some 10 then buf.dropLast else buf

def Spells (buf : Bytes) (N : Fin LINES) (V : UInt8) : Prop :=
  ∃ D, stripNewline buf = D ++ [58, 48 + V] ∧ (V = 0 ∨ V = 1) ∧ 1 ≤ D.length ∧ D.length ≤ 3 ∧
    (∀ c ∈ D, 48 ≤ c ∧ c ≤ 57) ∧ value 10 D = N

structure Strict (buf : Bytes) : Prop where
  accepts : ∀ N V, parseInject buf = .ok (N, V) ↔ Spells buf N V
  rejects : (∀ N V, ¬Spells buf N V) → parseInject buf = .error .einval

/-- What only `kstrtoul` lets through: a plus sign, a newline before the colon, or bytes hidden behind a NUL. -/
def Lenient (buf : Bytes) : Prop :=
  ∃ field bit v sign ds newline hidden, stripNewline buf = field ++ [58, bit] ∧ (bit = 48 ∨ bit = 49) ∧
    58 ∉ field ∧ field.length ≤ 3 ∧ Numeral field v sign ds newline hidden ∧ v < LINES ∧
    (sign ≠ [] ∨ newline ≠ [] ∨ hidden ≠ [])

section

variable {text : Bytes} {c : UInt8}

theorem idxOf?_append (h : c ∉ text) (rest : Bytes) : (text ++ c :: rest).idxOf? c = some text.length := by
  induction text with
  | nil => simp [List.idxOf?_cons]
  | cons x text ih =>
    obtain ⟨hx, htext⟩ := not_or.mp (fun hc => h (List.mem_cons.mpr hc))
    rw [List.cons_append, List.idxOf?_cons, ih htext, if_neg (by simpa using Ne.symm hx)]
    rfl

theorem idxOf?_split {sep : ℕ} (h : text.idxOf? c = some sep) :
    ∃ field rest, text = field ++ c :: rest ∧ c ∉ field ∧ field.length = sep := by
  induction text generalizing sep with
  | nil => cases h
  | cons x text ih =>
    rw [List.idxOf?_cons] at h
    split at h
    · rename_i hx
      cases h
      exact ⟨[], text, by rw [eq_of_beq hx]; rfl, by simp, rfl⟩
    · rename_i hx
      obtain ⟨sep, hsep, rfl⟩ := Option.map_eq_some_iff.mp h
      obtain ⟨field, rest, rfl, hc, rfl⟩ := ih hsep
      refine ⟨x :: field, rest, rfl, ?_, rfl⟩
      rw [List.mem_cons, not_or]
      exact ⟨fun he => hx (by simp [he]), hc⟩

end

theorem take_stripNewline (buf : Bytes) :
    buf.take (if buf.getLast? = some 10 then buf.length - 1 else buf.length) = stripNewline buf ∧
      (if buf.getLast? = some 10 then buf.length - 1 else buf.length) = (stripNewline buf).length := by
  unfold stripNewline
  split
  · rw [List.dropLast_eq_take, List.length_take]
    exact ⟨rfl, by omega⟩
  · exact ⟨List.take_length, rfl⟩

theorem field_of_parseInject {buf : Bytes} {N : Fin LINES} {V : UInt8} (h : parseInject buf = .ok (N, V)) :
    ∃ field, stripNewline buf = field ++ [58, 48 + V] ∧ (V = 0 ∨ V = 1) ∧ 58 ∉ field ∧
      field.length ≤ 3 ∧ kstrtoull field 10 = .ok N.val := by
  obtain ⟨htake, hlen⟩ := take_stripNewline buf
  rw [hlen] at htake
  simp only [parseInject, hlen, htake] at h
  generalize stripNewline buf = text at h
  split at h
  · cases h
  · rename_i sep hsep
    obtain ⟨field, rest, rfl, hc, rfl⟩ := idxOf?_split hsep
    split at h
    · cases h
    · split at h
      · cases h
      · rename_i hlen
        obtain ⟨bit, rfl⟩ : ∃ bit, rest = [bit] := by
          apply List.length_eq_one_iff.mp
          simp only [List.length_append, List.length_cons, not_not] at hlen
          omega
        have hget : (field ++ [58, bit])[field.length + 1]? = some bit := by simp
        simp only [hget, List.take_left, Option.getD_some] at h
        split at h
        · cases h
        · rename_i hbit
          split at h
          · cases h
          · rename_i hfit
            split at h
            · cases h
            · rename_i idx hidx
              split at h
              · cases h
                refine ⟨field, ?_, ?_, hc, by omega, hidx⟩
                · rw [UInt8.add_comm, UInt8.sub_add_cancel]
                · by_cases h48 : bit = 48
                  · exact .inl (by rw [h48]; rfl)
                  · have h49 : bit = 49 := by
                      by_contra hne
                      exact hbit ⟨by simpa using h48, by simpa using hne⟩
                    exact .inr (by rw [h49]; rfl)
              · cases h

theorem parseInject_of_field {buf field : Bytes} {v : ℕ} {V : UInt8} (hbuf : stripNewline buf = field ++ [58, 48 + V])
    (hV : V = 0 ∨ V = 1) (hc : 58 ∉ field) (hne : field ≠ []) (hfit : field.length ≤ 3)
    (hk : kstrtoull field 10 = .ok v) (hv : v < LINES) : parseInject buf = .ok (⟨v, hv⟩, V) := by
  obtain ⟨htake, hlen⟩ := take_stripNewline buf
  rw [hlen] at htake
  have hget : (field ++ [58, 48 + V])[field.length + 1]? = some (48 + V) := by simp
  have hsub : 48 + V - 48 = V := by rw [UInt8.add_comm, UInt8.add_sub_cancel]
  have hbit : ¬(48 + V ≠ 48 ∧ 48 + V ≠ 49) := by rcases hV with rfl | rfl <;> decide
  simp only [parseInject, hlen, htake]
  rw [hbuf]
  simp only [idxOf?_append hc, hget, List.take_left, hk, Option.getD_some, hsub, List.length_append, List.length_cons,
    List.length_nil, Option.some.injEq, ne_eq, not_true_eq_false, if_false, Nat.zero_add, Nat.reduceAdd]
  rw [if_neg (by simpa using hne), if_neg hbit, if_neg (by omega), dif_pos hv]

theorem parseInject_error {buf : Bytes} {e : Errno} (h : parseInject buf = .error e) : e = .einval := by
  unfold parseInject at h
  dsimp only at h
  repeat' split at h
  all_goals cases h
  all_goals rfl

theorem Spells.parsed {buf : Bytes} {N : Fin LINES} {V : UInt8} (h : Spells buf N V) :
    parseInject buf = .ok (N, V) := by
  obtain ⟨D, hbuf, hV, hpos, hfit, hdigits, hvalue⟩ := h
  have hne : D ≠ [] := List.length_pos_iff.mp hpos
  have hnum : Numeral D N [] D [] [] := ⟨by simp, .inl rfl, hne, hdigits, hvalue, .inl rfl, .inl rfl⟩
  have hc : 58 ∉ D := fun hc => absurd (hdigits 58 hc) (by decide)
  have hN : N.val < 2 ^ 64 := Nat.lt_trans N.isLt (by decide)
  exact parseInject_of_field hbuf hV hc hne hfit (hnum.kstrtoull hN) N.isLt

theorem spells_or_lenient {buf : Bytes} {N : Fin LINES} {V : UInt8} (h : parseInject buf = .ok (N, V)) :
    Spells buf N V ∨ Lenient buf := by
  obtain ⟨field, hbuf, hV, hc, hfit, hk⟩ := field_of_parseInject h
  obtain ⟨-, sign, ds, newline, hidden, hnum⟩ := numeral_of_kstrtoull hk
  by_cases hextra : sign ≠ [] ∨ newline ≠ [] ∨ hidden ≠ []
  · right
    refine ⟨field, 48 + V, N, sign, ds, newline, hidden, hbuf, ?_, hc, hfit, hnum, N.isLt, hextra⟩
    rcases hV with rfl | rfl
    · exact .inl rfl
    · exact .inr rfl
  · left
    simp only [not_or, not_not] at hextra
    obtain ⟨rfl, rfl, rfl⟩ := hextra
    have hds : field = ds := by simpa using hnum.eq
    subst hds
    exact ⟨field, hbuf, hV, List.length_pos_iff.mpr hnum.ne, hfit, hnum.digits, hnum.value⟩

theorem Lenient.not_spells {buf : Bytes} {N : Fin LINES} {V : UInt8} (h : Lenient buf) : ¬Spells buf N V := by
  rintro ⟨D, hbuf, -, -, -, hdigits, -⟩
  obtain ⟨field, bit, v, sign, ds, newline, hidden, hfield, -, -, -, hnum, -, hextra⟩ := h
  obtain ⟨rfl, -⟩ := List.append_inj' (hbuf.symm.trans hfield) rfl
  have hmem (c : UInt8) (hc : c ∈ sign ∨ c ∈ newline ∨ c ∈ hidden) : 48 ≤ c ∧ c ≤ 57 := by
    apply hdigits
    rw [hnum.eq]
    simp only [List.mem_append]
    tauto
  rcases hextra with hne | hne | hne
  · rw [hnum.sign.resolve_left hne] at hmem
    exact absurd (hmem 43 (by simp)) (by decide)
  · rw [hnum.newline.resolve_left hne] at hmem
    exact absurd (hmem 10 (by simp)) (by decide)
  · exact absurd (hmem 0 (.inr (.inr (List.mem_of_head? (hnum.hidden.resolve_left hne))))) (by decide)

theorem Lenient.parsed {buf : Bytes} (h : Lenient buf) : ∃ N V, parseInject buf = .ok (N, V) := by
  obtain ⟨field, bit, v, sign, ds, newline, hidden, hfield, hbit, hc, hfit, hnum, hv, -⟩ := h
  have hne : field ≠ [] := by
    rintro rfl
    have := hnum.eq
    simp [hnum.ne] at this
  have hk := hnum.kstrtoull (Nat.lt_trans hv (by decide))
  rcases hbit with rfl | rfl
  · exact ⟨⟨v, hv⟩, 0, parseInject_of_field hfield (.inl rfl) hc hne hfit hk hv⟩
  · exact ⟨⟨v, hv⟩, 1, parseInject_of_field hfield (.inr rfl) hc hne hfit hk hv⟩

theorem parseInject_strict (buf : Bytes) : Strict buf ↔ ¬Lenient buf := by
  constructor
  · intro hs hl
    obtain ⟨N, V, hp⟩ := hl.parsed
    exact hl.not_spells ((hs.accepts N V).mp hp)
  · intro hl
    have haccepts (N : Fin LINES) (V : UInt8) : parseInject buf = .ok (N, V) ↔ Spells buf N V :=
      ⟨fun hp => (spells_or_lenient hp).resolve_right hl, Spells.parsed⟩
    refine ⟨haccepts, fun hno => ?_⟩
    cases hp : parseInject buf with
    | ok r => exact absurd ((haccepts r.1 r.2).mp hp) (hno r.1 r.2)
    | error e => rw [parseInject_error hp]

theorem plus_sign_accepted : ¬∀ buf, Strict buf := by
  intro h
  have hp : parseInject [43, 49, 58, 48] = .ok (1, 0) := by decide
  obtain ⟨D, hbuf, -, -, -, hdigits, -⟩ := ((h _).accepts 1 0).mp hp
  have hD : D = [43, 49] := (List.append_inj' (hbuf.symm.trans (by decide)) rfl).1
  exact absurd (hdigits 43 (by simp [hD])) (by decide)

end VirtRtLab.Gpio
