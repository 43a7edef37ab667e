import Mathlib.Data.List.Nodup
import VirtRtLab.Ctl.Agreement

namespace VirtRtLab.Ctl

def Entry.type : Entry → DevType
  | .uart _ => .uart
  | .gpio _ => .gpio

def Entry.name : Entry → String
  | .uart entry => entry.name
  | .gpio entry => entry.name

def Entry.env : Entry → List (String × String)
  | .uart entry => entry.env
  | .gpio entry => entry.env

def Entry.vars (entry : Entry) : List String := entry.env.map Prod.fst

def namesOf (type : DevType) (contract : List Entry) : List String :=
  (contract.filter (fun entry => entry.type = type)).map Entry.name

def DevType.label (type : DevType) (idx : ℤ) : String :=
  match type with
  | .uart => s!"uart{idx}"
  | .gpio => s!"gpio{idx}"

structure Unambiguous (contract : List Entry) : Prop where
  names : (contract.map Entry.name).Nodup
  indices : ∀ t, namesOf t contract = (List.range (namesOf t contract).length).map (fun i : ℕ => t.label i)
  vars : contract.Pairwise (fun a b => a.vars.Disjoint b.vars)

/-- No devices come after an entry with a negative count. -/
def Forward (counts : List ℤ) : Prop := counts.Pairwise (fun a b => a < 0 → b ≤ 0)

instance (counts : List ℤ) : Decidable (Forward counts) := inferInstanceAs (Decidable (List.Pairwise _ _))

theorem repr_natural (m : ℕ) : Nat.ofDigitChars 10 m.repr.toList 0 = m := by
  rw [Nat.toList_repr, Nat.ofDigitChars_ten_toDigits]

theorem repr_ne_negative (m k : ℕ) : m.repr ≠ "-" ++ k.repr := by
  intro h
  have hmem : '-' ∈ Nat.toDigits 10 m := by
    rw [← Nat.toList_repr, h]
    simp
  exact absurd (Nat.isDigit_of_mem_toDigits (by decide) (by decide) hmem) (by decide)

theorem repr_injective {a b : ℤ} (h : a.repr = b.repr) : a = b := by
  have hread {m k : ℕ} (h : m.repr = k.repr) : m = k := by
    rw [← repr_natural m, h, repr_natural]
  rw [Int.repr_eq_if, Int.repr_eq_if] at h
  split at h <;> split at h
  · have := hread h
    omega
  · exact absurd h (repr_ne_negative _ _)
  · exact absurd h.symm (repr_ne_negative _ _)
  · have := hread ((String.append_right_inj "-").mp h)
    omega

theorem label_inj {t t' : DevType} {idx idx' : ℤ} (h : t.label idx = t'.label idx') : t = t' ∧ idx = idx' := by
  cases t with
  | uart =>
    cases t' with
    | uart => exact ⟨rfl, repr_injective ((String.append_right_inj "uart").mp h)⟩
    | gpio => simp [DevType.label, toString, String.ext_iff] at h
  | gpio =>
    cases t' with
    | uart => simp [DevType.label, toString, String.ext_iff] at h
    | gpio => exact ⟨rfl, repr_injective ((String.append_right_inj "gpio").mp h)⟩

def DevType.envNames (type : DevType) (idx : ℤ) : List String :=
  match type with
  | .uart => [s!"VIRTRTLAB_UART{idx}"]
  | .gpio => [s!"VIRTRTLAB_GPIOCHIP{idx}", s!"VIRTRTLAB_GPIOCTRL{idx}", s!"VIRTRTLAB_GPIOBASE{idx}"]

theorem envNames_inj {t t' : DevType} {idx idx' : ℤ} {v : String} (h : v ∈ t.envNames idx) (h' : v ∈ t'.envNames idx') :
    t.label idx = t'.label idx' := by
  cases t with
  | uart =>
    rw [List.mem_singleton.mp h] at h'
    cases t' with
    | uart => rw [repr_injective ((String.append_right_inj "VIRTRTLAB_UART").mp (List.mem_singleton.mp h'))]
    | gpio => simp [DevType.envNames, toString, String.ext_iff] at h'
  | gpio =>
    cases t' with
    | uart =>
      rw [List.mem_singleton.mp h'] at h
      simp [DevType.envNames, toString, String.ext_iff] at h
    | gpio =>
      simp only [DevType.envNames, List.mem_cons, List.not_mem_nil, or_false] at h
      rcases h with rfl | rfl | rfl <;> simp [DevType.envNames, toString, String.ext_iff] at h' <;>
        rw [repr_injective (String.ext h')]

def Entry.At (entry : Entry) (idx : ℤ) : Prop :=
  entry.name = entry.type.label idx ∧ entry.vars ⊆ entry.type.envNames idx

theorem uartEntry_at (idx : ℤ) : (Entry.uart (uartEntry idx)).At idx := ⟨rfl, fun _ hv => hv⟩

theorem gpioEntry_at {sysfs : ℤ → GpioSysfs} {idx : ℤ} {entry : GpioEntry} (h : gpioEntry sysfs idx = .ok entry) :
    (Entry.gpio entry).At idx := by
  unfold gpioEntry at h
  dsimp only at h
  split at h
  · cases h
  · cases h
  · split at h
    · cases h
    · split at h <;> cases h
      · exact ⟨rfl, fun _ hv => hv⟩
      · exact ⟨rfl, by simp [Entry.vars, Entry.env, Entry.type, DevType.envNames]⟩
      · exact ⟨rfl, by simp [Entry.vars, Entry.env, Entry.type, DevType.envNames]⟩

section

variable {sysfs : ℤ → GpioSysfs}

@[simp] theorem namesOf_append (t : DevType) (xs ys : List Entry) :
    namesOf t (xs ++ ys) = namesOf t xs ++ namesOf t ys := by
  simp [namesOf]

theorem gpioEntries_names {idxs : List ℤ} {entries : List Entry} (h : gpioEntries sysfs idxs = .ok entries) :
    namesOf .gpio entries = idxs.map DevType.gpio.label ∧ namesOf .uart entries = [] ∧
      ∀ entry ∈ entries, ∃ idx, entry.At idx := by
  induction idxs generalizing entries with
  | nil =>
    cases h
    exact ⟨rfl, rfl, by simp⟩
  | cons idx idxs ih =>
    unfold gpioEntries at h
    split at h
    · cases h
    · rename_i entry hentry
      split at h
      · cases h
      · rename_i rest hrest
        cases h
        obtain ⟨hg, hu, hall⟩ := ih hrest
        have hat := gpioEntry_at hentry
        refine ⟨?_, hu, ?_⟩
        · have hname : entry.name = DevType.gpio.label idx := hat.1
          rw [List.map_cons, ← hg, ← hname]
          rfl
        · exact List.forall_mem_cons.mpr ⟨⟨idx, hat⟩, hall⟩

theorem uartEntries_names (idxs : List ℤ) :
    namesOf .uart (idxs.map (fun idx => Entry.uart (uartEntry idx))) = idxs.map DevType.uart.label ∧
      namesOf .gpio (idxs.map (fun idx => Entry.uart (uartEntry idx))) = [] := by
  induction idxs with
  | nil => exact ⟨rfl, rfl⟩
  | cons idx idxs ih => exact ⟨congrArg (DevType.uart.label idx :: ·) ih.1, ih.2⟩

theorem contractFrom_names {u g : ℤ} {devices : List Device} {contract : List Entry}
    (h : contractFrom sysfs u g devices = .ok contract) :
    namesOf .uart contract = (cumulative u (counts .uart devices)).map DevType.uart.label ∧
      namesOf .gpio contract = (cumulative g (counts .gpio devices)).map DevType.gpio.label ∧
      ∀ entry ∈ contract, ∃ idx, entry.At idx := by
  induction devices generalizing u g contract with
  | nil =>
    cases h
    exact ⟨rfl, rfl, by simp⟩
  | cons dev devices ih =>
    obtain ⟨t, count⟩ := dev
    unfold contractFrom at h
    cases t with
    | uart =>
      obtain ⟨rest, hrest, rfl⟩ := map_eq_ok h
      obtain ⟨hu, hg, hall⟩ := ih hrest
      obtain ⟨hu', hg'⟩ := uartEntries_names (indices u count)
      refine ⟨?_, ?_, ?_⟩
      · rw [namesOf_append, hu, hu', ← List.map_append]
        rfl
      · rw [namesOf_append, hg, hg', List.nil_append]
        rfl
      · intro entry hentry
        rcases List.mem_append.mp hentry with hentry | hentry
        · obtain ⟨idx, -, rfl⟩ := List.mem_map.mp hentry
          exact ⟨idx, uartEntry_at idx⟩
        · exact hall entry hentry
    | gpio =>
      dsimp only at h
      split at h
      · cases h
      · rename_i entries hentries
        obtain ⟨rest, hrest, rfl⟩ := map_eq_ok h
        obtain ⟨hu, hg, hall⟩ := ih hrest
        obtain ⟨hg', hu', hall'⟩ := gpioEntries_names hentries
        refine ⟨?_, ?_, ?_⟩
        · rw [namesOf_append, hu, hu', List.nil_append]
          rfl
        · rw [namesOf_append, hg, hg', ← List.map_append]
          rfl
        · intro entry hentry
          rcases List.mem_append.mp hentry with hentry | hentry
          · exact hall' entry hentry
          · exact hall entry hentry

theorem namesOf_contract {devices : List Device} {contract : List Entry}
    (h : resolveAutContract sysfs devices = .ok contract) (t : DevType) :
    namesOf t contract = (cumulative 0 (counts t devices)).map t.label := by
  cases t with
  | uart => exact (contractFrom_names h).1
  | gpio => exact (contractFrom_names h).2.1

end

section

variable {first : ℤ} {cs : List ℤ}

theorem indices_eq (first c : ℤ) : indices first c = (List.range c.toNat).map (fun i : ℕ => first + (i : ℤ)) := by
  simp only [indices, List.bind_eq_flatMap, List.pure_def, List.map_flatMap, List.map_cons, List.map_nil]
  exact List.map_eq_flatMap.symm

theorem head_indices {i c : ℤ} (h : i ∈ (indices first c).head?) : i = first := by
  rw [indices_eq] at h
  cases hc : c.toNat with
  | zero => simp [hc] at h
  | succ n => simpa [hc, List.range_succ_eq_map, eq_comm] using h

theorem indices_append {c : ℤ} (hc : 0 ≤ c) (k : ℕ) : indices first c ++ indices (first + c) k = indices first (c + k) := by
  have hsum : (c + k).toNat = c.toNat + k := by omega
  have hcast : (c.toNat : ℤ) = c := Int.toNat_of_nonneg hc
  simp [indices_eq, hsum, List.range_add, hcast, add_assoc]

theorem head_cumulative {i : ℤ} (h : i ∈ (cumulative first cs).head?) : i ≤ first := by
  induction cs generalizing first with
  | nil => simp [cumulative] at h
  | cons c cs ih =>
    by_cases hc : c ≤ 0
    · rw [cumulative, indices_nonpos hc, List.nil_append] at h
      have := ih h
      omega
    · have hne : indices first c ≠ [] := by
        rw [← List.length_pos_iff, indices_length]
        omega
      rw [cumulative, List.head?_append_of_ne_nil _ hne] at h
      exact (head_indices h).le

theorem cumulative_forward (first : ℤ) (cs : List ℤ) :
    cumulative first cs = indices first (cumulative first cs).length ↔ Forward cs := by
  induction cs generalizing first with
  | nil => simp [cumulative, indices, Forward]
  | cons c cs ih =>
    have hcons : Forward (c :: cs) ↔ (∀ b ∈ cs, c < 0 → b ≤ 0) ∧ Forward cs := List.pairwise_cons
    rw [hcons]
    by_cases hc : 0 ≤ c
    · have hlen : (cumulative first (c :: cs)).length = c.toNat + (cumulative (first + c) cs).length := by
        rw [cumulative, List.length_append, indices_length]
      have hcast : ((c.toNat + (cumulative (first + c) cs).length : ℕ) : ℤ) = c + (cumulative (first + c) cs).length := by
        omega
      rw [hlen, hcast, ← indices_append hc, cumulative, List.append_cancel_left_eq, ih]
      simp [not_lt.mpr hc]
    · have hneg : c < 0 := not_le.mp hc
      rw [cumulative, indices_nonpos hneg.le, List.nil_append]
      constructor
      · intro h
        have hnil : cumulative (first + c) cs = [] := by
          by_contra hne
          obtain ⟨i, hi⟩ : ∃ i, i ∈ (cumulative (first + c) cs).head? := by
            cases hcs : cumulative (first + c) cs with
            | nil => exact absurd hcs hne
            | cons i is => exact ⟨i, rfl⟩
          have hle := head_cumulative hi
          rw [h] at hi
          have := head_indices hi
          omega
        have hall : ∀ b ∈ cs, b ≤ 0 := by
          rw [← sum_toNat_eq_zero, ← cumulative_length (first + c), hnil, List.length_nil]
        refine ⟨fun b hb _ => hall b hb, List.pairwise_of_forall_mem_list fun a _ b hb _ => hall b hb⟩
      · rintro ⟨hall, -⟩
        rw [cumulative_nonpos fun b hb => hall b hb hneg]
        rfl

end

theorem indices_zero (k : ℕ) : indices 0 k = (List.range k).map (fun i : ℕ => (i : ℤ)) := by
  simp [indices_eq]

theorem label_injective (t : DevType) : Function.Injective t.label := fun _ _ h => (label_inj h).2

theorem namesOf_counts_up {devices : List Device} {contract : List Entry} {t : DevType}
    (h : namesOf t contract = (cumulative 0 (counts t devices)).map t.label) :
    namesOf t contract = (List.range (namesOf t contract).length).map (fun i : ℕ => t.label i) ↔ Forward (counts t devices) := by
  have hrange (k : ℕ) : (List.range k).map (fun i : ℕ => t.label i) = (indices 0 k).map t.label := by
    rw [indices_zero, List.map_map]
    rfl
  rw [h, List.length_map, hrange, (label_injective t).list_map.eq_iff, cumulative_forward]

theorem pairwise_of_type {R : Entry → Entry → Prop} {contract : List Entry}
    (hsame : ∀ t, (contract.filter (fun entry => entry.type = t)).Pairwise R)
    (hother : ∀ a b : Entry, a.type ≠ b.type → R a b) : contract.Pairwise R := by
  induction contract with
  | nil => exact .nil
  | cons a contract ih =>
    rw [List.pairwise_cons]
    constructor
    · intro b hb
      by_cases ht : b.type = a.type
      · have ha := hsame a.type
        rw [List.filter_cons_of_pos (by simp), List.pairwise_cons] at ha
        exact ha.1 b (List.mem_filter.mpr ⟨hb, by simpa using ht⟩)
      · exact hother a b (Ne.symm ht)
    · apply ih
      intro t
      have ht := hsame t
      rw [List.filter_cons] at ht
      split at ht
      · exact ht.of_cons
      · exact ht

theorem names_nodup {contract : List Entry} (hat : ∀ entry ∈ contract, ∃ idx, entry.At idx)
    (h : ∀ t, namesOf t contract = (List.range (namesOf t contract).length).map (fun i : ℕ => t.label i)) :
    contract.Pairwise (fun a b => a.name ≠ b.name) := by
  have hpair : contract.Pairwise (fun a b => a ∈ contract → b ∈ contract → a.name ≠ b.name) := by
    apply pairwise_of_type
    · intro t
      have hnodup : (namesOf t contract).Nodup := by
        rw [h]
        exact List.nodup_range.map ((label_injective t).comp Nat.cast_injective)
      exact (List.pairwise_map.mp hnodup).imp fun hab _ _ => hab
    · intro a b hne ha hb hname
      obtain ⟨i, hi, -⟩ := hat a ha
      obtain ⟨j, hj, -⟩ := hat b hb
      rw [hi, hj] at hname
      exact hne (label_inj hname).1
  exact hpair.imp_of_mem fun ha hb hab => hab ha hb

theorem contract_unambiguous {sysfs : ℤ → GpioSysfs} {devices : List Device} {contract : List Entry}
    (h : resolveAutContract sysfs devices = .ok contract) :
    Unambiguous contract ↔ ∀ t, Forward (counts t devices) := by
  have hat := (contractFrom_names h).2.2
  constructor
  · intro hu t
    exact (namesOf_counts_up (namesOf_contract h t)).mp (hu.indices t)
  · intro hf
    have hindices t := (namesOf_counts_up (namesOf_contract h t)).mpr (hf t)
    have hnames := names_nodup hat hindices
    refine ⟨List.pairwise_map.mpr hnames, hindices, hnames.imp_of_mem ?_⟩
    intro a b ha hb hne v hva hvb
    obtain ⟨i, hi, hivars⟩ := hat a ha
    obtain ⟨j, hj, hjvars⟩ := hat b hb
    apply hne
    rw [hi, hj]
    exact envNames_inj (hivars hva) (hjvars hvb)

theorem contract_unambiguous_three_entries : ∃ contract,
    resolveAutContract Env.working.sysfs [⟨.uart, 2⟩, ⟨.gpio, 1⟩, ⟨.uart, 1⟩] = .ok contract ∧ Unambiguous contract := by
  obtain ⟨contract, hc⟩ : ∃ contract, resolveAutContract Env.working.sysfs [⟨.uart, 2⟩, ⟨.gpio, 1⟩, ⟨.uart, 1⟩] =
      .ok contract := ⟨_, rfl⟩
  have hforward : ∀ t, Forward (counts t [⟨.uart, 2⟩, ⟨.gpio, 1⟩, ⟨.uart, 1⟩]) := by
    intro t
    cases t <;> decide
  exact ⟨contract, hc, (contract_unambiguous hc).mpr hforward⟩

theorem negative_count_repeats : ¬∀ (files : String → Option TomlFile) (args : Args) (p : Profile)
    (sysfs : ℤ → GpioSysfs) (contract : List Entry), resolveProfile files args = .ok p →
      resolveAutContract sysfs p.devices = .ok contract → Unambiguous contract := by
  intro h
  have hu := h (labToml [("uart", 2), ("uart", -1), ("uart", 1)]) ⟨none, none, none⟩
    ⟨[⟨.uart, 2⟩, ⟨.uart, -1⟩, ⟨.uart, 1⟩], none, none⟩ Env.working.sysfs
    [.uart (uartEntry 0), .uart (uartEntry 1), .uart (uartEntry 1)] rfl rfl
  exact absurd hu.names (by simp [Entry.name])

end VirtRtLab.Ctl
