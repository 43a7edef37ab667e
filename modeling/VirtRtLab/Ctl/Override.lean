import Mathlib.Data.List.Induction
import VirtRtLab.Ctl.Agreement

namespace VirtRtLab.Ctl

def DevType.name : DevType → String
  | .uart => "uart"
  | .gpio => "gpio"

def Args.flag (args : Args) : DevType → Option ℤ
  | .uart => args.uart
  | .gpio => args.gpio

def tomlDevices (files : String → Option TomlFile) (args : Args) : List (String × ℤ) :=
  match locate files args with
  | .ok (some (.valid data)) =>
    match readToml data with
    | .ok devices => devices
    | .error _ => []
  | _ => []

def entries (type : String) (devices : List (String × ℤ)) : List ℤ :=
  (devices.filter (fun d => d.1 = type)).map Prod.snd

structure Overridden (files : String → Option TomlFile) (args : Args) (p : Profile) : Prop where
  given : ∀ t n, args.flag t = some n → (counts t p.devices).sum = n
  kept : ∀ t, args.flag t = none → counts t p.devices = entries t.name (tomlDevices files args)

def lastReplaced (flag : Option ℤ) (cs : List ℤ) : List ℤ :=
  match flag with
  | none => cs
  | some n => cs.dropLast ++ [n]

section

variable {ds : List (String × ℤ)} {type type' : String} {i : ℕ}

theorem byType_append (ds : List (String × ℤ)) (d : String × ℤ) (type : String) :
    byType (ds ++ [d]) type = if d.1 = type then some ds.length else byType ds type := by
  rw [byType, byType, List.reverse_append, List.reverse_singleton, List.singleton_append, List.findIdx?_cons]
  by_cases h : d.1 = type
  · simp [h]
  · simp only [h, decide_false, Bool.false_eq_true, if_false, Option.map_map, List.length_append, List.length_singleton]
    congr 1
    funext k
    simp only [Function.comp_apply]
    omega

theorem byType_lt (h : byType ds type = some i) : i < ds.length := by
  induction ds using List.reverseRecOn with
  | nil => cases h
  | append_singleton ds d ih =>
    rw [byType_append] at h
    rw [List.length_append, List.length_singleton]
    split at h
    · cases h
      exact Nat.lt_succ_self _
    · exact Nat.lt_succ_of_lt (ih h)

theorem entries_append (type : String) (ds : List (String × ℤ)) (d : String × ℤ) :
    entries type (ds ++ [d]) = entries type ds ++ if d.1 = type then [d.2] else [] := by
  by_cases h : d.1 = type
  · simp [entries, h]
  · simp [entries, h]

theorem modify_append (ds : List (String × ℤ)) (d : String × ℤ) (f : String × ℤ → String × ℤ) (h : i < ds.length) :
    (ds ++ [d]).modify i f = ds.modify i f ++ [d] := by
  induction ds generalizing i with
  | nil => cases h
  | cons x ds ih =>
    cases i with
    | zero => rfl
    | succ i => simp only [List.cons_append, List.modify_succ_cons, ih (Nat.lt_of_succ_lt_succ h)]

theorem modify_length (ds : List (String × ℤ)) (d : String × ℤ) (f : String × ℤ → String × ℤ) :
    (ds ++ [d]).modify ds.length f = ds ++ [f d] := by
  induction ds with
  | nil => rfl
  | cons x ds ih => simp only [List.cons_append, List.length_cons, List.modify_succ_cons, ih]

theorem entries_modify (n : ℤ) (h : byType ds type = some i) :
    entries type (ds.modify i (fun d => (d.1, n))) = (entries type ds).dropLast ++ [n] := by
  induction ds using List.reverseRecOn with
  | nil => cases h
  | append_singleton ds d ih =>
    rw [byType_append] at h
    split at h
    · rename_i hd
      cases h
      rw [modify_length, entries_append, entries_append, if_pos hd, if_pos hd, List.dropLast_concat]
    · rename_i hd
      rw [modify_append ds d _ (byType_lt h), entries_append, entries_append, if_neg hd, List.append_nil, List.append_nil]
      exact ih h

theorem entries_modify_other (n : ℤ) (h : byType ds type = some i) (ht : type' ≠ type) :
    entries type' (ds.modify i (fun d => (d.1, n))) = entries type' ds := by
  induction ds using List.reverseRecOn with
  | nil => cases h
  | append_singleton ds d ih =>
    rw [byType_append] at h
    split at h
    · rename_i hd
      cases h
      have hne : d.1 ≠ type' := fun he => ht (he.symm.trans hd)
      rw [modify_length, entries_append, entries_append, if_neg hne, if_neg hne]
    · rw [modify_append ds d _ (byType_lt h), entries_append, entries_append, ih h]

theorem byType_modify (n : ℤ) (h : i < ds.length) :
    byType (ds.modify i (fun d => (d.1, n))) type = byType ds type := by
  induction ds using List.reverseRecOn with
  | nil => cases h
  | append_singleton ds d ih =>
    rw [List.length_append, List.length_singleton] at h
    rcases Nat.lt_succ_iff_lt_or_eq.mp h with hi | rfl
    · rw [modify_append ds d _ hi, byType_append, byType_append, ih hi, List.length_modify]
    · rw [modify_length, byType_append, byType_append]

theorem entries_none (h : byType ds type = none) : entries type ds = [] := by
  induction ds using List.reverseRecOn with
  | nil => rfl
  | append_singleton ds d ih =>
    rw [byType_append] at h
    split at h
    · cases h
    · rename_i hd
      rw [entries_append, if_neg hd, ih h, List.append_nil]

theorem inline_entries (flag : Option ℤ) (ds : List (String × ℤ)) (type : String) :
    entries type (inline (byType ds type) type flag ds) = lastReplaced flag (entries type ds) := by
  cases flag with
  | none => rfl
  | some n =>
    cases h : byType ds type with
    | none => rw [inline, entries_append, if_pos rfl, entries_none h]; rfl
    | some i => exact entries_modify n h

theorem inline_other (ds : List (String × ℤ)) (flag : Option ℤ) (ht : type' ≠ type) :
    entries type' (inline (byType ds type) type flag ds) = entries type' ds ∧
      byType (inline (byType ds type) type flag ds) type' = byType ds type' := by
  cases flag with
  | none => exact ⟨rfl, rfl⟩
  | some n =>
    cases h : byType ds type with
    | none =>
      dsimp only [inline]
      rw [entries_append, byType_append, if_neg ht.symm, if_neg ht.symm, List.append_nil]
      exact ⟨rfl, rfl⟩
    | some i => exact ⟨entries_modify_other n h ht, byType_modify n (byType_lt h)⟩

theorem applyInline_entries (args : Args) (ds : List (String × ℤ)) (t : DevType) :
    entries t.name (applyInline args ds) = lastReplaced (args.flag t) (entries t.name ds) := by
  have hne : "gpio" ≠ "uart" := by decide
  obtain ⟨hgpio, hindex⟩ := inline_other ds args.uart hne
  rw [applyInline, ← hindex]
  cases t with
  | uart =>
    obtain ⟨huart, -⟩ := inline_other (inline (byType ds "uart") "uart" args.uart ds) args.gpio hne.symm
    exact huart.trans (inline_entries args.uart ds "uart")
  | gpio =>
    rw [DevType.name, inline_entries, hgpio]
    rfl

end

theorem DevType.ofName_name (t : DevType) : DevType.ofName t.name = some t := by cases t <;> rfl

theorem DevType.ofName_eq_some {name : String} {t : DevType} (h : DevType.ofName name = some t) : name = t.name := by
  unfold DevType.ofName at h
  split at h <;> cases h <;> rfl

theorem validate_counts {ds : List (String × ℤ)} {devices : List Device} (h : validate ds = .ok devices) (t : DevType) :
    counts t devices = entries t.name ds := by
  induction ds generalizing devices with
  | nil =>
    cases h
    rfl
  | cons d ds ih =>
    obtain ⟨name, count⟩ := d
    simp only [validate] at h
    split at h
    · cases h
    · rename_i t' hname
      cases DevType.ofName_eq_some hname
      split at h
      · cases h
      · rename_i devs hdevs
        cases h
        have hih := ih hdevs
        unfold counts entries at hih ⊢
        by_cases ht : t' = t
        · subst ht
          simp [hih]
        · have hn : t'.name ≠ t.name := fun he => ht (by simpa [DevType.ofName_name] using congrArg DevType.ofName he)
          simp [ht, hn, hih]

theorem resolveProfile_devices {files : String → Option TomlFile} {args : Args} {p : Profile}
    (h : resolveProfile files args = .ok p) :
    validate (applyInline args (tomlDevices files args)) = .ok p.devices := by
  have hresolve {ds : List (String × ℤ)} {seed dir : Option String}
      (h : (resolveDevices args ds).map (fun devices => ⟨devices, seed, dir⟩) = .ok p) :
      validate (applyInline args ds) = .ok p.devices := by
    obtain ⟨devices, hd, rfl⟩ := map_eq_ok h
    unfold resolveDevices at hd
    split at hd
    · cases hd
    · exact hd
  unfold resolveProfile at h
  unfold tomlDevices
  split at h
  · cases h
  · rename_i hl
    rw [hl]
    exact hresolve h
  · cases h
  · rename_i data hl
    rw [hl]
    split at h
    · cases h
    · rename_i ds hr
      dsimp only
      rw [hr]
      exact hresolve h

/-- The flags given override all entries of their types if and only if the entries before the last of such a type add
up to nothing. -/
theorem inline_flags_override {files : String → Option TomlFile} {args : Args} {p : Profile}
    (h : resolveProfile files args = .ok p) : Overridden files args p ↔
      ∀ t, (args.flag t).isSome = true → (entries t.name (tomlDevices files args)).dropLast.sum = 0 := by
  have hcounts (t : DevType) : counts t p.devices =
      lastReplaced (args.flag t) (entries t.name (tomlDevices files args)) := by
    rw [validate_counts (resolveProfile_devices h), applyInline_entries]
  constructor
  · intro ho t ht
    obtain ⟨n, hn⟩ := Option.isSome_iff_exists.mp ht
    have hsum := ho.given t n hn
    rw [hcounts, hn, lastReplaced, List.sum_append, List.sum_singleton] at hsum
    omega
  · intro hzero
    constructor
    · intro t n hn
      rw [hcounts, hn, lastReplaced, List.sum_append, List.sum_singleton, hzero t (by simp [hn]), Int.zero_add]
    · intro t hn
      rw [hcounts, hn, lastReplaced]

theorem inline_flags_override_uart : ∃ p,
    resolveProfile (labToml [("gpio", 3), ("uart", 1)]) ⟨none, some 4, none⟩ = .ok p ∧
      (counts .uart p.devices).sum = 4 ∧ counts .gpio p.devices = [3] := by
  obtain ⟨p, hp⟩ : ∃ p, resolveProfile (labToml [("gpio", 3), ("uart", 1)]) ⟨none, some 4, none⟩ = .ok p := ⟨_, rfl⟩
  have ho : Overridden (labToml [("gpio", 3), ("uart", 1)]) ⟨none, some 4, none⟩ p := by
    refine (inline_flags_override hp).mpr fun t ht => ?_
    cases t with
    | uart => rfl
    | gpio => cases ht
  exact ⟨p, hp, ho.given .uart 4 rfl, ho.kept .gpio rfl⟩

theorem first_uart_entry_stays : ¬∀ (files : String → Option TomlFile) (args : Args) (p : Profile),
    resolveProfile files args = .ok p → Overridden files args p := by
  intro h
  have ho := h (labToml [("uart", 1), ("uart", 2)]) ⟨none, some 4, none⟩ ⟨[⟨.uart, 1⟩, ⟨.uart, 4⟩], none, none⟩ rfl
  have hsum : (counts .uart [⟨.uart, 1⟩, ⟨.uart, 4⟩]).sum = 4 := ho.given .uart 4 rfl
  exact absurd hsum (by decide)

end VirtRtLab.Ctl
