import VirtRtLab.Kernel.Decimal

/-!
`parse_args` on what `getopt_long` makes of the argument vector. Arguments are C strings without their terminators.
-/

namespace VirtRtLab.Daemon

open Kernel

def MAX_UARTS : ℤ := 8
def DEFAULT_UARTS : ℤ := 1

-- "/run/virtrtlab"
def DEFAULT_RUNDIR : Bytes := [47, 114, 117, 110, 47, 118, 105, 114, 116, 114, 116, 108, 97, 98]

inductive Opt where
  | numUarts (optarg : Bytes)
  | runDir (optarg : Bytes)
  | help
  | other
  deriving DecidableEq

inductive Exit where
  | success | failure
  deriving DecidableEq, Repr

def isSpace (c : UInt8) : Bool := c = 32 ∨ 9 ≤ c ∧ c ≤ 13

def isDigit (c : UInt8) : Bool := 48 ≤ c ∧ c ≤ 57

def LONG_MIN : ℤ := -2 ^ 63
def LONG_MAX : ℤ := 2 ^ 63 - 1

def splitSign : Bytes → Bytes × Bytes
  | c :: s => if c = 45 ∨ c = 43 then ([c], s) else ([], c :: s)
  | [] => ([], [])

def signed (sign : Bytes) (v : ℕ) : ℤ := if sign = [45] then -v else v

def saturate (v : ℤ) : ℤ := max LONG_MIN (min LONG_MAX v)

def strtol (s : Bytes) : ℤ × Bytes :=
  let (sign, t) := splitSign (s.dropWhile isSpace)
  let ds := t.takeWhile isDigit
  if ds = [] then (0, s) else (saturate (signed sign (value 10 ds)), t.dropWhile isDigit)

-- the conversion of a `long` to `int`
def toInt (v : ℤ) : ℤ := v.bmod (2 ^ 32)

def parseArgs (numUarts : ℤ) (runDir : Bytes) : List Opt → Except Exit (ℤ × Bytes)
  | [] => .ok (numUarts, runDir)
  | .numUarts optarg :: opts =>
    let (v, endptr) := strtol optarg
    let n := toInt v
    if endptr ≠ [] ∨ endptr = optarg ∨ n < 1 ∨ MAX_UARTS < n then .error .failure else parseArgs n runDir opts
  | .runDir optarg :: opts => parseArgs numUarts optarg opts
  | .help :: _ => .error .success
  | .other :: _ => .error .failure

def Reads (optarg : Bytes) (v : ℤ) : Prop :=
  ∃ space sign ds, optarg = space ++ sign ++ ds ∧ (∀ c ∈ space, isSpace c) ∧ (sign = [] ∨ sign = [43] ∨ sign = [45]) ∧
    ds ≠ [] ∧ (∀ c ∈ ds, isDigit c) ∧ v = signed sign (value 10 ds)

theorem splitSign_eq (s : Bytes) : s = (splitSign s).1 ++ (splitSign s).2 ∧
    ((splitSign s).1 = [] ∨ (splitSign s).1 = [43] ∨ (splitSign s).1 = [45]) := by
  cases s with
  | nil => exact ⟨rfl, .inl rfl⟩
  | cons c s =>
    by_cases hc : c = 45 ∨ c = 43
    · have hs : splitSign (c :: s) = ([c], s) := if_pos hc
      rw [hs]
      refine ⟨rfl, .inr ?_⟩
      rcases hc with rfl | rfl
      · exact .inr rfl
      · exact .inl rfl
    · have hs : splitSign (c :: s) = ([], c :: s) := if_neg hc
      rw [hs]
      exact ⟨rfl, .inl rfl⟩

theorem splitSign_digits {sign ds : Bytes} (hsign : sign = [] ∨ sign = [43] ∨ sign = [45]) (hne : ds ≠ [])
    (hds : ∀ c ∈ ds, isDigit c) : splitSign (sign ++ ds) = (sign, ds) := by
  rcases hsign with rfl | rfl | rfl
  · cases ds with
    | nil => exact absurd rfl hne
    | cons c ds =>
      have hc := hds c (List.mem_cons_self ..)
      have hnot : ¬(c = 45 ∨ c = 43) := by
        rintro (rfl | rfl)
        · cases hc
        · cases hc
      simp [splitSign, hnot]
  · rfl
  · rfl

theorem space_of_not_digit {c : UInt8} (hc : isSpace c = true) : isDigit c = false ∧ c ≠ 43 ∧ c ≠ 45 := by
  simp only [isSpace, decide_eq_true_eq] at hc
  rcases hc with rfl | ⟨h9, h13⟩
  · decide
  · have hle : c.toNat ≤ 13 := UInt8.le_iff_toNat_le.mp h13
    refine ⟨?_, ?_, ?_⟩
    · simp only [isDigit, decide_eq_false_iff_not, UInt8.le_iff_toNat_le]
      have hzero : (48 : UInt8).toNat = 48 := rfl
      omega
    · rintro rfl
      exact absurd hle (by decide)
    · rintro rfl
      exact absurd hle (by decide)

theorem head_not_space {sign ds : Bytes} (hsign : sign = [] ∨ sign = [43] ∨ sign = [45])
    (hds : ∀ c ∈ ds, isDigit c) : (sign ++ ds).dropWhile isSpace = sign ++ ds := by
  cases hd : sign ++ ds with
  | nil => rfl
  | cons c cs =>
    have hc : isSpace c = false := by
      apply eq_false_of_ne_true
      intro hc
      obtain ⟨hdig, h43, h45⟩ := space_of_not_digit hc
      rcases hsign with rfl | rfl | rfl
      · rw [List.nil_append] at hd
        rw [hds c (hd ▸ List.mem_cons_self ..)] at hdig
        cases hdig
      · exact h43 (List.cons.inj hd).1.symm
      · exact h45 (List.cons.inj hd).1.symm
    rw [List.dropWhile_cons_of_neg (by simp [hc])]

theorem strtol_of_reads {optarg : Bytes} {v : ℤ} (h : Reads optarg v) :
    strtol optarg = (saturate v, []) ∧ optarg ≠ [] := by
  obtain ⟨space, sign, ds, rfl, hspace, hsign, hne, hds, rfl⟩ := h
  have hdrop : (space ++ sign ++ ds).dropWhile isSpace = sign ++ ds := by
    rw [List.append_assoc, List.dropWhile_append_of_pos hspace, head_not_space hsign hds]
  have htake : ds.takeWhile isDigit = ds := List.takeWhile_eq_self_iff.mpr hds
  have hrest : ds.dropWhile isDigit = [] := List.dropWhile_eq_nil_iff.mpr hds
  constructor
  · simp only [strtol, hdrop, splitSign_digits hsign hne hds, htake, hrest, if_neg hne]
  · simp [hne]

theorem reads_of_strtol {optarg : Bytes} (hend : (strtol optarg).2 = []) (hne : (strtol optarg).2 ≠ optarg) :
    ∃ v, Reads optarg v ∧ (strtol optarg).1 = saturate v := by
  obtain ⟨hsplit, hsign⟩ := splitSign_eq (optarg.dropWhile isSpace)
  unfold strtol at hend hne ⊢
  generalize splitSign (optarg.dropWhile isSpace) = p at hsplit hsign hend hne ⊢
  obtain ⟨sign, t⟩ := p
  dsimp only at hsplit hsign hend hne ⊢
  by_cases hds : t.takeWhile isDigit = []
  · rw [if_pos hds] at hne
    exact absurd rfl hne
  · rw [if_neg hds] at hend ⊢
    dsimp only at hend
    refine ⟨_, ⟨optarg.takeWhile isSpace, sign, t.takeWhile isDigit, ?_, ?_, hsign, hds, ?_, rfl⟩, rfl⟩
    · have ht : t.takeWhile isDigit = t := by
        have hparts := List.takeWhile_append_dropWhile (p := isDigit) (l := t)
        rwa [hend, List.append_nil] at hparts
      rw [ht, List.append_assoc, ← hsplit, List.takeWhile_append_dropWhile]
    · exact fun c hc => List.mem_takeWhile_imp hc
    · exact fun c hc => List.mem_takeWhile_imp hc

theorem saturate_eq (v : ℤ) : saturate v = max (-2 ^ 63) (min (2 ^ 63 - 1) v) := rfl

theorem reads_unique {optarg : Bytes} {v w : ℤ} (hv : Reads optarg v) (hw : Reads optarg w) :
    saturate v = saturate w := by
  have hv' := (strtol_of_reads hv).1
  rw [(strtol_of_reads hw).1] at hv'
  exact (Prod.mk.inj hv').1.symm

def InRange (optarg : Bytes) : Prop := ∃ v, Reads optarg v ∧ 1 ≤ v ∧ v ≤ MAX_UARTS

/-- A number outside the range that fits a `long` and falls into the range when only its low 32 bits are kept. -/
def Wraps (optarg : Bytes) : Prop :=
  ∃ v, Reads optarg v ∧ LONG_MIN ≤ v ∧ v ≤ LONG_MAX ∧ ¬(1 ≤ v ∧ v ≤ MAX_UARTS) ∧ 1 ≤ v % 2 ^ 32 ∧ v % 2 ^ 32 ≤ MAX_UARTS

def Accepted (optarg : Bytes) : Prop :=
  ¬((strtol optarg).2 ≠ [] ∨ (strtol optarg).2 = optarg ∨ toInt (strtol optarg).1 < 1 ∨
    MAX_UARTS < toInt (strtol optarg).1)

instance (optarg : Bytes) : Decidable (Accepted optarg) := inferInstanceAs (Decidable (¬_))

theorem toInt_range (v : ℤ) : 1 ≤ toInt v ∧ toInt v ≤ MAX_UARTS ↔ 1 ≤ v % 2 ^ 32 ∧ v % 2 ^ 32 ≤ MAX_UARTS := by
  have hdef : MAX_UARTS = 8 := rfl
  rw [hdef, toInt, Int.bmod_def]
  split <;> omega

theorem accepted_iff {optarg : Bytes} :
    Accepted optarg ↔ ∃ v, Reads optarg v ∧ 1 ≤ toInt (saturate v) ∧ toInt (saturate v) ≤ MAX_UARTS := by
  constructor
  · intro h
    simp only [Accepted, not_or, not_not, not_lt] at h
    obtain ⟨hend, hne, hlo, hhi⟩ := h
    obtain ⟨v, hv, hval⟩ := reads_of_strtol hend hne
    rw [hval] at hlo hhi
    exact ⟨v, hv, hlo, hhi⟩
  · rintro ⟨v, hv, hlo, hhi⟩
    obtain ⟨hval, hne⟩ := strtol_of_reads hv
    simp only [Accepted, hval, not_or, not_not, not_lt]
    exact ⟨trivial, Ne.symm hne, hlo, hhi⟩

theorem accepted_iff_range {optarg : Bytes} : Accepted optarg ↔ InRange optarg ∨ Wraps optarg := by
  have hdef : MAX_UARTS = 8 := rfl
  rw [accepted_iff]
  simp only [toInt_range, saturate_eq]
  simp only [InRange, Wraps, LONG_MIN, LONG_MAX, hdef]
  constructor
  · rintro ⟨v, hv, hlo, hhi⟩
    by_cases hin : 1 ≤ v ∧ v ≤ 8
    · exact .inl ⟨v, hv, hin⟩
    · exact .inr ⟨v, hv, by omega, by omega, hin, by omega, by omega⟩
  · rintro (⟨v, hv, hlo, hhi⟩ | ⟨v, hv, hmin, hmax, -, hlo, hhi⟩)
    · exact ⟨v, hv, by omega, by omega⟩
    · exact ⟨v, hv, by omega, by omega⟩

def lastNum : List Opt → Option Bytes
  | [] => none
  | .numUarts optarg :: opts => (lastNum opts).or (some optarg)
  | _ :: opts => lastNum opts

theorem parseArgs_num {numUarts : ℤ} {runDir optarg : Bytes} {opts : List Opt} :
    parseArgs numUarts runDir (.numUarts optarg :: opts) =
      if Accepted optarg then parseArgs (toInt (strtol optarg).1) runDir opts else .error .failure := by
  by_cases hacc : Accepted optarg
  · rw [if_pos hacc]
    exact if_neg hacc
  · rw [if_neg hacc]
    exact if_pos (not_not.mp hacc)

theorem parseArgs_ok {opts : List Opt} (hopts : ∀ o ∈ opts, o ≠ .help ∧ o ≠ .other) (numUarts : ℤ) (runDir : Bytes) :
    (∃ r, parseArgs numUarts runDir opts = .ok r) ↔ ∀ optarg, .numUarts optarg ∈ opts → Accepted optarg := by
  induction opts generalizing numUarts runDir with
  | nil =>
    refine ⟨fun _ optarg hmem => ?_, fun _ => ⟨_, rfl⟩⟩
    cases hmem
  | cons o opts ih =>
    have hrest : ∀ o ∈ opts, o ≠ .help ∧ o ≠ .other := fun o ho => hopts o (List.mem_cons_of_mem _ ho)
    cases o with
    | numUarts optarg =>
      rw [parseArgs_num]
      by_cases hacc : Accepted optarg
      · rw [if_pos hacc, ih hrest]
        simp only [List.mem_cons, Opt.numUarts.injEq, forall_eq_or_imp, hacc, true_and]
      · rw [if_neg hacc]
        constructor
        · rintro ⟨r, hr⟩
          cases hr
        · exact fun hall => absurd (hall optarg (List.mem_cons_self ..)) hacc
    | runDir dir =>
      have hstep : parseArgs numUarts runDir (.runDir dir :: opts) = parseArgs numUarts dir opts := rfl
      rw [hstep, ih hrest]
      simp
    | help => exact absurd rfl (hopts _ (List.mem_cons_self ..)).1
    | other => exact absurd rfl (hopts _ (List.mem_cons_self ..)).2

theorem parseArgs_last {numUarts num : ℤ} {runDir dir : Bytes} {opts : List Opt}
    (h : parseArgs numUarts runDir opts = .ok (num, dir)) :
    num = match lastNum opts with
      | some optarg => toInt (strtol optarg).1
      | none => numUarts := by
  induction opts generalizing numUarts runDir with
  | nil => exact (Prod.mk.inj (Except.ok.inj h)).1.symm
  | cons o opts ih =>
    cases o with
    | numUarts optarg =>
      rw [parseArgs_num] at h
      split at h
      · rw [ih h]
        cases hlast : lastNum opts with
        | none => simp [lastNum, hlast]
        | some other => simp [lastNum, hlast]
      · cases h
    | runDir dir => exact ih h
    | help => cases h
    | other => cases h

theorem lastNum_mem {opts : List Opt} {optarg : Bytes} (h : lastNum opts = some optarg) : .numUarts optarg ∈ opts := by
  induction opts with
  | nil => cases h
  | cons o opts ih =>
    cases o with
    | numUarts other =>
      rcases Option.or_eq_some_iff.mp h with hrest | ⟨-, hother⟩
      · exact List.mem_cons_of_mem _ (ih hrest)
      · rw [Option.some.inj hother]
        exact List.mem_cons_self ..
    | runDir dir => exact List.mem_cons_of_mem _ (ih h)
    | help => exact List.mem_cons_of_mem _ (ih h)
    | other => exact List.mem_cons_of_mem _ (ih h)

theorem parseArgs_bounds {numUarts num : ℤ} {runDir dir : Bytes} {opts : List Opt}
    (hn : 1 ≤ numUarts ∧ numUarts ≤ MAX_UARTS) (h : parseArgs numUarts runDir opts = .ok (num, dir)) :
    1 ≤ num ∧ num ≤ MAX_UARTS := by
  induction opts generalizing numUarts runDir with
  | nil =>
    rw [← (Prod.mk.inj (Except.ok.inj h)).1]
    exact hn
  | cons o opts ih =>
    cases o with
    | numUarts optarg =>
      rw [parseArgs_num] at h
      split at h
      · rename_i hacc
        simp only [Accepted, not_or, not_lt] at hacc
        exact ih hacc.2.2 h
      · cases h
    | runDir dir => exact ih hn h
    | help => cases h
    | other => cases h

def Documented (opts : List Opt) : Prop :=
  ((∃ r, parseArgs DEFAULT_UARTS DEFAULT_RUNDIR opts = .ok r) ↔ ∀ optarg, .numUarts optarg ∈ opts → InRange optarg) ∧
    ∀ num dir, parseArgs DEFAULT_UARTS DEFAULT_RUNDIR opts = .ok (num, dir) →
      ∀ optarg, lastNum opts = some optarg → Reads optarg num

theorem reads_num {optarg : Bytes} (h : InRange optarg) : Reads optarg (toInt (strtol optarg).1) := by
  obtain ⟨v, hv, hlo, hhi⟩ := h
  have hdef : MAX_UARTS = 8 := rfl
  have hval : toInt (strtol optarg).1 = v := by
    rw [(strtol_of_reads hv).1, saturate_eq, toInt, Int.bmod_def]
    split <;> omega
  rwa [hval]

theorem not_wraps_of_range {optarg : Bytes} (h : InRange optarg) : ¬Wraps optarg := by
  rintro ⟨w, hw, hmin, hmax, hout, -, -⟩
  obtain ⟨v, hv, hlo, hhi⟩ := h
  have hdef : MAX_UARTS = 8 := rfl
  have hsame := reads_unique hv hw
  rw [saturate_eq, saturate_eq] at hsame
  simp only [LONG_MIN, LONG_MAX] at hmin hmax
  omega

theorem parseArgs_exact {opts : List Opt} (hopts : ∀ o ∈ opts, o ≠ .help ∧ o ≠ .other) :
    Documented opts ↔ (∀ optarg, .numUarts optarg ∈ opts → ¬Wraps optarg) ∨
      ∃ optarg, .numUarts optarg ∈ opts ∧ ¬InRange optarg ∧ ¬Wraps optarg := by
  unfold Documented
  simp only [parseArgs_ok hopts, accepted_iff_range]
  constructor
  · rintro ⟨hiff, -⟩
    by_cases hall : ∀ optarg, .numUarts optarg ∈ opts → InRange optarg ∨ Wraps optarg
    · exact .inl fun optarg hmem => not_wraps_of_range (hiff.mp hall optarg hmem)
    · push Not at hall
      exact .inr hall
  · intro h
    have hrange : (∀ optarg, .numUarts optarg ∈ opts → InRange optarg ∨ Wraps optarg) →
        ∀ optarg, .numUarts optarg ∈ opts → InRange optarg := by
      intro hall
      rcases h with hno | ⟨optarg, hmem, hin, hwraps⟩
      · exact fun optarg hmem => (hall optarg hmem).resolve_right (hno optarg hmem)
      · exact absurd (hall optarg hmem) (not_or.mpr ⟨hin, hwraps⟩)
    refine ⟨⟨hrange, fun hin optarg hmem => .inl (hin optarg hmem)⟩, fun num dir hok optarg hlast => ?_⟩
    have hall : ∀ optarg, .numUarts optarg ∈ opts → InRange optarg ∨ Wraps optarg := fun optarg hmem =>
      accepted_iff_range.mp ((parseArgs_ok hopts _ _).mp ⟨_, hok⟩ optarg hmem)
    have hnum := parseArgs_last hok
    rw [hlast] at hnum
    rw [hnum]
    exact reads_num (hrange hall optarg (lastNum_mem hlast))

theorem parseArgs_exact_two_counts :
    Documented [.numUarts [56], .runDir [47, 116], .numUarts [48, 51]] := by
  refine (parseArgs_exact (by simp)).mpr (.inl ?_)
  intro optarg hmem
  have h : optarg = [56] ∨ optarg = [48, 51] := by simpa using hmem
  rcases h with rfl | rfl
  · have hread : Reads [56] 8 := ⟨[], [], [56], rfl, by simp, .inl rfl, by simp, List.all_eq_true.mp rfl, rfl⟩
    exact not_wraps_of_range ⟨8, hread, by decide, by decide⟩
  · have hread : Reads [48, 51] 3 := ⟨[], [], [48, 51], rfl, by simp, .inl rfl, by simp, List.all_eq_true.mp rfl, rfl⟩
    exact not_wraps_of_range ⟨3, hread, by decide, by decide⟩

-- "4294967297", which is 2 ^ 32 + 1
theorem wrapped_count_accepted :
    parseArgs DEFAULT_UARTS DEFAULT_RUNDIR [.numUarts [52, 50, 57, 52, 57, 54, 55, 50, 57, 55]] = .ok (1, DEFAULT_RUNDIR) ∧
      ¬Documented [.numUarts [52, 50, 57, 52, 57, 54, 55, 50, 57, 55]] := by
  have hok : parseArgs DEFAULT_UARTS DEFAULT_RUNDIR [.numUarts [52, 50, 57, 52, 57, 54, 55, 50, 57, 55]] =
      .ok (1, DEFAULT_RUNDIR) := by decide
  refine ⟨hok, ?_⟩
  rintro ⟨hiff, -⟩
  obtain ⟨v, hv, hlo, hhi⟩ := hiff.mp ⟨_, hok⟩ _ (List.mem_singleton.mpr rfl)
  have hread : Reads [52, 50, 57, 52, 57, 54, 55, 50, 57, 55] 4294967297 :=
    ⟨[], [], _, rfl, by simp, .inl rfl, by simp, List.all_eq_true.mp rfl, by decide⟩
  have hsame := reads_unique hv hread
  have hdef : MAX_UARTS = 8 := rfl
  rw [saturate_eq, saturate_eq] at hsame
  omega

end VirtRtLab.Daemon
