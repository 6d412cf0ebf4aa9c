import Mathlib.Data.List.Basic
import Rulebook.Text.Lowercase

/-!
# Lower case is final

Each character that a text in lower case can hold stays as it is when it is put in lower case once
more (`Text.settled_of_mem_lowerChar`, read off the table of runs), and none of them is a capital
sigma, so where a character stands does not matter any longer (`Text.lower_lower`). On ASCII it is
the case of letters that changes (`Text.lower_eq_map_toLower`).
-/

namespace Rulebook.Text

/-! ## Runs of characters that change -/

/-- The entries of the table : first and last code point, step, and what is added. -/
abbrev CaseRun := Nat × Nat × Nat × Int

/-- Whether the run holds a code point. -/
def inRun (n : Nat) (run : CaseRun) : Bool :=
  run.1 ≤ n && n ≤ run.2.1 && (n - run.1) % run.2.2.1 == 0

/-- What a code point of the run changes to. -/
def image (n : Nat) (run : CaseRun) : Nat := (Int.ofNat n + run.2.2.2).toNat

/-- A run holds none of the code points from `low` to `high` that are steps apart : all lie before
it or after it, or only every other code point counts on both sides. -/
def apart (low high step : Nat) (other : CaseRun) : Bool :=
  Nat.blt high other.1 || Nat.blt other.2.1 low ||
    Nat.beq other.2.2.1 2 && Nat.beq ((low + other.1) % 2) 1 &&
      (Nat.beq step 2 || Nat.beq low high)

/-- What is in one of two runs that are apart is not in the other. -/
theorem inRun_of_apart {low high step n : Nat} {other : CaseRun}
    (h : apart low high step other = true) (hlow : low ≤ n) (hhigh : n ≤ high)
    (hstep : (n - low) % step = 0) : inRun n other = false := by
  obtain ⟨first, last, width, offset⟩ := other
  simp only [apart, Bool.or_eq_true, Bool.and_eq_true, Nat.blt_eq, Nat.beq_eq] at h
  simp only [inRun, Bool.and_eq_false_iff, decide_eq_false_iff_not, beq_eq_false_iff_ne]
  rcases h with (h | h) | ⟨⟨rfl, hparity⟩, rfl | rfl⟩ <;> omega

/-- The runs of the table and the character that becomes two, which is in none of them. -/
def changing : List CaseRun := (0x130, 0x130, 1, 0) :: lowercaseRuns

/-- The images of all runs are characters. -/
theorem valid_images : ∀ run ∈ lowercaseRuns, run.1 ≤ run.2.1 ∧ 0 ≤ Int.ofNat run.1 + run.2.2.2 ∧
    (image run.2.1 run < 0xD800 ∨ 0xDFFF < image run.1 run ∧ image run.2.1 run < 0x110000) := by
  decide +kernel

/-- What the characters of a run change to is in no run. -/
theorem apart_images : ∀ run ∈ lowercaseRuns,
    changing.all (apart (image run.1 run) (image run.2.1 run) run.2.2.1) = true := by
  decide +kernel

/-- A character changes to one that does not change. -/
theorem unchanged_image {n : Nat} {run : CaseRun} (hrun : run ∈ lowercaseRuns)
    (h : inRun n run = true) :
    (image n run).isValidChar ∧ ∀ other ∈ changing, inRun (image n run) other = false := by
  obtain ⟨-, hpositive, hvalid⟩ := valid_images run hrun
  have hapart := List.all_eq_true.1 (apart_images run hrun)
  obtain ⟨first, last, step, offset⟩ := run
  simp only [inRun, Bool.and_eq_true, decide_eq_true_eq, beq_iff_eq] at h
  obtain ⟨⟨hfirst, hlast⟩, hstep⟩ := h
  simp only [image, Int.ofNat_eq_natCast] at hpositive hvalid hapart ⊢
  have hdistance : (n + offset).toNat - (first + offset).toNat = n - first := by omega
  refine ⟨?_, fun other hother => inRun_of_apart (hapart other hother) ?_ ?_ ?_⟩
  · simp only [Nat.isValidChar]
    omega
  · omega
  · omega
  · rw [hdistance, hstep]

/-! ## Characters -/

/-- Lower case has no effect on this character, wherever it stands. -/
structure Settled (c : Char) : Prop where
  lowerChar_eq : lowerChar c = [c]
  ne_sigma : c ≠ '\u03A3'

/-- A character is lowered by the one run that it is in, if there is one. -/
theorem lowerChar_eq (c : Char) : lowerChar c =
    if c = '\u0130' then ['i', '\u0307']
    else (lowercaseRuns.find? (inRun c.toNat)).elim [c] fun run =>
      [.ofNat (image c.toNat run)] := by
  unfold lowerChar
  split
  · rfl
  · dsimp only
    split
    · next first last step offset hfind =>
      have hrun : lowercaseRuns.find? (inRun c.toNat) = some (first, last, step, offset) := hfind
      rw [hrun, Option.elim_some, image]
    · next hfind =>
      have hrun : lowercaseRuns.find? (inRun c.toNat) = none := hfind
      rw [hrun, Option.elim_none]

theorem settled_of_forall_inRun {c : Char} (h : ∀ run ∈ changing, inRun c.toNat run = false) :
    Settled c := by
  obtain ⟨hdot, hruns⟩ := List.forall_mem_cons.1 h
  have hnone : lowercaseRuns.find? (inRun c.toNat) = none :=
    List.find?_eq_none.2 fun run hrun => by simp [hruns run hrun]
  refine ⟨?_, ?_⟩
  · have hne : c ≠ '\u0130' := by
      rintro rfl
      exact absurd hdot (by decide)
    rw [lowerChar_eq, if_neg hne, hnone, Option.elim_none]
  · rintro rfl
    exact absurd (hruns (0x3A3, 0x3AB, 1, 0x20) (by decide +kernel)) (by decide)

/-- A character in lower case does not change any more. -/
theorem settled_of_mem_lowerChar {c d : Char} (h : d ∈ lowerChar c) (hc : c ≠ '\u03A3') :
    Settled d := by
  rw [lowerChar_eq] at h
  split at h
  · have hletter : ∀ run ∈ changing, inRun 'i'.toNat run = false := by decide +kernel
    have hdot : ∀ run ∈ changing, inRun '\u0307'.toNat run = false := by decide +kernel
    rcases List.mem_pair.1 h with rfl | rfl
    · exact settled_of_forall_inRun hletter
    · exact settled_of_forall_inRun hdot
  · next hdot =>
    cases hfind : lowercaseRuns.find? (inRun c.toNat) with
    | none =>
      rw [hfind, Option.elim_none] at h
      obtain rfl := List.mem_singleton.1 h
      exact ⟨by rw [lowerChar_eq, if_neg hdot, hfind, Option.elim_none], hc⟩
    | some run =>
      rw [hfind, Option.elim_some] at h
      obtain rfl := List.mem_singleton.1 h
      obtain ⟨hvalid, hunchanged⟩ :=
        unchanged_image (List.mem_of_find?_eq_some hfind) (List.find?_some hfind)
      refine settled_of_forall_inRun ?_
      rwa [Char.ofNat, dif_pos hvalid]

/-! ## Texts -/

theorem lowerAfter_of_settled {s : Text} (h : ∀ c ∈ s, Settled c) (before : Text) :
    lowerAfter before s = s := by
  induction s generalizing before with
  | nil => rfl
  | cons c s ih =>
    obtain ⟨hc, hs⟩ := List.forall_mem_cons.1 h
    rw [lowerAfter, if_neg hc.ne_sigma, hc.lowerChar_eq, ih hs]
    rfl

/-- All that comes out of lowering stays as it is. -/
theorem settled_of_mem_lowerAfter {before s : Text} {d : Char} (h : d ∈ lowerAfter before s) :
    Settled d := by
  induction s generalizing before with
  | nil => simp [lowerAfter] at h
  | cons c s ih =>
    rw [lowerAfter] at h
    rcases List.mem_append.1 h with h | h
    · split at h
      · have hfinal : ∀ run ∈ changing, inRun '\u03C2'.toNat run = false := by decide +kernel
        have hsmall : ∀ run ∈ changing, inRun '\u03C3'.toNat run = false := by decide +kernel
        split at h
        · obtain rfl := List.mem_singleton.1 h
          exact settled_of_forall_inRun hfinal
        · obtain rfl := List.mem_singleton.1 h
          exact settled_of_forall_inRun hsmall
      · next hc => exact settled_of_mem_lowerChar h hc
    · exact ih h

/-- A text in lower case stays as it is. -/
@[simp] theorem lower_lower (s : Text) : lower (lower s) = lower s :=
  lowerAfter_of_settled (fun _ => settled_of_mem_lowerAfter) []

/-! ## ASCII -/

/-- What holds of the first 128 code points one by one holds of ASCII. -/
theorem of_ascii {P : Char → Prop} {c : Char} (hc : c.toNat < 128)
    (h : ∀ n < 128, P (.ofNat n)) : P c := by
  simpa using h c.toNat hc

theorem toLower_of_not_ascii {c : Char} (h : ¬c.toNat < 128) : c.toLower = c :=
  dif_neg fun hupper =>
    h (Nat.lt_of_le_of_lt (UInt32.le_iff_toNat_le.1 hupper.2) (by decide))

/-- Of the runs only the first one, the capital letters, is in ASCII. -/
theorem lowerChar_of_ascii {c : Char} (h : c.toNat < 128) : lowerChar c = [c.toLower] := by
  obtain ⟨hcapital, hother⟩ := of_ascii (P := fun c =>
    (inRun c.toNat (0x41, 0x5A, 1, 0x20) = true →
      Char.ofNat (image c.toNat (0x41, 0x5A, 1, 0x20)) = c.toLower) ∧
    (inRun c.toNat (0x41, 0x5A, 1, 0x20) = false → c = c.toLower)) h (by decide +kernel)
  have htail : ∀ run ∈ lowercaseRuns.tail, 128 ≤ run.1 := by decide +kernel
  have hruns : lowercaseRuns = (0x41, 0x5A, 1, 0x20) :: lowercaseRuns.tail := rfl
  have hne : c ≠ '\u0130' := by
    rintro rfl
    exact absurd h (by decide)
  rw [lowerChar_eq, if_neg hne, hruns, List.find?_cons]
  cases hrun : inRun c.toNat (0x41, 0x5A, 1, 0x20) with
  | true => simpa using hcapital hrun
  | false =>
    have hnone : lowercaseRuns.tail.find? (inRun c.toNat) = none := by
      refine List.find?_eq_none.2 fun run hmem => ?_
      have hfirst := htail run hmem
      simp only [inRun, Bool.and_eq_true, decide_eq_true_eq]
      omega
    rw [hnone]
    simpa using hother hrun

/-- A text of the first 128 characters is lowered letter by letter. -/
theorem lower_eq_map_toLower {s : Text} (h : ∀ c ∈ s, c.toNat < 128) :
    lower s = s.map Char.toLower := by
  have hafter : ∀ before, lowerAfter before s = s.map Char.toLower := by
    induction s with
    | nil => exact fun _ => rfl
    | cons c s ih =>
      intro before
      obtain ⟨hc, hs⟩ := List.forall_mem_cons.1 h
      have hsigma : c ≠ '\u03A3' := by
        rintro rfl
        exact absurd hc (by decide)
      rw [lowerAfter, if_neg hsigma, lowerChar_of_ascii hc, ih hs]
      rfl
  exact hafter []

end Rulebook.Text
