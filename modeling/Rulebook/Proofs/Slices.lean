import Rulebook.Text.Basic

/-!
# Cuts at byte offsets

A text can be cut after `n` bytes exactly if some front of it has that size
(`cutBytes?_eq_some_iff`), and then at one place only (`append_inj_of_byteSize`).
A slice is what stands between two such cuts (`slice?_eq_some_iff`).
-/

namespace Rulebook.Text

/-! ## Cuts -/

@[simp] theorem byteSize_nil : byteSize [] = 0 := rfl

@[simp] theorem byteSize_cons (c : Char) (s : Text) :
    byteSize (c :: s) = c.utf8Size + byteSize s := rfl

theorem byteSize_eq_zero_iff {s : Text} : byteSize s = 0 ↔ s = [] := by
  cases s with
  | nil => simp
  | cons c s =>
    have := c.utf8Size_pos
    simp only [byteSize_cons, List.cons_ne_nil, iff_false]
    omega

theorem cutBytes?_append : ∀ before after : Text,
    cutBytes? (byteSize before) (before ++ after) = some (before, after)
  | [], after => by simp [cutBytes?]
  | c :: before, after => by
    have hpos := c.utf8Size_pos
    obtain ⟨n, hn⟩ : ∃ n, byteSize (c :: before) = n + 1 :=
      Nat.exists_eq_succ_of_ne_zero (mt byteSize_eq_zero_iff.1 (List.cons_ne_nil c before))
    have hrest : n + 1 - c.utf8Size = byteSize before := by
      rw [← hn, byteSize_cons]
      omega
    have hle : c.utf8Size ≤ n + 1 := by
      rw [← hn, byteSize_cons]
      omega
    rw [hn, List.cons_append, cutBytes?, if_pos hle, hrest, cutBytes?_append before after]
    rfl

/-- A text can be cut only between two characters. -/
theorem cutBytes?_eq_some_iff {n : Nat} {s before after : Text} :
    cutBytes? n s = some (before, after) ↔ s = before ++ after ∧ byteSize before = n := by
  refine ⟨?_, ?_⟩
  · exact append_of_cutBytes?
  · rintro ⟨rfl, rfl⟩
    exact cutBytes?_append before after

/-- Two fronts of a text that have the same size are the same. -/
theorem append_inj_of_byteSize {before after before' after' : Text}
    (h : before ++ after = before' ++ after') (hsize : byteSize before = byteSize before') :
    before = before' ∧ after = after' := by
  have hcut := cutBytes?_append before after
  rw [h, hsize, cutBytes?_append] at hcut
  simpa [eq_comm] using hcut

/-! ## Slices -/

/-- A number of bytes after which the text can be cut. -/
def IsBoundary (s : Text) (n : Nat) : Prop :=
  ∃ before after, s = before ++ after ∧ byteSize before = n

/-- A slice is there only if it starts and ends between two characters. -/
theorem slice?_eq_some_iff {s piece : Text} {start stop : Nat} :
    slice? s start stop = some piece ↔
      ∃ before after, s = before ++ (piece ++ after) ∧ byteSize before = start ∧
        start + byteSize piece = stop := by
  refine ⟨fun h => ?_, ?_⟩
  · simp only [slice?, Option.bind_eq_bind, Option.bind_eq_some_iff, Prod.exists] at h
    obtain ⟨before, rest, hcut, h⟩ := h
    obtain ⟨rfl, rfl⟩ := cutBytes?_eq_some_iff.1 hcut
    split at h
    · next hle =>
      simp only [Option.bind_eq_some_iff, Prod.exists] at h
      obtain ⟨middle, after, hcut', heq⟩ := h
      obtain rfl : middle = piece := by simpa using heq
      obtain ⟨rfl, hsize⟩ := cutBytes?_eq_some_iff.1 hcut'
      exact ⟨before, after, rfl, rfl, by omega⟩
    · simp at h
  · rintro ⟨before, after, rfl, rfl, rfl⟩
    have hsize : byteSize before + byteSize piece - byteSize before = byteSize piece := by omega
    simp [slice?, cutBytes?_append, hsize]

/-- A slice ends where the text can be cut. -/
theorem isBoundary_of_slice? {s piece : Text} {start stop : Nat}
    (h : slice? s start stop = some piece) : IsBoundary s stop := by
  obtain ⟨before, after, rfl, rfl, rfl⟩ := slice?_eq_some_iff.1 h
  exact ⟨before ++ piece, after, by simp, by simp⟩

end Rulebook.Text
