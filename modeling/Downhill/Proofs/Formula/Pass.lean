import Mathlib.Data.List.Induction

/-!
# Passes that may stop

A pass goes through a list from the left with a state, by `List.foldlM` over a step that may fail. It
stops at the first entry that the step refuses, and the entries before that one have all been gone
through. What each step keeps is kept of the entries gone through so far (`foldlM_induction`).
-/

namespace Downhill

/-- What is made of a result succeeds when the result does. -/
theorem map_eq_ok_iff {ε α β : Type} {x : Except ε α} {f : α → β} {b : β} :
    x.map f = .ok b ↔ ∃ a, x = .ok a ∧ f a = b := by
  cases x <;> simp [Except.map]

section Pass

variable {σ α ε : Type} {step : σ → α → Except ε σ} {s out : σ} {e : ε} {as bs : List α}

theorem foldlM_append_of_ok (h : as.foldlM step s = .ok out) (bs : List α) :
    (as ++ bs).foldlM step s = bs.foldlM step out := by
  rw [List.foldlM_append, h]
  rfl

theorem foldlM_append_of_error (h : as.foldlM step s = .error e) (bs : List α) :
    (as ++ bs).foldlM step s = .error e := by
  rw [List.foldlM_append, h]
  rfl

/-- One more entry is one more step. -/
theorem foldlM_concat_of_ok (h : as.foldlM step s = .ok out) (a : α) :
    (as ++ [a]).foldlM step s = step out a := by
  rw [foldlM_append_of_ok h]
  simp

/-- The beginning of a list that is gone through is gone through. -/
theorem exists_foldlM_of_append (h : (as ++ bs).foldlM step s = .ok out) :
    ∃ mid, as.foldlM step s = .ok mid := by
  cases has : as.foldlM step s with
  | ok mid => exact ⟨mid, rfl⟩
  | error e => simp [foldlM_append_of_error has] at h

/-- What holds of the empty list and the first state, and is kept by every step, holds of what has
been gone through and the state behind it. -/
theorem foldlM_induction {P : List α → σ → Prop} (start : P [] s)
    (next : ∀ as a mid out, P as mid → step mid a = .ok out → P (as ++ [a]) out)
    (h : as.foldlM step s = .ok out) : P as out := by
  induction as using List.reverseRecOn generalizing out with
  | nil =>
    cases h
    exact start
  | append_singleton as a ih =>
    obtain ⟨mid, hmid⟩ := exists_foldlM_of_append h
    rw [foldlM_concat_of_ok hmid] at h
    exact next as a mid out (ih hmid) h

/-- **A pass stops at the first entry that is refused**, behind others that are not. -/
theorem foldlM_eq_error_iff :
    as.foldlM step s = .error e ↔
      ∃ before a after mid, as = before ++ a :: after ∧ before.foldlM step s = .ok mid ∧
        step mid a = .error e := by
  constructor
  · intro h
    induction as using List.reverseRecOn with
    | nil => cases h
    | append_singleton as a ih =>
      cases has : as.foldlM step s with
      | error first =>
        obtain rfl : first = e := Except.error.inj ((foldlM_append_of_error has [a]).symm.trans h)
        obtain ⟨before, b, after, mid, rfl, hmid, hb⟩ := ih has
        exact ⟨before, b, after ++ [a], mid, by simp, hmid, hb⟩
      | ok mid =>
        rw [foldlM_concat_of_ok has] at h
        exact ⟨as, a, [], mid, rfl, has, h⟩
  · rintro ⟨before, a, after, mid, rfl, hmid, ha⟩
    have hbefore : (before ++ [a]).foldlM step s = .error e := by rw [foldlM_concat_of_ok hmid, ha]
    simpa using foldlM_append_of_error hbefore after

end Pass

end Downhill
