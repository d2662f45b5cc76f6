import Downhill.Proofs.Simplex.Answered
import Downhill.Descent
import Mathlib.Data.Nat.Find
import Mathlib.Order.Bounds.Defs

/-!
# The states of a descent

A descent is followed through the states it has after each number of iterations (`after`). A run
stops in one of them: the first in which the criterion holds or the limit is reached, but not before
the first iteration.

What is proved: a descent none of whose iterations fails runs to exactly that state
(`exists_isLeast_run`). On an objective that answers every call no iteration fails (`neverFails`),
and after each one the descent stands at the best vertex of the simplex that the machine on ranked
lists has reached (`standsAt_after`).
-/

namespace Downhill

namespace Descent

/-- The state of a descent after so many iterations, failed ones among them. -/
def after (f : Objective) (d : Descent) : Nat → Descent
  | 0 => d
  | k + 1 =>
    match iterate f (after f d k) with
    | .ok _ d' => d'
    | .error _ d' => d'

/-- No iteration fails. -/
def NeverFails (f : Objective) (d : Descent) : Prop :=
  ∀ k, iterate f (after f d k) = .ok () (after f d (k + 1))

theorem after_succ_of_ok {f : Objective} {d d' : Descent} {k : Nat}
    (h : iterate f (after f d k) = .ok () d') : after f d (k + 1) = d' := by
  rw [after, h]

/-! ### Where a run stops -/

section Run

variable {f : Objective} {d : Descent} {stop : Progress → Bool}

/-- A run that has an iteration to spare asks the criterion whether it is needed. -/
theorem runWithin_succ_of_ok {d' : Descent} (h : iterate f d = .ok () d') (more : Nat) :
    runWithin f stop (more + 1) d =
      if stop d'.progress = true then .ok () d' else runWithin f stop more d' :=
  bind_check_of_ok h fun d => stop d.progress

theorem run_eq (f : Objective) (stop : Progress → Bool) (limit : Nat) (d : Descent) :
    run f stop limit d = runWithin f stop (limit - d.iterations - 1) d := rfl

/-- Started after `j` iterations, a run goes on to the first state in which the criterion holds, or
to the last one it may reach. -/
theorem runWithin_after (h : d.NeverFails f) {more j K : Nat} (hj : j < K)
    (hK : K ≤ j + more + 1)
    (hbefore : ∀ i, j < i → i < K → stop (after f d i).progress = false)
    (hstop : K < j + more + 1 → stop (after f d K).progress = true) :
    runWithin f stop more (after f d j) = .ok () (after f d K) := by
  induction more generalizing j with
  | zero =>
    obtain rfl : K = j + 1 := by omega
    exact h j
  | succ more ih =>
    rw [runWithin_succ_of_ok (h j)]
    rcases Nat.lt_or_ge (j + 1) K with hlt | hge
    · rw [if_neg (by simp [hbefore (j + 1) (by omega) hlt])]
      exact ih hlt (by omega) (fun i hi => hbefore i (by omega)) fun hi => hstop (by omega)
    · obtain rfl : K = j + 1 := by omega
      rw [if_pos (hstop (by omega))]

/-- **A run stops at the first state that calls for it**: in which the criterion holds or the limit
is reached, but not before the first iteration. -/
theorem exists_isLeast_run (h : d.NeverFails f) (hd : d.iterations = 0)
    (stop : Progress → Bool) {limit : Nat} (hl : 0 < limit) :
    ∃ K, IsLeast {k | 1 ≤ k ∧ (stop (after f d k).progress = true ∨ limit ≤ k)} K ∧
      run f stop limit d = .ok () (after f d K) := by
  have hex : ∃ k, 1 ≤ k ∧ (stop (after f d k).progress = true ∨ limit ≤ k) :=
    ⟨limit, hl, .inr le_rfl⟩
  obtain ⟨hK, hcalls⟩ := Nat.find_spec hex
  have hbefore : ∀ i, 0 < i → i < Nat.find hex → stop (after f d i).progress = false := by
    intro i hi hlt
    rw [← Bool.not_eq_true]
    exact fun hs => Nat.find_min hex hlt ⟨hi, .inl hs⟩
  refine ⟨Nat.find hex, ⟨⟨hK, hcalls⟩, fun k hk => Nat.find_min' hex hk⟩, ?_⟩
  have hle : Nat.find hex ≤ limit := Nat.find_min' hex ⟨hl, .inr le_rfl⟩
  rw [run_eq, hd]
  exact runWithin_after h hK (by omega) hbefore fun hlt => hcalls.resolve_right (by omega)

end Run

/-! ### Descents that are answered -/

open Simplex

/-- The descent stands at the best vertex of a sound simplex. -/
structure StandsAt (value : Point → Float) (dim : Nat) (d : Descent) (σ : Simplex) : Prop where
  /-- The simplex of the search. -/
  simplex : d.search.simplex = some σ
  /-- It is sound. -/
  sound : σ.Sound value dim
  /-- The point is that of the best vertex. -/
  point : d.point = σ.best.point
  /-- The value is that of the best vertex. -/
  value : d.value = σ.best.value

variable {value : Point → Float} {dim : Nat} {d : Descent}

theorem StandsAt.spread {σ : Simplex} (h : d.StandsAt value dim σ) :
    d.spread = σ.worst.value - σ.best.value := by
  rw [Descent.spread, Search.spread, h.simplex]
  rfl

variable {f : Objective}

/-- The first iteration steps from the first simplex. -/
theorem iterate_of_fresh (h : f.Answers value) (hs : d.search.simplex = none)
    (hp : d.point.length = f.dim) :
    ∃ d', iterate f d = .ok () d' ∧
      d'.StandsAt value f.dim ((first value d.options d.point).step value d.options).simplex ∧
      d'.options = d.options ∧ d'.iterations = d.iterations + 1 := by
  have hσ : ((first value d.options d.point).step value d.options).simplex.Sound value f.dim :=
    Sound.step (hp ▸ sound_first d.point)
  obtain ⟨moves, history, hi⟩ :=
    iterate_of_ok (Search.iterate_of_answers_of_none (o := d.options) h hs hp)
  exact ⟨_, hi, ⟨rfl, hσ, rfl, rfl⟩, rfl, rfl⟩

/-- An iteration from a sound simplex steps from there. -/
theorem iterate_of_standsAt (h : f.Answers value) {σ : Simplex}
    (hst : d.StandsAt value f.dim σ) :
    ∃ d', iterate f d = .ok () d' ∧ d'.StandsAt value f.dim (σ.step value d.options).simplex ∧
      d'.options = d.options ∧ d'.iterations = d.iterations + 1 := by
  have hp : d.point.length = f.dim := hst.point ▸ hst.sound.length_best
  obtain ⟨moves, history, hi⟩ := iterate_of_ok
    (Search.iterate_of_answers_of_some (o := d.options) h hst.sound hst.simplex hp)
  exact ⟨_, hi, ⟨rfl, hst.sound.step, rfl, rfl⟩, rfl, rfl⟩

section Fresh

variable (h : f.Answers value) (hs : d.search.simplex = none) (hp : d.point.length = f.dim)
include h hs hp

/-- Every iteration ends well, in the next simplex of the trajectory, and is counted. -/
theorem iterate_after (k : Nat) :
    iterate f (after f d k) = .ok () (after f d (k + 1)) ∧
      (after f d (k + 1)).StandsAt value f.dim (trajectory value d.options d.point (k + 1)) ∧
      (after f d (k + 1)).options = d.options ∧
      (after f d (k + 1)).iterations = d.iterations + (k + 1) := by
  induction k with
  | zero =>
    obtain ⟨d', hi, hst, ho, hn⟩ := iterate_of_fresh h hs hp
    have hd' : after f d (0 + 1) = d' := after_succ_of_ok hi
    rw [hd']
    exact ⟨hi, hst, ho, hn⟩
  | succ k ih =>
    obtain ⟨-, hst, ho, hn⟩ := ih
    obtain ⟨d', hi, hst', ho', hn'⟩ := iterate_of_standsAt h hst
    rw [after_succ_of_ok hi]
    rw [ho] at hst' ho'
    exact ⟨hi, hst', ho', by rw [hn', hn, Nat.add_assoc]⟩

/-- **No iteration of a descent that is answered fails.** -/
theorem neverFails : d.NeverFails f := fun k => (iterate_after h hs hp k).1

/-- **After each iteration the descent stands at the simplex of the trajectory.** -/
theorem standsAt_after {k : Nat} (hk : 1 ≤ k) :
    (after f d k).StandsAt value f.dim (trajectory value d.options d.point k) := by
  obtain ⟨k, rfl⟩ := Nat.exists_eq_add_of_le' hk
  exact (iterate_after h hs hp k).2.1

/-- Every iteration is counted. -/
theorem iterations_after (k : Nat) : (after f d k).iterations = d.iterations + k := by
  cases k with
  | zero => rfl
  | succ k => exact (iterate_after h hs hp k).2.2.2

end Fresh

end Descent

end Downhill
