import Downhill.Proofs.Descent.Trajectory
import Downhill.Trial

/-!
# Trials and descents

A trial and a descent whose criterion is the goal are two loops around the same iteration. They ask
for the goal at the same places, and differ in how they count: a descent asks for its limit after an
iteration, a trial before the next one, and lets that one still happen.

What is proved: a trial ends as the descent with one iteration more, whatever the objective answers
(`reach_eq_verdict`). So it ends as the descent with the same limit where that one comes to the goal,
and otherwise makes one iteration beyond the limit, which may come to the goal yet
(`run_takes_one_iteration_more`).
-/

namespace Downhill

namespace Descent

variable {f : Objective} {stop : Progress → Bool} {d : Descent}

/-- A descent makes an iteration of its search its own. -/
theorem exists_iterate_of_ok {reached : Reached} {s : Search}
    (h : Search.iterate f d.options d.point d.search = .ok reached s) :
    ∃ d', iterate f d = .ok () d' ∧ d'.options = d.options ∧ d'.search = s ∧
      d'.point = reached.best.point ∧ d'.value = reached.best.value ∧
      d'.iterations = d.iterations + 1 := by
  obtain ⟨moves, history, hd⟩ := iterate_of_ok h
  exact ⟨_, hd, rfl, rfl, rfl, rfl, rfl⟩

/-- One iteration more in reserve is made only if the criterion does not hold without it. -/
theorem runWithin_succ_eq {more : Nat} {d d' : Descent}
    (h : runWithin f stop more d = .ok () d') :
    runWithin f stop (more + 1) d = if stop d'.progress = true then .ok () d' else iterate f d' := by
  induction more generalizing d with
  | zero => exact runWithin_succ_of_ok h 0
  | succ more ih =>
    cases hi : Search.iterate f d.options d.point d.search with
    | ok reached s =>
      obtain ⟨d'', hd, -⟩ := exists_iterate_of_ok hi
      rw [runWithin_succ_of_ok hd] at h ⊢
      by_cases hstop : stop d''.progress = true
      · rw [if_pos hstop] at h
        obtain rfl : d'' = d' := (EStateM.Result.ok.inj h).2
        rw [if_pos hstop, if_pos hstop]
      · rw [if_neg hstop] at h
        rw [if_neg hstop]
        exact ih h
    | error why s =>
      rw [runWithin, bind_of_error (iterate_of_error hi)] at h
      cases h

end Descent

namespace Trial

/-- The criterion of a descent that is to come to a goal. -/
def reaches (goal : Float) (p : Progress) : Bool := p.value ≤ goal

/-- What a trial makes of the way a descent has ended. -/
def verdict (goal : Float) :
    EStateM.Result Failure Descent Unit → EStateM.Result Failed Search Point
  | .ok () d => if d.value ≤ goal then .ok d.point d.search else .error .unfinished d.search
  | .error why d => .error (.search why) d.search

/-- How many iterations a trial completes. -/
def iterations (f : Objective) (o : Options) (goal : Float) : (more : Nat) → Point → Search → Nat
  | more, x => fun s =>
    match Search.iterate f o x s with
    | .error _ _ => 0
    | .ok reached s =>
      if reached.best.value ≤ goal then 1
      else match more with
        | 0 => 1
        | more + 1 => iterations f o goal more reached.best.point s + 1

variable {f : Objective} {o : Options} {x : Point} {goal : Float} {d : Descent}

/-! ### One iteration -/

section Step

variable {s s' : Search} {reached : Reached} {why : Failure}

theorem reach_of_error (h : Search.iterate f o x s = .error why s') (more : Nat) :
    reach f o goal more x s = .error (.search why) s' := by
  unfold reach
  simp only [h]

theorem reach_zero_of_ok (h : Search.iterate f o x s = .ok reached s') :
    reach f o goal 0 x s =
      if reached.best.value ≤ goal then .ok reached.best.point s' else .error .unfinished s' := by
  unfold reach
  simp only [h]

theorem reach_succ_of_ok (h : Search.iterate f o x s = .ok reached s') (more : Nat) :
    reach f o goal (more + 1) x s =
      if reached.best.value ≤ goal then .ok reached.best.point s'
      else reach f o goal more reached.best.point s' := by
  conv_lhs => unfold reach
  simp only [h]

theorem iterations_zero_of_ok (h : Search.iterate f o x s = .ok reached s') :
    iterations f o goal 0 x s = 1 := by
  unfold iterations
  simp only [h, ite_self]

theorem iterations_succ_of_ok (h : Search.iterate f o x s = .ok reached s') (more : Nat) :
    iterations f o goal (more + 1) x s =
      if reached.best.value ≤ goal then 1 else iterations f o goal more reached.best.point s' + 1 := by
  conv_lhs => unfold iterations
  simp only [h]

end Step

/-! ### The two loops -/

theorem reaches_progress {d : Descent} : reaches goal d.progress = true ↔ d.value ≤ goal :=
  decide_eq_true_iff

/-- **A trial ends as a descent does** that may be followed by as many iterations: in the same point,
with the same search, and with the failure of an iteration if one has failed. -/
theorem reach_eq_verdict (more : Nat) (d : Descent) :
    reach f d.options goal more d.point d.search =
      verdict goal (Descent.runWithin f (reaches goal) more d) := by
  induction more generalizing d with
  | zero =>
    cases hi : Search.iterate f d.options d.point d.search with
    | ok reached s =>
      obtain ⟨d', hd, -, rfl, hp, hv, -⟩ := Descent.exists_iterate_of_ok hi
      rw [reach_zero_of_ok hi, Descent.runWithin, hd, ← hp, ← hv]
      rfl
    | error why s =>
      rw [reach_of_error hi, Descent.runWithin, Descent.iterate_of_error hi]
      rfl
  | succ more ih =>
    cases hi : Search.iterate f d.options d.point d.search with
    | ok reached s =>
      obtain ⟨d', hd, ho, rfl, hp, hv, -⟩ := Descent.exists_iterate_of_ok hi
      rw [reach_succ_of_ok hi, Descent.runWithin_succ_of_ok hd, ← hp, ← hv, ← ho]
      by_cases hgoal : d'.value ≤ goal
      · rw [if_pos hgoal, if_pos (reaches_progress.mpr hgoal)]
        exact (if_pos hgoal).symm
      · rw [if_neg hgoal, if_neg (mt reaches_progress.mp hgoal)]
        exact ih d'
    | error why s =>
      rw [reach_of_error hi, Descent.runWithin, bind_of_error (Descent.iterate_of_error hi)]
      rfl

/-- A trial completes as many iterations as a descent that ends well. -/
theorem iterations_eq {more : Nat} {d d' : Descent}
    (h : Descent.runWithin f (reaches goal) more d = .ok () d') :
    d'.iterations = d.iterations + iterations f d.options goal more d.point d.search := by
  induction more generalizing d with
  | zero =>
    cases hi : Search.iterate f d.options d.point d.search with
    | ok reached s =>
      obtain ⟨d'', hd, -, -, -, -, hn⟩ := Descent.exists_iterate_of_ok hi
      obtain rfl : d'' = d' := (EStateM.Result.ok.inj (hd.symm.trans h)).2
      rw [iterations_zero_of_ok hi, hn]
    | error why s =>
      rw [Descent.runWithin, Descent.iterate_of_error hi] at h
      cases h
  | succ more ih =>
    cases hi : Search.iterate f d.options d.point d.search with
    | ok reached s =>
      obtain ⟨d'', hd, ho, rfl, hp, hv, hn⟩ := Descent.exists_iterate_of_ok hi
      rw [Descent.runWithin_succ_of_ok hd] at h
      rw [iterations_succ_of_ok hi, ← hp, ← hv, ← ho]
      by_cases hgoal : d''.value ≤ goal
      · rw [if_pos (reaches_progress.mpr hgoal)] at h
        obtain rfl : d'' = d' := (EStateM.Result.ok.inj h).2
        rw [if_pos hgoal, hn]
      · rw [if_neg (mt reaches_progress.mp hgoal)] at h
        rw [if_neg hgoal, ih h, hn]
        omega
    | error why s =>
      rw [Descent.runWithin, bind_of_error (Descent.iterate_of_error hi)] at h
      cases h

/-! ### The limit -/

/-- **A trial takes one iteration more than its limit.** Let an objective answer. The trial with a
limit and the descent with that limit begin alike, and the descent ends in `e`. If it has come to the
goal there, the trial has ended in the same state. If not, the descent has used up its limit, and the
trial makes one iteration more: it is the descent with a limit of one more, which ends in `d`. It
yields the point of `d` if that one has come to the goal, and otherwise has not finished, and in
either case has asked and noted what that descent has, in as many iterations. -/
theorem run_takes_one_iteration_more {value : Point → Float} (h : f.Answers value) (o : Options)
    (hx : x.length = f.dim) (least tolerance : Float) {limit : Nat} (hl : 1 ≤ limit) :
    ∃ d₀ e d, Descent.start f o (some x) = .ok d₀ ∧
      Descent.run f (reaches (least + tolerance)) limit d₀ = .ok () e ∧
      Descent.run f (reaches (least + tolerance)) (limit + 1) d₀ = .ok () d ∧
      (e.value ≤ least + tolerance → d = e) ∧
      (¬ e.value ≤ least + tolerance → e.iterations = limit ∧ d.iterations = limit + 1 ∧
        Descent.iterate f e = .ok () d) ∧
      (run f o x least tolerance limit).run {} =
        (if d.value ≤ least + tolerance then .ok d.point d.search
        else .error .unfinished d.search) ∧
      iterations f (o.inEffect f.dim) (least + tolerance) limit x {} = d.iterations ∧
      d.iterations ≤ limit + 1 := by
  let d₀ : Descent := { options := o.inEffect f.dim, point := x }
  have hstart : Descent.start f o (some x) = .ok d₀ := if_pos hx
  have hnever : d₀.NeverFails f := Descent.neverFails h rfl hx
  have hcount (k : Nat) : (Descent.after f d₀ k).iterations = k :=
    (Descent.iterations_after h rfl hx k).trans (Nat.zero_add k)
  obtain ⟨K, hK, hrun⟩ :=
    Descent.exists_isLeast_run hnever rfl (reaches (least + tolerance)) hl
  have hle : K ≤ limit := hK.2 ⟨hl, .inr le_rfl⟩
  obtain ⟨more, rfl⟩ := Nat.exists_eq_add_of_le' hl
  -- where the descent with one iteration more in reserve ends
  obtain ⟨J, hmore, hmet, hmissed⟩ : ∃ J,
      Descent.run f (reaches (least + tolerance)) (more + 1 + 1) d₀ =
        .ok () (Descent.after f d₀ J) ∧
      ((Descent.after f d₀ K).value ≤ least + tolerance → J = K) ∧
      (¬ (Descent.after f d₀ K).value ≤ least + tolerance → J = K + 1 ∧ K = more + 1) := by
    have hsucc := Descent.runWithin_succ_eq hrun
    by_cases hgoal : (Descent.after f d₀ K).value ≤ least + tolerance
    · rw [if_pos (reaches_progress.mpr hgoal)] at hsucc
      exact ⟨K, hsucc, fun _ => rfl, fun hnot => absurd hgoal hnot⟩
    · rw [if_neg (mt reaches_progress.mp hgoal), hnever K] at hsucc
      refine ⟨K + 1, hsucc, fun hyes => absurd hyes hgoal, fun _ => ⟨rfl, ?_⟩⟩
      obtain ⟨-, hstop | hlimit⟩ := hK.1
      · exact absurd (reaches_progress.mp hstop) hgoal
      · omega
  have htrial : reach f d₀.options (least + tolerance) (more + 1) d₀.point d₀.search = _ :=
    reach_eq_verdict (more + 1) d₀
  rw [show Descent.runWithin f (reaches (least + tolerance)) (more + 1) d₀ = _ from hmore] at htrial
  have hiterations : _ = d₀.iterations +
      iterations f d₀.options (least + tolerance) (more + 1) d₀.point d₀.search :=
    iterations_eq hmore
  refine ⟨d₀, _, _, hstart, hrun, hmore, fun hgoal => ?_, fun hgoal => ?_, htrial, ?_, ?_⟩
  · rw [hmet hgoal]
  · obtain ⟨rfl, rfl⟩ := hmissed hgoal
    exact ⟨hcount _, hcount _, hnever _⟩
  · rw [hiterations]
    exact (Nat.zero_add _).symm
  · rw [hcount]
    by_cases hgoal : (Descent.after f d₀ K).value ≤ least + tolerance
    · rw [hmet hgoal]
      omega
    · have := (hmissed hgoal).1
      omega

/-! ### A goal met one iteration late -/

/-- A line that falls towards the left. -/
def line (p : Point) : Float := p.headD 0

/-- The line as an objective. -/
def lineObjective : Objective := .ofFunction 1 fun p => .ok (line p)

theorem answers_line : lineObjective.Answers line := fun _ _ hp => if_pos hp

/-- From one and two on, the two moves along the line are expansions. -/
theorem trajectory_line :
    Simplex.trajectory line (Options.inEffect { relativeStep := 1 } 1) [1] 1 =
        ⟨⟨[-1], -1⟩, [⟨[1], 1⟩]⟩ ∧
      Simplex.trajectory line (Options.inEffect { relativeStep := 1 } 1) [1] 2 =
        ⟨⟨[-5], -5⟩, [⟨[-1], -1⟩]⟩ := by
  let o : Options := Options.inEffect { relativeStep := 1 } 1
  have hfirst : Simplex.first line o [1] = ⟨⟨[1], 1⟩, [⟨[2], 2⟩]⟩ := by
    have hv : Simplex.vertexAt line [1] = ⟨[1], 1⟩ := by decide +kernel
    have hvs : (Search.neighbours o [1]).map (Simplex.vertexAt line) = [⟨[2], 2⟩] := by
      decide +kernel
    rw [Simplex.first, hv, hvs]
    exact Simplex.ranked_of_pairwise (by decide +kernel)
  have hone : Simplex.trajectory line o [1] 1 = ⟨⟨[-1], -1⟩, [⟨[1], 1⟩]⟩ := by
    have hturn : (Simplex.turn line o ⟨[1], 1⟩ [] ⟨[2], 2⟩).others = [⟨[-1], -1⟩] := by
      decide +kernel
    rw [Simplex.trajectory, Simplex.trajectory, hfirst]
    change Simplex.ranked ⟨[1], 1⟩ (Simplex.turn line o ⟨[1], 1⟩ [] ⟨[2], 2⟩).others = _
    rw [hturn]
    exact Simplex.ranked_pair_of_not_noWorse (by decide +kernel)
  refine ⟨hone, ?_⟩
  have hturn : (Simplex.turn line o ⟨[-1], -1⟩ [] ⟨[1], 1⟩).others = [⟨[-5], -5⟩] := by
    decide +kernel
  rw [Simplex.trajectory, show Simplex.trajectory line _ [1] 1 = _ from hone]
  change Simplex.ranked ⟨[-1], -1⟩ (Simplex.turn line o ⟨[-1], -1⟩ [] ⟨[1], 1⟩).others = _
  rw [hturn]
  exact Simplex.ranked_pair_of_not_noWorse (by decide +kernel)

/-- The descent along the line from one on. -/
def lineDescent : Descent := { options := Options.inEffect { relativeStep := 1 } 1, point := [1] }

theorem neverFails_line : lineDescent.NeverFails lineObjective :=
  Descent.neverFails answers_line rfl rfl

theorem standsAt_line {k : Nat} (hk : 1 ≤ k) :
    (Descent.after lineObjective lineDescent k).StandsAt line 1
      (Simplex.trajectory line (Options.inEffect { relativeStep := 1 } 1) [1] k) :=
  Descent.standsAt_after answers_line rfl rfl hk

/-- With a limit of one the descent misses minus three. -/
theorem run_line_one :
    Descent.run lineObjective (reaches (-3 + 0)) 1 lineDescent =
        .ok () (Descent.after lineObjective lineDescent 1) ∧
      (Descent.after lineObjective lineDescent 1).value = -1 := by
  refine ⟨neverFails_line 0, ?_⟩
  rw [(standsAt_line le_rfl).value, trajectory_line.1]

/-- With a limit of two it comes to minus five. -/
theorem run_line_two :
    Descent.run lineObjective (reaches (-3 + 0)) 2 lineDescent =
        .ok () (Descent.after lineObjective lineDescent 2) ∧
      (Descent.after lineObjective lineDescent 2).value = -5 ∧
      (Descent.after lineObjective lineDescent 2).point = [-5] := by
  obtain ⟨hrun, hvalue⟩ := run_line_one
  have hmissed : ¬ reaches (-3 + 0) (Descent.after lineObjective lineDescent 1).progress = true := by
    rw [reaches_progress, hvalue]
    decide +kernel
  refine ⟨?_, ?_, ?_⟩
  · have hsucc := Descent.runWithin_succ_eq hrun
    rw [if_neg hmissed, neverFails_line 1] at hsucc
    exact hsucc
  · rw [(standsAt_line (Nat.le_succ 1)).value, trajectory_line.2]
  · rw [(standsAt_line (Nat.le_succ 1)).point, trajectory_line.2]

/-- The trial with a limit of one comes to minus five in its second iteration. -/
theorem run_takes_one_iteration_more_line :
    ∃ e s, Descent.run lineObjective (reaches (-3 + 0)) 1 lineDescent = .ok () e ∧ e.value = -1 ∧
      (run lineObjective { relativeStep := 1 } [1] (-3) 0 1).run {} = .ok [-5] s ∧
      iterations lineObjective (Options.inEffect { relativeStep := 1 } 1) (-3 + 0) 1 [1] {} = 2 := by
  obtain ⟨d₀, e, d, hstart, he, hd, -, hmissed, htrial, hcount, -⟩ :=
    run_takes_one_iteration_more answers_line { relativeStep := 1 } (rfl : ([1] : Point).length = 1)
      (-3) 0 le_rfl
  obtain rfl : lineDescent = d₀ := Except.ok.inj hstart
  obtain ⟨hone, hvalue⟩ := run_line_one
  obtain ⟨htwo, hgoal, hpoint⟩ := run_line_two
  obtain rfl := (EStateM.Result.ok.inj (hone.symm.trans he)).2
  obtain rfl := (EStateM.Result.ok.inj (htwo.symm.trans hd)).2
  rw [hgoal, hpoint, if_pos (by decide +kernel)] at htrial
  refine ⟨_, _, he, hvalue, htrial, hcount.trans (hmissed ?_).2.1⟩
  rw [hvalue]
  decide +kernel

/-- **A trial does not end as the descent with its limit.** -/
theorem not_forall_run_eq_verdict :
    ¬ ∀ (f : Objective) (value : Point → Float) (o : Options) (x : Point) (least tolerance : Float)
      (limit : Nat) (d₀ : Descent), f.Answers value → x.length = f.dim → 1 ≤ limit →
      Descent.start f o (some x) = .ok d₀ →
      (run f o x least tolerance limit).run {} = verdict (least + tolerance)
        (Descent.run f (reaches (least + tolerance)) limit d₀) := by
  intro h
  have hdescent := h lineObjective line { relativeStep := 1 } [1] (-3) 0 1 lineDescent answers_line
    rfl le_rfl rfl
  obtain ⟨hone, hvalue⟩ := run_line_one
  obtain ⟨htwo, hgoal, -⟩ := run_line_two
  have htrial : reach lineObjective lineDescent.options (-3 + 0) 1 lineDescent.point
      lineDescent.search = _ := reach_eq_verdict 1 lineDescent
  rw [show Descent.runWithin lineObjective (reaches (-3 + 0)) 1 lineDescent = _ from htwo] at htrial
  have hends := htrial.symm.trans hdescent
  rw [hone, verdict, verdict, hvalue, hgoal, if_pos (by decide +kernel), if_neg (by decide +kernel)]
    at hends
  cases hends

end Trial

end Downhill
