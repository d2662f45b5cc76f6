import Downhill.Proofs.Simplex.Session

/-!
# Searches that begin anew

A search that has been reset, or whose first simplex could not be laid, keeps the drafts of earlier
iterations and the options in effect. It has asked the objective before, which may answer the next
calls otherwise than the first ones: what is left of an objective after so many calls is
`Objective.later`. Beside a new search on that, it is to show no difference.

On lists the two differ in nothing but the points asked for before (`Search.After`), and every part of
an iteration that starts so ends so (`Search.Twins`). In place they stand beside two such searches
(`Parallel`), so one that has been used before and one that has not are shown alike, use after use.

What is proved: a search without vertices, in whatever way it has come to have none (`Unlaid`), shows
in every session what a new one shows (`session_of_unlaid`).
-/

namespace Downhill

/-- The objective after its first calls. -/
def Objective.later (f : Objective) (calls : Nat) : Objective where
  dim := f.dim
  apply k p := f.apply (calls + k) p

namespace Search

variable {f : Objective} {o : Options} {α β : Type} {pre : Array Point} {s s' : Search}

/-! ### Two searches on lists -/

/-- The search has the simplex of the other one and has asked for the same points, after others. -/
structure After (pre : Array Point) (s s' : Search) : Prop where
  /-- The simplex is the same. -/
  simplex : s.simplex = s'.simplex
  /-- The points asked for before come first. -/
  asked : s.asked = pre ++ s'.asked

/-- Two runs end the same way, with one result or one failure, and leave one search after the
other. -/
inductive SameEnd (pre : Array Point) :
    EStateM.Result Failure Search α → EStateM.Result Failure Search α → Prop
  | value {a : α} {s s' : Search} (h : s.After pre s') : SameEnd pre (.ok a s) (.ok a s')
  | failure {e : Failure} {s s' : Search} (h : s.After pre s') : SameEnd pre (.error e s) (.error e s')

theorem SameEnd.of_ok {r : EStateM.Result Failure Search α} {a : α}
    (h : SameEnd pre (.ok a s) r) : ∃ s', r = .ok a s' ∧ s.After pre s' := by
  cases h with
  | value hs => exact ⟨_, rfl, hs⟩

theorem SameEnd.of_error {r : EStateM.Result Failure Search α} {e : Failure}
    (h : SameEnd pre (.error e s) r) : ∃ s', r = .error e s' ∧ s.After pre s' := by
  cases h with
  | failure hs => exact ⟨_, rfl, hs⟩

/-- Two actions end the same way on all searches of which one is after the other. -/
def Twins (pre : Array Point) (x y : Action α) : Prop :=
  ∀ s s', s.After pre s' → SameEnd pre (x s) (y s')

namespace Twins

theorem pure (a : α) : Twins pre (pure a) (pure a) := fun _ _ h => .value h

theorem throw (e : Failure) : Twins pre (throw e : Action α) (throw e) := fun _ _ h => .failure h

theorem bind {x y : Action α} {g k : α → Action β} (h : Twins pre x y)
    (hg : ∀ a, Twins pre (g a) (k a)) : Twins pre (x >>= g) (y >>= k) := by
  intro s s' hs
  have hend := h s s' hs
  cases hx : x s with
  | ok a u =>
    rw [hx] at hend
    obtain ⟨u', hy, hu⟩ := hend.of_ok
    rw [bind_of_ok hx, bind_of_ok hy]
    exact hg a u u' hu
  | error e u =>
    rw [hx] at hend
    obtain ⟨u', hy, hu⟩ := hend.of_error
    rw [bind_of_error hx, bind_of_error hy]
    exact .failure hu

end Twins

theorem twins_note (n : Note) : Twins pre (note n) (note n) :=
  fun _ _ h => .value ⟨h.simplex, h.asked⟩

theorem twins_place (new : Simplex) : Twins pre (place new) (place new) :=
  fun _ _ h => .value ⟨rfl, h.asked⟩

/-- The call that comes next has one number among all calls and another among the later ones. -/
theorem twins_ask (f : Objective) (p : Point) :
    Twins pre (ask f p) (ask (f.later pre.size) p) := by
  intro s s' h
  have hpush : s.asked.push p = pre ++ s'.asked.push p := by rw [h.asked, Array.append_push]
  have hafter : After pre { s with asked := s.asked.push p }
      { s' with asked := s'.asked.push p } := ⟨h.simplex, hpush⟩
  have hcall : (f.later pre.size).apply (s'.asked.size + 1) p = f.apply (s.asked.size + 1) p := by
    rw [h.asked, Array.size_append]
    rfl
  cases hy : f.apply (s.asked.size + 1) p with
  | ok y =>
    rw [ask_of_ok hy, ask_of_ok (hcall.trans hy)]
    exact .value hafter
  | error why =>
    rw [ask_of_error hy, ask_of_error (hcall.trans hy)]
    exact .failure hafter

theorem twins_probe (f : Objective) (p : Point) :
    Twins pre (probe f p) (probe (f.later pre.size) p) :=
  (twins_ask f p).bind fun _ => .pure _

/-! ### Parts of an iteration -/

theorem twins_probeAll (f : Objective) (ps : List Point) :
    Twins pre (probeAll f ps) (probeAll (f.later pre.size) ps) := by
  induction ps with
  | nil => exact .pure []
  | cons p ps ih =>
    exact (twins_probe f p).bind fun v => ih.bind fun vs => .pure (v :: vs)

theorem twins_lay (f : Objective) (o : Options) (x : Point) :
    Twins pre (lay f o x) (lay (f.later pre.size) o x) := by
  rw [lay, lay]
  refine (twins_probe f x).bind fun v => (twins_probeAll f _).bind fun vs => ?_
  have hplace : Twins pre (do place (Simplex.ranked v vs); return Simplex.ranked v vs)
      (do place (Simplex.ranked v vs); return Simplex.ranked v vs) :=
    (twins_place _).bind fun _ => .pure _
  dsimp only
  split
  · exact (twins_note _).bind fun _ => hplace
  · exact hplace

theorem twins_shrink (f : Objective) (o : Options) (best : Vertex) (moved rest : List Vertex) :
    Twins pre (shrink f o best moved rest) (shrink (f.later pre.size) o best moved rest) := by
  induction rest generalizing moved with
  | nil => exact .pure moved
  | cons v rest ih =>
    exact (twins_place _).bind fun _ => (twins_ask f _).bind fun y => ih _

theorem twins_expand (f : Objective) (o : Options) (center : Point) (reflected : Vertex)
    (middle : List Vertex) :
    Twins pre (expand f o center reflected middle)
      (expand (f.later pre.size) o center reflected middle) := by
  rw [expand, expand]
  refine (twins_probe f _).bind fun v => ?_
  split <;> exact .pure _

theorem twins_contract (f : Objective) (o : Options) (center : Point) (best : Vertex)
    (middle : List Vertex) (worst : Vertex) :
    Twins pre (contract f o center best middle worst)
      (contract (f.later pre.size) o center best middle worst) := by
  rw [contract, contract]
  refine (twins_probe f _).bind fun v => ?_
  split
  · exact .pure _
  · exact (twins_shrink f o best [] _).bind fun shrunk => .pure _

theorem twins_transform (f : Objective) (o : Options) (best : Vertex) (middle : List Vertex)
    (worst : Vertex) :
    Twins pre (transform f o best middle worst)
      (transform (f.later pre.size) o best middle worst) := by
  rw [transform_eq, transform_eq]
  refine (twins_note _).bind fun _ => (twins_probe f _).bind fun r => ?_
  split
  · exact .pure _
  split
  · exact twins_expand f o _ r middle
  · exact twins_contract f o _ best middle worst

theorem twins_improve (f : Objective) (o : Options) (σ : Simplex) :
    Twins pre (improve f o σ) (improve (f.later pre.size) o σ) := by
  rw [improve, improve]
  cases σ.others.getLast? with
  | none => exact .pure _
  | some worst =>
    exact (twins_transform f o σ.best _ worst).bind fun _ =>
      (twins_place _).bind fun _ => (twins_note _).bind fun _ => .pure _

theorem twins_simplexAround (f : Objective) (o : Options) (x : Point) :
    Twins pre (simplexAround f o x) (simplexAround (f.later pre.size) o x) := by
  intro s s' h
  cases hσ : s.simplex with
  | none =>
    rw [simplexAround_of_none hσ, simplexAround_of_none (h.simplex.symm.trans hσ)]
    exact twins_lay f o x s s' h
  | some σ =>
    rw [simplexAround_of_some hσ, simplexAround_of_some (h.simplex.symm.trans hσ)]
    exact .value h

/-- **An iteration after others is one that begins anew** on what is left of the objective. -/
theorem twins_iterate (f : Objective) (o : Options) (x : Point) :
    Twins pre (iterate f o x) (iterate (f.later pre.size) o x) := by
  rw [iterate, iterate]
  refine (twins_simplexAround f o x).bind fun σ => (twins_improve f o σ).bind fun reached => ?_
  split
  · exact .pure reached
  · exact .throw _

end Search

namespace InPlace

variable {f : Objective} {o : Options} {x : Point} {dim : Nat} {pre : Array Point}
  {t t' u u' : Store} {s : Search} {r : Option (Except Halt Float)} {e : Halt}

/-! ### Two searches in place -/

/-- Two searches in place with one point stand beside searches of which one is after the other. -/
def Parallel (o : Options) (dim : Nat) (pre : Array Point) (t u : Store) : Prop :=
  ∃ s s', Keeps o t.point dim t s ∧ Keeps o t.point dim u s' ∧ s.After pre s'

theorem Parallel.asked (h : Parallel o dim pre t u) : t.asked = pre ++ u.asked := by
  obtain ⟨s, s', hkeeps, hkeeps', hafter⟩ := h
  rw [hkeeps.asked, hkeeps'.asked, hafter.asked]

/-- Of a use that has led to searches side by side the same is shown. -/
theorem Parallel.shown_eq (h : Parallel o dim pre t u) (h' : Parallel o dim pre t' u') :
    shown r t t' = shown r u u' := by
  have hasked : t'.asked.toList.drop t.asked.size = u'.asked.toList.drop u.asked.size := by
    rw [h.asked, h'.asked, Array.toList_append, Array.size_append, ← Array.length_toList,
      List.drop_length_add_append]
  obtain ⟨s, s', hkeeps, hkeeps', hafter⟩ := h'
  have hvertices : s.vertices = s'.vertices := by
    rw [Search.vertices, Search.vertices, hafter.simplex]
  have hspread : s.spread = s'.spread := by rw [Search.spread, Search.spread, hafter.simplex]
  simp only [shown, hasked, hkeeps.vertices?_eq, hkeeps'.vertices?_eq, hvertices, hkeeps.spread?_eq,
    hkeeps'.spread?_eq, hspread, hkeeps'.point, hkeeps.options, hkeeps'.options]

/-- **Searches side by side iterate side by side**, with one result or one fault. -/
theorem Parallel.iterate (h : Parallel o f.dim pre t u) (hx : t.point.length = f.dim) :
    (t.use f .iterate).1 = (u.use (f.later pre.size) .iterate).1 ∧
      Parallel o f.dim pre (t.use f .iterate).2 (u.use (f.later pre.size) .iterate).2 ∧
      (t.use f .iterate).2.point.length = f.dim := by
  obtain ⟨s, s', hkeeps, hkeeps', hafter⟩ := h
  have hsame := Search.twins_iterate f o t.point s s' hafter
  have halike := iterate_alike (f := f.later pre.size) hkeeps' hx
  cases hr : InPlace.iterate f t with
  | ok y t' =>
    obtain ⟨reached, s₁, hs₁, hkeeps₁, hy, hpoint, hlen⟩ := hkeeps.of_ok hx hr
    rw [hs₁] at hsame
    obtain ⟨s₁', hs₁', hafter₁⟩ := hsame.of_ok
    rw [hs₁'] at halike
    obtain ⟨y', u', hu, hy', hkeeps₁', -⟩ := halike.exists_of_ok
    rw [use_of_ok hr, use_of_ok hu, hy, hy']
    exact ⟨rfl, ⟨s₁, s₁', hkeeps₁, hpoint ▸ hkeeps₁', hafter₁⟩, hlen⟩
  | error e t' =>
    obtain ⟨why, s₁, rfl, hs₁, hkeeps₁, hpoint⟩ := hkeeps.of_error hx hr
    rw [hs₁] at hsame
    obtain ⟨s₁', hs₁', hafter₁⟩ := hsame.of_error
    rw [hs₁'] at halike
    obtain ⟨u', hu, hkeeps₁'⟩ := halike.exists_of_fault
    rw [use_of_error hr, use_of_error hu]
    exact ⟨rfl, ⟨s₁, s₁', hkeeps₁, hpoint ▸ hkeeps₁', hafter₁⟩, hpoint ▸ hx⟩

/-- One use keeps searches side by side. -/
theorem Parallel.use (h : Parallel o f.dim pre t u) (hx : t.point.length = f.dim) {v : Use}
    (hv : v.Fits f.dim) :
    (t.use f v).1 = (u.use (f.later pre.size) v).1 ∧
      Parallel o f.dim pre (t.use f v).2 (u.use (f.later pre.size) v).2 ∧
      (t.use f v).2.point.length = f.dim := by
  cases v with
  | iterate => exact h.iterate hx
  | move x =>
    obtain ⟨s, s', hkeeps, hkeeps', hafter⟩ := h
    exact ⟨rfl, ⟨s, s', hkeeps.move x, hkeeps'.move x, hafter⟩, hv⟩
  | reset =>
    obtain ⟨s, s', hkeeps, hkeeps', hafter⟩ := h
    exact ⟨rfl, ⟨s.reset, s'.reset, hkeeps.reset, hkeeps'.reset, rfl, hafter.asked⟩, hx⟩
  | look => exact ⟨rfl, h, hx⟩

/-- **Searches side by side show the same in every session.** -/
theorem Parallel.session (h : Parallel o f.dim pre t u) (hx : t.point.length = f.dim)
    {uses : List Use} (huses : ∀ v ∈ uses, v.Fits f.dim) :
    session f t uses = session (f.later pre.size) u uses := by
  induction uses generalizing t u with
  | nil => rfl
  | cons v uses ih =>
    obtain ⟨hv, huses⟩ := List.forall_mem_cons.mp huses
    obtain ⟨hresult, hnext, hlen⟩ := h.use hx hv
    rw [InPlace.session, InPlace.session, h.shown_eq hnext, hresult, ih hnext hlen huses]

/-! ### Searches without vertices -/

/-- Searches that have no vertices: those that are new or have been reset, and those whose first
simplex could not be laid. -/
inductive Unlaid (f : Objective) (o : Options) : Store → Prop
  /-- The search is new. -/
  | start {x : Point} (hx : f.Admits x) : Unlaid f o (start f o x)
  /-- The search is reset, whatever has become of it. -/
  | reset {t : Store} (ht : Reachable f o t) : Unlaid f o t.reset
  /-- A first simplex is not laid, as one of its points gets no answer. -/
  | unanswered {t t' : Store} {e : Halt} (ht : Unlaid f o t) (h : lay f t = .error e t') :
      Unlaid f o t'
  /-- The caller moves its point. -/
  | moved {t : Store} {x : Point} (ht : Unlaid f o t) (hx : f.Admits x) :
      Unlaid f o { t with point := x }

/-- A simplex that cannot be laid leaves none, and the point of the caller alone. -/
theorem Keeps.of_lay_error (h : Keeps o t.point f.dim t s) (hσ : s.simplex = none)
    (hx : f.Admits t.point) (hr : lay f t = .error e t') :
    ∃ s', Keeps o t'.point f.dim t' s' ∧ s'.simplex = none ∧ t'.point = t.point := by
  by_cases hlen : t.point.length = f.dim
  · have halike := lay_alike h hσ hlen
    have hend := Search.lay_ends (f := f) o t.point s
    rw [hr] at halike
    obtain ⟨why, s', rfl, hr', hkeeps⟩ := halike.of_error
    rw [hr'] at hend
    have hpoint : t'.point = t.point := hkeeps.point
    exact ⟨s', hpoint ▸ hkeeps, hend.1.trans hσ, hpoint⟩
  · rw [lay_of_refused (hx.resolve_left hlen) hlen] at hr
    obtain ⟨-, rfl⟩ := EStateM.Result.error.inj hr
    exact ⟨_, h.ask t.point, hσ, rfl⟩

/-- It stands beside a search on a list that has no simplex. -/
theorem Unlaid.exists_keeps (ht : Unlaid f o t) :
    (∃ s, Keeps (o.inEffect f.dim) t.point f.dim t s ∧ s.simplex = none) ∧ f.Admits t.point := by
  induction ht with
  | @start x hx => exact ⟨⟨{}, stands_start f (fun _ => 0) o x, rfl⟩, hx⟩
  | reset ht =>
    obtain ⟨⟨s, hkeeps, -⟩, hx⟩ := ht.follows
    exact ⟨⟨s.reset, hkeeps.reset, rfl⟩, hx⟩
  | unanswered _ hr ih =>
    obtain ⟨⟨s, hkeeps, hσ⟩, hx⟩ := ih
    obtain ⟨s', hkeeps', hσ', hpoint⟩ := hkeeps.of_lay_error hσ hx hr
    exact ⟨⟨s', hkeeps', hσ'⟩, hpoint ▸ hx⟩
  | @moved _ x _ hx ih =>
    obtain ⟨⟨s, hkeeps, hσ⟩, -⟩ := ih
    exact ⟨⟨s, hkeeps.move x, hσ⟩, hx⟩

/-- **A search without vertices is as good as new.** In any session from a point of the dimension, with
iterations that may fail, moves and resets, it shows what a new search with the same options shows on
what is left of the objective: the results, the points, the vertices, their spread, the options in
effect and the points asked for. A first simplex that cannot be laid ends an iteration and leaves the
point alone. -/
theorem session_of_unlaid (ht : Unlaid f o t) (hx : x.length = f.dim) {uses : List Use}
    (huses : ∀ v ∈ uses, v.Fits f.dim) :
    session f { t with point := x } uses = session (f.later t.asked.size) (start f o x) uses ∧
      ∀ e t', lay f t = .error e t' → iterate f t = .error e t' ∧ t'.point = t.point := by
  obtain ⟨⟨s, hkeeps, hσ⟩, hadmits⟩ := ht.exists_keeps
  refine ⟨?_, fun e t' hr => ?_⟩
  · have hasked : s.asked = t.asked ++ #[] := hkeeps.asked.symm.trans (Array.append_empty).symm
    have hparallel : Parallel (o.inEffect f.dim) f.dim t.asked { t with point := x } (start f o x) :=
      ⟨s, {}, hkeeps.move x, stands_start f (fun _ => 0) o x, hσ, hasked⟩
    exact hparallel.session hx huses
  · obtain ⟨s', -, -, hpoint⟩ := hkeeps.of_lay_error hσ hadmits hr
    exact ⟨(iterate_of_none hkeeps hσ).trans (bind_of_error hr), hpoint⟩

/-- An objective of one coordinate that does not answer its first call and its third one. -/
def shy : Objective := (Objective.ofFunction 1 fun _ => .ok 0).failingOn [1, 3]

/-- The search on it from one, after two iterations. The second one has got an answer to its first
question. -/
def shyStill : Store where
  options := {}
  drafts := ⟨[0], [0], [0], [0]⟩
  point := [1]
  asked := #[[1], [1], [1.05]]

/-- The search that was torn and is reset, and one whose first simplex could not be laid at either of
its points. -/
theorem session_of_unlaid_shy :
    let torn := flatTorn.reset
    (Unlaid flat { zeroStep := 8 } torn ∧
      session flat { torn with point := [3] } [.iterate, .iterate] =
        session (flat.later 6) (start flat { zeroStep := 8 } [3]) [.iterate, .iterate]) ∧
      Unlaid shy {} shyStill ∧
      session shy { shyStill with point := [3] } [.iterate, .iterate] =
        session (shy.later 3) (start shy {} [3]) [.iterate, .iterate] := by
  have huses : ∀ v ∈ [Use.iterate, .iterate], v.Fits 1 := by
    intro v hv
    rw [List.mem_pair] at hv
    rcases hv with rfl | rfl <;> trivial
  have hreachable : Reachable flat { zeroStep := 8 } flatTorn :=
    .unanswered reachable_flatUnanswered iterate_flatUnanswered
  have hfirst : lay shy (start shy {} [1]) = .error (.fault (.stuck (.malformed 1)))
      { start shy {} [1] with asked := #[[1]] } := by decide +kernel
  have hsecond : lay shy { start shy {} [1] with asked := #[[1]] } =
      .error (.fault (.stuck (.malformed 3))) shyStill := by decide +kernel
  have hshy : Unlaid shy {} shyStill := .unanswered (.unanswered (.start (.inl rfl)) hfirst) hsecond
  exact ⟨⟨.reset hreachable, (session_of_unlaid (.reset hreachable) rfl huses).1⟩, hshy,
    (session_of_unlaid hshy rfl huses).1⟩

end InPlace

end Downhill
