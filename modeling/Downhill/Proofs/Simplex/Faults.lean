import Downhill.Proofs.Simplex.Lockstep

/-!
# Iterations that may be broken off

An objective need not answer, and an iteration that gets no answer ends where it is. This module says
what a search on a list may come to in either case, and how far it has got by the number of points
that have been asked for.

A move replaces the worst vertex or shrinks all but the best (`Moves`). A shrinkage that gets no
answer is the only thing that leaves a simplex in pieces (`Torn`): the vertices before the one asked
for are shrunk, this one has moved without its value, and those behind it are as they were.

What is proved: an improvement is a move that is ranked afterwards, and without an answer it leaves
the simplex as it was or torn (`improve_ends`). The same holds of an iteration, which may have to lay
the first simplex before (`iterate_ends_of_some`, `iterate_ends_of_none`).
-/

namespace Downhill

/-- The vertex holds what the objective answers to some call at its point, as it ranks. -/
def Vertex.AnsweredBy (v : Vertex) (f : Objective) : Prop :=
  ∃ call y, f.apply call v.point = .ok y ∧ v.value = rankedValue y

theorem Vertex.AnsweredBy.isRanked {v : Vertex} {f : Objective} (h : v.AnsweredBy f) :
    IsRanked v.value := by
  obtain ⟨call, y, -, hv⟩ := h
  rw [hv]
  exact isRanked_rankedValue y

namespace Simplex

/-! ### What a simplex may become -/

variable {f : Objective} {o : Options} {σ : Simplex} {best v w : Vertex} {rest : List Vertex}

/-- The vertex `w` is `v`, taken towards the best one and asked for again. -/
structure Shrinks (f : Objective) (o : Options) (best v w : Vertex) : Prop where
  /-- The point lies between the two. -/
  point : w.point = along o.shrinkage best.point v.point
  /-- The value is an answer. -/
  answered : w.AnsweredBy f

theorem answered_of_shrinks {vs ws : List Vertex} (h : List.Forall₂ (Shrinks f o best) vs ws) :
    ∀ w ∈ ws, w.AnsweredBy f := by
  induction h with
  | nil => exact fun w hw => nomatch hw
  | cons hvw _ ih => exact List.forall_mem_cons.mpr ⟨hvw.answered, ih⟩

/-- What may stand beside the best vertex after a move. In no dimension that is nothing. -/
inductive Moves (f : Objective) (o : Options) (σ : Simplex) : List Vertex → Prop
  /-- The worst vertex is replaced by one that holds an answer. -/
  | replace {middle : List Vertex} {worst v : Vertex} (h : σ.others = middle ++ [worst])
      (hv : v.AnsweredBy f) : Moves f o σ (middle ++ [v])
  /-- All others are shrunk. -/
  | shrink {others : List Vertex} (h : List.Forall₂ (Shrinks f o σ.best) σ.others others) :
      Moves f o σ others

/-- After a move, a vertex beside the best one was there before or holds an answer. -/
theorem Moves.mem {others : List Vertex} (h : Moves f o σ others) (hw : w ∈ others) :
    w ∈ σ.others ∨ w.AnsweredBy f := by
  cases h with
  | replace hothers hv =>
    rw [hothers]
    rcases List.mem_append.mp hw with hw | hw
    · exact .inl (List.mem_append_left _ hw)
    · rw [List.mem_singleton.mp hw]
      exact .inr hv
  | shrink hshrunk => exact .inr (answered_of_shrinks hshrunk w hw)

/-- What a shrinkage leaves that gets no answer after so many vertices have been shrunk. -/
inductive Torn (f : Objective) (o : Options) (σ : Simplex) : Nat → Simplex → Prop
  /-- The next vertex has been moved and holds its old value. Those behind it are left. -/
  | intro {front back moved : List Vertex} {v : Vertex} (h : σ.others = front ++ v :: back)
      (hmoved : List.Forall₂ (Shrinks f o σ.best) front moved) :
      Torn f o σ front.length
        ⟨σ.best, moved ++ ⟨along o.shrinkage σ.best.point v.point, v.value⟩ :: back⟩

/-- One more vertex has been shrunk before. -/
theorem Torn.cons {n : Nat} {σ' : Simplex} (h : Torn f o ⟨best, rest⟩ n σ')
    (hw : Shrinks f o best v w) : Torn f o ⟨best, v :: rest⟩ (n + 1) ⟨best, w :: σ'.others⟩ := by
  cases h with
  | @intro front back moved u hrest hmoved =>
    obtain rfl : rest = front ++ u :: back := hrest
    have hmoved' : List.Forall₂ (Shrinks f o best) (v :: front) (w :: moved) := .cons hw hmoved
    exact @Torn.intro f o ⟨best, v :: (front ++ u :: back)⟩ _ back _ u rfl hmoved'

/-- The best vertex is not touched. -/
theorem Torn.best_eq {n : Nat} {σ' : Simplex} (h : Torn f o σ n σ') : σ'.best = σ.best := by
  cases h
  rfl

/-- In a torn simplex a vertex beside the best one holds an answer or the value of one from
before. -/
theorem Torn.mem {n : Nat} {σ' : Simplex} (h : Torn f o σ n σ') (hw : w ∈ σ'.others) :
    w.AnsweredBy f ∨ ∃ v ∈ σ.others, w.value = v.value := by
  cases h with
  | @intro front back moved v hothers hmoved =>
    rw [hothers]
    rcases List.mem_append.mp hw with hw | hw
    · exact .inl (answered_of_shrinks hmoved w hw)
    rcases List.mem_cons.mp hw with rfl | hw
    · exact .inr ⟨v, by simp, rfl⟩
    · exact .inr ⟨w, by simp [hw], rfl⟩

/-- The simplex has been laid: all its vertices hold answers, and they are ranked. -/
structure Laid (f : Objective) (σ : Simplex) : Prop where
  /-- The values are answers. -/
  answered : ∀ v ∈ σ.vertices, v.AnsweredBy f
  /-- They do not fall from one vertex to a later one. -/
  ordered : σ.Ordered

theorem laid_ranked {v : Vertex} {vs : List Vertex} (h : ∀ w ∈ v :: vs, w.AnsweredBy f) :
    Laid f (ranked v vs) where
  answered w hw := h w (mem_ranked.mp hw)
  ordered := ordered_ranked fun w hw => (h w hw).isRanked.isNaN

end Simplex

namespace Search

open Simplex

/-! ### How an action ends -/

/-- An action ends with a result, in a state as `onValue` says, or without an answer, in a state as
`onFault` says. Nothing is said where a caller has broken a rule. -/
def Ends {α : Type} (onValue : α → Search → Prop) (onFault : Search → Prop) :
    EStateM.Result Failure Search α → Prop
  | .ok a s => onValue a s
  | .error (.fault _) s => onFault s
  | .error (.misuse _) _ => True

section Ends

variable {α β : Type} {onValue : α → Search → Prop} {onNext : β → Search → Prop}
  {onFault onFault' : Search → Prop} {s : Search} {f : Objective} {p : Point}

theorem Ends.bind {x : Action α} {k : α → Action β} (h : Ends onValue onFault (x s))
    (hk : ∀ a s', onValue a s' → Ends onNext onFault (k a s')) :
    Ends onNext onFault ((x >>= k) s) := by
  cases hx : x s with
  | ok a s' =>
    rw [hx] at h
    rw [bind_of_ok hx]
    exact hk a s' h
  | error e s' =>
    rw [hx] at h
    rw [bind_of_error hx]
    cases e with
    | fault why => exact h
    | misuse how => trivial

theorem Ends.mono {onValue' : α → Search → Prop} {r : EStateM.Result Failure Search α}
    (h : Ends onValue onFault r) (hvalue : ∀ a s', onValue a s' → onValue' a s')
    (hfault : ∀ s', onFault s' → onFault' s') : Ends onValue' onFault' r := by
  cases r with
  | ok a s' => exact hvalue a s' h
  | error e s' =>
    cases e with
    | fault why => exact hfault s' h
    | misuse how => trivial

theorem Ends.mono_fault {r : EStateM.Result Failure Search α} (h : Ends onValue onFault r)
    (hfault : ∀ s', onFault s' → onFault' s') : Ends onValue onFault' r :=
  h.mono (fun _ _ ha => ha) hfault

/-- What follows a question, whose answer is as good as any. -/
theorem ask_bind_ends {k : Float → Action β} (hfault : onFault { s with asked := s.asked.push p })
    (hk : ∀ y, Vertex.AnsweredBy ⟨p, y⟩ f →
      Ends onNext onFault (k y { s with asked := s.asked.push p })) :
    Ends onNext onFault ((ask f p >>= k) s) := by
  cases hy : f.apply (s.asked.size + 1) p with
  | ok y =>
    rw [bind_of_ok (ask_of_ok hy)]
    exact hk _ ⟨_, y, hy, rfl⟩
  | error why =>
    rw [bind_of_error (ask_of_error hy)]
    exact hfault

/-- What follows the vertex of an answer. -/
theorem probe_bind_ends {k : Vertex → Action β}
    (hfault : onFault { s with asked := s.asked.push p })
    (hk : ∀ v, v.point = p → v.AnsweredBy f →
      Ends onNext onFault (k v { s with asked := s.asked.push p })) :
    Ends onNext onFault ((probe f p >>= k) s) := by
  rw [InPlace.probe_bind]
  exact ask_bind_ends hfault fun y hy => hk _ rfl hy

end Ends

/-! ### Moves -/

section Moves

variable {f : Objective} {o : Options} {best worst : Vertex} {middle : List Vertex}

/-- An iteration on a simplex that got no answer has left the simplex alone, with two questions at
most, or has torn it in a shrinkage, which begins with the third one. -/
def BrokenOff (f : Objective) (o : Options) (σ : Simplex) (s s' : Search) : Prop :=
  (s'.simplex = s.simplex ∧ s'.asked.size ≤ s.asked.size + 2) ∨
    ∃ n σ', Torn f o σ n σ' ∧ s'.simplex = some σ' ∧ s'.asked.size = s.asked.size + n + 3

/-- A shrinkage ends with all vertices shrunk, or tears the simplex at the vertex without an
answer. -/
theorem shrink_ends (moved rest : List Vertex) (s : Search) :
    Ends (fun others _ => ∃ new, others = moved ++ new ∧ List.Forall₂ (Shrinks f o best) rest new)
      (fun s' => ∃ n σ', Torn f o ⟨best, rest⟩ n σ' ∧
        s'.simplex = some ⟨best, moved ++ σ'.others⟩ ∧ s'.asked.size = s.asked.size + n + 1)
      (shrink f o best moved rest s) := by
  induction rest generalizing moved s with
  | nil => exact ⟨[], (List.append_nil _).symm, .nil⟩
  | cons v rest ih =>
    rw [shrink, bind_of_ok (place_apply _ _)]
    refine ask_bind_ends ?_ fun y hy => ?_
    · have htorn : Torn f o ⟨best, v :: rest⟩ [].length _ := .intro rfl .nil
      exact ⟨0, _, htorn, rfl, Array.size_push _⟩
    -- the vertex is shrunk, and the others follow
    have hv : Shrinks f o best v ⟨along o.shrinkage best.point v.point, y⟩ := ⟨rfl, hy⟩
    refine (ih (moved ++ [⟨along o.shrinkage best.point v.point, y⟩]) _).mono ?_ ?_
    · rintro others s' ⟨new, rfl, hnew⟩
      exact ⟨_ :: new, List.append_assoc _ _ _, .cons hv hnew⟩
    · rintro s' ⟨n, σ', htorn, hσ', hsize⟩
      refine ⟨n + 1, _, htorn.cons hv, ?_, ?_⟩
      · rw [hσ', List.append_assoc, List.singleton_append]
      · rw [hsize, Array.size_push]
        dsimp only
        omega

/-- A reflected vertex that is followed makes a move in any case. -/
theorem expand_ends {center : Point} {reflected : Vertex} (hr : reflected.AnsweredBy f)
    (s : Search) :
    Ends (fun r _ => Moves f o ⟨best, middle ++ [worst]⟩ r.2)
      (fun s' => s'.simplex = s.simplex ∧ s'.asked.size = s.asked.size + 1)
      (expand f o center reflected middle s) := by
  rw [expand]
  refine probe_bind_ends ⟨rfl, Array.size_push _⟩ fun v _ hv => ?_
  split
  · exact .replace rfl hv
  · exact .replace rfl hr

/-- A contraction makes a move, or the simplex is shrunk. -/
theorem contract_ends (center : Point) (s : Search) :
    Ends (fun r _ => Moves f o ⟨best, middle ++ [worst]⟩ r.2)
      (fun s' => (s'.simplex = s.simplex ∧ s'.asked.size = s.asked.size + 1) ∨
        ∃ n σ', Torn f o ⟨best, middle ++ [worst]⟩ n σ' ∧ s'.simplex = some σ' ∧
          s'.asked.size = s.asked.size + n + 2)
      (contract f o center best middle worst s) := by
  rw [contract]
  refine probe_bind_ends (.inl ⟨rfl, Array.size_push _⟩) fun v _ hv => ?_
  split
  · exact .replace rfl hv
  · refine Ends.bind ((shrink_ends [] (middle ++ [worst]) _).mono_fault ?_) ?_
    · rintro s' ⟨n, σ', htorn, hσ', hsize⟩
      refine .inr ⟨n, σ', htorn, ?_, ?_⟩
      · have hbest : σ'.best = best := htorn.best_eq
        rw [hσ', ← hbest]
        rfl
      · rw [hsize, Array.size_push]
        omega
    · rintro others s' ⟨new, rfl, hnew⟩
      exact .shrink hnew

/-- **A move ends as one, or is broken off.** -/
theorem transform_ends (s : Search) :
    Ends (fun r _ => Moves f o ⟨best, middle ++ [worst]⟩ r.2)
      (BrokenOff f o ⟨best, middle ++ [worst]⟩ s) (transform f o best middle worst s) := by
  rw [transform_eq, bind_of_ok (note_apply _ _)]
  refine probe_bind_ends (.inl ⟨rfl, ?_⟩) fun r _ hr => ?_
  · rw [Array.size_push]
    exact Nat.le_succ _
  split
  · exact .replace rfl hr
  split
  · refine (expand_ends hr _).mono_fault ?_
    rintro s' ⟨hσ', hsize⟩
    refine .inl ⟨hσ', ?_⟩
    rw [hsize, Array.size_push]
  · refine (contract_ends _ _).mono_fault ?_
    rintro s' (⟨hσ', hsize⟩ | ⟨n, σ', htorn, hσ', hsize⟩)
    · refine .inl ⟨hσ', ?_⟩
      rw [hsize, Array.size_push]
    · refine .inr ⟨n, σ', htorn, hσ', ?_⟩
      rw [hsize, Array.size_push]
      dsimp only
      omega

end Moves

/-! ### Iterations -/

section Iterations

variable {f : Objective} {o : Options} {x : Point} {s : Search} {σ : Simplex}

/-- An iteration has completed a move from the simplex, and the best vertex after it is reached. -/
def Completed (f : Objective) (o : Options) (σ : Simplex) (reached : Reached) (s : Search) : Prop :=
  ∃ others, Moves f o σ others ∧ s.simplex = some (ranked σ.best others) ∧
    reached.best = (ranked σ.best others).best

/-- **An improvement is a move that is ranked, or is broken off.** -/
theorem improve_ends (hs : s.simplex = some σ) :
    Ends (Completed f o σ) (BrokenOff f o σ s) (improve f o σ s) := by
  obtain ⟨best, others⟩ := σ
  rcases List.eq_nil_or_concat' others with rfl | ⟨middle, worst, rfl⟩
  · -- a single vertex is its own ranking
    have hranked : ranked best [] = ⟨best, []⟩ := ranked_of_pairwise (List.pairwise_singleton _ _)
    exact ⟨[], .shrink .nil, by rw [hs, hranked], by rw [hranked]⟩
  · simp only [improve, List.getLast?_concat, List.dropLast_concat]
    refine Ends.bind (transform_ends s) ?_
    rintro ⟨move, others⟩ s' hmoves
    exact ⟨others, hmoves, rfl, rfl⟩

/-- The check at the end of an iteration changes nothing. -/
theorem improve_bind_ends {onFault : Search → Prop}
    (h : Ends (Completed f o σ) onFault (improve f o σ s)) :
    Ends (Completed f o σ) onFault ((do
      let reached ← improve f o σ
      if reached.best.point.length = x.length then return reached
      else throw (.misuse .shape) : Action Reached) s) := by
  refine Ends.bind h fun reached s' hreached => ?_
  split
  · exact hreached
  · trivial

/-- **An iteration on a simplex** is a move that is ranked, or is broken off. -/
theorem iterate_ends_of_some (hs : s.simplex = some σ) :
    Ends (Completed f o σ) (BrokenOff f o σ s) (iterate f o x s) := by
  rw [iterate, bind_of_ok (simplexAround_of_some hs)]
  exact improve_bind_ends (improve_ends hs)

/-- The vertices at the points listed hold answers. -/
theorem probeAll_ends (ps : List Point) (s : Search) :
    Ends (fun vs s' => (∀ v ∈ vs, v.AnsweredBy f) ∧ s'.simplex = s.simplex ∧
        s'.asked.size = s.asked.size + ps.length)
      (fun s' => s'.simplex = s.simplex ∧ s'.asked.size ≤ s.asked.size + ps.length)
      (probeAll f ps s) := by
  induction ps generalizing s with
  | nil => exact ⟨by simp, rfl, rfl⟩
  | cons p ps ih =>
    rw [probeAll]
    refine probe_bind_ends ⟨rfl, ?_⟩ fun v _ hv => ?_
    · rw [Array.size_push, List.length_cons]
      omega
    have hsize : (s.asked.push p).size + ps.length = s.asked.size + (p :: ps).length := by
      rw [Array.size_push, List.length_cons]
      omega
    refine Ends.bind ((ih _).mono_fault ?_) ?_
    · rintro s' ⟨hσ', hle⟩
      exact ⟨hσ', hle.trans_eq hsize⟩
    · rintro vs s' ⟨hvs, hσ', heq⟩
      exact ⟨List.forall_mem_cons.mpr ⟨hv, hvs⟩, hσ', heq.trans hsize⟩

/-- **The first simplex is laid with answers only**, or there is none. -/
theorem lay_ends (o : Options) (x : Point) (s : Search) :
    Ends (fun σ s' => Laid f σ ∧ s'.simplex = some σ ∧
        s'.asked.size = s.asked.size + x.length + 1)
      (fun s' => s'.simplex = s.simplex ∧ s'.asked.size ≤ s.asked.size + x.length + 1)
      (lay f o x s) := by
  have hsize : (s.asked.push x).size + (neighbours o x).length = s.asked.size + x.length + 1 := by
    rw [Array.size_push, length_neighbours]
    omega
  rw [lay]
  refine probe_bind_ends ⟨rfl, ?_⟩ fun v _ hv => ?_
  · rw [Array.size_push]
    omega
  refine Ends.bind ((probeAll_ends (neighbours o x) _).mono_fault ?_) ?_
  · rintro s' ⟨hσ', hle⟩
    exact ⟨hσ', hle.trans_eq hsize⟩
  · rintro vs s' ⟨hvs, -, heq⟩
    have hlaid : Laid f (ranked v vs) := laid_ranked (List.forall_mem_cons.mpr ⟨hv, hvs⟩)
    dsimp only
    split <;> exact ⟨hlaid, rfl, heq.trans hsize⟩

/-- **The first iteration** lays a simplex and improves it. Without an answer there is no simplex, or
the iteration on the one laid is broken off. -/
theorem iterate_ends_of_none (hs : s.simplex = none) :
    Ends (fun reached s' => ∃ σ, Laid f σ ∧ Completed f o σ reached s')
      (fun s' => (s'.simplex = none ∧ s'.asked.size ≤ s.asked.size + x.length + 1) ∨
        ∃ σ s₁, Laid f σ ∧ s₁.simplex = some σ ∧ s₁.asked.size = s.asked.size + x.length + 1 ∧
          BrokenOff f o σ s₁ s')
      (iterate f o x s) := by
  have hlay := lay_ends (f := f) o x s
  rw [← simplexAround_of_none hs] at hlay
  rw [iterate]
  refine Ends.bind (hlay.mono_fault ?_) ?_
  · rintro s' ⟨hσ', hle⟩
    exact .inl ⟨hσ'.trans hs, hle⟩
  · rintro σ s₁ ⟨hσ, hs₁, hsize⟩
    refine (improve_bind_ends (improve_ends hs₁)).mono ?_ ?_
    · exact fun reached s' hend => ⟨σ, hσ, hend⟩
    · exact fun s' hend => .inr ⟨σ, s₁, hσ, hs₁, hsize, hend⟩

end Iterations

end Search

end Downhill
