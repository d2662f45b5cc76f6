import Downhill.Proofs.Simplex.Machine

/-!
# Searches whose questions are answered

A search asks its objective while it goes, keeps what it has asked and noted, and stops where there
is no answer. This module follows it where the objective answers every call at a point of its
dimension (`Objective.Answers`): each part of an iteration then yields what the machine on ranked
lists yields, and adds to what has been asked and noted what the machine says.

What is proved: an iteration does not fail, and is one step of the machine, from the first simplex
(`iterate_of_answers_of_none`) or from the one there is (`iterate_of_answers_of_some`).
-/

namespace Downhill

/-- The objective answers every call at a point of its dimension, with the value of the point. -/
def Objective.Answers (f : Objective) (value : Point → Float) : Prop :=
  ∀ call p, p.length = f.dim → f.apply call p = .ok (value p)

/-- What follows an action that has ended well starts from its result and its state. -/
theorem bind_of_ok {ε σ α β : Type} {x : EStateM ε σ α} {g : α → EStateM ε σ β} {s s' : σ} {a : α}
    (h : x s = .ok a s') : (x >>= g) s = g a s' := by
  change EStateM.bind x g s = g a s'
  rw [EStateM.bind, h]

/-- What follows an action that has failed fails as it did. -/
theorem bind_of_error {ε σ α β : Type} {x : EStateM ε σ α} {g : α → EStateM ε σ β} {s s' : σ} {e : ε}
    (h : x s = .error e s') : (x >>= g) s = .error e s' := by
  change EStateM.bind x g s = .error e s'
  rw [EStateM.bind, h]

/-- What follows a check of the state starts where the check has not called a halt. -/
theorem bind_check_of_ok {ε σ : Type} {x y : EStateM ε σ Unit} {s s' : σ} (h : x s = .ok () s')
    (stop : σ → Bool) :
    (do
      x
      if stop (← get) then return
      y) s = if stop s' = true then .ok () s' else y s' := by
  rw [bind_of_ok h]
  split
  · next hs => exact congrFun (if_pos hs) s'
  · next hs => exact congrFun (if_neg hs) s'

namespace Search

open Simplex

variable {f : Objective} {value : Point → Float} {o : Options}

theorem probe_of_answers (h : f.Answers value) {p : Point} (hp : p.length = f.dim) (s : Search) :
    probe f p s = .ok (vertexAt value p) { s with asked := s.asked.push p } := by
  rw [probe, bind_of_ok (ask_of_ok (h _ p hp))]
  rfl

theorem probeAll_of_answers (h : f.Answers value) {ps : List Point}
    (hps : ∀ p ∈ ps, p.length = f.dim) (s : Search) :
    probeAll f ps s = .ok (ps.map (vertexAt value)) { s with asked := s.asked ++ ps } := by
  induction ps generalizing s with
  | nil =>
    rw [Array.appendList_nil]
    rfl
  | cons p ps ih =>
    rw [probeAll, bind_of_ok (probe_of_answers h (hps p List.mem_cons_self) s),
      bind_of_ok (ih (fun q hq => hps q (List.mem_cons_of_mem _ hq)) _), Array.appendList_cons]
    rfl

/-- The first simplex is laid. -/
theorem lay_of_answers (h : f.Answers value) {x : Point} (hx : x.length = f.dim) (s : Search) :
    lay f o x s = .ok (first value o x) ⟨some (first value o x),
      s.asked ++ (x :: neighbours o x), s.notes ++ firstNotes value o x⟩ := by
  have hn : ∀ p ∈ neighbours o x, p.length = f.dim := fun p hp =>
    (length_of_mem_neighbours hp).trans hx
  rw [lay, bind_of_ok (probe_of_answers h hx s), bind_of_ok (probeAll_of_answers h hn _),
    Array.appendList_cons, firstNotes, List.map_cons]
  dsimp only
  split
  · rw [bind_of_ok (note_apply _ _), Array.appendList_cons, Array.appendList_nil]
    rfl
  · rw [Array.appendList_nil]
    rfl

/-! ### Moves -/

/-- Every vertex is moved and asked for, whatever the simplex is meanwhile. -/
theorem shrink_of_answers (h : f.Answers value) {best : Vertex}
    (hb : best.point.length = f.dim) {vs : List Vertex}
    (hvs : ∀ v ∈ vs, v.point.length = f.dim) (moved : List Vertex) (s : Search) :
    ∃ between, shrink f o best moved vs s = .ok (moved ++ shrunk value o best vs)
      ⟨between, s.asked ++ (shrunk value o best vs).map Vertex.point, s.notes⟩ := by
  induction vs generalizing moved s with
  | nil =>
    refine ⟨s.simplex, ?_⟩
    rw [shrunk, List.map_nil, List.map_nil, List.append_nil, Array.appendList_nil]
    rfl
  | cons v vs ih =>
    have hp : (along o.shrinkage best.point v.point).length = f.dim :=
      length_along_of_eq _ hb (hvs v List.mem_cons_self)
    rw [shrink, bind_of_ok (place_apply _ _), bind_of_ok (ask_of_ok (h _ _ hp))]
    obtain ⟨between, hrest⟩ := ih (fun w hw => hvs w (List.mem_cons_of_mem _ hw))
      (moved ++ [vertexAt value (along o.shrinkage best.point v.point)]) _
    refine ⟨between, hrest.trans ?_⟩
    rw [List.append_assoc, List.singleton_append]
    simp only [shrunk, List.map_cons, Array.appendList_cons]
    rfl

/-- A move with its center named. -/
theorem transform_eq (f : Objective) (o : Options) (best : Vertex) (middle : List Vertex)
    (worst : Vertex) :
    transform f o best middle worst = (do
      note (.centroid (center best middle))
      let r ← probe f (along (-o.reflection) (center best middle) worst.point)
      if best.value ≤ r.value ∧ r.value < (middle.getLast?.getD best).value then
        return (.reflection, middle ++ [r])
      else if r.value < best.value then expand f o (center best middle) r middle
      else contract f o (center best middle) best middle worst) := rfl

section Vertices

variable {best worst : Vertex} {middle : List Vertex} (h : f.Answers value)
  (hb : best.point.length = f.dim) (hm : ∀ v ∈ middle, v.point.length = f.dim)
  (hw : worst.point.length = f.dim)
include h hb hm hw

theorem probe_reflected (s : Search) :
    probe f (along (-o.reflection) (center best middle) worst.point) s =
      .ok (reflected value o best middle worst)
        { s with asked := s.asked.push (reflected value o best middle worst).point } :=
  probe_of_answers h (length_reflected hb hm hw) s

theorem probe_expanded (s : Search) :
    probe f (along o.expansion (center best middle) (reflected value o best middle worst).point) s =
      .ok (expanded value o best middle worst)
        { s with asked := s.asked.push (expanded value o best middle worst).point } :=
  probe_of_answers h (length_expanded hb hm hw) s

theorem probe_contracted (s : Search) :
    probe f (along o.contraction (center best middle) worst.point) s =
      .ok (contracted value o best middle worst)
        { s with asked := s.asked.push (contracted value o best middle worst).point } :=
  probe_of_answers h (length_contracted hb hm hw) s

/-- The better one of the reflected and the expanded vertex replaces the worst. -/
theorem expand_of_answers (s : Search) :
    expand f o (center best middle) (reflected value o best middle worst) middle s =
      .ok (if (expanded value o best middle worst).value <
            (reflected value o best middle worst).value
          then (.expansion, middle ++ [expanded value o best middle worst])
          else (.reflection, middle ++ [reflected value o best middle worst]))
        { s with asked := s.asked.push (expanded value o best middle worst).point } := by
  rw [expand, bind_of_ok (probe_expanded h hb hm hw s)]
  split <;> rfl

/-- The contracted vertex replaces the worst if it is better, and otherwise all are shrunk. -/
theorem contract_of_answers (s : Search) :
    ∃ between, contract f o (center best middle) best middle worst s =
      .ok (if (contracted value o best middle worst).value < worst.value
          then (.contraction, middle ++ [contracted value o best middle worst])
          else (.shrinkage, shrunk value o best (middle ++ [worst])))
        ⟨between, s.asked ++ (contracted value o best middle worst).point ::
            if (contracted value o best middle worst).value < worst.value then []
            else (shrunk value o best (middle ++ [worst])).map Vertex.point, s.notes⟩ := by
  have hall : ∀ v ∈ middle ++ [worst], v.point.length = f.dim := by
    intro v hv
    rcases List.mem_append.mp hv with hv | hv
    · exact hm v hv
    · rw [List.mem_singleton.mp hv]
      exact hw
  rw [contract, bind_of_ok (probe_contracted h hb hm hw s)]
  split
  · refine ⟨s.simplex, ?_⟩
    rw [Array.appendList_cons, Array.appendList_nil]
    rfl
  · obtain ⟨between, hs⟩ := shrink_of_answers (o := o) h hb hall []
      { s with asked := s.asked.push (contracted value o best middle worst).point }
    refine ⟨between, ?_⟩
    rw [bind_of_ok hs, Array.appendList_cons]
    rfl

/-- **A move ends, and is the one of the machine.** -/
theorem transform_of_answers (s : Search) :
    ∃ between, transform f o best middle worst s =
      .ok ((turn value o best middle worst).move, (turn value o best middle worst).others)
        ⟨between, s.asked ++ (turn value o best middle worst).asked,
          s.notes.push (.centroid (center best middle))⟩ := by
  rw [transform_eq, bind_of_ok (note_apply _ _), bind_of_ok (probe_reflected h hb hm hw _)]
  simp only [turn]
  split
  · refine ⟨s.simplex, ?_⟩
    rw [Array.appendList_cons, Array.appendList_nil]
    rfl
  split
  · refine ⟨s.simplex, (expand_of_answers h hb hm hw _).trans ?_⟩
    split <;> simp only [Array.appendList_cons, Array.appendList_nil]
  · obtain ⟨between, hc⟩ := contract_of_answers (o := o) h hb hm hw
      ⟨s.simplex, s.asked.push (reflected value o best middle worst).point,
        s.notes.push (.centroid (center best middle))⟩
    refine ⟨between, hc.trans ?_⟩
    split <;> simp only [Array.appendList_cons, Array.appendList_nil]

end Vertices

/-! ### Iterations -/

variable {σ : Simplex}

/-- An improvement is a step of the machine. -/
theorem improve_of_answers (h : f.Answers value) (hσ : σ.Sound value f.dim) {s : Search}
    (hs : s.simplex = some σ) :
    improve f o σ s = .ok ⟨(σ.step value o).simplex.best, (σ.step value o).move⟩
      ⟨some (σ.step value o).simplex, s.asked ++ (σ.step value o).asked,
        s.notes ++ (σ.step value o).notes⟩ := by
  rcases List.eq_nil_or_concat' σ.others with hw | ⟨middle, worst, hw⟩
  · obtain ⟨simplex, asked, notes⟩ := s
    obtain rfl : simplex = some σ := hs
    rw [step_of_nil hw]
    simp only [improve, hw, Array.appendList_nil]
    rfl
  · obtain ⟨between, ht⟩ := transform_of_answers (o := o) h hσ.length_best
      (hσ.length_middle hw) (hσ.length_last hw) s
    rw [step_of_append hw]
    simp only [improve, hw, List.getLast?_concat, List.dropLast_concat]
    rw [bind_of_ok ht]
    simp only [Array.appendList_cons, Array.appendList_nil]
    rfl

/-- **An iteration on a simplex is a step of the machine.** -/
theorem iterate_of_answers_of_some (h : f.Answers value) (hσ : σ.Sound value f.dim) {s : Search}
    (hs : s.simplex = some σ) {x : Point} (hx : x.length = f.dim) :
    iterate f o x s = .ok ⟨(σ.step value o).simplex.best, (σ.step value o).move⟩
      ⟨some (σ.step value o).simplex, s.asked ++ (σ.step value o).asked,
        s.notes ++ (σ.step value o).notes⟩ := by
  rw [iterate, bind_of_ok (simplexAround_of_some hs), bind_of_ok (improve_of_answers h hσ hs)]
  have hb : (σ.step value o).simplex.best.point.length = x.length :=
    hσ.step.length_best.trans hx.symm
  rw [if_pos hb]
  rfl

/-- **The first iteration lays the first simplex, and is a step of the machine from there.** -/
theorem iterate_of_answers_of_none (h : f.Answers value) {s : Search} (hs : s.simplex = none)
    {x : Point} (hx : x.length = f.dim) :
    iterate f o x s =
      .ok ⟨((first value o x).step value o).simplex.best, ((first value o x).step value o).move⟩
      ⟨some ((first value o x).step value o).simplex,
        s.asked ++ (x :: neighbours o x) ++ ((first value o x).step value o).asked,
        s.notes ++ firstNotes value o x ++ ((first value o x).step value o).notes⟩ := by
  have hσ : (first value o x).Sound value f.dim := hx ▸ sound_first x
  have laid := (simplexAround_of_none hs).trans (lay_of_answers (o := o) h hx s)
  rw [iterate, bind_of_ok laid, bind_of_ok (improve_of_answers h hσ rfl)]
  have hb : ((first value o x).step value o).simplex.best.point.length = x.length :=
    hσ.step.length_best.trans hx.symm
  rw [if_pos hb]
  rfl

end Search

end Downhill
