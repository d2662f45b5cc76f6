import Downhill.Proofs.Simplex.Reachable

/-!
# What is left where there is no answer

An iteration in place that gets no answer stops with everything it has written. A move writes after
its questions, so that a vertex gets a point and a value at once, but a shrinkage writes each point
before it asks for it. Hence the two ways in which an iteration may be broken off (`Search.BrokenOff`).

The order of the slots is not written before a move is complete (`KeepsOrder`), and with the order
the vertices determine the slots.

What is proved: an iteration that gets no answer leaves the order and the caller's point alone. If the
question is the first or the second one, the slots are as before. If it is a later one, they are not:
the vertices before the one asked for are shrunk, this one has been moved and holds the value of
another point, and those behind it are as before (`iterate_unanswered`).
-/

namespace Downhill

namespace InPlace

open Simplex

/-! ### The order -/

/-- However the action ends, the order of the slots is as before. -/
structure KeepsOrder {α : Type} (x : Action α) : Prop where
  /-- After a result. -/
  ok {t t' : Store} {a : α} : x t = .ok a t' → t'.slots.order = t.slots.order
  /-- Without one. -/
  error {t t' : Store} {e : Halt} : x t = .error e t' → t'.slots.order = t.slots.order

section KeepsOrder

variable {α β : Type} {x : Action α} {g : α → Action β}

theorem KeepsOrder.bind (hx : KeepsOrder x) (hg : ∀ a, KeepsOrder (g a)) :
    KeepsOrder (x >>= g) where
  ok {t t' b} h := by
    cases hr : x t with
    | ok a u =>
      rw [bind_of_ok hr] at h
      exact ((hg a).ok h).trans (hx.ok hr)
    | error e u =>
      rw [bind_of_error hr] at h
      cases h
  error {t t' e} h := by
    cases hr : x t with
    | ok a u =>
      rw [bind_of_ok hr] at h
      exact ((hg a).error h).trans (hx.ok hr)
    | error e u =>
      rw [bind_of_error hr] at h
      obtain ⟨-, rfl⟩ := EStateM.Result.error.inj h
      exact hx.error hr

theorem keepsOrder_pure (a : α) : KeepsOrder (pure a) where
  ok h := by
    obtain ⟨-, rfl⟩ := EStateM.Result.ok.inj h
    rfl
  error h := nomatch h

theorem keepsOrder_modify {u : Store → Store} (h : ∀ t, (u t).slots.order = t.slots.order) :
    KeepsOrder (modify u : Action Unit) where
  ok {t t' a} hr := by
    obtain ⟨-, rfl⟩ := EStateM.Result.ok.inj hr
    exact h t
  error hr := nomatch hr

theorem keepsOrder_get : KeepsOrder (get : Action Store) where
  ok h := by
    obtain ⟨-, rfl⟩ := EStateM.Result.ok.inj h
    rfl
  error h := nomatch h

theorem keepsOrder_fetch (entries : Slots → Array α) (i : Nat) : KeepsOrder (fetch entries i) where
  ok h := by
    rw [fetch] at h
    split at h <;> cases h
    rfl
  error h := by
    rw [fetch] at h
    split at h <;> cases h
    rfl

theorem keepsOrder_agree (p q : Point) : KeepsOrder (agree p q) where
  ok h := by
    rw [agree] at h
    split at h <;> cases h
    rfl
  error h := by
    rw [agree] at h
    split at h <;> cases h
    rfl

theorem keepsOrder_ask (f : Objective) (p : Point) : KeepsOrder (ask f p) where
  ok h := by
    rw [ask] at h
    split at h <;> cases h
    rfl
  error h := by
    rw [ask] at h
    split at h <;> cases h
    rfl

theorem keepsOrder_draft (d : Draft) : KeepsOrder (draft d) where
  ok h := by
    obtain ⟨-, rfl⟩ := EStateM.Result.ok.inj h
    rfl
  error h := nomatch h

theorem keepsOrder_draw (d : Draft) (p : Point) : KeepsOrder (draw d p) :=
  .bind (keepsOrder_draft d) fun _ => .bind (keepsOrder_agree _ p) fun _ =>
    keepsOrder_modify fun _ => rfl

theorem keepsOrder_drawLine (d : Draft) (τ : Float) (a b : Point) :
    KeepsOrder (drawLine d τ a b) :=
  .bind (keepsOrder_agree a b) fun _ => keepsOrder_draw d _

theorem keepsOrder_putPoint (slot : Nat) (p : Point) : KeepsOrder (putPoint slot p) :=
  .bind (keepsOrder_fetch _ slot) fun _ => .bind (keepsOrder_agree _ p) fun _ =>
    keepsOrder_modify fun _ => rfl

theorem keepsOrder_putValue (slot : Nat) (y : Float) : KeepsOrder (putValue slot y) :=
  .bind (keepsOrder_fetch _ slot) fun _ => keepsOrder_modify fun _ => rfl

theorem keepsOrder_replace (slot : Nat) (d : Draft) (y : Float) : KeepsOrder (replace slot d y) :=
  .bind (keepsOrder_draft d) fun p => .bind (keepsOrder_putPoint slot p) fun _ =>
    keepsOrder_putValue slot y

theorem keepsOrder_gather (ranks : List Nat) : KeepsOrder (gather ranks) := by
  induction ranks with
  | nil => exact keepsOrder_pure ()
  | cons r ranks ih =>
    exact .bind (keepsOrder_fetch _ r) fun slot => .bind (keepsOrder_fetch _ slot) fun p =>
      .bind (keepsOrder_draft _) fun sum => .bind (keepsOrder_agree sum p) fun _ =>
        .bind (keepsOrder_draw _ _) fun _ => ih

theorem keepsOrder_drawCentroid (n : Nat) : KeepsOrder (drawCentroid n) :=
  .bind (keepsOrder_draft _) fun _ => .bind (keepsOrder_draw _ _) fun _ =>
    .bind (keepsOrder_gather _) fun _ => .bind (keepsOrder_draft _) fun _ => keepsOrder_draw _ _

variable (f : Objective)

theorem keepsOrder_shrink (slots : List Nat) : KeepsOrder (shrink f slots) := by
  induction slots with
  | nil => exact keepsOrder_pure ()
  | cons slot slots ih =>
    exact .bind (keepsOrder_draft _) fun best => .bind (keepsOrder_fetch _ slot) fun p =>
      .bind (keepsOrder_agree best p) fun _ => .bind keepsOrder_get fun _ =>
        .bind (keepsOrder_putPoint slot _) fun _ => .bind (keepsOrder_fetch _ slot) fun q =>
          .bind (keepsOrder_ask f q) fun y => .bind (keepsOrder_putValue slot y) fun _ => ih

theorem keepsOrder_expand (worst : Nat) (reflected : Float) :
    KeepsOrder (expand f worst reflected) := by
  refine .bind keepsOrder_get fun t => .bind (keepsOrder_draft _) fun center =>
    .bind (keepsOrder_draft _) fun p => .bind (keepsOrder_drawLine _ _ center p) fun _ =>
      .bind (keepsOrder_draft _) fun q => .bind (keepsOrder_ask f q) fun y => ?_
  split
  · exact .bind (keepsOrder_replace worst _ _) fun _ => keepsOrder_pure _
  · exact .bind (keepsOrder_replace worst _ _) fun _ => keepsOrder_pure _

theorem keepsOrder_contract (best worst : Nat) : KeepsOrder (contract f best worst) := by
  refine .bind keepsOrder_get fun t => .bind (keepsOrder_draft _) fun center =>
    .bind (keepsOrder_fetch _ worst) fun p => .bind (keepsOrder_drawLine _ _ center p) fun _ =>
      .bind (keepsOrder_draft _) fun q => .bind (keepsOrder_ask f q) fun y =>
        .bind (keepsOrder_fetch _ worst) fun z => ?_
  split
  · exact .bind (keepsOrder_replace worst _ _) fun _ => keepsOrder_pure _
  · exact .bind (keepsOrder_fetch _ best) fun b => .bind (keepsOrder_draw _ b) fun _ =>
      .bind keepsOrder_get fun _ => .bind (keepsOrder_shrink f _) fun _ => keepsOrder_pure _

/-- **A move leaves the order alone**, also one that is broken off. -/
theorem keepsOrder_transform (n : Nat) : KeepsOrder (transform f n) := by
  refine .bind (keepsOrder_drawCentroid _) fun _ => .bind (keepsOrder_draft _) fun center =>
    .bind (keepsOrder_modify fun _ => rfl) fun _ => .bind (keepsOrder_fetch _ 0) fun best =>
      .bind (keepsOrder_fetch _ n) fun second => .bind (keepsOrder_fetch _ (n + 1)) fun worst =>
        .bind keepsOrder_get fun t => .bind (keepsOrder_draft _) fun p =>
          .bind (keepsOrder_fetch _ worst) fun w => .bind (keepsOrder_drawLine _ _ p w) fun _ =>
            .bind (keepsOrder_draft _) fun q => .bind (keepsOrder_ask f q) fun y =>
              .bind (keepsOrder_fetch _ best) fun b => .bind (keepsOrder_fetch _ second) fun z => ?_
  split
  · exact .bind (keepsOrder_replace worst _ _) fun _ => keepsOrder_pure _
  split
  · exact keepsOrder_expand f worst y
  · exact keepsOrder_contract f best worst

end KeepsOrder

/-! ### Iterations -/

section Iterations

variable {f f₀ : Objective} {o : Options} {x : Point} {dim : Nat} {t t' : Store} {s : Search}
  {σ : Simplex} {e : Halt}

/-- Where an improvement fails, the order has not been written: after a move nothing fails. -/
theorem order_eq_of_advance_error (h : Keeps o x dim t s) (hσ : s.simplex = some σ)
    (hr : advance f dim t = .error e t') : t'.slots.order = t.slots.order := by
  have hcount : σ.others.length = dim := Nat.succ_injective (h.holds hσ).length_eq
  obtain ⟨best, others⟩ := σ
  rcases List.eq_nil_or_concat' others with rfl | ⟨middle, worst, rfl⟩
  · obtain rfl : dim = 0 := hcount.symm
    cases hr
  · obtain rfl : dim = middle.length + 1 := by
      rw [← hcount]
      exact List.length_append
    cases hmove : transform f middle.length t with
    | error e' u =>
      rw [advance, bind_of_error hmove] at hr
      obtain ⟨-, rfl⟩ := EStateM.Result.error.inj hr
      exact (keepsOrder_transform f middle.length).error hmove
    | ok move u =>
      have halike := transform_alike (f := f) h hσ
      rw [hmove] at halike
      obtain ⟨⟨_, others⟩, s', -, rfl, h', hmoved⟩ := halike.of_ok
      obtain ⟨u', hrank, hkeeps⟩ := exists_rank h' hmoved
      obtain ⟨u'', hnote, -⟩ := exists_noteMove hkeeps rfl _
      rw [advance, bind_of_ok hmove, bind_of_ok hrank, hnote] at hr
      cases hr

/-- Nor has it been where an iteration fails. -/
theorem order_eq_of_iterate_error (h : Keeps o x f.dim t s) (hσ : s.simplex = some σ)
    (hx : x.length = f.dim) (hr : iterate f t = .error e t') :
    t'.slots.order = t.slots.order := by
  have halike := advance_alike (f := f) h hσ
  rw [iterate_of_some h hσ, improve_eq] at hr
  cases hadvance : advance f f.dim t with
  | error e' u =>
    rw [bind_of_error hadvance] at hr
    obtain ⟨-, rfl⟩ := EStateM.Result.error.inj hr
    exact order_eq_of_advance_error h hσ hadvance
  | ok _ u =>
    rw [hadvance] at halike
    obtain ⟨reached, s', -, hkeeps, τ, hτ, -⟩ := halike.of_ok
    rw [bind_of_ok hadvance, finish_apply (hkeeps.holds hτ) (hkeeps.point ▸ hx)] at hr
    cases hr

/-- The slots of a search whose simplex is torn. -/
inductive Slots.Torn (f : Objective) (o : Options) (s s' : Slots) : Nat → Prop
  /-- The vertices before one are shrunk, and this one has been moved and holds its old value. -/
  | intro {best v : Vertex} {front back moved : List Vertex}
      (before : s.vertices? = some (best :: (front ++ v :: back)))
      (after : s'.vertices? = some
        (best :: (moved ++ ⟨along o.shrinkage best.point v.point, v.value⟩ :: back)))
      (hmoved : List.Forall₂ (Shrinks f o best) front moved) : Torn f o s s' front.length

/-- **An iteration without an answer** ends with the fault of the objective, and leaves the caller's
point and the order of the slots alone. If that fault is the answer to one of its first two questions,
which are for the reflected vertex and for the expanded or the contracted one, it leaves points and
values alone as well. After more questions it is broken off in a shrinkage: each of the vertices asked
for before has been shrunk and holds an answer, and the one asked for last has been moved and holds
the value of the point before. -/
theorem iterate_unanswered (ht : Reachable f₀ o t) (hne : t.slots.points ≠ #[])
    (hdim : f.dim = f₀.dim) (hx : x.length = f.dim)
    (hr : iterate f { t with point := x } = .error e t') :
    (∃ why, e = .fault why) ∧ t'.point = x ∧ t'.slots.order = t.slots.order ∧
      ((t'.slots = t.slots ∧ t'.asked.size ≤ t.asked.size + 2) ∨
        ∃ n, t.slots.Torn f (o.inEffect f.dim) t'.slots n ∧
          t'.asked.size = t.asked.size + n + 3) := by
  obtain ⟨⟨s, hkeeps, -⟩, -⟩ := ht.follows
  rw [← hdim] at hkeeps
  have hmoved := hkeeps.move x
  obtain ⟨σ, hσ⟩ : ∃ σ, s.simplex = some σ := by
    rw [← Option.isSome_iff_exists, ← Option.not_isNone, ← hkeeps.isEmpty_points]
    simpa using hne
  -- the search on the list ends alike
  obtain ⟨why, s', rfl, hr', hkeeps', hpoint⟩ := hmoved.of_error hx hr
  have hend := Search.iterate_ends_of_some (f := f) (o := o.inEffect f.dim) (x := x) hσ
  rw [hr'] at hend
  have horder : t'.slots.order = t.slots.order :=
    (order_eq_of_iterate_error hmoved hσ hx hr :)
  have hasked : t'.asked.size = s'.asked.size := congrArg Array.size hkeeps'.asked
  have hasked₀ : t.asked.size = s.asked.size := congrArg Array.size hkeeps.asked
  refine ⟨⟨why, rfl⟩, hpoint, horder, ?_⟩
  rcases hend with ⟨hs', hle⟩ | ⟨n, σ', htorn, hs', hsize⟩
  · have hholds' := hkeeps'.holds (hs'.trans hσ)
    refine .inl ⟨(hkeeps.holds hσ).slots_eq hholds' horder, ?_⟩
    rw [hasked, hasked₀]
    exact hle
  · refine .inr ⟨n, ?_, ?_⟩
    · have hbefore := (hkeeps.holds hσ).vertices?_eq
      have hafter := (hkeeps'.holds hs').vertices?_eq
      obtain ⟨hothers, hshrunk⟩ := htorn
      refine .intro ?_ hafter hshrunk
      rw [hbefore, Simplex.vertices, hothers]
    · rw [hasked, hasked₀]
      exact hsize

/-- The slots are not always as before: a vertex that gets no answer while it is shrunk has been moved
already. -/
theorem not_forall_unanswered_slots_eq :
    ¬ ∀ (f₀ f : Objective) (o : Options) (t t' : Store) (x : Point) (e : Halt),
      Reachable f₀ o t → t.slots.points ≠ #[] → f.dim = f₀.dim → x.length = f.dim →
      iterate f { t with point := x } = .error e t' → t'.slots = t.slots ∧ t'.point = x := by
  intro h
  obtain ⟨hslots, -⟩ := h flat flat _ flatUnanswered flatTorn [0] _ reachable_flatUnanswered
    (by decide) rfl rfl iterate_flatUnanswered
  exact absurd hslots (by decide +kernel)

/-- A shrinkage whose only vertex gets no answer. -/
theorem iterate_unanswered_flat :
    Reachable flat { zeroStep := 8 } flatUnanswered ∧ flatUnanswered.slots.points ≠ #[] ∧
      iterate flat { flatUnanswered with point := [0] } =
        .error (.fault (.stuck (.malformed 6))) flatTorn ∧
      flatTorn.slots.order = flatUnanswered.slots.order ∧
      flatUnanswered.slots.Torn flat { zeroStep := 8 } flatTorn.slots 0 := by
  have hne : flatUnanswered.slots.points ≠ #[] := by decide
  obtain ⟨-, -, horder, hcases⟩ :=
    iterate_unanswered reachable_flatUnanswered hne rfl rfl iterate_flatUnanswered
  refine ⟨reachable_flatUnanswered, hne, iterate_flatUnanswered, horder, ?_⟩
  rcases hcases with ⟨-, hle⟩ | ⟨n, htorn, hsize⟩
  · exact absurd hle (by decide)
  · have hthree : flatTorn.asked.size = flatUnanswered.asked.size + 3 := by decide
    obtain rfl : n = 0 := by omega
    exact htorn

end Iterations

end InPlace

end Downhill
