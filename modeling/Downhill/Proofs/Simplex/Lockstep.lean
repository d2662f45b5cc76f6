import Downhill.Proofs.Simplex.Accesses

/-!
# The two searches in lockstep

A search in place and a search on a list of vertices ask, note and move alike. Beside each other, the
two are in one of the states of `Keeps`: the slots hold the simplex of the other search, which has
asked and noted the same. Parts of an iteration that start so end so, be it with a result or because
the objective has no answer (`Alike`).

What is proved: this for each move (`transform_alike`), for the first simplex (`lay_alike`) and for a
whole iteration (`iterate_alike`). So no access of the search in place fails, whatever the objective
does.
-/

namespace Downhill

namespace InPlace

open Simplex

/-! ### Searches side by side -/

/-- The slots hold a simplex, or are empty where there is none. -/
def Slots.HoldsAll (s : Slots) (dim : Nat) : Option Simplex → Prop
  | none => s = {}
  | some σ => s.Holds dim σ.vertices

/-- Beside a search on a list, a search in place has the options, the point and drafts of one
dimension, and has asked and noted the same. -/
structure Tracks (o : Options) (x : Point) (dim : Nat) (t : Store) (s : Search) : Prop where
  /-- The options are these. -/
  options : t.options = o
  /-- The point of the caller is this one. -/
  point : t.point = x
  /-- The drafts have the dimension. -/
  drafts : ∀ d, (t.drafts.get d).length = dim
  /-- Both have asked for the same points. -/
  asked : t.asked = s.asked
  /-- Both have noted the same. -/
  notes : t.notes = s.notes

/-- The search in place also holds the simplex of the other one. -/
structure Keeps (o : Options) (x : Point) (dim : Nat) (t : Store) (s : Search) : Prop
    extends Tracks o x dim t s where
  /-- The slots hold the simplex. -/
  simplex : t.slots.HoldsAll dim s.simplex

/-- Two runs end alike: both with results, or both with one fault of the objective. -/
inductive Alike {α β : Type} (onFault : Store → Search → Prop)
    (onValue : α → Store → β → Search → Prop) :
    EStateM.Result Halt Store α → EStateM.Result Failure Search β → Prop
  | value {a : α} {t : Store} {b : β} {s : Search} (h : onValue a t b s) :
      Alike onFault onValue (.ok a t) (.ok b s)
  | fault {why : Fault} {t : Store} {s : Search} (h : onFault t s) :
      Alike onFault onValue (.error (.fault why) t) (.error (.fault why) s)

section Alike

variable {α β γ δ : Type} {onFault : Store → Search → Prop} {onValue : α → Store → β → Search → Prop}
  {onNext : γ → Store → δ → Search → Prop} {t : Store} {s : Search}

/-- A result is that of the other run as well. -/
theorem Alike.of_ok {r : EStateM.Result Failure Search β} {a : α}
    (h : Alike onFault onValue (.ok a t) r) : ∃ b s, r = .ok b s ∧ onValue a t b s := by
  cases h with
  | value hv => exact ⟨_, _, rfl, hv⟩

/-- A run without a result has met a fault, and so has the other one. -/
theorem Alike.of_error {r : EStateM.Result Failure Search β} {e : Halt}
    (h : Alike onFault onValue (.error e t) r) :
    ∃ why s, e = .fault why ∧ r = .error (.fault why) s ∧ onFault t s := by
  cases h with
  | fault hf => exact ⟨_, _, rfl, rfl, hf⟩

/-- What follows alike runs ends alike if it does so after results that belong together. -/
theorem Alike.bind {x : Action α} {y : Search.Action β} (h : Alike onFault onValue (x t) (y s))
    {g : α → Action γ} {k : β → Search.Action δ}
    (hg : ∀ a t' b s', onValue a t' b s' → Alike onFault onNext (g a t') (k b s')) :
    Alike onFault onNext ((x >>= g) t) ((y >>= k) s) := by
  cases hx : x t with
  | ok a t' =>
    rw [hx] at h
    obtain ⟨b, s', hy, hv⟩ := h.of_ok
    rw [bind_of_ok hx, bind_of_ok hy]
    exact hg a t' b s' hv
  | error e t' =>
    rw [hx] at h
    obtain ⟨why, s', rfl, hy, hf⟩ := h.of_error
    rw [bind_of_error hx, bind_of_error hy]
    exact .fault hf

end Alike

section Tracks

variable {o : Options} {x : Point} {dim : Nat} {t : Store} {s : Search}

theorem Tracks.ask (h : Tracks o x dim t s) (p : Point) :
    Tracks o x dim { t with asked := t.asked.push p } { s with asked := s.asked.push p } :=
  ⟨h.options, h.point, h.drafts, congrArg (·.push p) h.asked, h.notes⟩

theorem Tracks.note (h : Tracks o x dim t s) (n : Note) :
    Tracks o x dim { t with notes := t.notes.push n } { s with notes := s.notes.push n } :=
  ⟨h.options, h.point, h.drafts, h.asked, congrArg (·.push n) h.notes⟩

theorem Tracks.draw (h : Tracks o x dim t s) (d : Draft) {p : Point} (hp : p.length = dim) :
    Tracks o x dim { t with drafts := t.drafts.set d p } s where
  options := h.options
  point := h.point
  drafts e := by
    by_cases he : e = d
    · subst he
      rw [Drafts.get_set_self]
      exact hp
    · rw [Drafts.get_set_of_ne _ he]
      exact h.drafts e
  asked := h.asked
  notes := h.notes

/-- What the slots hold is of no concern. -/
theorem Tracks.slots (h : Tracks o x dim t s) (slots : Slots) :
    Tracks o x dim { t with slots } s :=
  ⟨h.options, h.point, h.drafts, h.asked, h.notes⟩

theorem Tracks.place (h : Tracks o x dim t s) (simplex : Option Simplex) :
    Tracks o x dim t { s with simplex } :=
  ⟨h.options, h.point, h.drafts, h.asked, h.notes⟩

end Tracks

/-! ### Questions -/

section Questions

variable {α β : Type} {onValue : α → Store → β → Search → Prop} {o : Options} {x : Point} {dim : Nat}
  {t : Store} {s : Search} {f : Objective} {p : Point}

theorem Keeps.ask (h : Keeps o x dim t s) (p : Point) :
    Keeps o x dim { t with asked := t.asked.push p } { s with asked := s.asked.push p } :=
  ⟨h.toTracks.ask p, h.simplex⟩

/-- The objective gives both searches the same answer, or none to either. -/
theorem ask_cases (h : t.asked = s.asked) (f : Objective) (p : Point) :
    (∃ y, y.isNaN = false ∧ ask f p t = .ok y { t with asked := t.asked.push p } ∧
      Search.ask f p s = .ok y { s with asked := s.asked.push p }) ∨
    (∃ why, ask f p t = .error (.fault why) { t with asked := t.asked.push p } ∧
      Search.ask f p s = .error (.fault why) { s with asked := s.asked.push p }) := by
  cases hy : f.apply (s.asked.size + 1) p with
  | ok y =>
    refine .inl ⟨rankedValue y, (isRanked_rankedValue y).isNaN, ?_, Search.ask_of_ok hy⟩
    simp only [ask, h, hy]
  | error why =>
    refine .inr ⟨why, ?_, Search.ask_of_error hy⟩
    simp only [ask, h, hy]

/-- What follows an answer is to end alike whatever the answer is. -/
theorem ask_bind_alike (h : Keeps o x dim t s) {g : Float → Action α} {k : Float → Search.Action β}
    (hg : ∀ y t' s', y.isNaN = false → Keeps o x dim t' s' → t'.slots = t.slots →
      t'.drafts = t.drafts → s'.simplex = s.simplex →
      Alike (Keeps o x dim) onValue (g y t') (k y s')) :
    Alike (Keeps o x dim) onValue ((ask f p >>= g) t) ((Search.ask f p >>= k) s) := by
  rcases ask_cases h.asked f p with ⟨y, hy, ht, hs⟩ | ⟨why, ht, hs⟩
  · rw [bind_of_ok ht, bind_of_ok hs]
    exact hg y _ _ hy (h.ask p) rfl rfl rfl
  · rw [bind_of_error ht, bind_of_error hs]
    exact .fault (h.ask p)

theorem probe_bind (p : Point) (k : Vertex → Search.Action β) :
    Search.probe f p >>= k = Search.ask f p >>= fun y => k ⟨p, y⟩ := by
  rw [Search.probe, bind_assoc]
  simp only [pure_bind]

/-- What follows the vertex of an answer. -/
theorem probe_bind_alike (h : Keeps o x dim t s) {g : Float → Action α}
    {k : Vertex → Search.Action β}
    (hg : ∀ y t' s', y.isNaN = false → Keeps o x dim t' s' → t'.slots = t.slots →
      t'.drafts = t.drafts → s'.simplex = s.simplex →
      Alike (Keeps o x dim) onValue (g y t') (k ⟨p, y⟩ s')) :
    Alike (Keeps o x dim) onValue ((ask f p >>= g) t) ((Search.probe f p >>= k) s) := by
  rw [probe_bind]
  exact ask_bind_alike h hg

end Questions

/-! ### Moves -/

section Moves

variable {f : Objective} {o : Options} {x : Point} {dim : Nat} {t : Store} {s : Search}
  {best worst : Vertex} {middle : List Vertex}

theorem Keeps.holds (h : Keeps o x dim t s) {σ : Simplex} (hσ : s.simplex = some σ) :
    t.slots.Holds dim σ.vertices := by
  have hall := h.simplex
  rw [hσ] at hall
  exact hall

theorem Keeps.slots_eq (h : Keeps o x dim t s) (hσ : s.simplex = none) : t.slots = {} := by
  have hall := h.simplex
  rw [hσ] at hall
  exact hall

/-- A draft is drawn, and nothing else changes. -/
theorem exists_drawLine (h : Keeps o x dim t s) (d : Draft) (τ : Float) {a b : Point}
    (ha : a.length = dim) (hb : b.length = dim) :
    ∃ t', drawLine d τ a b t = .ok () t' ∧ Keeps o x dim t' s ∧ t'.slots = t.slots ∧
      t'.drafts = t.drafts.set d (along τ a b) :=
  ⟨_, drawLine_apply τ ((h.drafts d).trans ha.symm) ((h.drafts d).trans hb.symm),
    ⟨h.draw d (length_along_of_eq τ ha hb), h.simplex⟩, rfl, rfl⟩

/-- What a move has come to: both report it, and the slots hold the vertices it leaves. -/
def Moved (o : Options) (x : Point) (dim : Nat) (best : Vertex) (move : Move) (t : Store)
    (result : Move × List Vertex) (s : Search) : Prop :=
  result.1 = move ∧ Tracks o x dim t s ∧ t.slots.Holds dim (best :: result.2)

/-- The vertices in the slots that are left are moved one after the other. -/
theorem shrink_alike (moved : List Vertex) {rest : List Vertex} (h : Tracks o x dim t s)
    (hholds : t.slots.Holds dim (best :: (moved ++ rest)))
    (hdraft : t.drafts.get .contraction = best.point) :
    Alike (Keeps o x dim)
      (fun _ t' others s' => Tracks o x dim t' s' ∧ t'.slots.Holds dim (best :: others))
      (shrink f (t.slots.order.toList.drop (moved.length + 1)) t)
      (Search.shrink f o best moved rest s) := by
  induction rest generalizing moved t s with
  | nil =>
    rw [List.append_nil] at hholds
    have hdrop : t.slots.order.toList.drop (moved.length + 1) = [] := by
      rw [List.drop_eq_nil_iff, Array.length_toList, hholds.size_order, ← hholds.length_eq,
        List.length_cons]
    rw [hdrop]
    exact .value ⟨h, hholds⟩
  | cons v rest ih =>
    have hsplit : t.slots.Holds dim ((best :: moved) ++ v :: rest) := hholds
    have hbest : best.point.length = dim := hholds.length_point _ List.mem_cons_self
    have hv : v.point.length = dim := hholds.length_point v (by simp)
    obtain ⟨slot, hslot, hpoint, hvalue⟩ :=
      hholds.exists_slot (r := moved.length + 1) (v := v) (by simp)
    have hdrop : t.slots.order.toList.drop (moved.length + 1) =
        slot :: t.slots.order.toList.drop (moved.length + 2) := by
      rw [← Array.getElem?_toList, List.getElem?_eq_some_iff] at hslot
      obtain ⟨hlt, hget⟩ := hslot
      rw [List.drop_eq_getElem_cons hlt, hget]
    -- the point is written first
    have hp : (along o.shrinkage best.point v.point).length = dim :=
      length_along_of_eq _ hbest hv
    have hput : (t.slots.points.setIfInBounds slot (along o.shrinkage best.point v.point))[slot]? =
        some (along o.shrinkage best.point v.point) := by
      rw [Array.getElem?_setIfInBounds_self, if_pos (Array.getElem?_eq_some_iff.mp hpoint).1]
    have hmoved := hsplit.setPoint hslot hp
    rw [hdrop, shrink, Search.shrink, bind_draft, bind_fetch hpoint, hdraft,
      bind_agree (hbest.trans hv.symm), bind_get, h.options, line_eq_along,
      bind_of_ok (putPoint_apply hpoint (hv.trans hp.symm)), bind_fetch hput,
      bind_of_ok (Search.place_apply _ _)]
    refine ask_bind_alike ?_ fun y t' s' hy h' hslots hdrafts _ => ?_
    · exact ⟨(h.slots _).place _, hmoved⟩
    -- then the value
    · have hvalue' : t'.slots.values[slot]? = some v.value := by
        rw [hslots]
        exact hvalue
      have hnext := hmoved.setValue hslot hy
      rw [List.cons_append, List.append_cons] at hnext
      have hrest := ih (s := s') _ (h'.toTracks.slots _) hnext (hdrafts ▸ hdraft)
      rw [List.length_append, List.length_singleton] at hrest
      rw [bind_of_ok (putValue_apply hvalue'), hslots]
      exact hrest

/-- A draft takes the place of the worst vertex. -/
theorem replace_bind_alike (h : Tracks o x dim t s)
    (hholds : t.slots.Holds dim (best :: (middle ++ [worst]))) {slot : Nat}
    (hslot : t.slots.order[middle.length + 1]? = some slot) {d : Draft} {p : Point}
    (hp : t.drafts.get d = p) {y : Float} (hy : y.isNaN = false) (move : Move)
    {onFault : Store → Search → Prop} :
    Alike onFault (Moved o x dim best) ((replace slot d y >>= fun _ => pure move) t)
      ((pure (move, middle ++ [⟨p, y⟩]) : Search.Action _) s) := by
  have hsplit : t.slots.Holds dim ((best :: middle) ++ worst :: []) := hholds
  obtain ⟨slots, hreplace, hnext⟩ := replace_apply hsplit hslot (h.drafts d) hy
  rw [bind_of_ok hreplace, ← hp]
  exact .value ⟨rfl, h.slots slots, hnext⟩

/-- The better one of the reflected and the expanded vertex replaces the worst. -/
theorem expand_alike (h : Keeps o x dim t s) (hσ : s.simplex = some ⟨best, middle ++ [worst]⟩)
    {slot : Nat} (hslot : t.slots.order[middle.length + 1]? = some slot) {y : Float}
    (hy : y.isNaN = false) :
    Alike (Keeps o x dim) (Moved o x dim best) (expand f slot y t)
      (Search.expand f o (t.drafts.get .centroid) ⟨t.drafts.get .reflection, y⟩ middle s) := by
  obtain ⟨t₁, hdraw, h₁, hslots₁, hdrafts₁⟩ :=
    exists_drawLine h .expansion o.expansion (h.drafts .centroid) (h.drafts .reflection)
  rw [expand, Search.expand, bind_get, bind_draft, bind_draft, h.options, bind_of_ok hdraw,
    bind_draft, hdrafts₁, Drafts.get_set_self]
  refine probe_bind_alike h₁ fun z t' s' hz h' hslots hdrafts hσ' => ?_
  have hholds := h'.holds (hσ'.trans hσ)
  have hslot' : t'.slots.order[middle.length + 1]? = some slot := by rw [hslots, hslots₁, hslot]
  by_cases hlt : z < y
  · simp only [hlt, if_true]
    refine replace_bind_alike h'.toTracks hholds hslot' ?_ hz .expansion
    rw [hdrafts, hdrafts₁, Drafts.get_set_self]
  · simp only [hlt, if_false]
    refine replace_bind_alike h'.toTracks hholds hslot' ?_ hy .reflection
    rw [hdrafts, hdrafts₁, Drafts.get_set_of_ne _ (by decide)]

/-- The contracted vertex replaces the worst if it is better, and otherwise all are shrunk. -/
theorem contract_alike (h : Keeps o x dim t s) (hσ : s.simplex = some ⟨best, middle ++ [worst]⟩)
    {first last : Nat} (hfirst : t.slots.order[0]? = some first)
    (hlast : t.slots.order[middle.length + 1]? = some last) :
    Alike (Keeps o x dim) (Moved o x dim best) (contract f first last t)
      (Search.contract f o (t.drafts.get .centroid) best middle worst s) := by
  have hholds : t.slots.Holds dim (best :: (middle ++ [worst])) := h.holds hσ
  obtain ⟨hbest, -⟩ := hholds.read_slot (v := best) rfl hfirst
  obtain ⟨hworst, hworstValue⟩ := hholds.read_slot (v := worst) (by simp) hlast
  have hworstLength : worst.point.length = dim := hholds.length_point worst (by simp)
  obtain ⟨t₁, hdraw, h₁, hslots₁, hdrafts₁⟩ :=
    exists_drawLine h .contraction o.contraction (h.drafts .centroid) hworstLength
  rw [contract, Search.contract, bind_get, bind_draft, bind_fetch hworst, h.options,
    bind_of_ok hdraw, bind_draft, hdrafts₁, Drafts.get_set_self]
  refine probe_bind_alike h₁ fun y t' s' hy h' hslots hdrafts hσ' => ?_
  have hsame : t'.slots = t.slots := hslots.trans hslots₁
  have hvalue : t'.slots.values[last]? = some worst.value := by rw [hsame, hworstValue]
  rw [bind_fetch hvalue]
  by_cases hlt : y < worst.value
  · simp only [hlt, if_true]
    refine replace_bind_alike h'.toTracks (h'.holds (hσ'.trans hσ)) ?_ ?_ hy .contraction
    · rw [hsame, hlast]
    · rw [hdrafts, hdrafts₁, Drafts.get_set_self]
  · simp only [hlt, if_false]
    have hpoint : t'.slots.points[first]? = some best.point := by rw [hsame, hbest]
    have hcopy := h'.toTracks.draw .contraction (hholds.length_point best List.mem_cons_self)
    rw [bind_fetch hpoint, bind_of_ok (draw_apply ((h'.drafts _).trans
      (hholds.length_point best List.mem_cons_self).symm)), bind_get]
    refine Alike.bind (shrink_alike [] hcopy ?_ ?_) ?_
    · exact h'.holds (hσ'.trans hσ)
    · exact Drafts.get_set_self t'.drafts .contraction best.point
    · rintro _ u others u' ⟨htracks, hshrunk⟩
      exact .value ⟨rfl, htracks, hshrunk⟩

/-- The center of the vertices but the worst is drawn, and nothing else changes. -/
theorem exists_drawCentroid (h : Keeps o x dim t s)
    (hσ : s.simplex = some ⟨best, middle ++ [worst]⟩) :
    ∃ t', drawCentroid (middle.length + 1) t = .ok () t' ∧ Keeps o x dim t' s ∧
      t'.slots = t.slots ∧ t'.drafts.get .centroid = center best middle := by
  have hholds : t.slots.Holds dim (best :: (middle ++ [worst])) := h.holds hσ
  have hbest : best.point.length = dim := hholds.length_point best List.mem_cons_self
  have hcenter : (center best middle).length = dim :=
    length_center hbest fun v hv => hholds.length_point v (by simp [hv])
  have htake : (best :: (middle ++ [worst])).take (middle.length + 1) = best :: middle := by simp
  have hmean := drawCentroid_apply hholds (h.drafts .centroid) (n := middle.length + 1) (by simp)
  rw [htake, ← hbest] at hmean
  exact ⟨_, hmean, ⟨h.draw .centroid hcenter, h.simplex⟩, rfl,
    Drafts.get_set_self t.drafts .centroid _⟩

/-- Both searches note the same. -/
theorem exists_note (h : Keeps o x dim t s) (n : Note) :
    ∃ t' s', note n t = .ok () t' ∧ Search.note n s = .ok () s' ∧ Keeps o x dim t' s' ∧
      t'.slots = t.slots ∧ t'.drafts = t.drafts ∧ s'.simplex = s.simplex :=
  ⟨_, _, rfl, Search.note_apply n s, ⟨h.toTracks.note n, h.simplex⟩, rfl, rfl, rfl⟩

/-- **A move in place is the move of the list.** -/
theorem transform_alike (h : Keeps o x dim t s) (hσ : s.simplex = some ⟨best, middle ++ [worst]⟩) :
    Alike (Keeps o x dim) (Moved o x dim best) (transform f middle.length t)
      (Search.transform f o best middle worst s) := by
  -- the center
  obtain ⟨t₁, hmean, h₁, hslots₁, hcenter₁⟩ := exists_drawCentroid h hσ
  obtain ⟨t₂, s₂, hnote, hnote', h₂, hslots₂, hdrafts₂, hσ₂⟩ :=
    exists_note h₁ (.centroid (center best middle))
  have hσ₂ : s₂.simplex = some ⟨best, middle ++ [worst]⟩ := hσ₂.trans hσ
  have hcenter₂ : t₂.drafts.get .centroid = center best middle := by rw [hdrafts₂, hcenter₁]
  -- the vertices that matter
  have hholds : t₂.slots.Holds dim (best :: (middle ++ [worst])) := h₂.holds hσ₂
  have hsecond : (best :: (middle ++ [worst]))[middle.length]? =
      some (middle.getLast?.getD best) := by
    rcases List.eq_nil_or_concat middle with rfl | ⟨front, last, rfl⟩
    · rfl
    · simp
  obtain ⟨first, hfirst, -, hfirstValue⟩ := hholds.exists_slot (r := 0) (v := best) rfl
  obtain ⟨second, hsecondSlot, -, hsecondValue⟩ := hholds.exists_slot hsecond
  obtain ⟨last, hlast, hworst, -⟩ :=
    hholds.exists_slot (r := middle.length + 1) (v := worst) (by simp)
  -- the reflection
  obtain ⟨t₃, hdraw, h₃, hslots₃, hdrafts₃⟩ :=
    exists_drawLine h₂ .reflection (-o.reflection) (h₂.drafts .centroid)
      (hholds.length_point worst (by simp))
  rw [transform, Search.transform_eq, bind_of_ok hmean, bind_draft, hcenter₁, bind_of_ok hnote,
    bind_of_ok hnote', bind_fetch hfirst, bind_fetch hsecondSlot, bind_fetch hlast, bind_get,
    bind_draft, bind_fetch hworst, h₂.options, bind_of_ok hdraw, bind_draft, hdrafts₃,
    Drafts.get_set_self, hcenter₂]
  refine probe_bind_alike h₃ fun y t' s' hy h' hslots hdrafts hσ' => ?_
  have hσ' : s'.simplex = some ⟨best, middle ++ [worst]⟩ := hσ'.trans hσ₂
  have hsame : t'.slots = t₂.slots := hslots.trans hslots₃
  have hdraft : t'.drafts.get .reflection =
      along (-o.reflection) (center best middle) worst.point := by
    rw [hdrafts, hdrafts₃, Drafts.get_set_self, hcenter₂]
  have hcenter : t'.drafts.get .centroid = center best middle := by
    rw [hdrafts, hdrafts₃, Drafts.get_set_of_ne _ (by decide), hcenter₂]
  rw [← hsame] at hfirst hlast hfirstValue hsecondValue
  rw [bind_fetch hfirstValue, bind_fetch hsecondValue]
  by_cases hbetween : best.value ≤ y ∧ y < (middle.getLast?.getD best).value
  · simp only [hbetween, and_self, if_true]
    exact replace_bind_alike h'.toTracks (h'.holds hσ') hlast hdraft hy .reflection
  · rw [if_neg hbetween, if_neg hbetween]
    by_cases hlt : y < best.value
    · rw [if_pos hlt, if_pos hlt, ← hdraft, ← hcenter]
      exact expand_alike h' hσ' hlast hy
    · rw [if_neg hlt, if_neg hlt, ← hcenter]
      exact contract_alike h' hσ' hfirst hlast

end Moves

/-! ### The first simplex -/

section Laying

variable {f : Objective} {o : Options} {x : Point} {dim : Nat} {t : Store} {s : Search}

/-- Slots with the vertices listed, before there is an order. -/
def Slots.filled (vs : List Vertex) : Slots where
  points := (vs.map Vertex.point).toArray
  values := (vs.map Vertex.value).toArray

theorem Slots.filled_push (vs : List Vertex) (p : Point) (y : Float) :
    (⟨(filled vs).points.push p, (filled vs).values.push y, (filled vs).order⟩ : Slots) =
      filled (vs ++ [⟨p, y⟩]) := by
  simp [filled]

/-- With the slots in order as they are, the vertices are held. -/
theorem Slots.holds_filled {vs : List Vertex} (hlen : vs.length = dim + 1)
    (hvs : ∀ v ∈ vs, v.point.length = dim ∧ v.value.isNaN = false) :
    Holds { filled vs with order := (List.range (dim + 1)).toArray } dim vs where
  order_perm := .refl _
  size_points := by simp [filled, hlen]
  size_values := by simp [filled, hlen]
  listed := by
    refine List.ext_getElem (by simp [hlen]) fun i hi hi' => ?_
    have hlt : i < vs.length := by simpa using hi'
    simp [vertex?, filled, hlt]
  length_point v hv := (hvs v hv).1
  isNaN v hv := (hvs v hv).2

/-- The points around that of the caller are put in slots one after the other. -/
theorem layAround_alike (laid : List Vertex) (h : Tracks o x dim t s)
    (hlaid : t.slots = .filled laid) (hσ : s.simplex = none) {js : List Nat}
    (hjs : ∀ j ∈ js, j < x.length) :
    Alike (Keeps o x dim)
      (fun _ t' vs s' => Tracks o x dim t' s' ∧ t'.slots = .filled (laid ++ vs) ∧
        s'.simplex = none ∧ vs.map Vertex.point = js.map (fun j => x.modify j o.nudge) ∧
        ∀ v ∈ vs, v.value.isNaN = false)
      (layAround f x js t) (Search.probeAll f (js.map fun j => x.modify j o.nudge) s) := by
  induction js generalizing laid t s with
  | nil =>
    refine .value ⟨h, ?_, hσ, rfl, ?_⟩
    · rw [hlaid, List.append_nil]
    · intro v hv
      cases hv
  | cons j js ih =>
    obtain ⟨c, hc⟩ : ∃ c, x[j]? = some c :=
      ⟨_, List.getElem?_eq_getElem (hjs j List.mem_cons_self)⟩
    have hset : x.set j (o.nudge c) = x.modify j o.nudge := by
      rw [List.modify_eq_set_getElem?, hc]
      rfl
    rw [layAround, hc, List.map_cons, Search.probeAll, probe_bind]
    dsimp only
    rw [bind_get, h.options, hset]
    rcases ask_cases h.asked f (x.modify j o.nudge) with ⟨y, hy, ht, hs⟩ | ⟨why, ht, hs⟩
    · have hask : askOrClear f (x.modify j o.nudge) t =
          .ok y { t with asked := t.asked.push (x.modify j o.nudge) } := by rw [askOrClear, ht]
      rw [bind_of_ok hask, bind_of_ok hs, push, bind_modify, hlaid, Slots.filled_push,
        ← bind_pure (layAround f x js)]
      refine Alike.bind (ih _ ((h.ask _).slots _) rfl hσ fun i hi => hjs i (List.mem_cons_of_mem _ hi))
        ?_
      rintro _ t' vs s' ⟨h', hslots, hσ', hpoints, hnum⟩
      refine .value ⟨h', ?_, hσ', ?_, ?_⟩
      · rw [hslots, List.append_assoc, List.singleton_append]
      · rw [List.map_cons, hpoints]
      · intro v hv
        rcases List.mem_cons.mp hv with rfl | hv
        · exact hy
        · exact hnum v hv
    · have hask : askOrClear f (x.modify j o.nudge) t = .error (.fault why) { t with
          asked := t.asked.push (x.modify j o.nudge)
          slots := {} } := by rw [askOrClear, ht, hlaid]; rfl
      rw [bind_of_error hask, bind_of_error hs]
      refine .fault ⟨(h.ask _).slots _, ?_⟩
      rw [hσ]
      rfl

/-- The slots laid are ranked as the list is. -/
theorem arrange_alike {v : Vertex} {vs : List Vertex} (h : Tracks o x dim t s)
    (hslots : t.slots = .filled (v :: vs)) (hlen : vs.length = dim)
    (hvs : ∀ w ∈ v :: vs, w.point.length = dim ∧ w.value.isNaN = false)
    {onFault : Store → Search → Prop} :
    Alike onFault (fun _ t' σ s' => Keeps o x dim t' s' ∧ s'.simplex = some σ)
      (arrange (dim + 1) t)
      ((do Search.place (ranked v vs); return ranked v vs : Search.Action Simplex) s) := by
  have hlength : (v :: vs).length = dim + 1 := by rw [List.length_cons, hlen]
  have horder : (⟨t.slots.points, t.slots.values,
      t.slots.order ++ (List.range (dim + 1)).toArray⟩ : Slots) =
      { Slots.filled (v :: vs) with order := (List.range (dim + 1)).toArray } := by
    rw [hslots]
    simp [Slots.filled]
  obtain ⟨slots, hrank, hranked⟩ := rank_apply (t := { t with
    slots := { Slots.filled (v :: vs) with order := (List.range (dim + 1)).toArray } })
    (Slots.holds_filled hlength hvs)
  rw [← vertices_ranked] at hranked
  rw [arrange, bind_modify]
  dsimp only
  rw [horder, hrank]
  exact .value ⟨⟨(h.slots slots).place _, hranked⟩, rfl⟩

/-- **The first simplex in place is that of the list.** -/
theorem lay_alike (h : Keeps o x f.dim t s) (hσ : s.simplex = none) (hx : x.length = f.dim) :
    Alike (Keeps o x f.dim)
      (fun _ t' σ s' => Keeps o x f.dim t' s' ∧ s'.simplex = some σ)
      (lay f t) (Search.lay f o x s) := by
  have hempty : t.slots = {} := h.slots_eq hσ
  have hjs : ∀ j ∈ List.range f.dim, j < x.length := by
    intro j hj
    rw [hx]
    exact List.mem_range.mp hj
  rw [lay, Search.lay, bind_get, h.point, Search.neighbours, hx]
  refine probe_bind_alike h fun y t₁ s₁ hy h₁ hslots₁ _ hσ₁ => ?_
  have hfirst : t₁.slots = .filled [] := hslots₁.trans hempty
  rw [push, bind_modify, hfirst, Slots.filled_push]
  refine Alike.bind (layAround_alike _ (h₁.toTracks.slots _) rfl (hσ₁.trans hσ) hjs) ?_
  rintro _ t₂ vs s₂ ⟨h₂, hslots₂, -, hpoints, hnum⟩
  rw [List.nil_append, List.singleton_append] at hslots₂
  have hvs : ∀ w ∈ (⟨x, y⟩ :: vs : List Vertex),
      w.point.length = f.dim ∧ w.value.isNaN = false := by
    intro w hw
    rcases List.mem_cons.mp hw with rfl | hw
    · exact ⟨hx, hy⟩
    · have hmem : w.point ∈ vs.map Vertex.point := List.mem_map_of_mem hw
      rw [hpoints] at hmem
      obtain ⟨j, -, hj⟩ := List.mem_map.mp hmem
      exact ⟨by rw [← hj, List.length_modify, hx], hnum w hw⟩
  have hlen : vs.length = f.dim := by
    have hl := congrArg List.length hpoints
    rwa [List.length_map, List.length_map, List.length_range] at hl
  have hcount : (Slots.filled (⟨x, y⟩ :: vs)).values.countP (!·.isFinite) =
      (⟨x, y⟩ :: vs : List Vertex).countP (!·.value.isFinite) := by
    rw [Slots.filled, List.countP_toArray, List.countP_map]
    rfl
  have hsize : (Slots.filled (⟨x, y⟩ :: vs)).points.size = (⟨x, y⟩ :: vs : List Vertex).length := by
    rw [Slots.filled, List.size_toArray, List.length_map]
  rw [bind_get, hslots₂, hcount, hsize]
  dsimp only
  split
  · rw [bind_note, bind_of_ok (Search.note_apply _ _)]
    exact arrange_alike (h₂.note _) hslots₂ hlen hvs
  · exact arrange_alike h₂ hslots₂ hlen hvs

end Laying

/-! ### Iterations -/

section Iterations

variable {f : Objective} {o : Options} {x : Point} {dim : Nat} {t : Store} {s : Search}

/-- What an iteration has come to: the best vertex is in both, and its point is that of the
caller. -/
def Done (o : Options) (dim : Nat) (y : Float) (t : Store) (reached : Reached) (s : Search) : Prop :=
  y = reached.best.value ∧ Keeps o reached.best.point dim t s ∧
    ∃ σ, s.simplex = some σ ∧ σ.best = reached.best

/-- The slots are ranked, and the other search has ranked its list. -/
theorem exists_rank {best : Vertex} {others : List Vertex} (h : Tracks o x dim t s)
    (hholds : t.slots.Holds dim (best :: others)) :
    ∃ t', rank t = .ok () t' ∧
      Keeps o x dim t' { s with simplex := some (ranked best others) } := by
  obtain ⟨slots, hrank, hranked⟩ := rank_apply hholds
  rw [← vertices_ranked] at hranked
  exact ⟨_, hrank, (h.slots slots).place _, hranked⟩

theorem exists_noteMove (h : Keeps o x dim t s) {σ : Simplex} (hσ : s.simplex = some σ)
    (move : Move) :
    ∃ t', noteMove move dim t = .ok () t' ∧ Keeps o x dim t'
      { s with notes := s.notes.push (.performed move σ.best.value σ.worst.value) } :=
  ⟨_, noteMove_apply (h.holds hσ) move, h.toTracks.note _, h.simplex⟩

/-- Both end with the best vertex. -/
theorem finish_alike (h : Keeps o x dim t s) {σ : Simplex} (hσ : s.simplex = some σ)
    (hx : x.length = dim) (move : Option Move) {onFault : Store → Search → Prop} :
    Alike onFault (Done o dim) (finish t) ((pure ⟨σ.best, move⟩ : Search.Action Reached) s) := by
  rw [finish_apply (h.holds hσ) (by rw [h.point, hx])]
  exact .value ⟨rfl, ⟨⟨h.options, rfl, h.drafts, h.asked, h.notes⟩, h.simplex⟩, σ, hσ, rfl⟩

/-- What an improvement in place does before the best point is given to the caller. -/
def advance (f : Objective) : Nat → Action Unit
  | 0 => return
  | n + 1 => do
    let move ← transform f n
    rank
    noteMove move (n + 1)

theorem improve_eq (f : Objective) (n : Nat) : improve f n = advance f n >>= fun _ => finish := by
  cases n with
  | zero => rfl
  | succ n =>
    rw [improve, advance]
    simp only [bind_assoc]

/-- Up to the point of the caller, of which nothing is asked, an improvement in place is one of the
list. -/
theorem advance_alike (h : Keeps o x dim t s) {σ : Simplex} (hσ : s.simplex = some σ) :
    Alike (Keeps o x dim)
      (fun _ t' reached s' => Keeps o x dim t' s' ∧ ∃ τ, s'.simplex = some τ ∧ τ.best = reached.best)
      (advance f dim t) (Search.improve f o σ s) := by
  have hcount : σ.others.length = dim := Nat.succ_injective (h.holds hσ).length_eq
  obtain ⟨best, others⟩ := σ
  rcases List.eq_nil_or_concat' others with rfl | ⟨middle, worst, rfl⟩
  · obtain rfl : dim = 0 := hcount.symm
    exact .value ⟨h, _, hσ, rfl⟩
  · obtain rfl : dim = middle.length + 1 := by
      rw [← hcount]
      exact List.length_append
    rw [advance]
    simp only [Search.improve, List.getLast?_concat, List.dropLast_concat]
    refine Alike.bind (transform_alike h hσ) ?_
    rintro _ t₁ ⟨move, others⟩ s₁ ⟨rfl, h₁, hmoved⟩
    obtain ⟨t₂, hrank, h₂⟩ := exists_rank h₁ hmoved
    obtain ⟨t₃, hnote, h₃⟩ := exists_noteMove h₂ rfl move
    rw [bind_of_ok hrank, hnote]
    dsimp only
    rw [bind_of_ok (Search.place_apply _ _), bind_of_ok (Search.note_apply _ _)]
    exact .value ⟨h₃, _, rfl, rfl⟩

/-- **An improvement in place is one of the list.** -/
theorem improve_alike (h : Keeps o x dim t s) {σ : Simplex} (hσ : s.simplex = some σ)
    (hx : x.length = dim) :
    Alike (Keeps o x dim) (Done o dim) (improve f dim t) (Search.improve f o σ s) := by
  rw [improve_eq, ← bind_pure (Search.improve f o σ)]
  refine Alike.bind (advance_alike h hσ) ?_
  rintro _ t' ⟨_, move⟩ s' ⟨h', τ, hτ, rfl⟩
  exact finish_alike h' hτ hx move

/-- There are slots where there is a simplex. -/
theorem Keeps.isEmpty_points (h : Keeps o x dim t s) :
    t.slots.points.isEmpty = s.simplex.isNone := by
  cases hσ : s.simplex with
  | none =>
    rw [h.slots_eq hσ]
    rfl
  | some σ =>
    rw [Option.isNone_some, Array.isEmpty_eq_false_iff]
    intro hempty
    have hsize := (h.holds hσ).size_points
    rw [hempty] at hsize
    cases hsize

/-- Without slots an iteration lays a simplex first. -/
theorem iterate_of_isEmpty (h : t.slots.points.isEmpty = true) :
    iterate f t = (lay f >>= fun _ => improve f f.dim) t := by
  rw [iterate, bind_get, if_pos h]

/-- With slots an iteration is an improvement. -/
theorem iterate_of_not_isEmpty (h : t.slots.points.isEmpty = false) :
    iterate f t = improve f f.dim t := by
  have hne : ¬ t.slots.points.isEmpty = true := by rw [h]; exact Bool.false_ne_true
  rw [iterate, bind_get, if_neg hne]

theorem iterate_of_none (h : Keeps o x dim t s) (hσ : s.simplex = none) :
    iterate f t = (lay f >>= fun _ => improve f f.dim) t :=
  iterate_of_isEmpty (by rw [h.isEmpty_points, hσ, Option.isNone_none])

theorem iterate_of_some (h : Keeps o x dim t s) {σ : Simplex} (hσ : s.simplex = some σ) :
    iterate f t = improve f f.dim t :=
  iterate_of_not_isEmpty (by rw [h.isEmpty_points, hσ, Option.isNone_some])

/-- **An iteration in place is one of the list**, from the first one on and after any that the
objective has ended. -/
theorem iterate_alike (h : Keeps o x f.dim t s) (hx : x.length = f.dim) :
    Alike (Keeps o x f.dim) (Done o f.dim) (iterate f t) (Search.iterate f o x s) := by
  -- from a simplex on
  have hrest : ∀ t' σ s', Keeps o x f.dim t' s' → s'.simplex = some σ →
      Alike (Keeps o x f.dim) (Done o f.dim) (improve f f.dim t')
        ((do
          let reached ← Search.improve f o σ
          if reached.best.point.length = x.length then return reached
          else throw (.misuse .shape) : Search.Action Reached) s') := by
    intro t' σ s' h' hσ'
    rw [← bind_pure (improve f f.dim)]
    refine Alike.bind (improve_alike h' hσ' hx) ?_
    rintro y u reached u' ⟨hy, hkeeps, τ, hτ, hbest⟩
    have hlen : reached.best.point.length = x.length := by
      rw [← hbest, hx]
      exact (hkeeps.holds hτ).length_point _ τ.best_mem
    rw [if_pos hlen]
    exact .value ⟨hy, hkeeps, τ, hτ, hbest⟩
  cases hσ : s.simplex with
  | none =>
    have hlay := lay_alike h hσ hx
    rw [← Search.simplexAround_of_none hσ] at hlay
    rw [iterate_of_none h hσ, Search.iterate]
    refine Alike.bind hlay ?_
    rintro _ t' σ s' ⟨h', hσ'⟩
    exact hrest t' σ s' h' hσ'
  | some σ =>
    rw [iterate_of_some h hσ, Search.iterate, bind_of_ok (Search.simplexAround_of_some hσ)]
    exact hrest t σ s h hσ

end Iterations

end InPlace

end Downhill
