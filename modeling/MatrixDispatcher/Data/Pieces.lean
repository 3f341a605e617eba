import Mathlib.Data.List.Infix

/-!
# Lists cut into pieces

A list may be cut into pieces with gaps between them, `g₀ ++ c₁ ++ g₁ ++ ⋯ ++ cₖ ++ gₖ`. A cut is
given as the list of its pieces, each with the gap before it; what comes after the last piece is
kept apart, since a cut grows there.

* `Pieces.flat` — the list that is made up of pieces and their gaps.
* `Pieces.weave` — the same from a list of gaps and a list of pieces, with one gap more.
* `Pieces.led` — pieces that have a gap before the first of them only.
* `Pieces.Touch` — a property of the pieces that have no gap between them, and the list before
  them; `Pieces.touch_append` adds pieces to a cut.
-/

namespace Pieces

variable {α : Type}

/-- The list that the pieces and the gaps before them make up. -/
def flat (ps : List (List α × List α)) : List α := ps.flatMap fun p => p.1 ++ p.2

@[simp] theorem flat_nil : flat ([] : List (List α × List α)) = [] := rfl

@[simp] theorem flat_cons (g c : List α) (ps : List (List α × List α)) :
    flat ((g, c) :: ps) = g ++ c ++ flat ps := by
  simp [flat]

@[simp] theorem flat_append (ps qs : List (List α × List α)) :
    flat (ps ++ qs) = flat ps ++ flat qs := by
  simp [flat]

/-- `g₀ ++ c₁ ++ g₁ ++ ⋯ ++ cₖ ++ gₖ`. -/
def weave : List (List α) → List (List α) → List α
  | g :: gaps, c :: pieces => g ++ c ++ weave gaps pieces
  | gaps, pieces => gaps.flatten ++ pieces.flatten

theorem weave_unzip (ps : List (List α × List α)) (g : List α) :
    weave (ps.map Prod.fst ++ [g]) (ps.map Prod.snd) = flat ps ++ g := by
  induction ps with
  | nil => simp [weave]
  | cons p ps ih =>
    obtain ⟨g', c⟩ := p
    rw [flat_cons, List.map_cons, List.map_cons, List.cons_append, weave, ih]
    simp

/-- What is before the `i`-th piece. -/
theorem weave_take {ps : List (List α × List α)} (g : List α) {i : Nat} (hi : i < ps.length) :
    weave ((ps.map Prod.fst ++ [g]).take (i + 1)) ((ps.map Prod.snd).take i) =
      flat (ps.take i) ++ ps[i].1 := by
  have htake : (ps.map Prod.fst ++ [g]).take (i + 1) = (ps.take i).map Prod.fst ++ [ps[i].1] := by
    have hi' : i < (ps.map Prod.fst).length := by simpa using hi
    rw [List.take_append_of_le_length hi', List.take_succ_eq_append_getElem hi',
      List.getElem_map, List.map_take]
  rw [htake, ← List.map_take, weave_unzip]

/-- Pieces with a gap before the first of them only. -/
def led (g : List α) : List (List α) → List (List α × List α)
  | [] => []
  | c :: cs => (g, c) :: led [] cs

@[simp] theorem map_snd_led (g : List α) (cs : List (List α)) : (led g cs).map Prod.snd = cs := by
  induction cs generalizing g with
  | nil => rfl
  | cons c cs ih => rw [led, List.map_cons, ih]

theorem flat_led (g : List α) {cs : List (List α)} (h : cs ≠ []) :
    flat (led g cs) = g ++ cs.flatten := by
  induction cs generalizing g with
  | nil => exact absurd rfl h
  | cons c cs ih =>
    rw [led, flat_cons, List.flatten_cons, ← List.append_assoc]
    rcases eq_or_ne cs [] with rfl | hne
    · rfl
    · rw [ih [] hne, List.nil_append]

theorem of_mem_led {g : List α} {cs : List (List α)} {p : List α × List α} (h : p ∈ led g cs) :
    (p.1 = g ∨ p.1 = []) ∧ p.2 ∈ cs := by
  induction cs generalizing g with
  | nil => cases h
  | cons c cs ih =>
    rcases List.mem_cons.mp h with rfl | h
    · exact ⟨.inl rfl, List.mem_cons_self⟩
    · exact ⟨.inr ((ih h).1.elim id id), List.mem_cons_of_mem c (ih h).2⟩

/-! ## Pieces that touch -/

/-- Where two pieces have no gap between them, `P` holds of what is before them and of the two. -/
def Touch (P : List α → List α → List α → Prop) (ps : List (List α × List α)) : Prop :=
  ∀ l g c c' r, ps = l ++ (g, c) :: ([], c') :: r → P (flat l ++ g) c c'

variable {P P' : List α → List α → List α → Prop} {ps qs : List (List α × List α)}

theorem touch_nil : Touch P [] := by
  intro l g c c' r h
  simp at h

theorem Touch.mono (hP : ∀ t c c', P t c c' → P' t c c') (h : Touch P ps) : Touch P' ps :=
  fun l g c c' r heq => hP _ _ _ (h l g c c' r heq)

/-- Pieces are added to a cut with a gap before them, unless they are the first. -/
theorem touch_append (hps : Touch P ps) (hqs : Touch (fun t => P (flat ps ++ t)) qs)
    (hgap : ps ≠ [] → ∀ p ∈ qs.head?, p.1 ≠ []) : Touch P (ps ++ qs) := by
  intro l g c c' r heq
  rcases List.append_eq_append_iff.mp heq with ⟨t, rfl, hqs'⟩ | ⟨t, rfl, hps'⟩
  · -- both pieces are new
    rw [flat_append, List.append_assoc]
    exact hqs t g c c' r hqs'
  · -- the first piece is an old one
    match t, hps' with
    | [], hps' =>
      have hnew := hqs [] g c c' r hps'.symm
      simpa using hnew
    | [p], hps' =>
      obtain ⟨rfl, rfl⟩ : (g, c) = p ∧ ([], c') :: r = qs := by simpa using hps'
      exact absurd rfl (hgap (by simp) ([], c') rfl)
    | p :: q :: t, hps' =>
      obtain ⟨rfl, rfl, -⟩ : (g, c) = p ∧ ([], c') = q ∧ r = t ++ qs := by simpa using hps'
      exact hps l g c c' t rfl

/-- One piece in front of a cut. -/
theorem touch_cons {g c : List α} (hfirst : ∀ c' r, qs = ([], c') :: r → P g c c')
    (hqs : Touch (fun t => P (g ++ c ++ t)) qs) : Touch P ((g, c) :: qs) := by
  intro l g' c₁ c₂ r heq
  cases l with
  | nil =>
    obtain ⟨⟨rfl, rfl⟩, rfl⟩ : (g = g' ∧ c = c₁) ∧ qs = ([], c₂) :: r := by simpa using heq
    exact hfirst c₂ r rfl
  | cons p l =>
    obtain ⟨rfl, rfl⟩ : (g, c) = p ∧ qs = l ++ (g', c₁) :: ([], c₂) :: r := by simpa using heq
    rw [flat_cons, List.append_assoc]
    exact hqs l g' c₁ c₂ r rfl

/-- One piece with a gap before it is added to a cut. -/
theorem touch_snoc {g c : List α} (hps : Touch P ps) (hgap : ps ≠ [] → g ≠ []) :
    Touch P (ps ++ [(g, c)]) := by
  refine touch_append hps (touch_cons (fun c' r h => by cases h) touch_nil) fun hne p hp => ?_
  · obtain rfl : (g, c) = p := by simpa using hp
    exact hgap hne

/-- The pieces by their number. -/
theorem Touch.getElem (h : Touch P ps) {i : Nat} (hi : i + 1 < ps.length)
    (hgap : ps[i + 1].1 = []) : P (flat (ps.take i) ++ ps[i].1) ps[i].2 ps[i + 1].2 := by
  refine h (ps.take i) ps[i].1 ps[i].2 ps[i + 1].2 (ps.drop (i + 2)) ?_
  have hpair : ([], ps[i + 1].2) = ps[i + 1] := by rw [← hgap]
  rw [hpair, ← List.drop_eq_getElem_cons hi, ← List.drop_eq_getElem_cons (by omega),
    List.take_append_drop]

end Pieces
