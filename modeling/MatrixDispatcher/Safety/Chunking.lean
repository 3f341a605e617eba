import MatrixDispatcher.Data.Pieces
import MatrixDispatcher.Matrixio
import Mathlib.Data.List.TakeWhile

/-!
# Chunks of a text

`split_on_paragraphs` cuts a text into chunks, with gaps of newlines between them. A gap is empty
only where a paragraph is too long for one chunk.

* `Severed` — the two pieces stand next to each other in a paragraph that is too long.
* `Packed` — what the loop has made of the paragraphs so far; `Packed.step` — one paragraph more.
* `exists_cut` — the chunks of a text, as a cut of it; `split_loses_newlines` says the same of the
  list of chunks.
-/

namespace MatrixDispatcher

open Pieces

/-! ## Paragraphs -/

/-- A string of newlines. -/
def Newlines (s : Str) : Prop := ∀ x ∈ s, x = '\n'

/-- The empty string is one of newlines. -/
theorem newlines_nil : Newlines [] := fun _ hx => by cases hx

/-- A blank line is one of newlines. -/
theorem newlines_blank : Newlines (lit "\n\n") := by simp [Newlines, lit]

/-- Two strings of newlines make one. -/
theorem Newlines.append {s s' : Str} (h : Newlines s) (h' : Newlines s') : Newlines (s ++ s') :=
  fun x hx => (List.mem_append.mp hx).elim (h x) (h' x)

/-- The text in front of a paragraph that comes after `before`. -/
def upTo (before : List Str) : Str := before.flatMap (· ++ lit "\n\n")

/-- Nothing stands in front of the first paragraph. -/
@[simp] theorem upTo_nil : upTo [] = [] := rfl

/-- The text of paragraphs is that of the first ones and then that of the others. -/
@[simp] theorem upTo_append (paras paras' : List Str) :
    upTo (paras ++ paras') = upTo paras ++ upTo paras' := by
  simp [upTo]

/-- A paragraph is followed by a blank line. -/
theorem upTo_singleton (para : Str) : upTo [para] = para ++ lit "\n\n" := by
  simp [upTo]

/-- Put together again, the paragraphs that the splitting loop makes of `s` are `s` and a blank
line; `acc` is the paragraph so far, reversed. -/
theorem upTo_splitBlankFrom (acc s : Str) :
    upTo (Str.splitBlankFrom acc s) = acc.reverse ++ s ++ lit "\n\n" := by
  fun_induction Str.splitBlankFrom acc s with
  | case1 acc rest ih =>
    rw [← List.singleton_append, upTo_append, upTo_singleton, ih]
    simp [lit]
  | case2 acc c rest _ ih =>
    rw [ih]
    simp
  | case3 acc => simp [upTo_singleton]

/-- The paragraphs make up the text. -/
theorem upTo_splitBlank (s : Str) : upTo s.splitBlank = s ++ lit "\n\n" := by
  rw [Str.splitBlank, upTo_splitBlankFrom, List.reverse_nil, List.nil_append]

/-- Every text has a paragraph. -/
theorem splitBlank_ne_nil (s : Str) : s.splitBlank ≠ [] := by
  intro h
  have hlength := congrArg List.length (upTo_splitBlank s)
  rw [h] at hlength
  simp [lit] at hlength

/-! ## Slices -/

/-- An empty text is cut into nothing. -/
theorem slices_nil {n : Nat} (hn : 0 < n) : slices n [] = [] := by
  have hlt : ([] : Str).length + n - 1 < n := by
    rw [List.length_nil]
    omega
  have hzero : (([] : Str).length + n - 1) / n = 0 := Nat.div_eq_of_lt hlt
  rw [slices, hzero]
  rfl

/-- A text is cut into its first `n` characters and the slices of the rest. -/
theorem slices_of_ne_nil {n : Nat} (hn : 0 < n) {s : Str} (hs : s ≠ []) :
    slices n s = s.take n :: slices n (s.drop n) := by
  have hpos : 0 < s.length := List.length_pos_iff.mpr hs
  have hcount : (s.length + n - 1) / n = ((s.drop n).length + n - 1) / n + 1 := by
    rw [List.length_drop]
    by_cases hle : s.length ≤ n
    · have hfirst : (s.length + n - 1) / n = 1 :=
        Nat.div_eq_of_lt_le (by omega) (by omega)
      have hrest : (s.length - n + n - 1) / n = 0 := Nat.div_eq_of_lt (by omega)
      rw [hfirst, hrest]
    · have hsplit : s.length + n - 1 = (s.length - n + n - 1) + n := by omega
      rw [hsplit, Nat.add_div_right _ hn]
  rw [slices, hcount, List.range_succ_eq_map, List.map_cons, List.map_map, slices]
  refine congrArg₂ List.cons (by simp) (List.map_congr_left fun i _ => ?_)
  simp [Nat.succ_mul, Nat.add_comm]

/-- Two pieces stand next to each other in a paragraph that is too long for one chunk, after the
text `t`. -/
def Severed (n : Nat) (paras : List Str) (t c c' : Str) : Prop :=
  ∃ before para after a b, paras = before ++ para :: after ∧ n < para.length ∧
    para = a ++ c ++ c' ++ b ∧ t = upTo before ++ a

/-- A cut within a paragraph is still one when another paragraph follows. -/
theorem Severed.mono {n : Nat} {paras t c c'} (para : Str) (h : Severed n paras t c c') :
    Severed n (paras ++ [para]) t c c' := by
  obtain ⟨before, para', after, a, b, rfl, hlong, hpara, ht⟩ := h
  exact ⟨before, para', after ++ [para], a, b, by simp, hlong, hpara, ht⟩

/-- The slices of a paragraph: `q` is what is left of it after `a`. -/
theorem touch_slices {n : Nat} (hn : 0 < n) {before after : List Str} {para : Str}
    (hlong : n < para.length) (q a t g : Str) (hq : para = a ++ q)
    (ht : t ++ g = upTo before ++ a) :
    Touch (fun t' => Severed n (before ++ para :: after) (t ++ t')) (led g (slices n q)) := by
  -- By induction on the length of what is left.
  induction hlength : q.length using Nat.strong_induction_on generalizing q a t g with
  | _ length ih =>
    by_cases hnil : q = []
    · rw [hnil, slices_nil hn]
      exact touch_nil
    rw [slices_of_ne_nil hn hnil, led]
    have hpos : 0 < q.length := List.length_pos_iff.mpr hnil
    -- The next slice moves from what is left to what was cut.
    have hrest : a ++ q = a ++ q.take n ++ q.drop n := by simp
    refine touch_cons (fun c' r hr => ?_) ?_
    · -- the next slice is in the same paragraph
      by_cases hdrop : q.drop n = []
      · rw [hdrop, slices_nil hn] at hr
        cases hr
      rw [slices_of_ne_nil hn hdrop, led] at hr
      obtain rfl : (q.drop n).take n = c' := by simpa using congrArg (·.head?.map Prod.snd) hr
      refine ⟨before, para, after, a, (q.drop n).drop n, rfl, hlong, ?_, ht⟩
      rw [hq, hrest, List.append_assoc (a ++ q.take n), List.take_append_drop]
    · have hlt : (q.drop n).length < length := by
        rw [List.length_drop]
        omega
      have hnext := ih (q.drop n).length hlt (q.drop n) (a ++ q.take n) (t ++ g ++ q.take n) []
        (hq.trans hrest) (by rw [List.append_nil, ht, List.append_assoc]) rfl
      simpa only [List.append_assoc] using hnext

/-- A slice has at most `n` characters. -/
theorem length_le_of_mem_slices {n : Nat} {s c : Str} (h : c ∈ slices n s) : c.length ≤ n := by
  obtain ⟨i, -, rfl⟩ := List.mem_map.mp h
  rw [List.length_take]
  omega

/-- Put together again, the slices are the text. -/
theorem flatten_slices {n : Nat} (hn : 0 < n) (s : Str) : (slices n s).flatten = s := by
  induction hlength : s.length using Nat.strong_induction_on generalizing s with
  | _ length ih =>
    by_cases hnil : s = []
    · rw [hnil, slices_nil hn, List.flatten_nil]
    have hpos : 0 < s.length := List.length_pos_iff.mpr hnil
    rw [slices_of_ne_nil hn hnil, List.flatten_cons,
      ih (s.drop n).length (by rw [List.length_drop]; omega) (s.drop n) rfl, List.take_append_drop]

/-! ## The loop -/

/-- What follows the paragraphs so far in the text. -/
def blankAfter (paras : List Str) : Str := if paras = [] then [] else lit "\n\n"

/-- Between paragraphs there are newlines only. -/
theorem newlines_blankAfter (paras : List Str) : Newlines (blankAfter paras) := by
  unfold blankAfter
  split
  · exact newlines_nil
  · exact newlines_blank

/-- The chunks with the gaps before them, and what the loop has made of the paragraphs so far:
`gap` is between the last chunk and `current`. -/
structure Packed (n : Nat) (paras : List Str) (ps : List (Str × Str)) (gap current : Str) :
    Prop where
  text : upTo paras = flat ps ++ gap ++ current ++ blankAfter paras
  newlines : ∀ p ∈ ps, Newlines p.1
  fits : ∀ p ∈ ps, p.2.length ≤ n
  gapNewlines : Newlines gap
  currentFits : current.length ≤ n
  /-- A chunk is being made only with a gap before it. -/
  apart : ps ≠ [] → current ≠ [] → gap ≠ []
  first : paras = [] → ps = [] ∧ current = []
  severed : Touch (Severed n paras) ps

namespace Packed

variable {n : Nat} {paras : List Str} {ps : List (Str × Str)} {gap current para : Str}

/-- The loop begins with no chunk and nothing in `current`. -/
theorem start (n : Nat) : Packed n [] [] [] [] where
  text := rfl
  newlines _ hp := by cases hp
  fits _ hp := by cases hp
  gapNewlines := newlines_nil
  currentFits := Nat.zero_le n
  apart hne := absurd rfl hne
  first _ := ⟨rfl, rfl⟩
  severed := touch_nil

/-- With the next paragraph, the text is the chunks, the gap, `current` and that paragraph. -/
theorem text_snoc (h : Packed n paras ps gap current) :
    upTo (paras ++ [para]) =
      flat ps ++ gap ++ current ++ blankAfter paras ++ para ++ lit "\n\n" := by
  rw [upTo_append, upTo_singleton, h.text, List.append_assoc _ para]

/-- After a paragraph comes a blank line. -/
theorem blankAfter_snoc : blankAfter (paras ++ [para]) = lit "\n\n" := by
  simp [blankAfter]

/-- The paragraph does not make the chunk too long. -/
theorem join {g c : Str} (h : Packed n paras ps gap current)
    (htext : current ++ blankAfter paras ++ para = g ++ c) (hg : Newlines g)
    (hgap : ps ≠ [] → c ≠ [] → gap ++ g ≠ []) (hc : c.length ≤ n) :
    Packed n (paras ++ [para]) ps (gap ++ g) c where
  text :=
    calc upTo (paras ++ [para])
      _ = flat ps ++ gap ++ (current ++ blankAfter paras ++ para) ++ lit "\n\n" := by
        rw [text_snoc h]
        simp only [List.append_assoc]
      _ = flat ps ++ (gap ++ g) ++ c ++ blankAfter (paras ++ [para]) := by
        rw [htext, blankAfter_snoc]
        simp only [List.append_assoc]
  newlines := h.newlines
  fits := h.fits
  gapNewlines := h.gapNewlines.append hg
  currentFits := hc
  apart := hgap
  first hnil := absurd hnil (by simp)
  severed := h.severed.mono fun _ _ _ => Severed.mono para

/-- The chunk is complete. -/
theorem push (h : Packed n paras ps gap current) (hne : current ≠ []) :
    Packed n paras (ps ++ [(gap, current)]) [] [] where
  text := by
    rw [h.text]
    simp
  newlines p hp := by
    rcases List.mem_append.mp hp with hp | hp
    · exact h.newlines p hp
    · rw [List.mem_singleton.mp hp]
      exact h.gapNewlines
  fits p hp := by
    rcases List.mem_append.mp hp with hp | hp
    · exact h.fits p hp
    · rw [List.mem_singleton.mp hp]
      exact h.currentFits
  gapNewlines := newlines_nil
  currentFits := Nat.zero_le n
  apart _ hnil := absurd rfl hnil
  first hnil := absurd (h.first hnil).2 hne
  severed := touch_snoc h.severed fun hps => h.apart hps hne

/-- The paragraph is too long for one chunk. -/
theorem sliced (hn : 0 < n) (h : Packed n paras ps gap []) (hlong : n < para.length) :
    Packed n (paras ++ [para]) (ps ++ led (gap ++ blankAfter paras) (slices n para)) [] [] where
  text := by
    have hne : slices n para ≠ [] := by
      intro hnil
      have hflat := flatten_slices hn para
      rw [hnil] at hflat
      rw [← hflat] at hlong
      exact absurd hlong (Nat.not_lt_zero n)
    rw [text_snoc h, blankAfter_snoc, flat_append, flat_led _ hne, flatten_slices hn]
    simp
  newlines p hp := by
    -- A chunk is an old one or a slice of the paragraph.
    rcases List.mem_append.mp hp with hp | hp
    · exact h.newlines p hp
    · rcases (of_mem_led hp).1 with heq | heq <;> rw [heq]
      · exact h.gapNewlines.append (newlines_blankAfter paras)
      · exact newlines_nil
  fits p hp := by
    rcases List.mem_append.mp hp with hp | hp
    · exact h.fits p hp
    · exact length_le_of_mem_slices (of_mem_led hp).2
  gapNewlines := newlines_nil
  currentFits := Nat.zero_le n
  apart _ hnil := absurd rfl hnil
  first hnil := absurd hnil (by simp)
  severed := by
    refine touch_append (h.severed.mono fun _ _ _ => Severed.mono para) ?_ fun hps p hp => ?_
    · refine touch_slices hn hlong para [] (flat ps) _ rfl ?_
      rw [h.text]
      simp
    · -- a blank line comes before a paragraph that is not the first
      have hparas : paras ≠ [] := fun hnil => hps (h.first hnil).1
      cases hslices : slices n para with
      | nil => rw [hslices] at hp; cases hp
      | cons c cs =>
        rw [hslices] at hp
        obtain rfl := Option.some.inj hp
        simp [blankAfter, hparas, lit]

/-- One paragraph more. -/
theorem step (hn : 0 < n) {chunks : List Str} (para : Str) (h : Packed n paras ps gap current)
    (hchunks : chunks = ps.map Prod.snd) :
    ∃ ps' gap', (splitStep n (chunks, current) para).1 = ps'.map Prod.snd ∧
      Packed n (paras ++ [para]) ps' gap' (splitStep n (chunks, current) para).2 := by
  by_cases hnil : current = []
  · -- nothing has been read since the last chunk was completed
    subst hnil
    by_cases hlong : n < para.length
    · have hstep : splitStep n (chunks, []) para = (chunks ++ slices n para, []) := by
        simp [splitStep, hlong, Nat.not_le.mpr hlong]
      rw [hstep]
      refine ⟨_, [], ?_, h.sliced hn hlong⟩
      simp [hchunks]
    · have hle : para.length ≤ n := Nat.not_lt.mp hlong
      have hstep : splitStep n (chunks, []) para = (chunks, para) := by simp [splitStep, hle]
      rw [hstep]
      refine ⟨ps, gap ++ blankAfter paras, hchunks, h.join rfl (newlines_blankAfter paras) ?_ hle⟩
      intro hps _
      have hparas : paras ≠ [] := fun hnil => hps (h.first hnil).1
      simp [blankAfter, hparas, lit]
  · have hparas : paras ≠ [] := fun hparas => hnil (h.first hparas).2
    -- Something was read before, so a blank line stands in front of the paragraph.
    have hblank : blankAfter paras = lit "\n\n" := if_neg hparas
    let joined := current ++ lit "\n\n" ++ para
    by_cases hfits : (joined.dropWhile (· == '\n')).length ≤ n
    · have hstep : splitStep n (chunks, current) para =
          (chunks, joined.dropWhile (· == '\n')) := by
        simp only [splitStep, if_neg hnil]
        exact if_pos hfits
      rw [hstep]
      refine ⟨ps, gap ++ joined.takeWhile (· == '\n'), hchunks, h.join ?_ ?_ ?_ hfits⟩
      · rw [List.takeWhile_append_dropWhile, hblank]
      · intro x hx
        simpa using List.mem_takeWhile_imp hx
      · intro hps _ happend
        exact h.apart hps hnil (List.append_eq_nil_iff.mp happend).1
    -- The paragraph does not fit behind `current`, which becomes a chunk.
    · have hpushed := h.push hnil
      by_cases hlong : n < para.length
      · have hstep : splitStep n (chunks, current) para =
            (chunks ++ [current] ++ slices n para, []) := by
          simp only [splitStep, if_neg hnil]
          rw [if_neg hfits, if_pos hlong]
        rw [hstep]
        refine ⟨_, [], ?_, hpushed.sliced hn hlong⟩
        simp [hchunks]
      · have hstep : splitStep n (chunks, current) para = (chunks ++ [current], para) := by
          simp only [splitStep, if_neg hnil]
          rw [if_neg hfits, if_neg hlong]
        rw [hstep]
        refine ⟨_, [] ++ blankAfter paras, ?_, hpushed.join rfl (newlines_blankAfter paras) ?_
          (Nat.not_lt.mp hlong)⟩
        · simp [hchunks]
        · intro _ _
          simp [hblank, lit]

/-- All paragraphs. -/
theorem foldl (hn : 0 < n) (rest : List Str) {paras : List Str} {ps : List (Str × Str)}
    {gap : Str} (st : List Str × Str) (h : Packed n paras ps gap st.2)
    (hchunks : st.1 = ps.map Prod.snd) :
    ∃ ps' gap', (rest.foldl (splitStep n) st).1 = ps'.map Prod.snd ∧
      Packed n (paras ++ rest) ps' gap' (rest.foldl (splitStep n) st).2 := by
  induction rest generalizing paras ps gap st with
  | nil => exact ⟨ps, gap, hchunks, by rwa [List.append_nil]⟩
  | cons para rest ih =>
    obtain ⟨ps', gap', hchunks', h'⟩ := h.step hn para hchunks
    have hrest := ih _ h' hchunks'
    rwa [List.append_assoc, List.singleton_append] at hrest

end Packed

/-! ## The chunks of a text -/

/-- The chunks are pieces of the text, with newlines between them. -/
theorem exists_cut (text : Str) {n : Nat} (hn : 0 < n) :
    ∃ ps last, splitOnParagraphs text n = .ok (ps.map Prod.snd) ∧ ps ≠ [] ∧
      text = flat ps ++ last ∧ (∀ p ∈ ps, Newlines p.1) ∧ (∀ p ∈ ps, p.2.length ≤ n) ∧
      Newlines last ∧ Touch (Severed n text.splitBlank) ps := by
  have hone : ∀ c : Str, Touch (Severed n text.splitBlank) [([], c)] := fun _ =>
    touch_cons (fun c' r h => by cases h) touch_nil
  -- A text that fits is its own chunk.
  by_cases hshort : text.length ≤ n
  · refine ⟨[([], text)], [], if_pos hshort, by simp, by simp, ?_, ?_, newlines_nil, hone text⟩
    · rintro p (_ | ⟨_, ⟨⟩⟩)
      exact newlines_nil
    · rintro p (_ | ⟨_, ⟨⟩⟩)
      exact hshort
  -- Otherwise the loop packs the paragraphs, one after the other.
  obtain ⟨ps, gap, hchunks, hpacked⟩ :=
    Packed.foldl hn text.splitBlank ([], []) (Packed.start n) rfl
  rw [List.nil_append] at hpacked
  have hsplit := splitOnParagraphs.eq_def text n
  rw [if_neg hshort, if_neg (by omega)] at hsplit
  generalize text.splitBlank.foldl (splitStep n) ([], []) = st at hchunks hpacked hsplit
  obtain ⟨chunks, current⟩ := st
  obtain rfl : chunks = ps.map Prod.snd := hchunks
  dsimp only at hpacked hsplit
  -- At its end the chunks, the gap and `current` are the whole text.
  have htext : text = flat ps ++ gap ++ current := by
    have hupTo := hpacked.text
    rw [upTo_splitBlank, blankAfter, if_neg (splitBlank_ne_nil text)] at hupTo
    exact List.append_cancel_right hupTo
  by_cases hcurrent : current = []
  · subst hcurrent
    rw [List.append_nil] at htext
    rw [if_pos rfl] at hsplit
    by_cases hps : ps = []
    · -- the text consists of newlines
      subst hps
      have hnewlines : Newlines text := by
        rw [htext]
        exact hpacked.gapNewlines
      refine ⟨[([], text.take n)], text.drop n, hsplit, by simp, by simp, ?_, ?_, ?_, hone _⟩
      · rintro p (_ | ⟨_, ⟨⟩⟩)
        exact newlines_nil
      · rintro p (_ | ⟨_, ⟨⟩⟩)
        exact List.length_take_le n text
      · exact fun x hx => hnewlines x (List.mem_of_mem_drop hx)
    · rw [if_neg (by simpa using hps)] at hsplit
      exact ⟨ps, gap, hsplit, hps, htext, hpacked.newlines, hpacked.fits, hpacked.gapNewlines,
        hpacked.severed⟩
  -- What is left in `current` becomes the last chunk.
  · have hpushed := hpacked.push hcurrent
    rw [if_neg hcurrent, if_neg (by simp)] at hsplit
    refine ⟨ps ++ [(gap, current)], [], ?_, by simp, ?_, hpushed.newlines, hpushed.fits,
      newlines_nil, hpushed.severed⟩
    · rw [hsplit, List.map_append]
      rfl
    · rw [htext]
      simp

/-- The chunks fit, and newlines are all that is lost between them. -/
structure LosesNewlines (text : Str) (maxLen : Nat) (chunks : List Str) : Prop where
  nonempty : chunks ≠ []
  fits : ∀ c ∈ chunks, c.length ≤ maxLen
  /-- The text is `g₀ ++ c₁ ++ g₁ ++ ⋯ ++ cₖ ++ gₖ`, and a gap between two chunks is empty only
  within a paragraph that is too long. -/
  gaps : ∃ gaps : List Str, gaps.length = chunks.length + 1 ∧ (∀ g ∈ gaps, Newlines g) ∧
    text = weave gaps chunks ∧
    ∀ (i : Nat) (c c' : Str), chunks[i]? = some c → chunks[i + 1]? = some c' →
      gaps[i + 1]? = some [] →
      Severed maxLen text.splitBlank (weave (gaps.take (i + 1)) (chunks.take i)) c c'

/-- Chunking loses nothing but newlines. -/
theorem split_loses_newlines (text : Str) {maxLen : Nat} (h : 1 ≤ maxLen) :
    ∃ chunks, splitOnParagraphs text maxLen = .ok chunks ∧ LosesNewlines text maxLen chunks := by
  obtain ⟨ps, last, hsplit, hne, htext, hnewlines, hfits, hlast, htouch⟩ := exists_cut text h
  -- The gaps are those in front of the chunks, and what follows the last of them.
  refine ⟨_, hsplit, by simpa using hne, ?_, ps.map Prod.fst ++ [last], by simp, ?_, ?_, ?_⟩
  · intro c hc
    obtain ⟨p, hp, rfl⟩ := List.mem_map.mp hc
    exact hfits p hp
  · intro g hg
    rcases List.mem_append.mp hg with hg | hg
    · obtain ⟨p, hp, rfl⟩ := List.mem_map.mp hg
      exact hnewlines p hp
    · rwa [List.mem_singleton.mp hg]
  · rw [weave_unzip, htext]
  -- Two chunks without a gap touch, so a paragraph was cut between them.
  · intro i c c' hc hc' hgap
    obtain ⟨hi, rfl⟩ := List.getElem?_eq_some_iff.mp hc
    obtain ⟨hi', rfl⟩ := List.getElem?_eq_some_iff.mp hc'
    rw [List.length_map] at hi hi'
    rw [weave_take last hi, List.getElem_map, List.getElem_map]
    refine htouch.getElem hi' ?_
    rw [List.getElem?_append_left (by simpa using hi')] at hgap
    simpa [hi'] using hgap

/-- A text with a long paragraph and newlines at both ends. -/
theorem split_loses_newlines_example : 1 ≤ 4 ∧
    ∃ chunks, splitOnParagraphs (lit "\n\n\na\n\nbcdefg\n\n\n\nh\n") 4 = .ok chunks ∧
      LosesNewlines (lit "\n\n\na\n\nbcdefg\n\n\n\nh\n") 4 chunks :=
  ⟨by decide, split_loses_newlines _ (by decide)⟩

/-- The paragraph that is too long is cut, and leading newlines go with the gaps. -/
example : splitOnParagraphs (lit "\n\n\na\n\nbcdefg\n\n\n\nh\n") 4 =
    .ok [lit "\na", lit "bcde", lit "fg", lit "h\n"] := by decide

end MatrixDispatcher
