import MatrixDispatcher.Commands
import MatrixDispatcher.Discipline.Logs
import MatrixDispatcher.Safety.Chunking

/-!
# Posted texts

How long the bodies are that `_post_response` and `!recap` post, and what they carry.

* `bodies` — the texts that a program posted.
* `PostsWell` — no text is longer than the limit, and together they carry what was to be posted.
* `posts_well_iff` — a response is posted well if the mention fits in front of its first chunk.
-/

namespace MatrixDispatcher

open Coro Py Pieces

/-- The text of a post that succeeded. -/
def bodyOf : Call Eff Eff.Ret → Option Str
  | ⟨.await (.roomSend _ body _), .ok _⟩ => some body
  | _ => none

/-- The texts that were posted. -/
def bodies (l : Log) : List Str := l.filterMap bodyOf

/-- The effect posts nothing that is longer than `maxLen`. -/
def BodyFits (maxLen : Nat) : Eff → Prop
  | .await (.roomSend _ body _) => body.length ≤ maxLen
  | _ => True

/-- The texts carry all characters of `text` but its newlines, in order. -/
def Carries (text : Str) (texts : List Str) : Prop :=
  (text.filter (· ≠ '\n')).Sublist texts.flatten

theorem bodyOf_eq_none {e : Eff} (he : e.Postless) (r : e.Ret) : bodyOf ⟨e, r⟩ = none := by
  unfold bodyOf
  split
  · next heq =>
    cases heq
    cases he
  · rfl

/-! ## What the chunks carry -/

theorem filter_newlines {s : Str} (h : Newlines s) : s.filter (· ≠ '\n') = [] := by
  simpa [Newlines] using h

/-- The chunks have all characters of the text but newlines. -/
theorem filter_flatten_chunks {text : Str} {n : Nat} (hn : 0 < n) {chunks : List Str}
    (h : splitOnParagraphs text n = .ok chunks) :
    chunks.flatten.filter (· ≠ '\n') = text.filter (· ≠ '\n') := by
  obtain ⟨ps, last, hsplit, -, htext, hnewlines, -, hlast, -⟩ := exists_cut text hn
  obtain rfl : ps.map Prod.snd = chunks := Except.ok.inj (hsplit.symm.trans h)
  rw [htext, List.filter_append, filter_newlines hlast, List.append_nil]
  clear h hsplit htext
  induction ps with
  | nil => rfl
  | cons p ps ih =>
    obtain ⟨g, c⟩ := p
    rw [List.map_cons, List.flatten_cons, flat_cons, List.filter_append, List.filter_append,
      List.filter_append, filter_newlines (hnewlines (g, c) List.mem_cons_self), List.nil_append,
      ih fun p hp => hnewlines p (List.mem_cons_of_mem _ hp)]

theorem carries_of_chunks {text : Str} {n : Nat} (hn : 0 < n) {chunks : List Str}
    (h : splitOnParagraphs text n = .ok chunks) {texts : List Str}
    (htexts : chunks.flatten.Sublist texts.flatten) : Carries text texts := by
  rw [Carries, ← filter_flatten_chunks hn h]
  exact (List.filter_sublist).trans htexts

/-! ## Rules for posts -/

section

variable {room : RoomId} {texts : List Str}

theorem bodies_append (l l' : Log) : bodies (l ++ l') = bodies l ++ bodies l' :=
  List.filterMap_append

/-- A post that is made adds its text. -/
theorem logs_postMessage {body : Str} {reply : Option EventId} :
    (logging anyResponse).Triple (fun l => bodies l = texts) (postMessage room body reply).run
      fun res l => ∀ e, res = .ok e → bodies l = texts ++ [body] := by
  refine Logging.network (Q := fun res l => ∀ e, res = .ok e → bodies l = texts ++ [body])
    (fun l r hl _ e he => ?_) (fun l res hl _ e he => ?_) (fun _ _ _ _ _ => nofun) fun _ _ => nofun
  · subst he
    rw [bodies_append, hl]
    rfl
  · rw [bodies_append, hl e he]
    exact List.append_nil _

/-- What posts nothing adds no text. -/
theorem logs_postless {α : Type} {p : Py α} (hp : PerformsE Eff.Postless p) :
    (logging anyResponse).Triple (fun l => bodies l = texts) p.run fun _ l => bodies l = texts := by
  refine Logging.performs hp fun l e r he hl _ => ?_
  rw [bodies_append, hl, bodies, List.filterMap_cons_none (bodyOf_eq_none he r)]
  exact List.append_nil _

/-- A post and its registration as an alias add the text of the post. -/
theorem logs_postChunks {mention : UserId} {target root : EventId} (texts : List Str) (i : Nat)
    (chunks : List Str) :
    (logging anyResponse).Triple (fun l => bodies l = texts)
      (postChunks room mention target root i chunks).run
      fun res l => res = .ok () → bodies l = texts ++ chunks.mapIdx fun j chunk =>
        if i + j = 0 then mention ++ lit " " ++ chunk else chunk := by
  induction chunks generalizing texts i with
  | nil => exact Logging.pure fun l hl _ => by simpa using hl
  | cons chunk chunks ih =>
    refine Logging.bind logs_postMessage (fun e => ?_) fun _ _ _ => nofun
    refine Logging.bind (Q := fun _ l => bodies l = texts ++ [_])
      (Arena.Triple.pre (fun l hl => hl e rfl) (logs_postless postless_registerAlias))
      (fun _ => ?_) fun _ _ _ => nofun
    · refine (ih (texts ++ [_]) (i + 1)).mono fun res l hl hres => ?_
      rw [hl hres, List.mapIdx_cons, List.append_assoc]
      simp [Nat.add_assoc, Nat.add_comm 1]

end

/-! ## Responses -/

/-- The first chunk of a text. -/
def firstChunk (text : Str) (maxLen : Nat) : Str :=
  match splitOnParagraphs text maxLen with
  | .ok (chunk :: _) => chunk
  | _ => []

theorem firstChunk_eq {text : Str} {n : Nat} {chunk : Str} {chunks : List Str}
    (h : splitOnParagraphs text n = .ok (chunk :: chunks)) : firstChunk text n = chunk := by
  rw [firstChunk, h]

/-- No text that the program posts is longer than the limit, and the texts of a program that
returns carry `text`. -/
structure PostsWell (maxLen : Nat) (text : Str) (p : Py Unit) : Prop where
  fits : PerformsE (BodyFits maxLen) p
  carries : (logging anyResponse).Triple (· = []) p.run fun res l =>
    res = .ok () → Carries text (bodies l)

section

variable {room : RoomId} {mention : UserId} {target root : EventId} {n : Nat}

theorem fits_registerAlias {e : EventId} : PerformsE (BodyFits n) (Store.registerAlias e root) := by
  rw [Store.registerAlias]
  split
  · exact performsE_pure _
  · exact performsE_bind (performsE_execute trivial) fun _ => performsE_commit trivial

/-- The chunks after the first are posted as they are. -/
theorem fits_postChunks (i : Nat) {chunks : List Str} (h : ∀ c ∈ chunks, c.length ≤ n)
    (hfirst : i = 0 → ∀ c ∈ chunks.head?, mention.length + 1 + c.length ≤ n) :
    PerformsE (BodyFits n) (postChunks room mention target root i chunks) := by
  induction chunks generalizing i with
  | nil => exact performsE_pure _
  | cons chunk chunks ih =>
    refine performsE_bind (performsE_network ?_ trivial) fun e => ?_
    · by_cases hi : i = 0
      · have hmention := hfirst hi chunk rfl
        rw [if_pos hi, BodyFits]
        simp only [List.length_append, lit]
        simpa using hmention
      · rw [if_neg hi]
        exact h chunk List.mem_cons_self
    · refine performsE_bind fits_registerAlias fun _ => ?_
      exact ih (i + 1) (fun c hc => h c (List.mem_cons_of_mem _ hc)) fun hi => absurd hi (by omega)

/-- The mention stands in front of the first chunk. -/
theorem fits_first {chunk : Str} {chunks : List Str}
    (h : PerformsE (BodyFits n) (postChunks room mention target root 0 (chunk :: chunks))) :
    mention.length + 1 + chunk.length ≤ n := by
  have hfirst : (mention ++ lit " " ++ chunk).length ≤ n := h.1
  simp only [List.length_append, lit] at hfirst
  simpa using hfirst

end

/-- A response of a turn that ended well is the chunks of its output. -/
theorem postResponse_eq {output : Str} {room : RoomId} {session : SessionId} {mention : UserId}
    {n : Nat} {target root : EventId} {action : Str} {chunks : List Str}
    (h : splitOnParagraphs (output.orElse (lit "(no output)")) n = .ok chunks) :
    postResponse room output 0 session mention n target action root =
      postChunks room mention target root 0 chunks := by
  rw [postResponse, if_neg (by decide), h]
  rfl

/-- What the posts of the chunks carry, whatever stands in front of the first one. -/
theorem sublist_mapIdx {mention : UserId} (chunks : List Str) (i : Nat) :
    chunks.flatten.Sublist (chunks.mapIdx fun j chunk =>
      if i + j = 0 then mention ++ lit " " ++ chunk else chunk).flatten := by
  induction chunks generalizing i with
  | nil => exact List.Sublist.refl _
  | cons chunk chunks ih =>
    rw [List.mapIdx_cons, List.flatten_cons, List.flatten_cons]
    refine List.Sublist.append ?_ ?_
    · split
      · exact List.sublist_append_right _ _
      · exact List.Sublist.refl _
    · simpa [Nat.add_assoc, Nat.add_comm 1] using ih (i + 1)

/-- A response is posted well if the mention fits in front of its first chunk. -/
theorem postResponse_well {maxLen : Nat} (h : 0 < maxLen) {mention : UserId} {output : Str}
    {room : RoomId} {session : SessionId} {target root : EventId} {action : Str} :
    PostsWell maxLen output (postResponse room output 0 session mention maxLen target action root) ↔
      mention.length + 1 +
        (firstChunk (output.orElse (lit "(no output)")) maxLen).length ≤ maxLen := by
  obtain ⟨ps, last, hsplit, hne, -, -, hfits, -, -⟩ :=
    exists_cut (output.orElse (lit "(no output)")) h
  rw [postResponse_eq hsplit]
  obtain ⟨⟨g, chunk⟩, ps, rfl⟩ := List.exists_cons_of_ne_nil hne
  rw [firstChunk_eq hsplit]
  constructor
  -- The first chunk is posted behind the mention, so both must fit together.
  · exact fun hwell => fits_first hwell.fits
  · intro hmention
    refine ⟨fits_postChunks 0 (fun c hc => ?_) fun _ c hc => ?_, ?_⟩
    · obtain ⟨p, hp, rfl⟩ := List.mem_map.mp hc
      exact hfits p hp
    · obtain rfl : chunk = c := by simpa using hc
      exact hmention
    · refine Arena.Triple.mono (fun res l hl hres => ?_)
        (Arena.Triple.pre (fun l hl => ?_) (logs_postChunks [] 0 _))
      · rw [hl hres, List.nil_append]
        by_cases houtput : output = []
        · rw [houtput]
          exact List.nil_sublist _
        · rw [Str.orElse, if_neg houtput] at hsplit
          exact carries_of_chunks h hsplit (sublist_mapIdx _ 0)
      · rw [hl]
        rfl

/-! ## Recaps -/

/-- The texts with which `!recap` says that there is nothing to show. -/
def RecapNotice (mention : UserId) (body : Str) : Prop :=
  body = mention ++ lit " No prior sessions to recap." ∨
    ∃ session : SessionId,
      body = mention ++ lit " Session " ++ session.short ++ lit " has no readable turns."

/-- The effect posts a chunk that fits, or that there is nothing to show. -/
def RecapFits (maxLen : Nat) (mention : UserId) : Eff → Prop
  | .await (.roomSend _ body _) => body.length ≤ maxLen ∨ RecapNotice mention body
  | _ => True

/-- The header of a recap, and the recap. -/
def recapText (mention : UserId) (session : SessionId) (n : Nat) (body : Str) : Str :=
  mention ++ lit " Recap of session " ++ session.short ++ lit " (last " ++ natText n ++
    lit " turns):\n\n" ++ body

/-- The text is that of the turns that a log shows to have been read. -/
def RecapOf (mention : UserId) (roomId : RoomId) (projectDir : Str) (n : Nat) (l : Log)
    (text : Str) : Prop :=
  ∃ rows row lines turns,
    ⟨.sync (.execute (.recentSessions roomId 1)), .ok rows⟩ ∈ l ∧ rows.head? = some row ∧
    ⟨.sync (.readTranscript row.sessionId projectDir), .file lines none⟩ ∈ l ∧
    turnsOf lines = .ok turns ∧
    text = recapText mention row.sessionId n (lastTurns turns n)

theorem RecapOf.append {mention : UserId} {roomId : RoomId} {projectDir : Str} {n : Nat} {l : Log}
    {text : Str} (l' : Log) (h : RecapOf mention roomId projectDir n l text) :
    RecapOf mention roomId projectDir n (l ++ l') text := by
  obtain ⟨rows, row, lines, turns, hrows, hrow, hlines, hturns, htext⟩ := h
  exact ⟨rows, row, lines, turns, List.mem_append_left _ hrows, hrow,
    List.mem_append_left _ hlines, hturns, htext⟩

/-- No chunk that `!recap` posts is longer than the limit. Where it posts a recap and returns, the
chunks carry the header and the recap. -/
structure RecapsWell (maxLen : Nat) (mention : UserId) (roomId : RoomId) (projectDir : Str)
    (n : Nat) (p : Py Unit) : Prop where
  fits : PerformsE (RecapFits maxLen mention) p
  carries : (logging anyResponse).Triple (· = []) p.run fun res l => res = .ok () →
    (∃ notice, RecapNotice mention notice ∧ bodies l = [notice]) ∨
      ∃ text, RecapOf mention roomId projectDir n l text ∧ Carries text (bodies l)

section

variable {room : RoomId} {mention : UserId} {dir : Str} {n maxLen : Nat} {event : RoomMessageText}

/-- A text that is read without an exception is that of the turns of a transcript. -/
theorem logs_readLastNTurns {session : SessionId} {l₀ : Log} (hl₀ : bodies l₀ = []) :
    (logging anyResponse).Triple (· = l₀) (readLastNTurns session dir n).run fun res l =>
      ∀ text, res = .ok text → bodies l = [] ∧ (∀ c ∈ l₀, c ∈ l) ∧ (text ≠ [] →
        ∃ lines turns, ⟨.sync (.readTranscript session dir), .file lines none⟩ ∈ l ∧
          turnsOf lines = .ok turns ∧ text = lastTurns turns n) := by
  refine Logging.bind (Q := fun res l => ∀ f, res = .ok f →
    l = l₀ ++ [⟨.sync (.readTranscript session dir), f⟩]) (Logging.lift fun l r hl _ f hf => ?_)
    (fun f => ?_) fun _ _ _ => nofun
  · cases hf
    rw [hl]
  have hlog : ∀ l, (∀ f', Except.ok (ε := Exn) f = .ok f' →
      l = l₀ ++ [⟨.sync (.readTranscript session dir), f'⟩]) →
      bodies l = [] ∧ (∀ c ∈ l₀, c ∈ l) ∧ ⟨.sync (.readTranscript session dir), f⟩ ∈ l := by
    intro l hl
    rw [hl f rfl, bodies_append, hl₀]
    exact ⟨rfl, fun c hc => List.mem_append_left _ hc, List.mem_append_right _ List.mem_cons_self⟩
  -- No file, no text; a file is read line by line, and its reading may fail at the end.
  cases f with
  | missing =>
    refine Logging.pure fun l hl text htext => ?_
    cases htext
    exact ⟨(hlog l hl).1, (hlog l hl).2.1, fun hne => absurd rfl hne⟩
  | file lines failure =>
    cases hturns : turnsOf lines with
    | error x =>
      simp only [hturns, fromExcept]
      exact Logging.throw fun _ _ => nofun
    | ok turns =>
      simp only [hturns, fromExcept, pure_bind]
      cases failure with
      | none =>
        refine Logging.pure fun l hl text htext => ?_
        cases htext
        obtain ⟨hbodies, hold, hread⟩ := hlog l hl
        exact ⟨hbodies, hold, fun _ => ⟨lines, turns, hread, hturns, rfl⟩⟩
      | some x =>
        cases x with
        | osError =>
          refine Logging.pure fun l hl text htext => ?_
          cases htext
          exact ⟨(hlog l hl).1, (hlog l hl).2.1, fun hne => absurd rfl hne⟩
        | _ => exact Logging.throw fun _ _ => nofun

theorem logs_postRecap (texts chunks : List Str) :
    (logging anyResponse).Triple (fun l => bodies l = texts) (postRecap room event chunks).run
      fun res l => res = .ok () → bodies l = texts ++ chunks := by
  induction chunks generalizing texts with
  | nil => exact Logging.pure fun l hl _ => by simpa using hl
  | cons chunk chunks ih =>
    refine Logging.bind logs_postMessage (fun e => ?_) fun _ _ _ => nofun
    refine Arena.Triple.mono (fun res l hl hres => ?_)
      (Arena.Triple.pre (fun l hl => hl e rfl) (ih (texts ++ [chunk])))
    rw [hl hres, List.append_assoc, List.singleton_append]

theorem fits_postRecap {chunks : List Str} (h : ∀ c ∈ chunks, c.length ≤ maxLen) :
    PerformsE (RecapFits maxLen mention) (postRecap room event chunks) := by
  induction chunks with
  | nil => exact performsE_pure _
  | cons chunk chunks ih =>
    refine performsE_bind (performsE_network (.inl (h chunk List.mem_cons_self)) trivial)
      fun _ => ?_
    exact ih fun c hc => h c (List.mem_cons_of_mem _ hc)

theorem fits_readLastNTurns {session : SessionId} :
    PerformsE (RecapFits maxLen mention) (readLastNTurns session dir n) := by
  refine performsE_bind (performsE_sync trivial) fun f => ?_
  cases f with
  | missing => exact performsE_pure _
  | file lines failure =>
    refine performsE_bind (performsE_fromExcept _) fun turns => ?_
    split
    · exact performsE_pure _
    · exact performsE_pure _
    · exact performsE_throw _

/-- The chunks of a recap are posted as they are, after the header has been put in front. -/
theorem handleRecapCommand_well (h : 0 < maxLen) (arg : Str) :
    RecapsWell maxLen mention room dir (parseRecapN arg)
      (handleRecapCommand room event mention dir maxLen arg) := by
  refine ⟨performsE_bind (performsE_execute trivial) fun rows => ?_, ?_⟩
  · cases hrow : rows.head? with
    | none =>
      exact performsE_bind (performsE_network (.inr (.inl rfl)) trivial) fun _ => performsE_pure _
    | some row =>
      refine performsE_bind fits_readLastNTurns fun body => ?_
      split
      · exact performsE_bind (performsE_network (.inr (.inr ⟨_, rfl⟩)) trivial)
          fun _ => performsE_pure _
      · obtain ⟨ps, last, hsplit, -, -, -, hfits, -, -⟩ :=
          exists_cut (recapText mention row.sessionId (parseRecapN arg) body) h
        change PerformsE _ (fromExcept (splitOnParagraphs (recapText mention row.sessionId
          (parseRecapN arg) body) maxLen) >>= postRecap room event)
        rw [hsplit]
        refine fits_postRecap fun c hc => ?_
        obtain ⟨p, hp, rfl⟩ := List.mem_map.mp hc
        exact hfits p hp
  · refine Logging.bind (Q := fun res l =>
      l = [⟨.sync (.execute (.recentSessions room 1)), res⟩]) (Logging.perform fun l r hl _ => ?_)
      (fun rows => ?_) fun _ _ _ => nofun
    · rw [hl]
      rfl
    have hstart : ∀ l : Log, l = [⟨.sync (.execute (.recentSessions room 1)), .ok rows⟩] →
        bodies l = [] := by
      rintro l rfl
      rfl
    cases hrow : rows.head? with
    | none =>
      refine Logging.bind (Arena.Triple.pre hstart logs_postMessage) (fun e => ?_)
        fun _ _ _ => nofun
      exact Logging.pure fun l hl _ => .inl ⟨_, .inl rfl, hl e rfl⟩
    | some row =>
      refine Logging.bind (logs_readLastNTurns rfl) (fun body => ?_) fun _ _ _ => nofun
      split
      · refine Logging.bind (Arena.Triple.pre (fun l hl => (hl body rfl).1) logs_postMessage)
          (fun e => ?_) fun _ _ _ => nofun
        exact Logging.pure fun l hl _ => .inl ⟨_, .inr ⟨_, rfl⟩, hl e rfl⟩
      · next hbody =>
        obtain ⟨ps, last, hsplit, -⟩ :=
          exists_cut (recapText mention row.sessionId (parseRecapN arg) body) h
        change (logging anyResponse).Triple _ (fromExcept (splitOnParagraphs (recapText mention
          row.sessionId (parseRecapN arg) body) maxLen) >>= postRecap room event).run _
        rw [hsplit]
        -- what was read stays in the log while the chunks are posted
        have hgrows : (logging anyResponse).Triple
            (fun l => RecapOf mention room dir (parseRecapN arg) l
              (recapText mention row.sessionId (parseRecapN arg) body))
            (postRecap room event (ps.map Prod.snd)).run fun _ l =>
              RecapOf mention room dir (parseRecapN arg) l
                (recapText mention row.sessionId (parseRecapN arg) body) :=
          Logging.grows fun l c => RecapOf.append [c]
        refine (Arena.Triple.pre (fun l hl => ?_) ((logs_postRecap [] _).and
          hgrows)).mono fun res l hl hres => .inr ⟨_, hl.2, ?_⟩
        · obtain ⟨hbodies, hold, hread⟩ := hl body rfl
          obtain ⟨lines, turns, hmem, hturns, htext⟩ := hread hbody
          exact ⟨hbodies, rows, row, lines, turns, hold _ List.mem_cons_self, hrow, hmem, hturns,
            by rw [htext]⟩
        · rw [hl.1 hres, List.nil_append]
          exact carries_of_chunks h hsplit (List.Sublist.refl _)

end

/-! ## Both -/

/-- Responses and recaps respect the limit, and carry what is to be posted, if and only if the
mention fits in front of the first chunk of the response. -/
theorem bodies_fit_iff {maxMessageLength : Nat} (h : 1 ≤ maxMessageLength) (mentionUser : UserId)
    (output : Str) (roomId : RoomId) (sessionId : SessionId) (replyTarget : EventId) (action : Str)
    (threadRootId : EventId) (event : RoomMessageText) (projectDir arg : Str) :
    (PostsWell maxMessageLength output (postResponse roomId output 0 sessionId mentionUser
        maxMessageLength replyTarget action threadRootId) ∧
      RecapsWell maxMessageLength mentionUser roomId projectDir (parseRecapN arg)
        (handleRecapCommand roomId event mentionUser projectDir maxMessageLength arg)) ↔
      mentionUser.length + 1 +
        (firstChunk (output.orElse (lit "(no output)")) maxMessageLength).length ≤
          maxMessageLength :=
  ⟨fun hwell => (postResponse_well h).mp hwell.1,
    fun hfits => ⟨(postResponse_well h).mpr hfits, handleRecapCommand_well h arg⟩⟩

theorem bodies_fit_short : 1 ≤ 40 ∧
    ((PostsWell 40 (lit "all tests pass") (postResponse (lit "!room") (lit "all tests pass") 0
        (lit "5e55") (lit "@ted") 40 (lit "$1") (lit "spawn") (lit "$1")) ∧
      RecapsWell 40 (lit "@ted") (lit "!room") (lit "/p") (parseRecapN (lit "3"))
        (handleRecapCommand (lit "!room") ⟨lit "$2", lit "@ted", lit "!recap 3", .null⟩ (lit "@ted")
          (lit "/p") 40 (lit "3"))) ↔
      (lit "@ted").length + 1 +
        (firstChunk ((lit "all tests pass").orElse (lit "(no output)")) 40).length ≤ 40) :=
  ⟨by decide, bodies_fit_iff (by decide) (lit "@ted") (lit "all tests pass") (lit "!room")
    (lit "5e55") (lit "$1") (lit "spawn") (lit "$1") ⟨lit "$2", lit "@ted", lit "!recap 3", .null⟩
    (lit "/p") (lit "3")⟩

/-- A response that fills the first chunk is posted with a body that is too long. -/
theorem body_too_long : ¬ ∀ (mentionUser : UserId) (output : Str) (maxMessageLength : Nat),
    1 ≤ maxMessageLength →
      PostsWell maxMessageLength output (postResponse (lit "!room") output 0 (lit "5e55")
        mentionUser maxMessageLength (lit "$1") (lit "spawn") (lit "$1")) := by
  intro h
  have hfirst : (lit "@ted" ++ lit " " ++ lit "aaaaaaaaaa").length ≤ 10 :=
    (h (lit "@ted") (lit "aaaaaaaaaa") 10 (by decide)).fits.1
  exact absurd hfirst (by decide)

end MatrixDispatcher
