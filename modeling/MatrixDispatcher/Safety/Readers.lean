import Mathlib.Data.List.DropRight
import MatrixDispatcher.Discipline.Logs
import MatrixDispatcher.Transcripts

/-!
# What the transcript readers show

`!sessions` shows the first line of the first user message, `!recap` the last turns. Both readers
go through the lines of a file and skip those on which `json.loads` raises `JSONDecodeError`, but
call `.get` on whatever the others hold.

* `isEntry`, `stops`, `misread` — the lines that say something, and those that a reader trips over.
* `Shows` — what a reader returns on a file.
* `skips_malformed_iff` — when the other lines change nothing.
* `recap_exact_iff` — when the last `2 n` entries are the last `n` turns.
* `prefix_undone_iff` — when the readers take off the prefix of a prompt.
-/

namespace MatrixDispatcher

open Py Coro

variable {lines : List Loaded} {line : Loaded} {obj : List (Str × Json)}

/-! ## Lines -/

/-- The object is of type `user` or `assistant`. -/
def speaks (obj : List (Str × Json)) : Bool :=
  decide (lineRole obj = some (lit "user") ∨ lineRole obj = some (lit "assistant"))

/-- The message of an object is an object. -/
def hasMessage (obj : List (Str × Json)) : Bool :=
  ((Json.lookup (lit "message") obj).bind Json.asObj).isSome

/-- The line is a JSON object of type `user` or `assistant` with an object as its message. -/
def isEntry : Loaded → Bool
  | .value (.obj obj) => speaks obj && hasMessage obj
  | _ => false

/-- A reader gets no object from the line, and does not skip it: `json.loads` raises something else
than `JSONDecodeError`, or its value has no `.get`. -/
def stops : Loaded → Bool
  | .jsonDecodeError | .value (.obj _) => false
  | _ => true

/-- The line stops a reader, or its object is of type `user` or `assistant` and the message has no
`.get`. -/
def misread : Loaded → Bool
  | .value (.obj obj) => speaks obj && (Json.lookup (lit "message") obj).any fun m => m.asObj.isNone
  | line => stops line

/-- A record speaks when its role is that of the user or of the assistant. -/
theorem speaks_iff : speaks obj = true ↔
    ∃ role, lineRole obj = some role ∧ (role = lit "user" ∨ role = lit "assistant") := by
  rw [speaks, decide_eq_true_iff]
  constructor
  · rintro (h | h)
    · exact ⟨_, h, .inl rfl⟩
    · exact ⟨_, h, .inr rfl⟩
  · rintro ⟨role, h, rfl | rfl⟩
    · exact .inl h
    · exact .inr h

/-- A line that does not stop a reader is skipped, or it holds an object. -/
theorem stops_cases (h : stops line = false) :
    line = .jsonDecodeError ∨ ∃ obj, line = .value (.obj obj) := by
  cases line with
  | value v =>
    cases v with
    | obj obj => exact .inr ⟨obj, rfl⟩
    | _ => cases h
  | jsonDecodeError => exact .inl rfl
  | _ => cases h

/-- No line stops a reader that does not trip over it. -/
theorem not_stops (hread : misread line = false) : stops line = false := by
  cases line with
  | value v =>
    cases v with
    | obj obj => rfl
    | _ => exact hread
  | _ => exact hread

/-- A line that a reader does not trip over is skipped, or it holds an object. -/
theorem read_cases (hread : misread line = false) :
    line = .jsonDecodeError ∨ ∃ obj, line = .value (.obj obj) :=
  stops_cases (not_stops hread)

/-- An entry holds an object. -/
theorem entry_cases (hentry : isEntry line = true) :
    ∃ obj, line = .value (.obj obj) ∧ speaks obj = true ∧ hasMessage obj = true := by
  cases line with
  | value v =>
    cases v with
    | obj obj => exact ⟨obj, rfl, Bool.and_eq_true_iff.mp hentry⟩
    | _ => cases hentry
  | _ => cases hentry

/-- The text of a line that can be read; without a message there is none. -/
theorem lineText_ok (h : speaks obj = true) (hread : misread (.value (.obj obj)) = false) :
    ∃ text, lineText obj = .ok text ∧ (hasMessage obj = false → text = []) := by
  rw [misread, h, Bool.true_and] at hread
  rw [lineText, hasMessage]
  rcases hm : Json.lookup (lit "message") obj with _ | m
  · exact ⟨[], rfl, fun _ => rfl⟩
  · rw [hm] at hread
    cases m with
    | obj msg => exact ⟨_, rfl, nofun⟩
    | _ => cases hread

/-- A message that is no object raises. -/
theorem lineText_error (h : speaks obj = true) (hmisread : misread (.value (.obj obj)) = true) :
    lineText obj = .error .attributeError := by
  rw [misread, h, Bool.true_and] at hmisread
  rw [lineText]
  rcases hm : Json.lookup (lit "message") obj with _ | m
  · rw [hm] at hmisread
    cases hmisread
  · rw [hm] at hmisread
    cases m with
    | obj msg => cases hmisread
    | _ => rfl

section

variable {rest : List Loaded}

/-! ## The last turns -/

/-- An object of another type says nothing. -/
theorem turnsOf_silent (h : speaks obj = false) :
    turnsOf (.value (.obj obj) :: rest) = turnsOf rest := by
  rw [turnsOf]
  simp only [Json.asObj]
  split
  · next role hrole =>
    refine if_neg fun hspeaks => ?_
    rw [speaks_iff.mpr ⟨role, hrole, hspeaks⟩] at h
    cases h
  · rfl

/-- What an object of type `user` or `assistant` adds. -/
theorem turnsOf_speaks {role : Str} (hrole : lineRole obj = some role)
    (hspeaks : role = lit "user" ∨ role = lit "assistant") :
    turnsOf (.value (.obj obj) :: rest) = (do
      let text ← lineText obj
      let turns ← turnsOf rest
      if text = [] then .ok turns
      else .ok ((role, if role = lit "user" then withoutPrefix text else text) :: turns)) := by
  rw [turnsOf]
  simp only [Json.asObj, hrole, if_pos hspeaks]

/-- An object of type `user` with text adds the text, without the prefix of a prompt. -/
theorem turnsOf_user {text : Str} {turns : List (Str × Str)}
    (hrole : lineRole obj = some (lit "user")) (htext : lineText obj = .ok text)
    (hsome : text ≠ []) (hrest : turnsOf rest = .ok turns) :
    turnsOf (.value (.obj obj) :: rest) = .ok ((lit "user", withoutPrefix text) :: turns) := by
  rw [turnsOf_speaks hrole (.inl rfl), htext, hrest]
  change (if text = [] then Except.ok turns else Except.ok ((lit "user",
    if lit "user" = lit "user" then withoutPrefix text else text) :: turns)) = _
  rw [if_neg hsome, if_pos rfl]

/-- A line that says nothing, and that the reader does not trip over, is skipped. -/
theorem turnsOf_skip (hentry : isEntry line = false) (hread : misread line = false) :
    turnsOf (line :: rest) = turnsOf rest := by
  rcases read_cases hread with rfl | ⟨obj, rfl⟩
  · rfl
  rcases hspeaks : speaks obj with _ | _
  · exact turnsOf_silent hspeaks
  · obtain ⟨role, hrole, hor⟩ := speaks_iff.mp hspeaks
    obtain ⟨text, htext, hnone⟩ := lineText_ok hspeaks hread
    rw [isEntry, hspeaks, Bool.true_and] at hentry
    rw [turnsOf_speaks hrole hor, htext, hnone hentry]
    cases turnsOf rest <;> rfl

/-- The reader goes on behind a line that it does not trip over. -/
theorem turnsOf_cons (hread : misread line = false) {turns : List (Str × Str)}
    (hrest : turnsOf rest = .ok turns) : ∃ turns', turnsOf (line :: rest) = .ok turns' := by
  rcases hentry : isEntry line with _ | _
  · exact ⟨turns, by rw [turnsOf_skip hentry hread, hrest]⟩
  obtain ⟨obj, rfl, hspeaks, -⟩ := entry_cases hentry
  obtain ⟨role, hrole, hor⟩ := speaks_iff.mp hspeaks
  obtain ⟨text, htext, -⟩ := lineText_ok hspeaks hread
  rw [turnsOf_speaks hrole hor, htext, hrest]
  by_cases hnone : text = []
  · exact ⟨turns, if_pos hnone⟩
  · exact ⟨_, if_neg hnone⟩

/-- What comes behind a line has been read. -/
theorem turnsOf_tail {turns : List (Str × Str)} (hread : misread line = false)
    (h : turnsOf (line :: rest) = .ok turns) : ∃ turns', turnsOf rest = .ok turns' := by
  rcases hrest : turnsOf rest with x | turns'
  · rcases hentry : isEntry line with _ | _
    · rw [turnsOf_skip hentry hread, hrest] at h
      cases h
    obtain ⟨obj, rfl, hspeaks, -⟩ := entry_cases hentry
    obtain ⟨role, hrole, hor⟩ := speaks_iff.mp hspeaks
    obtain ⟨text, htext, -⟩ := lineText_ok hspeaks hread
    rw [turnsOf_speaks hrole hor, htext, hrest] at h
    cases h
  · exact ⟨turns', rfl⟩

/-- The reader does not get past a line that it trips over. -/
theorem turnsOf_error (hmisread : misread line = true) :
    ∃ x, turnsOf (line :: rest) = .error x := by
  cases line with
  | value v =>
    cases v with
    | obj obj =>
      have hspeaks := (Bool.and_eq_true_iff.mp hmisread).1
      obtain ⟨role, hrole, hor⟩ := speaks_iff.mp hspeaks
      refine ⟨.attributeError, ?_⟩
      rw [turnsOf_speaks hrole hor, lineText_error hspeaks hmisread]
      rfl
    | _ => exact ⟨.attributeError, rfl⟩
  | jsonDecodeError => cases hmisread
  | valueError => exact ⟨.valueError, rfl⟩
  | recursionError => exact ⟨.recursionError, rfl⟩

/-! ## The first user message -/

variable {maxLen : Nat}

/-- At a user's record the search ends with its first line, or goes on if there is none. -/
theorem firstUserMessage_user (h : lineRole obj = some (lit "user")) :
    firstUserMessage maxLen (.value (.obj obj) :: rest) = (do
      let text ← lineText obj
      let firstLine := (withoutPrefix text).firstLine.strip
      if firstLine = [] then firstUserMessage maxLen rest
      else .ok (some (ellipsis firstLine maxLen))) := by
  rw [firstUserMessage]
  simp only [Json.asObj, if_pos h]

/-- The first line of the first user message that has one. -/
theorem firstUserMessage_found {text : Str} (hrole : lineRole obj = some (lit "user"))
    (htext : lineText obj = .ok text) (hsome : (withoutPrefix text).firstLine.strip ≠ []) :
    firstUserMessage maxLen (.value (.obj obj) :: rest) =
      .ok (some (ellipsis (withoutPrefix text).firstLine.strip maxLen)) := by
  rw [firstUserMessage_user hrole, htext]
  exact if_neg hsome

/-- An object of another type is skipped. -/
theorem firstUserMessage_other (h : lineRole obj ≠ some (lit "user")) :
    firstUserMessage maxLen (.value (.obj obj) :: rest) = firstUserMessage maxLen rest := by
  rw [firstUserMessage]
  simp only [Json.asObj, if_neg h]

/-- A line that is no entry and is not misread is passed over. -/
theorem firstUserMessage_skip (hentry : isEntry line = false) (hread : misread line = false) :
    firstUserMessage maxLen (line :: rest) = firstUserMessage maxLen rest := by
  rcases read_cases hread with rfl | ⟨obj, rfl⟩
  · rfl
  by_cases huser : lineRole obj = some (lit "user")
  · have hspeaks := speaks_iff.mpr ⟨_, huser, .inl rfl⟩
    obtain ⟨text, htext, hnone⟩ := lineText_ok hspeaks hread
    rw [isEntry, hspeaks, Bool.true_and] at hentry
    have hblank : (withoutPrefix []).firstLine.strip = [] := by decide
    rw [firstUserMessage_user huser, htext, hnone hentry]
    change (if (withoutPrefix []).firstLine.strip = [] then firstUserMessage maxLen rest
      else .ok (some (ellipsis (withoutPrefix []).firstLine.strip maxLen))) = _
    exact if_pos hblank
  · exact firstUserMessage_other huser

/-- The search ends without an exception if it does so on the lines that follow a line which is not
misread. -/
theorem firstUserMessage_cons (hread : misread line = false)
    (hrest : ∃ o, firstUserMessage maxLen rest = .ok o) :
    ∃ o, firstUserMessage maxLen (line :: rest) = .ok o := by
  rcases read_cases hread with rfl | ⟨obj, rfl⟩
  · exact hrest
  by_cases huser : lineRole obj = some (lit "user")
  · obtain ⟨text, htext, -⟩ := lineText_ok (speaks_iff.mpr ⟨_, huser, .inl rfl⟩) hread
    rw [firstUserMessage_user huser, htext]
    by_cases hblank : (withoutPrefix text).firstLine.strip = []
    · obtain ⟨o, ho⟩ := hrest
      exact ⟨o, (if_pos hblank).trans ho⟩
    · exact ⟨_, if_neg hblank⟩
  · rwa [firstUserMessage_other huser]

end

/-! ## Files -/

/-- The lines that the readers do not trip over can be read to the end. -/
theorem reads_of_not_misread (h : ∀ line ∈ lines, misread line = false) :
    (∃ turns, turnsOf lines = .ok turns) ∧
      ∀ maxLen, ∃ o, firstUserMessage maxLen lines = .ok o := by
  induction lines with
  | nil => exact ⟨⟨[], rfl⟩, fun _ => ⟨none, rfl⟩⟩
  | cons line rest ih =>
    obtain ⟨hline, hrest⟩ := List.forall_mem_cons.mp h
    obtain ⟨⟨turns, hturns⟩, hfirst⟩ := ih hrest
    exact ⟨turnsOf_cons hline hturns, fun maxLen => firstUserMessage_cons hline (hfirst maxLen)⟩

/-- The last turns are only read if no line is tripped over. -/
theorem not_misread_of_turns {turns : List (Str × Str)} (h : turnsOf lines = .ok turns) :
    ∀ line ∈ lines, misread line = false := by
  induction lines generalizing turns with
  | nil => exact nofun
  | cons line rest ih =>
    rcases hmisread : misread line with _ | _
    · obtain ⟨turns', hrest⟩ := turnsOf_tail hmisread h
      exact List.forall_mem_cons.mpr ⟨hmisread, ih hrest⟩
    · obtain ⟨x, herror⟩ := @turnsOf_error _ rest hmisread
      cases herror.symm.trans h

/-- A line is read like a file of its own; what follows it is read on its own, too. -/
theorem turnsOf_congr {rest' : List Loaded} (h : turnsOf lines = turnsOf rest') :
    turnsOf (line :: lines) = turnsOf (line :: rest') := by
  cases line with
  | value v => rw [turnsOf, turnsOf, h]
  | jsonDecodeError => exact h
  | _ => rfl

/-- The lines after the first one matter through their own result only. -/
theorem firstUserMessage_congr {rest' : List Loaded} {maxLen : Nat}
    (h : firstUserMessage maxLen lines = firstUserMessage maxLen rest') :
    firstUserMessage maxLen (line :: lines) = firstUserMessage maxLen (line :: rest') := by
  cases line with
  | value v => rw [firstUserMessage, firstUserMessage, h]
  | jsonDecodeError => exact h
  | _ => rfl

/-- Lines that are no entries say nothing. -/
theorem reads_filter (h : ∀ line ∈ lines, misread line = false) :
    turnsOf (lines.filter isEntry) = turnsOf lines ∧
      ∀ maxLen, firstUserMessage maxLen (lines.filter isEntry) = firstUserMessage maxLen lines := by
  induction lines with
  | nil => exact ⟨rfl, fun _ => rfl⟩
  | cons line rest ih =>
    obtain ⟨hline, hrest⟩ := List.forall_mem_cons.mp h
    obtain ⟨hturns, hfirst⟩ := ih hrest
    rcases hentry : isEntry line with _ | _
    · rw [List.filter_cons_of_neg (by rw [hentry]; exact Bool.false_ne_true), hturns,
        turnsOf_skip hentry hline]
      exact ⟨rfl, fun maxLen => by rw [hfirst, firstUserMessage_skip hentry hline]⟩
    · rw [List.filter_cons_of_pos hentry]
      exact ⟨turnsOf_congr hturns, fun maxLen => firstUserMessage_congr (hfirst maxLen)⟩

/-! ## The two readers -/

/-- What a reader returns on a file with these lines that can be read to its end. -/
def Shows (reader : SessionId → Str → Py Str) (lines : List Loaded) (s : Str) : Prop :=
  ∀ session dir, TraceE (reader session dir)
    [⟨.sync (.readTranscript session dir), .file lines none⟩] (.ok s)

/-- A reader that has got the lines of its file. -/
theorem traceE_file {session : SessionId} {dir : Str} {f : Transcript → Py Str} {s : Str} :
    TraceE (sync (.readTranscript session dir) >>= f)
        [⟨.sync (.readTranscript session dir), .file lines none⟩] (.ok s) ↔
      TraceE (f (.file lines none)) [] (.ok s) := by
  rw [traceE_sync_bind]
  constructor
  · rintro ⟨r, es, hes, h⟩
    cases hes
    exact h
  · exact fun h => ⟨_, _, rfl, h⟩

/-- What `read_first_user_message` shows of a readable file. -/
theorem shows_readFirstUserMessage {s : Str} : Shows readFirstUserMessage lines s ↔
    ∃ o, firstUserMessage 80 lines = .ok o ∧ s = o.getD (lit "(no user message)") := by
  have htrace : ∀ session dir,
      TraceE (readFirstUserMessage session dir)
          [⟨.sync (.readTranscript session dir), .file lines none⟩] (.ok s) ↔
        ∃ o, firstUserMessage 80 lines = .ok o ∧ s = o.getD (lit "(no user message)") := by
    intro session dir
    rw [readFirstUserMessage, traceE_file]
    rcases hfirst : firstUserMessage 80 lines with x | _ | summary
    · simp [hfirst, fromExcept, traceE_throw]
    · simp [hfirst, fromExcept, traceE_pure]
    · simp [hfirst, fromExcept, traceE_pure]
  exact ⟨fun h => (htrace [] []).mp (h [] []), fun h session dir => (htrace session dir).mpr h⟩

/-- What `read_last_n_turns` shows of a readable file. -/
theorem shows_readLastNTurns {n : Nat} {s : Str} : Shows (readLastNTurns · · n) lines s ↔
    ∃ turns, turnsOf lines = .ok turns ∧ s = lastTurns turns n := by
  have htrace : ∀ session dir,
      TraceE (readLastNTurns session dir n)
          [⟨.sync (.readTranscript session dir), .file lines none⟩] (.ok s) ↔
        ∃ turns, turnsOf lines = .ok turns ∧ s = lastTurns turns n := by
    intro session dir
    rw [readLastNTurns, traceE_file]
    rcases hturns : turnsOf lines with x | turns
    · simp [hturns, fromExcept, traceE_throw]
    · simp [hturns, fromExcept, traceE_pure]
  exact ⟨fun h => (htrace [] []).mp (h [] []), fun h session dir => (htrace session dir).mpr h⟩

/-- Both readers return a string, and the same one without the lines that are no entries. -/
def SkipsMalformed (lines : List Loaded) : Prop :=
  (∃ s, Shows readFirstUserMessage lines s ∧
    Shows readFirstUserMessage (lines.filter isEntry) s) ∧
  ∀ n, ∃ s, Shows (readLastNTurns · · n) lines s ∧
    Shows (readLastNTurns · · n) (lines.filter isEntry) s

/-- The readers skip the lines that are no entries if and only if none of them is a line that they
trip over: one on which `json.loads` raises something else than `JSONDecodeError`, JSON that is no
object, or an object of type `user` or `assistant` whose message is something else than one. -/
theorem skips_malformed_iff :
    SkipsMalformed lines ↔ ∀ line ∈ lines, misread line = false := by
  constructor
  · rintro ⟨-, hlast⟩
    obtain ⟨s, hs, -⟩ := hlast 0
    obtain ⟨turns, hturns, -⟩ := shows_readLastNTurns.mp hs
    exact not_misread_of_turns hturns
  · intro h
    obtain ⟨⟨turns, hturns⟩, hfirst⟩ := reads_of_not_misread h
    obtain ⟨hturns', hfirst'⟩ := reads_filter h
    obtain ⟨o, ho⟩ := hfirst 80
    exact ⟨⟨_, shows_readFirstUserMessage.mpr ⟨o, ho, rfl⟩,
        shows_readFirstUserMessage.mpr ⟨o, (hfirst' 80).trans ho, rfl⟩⟩,
      fun n => ⟨_, shows_readLastNTurns.mpr ⟨turns, hturns, rfl⟩,
        shows_readLastNTurns.mpr ⟨turns, hturns'.trans hturns, rfl⟩⟩⟩

/-- A line with a number stops both readers. -/
theorem number_not_skipped : ¬ SkipsMalformed [.value .number] := by
  rintro ⟨-, hlast⟩
  obtain ⟨s, hs, -⟩ := hlast 1
  obtain ⟨turns, hturns, -⟩ := shows_readLastNTurns.mp hs
  cases hturns

/-! ## The last user turns -/

/-- Entries as `read_last_n_turns` formats them. -/
def formatTurns (entries : List (Str × Str)) : Str :=
  joinWith (lit "\n\n") <| entries.map fun (role, text) =>
    lit "**" ++ role ++ lit ":**\n" ++ text

/-- The entry is one of the user. -/
def isUserTurn (entry : Str × Str) : Bool := entry.1 == lit "user"

/-- The entries from the first of the last `n` user turns on. -/
def sinceUserTurn (n : Nat) : List (Str × Str) → List (Str × Str)
  | [] => []
  | entry :: rest =>
    if isUserTurn entry ∧ rest.countP isUserTurn < n then entry :: rest else sinceUserTurn n rest

section

variable {entries : List (Str × Str)} {n : Nat}

/-- The turns since a user turn are the last ones. -/
theorem sinceUserTurn_suffix : sinceUserTurn n entries <:+ entries := by
  induction entries with
  | nil => exact List.suffix_rfl
  | cons entry rest ih =>
    rw [sinceUserTurn]
    split
    · exact List.suffix_rfl
    · exact ih.trans (List.suffix_cons _ _)

/-- One more entry in front makes a longer text. -/
theorem formatTurns_lt (entry : Str × Str) (entries : List (Str × Str)) :
    (formatTurns entries).length < (formatTurns (entry :: entries)).length := by
  obtain ⟨role, text⟩ := entry
  have hbold : (lit "**").length = 2 := by decide
  cases entries with
  | nil =>
    simp only [formatTurns, joinWith, List.map_cons, List.map_nil, List.intersperse,
      List.flatten_cons, List.flatten_nil, List.length_append, List.length_nil]
    omega
  | cons other others =>
    simp only [formatTurns, joinWith, List.map_cons, List.intersperse_cons_cons, List.flatten_cons,
      List.length_append]
    omega

/-- The text tells how many of the entries are shown. -/
theorem formatTurns_le {shorter : List (Str × Str)} (h : shorter <:+ entries) :
    (formatTurns shorter).length ≤ (formatTurns entries).length ∧
      ((formatTurns shorter).length = (formatTurns entries).length → shorter = entries) := by
  induction entries with
  | nil =>
    obtain rfl := List.suffix_nil.mp h
    exact ⟨Nat.le_refl _, fun _ => rfl⟩
  | cons entry rest ih =>
    rcases List.suffix_cons_iff.mp h with rfl | hrest
    · exact ⟨Nat.le_refl _, fun _ => rfl⟩
    · have hle := (ih hrest).1
      have hlt := formatTurns_lt entry rest
      exact ⟨by omega, fun heq => by omega⟩

/-- Ends of one list of entries that read the same are the same. -/
theorem formatTurns_inj {xs ys : List (Str × Str)} (hxs : xs <:+ entries) (hys : ys <:+ entries)
    (h : formatTurns xs = formatTurns ys) : xs = ys := by
  have hlength := congrArg List.length h
  rcases Nat.le_total xs.length ys.length with hle | hle
  · exact (formatTurns_le (List.suffix_of_suffix_length_le hxs hys hle)).2 hlength
  · exact ((formatTurns_le (List.suffix_of_suffix_length_le hys hxs hle)).2 hlength.symm).symm

/-- Of two ends of a list that are equally long there is one. -/
theorem eq_of_suffix {xs ys : List (Str × Str)} (hxs : xs <:+ entries) (hys : ys <:+ entries)
    (h : xs.length = ys.length) : xs = ys :=
  (List.suffix_of_suffix_length_le hxs hys h.le).eq_of_length h

end

/-- The recap is made of the last `2 * n` turns. -/
theorem lastTurns_eq (turns : List (Str × Str)) {n : Nat} (hn : 0 < n) :
    lastTurns turns n = formatTurns (turns.drop (turns.length - 2 * n)) := by
  rw [lastTurns, sliceLast, if_neg (by omega)]
  rfl

/-- `!recap n` shows exactly the last `n` user turns, with all that follows the first of them, if
and only if these are the last `2 n` entries, or all that there are. -/
theorem recap_exact_iff {turns : List (Str × Str)} {n : Nat} (hturns : turnsOf lines = .ok turns)
    (hn : 0 < n) :
    Shows (readLastNTurns · · n) lines (formatTurns (sinceUserTurn n turns)) ↔
      (sinceUserTurn n turns).length = min (2 * n) turns.length := by
  have hlast := lastTurns_eq turns hn
  have hlength : (turns.drop (turns.length - 2 * n)).length = min (2 * n) turns.length := by
    rw [List.length_drop]
    omega
  constructor
  · intro h
    obtain ⟨turns', hturns', htext⟩ := shows_readLastNTurns.mp h
    cases hturns.symm.trans hturns'
    rw [hlast] at htext
    rw [formatTurns_inj sinceUserTurn_suffix (List.drop_suffix _ _) htext, hlength]
  · intro h
    refine shows_readLastNTurns.mpr ⟨turns, hturns, ?_⟩
    rw [hlast, eq_of_suffix sinceUserTurn_suffix (List.drop_suffix _ _) (h.trans hlength.symm)]

/-- The entries of questions that are answered once each. -/
def exchanges (pairs : List (Str × Str)) : List (Str × Str) :=
  pairs.flatMap fun (question, answer) => [(lit "user", question), (lit "assistant", answer)]

/-- A question is a user turn. -/
theorem isUserTurn_question (text : Str) : isUserTurn (lit "user", text) = true := rfl

/-- An answer is none. -/
theorem not_isUserTurn_answer (text : Str) : ¬ isUserTurn (lit "assistant", text) = true :=
  Bool.false_ne_true

/-- Exchanges have one user turn each, and two turns. -/
theorem count_exchanges (pairs : List (Str × Str)) :
    (exchanges pairs).countP isUserTurn = pairs.length ∧
      (exchanges pairs).length = 2 * pairs.length := by
  induction pairs with
  | nil => exact ⟨rfl, rfl⟩
  | cons pair rest ih =>
    have hcons : exchanges (pair :: rest) =
        (lit "user", pair.1) :: (lit "assistant", pair.2) :: exchanges rest := rfl
    rw [hcons, List.countP_cons_of_pos (isUserTurn_question _),
      List.countP_cons_of_neg (not_isUserTurn_answer _), ih.1]
    simp only [List.length_cons, ih.2]
    exact ⟨trivial, by omega⟩

/-- Where question and answer alternate the last `n` turns are the last `2 n` entries. -/
theorem sinceUserTurn_exchanges (pairs : List (Str × Str)) (n : Nat) :
    (sinceUserTurn n (exchanges pairs)).length = min (2 * n) (exchanges pairs).length := by
  induction pairs with
  | nil => exact (Nat.min_zero _).symm
  | cons pair rest ih =>
    have hcons : exchanges (pair :: rest) =
        (lit "user", pair.1) :: (lit "assistant", pair.2) :: exchanges rest := rfl
    obtain ⟨hcount, hlength⟩ := count_exchanges rest
    rw [hcons, sinceUserTurn, List.countP_cons_of_neg (not_isUserTurn_answer _), hcount]
    by_cases hfew : rest.length < n
    · rw [if_pos ⟨isUserTurn_question _, hfew⟩, List.length_cons, List.length_cons]
      omega
    · rw [if_neg (fun h => hfew h.2), sinceUserTurn,
        if_neg (fun h => not_isUserTurn_answer _ h.1), ih,
        List.length_cons, List.length_cons]
      omega

/-- A transcript with these entries: one object a line, with the text as its content. -/
def transcript (entries : List (Str × Str)) : List Loaded :=
  entries.map fun (role, text) =>
    .value (.obj [(lit "type", .str role), (lit "message", .obj [(lit "content", .str text)])])

/-- Of two questions with one answer each, `!recap 1` shows the second one and its answer. -/
theorem recap_exact_alternating :
    let pairs := [(lit "a", lit "b"), (lit "c", lit "d")]
    Shows (readLastNTurns · · 1) (transcript (exchanges pairs))
      (formatTurns (sinceUserTurn 1 (exchanges pairs))) :=
  (@recap_exact_iff _ (exchanges [(lit "a", lit "b"), (lit "c", lit "d")]) 1
    rfl (by decide)).mpr (sinceUserTurn_exchanges _ 1)

/-- Of a question with two answers `!recap 1` shows the answers only. -/
theorem question_not_shown :
    ¬ Shows (readLastNTurns · · 1)
        (transcript [(lit "user", lit "a"), (lit "assistant", lit "b"), (lit "assistant", lit "c")])
        (formatTurns (sinceUserTurn 1
          [(lit "user", lit "a"), (lit "assistant", lit "b"), (lit "assistant", lit "c")])) := by
  intro h
  obtain ⟨turns, hturns, htext⟩ := shows_readLastNTurns.mp h
  cases hturns
  revert htext
  decide

/-! ## The prefix of a prompt -/

section

variable {s : Str}

/-- Nothing is stripped from a string that neither begins nor ends with white space. -/
theorem strip_eq_self {c d : Char} {mid : Str} (hc : Str.isSpace c = false)
    (hd : Str.isSpace d = false) : Str.strip (c :: (mid ++ [d])) = c :: (mid ++ [d]) := by
  have hfront : (c :: (mid ++ [d])).dropWhile Str.isSpace = c :: (mid ++ [d]) :=
    List.dropWhile_cons_of_neg (by rw [hc]; exact Bool.false_ne_true)
  change ((c :: (mid ++ [d])).dropWhile Str.isSpace).rdropWhile Str.isSpace = _
  rw [hfront]
  exact List.rdropWhile_concat_neg _ (c :: mid) d (by rw [hd]; exact Bool.false_ne_true)

/-- A stripped string begins with no white space. -/
theorem strip_head (h : s.strip ≠ []) : Str.isSpace (s.strip.head h) = false := by
  have hprefix : s.strip <+: s.dropWhile Str.isSpace := List.rdropWhile_prefix _ _
  have hfront : s.dropWhile Str.isSpace ≠ [] := fun hnil => h (by
    rw [hnil] at hprefix
    exact List.prefix_nil.mp hprefix)
  rw [List.IsPrefix.head hprefix h]
  exact List.head_dropWhile_not _ hfront

/-- A stripped string ends with no white space. -/
theorem strip_getLast (h : s.strip ≠ []) : Str.isSpace (s.strip.getLast h) = false :=
  Bool.eq_false_iff.mpr (List.rdropWhile_last_not _ (s.dropWhile Str.isSpace) h)

end

/-- Two equal characters lie on one side of another one. -/
theorem infix_of_infix_append_cons {x c : Char} {as bs : Str} (hc : c ≠ x)
    (h : [x, x] <:+: as ++ c :: bs) : [x, x] <:+: as ∨ [x, x] <:+: bs := by
  induction as with
  | nil =>
    rcases List.infix_cons_iff.mp h with hprefix | hinfix
    · exact absurd (List.cons_prefix_cons.mp hprefix).1.symm hc
    · exact .inr hinfix
  | cons a rest ih =>
    rcases List.infix_cons_iff.mp h with hprefix | hinfix
    · obtain ⟨rfl, hsecond⟩ := List.cons_prefix_cons.mp hprefix
      cases rest with
      | nil => exact absurd (List.cons_prefix_cons.mp hsecond).1.symm hc
      | cons b others =>
        obtain ⟨rfl, -⟩ := List.cons_prefix_cons.mp hsecond
        exact .inl ⟨[], others, rfl⟩
    · exact (ih hinfix).imp List.infix_cons id

/-- `split("\n\n", 1)` cuts at the first blank line. -/
theorem afterBlank_append {front : Str} (h : ¬ lit "\n\n" <:+: front ++ lit "\n") (rest : Str) :
    Str.afterBlank (front ++ lit "\n\n" ++ rest) = rest := by
  suffices hgo : ∀ whole, Str.afterBlank.go whole (front ++ lit "\n\n" ++ rest) = rest from hgo _
  intro whole
  induction front with
  | nil => rfl
  | cons c front ih =>
    have hrest : ¬ lit "\n\n" <:+: front ++ lit "\n" := fun hinfix => h (List.infix_cons hinfix)
    rw [List.cons_append, List.cons_append, Str.afterBlank.go.eq_def]
    split
    · next rest' heq =>
      obtain ⟨rfl, htail⟩ := List.cons.inj heq
      -- the second newline stands in `front`, or it is the first one behind it
      cases front with
      | nil => exact absurd (List.infix_rfl) h
      | cons d front =>
        obtain ⟨rfl, -⟩ := List.cons.inj htail
        exact absurd ⟨[], front ++ lit "\n", rfl⟩ h
    · next c' rest' _ heq =>
      obtain ⟨rfl, rfl⟩ := List.cons.inj heq
      exact ih hrest
    · next heq => cases heq

section

variable {agent : AgentName} {message : Str}

/-- What `handle_event` puts in front of the first blank line of a prompt. -/
def promptFront (agent : AgentName) : Str :=
  lit "[Invoked via Matrix room #" ++ agent ++
    lit " by @ted. Output your response as plain text only. " ++
    lit "Do NOT use mcp__matrix__ tools or any Matrix MCP — " ++
    lit "the dispatcher will post your stdout to the room automatically.]"

/-- The prompt of a new session is its front, a blank line and the message. -/
theorem spawnPrompt_eq :
    spawnPrompt agent message = promptFront agent ++ lit "\n\n" ++ message := by
  have hlast : lit "the dispatcher will post your stdout to the room automatically.]\n\n" =
      lit "the dispatcher will post your stdout to the room automatically.]" ++ lit "\n\n" := by
    decide +kernel
  simp only [spawnPrompt, promptFront, hlast, List.append_assoc]

/-- A prompt begins with a bracket. -/
theorem promptFront_cons : ∃ rest, promptFront agent = '[' :: rest := ⟨_, rfl⟩

/-- The prefix holds no blank line of its own. -/
theorem promptFront_unbroken (hagent : ¬ lit "\n\n" <:+: agent) :
    ¬ lit "\n\n" <:+: promptFront agent ++ lit "\n" := by
  intro h
  have hroom : lit "[Invoked via Matrix room #" = lit "[Invoked via Matrix room " ++ ['#'] := by
    decide +kernel
  have hted : lit " by @ted. Output your response as plain text only. " =
      ' ' :: lit "by @ted. Output your response as plain text only. " := by decide +kernel
  have hsplit : promptFront agent ++ lit "\n" = lit "[Invoked via Matrix room " ++ '#' ::
      (agent ++ ' ' :: (lit "by @ted. Output your response as plain text only. " ++
        (lit "Do NOT use mcp__matrix__ tools or any Matrix MCP — " ++
          (lit "the dispatcher will post your stdout to the room automatically.]" ++
            lit "\n")))) := by
    simp only [promptFront, hroom, hted, List.append_assoc, List.cons_append, List.nil_append]
  rw [hsplit] at h
  rcases infix_of_infix_append_cons (by decide) h with hfront | h
  · revert hfront
    decide +kernel
  · rcases infix_of_infix_append_cons (by decide) h with hname | hback
    · exact hagent hname
    · revert hback
      decide +kernel

/-- The readers take off the prefix of a prompt, whatever message follows it. -/
theorem withoutPrefix_spawnPrompt (hagent : ¬ lit "\n\n" <:+: agent) :
    withoutPrefix (spawnPrompt agent message) = message := by
  have hopening : promptOpening.isPrefixOf (spawnPrompt agent message) = true := rfl
  rw [withoutPrefix, if_pos hopening, spawnPrompt_eq]
  exact afterBlank_append (promptFront_unbroken hagent) message

/-- The prompt of a new session is not empty. -/
theorem spawnPrompt_ne_nil : spawnPrompt agent message ≠ [] := by
  obtain ⟨rest, hrest⟩ := @promptFront_cons agent
  rw [spawnPrompt_eq, hrest]
  exact List.cons_ne_nil _ _

/-- Nothing is stripped from the prompt of a stripped message. -/
theorem strip_spawnPrompt {body : Str} (hbody : body.strip ≠ []) :
    (spawnPrompt agent body.strip).strip = spawnPrompt agent body.strip := by
  obtain ⟨rest, hrest⟩ := @promptFront_cons agent
  have hsplit : spawnPrompt agent body.strip =
      '[' :: ((rest ++ lit "\n\n" ++ body.strip.dropLast) ++ [body.strip.getLast hbody]) := by
    rw [List.append_assoc, List.dropLast_append_getLast hbody, spawnPrompt_eq, hrest,
      List.cons_append, List.cons_append]
  rw [hsplit]
  exact strip_eq_self (by decide) (strip_getLast hbody)

/-- The first line of a stripped message: only its end may be white space. -/
theorem strip_firstLine {body : Str} (hbody : body.strip ≠ []) :
    body.strip.firstLine.strip = body.strip.firstLine.rdropWhile Str.isSpace ∧
      body.strip.firstLine.strip ≠ [] := by
  have hhead := strip_head hbody
  obtain ⟨c, rest, hsplit⟩ := List.exists_cons_of_ne_nil hbody
  simp only [hsplit, List.head_cons] at hhead ⊢
  -- The first character is no white space, so it is in the first line and stays in front.
  have hline : (c == '\n') = false := by
    by_contra h
    rw [Bool.not_eq_false, beq_iff_eq] at h
    rw [h] at hhead
    revert hhead
    decide
  have hfirst : Str.firstLine (c :: rest) = c :: Str.firstLine rest := by
    rw [Str.firstLine, List.takeWhile_cons_of_pos (by simp [bne, hline])]
    rfl
  have hfront : (c :: Str.firstLine rest).dropWhile Str.isSpace = c :: Str.firstLine rest :=
    List.dropWhile_cons_of_neg (by rw [hhead]; exact Bool.false_ne_true)
  have hstrip : Str.strip (c :: Str.firstLine rest) =
      (c :: Str.firstLine rest).rdropWhile Str.isSpace := by
    change ((c :: Str.firstLine rest).dropWhile Str.isSpace).rdropWhile Str.isSpace = _
    rw [hfront]
  rw [hfirst]
  refine ⟨hstrip, fun hnil => ?_⟩
  rw [hstrip, List.rdropWhile_eq_nil_iff] at hnil
  rw [hnil c List.mem_cons_self] at hhead
  cases hhead

end

/-- The object of a line records a prompt as the user's: as a string, or as one text block. -/
def Records (obj : List (Str × Json)) (prompt : Str) : Prop :=
  lineRole obj = some (lit "user") ∧
    ∃ msg, Json.lookup (lit "message") obj = some (.obj msg) ∧
      (Json.lookup (lit "content") msg = some (.str prompt) ∨
        ∃ block, Json.lookup (lit "content") msg = some (.arr [.obj block]) ∧
          Json.lookup (lit "type") block = some (.str (lit "text")) ∧
          Json.lookup (lit "text") block = some (.str prompt))

/-- The text of a record of the prompt is the prompt, stripped. -/
theorem lineText_records {prompt : Str} (h : Records obj prompt) :
    lineText obj = .ok prompt.strip := by
  obtain ⟨-, msg, hmessage, hcontent⟩ := h
  rw [lineText, hmessage]
  simp only [Option.getD_some, Json.asObj]
  rcases hcontent with htext | ⟨block, hblocks, htype, htext⟩
  · rw [htext]
    rfl
  · rw [hblocks]
    simp only [Option.getD_some, extractText, List.filterMap_cons, Json.asObj, Option.bind_eq_bind,
      Option.bind_some, htype, Json.asStr, htext, if_pos, List.filterMap_nil, joinWith,
      List.intersperse, List.flatten_cons, List.flatten_nil, List.append_nil]

/-- The line is an object of type `user`. -/
def isUserLine : Loaded → Bool
  | .value (.obj obj) => decide (lineRole obj = some (lit "user"))
  | _ => false

section

variable {before rest : List Loaded} {maxLen : Nat}

/-- Where a line stops the reader, the search raises. -/
theorem firstUserMessage_stops (h : stops line = true) :
    ∃ x, firstUserMessage maxLen (line :: rest) = .error x := by
  cases line with
  | value v =>
    cases v with
    | obj obj => cases h
    | _ => exact ⟨.attributeError, rfl⟩
  | jsonDecodeError => cases h
  | valueError => exact ⟨.valueError, rfl⟩
  | recursionError => exact ⟨.recursionError, rfl⟩

/-- An object of another type, or a line that is skipped, is no first message. -/
theorem firstUserMessage_pass (hother : isUserLine line = false) (hline : stops line = false) :
    firstUserMessage maxLen (line :: rest) = firstUserMessage maxLen rest := by
  rcases stops_cases hline with rfl | ⟨obj, rfl⟩
  · rfl
  · exact firstUserMessage_other (of_decide_eq_false hother)

/-- The first message is looked for behind the lines of others. -/
theorem firstUserMessage_append (hbefore : ∀ line ∈ before, isUserLine line = false)
    (hread : ∀ line ∈ before, stops line = false) :
    firstUserMessage maxLen (before ++ rest) = firstUserMessage maxLen rest := by
  induction before with
  | nil => rfl
  | cons line others ih =>
    obtain ⟨hother, hothers⟩ := List.forall_mem_cons.mp hbefore
    obtain ⟨hline, hrest⟩ := List.forall_mem_cons.mp hread
    rw [List.cons_append, firstUserMessage_pass hother hline]
    exact ih hothers hrest

/-- It is not found behind a line that stops the reader. -/
theorem not_stops_of_firstUserMessage {o : Option Str}
    (hbefore : ∀ line ∈ before, isUserLine line = false)
    (h : firstUserMessage maxLen (before ++ rest) = .ok o) :
    ∀ line ∈ before, stops line = false := by
  induction before with
  | nil => exact nofun
  | cons line others ih =>
    obtain ⟨hother, hothers⟩ := List.forall_mem_cons.mp hbefore
    rw [List.cons_append] at h
    rcases hline : stops line with _ | _
    · rw [firstUserMessage_pass hother hline] at h
      exact List.forall_mem_cons.mpr ⟨hline, ih hothers h⟩
    · obtain ⟨x, herror⟩ := @firstUserMessage_stops _ (others ++ rest) maxLen hline
      cases herror.symm.trans h

end

/-- The entries of the lines in front come before those of the others. -/
theorem turnsOf_append {before rest : List Loaded} {earlier later : List (Str × Str)}
    (hbefore : turnsOf before = .ok earlier) (hrest : turnsOf rest = .ok later) :
    turnsOf (before ++ rest) = .ok (earlier ++ later) := by
  -- By induction on the lines in front.
  induction before generalizing earlier with
  | nil =>
    cases hbefore
    exact hrest
  | cons line others ih =>
    have hmisread := not_misread_of_turns hbefore line List.mem_cons_self
    obtain ⟨turns, hturns⟩ := turnsOf_tail hmisread hbefore
    have hwhole := ih hturns
    rw [List.cons_append]
    rcases hentry : isEntry line with _ | _
    · rw [turnsOf_skip hentry hmisread] at hbefore ⊢
      exact ih hbefore
    obtain ⟨obj, rfl, hspeaks, -⟩ := entry_cases hentry
    obtain ⟨role, hrole, hor⟩ := speaks_iff.mp hspeaks
    obtain ⟨text, htext, -⟩ := lineText_ok hspeaks hmisread
    rw [turnsOf_speaks hrole hor, htext, hturns] at hbefore
    rw [turnsOf_speaks hrole hor, htext, hwhole]
    change (if text = [] then Except.ok turns else _) = _ at hbefore
    change (if text = [] then Except.ok (turns ++ later) else _) = _
    by_cases hnone : text = []
    · rw [if_pos hnone] at hbefore ⊢
      cases hbefore
      rfl
    · rw [if_neg hnone] at hbefore ⊢
      cases hbefore
      rfl

/-- The last `k` elements, where these reach back to `x`. -/
theorem sliceLast_append {α : Type} {earlier later : List α} {x : α} {k : Nat}
    (h : k = 0 ∨ later.length < k) :
    ∃ shown, shown <:+ earlier ∧ sliceLast k (earlier ++ x :: later) = shown ++ x :: later := by
  by_cases hk : k = 0
  · exact ⟨earlier, List.suffix_rfl, if_pos hk⟩
  · have hlater := h.resolve_left hk
    refine ⟨earlier.drop ((earlier ++ x :: later).length - k), List.drop_suffix _ _, ?_⟩
    rw [sliceLast, if_neg hk, List.drop_append_of_le_length]
    rw [List.length_append, List.length_cons]
    omega

section

variable (body : Str) (before after : List Loaded) (obj : List (Str × Json))

/-- On a file in which `obj` records the prompt for a message, `!sessions` shows the first line of
the message. -/
def FirstUndone : Prop :=
  Shows readFirstUserMessage (before ++ .value (.obj obj) :: after)
    (ellipsis (body.strip.firstLine.rdropWhile Str.isSpace) 80)

/-- On such a file, `!recap n` shows all of the message, between entries of the lines before it and
those of the lines after it. -/
def LastUndone : Prop :=
  ∃ earlier later, turnsOf (before.filter isEntry) = .ok earlier ∧
    turnsOf (after.filter isEntry) = .ok later ∧
    ∀ n, n = 0 ∨ later.length < 2 * n → ∃ shown, shown <:+ earlier ∧
      Shows (readLastNTurns · · n) (before ++ .value (.obj obj) :: after)
        (formatTurns (shown ++ (lit "user", body.strip) :: later))

end

section

variable {agent : AgentName} {body : Str} {before after : List Loaded}

/-- `!sessions` needs the lines before the prompt only. -/
theorem first_undone_iff (hagent : ¬ lit "\n\n" <:+: agent) (hbody : body.strip ≠ [])
    (hrecords : Records obj (spawnPrompt agent body.strip))
    (hfirst : ∀ line ∈ before, isUserLine line = false) :
    FirstUndone body before after obj ↔ ∀ line ∈ before, stops line = false := by
  constructor
  · intro h
    obtain ⟨o, ho, -⟩ := shows_readFirstUserMessage.mp h
    exact not_stops_of_firstUserMessage hfirst ho
  · intro hread
    have htext : lineText obj = .ok (spawnPrompt agent body.strip) := by
      rw [lineText_records hrecords, strip_spawnPrompt hbody]
    have hmessage : withoutPrefix (spawnPrompt agent body.strip) = body.strip :=
      withoutPrefix_spawnPrompt hagent
    obtain ⟨hline, hsome⟩ := strip_firstLine hbody
    refine shows_readFirstUserMessage.mpr
      ⟨some (ellipsis body.strip.firstLine.strip 80), ?_, by rw [hline]; rfl⟩
    rw [firstUserMessage_append hfirst hread,
      firstUserMessage_found hrecords.1 htext (by rw [hmessage]; exact hsome), hmessage]

/-- `!recap` needs all of the lines. -/
theorem last_undone_iff (hagent : ¬ lit "\n\n" <:+: agent) (hbody : body.strip ≠ [])
    (hrecords : Records obj (spawnPrompt agent body.strip)) :
    LastUndone body before after obj ↔ ∀ line ∈ before ++ after, misread line = false := by
  constructor
  -- What is shown was read from all lines, so none is misread.
  · rintro ⟨earlier, later, -, -, hshows⟩ line hline
    obtain ⟨shown, -, hshown⟩ := hshows (later.length + 1) (.inr (by omega))
    obtain ⟨turns, hturns, -⟩ := shows_readLastNTurns.mp hshown
    refine not_misread_of_turns hturns line (List.mem_append.mpr ?_)
    exact (List.mem_append.mp hline).imp id (List.mem_cons_of_mem _)
  · intro hread
    have hbefore := fun line hline => hread line (List.mem_append_left after hline)
    have hafter := fun line hline => hread line (List.mem_append_right before hline)
    have htext : lineText obj = .ok (spawnPrompt agent body.strip) := by
      rw [lineText_records hrecords, strip_spawnPrompt hbody]
    -- Conversely, the prompt is a user turn behind the earlier ones, and a recap that reaches back
    -- to it shows the message.
    have hmessage : withoutPrefix (spawnPrompt agent body.strip) = body.strip :=
      withoutPrefix_spawnPrompt hagent
    obtain ⟨⟨earlier, hearlier⟩, -⟩ := reads_of_not_misread hbefore
    obtain ⟨⟨later, hlater⟩, -⟩ := reads_of_not_misread hafter
    refine ⟨earlier, later, (reads_filter hbefore).1.trans hearlier,
      (reads_filter hafter).1.trans hlater, fun n hn => ?_⟩
    have hentry := turnsOf_user hrecords.1 htext spawnPrompt_ne_nil hlater
    rw [hmessage] at hentry
    have hreach : 2 * n = 0 ∨ later.length < 2 * n := hn.imp (fun h => by rw [h]) id
    obtain ⟨shown, hshown, hslice⟩ :=
      @sliceLast_append _ earlier _ (lit "user", body.strip) _ hreach
    refine ⟨shown, hshown, shows_readLastNTurns.mpr ⟨_, turnsOf_append hearlier hentry, ?_⟩⟩
    rw [lastTurns, hslice]
    rfl

/-- The readers take off the prefix of the prompt that `handle_event` has built for a message if and
only if they do not trip over another line of the file; for the first of them it is enough that no
line before the prompt stops it. -/
theorem prefix_undone_iff (hagent : ¬ lit "\n\n" <:+: agent) (hbody : body.strip ≠ [])
    (hrecords : Records obj (spawnPrompt agent body.strip))
    (hfirst : ∀ line ∈ before, isUserLine line = false) :
    (FirstUndone body before after obj ∧ LastUndone body before after obj ↔
      ∀ line ∈ before ++ after, misread line = false) ∧
    (FirstUndone body before after obj ↔ ∀ line ∈ before, stops line = false) := by
  have hfirstIff := @first_undone_iff _ _ _ _ after hagent hbody hrecords hfirst
  have hlastIff := @last_undone_iff _ _ _ before after hagent hbody hrecords
  refine ⟨⟨fun h => hlastIff.mp h.2, fun h => ⟨hfirstIff.mpr fun line hline => ?_,
    hlastIff.mpr h⟩⟩, hfirstIff⟩
  exact not_stops (h line (List.mem_append_left after hline))

end

/-- The record of the prompt for a message. -/
def promptRecord (message : Str) : List (Str × Json) :=
  [(lit "type", .str (lit "user")),
    (lit "message", .obj [(lit "content", .str (spawnPrompt (lit "agent") message))])]

/-- A message of two paragraphs, asked behind a summary line and answered. -/
theorem prefix_undone_iff_paragraphs :
    let before := [Loaded.value (.obj [(lit "type", .str (lit "summary"))])]
    let after := transcript [(lit "assistant", lit "done")]
    (FirstUndone (lit " fix \n\nit ") before after (promptRecord (lit "fix \n\nit")) ∧
        LastUndone (lit " fix \n\nit ") before after (promptRecord (lit "fix \n\nit")) ↔
      ∀ line ∈ before ++ after, misread line = false) ∧
    (FirstUndone (lit " fix \n\nit ") before after (promptRecord (lit "fix \n\nit")) ↔
      ∀ line ∈ before, stops line = false) :=
  @prefix_undone_iff _ (lit "agent") (lit " fix \n\nit ") _ _ (by decide) (by decide)
    ⟨rfl, _, rfl, .inl rfl⟩ (by decide)

/-- With a line that holds a number behind the prompt, `!recap` shows nothing. -/
theorem prefix_not_undone :
    (¬ lit "\n\n" <:+: lit "agent") ∧ (lit "hi").strip ≠ [] ∧
      Records (promptRecord (lit "hi")) (spawnPrompt (lit "agent") (lit "hi").strip) ∧
      ¬ LastUndone (lit "hi") [] [.value .number] (promptRecord (lit "hi")) := by
  refine ⟨by decide, by decide, ⟨rfl, _, rfl, .inl rfl⟩, ?_⟩
  rintro ⟨earlier, later, -, -, hshows⟩
  obtain ⟨shown, -, hshown⟩ := hshows (later.length + 1) (.inr (by omega))
  obtain ⟨turns, hturns, -⟩ := shows_readLastNTurns.mp hshown
  exact absurd (not_misread_of_turns hturns (.value .number) (by simp)) (by decide)

end MatrixDispatcher
