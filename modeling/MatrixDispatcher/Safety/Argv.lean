import MatrixDispatcher.Discipline.Ledger

/-!
# Session ids in command lines

A session id is checked once, where `!mirror` takes it from the name of a file; it is then kept in
the tables and put into command lines much later. The check is `uuid.UUID`, which ignores every
`-`, so that a file name may pass it although it looks like an option.

* `minting`, `undashed` — the assumption on `uuid4`, and that no file name looks like an option.
* `SafeArgv` — a command line whose session id does not look like an option.
* `argv_safe` — all command lines are safe in a run in which no file name looks like an option.
-/

namespace MatrixDispatcher

open Py Coro Machine

variable {config : MatrixDispatcher.Config} {allow : World → Step → Prop}

/-! ## Children -/

/-- The children after an effect. -/
theorem procs_of_exec {t : Tid} {a : Answer} {e : Eff} {r : e.Ret} {w w' : World}
    (h : exec t a e w = some (r, w')) :
    w'.procs = w.procs ∨ ∃ argv cwd agent turn, e = .await (.exec argv cwd agent turn) ∧
      w'.procs = w.procs ++ [⟨t, turn, argv, cwd, agent, .alive⟩] := by
  by_cases hlaunch : ∃ argv cwd agent turn, e = .await (.exec argv cwd agent turn)
  · obtain ⟨argv, cwd, agent, turn, rfl⟩ := hlaunch
    obtain ⟨⟨r', w''⟩, hquiet, heq⟩ := Option.map_eq_some_iff.mp h
    cases heq
    rcases execAwait_eq hquiet with ⟨-, -, rfl⟩ | ⟨-, hop⟩
    · exact .inl rfl
    · rw [execOperation.eq_def] at hop
      dsimp only at hop
      split at hop
      · cases hop
        exact .inr ⟨argv, cwd, agent, turn, rfl, rfl⟩
      · obtain ⟨rfl, -⟩ := failure_eq hop
        exact .inl rfl
  -- No other effect writes the children.
  · refine .inl (frame h (c := .procs) fun hmem => hlaunch ?_)
    cases e with
    | sync e => cases e <;> simp [Eff.writes] at hmem
    | await e =>
      cases e <;> first
        | exact ⟨_, _, _, _, rfl⟩
        | simp [Eff.writes, AwaitEff.writes] at hmem

/-- A child stays what it was started as. -/
theorem procs_of_moved {m : Move} {w w' : World} (h : w.moved m = some w') {p : Proc}
    (hp : p ∈ w'.procs) : ∃ p' ∈ w.procs, ∃ status, p = { p' with status := status } := by
  have hsame : ∀ {p : Proc}, ∃ status, p = { p with status := status } := ⟨_, rfl⟩
  cases m with
  | exit pid rc out err =>
    rw [World.moved.eq_def] at h
    dsimp only at h
    split at h <;> cases h
    obtain ⟨i, hi⟩ := List.getElem?_of_mem hp
    rw [setStatus, List.getElem?_modify] at hi
    obtain ⟨p', hp', rfl⟩ := Option.map_eq_some_iff.mp hi
    refine ⟨p', List.mem_of_getElem? hp', ?_⟩
    split
    · exact ⟨_, rfl⟩
    · exact hsame
  | _ =>
    rw [World.moved] at h
    split at h <;> cases h
    exact ⟨p, hp, hsame⟩

/-- What holds of every command that is about to be run holds of every child. -/
theorem children_of_about {P : List Str → Str → Turn → Prop}
    (h : ∀ c, Reaches config allow c → ∀ t argv cwd agent turn,
      c.About t (.await (.exec argv cwd agent turn)) → P argv cwd turn)
    {c : Machine.Config Tid Eff Eff.Ret World} (hreach : Reaches config allow c) :
    ∀ p ∈ c.world.procs, P p.argv p.cwd p.turn := by
  refine Reachable.keeps (I := fun w => ∀ p ∈ w.procs, P p.argv p.cwd p.turn) hreach
    (fun p hp => (List.not_mem_nil hp).elim) ?_ ?_ ?_ ?_
  · intro c t e a r w hreach habout _ hexec ih p hp
    rcases procs_of_exec hexec with heq | ⟨argv, cwd, agent, turn, rfl, heq⟩
    · exact ih p (heq ▸ hp)
    · rcases List.mem_append.mp (heq ▸ hp) with hold | hnew
      · exact ih p hold
      · obtain rfl := List.mem_singleton.mp hnew
        exact h c hreach t argv cwd agent turn habout
  · intro w w' a _ henv ih p hp
    obtain ⟨m, -, hmoved⟩ := env_eq henv
    obtain ⟨p', hp', _, rfl⟩ := procs_of_moved hmoved hp
    exact ih p' hp'
  · intro w w' t fiber a _ hstart ih
    obtain ⟨n, request, -, -, -, rfl⟩ := start_eq hstart
    exact ih
  · intro w w' a _ hcrash ih
    obtain ⟨-, rfl⟩ := crash_eq hcrash
    exact ih

/-! ## Session ids that look like options -/

/-- The text looks like an option. -/
def dashed (s : Str) : Bool := s.head? == some '-'

/-- A UUID as `uuid4` writes it: lower-case hexadecimal digits in groups of 8, 4, 4, 4 and 12. -/
def canonicalUuid (s : Str) : Bool :=
  s.length == 36 && s.zipIdx.all fun (c, i) =>
    if i = 8 ∨ i = 13 ∨ i = 18 ∨ i = 23 then c == '-'
    else ('0' ≤ c && c ≤ '9') || ('a' ≤ c && c ≤ 'f')

theorem not_dashed_of_canonical {s : Str} (h : canonicalUuid s = true) : dashed s = false := by
  cases s with
  | nil => rfl
  | cons c s =>
    rw [canonicalUuid, Bool.and_eq_true, List.zipIdx_cons, List.all_cons, Bool.and_eq_true] at h
    have hc : ¬ c = '-' := by
      rintro rfl
      exact absurd h.2.1 (by decide)
    simpa [dashed] using hc

/-- `uuid4` makes canonical UUIDs. -/
def minting (_ : World) : Step → Prop
  | .effect _ (.sync .uuid4) (.text s) => canonicalUuid s = true
  | _ => True

/-- No transcript whose name passes for a UUID looks like an option. -/
def undashed (_ : World) : Step → Prop
  | .effect _ (.sync (.listTranscripts _)) (.listing (some files)) =>
    ∀ f ∈ files, uuidAccepts f.1 = true → dashed f.1 = false
  | _ => True

/-- A command line of `claude` whose session id does not look like an option. -/
def SafeArgv (argv : List Str) : Prop :=
  ∃ flag session text, argv = [lit "claude", lit "-p", flag, session, text] ∧
    (flag = lit "--session-id" ∨ flag = lit "--resume") ∧ dashed session = false

/-- The ledger of ids that do not look like options. -/
def undashedLedger : Ledger where
  fresh session := dashed session = false
  placed _ session := dashed session = false
  located _ _ := True
  found _ _ _ _ := True
  known _ := True
  join _ _ _ := trivial
  move _ _ h := h

theorem undashedLedger_governs :
    undashedLedger.Governs config fun w e => minting w e ∧ undashed w e where
  minted h := not_dashed_of_canonical h.1
  listed h := h.2 _
  placed _ h := h
  posted _ := trivial
  accepts _ h := ⟨h, trivial, fun _ _ => trivial⟩
  found _ _ _ := trivial
  known _ _ := trivial

/-- A turn with such an id has a safe command line. -/
theorem safeArgv_of_turn {turn : Turn} (h : dashed turn.sessionId = false) :
    SafeArgv turn.argv := by
  rw [Turn.argv]
  split
  · exact ⟨_, _, _, rfl, .inl rfl, h⟩
  · exact ⟨_, _, _, rfl, .inr rfl, h⟩

/-- The children of a run in which no name of a transcript looks like an option have safe command
lines. -/
theorem argv_safe {c : Machine.Config Tid Eff Eff.Ret World}
    (h : Reaches config (fun w e => minting w e ∧ undashed w e) c) :
    ∀ p ∈ c.world.procs, SafeArgv p.argv := by
  refine children_of_about (P := fun argv _ _ => SafeArgv argv) ?_ h
  intro c hreach t argv cwd agent turn habout
  obtain ⟨request, -, -, hpromises⟩ := Ledger.about undashedLedger_governs hreach habout
  obtain ⟨hcalls, rfl, -⟩ := hpromises
  refine safeArgv_of_turn ?_
  cases request with
  | main | cleanup => exact hcalls.elim
  | reconcile =>
    cases hcalls with
    | mk row agent cfg dir hwaits => exact hwaits.placed
  | handle args =>
    cases hcalls.1 with
    | reply e row hfinds => exact hfinds.entered.placed
    | spawn session _ hfresh => exact hfresh

/-- `minting`, evaluated. -/
def mints : Step → Bool
  | .effect _ (.sync .uuid4) (.text s) => canonicalUuid s
  | _ => true

/-- `undashed`, evaluated. -/
def listsUndashed : Step → Bool
  | .effect _ (.sync (.listTranscripts _)) (.listing (some files)) =>
    files.all fun f => !uuidAccepts f.1 || !dashed f.1
  | _ => true

theorem minting_of_check (w : World) (e : Step) (h : mints e = true) : minting w e := by
  rw [minting.eq_def]
  split
  · exact h
  · trivial

theorem undashed_of_check (w : World) (e : Step) (h : listsUndashed e = true) :
    undashed w e := by
  rw [undashed.eq_def]
  split
  · intro f hf haccepts
    simpa [haccepts] using List.all_eq_true.mp h f hf
  · trivial

/-- `!mirror` links a transcript of that name, and a reply resumes it. -/
def mirroringOnce (name : Str) : List Cue :=
  booting ++ batch (lit "t1") (lit "!room") [messageOf (lit "$1") (lit "!mirror") (.obj [])] ++
    [.step (.start (.pick 2)), .go (.handler 0) 1,
      .task (.handler 0) (.listing (some [(name, 0)])), .go (.handler 0) 14] ++ replying 1

/-- The child of the reply exits, and a message spawns a session with an id that `uuid4` could
make. -/
def spawningAfter : List Cue :=
  [.move (.exit 0 0 (lit "ok") []), .go (.handler 1) 19] ++
    batch (lit "t3") (lit "!room") [messageOf (lit "$3") (lit "hi") (.obj [])] ++
      [.step (.start (.pick 2)), .go (.handler 2) 5,
        .task (.handler 2) (.text (lit "12345678-1234-4678-9234-567812345678")),
        .go (.handler 2) 16]

/-- A transcript without a dash is mirrored and resumed, and then a message spawns a session. -/
theorem argv_safe_spawning : ∃ c, Reaches oneAgent (fun w e => minting w e ∧ undashed w e) c ∧
    c.world.procs.map (fun p : Proc => p.argv.take 4) =
      [[lit "claude", lit "-p", lit "--resume", lit "12345678-1234-5678-1234-567812345678"],
        [lit "claude", lit "-p", lit "--session-id",
          lit "12345678-1234-4678-9234-567812345678"]] ∧
    ∀ p ∈ c.world.procs, SafeArgv p.argv := by
  have hcheck : ∀ w e, (mints e && listsUndashed e) = true → minting w e ∧ undashed w e :=
    fun w e h => ⟨minting_of_check w e (Bool.and_eq_true_iff.mp h).1,
      undashed_of_check w e (Bool.and_eq_true_iff.mp h).2⟩
  obtain ⟨c, h, hgoal⟩ := reaches_of_play oneAgent
    (mirroringOnce (lit "12345678-1234-5678-1234-567812345678") ++ spawningAfter)
    (fun c => decide (c.world.procs.map (fun p : Proc => p.argv.take 4) =
      [[lit "claude", lit "-p", lit "--resume", lit "12345678-1234-5678-1234-567812345678"],
        [lit "claude", lit "-p", lit "--session-id",
          lit "12345678-1234-4678-9234-567812345678"]])) hcheck (by decide +kernel)
  exact ⟨c, h, of_decide_eq_true hgoal, argv_safe h⟩

/-- A transcript whose name begins with `-` and passes for a UUID: `!mirror` links it, and a reply
resumes it. -/
theorem argv_dashed : ∃ c p, Reaches oneAgent minting c ∧ p ∈ c.world.procs ∧
    p.argv = [lit "claude", lit "-p", lit "--resume",
      lit "-12345678-1234-5678-1234-567812345678", lit "go on"] := by
  obtain ⟨c, h, hgoal⟩ := reaches_of_play oneAgent
    (mirroringOnce (lit "-12345678-1234-5678-1234-567812345678"))
    (fun c => c.world.procs.any fun p => decide (p.argv = [lit "claude", lit "-p", lit "--resume",
      lit "-12345678-1234-5678-1234-567812345678", lit "go on"]))
    minting_of_check (by decide +kernel)
  obtain ⟨p, hp, hargv⟩ := List.any_eq_true.mp hgoal
  exact ⟨c, p, h, hp, of_decide_eq_true hargv⟩

end MatrixDispatcher
