import MatrixDispatcher.Safety.Belonging
import MatrixDispatcher.Safety.Nudge
import MatrixDispatcher.Safety.Provenance

/-!
# Resumes on account of an approval

The operator approves a tool call in the registry, which the dispatcher only reads. Between the
answer of the registry and the call of the runner a pass may wait for any number of room locks and
turns, and the row may come from a process that is long dead.

* `ApprovedBefore` — the registry has told the running pass that the approval was approved.
* `Authorised` — the resume has the approval of the operator, and is that of a session whose turn
  had asked for it.
* `nudge_authorised` — in every run, only authorised sessions are resumed on account of an approval.
-/

namespace MatrixDispatcher

open Py Coro Machine

variable {config : MatrixDispatcher.Config} {w w' : World} {t : Tid}
  {c : Machine.Config Tid Eff Eff.Ret World}

/-! ## What a pass was told -/

/-- The observation is neither the end of a pass nor the start of a process. -/
def Obs.inPass : Obs → Bool
  | .marked _ .passOver | .restarted => false
  | _ => true

/-- Between the first trace and the second one no pass came to its end. -/
def SamePass (trace trace' : List Obs) : Prop :=
  ∃ later, trace' = later ++ trace ∧ ∀ o ∈ later, o.inPass = true

/-- On the way to `c`, and while the pass ran whose trace is `trace`, the reconcile loop asked for
the states of approvals while this one was approved. -/
def ToldBefore (config : MatrixDispatcher.Config) (c : Machine.Config Tid Eff Eff.Ret World)
    (trace : List Obs) (a : ApprovalId) : Prop :=
  ∃ c₁ ids, Reaches config (fun _ _ => True) c₁ ∧
    (dispatcher config).Reachable (fun _ _ => True) c₁ c ∧
    SamePass c₁.world.trace trace ∧
    c₁.About .reconcile (.await (.fetchStates ids)) ∧ a ∈ ids ∧
    c₁.world.stateOf a = some .approved

/-- In the pass that runs in `c`, the reconcile loop asked for the states of approvals while this
one was approved. -/
def ApprovedBefore (config : MatrixDispatcher.Config)
    (c : Machine.Config Tid Eff Eff.Ret World) (a : ApprovalId) : Prop :=
  ToldBefore config c c.world.trace a

/-- The registry is asked for the approvals that it answers about. -/
theorem mem_of_stateIn {ids : List ApprovalId} {a : ApprovalId} {state : ApprovalState}
    (h : stateIn (statesOf w.approvals.rows ids) a = some state) : a ∈ ids := by
  obtain ⟨s, hfind, -⟩ := Option.map_eq_some_iff.mp h
  have hkey : s.1 = a := by simpa using List.find?_some hfind
  obtain ⟨row, hrow, rfl⟩ := List.mem_map.mp (List.mem_reverse.mp (List.mem_of_find?_eq_some hfind))
  have hmem : row.approvalId ∈ ids := by simpa using (List.mem_filter.mp hrow).2
  exact hkey ▸ hmem

/-- The effect that serves the states. -/
theorem eq_of_serve {e : Eff} {r : e.Ret} {states : List (ApprovalId × ApprovalState)}
    (h : PassAct.of e r = .serve states) : ∃ ids, e = .await (.fetchStates ids) := by
  cases e with
  | sync e =>
    cases e with
    | execute s => cases s <;> cases r <;> cases h
    | commit => cases r <;> cases h
    | mark m => cases m <;> cases h
    | _ => cases h
  | await e =>
    cases e with
    | fetchStates ids => exact ⟨ids, rfl⟩
    | _ => cases h

/-- The answer of the registry is about approvals that it was asked for, and is true. -/
theorem asked_of_serve {a : Answer} {e : Eff} {r : e.Ret}
    {states : List (ApprovalId × ApprovalState)} (hexec : exec t a e w = some (r, w'))
    (hserve : PassAct.of e r = .serve states) {b : ApprovalId} (hb : b ∈ approvedIn states) :
    ∃ ids, e = .await (.fetchStates ids) ∧ b ∈ ids ∧ w.stateOf b = some .approved := by
  obtain ⟨ids, rfl⟩ := eq_of_serve hserve
  have hasked : ∃ ids', states = statesOf w.approvals.rows ids' ∧ ids' = ids := by
    obtain ⟨⟨r', w''⟩, hquiet, heq⟩ := Option.map_eq_some_iff.mp hexec
    cases heq
    rcases execAwait_eq hquiet with ⟨-, rfl, -⟩ | ⟨-, hop⟩
    · cases hserve
    rw [execOperation.eq_def] at hop
    dsimp only at hop
    split at hop
    · cases hop
      cases hserve
      exact ⟨ids, rfl, rfl⟩
    · obtain ⟨-, x, rfl, -⟩ := failure_eq hop
      cases hserve
  obtain ⟨_, rfl, rfl⟩ := hasked
  have hstate := mem_approvedIn.mp hb
  exact ⟨_, rfl, mem_of_stateIn hstate, stateOf_of_stateIn hstate⟩

/-- What a pass is going to resume, it was going to resume before, or is told right now. -/
theorem PassStage.due_from {act : PassAct} {g g' : PassStage} {a : ApprovalId} (hfits : g.Fits w)
    (hstep : PassStep g act g') (hdue : g'.Due a) :
    (g.Due a ∧ ∀ old, a ∈ old → a ∈ act.outstandingAfter old) ∨
      ∃ states, act = .serve states ∧ a ∈ approvedIn states := by
  cases hstep with
  | muddled => exact hfits.elim
  | other | commit | record => exact .inl ⟨hdue, fun _ => id⟩
  | claim => exact .inl ⟨hdue, fun _ => id⟩
  | keep => exact .inl ⟨.inr hdue, fun _ => id⟩
  | serve rows states => exact .inr ⟨states, rfl, hdue.1⟩
  | delete rows b approved happroved hrow =>
    refine .inl ⟨?_, fun _ => id⟩
    rcases hdue with rfl | ⟨hmem, hrow'⟩
    · exact ⟨happroved, hrow⟩
    · exact ⟨hmem, (mem_approvalsOf_without.mp hrow').1⟩
  | drop =>
    exact .inl ⟨⟨hdue.1, (mem_approvalsOf_without.mp hdue.2).1⟩, fun _ => id⟩
  | call rows b approved turn hturn =>
    -- the row of the approval that is resumed is gone, so the one that is still due is another
    have hne : b ≠ a := by
      rintro rfl
      exact hfits.2 hdue.2
    refine .inl ⟨.inr hdue, fun old hold => List.mem_filter.mpr ⟨hold, ?_⟩⟩
    simpa [hturn] using hne
  | _ => exact hdue.elim

/-- An act that does not end a pass leaves it the same pass. -/
theorem samePass_of_exec {trace : List Obs} {a : Answer} {e : Eff} {r : e.Ret}
    (hexec : exec t a e w = some (r, w')) (hact : PassAct.of e r ≠ .ended)
    (h : SamePass trace w.trace) : SamePass trace w'.trace := by
  obtain ⟨later, heq, hlater⟩ := h
  refine ⟨(obsOf t e r).toList ++ later, by rw [exec_trace hexec, heq, List.append_assoc], ?_⟩
  intro o ho
  rcases List.mem_append.mp ho with hnew | hold
  · have hseen := passObserver.shown t e r o (Option.mem_toList.mp hnew)
    rw [Obs.inPass.eq_def]
    split
    · exact absurd hseen.symm hact
    · exact absurd hseen.symm hact
    · rfl
  · exact hlater o hold

/-- What a pass was told, it was told while it runs. -/
theorem ToldBefore.exec {b : ApprovalId} {a : Answer} {e : Eff} {r : e.Ret}
    (hexec : exec t a e w = some (r, w')) (hact : PassAct.of e r ≠ .ended)
    (h : ToldBefore config c w.trace b) : ToldBefore config c w'.trace b := by
  obtain ⟨c₁, ids, hreach, hrest, hsame, habout⟩ := h
  exact ⟨c₁, ids, hreach, hrest, samePass_of_exec hexec hact hsame, habout⟩

/-- What the pass is going to resume was approved, and is not resumed yet. -/
def ToldInv (config : MatrixDispatcher.Config) (c : Machine.Config Tid Eff Eff.Ret World)
    (g : PassStage) (w : World) : Prop :=
  ∀ a, g.Due a → a ∈ outstanding w.trace ∧ ToldBefore config c w.trace a

/-- In every run, the reconcile loop keeps to what it was told. -/
def toldFocus (config : MatrixDispatcher.Config) (c : Machine.Config Tid Eff Eff.Ret World) :
    (passInvariant config (onTheWay config c)).Focus .reconcile where
  inv := ToldInv config c
  own := by
    intro G w w' e a r g' hpass hinv hallow hexec hnext b hdue
    rw [exec_outstanding hexec]
    rcases PassStage.due_from (hpass.fits _) (PassStage.step_cases hnext) hdue with
      ⟨hold, hkept⟩ | ⟨states, hserve, hb⟩
    · obtain ⟨hmem, htold⟩ := hinv b hold
      have hact : PassAct.of e r ≠ .ended := fun hended => by
        have hkept := hkept _ hmem
        rw [hended] at hkept
        cases hkept
      exact ⟨hkept _ hmem, htold.exec hexec hact⟩
    · obtain ⟨ids, rfl, hids, hstate⟩ := asked_of_serve hexec hserve hb
      obtain ⟨-, c₁, l, c₂, rfl, hevent, hreach, hstep, hrest⟩ := hallow
      obtain ⟨rfl, habout⟩ := Machine.about_of_event hevent hstep
      refine ⟨hserve ▸ hb, c₁, ids, hreach, ?_, ?_, habout, hids, hstate⟩
      · exact Reachable.trans (.step _ .refl trivial hstep) hrest
      · exact samePass_of_exec hexec (by rw [hserve]; nofun) ⟨[], rfl, nofun⟩
  other := by
    intro G w w' t e a r g' ht hpass _ hinv _ hexec hnext b hdue
    rw [exec_outstanding hexec]
    obtain ⟨hmem, htold⟩ := hinv b hdue
    have hstep := PassStage.step_cases hnext
    have hg : (G t).reconciles = false := Bool.eq_false_iff.mpr fun h => ht (hpass.alone t h)
    suffices hother : PassAct.of e r ≠ .ended ∧
        b ∈ (PassAct.of e r).outstandingAfter (outstanding w.trace) from
      ⟨hother.2, htold.exec hexec hother.1⟩
    generalize PassAct.of e r = act at hstep
    generalize G t = g at hstep hg
    cases hstep with
    | other | commit | record | close => exact ⟨nofun, hmem⟩
    | callApart turn hturn => exact ⟨nofun, List.mem_filter.mpr ⟨hmem, by simp [hturn]⟩⟩
    | ended _ hover => simp [hg] at hover
    | _ => cases hg
  finish _ _ _ hdue := hdue.elim
  env := by
    intro g w w' a hinv _ henv
    obtain ⟨m, -, hmoved⟩ := env_eq henv
    have htrace : w'.trace = w.trace := (moved_same hmoved).1
    intro b hdue
    rw [htrace]
    exact hinv b hdue
  enter := by
    intro w w' fiber a hgood _ hstart b hdue
    obtain ⟨n, request, henter, hruns, rfl⟩ := (passCoverage config).start_good hgood hstart
    rw [henter] at hdue
    cases request <;> exact hdue.elim
  start := by
    intro g w w' t fiber a _ hinv hstart
    obtain ⟨n, request, -, -, -, rfl⟩ := start_eq hstart
    exact hinv
  crash _ _ _ hdue := hdue.elim

/-- A task that is about to call the runner on account of an approval is the reconcile loop, in a
pass that was told that the approval is approved. -/
theorem told_about (h : Reaches config (fun _ _ => True) c) {turn : Turn} {a : ApprovalId}
    (habout : c.About t (.sync (.mark (.runnerCall turn)))) (hturn : turn.account = some a) :
    t = .reconcile ∧ a ∈ outstanding c.world.trace ∧ ApprovedBefore config c a := by
  obtain ⟨G, -, ⟨hpass, hinv⟩, -, hnext⟩ :=
    ((passInvariant config (onTheWay config c)).extend (toldFocus config c).extension).about h.past
      (passCoverage config).good_initial ⟨.initial, fun _ => False.elim⟩ habout
  obtain ⟨g', hnext⟩ := hnext ()
  have hstep : PassStep (G t) (.call turn) g' := PassStage.step_cases hnext
  have hfits := hpass.fits t
  have halone := hpass.alone t
  generalize hg : G t = g at hstep hfits halone
  cases hstep with
  | muddled => exact hfits.elim
  | callApart _ hnone => simp [hnone] at hturn
  | call rows b approved _ hb =>
    obtain rfl : b = a := Option.some.inj (hb.symm.trans hturn)
    obtain rfl := halone rfl
    exact ⟨rfl, hinv b (hg ▸ .inl rfl)⟩

/-! ## What a pass found -/

/-- The turn resumes the session of a recorded row, and says which tool call it is about. -/
structure Asked (config : MatrixDispatcher.Config) (w : World) (turn : Turn) (row : PendingRow) :
    Prop where
  recorded : Obs.recorded row ∈ w.trace
  called : RowOfTurn w row
  agent : ∃ agent cfg, config.roomToAgent row.roomId = some (agent, cfg) ∧
    turn = approvedOf row agent

/-- A task calls the runner on account of an approval for the row that it was recorded in. -/
theorem asked_about (h : Reaches config (fun _ _ => True) c) {turn : Turn} {a : ApprovalId}
    (habout : c.About t (.sync (.mark (.runnerCall turn)))) (hturn : turn.account = some a) :
    ∃ row, row.approvalId = a ∧ Asked config c.world turn row := by
  obtain ⟨request, hruns, -, hpromises⟩ :=
    Ledger.about (historyLedger_governs openLedger_governs c) h.past habout
  obtain ⟨cwd, hcalls⟩ := hpromises
  have hinit : CallInv (fun _ => .absent) World.initial :=
    ⟨fun _ _ hturn => (by cases hturn), fun _ hrow => (List.not_mem_nil hrow).elim⟩
  obtain ⟨G, -, hcall⟩ := (callInvariant config (fun _ _ => True)).reachable h
    (turnCoverage config).good_initial hinit
  cases request with
  | main | cleanup => exact hcalls.elim
  | handle args =>
    -- the turn of a message has no account
    obtain ⟨hcalls, -⟩ := hcalls
    cases hcalls with
    | reply | spawn => cases hturn
  | reconcile =>
    cases hcalls with
    | mk row agent cfg dir hwaits hknown hagent hdir =>
      obtain rfl := Option.some.inj hturn
      exact ⟨row, rfl, hknown.2, hcall.recorded row (mem_recordedRows.mpr hknown.2), agent, cfg,
        hagent, rfl⟩

/-! ## Authorised resumes -/

/-- The resume is one of the reconcile loop, in a pass that was told that the approval is approved
and has not acted on it, for a session whose turn had asked for it. -/
structure Authorised (config : MatrixDispatcher.Config)
    (c : Machine.Config Tid Eff Eff.Ret World) (t : Tid) (turn : Turn) (a : ApprovalId) : Prop where
  task : t = .reconcile
  approved : ApprovedBefore config c a
  outstanding : a ∈ outstanding c.world.trace
  asked : ∃ row, row.approvalId = a ∧ Asked config c.world turn row

/-- In every run, no session is resumed on account of an approval unless the registry has told the
running pass that the operator approved it, and a turn of this session had asked for it. -/
theorem nudge_authorised (h : Reaches config (fun _ _ => True) c) {turn : Turn} {a : ApprovalId}
    (habout : c.About t (.sync (.mark (.runnerCall turn)))) (hturn : turn.account = some a) :
    Authorised config c t turn a := by
  obtain ⟨htask, houtstanding, hbefore⟩ := told_about h habout hturn
  exact ⟨htask, hbefore, houtstanding, asked_about h habout hturn⟩

/-- The row was recorded by a process that died; the next one resumes the session. -/
theorem nudge_authorised_restarted : ∃ c t turn, Reaches oneAgent (fun _ _ => True) c ∧
    c.About t (.sync (.mark (.runnerCall turn))) ∧ turn.account = some (lit "a1") ∧
    Authorised oneAgent c t turn (lit "a1") := by
  obtain ⟨c, h, hgoal⟩ := reaches_of_play oneAgent
    (approving ++ [.step (.crash .done), .step (.start (.pick 0)), .go .main 7] ++ reconciling 14)
    (fun c => meets c .reconcile (isNudge (lit "a1")))
    (fun _ _ (_ : true = true) => trivial) (by decide +kernel)
  obtain ⟨e, habout, hnudge⟩ := about_of_meets hgoal
  obtain ⟨turn, rfl, hturn⟩ := eq_of_isNudge hnudge
  exact ⟨c, _, turn, h, habout, hturn, nudge_authorised h habout hturn⟩

end MatrixDispatcher
