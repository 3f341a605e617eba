import MatrixDispatcher.Safety.Argv
import MatrixDispatcher.Safety.Relations

/-!
# Texts in command lines

The last argument of a child is the text of its turn. The prompt of a new session and the nudge
after an approval put words of their own in front of what the user wrote; a thread reply is passed
on as it is.

* `SafeText` — an effect that starts no child whose text looks like an option.
* `text_safe_iff` — when the handler of a message and the resume after an approval are safe.
-/

namespace MatrixDispatcher

open Py Coro

/-- A child that the effect starts has a text that does not look like an option. -/
def SafeText : Eff → Prop
  | .await (.exec argv _ _ _) => ∀ text ∈ argv.getLast?, dashed text = false
  | _ => True

/-- A program that keeps these terms starts children with safe texts only. -/
def undashedText : SessionTerms where
  looks _ := True
  inserts _ _ _ _ := True
  records _ _ _ := True
  calls turn _ := dashed turn.text = false
  aliases _ _ := True
  creates _ := True
  minted _ := True
  listed _ := True
  inserted _ _ _ _ := True
  found _ _ := True
  recent _ _ := True
  pending _ := True
  posted _ _ := True

theorem undashedText_relies (e : Eff) (r : e.Ret) : undashedText.relies e r := by
  unfold SessionTerms.relies
  split
  all_goals first | trivial | exact fun _ _ => trivial | exact fun _ _ _ => trivial

/-- The text of a turn is the last argument of its child. -/
theorem Turn.getLast_argv (turn : Turn) : turn.argv.getLast? = some turn.text := by
  unfold Turn.argv
  split <;> rfl

theorem safeText_of_promises {e : Eff} (h : undashedText.promises e) : SafeText e := by
  unfold SafeText
  split
  · obtain ⟨hcall : dashed _ = false, rfl, -⟩ := h
    rintro text htext
    rw [Turn.getLast_argv, Option.mem_some_iff] at htext
    rwa [← htext]
  · trivial

theorem performs_of_undashedText {p : Py Unit} (h : undashedText.Keeps p fun _ => True) :
    PerformsE SafeText p :=
  (Contract.Keeps.performs undashedText_relies h).mono fun _ => safeText_of_promises

/-! ## Safe turns -/

/-- The prompt of a new session begins with a bracket. -/
theorem not_dashed_spawnPrompt (agentName : AgentName) (userMessage : Str) :
    dashed (spawnPrompt agentName userMessage) = false := rfl

/-- The nudge after an approval begins with a word. -/
theorem not_dashed_nudge (toolName : Str) (approvalId : ApprovalId) :
    dashed (nudge toolName approvalId) = false := rfl

/-- The resume after an approval passes on the nudge. -/
theorem text_resumeOnApproval (config : Config) (row : PendingRow) :
    PerformsE SafeText (resumeOnApproval config row) :=
  performs_of_undashedText (keeps_resumeOnApproval {
    calls := fun _ _ _ _ _ => not_dashed_nudge _ _
    records := trivial
    threads := fun _ _ => trivial })

/-- The handler of a message with such a text passes on the text of a reply, or a prompt. -/
theorem text_handleEvent {args : HandlerArgs}
    (h : (∃ root, extractThreadRoot args.event = .ok (some root)) →
      dashed args.event.body.strip = false) :
    PerformsE SafeText (handleEvent args) :=
  performs_of_undashedText (keeps_handleEvent {
    looks := fun _ _ => trivial
    reply := fun root _ hroot _ => ⟨h ⟨root, hroot⟩, trivial, fun _ _ => trivial⟩
    spawn := fun _ _ _ => ⟨trivial, fun _ =>
      ⟨not_dashed_spawnPrompt _ _, trivial, fun _ _ => trivial⟩⟩
    mirror := fun _ _ _ => ⟨trivial, fun _ _ _ => trivial⟩
    list := fun _ _ _ _ => trivial })

/-- The handler of an untrusted message does nothing. -/
theorem text_handleEvent_of_untrusted {args : HandlerArgs}
    (h : args.event.sender ≠ args.trustedSender) : PerformsE SafeText (handleEvent args) := by
  rw [handleEvent, if_pos h]
  exact performsE_pure _

/-! ## Replies -/

/-- There are responses on which the text of a reply to a session is passed on. -/
theorem not_dashed_of_reply {args : HandlerArgs} (htrusted : args.event.sender = args.trustedSender)
    {root : EventId} (hroot : extractThreadRoot args.event = .ok (some root))
    (h : PerformsE SafeText (handleEvent args)) : dashed args.event.body.strip = false := by
  rw [handleEvent_of_thread htrusted hroot] at h
  -- the root has a session, the server answers the post without an id, there is no registry,
  -- and the lock is free
  have hack := h.2 (.ok (some ⟨root, args.roomId, args.agentName, lit "5e55", 0, 0⟩))
  have hpause := hack.2 (.ok [])
  have hregistry := hpause.2 (.ok ())
  have hlock := hregistry.2 false
  have hnow := hlock.2 true
  have hmark := hnow.2 (secondsToTime 100)
  have hexec := hmark.2 ()
  exact hexec.1 _ rfl

/-- The texts that handlers and approvals pass on do not look like options, if and only if the
text of a trusted reply does not. -/
theorem text_safe_iff (args : HandlerArgs) (config : Config) (row : PendingRow) :
    (PerformsE SafeText (handleEvent args) ∧ PerformsE SafeText (resumeOnApproval config row)) ↔
      (args.event.sender = args.trustedSender →
        (∃ root, extractThreadRoot args.event = .ok (some root)) →
          dashed args.event.body.strip = false) := by
  constructor
  · rintro ⟨h, -⟩ htrusted ⟨root, hroot⟩
    exact not_dashed_of_reply htrusted hroot h
  · intro h
    refine ⟨?_, text_resumeOnApproval config row⟩
    by_cases htrusted : args.event.sender = args.trustedSender
    · exact text_handleEvent (h htrusted)
    · exact text_handleEvent_of_untrusted htrusted

/-- A trusted reply that is the item of a list. -/
def listItem : HandlerArgs :=
  handlerArgs oneAgent (lit "!room") (lit "agent") ⟨lit "!room", some (lit "/p"), none, none⟩
    (lit "/p") ⟨lit "$2", lit "@ted", lit "- and the tests", replyTo (lit "$1")⟩

/-- The text of a trusted reply may look like an option. -/
theorem text_dashed : listItem.event.sender = listItem.trustedSender ∧
    ¬ PerformsE SafeText (handleEvent listItem) := by
  refine ⟨rfl, fun h => ?_⟩
  have hsafe : dashed listItem.event.body.strip = false := not_dashed_of_reply rfl rfl h
  exact absurd hsafe (by decide)

end MatrixDispatcher
