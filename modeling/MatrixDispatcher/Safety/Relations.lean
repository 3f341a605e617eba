import MatrixDispatcher.Discipline.Sessions
import MatrixDispatcher.Dispatcher

/-!
# Messages that relate to other events

When a message that relates to another event starts a session. It does if the relation does not
name the other event by a string and the text is no command: the relation is then discarded, and
the message handled as one at the root of the room.

* `Relates`, `Names` — the message relates to an event, and names it.
* `NeverSpawns` — the handler of a message neither calls `spawn_claude` nor inserts a session on
  the spawn path.
* `never_spawns_iff` — which of the messages that relate to an event never spawn.
-/

namespace MatrixDispatcher

open Py Coro

/-! ## Relations -/

/-- The members of `m.relates_to`, if it is an object. -/
def relatesTo (event : RoomMessageText) : Option (List (Str × Json)) := do
  let source ← event.source.asObj
  let content ← (← Json.lookup (lit "content") source).asObj
  (← Json.lookup (lit "m.relates_to") content).asObj

/-- The message relates to another event: by a type of relation, or as a reply. -/
def Relates (event : RoomMessageText) : Prop :=
  ∃ relation, relatesTo event = some relation ∧
    ((Json.lookup (lit "rel_type") relation).isSome ∨
      (Json.lookup (lit "m.in_reply_to") relation).isSome)

/-- The type of the relation is that of threads. -/
abbrev IsThread (relation : List (Str × Json)) : Prop :=
  (Json.lookup (lit "rel_type") relation).bind Json.asStr = some (lit "m.thread")

/-- The member `event_id` of a relation or a reply is a string. -/
def HasEventId (members : List (Str × Json)) : Prop :=
  ∃ e, Json.lookup (lit "event_id") members = some (.str e)

/-- The relation names the event: a thread by its root, any other relation by what it replies
to. -/
def Names (event : RoomMessageText) : Prop :=
  ∃ relation, relatesTo event = some relation ∧
    if IsThread relation then HasEventId relation
    else ∃ reply, Json.lookup (lit "m.in_reply_to") relation = some (.obj reply) ∧ HasEventId reply

theorem asObj_eq_some {v : Json} {members : List (Str × Json)} :
    v.asObj = some members ↔ v = .obj members := by
  cases v <;> simp [Json.asObj]

theorem asStr_eq_some {v : Json} {s : Str} : v.asStr = some s ↔ v = .str s := by
  cases v <;> simp [Json.asStr]

/-- `event_id`, unless it is a string. -/
theorem eventId_eq_none {members : List (Str × Json)} :
    (Json.lookup (lit "event_id") members).bind Json.asStr = none ↔ ¬ HasEventId members := by
  simp only [HasEventId, Option.eq_none_iff_forall_ne_some, ne_eq, Option.bind_eq_some_iff,
    asStr_eq_some, exists_eq_right, not_exists]

/-- What `extract_thread_root` computes of a message with an object as relation. -/
theorem extractThreadRoot_of_relatesTo {event : RoomMessageText} {relation : List (Str × Json)}
    (h : relatesTo event = some relation) :
    extractThreadRoot event = .ok
      (if IsThread relation then (Json.lookup (lit "event_id") relation).bind Json.asStr
      else
        ((Json.lookup (lit "m.in_reply_to") relation).bind Json.asObj).bind fun reply =>
          (Json.lookup (lit "event_id") reply).bind Json.asStr) := by
  obtain ⟨source, hsource, h⟩ := Option.bind_eq_some_iff.mp h
  obtain ⟨value, hvalue, h⟩ := Option.bind_eq_some_iff.mp h
  obtain ⟨content, hcontent, h⟩ := Option.bind_eq_some_iff.mp h
  obtain ⟨member, hmember, hrelation⟩ := Option.bind_eq_some_iff.mp h
  simp only [extractThreadRoot, hsource, hvalue, Option.getD_some, hcontent, hmember,
    Option.bind_some, hrelation]
  split
  · rfl
  · cases (Json.lookup (lit "m.in_reply_to") relation).bind Json.asObj <;> rfl

/-- A relation leads to a thread root exactly if it names the event. -/
theorem extractThreadRoot_eq_none_iff {event : RoomMessageText} (h : Relates event) :
    extractThreadRoot event = .ok none ↔ ¬ Names event := by
  obtain ⟨relation, hrelation, -⟩ := h
  rw [extractThreadRoot_of_relatesTo hrelation, Names]
  simp only [hrelation, Option.some.injEq, exists_eq_left', Except.ok.injEq]
  split
  · exact eventId_eq_none
  · rw [Option.bind_eq_none_iff]
    simp only [Option.bind_eq_some_iff, asObj_eq_some, exists_eq_right, eventId_eq_none,
      not_exists, not_and]

/-! ## Spawns -/

/-- The effect starts a session for the message: `spawn_claude` is called, or a session is
inserted, and not by `!mirror`. -/
def spawns (args : HandlerArgs) : Eff → Prop
  | .sync (.mark (.runnerCall turn)) => turn.runner = .spawnClaude
  | .sync (.execute (.insertSession _ _ _ _ _)) =>
    args.event.body.strip.splitWord.1.lower ≠ lit "!mirror"
  | _ => False

/-- Whatever the responses are, `handle_event` does not start a session. -/
def NeverSpawns (args : HandlerArgs) : Prop := PerformsE (¬ spawns args ·) (handleEvent args)

/-- The terms of a handler that does not start a session. -/
def unspawning (args : HandlerArgs) : SessionTerms where
  looks _ := True
  inserts _ _ _ _ := args.event.body.strip.splitWord.1.lower = lit "!mirror"
  records _ _ _ := True
  calls turn _ := turn.runner = .resumeClaude
  aliases _ _ := True
  creates _ := True
  minted _ := True
  listed _ := True
  inserted _ _ _ _ := True
  found _ _ := True
  recent _ _ := True
  pending _ := True
  posted _ _ := True

theorem unspawning_relies {args : HandlerArgs} (e : Eff) (r : e.Ret) :
    (unspawning args).relies e r := by
  unfold SessionTerms.relies
  -- the facts that the terms speak of are all trivial
  split
  all_goals first | trivial | exact fun _ _ => trivial | exact fun _ _ _ => trivial

theorem not_spawns {args : HandlerArgs} {e : Eff} (h : (unspawning args).promises e) :
    ¬ spawns args e := by
  intro hspawns
  unfold spawns at hspawns
  split at hspawns
  · obtain ⟨_, hcall : _ = RunnerFn.resumeClaude⟩ := h
    rw [hspawns] at hcall
    cases hcall
  · exact hspawns h
  · exact hspawns

/-- A program that keeps these terms does not start a session. -/
theorem performs_of_unspawning {args : HandlerArgs} {p : Py Unit}
    (h : (unspawning args).Keeps p fun _ => True) : PerformsE (¬ spawns args ·) p :=
  (Contract.Keeps.performs unspawning_relies h).mono fun _ => not_spawns

/-- A message with a thread root, or without a relation that can be read, starts no session. -/
theorem neverSpawns_of_threadRoot {args : HandlerArgs}
    (h : extractThreadRoot args.event ≠ .ok none) : NeverSpawns args := by
  refine performs_of_unspawning (keeps_handleEvent ?_)
  exact {
    looks := fun _ _ => trivial
    reply := fun _ _ _ _ => ⟨rfl, trivial, fun _ _ => trivial⟩
    spawn := fun _ hnone => absurd hnone h
    mirror := fun _ hnone => absurd hnone h
    list := fun _ _ _ _ => trivial }

/-- A command starts no session. -/
theorem neverSpawns_of_command {args : HandlerArgs}
    (htrusted : args.event.sender = args.trustedSender)
    (h : (lit "!").isPrefixOf args.event.body.strip = true) : NeverSpawns args := by
  by_cases hroot : extractThreadRoot args.event = .ok none
  · refine performs_of_unspawning ?_
    rw [handleEvent_of_root htrusted hroot, if_pos h]
    exact keeps_handleCommand (fun hmirror _ _ => ⟨hmirror, fun _ _ _ => trivial⟩)
      fun _ _ _ _ => trivial
  · exact neverSpawns_of_threadRoot hroot

theorem toLower_eq_bang {c : Char} (h : c.toLower = '!') : c = '!' := by
  delta Char.toLower at h
  split at h
  · next hupper =>
    have hval : c.val + ('a'.val - 'A'.val) = '!'.val := congrArg Char.val h
    have hA : 'A'.val ≤ c.val := hupper.1
    have hZ : c.val ≤ 'Z'.val := hupper.2
    rw [← UInt32.toNat_inj, UInt32.toNat_add] at hval
    rw [UInt32.le_iff_toNat_le] at hA hZ
    have e1 : ('a'.val - 'A'.val).toNat = 32 := by decide
    have e2 : '!'.val.toNat = 33 := by decide
    have e3 : 'A'.val.toNat = 65 := by decide
    have e4 : 'Z'.val.toNat = 90 := by decide
    omega
  · exact h

theorem ofNat_ne_bang {n : Nat} (h : 0x61 ≤ n) : Char.ofNat n ≠ '!' := by
  intro hbang
  by_cases hvalid : n.isValidChar
  · have hchar : Char.ofNat n = Char.ofNatAux n hvalid := dif_pos hvalid
    have hvalue : n = 33 := congrArg Char.toNat (hchar.symm.trans hbang)
    omega
  · have hchar : Char.ofNat n = '\x00' := dif_neg hvalid
    exact absurd (hchar.symm.trans hbang) (by decide)

/-- Only `!` itself is lowered to a text that starts with it. -/
theorem bang_of_lower {c : Char} {s : Str} (h : (Str.lower (c :: s)).head? = some '!') :
    c = '!' := by
  rw [Str.lower, Str.lowerFrom] at h
  split at h
  · next hsigma => exact absurd (Option.some.inj h) (ofNat_ne_bang (by decide))
  · rw [Str.lowerChar] at h
    split at h
    · exact toLower_eq_bang (Option.some.inj h)
    · split at h
      · exact absurd (Option.some.inj h) (ofNat_ne_bang (by decide))
      · next hascii _ =>
        exact absurd (Option.some.inj h)
          (ofNat_ne_bang (Unicode.le_lowerPoint (Nat.le_of_not_lt hascii)))

/-- A message with such a command is one that starts with `!`. -/
theorem isCommand_of_mirror {s : Str} (h : s.splitWord.1.lower = lit "!mirror") :
    (lit "!").isPrefixOf s = true := by
  cases s with
  | nil => cases h
  | cons c rest =>
    by_cases hspace : Str.isSpace c = true
    · simp [Str.splitWord, hspace, Str.lower, Str.lowerFrom, lit] at h
    · rw [Str.splitWord, List.takeWhile_cons_of_pos (by simpa using hspace)] at h
      rw [bang_of_lower (congrArg List.head? h)]
      rfl

/-- Without a thread root and a command, there are responses on which a session is inserted. -/
theorem not_neverSpawns_of_root {args : HandlerArgs}
    (htrusted : args.event.sender = args.trustedSender)
    (hroot : extractThreadRoot args.event = .ok none)
    (hcommand : ¬ (lit "!").isPrefixOf args.event.body.strip = true) : ¬ NeverSpawns args := by
  intro h
  rw [NeverSpawns, handleEvent_of_root htrusted hroot, if_neg hcommand] at h
  -- the lock is free, the room has had no session yet, and the acknowledgement is posted
  have hlocked := h.2 true
  have hnow := hlocked.2 (secondsToTime 100)
  have hlast := hnow.2 none
  have hset := hlast.2 ()
  have huuid := hset.2 (lit "5e55")
  have hack := huuid.2 (.ok (lit "$ack"))
  have hpause := hack.2 (.ok ())
  have hinsert := hpause.2 (secondsToTime 100)
  exact hinsert.1 fun hmirror => hcommand (isCommand_of_mirror hmirror)

/-- A message of the trusted sender that relates to another event starts a session in some state,
unless the relation names the event or the text is a command. -/
theorem never_spawns_iff {args : HandlerArgs} (htrusted : args.event.sender = args.trustedSender)
    (hrelates : Relates args.event) :
    NeverSpawns args ↔ Names args.event ∨ (lit "!").isPrefixOf args.event.body.strip = true := by
  constructor
  · intro h
    by_contra hneither
    obtain ⟨hnames, hcommand⟩ := not_or.mp hneither
    have hroot := (extractThreadRoot_eq_none_iff hrelates).mpr hnames
    exact not_neverSpawns_of_root htrusted hroot hcommand h
  · rintro (hnames | hcommand)
    · refine neverSpawns_of_threadRoot fun hroot => ?_
      exact (extractThreadRoot_eq_none_iff hrelates).mp hroot hnames
    · exact neverSpawns_of_command htrusted hcommand

/-- The arguments for a message with such a relation. -/
def relatedMessage (relation : List (Str × Json)) : HandlerArgs :=
  handlerArgs oneAgent (lit "!room") (lit "agent") ⟨lit "!room", some (lit "/p"), none, none⟩
    (lit "/p")
    ⟨lit "$2", lit "@ted", lit "go on",
      .obj [(lit "content", .obj [(lit "m.relates_to", .obj relation)])]⟩

/-- The relation of a thread reply whose root is no string. -/
def rootlessThread : List (Str × Json) :=
  [(lit "rel_type", .str (lit "m.thread")), (lit "event_id", .number)]

/-- The relation of an edit. -/
def editOf (e : EventId) : List (Str × Json) :=
  [(lit "rel_type", .str (lit "m.replace")), (lit "event_id", .str e)]

theorem never_spawns_iff_edit :
    NeverSpawns (relatedMessage (editOf (lit "$1"))) ↔
      Names (relatedMessage (editOf (lit "$1"))).event ∨
        (lit "!").isPrefixOf (relatedMessage (editOf (lit "$1"))).event.body.strip = true :=
  never_spawns_iff rfl ⟨_, rfl, .inl rfl⟩

/-- A thread reply whose root is no string starts a session. -/
theorem rootless_spawns :
    (relatedMessage rootlessThread).event.sender = (relatedMessage rootlessThread).trustedSender ∧
      Relates (relatedMessage rootlessThread).event ∧
      ¬ NeverSpawns (relatedMessage rootlessThread) :=
  ⟨rfl, ⟨_, rfl, .inl rfl⟩, not_neverSpawns_of_root rfl rfl (by decide)⟩

end MatrixDispatcher
