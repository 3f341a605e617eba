import MatrixDispatcher.Store

/-!
# Matrix helpers

The functions of `matrixio.py`: posting, sender lookup, chunking, thread-root extraction, and the
shared posting of responses.
-/

namespace MatrixDispatcher

open Py

/-- `a or b` on strings. -/
def Str.orElse (a b : Str) : Str := if a = [] then b else a

def postMessage (roomId : RoomId) (body : Str) (replyTo : Option EventId) : Py EventId :=
  network (.roomSend roomId body (replyTo.filter (· ≠ [])))

/-- The sender of an event, or `none` if it cannot be fetched. -/
def getEventSender (roomId : RoomId) (eventId : EventId) : Py (Option UserId) :=
  tryExcept (network (.roomGetEvent roomId eventId)) fun _ => pure none

/-! ## Chunking -/

/-- `[s[i : i + n] for i in range(0, len(s), n)]`. -/
def slices (n : Nat) (s : Str) : List Str :=
  (List.range ((s.length + n - 1) / n)).map fun i => (s.drop (i * n)).take n

/-- One paragraph in the loop of `split_on_paragraphs`: the chunks so far and `current`. -/
def splitStep (maxLen : Nat) : List Str × Str → Str → List Str × Str
  | (chunks, current), para =>
    let candidate :=
      if current = [] then para else (current ++ lit "\n\n" ++ para).dropWhile (· == '\n')
    if candidate.length ≤ maxLen then (chunks, candidate)
    else
      let chunks := if current = [] then chunks else chunks ++ [current]
      if para.length > maxLen then (chunks ++ slices maxLen para, [])
      else (chunks, para)

/-- `split_on_paragraphs`. The slices of a paragraph that is too long have a step of `max_len`,
which must not be zero. -/
def splitOnParagraphs (text : Str) (maxLen : Nat) : Except Exn (List Str) :=
  if text.length ≤ maxLen then .ok [text]
  else if maxLen = 0 ∧ text.splitBlank.any (·.length > 0) then .error .valueError
  else
    let (chunks, current) := text.splitBlank.foldl (splitStep maxLen) ([], [])
    let chunks := if current = [] then chunks else chunks ++ [current]
    .ok (if chunks = [] then [text.take maxLen] else chunks)

/-! ## Relations -/

/-- `extract_thread_root`: the thread-root event id of a reply, or `none` for a room-root message
and for a malformed relation. A content without `get` raises. -/
def extractThreadRoot (event : RoomMessageText) : Except Exn (Option EventId) :=
  let content : Json :=
    match event.source.asObj with
    | some source => (Json.lookup (lit "content") source).getD (.obj [])
    | none => .obj []
  match content.asObj with
  | none => .error .attributeError
  | some content =>
    match (Json.lookup (lit "m.relates_to") content).bind Json.asObj with
    | none => .ok none
    | some relatesTo =>
      if (Json.lookup (lit "rel_type") relatesTo).bind Json.asStr = some (lit "m.thread") then
        .ok ((Json.lookup (lit "event_id") relatesTo).bind Json.asStr)
      else
        match (Json.lookup (lit "m.in_reply_to") relatesTo).bind Json.asObj with
        | none => .ok none
        | some inReplyTo => .ok ((Json.lookup (lit "event_id") inReplyTo).bind Json.asStr)

/-! ## Responses -/

/-- Post the chunks of a response from the `i`-th on, each as an alias of the thread root. -/
def postChunks (roomId : RoomId) (mentionUser : UserId) (replyTarget threadRootId : EventId) :
    Nat → List Str → Py Unit
  | _, [] => pure ()
  | i, chunk :: chunks => do
    let text := if i = 0 then mentionUser ++ lit " " ++ chunk else chunk
    let eventId ← postMessage roomId text (some replyTarget)
    Store.registerAlias eventId threadRootId
    postChunks roomId mentionUser replyTarget threadRootId (i + 1) chunks

/-- `_post_response`. -/
def postResponse (roomId : RoomId) (output : Str) (exitCode : Int) (sessionId : SessionId)
    (mentionUser : UserId) (maxMessageLength : Nat) (replyTarget : EventId) (action : Str)
    (threadRootId : EventId) : Py Unit := do
  if exitCode ≠ 0 then
    let eventId ← postMessage roomId
      (mentionUser ++ lit " Session " ++ sessionId.short ++ lit " " ++ action ++ lit " error:\n\n"
        ++ output) (some replyTarget)
    Store.registerAlias eventId threadRootId
  else
    let chunks ← fromExcept (splitOnParagraphs (output.orElse (lit "(no output)")) maxMessageLength)
    postChunks roomId mentionUser replyTarget threadRootId 0 chunks

end MatrixDispatcher
