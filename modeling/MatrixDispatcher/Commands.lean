import MatrixDispatcher.Hitl
import MatrixDispatcher.Transcripts

/-!
# Bang-prefix commands

`!help`, `!sessions`, `!recap` and `!mirror`.
-/

namespace MatrixDispatcher

open Py

def HELP_TEXT : Str :=
  lit "Dispatcher commands (! prefix — Element intercepts /-commands client-side):\n" ++
  lit "  !sessions       — list recent sessions (reply to one to resume)\n" ++
  lit "  !recap [N]      — show last N turns of most recent session (default: 5)\n" ++
  lit "  !mirror         — link most recent CloudCLI session to this room for resume\n" ++
  lit "  !cancel         — SIGTERM the active session in this room\n" ++
  lit "  !help           — this message"

def handleHelpCommand (roomId : RoomId) (event : RoomMessageText) (mentionUser : UserId) :
    Py Unit := do
  let _ ← postMessage roomId (mentionUser ++ lit "\n\n" ++ HELP_TEXT) (some event.eventId)

/-- The list of `!sessions` from the `i`-th entry on. -/
def postSessions (roomId : RoomId) (projectDir : Str) (header : EventId) :
    Nat → List SessionRow → Py Unit
  | _, [] => pure ()
  | i, row :: rows => do
    let summary ← readFirstUserMessage row.sessionId projectDir
    let item ← postMessage roomId
      (natText i ++ lit ". (" ++ row.sessionId.short ++ lit ") " ++ summary) (some header)
    -- a reply to this list item resolves to the session
    Store.registerAlias item row.threadRootId
    postSessions roomId projectDir header (i + 1) rows

def handleSessionsCommand (roomId : RoomId) (event : RoomMessageText) (mentionUser : UserId)
    (agentName : AgentName) (projectDir : Str) : Py Unit := do
  let rows ← execute (.recentSessions roomId 10)
  if rows = [] then
    let _ ← postMessage roomId (mentionUser ++ lit " No sessions yet in this room.")
      (some event.eventId)
  else
    let header ← postMessage roomId
      (mentionUser ++ lit " Recent sessions in #" ++ agentName ++
        lit " (reply to one to resume):") (some event.eventId)
    postSessions roomId projectDir header 1 rows

/-- The value of a string of decimal digits with single underscores between them. -/
def decimalValue (acc : Nat) (prev : Bool) : Str → Option Nat
  | [] => if prev then some acc else none
  | '_' :: rest => if prev then decimalValue acc false rest else none
  | c :: rest => if c.isDigit then decimalValue (acc * 10 + (c.toNat - 48)) true rest else none

/-- The number of digits up to which `int` converts a string. -/
def INT_MAX_STR_DIGITS : Nat := 4300

/-- The value of what follows the sign, unless it has too many digits. -/
def unsignedValue (s : Str) : Option Nat :=
  if INT_MAX_STR_DIGITS < (s.filter (· != '_')).length then none else decimalValue 0 false s

/-- `int(s)`, if it does not raise. -/
def intOfStr (s : Str) : Option Int :=
  match (((s.dropWhile isIntSpace).reverse.dropWhile isIntSpace).reverse).map asciiDigit with
  | '+' :: rest => (unsignedValue rest).map Int.ofNat
  | '-' :: rest => (unsignedValue rest).map fun n => -(n : Int)
  | rest => (unsignedValue rest).map Int.ofNat

/-- `_parse_recap_n`. -/
def parseRecapN (arg : Str) : Nat :=
  match intOfStr arg.strip with
  | none => 5
  | some n => (max 1 (min n 20)).toNat

/-- Post the chunks of a recap. -/
def postRecap (roomId : RoomId) (event : RoomMessageText) : List Str → Py Unit
  | [] => pure ()
  | chunk :: chunks => do
    let _ ← postMessage roomId chunk (some event.eventId)
    postRecap roomId event chunks

def handleRecapCommand (roomId : RoomId) (event : RoomMessageText) (mentionUser : UserId)
    (projectDir : Str) (maxMessageLength : Nat) (arg : Str) : Py Unit := do
  let n := parseRecapN arg
  match (← execute (.recentSessions roomId 1)).head? with
  | none =>
    let _ ← postMessage roomId (mentionUser ++ lit " No prior sessions to recap.")
      (some event.eventId)
  | some row =>
    let body ← readLastNTurns row.sessionId projectDir n
    if body = [] then
      let _ ← postMessage roomId
        (mentionUser ++ lit " Session " ++ row.sessionId.short ++ lit " has no readable turns.")
        (some event.eventId)
    else
      let header := mentionUser ++ lit " Recap of session " ++ row.sessionId.short ++
        lit " (last " ++ natText n ++ lit " turns):\n\n"
      let chunks ← fromExcept (splitOnParagraphs (header ++ body) maxMessageLength)
      postRecap roomId event chunks

def handleMirrorCommand (roomId : RoomId) (event : RoomMessageText) (mentionUser : UserId)
    (agentName : AgentName) (projectDir scopedMcpUrl : Str) : Py Unit := do
  match ← findUnmirroredSessionId projectDir roomId with
  | none =>
    let _ ← postMessage roomId
      (mentionUser ++ lit " No unmirrored CloudCLI sessions found for #" ++ agentName ++ lit ".")
      (some event.eventId)
  | some sessionId =>
    Store.insertSession event.eventId roomId agentName sessionId
    registerSession sessionId agentName roomId projectDir scopedMcpUrl
    let response ← postMessage roomId
      (mentionUser ++ lit " Linked session " ++ sessionId.short ++
        lit " to this thread. Reply here to resume.") (some event.eventId)
    Store.registerAlias response event.eventId

end MatrixDispatcher
