import MatrixDispatcher.Store

/-!
# Transcripts

The readers of `claude -p` transcripts behind `!sessions`, `!recap` and `!mirror`. A transcript is
read line by line; a line on which `json.loads` raises `JSONDecodeError` is skipped. One on which it
raises something else raises, and so does one that is JSON but not an object, or whose `message` is
not one.

* `firstUserMessage`, `lastTurns` — the two readers on the lines of a file.
* `uuidAccepts` — the strings that `uuid.UUID` accepts.
* `findUnmirrored` — the newest transcript that a room does not know.
-/

namespace MatrixDispatcher

open Py

/-! ## Reading lines -/

/-- `sep.join(parts)`. -/
def joinWith (sep : Str) (parts : List Str) : Str := (parts.intersperse sep).flatten

/-- `_extract_text`. -/
def extractText : Json → Str
  | .str s => s
  | .arr blocks =>
    joinWith (lit "\n") <| blocks.filterMap fun block => do
      let members ← block.asObj
      let kind ← Json.lookup (lit "type") members
      if kind.asStr = some (lit "text") then
        ((Json.lookup (lit "text") members).getD (.str [])).asStr
      else none
  | _ => []

/-- `obj.get("type")` of a line, if it is a string. -/
def lineRole (obj : List (Str × Json)) : Option Str :=
  (Json.lookup (lit "type") obj).bind Json.asStr

/-- `_extract_text(obj.get("message", {}).get("content", "")).strip()`. -/
def lineText (obj : List (Str × Json)) : Except Exn Str :=
  match ((Json.lookup (lit "message") obj).getD (.obj [])).asObj with
  | none => .error .attributeError
  | some msg => .ok (extractText ((Json.lookup (lit "content") msg).getD (.str []))).strip

/-- The opening of the prompt that `handle_event` builds. -/
def promptOpening : Str := lit "[Invoked via Matrix"

/-- Without the dispatcher's injected prefix. -/
def withoutPrefix (text : Str) : Str :=
  if promptOpening.isPrefixOf text then text.afterBlank else text

/-- `s[:n] + ("…" if len(s) > n else "")`. -/
def ellipsis (s : Str) (n : Nat) : Str := s.take n ++ if s.length > n then lit "…" else []

/-- The loop of `read_first_user_message`: the summary that the lines give, if one does. -/
def firstUserMessage (maxLen : Nat) : List Loaded → Except Exn (Option Str)
  | [] => .ok none
  | .jsonDecodeError :: rest => firstUserMessage maxLen rest
  | .valueError :: _ => .error .valueError
  | .recursionError :: _ => .error .recursionError
  | .value v :: rest =>
    match v.asObj with
    | none => .error .attributeError
    | some obj =>
      if lineRole obj = some (lit "user") then do
        let text ← lineText obj
        let firstLine := (withoutPrefix text).firstLine.strip
        if firstLine = [] then firstUserMessage maxLen rest
        else .ok (some (ellipsis firstLine maxLen))
      else firstUserMessage maxLen rest

/-- The loop of `read_last_n_turns`: the turns with text, in the order of the file. -/
def turnsOf : List Loaded → Except Exn (List (Str × Str))
  | [] => .ok []
  | .jsonDecodeError :: rest => turnsOf rest
  | .valueError :: _ => .error .valueError
  | .recursionError :: _ => .error .recursionError
  | .value v :: rest =>
    match v.asObj with
    | none => .error .attributeError
    | some obj =>
      match lineRole obj with
      | some role =>
        if role = lit "user" ∨ role = lit "assistant" then do
          let text ← lineText obj
          let turns ← turnsOf rest
          if text = [] then .ok turns
          else .ok ((role, if role = lit "user" then withoutPrefix text else text) :: turns)
        else turnsOf rest
      | none => turnsOf rest

/-- `xs[-k:]`, which is all of `xs` for `k = 0`. -/
def sliceLast {α : Type} (k : Nat) (xs : List α) : List α :=
  if k = 0 then xs else xs.drop (xs.length - k)

/-- The last `2 n` turns as `read_last_n_turns` formats them. -/
def lastTurns (turns : List (Str × Str)) (n : Nat) : Str :=
  joinWith (lit "\n\n") <| (sliceLast (2 * n) turns).map fun (role, text) =>
    lit "**" ++ role ++ lit ":**\n" ++ text

/-- Return a one-line summary from the first user turn in the transcript. -/
def readFirstUserMessage (sessionId : SessionId) (projectDir : Str) : Py Str := do
  match ← sync (.readTranscript sessionId projectDir) with
  | .missing => pure (lit "(transcript missing)")
  | .file lines failure =>
    match ← fromExcept (firstUserMessage 80 lines) with
    | some summary => pure summary
    | none =>
      match failure with
      | none => pure (lit "(no user message)")
      | some .osError => pure (lit "(transcript error)")
      | some x => throw x

/-- Return the last `n` user and assistant turns formatted as a recap. -/
def readLastNTurns (sessionId : SessionId) (projectDir : Str) (n : Nat) : Py Str := do
  match ← sync (.readTranscript sessionId projectDir) with
  | .missing => pure []
  | .file lines failure =>
    let turns ← fromExcept (turnsOf lines)
    match failure with
    | none => pure (lastTurns turns n)
    | some .osError => pure []
    | some x => throw x

/-! ## Session ids of files -/

/-- `s.replace(pat, "")`, where the next `skip` characters belong to an occurrence. -/
def removeFrom (pat : Str) : Nat → Str → Str
  | _, [] => []
  | skip + 1, _ :: rest => removeFrom pat skip rest
  | 0, c :: rest =>
    if pat.isPrefixOf (c :: rest) then removeFrom pat (pat.length - 1) rest
    else c :: removeFrom pat 0 rest

/-- `s.replace(pat, "")`. -/
def removeAll (pat s : Str) : Str := removeFrom pat 0 s

/-- The code points of the decimal digits zero. -/
def zeroDigits : List Nat :=
  [0x30, 0x660, 0x6f0, 0x7c0, 0x966, 0x9e6, 0xa66, 0xae6, 0xb66, 0xbe6, 0xc66, 0xce6, 0xd66,
    0xde6, 0xe50, 0xed0, 0xf20, 0x1040, 0x1090, 0x17e0, 0x1810, 0x1946, 0x19d0, 0x1a80, 0x1a90,
    0x1b50, 0x1bb0, 0x1c40, 0x1c50, 0xa620, 0xa8d0, 0xa900, 0xa9d0, 0xa9f0, 0xaa50, 0xabf0,
    0xff10, 0x104a0, 0x10d30, 0x11066, 0x110f0, 0x11136, 0x111d0, 0x112f0, 0x11450, 0x114d0,
    0x11650, 0x116c0, 0x11730, 0x118e0, 0x11950, 0x11c50, 0x11d50, 0x11da0, 0x16a60, 0x16ac0,
    0x16b50, 0x1d7ce, 0x1d7d8, 0x1d7e2, 0x1d7ec, 0x1d7f6, 0x1e140, 0x1e2f0, 0x1e950, 0x1fbf0]

/-- The ASCII digit that `int` reads a decimal digit as; other characters as they are. -/
def asciiDigit (c : Char) : Char :=
  match zeroDigits.find? fun z => z ≤ c.toNat && c.toNat < z + 10 with
  | some z => Char.ofNat (0x30 + (c.toNat - z))
  | none => c

/-- A hexadecimal digit. -/
def isHexDigit (c : Char) : Bool :=
  ('0' ≤ c && c ≤ '9') || ('a' ≤ c && c ≤ 'f') || ('A' ≤ c && c ≤ 'F')

/-- Digits with single underscores between them; `prev` says that a digit came before. -/
def hexDigits (prev : Bool) : Str → Bool
  | [] => prev
  | '_' :: rest => prev && hexDigits false rest
  | c :: rest => isHexDigit c && hexDigits true rest

/-- The white space that `int` strips: in ASCII that of C, which is less than that of `str`. -/
def isIntSpace (c : Char) : Bool :=
  c == ' ' || (9 ≤ c.toNat && c.toNat ≤ 13) || (128 ≤ c.toNat && Str.isSpace c)

/-- `int(s, 16)` does not raise. -/
def intAccepts16 (s : Str) : Bool :=
  let body := (((s.dropWhile isIntSpace).reverse.dropWhile isIntSpace).reverse).map asciiDigit
  let unsigned :=
    match body with
    | '+' :: rest => rest
    | '-' :: rest => rest
    | rest => rest
  match unsigned with
  | '0' :: 'x' :: '_' :: rest => hexDigits false rest
  | '0' :: 'X' :: '_' :: rest => hexDigits false rest
  | '0' :: 'x' :: rest => hexDigits false rest
  | '0' :: 'X' :: rest => hexDigits false rest
  | rest => hexDigits false rest

/-- `uuid.UUID(s)` does not raise. -/
def uuidAccepts (s : Str) : Bool :=
  let brace (c : Char) : Bool := c == '\x7b' || c == '\x7d'
  let bare := removeAll (lit "uuid:") (removeAll (lit "urn:") s)
  let hex := (((bare.dropWhile brace).reverse.dropWhile brace).reverse).filter (· != '-')
  hex.length == 32 && intAccepts16 hex

example : uuidAccepts (lit "12345678-1234-5678-1234-567812345678") = true := by decide

/-- The newest of the files that are not known and whose stem is a UUID. -/
def newestUnknown (known : List SessionId) (files : List (Str × Time)) : Option SessionId :=
  (latestBy (·.2) (files.filter fun f => !known.contains f.1 && uuidAccepts f.1)).map (·.1)

/-- Find the most recent session file of the project that is not yet tracked for this room. -/
def findUnmirroredSessionId (projectDir : Str) (roomId : RoomId) : Py (Option SessionId) := do
  match ← ExceptT.mk (Coro.perform (Eff.sync (.listTranscripts projectDir))) with
  | none => pure none
  | some files =>
    let known ← execute (.sessionIds roomId)
    pure (newestUnknown known files)

end MatrixDispatcher
