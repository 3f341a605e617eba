import MatrixDispatcher.Text

/-!
# Configuration, identifiers and constants

The constants of `config.py`, the parts of `config.yml` that the dispatcher reads, and the names
under which rooms, events, sessions and approvals go. Optional keys of the file are `Option`
fields; their defaults are the ones the source gives to `config.get`.
-/

namespace MatrixDispatcher

abbrev RoomId := Str
abbrev EventId := Str
abbrev UserId := Str
abbrev SessionId := Str
abbrev ApprovalId := Str
abbrev AgentName := Str
/-- A `/sync` token (`next_batch`). -/
abbrev Token := Str

/-- A clock reading in microseconds. -/
abbrev Time := Int

/-- `int(time.time())`. -/
def Time.seconds (t : Time) : Int := Int.tdiv t 1000000

/-- A duration of whole seconds, in the unit of clock readings. -/
def secondsToTime (s : Int) : Time := s * 1000000

def SUBPROCESS_TIMEOUT_SECONDS : Nat := 300
def RATE_LIMIT_SECONDS : Int := 10
/-- `CANCEL_REGISTRATION_WAIT_SECONDS / CANCEL_POLL_INTERVAL_SECONDS`: how often `!cancel` looks
again for a process. -/
def CANCEL_POLLS : Nat := 20
def PENDING_APPROVAL_EXPIRY_SECONDS : Int := 600

/-- The entry of one agent under `agents` in `config.yml`. -/
structure AgentCfg where
  roomId : RoomId
  projectDir : Option Str
  subprocessTimeoutSeconds : Option Nat
  scopedMcpUrl : Option Str

/-- `config.yml`. -/
structure Config where
  trustedSender : Option UserId
  mentionUser : Option UserId
  botUserId : Option UserId
  maxMessageLength : Option Nat
  sessionRetentionDays : Option Int
  startupNotificationAgent : Option AgentName
  agents : List (AgentName × AgentCfg)

namespace Config

/-- `_build_room_to_agent`: the agent of a room, the last one in the file if there are several. -/
def roomToAgent (config : Config) (room : RoomId) : Option (AgentName × AgentCfg) :=
  config.agents.reverse.find? fun entry => entry.2.roomId == room

/-- The agent names that `room` answers for. -/
def agentOf (config : Config) (room : RoomId) : Option AgentName :=
  (config.roomToAgent room).map Prod.fst

end Config

/-- `agent_cfg.get("subprocess_timeout_seconds", SUBPROCESS_TIMEOUT_SECONDS)`. -/
def AgentCfg.timeout (cfg : AgentCfg) : Nat :=
  cfg.subprocessTimeoutSeconds.getD SUBPROCESS_TIMEOUT_SECONDS

end MatrixDispatcher
