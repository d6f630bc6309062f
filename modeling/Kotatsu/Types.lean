import Kotatsu.Lib.HashMap

/-
  The data of the realtime server (`types.rs`, `magicnums.rs`)

  Identifiers and names are strings, as in the source. A `u8`, `u32` or `u64`
  field is a `Nat`; the places where a width is visible (saturating levels, the
  `as u32` of a rank) say so. Unix times are `Nat`: `SystemTime` keeps seconds
  in an `i64`, so adding a lifetime or a cooldown to one cannot wrap a `u64`.

  A channel is named by a number. `reliable_tx`, a session's `tx` and its `rx`
  are ends of the channel of that name; the queue itself is in `Server`.
-/

namespace Kotatsu

/-! ## `magicnums.rs` -/

def roomMaxPlayers : Nat := 4
def matchStagePoolSize : Nat := 5
def matchStageOrderLen : Nat := 4
def tokenTtlSecs : Nat := 60 * 60
def roomIdleTimeoutSecs : Nat := 3 * 60
def paramMinLevel : Nat := 1
def paramMaxLevelThreeStage : Nat := 3
def paramMaxLevelFriction : Nat := 2
def paramChangeCooldownSecs : Nat := 7

/-- The capacity of a player's reliable channel (`mpsc::channel(1024)`). -/
def reliableCapacity : Nat := 1024

/-! ## `types.rs` -/

abbrev ChanId := Nat

/-- The bit pattern of an `f32`. -/
abbrev F32 := BitVec 32

structure SocketAddr where
  ip : Nat
  port : Nat
  deriving DecidableEq, Repr

inductive ParamKind where
  | gravity | friction | speed
  deriving DecidableEq, Repr

inductive ParamDirection where
  | increase | decrease
  deriving DecidableEq, Repr

structure PlayerParams where
  gravity : Nat
  friction : Nat
  speed : Nat
  deriving DecidableEq, Repr

/-- `PlayerParams::default()`. -/
def PlayerParams.default : PlayerParams := { gravity := 2, friction := 2, speed := 2 }

structure PlayerMatchState where
  playerId : String
  displayName : String
  colorIndex : Nat
  stageOrder : List Nat
  currentStageIndex : Nat
  deriving DecidableEq, Repr

structure ParamMutation where
  params : PlayerParams
  nextParamChangeAtUnix : Nat
  deriving DecidableEq, Repr

inductive ParamUpdateError where
  | cooldownActive (nextAllowedAtUnix : Nat)
  | outOfRange
  deriving DecidableEq, Repr

/-- The `Display` text of a refused parameter change. -/
def ParamUpdateError.toText : ParamUpdateError → String
  | .cooldownActive next => "cooldown_active:" ++ toString next
  | .outOfRange => "out_of_range"

structure Ticket where
  matchId : String
  playerId : String
  displayName : String
  expiresAtUnix : Nat
  deriving DecidableEq, Repr

inductive PlayerConnection where
  | udp (addr : SocketAddr)
  deriving DecidableEq, Repr

structure PlayerHandle where
  displayName : String
  params : PlayerParams
  nextParamChangeAtUnix : Nat
  colorIndex : Option Nat
  stageOrder : List Nat
  currentStageIndex : Nat
  reliableTx : ChanId
  connection : Option PlayerConnection
  deriving DecidableEq, Repr

structure MatchRoom where
  players : HashMap String PlayerHandle
  startedAtUnix : Nat
  lastActivityUnix : Nat
  finishedPlayerIds : List String

/-- `MatchRoom::new()`, with the clock's reading. -/
def MatchRoom.new (nowUnix : Nat) : MatchRoom :=
  { players := ∅, startedAtUnix := 0, lastActivityUnix := nowUnix, finishedPlayerIds := [] }

/-- `CoreState`; `rooms` is the source's `matches`. -/
structure CoreState where
  rooms : HashMap String MatchRoom
  tickets : HashMap String Ticket

def CoreState.empty : CoreState := { rooms := ∅, tickets := ∅ }

/-- Write back the room that a `get_mut` on `matches` handed out. -/
def CoreState.setRoom (core : CoreState) (matchId : String) (room : MatchRoom) : CoreState :=
  { core with rooms := core.rooms.insert matchId room }

@[simp] theorem CoreState.setRoom_rooms (core : CoreState) (m : String) (room : MatchRoom) :
    (core.setRoom m room).rooms = core.rooms.insert m room := rfl

@[simp] theorem CoreState.setRoom_tickets (core : CoreState) (m : String) (room : MatchRoom) :
    (core.setRoom m room).tickets = core.tickets := rfl

inductive ClientReliable where
  | join (token : String)
  | paramChange (seq : Nat) (param : ParamKind) (direction : ParamDirection)
  deriving DecidableEq, Repr

inductive ServerReliable where
  | joinOk (matchId playerId : String) (params : PlayerParams) (serverTimeMs : Nat)
  | matchStarted (matchId : String) (startedAtUnix : Nat) (players : List PlayerMatchState)
      (serverTimeMs : Nat)
  | paramApplied (fromPlayerId : String) (seq : Nat) (params : PlayerParams)
      (nextParamChangeAtUnix serverTimeMs : Nat)
  | error (code message : String)
  deriving DecidableEq, Repr

inductive ClientDatagram where
  | pos (seq : Nat) (x y vx vy : F32)
  | stageProgress (currentStageIndex : Nat)
  deriving DecidableEq, Repr

inductive ServerDatagram where
  | pos (playerId : String) (seq : Nat) (x y vx vy : F32) (serverTimeMs : Nat)
  | stageProgress (playerId : String) (currentStageIndex serverTimeMs : Nat)
  deriving DecidableEq, Repr

/-- The player whose datagram it is. -/
def ServerDatagram.playerId : ServerDatagram → String
  | .pos playerId .. => playerId
  | .stageProgress playerId .. => playerId

/-- One client's entry in the session registry (`udp_connection.rs`). -/
structure ClientSession where
  matchId : String
  playerId : String
  addr : SocketAddr
  tx : ChanId
  rx : ChanId
  deriving DecidableEq, Repr

end Kotatsu
