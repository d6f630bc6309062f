import Kotatsu.Core

/-
  The gRPC control plane (`grpc_service.rs`)

  Every handler but `start_room` is one critical section, given here with its
  request, its response and its status. `start_room` releases the lock between
  the start and the broadcast; its two sections are
  `startMatchAndSnapshotPlayers` and the broadcast of `Server`.

  The ids that the source draws with `Uuid::new_v4` are arguments.
-/

namespace Kotatsu

/-- The `tonic::Code`s that the service answers with. -/
inductive Code where
  | notFound | failedPrecondition | internal
  deriving DecidableEq, Repr

structure Status where
  code : Code
  message : String
  deriving DecidableEq, Repr

structure CreateRoomResponse where
  matchId : String
  maxPlayers : Nat
  deriving DecidableEq, Repr

structure IssueJoinTicketRequest where
  matchId : String
  displayName : String
  deriving DecidableEq, Repr

structure IssueJoinTicketResponse where
  matchId : String
  playerId : String
  token : String
  tokenExpiresAtUnix : Nat
  udpUrl : String
  deriving DecidableEq, Repr

structure RoomPlayer where
  playerId : String
  displayName : String
  gravity : Nat
  friction : Nat
  speed : Nat
  nextParamChangeAtUnix : Nat
  deriving DecidableEq, Repr

/-- `GetRoomResponse`, and `RoomSummary`, which has the same fields. -/
structure RoomSummary where
  matchId : String
  maxPlayers : Nat
  players : List RoomPlayer
  startedAtUnix : Nat
  deriving DecidableEq, Repr

structure FinishRoomResponse where
  matchId : String
  playerId : String
  rank : Nat
  finishedPlayerCount : Nat
  totalPlayers : Nat
  deriving DecidableEq, Repr

/-! ## Reading rooms -/

def roomPlayer (id : String) (p : PlayerHandle) : RoomPlayer :=
  { playerId := id
    displayName := p.displayName
    gravity := p.params.gravity
    friction := p.params.friction
    speed := p.params.speed
    nextParamChangeAtUnix := p.nextParamChangeAtUnix }

def roomPlayers (room : MatchRoom) : List RoomPlayer :=
  (room.players.toList.map fun e => roomPlayer e.1 e.2).insertionSort
    (fun a b => a.playerId ≤ b.playerId)

def roomSummary (matchId : String) (room : MatchRoom) : RoomSummary :=
  { matchId := matchId
    maxPlayers := roomMaxPlayers
    players := roomPlayers room
    startedAtUnix := room.startedAtUnix }

def listRooms (core : CoreState) : List RoomSummary :=
  ((core.rooms.toList.filter fun e => e.2.startedAtUnix == 0).map
    fun e => roomSummary e.1 e.2).insertionSort (fun a b => a.matchId ≤ b.matchId)

def getRoom (core : CoreState) (matchId : String) : Except Status RoomSummary :=
  match core.rooms.get matchId with
  | none => .error ⟨.notFound, "match_not_found"⟩
  | some room => .ok (roomSummary matchId room)

/-! ## Creating rooms and issuing tickets -/

/-- `format!("m_{}", uuid)`. -/
def matchIdOf (uuid : String) : String := "m_" ++ uuid

/-- `format!("p_{}", uuid)`. -/
def playerIdOf (uuid : String) : String := "p_" ++ uuid

def createRoom (core : CoreState) (uuid : String) (nowUnix : Nat) :
    CoreState × CreateRoomResponse :=
  (core.setRoom (matchIdOf uuid) (MatchRoom.new nowUnix),
    { matchId := matchIdOf uuid, maxPlayers := roomMaxPlayers })

/-- The `White_Space` characters, which `str::trim` strips. -/
def isWhiteSpace (c : Char) : Bool :=
  let n := c.toNat
  (0x09 ≤ n && n ≤ 0x0D) || n == 0x20 || n == 0x85 || n == 0xA0 || n == 0x1680 ||
    (0x2000 ≤ n && n ≤ 0x200A) || n == 0x2028 || n == 0x2029 || n == 0x202F || n == 0x205F ||
    n == 0x3000

/-- `name.trim().is_empty()`: there is nothing but white space. -/
def isBlank (name : String) : Bool := name.toList.all isWhiteSpace

/-- The display name that a ticket is issued for. -/
def normalizeDisplayName (name : String) : String := if isBlank name then "player" else name

def issueJoinTicket (core : CoreState) (udpPublicUrl : String) (req : IssueJoinTicketRequest)
    (uuid token : String) (nowUnix : Nat) :
    CoreState × Except Status IssueJoinTicketResponse :=
  let displayName := normalizeDisplayName req.displayName
  match core.rooms.get req.matchId with
  | none => (core, .error ⟨.notFound, "match_not_found"⟩)
  | some room =>
    if roomMaxPlayers ≤ room.players.len then
      (core, .error ⟨.failedPrecondition, "match_full"⟩)
    else
      let playerId := playerIdOf uuid
      let expires := nowUnix + tokenTtlSecs
      let core := core.setRoom req.matchId { room with lastActivityUnix := nowUnix }
      let ticket : Ticket :=
        { matchId := req.matchId
          playerId := playerId
          displayName := displayName
          expiresAtUnix := expires }
      ({ core with tickets := core.tickets.insert token ticket },
        .ok { matchId := req.matchId
              playerId := playerId
              token := token
              tokenExpiresAtUnix := expires
              udpUrl := udpPublicUrl })

/-! ## Starting, finishing and deleting -/

/-- The first section of `start_room`, its error mapped to the status. -/
def startRoom (core : CoreState) (matchId : String) (sh : Shuffles) (nowUnix : Nat) :
    CoreState × Except Status (Nat × Bool × List PlayerMatchState) :=
  match startMatchAndSnapshotPlayers core matchId sh nowUnix with
  | (core, .error _) => (core, .error ⟨.notFound, "match_not_found"⟩)
  | (core, .ok started) => (core, .ok started)

/-- The status of a refused finish, by the text of the error. -/
def finishStatus : String → Status
  | "match_not_found" => ⟨.notFound, "match_not_found"⟩
  | "player_not_found" => ⟨.notFound, "player_not_found"⟩
  | "match_not_started" => ⟨.failedPrecondition, "match_not_started"⟩
  | _ => ⟨.internal, "finish_room_failed"⟩

def finishRoom (core : CoreState) (matchId playerId : String) (nowUnix : Nat) :
    CoreState × Except Status FinishRoomResponse :=
  match finishPlayer core matchId playerId nowUnix with
  | (core, .error err) => (core, .error (finishStatus err))
  | (core, .ok (rank, finishedPlayerCount, totalPlayers)) =>
    (core, .ok { matchId := matchId
                 playerId := playerId
                 rank := rank
                 finishedPlayerCount := finishedPlayerCount
                 totalPlayers := totalPlayers })

def deleteRoom (core : CoreState) (matchId : String) : CoreState × Except Status Unit :=
  if core.rooms.contains matchId = false then
    (core, .error ⟨.notFound, "match_not_found"⟩)
  else
    ({ rooms := core.rooms.remove matchId
       tickets := core.tickets.retain fun _ ticket => ticket.matchId != matchId }, .ok ())

end Kotatsu
