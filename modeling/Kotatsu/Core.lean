import Kotatsu.Params
import Mathlib.Data.List.Sort
import Mathlib.Data.String.Basic

/-
  The critical sections on the core state (`ticket.rs`, `player.rs`, `room.rs`)

  Each function below is what the source does between taking and releasing the
  `core` lock, as a function of the state before. A fallible one returns the
  state beside the result, so that what an error leaves changed is visible. A
  reading of the clock is an argument, one for each `now_unix()` of the source,
  and so are the outcomes of the shuffles.

  Error texts are the source's. Unsigned subtraction on `Nat` is the source's
  `saturating_sub`.
-/

namespace Kotatsu

/-! ## `ticket.rs` -/

/-- The ticket leaves the table before its expiry is looked at. -/
def consumeTicket (core : CoreState) (token : String) (nowUnix : Nat) :
    CoreState × Except String (String × String × String) :=
  match core.tickets.get token with
  | none => (core, .error "invalid_token")
  | some t =>
    let core := { core with tickets := core.tickets.remove token }
    if t.expiresAtUnix < nowUnix then
      (core, .error "token_expired")
    else
      (core, .ok (t.matchId, t.playerId, t.displayName))

/-! ## `player.rs` -/

/-- The handle that a registration writes: what a seated player of that id had,
else the defaults, under the new name, address and channel. -/
def registeredHandle (seated : Option PlayerHandle) (displayName : String) (addr : SocketAddr)
    (reliableTx : ChanId) : PlayerHandle :=
  { displayName := displayName
    params := (seated.map (·.params)).getD .default
    nextParamChangeAtUnix := (seated.map (·.nextParamChangeAtUnix)).getD 0
    colorIndex := seated.bind (·.colorIndex)
    stageOrder := (seated.map (·.stageOrder)).getD []
    currentStageIndex := (seated.map (·.currentStageIndex)).getD 0
    reliableTx := reliableTx
    connection := some (.udp addr) }

def MatchRoom.register (room : MatchRoom) (playerId displayName : String) (addr : SocketAddr)
    (reliableTx : ChanId) (nowUnix : Nat) : MatchRoom :=
  { room with
    players := room.players.insert playerId
      (registeredHandle (room.players.get playerId) displayName addr reliableTx)
    lastActivityUnix := nowUnix }

theorem get_register (room : MatchRoom) (p q name : String) (addr : SocketAddr) (tx : ChanId)
    (now : Nat) : (room.register p name addr tx now).players.get q =
      if q = p then some (registeredHandle (room.players.get p) name addr tx)
      else room.players.get q := HashMap.get_insert _ _ _ _

/-- The room is full for `playerId`: no seat is free and it has none. -/
def MatchRoom.FullFor (room : MatchRoom) (playerId : String) : Prop :=
  roomMaxPlayers ≤ room.players.len ∧ room.players.contains playerId = false

instance (room : MatchRoom) (playerId : String) : Decidable (room.FullFor playerId) :=
  inferInstanceAs (Decidable (_ ∧ _))

def registerPlayerUdp (core : CoreState) (matchId playerId displayName : String)
    (addr : SocketAddr) (reliableTx : ChanId) (nowUnix : Nat) :
    CoreState × Except String PlayerParams :=
  match core.rooms.get matchId with
  | none => (core, .error "match_not_found")
  | some room =>
    if room.FullFor playerId then
      (core, .error "match_full")
    else
      (core.setRoom matchId (room.register playerId displayName addr reliableTx nowUnix),
        .ok (registeredHandle (room.players.get playerId) displayName addr reliableTx).params)

def MatchRoom.removePlayer (room : MatchRoom) (playerId : String) (nowUnix : Nat) : MatchRoom :=
  { room with players := room.players.remove playerId, lastActivityUnix := nowUnix }

theorem get_removePlayer (room : MatchRoom) (p q : String) (now : Nat) :
    (room.removePlayer p now).players.get q = if q = p then none else room.players.get q :=
  HashMap.get_remove _ _ _

def removePlayer (core : CoreState) (matchId playerId : String) (nowUnix : Nat) : CoreState :=
  match core.rooms.get matchId with
  | none => core
  | some room => core.setRoom matchId (room.removePlayer playerId nowUnix)

/-! ## `room.rs`: parameter changes -/

/-- The write of an accepted change, `nowUnix` the second reading of the clock. -/
def MatchRoom.setParams (room : MatchRoom) (playerId : String) (player : PlayerHandle)
    (updated : ParamMutation) (nowUnix : Nat) : MatchRoom :=
  { room with
    players := room.players.insert playerId
      { player with
        params := updated.params
        nextParamChangeAtUnix := updated.nextParamChangeAtUnix }
    lastActivityUnix := nowUnix }

theorem get_setParams (room : MatchRoom) (p q : String) (player : PlayerHandle)
    (updated : ParamMutation) (now : Nat) :
    (room.setParams p player updated now).players.get q =
      if q = p then some
        { player with
          params := updated.params
          nextParamChangeAtUnix := updated.nextParamChangeAtUnix }
      else room.players.get q := HashMap.get_insert _ _ _ _

def updatePlayerParams (core : CoreState) (matchId playerId : String) (param : ParamKind)
    (direction : ParamDirection) (nowUnix nowUnix' : Nat) :
    CoreState × Except String ParamMutation :=
  match core.rooms.get matchId with
  | none => (core, .error "match_not_found")
  | some room =>
    match room.players.get playerId with
    | none => (core, .error "player_not_found")
    | some player =>
      match applyParamChange player.params player.nextParamChangeAtUnix param direction nowUnix with
      | .error e => (core, .error e.toText)
      | .ok updated =>
        (core.setRoom matchId (room.setParams playerId player updated nowUnix'), .ok updated)

/-! ## `room.rs`: stale lobbies -/

/-- An unstarted room that has been idle for the timeout. -/
def MatchRoom.stale (room : MatchRoom) (idleTimeoutSecs nowUnix : Nat) : Bool :=
  room.startedAtUnix == 0 && idleTimeoutSecs ≤ nowUnix - room.lastActivityUnix

def deleteStaleLobbyRooms (core : CoreState) (idleTimeoutSecs nowUnix : Nat) :
    CoreState × List String :=
  let staleMatchIds :=
    (core.rooms.toList.filter fun e => e.2.stale idleTimeoutSecs nowUnix).map Prod.fst
  if staleMatchIds.isEmpty then
    (core, staleMatchIds)
  else
    ({ rooms := staleMatchIds.foldl HashMap.remove core.rooms
       tickets := core.tickets.retain fun _ ticket => !staleMatchIds.contains ticket.matchId },
      staleMatchIds)

/-! ## `room.rs`: recipients of a broadcast -/

/-- The senders that `broadcast_reliable_udp` collects; `none` is its early
return on a missing room. -/
def reliableSenders (core : CoreState) (matchId : String) : Option (List ChanId) :=
  (core.rooms.get matchId).map fun room => room.players.values.map (·.reliableTx)

/-- The addresses of the players that `skip` does not name. -/
def connectedAddrs (room : MatchRoom) (skip : String → Bool) : List SocketAddr :=
  room.players.toList.filterMap fun e =>
    if skip e.1 then none
    else match e.2.connection with
      | some (.udp addr) => some addr
      | none => none

/-- The addresses that `broadcast_datagram_udp` collects. -/
def datagramAddrs (core : CoreState) (matchId senderPlayerId : String) :
    Option (List SocketAddr) :=
  (core.rooms.get matchId).map (connectedAddrs · (· == senderPlayerId))

/-- The addresses that `broadcast_datagram_udp_to_all` collects. -/
def datagramAddrsToAll (core : CoreState) (matchId : String) : Option (List SocketAddr) :=
  (core.rooms.get matchId).map (connectedAddrs · fun _ => false)

/-! ## `room.rs`: starting a match -/

/-- The outcomes of the shuffles of one layout: the colours, and the stage pool
once for each position in the sorted list of players. -/
structure Shuffles where
  colors : { c : List Nat // c.Perm (List.range roomMaxPlayers) }
  stages : Nat → { o : List Nat // o.Perm (List.range matchStagePoolSize) }

/-- The shuffles that move nothing. -/
def Shuffles.inOrder : Shuffles where
  colors := ⟨List.range roomMaxPlayers, .refl _⟩
  stages _ := ⟨List.range matchStagePoolSize, .refl _⟩

/-- The layout of the player at position `index`. -/
def layoutHandle (sh : Shuffles) (index : Nat) (player : PlayerHandle) : PlayerHandle :=
  let stageOrder := (sh.stages index).val
  { player with
    colorIndex := sh.colors.val[index]?
    stageOrder := stageOrder.take (min matchStageOrderLen stageOrder.length)
    currentStageIndex := 0 }

/-- The loop over the enumerated player ids. -/
def assignLoop (sh : Shuffles) : List String → Nat → HashMap String PlayerHandle →
    HashMap String PlayerHandle
  | [], _, players => players
  | playerId :: rest, index, players =>
    match players.get playerId with
    | none => assignLoop sh rest (index + 1) players
    | some player =>
      assignLoop sh rest (index + 1) (players.insert playerId (layoutHandle sh index player))

/-- The ids in the order of `player_ids.sort()`. -/
def sortedIds (players : HashMap String PlayerHandle) : List String :=
  players.keys.insertionSort (· ≤ ·)

def assignRandomizedLayout (room : MatchRoom) (sh : Shuffles) : MatchRoom :=
  { room with players := assignLoop sh (sortedIds room.players) 0 room.players }

/-- One row of the snapshot; a missing colour reads as 0 (`unwrap_or(0)`). -/
def playerMatchState (playerId : String) (player : PlayerHandle) : PlayerMatchState :=
  { playerId := playerId
    displayName := player.displayName
    colorIndex := player.colorIndex.getD 0
    stageOrder := player.stageOrder
    currentStageIndex := player.currentStageIndex }

def snapshotPlayers (room : MatchRoom) : List PlayerMatchState :=
  (room.players.toList.map fun e => playerMatchState e.1 e.2).insertionSort
    (fun a b => a.playerId ≤ b.playerId)

/-- The write of a first start. -/
def MatchRoom.start (room : MatchRoom) (sh : Shuffles) (nowUnix : Nat) : MatchRoom :=
  assignRandomizedLayout { room with startedAtUnix := nowUnix, lastActivityUnix := nowUnix } sh

def startMatchAndSnapshotPlayers (core : CoreState) (matchId : String) (sh : Shuffles)
    (nowUnix : Nat) : CoreState × Except String (Nat × Bool × List PlayerMatchState) :=
  match core.rooms.get matchId with
  | none => (core, .error "match_not_found")
  | some room =>
    if room.startedAtUnix = 0 then
      let room := room.start sh nowUnix
      (core.setRoom matchId room, .ok (room.startedAtUnix, true, snapshotPlayers room))
    else
      (core, .ok (room.startedAtUnix, false, snapshotPlayers room))

/-! ## `room.rs`: finishing -/

/-- The `as u32` of a rank or a count. -/
def asU32 (n : Nat) : Nat := n % 2 ^ 32

/-- The write of a first finish. -/
def MatchRoom.finish (room : MatchRoom) (playerId : String) (nowUnix : Nat) : MatchRoom :=
  { room with
    finishedPlayerIds := room.finishedPlayerIds ++ [playerId]
    lastActivityUnix := nowUnix }

def finishPlayer (core : CoreState) (matchId playerId : String) (nowUnix : Nat) :
    CoreState × Except String (Nat × Nat × Nat) :=
  match core.rooms.get matchId with
  | none => (core, .error "match_not_found")
  | some room =>
    if room.startedAtUnix = 0 then
      (core, .error "match_not_started")
    else if room.players.contains playerId = false then
      (core, .error "player_not_found")
    else
      match room.finishedPlayerIds.idxOf? playerId with
      | some index =>
        (core, .ok (asU32 (index + 1), asU32 room.finishedPlayerIds.length,
          asU32 room.players.len))
      | none =>
        let room := room.finish playerId nowUnix
        (core.setRoom matchId room, .ok (asU32 room.finishedPlayerIds.length,
          asU32 room.finishedPlayerIds.length, asU32 room.players.len))

end Kotatsu
