import Kotatsu.ControlPlane
import Kotatsu.Lib.Machine

/-
  The server as a machine (`udp_connection.rs`, `grpc_service.rs`, `cleanup.rs`)

  A step is one critical section, or one send, of one task; between two steps of
  a task any other task may run. What a task still has to do is a constructor of
  its task type, named after the section that comes next, and the fields are the
  locals that are live there. The environment chooses the schedule, the packets,
  the requests, every reading of a clock, whether a socket send succeeds, the
  iteration order of a map, and the drawn identifiers.

  Correspondence:
    `handle_join`, `remove_client`        ↔ `JoinTask`, `stepJoin`
    `handle_param_change`                 ↔ `ParamTask`, `stepParam`, then a `Cast`
    `broadcast_reliable_udp`              ↔ `Cast`, `stepCast`
    `handle_unreliable_message`           ↔ `RelayTask`, `stepRelay`
    the outgoing task of `run_udp_server` ↔ `DrainTask`, `drainStart`, `drainStep`
    `spawn_room_cleanup_task`             ↔ `cleanups`, `cleanupTick`, `cleanupRun`

  Every section on `core` is one step, so that lock is never seen held. The
  outgoing task holds `clients` over a whole pass: while `drain` is `some`, the
  sections of other tasks on `clients` have to wait.

  A drawn identifier is fresh: it is none that was drawn, and no token that was
  presented, before (`seen`).
-/

namespace Kotatsu

/-! ## Channels, tasks and the state -/

/-- A reliable channel; `alive` until its receiver is dropped. -/
structure Channel where
  queue : List ServerReliable
  alive : Bool
  deriving DecidableEq, Repr

/-- A received packet, decoded; `malformed` is an empty packet, an unknown type
byte or a payload that does not parse, all of which are ignored. -/
inductive Packet where
  | reliable (msg : ClientReliable)
  | unreliable (msg : ClientDatagram)
  | malformed

/-- `handle_join`, by the section that comes next. -/
inductive JoinTask where
  | check (addr : SocketAddr) (token : String)
  | consume (addr : SocketAddr) (token : String)
  /-- The channel is there, and nobody else knows it. -/
  | register (addr : SocketAddr) (matchId playerId displayName : String) (tx : ChanId)
  | insert (addr : SocketAddr) (matchId playerId : String) (params : PlayerParams) (tx : ChanId)
  | sendOk (addr : SocketAddr) (matchId playerId : String) (params : PlayerParams)
  /-- `remove_client`, before it locks the registry. -/
  | rollback (addr : SocketAddr)
  /-- `remove_client`, before `remove_player`. -/
  | remove (session : ClientSession)
  /-- A join that was refused its registration still holds its receiver. -/
  | sendError (addr : SocketAddr) (code message : String) (rx : Option ChanId)

/-- `handle_param_change`, up to its broadcast. -/
inductive ParamTask where
  | lookup (addr : SocketAddr) (seq : Nat) (param : ParamKind) (direction : ParamDirection)
  | update (matchId playerId : String) (tx : ChanId) (seq : Nat) (param : ParamKind)
      (direction : ParamDirection)

/-- A message on its way into channels: before the recipients are collected, and
with the recipients that are left. -/
inductive Cast where
  | collect (matchId : String) (msg : ServerReliable)
  | sending (txs : List ChanId) (msg : ServerReliable)

/-- `handle_unreliable_message`. -/
inductive RelayTask where
  | lookup (addr : SocketAddr) (msg : ClientDatagram)
  | collect (matchId playerId : String) (out : ServerDatagram)
  | sending (addrs : List SocketAddr) (out : ServerDatagram)

/-- A pass of the outgoing task over the sessions that are left: before it looks into the
channel of the first, and with a message that it has taken from there. -/
inductive DrainTask where
  | take (addrs : List SocketAddr)
  | send (session : ClientSession) (msg : ServerReliable) (addrs : List SocketAddr)
  deriving DecidableEq, Repr

structure Sys where
  udpPublicUrl : String
  core : CoreState
  clients : HashMap SocketAddr ClientSession
  chans : HashMap ChanId Channel
  joins : HashMap Nat JoinTask
  params : HashMap Nat ParamTask
  casts : HashMap Nat Cast
  relays : HashMap Nat RelayTask
  /-- Cleanup passes between their reading of the clock and the lock, with the
  timeout and the reading. -/
  cleanups : HashMap Nat (Nat × Nat)
  /-- The pass of the outgoing task, while it runs. -/
  drain : Option DrainTask
  /-- Identifiers drawn, and tokens presented, so far. -/
  seen : List String

def Sys.init (udpPublicUrl : String) : Sys :=
  { udpPublicUrl := udpPublicUrl
    core := .empty
    clients := ∅, chans := ∅, joins := ∅, params := ∅, casts := ∅, relays := ∅, cleanups := ∅
    drain := none
    seen := [] }

/-! ## Events and actions -/

/-- The requests that can be refused. -/
inductive Call where
  | getRoom (matchId : String)
  | issueJoinTicket (req : IssueJoinTicketRequest)
  | startRoom (matchId : String)
  | finishRoom (matchId playerId : String)
  | deleteRoom (matchId : String)
  deriving DecidableEq, Repr

/-- What a step does that its caller, a client or an operator can see. -/
inductive Event where
  | roomCreated (resp : CreateRoomResponse) (nowUnix : Nat)
  | ticketIssued (req : IssueJoinTicketRequest) (resp : IssueJoinTicketResponse) (nowUnix : Nat)
  /-- A call of `consume_ticket` and its result. -/
  | ticketPresented (token : String) (nowUnix : Nat)
      (result : Except String (String × String × String))
  | registered (matchId playerId : String) (addr : SocketAddr) (tx : ChanId)
  | registerRefused (matchId playerId reason : String)
  | seatRemoved (matchId playerId : String)
  | paramUpdated (matchId playerId : String) (param : ParamKind) (direction : ParamDirection)
      (nowUnix : Nat) (updated : ParamMutation)
  | paramRefused (matchId playerId : String) (param : ParamKind) (direction : ParamDirection)
      (nowUnix : Nat) (reason : String)
  /-- A start that succeeds: the two fields of its response, and what its first
  section returned beside them. -/
  | roomStarted (matchId : String) (startedAtUnix : Nat) (justStarted : Bool)
      (players : List PlayerMatchState)
  | finished (resp : FinishRoomResponse)
  | roomRemoved (matchId : String)
  | refused (call : Call) (status : Status)
  | listed (rooms : List RoomSummary)
  | got (room : RoomSummary)
  | enqueued (tx : ChanId) (msg : ServerReliable)
  | sentReliable (addr : SocketAddr) (msg : ServerReliable)
  | sentDatagram (addr : SocketAddr) (out : ServerDatagram)

/-- What the environment chooses for one step of a task. -/
structure Choice where
  nowUnix : Nat := 0
  nowUnix' : Nat := 0
  nowMs : Nat := 0
  sendOk : Bool := true
  fresh : Nat := 0
  txs : List ChanId := []
  addrs : List SocketAddr := []

inductive Action where
  | createRoom (uuid : String) (nowUnix : Nat)
  | listRooms
  | getRoom (matchId : String)
  | issueJoinTicket (req : IssueJoinTicketRequest) (uuid token : String) (nowUnix : Nat)
  | startRoom (matchId : String) (sh : Shuffles) (ch : Choice)
  | finishRoom (matchId playerId : String) (nowUnix : Nat)
  | deleteRoom (matchId : String)
  | cleanupTick (tid idleTimeoutSecs nowUnix : Nat)
  | cleanupRun (tid : Nat)
  | recv (tid : Nat) (addr : SocketAddr) (packet : Packet)
  | join (tid : Nat) (ch : Choice)
  | param (tid : Nat) (ch : Choice)
  | cast (cid : Nat) (ch : Choice)
  | relay (tid : Nat) (ch : Choice)
  | drainStart (order : List SocketAddr)
  | drainStep (sendOk : Bool)

/-- A join packet, and the steps of its handler with nothing in between. -/
def soloJoin (tid : Nat) (addr : SocketAddr) (token : String) (chs : List Choice) : List Action :=
  .recv tid addr (.reliable (.join token)) :: chs.map (.join tid)

/-! ## Channels -/

/-- The receiver of `rx` is dropped, with what it had queued. -/
def closeRx (chans : HashMap ChanId Channel) (rx : ChanId) : HashMap ChanId Channel :=
  chans.insert rx { queue := [], alive := false }

/-- Dropping the session that an insertion replaced. -/
def closeReplaced (chans : HashMap ChanId Channel) : Option ClientSession →
    HashMap ChanId Channel
  | none => chans
  | some session => closeRx chans session.rx

/-- Dropping the receiver that a refused join holds. -/
def closeHeld (chans : HashMap ChanId Channel) : Option ChanId → HashMap ChanId Channel
  | none => chans
  | some rx => closeRx chans rx

/-! ## `handle_join` -/

def stepJoin (s : Sys) (tid : Nat) (ch : Choice) : Option (Sys × List Event) :=
  match s.joins.get tid with
  | none => none
  | some (.check addr token) =>
    if s.drain.isSome then none
    else if s.clients.contains addr then
      some ({ s with joins := s.joins.remove tid }, [])
    else
      some ({ s with joins := s.joins.insert tid (.consume addr token) }, [])
  | some (.consume addr token) =>
    match consumeTicket s.core token ch.nowUnix with
    | (core, .ok (matchId, playerId, displayName)) =>
      -- then `mpsc::channel` makes a new channel, which is still the task's own
      if s.chans.contains ch.fresh then none
      else
        some ({ s with
            core := core
            chans := s.chans.insert ch.fresh { queue := [], alive := true }
            joins := s.joins.insert tid (.register addr matchId playerId displayName ch.fresh) },
          [.ticketPresented token ch.nowUnix (.ok (matchId, playerId, displayName))])
    | (core, .error e) =>
      some ({ s with
          core := core
          joins := s.joins.insert tid (.sendError addr "auth_failed" e none) },
        [.ticketPresented token ch.nowUnix (.error e)])
  | some (.register addr matchId playerId displayName tx) =>
    match registerPlayerUdp s.core matchId playerId displayName addr tx ch.nowUnix with
    | (core, .ok params) =>
      some ({ s with
          core := core
          joins := s.joins.insert tid (.insert addr matchId playerId params tx) },
        [.registered matchId playerId addr tx])
    | (core, .error e) =>
      some ({ s with
          core := core
          joins := s.joins.insert tid (.sendError addr "join_failed" e (some tx)) },
        [.registerRefused matchId playerId e])
  | some (.insert addr matchId playerId params tx) =>
    if s.drain.isSome then none
    else
      let session : ClientSession :=
        { matchId := matchId, playerId := playerId, addr := addr, tx := tx, rx := tx }
      some ({ s with
          clients := s.clients.insert addr session
          chans := closeReplaced s.chans (s.clients.get addr)
          joins := s.joins.insert tid (.sendOk addr matchId playerId params) }, [])
  | some (.sendOk addr matchId playerId params) =>
    if ch.sendOk then
      some ({ s with joins := s.joins.remove tid },
        [.sentReliable addr (.joinOk matchId playerId params ch.nowMs)])
    else
      some ({ s with joins := s.joins.insert tid (.rollback addr) }, [])
  | some (.rollback addr) =>
    if s.drain.isSome then none
    else
      match s.clients.get addr with
      | none => some ({ s with joins := s.joins.remove tid }, [])
      | some session =>
        some ({ s with
            clients := s.clients.remove addr
            joins := s.joins.insert tid (.remove session) }, [])
  | some (.remove session) =>
    some ({ s with
        core := removePlayer s.core session.matchId session.playerId ch.nowUnix
        chans := closeRx s.chans session.rx
        joins := s.joins.remove tid },
      if s.core.rooms.contains session.matchId then
        [.seatRemoved session.matchId session.playerId] else [])
  | some (.sendError addr code message rx) =>
    some ({ s with chans := closeHeld s.chans rx, joins := s.joins.remove tid },
      if ch.sendOk then [.sentReliable addr (.error code message)] else [])

/-! ## `handle_param_change` and `broadcast_reliable_udp` -/

def stepParam (s : Sys) (tid : Nat) (ch : Choice) : Option (Sys × List Event) :=
  match s.params.get tid with
  | none => none
  | some (.lookup addr seq param direction) =>
    if s.drain.isSome then none
    else
      match s.clients.get addr with
      | none => some ({ s with params := s.params.remove tid }, [])
      | some session =>
        some ({ s with
            params := s.params.insert tid
              (.update session.matchId session.playerId session.tx seq param direction) }, [])
  | some (.update matchId playerId tx seq param direction) =>
    if s.casts.contains ch.fresh then none
    else
      match updatePlayerParams s.core matchId playerId param direction ch.nowUnix ch.nowUnix' with
      | (core, .error e) =>
        some ({ s with
            core := core
            params := s.params.remove tid
            casts := s.casts.insert ch.fresh (.sending [tx] (.error "param_update_failed" e)) },
          [.paramRefused matchId playerId param direction ch.nowUnix e])
      | (core, .ok updated) =>
        some ({ s with
            core := core
            params := s.params.remove tid
            casts := s.casts.insert ch.fresh (.collect matchId (.paramApplied playerId seq
              updated.params updated.nextParamChangeAtUnix ch.nowMs)) },
          [.paramUpdated matchId playerId param direction ch.nowUnix updated])

/-- A send waits while a live channel is full, and is lost on a dropped receiver. -/
def stepCast (s : Sys) (cid : Nat) (ch : Choice) : Option (Sys × List Event) :=
  match s.casts.get cid with
  | none => none
  | some (.collect matchId msg) =>
    match reliableSenders s.core matchId with
    | none => some ({ s with casts := s.casts.remove cid }, [])
    | some txs =>
      if ch.txs.Perm txs then
        some ({ s with casts := s.casts.insert cid (.sending ch.txs msg) }, [])
      else none
  | some (.sending [] _) => some ({ s with casts := s.casts.remove cid }, [])
  | some (.sending (tx :: txs) msg) =>
    match s.chans.get tx with
    | none => none
    | some chan =>
      if chan.alive then
        if chan.queue.length < reliableCapacity then
          some ({ s with
              chans := s.chans.insert tx { chan with queue := chan.queue ++ [msg] }
              casts := s.casts.insert cid (.sending txs msg) },
            [.enqueued tx msg])
        else none
      else
        some ({ s with casts := s.casts.insert cid (.sending txs msg) }, [])

/-! ## `handle_unreliable_message` -/

/-- The datagram that a client's datagram is relayed as. -/
def relayOut (playerId : String) (nowMs : Nat) : ClientDatagram → ServerDatagram
  | .pos seq x y vx vy => .pos playerId seq x y vx vy nowMs
  | .stageProgress currentStageIndex => .stageProgress playerId currentStageIndex nowMs

/-- Positions skip the sender; stage progress goes to everyone. -/
def relayAddrs (core : CoreState) (matchId playerId : String) :
    ServerDatagram → Option (List SocketAddr)
  | .pos .. => datagramAddrs core matchId playerId
  | .stageProgress .. => datagramAddrsToAll core matchId

def stepRelay (s : Sys) (tid : Nat) (ch : Choice) : Option (Sys × List Event) :=
  match s.relays.get tid with
  | none => none
  | some (.lookup addr msg) =>
    if s.drain.isSome then none
    else
      match s.clients.get addr with
      | none => some ({ s with relays := s.relays.remove tid }, [])
      | some session =>
        some ({ s with
            relays := s.relays.insert tid (.collect session.matchId session.playerId
              (relayOut session.playerId ch.nowMs msg)) }, [])
  | some (.collect matchId playerId out) =>
    match relayAddrs s.core matchId playerId out with
    | none => some ({ s with relays := s.relays.remove tid }, [])
    | some addrs =>
      if ch.addrs.Perm addrs then
        some ({ s with relays := s.relays.insert tid (.sending ch.addrs out) }, [])
      else none
  | some (.sending [] _) => some ({ s with relays := s.relays.remove tid }, [])
  | some (.sending (addr :: addrs) out) =>
    some ({ s with relays := s.relays.insert tid (.sending addrs out) },
      if ch.sendOk then [.sentDatagram addr out] else [])

/-! ## The outgoing task -/

def drainStart (s : Sys) (order : List SocketAddr) : Option (Sys × List Event) :=
  if s.drain = none ∧ order.Perm s.clients.keys then
    some ({ s with drain := some (.take order) }, [])
  else none

/-- Take a message from the session at the head (`try_recv`) or pass on to the next; then
send the message that was taken (`send_to`). -/
def drainStep (s : Sys) (sendOk : Bool) : Option (Sys × List Event) :=
  match s.drain with
  | none => none
  | some (.take []) => some ({ s with drain := none }, [])
  | some (.take (addr :: rest)) =>
    match s.clients.get addr with
    | none => some ({ s with drain := some (.take rest) }, [])
    | some session =>
      match s.chans.get session.rx with
      | some { queue := msg :: queue, alive } =>
        some ({ s with
            chans := s.chans.insert session.rx { queue := queue, alive := alive }
            drain := some (.send session msg (addr :: rest)) }, [])
      | _ => some ({ s with drain := some (.take rest) }, [])
  | some (.send session msg addrs) =>
    some ({ s with drain := some (.take addrs) },
      if sendOk then [.sentReliable session.addr msg] else [])

/-! ## The machine -/

def stepRecv (s : Sys) (tid : Nat) (addr : SocketAddr) : Packet → Option (Sys × List Event)
  | .malformed => some (s, [])
  | .reliable (.join token) =>
    if s.joins.contains tid then none
    else
      some ({ s with
          joins := s.joins.insert tid (.check addr token)
          seen := token :: s.seen }, [])
  | .reliable (.paramChange seq param direction) =>
    if s.params.contains tid then none
    else some ({ s with params := s.params.insert tid (.lookup addr seq param direction) }, [])
  | .unreliable msg =>
    if s.relays.contains tid then none
    else some ({ s with relays := s.relays.insert tid (.lookup addr msg) }, [])

def step (s : Sys) : Action → Option (Sys × List Event)
  | .createRoom uuid nowUnix =>
    if matchIdOf uuid ∈ s.seen then none
    else
      let (core, resp) := createRoom s.core uuid nowUnix
      some ({ s with core := core, seen := matchIdOf uuid :: s.seen }, [.roomCreated resp nowUnix])
  | .listRooms => some (s, [.listed (listRooms s.core)])
  | .getRoom matchId =>
    match getRoom s.core matchId with
    | .error status => some (s, [.refused (.getRoom matchId) status])
    | .ok room => some (s, [.got room])
  | .issueJoinTicket req uuid token nowUnix =>
    if playerIdOf uuid ∈ s.seen ∨ token ∈ s.seen ∨ playerIdOf uuid = token then none
    else
      match issueJoinTicket s.core s.udpPublicUrl req uuid token nowUnix with
      | (core, .error status) =>
        some ({ s with core := core }, [.refused (.issueJoinTicket req) status])
      | (core, .ok resp) =>
        some ({ s with core := core, seen := playerIdOf uuid :: token :: s.seen },
          [.ticketIssued req resp nowUnix])
  | .startRoom matchId sh ch =>
    if s.casts.contains ch.fresh then none
    else
      match startRoom s.core matchId sh ch.nowUnix with
      | (core, .error status) =>
        some ({ s with core := core }, [.refused (.startRoom matchId) status])
      | (core, .ok (startedAtUnix, justStarted, players)) =>
        some ({ s with
            core := core
            casts := if justStarted then
                s.casts.insert ch.fresh
                  (.collect matchId (.matchStarted matchId startedAtUnix players ch.nowMs))
              else s.casts },
          [.roomStarted matchId startedAtUnix justStarted players])
  | .finishRoom matchId playerId nowUnix =>
    match finishRoom s.core matchId playerId nowUnix with
    | (core, .error status) =>
      some ({ s with core := core }, [.refused (.finishRoom matchId playerId) status])
    | (core, .ok resp) => some ({ s with core := core }, [.finished resp])
  | .deleteRoom matchId =>
    match deleteRoom s.core matchId with
    | (core, .error status) =>
      some ({ s with core := core }, [.refused (.deleteRoom matchId) status])
    | (core, .ok ()) => some ({ s with core := core }, [.roomRemoved matchId])
  | .cleanupTick tid idleTimeoutSecs nowUnix =>
    if s.cleanups.contains tid then none
    else some ({ s with cleanups := s.cleanups.insert tid (idleTimeoutSecs, nowUnix) }, [])
  | .cleanupRun tid =>
    match s.cleanups.get tid with
    | none => none
    | some (idleTimeoutSecs, nowUnix) =>
      let (core, deleted) := deleteStaleLobbyRooms s.core idleTimeoutSecs nowUnix
      some ({ s with core := core, cleanups := s.cleanups.remove tid },
        deleted.map .roomRemoved)
  | .recv tid addr packet => stepRecv s tid addr packet
  | .join tid ch => stepJoin s tid ch
  | .param tid ch => stepParam s tid ch
  | .cast cid ch => stepCast s cid ch
  | .relay tid ch => stepRelay s tid ch
  | .drainStart order => drainStart s order
  | .drainStep sendOk => drainStep s sendOk

/-- The realtime server, from an empty state under any public URL. -/
def server : Machine Sys Action Event where
  init s := ∃ url, s = Sys.init url
  step := step

/-- A run of the server, by evaluation. -/
theorem reach_of_actions (G : Sys → Action → Prop) [∀ s a, Decidable (G s a)]
    (as : List Action) (p : Sys → List Event → Bool)
    (h : (server.exec G (Sys.init "") as).any (fun r => p r.1 r.2) = true) :
    ∃ s tr, server.Reach G s tr ∧ p s tr = true :=
  Machine.reach_of_exec ⟨"", rfl⟩ h

end Kotatsu
