import Kotatsu.ClientWire
import Kotatsu.Gateway

/-
  The test client and the server (`test-client/main.rs`)

  A client joins, asks for two changes if it is the one that is to, sends its positions and
  takes what its reader hands over; the reader counts the datagrams itself. The client is
  modelled by its next step, with its sleeps left out: any number of steps of anything else
  may come between two of its own.

  `World` is the server, the clients and the network between them. A packet that was sent
  may arrive at any time, any number of times, or never. Strangers may send the server
  anything, but not from the address of a client: its socket has a port of its own, and is
  connected to the server. Every join response is used by one client; nothing keeps a
  stranger from presenting its token.

  Correspondence:
    `run_one_client`               ↔ `Client`, `stepSend`, `Client.answer`, `stepTryRecv`
    the reader of `run_one_client` ↔ `Reader`, `Client.read`, `stepHandOver`
    `main`                         ↔ `WorldAction.start`, `verdict`
-/

namespace Kotatsu.TestClient

/-! ## Clients -/

/-- `JoinMatchRes`, by the fields that the client reads. -/
structure JoinMatchRes where
  playerId : String
  token : String
  udpUrl : String
  deriving DecidableEq, Repr

structure ClientStats where
  paramAppliedCount : Nat := 0
  datagramCount : Nat := 0
  datagramFromPlayers : List String := []
  joinParams : Option PlayerParams := none
  observedParamState : Option PlayerParams := none
  cooldownErrorSeen : Bool := false
  nextParamChangeAtUnix : Option Nat := none
  deriving DecidableEq, Repr

/-- `ClientStats::default()`. -/
def ClientStats.default : ClientStats := {}

/-- The statistics of all clients, by player. -/
abbrev Stats := HashMap String ClientStats

/-- The entry of a player, or a new one, after an update. -/
def Stats.update (stats : Stats) (playerId : String) (f : ClientStats → ClientStats) : Stats :=
  stats.insert playerId (f ((stats.get playerId).getD .default))

/-- What `run_one_client` fails with; the text of a failed send or receive is the system's. -/
inductive ClientError where
  | unexpectedPlayerId (expected got : String)
  | joinFailed (code message : String)
  | socket (text : String)
  deriving DecidableEq, Repr

/-- A client, by what comes next. -/
inductive ClientTask where
  | join
  /-- The loop that waits for the answer. -/
  | joining
  | change (seq : Nat)
  | tick (seq : Nat)
  /-- The loop on `try_recv` after a tick. -/
  | drain (seq : Nat)
  | lastDrain
  | linger
  | done
  | failed (error : ClientError)
  deriving DecidableEq, Repr

/-- The reader of a client; `off` until it is spawned. -/
inductive Reader where
  | off
  | receiving
  /-- Before `reliable_tx.send`. -/
  | handing (msg : ServerReliable)
  | ended
  deriving DecidableEq, Repr

/-- The capacity of the channel between the reader and its client. -/
def handOverCapacity : Nat := 1024

structure Client where
  join : JoinMatchRes
  triggerParamUpdate : Bool
  ticks : Nat
  task : ClientTask
  reader : Reader
  /-- The channel behind `reliable_rx`. -/
  queue : List ServerReliable
  deriving DecidableEq, Repr

/-- `run_one_client`, before its first packet. -/
def Client.new (join : JoinMatchRes) (triggerParamUpdate : Bool) (ticks : Nat) : Client :=
  { join := join
    triggerParamUpdate := triggerParamUpdate
    ticks := ticks
    task := .join
    reader := .off
    queue := [] }

/-- `run_one_client` has returned. -/
def ClientTask.over : ClientTask → Bool
  | .done | .failed _ => true
  | _ => false

/-- The loop over `1..=ticks`, before `seq`. -/
def nextTick (ticks seq : Nat) : ClientTask := if seq ≤ ticks then .tick seq else .lastDrain

/-! ### Sending -/

/-- The packet that comes next. -/
def Client.packet (text : F32 → Number) (c : Client) : Option UdpPacket :=
  match c.task with
  | .join => some (encodePacket pktReliable (writeClientReliable (.join c.join.token)))
  | .change seq =>
    some (encodePacket pktReliable (writeClientReliable (.paramChange seq .gravity .increase)))
  | .tick seq => some (tickPacket text seq)
  | _ => none

/-- What comes after it. -/
def Client.sent (c : Client) : ClientTask :=
  match c.task with
  | .join => .joining
  | .change seq => if seq = 1 then .change 2 else nextTick c.ticks 1
  | .tick seq => .drain seq
  | task => task

/-- A send, or the error that it fails with. -/
def stepSend (text : F32 → Number) (c : Client) (error : Option String) :
    Option (Client × List UdpPacket) :=
  match c.packet text, error with
  | none, _ => none
  | some packet, none => some ({ c with task := c.sent }, [packet])
  -- the `?` after every send
  | some _, some e => some ({ c with task := .failed (.socket e) }, [])

/-! ### Receiving -/

/-- The loop that waits for the answer to the join. -/
def Client.answer (c : Client) (stats : Stats) : Option ServerReliable → Client × Stats
  | some (.joinOk _ playerId params _) =>
    if playerId = c.join.playerId then
      ({ c with
          task := if c.triggerParamUpdate then .change 1 else nextTick c.ticks 1
          reader := .receiving },
        stats.update c.join.playerId fun st => { st with joinParams := some params })
    else ({ c with task := .failed (.unexpectedPlayerId c.join.playerId playerId) }, stats)
  | some (.error code message) => ({ c with task := .failed (.joinFailed code message) }, stats)
  | some (.matchStarted ..) | some (.paramApplied ..) | none => (c, stats)

/-- The player whose datagram it is. -/
def playerOf : ServerDatagram → String
  | .pos playerId .. | .stageProgress playerId .. => playerId

def ClientStats.countDatagram (playerId : String) (st : ClientStats) : ClientStats :=
  { st with
    datagramCount := st.datagramCount + 1
    datagramFromPlayers := st.datagramFromPlayers.insert playerId }

/-- The reader, from a packet to its next one or to the hand over. -/
def Client.read (c : Client) (stats : Stats) (packet : UdpPacket) : Client × Stats :=
  match parseReliable packet with
  | some msg => ({ c with reader := .handing msg }, stats)
  | none =>
    match parseDatagram packet with
    | some out => (c, stats.update c.join.playerId (·.countDatagram (playerOf out)))
    | none => (c, stats)

/-- A packet goes to whoever waits for one. -/
def stepRecv (c : Client) (stats : Stats) (packet : UdpPacket) : Option (Client × Stats) :=
  -- there is no reader before the answer
  if c.task = .joining then some (c.answer stats (parseReliable packet))
  else if c.reader = .receiving then some (c.read stats packet)
  else none

/-- A receive that fails. It ends the reader, as does the abort at the end of the client. -/
def stepRecvError (c : Client) (e : String) : Option Client :=
  if c.task = .joining then some { c with task := .failed (.socket e) }
  else if c.reader = .receiving then some { c with reader := .ended }
  else none

/-- The hand over waits while the channel is full, and fails when the client has returned. -/
def stepHandOver (c : Client) : Option Client :=
  match c.reader with
  | .handing msg =>
    if c.task.over then some { c with reader := .ended }
    else if c.queue.length < handOverCapacity then
      some { c with reader := .receiving, queue := c.queue ++ [msg] }
    else none
  | _ => none

/-! ### Taking -/

/-- `s.starts_with(pre)`. -/
def startsWith (s pre : String) : Bool := pre.toList.isPrefixOf s.toList

def ClientStats.countApplied (own : Bool) (params : PlayerParams) (next : Nat)
    (st : ClientStats) : ClientStats :=
  { st with
    paramAppliedCount := st.paramAppliedCount + 1
    observedParamState := if own then some params else st.observedParamState
    nextParamChangeAtUnix := if own then some next else st.nextParamChangeAtUnix }

/-- The arms of the loops on `try_recv`. -/
def Client.hear (c : Client) (stats : Stats) : ServerReliable → Stats
  | .paramApplied fromPlayerId _ params next _ =>
    stats.update c.join.playerId (·.countApplied (fromPlayerId == c.join.playerId) params next)
  | .error code message =>
    if c.triggerParamUpdate && code == "param_update_failed" &&
        startsWith message "cooldown_active:" then
      stats.update c.join.playerId fun st => { st with cooldownErrorSeen := true }
    else stats
  | .joinOk .. | .matchStarted .. => stats

/-- The loops on `try_recv`, and what comes after them. -/
def ClientTask.drained (ticks : Nat) : ClientTask → Option ClientTask
  | .drain seq => some (nextTick ticks (seq + 1))
  | .lastDrain => some .linger
  | _ => none

def stepTryRecv (c : Client) (stats : Stats) : Option (Client × Stats) :=
  match c.task.drained c.ticks, c.queue with
  | none, _ => none
  | some next, [] => some ({ c with task := next }, stats)
  | some _, msg :: queue => some ({ c with queue := queue }, c.hear stats msg)

/-- The end of the last sleep; the reader is told to stop. -/
def stepWake (c : Client) : Option Client :=
  if c.task = .linger then some { c with task := .done } else none

/-! ### A step -/

inductive ClientAction where
  | send (error : Option String)
  | recv (packet : UdpPacket)
  | recvError (error : String)
  | handOver
  | tryRecv
  | wake

/-- The client and the statistics after the step, and what it sends. -/
def stepClient (text : F32 → Number) (c : Client) (stats : Stats) :
    ClientAction → Option (Client × Stats × List UdpPacket)
  | .send error => (stepSend text c error).map fun r => (r.1, stats, r.2)
  | .recv packet => (stepRecv c stats packet).map fun r => (r.1, r.2, [])
  | .recvError e => (stepRecvError c e).map fun c => (c, stats, [])
  | .handOver => (stepHandOver c).map fun c => (c, stats, [])
  | .tryRecv => (stepTryRecv c stats).map fun r => (r.1, r.2, [])
  | .wake => (stepWake c).map fun c => (c, stats, [])

/-! ## The world -/

structure World where
  sys : Sys
  clients : HashMap SocketAddr Client
  stats : Stats
  /-- Join responses that no client has been started with. -/
  joins : List JoinMatchRes
  /-- What clients have sent, with their addresses. -/
  toServer : List (SocketAddr × UdpPacket)
  /-- What the server has sent, with where to. -/
  toClients : List (SocketAddr × UdpPacket)
  /-- The addresses that strangers have sent from. -/
  strangers : List SocketAddr

def World.init (udpPublicUrl : String) : World :=
  { sys := Sys.init udpPublicUrl
    clients := ∅, stats := ∅
    joins := [], toServer := [], toClients := [], strangers := [] }

inductive WorldAction where
  /-- A step of the server that receives no packet. -/
  | server (a : Action)
  /-- The server receives the client packet with this index. -/
  | arrive (tid i : Nat)
  | stranger (tid : Nat) (addr : SocketAddr) (packet : Packet)
  | start (addr : SocketAddr) (join : JoinMatchRes) (triggerParamUpdate : Bool) (ticks : Nat)
  /-- The addressee receives the server packet with this index. -/
  | deliver (i : Nat)
  | client (addr : SocketAddr) (a : ClientAction)

/-- The join response that a ticket is returned in. -/
def joinOf : Event → Option JoinMatchRes
  | .ticketIssued _ resp _ =>
    some { playerId := resp.playerId, token := resp.token, udpUrl := resp.udpUrl }
  | _ => none

/-- The packet that an event sends. -/
def packetTo (text : F32 → Number) : Event → Option (SocketAddr × UdpPacket)
  | .sentReliable addr msg => some (addr, reliableDatagram msg)
  | .sentDatagram addr out => some (addr, datagramPacket text out)
  | _ => none

def receives : Action → Bool
  | .recv .. => true
  | _ => false

/-- The world after a step of the server. -/
def World.served (text : F32 → Number) (w : World) (sys : Sys) (evs : List Event) : World :=
  { w with
    sys := sys
    joins := w.joins ++ evs.filterMap joinOf
    toClients := w.toClients ++ evs.filterMap (packetTo text) }

def serve (text : F32 → Number) (w : World) (a : Action) : Option (World × Log) :=
  (server.step w.sys a).map fun r =>
    (w.served text r.1 r.2, [{ before := w.sys, action := a, events := r.2, after := r.1 }])

/-- The world after a step of the client at `addr`. -/
def World.moved (w : World) (addr : SocketAddr) (c : Client) (stats : Stats)
    (sent : List UdpPacket) : World :=
  { w with
    clients := w.clients.insert addr c
    stats := stats
    toServer := w.toServer ++ sent.map (addr, ·) }

def move (text : F32 → Number) (w : World) (addr : SocketAddr) (a : ClientAction) :
    Option (World × Log) := do
  let c ← w.clients.get addr
  let (c, stats, sent) ← stepClient text c w.stats a
  some (w.moved addr c stats sent, [])

def stepWorld (text : F32 → Number) (w : World) : WorldAction → Option (World × Log)
  | .server a => if receives a then none else serve text w a
  | .arrive tid i => do
    -- the packet stays, and may arrive again
    let (addr, packet) ← w.toServer[i]?
    serve text w (.recv tid addr (readPacket packet))
  | .stranger tid addr packet =>
    if w.clients.contains addr then none
    else serve text { w with strangers := addr :: w.strangers } (.recv tid addr packet)
  | .start addr join triggerParamUpdate ticks =>
    if w.clients.contains addr ∨ addr ∈ w.strangers ∨ join ∉ w.joins then none
    else
      some ({ w with
          clients := w.clients.insert addr (.new join triggerParamUpdate ticks)
          joins := w.joins.erase join }, [])
  | .deliver i => do
    let (addr, packet) ← w.toClients[i]?
    move text w addr (.recv packet)
  | .client addr a =>
    match a with
    -- packets come by `deliver`
    | .recv _ => none
    | _ => move text w addr a

/-- The server in its world, from nothing under any public URL. -/
def world (text : F32 → Number) : Machine World WorldAction (Moment Sys Action Event) where
  init w := ∃ url, w = World.init url
  step := stepWorld text

/-! ## The verdict of `main` -/

/-- What `main` fails with once its clients have returned. -/
inductive Failure where
  | clientCount (got : Nat)
  | missingJoinParams (playerId : String)
  | wrongDefaults (playerId : String) (params : PlayerParams)
  | noParamApplied (playerId : String)
  | tooFewPlayers (playerId : String) (count : Nat)
  | missingTrigger
  | noCooldownRejection
  | missingObserved
  | wrongObserved (params : PlayerParams)
  | missingCooldown
  | missingRoomPlayer
  | roomMismatch (gravity friction speed : Nat)
  | roomMissingCooldown
  deriving DecidableEq, Repr

/-- The body of the loop over the statistics. -/
def checkClient (playerId : String) (st : ClientStats) : Except Failure Unit :=
  match st.joinParams with
  | none => .error (.missingJoinParams playerId)
  | some params =>
    if params.gravity ≠ 2 ∨ params.friction ≠ 2 ∨ params.speed ≠ 2 then
      .error (.wrongDefaults playerId params)
    else if st.paramAppliedCount = 0 then .error (.noParamApplied playerId)
    else if st.datagramFromPlayers.length < 2 then
      .error (.tooFewPlayers playerId st.datagramFromPlayers.length)
    else .ok ()

def checkClients : List (String × ClientStats) → Except Failure Unit
  | [] => .ok ()
  | (playerId, st) :: rest => do
    checkClient playerId st
    checkClients rest

def checkTrigger (st : ClientStats) : Except Failure Unit :=
  if st.cooldownErrorSeen = false then .error .noCooldownRejection
  else
    match st.observedParamState with
    | none => .error .missingObserved
    | some params =>
      if params.gravity ≠ 3 ∨ params.friction ≠ 2 ∨ params.speed ≠ 2 then
        .error (.wrongObserved params)
      else if st.nextParamChangeAtUnix.getD 0 = 0 then .error .missingCooldown
      else .ok ()

def checkRoom (trigger : String) (players : List RoomPlayerRes) : Except Failure Unit :=
  match players.find? (·.playerId == trigger) with
  | none => .error .missingRoomPlayer
  | some p =>
    if p.gravity ≠ 3 ∨ p.friction ≠ 2 ∨ p.speed ≠ 2 then
      .error (.roomMismatch p.gravity p.friction p.speed)
    else if p.nextParamChangeAtUnix = 0 then .error .roomMissingCooldown
    else .ok ()

/-- The checks of `main`, on the statistics in some order of iteration and on the players of
the room. -/
def verdict (stats : Stats) (order : List (String × ClientStats)) (trigger : String)
    (players : List RoomPlayerRes) : Except Failure Unit :=
  if stats.len ≠ 4 then .error (.clientCount stats.len)
  else do
    checkClients order
    match stats.get trigger with
    | none => .error .missingTrigger
    | some st =>
      checkTrigger st
      checkRoom trigger players

/-! ## What a step can do -/

/-- What the network brings to a client: the answer to its join, a datagram that its reader
counts, or a message that its reader hands over. -/
inductive Arrival where
  | answer (params : PlayerParams)
  | datagram (playerId : String)
  | message (msg : ServerReliable)
  deriving DecidableEq, Repr

/-- A message that answers the join of the player. -/
def answerFor (playerId : String) : ServerReliable → Option Arrival
  | .joinOk _ p params _ => if p = playerId then some (.answer params) else none
  | _ => none

/-- What the packet brings, if anybody waits for it. -/
def Client.arrival (c : Client) (packet : UdpPacket) : Option Arrival :=
  if c.task = .joining then (parseReliable packet).bind (answerFor c.join.playerId)
  else if c.reader = .receiving then
    match parseReliable packet with
    | some msg => some (.message msg)
    | none => (parseDatagram packet).map fun out => .datagram (playerOf out)
  else none

/-- A step of a client. -/
inductive ClientStep (text : F32 → Number) (c : Client) (stats : Stats) :
    ClientAction → Client → Stats → List UdpPacket → Prop
  | sent {packet : UdpPacket} (hp : c.packet text = some packet) :
      ClientStep text c stats (.send none) { c with task := c.sent } stats [packet]
  | sendFailed {packet : UdpPacket} {e : String} (hp : c.packet text = some packet) :
      ClientStep text c stats (.send (some e)) { c with task := .failed (.socket e) } stats []
  | joined {packet : UdpPacket} {m : String} {params : PlayerParams} {ms : Nat}
      (ht : c.task = .joining)
      (hm : parseReliable packet = some (.joinOk m c.join.playerId params ms)) :
      ClientStep text c stats (.recv packet)
        { c with
          task := if c.triggerParamUpdate then .change 1 else nextTick c.ticks 1
          reader := .receiving }
        (stats.update c.join.playerId fun st => { st with joinParams := some params }) []
  | joinedOther {packet : UdpPacket} {m p : String} {params : PlayerParams} {ms : Nat}
      (ht : c.task = .joining) (hm : parseReliable packet = some (.joinOk m p params ms))
      (hne : p ≠ c.join.playerId) :
      ClientStep text c stats (.recv packet)
        { c with task := .failed (.unexpectedPlayerId c.join.playerId p) } stats []
  | refused {packet : UdpPacket} {code message : String} (ht : c.task = .joining)
      (hm : parseReliable packet = some (.error code message)) :
      ClientStep text c stats (.recv packet) { c with task := .failed (.joinFailed code message) }
        stats []
  | read {packet : UdpPacket} {msg : ServerReliable} (ht : c.task ≠ .joining)
      (hr : c.reader = .receiving) (hm : parseReliable packet = some msg) :
      ClientStep text c stats (.recv packet) { c with reader := .handing msg } stats []
  | counted {packet : UdpPacket} {out : ServerDatagram} (ht : c.task ≠ .joining)
      (hr : c.reader = .receiving) (hm : parseReliable packet = none)
      (hd : parseDatagram packet = some out) :
      ClientStep text c stats (.recv packet) c
        (stats.update c.join.playerId (·.countDatagram (playerOf out))) []
  /-- A packet that is not waited for. -/
  | ignored {packet : UdpPacket} (hn : c.arrival packet = none) :
      ClientStep text c stats (.recv packet) c stats []
  | recvFailed {e : String} (ht : c.task = .joining) :
      ClientStep text c stats (.recvError e) { c with task := .failed (.socket e) } stats []
  | readerEnded {e : String} (hr : c.reader = .receiving) :
      ClientStep text c stats (.recvError e) { c with reader := .ended } stats []
  /-- The client has returned. -/
  | handOverFailed {msg : ServerReliable} (hr : c.reader = .handing msg) :
      ClientStep text c stats .handOver { c with reader := .ended } stats []
  | handed {msg : ServerReliable} (hr : c.reader = .handing msg) :
      ClientStep text c stats .handOver
        { c with reader := .receiving, queue := c.queue ++ [msg] } stats []
  | drained {next : ClientTask} (hd : c.task.drained c.ticks = some next) :
      ClientStep text c stats .tryRecv { c with task := next } stats []
  | took {next : ClientTask} {msg : ServerReliable} {queue : List ServerReliable}
      (hd : c.task.drained c.ticks = some next) (hq : c.queue = msg :: queue) :
      ClientStep text c stats .tryRecv { c with queue := queue } (c.hear stats msg) []
  | woke (ht : c.task = .linger) :
      ClientStep text c stats .wake { c with task := .done } stats []

theorem stepSend_spec {text : F32 → Number} {c c' : Client} {stats : Stats} {error : Option String}
    {sent : List UdpPacket} (h : stepSend text c error = some (c', sent)) :
    ClientStep text c stats (.send error) c' stats sent := by
  unfold stepSend at h
  split at h
  · cases h
  · next packet hp =>
    cases h
    exact .sent hp
  · next packet e hp =>
    cases h
    exact .sendFailed hp

theorem stepRecv_spec {text : F32 → Number} {c c' : Client} {stats stats' : Stats}
    {packet : UdpPacket} (h : stepRecv c stats packet = some (c', stats')) :
    ClientStep text c stats (.recv packet) c' stats' [] := by
  unfold stepRecv at h
  split at h
  · next ht =>
    have hbrings : c.arrival packet = (parseReliable packet).bind (answerFor c.join.playerId) :=
      if_pos ht
    cases hm : parseReliable packet with
    | none =>
      rw [hm] at h hbrings
      cases h
      exact .ignored hbrings
    | some msg =>
      rw [hm] at h hbrings
      cases msg with
      | joinOk m p params ms =>
        unfold Client.answer at h
        dsimp only at h
        split at h
        · next hp =>
          cases h
          exact .joined ht (hp ▸ hm)
        · next hp =>
          cases h
          exact .joinedOther ht hm hp
      | error code message =>
        cases h
        exact .refused ht hm
      | matchStarted _ _ _ | paramApplied _ _ _ _ _ =>
        cases h
        exact .ignored hbrings
  · next ht =>
    split at h
    · next hr =>
      unfold Client.read at h
      split at h
      · next msg hm =>
        cases h
        exact .read ht hr hm
      · next hm =>
        split at h
        · next out hd =>
          cases h
          exact .counted ht hr hm hd
        · next hd =>
          cases h
          refine .ignored ?_
          rw [Client.arrival, if_neg ht, if_pos hr, hm, hd]
          rfl
    · cases h

theorem stepTryRecv_spec {text : F32 → Number} {c c' : Client} {stats stats' : Stats}
    (h : stepTryRecv c stats = some (c', stats')) :
    ClientStep text c stats .tryRecv c' stats' [] := by
  unfold stepTryRecv at h
  split at h
  · cases h
  · next hd hq =>
    cases h
    exact .drained hd
  · next hd hq =>
    cases h
    exact .took hd hq

theorem stepClient_spec {text : F32 → Number} {c c' : Client} {stats stats' : Stats}
    {a : ClientAction} {sent : List UdpPacket}
    (h : stepClient text c stats a = some (c', stats', sent)) :
    ClientStep text c stats a c' stats' sent := by
  cases a with
  | send error =>
    obtain ⟨⟨c₁, sent₁⟩, hs, heq⟩ := Option.map_eq_some_iff.mp h
    cases heq
    exact stepSend_spec hs
  | recv packet =>
    obtain ⟨⟨c₁, stats₁⟩, hs, heq⟩ := Option.map_eq_some_iff.mp h
    cases heq
    exact stepRecv_spec hs
  | recvError e =>
    obtain ⟨c₁, hs, heq⟩ := Option.map_eq_some_iff.mp h
    cases heq
    unfold stepRecvError at hs
    split at hs
    · next ht =>
      cases hs
      exact .recvFailed ht
    · split at hs
      · next hr =>
        cases hs
        exact .readerEnded hr
      · cases hs
  | handOver =>
    obtain ⟨c₁, hs, heq⟩ := Option.map_eq_some_iff.mp h
    cases heq
    unfold stepHandOver at hs
    split at hs
    · next msg hr =>
      split at hs
      · cases hs
        exact .handOverFailed hr
      · split at hs
        · cases hs
          exact .handed hr
        · cases hs
    · cases hs
  | tryRecv =>
    obtain ⟨⟨c₁, stats₁⟩, hs, heq⟩ := Option.map_eq_some_iff.mp h
    cases heq
    exact stepTryRecv_spec hs
  | wake =>
    obtain ⟨c₁, hs, heq⟩ := Option.map_eq_some_iff.mp h
    cases heq
    unfold stepWake at hs
    split at hs
    · next ht =>
      cases hs
      exact .woke ht
    · cases hs

/-- A step of the world, with the moment of the server that it makes. -/
inductive WorldStep (text : F32 → Number) (w : World) : World → Log → Prop
  | server {a : Action} {sys : Sys} {evs : List Event}
      (hs : Kotatsu.server.step w.sys a = some (sys, evs)) (ha : receives a = false) :
      WorldStep text w (w.served text sys evs) [⟨w.sys, a, evs, sys⟩]
  | arrived {tid : Nat} {addr : SocketAddr} {packet : UdpPacket} {sys : Sys} {evs : List Event}
      (hp : (addr, packet) ∈ w.toServer)
      (hs : Kotatsu.server.step w.sys (.recv tid addr (readPacket packet)) = some (sys, evs)) :
      WorldStep text w (w.served text sys evs)
        [⟨w.sys, .recv tid addr (readPacket packet), evs, sys⟩]
  | stranger {tid : Nat} {addr : SocketAddr} {packet : Packet} {sys : Sys} {evs : List Event}
      (hc : w.clients.get addr = none)
      (hs : Kotatsu.server.step w.sys (.recv tid addr packet) = some (sys, evs)) :
      WorldStep text w
        (World.served text { w with strangers := addr :: w.strangers } sys evs)
        [⟨w.sys, .recv tid addr packet, evs, sys⟩]
  | started {addr : SocketAddr} {join : JoinMatchRes} {triggerParamUpdate : Bool} {ticks : Nat}
      (hc : w.clients.get addr = none) (haddr : addr ∉ w.strangers) (hjoin : join ∈ w.joins) :
      WorldStep text w
        { w with
          clients := w.clients.insert addr (.new join triggerParamUpdate ticks)
          joins := w.joins.erase join } []
  | client {addr : SocketAddr} {a : ClientAction} {c c' : Client} {stats : Stats}
      {sent : List UdpPacket} (hc : w.clients.get addr = some c)
      (ha : ∀ packet, a = .recv packet → (addr, packet) ∈ w.toClients)
      (h : ClientStep text c w.stats a c' stats sent) :
      WorldStep text w (w.moved addr c' stats sent) []

theorem serve_spec {text : F32 → Number} {w w' : World} {a : Action} {log : Log}
    (h : serve text w a = some (w', log)) :
    ∃ sys evs, Kotatsu.server.step w.sys a = some (sys, evs) ∧ w' = w.served text sys evs ∧
      log = [⟨w.sys, a, evs, sys⟩] := by
  obtain ⟨⟨sys, evs⟩, hs, heq⟩ := Option.map_eq_some_iff.mp h
  obtain ⟨rfl, rfl⟩ := Prod.mk.inj heq
  exact ⟨sys, evs, hs, rfl, rfl⟩

theorem move_spec {text : F32 → Number} {w w' : World} {addr : SocketAddr} {a : ClientAction}
    {log : Log} (h : move text w addr a = some (w', log))
    (ha : ∀ packet, a = .recv packet → (addr, packet) ∈ w.toClients) : WorldStep text w w' log := by
  obtain ⟨c, hc, h⟩ := Option.bind_eq_some_iff.mp h
  obtain ⟨⟨c', stats, sent⟩, hs, h⟩ := Option.bind_eq_some_iff.mp h
  cases h
  exact .client hc ha (stepClient_spec hs)

theorem stepWorld_spec {text : F32 → Number} {w w' : World} {a : WorldAction} {log : Log}
    (h : stepWorld text w a = some (w', log)) : WorldStep text w w' log := by
  cases a with
  | server a =>
    simp only [stepWorld] at h
    split at h
    · cases h
    · next ha =>
      obtain ⟨sys, evs, hs, rfl, rfl⟩ := serve_spec h
      exact .server hs (by simpa using ha)
  | arrive tid i =>
    obtain ⟨⟨addr, packet⟩, hi, h⟩ := Option.bind_eq_some_iff.mp h
    obtain ⟨sys, evs, hs, rfl, rfl⟩ := serve_spec h
    exact .arrived (List.mem_of_getElem? hi) hs
  | stranger tid addr packet =>
    simp only [stepWorld] at h
    split at h
    · cases h
    · next hc =>
      obtain ⟨sys, evs, hs, rfl, rfl⟩ := serve_spec h
      exact .stranger (HashMap.get_eq_none hc) hs
  | start addr join triggerParamUpdate ticks =>
    simp only [stepWorld] at h
    split at h
    · cases h
    · next hnot =>
      simp only [not_or, not_not] at hnot
      obtain ⟨hc, haddr, hjoin⟩ := hnot
      cases h
      exact .started (HashMap.get_eq_none hc) haddr hjoin
  | deliver i =>
    obtain ⟨⟨addr, packet⟩, hi, h⟩ := Option.bind_eq_some_iff.mp h
    refine move_spec h ?_
    rintro packet' heq
    cases heq
    exact List.mem_of_getElem? hi
  | client addr a =>
    cases a with
    | recv packet => cases h
    | send _ | recvError _ | handOver | tryRecv | wake =>
      exact move_spec h fun _ => ClientAction.noConfusion

/-- The server in the world runs as it does alone. -/
theorem world_serves {text : F32 → Number} {G : World → WorldAction → Prop} {w : World} {log : Log}
    (h : (world text).Reach G w log) : Kotatsu.server.recorded.Reach Machine.anyStep w.sys log := by
  refine Machine.Reach.project World.sys ?_ ?_ h
  · intro w hinit
    obtain ⟨url, rfl⟩ := hinit
    exact ⟨url, rfl⟩
  · intro w a w' log hstep
    cases stepWorld_spec hstep with
    | server hs _ => exact .inr ⟨_, _, hs, rfl⟩
    | arrived _ hs => exact .inr ⟨_, _, hs, rfl⟩
    | stranger _ hs => exact .inr ⟨_, _, hs, rfl⟩
    | started _ _ _ => exact .inl ⟨rfl, rfl⟩
    | client _ _ _ => exact .inl ⟨rfl, rfl⟩

end Kotatsu.TestClient
