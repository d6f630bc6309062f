import Kotatsu.Server

/-
  What a step can do

  One constructor for each way in which a step of the machine succeeds, with the
  guards it passed and the state it leaves. `step_spec` says that there is no
  other way; every invariant is a case analysis on it, and no later proof opens
  a step function.
-/

namespace Kotatsu

/-- A step of a `handle_join` task. -/
inductive JoinStep (s : Sys) (tid : Nat) : Sys → List Event → Prop
  | alreadyJoined {addr : SocketAddr} {token : String} {session : ClientSession}
      (ht : s.joins.get tid = some (.check addr token)) (hc : s.clients.get addr = some session)
      (hd : s.drain = none) :
      JoinStep s tid { s with joins := s.joins.remove tid } []
  | checked {addr : SocketAddr} {token : String}
      (ht : s.joins.get tid = some (.check addr token)) (hc : s.clients.get addr = none)
      (hd : s.drain = none) :
      JoinStep s tid { s with joins := s.joins.insert tid (.consume addr token) } []
  | unknownToken {addr : SocketAddr} {token : String} {now : Nat}
      (ht : s.joins.get tid = some (.consume addr token)) (hk : s.core.tickets.get token = none) :
      JoinStep s tid
        { s with joins := s.joins.insert tid (.sendError addr "auth_failed" "invalid_token" none) }
        [.ticketPresented token now (.error "invalid_token")]
  | expired {addr : SocketAddr} {token : String} {now : Nat} {t : Ticket}
      (ht : s.joins.get tid = some (.consume addr token)) (hk : s.core.tickets.get token = some t)
      (hx : t.expiresAtUnix < now) :
      JoinStep s tid
        { s with
          core := { s.core with tickets := s.core.tickets.remove token }
          joins := s.joins.insert tid (.sendError addr "auth_failed" "token_expired" none) }
        [.ticketPresented token now (.error "token_expired")]
  | consumed {addr : SocketAddr} {token : String} {now : Nat} {t : Ticket} {tx : ChanId}
      (ht : s.joins.get tid = some (.consume addr token)) (hk : s.core.tickets.get token = some t)
      (hx : now ≤ t.expiresAtUnix) (hf : s.chans.get tx = none) :
      JoinStep s tid
        { s with
          core := { s.core with tickets := s.core.tickets.remove token }
          chans := s.chans.insert tx { queue := [], alive := true }
          joins := s.joins.insert tid (.register addr t.matchId t.playerId t.displayName tx) }
        [.ticketPresented token now (.ok (t.matchId, t.playerId, t.displayName))]
  | registered {addr : SocketAddr} {m p name : String} {room : MatchRoom} {tx : ChanId} {now : Nat}
      (ht : s.joins.get tid = some (.register addr m p name tx))
      (hr : s.core.rooms.get m = some room) (hfull : ¬ room.FullFor p) :
      JoinStep s tid
        { s with
          core := s.core.setRoom m (room.register p name addr tx now)
          joins := s.joins.insert tid (.insert addr m p
            (registeredHandle (room.players.get p) name addr tx).params tx) }
        [.registered m p addr tx]
  | joinRefused {addr : SocketAddr} {m p name e : String} {tx : ChanId}
      (ht : s.joins.get tid = some (.register addr m p name tx))
      (he : (s.core.rooms.get m = none ∧ e = "match_not_found") ∨
        ∃ room, s.core.rooms.get m = some room ∧ room.FullFor p ∧ e = "match_full") :
      JoinStep s tid
        { s with joins := s.joins.insert tid (.sendError addr "join_failed" e (some tx)) }
        [.registerRefused m p e]
  | inserted {addr : SocketAddr} {m p : String} {params : PlayerParams} {tx : ChanId}
      (ht : s.joins.get tid = some (.insert addr m p params tx)) (hd : s.drain = none) :
      JoinStep s tid
        { s with
          clients := s.clients.insert addr
            { matchId := m, playerId := p, addr := addr, tx := tx, rx := tx }
          chans := closeReplaced s.chans (s.clients.get addr)
          joins := s.joins.insert tid (.sendOk addr m p params) } []
  | okSent {addr : SocketAddr} {m p : String} {params : PlayerParams} {nowMs : Nat}
      (ht : s.joins.get tid = some (.sendOk addr m p params)) :
      JoinStep s tid { s with joins := s.joins.remove tid }
        [.sentReliable addr (.joinOk m p params nowMs)]
  | okFailed {addr : SocketAddr} {m p : String} {params : PlayerParams}
      (ht : s.joins.get tid = some (.sendOk addr m p params)) :
      JoinStep s tid { s with joins := s.joins.insert tid (.rollback addr) } []
  | rollbackNone {addr : SocketAddr} (ht : s.joins.get tid = some (.rollback addr))
      (hc : s.clients.get addr = none) (hd : s.drain = none) :
      JoinStep s tid { s with joins := s.joins.remove tid } []
  | rollbackTake {addr : SocketAddr} {session : ClientSession}
      (ht : s.joins.get tid = some (.rollback addr)) (hc : s.clients.get addr = some session)
      (hd : s.drain = none) :
      JoinStep s tid
        { s with
          clients := s.clients.remove addr
          joins := s.joins.insert tid (.remove session) } []
  | removed {session : ClientSession} {room : MatchRoom} {now : Nat}
      (ht : s.joins.get tid = some (.remove session))
      (hr : s.core.rooms.get session.matchId = some room) :
      JoinStep s tid
        { s with
          core := s.core.setRoom session.matchId (room.removePlayer session.playerId now)
          chans := closeRx s.chans session.rx
          joins := s.joins.remove tid }
        [.seatRemoved session.matchId session.playerId]
  | removedNoRoom {session : ClientSession} (ht : s.joins.get tid = some (.remove session))
      (hr : s.core.rooms.get session.matchId = none) :
      JoinStep s tid
        { s with chans := closeRx s.chans session.rx, joins := s.joins.remove tid } []
  | errorSent {addr : SocketAddr} {code message : String} {rx : Option ChanId} {evs : List Event}
      (ht : s.joins.get tid = some (.sendError addr code message rx))
      (he : evs = [.sentReliable addr (.error code message)] ∨ evs = []) :
      JoinStep s tid
        { s with chans := closeHeld s.chans rx, joins := s.joins.remove tid } evs

/-- Why a parameter change is refused. -/
inductive ParamRefusal (core : CoreState) (m p : String) (k : ParamKind) (d : ParamDirection)
    (now : Nat) : String → Prop
  | noRoom (hr : core.rooms.get m = none) : ParamRefusal core m p k d now "match_not_found"
  | noPlayer {room : MatchRoom} (hr : core.rooms.get m = some room)
      (hp : room.players.get p = none) : ParamRefusal core m p k d now "player_not_found"
  | change {room : MatchRoom} {player : PlayerHandle} {e : ParamUpdateError}
      (hr : core.rooms.get m = some room) (hp : room.players.get p = some player)
      (hu : applyParamChange player.params player.nextParamChangeAtUnix k d now = .error e) :
      ParamRefusal core m p k d now e.toText

/-- A step of a `handle_param_change` task. -/
inductive ParamStep (s : Sys) (tid : Nat) : Sys → List Event → Prop
  | notJoined {addr : SocketAddr} {seq : Nat} {k : ParamKind} {d : ParamDirection}
      (ht : s.params.get tid = some (.lookup addr seq k d)) (hc : s.clients.get addr = none)
      (hd : s.drain = none) :
      ParamStep s tid { s with params := s.params.remove tid } []
  | lookedUp {addr : SocketAddr} {seq : Nat} {k : ParamKind} {d : ParamDirection}
      {session : ClientSession}
      (ht : s.params.get tid = some (.lookup addr seq k d))
      (hc : s.clients.get addr = some session) (hd : s.drain = none) :
      ParamStep s tid
        { s with
          params := s.params.insert tid
            (.update session.matchId session.playerId session.tx seq k d) } []
  | refused {m p : String} {tx : ChanId} {seq : Nat} {k : ParamKind} {d : ParamDirection}
      {cid now : Nat} {e : String}
      (ht : s.params.get tid = some (.update m p tx seq k d)) (hf : s.casts.get cid = none)
      (he : ParamRefusal s.core m p k d now e) :
      ParamStep s tid
        { s with
          params := s.params.remove tid
          casts := s.casts.insert cid (.sending [tx] (.error "param_update_failed" e)) }
        [.paramRefused m p k d now e]
  | updated {m p : String} {tx : ChanId} {seq : Nat} {k : ParamKind} {d : ParamDirection}
      {cid now now' nowMs : Nat} {room : MatchRoom} {player : PlayerHandle} {mu : ParamMutation}
      (ht : s.params.get tid = some (.update m p tx seq k d)) (hf : s.casts.get cid = none)
      (hr : s.core.rooms.get m = some room) (hp : room.players.get p = some player)
      (hu : applyParamChange player.params player.nextParamChangeAtUnix k d now = .ok mu) :
      ParamStep s tid
        { s with
          core := s.core.setRoom m (room.setParams p player mu now')
          params := s.params.remove tid
          casts := s.casts.insert cid (.collect m
            (.paramApplied p seq mu.params mu.nextParamChangeAtUnix nowMs)) }
        [.paramUpdated m p k d now mu]

/-- A step of a broadcast. -/
inductive CastStep (s : Sys) (cid : Nat) : Sys → List Event → Prop
  | noRoom {m : String} {msg : ServerReliable} (ht : s.casts.get cid = some (.collect m msg))
      (hr : s.core.rooms.get m = none) :
      CastStep s cid { s with casts := s.casts.remove cid } []
  | collected {m : String} {msg : ServerReliable} {room : MatchRoom} {txs : List ChanId}
      (ht : s.casts.get cid = some (.collect m msg)) (hr : s.core.rooms.get m = some room)
      (hp : txs.Perm (room.players.values.map (·.reliableTx))) :
      CastStep s cid { s with casts := s.casts.insert cid (.sending txs msg) } []
  | done {msg : ServerReliable} (ht : s.casts.get cid = some (.sending [] msg)) :
      CastStep s cid { s with casts := s.casts.remove cid } []
  | sent {tx : ChanId} {txs : List ChanId} {msg : ServerReliable} {chan : Channel}
      (ht : s.casts.get cid = some (.sending (tx :: txs) msg))
      (hc : s.chans.get tx = some chan) (ha : chan.alive = true)
      (hl : chan.queue.length < reliableCapacity) :
      CastStep s cid
        { s with
          chans := s.chans.insert tx { chan with queue := chan.queue ++ [msg] }
          casts := s.casts.insert cid (.sending txs msg) }
        [.enqueued tx msg]
  | lost {tx : ChanId} {txs : List ChanId} {msg : ServerReliable} {chan : Channel}
      (ht : s.casts.get cid = some (.sending (tx :: txs) msg))
      (hc : s.chans.get tx = some chan) (ha : chan.alive = false) :
      CastStep s cid { s with casts := s.casts.insert cid (.sending txs msg) } []

/-- A step of a relayed datagram. -/
inductive RelayStep (s : Sys) (tid : Nat) : Sys → List Event → Prop
  | notJoined {addr : SocketAddr} {msg : ClientDatagram}
      (ht : s.relays.get tid = some (.lookup addr msg)) (hc : s.clients.get addr = none)
      (hd : s.drain = none) :
      RelayStep s tid { s with relays := s.relays.remove tid } []
  | lookedUp {addr : SocketAddr} {msg : ClientDatagram} {session : ClientSession} {nowMs : Nat}
      (ht : s.relays.get tid = some (.lookup addr msg)) (hc : s.clients.get addr = some session)
      (hd : s.drain = none) :
      RelayStep s tid
        { s with
          relays := s.relays.insert tid (.collect session.matchId session.playerId
            (relayOut session.playerId nowMs msg)) } []
  | noRoom {m p : String} {out : ServerDatagram}
      (ht : s.relays.get tid = some (.collect m p out))
      (hr : relayAddrs s.core m p out = none) :
      RelayStep s tid { s with relays := s.relays.remove tid } []
  | collected {m p : String} {out : ServerDatagram} {addrs order : List SocketAddr}
      (ht : s.relays.get tid = some (.collect m p out))
      (hr : relayAddrs s.core m p out = some addrs) (hp : order.Perm addrs) :
      RelayStep s tid { s with relays := s.relays.insert tid (.sending order out) } []
  | done {out : ServerDatagram} (ht : s.relays.get tid = some (.sending [] out)) :
      RelayStep s tid { s with relays := s.relays.remove tid } []
  | sent {addr : SocketAddr} {addrs : List SocketAddr} {out : ServerDatagram} {evs : List Event}
      (ht : s.relays.get tid = some (.sending (addr :: addrs) out))
      (he : evs = [.sentDatagram addr out] ∨ evs = []) :
      RelayStep s tid { s with relays := s.relays.insert tid (.sending addrs out) } evs

/-- A step of the outgoing task. -/
inductive DrainStep (s : Sys) : Sys → List Event → Prop
  | locked {order : List SocketAddr} (hd : s.drain = none) (hp : order.Perm s.clients.keys) :
      DrainStep s { s with drain := some (.take order) } []
  | unlocked (hd : s.drain = some (.take [])) : DrainStep s { s with drain := none } []
  | next {addr : SocketAddr} {rest : List SocketAddr}
      (hd : s.drain = some (.take (addr :: rest))) :
      DrainStep s { s with drain := some (.take rest) } []
  | took {addr : SocketAddr} {rest : List SocketAddr} {session : ClientSession}
      {msg : ServerReliable} {queue : List ServerReliable} {alive : Bool}
      (hd : s.drain = some (.take (addr :: rest))) (hc : s.clients.get addr = some session)
      (hq : s.chans.get session.rx = some { queue := msg :: queue, alive := alive }) :
      DrainStep s
        { s with
          chans := s.chans.insert session.rx { queue := queue, alive := alive }
          drain := some (.send session msg (addr :: rest)) } []
  | sent {session : ClientSession} {msg : ServerReliable} {addrs : List SocketAddr}
      {evs : List Event} (hd : s.drain = some (.send session msg addrs))
      (he : evs = [.sentReliable session.addr msg] ∨ evs = []) :
      DrainStep s { s with drain := some (.take addrs) } evs

/-- The request that an action makes. -/
def Action.call : Action → Option Call
  | .getRoom m => some (.getRoom m)
  | .issueJoinTicket req _ _ _ => some (.issueJoinTicket req)
  | .startRoom m _ _ => some (.startRoom m)
  | .finishRoom m p _ => some (.finishRoom m p)
  | .deleteRoom m => some (.deleteRoom m)
  | _ => none

/-- The room that the request names. -/
def Call.room : Call → String
  | .getRoom m | .startRoom m | .finishRoom m _ | .deleteRoom m => m
  | .issueJoinTicket req => req.matchId

/-- Why a request is refused. -/
inductive CallRefusal (core : CoreState) : Call → Status → Prop
  | noRoom {call : Call} (hr : core.rooms.get call.room = none) :
      CallRefusal core call ⟨.notFound, "match_not_found"⟩
  | full {req : IssueJoinTicketRequest} {room : MatchRoom}
      (hr : core.rooms.get req.matchId = some room) (hl : roomMaxPlayers ≤ room.players.len) :
      CallRefusal core (.issueJoinTicket req) ⟨.failedPrecondition, "match_full"⟩
  | notStarted {m p : String} {room : MatchRoom} (hr : core.rooms.get m = some room)
      (h0 : room.startedAtUnix = 0) :
      CallRefusal core (.finishRoom m p) ⟨.failedPrecondition, "match_not_started"⟩
  | notSeated {m p : String} {room : MatchRoom} (hr : core.rooms.get m = some room)
      (h0 : room.startedAtUnix ≠ 0) (hp : room.players.get p = none) :
      CallRefusal core (.finishRoom m p) ⟨.notFound, "player_not_found"⟩

/-- A request, a cleanup pass or a received packet. -/
inductive ControlStep (s : Sys) : Action → Sys → List Event → Prop
  | created {uuid : String} {now : Nat} (hf : matchIdOf uuid ∉ s.seen) :
      ControlStep s (.createRoom uuid now)
        { s with
          core := s.core.setRoom (matchIdOf uuid) (MatchRoom.new now)
          seen := matchIdOf uuid :: s.seen }
        [.roomCreated { matchId := matchIdOf uuid, maxPlayers := roomMaxPlayers } now]
  | issued {req : IssueJoinTicketRequest} {uuid token : String} {now : Nat} {room : MatchRoom}
      (hp : playerIdOf uuid ∉ s.seen) (ht : token ∉ s.seen) (hne : playerIdOf uuid ≠ token)
      (hr : s.core.rooms.get req.matchId = some room) (hl : room.players.len < roomMaxPlayers) :
      ControlStep s (.issueJoinTicket req uuid token now)
        { s with
          core :=
            { s.core.setRoom req.matchId { room with lastActivityUnix := now } with
              tickets := s.core.tickets.insert token
                { matchId := req.matchId
                  playerId := playerIdOf uuid
                  displayName := normalizeDisplayName req.displayName
                  expiresAtUnix := now + tokenTtlSecs } }
          seen := playerIdOf uuid :: token :: s.seen }
        [.ticketIssued req
          { matchId := req.matchId
            playerId := playerIdOf uuid
            token := token
            tokenExpiresAtUnix := now + tokenTtlSecs
            udpUrl := s.udpPublicUrl } now]
  | started {m : String} {sh : Shuffles} {ch : Choice} {room : MatchRoom}
      (hf : s.casts.get ch.fresh = none) (hr : s.core.rooms.get m = some room)
      (h0 : room.startedAtUnix = 0) :
      ControlStep s (.startRoom m sh ch)
        { s with
          core := s.core.setRoom m (room.start sh ch.nowUnix)
          casts := s.casts.insert ch.fresh (.collect m (.matchStarted m ch.nowUnix
            (snapshotPlayers (room.start sh ch.nowUnix)) ch.nowMs)) }
        [.roomStarted m ch.nowUnix true (snapshotPlayers (room.start sh ch.nowUnix))]
  | startedAgain {m : String} {sh : Shuffles} {ch : Choice} {room : MatchRoom}
      (hr : s.core.rooms.get m = some room) (h0 : room.startedAtUnix ≠ 0) :
      ControlStep s (.startRoom m sh ch) s
        [.roomStarted m room.startedAtUnix false (snapshotPlayers room)]
  | finishedFirst {m p : String} {now : Nat} {room : MatchRoom}
      (hr : s.core.rooms.get m = some room) (h0 : room.startedAtUnix ≠ 0)
      (hp : room.players.contains p = true) (hn : p ∉ room.finishedPlayerIds) :
      ControlStep s (.finishRoom m p now)
        { s with core := s.core.setRoom m (room.finish p now) }
        [.finished
          { matchId := m
            playerId := p
            rank := asU32 (room.finishedPlayerIds.length + 1)
            finishedPlayerCount := asU32 (room.finishedPlayerIds.length + 1)
            totalPlayers := asU32 room.players.len }]
  | finishedAgain {m p : String} {now : Nat} {room : MatchRoom}
      (hr : s.core.rooms.get m = some room) (h0 : room.startedAtUnix ≠ 0)
      (hp : room.players.contains p = true) (hn : p ∈ room.finishedPlayerIds) :
      ControlStep s (.finishRoom m p now) s
        [.finished
          { matchId := m
            playerId := p
            rank := asU32 (room.finishedPlayerIds.idxOf p + 1)
            finishedPlayerCount := asU32 room.finishedPlayerIds.length
            totalPlayers := asU32 room.players.len }]
  | deleted {m : String} {room : MatchRoom} (hr : s.core.rooms.get m = some room) :
      ControlStep s (.deleteRoom m)
        { s with core :=
            { rooms := s.core.rooms.remove m
              tickets := s.core.tickets.retain fun _ ticket => ticket.matchId != m } }
        [.roomRemoved m]
  | listed : ControlStep s .listRooms s [.listed (listRooms s.core)]
  | got {m : String} {room : MatchRoom} (hr : s.core.rooms.get m = some room) :
      ControlStep s (.getRoom m) s [.got (roomSummary m room)]
  | refused {a : Action} {call : Call} {status : Status} (hcall : a.call = some call)
      (h : CallRefusal s.core call status) : ControlStep s a s [.refused call status]
  | ticked {tid timeout now : Nat} (hf : s.cleanups.get tid = none) :
      ControlStep s (.cleanupTick tid timeout now)
        { s with cleanups := s.cleanups.insert tid (timeout, now) } []
  | cleaned {tid timeout now : Nat} (ht : s.cleanups.get tid = some (timeout, now)) :
      ControlStep s (.cleanupRun tid)
        { s with
          core := (deleteStaleLobbyRooms s.core timeout now).1
          cleanups := s.cleanups.remove tid }
        ((deleteStaleLobbyRooms s.core timeout now).2.map .roomRemoved)
  | ignored {tid : Nat} {addr : SocketAddr} {packet : Packet} :
      ControlStep s (.recv tid addr packet) s []
  | joinReceived {tid : Nat} {addr : SocketAddr} {token : String}
      (hf : s.joins.get tid = none) :
      ControlStep s (.recv tid addr (.reliable (.join token)))
        { s with joins := s.joins.insert tid (.check addr token), seen := token :: s.seen } []
  | paramReceived {tid : Nat} {addr : SocketAddr} {seq : Nat} {k : ParamKind}
      {d : ParamDirection} (hf : s.params.get tid = none) :
      ControlStep s (.recv tid addr (.reliable (.paramChange seq k d)))
        { s with params := s.params.insert tid (.lookup addr seq k d) } []
  | datagramReceived {tid : Nat} {addr : SocketAddr} {msg : ClientDatagram}
      (hf : s.relays.get tid = none) :
      ControlStep s (.recv tid addr (.unreliable msg))
        { s with relays := s.relays.insert tid (.lookup addr msg) } []

/-- A step of the machine, by what takes it. -/
inductive Step (s : Sys) : Action → Sys → List Event → Prop
  | control {a : Action} {s' : Sys} {evs : List Event} (h : ControlStep s a s' evs) :
      Step s a s' evs
  | join {tid : Nat} {ch : Choice} {s' : Sys} {evs : List Event} (h : JoinStep s tid s' evs) :
      Step s (.join tid ch) s' evs
  | param {tid : Nat} {ch : Choice} {s' : Sys} {evs : List Event} (h : ParamStep s tid s' evs) :
      Step s (.param tid ch) s' evs
  | cast {cid : Nat} {ch : Choice} {s' : Sys} {evs : List Event} (h : CastStep s cid s' evs) :
      Step s (.cast cid ch) s' evs
  | relay {tid : Nat} {ch : Choice} {s' : Sys} {evs : List Event} (h : RelayStep s tid s' evs) :
      Step s (.relay tid ch) s' evs
  | drain {a : Action} {s' : Sys} {evs : List Event} (h : DrainStep s s' evs) :
      Step s a s' evs

/-! ## There is no other way -/

theorem stepJoin_spec {s s' : Sys} {tid : Nat} {ch : Choice} {evs : List Event}
    (h : stepJoin s tid ch = some (s', evs)) : JoinStep s tid s' evs := by
  unfold stepJoin at h
  split at h
  · cases h
  · next addr token ht =>
    split at h
    · cases h
    · next hd =>
      have hd : s.drain = none := by simpa using hd
      split at h
      · next hc =>
        obtain ⟨session, hc⟩ := HashMap.contains_iff.mp hc
        cases h
        exact .alreadyJoined ht hc hd
      · next hc =>
        cases h
        exact .checked ht (HashMap.get_eq_none hc) hd
  · next addr token ht =>
    unfold consumeTicket at h
    cases hk : s.core.tickets.get token with
    | none =>
      simp only [hk] at h
      cases h
      exact .unknownToken ht hk
    | some t =>
      simp only [hk] at h
      by_cases hx : t.expiresAtUnix < ch.nowUnix
      · simp only [hx, if_true] at h
        cases h
        exact .expired ht hk hx
      · simp only [hx, if_false] at h
        split at h
        · cases h
        · next hf =>
          cases h
          exact .consumed ht hk (by omega) (HashMap.get_eq_none hf)
  · next addr m p name tx ht =>
    unfold registerPlayerUdp at h
    cases hr : s.core.rooms.get m with
    | none =>
      simp only [hr] at h
      cases h
      exact .joinRefused ht (.inl ⟨hr, rfl⟩)
    | some room =>
      simp only [hr] at h
      by_cases hfull : room.FullFor p
      · simp only [hfull, if_true] at h
        cases h
        exact .joinRefused ht (.inr ⟨room, hr, hfull, rfl⟩)
      · simp only [hfull, if_false] at h
        cases h
        exact .registered ht hr hfull
  · next addr m p params tx ht =>
    split at h
    · cases h
    · next hd =>
      cases h
      exact .inserted ht (by simpa using hd)
  · next addr m p params ht =>
    split at h
    · cases h
      exact .okSent ht
    · cases h
      exact .okFailed ht
  · next addr ht =>
    split at h
    · cases h
    · next hd =>
      have hd : s.drain = none := by simpa using hd
      split at h
      · next hc =>
        cases h
        exact .rollbackNone ht hc hd
      · next session hc =>
        cases h
        exact .rollbackTake ht hc hd
  · next session ht =>
    unfold removePlayer at h
    cases hr : s.core.rooms.get session.matchId with
    | none =>
      simp only [hr, HashMap.contains] at h
      cases h
      exact .removedNoRoom ht hr
    | some room =>
      simp only [hr, HashMap.contains] at h
      cases h
      exact .removed ht hr
  · next addr code message rx ht =>
    cases h
    exact .errorSent ht (by cases ch.sendOk <;> simp)

theorem stepParam_spec {s s' : Sys} {tid : Nat} {ch : Choice} {evs : List Event}
    (h : stepParam s tid ch = some (s', evs)) : ParamStep s tid s' evs := by
  unfold stepParam at h
  split at h
  · cases h
  · next addr seq k d ht =>
    split at h
    · cases h
    · next hd =>
      have hd : s.drain = none := by simpa using hd
      split at h
      · next hc => cases h; exact .notJoined ht hc hd
      · next session hc => cases h; exact .lookedUp ht hc hd
  · next m p tx seq k d ht =>
    split at h
    · cases h
    · next hf =>
      have hf : s.casts.get ch.fresh = none := HashMap.get_eq_none hf
      unfold updatePlayerParams at h
      cases hr : s.core.rooms.get m with
      | none => simp only [hr] at h; cases h; exact .refused ht hf (.noRoom hr)
      | some room =>
        cases hp : room.players.get p with
        | none => simp only [hr, hp] at h; cases h; exact .refused ht hf (.noPlayer hr hp)
        | some player =>
          simp only [hr, hp] at h
          cases hu : applyParamChange player.params player.nextParamChangeAtUnix k d ch.nowUnix with
          | error e => simp only [hu] at h; cases h; exact .refused ht hf (.change hr hp hu)
          | ok mu => simp only [hu] at h; cases h; exact .updated ht hf hr hp hu

theorem stepCast_spec {s s' : Sys} {cid : Nat} {ch : Choice} {evs : List Event}
    (h : stepCast s cid ch = some (s', evs)) : CastStep s cid s' evs := by
  unfold stepCast at h
  split at h
  · cases h
  · next m msg ht =>
    unfold reliableSenders at h
    cases hr : s.core.rooms.get m with
    | none => simp only [hr, Option.map_none] at h; cases h; exact .noRoom ht hr
    | some room =>
      simp only [hr, Option.map_some] at h
      split at h
      · next hp => cases h; exact .collected ht hr hp
      · cases h
  · next msg ht => cases h; exact .done ht
  · next tx txs msg ht =>
    split at h
    · cases h
    · next chan hc =>
      split at h
      · next ha =>
        split at h
        · next hl => cases h; exact .sent ht hc ha hl
        · cases h
      · next ha => cases h; exact .lost ht hc (by simpa using ha)

theorem stepRelay_spec {s s' : Sys} {tid : Nat} {ch : Choice} {evs : List Event}
    (h : stepRelay s tid ch = some (s', evs)) : RelayStep s tid s' evs := by
  unfold stepRelay at h
  split at h
  · cases h
  · next addr msg ht =>
    split at h
    · cases h
    · next hd =>
      have hd : s.drain = none := by simpa using hd
      split at h
      · next hc => cases h; exact .notJoined ht hc hd
      · next session hc => cases h; exact .lookedUp ht hc hd
  · next m p out ht =>
    split at h
    · next hr => cases h; exact .noRoom ht hr
    · next addrs hr =>
      split at h
      · next hp => cases h; exact .collected ht hr hp
      · cases h
  · next out ht => cases h; exact .done ht
  · next addr addrs out ht =>
    cases h
    exact .sent ht (by cases ch.sendOk <;> simp)

theorem drainStart_spec {s s' : Sys} {order : List SocketAddr} {evs : List Event}
    (h : drainStart s order = some (s', evs)) : DrainStep s s' evs := by
  unfold drainStart at h
  split at h
  · next hg => cases h; exact .locked hg.1 hg.2
  · cases h

theorem drainStep_spec {s s' : Sys} {sendOk : Bool} {evs : List Event}
    (h : drainStep s sendOk = some (s', evs)) : DrainStep s s' evs := by
  unfold drainStep at h
  split at h
  · cases h
  · next hd => cases h; exact .unlocked hd
  · next addr rest hd =>
    split at h
    · cases h; exact .next hd
    · next session hc =>
      split at h
      · next msg queue alive hq => cases h; exact .took hd hc hq
      · cases h; exact .next hd
  · next session msg addrs hd =>
    cases h
    exact .sent hd (by cases sendOk <;> simp)

theorem stepRecv_spec {s s' : Sys} {tid : Nat} {addr : SocketAddr} {packet : Packet}
    {evs : List Event} (h : stepRecv s tid addr packet = some (s', evs)) :
    ControlStep s (.recv tid addr packet) s' evs := by
  unfold stepRecv at h
  split at h
  · cases h; exact .ignored
  · split at h
    · cases h
    · next hf =>
      cases h
      exact .joinReceived (HashMap.get_eq_none hf)
  · split at h
    · cases h
    · next hf =>
      cases h
      exact .paramReceived (HashMap.get_eq_none hf)
  · split at h
    · cases h
    · next hf =>
      cases h
      exact .datagramReceived (HashMap.get_eq_none hf)

theorem issue_spec {s s' : Sys} {req : IssueJoinTicketRequest} {uuid token : String} {now : Nat}
    {evs : List Event} (h : step s (.issueJoinTicket req uuid token now) = some (s', evs)) :
    ControlStep s (.issueJoinTicket req uuid token now) s' evs := by
  simp only [step] at h
  split at h
  · cases h
  · next hf =>
    simp only [not_or] at hf
    unfold issueJoinTicket at h
    cases hr : s.core.rooms.get req.matchId with
    | none => simp only [hr] at h; cases h; exact .refused rfl (.noRoom hr)
    | some room =>
      simp only [hr] at h
      by_cases hl : roomMaxPlayers ≤ room.players.len
      · simp only [hl, if_true] at h; cases h; exact .refused rfl (.full hr hl)
      · simp only [hl, if_false] at h
        cases h
        exact .issued hf.1 hf.2.1 hf.2.2 hr (Nat.lt_of_not_le hl)

theorem start_spec {s s' : Sys} {m : String} {sh : Shuffles} {ch : Choice} {evs : List Event}
    (h : step s (.startRoom m sh ch) = some (s', evs)) :
    ControlStep s (.startRoom m sh ch) s' evs := by
  simp only [step] at h
  split at h
  · cases h
  · next hf =>
    have hf : s.casts.get ch.fresh = none := HashMap.get_eq_none hf
    unfold startRoom startMatchAndSnapshotPlayers at h
    cases hr : s.core.rooms.get m with
    | none => simp only [hr] at h; cases h; exact .refused rfl (.noRoom hr)
    | some room =>
      simp only [hr] at h
      by_cases h0 : room.startedAtUnix = 0
      · simp only [h0, if_true] at h
        cases h
        exact .started hf hr h0
      · simp only [h0, if_false] at h
        cases h
        exact .startedAgain hr h0

/-- The position that `position` finds. -/
theorem idxOf?_some {x : String} {xs : List String} {i : Nat} (h : xs.idxOf? x = some i) :
    x ∈ xs ∧ xs.idxOf x = i := by
  induction xs generalizing i with
  | nil => cases h
  | cons y ys ih =>
    rw [List.idxOf?_cons] at h
    split at h
    · next hy =>
      have hy : y = x := by simpa using hy
      cases h
      exact ⟨by simp [hy], by simp [hy]⟩
    · next hy =>
      have hy : y ≠ x := by simpa using hy
      obtain ⟨j, hj, rfl⟩ := Option.map_eq_some_iff.mp h
      obtain ⟨hm, rfl⟩ := ih hj
      exact ⟨List.mem_cons_of_mem y hm, List.idxOf_cons_ne ys hy⟩

theorem finish_spec {s s' : Sys} {m p : String} {now : Nat} {evs : List Event}
    (h : step s (.finishRoom m p now) = some (s', evs)) :
    ControlStep s (.finishRoom m p now) s' evs := by
  simp only [step, finishRoom, finishPlayer] at h
  cases hr : s.core.rooms.get m with
  | none => simp only [hr] at h; cases h; exact .refused rfl (.noRoom hr)
  | some room =>
    simp only [hr] at h
    by_cases h0 : room.startedAtUnix = 0
    · simp only [h0, if_true] at h; cases h; exact .refused rfl (.notStarted hr h0)
    · cases hp : room.players.contains p with
      | false =>
        simp only [h0, hp, if_true, if_false] at h
        cases h
        exact .refused rfl (.notSeated hr h0 (HashMap.get_eq_none (by simp [hp])))
      | true =>
        simp only [h0, hp, Bool.true_eq_false, if_false] at h
        cases hi : room.finishedPlayerIds.idxOf? p with
        | none =>
          simp only [hi] at h
          cases h
          have hn : p ∉ room.finishedPlayerIds := List.idxOf?_eq_none_iff.mp hi
          have hs : ControlStep s (.finishRoom m p now) _ _ := .finishedFirst hr h0 hp hn
          simpa [MatchRoom.finish] using hs
        | some i =>
          simp only [hi] at h
          cases h
          obtain ⟨hm, rfl⟩ := idxOf?_some hi
          exact .finishedAgain hr h0 hp hm

theorem delete_spec {s s' : Sys} {m : String} {evs : List Event}
    (h : step s (.deleteRoom m) = some (s', evs)) : ControlStep s (.deleteRoom m) s' evs := by
  simp only [step, deleteRoom] at h
  cases hr : s.core.rooms.get m with
  | none => simp only [hr, HashMap.contains] at h; cases h; exact .refused rfl (.noRoom hr)
  | some room => simp only [hr, HashMap.contains] at h; cases h; exact .deleted hr

/-- A request, a cleanup pass or a received packet. -/
def Action.control : Action → Bool
  | .join .. | .param .. | .cast .. | .relay .. | .drainStart _ | .drainStep _ => false
  | _ => true

theorem control_spec {s s' : Sys} {a : Action} {evs : List Event} (ha : a.control = true)
    (h : server.step s a = some (s', evs)) : ControlStep s a s' evs := by
  change step s a = some (s', evs) at h
  cases a with
  | createRoom uuid now =>
    simp only [step, createRoom] at h
    split at h
    · cases h
    · next hf => cases h; exact .created hf
  | listRooms => cases h; exact .listed
  | getRoom m =>
    simp only [step, getRoom] at h
    cases hr : s.core.rooms.get m with
    | none => simp only [hr] at h; cases h; exact .refused rfl (.noRoom hr)
    | some room => simp only [hr] at h; cases h; exact .got hr
  | issueJoinTicket req uuid token now => exact issue_spec h
  | startRoom m sh ch => exact start_spec h
  | finishRoom m p now => exact finish_spec h
  | deleteRoom m => exact delete_spec h
  | cleanupTick tid timeout now =>
    simp only [step] at h
    split at h
    · cases h
    · next hf =>
      cases h
      exact .ticked (HashMap.get_eq_none hf)
  | cleanupRun tid =>
    simp only [step] at h
    split at h
    · cases h
    · next ht => cases h; exact .cleaned ht
  | recv tid addr packet => exact stepRecv_spec h
  | join _ _ | param _ _ | cast _ _ | relay _ _ | drainStart _ | drainStep _ => cases ha

theorem step_spec {s s' : Sys} {a : Action} {evs : List Event}
    (h : server.step s a = some (s', evs)) : Step s a s' evs := by
  cases a with
  | join tid ch => exact .join (stepJoin_spec h)
  | param tid ch => exact .param (stepParam_spec h)
  | cast cid ch => exact .cast (stepCast_spec h)
  | relay tid ch => exact .relay (stepRelay_spec h)
  | drainStart order => exact .drain (drainStart_spec h)
  | drainStep sendOk => exact .drain (drainStep_spec h)
  | _ => exact .control (control_spec rfl h)

/-! ## What the relay and the outgoing task leave alone -/

theorem relay_quiet {s s' : Sys} {tid : Nat} {evs : List Event} (h : RelayStep s tid s' evs) :
    s' = { s with relays := s'.relays } ∧ ∀ e ∈ evs, ∃ addr out, e = .sentDatagram addr out := by
  cases h with
  | sent _ he => exact ⟨rfl, by rcases he with rfl | rfl <;> simp⟩
  | notJoined _ _ | lookedUp _ _ | noRoom _ _ | collected _ _ _ | done _ => exact ⟨rfl, by simp⟩

theorem drain_quiet {s s' : Sys} {evs : List Event} (h : DrainStep s s' evs) :
    s' = { s with chans := s'.chans, drain := s'.drain } ∧
      ∀ e ∈ evs, ∃ addr msg, e = .sentReliable addr msg := by
  cases h with
  | sent _ he => exact ⟨rfl, by rcases he with rfl | rfl <;> simp⟩
  | locked _ _ | unlocked _ | next _ | took _ _ _ => exact ⟨rfl, by simp⟩

/-- Only the outgoing task moves its pass. -/
theorem drain_kept {s s' : Sys} {a : Action} {evs : List Event} (h : Step s a s' evs) :
    s'.drain = s.drain ∨ DrainStep s s' evs := by
  cases h with
  | control h => cases h <;> exact .inl rfl
  | join h => cases h <;> exact .inl rfl
  | param h => cases h <;> exact .inl rfl
  | cast h => cases h <;> exact .inl rfl
  | relay h => rw [(relay_quiet h).1]; exact .inl rfl
  | drain h => exact .inr h

/-- While a pass has the registry, the registry stays as it is. -/
theorem clients_locked {s s' : Sys} {a : Action} {evs : List Event} (h : Step s a s' evs)
    (hd : s.drain ≠ none) : s'.clients = s.clients := by
  cases h with
  | control h => cases h <;> rfl
  | join h =>
    cases h with
    | inserted _ hfree | rollbackTake _ _ hfree => exact absurd hfree hd
    | _ => rfl
  | param h => cases h <;> rfl
  | cast h => cases h <;> rfl
  | relay h => rw [(relay_quiet h).1]
  | drain h => rw [(drain_quiet h).1]

/-! ## Who emits what -/

/-- The part of the server that takes a step. -/
inductive Emitter where
  | control | join | param | cast | relay
  deriving DecidableEq

/-- The one part whose steps emit such an event; `none` for a reliable packet, which
a join and the outgoing task both send. -/
def Event.emitter : Event → Option Emitter
  | .roomCreated .. | .ticketIssued .. | .roomStarted .. | .finished .. | .roomRemoved ..
  | .refused .. | .listed .. | .got .. => some .control
  | .ticketPresented .. | .registered .. | .registerRefused .. | .seatRemoved .. => some .join
  | .paramUpdated .. | .paramRefused .. => some .param
  | .enqueued .. => some .cast
  | .sentDatagram .. => some .relay
  | .sentReliable .. => none

/-- A step of this part. -/
def StepBy (s : Sys) (a : Action) (s' : Sys) (evs : List Event) : Emitter → Prop
  | .control => ControlStep s a s' evs
  | .join => ∃ tid ch, a = .join tid ch ∧ JoinStep s tid s' evs
  | .param => ∃ tid ch, a = .param tid ch ∧ ParamStep s tid s' evs
  | .cast => ∃ cid ch, a = .cast cid ch ∧ CastStep s cid s' evs
  | .relay => ∃ tid ch, a = .relay tid ch ∧ RelayStep s tid s' evs

theorem control_emits {s s' : Sys} {a : Action} {evs : List Event} (h : ControlStep s a s' evs) :
    ∀ e ∈ evs, e.emitter = some .control := by
  cases h with
  | cleaned _ =>
    intro e he
    obtain ⟨m, -, rfl⟩ := List.mem_map.mp he
    rfl
  | _ => simp [Event.emitter]

theorem join_emits {s s' : Sys} {tid : Nat} {evs : List Event} (h : JoinStep s tid s' evs) :
    ∀ e ∈ evs, e.emitter = some .join ∨ e.emitter = none := by
  cases h with
  | errorSent _ he => rcases he with rfl | rfl <;> simp [Event.emitter]
  | _ => simp [Event.emitter]

theorem param_emits {s s' : Sys} {tid : Nat} {evs : List Event} (h : ParamStep s tid s' evs) :
    ∀ e ∈ evs, e.emitter = some .param := by
  cases h <;> simp [Event.emitter]

theorem cast_emits {s s' : Sys} {cid : Nat} {evs : List Event} (h : CastStep s cid s' evs) :
    ∀ e ∈ evs, e.emitter = some .cast := by
  cases h <;> simp [Event.emitter]

/-- An event was emitted by a step of its part. -/
theorem step_emitted {s s' : Sys} {a : Action} {evs : List Event} {w : Emitter}
    (h : Step s a s' evs) {e : Event} (he : e ∈ evs) (hw : e.emitter = some w) :
    StepBy s a s' evs w := by
  cases h with
  | control h =>
    rw [control_emits h e he] at hw
    cases hw
    exact h
  | @join tid ch _ _ h =>
    rcases join_emits h e he with hj | hj
    · rw [hj] at hw
      cases hw
      exact ⟨tid, ch, rfl, h⟩
    · rw [hj] at hw
      cases hw
  | @param tid ch _ _ h =>
    rw [param_emits h e he] at hw
    cases hw
    exact ⟨tid, ch, rfl, h⟩
  | @cast cid ch _ _ h =>
    rw [cast_emits h e he] at hw
    cases hw
    exact ⟨cid, ch, rfl, h⟩
  | @relay tid ch _ _ h =>
    obtain ⟨addr, out, rfl⟩ := (relay_quiet h).2 e he
    cases hw
    exact ⟨tid, ch, rfl, h⟩
  | drain h =>
    obtain ⟨addr, msg, rfl⟩ := (drain_quiet h).2 e he
    cases hw

end Kotatsu
