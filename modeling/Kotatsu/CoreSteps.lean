import Kotatsu.Steps

/-
  What a step does to the core state

  `CoreStep` keeps of a step only its effect on `core`: most steps have none.
  `RoomStep` keeps only the effect on one room. An invariant of the rooms is
  kept by a run if it holds of a new room and each `RoomStep` keeps it
  (`rooms_invariant`).
-/

namespace Kotatsu

/-! ## Cleanup, read through the maps -/

theorem get_foldl_remove {V : Type} (ks : List String) (m : HashMap String V) (k : String) :
    (ks.foldl HashMap.remove m).get k = if k ∈ ks then none else m.get k := by
  induction ks generalizing m with
  | nil => simp
  | cons x xs ih =>
    rw [List.foldl_cons, ih, HashMap.get_remove]
    by_cases hx : k = x <;> by_cases hk : k ∈ xs <;> simp [hx, hk]

theorem mem_deleteStale {core : CoreState} {timeout now : Nat} {m : String} :
    m ∈ (deleteStaleLobbyRooms core timeout now).2 ↔
      ∃ room, core.rooms.get m = some room ∧ room.stale timeout now = true := by
  have h : (deleteStaleLobbyRooms core timeout now).2 =
      (core.rooms.toList.filter fun e => e.2.stale timeout now).map Prod.fst := by
    unfold deleteStaleLobbyRooms
    dsimp only
    split <;> rfl
  rw [h, List.mem_map]
  constructor
  · intro hex
    obtain ⟨⟨m', room⟩, he, rfl⟩ := hex
    obtain ⟨he, hs⟩ := List.mem_filter.mp he
    exact ⟨room, HashMap.mem_toList.mp he, hs⟩
  · intro hex
    obtain ⟨room, hr, hs⟩ := hex
    exact ⟨(m, room), List.mem_filter.mpr ⟨HashMap.mem_toList.mpr hr, hs⟩, rfl⟩

/-- A deleted id is listed once. -/
theorem deleteStale_nodup (core : CoreState) (timeout now : Nat) :
    (deleteStaleLobbyRooms core timeout now).2.Nodup := by
  have h : (deleteStaleLobbyRooms core timeout now).2.Sublist core.rooms.keys := by
    rw [← HashMap.keys_toList]
    unfold deleteStaleLobbyRooms
    dsimp only
    split <;> exact List.filter_sublist.map _
  exact h.nodup core.rooms.keys_nodup

/-- The rooms that a cleanup leaves are those that were not stale. -/
theorem deleteStale_rooms {core : CoreState} {timeout now : Nat} {m : String} {room : MatchRoom} :
    (deleteStaleLobbyRooms core timeout now).1.rooms.get m = some room ↔
      core.rooms.get m = some room ∧ m ∉ (deleteStaleLobbyRooms core timeout now).2 := by
  unfold deleteStaleLobbyRooms
  dsimp only
  split
  · next he => simp [List.isEmpty_iff.mp he]
  · rw [get_foldl_remove]
    split
    · next hm => simp [hm]
    · next hm => simp [hm]

/-- The tickets that a cleanup leaves are those of the rooms it does not delete. -/
theorem deleteStale_tickets {core : CoreState} {timeout now : Nat} {token : String} {t : Ticket} :
    (deleteStaleLobbyRooms core timeout now).1.tickets.get token = some t ↔
      core.tickets.get token = some t ∧
        t.matchId ∉ (deleteStaleLobbyRooms core timeout now).2 := by
  unfold deleteStaleLobbyRooms
  dsimp only
  split
  · next he => simp [List.isEmpty_iff.mp he]
  · rw [HashMap.get_retain_eq_some]
    simp

/-! ## Effects on `core` -/

/-- The event belongs to the history of the core state. -/
def Event.onCore : Event → Bool
  | .registerRefused .. | .paramRefused .. | .refused .. | .listed .. | .got .. | .enqueued ..
  | .sentReliable .. | .sentDatagram .. => false
  | _ => true

/-- A step, by what it does to `core`. -/
inductive CoreStep (s : Sys) : Action → CoreState → List Event → Prop
  | quiet {a : Action} {evs : List Event} (h : ∀ e ∈ evs, e.onCore = false) :
      CoreStep s a s.core evs
  | created {uuid : String} {now : Nat} (hf : matchIdOf uuid ∉ s.seen) :
      CoreStep s (.createRoom uuid now)
        (s.core.setRoom (matchIdOf uuid) (MatchRoom.new now))
        [.roomCreated { matchId := matchIdOf uuid, maxPlayers := roomMaxPlayers } now]
  | issued {req : IssueJoinTicketRequest} {uuid token : String} {now : Nat} {room : MatchRoom}
      (hp : playerIdOf uuid ∉ s.seen) (ht : token ∉ s.seen) (hne : playerIdOf uuid ≠ token)
      (hr : s.core.rooms.get req.matchId = some room) (hl : room.players.len < roomMaxPlayers) :
      CoreStep s (.issueJoinTicket req uuid token now)
        { s.core.setRoom req.matchId { room with lastActivityUnix := now } with
          tickets := s.core.tickets.insert token
            { matchId := req.matchId
              playerId := playerIdOf uuid
              displayName := normalizeDisplayName req.displayName
              expiresAtUnix := now + tokenTtlSecs } }
        [.ticketIssued req
          { matchId := req.matchId
            playerId := playerIdOf uuid
            token := token
            tokenExpiresAtUnix := now + tokenTtlSecs
            udpUrl := s.udpPublicUrl } now]
  | unknownToken {tid : Nat} {ch : Choice} {addr : SocketAddr} {token : String} {now : Nat}
      (ht : s.joins.get tid = some (.consume addr token)) (hk : s.core.tickets.get token = none) :
      CoreStep s (.join tid ch) s.core [.ticketPresented token now (.error "invalid_token")]
  | expired {tid : Nat} {ch : Choice} {addr : SocketAddr} {token : String} {now : Nat} {t : Ticket}
      (ht : s.joins.get tid = some (.consume addr token)) (hk : s.core.tickets.get token = some t)
      (hx : t.expiresAtUnix < now) :
      CoreStep s (.join tid ch) { s.core with tickets := s.core.tickets.remove token }
        [.ticketPresented token now (.error "token_expired")]
  | consumed {tid : Nat} {ch : Choice} {addr : SocketAddr} {token : String} {now : Nat}
      {t : Ticket} (ht : s.joins.get tid = some (.consume addr token))
      (hk : s.core.tickets.get token = some t) (hx : now ≤ t.expiresAtUnix) :
      CoreStep s (.join tid ch) { s.core with tickets := s.core.tickets.remove token }
        [.ticketPresented token now (.ok (t.matchId, t.playerId, t.displayName))]
  | registered {tid : Nat} {ch : Choice} {addr : SocketAddr} {m p name : String} {room : MatchRoom}
      {tx : ChanId} {now : Nat} (ht : s.joins.get tid = some (.register addr m p name tx))
      (hr : s.core.rooms.get m = some room) (hfull : ¬ room.FullFor p) :
      CoreStep s (.join tid ch) (s.core.setRoom m (room.register p name addr tx now))
        [.registered m p addr tx]
  | removed {tid : Nat} {ch : Choice} {session : ClientSession} {room : MatchRoom} {now : Nat}
      (ht : s.joins.get tid = some (.remove session))
      (hr : s.core.rooms.get session.matchId = some room) :
      CoreStep s (.join tid ch)
        (s.core.setRoom session.matchId (room.removePlayer session.playerId now))
        [.seatRemoved session.matchId session.playerId]
  | updated {tid : Nat} {ch : Choice} {m p : String} {tx : ChanId} {seq : Nat} {k : ParamKind}
      {d : ParamDirection} {now now' : Nat} {room : MatchRoom} {player : PlayerHandle}
      {mu : ParamMutation} (ht : s.params.get tid = some (.update m p tx seq k d))
      (hr : s.core.rooms.get m = some room) (hp : room.players.get p = some player)
      (hu : applyParamChange player.params player.nextParamChangeAtUnix k d now = .ok mu) :
      CoreStep s (.param tid ch) (s.core.setRoom m (room.setParams p player mu now'))
        [.paramUpdated m p k d now mu]
  | started {m : String} {sh : Shuffles} {ch : Choice} {room : MatchRoom}
      (hr : s.core.rooms.get m = some room) (h0 : room.startedAtUnix = 0) :
      CoreStep s (.startRoom m sh ch) (s.core.setRoom m (room.start sh ch.nowUnix))
        [.roomStarted m ch.nowUnix true (snapshotPlayers (room.start sh ch.nowUnix))]
  | startedAgain {m : String} {sh : Shuffles} {ch : Choice} {room : MatchRoom}
      (hr : s.core.rooms.get m = some room) (h0 : room.startedAtUnix ≠ 0) :
      CoreStep s (.startRoom m sh ch) s.core
        [.roomStarted m room.startedAtUnix false (snapshotPlayers room)]
  | finishedFirst {m p : String} {now : Nat} {room : MatchRoom}
      (hr : s.core.rooms.get m = some room) (h0 : room.startedAtUnix ≠ 0)
      (hp : room.players.contains p = true) (hn : p ∉ room.finishedPlayerIds) :
      CoreStep s (.finishRoom m p now) (s.core.setRoom m (room.finish p now))
        [.finished
          { matchId := m
            playerId := p
            rank := asU32 (room.finishedPlayerIds.length + 1)
            finishedPlayerCount := asU32 (room.finishedPlayerIds.length + 1)
            totalPlayers := asU32 room.players.len }]
  | finishedAgain {m p : String} {now : Nat} {room : MatchRoom}
      (hr : s.core.rooms.get m = some room) (h0 : room.startedAtUnix ≠ 0)
      (hp : room.players.contains p = true) (hn : p ∈ room.finishedPlayerIds) :
      CoreStep s (.finishRoom m p now) s.core
        [.finished
          { matchId := m
            playerId := p
            rank := asU32 (room.finishedPlayerIds.idxOf p + 1)
            finishedPlayerCount := asU32 room.finishedPlayerIds.length
            totalPlayers := asU32 room.players.len }]
  | deleted {m : String} {room : MatchRoom} (hr : s.core.rooms.get m = some room) :
      CoreStep s (.deleteRoom m)
        { rooms := s.core.rooms.remove m
          tickets := s.core.tickets.retain fun _ ticket => ticket.matchId != m }
        [.roomRemoved m]
  | cleaned {tid timeout now : Nat} (ht : s.cleanups.get tid = some (timeout, now)) :
      CoreStep s (.cleanupRun tid) (deleteStaleLobbyRooms s.core timeout now).1
        ((deleteStaleLobbyRooms s.core timeout now).2.map .roomRemoved)

theorem control_core {s s' : Sys} {a : Action} {evs : List Event} (h : ControlStep s a s' evs) :
    CoreStep s a s'.core evs := by
  cases h with
  | created hf => exact .created hf
  | issued hp ht hne hr hl => exact .issued hp ht hne hr hl
  | started hf hr h0 => exact .started hr h0
  | startedAgain hr h0 => exact .startedAgain hr h0
  | finishedFirst hr h0 hp hn => exact .finishedFirst hr h0 hp hn
  | finishedAgain hr h0 hp hn => exact .finishedAgain hr h0 hp hn
  | deleted hr => exact .deleted hr
  | cleaned ht => exact .cleaned ht
  | listed | got _ | refused => exact .quiet (by simp [Event.onCore])
  | ticked _ | ignored | joinReceived _ | paramReceived _ | datagramReceived _ =>
    exact .quiet (by simp)

theorem join_core {s s' : Sys} {tid : Nat} {ch : Choice} {evs : List Event}
    (h : JoinStep s tid s' evs) : CoreStep s (.join tid ch) s'.core evs := by
  cases h with
  | unknownToken ht hk => exact .unknownToken ht hk
  | expired ht hk hx => exact .expired ht hk hx
  | consumed ht hk hx _ => exact .consumed ht hk hx
  | registered ht hr hfull => exact .registered ht hr hfull
  | removed ht hr => exact .removed ht hr
  | okSent _ | joinRefused _ _ => exact .quiet (by simp [Event.onCore])
  | errorSent _ he => exact .quiet (by rcases he with rfl | rfl <;> simp [Event.onCore])
  | alreadyJoined _ _ | checked _ _ | inserted _ | okFailed _
  | rollbackNone _ _ | rollbackTake _ _ | removedNoRoom _ _ => exact .quiet (by simp)

theorem step_core {s s' : Sys} {a : Action} {evs : List Event} (h : Step s a s' evs) :
    CoreStep s a s'.core evs := by
  cases h with
  | control h => exact control_core h
  | join h => exact join_core h
  | param h =>
    cases h with
    | updated ht hf hr hp hu => exact .updated ht hr hp hu
    | refused _ _ _ => exact .quiet (by simp [Event.onCore])
    | notJoined _ _ | lookedUp _ _ => exact .quiet (by simp)
  | cast h =>
    cases h with
    | sent _ _ _ _ => exact .quiet (by simp [Event.onCore])
    | noRoom _ _ | collected _ _ _ | done _ | lost _ _ _ => exact .quiet (by simp)
  | relay h =>
    obtain ⟨hs, he⟩ := relay_quiet h
    rw [hs]
    exact .quiet fun e h => by obtain ⟨_, _, rfl⟩ := he e h; rfl
  | drain h =>
    obtain ⟨hs, he⟩ := drain_quiet h
    rw [hs]
    exact .quiet fun e h => by obtain ⟨_, _, rfl⟩ := he e h; rfl

/-! ## Effects on one room -/

/-- What a step does to a room that stays, with the events of the step where they
tell. -/
inductive RoomStep (s : Sys) (m : String) (room : MatchRoom) :
    Action → List Event → MatchRoom → Prop
  | same {a : Action} {evs : List Event} : RoomStep s m room a evs room
  | touched {a : Action} {evs : List Event} {now : Nat} :
      RoomStep s m room a evs { room with lastActivityUnix := now }
  | registered {tid : Nat} {ch : Choice} {addr : SocketAddr} {p name : String} {tx : ChanId}
      {now : Nat} (ht : s.joins.get tid = some (.register addr m p name tx))
      (hfull : ¬ room.FullFor p) :
      RoomStep s m room (.join tid ch) [.registered m p addr tx] (room.register p name addr tx now)
  | removed {tid : Nat} {ch : Choice} {session : ClientSession} {now : Nat}
      (ht : s.joins.get tid = some (.remove session)) (hm : session.matchId = m) :
      RoomStep s m room (.join tid ch) [.seatRemoved m session.playerId]
        (room.removePlayer session.playerId now)
  | updated {tid : Nat} {ch : Choice} {p : String} {k : ParamKind} {d : ParamDirection}
      {now now' : Nat} {player : PlayerHandle} {mu : ParamMutation}
      (hp : room.players.get p = some player)
      (hu : applyParamChange player.params player.nextParamChangeAtUnix k d now = .ok mu) :
      RoomStep s m room (.param tid ch) [.paramUpdated m p k d now mu]
        (room.setParams p player mu now')
  | started {sh : Shuffles} {ch : Choice} (h0 : room.startedAtUnix = 0) :
      RoomStep s m room (.startRoom m sh ch)
        [.roomStarted m ch.nowUnix true (snapshotPlayers (room.start sh ch.nowUnix))]
        (room.start sh ch.nowUnix)
  | finished {p : String} {now : Nat} (h0 : room.startedAtUnix ≠ 0)
      (hp : room.players.contains p = true) (hn : p ∉ room.finishedPlayerIds) :
      RoomStep s m room (.finishRoom m p now)
        [.finished
          { matchId := m
            playerId := p
            rank := asU32 (room.finishedPlayerIds.length + 1)
            finishedPlayerCount := asU32 (room.finishedPlayerIds.length + 1)
            totalPlayers := asU32 room.players.len }]
        (room.finish p now)

/-- A written room is the room that the write put there, or it was there before. -/
theorem get_setRoom {core : CoreState} {m m' : String} {room room' : MatchRoom}
    (h : (core.setRoom m room).rooms.get m' = some room') :
    (m' = m ∧ room' = room) ∨ (m' ≠ m ∧ core.rooms.get m' = some room') :=
  HashMap.get_insert_cases h

/-- A room after a step is new, under a new id, or comes from the room of its id by a `RoomStep`. -/
theorem step_room {s : Sys} {a : Action} {core : CoreState} {evs : List Event}
    (h : CoreStep s a core evs) {m : String} {room' : MatchRoom}
    (hr' : core.rooms.get m = some room') :
    (m ∉ s.seen ∧ ∃ now, room' = MatchRoom.new now ∧
        ∃ resp, Event.roomCreated resp now ∈ evs ∧ resp.matchId = m) ∨
      ∃ room, s.core.rooms.get m = some room ∧ RoomStep s m room a evs room' := by
  cases h with
  | quiet _ | unknownToken _ _ | startedAgain _ _ | finishedAgain _ _ _ _ =>
    exact .inr ⟨room', hr', .same⟩
  | expired _ _ _ | consumed _ _ _ => exact .inr ⟨room', hr', .same⟩
  | created hf =>
    rcases get_setRoom hr' with ⟨rfl, rfl⟩ | ⟨-, hr⟩
    · exact .inl ⟨hf, _, rfl, _, List.mem_singleton_self _, rfl⟩
    · exact .inr ⟨room', hr, .same⟩
  | issued _ _ _ hr _ =>
    rcases get_setRoom hr' with ⟨rfl, rfl⟩ | ⟨-, hr⟩
    · exact .inr ⟨_, hr, .touched⟩
    · exact .inr ⟨room', hr, .same⟩
  | registered ht hr hfull =>
    rcases get_setRoom hr' with ⟨rfl, rfl⟩ | ⟨-, hr⟩
    · exact .inr ⟨_, hr, .registered ht hfull⟩
    · exact .inr ⟨room', hr, .same⟩
  | removed ht hr =>
    rcases get_setRoom hr' with ⟨rfl, rfl⟩ | ⟨-, hr⟩
    · exact .inr ⟨_, hr, .removed ht rfl⟩
    · exact .inr ⟨room', hr, .same⟩
  | updated _ hr hp hu =>
    rcases get_setRoom hr' with ⟨rfl, rfl⟩ | ⟨-, hr⟩
    · exact .inr ⟨_, hr, .updated hp hu⟩
    · exact .inr ⟨room', hr, .same⟩
  | started hr h0 =>
    rcases get_setRoom hr' with ⟨rfl, rfl⟩ | ⟨-, hr⟩
    · exact .inr ⟨_, hr, .started h0⟩
    · exact .inr ⟨room', hr, .same⟩
  | finishedFirst hr h0 hp hn =>
    rcases get_setRoom hr' with ⟨rfl, rfl⟩ | ⟨-, hr⟩
    · exact .inr ⟨_, hr, .finished h0 hp hn⟩
    · exact .inr ⟨room', hr, .same⟩
  | deleted _ => exact .inr ⟨room', (HashMap.get_remove_eq_some.mp hr').2, .same⟩
  | cleaned _ => exact .inr ⟨room', (deleteStale_rooms.mp hr').1, .same⟩

/-- An invariant of the rooms: it holds of a new room, and every `RoomStep`
under the guard keeps it. -/
theorem rooms_invariant {G : Sys → Action → Prop} {P : MatchRoom → Prop}
    (hnew : ∀ now, P (MatchRoom.new now))
    (hstep : ∀ {s : Sys} {tr : List Event} {a : Action} {evs : List Event} {m : String}
      {room room' : MatchRoom}, server.Reach G s tr → G s a → s.core.rooms.get m = some room →
      P room → RoomStep s m room a evs room' → P room')
    {s : Sys} {tr : List Event} (h : server.Reach G s tr) :
    ∀ m room, s.core.rooms.get m = some room → P room := by
  refine Machine.Reach.induct (P := fun s _ => ∀ m room, s.core.rooms.get m = some room → P room)
    ?_ ?_ h
  · intro s hinit m room hr
    obtain ⟨url, rfl⟩ := hinit
    cases hr
  · intro s tr a s' evs hreach ih hg hs m room' hr'
    rcases step_room (step_core (step_spec hs)) hr' with ⟨-, now, rfl, -⟩ | ⟨room, hr, hroom⟩
    · exact hnew now
    · exact hstep hreach hg hr (ih m room hr) hroom

end Kotatsu
