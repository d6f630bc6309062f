import Kotatsu.Layout

/-
  Seats and their links

  A seat is what a room stores for a player; its link is the address and the
  channel that the registration wrote. `LinkStep` keeps of a step only its
  effect on links: a registration sets one, the end of `remove_client` drops
  one, the removal of rooms drops all of theirs, and nothing else moves any.
  `step_frame` says that only a step of a join task touches the registry or a
  task that is under way.
-/

namespace Kotatsu

def CoreState.seat (core : CoreState) (m p : String) : Option PlayerHandle :=
  (core.rooms.get m).bind (·.players.get p)

/-- Where a seat's datagrams and reliable messages go. -/
def PlayerHandle.link (h : PlayerHandle) : Option PlayerConnection × ChanId :=
  (h.connection, h.reliableTx)

def CoreState.link (core : CoreState) (m p : String) : Option (Option PlayerConnection × ChanId) :=
  (core.seat m p).map PlayerHandle.link

theorem seat_eq_some {core : CoreState} {m p : String} {h : PlayerHandle} :
    core.seat m p = some h ↔
      ∃ room, core.rooms.get m = some room ∧ room.players.get p = some h :=
  Option.bind_eq_some_iff

theorem link_eq_some {core : CoreState} {m p : String} {l : Option PlayerConnection × ChanId} :
    core.link m p = some l ↔ ∃ h, core.seat m p = some h ∧ h.link = l :=
  Option.map_eq_some_iff

/-- The seats after a room is written back. -/
theorem seat_setRoom (core : CoreState) (m m' p : String) (room : MatchRoom) :
    (core.setRoom m room).seat m' p = if m' = m then room.players.get p else core.seat m' p := by
  unfold CoreState.seat
  rw [CoreState.setRoom_rooms, HashMap.get_insert]
  split <;> rfl

theorem seat_of_room {core : CoreState} {m : String} {room : MatchRoom}
    (hr : core.rooms.get m = some room) (p : String) : core.seat m p = room.players.get p := by
  rw [CoreState.seat, hr]
  rfl

/-- A seat after a room is written back is one of that room, or of another. -/
theorem seat_setRoom_cases {core : CoreState} {m m' p : String} {room : MatchRoom}
    {seat : PlayerHandle} (h : (core.setRoom m room).seat m' p = some seat) :
    (m' = m ∧ room.players.get p = some seat) ∨ (m' ≠ m ∧ core.seat m' p = some seat) := by
  rw [seat_setRoom] at h
  split at h
  · next hm => exact .inl ⟨hm, h⟩
  · next hm => exact .inr ⟨hm, h⟩

/-- Writing back a room whose players keep their links, but for `p`. -/
theorem link_setRoom_at {core : CoreState} {m p : String} {room room' : MatchRoom}
    {l : Option (Option PlayerConnection × ChanId)} (hr : core.rooms.get m = some room)
    (hl : ∀ q, (room'.players.get q).map PlayerHandle.link =
      if q = p then l else (room.players.get q).map PlayerHandle.link) (m' p' : String) :
    (core.setRoom m room').link m' p' = if m' = m ∧ p' = p then l else core.link m' p' := by
  unfold CoreState.link
  rw [seat_setRoom]
  by_cases hm : m' = m
  · subst hm
    rw [if_pos rfl, hl, seat_of_room hr]
    by_cases hp : p' = p
    · rw [if_pos hp, if_pos ⟨rfl, hp⟩]
    · rw [if_neg hp, if_neg fun h => hp h.2]
  · rw [if_neg hm, if_neg fun h => hm h.1]

/-- Writing back a room whose players keep their links keeps every link. -/
theorem link_setRoom {core : CoreState} {m : String} {room room' : MatchRoom}
    (hr : core.rooms.get m = some room)
    (hl : ∀ p, (room'.players.get p).map PlayerHandle.link =
      (room.players.get p).map PlayerHandle.link) (m' p : String) :
    (core.setRoom m room').link m' p = core.link m' p := by
  unfold CoreState.link
  rw [seat_setRoom]
  split
  · next hm =>
    subst hm
    rw [hl, seat_of_room hr]
  · rfl

/-! ## What a step does to the links -/

/-- A step, by what it does to links. -/
inductive LinkStep (s : Sys) (core : CoreState) : List Event → Prop
  | same {evs : List Event} (h : ∀ m p, core.link m p = s.core.link m p)
      (he : ∀ e ∈ evs, (∀ m p a tx, e ≠ .registered m p a tx) ∧
        (∀ m, e ≠ .roomRemoved m) ∧ ∀ m p, e ≠ .seatRemoved m p) :
      LinkStep s core evs
  | seated {tid : Nat} {addr : SocketAddr} {m p name : String} {tx : ChanId}
      (ht : s.joins.get tid = some (.register addr m p name tx))
      (h : ∀ m' p', core.link m' p' =
        if m' = m ∧ p' = p then some (some (.udp addr), tx) else s.core.link m' p') :
      LinkStep s core [.registered m p addr tx]
  | unseated {tid : Nat} {session : ClientSession}
      (ht : s.joins.get tid = some (.remove session))
      (h : ∀ m' p', core.link m' p' =
        if m' = session.matchId ∧ p' = session.playerId then none else s.core.link m' p') :
      LinkStep s core [.seatRemoved session.matchId session.playerId]
  | closed {ms : List String} (h : ∀ m p, core.link m p =
        if m ∈ ms then none else s.core.link m p) :
      LinkStep s core (ms.map .roomRemoved)

/-- Every room's id has been drawn. -/
def RoomsSeen (s : Sys) : Prop := ∀ m room, s.core.rooms.get m = some room → m ∈ s.seen

theorem link_cleaned (core : CoreState) (timeout now : Nat) (m p : String) :
    (deleteStaleLobbyRooms core timeout now).1.link m p =
      if m ∈ (deleteStaleLobbyRooms core timeout now).2 then none else core.link m p := by
  have hr : (deleteStaleLobbyRooms core timeout now).1.rooms.get m =
      if m ∈ (deleteStaleLobbyRooms core timeout now).2 then none else core.rooms.get m := by
    ext room
    rw [deleteStale_rooms]
    split <;> simp [*]
  unfold CoreState.link CoreState.seat
  rw [hr]
  split <;> rfl

theorem link_register {core : CoreState} {m p name : String} {addr : SocketAddr} {tx now : Nat}
    {room : MatchRoom} (hr : core.rooms.get m = some room) (m' p' : String) :
    (core.setRoom m (room.register p name addr tx now)).link m' p' =
      if m' = m ∧ p' = p then some (some (.udp addr), tx) else core.link m' p' := by
  apply link_setRoom_at hr
  intro q
  rw [get_register]
  split <;> rfl

theorem link_removePlayer {core : CoreState} {m p : String} {now : Nat} {room : MatchRoom}
    (hr : core.rooms.get m = some room) (m' p' : String) :
    (core.setRoom m (room.removePlayer p now)).link m' p' =
      if m' = m ∧ p' = p then none else core.link m' p' := by
  apply link_setRoom_at hr
  intro q
  rw [get_removePlayer]
  split <;> rfl

theorem link_step {s : Sys} {a : Action} {core : CoreState} {evs : List Event}
    (hseen : RoomsSeen s) (h : CoreStep s a core evs) : LinkStep s core evs := by
  cases h with
  | quiet he =>
    refine .same (fun _ _ => rfl) fun e hm => ?_
    have hq : e.onCore = false := he e hm
    refine ⟨?_, ?_, ?_⟩ <;> (intros; rintro rfl; cases hq)
  | @created uuid now hf =>
    -- the id is new, so there was no room to lose
    refine .same ?_ (by simp)
    intro m p
    unfold CoreState.link
    rw [seat_setRoom]
    split
    · next hm =>
      have hn : s.core.rooms.get m = none := by
        cases hr : s.core.rooms.get m with
        | none => rfl
        | some room => exact absurd (hseen m room hr) (hm ▸ hf)
      unfold CoreState.seat
      rw [hn]
      rfl
    · rfl
  | issued _ _ _ hr _ => exact .same (link_setRoom hr fun _ => rfl) (by simp)
  | unknownToken _ _ | expired _ _ _ | consumed _ _ _ => exact .same (fun _ _ => rfl) (by simp)
  | registered ht hr _ => exact .seated ht (link_register hr)
  | removed ht hr => exact .unseated ht (link_removePlayer hr)
  | @updated tid ch m p tx seq k d now now' room player mu ht hr hp hu =>
    refine .same (link_setRoom hr fun q => ?_) (by simp)
    rw [get_setParams]
    split
    · next hq => subst hq; rw [hp]; rfl
    · rfl
  | started hr _ =>
    refine .same (link_setRoom hr fun q => ?_) (by simp)
    rw [get_start, Option.map_map]
    rfl
  | startedAgain _ _ => exact .same (fun _ _ => rfl) (by simp)
  | finishedFirst hr _ _ _ => exact .same (link_setRoom hr fun _ => rfl) (by simp)
  | finishedAgain _ _ _ _ => exact .same (fun _ _ => rfl) (by simp)
  | @deleted m room hr =>
    show LinkStep s _ ([m].map Event.roomRemoved)
    refine .closed fun m' p => ?_
    unfold CoreState.link CoreState.seat
    dsimp only
    rw [HashMap.get_remove]
    by_cases hm : m' = m <;> simp [hm]
  | cleaned _ => exact .closed (link_cleaned _ _ _)

/-- A link stays unless the step says otherwise. -/
theorem link_kept {s : Sys} {core : CoreState} {evs : List Event} (h : LinkStep s core evs)
    {m p : String} {l : Option PlayerConnection × ChanId} (hl : s.core.link m p = some l)
    (hreg : ∀ a tx, Event.registered m p a tx ∉ evs) (hseat : Event.seatRemoved m p ∉ evs)
    (hroom : Event.roomRemoved m ∉ evs) : core.link m p = some l := by
  cases h with
  | same h _ => rw [h, hl]
  | @seated tid addr m₀ p₀ name tx _ h =>
    rw [h, if_neg, hl]
    intro hsame
    obtain ⟨rfl, rfl⟩ := hsame
    exact hreg addr tx (List.mem_singleton_self _)
  | unseated _ h =>
    rw [h, if_neg, hl]
    intro hsame
    obtain ⟨rfl, rfl⟩ := hsame
    exact hseat (List.mem_singleton_self _)
  | closed h =>
    rw [h, if_neg, hl]
    intro hm
    exact hroom (List.mem_map.mpr ⟨m, hm, rfl⟩)

/-- A registration sets its link. -/
theorem link_registered {s : Sys} {core : CoreState} {evs : List Event} (h : LinkStep s core evs)
    {m p : String} {a : SocketAddr} {tx : ChanId} (he : Event.registered m p a tx ∈ evs) :
    core.link m p = some (some (.udp a), tx) := by
  cases h with
  | same _ hq => exact absurd rfl ((hq _ he).1 m p a tx)
  | seated _ h =>
    obtain ⟨rfl, rfl, rfl, rfl⟩ := Event.registered.inj (List.mem_singleton.mp he)
    rw [h, if_pos ⟨rfl, rfl⟩]
  | unseated _ _ => simp at he
  | closed _ => simp at he

/-- A link after a step was there before, or is that of a registration. -/
theorem link_from {s : Sys} {core : CoreState} {evs : List Event} (h : LinkStep s core evs)
    {m p : String} {l : Option PlayerConnection × ChanId} (hl : core.link m p = some l) :
    s.core.link m p = some l ∨
      ∃ a tx, l = (some (.udp a), tx) ∧ Event.registered m p a tx ∈ evs := by
  cases h with
  | same h _ => exact .inl ((h m p).symm.trans hl)
  | @seated tid addr m₀ p₀ name tx _ h =>
    rw [h] at hl
    split at hl
    · next hmp =>
      obtain ⟨rfl, rfl⟩ := hmp
      cases hl
      exact .inr ⟨addr, tx, rfl, List.mem_singleton_self _⟩
    · exact .inl hl
  | unseated _ h =>
    rw [h] at hl
    split at hl
    · cases hl
    · exact .inl hl
  | closed h =>
    rw [h] at hl
    split at hl
    · cases hl
    · exact .inl hl

/-! ## Where a seat comes from -/

/-- How the seat of `p` in `m` after a step with these events came about. -/
inductive SeatFrom (s : Sys) (m p : String) : List Event → PlayerHandle → Prop
  | kept {evs : List Event} {h : PlayerHandle} (hs : s.core.seat m p = some h)
      (hu : ∀ k d now mu, Event.paramUpdated m p k d now mu ∉ evs)
      (hst : ∀ t ps, Event.roomStarted m t true ps ∉ evs) : SeatFrom s m p evs h
  | registered {name : String} {addr : SocketAddr} {tx : ChanId} :
      SeatFrom s m p [.registered m p addr tx] (registeredHandle (s.core.seat m p) name addr tx)
  | updated {h : PlayerHandle} {k : ParamKind} {d : ParamDirection} {now : Nat}
      {mu : ParamMutation} (hs : s.core.seat m p = some h)
      (hu : applyParamChange h.params h.nextParamChangeAtUnix k d now = .ok mu) :
      SeatFrom s m p [.paramUpdated m p k d now mu]
        { h with params := mu.params, nextParamChangeAtUnix := mu.nextParamChangeAtUnix }
  | laidOut {h : PlayerHandle} {room : MatchRoom} {sh : Shuffles} {now : Nat}
      (hr : s.core.rooms.get m = some room) (hs : room.players.get p = some h) :
      SeatFrom s m p [.roomStarted m now true (snapshotPlayers (room.start sh now))]
        (layoutHandle sh (room.position p) h)

theorem seat_from {s : Sys} {a : Action} {core : CoreState} {evs : List Event}
    (h : CoreStep s a core evs) {m p : String} {seat : PlayerHandle}
    (hs : core.seat m p = some seat) : SeatFrom s m p evs seat := by
  cases h with
  | quiet hq =>
    refine .kept hs (fun k d now mu he => ?_) fun t ps he => ?_
    · have := hq _ he
      cases this
    · have := hq _ he
      cases this
  | unknownToken _ _ | expired _ _ _ | consumed _ _ _ | startedAgain _ _
  | finishedAgain _ _ _ _ => exact .kept hs (by simp) (by simp)
  | created _ =>
    rcases seat_setRoom_cases hs with ⟨-, hnone⟩ | ⟨-, hs'⟩
    · cases hnone
    · exact .kept hs' (by simp) (by simp)
  | issued _ _ _ hr _ =>
    rcases seat_setRoom_cases hs with ⟨rfl, hs'⟩ | ⟨-, hs'⟩
    · exact .kept ((seat_of_room hr p).trans hs') (by simp) (by simp)
    · exact .kept hs' (by simp) (by simp)
  | registered _ hr _ =>
    rcases seat_setRoom_cases hs with ⟨rfl, hs'⟩ | ⟨-, hs'⟩
    · rw [get_register] at hs'
      split at hs'
      · next hp =>
        subst hp
        cases hs'
        rw [← seat_of_room hr p]
        exact .registered
      · exact .kept ((seat_of_room hr p).trans hs') (by simp) (by simp)
    · exact .kept hs' (by simp) (by simp)
  | removed _ hr =>
    rcases seat_setRoom_cases hs with ⟨rfl, hs'⟩ | ⟨-, hs'⟩
    · rw [get_removePlayer] at hs'
      split at hs'
      · cases hs'
      · exact .kept ((seat_of_room hr p).trans hs') (by simp) (by simp)
    · exact .kept hs' (by simp) (by simp)
  | updated _ hr hp hu =>
    rcases seat_setRoom_cases hs with ⟨rfl, hs'⟩ | ⟨hm, hs'⟩
    · rw [get_setParams] at hs'
      split at hs'
      · next hq =>
        subst hq
        cases hs'
        exact .updated ((seat_of_room hr p).trans hp) hu
      · next hq => exact .kept ((seat_of_room hr p).trans hs') (by simp [hq]) (by simp)
    · exact .kept hs' (by simp [hm]) (by simp)
  | started hr _ =>
    rcases seat_setRoom_cases hs with ⟨rfl, hs'⟩ | ⟨hm, hs'⟩
    · rw [get_start] at hs'
      obtain ⟨g, hg, rfl⟩ := Option.map_eq_some_iff.mp hs'
      exact .laidOut hr hg
    · exact .kept hs' (by simp) (by simp [hm])
  | finishedFirst hr _ _ _ =>
    rcases seat_setRoom_cases hs with ⟨rfl, hs'⟩ | ⟨-, hs'⟩
    · exact .kept ((seat_of_room hr p).trans hs') (by simp) (by simp)
    · exact .kept hs' (by simp) (by simp)
  | deleted _ =>
    obtain ⟨room, hr, hp⟩ := seat_eq_some.mp hs
    exact .kept (seat_eq_some.mpr ⟨room, (HashMap.get_remove_eq_some.mp hr).2, hp⟩) (by simp)
      (by simp)
  | cleaned _ =>
    obtain ⟨room, hr, hp⟩ := seat_eq_some.mp hs
    exact .kept (seat_eq_some.mpr ⟨room, (deleteStale_rooms.mp hr).1, hp⟩) (by simp) (by simp)

/-! ## What a step leaves alone -/

/-- What every step but that of a join task leaves alone: the registry, the join
tasks under way, and who has a seat in a room that stays. -/
structure Frame (s s' : Sys) (evs : List Event) : Prop where
  clients : s'.clients = s.clients
  keeps : ∀ tid t, s.joins.get tid = some t → s'.joins.get tid = some t
  adds : ∀ tid t, s'.joins.get tid = some t →
    s.joins.get tid = some t ∨ ∃ addr token, t = .check addr token ∧ token ∈ s'.seen
  seats : ∀ m p, (∀ a tx, Event.registered m p a tx ∉ evs) ∧ Event.seatRemoved m p ∉ evs

theorem Frame.of_same {s s' : Sys} {evs : List Event} (hc : s'.clients = s.clients)
    (hj : s'.joins = s.joins)
    (hs : ∀ m p, (∀ a tx, Event.registered m p a tx ∉ evs) ∧ Event.seatRemoved m p ∉ evs) :
    Frame s s' evs :=
  ⟨hc, fun _ _ h => hj ▸ h, fun _ _ h => .inl (hj ▸ h), hs⟩

theorem Frame.of_events {s s' : Sys} {evs : List Event} (hc : s'.clients = s.clients)
    (hj : s'.joins = s.joins)
    (hs : ∀ e ∈ evs, ∀ m p, (∀ a tx, e ≠ .registered m p a tx) ∧ e ≠ .seatRemoved m p) :
    Frame s s' evs := by
  refine .of_same hc hj fun m p => ⟨?_, ?_⟩
  · intro a tx hm
    exact (hs _ hm m p).1 a tx rfl
  · intro hm
    exact (hs _ hm m p).2 rfl

theorem step_frame {s s' : Sys} {a : Action} {evs : List Event} (h : Step s a s' evs) :
    (∃ tid ch, a = .join tid ch ∧ JoinStep s tid s' evs) ∨ Frame s s' evs := by
  cases h with
  | @join tid ch _ _ h => exact .inl ⟨tid, ch, rfl, h⟩
  | control h =>
    refine .inr ?_
    cases h with
    | @joinReceived tid addr token hf =>
      refine ⟨rfl, ?_, ?_, by simp⟩
      · intro tid' t ht
        have hne : tid' ≠ tid := HashMap.ne_of_get_none hf ht
        exact (HashMap.get_insert_ne _ _ hne).trans ht
      · intro tid' t ht
        rcases HashMap.get_insert_cases ht with ⟨-, rfl⟩ | ⟨-, ht⟩
        · exact .inr ⟨addr, token, rfl, List.mem_cons_self⟩
        · exact .inl ht
    | created _ | issued _ _ _ _ _ | started _ _ _ | startedAgain _ _ | finishedFirst _ _ _ _
    | finishedAgain _ _ _ _ | deleted _ | listed | got _ | refused | ticked _ | cleaned _
    | ignored | paramReceived _ | datagramReceived _ => exact .of_same rfl rfl (by simp)
  | param h => cases h <;> exact .inr (.of_same rfl rfl (by simp))
  | cast h => cases h <;> exact .inr (.of_same rfl rfl (by simp))
  | relay h =>
    obtain ⟨hs, he⟩ := relay_quiet h
    rw [hs]
    refine .inr (.of_events rfl rfl fun e hm m p => ?_)
    obtain ⟨_, _, rfl⟩ := he e hm
    exact ⟨nofun, nofun⟩
  | drain h =>
    obtain ⟨hs, he⟩ := drain_quiet h
    rw [hs]
    refine .inr (.of_events rfl rfl fun e hm m p => ?_)
    obtain ⟨_, _, rfl⟩ := he e hm
    exact ⟨nofun, nofun⟩

/-- A step of a join task leaves the other ones. -/
theorem join_others {s s' : Sys} {tid tid' : Nat} {evs : List Event} (h : JoinStep s tid s' evs)
    (hne : tid' ≠ tid) : s'.joins.get tid' = s.joins.get tid' := by
  cases h with
  | alreadyJoined _ _ | okSent _ | rollbackNone _ _ | removed _ _ | removedNoRoom _ _
  | errorSent _ _ => exact HashMap.get_remove_ne _ hne
  | _ => exact HashMap.get_insert_ne _ _ hne

/-- A join task stays where it is while it takes no step. -/
theorem join_waits {s s' : Sys} {a : Action} {evs : List Event} (h : Step s a s' evs) {tid : Nat}
    {t : JoinTask} (hne : ∀ ch, a ≠ .join tid ch) (ht : s.joins.get tid = some t) :
    s'.joins.get tid = some t := by
  rcases step_frame h with ⟨tid₀, ch, rfl, hj⟩ | hf
  · have htid : tid ≠ tid₀ := by
      intro heq
      exact hne ch (heq ▸ rfl)
    rw [join_others hj htid, ht]
  · exact hf.keeps tid t ht

/-! ## Where a session or a task comes from -/

section From
variable {s s' : Sys} {a : Action} {evs : List Event}

/-- A session after a step was there before, or a task has just inserted it. -/
theorem session_from (h : Step s a s' evs) {addr : SocketAddr} {c : ClientSession}
    (hc : s'.clients.get addr = some c) :
    s.clients.get addr = some c ∨
      ∃ tid params, s.joins.get tid = some (.insert addr c.matchId c.playerId params c.tx) ∧
        c.addr = addr ∧ c.rx = c.tx := by
  rcases step_frame h with ⟨tid, ch, -, h⟩ | hf
  · cases h with
    | inserted ht =>
      rcases HashMap.get_insert_cases hc with ⟨rfl, rfl⟩ | ⟨-, hc⟩
      · exact .inr ⟨_, _, ht, rfl, rfl⟩
      · exact .inl hc
    | rollbackTake _ _ => exact .inl (HashMap.get_remove_eq_some.mp hc).2
    | _ => exact .inl hc
  · exact .inl (hf.clients ▸ hc)

/-- How the task `tid` came to be at `t`. -/
inductive TaskFrom (s s' : Sys) (evs : List Event) (tid : Nat) : JoinTask → Prop
  | kept {t : JoinTask} (h : s.joins.get tid = some t) : TaskFrom s s' evs tid t
  | received {addr : SocketAddr} {token : String} (h : token ∈ s'.seen) :
      TaskFrom s s' evs tid (.check addr token)
  | checked {addr : SocketAddr} {token : String}
      (h : s.joins.get tid = some (.check addr token)) :
      TaskFrom s s' evs tid (.consume addr token)
  | consumed {addr : SocketAddr} {token m p name : String} {tx : ChanId}
      (h : s.joins.get tid = some (.consume addr token)) (hf : s.chans.get tx = none)
      (hc : s'.chans = s.chans.insert tx { queue := [], alive := true }) :
      TaskFrom s s' evs tid (.register addr m p name tx)
  | registered {addr : SocketAddr} {m p : String} {params : PlayerParams} {tx : ChanId}
      (h : Event.registered m p addr tx ∈ evs) :
      TaskFrom s s' evs tid (.insert addr m p params tx)
  | inserted {addr : SocketAddr} {m p : String} {params : PlayerParams} {tx : ChanId}
      (h : s.joins.get tid = some (.insert addr m p params tx)) :
      TaskFrom s s' evs tid (.sendOk addr m p params)
  | failed {addr : SocketAddr} {m p : String} {params : PlayerParams}
      (h : s.joins.get tid = some (.sendOk addr m p params)) :
      TaskFrom s s' evs tid (.rollback addr)
  | taken {addr : SocketAddr} {c : ClientSession} (h : s.joins.get tid = some (.rollback addr))
      (hc : s.clients.get addr = some c) : TaskFrom s s' evs tid (.remove c)
  | denied {addr : SocketAddr} {token message : String}
      (h : s.joins.get tid = some (.consume addr token)) :
      TaskFrom s s' evs tid (.sendError addr "auth_failed" message none)
  | refused {addr : SocketAddr} {m p name message : String} {tx : ChanId}
      (h : s.joins.get tid = some (.register addr m p name tx)) :
      TaskFrom s s' evs tid (.sendError addr "join_failed" message (some tx))

theorem task_from (h : Step s a s' evs) {tid : Nat} {t : JoinTask}
    (ht' : s'.joins.get tid = some t) : TaskFrom s s' evs tid t := by
  rcases step_frame h with ⟨tid₀, ch, -, h⟩ | hf
  · cases h with
    | alreadyJoined _ _ | okSent _ | rollbackNone _ _ | removed _ _ | removedNoRoom _ _
    | errorSent _ _ => exact .kept (HashMap.get_remove_eq_some.mp ht').2
    | checked ht _ =>
      rcases HashMap.get_insert_cases ht' with ⟨rfl, rfl⟩ | ⟨-, ht'⟩
      · exact .checked ht
      · exact .kept ht'
    | unknownToken ht _ | expired ht _ _ =>
      rcases HashMap.get_insert_cases ht' with ⟨rfl, rfl⟩ | ⟨-, ht'⟩
      · exact .denied ht
      · exact .kept ht'
    | joinRefused ht _ =>
      rcases HashMap.get_insert_cases ht' with ⟨rfl, rfl⟩ | ⟨-, ht'⟩
      · exact .refused ht
      · exact .kept ht'
    | consumed ht _ _ hf =>
      rcases HashMap.get_insert_cases ht' with ⟨rfl, rfl⟩ | ⟨-, ht'⟩
      · exact .consumed ht hf rfl
      · exact .kept ht'
    | registered _ _ _ =>
      rcases HashMap.get_insert_cases ht' with ⟨rfl, rfl⟩ | ⟨-, ht'⟩
      · exact .registered (List.mem_singleton_self _)
      · exact .kept ht'
    | inserted ht =>
      rcases HashMap.get_insert_cases ht' with ⟨rfl, rfl⟩ | ⟨-, ht'⟩
      · exact .inserted ht
      · exact .kept ht'
    | okFailed ht =>
      rcases HashMap.get_insert_cases ht' with ⟨rfl, rfl⟩ | ⟨-, ht'⟩
      · exact .failed ht
      · exact .kept ht'
    | rollbackTake ht hc =>
      rcases HashMap.get_insert_cases ht' with ⟨rfl, rfl⟩ | ⟨-, ht'⟩
      · exact .taken ht hc
      · exact .kept ht'
  · rcases hf.adds _ _ ht' with ht' | ⟨addr, token, rfl, hseen⟩
    · exact .kept ht'
    · exact .received hseen

theorem updating_from (h : Step s a s' evs) {tid : Nat} {m p : String} {tx : ChanId} {seq : Nat}
    {k : ParamKind} {d : ParamDirection}
    (ht' : s'.params.get tid = some (.update m p tx seq k d)) :
    s.params.get tid = some (.update m p tx seq k d) ∨
      ∃ addr c, s.clients.get addr = some c ∧ c.matchId = m ∧ c.playerId = p ∧ c.tx = tx := by
  cases h with
  | param h =>
    cases h with
    | lookedUp _ hc =>
      rcases HashMap.get_insert_cases ht' with ⟨-, hnew⟩ | ⟨-, ht'⟩
      · cases hnew
        exact .inr ⟨_, _, hc, rfl, rfl, rfl⟩
      · exact .inl ht'
    | _ => exact .inl (HashMap.get_remove_eq_some.mp ht').2
  | control h =>
    cases h with
    | paramReceived _ =>
      rcases HashMap.get_insert_cases ht' with ⟨-, hnew⟩ | ⟨-, ht'⟩
      · cases hnew
      · exact .inl ht'
    | _ => exact .inl ht'
  | join h => cases h <;> exact .inl ht'
  | cast h => cases h <;> exact .inl ht'
  | relay h => rw [(relay_quiet h).1] at ht'; exact .inl ht'
  | drain h => rw [(drain_quiet h).1] at ht'; exact .inl ht'

/-- The end of `remove_client` is the step of the task that carries the session, and
drops its receiver. -/
theorem unseated_by (h : Step s a s' evs) {m p : String} (he : Event.seatRemoved m p ∈ evs) :
    ∃ tid c, s.joins.get tid = some (.remove c) ∧ c.matchId = m ∧ c.playerId = p ∧
      s'.chans = closeRx s.chans c.rx := by
  obtain ⟨tid, ch, -, hj⟩ := step_emitted (w := .join) h he rfl
  cases hj with
  | removed ht _ =>
    obtain ⟨rfl, rfl⟩ : m = _ ∧ p = _ := by simpa using he
    exact ⟨tid, _, ht, rfl, rfl, rfl⟩
  | errorSent _ hev => rcases hev with rfl | rfl <;> simp at he
  | _ => simp at he

/-- A room is removed by a request or by a cleanup. -/
theorem removed_by {core : CoreState} (h : CoreStep s a core evs) {m : String}
    (he : Event.roomRemoved m ∈ evs) :
    a = .deleteRoom m ∨ ∃ tid timeout now, a = .cleanupRun tid ∧
      s.cleanups.get tid = some (timeout, now) ∧
      m ∈ (deleteStaleLobbyRooms s.core timeout now).2 := by
  cases h with
  | quiet hq => exact absurd (hq _ he) (by simp [Event.onCore])
  | deleted _ =>
    obtain rfl : m = _ := by simpa using he
    exact .inl rfl
  | cleaned ht => exact .inr ⟨_, _, _, rfl, ht, by simpa using he⟩
  | _ => simp at he

end From

end Kotatsu
