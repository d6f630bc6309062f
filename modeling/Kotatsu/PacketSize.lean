import Kotatsu.Capacity
import Kotatsu.Casts
import Kotatsu.FirstPacket
import Kotatsu.Lengths
import Kotatsu.MatchStart
import Kotatsu.StartLayout

/-
  Which reliable packets fit a datagram

  A name goes from the request for a ticket through the ticket, the seat and the snapshot
  into the `MatchStarted` of every player of the room (`names_issued`), and nothing limits
  its length. A name that is too long makes the packets of the whole room too long, and the
  outgoing task does not look at the error of `send_to` (`start_too_long`). Every other
  reliable packet fits, and a `MatchStarted` does exactly when the names of the seats that
  were there at the start leave room for the rest (`reliable_packets_fit`).
-/

namespace Kotatsu

open Machine (eventsOf)

/-! ## What is drawn -/

/-- Ids are version 4 UUIDs, and the clock keeps its seconds in an `i64`. -/
def Action.wellDrawn : Action → Bool
  | .createRoom uuid _ => decide (SimpleUuid uuid)
  | .issueJoinTicket _ uuid _ _ => decide (SimpleUuid uuid)
  | .param _ ch => decide (ch.nowUnix < 2 ^ 63)
  | _ => true

def drawsWell : Sys → Action → Prop := fun _ a => a.wellDrawn = true

instance (s : Sys) (a : Action) : Decidable (drawsWell s a) :=
  inferInstanceAs (Decidable (_ = true))

theorem matchIdOf_drawn {uuid : String} (h : SimpleUuid uuid) : DrawnId (matchIdOf uuid) :=
  drawnId_of_uuid h (by decide) (by decide)

theorem playerIdOf_drawn {uuid : String} (h : SimpleUuid uuid) : DrawnId (playerIdOf uuid) :=
  drawnId_of_uuid h (by decide) (by decide)

/-- An id that is created is a drawn one. -/
theorem created_drawn {s s' : Sys} {a : Action} {evs : List Event} (hg : drawsWell s a)
    (h : Step s a s' evs) {resp : CreateRoomResponse} {now : Nat}
    (he : Event.roomCreated resp now ∈ evs) : DrawnId resp.matchId := by
  have hc : ControlStep s a s' evs := step_emitted (w := .control) h he rfl
  cases hc with
  | created _ =>
    obtain ⟨rfl, -⟩ : resp = _ ∧ now = _ := by simpa using he
    exact matchIdOf_drawn (of_decide_eq_true hg)
  | _ => simp at he

theorem rooms_drawn {s : Sys} {tr : List Event} (h : server.Reach drawsWell s tr) :
    ∀ m room, s.core.rooms.get m = some room → DrawnId m := by
  refine Machine.Reach.induct (P := fun s _ => ∀ m room, s.core.rooms.get m = some room →
    DrawnId m) ?_ ?_ h
  · intro s hinit m room hr
    obtain ⟨url, rfl⟩ := hinit
    cases hr
  · intro s tr a s' evs _ ih hg hs m room' hr'
    rcases step_room (step_core (step_spec hs)) hr' with ⟨-, _, -, resp, he, rfl⟩ | ⟨room, hr, -⟩
    · exact created_drawn hg (step_spec hs) he
    · exact ih m room hr

/-- A ticket is issued for a drawn id, in a room that is there. -/
theorem issued_drawn {s : Sys} {tr : List Event} (h : server.Reach drawsWell s tr)
    {m p token : String} (hi : Issued tr m p token) : DrawnId m ∧ DrawnId p := by
  refine Machine.Reach.induct (P := fun _ tr => ∀ m p token, Issued tr m p token →
    DrawnId m ∧ DrawnId p) ?_ ?_ h m p token hi
  · intro s _ m p token hi
    obtain ⟨_, _, _, he, -⟩ := hi
    cases he
  · intro s tr a s' evs hreach ih hg hs m p token hi
    rcases issued_cases hi with ho | hnew
    · exact ih m p token ho
    · obtain ⟨req, resp, now, he, rfl, rfl, -⟩ := hnew
      have hc : ControlStep s a s' evs := step_emitted (w := .control) (step_spec hs) he rfl
      cases hc with
      | issued _ _ _ hr _ =>
        obtain ⟨rfl, rfl, -⟩ : req = _ ∧ resp = _ ∧ now = _ := by simpa using he
        exact ⟨rooms_drawn hreach _ _ hr, playerIdOf_drawn (of_decide_eq_true hg)⟩
      | _ => simp at he

theorem registered_drawn {s : Sys} {tr : List Event} (h : server.Reach drawsWell s tr)
    {m p : String} {a : SocketAddr} {tx : ChanId} (ho : Event.registered m p a tx ∈ tr) :
    DrawnId m ∧ DrawnId p := by
  obtain ⟨⟨token, hi⟩, -⟩ := registered_issued h ho
  exact issued_drawn h hi

theorem seat_drawn {s : Sys} {tr : List Event} (h : server.Reach drawsWell s tr) {m p : String}
    {seat : PlayerHandle} (hs : s.core.seat m p = some seat) : DrawnId m ∧ DrawnId p := by
  obtain ⟨a, ho, -⟩ := seat_registered (registrants h) hs
  exact registered_drawn h ho

/-! ## Names -/

/-- A ticket for `p` in `m` was issued under this name. -/
def NameIssued (tr : List Event) (m p name : String) : Prop :=
  ∃ req resp now, Event.ticketIssued req resp now ∈ tr ∧ resp.matchId = m ∧ resp.playerId = p ∧
    normalizeDisplayName req.displayName = name

theorem NameIssued.mono {tr : List Event} {m p name : String} (h : NameIssued tr m p name)
    (evs : List Event) : NameIssued (tr ++ evs) m p name := by
  obtain ⟨req, resp, now, he, h⟩ := h
  exact ⟨req, resp, now, List.mem_append_left _ he, h⟩

theorem ticket_named {G : Sys → Action → Prop} {s : Sys} {tr : List Event}
    (h : server.Reach G s tr) {token : String} {t : Ticket}
    (hk : s.core.tickets.get token = some t) :
    NameIssued tr t.matchId t.playerId t.displayName := by
  obtain ⟨req, resp, now, he, -, rfl⟩ := stored_ticket h hk
  exact ⟨req, resp, now, he, rfl, rfl, rfl⟩

/-- A registration gives the seat the name that its task carries; nothing else renames a
seat. -/
theorem name_from {s s' : Sys} {a : Action} {evs : List Event} (h : Step s a s' evs) {m p : String}
    {seat' : PlayerHandle} (hs' : s'.core.seat m p = some seat') :
    (∃ seat, s.core.seat m p = some seat ∧ seat'.displayName = seat.displayName) ∨
      ∃ tid addr tx, s.joins.get tid = some (.register addr m p seat'.displayName tx) := by
  cases seat_from (step_core h) hs' with
  | kept hs _ _ => exact .inl ⟨_, hs, rfl⟩
  | updated hs _ => exact .inl ⟨_, hs, rfl⟩
  | laidOut hr hs => exact .inl ⟨_, (seat_of_room hr p).trans hs, rfl⟩
  | @registered name addr tx =>
    obtain ⟨tid, ch, rfl, hj⟩ := step_emitted (w := .join) h (List.mem_singleton_self _) rfl
    generalize hevs : [Event.registered m p addr tx] = evs at hj
    cases hj with
    | registered ht _ _ =>
      obtain ⟨rfl, rfl, rfl, rfl⟩ := Event.registered.inj (List.singleton_inj.mp hevs)
      rw [seat_setRoom, if_pos rfl, get_register, if_pos rfl] at hs'
      have hname : _ = name := congrArg PlayerHandle.displayName (Option.some.inj hs')
      subst hname
      exact .inr ⟨tid, addr, tx, ht⟩
    | errorSent _ he => rcases he with rfl | rfl <;> cases hevs
    | _ => cases hevs

structure NamesIssued (s : Sys) (tr : List Event) : Prop where
  registering : ∀ {tid a m p name tx}, s.joins.get tid = some (.register a m p name tx) →
    NameIssued tr m p name
  seat : ∀ {m p seat}, s.core.seat m p = some seat → NameIssued tr m p seat.displayName

theorem names_issued {G : Sys → Action → Prop} {s : Sys} {tr : List Event}
    (h : server.Reach G s tr) : NamesIssued s tr := by
  refine Machine.Reach.induct (P := NamesIssued) ?_ ?_ h
  · intro s hinit
    obtain ⟨url, rfl⟩ := hinit
    refine ⟨?_, ?_⟩ <;> intros <;> next h => cases h
  · intro s tr a s' evs hreach hi _ hs
    have hstep : Step s a s' evs := step_spec hs
    refine ⟨?_, ?_⟩
    · intro tid addr m p name tx ht'
      rcases registering_from hstep ht' with ht | ⟨_, token, now, t, -, -, hk, rfl, rfl, he⟩
      · exact (hi.registering ht).mono evs
      · obtain ⟨-, -, hv⟩ := presented_by (step_core hstep) he
        obtain ⟨t', hk', -, heq⟩ := (hv _).mp rfl
        rw [hk] at hk'
        obtain rfl : t = t' := Option.some.inj hk'
        obtain rfl : name = t.displayName := (Prod.mk.inj (Prod.mk.inj heq).2).2
        exact (ticket_named hreach hk).mono evs
    · intro m p seat' hs'
      rcases name_from hstep hs' with ⟨seat, hseat, hname⟩ | ⟨tid, addr, tx, ht⟩
      · rw [hname]
        exact (hi.seat hseat).mono evs
      · exact (hi.registering ht).mono evs

/-! ## The texts of errors -/

/-- What a join can be refused with. -/
def joinErrors : List (String × String) :=
  [("auth_failed", "invalid_token"), ("auth_failed", "token_expired"),
    ("join_failed", "match_not_found"), ("join_failed", "match_full")]

/-- A task that is about to refuse was so before, or has just been refused. -/
theorem refusing_from {s s' : Sys} {a : Action} {evs : List Event} (h : Step s a s' evs)
    {tid : Nat} {addr : SocketAddr} {code message : String} {rx : Option ChanId}
    (ht' : s'.joins.get tid = some (.sendError addr code message rx)) :
    s.joins.get tid = some (.sendError addr code message rx) ∨ (code, message) ∈ joinErrors := by
  rcases step_frame h with ⟨tid₀, ch, rfl, hj⟩ | hf
  · cases hj with
    | unknownToken _ _ | expired _ _ _ =>
      rcases HashMap.get_insert_cases ht' with ⟨-, hnew⟩ | ⟨-, hold⟩
      · cases hnew
        exact .inr (by simp [joinErrors])
      · exact .inl hold
    | joinRefused _ he =>
      rcases HashMap.get_insert_cases ht' with ⟨-, hnew⟩ | ⟨-, hold⟩
      · cases hnew
        rcases he with ⟨-, rfl⟩ | ⟨_, -, -, rfl⟩ <;> exact .inr (by simp [joinErrors])
      · exact .inl hold
    | alreadyJoined _ _ | okSent _ | rollbackNone _ _ | removed _ _ | removedNoRoom _ _
    | errorSent _ _ => exact .inl (HashMap.get_remove_eq_some.mp ht').2
    | checked _ _ | consumed _ _ _ _ | registered _ _ _ | inserted _ | okFailed _
    | rollbackTake _ _ =>
      rcases HashMap.get_insert_cases ht' with ⟨-, hnew⟩ | ⟨-, hold⟩
      · cases hnew
      · exact .inl hold
  · rcases hf.adds _ _ ht' with hold | ⟨_, _, hnew, -⟩
    · exact .inl hold
    · cases hnew

/-- What a join task is about to answer. -/
structure JoinAnswers (s : Sys) (tr : List Event) : Prop where
  refusing : ∀ {tid a code message rx}, s.joins.get tid = some (.sendError a code message rx) →
    (code, message) ∈ joinErrors
  accepting : ∀ {tid a m p params}, s.joins.get tid = some (.sendOk a m p params) →
    ∃ tx, Event.registered m p a tx ∈ tr

theorem join_answers {G : Sys → Action → Prop} {s : Sys} {tr : List Event}
    (h : server.Reach G s tr) : JoinAnswers s tr := by
  refine Machine.Reach.induct (P := JoinAnswers) ?_ ?_ h
  · intro s hinit
    obtain ⟨url, rfl⟩ := hinit
    refine ⟨?_, ?_⟩ <;> intros <;> next h => cases h
  · intro s tr a s' evs hreach hi _ hs
    refine ⟨?_, ?_⟩
    · intro tid addr code message rx ht'
      rcases refusing_from (step_spec hs) ht' with ht | hmem
      · exact hi.refusing ht
      · exact hmem
    · intro tid addr m p params ht'
      cases task_from (step_spec hs) ht' with
      | kept ht =>
        obtain ⟨tx, ho⟩ := hi.accepting ht
        exact ⟨tx, List.mem_append_left _ ho⟩
      | @inserted _ _ _ _ tx ht =>
        exact ⟨tx, List.mem_append_left _ ((registrants hreach).inserting ht)⟩

/-- A parameter change reads the clock once for its check. -/
theorem update_reads {s s' : Sys} {tid : Nat} {ch : Choice} {evs : List Event}
    (hs : server.step s (.param tid ch) = some (s', evs)) :
    ∀ m p k d now mu, Event.paramUpdated m p k d now mu ∈ evs → now = ch.nowUnix := by
  change stepParam s tid ch = some (s', evs) at hs
  unfold stepParam at hs
  split at hs
  · cases hs
  · -- the lookup changes nothing
    split at hs
    · cases hs
    · split at hs <;> cases hs <;> simp
  · split at hs
    · cases hs
    · split at hs
      · cases hs
        simp
      · cases hs
        intro m p k d now mu he
        exact (Event.paramUpdated.inj (List.mem_singleton.mp he)).2.2.2.2.1

theorem applyParamChange_error {params : PlayerParams} {next : Nat} {k : ParamKind}
    {d : ParamDirection} {now : Nat} {e : ParamUpdateError}
    (h : applyParamChange params next k d now = .error e) :
    e = .cooldownActive next ∨ e = .outOfRange := by
  unfold applyParamChange at h
  split at h
  · exact .inl (Except.error.inj h).symm
  · dsimp only at h
    split at h
    · cases h
    · exact .inr (Except.error.inj h).symm

theorem updates_timely {s : Sys} {tr : List Event} (h : server.Reach drawsWell s tr) :
    ∀ m p k d now mu, Event.paramUpdated m p k d now mu ∈ tr → now < 2 ^ 63 := by
  refine Machine.Reach.induct (P := fun _ tr => ∀ m p k d now mu,
    Event.paramUpdated m p k d now mu ∈ tr → now < 2 ^ 63) ?_ ?_ h
  · intro s _ m p k d now mu he
    cases he
  · intro s tr a s' evs _ ih hg hs m p k d now mu hm
    rcases List.mem_append.mp hm with ho | he
    · exact ih m p k d now mu ho
    · obtain ⟨tid, ch, rfl, -⟩ := step_emitted (w := .param) (step_spec hs) he rfl
      rw [update_reads hs m p k d now mu he]
      exact of_decide_eq_true hg

theorem cooldown_bounded {s : Sys} {tr : List Event} (h : server.Reach drawsWell s tr)
    {m p : String} {seat : PlayerHandle} (hs : s.core.seat m p = some seat) :
    seat.nextParamChangeAtUnix < 10 ^ 20 := by
  have hlogged : ParamsLogged s tr := params_logged h
  rw [(hlogged.seat hs).2, nextAfter]
  cases hlast : (updatesOf tr p).getLast? with
  | none => exact Nat.pos_of_ne_zero (by decide)
  | some u =>
    have hu : u ∈ updatesOf tr p := List.mem_of_getLast? hlast
    obtain ⟨m', he⟩ := mem_updatesOf hu
    have hnext := log_next (hlogged.log p) u hu
    have hnow : u.nowUnix < 2 ^ 63 := updates_timely h _ _ _ _ _ _ he
    have hcool : paramChangeCooldownSecs = 7 := rfl
    show u.updated.nextParamChangeAtUnix < 10 ^ 20
    omega

/-- The text of a refused parameter change is short. -/
theorem paramRefusal_short {s : Sys} {tr : List Event} (h : server.Reach drawsWell s tr)
    {m p e : String} {k : ParamKind} {d : ParamDirection} {now : Nat}
    (he : ParamRefusal s.core m p k d now e) : Plain e ∧ e.toList.length ≤ 36 := by
  cases he with
  | noRoom _ => decide
  | noPlayer _ _ => decide
  | @change room seat e hr hp hrefused =>
    rcases applyParamChange_error hrefused with rfl | rfl
    · refine ⟨plain_append (by decide) (toString_plain _), ?_⟩
      have hdigits := toString_size_le (by decide)
        (cooldown_bounded h ((seat_of_room hr p).trans hp))
      show ("cooldown_active:" ++ toString seat.nextParamChangeAtUnix).toList.length ≤ 36
      rw [String.toList_append, List.length_append]
      exact Nat.add_le_add_left hdigits 16
    · decide

/-! ## Messages under way -/

/-- The moment is the first start that the message announces. -/
def Starts (x : Moment Sys Action Event) (msg : ServerReliable) : Prop :=
  ∃ m sh ch players, x.action = .startRoom m sh ch ∧
    x.events = [.roomStarted m ch.nowUnix true players] ∧
    msg = .matchStarted m ch.nowUnix players ch.nowMs

/-- What a message that is broadcast goes back to. -/
inductive Origin (log : Log) : ServerReliable → Prop
  | applied {p : String} {seq next ms : Nat} {params : PlayerParams} (hp : DrawnId p) :
      Origin log (.paramApplied p seq params next ms)
  | refused {e : String} (hp : Plain e) (hl : e.toList.length ≤ 36) :
      Origin log (.error "param_update_failed" e)
  | started {x : Moment Sys Action Event} {msg : ServerReliable} (hx : x ∈ log)
      (hs : Starts x msg) : Origin log msg

theorem Origin.mono {log : Log} {msg : ServerReliable} (h : Origin log msg) (log' : Log) :
    Origin (log ++ log') msg := by
  cases h with
  | applied hp => exact .applied hp
  | refused hp hl => exact .refused hp hl
  | started hx hs => exact .started (List.mem_append_left _ hx) hs

structure Origins (s : Sys) (log : Log) : Prop where
  cast : ∀ {cid c}, s.casts.get cid = some c → Origin log c.msg
  enqueued : ∀ {tx msg}, Event.enqueued tx msg ∈ eventsOf log → Origin log msg

/-- A broadcast comes from an older one with its message, or from the step that has put the
message under way. -/
theorem cast_from {s s' : Sys} {log : Log} {a : Action} {evs : List Event}
    (h : server.Reach drawsWell s (eventsOf log)) (hs : server.step s a = some (s', evs))
    (hold : ∀ cid c, s.casts.get cid = some c → Origin log c.msg) {cid : Nat} {c : Cast}
    (hc : s'.casts.get cid = some c) : Origin (log ++ [⟨s, a, evs, s'⟩]) c.msg := by
  have hstep : Step s a s' evs := step_spec hs
  cases casts_step hstep with
  | quiet heq _ =>
    rw [heq] at hc
    exact (hold cid c hc).mono _
  | refused hf heq he =>
    obtain ⟨hplain, hlen⟩ := paramRefusal_short h he
    rw [heq] at hc
    rcases HashMap.get_insert_cases hc with ⟨-, rfl⟩ | ⟨-, hc⟩
    · exact .refused hplain hlen
    · exact (hold cid c hc).mono _
  | @updated tid cid₀ seq nowMs now ch m p k d mu hf heq =>
    rw [heq] at hc
    rcases HashMap.get_insert_cases hc with ⟨-, rfl⟩ | ⟨-, hc⟩
    · obtain ⟨-, seat, hseat, -⟩ := updated_by (step_core hstep) (List.mem_singleton_self _)
      exact .applied (seat_drawn h hseat).2
    · exact (hold cid c hc).mono _
  | @started m sh ch room hf hr h0 heq =>
    rw [heq] at hc
    rcases HashMap.get_insert_cases hc with ⟨-, rfl⟩ | ⟨-, hc⟩
    · exact .started (List.mem_append_right _ (List.mem_singleton_self _))
        ⟨m, sh, ch, _, rfl, rfl, rfl⟩
    · exact (hold cid c hc).mono _
  | @cast cid₀ ch evs hcast =>
    cases hcast with
    | noRoom _ _ | done _ => exact (hold cid c (HashMap.get_remove_eq_some.mp hc).2).mono _
    | collected ht _ _ | sent ht _ _ _ | lost ht _ _ =>
      rcases HashMap.get_insert_cases hc with ⟨-, rfl⟩ | ⟨-, hc⟩
      · exact (hold cid₀ _ ht).mono _
      · exact (hold cid c hc).mono _

theorem origins {s : Sys} {log : Log} (h : server.recorded.Reach drawsWell s log) :
    Origins s log := by
  refine Machine.Reach.log_induct (P := Origins) ?_ ?_ h
  · intro s hinit
    obtain ⟨url, rfl⟩ := hinit
    refine ⟨?_, ?_⟩ <;> intros <;> next h => cases h
  · intro s log a s' evs hreach hi hg hs
    refine ⟨?_, ?_⟩
    · intro cid c hc
      exact cast_from hreach.unrecorded hs (fun _ _ => hi.cast) hc
    · intro tx msg hm
      rw [Machine.eventsOf_append] at hm
      rcases List.mem_append.mp hm with ho | he
      · exact (hi.enqueued ho).mono _
      · rw [Machine.eventsOf_singleton] at he
        obtain ⟨cid, txs, hc⟩ := enqueued_by (step_spec hs) he
        exact (hi.cast hc).mono _

/-- The message in hand has been broadcast. -/
theorem hand_origin {s : Sys} {log : Log} (h : server.recorded.Reach drawsWell s log)
    {c : ClientSession} {msg : ServerReliable} {addrs : List SocketAddr}
    (hd : s.drain = some (.send c msg addrs)) : Origin log msg :=
  (origins h).enqueued (hand_enqueued h.unrecorded hd)

/-! ## The packets of a start -/

/-- A layout renames nobody. -/
theorem total_assignLoop (f : PlayerHandle → Nat)
    (hf : ∀ sh i seat, f (layoutHandle sh i seat) = f seat) (sh : Shuffles) (ids : List String)
    (i : Nat) (players : HashMap String PlayerHandle) :
    HashMap.total f (assignLoop sh ids i players) = HashMap.total f players := by
  induction ids generalizing i players with
  | nil => rfl
  | cons p ids ih =>
    rw [assignLoop]
    split
    · exact ih (i + 1) players
    · next seat hs =>
      have hover := HashMap.total_over f hs (layoutHandle sh i seat)
      rw [hf] at hover
      rw [ih]
      omega

theorem snapshot_total (f : String → Nat) (room : MatchRoom) :
    ((snapshotPlayers room).map fun row => f row.displayName).sum =
      HashMap.total (fun seat => f seat.displayName) room.players := by
  rw [((snapshot_perm room).map _).sum_nat, List.map_map, HashMap.total, ← HashMap.values_toList,
    List.map_map]
  rfl

theorem snapshot_length (room : MatchRoom) : (snapshotPlayers room).length = room.players.len := by
  rw [(snapshot_perm room).length_eq, List.length_map, HashMap.toList, List.length_map]
  rfl

section Writer
variable (w : Writer)

/-- The bytes of the display names in the room, as they are written. -/
def MatchRoom.nameBytes (room : MatchRoom) : Nat :=
  HashMap.total (fun seat => (w.string seat.displayName).utf8ByteSize) room.players

/-- The step starts no room whose names leave too little room in the packet. -/
def startFits (s : Sys) : Action → Prop
  | .startRoom m _ ch => ∀ room, s.core.rooms.get m = some room → room.startedAtUnix = 0 →
      room.nameBytes w + startOverhead room.players.len ch.nowUnix ch.nowMs ≤ maxUdpPayload
  | _ => True

/-- The rows that a first start announces. -/
theorem start_digits {s : Sys} {tr : List Event} (h : server.Reach drawsWell s tr) {m : String}
    {room : MatchRoom} (hr : s.core.rooms.get m = some room) (sh : Shuffles) (now : Nat) :
    ∀ row ∈ snapshotPlayers (room.start sh now), row.Digits := by
  intro row hrow
  have hfirst := start_firstStart sh now (capacity h m room hr)
  obtain ⟨hcolor, hlen, -, hstages, hcurrent⟩ := hfirst.row row hrow
  obtain ⟨seat', hs', -⟩ := (hfirst.listing.mem row).mp hrow
  obtain ⟨seat, hs, -⟩ := seat_after_start sh now hs'
  refine ⟨(seat_drawn h ((seat_of_room hr row.playerId).trans hs)).2, ?_, hlen, ?_, ?_⟩
  · exact hcolor.trans (by decide)
  · intro x hx
    exact (hstages x hx).trans (by decide)
  · omega

/-- The packet that announces a first start, by the room as it was before. -/
theorem start_size {s : Sys} {tr : List Event} (h : server.Reach drawsWell s tr) {m : String}
    {room : MatchRoom} (hr : s.core.rooms.get m = some room) (sh : Shuffles) (now ms : Nat) :
    (reliablePacket w (.matchStarted m now (snapshotPlayers (room.start sh now)) ms)).size =
      room.nameBytes w + startOverhead room.players.len now ms := by
  have hlen : (snapshotPlayers (room.start sh now)).length = room.players.len := by
    rw [snapshot_length, len_start]
  have hnames : ((snapshotPlayers (room.start sh now)).map fun row =>
      (w.string row.displayName).utf8ByteSize).sum = room.nameBytes w := by
    rw [snapshot_total fun name => (w.string name).utf8ByteSize]
    exact total_assignLoop _ (fun _ _ _ => rfl) _ _ _ _
  rw [matchStarted_size w (rooms_drawn h m room hr) now (start_digits h hr sh now), hlen, hnames]
  omega

/-- A message that a first start has put under way. -/
theorem starts_room {s : Sys} {log : Log} (h : server.recorded.Reach drawsWell s log)
    {x : Moment Sys Action Event} (hx : x ∈ log) {msg : ServerReliable} (hs : Starts x msg) :
    ∃ pre post m sh ch room, log = pre ++ x :: post ∧ server.recorded.Reach drawsWell x.before pre ∧
      x.action = .startRoom m sh ch ∧ x.before.core.rooms.get m = some room ∧
      room.startedAtUnix = 0 ∧
      msg = .matchStarted m ch.nowUnix (snapshotPlayers (room.start sh ch.nowUnix)) ch.nowMs := by
  obtain ⟨pre, post, rfl⟩ := List.append_of_mem hx
  obtain ⟨hreach, -, hstep⟩ := Machine.moment_at h
  obtain ⟨m, sh, ch, players, ha, he, rfl⟩ := hs
  have hmem : Event.roomStarted m ch.nowUnix true players ∈ x.events :=
    he ▸ List.mem_singleton_self _
  obtain ⟨sh', ch', room, ha', hr, h0, rfl, -⟩ := started_by (step_core (step_spec hstep)) hmem
  rw [ha] at ha'
  obtain ⟨-, rfl, rfl⟩ := Action.startRoom.inj ha'
  exact ⟨pre, post, m, sh, ch, room, rfl, hreach, ha, hr, h0, rfl⟩

theorem start_fits {s : Sys} {log : Log} (h : server.recorded.Reach drawsWell s log)
    {x : Moment Sys Action Event} (hx : x ∈ log) {msg : ServerReliable} (hs : Starts x msg) :
    (reliablePacket w msg).size ≤ maxUdpPayload ↔ startFits w x.before x.action := by
  obtain ⟨pre, post, m, sh, ch, room, -, hreach, ha, hr, h0, rfl⟩ := starts_room h hx hs
  rw [start_size w hreach.unrecorded hr, ha]
  constructor
  · intro hfits room' hr' _
    rw [hr] at hr'
    exact Option.some.inj hr' ▸ hfits
  · intro hfits
    exact hfits room hr h0

/-! ## Which packets fit -/

/-- A packet is built for the answer of a join task, or for the message in hand. -/
theorem sends_from {s : Sys} {a : Action} {addr : SocketAddr} {msg : ServerReliable}
    (hs : sends s a = some (addr, msg)) :
    (∃ tid m p params ms, s.joins.get tid = some (.sendOk addr m p params) ∧
      msg = .joinOk m p params ms) ∨
    (∃ tid code message rx, s.joins.get tid = some (.sendError addr code message rx) ∧
      msg = .error code message) ∨
    ∃ c addrs, s.drain = some (.send c msg addrs) ∧ addr = c.addr := by
  unfold sends at hs
  split at hs
  · next tid ch =>
    split at hs
    · next ht =>
      cases hs
      exact .inl ⟨tid, _, _, _, _, ht, rfl⟩
    · next ht =>
      cases hs
      exact .inr (.inl ⟨tid, _, _, _, ht, rfl⟩)
    · cases hs
  · split at hs
    · next hd =>
      cases hs
      exact .inr (.inr ⟨_, _, hd, rfl⟩)
    · cases hs
  · cases hs

theorem joinErrors_plain : ∀ e ∈ joinErrors, Plain e.1 ∧ Plain e.2 ∧
    e.1.toList.length + e.2.toList.length ≤ 36 := by decide

/-- A message that no start has put under way has a short packet. -/
theorem short_or_started {s : Sys} {log : Log} (h : server.recorded.Reach drawsWell s log)
    {a : Action} {addr : SocketAddr} {msg : ServerReliable} (hs : sends s a = some (addr, msg)) :
    ((reliablePacket w msg).size ≤ maxUdpPayload ∧
      ∀ m t players ms, msg ≠ .matchStarted m t players ms) ∨ ∃ x ∈ log, Starts x msg := by
  have hmax : maxUdpPayload = 65507 := rfl
  rcases sends_from hs with ⟨tid, m, p, params, ms, ht, rfl⟩ | ⟨tid, code, message, rx, ht, rfl⟩ |
    ⟨c, addrs, hd, -⟩
  · obtain ⟨tx, ho⟩ := (join_answers h.unrecorded).accepting ht
    obtain ⟨hm, hp⟩ := registered_drawn h.unrecorded ho
    have hsize := joinOk_size w hm hp params ms
    exact .inl ⟨by omega, nofun⟩
  · obtain ⟨hcode, hmessage, hlen⟩ : Plain code ∧ Plain message ∧
        code.toList.length + message.toList.length ≤ 36 :=
      joinErrors_plain _ ((join_answers h.unrecorded).refusing ht)
    have hsize := error_size w hcode hmessage
    exact .inl ⟨by omega, nofun⟩
  · cases hand_origin h hd with
    | @applied p seq next ms params hp =>
      have hsize := paramApplied_size w hp seq params next ms
      exact .inl ⟨by omega, nofun⟩
    | @refused e hp hl =>
      have hcode : Plain "param_update_failed" := by decide
      have hlen : "param_update_failed".toList.length = 19 := by simp
      have hsize := error_size w hcode hp
      exact .inl ⟨by omega, nofun⟩
    | started hx hst => exact .inr ⟨_, hx, hst⟩

/-- The names that a start announces were given with the tickets of its players. -/
theorem start_names {s : Sys} {log : Log} (h : server.recorded.Reach drawsWell s log)
    {x : Moment Sys Action Event} (hx : x ∈ log) {m : String} {t ms : Nat}
    {players : List PlayerMatchState} (hs : Starts x (.matchStarted m t players ms)) :
    players.length ≤ roomMaxPlayers ∧
      ∀ row ∈ players, NameIssued (eventsOf log) m row.playerId row.displayName := by
  obtain ⟨pre, post, m', sh, ch, room, rfl, hreach, -, hr, -, heq⟩ := starts_room h hx hs
  obtain ⟨rfl, rfl, rfl, rfl⟩ := ServerReliable.matchStarted.inj heq
  refine ⟨?_, ?_⟩
  · rw [snapshot_length, len_start]
    exact capacity hreach.unrecorded m room hr
  · intro row hrow
    obtain ⟨p, seat', hs', rfl⟩ := mem_snapshot.mp hrow
    obtain ⟨seat, hseat, rfl⟩ := seat_after_start sh ch.nowUnix hs'
    rw [Machine.eventsOf_append]
    exact ((names_issued hreach.unrecorded).seat ((seat_of_room hr p).trans hseat)).mono _

/-- Over any run, a reliable packet that is built fits a datagram exactly when the start that
it announces, if it announces one, left enough room beside the display names; these are those
of at most four players, as they were given with their tickets. -/
theorem reliable_packets_fit {s : Sys} {log : Log} (h : server.recorded.Reach drawsWell s log)
    {a : Action} {addr : SocketAddr} {msg : ServerReliable} (hs : sends s a = some (addr, msg)) :
    ((reliablePacket w msg).size ≤ maxUdpPayload ↔
      ∀ x ∈ log, Starts x msg → startFits w x.before x.action) ∧
    ∀ m t players ms, msg = .matchStarted m t players ms →
      (∃ x ∈ log, Starts x msg) ∧ players.length ≤ roomMaxPlayers ∧
      ∀ row ∈ players, NameIssued (eventsOf log) m row.playerId row.displayName := by
  rcases short_or_started w h hs with ⟨hshort, hno⟩ | ⟨x₀, hx₀, hs₀⟩
  · refine ⟨⟨?_, fun _ => hshort⟩, ?_⟩
    · intro _ x _ hst
      obtain ⟨m, sh, ch, players, -, -, heq⟩ := hst
      exact absurd heq (hno _ _ _ _)
    · intro m t players ms heq
      exact absurd heq (hno _ _ _ _)
  · refine ⟨⟨?_, ?_⟩, ?_⟩
    · intro hfits x hx hst
      exact (start_fits w h hx hst).mp hfits
    · intro hall
      exact (start_fits w h hx₀ hs₀).mpr (hall x₀ hx₀ hs₀)
    · intro m t players ms heq
      subst heq
      exact ⟨⟨x₀, hx₀, hs₀⟩, start_names h hx₀ hs₀⟩

end Writer

/-! ## A start under a given name -/

def someUuid : String := "0123456789abcdef0123456789abcdef"

/-- A player joins under the name, and the room is started; its announcement is in hand. -/
def startNamed (name : String) : List Action :=
  [.createRoom someUuid 1, .issueJoinTicket ⟨matchIdOf someUuid, name⟩ someUuid "t" 1] ++
  soloJoin 0 ⟨1, 1⟩ "t" [{}, {}, {}, {}, {}] ++
  [.startRoom (matchIdOf someUuid) .inOrder { nowUnix := 5 }, .cast 0 { txs := [0] }, .cast 0 {},
    .drainStart [⟨1, 1⟩], .drainStep true]

def namedStart (name : String) : ServerReliable :=
  .matchStarted (matchIdOf someUuid) 5
    [{ playerId := playerIdOf someUuid
       displayName := normalizeDisplayName name
       colorIndex := 0
       stageOrder := [0, 1, 2, 3]
       currentStageIndex := 0 }] 0

/-- The run does not look at the name. -/
theorem startNamed_sends (name : String) : ∃ s log, server.recorded.Reach drawsWell s log ∧
    sends s (.drainStep true) = some (⟨1, 1⟩, namedStart name) := by
  have hrun : (server.recorded.exec drawsWell (Sys.init "") (startNamed name)).map
      (fun r => sends r.1 (.drainStep true)) = some (some (⟨1, 1⟩, namedStart name)) := rfl
  obtain ⟨⟨s, log⟩, hexec, hs⟩ := Option.map_eq_some_iff.mp hrun
  exact ⟨s, log, ⟨_, _, ⟨"", rfl⟩, Machine.run_of_exec hexec⟩, hs⟩

theorem namedStart_size (w : Writer) (name : String) : (reliablePacket w (namedStart name)).size =
    (w.string (normalizeDisplayName name)).utf8ByteSize + 252 := by
  have huuid : SimpleUuid someUuid := by decide
  have hover : startOverhead 1 5 0 = 252 := by decide
  rw [namedStart, matchStarted_size w (matchIdOf_drawn huuid)]
  · rw [List.length_singleton, hover, List.map_singleton, List.sum_singleton]
    exact Nat.add_comm _ _
  · intro row hrow
    rw [List.mem_singleton.mp hrow]
    exact ⟨playerIdOf_drawn huuid, show 0 < 10 by decide, rfl,
      show ∀ x ∈ [0, 1, 2, 3], x < 10 by decide, show 0 < 10 by decide⟩

/-- A start under a short name. -/
theorem reliable_packets_fit_short : ∃ s log x, server.recorded.Reach drawsWell s log ∧
    sends s (.drainStep true) = some (⟨1, 1⟩, namedStart "x") ∧ x ∈ log ∧
    Starts x (namedStart "x") ∧ startFits (jsonWriter fun _ => "") x.before x.action := by
  obtain ⟨s, log, h, hs⟩ := startNamed_sends "x"
  obtain ⟨hfits, hstart⟩ := reliable_packets_fit (jsonWriter fun _ => "") h hs
  obtain ⟨⟨x, hx, hst⟩, -⟩ := hstart _ _ _ _ rfl
  refine ⟨s, log, x, h, hs, hx, hst, hfits.mp ?_ x hx hst⟩
  rw [namedStart_size]
  decide

def longName : String := String.ofList (List.replicate 65508 'a')

theorem longName_bytes : (normalizeDisplayName longName).utf8ByteSize = 65508 := by
  have hlist : longName.toList = List.replicate 65508 'a' := String.toList_ofList
  have hblank : isBlank longName = false := by
    rw [isBlank, hlist, List.replicate_succ]
    rfl
  have hascii : ∀ c ∈ longName.toList, c.toNat ≤ 127 := by
    intro c hc
    rw [hlist] at hc
    rw [List.eq_of_mem_replicate hc]
    decide
  rw [normalizeDisplayName, hblank, if_neg Bool.false_ne_true, Json.ascii_size hascii, hlist,
    List.length_replicate]

/-- A name of 65508 bytes: the announcement is too long for any of the players. -/
theorem start_too_long : ¬ ∀ (w : Writer) s log a addr msg,
    server.recorded.Reach drawsWell s log → sends s a = some (addr, msg) →
    (reliablePacket w msg).size ≤ maxUdpPayload := by
  intro hall
  obtain ⟨s, log, h, hs⟩ := startNamed_sends longName
  have hfits := hall (jsonWriter fun _ => "") s log _ _ _ h hs
  have hmax : maxUdpPayload = 65507 := rfl
  have hbytes := (jsonWriter fun _ => "").bytes (normalizeDisplayName longName)
  rw [longName_bytes] at hbytes
  rw [namedStart_size] at hfits
  omega

end Kotatsu
