import Kotatsu.Arrivals

/-
  What the test finds

  Over any run of the world, whatever the network loses, repeats and reorders, and whatever
  strangers do, no client is told of a join under an id that is not its own, and a refused
  join has one of the four reasons (`no_false_alarm`). The statistics are true of the
  history of the server and are those of what has arrived, so `main` complains only of what
  has not arrived or was not taken, or of what the room did not show when it was read; and a
  pass tells of four players in their seats, of what the server has sent them for each other
  and of one change and its cooldown (`verdict_sound`).
-/

namespace Kotatsu.TestClient

open Machine (eventsOf)

/-! ## The room that was read -/

/-- A player that has registered is in its room, or has left it. -/
theorem registered_stays {G : Sys → Action → Prop} {s : Sys} {tr : List Event}
    (h : Kotatsu.server.Reach G s tr) {m p : String} {a : SocketAddr} {tx : ChanId}
    {room : MatchRoom} (ho : Event.registered m p a tx ∈ tr)
    (hr : s.core.rooms.get m = some room) (hleft : Event.seatRemoved m p ∉ tr) :
    ∃ seat, room.players.get p = some seat := by
  suffices hlink : ∃ l, s.core.link m p = some l by
    obtain ⟨l, hl⟩ := hlink
    obtain ⟨seat, hseat, -⟩ := link_eq_some.mp hl
    exact ⟨seat, (seat_of_room hr p).symm.trans hseat⟩
  refine Machine.Reach.induct (P := fun s tr => ∀ room, Event.registered m p a tx ∈ tr →
    s.core.rooms.get m = some room → Event.seatRemoved m p ∉ tr →
    ∃ l, s.core.link m p = some l) ?_ ?_ h room ho hr hleft
  · intro s _ room ho
    cases ho
  · intro s tr act s' evs hreach ih _ hs room' ho hr' hleft
    have hstep := step_spec hs
    have hlink := link_step (rooms_seen hreach) (step_core hstep)
    rcases List.mem_append.mp ho with ho | he
    · obtain ⟨room, hr⟩ := room_before hstep ((live_seats hreach).seen ho) hr'
      obtain ⟨l, hl⟩ := ih room ho hr fun hmem => hleft (List.mem_append_left _ hmem)
      refine ⟨l, link_kept hlink hl ?_ (fun hmem => hleft (List.mem_append_right _ hmem)) ?_⟩
      · intro a' tx' he
        exact unregistered_before (registry hreach) hstep he _ _ _ ho
      · intro he
        rw [removed_gone (step_core hstep) he] at hr'
        cases hr'
    · exact ⟨_, link_registered hlink he⟩

/-- A room that was read is there as it was shown. -/
theorem got_room {G : Sys → Action → Prop} {s : Sys} {pre post : List Event} {room : RoomSummary}
    (h : Kotatsu.server.Reach G s (pre ++ .got room :: post)) :
    ∃ s₀ r, Kotatsu.server.Reach G s₀ pre ∧ s₀.core.rooms.get room.matchId = some r ∧
      room = roomSummary room.matchId r := by
  have halone : ∀ s a s' evs, Kotatsu.server.step s a = some (s', evs) →
      Event.got room ∈ evs → evs = [.got room] ∧
        ∃ r, s.core.rooms.get room.matchId = some r ∧ room = roomSummary room.matchId r := by
    intro s a s' evs hs he
    have hc : ControlStep s a s' evs := step_emitted (w := .control) (step_spec hs) he rfl
    cases hc with
    | @got m r hr =>
      obtain rfl : room = roomSummary m r := by simpa using he
      exact ⟨rfl, r, hr, rfl⟩
    | _ => simp at he
  obtain ⟨s₀, a, s₁, hreach, -, hs⟩ :=
    h.event_alone rfl fun s a s' evs hs he => (halone s a s' evs hs he).1
  exact ⟨s₀, (halone s₀ a s₁ _ hs (List.mem_singleton_self _)).2.imp fun r hr =>
    ⟨hreach, hr⟩⟩

/-- A row shows the history of its player by then. -/
theorem got_row {G : Sys → Action → Prop} {s : Sys} {pre post : List Event} {room : RoomSummary}
    (h : Kotatsu.server.Reach G s (pre ++ .got room :: post)) {row : RoomPlayer}
    (hrow : row ∈ room.players) :
    row.gravity = (paramsAfter (updatesOf pre row.playerId)).gravity ∧
      row.friction = (paramsAfter (updatesOf pre row.playerId)).friction ∧
      row.speed = (paramsAfter (updatesOf pre row.playerId)).speed ∧
      row.nextParamChangeAtUnix = nextAfter (updatesOf pre row.playerId) := by
  obtain ⟨s₀, r, hreach, hr, heq⟩ := got_room h
  rw [heq] at hrow
  obtain ⟨seat, hseat, hshows⟩ := ((roomPlayers_listing r).mem row).mp hrow
  obtain ⟨hparams, hnext⟩ :=
    (params_logged hreach).seat ((seat_of_room hr row.playerId).trans hseat)
  refine ⟨?_, ?_, ?_, ?_⟩
  · rw [hshows.gravity, hparams]
  · rw [hshows.friction, hparams]
  · rw [hshows.speed, hparams]
  · rw [hshows.nextParamChangeAtUnix, hnext]

/-- Whoever is in the room has a row. -/
theorem got_rows {G : Sys → Action → Prop} {s : Sys} {pre post : List Event} {room : RoomSummary}
    (h : Kotatsu.server.Reach G s (pre ++ .got room :: post)) {p : String} {a : SocketAddr}
    {tx : ChanId} (ho : Event.registered room.matchId p a tx ∈ pre)
    (hleft : Event.seatRemoved room.matchId p ∉ pre) : ∃ row ∈ room.players, row.playerId = p := by
  obtain ⟨s₀, r, hreach, hr, heq⟩ := got_room h
  obtain ⟨seat, hseat⟩ := registered_stays hreach ho hr hleft
  refine ⟨roomPlayer p seat, ?_, rfl⟩
  rw [heq]
  exact ((roomPlayers_listing r).mem _).mpr ⟨seat, hseat, roomPlayer_shows p seat⟩

/-! ## What has arrived for a player -/

/-- The client at `a` plays `p`, and has been answered. -/
structure Plays (w : World) (wlog : WorldLog) (a : SocketAddr) (c : Client) (p : String) :
    Prop where
  client : w.clients.get a = some c
  player : c.join.playerId = p
  answered : ∃ params, Arrival.answer params ∈ arrivalsAt wlog a

/-- The client of `p` has not taken such a message: what has arrived of them waits, or was in
the hands of the reader when its client returned. -/
def NotTaken (w : World) (wlog : WorldLog) (p : String) (f : ServerReliable → Bool) : Prop :=
  ∃ a c, Plays w wlog a c p ∧ ∀ msg, f msg = true → Arrival.message msg ∈ arrivalsAt wlog a →
    msg ∈ c.waiting ∨ c.reader = .ended ∧ (messagesOf (arrivalsAt wlog a)).getLast? = some msg

/-- `n` different players are as `P` says. -/
def Counts (n : Nat) (P : String → Prop) : Prop :=
  ∃ ps : List String, ps.Nodup ∧ ps.length = n ∧ ∀ p, p ∈ ps ↔ P p

section Entries
variable {text : F32 → Number} {w : World} {wlog : WorldLog}
  (h : (world text).recorded.Reach Machine.anyStep w wlog)

include h

/-- An entry is the account of the client that plays its player. -/
theorem entry_account {p : String} {st : ClientStats} (hst : w.stats.get p = some st) :
    ∃ a c taken, Plays w wlog a c p ∧ Account (arrivalsAt wlog a) c st taken := by
  obtain ⟨a, c, hc, rfl, hreader⟩ := (accounted h).owner hst
  obtain ⟨st', taken, hst', haccount⟩ := (accounted h).account hc hreader
  rw [hst] at hst'
  obtain rfl := Option.some.inj hst'
  exact ⟨a, c, taken, ⟨hc, rfl, haccount.answered⟩, haccount⟩

/-- A client that was answered has a reader. -/
theorem Plays.reads {a : SocketAddr} {c : Client} {p : String} (hp : Plays w wlog a c p) :
    c.reader ≠ .off := by
  intro hoff
  obtain ⟨params, hanswer⟩ := hp.answered
  rw [((accounted h).waiting hp.client hoff).1] at hanswer
  cases hanswer

theorem Plays.account {a : SocketAddr} {c : Client} {p : String} (hp : Plays w wlog a c p) :
    ∃ st taken, w.stats.get p = some st ∧ Account (arrivalsAt wlog a) c st taken :=
  hp.player ▸ (accounted h).account hp.client (hp.reads h)

theorem Plays.seated {a : SocketAddr} {c : Client} {p : String} (hp : Plays w wlog a c p) :
    ∃ m tx, Event.registered m p a tx ∈ eventsOf (eventsOf wlog) :=
  hp.player ▸ (accounted h).seated hp.client (hp.reads h)

end Entries

/-- What is not among the taken messages has not been taken. -/
theorem not_taken {w : World} {wlog : WorldLog} {a : SocketAddr} {c : Client} {p : String}
    {st : ClientStats} {taken : List ServerReliable} {f : ServerReliable → Bool}
    (hp : Plays w wlog a c p) (haccount : Account (arrivalsAt wlog a) c st taken)
    (hno : taken.any f = false) : NotTaken w wlog p f := by
  refine ⟨a, c, hp, ?_⟩
  intro msg hf hmsg
  refine haccount.untaken (mem_messagesOf.mpr hmsg) fun htaken => ?_
  have hany : taken.any f = true := List.any_eq_true.mpr ⟨msg, htaken, hf⟩
  rw [hno] at hany
  cases hany

/-! ## The verdict -/

/-- The loop over the statistics stops at the first entry that fails. -/
theorem checkClients_cases (order : List (String × ClientStats)) :
    (checkClients order = .ok () ∧ ∀ e ∈ order, checkClient e.1 e.2 = .ok ()) ∨
      ∃ e ∈ order, ∃ f, checkClient e.1 e.2 = .error f ∧ checkClients order = .error f := by
  induction order with
  | nil => exact .inl ⟨rfl, nofun⟩
  | cons e rest ih =>
    obtain ⟨p, st⟩ := e
    have hcons : checkClients ((p, st) :: rest) =
        (checkClient p st >>= fun _ => checkClients rest) := rfl
    cases hc : checkClient p st with
    | error f =>
      right
      refine ⟨(p, st), List.mem_cons_self, f, hc, ?_⟩
      rw [hcons, hc]
      rfl
    | ok u =>
      have hrest : checkClients ((p, st) :: rest) = checkClients rest := by
        rw [hcons, hc]
        rfl
      rw [hrest]
      rcases ih with ⟨hok, hall⟩ | ⟨e, he, f, hf, herror⟩
      · left
        refine ⟨hok, ?_⟩
        intro e he
        rcases List.mem_cons.mp he with rfl | he
        · exact hc
        · exact hall e he
      · exact .inr ⟨e, List.mem_cons_of_mem _ he, f, hf, herror⟩

/-- How the checks end. -/
inductive Checked (stats : Stats) (order : List (String × ClientStats)) (trigger : String)
    (players : List RoomPlayerRes) : Except Failure Unit → Prop
  | miscounted (hlen : stats.len ≠ 4) :
      Checked stats order trigger players (.error (.clientCount stats.len))
  | client {e : String × ClientStats} {f : Failure} (he : e ∈ order)
      (hf : checkClient e.1 e.2 = .error f) : Checked stats order trigger players (.error f)
  | noTrigger (hst : stats.get trigger = none) :
      Checked stats order trigger players (.error .missingTrigger)
  | trigger {st : ClientStats} {f : Failure} (hst : stats.get trigger = some st)
      (hf : checkTrigger st = .error f) : Checked stats order trigger players (.error f)
  | room {st : ClientStats} {f : Failure} (hst : stats.get trigger = some st)
      (hf : checkRoom trigger players = .error f) : Checked stats order trigger players (.error f)
  | passed {st : ClientStats} (hlen : stats.len = 4)
      (hclients : ∀ e ∈ order, checkClient e.1 e.2 = .ok ()) (hst : stats.get trigger = some st)
      (htrigger : checkTrigger st = .ok ()) : Checked stats order trigger players (.ok ())

theorem verdict_checked (stats : Stats) (order : List (String × ClientStats)) (trigger : String)
    (players : List RoomPlayerRes) :
    Checked stats order trigger players (verdict stats order trigger players) := by
  unfold verdict
  split
  · next hlen => exact .miscounted hlen
  · next hlen =>
    rcases checkClients_cases order with ⟨hok, hclients⟩ | ⟨e, he, f, hf, herror⟩
    · rw [hok]
      cases hst : stats.get trigger with
      | none => exact .noTrigger hst
      | some st =>
        change Checked stats order trigger players
          (checkTrigger st >>= fun _ => checkRoom trigger players)
        cases ht : checkTrigger st with
        | error f => exact .trigger hst ht
        | ok _ =>
          change Checked stats order trigger players (checkRoom trigger players)
          cases hr : checkRoom trigger players with
          | error f => exact .room hst hr
          | ok _ => exact .passed (not_not.mp hlen) hclients hst ht
    · rw [herror]
      exact .client he hf

/-- A failure that tells of what has not arrived or was not taken, or of what the room did not
show whenever it was read like that. Only a clock whose reading ends the cooldown at a multiple
of `2 ^ 64` leaves no time stamp. -/
def Failure.Fair (w : World) (wlog : WorldLog) (trigger : String) (room : RoomSummary) :
    Failure → Prop
  | .clientCount got => got ≠ 4 ∧ Counts got fun p => ∃ a c, Plays w wlog a c p
  | .noParamApplied p => NotTaken w wlog p isApplied
  | .tooFewPlayers p count => count < 2 ∧
    ∃ a c, Plays w wlog a c p ∧ Counts count fun q => Arrival.datagram q ∈ arrivalsAt wlog a
  | .missingTrigger => ∀ a c, ¬ Plays w wlog a c trigger
  | .noCooldownRejection => NotTaken w wlog trigger isCooldown
  | .missingObserved => NotTaken w wlog trigger (isAppliedTo trigger)
  | .missingCooldown =>
    ∃ now, Raised (eventsOf wlog) trigger now ∧ 2 ^ 64 ∣ now + paramChangeCooldownSecs
  | .missingRoomPlayer => ∀ pre post, eventsOf (eventsOf wlog) = pre ++ .got room :: post →
    (∀ a tx, Event.registered room.matchId trigger a tx ∉ pre) ∨
      Event.seatRemoved room.matchId trigger ∈ pre
  | .roomMismatch gravity friction speed => gravity = 2 ∧ friction = 2 ∧ speed = 2 ∧
    ∀ pre post, eventsOf (eventsOf wlog) = pre ++ .got room :: post → updatesOf pre trigger = []
  | .missingJoinParams _ | .wrongDefaults _ _ | .wrongObserved _ | .roomMissingCooldown => False

section Checks
variable {text : F32 → Number} {w : World} {wlog : WorldLog} {room : RoomSummary}
  (h : (world text).recorded.Reach Machine.anyStep w wlog)

include h

/-- The entries are those of the players of answered clients. -/
theorem entries_counted : Counts w.stats.len fun p => ∃ a c, Plays w wlog a c p := by
  refine ⟨w.stats.keys, w.stats.keys_nodup, w.stats.len_keys, ?_⟩
  intro p
  rw [HashMap.mem_keys]
  constructor
  · intro hst
    obtain ⟨st, hst⟩ := hst
    obtain ⟨a, c, -, hplays, -⟩ := entry_account h hst
    exact ⟨a, c, hplays⟩
  · intro hplays
    obtain ⟨a, c, hplays⟩ := hplays
    obtain ⟨st, -, hst, -⟩ := hplays.account h
    exact ⟨st, hst⟩

theorem checkClient_fair {p trigger : String} {st : ClientStats} (hst : w.stats.get p = some st)
    {f : Failure} (hf : checkClient p st = .error f) : f.Fair w wlog trigger room := by
  have hsound := (hearing h.unrecorded).sound hst
  obtain ⟨a, c, taken, hplays, haccount⟩ := entry_account h hst
  simp only [checkClient, hsound.joinParams] at hf
  split at hf
  · next hne => exact absurd hne (by decide)
  · split at hf
    · next hzero =>
      cases hf
      refine not_taken hplays haccount ?_
      rw [haccount.applied, List.countP_eq_zero] at hzero
      exact List.any_eq_false.mpr hzero
    · split at hf
      · next hfew =>
        cases hf
        refine ⟨hfew, a, c, hplays, st.datagramFromPlayers, hsound.distinct, rfl, ?_⟩
        intro q
        rw [haccount.players, mem_playersOf]
      · cases hf

/-- A rejection for the cooldown is the answer to a request of one's own. -/
theorem cooled_asks {a : SocketAddr} {c : Client} (hc : w.clients.get a = some c)
    {msg : ServerReliable} (hmsg : Arrival.message msg ∈ arrivalsAt wlog a)
    (hcool : isCooldown msg = true) : c.triggerParamUpdate = true := by
  have hheard := (accounted h).heard hmsg
  cases msg with
  | error code message =>
    simp only [isCooldown, Bool.and_eq_true, beq_iff_eq] at hcool
    obtain ⟨rfl, -⟩ := hcool
    exact (refused_own h.unrecorded hc hheard (by simp [joinErrors])).1
  | _ => cases hcool

theorem checkTrigger_fair {trigger : String} {st : ClientStats}
    (hst : w.stats.get trigger = some st) {f : Failure} (hf : checkTrigger st = .error f) :
    f.Fair w wlog trigger room := by
  have hsound := (hearing h.unrecorded).sound hst
  obtain ⟨a, c, taken, hplays, haccount⟩ := entry_account h hst
  unfold checkTrigger at hf
  split at hf
  · next hseen =>
    cases hf
    rw [haccount.cooldown, Bool.and_eq_false_iff] at hseen
    rcases hseen with hflag | hno
    · -- a client that asks for nothing is refused nothing
      refine ⟨a, c, hplays, fun msg hcool hmsg => ?_⟩
      rw [cooled_asks h hplays.client hmsg hcool] at hflag
      cases hflag
    · exact not_taken hplays haccount hno
  · split at hf
    · next hnone =>
      cases hf
      refine not_taken hplays haccount ?_
      rw [← hplays.player, ← haccount.observed, hnone]
      rfl
    · next params hparams =>
      obtain ⟨rfl, now, hraised, hnext⟩ := hsound.observed params hparams
      split at hf
      · next hne => exact absurd hne (by decide)
      · split at hf
        · next hzero =>
          cases hf
          rw [hnext] at hzero
          exact ⟨now, hraised, Nat.dvd_of_mod_eq_zero hzero⟩
        · cases hf

/-- The row of a client's player shows the defaults before its change, and then the step up with
its cooldown. -/
theorem row_levels {p : String} {st : ClientStats} (hst : w.stats.get p = some st)
    {pre post : List Event} (hread : eventsOf (eventsOf wlog) = pre ++ .got room :: post)
    {row : RoomPlayer} (hrow : row ∈ room.players) (hp : row.playerId = p) :
    (row.gravity = 2 ∧ row.friction = 2 ∧ row.speed = 2 ∧ updatesOf pre p = []) ∨
      row.gravity = 3 ∧ row.friction = 2 ∧ row.speed = 2 ∧ row.nextParamChangeAtUnix ≠ 0 := by
  obtain ⟨a, c, m, tx, hc, rfl, ho⟩ := ((hearing h.unrecorded).sound hst).own
  have hreach := (world_serves h.unrecorded).unrecorded
  rw [hread] at hreach
  obtain ⟨hg, hf, hs, hnext⟩ := got_row hreach hrow
  rw [hp] at hg hf hs hnext
  rw [hg, hf, hs, hnext]
  cases hlast : (updatesOf pre c.join.playerId).getLast? with
  | none =>
    have hnil := List.getLast?_eq_none_iff.mp hlast
    rw [hnil]
    exact .inl ⟨rfl, rfl, rfl, rfl⟩
  | some u =>
    have hu : u ∈ updatesOf (eventsOf (eventsOf wlog)) c.join.playerId := by
      rw [hread, updatesOf_append]
      exact List.mem_append_left _ (List.mem_of_getLast? hlast)
    obtain ⟨-, hraised, hcool, -⟩ := own_history h.unrecorded hc ho hu
    have hparams : paramsAfter (updatesOf pre c.join.playerId) = raised := by
      rw [paramsAfter, hlast]
      exact hraised
    have hafter : nextAfter (updatesOf pre c.join.playerId) =
        u.nowUnix + paramChangeCooldownSecs := by
      rw [nextAfter, hlast]
      exact hcool
    have hpos : 0 < paramChangeCooldownSecs := by decide
    rw [hparams, hafter]
    exact .inr ⟨rfl, rfl, rfl, by omega⟩

theorem checkRoom_fair {trigger : String} {st : ClientStats}
    (hst : w.stats.get trigger = some st) (hroom : Event.got room ∈ eventsOf (eventsOf wlog))
    {f : Failure} (hf : checkRoom trigger (room.players.map roomPlayerRes) = .error f) :
    f.Fair w wlog trigger room := by
  have hreach := (world_serves h.unrecorded).unrecorded
  unfold checkRoom at hf
  split at hf
  · next hnone =>
    cases hf
    intro pre post hread
    rw [hread] at hreach
    by_contra hnot
    obtain ⟨hreg, hleft⟩ := not_or.mp hnot
    push Not at hreg
    obtain ⟨a, tx, ho⟩ := hreg
    obtain ⟨row, hrow, rfl⟩ := got_rows hreach ho hleft
    have hmiss := List.find?_eq_none.mp hnone _ (List.mem_map_of_mem hrow)
    exact hmiss (beq_self_eq_true row.playerId)
  · next p hp =>
    have hplayer : p.playerId = trigger := by simpa using List.find?_some hp
    obtain ⟨row, hrow, rfl⟩ := List.mem_map.mp (List.mem_of_find?_eq_some hp)
    -- the same row at every reading
    have hlevels := fun pre post (hread : eventsOf (eventsOf wlog) = pre ++ .got room :: post) =>
      row_levels h hst hread hrow hplayer
    obtain ⟨pre, post, hread⟩ := List.append_of_mem hroom
    split at hf
    · next hne =>
      cases hf
      have hold : ∀ pre post, eventsOf (eventsOf wlog) = pre ++ .got room :: post →
          row.gravity = 2 ∧ row.friction = 2 ∧ row.speed = 2 ∧ updatesOf pre trigger = [] := by
        intro pre post hread
        rcases hlevels pre post hread with hdefault | ⟨hg, hfr, hs, -⟩
        · exact hdefault
        · exact absurd hne (by simp [roomPlayerRes, hg, hfr, hs])
      obtain ⟨hg, hfr, hs, -⟩ := hold pre post hread
      exact ⟨hg, hfr, hs, fun pre post hread => (hold pre post hread).2.2.2⟩
    · next heq =>
      split at hf
      · next hzero =>
        -- past the check of the levels, the row shows the change and its cooldown
        rcases hlevels pre post hread with ⟨hg, -⟩ | ⟨-, -, -, hnext⟩
        · exact absurd (.inl (by simp [roomPlayerRes, hg])) heq
        · exact absurd hzero hnext
      · cases hf

end Checks

/-! ### A pass -/

/-- The client at `a` has had word of `q`, whom the server has relayed to it from the room. -/
structure HasWord (wlog : WorldLog) (m : String) (a : SocketAddr) (q : String) : Prop where
  registered : ∃ b tx, Event.registered m q b tx ∈ eventsOf (eventsOf wlog)
  sent : ∃ out, Event.sentDatagram a out ∈ eventsOf (eventsOf wlog) ∧ playerOf out = q
  arrived : Arrival.datagram q ∈ arrivalsAt wlog a

/-- What a pass tells: four players, each registered from its client's address, told of a change
and with word of two others of its room; and one change of the trigger's parameters, the step up
with its cooldown, of which its client was told, as it was of a rejection for the cooldown. -/
structure Passed (w : World) (wlog : WorldLog) (trigger : String) : Prop where
  four : Counts 4 fun p => ∃ a c, Plays w wlog a c p
  seated : ∀ a c p, Plays w wlog a c p → ∃ m tx q q',
    Event.registered m p a tx ∈ eventsOf (eventsOf wlog) ∧ q ≠ p ∧ q' ≠ p ∧ q ≠ q' ∧
      HasWord wlog m a q ∧ HasWord wlog m a q'
  told : ∀ a c p, Plays w wlog a c p →
    ∃ msg, isApplied msg = true ∧ Arrival.message msg ∈ arrivalsAt wlog a
  changed : ∃ u, updatesOf (eventsOf (eventsOf wlog)) trigger = [u] ∧ u.param = .gravity ∧
    u.direction = .increase ∧ u.updated =
      { params := raised, nextParamChangeAtUnix := u.nowUnix + paramChangeCooldownSecs }
  observed : ∃ a c msg msg', Plays w wlog a c trigger ∧
    Arrival.message msg ∈ arrivalsAt wlog a ∧ isAppliedTo trigger msg = true ∧
    Arrival.message msg' ∈ arrivalsAt wlog a ∧ isCooldown msg' = true

theorem checkClient_ok {p : String} {st : ClientStats} (h : checkClient p st = .ok ()) :
    st.paramAppliedCount ≠ 0 ∧ 2 ≤ st.datagramFromPlayers.length := by
  unfold checkClient at h
  split at h
  · cases h
  · split at h
    · cases h
    · split at h
      · cases h
      · next happlied =>
        split at h
        · cases h
        · next hlen => exact ⟨happlied, Nat.le_of_not_lt hlen⟩

theorem checkTrigger_ok {st : ClientStats} (h : checkTrigger st = .ok ()) :
    st.cooldownErrorSeen = true ∧ ∃ params, st.observedParamState = some params := by
  unfold checkTrigger at h
  split at h
  · cases h
  · next hseen =>
    split at h
    · cases h
    · next params hparams => exact ⟨Bool.eq_true_of_not_eq_false hseen, params, hparams⟩

/-- A message that was taken has arrived. -/
theorem taken_arrived {xs : List Arrival} {c : Client} {st : ClientStats}
    {taken : List ServerReliable} (h : Account xs c st taken) {f : ServerReliable → Bool}
    (hany : taken.any f = true) : ∃ msg, f msg = true ∧ Arrival.message msg ∈ xs := by
  obtain ⟨msg, hmsg, hf⟩ := List.any_eq_true.mp hany
  refine ⟨msg, hf, mem_messagesOf.mp ?_⟩
  rcases h.messages with heq | ⟨-, last, heq⟩
  · rw [heq]
    exact List.mem_append_left _ hmsg
  · rw [heq, List.append_assoc]
    exact List.mem_append_left _ hmsg

section Pass
variable {text : F32 → Number} {w : World} {wlog : WorldLog}
  (h : (world text).recorded.Reach Machine.anyStep w wlog)

include h

/-- A client has had word of the players that it counts. -/
theorem counted_word {a : SocketAddr} {c : Client} {p : String} {st : ClientStats}
    {taken : List ServerReliable} (hst : w.stats.get p = some st)
    (haccount : Account (arrivalsAt wlog a) c st taken) {m : String} {tx : ChanId}
    (ho : Event.registered m p a tx ∈ eventsOf (eventsOf wlog)) {q : String}
    (hq : q ∈ st.datagramFromPlayers) : q ≠ p ∧ HasWord wlog m a q := by
  obtain ⟨hne, m', a', tx', b, tx'', out, ho', hoq, hsent, hout⟩ :=
    ((hearing h.unrecorded).sound hst).others q hq
  obtain ⟨rfl, rfl, -⟩ := (registry (world_serves h.unrecorded).unrecorded).once ho ho'
  exact ⟨hne, ⟨b, tx'', hoq⟩, ⟨out, hsent, hout⟩, mem_playersOf.mp ((haccount.players q).mp hq)⟩

/-- Two different others, of the room of the player. -/
theorem counted_two {a : SocketAddr} {c : Client} {p : String} {st : ClientStats}
    {taken : List ServerReliable} (hplays : Plays w wlog a c p) (hst : w.stats.get p = some st)
    (haccount : Account (arrivalsAt wlog a) c st taken)
    (hlen : 2 ≤ st.datagramFromPlayers.length) :
    ∃ m tx q q', Event.registered m p a tx ∈ eventsOf (eventsOf wlog) ∧ q ≠ p ∧ q' ≠ p ∧
      q ≠ q' ∧ HasWord wlog m a q ∧ HasWord wlog m a q' := by
  obtain ⟨m, tx, ho⟩ := hplays.seated h
  have hword := fun q (hq : q ∈ st.datagramFromPlayers) =>
    counted_word h hst haccount ho hq
  have hdistinct := ((hearing h.unrecorded).sound hst).distinct
  cases hfrom : st.datagramFromPlayers with
  | nil => simp [hfrom] at hlen
  | cons q rest =>
    cases rest with
    | nil => simp [hfrom] at hlen
    | cons q' rest =>
      rw [hfrom] at hword hdistinct
      obtain ⟨hne, hq⟩ := hword q List.mem_cons_self
      obtain ⟨hne', hq'⟩ := hword q' (List.mem_cons_of_mem _ List.mem_cons_self)
      have hqq : q ≠ q' := fun heq =>
        (List.nodup_cons.mp hdistinct).1 (heq ▸ List.mem_cons_self)
      exact ⟨m, tx, q, q', ho, hne, hne', hqq, hq, hq'⟩

/-- The one change of a trigger that has observed it. -/
theorem observed_change {trigger : String} {st : ClientStats}
    (hst : w.stats.get trigger = some st) {params : PlayerParams}
    (hobserved : st.observedParamState = some params) :
    ∃ u, updatesOf (eventsOf (eventsOf wlog)) trigger = [u] ∧ u.param = .gravity ∧
      u.direction = .increase ∧ u.updated =
        { params := raised, nextParamChangeAtUnix := u.nowUnix + paramChangeCooldownSecs } := by
  have hsound := (hearing h.unrecorded).sound hst
  obtain ⟨a, c, m, tx, hc, rfl, ho⟩ := hsound.own
  obtain ⟨-, now, ⟨m', mu, he⟩, -⟩ := hsound.observed params hobserved
  obtain ⟨honly, hraised, hnext, -⟩ := own_history h.unrecorded hc ho (updatesOf_mem he)
  refine ⟨_, honly, rfl, rfl, ?_⟩
  rw [← hraised, ← hnext]

end Pass

/-! ## A run that passes -/

def clientAddr (i : Nat) : SocketAddr := { ip := 1, port := i }

def fourTickets : List WorldAction :=
  [.server (.createRoom "r" 1), .server (.issueJoinTicket ⟨"m_r", "a"⟩ "1" "t1" 1),
    .server (.issueJoinTicket ⟨"m_r", "b"⟩ "2" "t2" 1),
    .server (.issueJoinTicket ⟨"m_r", "c"⟩ "3" "t3" 1),
    .server (.issueJoinTicket ⟨"m_r", "d"⟩ "4" "t4" 1)]

/-- The client `i` joins; the first one is to ask for changes. -/
def clientJoins (i : Nat) (playerId token : String) : List WorldAction :=
  .start (clientAddr i) ⟨playerId, token, ""⟩ (i == 1) 1 :: .client (clientAddr i) (.send none) ::
    .arrive i (i - 1) ::
    (([{}, { fresh := i }, {}, {}, {}] : List Choice).map fun ch => .server (.join i ch)) ++
    [.deliver (i - 1)]

/-- A change is made and announced, and another is refused. -/
def twoChanges : List WorldAction :=
  [.client (clientAddr 1) (.send none), .arrive 10 4, .server (.param 10 {}),
    .server (.param 10 { fresh := 1, nowUnix := 20 }), .server (.cast 1 { txs := [4, 3, 2, 1] })] ++
  List.replicate 5 (.server (.cast 1 {})) ++
  [.client (clientAddr 1) (.send none), .arrive 11 5, .server (.param 11 {}),
    .server (.param 11 { fresh := 2, nowUnix := 21 }), .server (.cast 2 {}),
    .server (.cast 2 {}), .server (.drainStart ([4, 3, 2, 1].map clientAddr))] ++
  List.replicate 15 (.server (.drainStep true))

/-- The position of the client `i` is relayed. -/
def clientTicks (i : Nat) (others : List Nat) : List WorldAction :=
  [.client (clientAddr i) (.send none), .arrive i (i + 5), .server (.relay i {}),
    .server (.relay i { addrs := others.map clientAddr })] ++
  List.replicate 4 (.server (.relay i {}))

/-- Everything arrives, and is taken. -/
def allHeard : List WorldAction :=
  (([(4, 4), (5, 3), (6, 2), (7, 1), (8, 1)] : List (Nat × Nat)).flatMap fun e =>
    [.deliver e.1, .client (clientAddr e.2) .handOver]) ++
  ((List.range 12).map fun i => .deliver (9 + i)) ++
  [1, 2, 3, 4].flatMap fun i =>
    List.replicate (if i = 1 then 4 else 3) (.client (clientAddr i) .tryRecv)

def passing : List WorldAction :=
  fourTickets ++ clientJoins 1 "p_1" "t1" ++ clientJoins 2 "p_2" "t2" ++
    clientJoins 3 "p_3" "t3" ++ clientJoins 4 "p_4" "t4" ++ twoChanges ++
    clientTicks 1 [4, 3, 2] ++ clientTicks 2 [4, 3, 1] ++ clientTicks 3 [4, 2, 1] ++
    clientTicks 4 [3, 2, 1] ++ allHeard ++ [.server (.getRoom "m_r")]

def gotRoom : Event → Option RoomSummary
  | .got room => some room
  | _ => none

/-- The verdict on the first room that was read. -/
def passes (w : World) (log : Log) : Bool :=
  ((eventsOf log).findSome? gotRoom).any fun room =>
    (verdict w.stats w.stats.toList "p_1" (room.players.map roomPlayerRes)).toBool

theorem passing_run : ∃ w wlog, (world exactText).recorded.Reach Machine.anyStep w wlog ∧
    ∃ room, Event.got room ∈ eventsOf (eventsOf wlog) ∧
      verdict w.stats w.stats.toList "p_1" (room.players.map roomPlayerRes) = .ok () := by
  have hexec : (((world exactText).exec Machine.anyStep (World.init "") passing).any
      fun r => passes r.1 r.2) = true := by
    decide +kernel
  obtain ⟨w, log, h, hp⟩ :=
    Machine.reach_of_exec (M := world exactText) (p := passes) ⟨"", rfl⟩ hexec
  obtain ⟨wlog, hreach, rfl⟩ := h.recorded
  obtain ⟨room, hroom, hok⟩ := (Option.any_eq_true _ _).mp hp
  obtain ⟨e, he, hgot⟩ := List.exists_of_findSome?_eq_some hroom
  have hevent : e = .got room := by
    cases e with
    | got room' =>
      cases hgot
      rfl
    | _ => cases hgot
  refine ⟨w, wlog, hreach, room, hevent ▸ he, ?_⟩
  cases hv : verdict w.stats w.stats.toList "p_1" (room.players.map roomPlayerRes) with
  | ok _ => rfl
  | error f =>
    rw [hv] at hok
    cases hok

/-! ## The whole run -/

/-- Over any run of the world, a client fails for no other reason than a refused join or its
socket, and the statistics of every player are true of the history. -/
theorem no_false_alarm {text : F32 → Number} {w : World} {log : Log}
    (h : (world text).Reach Machine.anyStep w log) :
    (∀ a c e, w.clients.get a = some c → c.task = .failed e → e.Fair) ∧
    ∀ p st, w.stats.get p = some st → st.Sound w log p :=
  ⟨fun _ _ _ hc he => ((hearing h).hears hc).failed _ he, fun _ _ hst => (hearing h).sound hst⟩

/-- The statistics of the client that asks for changes, after a run that passes. -/
theorem no_false_alarm_passing : ∃ w log st, (world exactText).Reach Machine.anyStep w log ∧
    w.stats.get "p_1" = some st ∧ st.Sound w log "p_1" := by
  obtain ⟨w, wlog, h, room, hroom, hok⟩ := passing_run
  have hchecked := verdict_checked w.stats w.stats.toList "p_1" (room.players.map roomPlayerRes)
  rw [hok] at hchecked
  cases hchecked with
  | @passed st _ _ hst _ =>
    exact ⟨w, eventsOf wlog, st, h.unrecorded, hst, (no_false_alarm h.unrecorded).2 _ _ hst⟩

/-- Over any run of the world and for any order of iteration, `main` fails for what has not
arrived or was not taken, if it fails, and passes only what has happened. -/
theorem verdict_sound {text : F32 → Number} {w : World} {wlog : WorldLog}
    (h : (world text).recorded.Reach Machine.anyStep w wlog)
    {order : List (String × ClientStats)} (horder : order.Perm w.stats.toList)
    {room : RoomSummary} (hroom : Event.got room ∈ eventsOf (eventsOf wlog)) (trigger : String) :
    (∀ f, verdict w.stats order trigger (room.players.map roomPlayerRes) = .error f →
      f.Fair w wlog trigger room) ∧
    (verdict w.stats order trigger (room.players.map roomPlayerRes) = .ok () →
      Passed w wlog trigger) := by
  have hchecked := verdict_checked w.stats order trigger (room.players.map roomPlayerRes)
  refine ⟨?_, ?_⟩
  · intro f hf
    rw [hf] at hchecked
    cases hchecked with
    | miscounted hlen => exact ⟨hlen, entries_counted h⟩
    | noTrigger hst =>
      intro a c hplays
      obtain ⟨st, -, hst', -⟩ := hplays.account h
      rw [hst] at hst'
      cases hst'
    | client he hcheck =>
      exact checkClient_fair h (HashMap.mem_toList.mp (horder.mem_iff.mp he)) hcheck
    | trigger hst hcheck => exact checkTrigger_fair h hst hcheck
    | room hst hcheck => exact checkRoom_fair h hst hroom hcheck
  · intro hok
    rw [hok] at hchecked
    cases hchecked with
    | @passed st hlen hclients hst htrigger =>
      obtain ⟨hseen, params, hparams⟩ := checkTrigger_ok htrigger
      -- every client that plays has passed its checks
      have hplayed : ∀ a c p, Plays w wlog a c p → ∃ st taken, w.stats.get p = some st ∧
          Account (arrivalsAt wlog a) c st taken ∧ st.paramAppliedCount ≠ 0 ∧
          2 ≤ st.datagramFromPlayers.length := by
        intro a c p hplays
        obtain ⟨st', taken, hst', haccount⟩ := hplays.account h
        have hmem : (p, st') ∈ order := horder.mem_iff.mpr (HashMap.mem_toList.mpr hst')
        exact ⟨st', taken, hst', haccount, checkClient_ok (hclients _ hmem)⟩
      refine ⟨hlen ▸ entries_counted h, ?_, ?_, observed_change h hst hparams, ?_⟩
      · intro a c p hplays
        obtain ⟨st', taken, hst', haccount, -, htwo⟩ := hplayed a c p hplays
        exact counted_two h hplays hst' haccount htwo
      · intro a c p hplays
        obtain ⟨st', taken, -, haccount, happlied, -⟩ := hplayed a c p hplays
        refine taken_arrived haccount ?_
        rw [haccount.applied] at happlied
        simpa using happlied
      · obtain ⟨a, c, taken, hplays, haccount⟩ := entry_account h hst
        have hobserved := haccount.observed
        have hcooldown := haccount.cooldown
        rw [hplays.player, hparams] at hobserved
        rw [hseen] at hcooldown
        obtain ⟨msg, hmsg, ha⟩ := taken_arrived haccount hobserved.symm
        obtain ⟨msg', hmsg', ha'⟩ :=
          taken_arrived haccount (Bool.and_eq_true_iff.mp hcooldown.symm).2
        exact ⟨a, c, msg, msg', hplays, ha, hmsg, ha', hmsg'⟩

/-- The run above passes. -/
theorem verdict_sound_passing : ∃ w wlog room,
    (world exactText).recorded.Reach Machine.anyStep w wlog ∧
    Event.got room ∈ eventsOf (eventsOf wlog) ∧
    verdict w.stats w.stats.toList "p_1" (room.players.map roomPlayerRes) = .ok () ∧
    Passed w wlog "p_1" := by
  obtain ⟨w, wlog, h, room, hroom, hok⟩ := passing_run
  exact ⟨w, wlog, room, h, hroom, hok, (verdict_sound h (.refl _) hroom "p_1").2 hok⟩

end Kotatsu.TestClient
