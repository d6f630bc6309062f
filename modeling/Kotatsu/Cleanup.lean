import Kotatsu.Clock

/-
  The cleanup of stale lobbies over runs (`room.rs`, `cleanup.rs`)

    1. `cleanup_exact`: over a run with a clock that does not go back, a cleanup with a
       timeout removes exactly the rooms that no start has started and that have had no
       activity for the timeout, with their tickets, and nothing else. A start that reads
       the clock as 0 leaves the room unstarted (`start_at_zero_removed`).
    2. `lobbies_kept`: relayed datagrams are no activity, so a lobby whose players only
       exchange datagrams is kept exactly when it has had activity of another kind
       (`busy_lobby_removed`).
-/

namespace Kotatsu

/-! ## What a cleanup removes -/

/-- No start has started the room, and its activity was no later than `timeout` before `t`. -/
def IdleFor (log : Log) (timeout t : Nat) (m : String) : Prop :=
  ¬ Started log m ∧ ∀ x ∈ log, ∀ t', activity x = some (m, t') → t' + timeout ≤ t

/-- The call removes the rooms that are `idle`, returns their ids, each once, removes
their tickets, and leaves every other room and ticket. -/
structure CleansExactly (core : CoreState) (idle : String → Prop)
    (result : CoreState × List String) : Prop where
  removed : ∀ m, m ∈ result.2 ↔ (∃ room, core.rooms.get m = some room) ∧ idle m
  once : result.2.Nodup
  rooms : ∀ m, result.1.rooms.get m = if m ∈ result.2 then none else core.rooms.get m
  tickets : ∀ token, result.1.tickets.get token =
    (core.tickets.get token).filter fun ticket => !result.2.contains ticket.matchId

theorem stale_iff {room : MatchRoom} {timeout t : Nat} (hT : 0 < timeout) :
    room.stale timeout t = true ↔
      room.startedAtUnix = 0 ∧ room.lastActivityUnix + timeout ≤ t := by
  unfold MatchRoom.stale
  simp only [Bool.and_eq_true, beq_iff_eq, decide_eq_true_eq]
  omega

/-- Where the rooms keep what the run did, the stale ones are the idle ones. -/
theorem stale_idle {s : Sys} {log : Log} (hi : RoomTimes s log) {m : String} {room : MatchRoom}
    (hr : s.core.rooms.get m = some room) {timeout t : Nat} (hT : 0 < timeout) :
    room.stale timeout t = true ↔ IdleFor log timeout t m := by
  rw [stale_iff hT]
  constructor
  · intro h
    obtain ⟨h0, hle⟩ := h
    refine ⟨fun hst => (hi.started m room hr).mpr hst h0, ?_⟩
    intro x hx t' ha
    have := (hi.last m room hr h0).bound x hx t' ha
    omega
  · intro h
    obtain ⟨hst, hidle⟩ := h
    have h0 : room.startedAtUnix = 0 := by
      by_contra h0
      exact hst ((hi.started m room hr).mp h0)
    obtain ⟨x, hx, ha⟩ := (hi.last m room hr h0).at_some
    exact ⟨h0, hidle x hx _ ha⟩

/-- A cleanup over a run with a clock that does not go back. -/
theorem cleanup_exact {s : Sys} {log : Log} (h : server.recorded.Reach Machine.anyStep s log)
    (hc : Clocked log) {timeout : Nat} (hT : 0 < timeout) (t : Nat) :
    CleansExactly s.core (IdleFor log timeout t) (deleteStaleLobbyRooms s.core timeout t) ∧
    (∀ m, Started log m → m ∉ (deleteStaleLobbyRooms s.core timeout t).2) ∧
    ∀ tid s' evs, s.cleanups.get tid = some (timeout, t) →
      server.step s (.cleanupRun tid) = some (s', evs) →
      s'.core = (deleteStaleLobbyRooms s.core timeout t).1 ∧
      evs = (deleteStaleLobbyRooms s.core timeout t).2.map .roomRemoved := by
  have hi : RoomTimes s log := room_times h hc
  have hremoved : ∀ m, m ∈ (deleteStaleLobbyRooms s.core timeout t).2 ↔
      (∃ room, s.core.rooms.get m = some room) ∧ IdleFor log timeout t m := by
    intro m
    rw [mem_deleteStale]
    constructor
    · intro hm
      obtain ⟨room, hr, hstale⟩ := hm
      exact ⟨⟨room, hr⟩, (stale_idle hi hr hT).mp hstale⟩
    · intro hm
      obtain ⟨⟨room, hr⟩, hidle⟩ := hm
      exact ⟨room, hr, (stale_idle hi hr hT).mpr hidle⟩
  refine ⟨⟨hremoved, deleteStale_nodup s.core timeout t, ?_, ?_⟩, ?_, ?_⟩
  · intro m
    ext room
    rw [deleteStale_rooms]
    split
    · next hm => simp [hm]
    · next hm => simp [hm]
  · intro token
    ext ticket
    rw [deleteStale_tickets, Option.filter_eq_some_iff]
    simp
  · intro m hst hm
    exact ((hremoved m).mp hm).2.1 hst
  · intro tid s' evs htick hs
    simp only [server, step, htick] at hs
    cases hs
    exact ⟨rfl, rfl⟩

/-- A room at the boundary, and one a second younger. -/
def twoIdleRooms : List Action := [.createRoom "r" 1, .createRoom "q" 2]

theorem cleanup_exact_boundary : ∃ s log, server.recorded.Reach Machine.anyStep s log ∧
    "m_r" ∈ (deleteStaleLobbyRooms s.core 3 4).2 ∧ "m_q" ∉ (deleteStaleLobbyRooms s.core 3 4).2 ∧
    CleansExactly s.core (IdleFor log 3 4) (deleteStaleLobbyRooms s.core 3 4) := by
  obtain ⟨s, log, h, hp⟩ := log_of_actions Machine.anyStep twoIdleRooms
    (fun s log => decide (Clocked log) && (deleteStaleLobbyRooms s.core 3 4).2 == ["m_r"])
    (by decide)
  simp only [Bool.and_eq_true, decide_eq_true_eq, beq_iff_eq] at hp
  obtain ⟨hc, hids⟩ := hp
  exact ⟨s, log, h, by simp [hids], by simp [hids], (cleanup_exact h hc (by decide) 4).1⟩

/-- A room whose start reads the clock as 0, and a cleanup five seconds later. -/
def startAtZero : List Action :=
  [.createRoom "r" 0, .startRoom "m_r" .inOrder { nowUnix := 0 }, .cleanupTick 1 1 5]

/-- The event is a first start of `m`. -/
def Event.starts (m : String) : Event → Bool
  | .roomStarted m' _ justStarted _ => m' == m && justStarted
  | _ => false

theorem starts_iff {m : String} {e : Event} :
    e.starts m = true ↔ ∃ t ps, e = .roomStarted m t true ps := by
  cases e <;> simp [Event.starts]

/-- It is removed, as if it had never been started. -/
theorem start_at_zero_removed : ¬ ∀ s log tid timeout t,
    server.recorded.Reach Machine.anyStep s log → Clocked log → 0 < timeout →
    s.cleanups.get tid = some (timeout, t) →
    CleansExactly s.core (fun m =>
      (∀ x ∈ log, ∀ t' ps, Event.roomStarted m t' true ps ∉ x.events) ∧
      ∀ x ∈ log, ∀ t', activity x = some (m, t') → t' + timeout ≤ t)
      (deleteStaleLobbyRooms s.core timeout t) := by
  intro hall
  obtain ⟨s, log, h, hp⟩ := log_of_actions Machine.anyStep startAtZero
    (fun s log => decide (Clocked log) && s.cleanups.get 1 == some (1, 5) &&
      (deleteStaleLobbyRooms s.core 1 5).2.contains "m_r" &&
      log.any fun x => x.events.any (·.starts "m_r"))
    (by decide)
  simp only [Bool.and_eq_true, decide_eq_true_eq, beq_iff_eq, List.contains_iff_mem] at hp
  obtain ⟨⟨⟨hc, htick⟩, hm⟩, hstart⟩ := hp
  obtain ⟨x, hx, hstart⟩ := List.any_eq_true.mp hstart
  obtain ⟨e, he, hstart⟩ := List.any_eq_true.mp hstart
  obtain ⟨t, ps, rfl⟩ := starts_iff.mp hstart
  exact (((hall s log 1 1 5 h hc (by decide) htick).removed "m_r").mp hm).2.1 x hx t ps he

/-! ## Lobbies in use -/

/-- When the server accepted the datagram, in milliseconds. -/
def ServerDatagram.serverTimeMs : ServerDatagram → Nat
  | .pos _ _ _ _ _ _ serverTimeMs => serverTimeMs
  | .stageProgress _ _ serverTimeMs => serverTimeMs

/-- A datagram of a player that is seated in the room was relayed; it was accepted at `ms`. -/
def Relayed (log : Log) (m : String) (ms : Nat) : Prop :=
  ∃ x ∈ log, ∃ addr out, Event.sentDatagram addr out ∈ x.events ∧
    (∃ seat, x.before.core.seat m out.playerId = some seat) ∧ out.serverTimeMs = ms

/-- A cleanup at `t` removes no room that has relayed a datagram later than the idle timeout
before `t`. -/
def KeepsLobbies (log : Log) (core : CoreState) (t : Nat) : Prop :=
  ∀ m ∈ (deleteStaleLobbyRooms core roomIdleTimeoutSecs t).2, ∀ ms, Relayed log m ms →
    ms + roomIdleTimeoutSecs * 1000 ≤ t * 1000

/-- Every room that has relayed a datagram later than the idle timeout before `t` has been
started, or has had activity later than that. -/
def LobbiesActive (log : Log) (core : CoreState) (t : Nat) : Prop :=
  ∀ m room ms, core.rooms.get m = some room → Relayed log m ms →
    t * 1000 < ms + roomIdleTimeoutSecs * 1000 →
    Started log m ∨ ∃ x ∈ log, ∃ t', activity x = some (m, t') ∧ t < t' + roomIdleTimeoutSecs

/-- A cleanup keeps the lobbies whose players exchange datagrams exactly when they have had
activity of another kind. -/
theorem lobbies_kept {s : Sys} {log : Log} (h : server.recorded.Reach Machine.anyStep s log)
    (hc : Clocked log) (t : Nat) : KeepsLobbies log s.core t ↔ LobbiesActive log s.core t := by
  have hi : RoomTimes s log := room_times h hc
  have hT : 0 < roomIdleTimeoutSecs := by decide
  constructor
  · intro hkeeps m room ms hr hrel hlate
    by_contra hidle
    simp only [not_or, not_exists, not_and] at hidle
    obtain ⟨hst, hact⟩ := hidle
    have hstale : room.stale roomIdleTimeoutSecs t = true := by
      refine (stale_idle hi hr hT).mpr ⟨hst, ?_⟩
      intro x hx t' ha
      exact Nat.le_of_not_lt (hact x hx t' ha)
    have := hkeeps m (mem_deleteStale.mpr ⟨room, hr, hstale⟩) ms hrel
    omega
  · intro hactive m hm ms hrel
    obtain ⟨room, hr, hstale⟩ := mem_deleteStale.mp hm
    obtain ⟨hst, hidle⟩ := (stale_idle hi hr hT).mp hstale
    by_contra hlate
    rcases hactive m room ms hr hrel (Nat.lt_of_not_le hlate) with hst' | ⟨x, hx, t', ha, hlt⟩
    · exact hst hst'
    · have := hidle x hx t' ha
      omega

/-- Two players of a lobby of which one reports its progress, two minutes after they
joined. -/
def busyLobby : List Action :=
  [.createRoom "r" 1, .issueJoinTicket ⟨"m_r", "x"⟩ "1" "t1" 1,
    .issueJoinTicket ⟨"m_r", "y"⟩ "2" "t2" 1] ++
  soloJoin 1 ⟨1, 1⟩ "t1" [{}, { nowUnix := 1, fresh := 1 }, { nowUnix := 1 }, {}, {}] ++
  soloJoin 2 ⟨1, 2⟩ "t2" [{}, { nowUnix := 1, fresh := 2 }, { nowUnix := 1 }, {}, {}] ++
  [.recv 3 ⟨1, 1⟩ (.unreliable (.stageProgress 2)), .relay 3 { nowMs := 121000 },
    .relay 3 { addrs := [⟨1, 2⟩, ⟨1, 1⟩] }, .relay 3 {}]

/-- Some moment of the log relays a datagram of `p_1`, accepted after 121 seconds. -/
def relaysProgress (log : Log) : Bool :=
  log.any fun x => (x.before.core.seat "m_r" "p_1").isSome && x.events.any fun
    | .sentDatagram _ (.stageProgress "p_1" _ 121000) => true
    | _ => false

theorem relaysProgress_spec {log : Log} (h : relaysProgress log = true) :
    Relayed log "m_r" 121000 := by
  obtain ⟨x, hx, h⟩ := List.any_eq_true.mp h
  obtain ⟨hseat, h⟩ := (Bool.and_eq_true _ _).mp h
  obtain ⟨e, he, hmatch⟩ := List.any_eq_true.mp h
  split at hmatch
  · exact ⟨x, hx, _, _, he, Option.isSome_iff_exists.mp hseat, rfl⟩
  · cases hmatch

theorem lobbies_kept_busy : ∃ s log, server.recorded.Reach Machine.anyStep s log ∧
    Relayed log "m_r" 121000 ∧ KeepsLobbies log s.core 180 := by
  obtain ⟨s, log, h, hp⟩ := log_of_actions Machine.anyStep busyLobby
    (fun s log => decide (Clocked log) && relaysProgress log && s.core.rooms.keys == ["m_r"] &&
      log.any fun x => activity x == some ("m_r", 1)) (by decide)
  simp only [Bool.and_eq_true, decide_eq_true_eq, beq_iff_eq] at hp
  obtain ⟨⟨⟨hc, hrel⟩, hkeys⟩, hact⟩ := hp
  refine ⟨s, log, h, relaysProgress_spec hrel, (lobbies_kept h hc 180).mpr ?_⟩
  intro m room ms hr _ _
  obtain rfl : m = "m_r" := by
    have hm := HashMap.mem_keys.mpr ⟨room, hr⟩
    rw [hkeys] at hm
    exact List.mem_singleton.mp hm
  obtain ⟨x, hx, ha⟩ := List.any_eq_true.mp hact
  exact .inr ⟨x, hx, 1, beq_iff_eq.mp ha, by decide⟩

/-- The lobby is removed three minutes after the joins, a minute after the datagram. -/
theorem busy_lobby_removed : ¬ ∀ s log tid t, server.recorded.Reach Machine.anyStep s log →
    Clocked log → s.cleanups.get tid = some (roomIdleTimeoutSecs, t) →
    KeepsLobbies log s.core t := by
  intro hall
  obtain ⟨s, log, h, hp⟩ := log_of_actions Machine.anyStep
    (busyLobby ++ [.cleanupTick 9 roomIdleTimeoutSecs 181])
    (fun s log => decide (Clocked log) && relaysProgress log &&
      s.cleanups.get 9 == some (roomIdleTimeoutSecs, 181) &&
      (deleteStaleLobbyRooms s.core roomIdleTimeoutSecs 181).2.contains "m_r") (by decide)
  simp only [Bool.and_eq_true, decide_eq_true_eq, beq_iff_eq, List.contains_iff_mem] at hp
  obtain ⟨⟨⟨hc, hrel⟩, htick⟩, hm⟩ := hp
  have hle := hall s log 9 181 h hc htick "m_r" hm 121000 (relaysProgress_spec hrel)
  revert hle
  decide

end Kotatsu
