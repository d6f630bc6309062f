import Kotatsu.ControlPlane
import Kotatsu.Lib.Listing

/-
  Listings of rooms and players (`list_rooms`, `get_room`)

  A room's rows are the listing of its seats by player id (`roomPlayers_listing`), and
  the rooms that have not started are listed by match id (`listRooms_listing`). As a
  listing is determined by what it lists, no iteration order of a map shows in a
  response (`rooms_listed`).
-/

namespace Kotatsu

/-! ## Iteration orders -/

/-- The same room, with its players in any order. -/
structure MatchRoom.Reorders (room room' : MatchRoom) : Prop where
  players : room.players.Reorders room'.players
  startedAtUnix : room'.startedAtUnix = room.startedAtUnix
  lastActivityUnix : room'.lastActivityUnix = room.lastActivityUnix
  finishedPlayerIds : room'.finishedPlayerIds = room.finishedPlayerIds

/-- The same state, with the rooms and the players of each in any order. -/
def CoreState.Reorders (core core' : CoreState) : Prop :=
  ∀ m, Option.Rel MatchRoom.Reorders (core.rooms.get m) (core'.rooms.get m)

theorem CoreState.Reorders.room {core core' : CoreState} (h : core.Reorders core') {m : String}
    {room : MatchRoom} (hr : core.rooms.get m = some room) :
    ∃ room', core'.rooms.get m = some room' ∧ room.Reorders room' := by
  have hrel := h m
  rw [hr] at hrel
  cases hrel' : core'.rooms.get m with
  | none => rw [hrel'] at hrel; cases hrel
  | some room' =>
    rw [hrel'] at hrel
    cases hrel with
    | some hroom => exact ⟨room', rfl, hroom⟩

theorem CoreState.Reorders.no_room {core core' : CoreState} (h : core.Reorders core') {m : String}
    (hr : core.rooms.get m = none) : core'.rooms.get m = none := by
  have hrel := h m
  rw [hr] at hrel
  cases hrel' : core'.rooms.get m with
  | none => rfl
  | some room' => rw [hrel'] at hrel; cases hrel

/-! ## The players of a room -/

/-- The row says what the room stores for its player. -/
structure RoomPlayer.Shows (row : RoomPlayer) (h : PlayerHandle) : Prop where
  displayName : row.displayName = h.displayName
  gravity : row.gravity = h.params.gravity
  friction : row.friction = h.params.friction
  speed : row.speed = h.params.speed
  nextParamChangeAtUnix : row.nextParamChangeAtUnix = h.nextParamChangeAtUnix

/-- The row is that of a seated player. -/
def MatchRoom.HasRow (room : MatchRoom) (row : RoomPlayer) : Prop :=
  ∃ h, room.players.get row.playerId = some h ∧ row.Shows h

theorem roomPlayer_shows (p : String) (h : PlayerHandle) : (roomPlayer p h).Shows h :=
  ⟨rfl, rfl, rfl, rfl, rfl⟩

theorem RoomPlayer.Shows.eq {row : RoomPlayer} {h : PlayerHandle} (hs : row.Shows h) :
    row = roomPlayer row.playerId h := by
  obtain ⟨hname, hgravity, hfriction, hspeed, hnext⟩ := hs
  obtain ⟨p, name, gravity, friction, speed, next⟩ := row
  subst hname hgravity hfriction hspeed hnext
  rfl

theorem roomPlayers_listing (room : MatchRoom) :
    Listing RoomPlayer.playerId room.HasRow (roomPlayers room) := by
  have hkeys : ((room.players.toList.map fun e => roomPlayer e.1 e.2).map
      RoomPlayer.playerId).Nodup := by
    rw [List.map_map]
    exact room.players.toList_keys_nodup
  refine (listing_sort (fun a b => Iff.rfl) hkeys).congr ?_
  intro row
  rw [List.mem_map]
  constructor
  · intro hrow
    obtain ⟨⟨p, h⟩, he, rfl⟩ := hrow
    exact ⟨h, HashMap.mem_toList.mp he, roomPlayer_shows p h⟩
  · intro hrow
    obtain ⟨h, hp, hs⟩ := hrow
    exact ⟨(row.playerId, h), HashMap.mem_toList.mpr hp, hs.eq.symm⟩

theorem MatchRoom.Reorders.hasRow {room room' : MatchRoom} (h : room.Reorders room')
    (row : RoomPlayer) : room'.HasRow row ↔ room.HasRow row := by
  unfold MatchRoom.HasRow
  rw [h.players.get]

theorem MatchRoom.Reorders.roomPlayers {room room' : MatchRoom} (h : room.Reorders room') :
    roomPlayers room' = roomPlayers room :=
  (roomPlayers_listing room').unique
    ((roomPlayers_listing room).congr fun row => (h.hasRow row).symm)

theorem MatchRoom.Reorders.roomSummary {room room' : MatchRoom} (h : room.Reorders room')
    (m : String) : roomSummary m room' = roomSummary m room := by
  simp only [Kotatsu.roomSummary, h.roomPlayers, h.startedAtUnix]

/-! ## The rooms -/

/-- The summary is that of a room that has not started. -/
def CoreState.Lists (core : CoreState) (r : RoomSummary) : Prop :=
  ∃ room, core.rooms.get r.matchId = some room ∧ room.startedAtUnix = 0 ∧
    r = roomSummary r.matchId room

theorem listRooms_listing (core : CoreState) :
    Listing RoomSummary.matchId core.Lists (listRooms core) := by
  have hkeys : (((core.rooms.toList.filter fun e => e.2.startedAtUnix == 0).map
      fun e => roomSummary e.1 e.2).map RoomSummary.matchId).Nodup := by
    rw [List.map_map]
    exact core.rooms.toList_keys_nodup.sublist (List.filter_sublist.map _)
  refine (listing_sort (fun a b => Iff.rfl) hkeys).congr ?_
  intro r
  rw [List.mem_map]
  constructor
  · intro hr
    obtain ⟨⟨m, room⟩, he, rfl⟩ := hr
    obtain ⟨he, h0⟩ := List.mem_filter.mp he
    exact ⟨room, HashMap.mem_toList.mp he, by simpa using h0, rfl⟩
  · intro hr
    obtain ⟨room, hr, h0, heq⟩ := hr
    refine ⟨(r.matchId, room), List.mem_filter.mpr ⟨HashMap.mem_toList.mpr hr, ?_⟩, heq.symm⟩
    simpa using h0

theorem CoreState.Reorders.lists {core core' : CoreState} (h : core.Reorders core')
    (r : RoomSummary) : core'.Lists r ↔ core.Lists r := by
  unfold CoreState.Lists
  cases hr : core.rooms.get r.matchId with
  | none => rw [h.no_room hr]
  | some room =>
    obtain ⟨room', hr', hroom⟩ := h.room hr
    simp only [hr', Option.some.injEq, exists_eq_left', hroom.startedAtUnix, hroom.roomSummary]

theorem CoreState.Reorders.getRoom {core core' : CoreState} (h : core.Reorders core')
    (m : String) : getRoom core' m = getRoom core m := by
  unfold Kotatsu.getRoom
  cases hr : core.rooms.get m with
  | none => rw [h.no_room hr]
  | some room =>
    obtain ⟨room', hr', hroom⟩ := h.room hr
    simp only [hr', hroom.roomSummary]

/-- In every state, `list_rooms` lists the rooms that have not started, each with the
listing of its players, and `get_room` answers with the same entry; neither depends on the
order in which the maps are iterated. -/
theorem rooms_listed (core : CoreState) :
    Listing RoomSummary.matchId core.Lists (listRooms core) ∧
    (∀ r ∈ listRooms core, ∃ room, core.rooms.get r.matchId = some room ∧
      room.startedAtUnix = 0 ∧ r.startedAtUnix = room.startedAtUnix ∧
      r.maxPlayers = roomMaxPlayers ∧
      Listing RoomPlayer.playerId room.HasRow r.players ∧
      getRoom core r.matchId = .ok r) ∧
    ∀ core', core.Reorders core' →
      listRooms core' = listRooms core ∧ ∀ m, getRoom core' m = getRoom core m := by
  refine ⟨listRooms_listing core, ?_, ?_⟩
  · intro r hr
    obtain ⟨room, hroom, h0, heq⟩ := ((listRooms_listing core).mem r).mp hr
    refine ⟨room, hroom, h0, by rw [heq]; rfl, by rw [heq]; rfl, ?_, ?_⟩
    · rw [heq]
      exact roomPlayers_listing room
    · simp only [getRoom, hroom]
      rw [← heq]
  · intro core' h
    refine ⟨?_, h.getRoom⟩
    exact (listRooms_listing core').unique
      ((listRooms_listing core).congr fun r => (h.lists r).symm)

end Kotatsu
