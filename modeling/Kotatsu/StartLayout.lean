import Kotatsu.Layout
import Kotatsu.Listings

/-
  The snapshot of a first start (`start_match_and_snapshot_players`)

  The layout follows the sorted ids and the snapshot is sorted again; both are listings
  by player id, so each row shows the layout that its player has been given
  (`start_firstStart`). Neither depends on the order in which `players` is iterated: the
  positions are those of the sorted ids (`MatchRoom.Reorders.position`), and the snapshot
  is determined by the seats (`MatchRoom.Reorders.snapshotPlayers`).
-/

namespace Kotatsu

/-! ## Snapshots -/

/-- The row says what the room stores for its player, without the fallback of a colour. -/
structure PlayerMatchState.Shows (row : PlayerMatchState) (h : PlayerHandle) : Prop where
  displayName : row.displayName = h.displayName
  colorIndex : h.colorIndex = some row.colorIndex
  stageOrder : row.stageOrder = h.stageOrder
  currentStageIndex : row.currentStageIndex = h.currentStageIndex

theorem playerMatchState_shows (p : String) {h : PlayerHandle} {c : Nat}
    (hc : h.colorIndex = some c) : (playerMatchState p h).Shows h := by
  refine ⟨rfl, ?_, rfl, rfl⟩
  rw [playerMatchState, hc]
  rfl

theorem snapshotPlayers_listing (room : MatchRoom) :
    Listing PlayerMatchState.playerId
      (fun row => ∃ h, room.players.get row.playerId = some h ∧
        row = playerMatchState row.playerId h) (snapshotPlayers room) := by
  have hkeys : ((room.players.toList.map fun e => playerMatchState e.1 e.2).map
      PlayerMatchState.playerId).Nodup := by
    rw [List.map_map]
    exact room.players.toList_keys_nodup
  refine (listing_sort (fun a b => Iff.rfl) hkeys).congr ?_
  intro row
  rw [List.mem_map]
  constructor
  · intro hrow
    obtain ⟨⟨p, h⟩, he, rfl⟩ := hrow
    exact ⟨h, HashMap.mem_toList.mp he, rfl⟩
  · intro hrow
    obtain ⟨h, hp, heq⟩ := hrow
    exact ⟨(row.playerId, h), HashMap.mem_toList.mpr hp, heq.symm⟩

theorem MatchRoom.Reorders.snapshotPlayers {room room' : MatchRoom} (h : room.Reorders room') :
    snapshotPlayers room' = snapshotPlayers room := by
  refine (snapshotPlayers_listing room').unique ((snapshotPlayers_listing room).congr ?_)
  intro row
  rw [h.players.get]

/-! ## The order of the players does not matter -/

theorem sortedIds_listing (players : HashMap String PlayerHandle) :
    Listing id (fun p => ∃ h, players.get p = some h) (sortedIds players) := by
  have hkeys : (players.keys.map id).Nodup := by
    rw [List.map_id]
    exact players.keys_nodup
  exact (listing_sort (fun a b => Iff.rfl) hkeys).congr fun p => HashMap.mem_keys

theorem MatchRoom.Reorders.position {room room' : MatchRoom} (h : room.Reorders room')
    (p : String) : room'.position p = room.position p := by
  have hids : sortedIds room'.players = sortedIds room.players := by
    refine (sortedIds_listing _).unique ((sortedIds_listing _).congr ?_)
    intro q
    rw [h.players.get]
  rw [MatchRoom.position, hids, MatchRoom.position]

theorem MatchRoom.Reorders.start {room room' : MatchRoom} (h : room.Reorders room')
    (sh : Shuffles) (now : Nat) : (room.start sh now).Reorders (room'.start sh now) := by
  refine ⟨HashMap.reorders_of_get ?_, rfl, rfl, h.finishedPlayerIds⟩
  intro p
  rw [get_start, get_start, h.players.get, h.position]

/-! ## A first start -/

/-- `room'` is `room` after a first start at `nowUnix`, and `players` the snapshot of it. -/
structure FirstStart (room room' : MatchRoom) (nowUnix : Nat) (players : List PlayerMatchState) :
    Prop where
  startedAtUnix : room'.startedAtUnix = nowUnix
  /-- The seats are the same, and a seat keeps all but its layout. -/
  seats : ∀ p, (∃ h', room'.players.get p = some h') ↔ ∃ h, room.players.get p = some h
  keeps : ∀ p h h', room.players.get p = some h → room'.players.get p = some h' →
    h'.displayName = h.displayName ∧ h'.params = h.params ∧
    h'.nextParamChangeAtUnix = h.nextParamChangeAtUnix ∧ h'.reliableTx = h.reliableTx ∧
    h'.connection = h.connection
  /-- The snapshot lists the seats, each as it is stored. -/
  listing : Listing PlayerMatchState.playerId
    (fun row => ∃ h', room'.players.get row.playerId = some h' ∧ row.Shows h') players
  colors : (players.map PlayerMatchState.colorIndex).Nodup
  row : ∀ row ∈ players, row.colorIndex < roomMaxPlayers ∧
    row.stageOrder.length = matchStageOrderLen ∧ row.stageOrder.Nodup ∧
    (∀ x ∈ row.stageOrder, x < matchStagePoolSize) ∧ row.currentStageIndex = 0

section Start
variable {room : MatchRoom} (sh : Shuffles) (now : Nat)

/-- A seat after a start is one from before it, at its layout. -/
theorem seat_after_start {p : String} {h' : PlayerHandle}
    (hp : (room.start sh now).players.get p = some h') :
    ∃ h, room.players.get p = some h ∧ h' = layoutHandle sh (room.position p) h := by
  rw [get_start] at hp
  obtain ⟨h, hp, heq⟩ := Option.map_eq_some_iff.mp hp
  exact ⟨h, hp, heq.symm⟩

/-- Within capacity every row shows the stored seat: there is a colour for each. -/
theorem snapshot_after_start (hl : room.players.len ≤ roomMaxPlayers) :
    Listing PlayerMatchState.playerId
      (fun row => ∃ h', (room.start sh now).players.get row.playerId = some h' ∧ row.Shows h')
      (snapshotPlayers (room.start sh now)) := by
  refine (snapshotPlayers_listing (room.start sh now)).congr ?_
  intro row
  constructor
  · intro hrow
    obtain ⟨h', hp, heq⟩ := hrow
    obtain ⟨c, hc, -⟩ := ((start_laidOut sh now hl).seats row.playerId h' hp).color
    refine ⟨h', hp, ?_⟩
    rw [heq]
    exact playerMatchState_shows _ hc
  · intro hrow
    obtain ⟨h', hp, hname, hcolor, horder, hstage⟩ := hrow
    refine ⟨h', hp, ?_⟩
    obtain ⟨p, name, color, order, stage⟩ := row
    subst hname horder hstage
    rw [playerMatchState, hcolor]
    rfl

theorem start_firstStart (hl : room.players.len ≤ roomMaxPlayers) :
    FirstStart room (room.start sh now) now (snapshotPlayers (room.start sh now)) := by
  have hlaid : (room.start sh now).LaidOut := start_laidOut sh now hl
  have hlist := snapshot_after_start sh now hl
  refine ⟨rfl, ?_, ?_, hlist, ?_, ?_⟩
  · intro p
    rw [get_start]
    simp [Option.map_eq_some_iff]
  · intro p h h' hp hp'
    obtain ⟨g, hg, rfl⟩ := seat_after_start sh now hp'
    rw [hp] at hg
    obtain rfl := Option.some.inj hg
    exact ⟨rfl, rfl, rfl, rfl, rfl⟩
  · refine List.Nodup.map_on ?_ hlist.nodup
    intro row hrow row' hrow' heq
    obtain ⟨h, hp, hs⟩ := (hlist.mem row).mp hrow
    obtain ⟨h', hp', hs'⟩ := (hlist.mem row').mp hrow'
    have hid : row.playerId = row'.playerId := by
      refine hlaid.colors _ _ h h' hp hp' ?_
      rw [hs.colorIndex, hs'.colorIndex, heq]
    exact List.inj_on_of_nodup_map hlist.keys_nodup hrow hrow' hid
  · intro row hrow
    obtain ⟨h', hp, hs⟩ := (hlist.mem row).mp hrow
    obtain ⟨⟨c, hc, hlt⟩, hlen, hnodup, hstages⟩ := hlaid.seats row.playerId h' hp
    obtain ⟨h, -, heq⟩ := seat_after_start sh now hp
    have hcolor : row.colorIndex = c := Option.some.inj (hs.colorIndex.symm.trans hc)
    refine ⟨hcolor ▸ hlt, ?_, ?_, ?_, ?_⟩
    · rw [hs.stageOrder, hlen]
    · rw [hs.stageOrder]
      exact hnodup
    · rw [hs.stageOrder]
      exact hstages
    · rw [hs.currentStageIndex, heq]
      rfl

end Start

/-- For every outcome of the shuffles, a first start of a room within capacity returns a
well-formed snapshot of the seats as it leaves them; with the same outcomes it returns the
same one for every order in which the players are iterated, at either place. -/
theorem start_well_formed {core : CoreState} {m : String} {room : MatchRoom}
    (hr : core.rooms.get m = some room) (h0 : room.startedAtUnix = 0)
    (hl : room.players.len ≤ roomMaxPlayers) (sh : Shuffles) (now : Nat) :
    ∃ room' players,
      startMatchAndSnapshotPlayers core m sh now = (core.setRoom m room', .ok (now, true, players)) ∧
      FirstStart room room' now players ∧
      ∀ core₁ room₁, core₁.rooms.get m = some room₁ → room.Reorders room₁ → ∃ room₁',
        startMatchAndSnapshotPlayers core₁ m sh now =
          (core₁.setRoom m room₁', .ok (now, true, players)) ∧
        room'.Reorders room₁' ∧ ∀ room₂, room₁'.Reorders room₂ → snapshotPlayers room₂ = players := by
  have hstart : ∀ {core : CoreState} {room : MatchRoom}, core.rooms.get m = some room →
      room.startedAtUnix = 0 → startMatchAndSnapshotPlayers core m sh now =
        (core.setRoom m (room.start sh now), .ok (now, true, snapshotPlayers (room.start sh now))) := by
    intro core room hr h0
    simp only [startMatchAndSnapshotPlayers, hr, h0, if_true]
    rfl
  refine ⟨room.start sh now, snapshotPlayers (room.start sh now), hstart hr h0,
    start_firstStart sh now hl, ?_⟩
  intro core₁ room₁ hr₁ hroom
  have hsnap := (hroom.start sh now).snapshotPlayers
  refine ⟨room₁.start sh now, ?_, hroom.start sh now, ?_⟩
  · rw [hstart hr₁ (hroom.startedAtUnix.trans h0), hsnap]
  · intro room₂ hroom₂
    rw [hroom₂.snapshotPlayers, hsnap]

/-- A player as a registration seats it. -/
def newPlayer (name : String) (addr : SocketAddr) (tx : ChanId) : PlayerHandle :=
  registeredHandle none name addr tx

/-- Two seats, in the order of their registrations. -/
def twoSeats (p q : String) : MatchRoom :=
  { MatchRoom.new 1 with
    players := (HashMap.insert ∅ p (newPlayer p ⟨1, 1⟩ 0)).insert q (newPlayer q ⟨1, 2⟩ 1) }

/-- The first start of a room with two seats. -/
theorem start_well_formed_two : ∃ room' players,
    startMatchAndSnapshotPlayers (CoreState.empty.setRoom "m" (twoSeats "p_2" "p_1")) "m" .inOrder 5 =
      ((CoreState.empty.setRoom "m" (twoSeats "p_2" "p_1")).setRoom "m" room',
        .ok (5, true, players)) ∧
    FirstStart (twoSeats "p_2" "p_1") room' 5 players := by
  have hr : (CoreState.empty.setRoom "m" (twoSeats "p_2" "p_1")).rooms.get "m" =
      some (twoSeats "p_2" "p_1") := HashMap.get_insert_self _ _ _
  obtain ⟨room', players, hstart, hfirst, -⟩ := start_well_formed hr rfl (by decide) .inOrder 5
  exact ⟨room', players, hstart, hfirst⟩

end Kotatsu
