import Kotatsu.Ledger
import Kotatsu.Lib.Tables
import Kotatsu.ParamHistory
import Kotatsu.Passes
import Kotatsu.StartLayout

/-
  The server implements the match service (`room.rs`, `player.rs`, `ticket.rs`,
  `grpc_service.rs`)

  Each critical section is one entry of the service's journal, at the moment at which it
  holds the lock. Whatever the interleaving, the journal is lawful, and the core state is
  the one that the journal says, up to the activity of the rooms (`service_refined`). So
  what is proved of the ledger alone holds of the server.

  The seat of a registration is always a new one: its player has had none before, so the
  state that a registration would keep from an earlier seat is never there.
-/

namespace Kotatsu

/-- The stored seat. -/
def Seat.handle (seat : Seat) : PlayerHandle :=
  { displayName := seat.displayName
    params := seat.params
    nextParamChangeAtUnix := seat.nextParamChangeAtUnix
    colorIndex := seat.layout.map Prod.fst
    stageOrder := (seat.layout.map Prod.snd).getD []
    currentStageIndex := 0
    reliableTx := seat.tx
    connection := some (.udp seat.addr) }

/-- The room stores the match. -/
structure Match.Stored (room : MatchRoom) (x : Match) : Prop where
  seats : ∀ p, room.players.get p = (x.seats p).map Seat.handle
  startedAtUnix : room.startedAtUnix = x.startedAtUnix
  finished : room.finishedPlayerIds = x.finished

structure CoreKept (core : CoreState) (l : Ledger) : Prop where
  rooms : core.rooms.Stores Match.Stored l.rooms
  tickets : ∀ token, core.tickets.get token = l.tickets token

/-- The state is the one that the ledger describes; what it draws is none of the ids that
the ledger knows, and a join that is about to register has been admitted. -/
structure Kept (s : Sys) (l : Ledger) : Prop where
  core : CoreKept s.core l
  opened : ∀ m ∈ l.opened, m ∈ s.seen
  admitted : ∀ {tid addr m p name tx}, s.joins.get tid = some (.register addr m p name tx) →
    l.admitted p = some (m, name)

/-! ## One room -/

namespace Match.Stored

variable {room : MatchRoom} {x : Match}

theorem stores (h : Match.Stored room x) :
    room.players.Stores (fun handle seat => handle = Seat.handle seat) x.seats := by
  intro p
  rw [h.seats p]
  cases x.seats p with
  | none => exact .none
  | some seat => exact .some rfl

theorem len (h : Match.Stored room x) : room.players.len = x.taken := h.stores.len

theorem unseated (h : Match.Stored room x) {p : String} (hp : room.players.get p = none) :
    x.seats p = none := by
  rw [h.seats p] at hp
  exact Option.map_eq_none_iff.mp hp

theorem seated (h : Match.Stored room x) {p : String} {handle : PlayerHandle}
    (hp : room.players.get p = some handle) :
    ∃ seat, x.seats p = some seat ∧ handle = seat.handle := by
  rw [h.seats p] at hp
  obtain ⟨seat, hs, heq⟩ := Option.map_eq_some_iff.mp hp
  exact ⟨seat, hs, heq.symm⟩

theorem contains (h : Match.Stored room x) {p : String} (hp : room.players.contains p = true) :
    x.seats p ≠ none := by
  obtain ⟨handle, hp⟩ := HashMap.contains_iff.mp hp
  obtain ⟨seat, hs, -⟩ := h.seated hp
  rw [hs]
  exact Option.some_ne_none seat

theorem new (now : Nat) : Match.Stored (MatchRoom.new now) .new := ⟨fun _ => rfl, rfl, rfl⟩

theorem touched (h : Match.Stored room x) (now : Nat) :
    Match.Stored { room with lastActivityUnix := now } x := ⟨h.seats, h.startedAtUnix, h.finished⟩

theorem register (h : Match.Stored room x) {p : String} (hp : room.players.get p = none)
    (name : String) (addr : SocketAddr) (tx : ChanId) (now : Nat) :
    Match.Stored (room.register p name addr tx now) (x.sit p (.new name addr tx)) := by
  refine ⟨?_, h.startedAtUnix, h.finished⟩
  intro q
  rw [get_register, hp, Match.sit]
  dsimp only
  rw [Function.update_apply]
  split
  · rfl
  · exact h.seats q

theorem removePlayer (h : Match.Stored room x) (p : String) (now : Nat) :
    Match.Stored (room.removePlayer p now) (x.leave p) := by
  refine ⟨?_, h.startedAtUnix, h.finished⟩
  intro q
  rw [get_removePlayer, Match.leave]
  dsimp only
  rw [Function.update_apply]
  split
  · rfl
  · exact h.seats q

theorem setParams (h : Match.Stored room x) {p : String} {seat : Seat}
    (hp : x.seats p = some seat) (mu : ParamMutation) (now : Nat) :
    Match.Stored (room.setParams p seat.handle mu now) (x.change p mu) := by
  refine ⟨?_, h.startedAtUnix, h.finished⟩
  intro q
  rw [get_setParams, Match.change]
  dsimp only
  rw [Function.update_apply]
  split
  · rw [hp]
    rfl
  · exact h.seats q

theorem finish (h : Match.Stored room x) {p : String} (hp : p ∉ room.finishedPlayerIds)
    (now : Nat) : Match.Stored (room.finish p now) (x.finish p) := by
  rw [h.finished] at hp
  rw [Match.finish, if_neg hp]
  refine ⟨h.seats, h.startedAtUnix, ?_⟩
  show room.finishedPlayerIds ++ [p] = _
  rw [h.finished]

/-! ### Rows -/

theorem snapshot (h : Match.Stored room x) : x.Snapshot (snapshotPlayers room) := by
  refine (snapshotPlayers_listing room).congr ?_
  intro row
  constructor
  · rintro ⟨handle, hp, hrow⟩
    obtain ⟨seat, hs, rfl⟩ := h.seated hp
    exact ⟨seat, hs, hrow⟩
  · rintro ⟨seat, hs, hrow⟩
    refine ⟨seat.handle, ?_, hrow⟩
    rw [h.seats, hs]
    rfl

theorem summary (h : Match.Stored room x) (m : String) : x.Summary (roomSummary m room) := by
  refine ⟨rfl, h.startedAtUnix, (roomPlayers_listing room).congr ?_⟩
  intro row
  constructor
  · rintro ⟨handle, hp, hrow⟩
    obtain ⟨seat, hs, rfl⟩ := h.seated hp
    exact ⟨seat, hs, hrow.eq⟩
  · rintro ⟨seat, hs, hrow⟩
    refine ⟨seat.handle, by rw [h.seats, hs]; rfl, ?_⟩
    rw [hrow]
    exact ⟨rfl, rfl, rfl, rfl, rfl⟩

/-- Summaries of one room are equal. -/
theorem summary_unique (h : Match.Stored room x) {r : RoomSummary} (hr : x.Summary r) :
    r = roomSummary r.matchId room := by
  have hself := h.summary r.matchId
  obtain ⟨m, maxPlayers, players, started⟩ := r
  obtain ⟨rfl, hstarted, hplayers⟩ := hr
  have hrows : players = roomPlayers room := hplayers.unique hself.players
  dsimp only at hstarted
  subst hrows hstarted
  rw [roomSummary, h.startedAtUnix]

/-! ### A start -/

theorem dealt_row {players : List PlayerMatchState} {S : PlayerMatchState → Prop}
    (hlist : Listing PlayerMatchState.playerId S players) {row : PlayerMatchState}
    (hrow : row ∈ players) :
    dealt players row.playerId = some (row.colorIndex, row.stageOrder) := by
  cases hfind : players.find? fun r => r.playerId == row.playerId with
  | none =>
    have hno := List.find?_eq_none.mp hfind row hrow
    simp at hno
  | some row' =>
    have heq : row' = row :=
      List.inj_on_of_nodup_map hlist.keys_nodup (List.mem_of_find?_eq_some hfind) hrow
        (by simpa using List.find?_some hfind)
    rw [dealt, hfind, heq]
    rfl

theorem start (h : Match.Stored room x) (hlen : room.players.len ≤ roomMaxPlayers)
    (sh : Shuffles) (now : Nat) :
    Match.Stored (room.start sh now) (x.start now (snapshotPlayers (room.start sh now))) := by
  have hfirst := start_firstStart sh now hlen
  refine ⟨?_, rfl, h.finished⟩
  intro p
  rw [get_start, h.seats p]
  cases hp : x.seats p with
  | none => simp [Match.start, hp]
  | some seat =>
    have hget : (room.start sh now).players.get p =
        some (layoutHandle sh (room.position p) seat.handle) := by
      rw [get_start, h.seats p, hp]
      rfl
    obtain ⟨c, hc, -⟩ := ((start_laidOut sh now hlen).seats p _ hget).color
    have hrow : playerMatchState p (layoutHandle sh (room.position p) seat.handle) ∈
        snapshotPlayers (room.start sh now) :=
      (hfirst.listing.mem _).mpr ⟨_, hget, playerMatchState_shows p hc⟩
    have hdealt := dealt_row hfirst.listing hrow
    simp only [playerMatchState, hc, Option.getD_some] at hdealt
    simp only [Match.start, hp, hdealt, Option.map_some, Seat.handle, Option.getD_some,
      layoutHandle] at hc ⊢
    rw [hc]

theorem starts (h : Match.Stored room x) (hlen : room.players.len ≤ roomMaxPlayers)
    (h0 : room.startedAtUnix = 0) (sh : Shuffles) (now : Nat) :
    x.Starts now true (snapshotPlayers (room.start sh now)) := by
  have hfirst := start_firstStart sh now hlen
  refine ⟨?_, ?_⟩
  · rw [← h.startedAtUnix, h0]
    rfl
  · rw [if_pos rfl]
    refine ⟨(h.start hlen sh now).snapshot, hfirst.colors, ?_, ?_⟩
    · intro row hrow
      exact (hfirst.row row hrow).1
    · intro row hrow
      obtain ⟨-, hstages, hnodup, hlt, -⟩ := hfirst.row row hrow
      exact ⟨hstages, hnodup, hlt⟩

theorem starts_again (h : Match.Stored room x) (h0 : room.startedAtUnix ≠ 0) :
    x.Starts room.startedAtUnix false (snapshotPlayers room) := by
  refine ⟨?_, ?_⟩
  · rw [← h.startedAtUnix]
    simp [h0]
  · rw [if_neg Bool.false_ne_true]
    exact ⟨h.startedAtUnix, h.snapshot⟩

/-! ### Finishing -/

theorem finishes_first (h : Match.Stored room x) {m p : String} (h0 : room.startedAtUnix ≠ 0)
    (hp : room.players.contains p = true) (hn : p ∉ room.finishedPlayerIds) :
    x.Finishes
      { matchId := m
        playerId := p
        rank := asU32 (room.finishedPlayerIds.length + 1)
        finishedPlayerCount := asU32 (room.finishedPlayerIds.length + 1)
        totalPlayers := asU32 room.players.len } := by
  have hn' : p ∉ x.finished := h.finished ▸ hn
  refine ⟨h.startedAtUnix ▸ h0, h.contains hp, ?_, ?_, by rw [h.len]⟩
  · rw [Match.finish, if_neg hn', h.finished]
    dsimp only
    rw [List.idxOf_append_of_notMem hn', List.idxOf_cons_self]
  · rw [Match.finish, if_neg hn', h.finished]
    dsimp only
    rw [List.length_append, List.length_singleton]

theorem finishes_again (h : Match.Stored room x) {m p : String} (h0 : room.startedAtUnix ≠ 0)
    (hp : room.players.contains p = true) (hn : p ∈ room.finishedPlayerIds) :
    x.Finishes
      { matchId := m
        playerId := p
        rank := asU32 (room.finishedPlayerIds.idxOf p + 1)
        finishedPlayerCount := asU32 room.finishedPlayerIds.length
        totalPlayers := asU32 room.players.len } := by
  have hn' : p ∈ x.finished := h.finished ▸ hn
  refine ⟨h.startedAtUnix ▸ h0, h.contains hp, ?_, ?_, by rw [h.len]⟩
  · rw [Match.finish, if_pos hn', h.finished]
  · rw [Match.finish, if_pos hn', h.finished]

end Match.Stored

/-! ## One step -/

/-- The removals of a cleanup, one after the other. -/
theorem removals {l : Ledger} {ms : List String} (hnd : ms.Nodup)
    (hr : ∀ m ∈ ms, l.rooms m ≠ none) :
    matchService.LawfulFrom l (ms.map .roomRemoved) ∧
    matchService.replayFrom l (ms.map .roomRemoved) =
      { l with
        rooms := fun m => if m ∈ ms then none else l.rooms m
        tickets := fun token => (l.tickets token).filter fun t => !ms.contains t.matchId } := by
  induction ms generalizing l with
  | nil =>
    have htrue : ∀ o : Option Ticket, (o.filter fun _ => true) = o := fun o => by cases o <;> rfl
    refine ⟨trivial, ?_⟩
    show l = _
    simp [htrue]
  | cons m ms ih =>
    obtain ⟨hm, hnd⟩ := List.nodup_cons.mp hnd
    have hrest : ∀ m' ∈ ms, (l.removeRoom m).rooms m' ≠ none := by
      intro m' hm'
      have hne : m' ≠ m := by
        rintro rfl
        exact hm hm'
      show Function.update l.rooms m none m' ≠ none
      rw [Function.update_of_ne hne]
      exact hr m' (List.mem_cons_of_mem _ hm')
    obtain ⟨hlaw, hreplay⟩ := ih hnd hrest
    refine ⟨⟨hr m List.mem_cons_self, hlaw⟩, ?_⟩
    show matchService.replayFrom (l.removeRoom m) (ms.map .roomRemoved) = _
    rw [hreplay]
    unfold Ledger.removeRoom
    congr 1
    · funext m'
      dsimp only
      rw [Function.update_apply]
      by_cases heq : m' = m <;> by_cases hin : m' ∈ ms <;> simp [heq, hin]
    · funext token
      dsimp only
      rw [Option.filter_filter]
      congr 1
      funext t
      rw [List.contains_cons, Bool.not_or]
      rfl

/-- What is refused is refused by the ledger. -/
theorem refusal_admitted {core : CoreState} {l : Ledger} (hk : CoreKept core l) {call : Call}
    {status : Status} (h : CallRefusal core call status) : l.Refuses call status := by
  cases h with
  | noRoom hr => exact .noMatch ((hk.rooms.none_iff _).mp hr)
  | full hr hl =>
    obtain ⟨x, hx, hstored⟩ := hk.rooms.some hr
    exact .full hx (hstored.len ▸ hl)
  | notStarted hr h0 =>
    obtain ⟨x, hx, hstored⟩ := hk.rooms.some hr
    exact .notStarted hx (hstored.startedAtUnix ▸ h0)
  | notSeated hr h0 hp =>
    obtain ⟨x, hx, hstored⟩ := hk.rooms.some hr
    exact .notSeated hx (hstored.startedAtUnix ▸ h0) (hstored.unseated hp)

theorem change_admitted {core : CoreState} {l : Ledger} (hk : CoreKept core l) {m p e : String}
    {k : ParamKind} {d : ParamDirection} {now : Nat} (h : ParamRefusal core m p k d now e) :
    l.RefusesChange m p k d now e := by
  cases h with
  | noRoom hr => exact .noMatch ((hk.rooms.none_iff _).mp hr)
  | noPlayer hr hp =>
    obtain ⟨x, hx, hstored⟩ := hk.rooms.some hr
    exact .notSeated hx (hstored.unseated hp)
  | change hr hp hu =>
    obtain ⟨x, hx, hstored⟩ := hk.rooms.some hr
    obtain ⟨seat, hseat, rfl⟩ := hstored.seated hp
    exact .change hx hseat hu

/-- What reads the core state, or refuses, answers as the ledger does. -/
theorem reads_admitted {s s' : Sys} {a : Action} {evs : List Event} {l : Ledger}
    (hk : CoreKept s.core l) (h : Step s a s' evs) {e : Event} (he : e ∈ evs)
    (hq : e.onCore = false) (hj : ∀ m p reason, e ≠ .registerRefused m p reason) :
    l.Admits e := by
  cases e with
  | got r =>
    have hc : ControlStep s a s' evs := step_emitted (w := .control) h he rfl
    cases hc with
    | @got m room hr =>
      obtain rfl : r = roomSummary m room := by simpa using he
      obtain ⟨x, hx, hstored⟩ := hk.rooms.some hr
      exact ⟨x, hx, hstored.summary m⟩
    | _ => simp at he
  | listed rooms =>
    have hc : ControlStep s a s' evs := step_emitted (w := .control) h he rfl
    cases hc with
    | listed =>
      obtain rfl : rooms = listRooms s.core := by simpa using he
      refine (listRooms_listing s.core).congr ?_
      intro r
      constructor
      · rintro ⟨room, hr, h0, heq⟩
        obtain ⟨x, hx, hstored⟩ := hk.rooms.some hr
        refine ⟨x, hx, hstored.startedAtUnix ▸ h0, ?_⟩
        rw [heq]
        exact hstored.summary r.matchId
      · rintro ⟨x, hx, h0, hsum⟩
        obtain ⟨room, hr, hstored⟩ := hk.rooms.get hx
        exact ⟨room, hr, hstored.startedAtUnix.trans h0, hstored.summary_unique hsum⟩
    | _ => simp at he
  | refused call status =>
    have hc : ControlStep s a s' evs := step_emitted (w := .control) h he rfl
    cases hc with
    | refused _ hrefusal =>
      obtain ⟨rfl, rfl⟩ := Event.refused.inj (List.mem_singleton.mp he)
      exact refusal_admitted hk hrefusal
    | _ => simp at he
  | paramRefused m p k d now reason =>
    obtain ⟨tid, ch, -, hp⟩ := step_emitted (w := .param) h he rfl
    cases hp with
    | refused _ _ hrefusal =>
      obtain ⟨rfl, rfl, rfl, rfl, rfl, rfl⟩ := Event.paramRefused.inj (List.mem_singleton.mp he)
      exact change_admitted hk hrefusal
    | _ => simp at he
  | registerRefused m p reason => exact absurd rfl (hj m p reason)
  | enqueued _ _ | sentReliable _ _ | sentDatagram _ _ => trivial
  | _ => cases hq

/-- Events that neither touch the core state nor use up an admission leave the ledger as it
is. -/
theorem quiet_replay {l : Ledger} {evs : List Event} (hq : ∀ e ∈ evs, e.onCore = false)
    (hj : ∀ m p reason, Event.registerRefused m p reason ∉ evs) :
    matchService.replayFrom l evs = l := by
  induction evs with
  | nil => rfl
  | cons e evs ih =>
    have he : l.apply e = l := by
      have hq := hq e List.mem_cons_self
      cases e with
      | registerRefused m p reason => exact absurd List.mem_cons_self (hj m p reason)
      | refused _ _ | paramRefused _ _ _ _ _ _ | listed _ | got _ | enqueued _ _
      | sentReliable _ _ | sentDatagram _ _ => rfl
      | _ => cases hq
    show matchService.replayFrom (l.apply e) evs = l
    rw [he]
    exact ih (fun e he => hq e (List.mem_cons_of_mem _ he))
      fun m p reason he => hj m p reason (List.mem_cons_of_mem _ he)

theorem quiet_lawful {l : Ledger} {evs : List Event} (hq : ∀ e ∈ evs, e.onCore = false)
    (hj : ∀ m p reason, Event.registerRefused m p reason ∉ evs)
    (ha : ∀ e ∈ evs, l.Admits e) : matchService.LawfulFrom l evs := by
  induction evs with
  | nil => trivial
  | cons e evs ih =>
    have he : matchService.apply l e = l := by
      refine @quiet_replay l [e] ?_ ?_
      · intro e' he'
        rw [List.mem_singleton.mp he']
        exact hq e List.mem_cons_self
      · intro m p reason he'
        rw [List.mem_singleton] at he'
        exact hj m p reason (he' ▸ List.mem_cons_self)
    refine ⟨ha e List.mem_cons_self, ?_⟩
    rw [he]
    exact ih (fun e he => hq e (List.mem_cons_of_mem _ he))
      (fun m p reason he => hj m p reason (List.mem_cons_of_mem _ he))
      fun e he => ha e (List.mem_cons_of_mem _ he)

/-- A registration that is refused leaves the core state as it is. -/
theorem refused_by {s s' : Sys} {a : Action} {evs : List Event} (h : Step s a s' evs)
    {m p reason : String} (he : Event.registerRefused m p reason ∈ evs) :
    evs = [.registerRefused m p reason] ∧ s'.core = s.core ∧
    ∃ tid addr name tx, s.joins.get tid = some (.register addr m p name tx) ∧
      s'.joins.get tid = some (.sendError addr "join_failed" reason (some tx)) ∧
      ((s.core.rooms.get m = none ∧ reason = "match_not_found") ∨
        ∃ room, s.core.rooms.get m = some room ∧ room.FullFor p ∧ reason = "match_full") := by
  obtain ⟨tid, ch, -, hj⟩ := step_emitted (w := .join) h he rfl
  cases hj with
  | joinRefused ht hwhy =>
    obtain ⟨rfl, rfl, rfl⟩ := Event.registerRefused.inj (List.mem_singleton.mp he)
    exact ⟨rfl, rfl, tid, _, _, _, ht, HashMap.get_insert_self _ _ _, hwhy⟩
  | errorSent _ hev => rcases hev with rfl | rfl <;> simp at he
  | _ => simp at he

/-- What a registration relies on: the player has no seat in the room yet. -/
theorem registering_unseated {s s' : Sys} {tr : List Event} (hreg : Registry s tr)
    (hents : Registrants s tr) {a : Action} {evs : List Event} (h : Step s a s' evs)
    {m p : String} {addr : SocketAddr} {tx : ChanId} (he : Event.registered m p addr tx ∈ evs)
    {room : MatchRoom} (hr : s.core.rooms.get m = some room) : room.players.get p = none := by
  refine Option.eq_none_iff_forall_ne_some.mpr fun handle hp => ?_
  obtain ⟨addr', ho, -⟩ := seat_registered hents ((seat_of_room hr p).trans hp)
  exact unregistered_before hreg h he _ _ _ ho

section Writes
variable {core : CoreState} {l : Ledger}

/-- A room that is written back follows its match. -/
theorem CoreKept.inRoom (hk : CoreKept core l) {m : String} {x : Match} (hx : l.rooms m = some x)
    {room : MatchRoom} {f : Match → Match} (hroom : Match.Stored room (f x)) :
    CoreKept (core.setRoom m room) (l.inRoom m f) := by
  refine ⟨?_, hk.tickets⟩
  show HashMap.Stores _ (core.rooms.insert m room)
    (Function.update l.rooms m ((l.rooms m).map f))
  rw [hx]
  exact hk.rooms.insert m hroom

/-- A token that is presented is used up. -/
theorem CoreKept.spent (hk : CoreKept core l) (token token' : String) :
    (core.tickets.remove token).get token' = Function.update l.tickets token none token' := by
  rw [HashMap.get_remove, Function.update_apply, hk.tickets]

theorem CoreKept.there (hk : CoreKept core l) {m : String} {room : MatchRoom}
    (hr : core.rooms.get m = some room) : l.rooms m ≠ none := by
  obtain ⟨x, hx, -⟩ := hk.rooms.some hr
  rw [hx]
  exact Option.some_ne_none x

theorem cleaned_refined (hk : CoreKept core l) (timeout now : Nat) :
    matchService.LawfulFrom l ((deleteStaleLobbyRooms core timeout now).2.map .roomRemoved) ∧
      CoreKept (deleteStaleLobbyRooms core timeout now).1
        (matchService.replayFrom l
          ((deleteStaleLobbyRooms core timeout now).2.map .roomRemoved)) := by
  have hexist : ∀ m ∈ (deleteStaleLobbyRooms core timeout now).2, l.rooms m ≠ none := by
    intro m hm
    obtain ⟨room, hr, -⟩ := mem_deleteStale.mp hm
    exact hk.there hr
  obtain ⟨hlaw, hreplay⟩ := removals (deleteStale_nodup core timeout now) hexist
  rw [hreplay]
  refine ⟨hlaw, ?_, ?_⟩
  · intro m
    dsimp only
    split
    · next hm =>
      have hnone : (deleteStaleLobbyRooms core timeout now).1.rooms.get m = none :=
        Option.eq_none_iff_forall_ne_some.mpr fun room hr => (deleteStale_rooms.mp hr).2 hm
      rw [hnone]
      exact .none
    · next hm =>
      have hsame : (deleteStaleLobbyRooms core timeout now).1.rooms.get m = core.rooms.get m := by
        ext room
        rw [deleteStale_rooms]
        exact and_iff_left hm
      rw [hsame]
      exact hk.rooms m
  · intro token
    dsimp only
    ext t
    rw [deleteStale_tickets, Option.filter_eq_some_iff, hk.tickets]
    simp

end Writes

/-- A registration is refused where the ledger refuses the seat. -/
theorem refused_refined {s s' : Sys} {l : Ledger} (hk : Kept s l) {a : Action} {evs : List Event}
    (h : Step s a s' evs) {m p reason : String} (he : Event.registerRefused m p reason ∈ evs) :
    matchService.LawfulFrom l evs ∧ CoreKept s'.core (matchService.replayFrom l evs) := by
  obtain ⟨rfl, hsame, tid, addr, name, tx, ht, -, hwhy⟩ := refused_by h he
  rw [hsame]
  refine ⟨⟨⟨⟨name, hk.admitted ht⟩, ?_⟩, trivial⟩, hk.core.rooms, hk.core.tickets⟩
  rcases hwhy with ⟨hr, rfl⟩ | ⟨room, hr, hfull, rfl⟩
  · exact .noMatch ((hk.core.rooms.none_iff m).mp hr)
  · obtain ⟨x, hx, hstored⟩ := hk.core.rooms.some hr
    exact .full hx (hstored.len ▸ hfull.1)

theorem core_refined {s s' : Sys} {tr : List Event} {l : Ledger} (hreg : Registry s tr)
    (hents : Registrants s tr) (hcap : ∀ m room, s.core.rooms.get m = some room →
      room.players.len ≤ roomMaxPlayers)
    (htoken : ∀ token t, s.core.tickets.get token = some t → token ∈ s.seen) (hk : Kept s l)
    {a : Action} {evs : List Event} (h : Step s a s' evs) :
    matchService.LawfulFrom l evs ∧ CoreKept s'.core (matchService.replayFrom l evs) := by
  have hrooms := hk.core.rooms
  have htickets := hk.core.tickets
  have hone : ∀ {e : Event} {core : CoreState}, l.Admits e → CoreKept core (l.apply e) →
      matchService.LawfulFrom l [e] ∧ CoreKept core (matchService.replayFrom l [e]) :=
    fun ha hkept => ⟨⟨ha, trivial⟩, hkept⟩
  by_cases hrefused : ∃ m p reason, Event.registerRefused m p reason ∈ evs
  · obtain ⟨m, p, reason, he⟩ := hrefused
    exact refused_refined hk h he
  have hnot : ∀ m p reason, Event.registerRefused m p reason ∉ evs :=
    fun m p reason he => hrefused ⟨m, p, reason, he⟩
  have hcore := step_core h
  generalize s'.core = core at hcore
  cases hcore with
  | quiet hq =>
    rw [quiet_replay hq hnot]
    refine ⟨quiet_lawful hq hnot fun e he => ?_, hk.core⟩
    exact reads_admitted hk.core h he (hq e he) fun m p reason heq => hnot m p reason (heq ▸ he)
  | created hf =>
    exact hone ⟨fun hm => hf (hk.opened _ hm), rfl⟩ ⟨hrooms.insert _ (.new _), htickets⟩
  | @issued req uuid token now room hp ht hne hr hl =>
    obtain ⟨x, hx, hstored⟩ := hrooms.some hr
    refine hone ⟨?_, rfl, rfl, x, hx, ?_⟩ ⟨?_, ?_⟩
    · rw [← htickets]
      exact Option.eq_none_iff_forall_ne_some.mpr fun t hk' => ht (htoken token t hk')
    · rw [← hstored.len]
      exact hl
    · exact hrooms.over hx (hstored.touched now)
    · intro token'
      show (s.core.tickets.insert token _).get token' = Function.update l.tickets token _ token'
      rw [HashMap.get_insert, Function.update_apply, htickets]
      rfl
  | @unknownToken tid ch addr token now ht hk' =>
    refine hone ?_ ⟨hrooms, ?_⟩
    · show _ = l.answer token now
      rw [Ledger.answer, ← htickets, hk']
    · intro token'
      show _ = Function.update l.tickets token none token'
      rw [Function.update_apply]
      split
      · next heq => rw [heq, hk']
      · exact htickets token'
  | @expired tid ch addr token now t ht hk' hx =>
    refine hone ?_ ⟨hrooms, hk.core.spent token⟩
    show _ = l.answer token now
    simp only [Ledger.answer, ← htickets, hk', if_pos hx]
  | @consumed tid ch addr token now t ht hk' hx =>
    refine hone ?_ ⟨hrooms, hk.core.spent token⟩
    show _ = l.answer token now
    simp only [Ledger.answer, ← htickets, hk', if_neg (Nat.not_lt.mpr hx)]
  | @registered tid ch addr m p name room tx now ht hr hfull =>
    obtain ⟨x, hx, hstored⟩ := hrooms.some hr
    have hnone := registering_unseated hreg hents h (List.mem_singleton_self _) hr
    have hadmitted := hk.admitted ht
    have hname : ((l.admitted p).map Prod.snd).getD "" = name := by
      rw [hadmitted]
      rfl
    refine hone ⟨x, name, hx, hadmitted, hstored.unseated hnone, ?_⟩ ?_
    · rw [← hstored.len]
      by_contra hle
      exact hfull ⟨Nat.le_of_not_lt hle, HashMap.contains_eq_false.mpr hnone⟩
    · have hsat := hk.core.inRoom hx (f := (·.sit p (.new name addr tx)))
        (hstored.register hnone name addr tx now)
      rw [Ledger.apply, hname]
      exact ⟨hsat.rooms, hsat.tickets⟩
  | @removed tid ch c room now ht hr =>
    obtain ⟨x, hx, hstored⟩ := hrooms.some hr
    exact hone (hk.core.there hr) (hk.core.inRoom hx (hstored.removePlayer c.playerId now))
  | @updated tid ch m p tx seq k d now now' room player mu ht hr hp hu =>
    obtain ⟨x, hx, hstored⟩ := hrooms.some hr
    obtain ⟨seat, hseat, rfl⟩ := hstored.seated hp
    exact hone ⟨x, seat, hx, hseat, hu⟩ (hk.core.inRoom hx (hstored.setParams hseat mu now'))
  | @started m sh ch room hr h0 =>
    obtain ⟨x, hx, hstored⟩ := hrooms.some hr
    exact hone ⟨x, hx, hstored.starts (hcap m room hr) h0 sh _⟩
      (hk.core.inRoom hx (hstored.start (hcap m room hr) sh _))
  | startedAgain hr h0 =>
    obtain ⟨x, hx, hstored⟩ := hrooms.some hr
    exact hone ⟨x, hx, hstored.starts_again h0⟩ hk.core
  | @finishedFirst m p now room hr h0 hp hn =>
    obtain ⟨x, hx, hstored⟩ := hrooms.some hr
    exact hone ⟨x, hx, hstored.finishes_first h0 hp hn⟩
      (hk.core.inRoom hx (hstored.finish hn now))
  | @finishedAgain m p now room hr h0 hp hn =>
    obtain ⟨x, hx, hstored⟩ := hrooms.some hr
    refine hone ⟨x, hx, hstored.finishes_again h0 hp hn⟩ ⟨?_, htickets⟩
    show HashMap.Stores _ s.core.rooms (Function.update l.rooms _ ((l.rooms _).map _))
    rw [hstored.finished] at hn
    rw [hx, Option.map_some, Match.finish, if_pos hn, ← hx, Function.update_eq_self]
    exact hrooms
  | @deleted m room hr =>
    refine hone (hk.core.there hr) ⟨hrooms.remove m, ?_⟩
    intro token
    show HashMap.get _ token = (l.tickets token).filter _
    rw [HashMap.get_retain, htickets]
  | @cleaned tid timeout now ht => exact cleaned_refined hk.core timeout now

/-! ## Ids and admissions -/

theorem opened_replay {l : Ledger} {evs : List Event} {m : String}
    (hm : m ∈ (matchService.replayFrom l evs).opened) :
    m ∈ l.opened ∨ ∃ resp now, Event.roomCreated resp now ∈ evs ∧ resp.matchId = m := by
  induction evs generalizing l with
  | nil => exact .inl hm
  | cons e evs ih =>
    rcases ih (l := l.apply e) hm with hm | ⟨resp, now, he, heq⟩
    · have hold : (l.apply e).opened = l.opened →
          m ∈ l.opened ∨ ∃ resp now, Event.roomCreated resp now ∈ e :: evs ∧ resp.matchId = m :=
        fun ho => .inl (ho ▸ hm)
      cases e with
      | roomCreated resp now =>
        rcases hm with rfl | hm
        · exact .inr ⟨resp, now, List.mem_cons_self, rfl⟩
        · exact .inl hm
      | ticketPresented token now result => cases result <;> exact hold rfl
      | roomStarted m' t just players => cases just <;> exact hold rfl
      | _ => exact hold rfl
    · exact .inr ⟨resp, now, List.mem_cons_of_mem _ he, heq⟩

/-- An admission stays until its player is registered, refused or admitted again. -/
theorem admitted_replay {l : Ledger} {evs : List Event} {p : String}
    (hreg : ∀ m a tx, Event.registered m p a tx ∉ evs)
    (href : ∀ m reason, Event.registerRefused m p reason ∉ evs)
    (hadm : ∀ token now m name, Event.ticketPresented token now (.ok (m, p, name)) ∉ evs) :
    (matchService.replayFrom l evs).admitted p = l.admitted p := by
  induction evs generalizing l with
  | nil => rfl
  | cons e evs ih =>
    have hrest := ih (l := l.apply e) (fun m a tx hm => hreg m a tx (List.mem_cons_of_mem _ hm))
      (fun m reason hm => href m reason (List.mem_cons_of_mem _ hm))
      fun token now m name hm => hadm token now m name (List.mem_cons_of_mem _ hm)
    refine hrest.trans ?_
    cases e with
    | ticketPresented token now result =>
      cases result with
      | error e => rfl
      | ok r =>
        obtain ⟨m, q, name⟩ := r
        refine Function.update_of_ne ?_ _ _
        rintro rfl
        exact hadm token now m name List.mem_cons_self
    | registered m q a tx =>
      refine Function.update_of_ne ?_ _ _
      rintro rfl
      exact hreg m a tx List.mem_cons_self
    | registerRefused m q reason =>
      refine Function.update_of_ne ?_ _ _
      rintro rfl
      exact href m reason List.mem_cons_self
    | roomStarted m t just players => cases just <;> rfl
    | _ => rfl

/-- A player whose ticket is accepted held that ticket. -/
theorem accepted_held {s s' : Sys} {a : Action} {evs : List Event} (h : Step s a s' evs)
    {token m p name : String} {now : Nat}
    (he : Event.ticketPresented token now (.ok (m, p, name)) ∈ evs) :
    evs = [.ticketPresented token now (.ok (m, p, name))] ∧ Holds s p (.ticket token) := by
  obtain ⟨tid, ch, -, hj⟩ := step_emitted (w := .join) h he rfl
  cases hj with
  | consumed ht hk _ _ =>
    obtain ⟨rfl, rfl, rfl, rfl, rfl⟩ : token = _ ∧ now = _ ∧ m = _ ∧ p = _ ∧ name = _ := by
      simpa using he
    exact ⟨rfl, .ticket hk rfl⟩
  | errorSent _ hev => rcases hev with rfl | rfl <;> simp at he
  | _ => simp at he

theorem kept_step {s s' : Sys} {tr : List Event} {l : Ledger} (hcust : Custody s)
    (hcust' : Custody s') (hreg : Registry s tr)
    (hents : Registrants s tr) (hcap : ∀ m room, s.core.rooms.get m = some room →
      room.players.len ≤ roomMaxPlayers)
    (htoken : ∀ token t, s.core.tickets.get token = some t → token ∈ s.seen) (hk : Kept s l)
    {a : Action} {evs : List Event} (h : Step s a s' evs) :
    matchService.LawfulFrom l evs ∧ Kept s' (matchService.replayFrom l evs) := by
  obtain ⟨hlaw, hcore⟩ := core_refined hreg hents hcap htoken hk h
  refine ⟨hlaw, hcore, ?_, ?_⟩
  · intro m hm
    rcases opened_replay hm with hm | ⟨resp, now, he, rfl⟩
    · exact seen_step h (hk.opened m hm)
    · exact created_seen h he
  · intro tid addr m p name tx ht'
    have hplace : Holds s' p (.join tid true) := .join ht' rfl
    have hunregistered : ∀ m' a' tx, Event.registered m' p a' tx ∉ evs := by
      intro m' a' tx he
      obtain ⟨-, tid', -, -, -, hx'⟩ := registered_step h he
      have heq := hcust'.unique hplace hx'
      cases heq
    rcases registering_from h ht' with ht | ⟨ch, token, now, t, -, ht, htk, rfl, rfl, he⟩
    · rw [admitted_replay hunregistered]
      · exact hk.admitted ht
      · -- a task that was refused is past its registration
        intro m' reason he
        obtain ⟨-, -, tid', a', name', tx', hold, hnew, -⟩ := refused_by h he
        have heq := hcust.unique (.join ht rfl) (.join hold rfl)
        cases heq
        rw [hnew] at ht'
        cases ht'
      · -- the ticket of a player that a task has consumed is not there
        intro token now m' name' he
        have heq := hcust.unique (accepted_held h he).2 (.join ht rfl)
        cases heq
    · obtain ⟨rfl, -⟩ := accepted_held h he
      exact Function.update_self _ _ _

/-- The server simulates the match service. -/
theorem server_refines : server.Refines Machine.anyStep matchService Kept := by
  refine ⟨?_, ?_⟩
  · intro s hinit
    obtain ⟨url, rfl⟩ := hinit
    refine ⟨⟨HashMap.stores_empty, fun _ => rfl⟩, ?_, ?_⟩
    · intro m hm
      cases hm
    · intro tid addr m p name tx ht
      cases ht
  · intro s tr a s' evs hreach hk _ hs
    refine kept_step (custody hreach) (custody (hreach.step trivial hs)) (registry hreach)
      (registrants hreach) (capacity hreach) ?_ hk (step_spec hs)
    intro token t ht
    obtain ⟨req, resp, now, he, rfl, -⟩ := stored_ticket hreach ht
    exact (tokensSeen hreach).issued he

/-- Every history of the server is a lawful journal of the match service, and the core state
is the one that the journal describes. -/
theorem service_refined {s : Sys} {tr : List Event} (h : server.Reach Machine.anyStep s tr) :
    matchService.Lawful tr ∧ Kept s (matchService.replay tr) := server_refines.reach h

/-- A history with a room, a seat and a start in it. -/
theorem service_refined_started : ∃ s tr, server.Reach Machine.anyStep s tr ∧
    tr.any (·.opens 0) = true ∧ s.core.rooms.keys = ["m_r"] ∧ matchService.Lawful tr ∧
    Kept s (matchService.replay tr) := by
  obtain ⟨s, tr, h, hp⟩ := reach_of_actions Machine.anyStep startedJoining
    (fun s tr => tr.any (·.opens 0) && s.core.rooms.keys == ["m_r"]) (by decide)
  obtain ⟨hopen, hkeys⟩ := (Bool.and_eq_true _ _).mp hp
  exact ⟨s, tr, h, hopen, beq_iff_eq.mp hkeys, service_refined h⟩

end Kotatsu
