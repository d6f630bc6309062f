import Kotatsu.Lib.Journal
import Kotatsu.Lib.Listing
import Kotatsu.Steps
import Mathlib.Data.Set.Card

/-
  The service as its callers see it

  What the server is for, with no socket, task, lock or queue: matches with seats, a start
  and an order of finishing; tickets; and the admissions that consumed tickets give. An
  event either is an answer, which the ledger must agree with (`Ledger.Admits`), or changes
  the ledger as well (`Ledger.apply`). Reads and packets change nothing.

  The order in which a map is iterated is not part of this: what is listed is a `Listing`.
  Nor is the activity of a room, which no answer shows.
-/

namespace Kotatsu

/-- A seat. The layout, a colour and an order of stages, comes with a start. -/
structure Seat where
  displayName : String
  params : PlayerParams
  nextParamChangeAtUnix : Nat
  layout : Option (Nat × List Nat)
  addr : SocketAddr
  tx : ChanId

/-- The seat that a registration gives. -/
def Seat.new (displayName : String) (addr : SocketAddr) (tx : ChanId) : Seat :=
  { displayName := displayName
    params := .default
    nextParamChangeAtUnix := 0
    layout := none
    addr := addr
    tx := tx }

/-- The row of the seat in the snapshot of a start. -/
def Seat.matchState (playerId : String) (seat : Seat) : PlayerMatchState :=
  { playerId := playerId
    displayName := seat.displayName
    colorIndex := (seat.layout.map Prod.fst).getD 0
    stageOrder := (seat.layout.map Prod.snd).getD []
    currentStageIndex := 0 }

/-- The row of the seat in a summary of its room. -/
def Seat.roomPlayer (playerId : String) (seat : Seat) : RoomPlayer :=
  { playerId := playerId
    displayName := seat.displayName
    gravity := seat.params.gravity
    friction := seat.params.friction
    speed := seat.params.speed
    nextParamChangeAtUnix := seat.nextParamChangeAtUnix }

/-- A match; the time of the start is 0 before it. -/
structure Match where
  seats : String → Option Seat
  startedAtUnix : Nat
  finished : List String

def Match.new : Match := { seats := fun _ => none, startedAtUnix := 0, finished := [] }

/-- The number of seats that are taken. -/
noncomputable def Match.taken (x : Match) : Nat := {p | x.seats p ≠ none}.ncard

def Match.sit (x : Match) (p : String) (seat : Seat) : Match :=
  { x with seats := Function.update x.seats p (some seat) }

def Match.leave (x : Match) (p : String) : Match :=
  { x with seats := Function.update x.seats p none }

def Match.change (x : Match) (p : String) (mu : ParamMutation) : Match :=
  { x with
    seats := Function.update x.seats p ((x.seats p).map fun seat =>
      { seat with params := mu.params, nextParamChangeAtUnix := mu.nextParamChangeAtUnix }) }

/-- The layout that the rows deal to the player. -/
def dealt (players : List PlayerMatchState) (p : String) : Option (Nat × List Nat) :=
  (players.find? fun row => row.playerId == p).map fun row => (row.colorIndex, row.stageOrder)

def Match.start (x : Match) (startedAtUnix : Nat) (players : List PlayerMatchState) : Match :=
  { x with
    startedAtUnix := startedAtUnix
    seats := fun p => (x.seats p).map fun seat => { seat with layout := dealt players p } }

/-- A player finishes once. -/
def Match.finish (x : Match) (p : String) : Match :=
  if p ∈ x.finished then x else { x with finished := x.finished ++ [p] }

/-- The rows are those of the seats, by player id. -/
def Match.Snapshot (x : Match) (players : List PlayerMatchState) : Prop :=
  Listing PlayerMatchState.playerId
    (fun row => ∃ seat, x.seats row.playerId = some seat ∧ row = seat.matchState row.playerId)
    players

/-- What a start deals: a colour of one's own and an order of stages. -/
structure Deals (players : List PlayerMatchState) : Prop where
  colors : (players.map PlayerMatchState.colorIndex).Nodup
  color : ∀ row ∈ players, row.colorIndex < roomMaxPlayers
  stages : ∀ row ∈ players, row.stageOrder.length = matchStageOrderLen ∧ row.stageOrder.Nodup ∧
    ∀ x ∈ row.stageOrder, x < matchStagePoolSize

structure Ledger where
  /-- The ids of the rooms that were ever created. -/
  opened : Set String
  rooms : String → Option Match
  tickets : String → Option Ticket
  /-- The room and the name that a consumed ticket has given to a player. -/
  admitted : String → Option (String × String)

def Ledger.empty : Ledger :=
  { opened := ∅, rooms := fun _ => none, tickets := fun _ => none, admitted := fun _ => none }

/-! ## What an event changes -/

def Ledger.inRoom (l : Ledger) (m : String) (f : Match → Match) : Ledger :=
  { l with rooms := Function.update l.rooms m ((l.rooms m).map f) }

/-- The ticket that a response describes. -/
def issuedTicket (req : IssueJoinTicketRequest) (resp : IssueJoinTicketResponse) : Ticket :=
  { matchId := resp.matchId
    playerId := resp.playerId
    displayName := normalizeDisplayName req.displayName
    expiresAtUnix := resp.tokenExpiresAtUnix }

/-- A presented token is worth nothing afterwards; an accepted one admits its player. -/
def Ledger.present (l : Ledger) (token : String) :
    Except String (String × String × String) → Ledger
  | .ok (m, p, name) =>
    { l with
      tickets := Function.update l.tickets token none
      admitted := Function.update l.admitted p (some (m, name)) }
  | .error _ => { l with tickets := Function.update l.tickets token none }

/-- A room is removed with its tickets. -/
def Ledger.removeRoom (l : Ledger) (m : String) : Ledger :=
  { l with
    rooms := Function.update l.rooms m none
    tickets := fun token => (l.tickets token).filter fun t => t.matchId != m }

/-- An admission is used up by the registration, granted or refused. -/
def Ledger.apply (l : Ledger) : Event → Ledger
  | .roomCreated resp _ =>
    { l with
      opened := insert resp.matchId l.opened
      rooms := Function.update l.rooms resp.matchId (some .new) }
  | .ticketIssued req resp _ =>
    { l with tickets := Function.update l.tickets resp.token (some (issuedTicket req resp)) }
  | .ticketPresented token _ result => l.present token result
  | .registered m p addr tx =>
    let name := ((l.admitted p).map Prod.snd).getD ""
    { l.inRoom m (·.sit p (.new name addr tx)) with
      admitted := Function.update l.admitted p none }
  | .registerRefused _ p _ => { l with admitted := Function.update l.admitted p none }
  | .seatRemoved m p => l.inRoom m (·.leave p)
  | .paramUpdated m p _ _ _ updated => l.inRoom m (·.change p updated)
  | .roomStarted m startedAtUnix justStarted players =>
    if justStarted then l.inRoom m (·.start startedAtUnix players) else l
  | .finished resp => l.inRoom resp.matchId (·.finish resp.playerId)
  | .roomRemoved m => l.removeRoom m
  | _ => l

/-! ## Which answers are right -/

/-- The answer to a token at `nowUnix`. -/
def Ledger.answer (l : Ledger) (token : String) (nowUnix : Nat) :
    Except String (String × String × String) :=
  match l.tickets token with
  | none => .error "invalid_token"
  | some t =>
    if t.expiresAtUnix < nowUnix then .error "token_expired"
    else .ok (t.matchId, t.playerId, t.displayName)

/-- The start, if the match had not started, deals a layout to every seat; another start
answers with the first one. -/
def Match.Starts (x : Match) (startedAtUnix : Nat) (justStarted : Bool)
    (players : List PlayerMatchState) : Prop :=
  justStarted = decide (x.startedAtUnix = 0) ∧
  if justStarted then (x.start startedAtUnix players).Snapshot players ∧ Deals players
  else startedAtUnix = x.startedAtUnix ∧ x.Snapshot players

/-- A seated player of a started match gets the rank at which it has finished first. -/
structure Match.Finishes (x : Match) (resp : FinishRoomResponse) : Prop where
  started : x.startedAtUnix ≠ 0
  seated : x.seats resp.playerId ≠ none
  rank : resp.rank = asU32 ((x.finish resp.playerId).finished.idxOf resp.playerId + 1)
  count : resp.finishedPlayerCount = asU32 (x.finish resp.playerId).finished.length
  total : resp.totalPlayers = asU32 x.taken

/-- The summary is right about its room. -/
structure Match.Summary (x : Match) (r : RoomSummary) : Prop where
  maxPlayers : r.maxPlayers = roomMaxPlayers
  startedAtUnix : r.startedAtUnix = x.startedAtUnix
  players : Listing RoomPlayer.playerId
    (fun row => ∃ seat, x.seats row.playerId = some seat ∧ row = seat.roomPlayer row.playerId)
    r.players

/-- A request is refused where the match is not there, is full, has not started, or has no
seat for the player. -/
inductive Ledger.Refuses (l : Ledger) : Call → Status → Prop
  | noMatch {call : Call} (hx : l.rooms call.room = none) :
      Refuses l call ⟨.notFound, "match_not_found"⟩
  | full {req : IssueJoinTicketRequest} {x : Match} (hx : l.rooms req.matchId = some x)
      (hl : roomMaxPlayers ≤ x.taken) :
      Refuses l (.issueJoinTicket req) ⟨.failedPrecondition, "match_full"⟩
  | notStarted {m p : String} {x : Match} (hx : l.rooms m = some x) (h0 : x.startedAtUnix = 0) :
      Refuses l (.finishRoom m p) ⟨.failedPrecondition, "match_not_started"⟩
  | notSeated {m p : String} {x : Match} (hx : l.rooms m = some x) (h0 : x.startedAtUnix ≠ 0)
      (hp : x.seats p = none) : Refuses l (.finishRoom m p) ⟨.notFound, "player_not_found"⟩

/-- A registration is refused where the match is not there or is full. -/
inductive Ledger.RefusesSeat (l : Ledger) (m : String) : String → Prop
  | noMatch (hx : l.rooms m = none) : RefusesSeat l m "match_not_found"
  | full {x : Match} (hx : l.rooms m = some x) (hl : roomMaxPlayers ≤ x.taken) :
      RefusesSeat l m "match_full"

/-- A change is refused to a player without a seat, and where the rules of the seat refuse it. -/
inductive Ledger.RefusesChange (l : Ledger) (m p : String) (param : ParamKind)
    (direction : ParamDirection) (nowUnix : Nat) : String → Prop
  | noMatch (hx : l.rooms m = none) :
      RefusesChange l m p param direction nowUnix "match_not_found"
  | notSeated {x : Match} (hx : l.rooms m = some x) (hp : x.seats p = none) :
      RefusesChange l m p param direction nowUnix "player_not_found"
  | change {x : Match} {seat : Seat} {e : ParamUpdateError} (hx : l.rooms m = some x)
      (hp : x.seats p = some seat)
      (hu : applyParamChange seat.params seat.nextParamChangeAtUnix param direction nowUnix =
        .error e) : RefusesChange l m p param direction nowUnix e.toText

/-- The ledger agrees with the event. -/
def Ledger.Admits (l : Ledger) : Event → Prop
  | .roomCreated resp _ => resp.matchId ∉ l.opened ∧ resp.maxPlayers = roomMaxPlayers
  | .ticketIssued req resp nowUnix =>
    l.tickets resp.token = none ∧ resp.matchId = req.matchId ∧
    resp.tokenExpiresAtUnix = nowUnix + tokenTtlSecs ∧
    ∃ x, l.rooms req.matchId = some x ∧ x.taken < roomMaxPlayers
  | .ticketPresented token nowUnix result => result = l.answer token nowUnix
  | .registered m p _ _ =>
    ∃ x name, l.rooms m = some x ∧ l.admitted p = some (m, name) ∧ x.seats p = none ∧
      x.taken < roomMaxPlayers
  | .registerRefused m p reason =>
    (∃ name, l.admitted p = some (m, name)) ∧ l.RefusesSeat m reason
  | .seatRemoved m _ => l.rooms m ≠ none
  | .paramUpdated m p param direction nowUnix updated =>
    ∃ x seat, l.rooms m = some x ∧ x.seats p = some seat ∧
      applyParamChange seat.params seat.nextParamChangeAtUnix param direction nowUnix =
        .ok updated
  | .paramRefused m p param direction nowUnix reason =>
    l.RefusesChange m p param direction nowUnix reason
  | .roomStarted m startedAtUnix justStarted players =>
    ∃ x, l.rooms m = some x ∧ x.Starts startedAtUnix justStarted players
  | .finished resp => ∃ x, l.rooms resp.matchId = some x ∧ x.Finishes resp
  | .roomRemoved m => l.rooms m ≠ none
  | .refused call status => l.Refuses call status
  | .got r => ∃ x, l.rooms r.matchId = some x ∧ x.Summary r
  | .listed rooms =>
    Listing RoomSummary.matchId
      (fun r => ∃ x, l.rooms r.matchId = some x ∧ x.startedAtUnix = 0 ∧ x.Summary r) rooms
  | .enqueued .. | .sentReliable .. | .sentDatagram .. => True

/-- The match service. -/
def matchService : Journal Ledger Event where
  start := .empty
  apply := Ledger.apply
  Admits := Ledger.Admits

/-! ## A room that is removed -/

/-- The room of an accepted token. -/
def acceptedRoom : Except String (String × String × String) → Option String
  | .ok (m, _, _) => some m
  | .error _ => none

/-- The room that the event is about; packets and what is queued for them are about none. -/
def Event.about : Event → Option String
  | .roomCreated resp _ => some resp.matchId
  | .ticketIssued req _ _ => some req.matchId
  | .ticketPresented _ _ result => acceptedRoom result
  | .registered m _ _ _ | .registerRefused m _ _ | .seatRemoved m _ | .paramUpdated m _ _ _ _ _
  | .paramRefused m _ _ _ _ _ | .roomStarted m _ _ _ | .roomRemoved m => some m
  | .finished resp => some resp.matchId
  | .refused call _ => some call.room
  | .got r => some r.matchId
  | .listed _ | .enqueued .. | .sentReliable .. | .sentDatagram .. => none

/-- The event is about the room, or lists it. -/
def Event.Concerns (m : String) (e : Event) : Prop :=
  e.about = some m ∨ ∃ rooms, e = .listed rooms ∧ ∃ r ∈ rooms, r.matchId = m

/-- The event refuses something because there is no such room. -/
inductive Event.NotFound (m : String) : Event → Prop
  | refused {call : Call} (hm : call.room = m) :
      NotFound m (.refused call ⟨.notFound, "match_not_found"⟩)
  | registerRefused {p : String} : NotFound m (.registerRefused m p "match_not_found")
  | paramRefused {p : String} {k : ParamKind} {d : ParamDirection} {now : Nat} :
      NotFound m (.paramRefused m p k d now "match_not_found")

/-- Every room has been created, and so has every room that a ticket is for. -/
structure Ledger.Opened (l : Ledger) : Prop where
  rooms : ∀ m, l.rooms m ≠ none → m ∈ l.opened
  tickets : ∀ token t, l.tickets token = some t → l.rooms t.matchId ≠ none

theorem inRoom_rooms {l : Ledger} {m m' : String} {f : Match → Match} :
    (l.inRoom m f).rooms m' = none ↔ l.rooms m' = none := by
  rw [Ledger.inRoom]
  dsimp only
  rw [Function.update_apply]
  split
  · next h => rw [h, Option.map_eq_none_iff]
  · rfl

/-- An event that only changes seats, or what has started and finished, or admissions. -/
theorem Ledger.Opened.of_rooms {l l' : Ledger} (h : l.Opened) (ho : l'.opened = l.opened)
    (hr : ∀ m, l'.rooms m = none ↔ l.rooms m = none)
    (ht : ∀ token t, l'.tickets token = some t → l.tickets token = some t) : l'.Opened := by
  refine ⟨?_, ?_⟩
  · intro m hm
    rw [ho]
    exact h.rooms m fun hn => hm ((hr m).mpr hn)
  · intro token t htoken hn
    exact h.tickets token t (ht token t htoken) ((hr _).mp hn)

theorem tickets_update_none {tickets : String → Option Ticket} {token token' : String} {t : Ticket}
    (h : Function.update tickets token none token' = some t) : tickets token' = some t := by
  rw [Function.update_apply] at h
  split at h
  · cases h
  · exact h

theorem opened_step {l : Ledger} {e : Event} (h : l.Opened) (ha : l.Admits e) :
    (l.apply e).Opened := by
  cases e with
  | roomCreated resp now =>
    have hnone : ∀ m, Function.update l.rooms resp.matchId (some .new) m = none →
        l.rooms m = none := by
      intro m hm
      rw [Function.update_apply] at hm
      split at hm
      · cases hm
      · exact hm
    refine ⟨?_, ?_⟩
    · intro m hm
      by_cases heq : m = resp.matchId
      · exact .inl heq
      · refine .inr (h.rooms m fun hn => hm ?_)
        show Function.update l.rooms _ _ _ = none
        rw [Function.update_of_ne heq, hn]
    · intro token t ht hn
      exact h.tickets token t ht (hnone _ hn)
  | ticketIssued req resp now =>
    obtain ⟨-, hm, -, x, hx, -⟩ := ha
    refine ⟨h.rooms, ?_⟩
    intro token t ht
    change Function.update l.tickets _ _ _ = _ at ht
    rw [Function.update_apply] at ht
    split at ht
    · cases ht
      show l.rooms resp.matchId ≠ none
      rw [hm, hx]
      exact Option.some_ne_none x
    · exact h.tickets token t ht
  | ticketPresented token now result =>
    cases result with
    | error e => exact h.of_rooms rfl (fun _ => Iff.rfl) fun _ _ => tickets_update_none
    | ok r => exact h.of_rooms rfl (fun _ => Iff.rfl) fun _ _ => tickets_update_none
  | registered m p addr tx => exact h.of_rooms rfl (fun _ => inRoom_rooms) fun _ _ => id
  | registerRefused m p reason => exact h.of_rooms rfl (fun _ => Iff.rfl) fun _ _ => id
  | seatRemoved m p => exact h.of_rooms rfl (fun _ => inRoom_rooms) fun _ _ => id
  | paramUpdated m p k d now mu => exact h.of_rooms rfl (fun _ => inRoom_rooms) fun _ _ => id
  | roomStarted m t just players =>
    cases just with
    | false => exact h
    | true => exact h.of_rooms rfl (fun _ => inRoom_rooms) fun _ _ => id
  | finished resp => exact h.of_rooms rfl (fun _ => inRoom_rooms) fun _ _ => id
  | roomRemoved m =>
    refine ⟨?_, ?_⟩
    · intro m' hm'
      refine h.rooms m' fun hn => hm' ?_
      show Function.update l.rooms _ _ _ = none
      rw [Function.update_apply]
      split
      · rfl
      · exact hn
    · intro token t ht
      obtain ⟨ht, hne⟩ := Option.filter_eq_some_iff.mp ht
      show Function.update l.rooms _ _ _ ≠ none
      rw [Function.update_of_ne (by simpa using hne)]
      exact h.tickets token t ht
  | _ => exact h

theorem opened_holds {tr : List Event} (h : matchService.Lawful tr) :
    (matchService.replay tr).Opened := by
  refine Journal.Lawful.induct ⟨?_, ?_⟩ (fun _ _ => opened_step) h
  · intro m hm
    exact absurd rfl hm
  · intro token t ht
    cases ht

/-- The room has been created, and is there no more, nor is a ticket for it. -/
structure Ledger.Gone (m : String) (l : Ledger) : Prop where
  opened : m ∈ l.opened
  room : l.rooms m = none
  tickets : ∀ token t, l.tickets token = some t → t.matchId ≠ m

theorem gone_step {m : String} {l : Ledger} {e : Event} (h : l.Gone m) (ha : l.Admits e) :
    (l.apply e).Gone m := by
  cases e with
  | roomCreated resp now =>
    have hne : m ≠ resp.matchId := by
      intro heq
      exact ha.1 (heq ▸ h.opened)
    refine ⟨.inr h.opened, ?_, h.tickets⟩
    show Function.update l.rooms _ _ _ = none
    rw [Function.update_of_ne hne]
    exact h.room
  | ticketIssued req resp now =>
    obtain ⟨-, hm, -, x, hx, -⟩ := ha
    refine ⟨h.opened, h.room, ?_⟩
    intro token t ht
    change Function.update l.tickets _ _ _ = _ at ht
    rw [Function.update_apply] at ht
    split at ht
    · cases ht
      intro heq
      rw [← hm, show resp.matchId = m from heq, h.room] at hx
      cases hx
    · exact h.tickets token t ht
  | ticketPresented token now result =>
    cases result with
    | error e => exact ⟨h.opened, h.room, fun _ t ht => h.tickets _ t (tickets_update_none ht)⟩
    | ok r => exact ⟨h.opened, h.room, fun _ t ht => h.tickets _ t (tickets_update_none ht)⟩
  | registered m' p addr tx => exact ⟨h.opened, inRoom_rooms.mpr h.room, h.tickets⟩
  | registerRefused m' p reason => exact ⟨h.opened, h.room, h.tickets⟩
  | seatRemoved m' p => exact ⟨h.opened, inRoom_rooms.mpr h.room, h.tickets⟩
  | paramUpdated m' p k d now mu => exact ⟨h.opened, inRoom_rooms.mpr h.room, h.tickets⟩
  | roomStarted m' t just players =>
    cases just with
    | false => exact h
    | true => exact ⟨h.opened, inRoom_rooms.mpr h.room, h.tickets⟩
  | finished resp => exact ⟨h.opened, inRoom_rooms.mpr h.room, h.tickets⟩
  | roomRemoved m' =>
    refine ⟨h.opened, ?_, ?_⟩
    · show Function.update l.rooms _ _ _ = none
      rw [Function.update_apply]
      split
      · rfl
      · exact h.room
    · intro token t ht
      exact h.tickets token t (Option.filter_eq_some_iff.mp ht).1
  | _ => exact h

/-- An answer about a room that is gone refuses, because there is no such room. -/
theorem gone_refused {m : String} {l : Ledger} {e : Event} (h : l.Gone m) (ha : l.Admits e)
    (hm : e.Concerns m) : e.NotFound m := by
  have hgone : ∀ {m' x}, m' = m → l.rooms m' = some x → e.NotFound m := by
    intro m' x heq hx
    rw [heq, h.room] at hx
    cases hx
  rcases hm with habout | ⟨rooms, rfl, r, hr, hroom⟩
  · cases e with
    | roomCreated resp now => exact absurd (Option.some.inj habout ▸ h.opened) ha.1
    | ticketIssued req resp now =>
      obtain ⟨-, -, -, x, hx, -⟩ := ha
      exact hgone (Option.some.inj habout) hx
    | ticketPresented token now result =>
      change result = l.answer token now at ha
      cases result with
      | error e => cases habout
      | ok r =>
        obtain ⟨m', p, name⟩ := r
        cases habout
        unfold Ledger.answer at ha
        cases ht : l.tickets token with
        | none =>
          rw [ht] at ha
          cases ha
        | some t =>
          rw [ht] at ha
          dsimp only at ha
          split at ha
          · cases ha
          · cases ha
            exact absurd rfl (h.tickets token t ht)
    | registered m' p addr tx =>
      obtain ⟨x, name, hx, -⟩ := ha
      exact hgone (Option.some.inj habout) hx
    | registerRefused m' p reason =>
      cases habout
      cases ha.2 with
      | noMatch _ => exact .registerRefused
      | full hx _ => exact hgone rfl hx
    | seatRemoved m' p | roomRemoved m' =>
      cases habout
      exact absurd h.room ha
    | paramUpdated m' p k d now mu =>
      obtain ⟨x, seat, hx, -⟩ := ha
      exact hgone (Option.some.inj habout) hx
    | paramRefused m' p k d now reason =>
      cases habout
      cases ha with
      | noMatch _ => exact .paramRefused
      | notSeated hx _ | change hx _ _ => exact hgone rfl hx
    | roomStarted m' t just players | finished resp | got r =>
      obtain ⟨x, hx, -⟩ := ha
      exact hgone (Option.some.inj habout) hx
    | refused call status =>
      have heq : call.room = m := Option.some.inj habout
      cases ha with
      | noMatch _ => exact .refused heq
      | full hx _ | notStarted hx _ | notSeated hx _ _ => exact hgone heq hx
    | _ => cases habout
  · obtain ⟨x, hx, -⟩ := ((show Listing _ _ rooms from ha).mem r).mp hr
    exact hgone hroom hx

/-- What comes after the removal of a room and is about it refuses. -/
theorem removal_final {pre post : List Event} {m : String}
    (h : matchService.Lawful (pre ++ .roomRemoved m :: post)) :
    (∀ e ∈ post, e.Concerns m → e.NotFound m) ∧
      (matchService.replay (pre ++ .roomRemoved m :: post)).Gone m := by
  obtain ⟨hpre, hremoved, hpost⟩ := Journal.lawful_append.mp h
  have hopened := opened_holds hpre
  have hgone : (matchService.apply (matchService.replay pre) (.roomRemoved m)).Gone m := by
    refine ⟨hopened.rooms m hremoved, Function.update_self _ _ _, ?_⟩
    intro token t ht
    simpa using (Option.filter_eq_some_iff.mp ht).2
  refine ⟨hpost.after (fun _ _ => gone_step) (fun _ _ => gone_refused) hgone, ?_⟩
  rw [Journal.replay_append]
  exact hpost.keeps (fun _ _ => gone_step) hgone

end Kotatsu
