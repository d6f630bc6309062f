import Kotatsu.Registry
import Kotatsu.Join

/-
  Seats and sessions

  A seat and a session name each other only in a state where no join is under
  way; in between, a seat may be covered by a task that is about to insert its
  session or to remove the seat (`Cover`).
    1. `no_ghost_seats`: every seat has its session, if no insertion replaces the
       session of a player that is still seated;
    2. `no_dangling_sessions`: every session has its seat, if no room is removed
       while a session refers to it, and then a client without a seat can join.
  Neither guard is checked by the code: `ghost_seat` and `dangling_session` are
  runs that break one step's guard and the conclusion.
-/

namespace Kotatsu

/-! ## Every seat has its session -/

/-- What a seat of `p` in `m`, at this address and channel, relies on: its session,
the task about to insert it, or the task about to remove the seat. -/
inductive Cover (s : Sys) (m p : String) (a : SocketAddr) (tx : ChanId) : Prop
  | session (h : s.clients.get a = some
      { matchId := m, playerId := p, addr := a, tx := tx, rx := tx })
  | inserting {tid : Nat} {params : PlayerParams}
      (h : s.joins.get tid = some (.insert a m p params tx))
  | removing {tid : Nat} {c : ClientSession} (h : s.joins.get tid = some (.remove c))
      (hm : c.matchId = m) (hp : c.playerId = p)

def Covered (s : Sys) : Prop :=
  ∀ m p a tx, s.core.link m p = some (some (.udp a), tx) → Cover s m p a tx

/-- The step inserts a session over that of a player who is still seated. -/
def replacesSeated (s : Sys) : Action → Bool
  | .join tid _ =>
    match s.joins.get tid with
    | some (.insert addr _ _ _ _) =>
      match s.clients.get addr with
      | some session => (s.core.link session.matchId session.playerId).isSome
      | none => false
    | _ => false
  | _ => false

/-- A seat may rely on this task. -/
def JoinTask.covers : JoinTask → Bool
  | .insert .. => true
  | .remove _ => true
  | _ => false

theorem Cover.of_tasks {s s' : Sys} {m p : String} {a : SocketAddr} {tx : ChanId}
    (h : Cover s m p a tx) (hc : s'.clients = s.clients)
    (hk : ∀ tid t, s.joins.get tid = some t → t.covers = true → s'.joins.get tid = some t) :
    Cover s' m p a tx := by
  cases h with
  | session h => exact .session (hc ▸ h)
  | inserting h => exact .inserting (hk _ _ h rfl)
  | removing h hm hp => exact .removing (hk _ _ h rfl) hm hp

/-- The end of the task that removes the seat of another player. -/
theorem Cover.of_removed {s s' : Sys} {m p : String} {a : SocketAddr} {tx : ChanId} {tid : Nat}
    {c : ClientSession} (h : Cover s m p a tx) (ht : s.joins.get tid = some (.remove c))
    (hc : s'.clients = s.clients) (hj : s'.joins = s.joins.remove tid)
    (hne : ¬ (c.matchId = m ∧ c.playerId = p)) : Cover s' m p a tx := by
  cases h with
  | session h => exact .session (hc ▸ h)
  | @inserting tid' params h =>
    have htid : tid' ≠ tid := HashMap.ne_of_get ht h nofun
    exact .inserting (hj ▸ (HashMap.get_remove_ne _ htid).trans h)
  | @removing tid' c' h hm hp =>
    have htid : tid' ≠ tid := by
      refine HashMap.ne_of_get ht h ?_
      intro heq
      cases heq
      exact hne ⟨hm, hp⟩
    exact .removing (hj ▸ (HashMap.get_remove_ne _ htid).trans h) hm hp

theorem ne_of_covers {t t₀ : JoinTask} (h : t.covers = true) (h₀ : t₀.covers = false) : t ≠ t₀ := by
  intro heq
  subst heq
  rw [h₀] at h
  cases h

/-- A task that covers nothing may go on or end. -/
theorem covers_insert {joins : HashMap Nat JoinTask} {tid : Nat} {t₀ : JoinTask}
    (h₀ : joins.get tid = some t₀) (hn : t₀.covers = false) (t₁ : JoinTask) :
    ∀ tid' t, joins.get tid' = some t → t.covers = true →
      (joins.insert tid t₁).get tid' = some t := by
  intro tid' t ht hcov
  have hne : tid' ≠ tid := HashMap.ne_of_get h₀ ht (ne_of_covers hcov hn)
  rw [HashMap.get_insert_ne _ _ hne, ht]

theorem covers_remove {joins : HashMap Nat JoinTask} {tid : Nat} {t₀ : JoinTask}
    (h₀ : joins.get tid = some t₀) (hn : t₀.covers = false) :
    ∀ tid' t, joins.get tid' = some t → t.covers = true → (joins.remove tid).get tid' = some t := by
  intro tid' t ht hcov
  have hne : tid' ≠ tid := HashMap.ne_of_get h₀ ht (ne_of_covers hcov hn)
  rw [HashMap.get_remove_ne _ hne, ht]

theorem covered_join {s s' : Sys} {tid : Nat} {ch : Choice} {evs : List Event}
    (hg : replacesSeated s (.join tid ch) = false) (hi : Covered s) (h : JoinStep s tid s' evs) :
    Covered s' := by
  intro m p a tx hl
  cases h with
  | alreadyJoined ht _ | okSent ht | rollbackNone ht _ | errorSent ht _ =>
    exact (hi m p a tx hl).of_tasks rfl (covers_remove ht rfl)
  | checked ht _ | unknownToken ht _ | expired ht _ _ | consumed ht _ _ _ | joinRefused ht _
  | okFailed ht => exact (hi m p a tx hl).of_tasks rfl (covers_insert ht rfl _)
  | registered ht hr _ =>
    rw [link_register hr] at hl
    split at hl
    · -- the task that has just registered it covers the seat
      next hmp =>
      obtain ⟨rfl, rfl⟩ := hmp
      cases hl
      exact .inserting (HashMap.get_insert_self _ _ _)
    · exact (hi m p a tx hl).of_tasks rfl (covers_insert ht rfl _)
  | @inserted addr m₀ p₀ params tx₀ ht =>
    cases hi m p a tx hl with
    | session h =>
      -- were it replaced, the guard would not hold
      have hne : a ≠ addr := by
        intro heq
        subst heq
        have hl : s.core.link m p = some (some (.udp a), tx) := hl
        simp [replacesSeated, ht, h, hl] at hg
      exact .session ((HashMap.get_insert_ne _ _ hne).trans h)
    | @inserting tid' params' h =>
      by_cases htid : tid' = tid
      · subst htid
        rw [ht] at h
        cases h
        exact .session (HashMap.get_insert_self _ _ _)
      · exact .inserting ((HashMap.get_insert_ne _ _ htid).trans h)
    | @removing tid' c h hm hp =>
      have htid : tid' ≠ tid := HashMap.ne_of_get ht h (by simp)
      exact .removing ((HashMap.get_insert_ne _ _ htid).trans h) hm hp
  | @rollbackTake addr c ht hc =>
    cases hi m p a tx hl with
    | session h =>
      by_cases ha : a = addr
      · -- the task now carries the session
        subst ha
        rw [hc] at h
        cases h
        exact .removing (HashMap.get_insert_self _ _ _) rfl rfl
      · exact .session ((HashMap.get_remove_ne _ ha).trans h)
    | inserting h => exact .inserting (covers_insert ht rfl _ _ _ h rfl)
    | removing h hm hp => exact .removing (covers_insert ht rfl _ _ _ h rfl) hm hp
  | removed ht hr =>
    rw [link_removePlayer hr] at hl
    split at hl
    · cases hl
    · next hmp => exact (hi m p a tx hl).of_removed ht rfl rfl fun h => hmp ⟨h.1.symm, h.2.symm⟩
  | @removedNoRoom c ht hr =>
    refine (hi m p a tx hl).of_removed ht rfl rfl ?_
    -- the room of the session it carries is gone, and with it the seat
    intro hsame
    obtain ⟨seat, hs, -⟩ := link_eq_some.mp hl
    obtain ⟨room, hroom, -⟩ := seat_eq_some.mp hs
    have hroom : s.core.rooms.get m = some room := hroom
    rw [← hsame.1, hr] at hroom
    cases hroom

theorem covered_step {s s' : Sys} {a : Action} {evs : List Event} (hseen : RoomsSeen s)
    (hg : replacesSeated s a = false) (hi : Covered s) (h : Step s a s' evs) : Covered s' := by
  rcases step_frame h with ⟨tid, ch, rfl, hj⟩ | hf
  · exact covered_join hg hi hj
  · intro m p addr tx hl
    rcases link_from (link_step hseen (step_core h)) hl with hl | ⟨_, _, -, he⟩
    · exact (hi m p addr tx hl).of_tasks hf.clients fun tid t ht _ => hf.keeps tid t ht
    · exact absurd he ((hf.seats m p).1 _ _)

theorem covered {s : Sys} {tr : List Event}
    (h : server.Reach (fun s a => replacesSeated s a = false) s tr) : Covered s := by
  refine Machine.Reach.induct (P := fun s _ => Covered s) ?_ ?_ h
  · intro s hinit m p a tx hl
    obtain ⟨url, rfl⟩ := hinit
    cases hl
  · intro s tr a s' evs hreach ih hg hs
    exact covered_step (rooms_seen hreach) hg ih (step_spec hs)

/-- No `handle_join` task is in flight. -/
def Settled (s : Sys) : Prop := ∀ tid, s.joins.get tid = none

/-- Every seat has its session. -/
def SeatsHaveSessions (s : Sys) : Prop :=
  ∀ m p h a, s.core.seat m p = some h → h.connection = some (.udp a) →
    ∃ c, s.clients.get a = some c ∧ c.matchId = m ∧ c.playerId = p ∧ c.tx = h.reliableTx

/-- No address has two seats. -/
def OneSeatEach (s : Sys) : Prop :=
  ∀ m p h m' p' h' a, s.core.seat m p = some h → s.core.seat m' p' = some h' →
    h.connection = some (.udp a) → h'.connection = some (.udp a) → m = m' ∧ p = p'

theorem covered_session {s : Sys} (hc : Covered s) (hq : Settled s) : SeatsHaveSessions s := by
  intro m p h a hs hconn
  have hl : s.core.link m p = some (some (.udp a), h.reliableTx) :=
    link_eq_some.mpr ⟨h, hs, by rw [PlayerHandle.link, hconn]⟩
  cases hc m p a h.reliableTx hl with
  | session hc => exact ⟨_, hc, rfl, rfl, rfl⟩
  | inserting ht => rw [hq] at ht; cases ht
  | removing ht _ _ => rw [hq] at ht; cases ht

theorem one_seat_each {s : Sys} (h : SeatsHaveSessions s) : OneSeatEach s := by
  intro m p g m' p' g' a hs hs' hconn hconn'
  obtain ⟨c, hc, rfl, rfl, -⟩ := h m p g a hs hconn
  obtain ⟨c', hc', rfl, rfl, -⟩ := h m' p' g' a hs' hconn'
  rw [hc] at hc'
  cases hc'
  exact ⟨rfl, rfl⟩

/-- While no insertion replaces the session of a seated player, every seat has its
session whenever no join is in flight. -/
theorem no_ghost_seats {s : Sys} {tr : List Event}
    (h : server.Reach (fun s a => replacesSeated s a = false) s tr) (hq : Settled s) :
    SeatsHaveSessions s ∧ OneSeatEach s := by
  have hs : SeatsHaveSessions s := covered_session (covered h) hq
  exact ⟨hs, one_seat_each hs⟩

/-- Two players of one room, from two addresses. -/
def twoPlayers : List Action :=
  [.createRoom "r" 1, .issueJoinTicket ⟨"m_r", "x"⟩ "1" "t1" 1,
    .issueJoinTicket ⟨"m_r", "y"⟩ "2" "t2" 1] ++
  soloJoin 1 ⟨1, 1⟩ "t1" [{}, { fresh := 1 }, {}, {}, {}] ++
  soloJoin 2 ⟨1, 2⟩ "t2" [{}, { fresh := 2 }, {}, {}, {}]

theorem settled_of_empty {s : Sys} (h : s.joins.len = 0) : Settled s :=
  HashMap.get_eq_none_of_len h

theorem no_ghost_seats_two : ∃ s tr, server.Reach (fun s a => replacesSeated s a = false) s tr ∧
    (s.core.seat "m_r" "p_1").isSome = true ∧ SeatsHaveSessions s ∧ OneSeatEach s := by
  obtain ⟨s, tr, h, hp⟩ := reach_of_actions (fun s a => replacesSeated s a = false) twoPlayers
    (fun s _ => (s.core.seat "m_r" "p_1").isSome && s.joins.len == 0) (by decide)
  obtain ⟨hseat, hlen⟩ := (Bool.and_eq_true _ _).mp hp
  exact ⟨s, tr, h, hseat, no_ghost_seats h (settled_of_empty (by simpa using hlen))⟩

/-- Two joins from one address that both pass the check before either inserts. -/
def twoJoins : List Action :=
  [.createRoom "r" 1, .issueJoinTicket ⟨"m_r", "x"⟩ "1" "t1" 1,
    .issueJoinTicket ⟨"m_r", "y"⟩ "2" "t2" 1,
    .recv 1 ⟨1, 1⟩ (.reliable (.join "t1")), .recv 2 ⟨1, 1⟩ (.reliable (.join "t2")),
    .join 1 {}, .join 2 {}] ++
  [.join 1 { fresh := 1 }, .join 1 {}, .join 1 {}, .join 1 {}] ++
  [.join 2 { fresh := 2 }, .join 2 {}, .join 2 {}, .join 2 {}]

/-- The second insertion leaves the first player seated, without a session. -/
theorem ghost_seat : ¬ ∀ s tr, server.Reach Machine.anyStep s tr → Settled s →
    SeatsHaveSessions s ∧ OneSeatEach s := by
  intro hall
  obtain ⟨s, tr, h, hp⟩ := reach_of_actions Machine.anyStep twoJoins
    (fun s _ => ((s.core.seat "m_r" "p_1").any fun h => h.connection == some (.udp ⟨1, 1⟩)) &&
      ((s.clients.get ⟨1, 1⟩).any fun c => c.playerId == "p_2") && s.joins.len == 0) (by decide)
  simp only [Bool.and_eq_true, Option.any_eq_true, beq_iff_eq] at hp
  obtain ⟨⟨⟨seat, hseat, hconn⟩, ⟨c, hc, hcp⟩⟩, hlen⟩ := hp
  obtain ⟨c', hc', -, hcp', -⟩ :=
    (hall s tr h (settled_of_empty hlen)).1 "m_r" "p_1" seat _ hseat hconn
  rw [hc] at hc'
  cases hc'
  rw [hcp] at hcp'
  simp at hcp'

/-! ## Every session has its seat -/

/-- The room `m` has a session, or a task that is about to insert one. -/
def hasSession (s : Sys) (m : String) : Bool :=
  (s.clients.values.any fun c => c.matchId == m) ||
  s.joins.values.any fun
    | .insert _ m' _ _ _ => m' == m
    | _ => false

/-- The step removes a room that has a session. -/
def strandsSession (s : Sys) : Action → Bool
  | .deleteRoom m => hasSession s m
  | .cleanupRun tid =>
    match s.cleanups.get tid with
    | some (timeout, now) => (deleteStaleLobbyRooms s.core timeout now).2.any (hasSession s)
    | none => false
  | _ => false

/-- The seats behind the sessions, and behind the tasks about to insert one. -/
structure Anchored (s : Sys) : Prop where
  session : ∀ {a c}, s.clients.get a = some c →
    s.core.link c.matchId c.playerId = some (some (.udp a), c.tx)
  inserting : ∀ {tid a m p params tx}, s.joins.get tid = some (.insert a m p params tx) →
    s.core.link m p = some (some (.udp a), tx)

theorem hasSession_session {s : Sys} {a : SocketAddr} {c : ClientSession}
    (hc : s.clients.get a = some c) : hasSession s c.matchId = true := by
  have hm : c ∈ s.clients.values := HashMap.mem_values.mpr ⟨a, hc⟩
  rw [hasSession, Bool.or_eq_true]
  exact .inl (List.any_eq_true.mpr ⟨c, hm, by simp⟩)

theorem hasSession_inserting {s : Sys} {tid : Nat} {a : SocketAddr} {m p : String}
    {params : PlayerParams} {tx : ChanId}
    (ht : s.joins.get tid = some (.insert a m p params tx)) : hasSession s m = true := by
  have hm : JoinTask.insert a m p params tx ∈ s.joins.values := HashMap.mem_values.mpr ⟨tid, ht⟩
  rw [hasSession, Bool.or_eq_true]
  exact .inr (List.any_eq_true.mpr ⟨_, hm, by simp⟩)

theorem strands_of_removed {s s' : Sys} {a : Action} {evs : List Event}
    (h : CoreStep s a s'.core evs) {m : String} (he : Event.roomRemoved m ∈ evs)
    (hm : hasSession s m = true) : strandsSession s a = true := by
  rcases removed_by h he with rfl | ⟨tid, timeout, now, rfl, ht, hd⟩
  · exact hm
  · simp only [strandsSession, ht]
    exact List.any_eq_true.mpr ⟨m, hd, hm⟩

/-- The link of a player whose id is past its registration, in a room that the step does
not remove, survives the step. -/
theorem link_stays {s s' : Sys} {a : Action} {evs : List Event} (hcust : Custody s)
    (hseen : RoomsSeen s) (h : Step s a s' evs) {m p : String}
    {l : Option PlayerConnection × ChanId} {x : Place} (hl : s.core.link m p = some l)
    (hno : Event.roomRemoved m ∉ evs) (hx : Holds s p x) (hearly : x.early = false)
    (hremove : ∀ tid c, x = .join tid false → s.joins.get tid ≠ some (.remove c)) :
    s'.core.link m p = some l := by
  refine link_kept (link_step hseen (step_core h)) hl ?_ ?_ hno
  · intro addr tx he
    obtain ⟨-, tid, -, -, hy, -⟩ := registered_step h he
    have hxy : x = .join tid true := hcust.unique hx hy
    subst hxy
    cases hearly
  · intro he
    obtain ⟨tid, c, ht, -, rfl, -⟩ := unseated_by h he
    have hxy : x = .join tid false := hcust.unique hx (.join ht rfl)
    exact hremove tid c hxy ht

/-- A step under the guard removes no room that has a session. -/
theorem room_spared {s s' : Sys} {a : Action} {evs : List Event} (hg : strandsSession s a = false)
    (h : Step s a s' evs) {m : String} (hm : hasSession s m = true) :
    Event.roomRemoved m ∉ evs := by
  intro he
  have := strands_of_removed (step_core h) he hm
  rw [hg] at this
  cases this

/-- So does the link behind a session, or behind a task about to insert one. -/
theorem session_stays {s s' : Sys} {a : Action} {evs : List Event} (hcust : Custody s)
    (hseen : RoomsSeen s) (h : Step s a s' evs) {addr : SocketAddr} {c : ClientSession}
    {l : Option PlayerConnection × ChanId} (hc : s.clients.get addr = some c)
    (hl : s.core.link c.matchId c.playerId = some l) (hno : Event.roomRemoved c.matchId ∉ evs) :
    s'.core.link c.matchId c.playerId = some l :=
  link_stays hcust hseen h hl hno (.session hc rfl) rfl (by simp)

theorem inserting_stays {s s' : Sys} {a : Action} {evs : List Event} (hcust : Custody s)
    (hseen : RoomsSeen s) (h : Step s a s' evs) {tid : Nat} {addr : SocketAddr} {m p : String}
    {params : PlayerParams} {tx : ChanId} {l : Option PlayerConnection × ChanId}
    (ht : s.joins.get tid = some (.insert addr m p params tx)) (hl : s.core.link m p = some l)
    (hno : Event.roomRemoved m ∉ evs) : s'.core.link m p = some l := by
  refine link_stays hcust hseen h hl hno (.join ht rfl) rfl ?_
  intro tid' c heq hc
  cases heq
  rw [ht] at hc
  cases hc

theorem anchored_step {s s' : Sys} {a : Action} {evs : List Event} (hcust : Custody s)
    (hseen : RoomsSeen s) (hg : strandsSession s a = false) (hi : Anchored s)
    (h : Step s a s' evs) : Anchored s' := by
  have hins : ∀ {tid a m p params tx}, s.joins.get tid = some (.insert a m p params tx) →
      s'.core.link m p = some (some (.udp a), tx) := by
    intro tid a m p params tx ht
    exact inserting_stays hcust hseen h ht (hi.inserting ht)
      (room_spared hg h (hasSession_inserting ht))
  refine ⟨?_, ?_⟩
  · intro addr c hc
    rcases session_from h hc with hc | ⟨tid, params, ht, -, -⟩
    · have hno := room_spared hg h (hasSession_session hc)
      exact session_stays hcust hseen h hc (hi.session hc) hno
    · exact hins ht
  · intro tid addr m p params tx ht
    cases task_from h ht with
    | kept ht => exact hins ht
    | registered he => exact link_registered (link_step hseen (step_core h)) he

theorem anchored {s : Sys} {tr : List Event}
    (h : server.Reach (fun s a => strandsSession s a = false) s tr) : Anchored s := by
  refine Machine.Reach.induct (P := fun s _ => Anchored s) ?_ ?_ h
  · intro s hinit
    obtain ⟨url, rfl⟩ := hinit
    refine ⟨?_, ?_⟩ <;> intros <;> next h => cases h
  · intro s tr a s' evs hreach ih hg hs
    exact anchored_step (custody hreach) (rooms_seen hreach) hg ih (step_spec hs)

/-- Every session refers to an existing room in which its player is seated at its
address. -/
def SessionsHaveSeats (s : Sys) : Prop :=
  ∀ a c, s.clients.get a = some c → ∃ room h, s.core.rooms.get c.matchId = some room ∧
    room.players.get c.playerId = some h ∧ h.connection = some (.udp a)

theorem anchored_seats {s : Sys} (h : Anchored s) : SessionsHaveSeats s := by
  intro a c hc
  obtain ⟨seat, hs, hl⟩ := link_eq_some.mp (h.session hc)
  obtain ⟨room, hr, hp⟩ := seat_eq_some.mp hs
  exact ⟨room, seat, hr, hp, congrArg Prod.fst hl⟩

/-- A client at this address can join with any unexpired ticket for a room that has
a free seat: once the outgoing task has let go of the registry, its handler runs to
`JoinOk`. -/
def CanJoin (s : Sys) (addr : SocketAddr) : Prop :=
  ∀ tid token t room now, s.joins.get tid = none → s.core.tickets.get token = some t →
    now ≤ t.expiresAtUnix → s.core.rooms.get t.matchId = some room →
    room.players.len < roomMaxPlayers →
    ∃ s₁ chs tr s', DrainsTo s s₁ ∧
      server.Run Machine.anyStep s₁ (soloJoin tid addr token chs) tr s' ∧
      (∃ c, s'.clients.get addr = some c ∧ c.matchId = t.matchId ∧ c.playerId = t.playerId) ∧
      ∃ params nowMs, Event.sentReliable addr (.joinOk t.matchId t.playerId params nowMs) ∈ tr

theorem can_join {s : Sys} {addr : SocketAddr} (hc : s.clients.get addr = none) :
    CanJoin s addr := by
  intro tid token t room now hfree hk hx hr hl
  obtain ⟨s₁, hto, hd⟩ := drain_free s
  have hcore : s₁.core = s.core := hto.2.1
  have hclients : s₁.clients = s.clients := hto.2.2.1
  have hjoins : s₁.joins = s.joins := hto.2.2.2
  obtain ⟨tx, hf⟩ := HashMap.exists_fresh s₁.chans
  obtain ⟨tr, s', hrun, hsession, hok⟩ := join_succeeds tid tx
    (hjoins ▸ hfree) hd (hclients ▸ hc) (hcore ▸ hk) hx (hcore ▸ hr) hl hf
  exact ⟨s₁, _, tr, s', hto, hrun, ⟨_, hsession, rfl, rfl⟩, hok⟩

/-- No seat of any room has this address. -/
def Unseated (s : Sys) (addr : SocketAddr) : Prop :=
  ∀ m p h, s.core.seat m p = some h → h.connection ≠ some (.udp addr)

theorem unseated_no_session {s : Sys} {addr : SocketAddr} (hs : SessionsHaveSeats s)
    (hu : Unseated s addr) : s.clients.get addr = none := by
  refine Option.eq_none_iff_forall_ne_some.mpr fun c hc => ?_
  obtain ⟨room, h, hr, hp, hconn⟩ := hs addr c hc
  exact hu c.matchId c.playerId h (seat_eq_some.mpr ⟨room, hr, hp⟩) hconn

/-- While no room with a session is removed, every session has its seat, whether or
not a join is in flight, and a client without a seat, such as one whose room has
been removed, can join again. -/
theorem no_dangling_sessions {s : Sys} {tr : List Event}
    (h : server.Reach (fun s a => strandsSession s a = false) s tr) :
    SessionsHaveSeats s ∧ ∀ addr, Unseated s addr → CanJoin s addr := by
  have hs : SessionsHaveSeats s := anchored_seats (anchored h)
  exact ⟨hs, fun addr hu => can_join (unseated_no_session hs hu)⟩

/-- No seat has this address, read off the maps. -/
def unseatedB (s : Sys) (addr : SocketAddr) : Bool :=
  s.core.rooms.values.all fun room =>
    room.players.values.all fun h => h.connection != some (.udp addr)

theorem unseated_of_eq_true {s : Sys} {addr : SocketAddr} (h : unseatedB s addr = true) :
    Unseated s addr := by
  intro m p seat hs
  obtain ⟨room, hr, hp⟩ := seat_eq_some.mp hs
  have hroom := List.all_eq_true.mp h room (HashMap.mem_values.mpr ⟨m, hr⟩)
  have hseat := List.all_eq_true.mp hroom seat (HashMap.mem_values.mpr ⟨p, hp⟩)
  simpa using hseat

set_option maxRecDepth 2000 in
/-- A third client whose join is rolled back, and whose room is then deleted. -/
theorem no_dangling_sessions_rejoin : ∃ s tr,
    server.Reach (fun s a => strandsSession s a = false) s tr ∧
    s.clients.contains ⟨1, 1⟩ = true ∧ SessionsHaveSeats s ∧ CanJoin s ⟨1, 3⟩ := by
  obtain ⟨s, tr, h, hp⟩ := reach_of_actions (fun s a => strandsSession s a = false)
    (twoPlayers ++ [.createRoom "q" 2, .issueJoinTicket ⟨"m_q", "z"⟩ "3" "t3" 2] ++
      soloJoin 3 ⟨1, 3⟩ "t3" [{}, { fresh := 3 }, {}, {}, { sendOk := false }, {}, {}] ++
      [.deleteRoom "m_q"])
    (fun s _ => s.clients.contains ⟨1, 1⟩ && unseatedB s ⟨1, 3⟩) (by decide)
  obtain ⟨hc, hu⟩ := (Bool.and_eq_true _ _).mp hp
  obtain ⟨hs, hjoin⟩ := no_dangling_sessions h
  exact ⟨s, tr, h, hc, hs, hjoin _ (unseated_of_eq_true hu)⟩

/-- Deleting a room leaves the sessions of its players behind. -/
theorem dangling_session : ¬ ∀ s tr, server.Reach Machine.anyStep s tr → Settled s →
    SessionsHaveSeats s ∧ ∀ addr, Unseated s addr → CanJoin s addr := by
  intro hall
  obtain ⟨s, tr, h, hp⟩ := reach_of_actions Machine.anyStep (twoPlayers ++ [.deleteRoom "m_r"])
    (fun s _ => s.clients.contains ⟨1, 1⟩ && s.core.rooms.len == 0 && s.joins.len == 0) (by decide)
  simp only [Bool.and_eq_true, beq_iff_eq] at hp
  obtain ⟨⟨hc, hrooms⟩, hlen⟩ := hp
  obtain ⟨c, hc⟩ := HashMap.contains_iff.mp hc
  obtain ⟨room, -, hr, -⟩ := (hall s tr h (settled_of_empty hlen)).1 _ c hc
  rw [HashMap.get_eq_none_of_len hrooms] at hr
  cases hr

end Kotatsu
