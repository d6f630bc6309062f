import Kotatsu.Registry
import Kotatsu.Lib.History
import Mathlib.Data.Set.Finite.Basic

/-
  Placement

  The finished list of a room is the order of first finishes in the history
  (`finishes`), so ranks are positions in that order: `placement` says what
  follows for the ranks handed out, which are counted in 32 bits, and
  `rank_wraps` why the bound on the number of finishers is needed.

  A removed player stays in the finished list, so the counts of a response agree
  with the seats only while no finished player is removed (`finish_counts`).
-/

namespace Kotatsu

/-! ## The finished list is the order of first finishes -/

/-- The player of a successful finish in `m`. -/
def Event.finisher (m : String) : Event → Option String
  | .finished resp => if resp.matchId = m then some resp.playerId else none
  | _ => none

/-- The players who finished in `m`, in the order of their first success. -/
def finishers (tr : List Event) (m : String) : List String :=
  History.firsts (Event.finisher m) tr

theorem mem_finishers {tr : List Event} {m p : String} :
    p ∈ finishers tr m ↔ ∃ resp, Event.finished resp ∈ tr ∧ resp.matchId = m ∧
      resp.playerId = p := by
  rw [finishers, History.mem_firsts]
  constructor
  · intro h
    obtain ⟨e, he, hp⟩ := h
    cases e with
    | finished resp =>
      simp only [Event.finisher] at hp
      split at hp
      · next hm => exact ⟨resp, he, hm, Option.some.inj hp⟩
      · cases hp
    | _ => cases hp
  · intro h
    obtain ⟨resp, he, rfl, rfl⟩ := h
    exact ⟨_, he, if_pos rfl⟩

/-- A longer history adds players at the end. -/
theorem prefix_finishers (tr evs : List Event) (m : String) :
    finishers tr m <+: finishers (tr ++ evs) m := History.prefix_firsts tr evs

/-- A successful finish, by the room before it and after it. -/
theorem finished_by {s : Sys} {a : Action} {core : CoreState} {evs : List Event}
    (h : CoreStep s a core evs) {resp : FinishRoomResponse} (he : Event.finished resp ∈ evs) :
    evs = [.finished resp] ∧ ∃ room room', s.core.rooms.get resp.matchId = some room ∧
      core.rooms.get resp.matchId = some room' ∧ room.startedAtUnix ≠ 0 ∧
      room.players.contains resp.playerId = true ∧ room'.players = room.players ∧
      room'.finishedPlayerIds = (if resp.playerId ∈ room.finishedPlayerIds
        then room.finishedPlayerIds else room.finishedPlayerIds ++ [resp.playerId]) ∧
      resp.rank = asU32 (room'.finishedPlayerIds.idxOf resp.playerId + 1) ∧
      resp.finishedPlayerCount = asU32 room'.finishedPlayerIds.length ∧
      resp.totalPlayers = asU32 room.players.len := by
  cases h with
  | quiet hq => exact absurd (hq _ he) (by simp [Event.onCore])
  | @finishedFirst m p now room hr h0 hp hn =>
    obtain rfl : resp = _ := by simpa using he
    refine ⟨rfl, room, room.finish p now, hr, HashMap.get_insert_self _ _ _, h0, hp, rfl, ?_⟩
    rw [if_neg hn]
    refine ⟨rfl, ?_, ?_, rfl⟩
    · show _ = asU32 ((room.finishedPlayerIds ++ [p]).idxOf p + 1)
      rw [List.idxOf_append_of_notMem hn, List.idxOf_cons_self, Nat.add_zero]
    · show _ = asU32 (room.finishedPlayerIds ++ [p]).length
      rw [List.length_append, List.length_singleton]
  | @finishedAgain m p now room hr h0 hp hn =>
    obtain rfl : resp = _ := by simpa using he
    refine ⟨rfl, room, room, hr, hr, h0, hp, rfl, ?_⟩
    rw [if_pos hn]
    exact ⟨rfl, rfl, rfl, rfl⟩
  | _ => simp at he

/-- The finished list of a room that stays changes only by a finish in it. -/
theorem finished_kept {s : Sys} {a : Action} {core : CoreState} {evs : List Event}
    (h : CoreStep s a core evs) {m : String} {room' : MatchRoom}
    (hr' : core.rooms.get m = some room')
    (hno : ∀ resp, Event.finished resp ∈ evs → resp.matchId ≠ m) :
    (∃ room, s.core.rooms.get m = some room ∧
      room'.finishedPlayerIds = room.finishedPlayerIds) ∨
    (m ∉ s.seen ∧ room'.finishedPlayerIds = []) := by
  rcases step_room h hr' with ⟨hf, now, rfl, -⟩ | ⟨room, hr, hs⟩
  · exact .inr ⟨hf, rfl⟩
  · refine .inl ⟨room, hr, ?_⟩
    cases hs with
    | finished _ _ _ => exact absurd rfl (hno _ (List.mem_singleton_self _))
    | _ => rfl

theorem finishers_self (tr : List Event) (resp : FinishRoomResponse) :
    finishers (tr ++ [.finished resp]) resp.matchId =
      if resp.playerId ∈ finishers tr resp.matchId then finishers tr resp.matchId
      else finishers tr resp.matchId ++ [resp.playerId] := by
  have hkey : Event.finisher resp.matchId (.finished resp) = some resp.playerId := if_pos rfl
  rw [finishers, History.firsts_snoc, History.firstsStep, hkey]
  rfl

theorem finishers_quiet {tr evs : List Event} {m : String}
    (h : ∀ resp, Event.finished resp ∈ evs → resp.matchId ≠ m) :
    finishers (tr ++ evs) m = finishers tr m := by
  apply History.firsts_quiet
  intro e he
  cases e with
  | finished resp => exact if_neg (h resp he)
  | _ => rfl

/-- A room stores its order of first finishes, and a rank is a position in it. -/
structure Finishes (s : Sys) (tr : List Event) : Prop where
  room : ∀ {m room}, s.core.rooms.get m = some room → room.finishedPlayerIds = finishers tr m
  seen : ∀ {resp}, Event.finished resp ∈ tr → resp.matchId ∈ s.seen
  rank : ∀ {resp}, Event.finished resp ∈ tr →
    resp.rank = asU32 ((finishers tr resp.matchId).idxOf resp.playerId + 1)

theorem finishes_step {s s' : Sys} {tr evs : List Event} {a : Action} (hseen : RoomsSeen s)
    (hi : Finishes s tr) (h : Step s a s' evs) : Finishes s' (tr ++ evs) := by
  have hcore : CoreStep s a s'.core evs := step_core h
  refine ⟨?_, ?_, ?_⟩
  · intro m room' hr'
    by_cases hm : ∃ resp, Event.finished resp ∈ evs ∧ resp.matchId = m
    · -- the list and the order of the history grow alike
      obtain ⟨resp, he, rfl⟩ := hm
      obtain ⟨rfl, room, room₁, hr, hr₁, -, -, -, hlist, -⟩ := finished_by hcore he
      obtain rfl : room' = room₁ := by
        rw [hr'] at hr₁
        exact Option.some.inj hr₁
      rw [hlist, hi.room hr, finishers_self]
    · have hno : ∀ resp, Event.finished resp ∈ evs → resp.matchId ≠ m :=
        fun resp he heq => hm ⟨resp, he, heq⟩
      rw [finishers_quiet hno]
      rcases finished_kept hcore hr' hno with ⟨room, hr, heq⟩ | ⟨hfresh, hempty⟩
      · rw [heq, hi.room hr]
      · rw [hempty, eq_comm, List.eq_nil_iff_forall_not_mem]
        intro p hp
        obtain ⟨resp, he, rfl, -⟩ := mem_finishers.mp hp
        exact hfresh (hi.seen he)
  · intro resp he
    rcases List.mem_append.mp he with he | he
    · exact seen_step h (hi.seen he)
    · obtain ⟨-, room, -, hr, -⟩ := finished_by hcore he
      exact seen_step h (hseen _ room hr)
  · intro resp he
    rcases List.mem_append.mp he with he | he
    · have hp : resp.playerId ∈ finishers tr resp.matchId :=
        mem_finishers.mpr ⟨resp, he, rfl, rfl⟩
      show _ = asU32 ((History.firsts _ (tr ++ evs)).idxOf _ + 1)
      rw [History.idxOf_firsts hp]
      exact hi.rank he
    · obtain ⟨rfl, room, room', hr, -, -, -, -, hlist, hrank, -⟩ := finished_by hcore he
      rw [hrank, hlist, hi.room hr, finishers_self]

theorem finishes {G : Sys → Action → Prop} {s : Sys} {tr : List Event}
    (h : server.Reach G s tr) : Finishes s tr := by
  refine Machine.Reach.induct (P := Finishes) ?_ ?_ h
  · intro s hinit
    obtain ⟨url, rfl⟩ := hinit
    refine ⟨?_, ?_, ?_⟩
    · intro m room hr
      cases hr
    · simp
    · simp
  · intro s tr a s' evs hreach ih _ hs
    exact finishes_step (rooms_seen hreach) ih (step_spec hs)

/-- Nobody has finished in a room that has not started. -/
theorem unstarted_unfinished {G : Sys → Action → Prop} {s : Sys} {tr : List Event}
    (h : server.Reach G s tr) : ∀ m room, s.core.rooms.get m = some room →
      room.startedAtUnix = 0 → room.finishedPlayerIds = [] := by
  apply rooms_invariant (P := fun room => room.startedAtUnix = 0 → room.finishedPlayerIds = [])
    ?_ ?_ h
  · intro now _
    rfl
  · intro s tr a evs m room room' _ _ _ hl hs h0
    cases hs with
    | started hz => exact hl hz
    | finished hne _ _ => exact absurd h0 hne
    | same | touched | registered _ _ | removed _ _ | updated _ _ => exact hl h0

/-! ## Ranks -/

/-- The ranks handed out in `m` are exactly `1..=count`, one for each player who
finished, in the order of the first finishes; and each response counts the players
who finished up to it. -/
structure Ranked (tr : List Event) (m : String) : Prop where
  distinct : ∀ {resp resp'}, Event.finished resp ∈ tr → Event.finished resp' ∈ tr →
    resp.matchId = m → resp'.matchId = m → resp.playerId ≠ resp'.playerId →
    resp.rank ≠ resp'.rank
  dense : ∀ r, (∃ resp, Event.finished resp ∈ tr ∧ resp.matchId = m ∧ resp.rank = r) ↔
    1 ≤ r ∧ r ≤ (finishers tr m).length
  count : ∀ {pre resp post}, tr = pre ++ .finished resp :: post → resp.matchId = m →
    resp.finishedPlayerCount = (finishers (pre ++ [.finished resp]) m).length
  ordered : ∀ {pre resp post resp'}, tr = pre ++ .finished resp :: post →
    Event.finished resp' ∈ pre → resp'.matchId = m → resp.matchId = m →
    resp.playerId ∉ finishers pre m → resp'.rank < resp.rank

/-- Below the width of a rank, a rank is its position, counted from 1. -/
theorem rank_eq {s : Sys} {tr : List Event} {m : String} (hi : Finishes s tr)
    (hlt : (finishers tr m).length < 2 ^ 32) {resp : FinishRoomResponse}
    (he : Event.finished resp ∈ tr) (hm : resp.matchId = m) :
    resp.rank = (finishers tr m).idxOf resp.playerId + 1 ∧
      (finishers tr m).idxOf resp.playerId < (finishers tr m).length := by
  have hidx : (finishers tr m).idxOf resp.playerId < (finishers tr m).length :=
    List.idxOf_lt_length_of_mem (mem_finishers.mpr ⟨resp, he, hm, rfl⟩)
  refine ⟨?_, hidx⟩
  subst hm
  rw [hi.rank he, asU32]
  exact Nat.mod_eq_of_lt (by omega)

/-- Every position is that of some player who finished. -/
theorem finisher_at {tr : List Event} {m : String} {i : Nat} (h : i < (finishers tr m).length) :
    ∃ resp, Event.finished resp ∈ tr ∧ resp.matchId = m ∧
      (finishers tr m).idxOf resp.playerId = i := by
  obtain ⟨resp, he, hm, hp⟩ := mem_finishers.mp (List.getElem_mem h)
  refine ⟨resp, he, hm, ?_⟩
  rw [hp]
  exact (History.firsts_nodup tr).idxOf_getElem _ h

theorem finished_alone (s : Sys) (a : Action) (s' : Sys) (evs : List Event)
    {resp : FinishRoomResponse} (h : server.step s a = some (s', evs))
    (he : Event.finished resp ∈ evs) : evs = [.finished resp] :=
  (finished_by (step_core (step_spec h)) he).1

theorem ranked {G : Sys → Action → Prop} {s : Sys} {tr : List Event} {m : String}
    (h : server.Reach G s tr) (hlt : (finishers tr m).length < 2 ^ 32) : Ranked tr m := by
  have hi : Finishes s tr := finishes h
  refine ⟨?_, ?_, ?_, ?_⟩
  · intro resp resp' he he' hm hm' hne heq
    obtain ⟨hr, hidx⟩ := rank_eq hi hlt he hm
    obtain ⟨hr', -⟩ := rank_eq hi hlt he' hm'
    have hpos : (finishers tr m).idxOf resp.playerId = (finishers tr m).idxOf resp'.playerId := by
      omega
    exact hne ((List.idxOf_inj (List.idxOf_lt_length_iff.mp hidx)).mp hpos)
  · intro r
    constructor
    · intro hex
      obtain ⟨resp, he, hm, rfl⟩ := hex
      obtain ⟨hr, hidx⟩ := rank_eq hi hlt he hm
      omega
    · intro hrange
      obtain ⟨h1, hr⟩ := hrange
      -- the player at position `r - 1` was given the rank `r`
      have hlen : r - 1 < (finishers tr m).length := by omega
      obtain ⟨resp, he, hm, hidx⟩ := finisher_at hlen
      refine ⟨resp, he, hm, ?_⟩
      rw [(rank_eq hi hlt he hm).1, hidx]
      omega
  · intro pre resp post he hm
    obtain ⟨s₀, a, s₁, hreach, hg, hs⟩ :=
      h.event_alone he fun s a s' evs => finished_alone s a s' evs
    obtain ⟨-, room, room', -, hr', -, -, -, -, -, hcount, -⟩ :=
      finished_by (step_core (step_spec hs)) (List.mem_singleton_self _)
    have hpre : finishers (pre ++ [.finished resp]) m <+: finishers tr m := by
      rw [he, List.append_cons pre _ post]
      exact prefix_finishers _ _ m
    have hle : (finishers (pre ++ [.finished resp]) m).length ≤ (finishers tr m).length :=
      hpre.length_le
    subst hm
    rw [hcount, (finishes (hreach.step hg hs)).room hr', asU32]
    exact Nat.mod_eq_of_lt (by omega)
  · intro pre resp post resp' he he' hm' hm hnew
    have hmem : Event.finished resp ∈ tr := by
      rw [he]
      exact List.mem_append_right _ List.mem_cons_self
    have hmem' : Event.finished resp' ∈ tr := by
      rw [he]
      exact List.mem_append_left _ he'
    have hlow : (finishers tr m).idxOf resp'.playerId < (finishers tr m).idxOf resp.playerId := by
      rw [he]
      exact History.idxOf_firsts_lt (mem_finishers.mpr ⟨resp', he', hm', rfl⟩) hnew
    rw [(rank_eq hi hlt hmem hm).1, (rank_eq hi hlt hmem' hm').1]
    omega

/-- A refused finish changes nothing. -/
theorem refused_finish {s s' : Sys} {m p : String} {now : Nat} {call : Call} {status : Status}
    (h : server.step s (.finishRoom m p now) = some (s', [.refused call status])) : s' = s := by
  have hc : ControlStep s (.finishRoom m p now) s' [.refused call status] :=
    step_emitted (w := .control) (step_spec h) (List.mem_singleton_self _) rfl
  cases hc
  rfl

/-- The placement of every room, over any run. -/
theorem placement {s : Sys} {tr : List Event} (h : server.Reach Machine.anyStep s tr) :
    (∀ m room, s.core.rooms.get m = some room →
      room.finishedPlayerIds.Nodup ∧ (room.startedAtUnix = 0 → room.finishedPlayerIds = []) ∧
      room.finishedPlayerIds = finishers tr m ∧
      ∀ as us s' room', server.Run Machine.anyStep s as us s' →
        s'.core.rooms.get m = some room' → room.finishedPlayerIds <+: room'.finishedPlayerIds) ∧
    (∀ resp resp', Event.finished resp ∈ tr → Event.finished resp' ∈ tr →
      resp.matchId = resp'.matchId → resp.playerId = resp'.playerId → resp.rank = resp'.rank) ∧
    (∀ m p now s' call status,
      server.step s (.finishRoom m p now) = some (s', [.refused call status]) → s' = s) ∧
    ∀ m, (finishers tr m).length < 2 ^ 32 → Ranked tr m := by
  have hi : Finishes s tr := finishes h
  refine ⟨?_, ?_, fun _ _ _ _ _ _ hs => refused_finish hs, fun m hlt => ranked h hlt⟩
  · intro m room hr
    refine ⟨?_, unstarted_unfinished h m room hr, hi.room hr, ?_⟩
    · rw [hi.room hr]
      exact History.firsts_nodup tr
    · intro as us s' room' hrun hr'
      rw [hi.room hr, (finishes (h.run hrun)).room hr']
      exact prefix_finishers tr us m
  · intro resp resp' he he' hm hp
    rw [hi.rank he, hi.rank he', hm, hp]

/-- Two players with tickets for a started room. -/
def startedRoom : List Action :=
  [.createRoom "r" 1, .issueJoinTicket ⟨"m_r", "x"⟩ "1" "t1" 1,
    .issueJoinTicket ⟨"m_r", "y"⟩ "2" "t2" 1, .startRoom "m_r" .inOrder { nowUnix := 5 }]

/-- Two players finish, and the first one asks again. -/
theorem placement_two : ∃ s tr, server.Reach Machine.anyStep s tr ∧
    finishers tr "m_r" = ["p_2", "p_1"] ∧ Ranked tr "m_r" := by
  obtain ⟨s, tr, h, hp⟩ := reach_of_actions Machine.anyStep
    (startedRoom ++ soloJoin 0 ⟨1, 1⟩ "t1" [{}, {}, {}, {}, {}] ++
      soloJoin 1 ⟨1, 2⟩ "t2" [{}, { fresh := 1 }, {}, {}, {}] ++
      [.finishRoom "m_r" "p_2" 6, .finishRoom "m_r" "p_1" 7, .finishRoom "m_r" "p_2" 8])
    (fun _ tr => finishers tr "m_r" == ["p_2", "p_1"]) (by decide)
  have hfin : finishers tr "m_r" = ["p_2", "p_1"] := by simpa using hp
  refine ⟨s, tr, h, hfin, (placement h).2.2.2 "m_r" ?_⟩
  rw [hfin]
  decide

/-! ## Why the number of finishers is bounded -/

/-- There is always a player id to be drawn. -/
theorem exists_fresh_player (seen : List String) : ∃ u, playerIdOf u ∉ seen := by
  have hinj : Function.Injective playerIdOf := by
    intro a b hab
    simpa [playerIdOf] using hab
  obtain ⟨_, ⟨u, rfl⟩, hu⟩ :=
    (Set.infinite_range_of_injective hinj).exists_notMem_finset seen.toFinset
  exact ⟨u, by simpa using hu⟩

/-- A player takes a seat, finishes, and loses the seat when `JoinOk` cannot be sent. -/
def finishAndLeave (uuid token : String) (tx : ChanId) : List Action :=
  .issueJoinTicket ⟨"m_r", "x"⟩ uuid token 0 ::
    (soloJoin 0 ⟨1, 1⟩ token [{}, { fresh := tx }, {}, {}] ++
      [.finishRoom "m_r" (playerIdOf uuid) 0, .join 0 { sendOk := false }, .join 0 {}, .join 0 {}])

/-- Nothing is under way, the started room `m_r` has a free seat, and `n` players
have finished in it. -/
structure Rotating (s : Sys) (n : Nat) : Prop where
  join : s.joins.get 0 = none
  drain : s.drain = none
  client : s.clients.get ⟨1, 1⟩ = none
  room : ∃ room, s.core.rooms.get "m_r" = some room ∧ room.startedAtUnix ≠ 0 ∧
    room.players.len < roomMaxPlayers ∧ room.finishedPlayerIds.length = n ∧
    ∀ q ∈ room.finishedPlayerIds, q ∈ s.seen

theorem rotating_round {s : Sys} {n : Nat} (h : Rotating s n) :
    ∃ as tr s', server.Run Machine.anyStep s as tr s' ∧ Rotating s' (n + 1) := by
  obtain ⟨hj, hd, hc, room, hr, h0, hl, hn, hseen⟩ := h
  obtain ⟨u, hu⟩ := exists_fresh_player s.seen
  obtain ⟨token, ht⟩ := Infinite.exists_notMem_finset (playerIdOf u :: s.seen).toFinset
  obtain ⟨tx, hf⟩ := HashMap.exists_fresh s.chans
  simp only [List.mem_toFinset, List.mem_cons, not_or] at ht
  have hne : ¬ playerIdOf u = token := fun h => ht.1 h.symm
  have hnew : room.finishedPlayerIds.idxOf? (playerIdOf u) = none := by
    simpa using fun hm => hu (hseen _ hm)
  have hexec : ∃ r, server.exec Machine.anyStep s (finishAndLeave u token tx) = some r ∧
      Rotating r.1 (n + 1) := by
    simp only [finishAndLeave, soloJoin]
    simp [Machine.exec, server, step, stepRecv, stepJoin, Machine.anyStep, HashMap.contains, hj, hd,
      hc, hu, ht, hne, issueJoinTicket, hr, Nat.not_le.mpr hl, consumeTicket, registerPlayerUdp,
      MatchRoom.FullFor, hf, finishRoom, finishPlayer, h0, hnew, removePlayer, MatchRoom.register,
      MatchRoom.finish]
    refine ⟨HashMap.get_remove_self _ _, rfl, HashMap.get_remove_self _ _, _,
      HashMap.get_insert_self _ _ _, h0, ?_, ?_, ?_⟩
    · exact Nat.lt_of_le_of_lt (HashMap.len_remove_insert_le _ _ _) hl
    · show (room.finishedPlayerIds ++ [playerIdOf u]).length = n + 1
      rw [List.length_append, hn]
      rfl
    · intro q hq
      rcases List.mem_append.mp hq with hq | hq
      · simp [hseen q hq]
      · simp [List.mem_singleton.mp hq]
  obtain ⟨⟨s', tr⟩, he, hp⟩ := hexec
  exact ⟨_, tr, s', Machine.run_of_exec he, hp⟩

/-- Any number of players can finish in one room, one after the other. -/
theorem rotating (n : Nat) : ∃ s tr, server.Reach Machine.anyStep s tr ∧ Rotating s n := by
  induction n with
  | zero =>
    obtain ⟨s, tr, h, hp⟩ := reach_of_actions Machine.anyStep
      [.createRoom "r" 1, .startRoom "m_r" .inOrder { nowUnix := 5 }]
      (fun s _ => s.joins.len == 0 && s.drain.isNone && s.clients.len == 0 &&
        (s.core.rooms.get "m_r").any fun room =>
          room.startedAtUnix != 0 && room.players.len == 0 && room.finishedPlayerIds.isEmpty)
      (by decide)
    simp only [Bool.and_eq_true, beq_iff_eq, Option.isNone_iff_eq_none] at hp
    obtain ⟨⟨⟨hj, hd⟩, hc⟩, hroom⟩ := hp
    obtain ⟨room, hr, hp⟩ := (Option.any_eq_true _ _).mp hroom
    simp only [Bool.and_eq_true, bne_iff_ne, beq_iff_eq, List.isEmpty_iff] at hp
    obtain ⟨⟨h0, hl⟩, hn⟩ := hp
    refine ⟨s, tr, h, HashMap.get_eq_none_of_len hj _, hd, HashMap.get_eq_none_of_len hc _, room,
      hr, h0, ?_, ?_, ?_⟩
    · rw [hl]
      decide
    · rw [hn]
      rfl
    · simp [hn]
  | succ n ih =>
    obtain ⟨s, tr, h, hrot⟩ := ih
    obtain ⟨as, us, s', hrun, hrot'⟩ := rotating_round hrot
    exact ⟨s', tr ++ us, h.run hrun, hrot'⟩

/-- After `2 ^ 32` finishers a rank has wrapped to 0. -/
theorem rank_wraps : ¬ ∀ s tr, server.Reach Machine.anyStep s tr → ∀ m, Ranked tr m := by
  intro hall
  obtain ⟨s, tr, h, hrot⟩ := rotating (2 ^ 32)
  obtain ⟨room, hr, -, -, hlen, -⟩ := hrot.room
  have hi : Finishes s tr := finishes h
  rw [hi.room hr] at hlen
  have hlast : 2 ^ 32 - 1 < (finishers tr "m_r").length := by omega
  obtain ⟨resp, he, hm, hidx⟩ := finisher_at hlast
  have hzero : resp.rank = 0 := by
    rw [hi.rank he, hm, hidx]
    decide
  have hpos : 1 ≤ resp.rank := (((hall s tr h "m_r").dense _).mp ⟨resp, he, hm, rfl⟩).1
  omega

/-! ## Counts and seats -/

/-- The next section of the task takes the seat of a player who has finished. -/
def unseatsFinished (s : Sys) : Action → Bool
  | .join tid _ =>
    match s.joins.get tid with
    | some (.remove session) =>
      match s.core.rooms.get session.matchId with
      | some room => room.finishedPlayerIds.contains session.playerId
      | none => false
    | _ => false
  | _ => false

/-- Everyone who has finished in a room has a seat there. -/
def FinishedSeated (s : Sys) : Prop :=
  ∀ m room, s.core.rooms.get m = some room →
    ∀ p ∈ room.finishedPlayerIds, room.players.contains p = true

/-- The numbers of every response fit each other and the room. -/
def CountsFit (tr : List Event) : Prop :=
  ∀ resp, Event.finished resp ∈ tr → resp.rank ≤ resp.finishedPlayerCount ∧
    resp.finishedPlayerCount ≤ resp.totalPlayers ∧ resp.totalPlayers ≤ roomMaxPlayers

theorem finishedSeated_step {s : Sys} {a : Action} {evs : List Event} {m : String}
    {room room' : MatchRoom} (hg : unseatsFinished s a = false)
    (hr : s.core.rooms.get m = some room)
    (hi : ∀ p ∈ room.finishedPlayerIds, room.players.contains p = true)
    (hs : RoomStep s m room a evs room') :
    ∀ p ∈ room'.finishedPlayerIds, room'.players.contains p = true := by
  intro p hp
  cases hs with
  | same | touched => exact hi p hp
  | registered _ _ =>
    exact HashMap.contains_iff.mpr
      (HashMap.exists_get_insert (HashMap.contains_iff.mp (hi p hp)) _ _)
  | @removed tid ch session now ht hm =>
    -- the guard leaves only a player who has not finished
    have hne : p ≠ session.playerId := by
      intro heq
      subst heq
      have hout : session.playerId ∉ room.finishedPlayerIds := by
        simpa [unseatsFinished, ht, hm, hr] using hg
      exact hout hp
    obtain ⟨h, hget⟩ := HashMap.contains_iff.mp (hi p hp)
    refine HashMap.contains_iff.mpr ⟨h, ?_⟩
    rw [get_removePlayer, if_neg hne, hget]
  | updated _ _ =>
    exact HashMap.contains_iff.mpr
      (HashMap.exists_get_insert (HashMap.contains_iff.mp (hi p hp)) _ _)
  | @started sh ch _ =>
    obtain ⟨h, hget⟩ := HashMap.contains_iff.mp (hi p hp)
    refine HashMap.contains_iff.mpr ⟨layoutHandle sh (room.position p) h, ?_⟩
    rw [get_start, hget]
    rfl
  | finished _ hseat _ =>
    rcases List.mem_append.mp hp with hp | hp
    · exact hi p hp
    · rw [List.mem_singleton.mp hp]
      exact hseat

theorem finished_seated {s : Sys} {tr : List Event}
    (h : server.Reach (fun s a => unseatsFinished s a = false) s tr) : FinishedSeated s := by
  apply rooms_invariant
    (P := fun room => ∀ p ∈ room.finishedPlayerIds, room.players.contains p = true) ?_ ?_ h
  · intro now p hp
    cases hp
  · intro s tr a evs m room room' _ hg hr hi hs
    exact finishedSeated_step hg hr hi hs

/-- While no player who has finished is removed, the players who have finished are
seated, and the counts of every response fit. -/
theorem finish_counts {s : Sys} {tr : List Event}
    (h : server.Reach (fun s a => unseatsFinished s a = false) s tr) :
    FinishedSeated s ∧ CountsFit tr := by
  refine ⟨finished_seated h, ?_⟩
  intro resp he
  obtain ⟨pre, post, heq⟩ := List.append_of_mem he
  obtain ⟨s₀, a, s₁, hreach, hg, hs⟩ :=
    h.event_alone heq fun s a s' evs => finished_alone s a s' evs
  obtain ⟨-, room, room', -, hr', -, -, hplayers, hlist, hrank, hcount, htotal⟩ :=
    finished_by (step_core (step_spec hs)) (List.mem_singleton_self _)
  have hreach₁ := hreach.step hg hs
  -- the list has no duplicates and only seated players
  have hnodup : room'.finishedPlayerIds.Nodup := by
    rw [(finishes hreach₁).room hr']
    exact History.firsts_nodup _
  have hlen : room'.finishedPlayerIds.length ≤ room'.players.len :=
    HashMap.length_le_len hnodup fun p hp =>
      HashMap.contains_iff.mp (finished_seated hreach₁ _ room' hr' p hp)
  have hcap : room'.players.len ≤ roomMaxPlayers := capacity hreach₁ _ room' hr'
  have hmem : resp.playerId ∈ room'.finishedPlayerIds := by
    rw [hlist]
    split
    · assumption
    · simp
  have hidx := List.idxOf_lt_length_of_mem hmem
  have hfour : roomMaxPlayers = 4 := rfl
  have hsmall : ∀ n, n ≤ roomMaxPlayers → asU32 n = n := fun n hn => Nat.mod_eq_of_lt (by omega)
  rw [hrank, hcount, htotal, ← hplayers, hsmall _ (by omega), hsmall _ (by omega),
    hsmall _ hcap]
  omega

/-- The first player finishes; the second one leaves before it has. -/
theorem finish_counts_one : ∃ s tr resp,
    server.Reach (fun s a => unseatsFinished s a = false) s tr ∧ Event.finished resp ∈ tr ∧
    Event.seatRemoved "m_r" "p_2" ∈ tr ∧ FinishedSeated s ∧
    resp.finishedPlayerCount ≤ resp.totalPlayers := by
  obtain ⟨s, tr, h, hp⟩ := reach_of_actions (fun s a => unseatsFinished s a = false)
    (startedRoom ++ soloJoin 0 ⟨1, 1⟩ "t1" [{}, {}, {}, {}, {}] ++
      soloJoin 1 ⟨1, 2⟩ "t2" [{}, { fresh := 1 }, {}, {}, { sendOk := false }] ++
      [.finishRoom "m_r" "p_1" 6, .join 1 {}, .join 1 {}])
    (fun _ tr => (tr.any fun | .finished _ => true | _ => false) &&
      tr.any fun | .seatRemoved "m_r" "p_2" => true | _ => false)
    (by decide)
  obtain ⟨hfin, hrem⟩ := (Bool.and_eq_true _ _).mp hp
  obtain ⟨e, he, hb⟩ := List.any_eq_true.mp hfin
  obtain ⟨e', he', hb'⟩ := List.any_eq_true.mp hrem
  split at hb
  · next resp =>
    split at hb'
    · obtain ⟨hseated, hfit⟩ := finish_counts h
      exact ⟨s, tr, resp, h, he, he', hseated, (hfit resp he).2.1⟩
    · cases hb'
  · cases hb

/-- The first player finishes before its `JoinOk` fails and takes its seat away; then
the second one finishes as number two of one. -/
theorem finished_unseated : ¬ ∀ s tr, server.Reach Machine.anyStep s tr →
    FinishedSeated s ∧ CountsFit tr := by
  intro hall
  obtain ⟨s, tr, h, hp⟩ := reach_of_actions Machine.anyStep
    (startedRoom ++ soloJoin 0 ⟨1, 1⟩ "t1" [{}, {}, {}, {}] ++
      [.finishRoom "m_r" "p_1" 6, .join 0 { sendOk := false }, .join 0 {}, .join 0 {}] ++
      soloJoin 1 ⟨1, 2⟩ "t2" [{}, { fresh := 1 }, {}, {}, {}] ++ [.finishRoom "m_r" "p_2" 7])
    (fun _ tr => tr.any fun
      | .finished resp => resp.finishedPlayerCount == 2 && resp.totalPlayers == 1
      | _ => false)
    (by decide)
  obtain ⟨e, he, hb⟩ := List.any_eq_true.mp hp
  split at hb
  · next resp =>
    simp only [Bool.and_eq_true, beq_iff_eq] at hb
    obtain ⟨hcount, htotal⟩ := hb
    have hle : resp.finishedPlayerCount ≤ resp.totalPlayers := ((hall s tr h).2 resp he).2.1
    omega
  · cases hb

end Kotatsu
