import Kotatsu.Elsewhere

/-
  Rooms do not disturb each other

  The run of a room without the rest (`Shortened`) is taken step by step beside the whole
  run: a step that stays is taken by both, with the same effect on the room and the same
  events for it (`moment_kept`), and one that is left out does neither (`moment_dropped`).
  So the shorter run is never refused, and ends with the same room, the same tickets of
  it, the same responses and the same packets (`room_isolated`).
-/

namespace Kotatsu

open Machine (eventsOf)

/-! ## Cleanup passes and listings -/

section Shared
variable {m : String} {F : List SocketAddr} {S : Set ChanId} {tr : List Event} {s t : Sys}

theorem deleteStale_get_room (core : CoreState) (timeout now : Nat) (m : String) :
    (deleteStaleLobbyRooms core timeout now).1.rooms.get m = (core.rooms.get m).filter
      fun _ => decide (m ∉ (deleteStaleLobbyRooms core timeout now).2) := by
  ext room
  rw [deleteStale_rooms, Option.filter_eq_some_iff, decide_eq_true_iff]

theorem deleteStale_get_ticket (core : CoreState) (timeout now : Nat) (token : String) :
    (deleteStaleLobbyRooms core timeout now).1.tickets.get token = (core.tickets.get token).filter
      fun k => decide (k.matchId ∉ (deleteStaleLobbyRooms core timeout now).2) := by
  ext k
  rw [deleteStale_tickets, Option.filter_eq_some_iff, decide_eq_true_iff]

/-- A cleanup pass deletes the room in both runs, or in neither. -/
theorem Mirrors.stale (h : Mirrors m F S tr s t) (timeout now : Nat) :
    m ∈ (deleteStaleLobbyRooms s.core timeout now).2 ↔
      m ∈ (deleteStaleLobbyRooms t.core timeout now).2 := by
  rw [mem_deleteStale, mem_deleteStale, h.room]

/-- Of the deleted rooms, the room sees itself. -/
theorem observed_deleted {ms : List String} (hn : ms.Nodup) (s s' : Sys) (a : Action) :
    observed m F ⟨s, a, ms.map .roomRemoved, s'⟩ = if m ∈ ms then [.roomRemoved m] else [] := by
  have hvisible : (Event.visible m F a ∘ Event.roomRemoved) = (· == m) := rfl
  simp only [observed]
  rw [List.filter_map, hvisible, List.filter_beq]
  split
  · next hm =>
    rw [List.count_eq_one_of_mem hn hm]
    rfl
  · next hm =>
    rw [List.count_eq_zero_of_not_mem hm]
    rfl

theorem cleanup_follows (h : Mirrors m F S tr s t) {tid : Nat} {s' : Sys} {evs : List Event}
    (hs : step s (.cleanupRun tid) = some (s', evs)) :
    ∃ t' evs', step t (.cleanupRun tid) = some (t', evs') ∧ Beside m F tr s' t' evs ∧
      observed m F ⟨t, .cleanupRun tid, evs', t'⟩ = observed m F ⟨s, .cleanupRun tid, evs, s'⟩ := by
  simp only [step] at hs ⊢
  rw [h.cleanups]
  cases hc : s.cleanups.get tid with
  | none =>
    rw [hc] at hs
    cases hs
  | some pass =>
    obtain ⟨timeout, now⟩ := pass
    rw [hc] at hs
    cases hs
    have h' := h.mono ((deleteStaleLobbyRooms s.core timeout now).2.map .roomRemoved) (by simp)
    have hm := h.stale timeout now
    refine ⟨_, _, rfl, ⟨S, { h' with rooms := ?_, tickets := ?_, cleanups := ?_ }⟩, ?_⟩
    · refine h'.rooms.filter (deleteStale_get_room _ _ _) (deleteStale_get_room _ _ _) ?_
      intro m' room heq
      subst heq
      rw [decide_eq_decide, not_iff_not]
      exact hm
    · refine h'.tickets.filter (deleteStale_get_ticket _ _ _) (deleteStale_get_ticket _ _ _) ?_
      intro token k heq
      rw [heq, decide_eq_decide, not_iff_not]
      exact hm
    · rfl
    · rw [observed_deleted (deleteStale_nodup _ _ _), observed_deleted (deleteStale_nodup _ _ _)]
      simp only [hm]

/-- What a listing has of the room, which is one entry or none. -/
theorem listed_eq (core : CoreState) (m : String) :
    (listRooms core).filter (·.matchId == m) =
      (((core.rooms.get m).toList.map fun room => (m, room)).filter
        fun e => e.2.startedAtUnix == 0).map fun e => roomSummary e.1 e.2 := by
  have hperm : ((listRooms core).filter (·.matchId == m)).Perm
      ((((core.rooms.get m).toList.map fun room => (m, room)).filter
        fun e => e.2.startedAtUnix == 0).map fun e => roomSummary e.1 e.2) := by
    rw [← HashMap.filter_key, List.filter_comm]
    refine ((List.perm_insertionSort _ _).filter _).trans ?_
    rw [List.filter_map]
    exact .refl _
  cases hr : core.rooms.get m with
  | none =>
    rw [hr] at hperm
    exact hperm.eq_nil
  | some room =>
    rw [hr] at hperm
    by_cases h0 : room.startedAtUnix = 0
    · simpa [h0] using hperm
    · simpa [h0] using hperm

/-- Both runs list the room the same. -/
theorem Mirrors.listed (h : Mirrors m F S tr s t) :
    (listRooms t.core).filter (·.matchId == m) = (listRooms s.core).filter (·.matchId == m) := by
  rw [listed_eq, listed_eq, h.room]

end Shared

/-! ## One moment -/

section Moments
variable {m : String} {F : List SocketAddr} {S : Set ChanId} {tr : List Event} {s s' t : Sys}
  {a : Action} {evs : List Event}

theorem visible_without (e : Event) : e.visible m F (a.without F) = e.visible m F a := by
  have hroom : (a.without F).room = a.room := by
    cases a <;> rfl
  cases e with
  | refused call status => simp only [Event.visible, hroom]
  | _ => rfl

theorem observed_without (s s' t t' : Sys) :
    observed m F ⟨t, a.without F, evs, t'⟩ = observed m F ⟨s, a, evs, s'⟩ := by
  simp only [observed, visible_without]

theorem observed_unseen (h : Unseen m F a evs) (s s' : Sys) :
    observed m F ⟨s, a, evs, s'⟩ = [] := by
  rw [observed, List.map_eq_nil_iff, List.filter_eq_nil_iff]
  intro e he
  rw [h e he]
  simp

/-- A step of the room is taken in both runs, to the same effect for the room. -/
theorem moment_kept (hsd : Sides m F s tr) (h : Mirrors m F S tr s t)
    (hs : server.step s a = some (s', evs)) (hk : stays m F s t a = true) :
    ∃ t' evs', server.step t (a.without F) = some (t', evs') ∧ Beside m F tr s' t' evs ∧
      observed m F ⟨t, a.without F, evs', t'⟩ = observed m F ⟨s, a, evs, s'⟩ := by
  have hfollows : Follows (Beside m F tr) (step s a) (step t (a.without F)) →
      ∃ t' evs', server.step t (a.without F) = some (t', evs') ∧
        Beside m F tr s' t' evs ∧
        observed m F ⟨t, a.without F, evs', t'⟩ = observed m F ⟨s, a, evs, s'⟩ := by
    intro hf
    obtain ⟨t', ht, h'⟩ := hf s' evs hs
    exact ⟨t', evs, ht, h', observed_without s s' t t'⟩
  cases a with
  | listRooms =>
    cases hs
    refine ⟨t, _, rfl, ⟨S, h.mono _ (by simp)⟩, ?_⟩
    simp [observed, Event.visible, Event.shownTo, h.listed, Action.without]
  | cleanupRun tid => exact cleanup_follows h hs
  | cleanupTick tid timeout now => exact hfollows (tick_follows h tid timeout now)
  | recv tid addr packet => exact hfollows (recv_follows h (by simpa [stays] using hk) tid packet)
  | join tid ch => exact hfollows (join_follows hsd h hk ch)
  | param tid ch => exact hfollows (param_follows hsd h hk ch)
  | cast cid ch => exact hfollows (cast_follows hsd h hk ch)
  | relay tid ch => exact hfollows (relay_follows hsd h hk ch)
  | drainStart order => exact hfollows (drainStart_follows h order)
  | drainStep sendOk =>
    refine hfollows (drainStep_follows hsd h ?_ ?_ sendOk)
    · intro addr rest hd
      simpa [stays, hd] using hk
    · intro c msg rest hd
      simpa [stays, hd] using hk
  | createRoom _ _ | getRoom _ | issueJoinTicket _ _ _ _ | startRoom _ _ _ | finishRoom _ _ _
  | deleteRoom _ =>
    exact hfollows (request_follows h (congrArg some (beq_iff_eq.mp hk)))

/-- A step that is left out does nothing to the room, and shows it nothing. -/
theorem moment_dropped (hsd : Sides m F s tr) (h : Mirrors m F S tr s t)
    (hs : server.step s a = some (s', evs)) (hk : stays m F s t a = false) :
    Beside m F tr s' t evs ∧ observed m F ⟨s, a, evs, s'⟩ = [] := by
  have hleft : Beside m F tr s' t evs ∧ Unseen m F a evs →
      Beside m F tr s' t evs ∧ observed m F ⟨s, a, evs, s'⟩ = [] := by
    intro hl
    exact ⟨hl.1, observed_unseen hl.2 s s'⟩
  cases a with
  | listRooms => cases hk
  | cleanupRun tid => cases hk
  | cleanupTick tid timeout now => cases hk
  | drainStart order => cases hk
  | recv tid addr packet =>
    exact hleft (recv_elsewhere h (by simpa [stays] using hk) (stepRecv_spec hs))
  | join tid ch =>
    exact hleft (join_elsewhere hsd h (HashMap.contains_eq_false.mp hk) (stepJoin_spec hs))
  | param tid ch =>
    exact hleft (param_elsewhere hsd h (HashMap.contains_eq_false.mp hk) (stepParam_spec hs))
  | cast cid ch =>
    exact hleft (cast_elsewhere hsd h (HashMap.contains_eq_false.mp hk) (stepCast_spec hs))
  | relay tid ch =>
    exact hleft (relay_elsewhere hsd h (HashMap.contains_eq_false.mp hk) (stepRelay_spec hs))
  | drainStep sendOk =>
    simp only [stays] at hk
    split at hk
    · next addr rest hd =>
      exact hleft (take_elsewhere hsd h hd (by simpa using hk) (drainStep_spec hs))
    · next c msg rest hd =>
      exact hleft (send_elsewhere h hd (by simpa using hk) (drainStep_spec hs))
    · cases hk
  | createRoom _ _ | getRoom _ | issueJoinTicket _ _ _ _ | startRoom _ _ _ | finishRoom _ _ _
  | deleteRoom _ =>
    exact hleft (request_elsewhere hsd h rfl (beq_eq_false_iff_ne.mp hk) (control_spec rfl hs))

end Moments

/-! ## The whole run -/

theorem url_kept {s s' : Sys} {a : Action} {evs : List Event} (h : Step s a s' evs) :
    s'.udpPublicUrl = s.udpPublicUrl := by
  cases h with
  | control h => cases h <;> rfl
  | join h => cases h <;> rfl
  | param h => cases h <;> rfl
  | cast h => cases h <;> rfl
  | relay h => rw [(relay_quiet h).1]
  | drain h => rw [(drain_quiet h).1]

/-- One more moment of the whole run. -/
theorem shortStep_mirrors {m : String} {F : List SocketAddr} {S : Set ChanId} {tr : List Event}
    {s s' t : Sys} {a : Action} {evs : List Event} {log : Log} (hsd : Sides m F s tr)
    (h : Mirrors m F S tr s t) (hreach : server.recorded.Reach Machine.anyStep t log)
    (hs : server.step s a = some (s', evs)) :
    ∃ t' y, shortStep m F (t, log) ⟨s, a, evs, s'⟩ = some (t', log ++ y) ∧
      server.recorded.Reach Machine.anyStep t' (log ++ y) ∧ Beside m F tr s' t' evs ∧
      y.flatMap (observed m F) = observed m F ⟨s, a, evs, s'⟩ := by
  cases hk : stays m F s t a with
  | true =>
    obtain ⟨t', evs', ht, h', hobs⟩ := moment_kept hsd h hs hk
    have hrec : server.recorded.step t (a.without F) = some (t', [⟨t, a.without F, evs', t'⟩]) :=
      Machine.recorded_step.mpr ⟨evs', ht, rfl⟩
    refine ⟨t', [⟨t, a.without F, evs', t'⟩], ?_, hreach.step trivial hrec, h', ?_⟩
    · simp only [shortStep, hk, if_true, hrec, Option.map_some]
    · rw [List.flatMap_singleton, hobs]
  | false =>
    obtain ⟨h', hobs⟩ := moment_dropped hsd h hs hk
    refine ⟨t, [], ?_, ?_, h', ?_⟩
    · simp [shortStep, hk]
    · simpa using hreach
    · rw [List.flatMap_nil, hobs]

theorem mirrored {G : Sys → Action → Prop} {m : String} {F : List SocketAddr} {s : Sys} {log : Log}
    (h : server.recorded.Reach G s log) (hd : Divides m F log) :
    ∃ t log', log.foldlM (shortStep m F) (Sys.init s.udpPublicUrl, []) = some (t, log') ∧
      server.recorded.Reach Machine.anyStep t log' ∧ (∃ S, Mirrors m F S (eventsOf log) s t) ∧
      log'.flatMap (observed m F) = log.flatMap (observed m F) := by
  revert hd
  refine Machine.Reach.log_induct (P := fun s log => Divides m F log →
    ∃ t log', log.foldlM (shortStep m F) (Sys.init s.udpPublicUrl, []) = some (t, log') ∧
      server.recorded.Reach Machine.anyStep t log' ∧ (∃ S, Mirrors m F S (eventsOf log) s t) ∧
      log'.flatMap (observed m F) = log.flatMap (observed m F)) ?_ ?_ h
  · intro s hinit _
    obtain ⟨url, rfl⟩ := hinit
    exact ⟨_, [], rfl, ⟨_, [], ⟨url, rfl⟩, .nil⟩, ⟨∅, mirrors_init m F url⟩, rfl⟩
  · intro s log a s' evs hreach ih _ hs hd
    obtain ⟨t, log', hfold, hreach', ⟨S, hmir⟩, hobs⟩ := ih hd.before
    obtain ⟨t', y, hshort, hreach'', hmir', hobs'⟩ :=
      shortStep_mirrors (sides hreach hd.before) hmir hreach' hs
    refine ⟨t', log' ++ y, ?_, hreach'', ?_, ?_⟩
    · rw [url_kept (step_spec hs), List.foldlM_append, hfold]
      show List.foldlM (shortStep m F) (t, log') [⟨s, a, evs, s'⟩] = some (t', log' ++ y)
      rw [List.foldlM_cons, hshort]
      rfl
    · rw [Machine.eventsOf_append, Machine.eventsOf_singleton]
      exact hmir'
    · rw [List.flatMap_append, List.flatMap_append, hobs, hobs', List.flatMap_singleton]

/-! ## The packets of a player -/

def Event.sentTo (a : SocketAddr) : Event → Bool
  | .sentReliable b _ | .sentDatagram b _ => b == a
  | _ => false

/-- The packets that are sent to the address, in order. -/
def packetsTo (a : SocketAddr) (log : Log) : List Event := (eventsOf log).filter (·.sentTo a)

theorem observed_packets {m : String} {F : List SocketAddr} {a : SocketAddr} (ha : a ∉ F)
    (x : Moment Sys Action Event) :
    (observed m F x).filter (·.sentTo a) = x.events.filter (·.sentTo a) := by
  have hshown : ∀ e : Event, (e.shownTo m).sentTo a = e.sentTo a := by
    intro e
    cases e <;> rfl
  have hsame : ∀ e : Event, e.sentTo a = true → e.shownTo m = e := by
    intro e he
    cases e with
    | listed rooms => cases he
    | _ => rfl
  have hvisible : ∀ e : Event, e.sentTo a = true → e.visible m F x.action = true := by
    intro e he
    cases e with
    | sentReliable b msg | sentDatagram b msg =>
      obtain rfl : b = a := beq_iff_eq.mp he
      exact decide_eq_true ha
    | _ => cases he
  calc (observed m F x).filter (·.sentTo a)
      = (x.events.filter (·.sentTo a)).map (·.shownTo m) := by
        rw [observed, List.filter_map, List.filter_filter]
        congr 1
        refine List.filter_congr ?_
        intro e _
        show ((e.shownTo m).sentTo a && e.visible m F x.action) = e.sentTo a
        rw [hshown]
        cases he : e.sentTo a with
        | true => exact hvisible e he
        | false => rfl
    _ = (x.events.filter (·.sentTo a)).map id := by
        refine List.map_congr_left ?_
        intro e he
        exact hsame e (List.mem_filter.mp he).2
    _ = x.events.filter (·.sentTo a) := List.map_id _

/-- What an address gets that is no outsider is part of what the room sees. -/
theorem packetsTo_observed {m : String} {F : List SocketAddr} {a : SocketAddr} (ha : a ∉ F)
    (log : Log) : packetsTo a log = (log.flatMap (observed m F)).filter (·.sentTo a) := by
  rw [packetsTo, eventsOf, List.filter_flatMap, List.filter_flatMap]
  simp only [observed_packets ha]

/-- For a room whose players present tokens of no other room, the run without the other
rooms is one that the server takes, and ends with the same room and the same tickets for
it; the room has got the same responses, and its players the same packets. -/
theorem room_isolated {s : Sys} {log : Log} (h : server.recorded.Reach Machine.anyStep s log)
    {m : String} (hx : Exclusive m log) :
    ∃ t log', shortened m s.udpPublicUrl log = some (t, log') ∧
      server.recorded.Reach Machine.anyStep t log' ∧
      t.core.rooms.get m = s.core.rooms.get m ∧
      (∀ token k, t.core.tickets.get token = some k ↔
        s.core.tickets.get token = some k ∧ k.matchId = m) ∧
      log'.flatMap (observed m (outsiders m log)) = log.flatMap (observed m (outsiders m log)) ∧
      ∀ a p token, Presented log a token → Issued (eventsOf log) m p token →
        packetsTo a log' = packetsTo a log := by
  obtain ⟨t, log', hshort, hreach, ⟨S, hmir⟩, hobs⟩ := mirrored h (outsiders_divide hx)
  refine ⟨t, log', hshort, hreach, hmir.room, ?_, hobs, ?_⟩
  · intro token k
    constructor
    · intro hk
      exact hmir.tickets.get_some hk
    · intro hk
      obtain ⟨hk, hm⟩ := hk
      rcases hmir.tickets.get_cases hk with ⟨-, ht⟩ | ⟨hne, -⟩
      · exact ht
      · exact absurd hm hne
  · intro a p token hp hi
    have ha : a ∉ outsiders m log := hx a p token hp hi
    rw [packetsTo_observed ha, packetsTo_observed ha, hobs]

/-- Two rooms with a player each, who both change a parameter; the queues are drained, and a
cleanup pass removes the room that was idle. -/
def twoRooms : List Action :=
  [.createRoom "r" 1, .createRoom "q" 1, .issueJoinTicket ⟨"m_r", "x"⟩ "1" "t1" 1,
    .issueJoinTicket ⟨"m_q", "y"⟩ "2" "t2" 1] ++
  soloJoin 1 ⟨1, 1⟩ "t1" [{}, { fresh := 1 }, {}, {}, {}] ++
  soloJoin 2 ⟨1, 2⟩ "t2" [{}, { fresh := 2 }, {}, {}, {}] ++
  [.recv 1 ⟨1, 1⟩ (.reliable (.paramChange 1 .gravity .increase)), .param 1 {},
    .recv 2 ⟨1, 2⟩ (.reliable (.paramChange 1 .speed .increase)), .param 2 {},
    .param 2 { nowUnix := 5, fresh := 1 },
    .param 1 { nowUnix := 5, nowUnix' := 100, fresh := 2 }, .cast 1 { txs := [2] },
    .cast 2 { txs := [1] }, .cast 2 {}, .cast 1 {}, .drainStart [⟨1, 2⟩, ⟨1, 1⟩]] ++
  List.replicate 7 (.drainStep true) ++
  [.listRooms, .cleanupTick 1 180 200, .cleanupRun 1, .getRoom "m_r"]

theorem room_isolated_two : ∃ s log t log', server.recorded.Reach Machine.anyStep s log ∧
    shortened "m_r" s.udpPublicUrl log = some (t, log') ∧ log'.length < log.length ∧
    (s.core.rooms.get "m_r").isSome = true ∧
    t.core.rooms.get "m_r" = s.core.rooms.get "m_r" ∧
    log'.flatMap (observed "m_r" (outsiders "m_r" log)) =
      log.flatMap (observed "m_r" (outsiders "m_r" log)) := by
  obtain ⟨s, log, h, hp⟩ := log_of_actions Machine.anyStep twoRooms
    (fun s log => decide (Exclusive "m_r" log) && (s.core.rooms.get "m_r").isSome &&
      (shortened "m_r" s.udpPublicUrl log).any fun r => r.2.length < log.length) (by decide)
  simp only [Bool.and_eq_true, decide_eq_true_iff] at hp
  obtain ⟨⟨hx, hroom⟩, hless⟩ := hp
  obtain ⟨t, log', hshort, -, hsame, -, hobs, -⟩ := room_isolated h hx
  rw [hshort] at hless
  exact ⟨s, log, t, log', h, hshort, of_decide_eq_true hless, hroom, hsame, hobs⟩

end Kotatsu
