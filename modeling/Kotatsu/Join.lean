import Kotatsu.CoreSteps

/-
  One join handler alone, and what an error leaves changed

  A handler that nothing interferes with runs as `soloJoin` from any state:
    1. `solo`: where such a run can be, and what has changed by then;
    2. `join_failure`: what a refused join leaves changed. The ticket is taken
       out before anything else can fail, so `join_failed` has used it up;
    3. `join_succeeds`: from an address without a session, with a valid ticket
       for a room with a free seat, the handler joins;
    4. `drain_free`: the outgoing task, which the handler may have to wait for,
       lets go of the registry after finitely many steps.
-/

namespace Kotatsu

/-- An error leaves the core state as it was. -/
def Atomic {ε ρ : Type} (op : CoreState → CoreState × Except ε ρ) : Prop :=
  ∀ core e, (op core).2 = .error e → (op core).1 = core

theorem issueJoinTicket_atomic (url : String) (req : IssueJoinTicketRequest)
    (uuid token : String) (now : Nat) :
    Atomic fun core => issueJoinTicket core url req uuid token now := by
  intro core e he
  dsimp only [issueJoinTicket] at he ⊢
  cases hr : core.rooms.get req.matchId with
  | none => rfl
  | some room =>
    by_cases hl : roomMaxPlayers ≤ room.players.len
    · simp only [hl, if_true]
    · simp only [hr, hl, if_false] at he
      cases he

theorem startRoom_atomic (m : String) (sh : Shuffles) (now : Nat) :
    Atomic fun core => startRoom core m sh now := by
  intro core e he
  dsimp only [startRoom, startMatchAndSnapshotPlayers] at he ⊢
  cases hr : core.rooms.get m with
  | none => rfl
  | some room =>
    by_cases h0 : room.startedAtUnix = 0
    · simp only [hr, h0, if_true] at he
      cases he
    · simp only [hr, h0, if_false] at he
      cases he

theorem finishRoom_atomic (m p : String) (now : Nat) :
    Atomic fun core => finishRoom core m p now := by
  intro core e he
  dsimp only [finishRoom, finishPlayer] at he ⊢
  cases hr : core.rooms.get m with
  | none => rfl
  | some room =>
    by_cases h0 : room.startedAtUnix = 0
    · simp only [h0, if_true]
    · cases hp : room.players.contains p with
      | false => simp only [h0, hp, if_true, if_false]
      | true =>
        simp only [hr, h0, hp, Bool.true_eq_false, if_false] at he
        cases hi : room.finishedPlayerIds.idxOf? p <;> simp only [hi] at he <;> cases he

theorem deleteRoom_atomic (m : String) : Atomic fun core => deleteRoom core m := by
  intro core e he
  dsimp only [deleteRoom] at he ⊢
  split at he
  · next hc => rw [if_pos hc]
  · cases he

theorem updatePlayerParams_atomic (m p : String) (k : ParamKind) (d : ParamDirection)
    (now now' : Nat) : Atomic fun core => updatePlayerParams core m p k d now now' := by
  intro core e he
  dsimp only [updatePlayerParams] at he ⊢
  cases hr : core.rooms.get m with
  | none => rfl
  | some room =>
    dsimp only
    cases hp : room.players.get p with
    | none => rfl
    | some player =>
      dsimp only
      cases hu : applyParamChange player.params player.nextParamChangeAtUnix k d now with
      | error _ => rfl
      | ok mu =>
        simp only [hr, hp, hu] at he
        cases he

/-! ## A handler alone -/

/-- Every error sent has this code. -/
def Answers (tr : List Event) (code : String) : Prop :=
  ∀ addr c message, Event.sentReliable addr (.error c message) ∈ tr → c = code

def NoError (tr : List Event) : Prop :=
  ∀ addr c message, Event.sentReliable addr (.error c message) ∉ tr

theorem NoError.append {tr evs : List Event} (h : NoError tr) (he : NoError evs) :
    NoError (tr ++ evs) := by
  intro addr c message hm
  rcases List.mem_append.mp hm with hm | hm
  · exact h addr c message hm
  · exact he addr c message hm

/-- What a refused ticket leaves of the tickets: all of them, except one that was
presented after its expiry. -/
def DroppedExpired (s s' : Sys) (token : String) (tr : List Event) : Prop :=
  s'.core.tickets = s.core.tickets ∨
  ∃ t now e, s.core.tickets.get token = some t ∧ t.expiresAtUnix < now ∧
    Event.ticketPresented token now (.error e) ∈ tr ∧
    s'.core.tickets = s.core.tickets.remove token

/-- An unexpired ticket was presented, and is gone. -/
def UsedUp (s s' : Sys) (token : String) (tr : List Event) : Prop :=
  ∃ t now, s.core.tickets.get token = some t ∧ now ≤ t.expiresAtUnix ∧
    Event.ticketPresented token now (.ok (t.matchId, t.playerId, t.displayName)) ∈ tr ∧
    s'.core.tickets = s.core.tickets.remove token

theorem DroppedExpired.append {s s' : Sys} {token : String} {tr evs : List Event}
    (h : DroppedExpired s s' token tr) : DroppedExpired s s' token (tr ++ evs) := by
  rcases h with h | ⟨t, now, e, hk, hx, he, hd⟩
  · exact .inl h
  · exact .inr ⟨t, now, e, hk, hx, List.mem_append_left _ he, hd⟩

theorem UsedUp.append {s s' : Sys} {token : String} {tr evs : List Event}
    (h : UsedUp s s' token tr) : UsedUp s s' token (tr ++ evs) := by
  obtain ⟨t, now, hk, hx, he, hd⟩ := h
  exact ⟨t, now, hk, hx, List.mem_append_left _ he, hd⟩

/-- What a handler that answers with this code has changed of the tickets. -/
def Refusal (s s' : Sys) (token : String) (tr : List Event) (code : String) : Prop :=
  (code = "auth_failed" ∧ DroppedExpired s s' token tr) ∨
  (code = "join_failed" ∧ UsedUp s s' token tr)

theorem Refusal.append {s s' : Sys} {token code : String} {tr evs : List Event}
    (h : Refusal s s' token tr code) : Refusal s s' token (tr ++ evs) code := by
  rcases h with ⟨hc, h⟩ | ⟨hc, h⟩
  · exact .inl ⟨hc, h.append⟩
  · exact .inr ⟨hc, h.append⟩

/-- Where a handler that runs alone from `s` can be, and what it has changed. -/
inductive Solo (s : Sys) (tid : Nat) (addr : SocketAddr) (token : String) :
    Sys → List Event → Prop
  | untouched {s' : Sys} (hcore : s'.core = s.core) (hclients : s'.clients = s.clients)
      (ht : ∀ t, s'.joins.get tid = some t → t = .check addr token ∨ t = .consume addr token) :
      Solo s tid addr token s' []
  | consumed {s' : Sys} {tr : List Event} (hrooms : s'.core.rooms = s.core.rooms)
      (hclients : s'.clients = s.clients) (hk : UsedUp s s' token tr) (ha : NoError tr)
      (ht : ∀ t, s'.joins.get tid = some t → ∃ m p name tx, t = .register addr m p name tx) :
      Solo s tid addr token s' tr
  | refused {s' : Sys} {tr : List Event} {code : String}
      (hrooms : s'.core.rooms = s.core.rooms) (hclients : s'.clients = s.clients)
      (hk : Refusal s s' token tr code) (ha : Answers tr code)
      (ht : ∀ t, s'.joins.get tid = some t → ∃ e rx, t = .sendError addr code e rx) :
      Solo s tid addr token s' tr
  | joined {s' : Sys} {tr : List Event} (ha : NoError tr)
      (ht : ∀ t, s'.joins.get tid = some t → (∃ m p params tx, t = .insert addr m p params tx) ∨
        (∃ m p params, t = .sendOk addr m p params) ∨ t = .rollback addr ∨
        ∃ session, t = .remove session) :
      Solo s tid addr token s' tr

theorem get_insert_only {joins : HashMap Nat JoinTask} {tid : Nat} {t₁ : JoinTask}
    {P : JoinTask → Prop} (h : P t₁) : ∀ t, (joins.insert tid t₁).get tid = some t → P t := by
  intro t ht
  rw [HashMap.get_insert_self] at ht
  cases ht
  exact h

theorem get_remove_none {joins : HashMap Nat JoinTask} {tid : Nat} {P : JoinTask → Prop} :
    ∀ t, (joins.remove tid).get tid = some t → P t := by
  intro t ht
  rw [HashMap.get_remove_self] at ht
  cases ht

/-- One step of a handler that is alone. -/
theorem solo_step {s s' s'' : Sys} {tid : Nat} {addr : SocketAddr} {token : String}
    {tr evs : List Event} (h : Solo s tid addr token s' tr) (hs : JoinStep s' tid s'' evs) :
    Solo s tid addr token s'' (tr ++ evs) := by
  cases h with
  | untouched hcore hclients ht =>
    have hrooms : s'.core.rooms = s.core.rooms := congrArg _ hcore
    cases hs with
    | alreadyJoined _ _ => exact .untouched hcore hclients get_remove_none
    | checked hg _ =>
      rcases ht _ hg with h | h <;> cases h
      exact .untouched hcore hclients (get_insert_only (.inr rfl))
    | unknownToken hg _ =>
      rcases ht _ hg with h | h <;> cases h
      refine .refused hrooms hclients (.inl ⟨rfl, .inl (congrArg _ hcore)⟩) ?_
        (get_insert_only ⟨_, _, rfl⟩)
      simp [Answers]
    | @expired _ _ now t hg hk hx =>
      rcases ht _ hg with h | h <;> cases h
      refine .refused hrooms hclients (.inl ⟨rfl, .inr ?_⟩) ?_ (get_insert_only ⟨_, _, rfl⟩)
      · exact ⟨t, now, _, hcore ▸ hk, hx, List.mem_singleton_self _, by rw [hcore]⟩
      · simp [Answers]
    | @consumed _ _ now t tx hg hk hx _ =>
      rcases ht _ hg with h | h <;> cases h
      refine .consumed hrooms hclients ?_ ?_ (get_insert_only ⟨_, _, _, _, rfl⟩)
      · exact ⟨t, now, hcore ▸ hk, hx, List.mem_singleton_self _, by rw [hcore]⟩
      · simp [NoError]
    | registered hg _ _ | joinRefused hg _ | inserted hg | okSent hg | okFailed hg
    | rollbackNone hg _ | rollbackTake hg _ | removed hg _ | removedNoRoom hg _
    | errorSent hg _ => rcases ht _ hg with h | h <;> cases h
  | consumed hrooms hclients hk ha ht =>
    cases hs with
    | registered hg _ _ =>
      obtain ⟨m, p, name, tx, h⟩ := ht _ hg
      cases h
      exact .joined (ha.append (by simp [NoError])) (get_insert_only (.inl ⟨_, _, _, _, rfl⟩))
    | joinRefused hg _ =>
      obtain ⟨m, p, name, tx, h⟩ := ht _ hg
      cases h
      refine .refused hrooms hclients (.inr ⟨rfl, hk.append⟩) ?_ (get_insert_only ⟨_, _, rfl⟩)
      intro a c message hm
      exact absurd hm (ha.append (by simp [NoError]) a c message)
    | alreadyJoined hg _ | checked hg _ | unknownToken hg _ | expired hg _ _ | consumed hg _ _ _
    | inserted hg | okSent hg | okFailed hg | rollbackNone hg _ | rollbackTake hg _
    | removed hg _ | removedNoRoom hg _ | errorSent hg _ =>
      obtain ⟨m, p, name, tx, h⟩ := ht _ hg
      cases h
  | refused hrooms hclients hk ha ht =>
    -- the one step left is the answer
    cases hs with
    | errorSent hg he =>
      obtain ⟨e, rx, h⟩ := ht _ hg
      cases h
      refine .refused hrooms hclients hk.append ?_ get_remove_none
      intro a c message hm
      rcases List.mem_append.mp hm with hm | hm
      · exact ha a c message hm
      · rcases he with rfl | rfl <;> simp at hm
        exact hm.2.1
    | alreadyJoined hg _ | checked hg _ | unknownToken hg _ | expired hg _ _ | consumed hg _ _ _
    | registered hg _ _ | joinRefused hg _ | inserted hg | okSent hg | okFailed hg
    | rollbackNone hg _ | rollbackTake hg _ | removed hg _ | removedNoRoom hg _ =>
      obtain ⟨e, rx, h⟩ := ht _ hg
      cases h
  | joined ha ht =>
    cases hs with
    | inserted hg =>
      rcases ht _ hg with ⟨_, _, _, _, h⟩ | ⟨_, _, _, h⟩ | h | ⟨_, h⟩ <;> cases h
      exact .joined (ha.append (by simp [NoError])) (get_insert_only (.inr (.inl ⟨_, _, _, rfl⟩)))
    | okFailed hg =>
      rcases ht _ hg with ⟨_, _, _, _, h⟩ | ⟨_, _, _, h⟩ | h | ⟨_, h⟩ <;> cases h
      exact .joined (ha.append (by simp [NoError])) (get_insert_only (.inr (.inr (.inl rfl))))
    | rollbackTake _ _ =>
      exact .joined (ha.append (by simp [NoError]))
        (get_insert_only (.inr (.inr (.inr ⟨_, rfl⟩))))
    | okSent _ | rollbackNone _ _ | removed _ _ | removedNoRoom _ _ =>
      exact .joined (ha.append (by simp [NoError])) get_remove_none
    | alreadyJoined hg _ | checked hg _ | unknownToken hg _ | expired hg _ _ | consumed hg _ _ _
    | registered hg _ _ | joinRefused hg _ | errorSent hg _ =>
      rcases ht _ hg with ⟨_, _, _, _, h⟩ | ⟨_, _, _, h⟩ | h | ⟨_, h⟩ <;> cases h

theorem solo_run {s s₁ s' : Sys} {tid : Nat} {addr : SocketAddr} {token : String}
    {chs : List Choice} {tr us : List Event} (h : Solo s tid addr token s₁ tr)
    (hr : server.Run Machine.anyStep s₁ (chs.map (.join tid)) us s') :
    Solo s tid addr token s' (tr ++ us) := by
  induction chs generalizing s₁ tr us with
  | nil =>
    obtain ⟨rfl, rfl⟩ := Machine.run_nil hr
    rwa [List.append_nil]
  | cons ch chs ih =>
    obtain ⟨s₂, evs, vs, -, hs, hrest, rfl⟩ := Machine.run_cons.mp hr
    rw [← List.append_assoc]
    exact ih (solo_step h (stepJoin_spec hs)) hrest

/-- A handler that runs alone, at any point of its run. -/
theorem solo {s s' : Sys} {tid : Nat} {addr : SocketAddr} {token : String} {chs : List Choice}
    {tr : List Event} (h : server.Run Machine.anyStep s (soloJoin tid addr token chs) tr s') :
    Solo s tid addr token s' tr := by
  obtain ⟨s₁, evs, us, -, hs, hr, rfl⟩ := Machine.run_cons.mp h
  refine solo_run ?_ hr
  simp only [server, step, stepRecv] at hs
  split at hs
  · cases hs
  · cases hs
    exact .untouched rfl rfl (get_insert_only (.inl rfl))

/-- What a refused join leaves changed, and what a refused request does. A
handler that answers `auth_failed` has changed nothing but for an expired ticket;
one that answers `join_failed` has used up the ticket; the requests and the
parameter change are atomic. -/
theorem join_failure :
    (∀ s s' tid addr token chs tr,
      server.Run Machine.anyStep s (soloJoin tid addr token chs) tr s' →
      (∀ a message, Event.sentReliable a (.error "auth_failed" message) ∈ tr →
        s'.core.rooms = s.core.rooms ∧ s'.clients = s.clients ∧ DroppedExpired s s' token tr) ∧
      (∀ a message, Event.sentReliable a (.error "join_failed" message) ∈ tr →
        s'.core.rooms = s.core.rooms ∧ s'.clients = s.clients ∧ UsedUp s s' token tr)) ∧
    (∀ url req uuid token now, Atomic fun core => issueJoinTicket core url req uuid token now) ∧
    (∀ m sh now, Atomic fun core => startRoom core m sh now) ∧
    (∀ m p now, Atomic fun core => finishRoom core m p now) ∧
    (∀ m, Atomic fun core => deleteRoom core m) ∧
    ∀ m p k d now now', Atomic fun core => updatePlayerParams core m p k d now now' := by
  refine ⟨?_, issueJoinTicket_atomic, startRoom_atomic, finishRoom_atomic, deleteRoom_atomic,
    updatePlayerParams_atomic⟩
  intro s s' tid addr token chs tr h
  cases solo h with
  | untouched _ _ _ => simp
  | consumed _ _ _ ha _ =>
    exact ⟨fun a message hm => absurd hm (ha a _ message),
      fun a message hm => absurd hm (ha a _ message)⟩
  | refused hrooms hclients hk ha _ =>
    refine ⟨?_, ?_⟩
    · intro a message hm
      have hc := ha a _ message hm
      subst hc
      exact ⟨hrooms, hclients, by simpa [Refusal] using hk⟩
    · intro a message hm
      have hc := ha a _ message hm
      subst hc
      exact ⟨hrooms, hclients, by simpa [Refusal] using hk⟩
  | joined ha _ =>
    exact ⟨fun a message hm => absurd hm (ha a _ message),
      fun a message hm => absurd hm (ha a _ message)⟩

/-- Five tickets for the four seats of a room, the first four joined. -/
def overbooked : List Action :=
  [.createRoom "r" 1] ++
  ["1", "2", "3", "4", "5"].map (fun u => .issueJoinTicket ⟨"m_r", "x"⟩ u ("t" ++ u) 1) ++
  [1, 2, 3, 4].flatMap fun i =>
    soloJoin i ⟨1, i⟩ ("t" ++ toString i) [{}, { fresh := i }, {}, {}, {}]

set_option maxRecDepth 4000 in
theorem overbooked_run : ∃ s tr s' us, server.Reach Machine.anyStep s tr ∧
    server.Run Machine.anyStep s (soloJoin 5 ⟨1, 5⟩ "t5" [{}, {}, {}, {}]) us s' ∧
    (∃ a message, Event.sentReliable a (.error "join_failed" message) ∈ us) ∧
    (∃ t, s.core.tickets.get "t5" = some t) ∧ s'.core.tickets.get "t5" = none ∧
    ∀ now e, Event.ticketPresented "t5" now (.error e) ∉ us := by
  have h : ((server.exec Machine.anyStep (Sys.init "") overbooked).any fun r =>
      (server.exec Machine.anyStep r.1 (soloJoin 5 ⟨1, 5⟩ "t5" [{}, {}, {}, {}])).any fun q =>
        (q.2.any fun | .sentReliable _ (.error "join_failed" _) => true | _ => false) &&
        r.1.core.tickets.contains "t5" && !q.1.core.tickets.contains "t5" &&
        q.2.all fun | .ticketPresented _ _ (.error _) => false | _ => true) = true := by
    decide
  obtain ⟨⟨s, tr⟩, hr, h⟩ := (Option.any_eq_true _ _).mp h
  obtain ⟨⟨s', us⟩, hq, h⟩ := (Option.any_eq_true _ _).mp h
  simp only [Bool.and_eq_true] at h
  obtain ⟨⟨⟨hans, hin⟩, hout⟩, hpres⟩ := h
  refine ⟨s, tr, s', us, ⟨_, _, ⟨"", rfl⟩, Machine.run_of_exec hr⟩, Machine.run_of_exec hq, ?_,
    HashMap.contains_iff.mp hin, HashMap.contains_eq_false.mp (by simpa using hout), ?_⟩
  · obtain ⟨e, he, hm⟩ := List.any_eq_true.mp hans
    split at hm
    · exact ⟨_, _, he⟩
    · cases hm
  · intro now e he
    have := List.all_eq_true.mp hpres _ he
    cases this

/-- The fifth join of an overbooked room. -/
theorem join_failure_overbooked : ∃ s s' us,
    server.Run Machine.anyStep s (soloJoin 5 ⟨1, 5⟩ "t5" [{}, {}, {}, {}]) us s' ∧
    s'.core.rooms = s.core.rooms ∧ s'.clients = s.clients ∧ UsedUp s s' "t5" us := by
  obtain ⟨s, tr, s', us, -, hr, ⟨a, message, hm⟩, -⟩ := overbooked_run
  exact ⟨s, s', us, hr, (join_failure.1 s s' _ _ _ _ us hr).2 a message hm⟩

/-- A refused join is not atomic: `match_full` uses up an unexpired ticket. -/
theorem join_not_atomic : ¬ ∀ s s' tid addr token chs tr,
    server.Run Machine.anyStep s (soloJoin tid addr token chs) tr s' →
    ∀ a code message, code = "auth_failed" ∨ code = "join_failed" →
      Event.sentReliable a (.error code message) ∈ tr →
      s'.core.rooms = s.core.rooms ∧ s'.clients = s.clients ∧ DroppedExpired s s' token tr := by
  intro hall
  obtain ⟨s, tr, s', us, -, hr, ⟨a, message, hm⟩, ⟨t, hin⟩, hout, hpres⟩ := overbooked_run
  obtain ⟨-, -, hd⟩ := hall s s' _ _ _ _ us hr a _ message (.inr rfl) hm
  rcases hd with hd | ⟨-, now, e, -, -, he, -⟩
  · rw [hd, hin] at hout
    cases hout
  · exact hpres now e he

/-! ## A join that succeeds -/

/-- From an address without a session, with a valid ticket for a room with a free
seat, the handler seats the player, registers the session and answers `JoinOk`. -/
theorem join_succeeds {s : Sys} (tid : Nat) {addr : SocketAddr} {token : String} {t : Ticket}
    {room : MatchRoom} {now : Nat} (tx : ChanId) (hfree : s.joins.get tid = none)
    (hdrain : s.drain = none) (hclient : s.clients.get addr = none)
    (hk : s.core.tickets.get token = some t) (hx : now ≤ t.expiresAtUnix)
    (hr : s.core.rooms.get t.matchId = some room) (hl : room.players.len < roomMaxPlayers)
    (hf : s.chans.get tx = none) :
    ∃ tr s', server.Run Machine.anyStep s
        (soloJoin tid addr token [{}, { nowUnix := now, fresh := tx }, {}, {}, {}]) tr s' ∧
      s'.clients.get addr = some
        { matchId := t.matchId, playerId := t.playerId, addr := addr, tx := tx, rx := tx } ∧
      ∃ params nowMs, Event.sentReliable addr (.joinOk t.matchId t.playerId params nowMs) ∈ tr := by
  have hnot : ¬ room.FullFor t.playerId := fun h => absurd h.1 (Nat.not_le.mpr hl)
  have hexec : ∃ r, server.exec Machine.anyStep s
        (soloJoin tid addr token [{}, { nowUnix := now, fresh := tx }, {}, {}, {}]) = some r ∧
      r.1.clients.get addr = some
        { matchId := t.matchId, playerId := t.playerId, addr := addr, tx := tx, rx := tx } ∧
      ∃ params nowMs,
        Event.sentReliable addr (.joinOk t.matchId t.playerId params nowMs) ∈ r.2 := by
    simp [soloJoin, Machine.exec, server, step, stepRecv, stepJoin, Machine.anyStep,
      HashMap.contains, hfree, hdrain, hclient, consumeTicket, hk, Nat.not_lt.mpr hx,
      registerPlayerUdp, hr, hnot, hf]
  obtain ⟨⟨s', tr⟩, he, hc, hev⟩ := hexec
  exact ⟨tr, s', Machine.run_of_exec he, hc, hev⟩

/-! ## The outgoing task lets go of the registry -/

/-- Steps of the outgoing task alone, to a state that differs in its pass and in
the queues only. -/
def DrainsTo (s s' : Sys) : Prop :=
  (∃ n tr, server.Run Machine.anyStep s (List.replicate n (.drainStep true)) tr s') ∧
  s'.core = s.core ∧ s'.clients = s.clients ∧ s'.joins = s.joins

theorem DrainsTo.refl (s : Sys) : DrainsTo s s := ⟨⟨0, [], .nil⟩, rfl, rfl, rfl⟩

theorem DrainsTo.trans {s₁ s₂ s₃ : Sys} (h : DrainsTo s₁ s₂) (h' : DrainsTo s₂ s₃) :
    DrainsTo s₁ s₃ := by
  obtain ⟨⟨n, tr, hr⟩, hcore, hclients, hjoins⟩ := h
  obtain ⟨⟨n', tr', hr'⟩, hcore', hclients', hjoins'⟩ := h'
  refine ⟨⟨n + n', tr ++ tr', ?_⟩, hcore'.trans hcore, hclients'.trans hclients,
    hjoins'.trans hjoins⟩
  rw [← List.replicate_append_replicate]
  exact hr.trans hr'

theorem DrainsTo.step {s s' : Sys} (evs : List Event) (h : drainStep s true = some (s', evs))
    (hcore : s'.core = s.core) (hclients : s'.clients = s.clients) (hjoins : s'.joins = s.joins) :
    DrainsTo s s' :=
  ⟨⟨1, evs, Machine.Run.nil.snoc trivial h⟩, hcore, hclients, hjoins⟩

/-- The pass empties the queue of the session at the head and moves on. -/
theorem drain_head {s : Sys} {addr : SocketAddr} {rest : List SocketAddr} {session : ClientSession}
    {queue : List ServerReliable} {alive : Bool} (hd : s.drain = some (.take (addr :: rest)))
    (hc : s.clients.get addr = some session)
    (hq : s.chans.get session.rx = some { queue := queue, alive := alive }) :
    ∃ s', DrainsTo s s' ∧ s'.drain = some (.take rest) := by
  induction queue generalizing s with
  | nil =>
    refine ⟨{ s with drain := some (.take rest) }, .step [] ?_ rfl rfl rfl, rfl⟩
    simp [drainStep, hd, hc, hq]
  | cons msg queue ih =>
    -- one step takes the message, the next sends it
    have htake : drainStep s true = some
        ({ s with
            chans := s.chans.insert session.rx { queue := queue, alive := alive }
            drain := some (.send session msg (addr :: rest)) }, []) := by
      simp [drainStep, hd, hc, hq]
    have hsend : drainStep { s with
          chans := s.chans.insert session.rx { queue := queue, alive := alive }
          drain := some (.send session msg (addr :: rest)) } true = some
        ({ s with
            chans := s.chans.insert session.rx { queue := queue, alive := alive }
            drain := some (.take (addr :: rest)) }, [.sentReliable session.addr msg]) := rfl
    obtain ⟨s', hto, hd'⟩ := ih (s := { s with
      chans := s.chans.insert session.rx { queue := queue, alive := alive }
      drain := some (.take (addr :: rest)) }) rfl hc (HashMap.get_insert_self _ _ _)
    have hmsg := (DrainsTo.step _ htake rfl rfl rfl).trans (.step _ hsend rfl rfl rfl)
    exact ⟨s', hmsg.trans hto, hd'⟩

/-- The pass ends. -/
theorem drain_ends {s : Sys} {order : List SocketAddr} (hd : s.drain = some (.take order)) :
    ∃ s', DrainsTo s s' ∧ s'.drain = none := by
  induction order generalizing s with
  | nil =>
    refine ⟨{ s with drain := none }, .step [] ?_ rfl rfl rfl, rfl⟩
    simp [drainStep, hd]
  | cons addr rest ih =>
    have hhead : ∃ s₁, DrainsTo s s₁ ∧ s₁.drain = some (.take rest) := by
      cases hc : s.clients.get addr with
      | none =>
        refine ⟨{ s with drain := some (.take rest) }, .step [] ?_ rfl rfl rfl, rfl⟩
        simp [drainStep, hd, hc]
      | some session =>
        cases hq : s.chans.get session.rx with
        | none =>
          refine ⟨{ s with drain := some (.take rest) }, .step [] ?_ rfl rfl rfl, rfl⟩
          simp [drainStep, hd, hc, hq]
        | some chan => exact drain_head hd hc hq
    obtain ⟨s₁, hto, hd₁⟩ := hhead
    obtain ⟨s', hto', hd'⟩ := ih hd₁
    exact ⟨s', hto.trans hto', hd'⟩

/-- From any state the outgoing task can let go of the registry. -/
theorem drain_free (s : Sys) : ∃ s', DrainsTo s s' ∧ s'.drain = none := by
  cases hd : s.drain with
  | none => exact ⟨s, .refl s, hd⟩
  | some task =>
    cases task with
    | take order => exact drain_ends hd
    | send session msg order =>
      have hsend : drainStep s true =
          some ({ s with drain := some (.take order) }, [.sentReliable session.addr msg]) := by
        simp [drainStep, hd]
      obtain ⟨s', hto, hd'⟩ := drain_ends (s := { s with drain := some (.take order) }) rfl
      exact ⟨s', (DrainsTo.step _ hsend rfl rfl rfl).trans hto, hd'⟩

end Kotatsu
