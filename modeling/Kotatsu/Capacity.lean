import Kotatsu.Provenance
import Kotatsu.ParamHistory
import Kotatsu.Join

/-
  Seats are limited, and given once (`register_player_udp`)

  However many tickets are outstanding, no room has more players than it has seats,
  an issued player id is registered at most once, in the room of its ticket, and a
  registration in an existing room is refused only when all seats are taken by others
  (`seats_limited`).
-/

namespace Kotatsu

/-! ## Registered at most once -/

/-- The event registers `p`, in any room. -/
def Event.registers (p : String) : Event → Bool
  | .registered _ p' _ _ => p' == p
  | _ => false

theorem registers_iff {p : String} {e : Event} :
    e.registers p = true ↔ ∃ m a tx, e = .registered m p a tx := by
  cases e with
  | registered m q a tx =>
    rw [Event.registers, beq_iff_eq]
    constructor
    · intro hq
      exact ⟨m, a, tx, by rw [hq]⟩
    · intro hex
      obtain ⟨_, _, _, heq⟩ := hex
      exact (Event.registered.inj heq).2.1
  | _ => simp [Event.registers]

theorem registrations_none {tr : List Event} {p : String}
    (h : ∀ m a tx, Event.registered m p a tx ∉ tr) : tr.countP (·.registers p) = 0 := by
  refine List.countP_eq_zero.mpr fun e he hp => ?_
  obtain ⟨m, a, tx, rfl⟩ := registers_iff.mp hp
  exact h m a tx he

/-- A player id is registered at most once. -/
theorem registrations_le_one {G : Sys → Action → Prop} {s : Sys} {tr : List Event}
    (h : server.Reach G s tr) (p : String) : tr.countP (·.registers p) ≤ 1 := by
  refine Machine.Reach.induct (P := fun _ tr => tr.countP (·.registers p) ≤ 1) ?_ ?_ h
  · intro s _
    exact Nat.zero_le 1
  · intro s tr a s' evs hreach ih _ hs
    have hstep : Step s a s' evs := step_spec hs
    rw [List.countP_append]
    by_cases hnew : ∃ m b tx, Event.registered m p b tx ∈ evs
    · obtain ⟨m, b, tx, he⟩ := hnew
      have hbefore : tr.countP (·.registers p) = 0 :=
        registrations_none (unregistered_before (registry hreach) hstep he)
      rw [hbefore, (registered_step hstep he).1]
      simp [Event.registers]
    · have hquiet : evs.countP (·.registers p) = 0 :=
        registrations_none fun m b tx he => hnew ⟨m, b, tx, he⟩
      omega

/-! ## Seats and their tickets -/

/-- A registered player has a ticket, and no ticket of another room. -/
theorem registered_issued {G : Sys → Action → Prop} {s : Sys} {tr : List Event}
    (h : server.Reach G s tr) {m p : String} {a : SocketAddr} {tx : ChanId}
    (ho : Event.registered m p a tx ∈ tr) :
    (∃ token, Issued tr m p token) ∧ ∀ m' token, Issued tr m' p token → m' = m := by
  obtain ⟨log, hlog, rfl⟩ := h.recorded
  obtain ⟨token, -, hi, -⟩ := (provenance hlog).registered ho
  refine ⟨⟨token, hi⟩, ?_⟩
  intro m' token' hi'
  exact ((issued_once h).once hi' hi).1

/-- A seat that was not there is that of a registration, the first of its player. -/
theorem new_seat {G : Sys → Action → Prop} {s s' : Sys} {tr evs : List Event} {a : Action}
    (h : server.Reach G s tr) (hstep : Step s a s' evs) {m p : String} {seat : PlayerHandle}
    (hnone : s.core.seat m p = none) (hs' : s'.core.seat m p = some seat) :
    (∃ b tx, Event.registered m p b tx ∈ evs) ∧
      ∀ m' b tx, Event.registered m' p b tx ∉ tr := by
  have hl : s'.core.link m p = some seat.link := link_eq_some.mpr ⟨seat, hs', rfl⟩
  rcases link_from (link_step (rooms_seen h) (step_core hstep)) hl with hold | ⟨b, tx, -, he⟩
  · obtain ⟨seat₀, hs, -⟩ := link_eq_some.mp hold
    rw [hnone] at hs
    cases hs
  · exact ⟨⟨b, tx, he⟩, unregistered_before (registry h) hstep he⟩

/-! ## Refusals -/

/-- The task that is about to register carries what `consume_ticket` returned. -/
theorem registering_presented {G : Sys → Action → Prop} {s : Sys} {tr : List Event}
    (h : server.Reach G s tr) : ∀ tid a m p name tx,
      s.joins.get tid = some (.register a m p name tx) →
      ∃ token now, Event.ticketPresented token now (.ok (m, p, name)) ∈ tr := by
  refine Machine.Reach.induct (P := fun s tr => ∀ tid a m p name tx,
    s.joins.get tid = some (.register a m p name tx) →
      ∃ token now, Event.ticketPresented token now (.ok (m, p, name)) ∈ tr) ?_ ?_ h
  · intro s hinit tid a m p name tx ht
    obtain ⟨url, rfl⟩ := hinit
    cases ht
  · intro s tr a s' evs _ ih _ hs tid addr m p name tx ht'
    rcases registering_from (step_spec hs) ht' with ht | ⟨_, token, now, _, -, -, -, -, -, he⟩
    · obtain ⟨token, now, ho⟩ := ih tid addr m p name tx ht
      exact ⟨token, now, List.mem_append_left _ ho⟩
    · exact ⟨token, now, List.mem_append_right _ he⟩

/-- A registration in an existing room is refused when the room is full for the player. -/
theorem refused_full {s s' : Sys} {tid : Nat} {evs : List Event} {a : SocketAddr}
    {m p name code message : String} {room : MatchRoom} {tx : ChanId} {rx : Option ChanId}
    (h : JoinStep s tid s' evs) (ht : s.joins.get tid = some (.register a m p name tx))
    (hr : s.core.rooms.get m = some room)
    (ht' : s'.joins.get tid = some (.sendError a code message rx)) : room.FullFor p := by
  cases h with
  | registered _ _ _ =>
    rcases HashMap.get_insert_cases ht' with ⟨-, hnew⟩ | ⟨hne, -⟩
    · cases hnew
    · exact absurd rfl hne
  | joinRefused ht₀ he =>
    rw [ht] at ht₀
    cases ht₀
    rcases he with ⟨hnone, -⟩ | ⟨room₀, hr₀, hfull, -⟩
    · rw [hr] at hnone
      cases hnone
    · rw [hr] at hr₀
      exact Option.some.inj hr₀ ▸ hfull
  | alreadyJoined ht₀ _ | checked ht₀ _ | unknownToken ht₀ _ | expired ht₀ _ _
  | consumed ht₀ _ _ _ | inserted ht₀ | okSent ht₀ | okFailed ht₀ | rollbackNone ht₀ _
  | rollbackTake ht₀ _ | removed ht₀ _ | removedNoRoom ht₀ _ | errorSent ht₀ _ =>
    rw [ht] at ht₀
    cases ht₀

/-! ## The whole history -/

/-- Over any run, no room has more players than seats; a player id is registered at
most once; a seated player has a ticket, which is of this room; a seat appears by a
registration alone, of a player that was registered nowhere before; and a join that has
used a ticket up is refused by an existing room only while all of its seats are taken by
other players. -/
theorem seats_limited {s : Sys} {tr : List Event} (h : server.Reach Machine.anyStep s tr) :
    (∀ m room, s.core.rooms.get m = some room → room.players.len ≤ roomMaxPlayers) ∧
    (∀ p, tr.countP (·.registers p) ≤ 1) ∧
    (∀ m p seat, s.core.seat m p = some seat →
      (∃ token, Issued tr m p token) ∧ ∀ m' token, Issued tr m' p token → m' = m) ∧
    (∀ a s' evs m p seat, server.step s a = some (s', evs) → s.core.seat m p = none →
      s'.core.seat m p = some seat → (∃ b tx, Event.registered m p b tx ∈ evs) ∧
        ∀ m' b tx, Event.registered m' p b tx ∉ tr) ∧
    ∀ tid ch s' evs a m p name tx code message rx room,
      s.joins.get tid = some (.register a m p name tx) →
      server.step s (.join tid ch) = some (s', evs) →
      s'.joins.get tid = some (.sendError a code message rx) → s.core.rooms.get m = some room →
      (∃ token now, Event.ticketPresented token now (.ok (m, p, name)) ∈ tr) ∧
        room.players.len = roomMaxPlayers ∧ room.players.get p = none := by
  have hcap := capacity h
  refine ⟨hcap, registrations_le_one h, ?_, ?_, ?_⟩
  · intro m p seat hs
    obtain ⟨b, ho, -⟩ := seat_registered (registrants h) hs
    exact registered_issued h ho
  · intro a s' evs m p seat hs hnone hs'
    exact new_seat h (step_spec hs) hnone hs'
  · intro tid ch s' evs a m p name tx code message rx room ht hs ht' hr
    obtain ⟨hlen, hnone⟩ := refused_full (stepJoin_spec hs) ht hr ht'
    exact ⟨registering_presented h tid a m p name tx ht, le_antisymm (hcap m room hr) hlen,
      HashMap.contains_eq_false.mp hnone⟩

/-- A full room, with the fifth join about to register. -/
def overbookedJoin : List Action :=
  overbooked ++ [.recv 5 ⟨1, 5⟩ (.reliable (.join "t5")), .join 5 {}, .join 5 { fresh := 5 }]

/-- The task is about to register a player from `a` in `m`. -/
def registersNext (s : Sys) (tid : Nat) (a : SocketAddr) (m : String) : Bool :=
  match s.joins.get tid with
  | some (.register a' m' _ _ _) => a' == a && m' == m
  | _ => false

/-- The task is about to answer `a` with an error. -/
def refusesNext (s : Sys) (tid : Nat) (a : SocketAddr) : Bool :=
  match s.joins.get tid with
  | some (.sendError a' _ _ _) => a' == a
  | _ => false

theorem registersNext_task {s : Sys} {tid : Nat} {a : SocketAddr} {m : String}
    (h : registersNext s tid a m = true) :
    ∃ p name tx, s.joins.get tid = some (.register a m p name tx) := by
  unfold registersNext at h
  split at h
  · next a' m' p name tx ht =>
    obtain ⟨ha, hm⟩ := (Bool.and_eq_true _ _).mp h
    obtain rfl := beq_iff_eq.mp ha
    obtain rfl := beq_iff_eq.mp hm
    exact ⟨p, name, tx, ht⟩
  · cases h

theorem refusesNext_task {s : Sys} {tid : Nat} {a : SocketAddr}
    (h : refusesNext s tid a = true) :
    ∃ code message rx, s.joins.get tid = some (.sendError a code message rx) := by
  unfold refusesNext at h
  split at h
  · next a' code message rx ht =>
    obtain rfl := beq_iff_eq.mp h
    exact ⟨code, message, rx, ht⟩
  · cases h

set_option maxRecDepth 4000 in
theorem seats_limited_full : ∃ s tr s' evs a p name tx code message rx room,
    server.Reach Machine.anyStep s tr ∧ s.joins.get 5 = some (.register a "m_r" p name tx) ∧
    server.step s (.join 5 {}) = some (s', evs) ∧
    s'.joins.get 5 = some (.sendError a code message rx) ∧
    s.core.rooms.get "m_r" = some room ∧ room.players.len = roomMaxPlayers ∧
    room.players.get p = none := by
  obtain ⟨s, tr, h, hp⟩ := reach_of_actions Machine.anyStep overbookedJoin
    (fun s _ => (s.core.rooms.get "m_r").isSome && registersNext s 5 ⟨1, 5⟩ "m_r" &&
      (server.step s (.join 5 {})).any fun r => refusesNext r.1 5 ⟨1, 5⟩) (by decide)
  obtain ⟨hp, hstep⟩ := (Bool.and_eq_true _ _).mp hp
  obtain ⟨hroom, htask⟩ := (Bool.and_eq_true _ _).mp hp
  obtain ⟨room, hr⟩ := Option.isSome_iff_exists.mp hroom
  obtain ⟨⟨s', evs⟩, hs, hrefused⟩ := (Option.any_eq_true _ _).mp hstep
  obtain ⟨p, name, tx, ht⟩ := registersNext_task htask
  obtain ⟨code, message, rx, ht'⟩ := refusesNext_task hrefused
  obtain ⟨-, hlen, hnone⟩ := (seats_limited h).2.2.2.2 5 _ s' evs ⟨1, 5⟩ "m_r" p name tx code
    message rx room ht hs ht' hr
  exact ⟨s, tr, s', evs, ⟨1, 5⟩, p, name, tx, code, message, rx, room, h, ht, hs, ht', hr, hlen,
    hnone⟩

end Kotatsu
