import Kotatsu.Provenance
import Kotatsu.Sections

/-
  What the clock leaves in a room

  The cleanup compares the clock with `last_activity_unix`, which creations, tickets,
  registrations, parameter changes and removals of players write (`activity`), and so do
  starts and finishes. `moment_rooms` says what one moment of a run does to the rooms,
  with the reading that it leaves there.

  Over a run with a clock that does not go back, an unstarted room keeps the time of its
  last activity, and a started room is one for which a start has read a time other than
  0 (`room_times`). The source takes a `started_at_unix` of 0 for a room that has not
  started, so a start that reads 0 starts no room.
-/

namespace Kotatsu

/-! ## Readings of the clock -/

/-- The room for which a moment counts as activity, and the time that it leaves there. -/
def activity (x : Moment Sys Action Event) : Option (String × Nat) :=
  match x.action, x.events with
  | .createRoom _ now, [.roomCreated resp _] => some (resp.matchId, now)
  | .issueJoinTicket _ _ _ now, [.ticketIssued req _ _] => some (req.matchId, now)
  | .join _ ch, [.registered m _ _ _] => some (m, ch.nowUnix)
  | .join _ ch, [.seatRemoved m _] => some (m, ch.nowUnix)
  | .param _ ch, [.paramUpdated m _ _ _ _ _] => some (m, ch.nowUnix')
  | _, _ => none

/-- The readings of the clock that a moment leaves in an unstarted room, or that a cleanup
goes by, in their order. -/
def readings (x : Moment Sys Action Event) : List Nat :=
  match x.action, x.events with
  | .createRoom _ now, _ => [now]
  | .issueJoinTicket _ _ _ now, [.ticketIssued ..] => [now]
  | .startRoom _ _ ch, [.roomStarted _ _ true _] => [ch.nowUnix]
  | .cleanupTick _ _ now, _ => [now]
  | .join _ ch, [.registered ..] => [ch.nowUnix]
  | .join _ ch, [.seatRemoved ..] => [ch.nowUnix]
  | .param _ ch, [.paramUpdated ..] => [ch.nowUnix, ch.nowUnix']
  | _, _ => []

/-- The clock does not go back. -/
def Clocked (log : Log) : Prop := (log.flatMap readings).Pairwise (· ≤ ·)

instance (log : Log) : Decidable (Clocked log) :=
  inferInstanceAs (Decidable (List.Pairwise _ _))

theorem Clocked.before {log : Log} {x : Moment Sys Action Event} (h : Clocked (log ++ [x])) :
    Clocked log := by
  unfold Clocked at h
  rw [List.flatMap_append, List.pairwise_append] at h
  exact h.1

/-- What the last moment reads is no earlier than what any moment before it has read. -/
theorem Clocked.last {log : Log} {x y : Moment Sys Action Event} (h : Clocked (log ++ [x]))
    (hy : y ∈ log) {t t' : Nat} (ht : t ∈ readings y) (ht' : t' ∈ readings x) : t ≤ t' := by
  unfold Clocked at h
  rw [List.flatMap_append, List.pairwise_append] at h
  refine h.2.2 t (List.mem_flatMap.mpr ⟨y, hy, ht⟩) t' ?_
  simpa using ht'

theorem activity_reading {x : Moment Sys Action Event} {m : String} {t : Nat}
    (h : activity x = some (m, t)) : t ∈ readings x := by
  unfold activity at h
  split at h <;> cases h <;> simp [readings, *]

/-! ## What a moment does to the rooms -/

/-- The rooms after a moment: it leaves them or removes some, it is activity for one, it
starts one, or it records a finish in a started one. -/
inductive RoomsMoment (x : Moment Sys Action Event) : Prop
  | quiet (ha : activity x = none) (hst : ∀ m t ps, Event.roomStarted m t true ps ∉ x.events)
      (hr : ∀ m room, x.after.core.rooms.get m = some room → x.before.core.rooms.get m = some room)
  | active (m : String) (room' : MatchRoom) (ha : activity x = some (m, room'.lastActivityUnix))
      (hst : ∀ m t ps, Event.roomStarted m t true ps ∉ x.events)
      (hr : x.after.core.rooms = x.before.core.rooms.insert m room')
      (hfrom : (m ∉ x.before.seen ∧ room'.startedAtUnix = 0) ∨
        ∃ room, x.before.core.rooms.get m = some room ∧ room'.startedAtUnix = room.startedAtUnix)
  | started (m : String) (room : MatchRoom) (sh : Shuffles) (t : Nat)
      (ps : List PlayerMatchState) (ha : activity x = none) (hc : t ∈ readings x)
      (hb : x.before.core.rooms.get m = some room) (h0 : room.startedAtUnix = 0)
      (he : x.events = [.roomStarted m t true ps])
      (hr : x.after.core.rooms = x.before.core.rooms.insert m (room.start sh t))
  | finished (m p : String) (room : MatchRoom) (now : Nat) (ha : activity x = none)
      (hst : ∀ m t ps, Event.roomStarted m t true ps ∉ x.events)
      (hb : x.before.core.rooms.get m = some room) (h0 : room.startedAtUnix ≠ 0)
      (hr : x.after.core.rooms = x.before.core.rooms.insert m (room.finish p now))

theorem control_rooms {s s' : Sys} {a : Action} {evs : List Event} (h : ControlStep s a s' evs) :
    RoomsMoment ⟨s, a, evs, s'⟩ := by
  cases h with
  | @created uuid now hf =>
    exact .active _ (MatchRoom.new now) rfl (by simp) rfl (.inl ⟨hf, rfl⟩)
  | issued hp ht hne hr hl => exact .active _ _ rfl (by simp) rfl (.inr ⟨_, hr, rfl⟩)
  | started hf hr h0 => exact .started _ _ _ _ _ rfl (by simp [readings]) hr h0 rfl rfl
  | finishedFirst hr h0 hp hn => exact .finished _ _ _ _ rfl (by simp) hr h0 rfl
  | deleted hr =>
    refine .quiet rfl (by simp) ?_
    intro m room hr'
    exact (HashMap.get_remove_eq_some.mp hr').2
  | cleaned ht =>
    refine .quiet rfl (by simp) ?_
    intro m room hr'
    exact (deleteStale_rooms.mp hr').1
  | @refused a call status =>
    refine .quiet ?_ (by simp) fun _ _ hr => hr
    cases a <;> rfl
  | startedAgain _ _ | finishedAgain _ _ _ _ | listed | got _ | ticked _ | ignored
  | joinReceived _ | paramReceived _ | datagramReceived _ =>
    exact .quiet rfl (by simp) fun _ _ hr => hr

theorem join_rooms {s s' : Sys} {tid : Nat} {ch : Choice} {evs : List Event}
    (hs : server.step s (.join tid ch) = some (s', evs)) :
    RoomsMoment ⟨s, .join tid ch, evs, s'⟩ := by
  obtain ⟨t, ht⟩ := task_present hs
  cases t with
  | check addr token =>
    obtain ⟨rfl, ⟨-, rfl⟩ | ⟨-, rfl⟩⟩ := check_section hs ht <;>
      exact .quiet rfl (by simp) fun _ _ hr => hr
  | consume addr token =>
    obtain ⟨⟨result, rfl⟩, -, hrooms, -⟩ := consume_section hs ht
    exact .quiet rfl (by simp) fun m room hr => hrooms ▸ hr
  | register addr m p name tx =>
    obtain ⟨-, -, ⟨room, params, hr, hcore, rfl, -⟩ | ⟨e, rfl, hcore, -⟩⟩ :=
      register_section hs ht
    · exact .active m (room.register p name addr tx ch.nowUnix) rfl (by simp)
        (by rw [hcore]; rfl) (.inr ⟨room, hr, rfl⟩)
    · exact .quiet rfl (by simp) fun m room hr => hcore ▸ hr
  | insert addr m p params tx =>
    obtain ⟨rfl, hcore, -⟩ := insert_section hs ht
    exact .quiet rfl (by simp) fun m room hr => hcore ▸ hr
  | sendOk addr m p params =>
    obtain ⟨hcore, -, hsent⟩ := sendOk_section hs ht
    split at hsent
    · obtain ⟨rfl, -⟩ := hsent
      exact .quiet rfl (by simp) fun m room hr => hcore ▸ hr
    · obtain ⟨rfl, -⟩ := hsent
      exact .quiet rfl (by simp) fun m room hr => hcore ▸ hr
  | rollback addr =>
    obtain ⟨rfl, hcore, -⟩ := rollback_section hs ht
    exact .quiet rfl (by simp) fun m room hr => hcore ▸ hr
  | remove c =>
    obtain ⟨-, hcore, -, hevs⟩ := remove_section hs ht
    unfold removePlayer at hcore
    cases hr : s.core.rooms.get c.matchId with
    | none =>
      simp only [hr, HashMap.contains, Option.isSome_none, Bool.false_eq_true, if_false]
        at hcore hevs
      subst hevs
      exact .quiet rfl (by simp) fun m room hr => hcore ▸ hr
    | some room =>
      simp only [hr, HashMap.contains, Option.isSome_some, if_true] at hcore hevs
      subst hevs
      exact .active c.matchId (room.removePlayer c.playerId ch.nowUnix) rfl (by simp)
        (by rw [hcore]; rfl) (.inr ⟨room, hr, rfl⟩)
  | sendError addr code message rx =>
    obtain ⟨hcore, -, -, rfl⟩ := error_section hs ht
    cases ch.sendOk <;> exact .quiet rfl (by simp) fun m room hr => hcore ▸ hr

theorem param_rooms {s s' : Sys} {tid : Nat} {ch : Choice} {evs : List Event}
    (hs : server.step s (.param tid ch) = some (s', evs)) :
    RoomsMoment ⟨s, .param tid ch, evs, s'⟩ := by
  change stepParam s tid ch = some (s', evs) at hs
  unfold stepParam at hs
  split at hs
  · cases hs
  · split at hs
    · cases hs
    · split at hs <;> cases hs <;> exact .quiet rfl (by simp) fun _ _ hr => hr
  · next m p tx seq k d ht =>
    split at hs
    · cases hs
    · unfold updatePlayerParams at hs
      cases hr : s.core.rooms.get m with
      | none =>
        simp only [hr] at hs
        cases hs
        exact .quiet rfl (by simp) fun _ _ hr => hr
      | some room =>
        cases hp : room.players.get p with
        | none =>
          simp only [hr, hp] at hs
          cases hs
          exact .quiet rfl (by simp) fun _ _ hr => hr
        | some player =>
          simp only [hr, hp] at hs
          cases hu : applyParamChange player.params player.nextParamChangeAtUnix k d ch.nowUnix with
          | error e =>
            simp only [hu] at hs
            cases hs
            exact .quiet rfl (by simp) fun _ _ hr => hr
          | ok mu =>
            simp only [hu] at hs
            cases hs
            exact .active m (room.setParams p player mu ch.nowUnix') rfl (by simp) rfl
              (.inr ⟨room, hr, rfl⟩)

theorem drain_rooms {s s' : Sys} {a : Action} {evs : List Event}
    (ha : activity ⟨s, a, evs, s'⟩ = none) (h : DrainStep s s' evs) :
    RoomsMoment ⟨s, a, evs, s'⟩ := by
  obtain ⟨hs', hevs⟩ := drain_quiet h
  refine .quiet ha ?_ fun m room hr => by rw [hs'] at hr; exact hr
  intro m t ps he
  obtain ⟨_, _, heq⟩ := hevs _ he
  cases heq

theorem moment_rooms {x : Moment Sys Action Event}
    (hs : server.step x.before x.action = some (x.after, x.events)) : RoomsMoment x := by
  obtain ⟨s, a, evs, s'⟩ := x
  have hs : server.step s a = some (s', evs) := hs
  cases a with
  | join tid ch => exact join_rooms hs
  | param tid ch => exact param_rooms hs
  | cast cid ch =>
    have hc : CastStep s cid s' evs := stepCast_spec hs
    cases hc <;> exact .quiet rfl (by simp) fun _ _ hr => hr
  | relay tid ch =>
    obtain ⟨hs', hevs⟩ := relay_quiet (stepRelay_spec hs)
    refine .quiet rfl ?_ fun m room hr => by rw [hs'] at hr; exact hr
    intro m t ps he
    obtain ⟨_, _, heq⟩ := hevs _ he
    cases heq
  | drainStart order => exact drain_rooms rfl (drainStart_spec hs)
  | drainStep sendOk => exact drain_rooms rfl (drainStep_spec hs)
  | _ => exact control_rooms (control_spec rfl hs)

/-! ## Activity and starts over a run -/

/-- A first start of the room has read a time other than 0. -/
def Started (log : Log) (m : String) : Prop :=
  ∃ x ∈ log, ∃ t ps, Event.roomStarted m t true ps ∈ x.events ∧ t ≠ 0

/-- The latest activity for the room was at `t`. -/
structure LastActive (log : Log) (m : String) (t : Nat) : Prop where
  at_some : ∃ x ∈ log, activity x = some (m, t)
  bound : ∀ x ∈ log, ∀ t', activity x = some (m, t') → t' ≤ t

section Snoc
variable {log : Log} {x : Moment Sys Action Event} {m : String}

/-- A moment that starts no room with this id. -/
theorem started_snoc (h : ∀ t ps, Event.roomStarted m t true ps ∉ x.events) :
    Started (log ++ [x]) m ↔ Started log m := by
  constructor
  · intro hst
    obtain ⟨y, hy, t, ps, he, h0⟩ := hst
    rcases List.mem_append.mp hy with hy | hy
    · exact ⟨y, hy, t, ps, he, h0⟩
    · rw [List.mem_singleton.mp hy] at he
      exact absurd he (h t ps)
  · intro hst
    obtain ⟨y, hy, hrest⟩ := hst
    exact ⟨y, List.mem_append_left _ hy, hrest⟩

/-- A moment that is no activity for the room. -/
theorem LastActive.snoc {t : Nat} (h : LastActive log m t) (hx : ∀ t', activity x ≠ some (m, t')) :
    LastActive (log ++ [x]) m t := by
  obtain ⟨y, hy, ha⟩ := h.at_some
  refine ⟨⟨y, List.mem_append_left _ hy, ha⟩, ?_⟩
  intro z hz t' hz'
  rcases List.mem_append.mp hz with hz | hz
  · exact h.bound z hz t' hz'
  · rw [List.mem_singleton.mp hz] at hz'
    exact absurd hz' (hx t')

/-- A moment that is. -/
theorem LastActive.now (hc : Clocked (log ++ [x])) {t : Nat} (hx : activity x = some (m, t)) :
    LastActive (log ++ [x]) m t := by
  refine ⟨⟨x, List.mem_append_right _ (List.mem_singleton_self x), hx⟩, ?_⟩
  intro z hz t' hz'
  rcases List.mem_append.mp hz with hz | hz
  · exact hc.last hz (activity_reading hz') (activity_reading hx)
  · rw [List.mem_singleton.mp hz, hx] at hz'
    cases hz'
    exact le_rfl

end Snoc

/-- What the rooms of `s` keep of the run. -/
structure RoomTimes (s : Sys) (log : Log) : Prop where
  seen : ∀ x ∈ log, ∀ m t ps, Event.roomStarted m t true ps ∈ x.events → m ∈ s.seen
  started : ∀ m room, s.core.rooms.get m = some room →
    (room.startedAtUnix ≠ 0 ↔ Started log m)
  last : ∀ m room, s.core.rooms.get m = some room → room.startedAtUnix = 0 →
    LastActive log m room.lastActivityUnix

/-- A room that the moment leaves alone. -/
theorem RoomTimes.other {log : Log} {x : Moment Sys Action Event} {m : String} {room : MatchRoom}
    (h : RoomTimes x.before log) (hr : x.before.core.rooms.get m = some room)
    (hst : ∀ t ps, Event.roomStarted m t true ps ∉ x.events)
    (ha : ∀ t, activity x ≠ some (m, t)) :
    (room.startedAtUnix ≠ 0 ↔ Started (log ++ [x]) m) ∧
      (room.startedAtUnix = 0 → LastActive (log ++ [x]) m room.lastActivityUnix) := by
  refine ⟨?_, ?_⟩
  · rw [started_snoc hst]
    exact h.started m room hr
  · intro h0
    exact (h.last m room hr h0).snoc ha

/-- One room, after a moment. -/
theorem room_times_step {log : Log} {x : Moment Sys Action Event} (hc : Clocked (log ++ [x]))
    (hi : RoomTimes x.before log) (hx : RoomsMoment x) {m : String} {room : MatchRoom}
    (hr : x.after.core.rooms.get m = some room) :
    (room.startedAtUnix ≠ 0 ↔ Started (log ++ [x]) m) ∧
      (room.startedAtUnix = 0 → LastActive (log ++ [x]) m room.lastActivityUnix) := by
  cases hx with
  | quiet ha hst hrooms =>
    exact hi.other (hrooms m room hr) (hst m) (by rw [ha]; exact nofun)
  | active m₀ room' ha hst hrooms hfrom =>
    rw [hrooms] at hr
    rcases HashMap.get_insert_cases hr with ⟨rfl, rfl⟩ | ⟨hne, hr⟩
    · refine ⟨?_, fun _ => .now hc ha⟩
      rw [started_snoc (hst m)]
      rcases hfrom with ⟨hnew, h0⟩ | ⟨room₀, hr₀, hsame⟩
      · -- the room is new, so nobody has started it
        refine iff_of_false (fun h => h h0) ?_
        intro h
        obtain ⟨y, hy, t, ps, he, -⟩ := h
        exact hnew (hi.seen y hy m t ps he)
      · rw [hsame]
        exact hi.started m room₀ hr₀
    · refine hi.other hr (hst m) ?_
      intro t ht
      rw [ha] at ht
      cases ht
      exact hne rfl
  | started m₀ room₀ sh t ps ha hread hb h0 he hrooms =>
    rw [hrooms] at hr
    rcases HashMap.get_insert_cases hr with ⟨rfl, rfl⟩ | ⟨hne, hr⟩
    · have hstart : (room₀.start sh t).startedAtUnix = t := rfl
      have hlast : (room₀.start sh t).lastActivityUnix = t := rfl
      rw [hstart, hlast]
      refine ⟨?_, ?_⟩
      · constructor
        · intro ht
          exact ⟨x, List.mem_append_right _ (List.mem_singleton_self x), t, ps,
            by rw [he]; exact List.mem_singleton_self _, ht⟩
        · intro hst
          obtain ⟨y, hy, t', ps', he', ht'⟩ := hst
          rcases List.mem_append.mp hy with hy | hy
          · exact absurd h0 ((hi.started m room₀ hb).mpr ⟨y, hy, t', ps', he', ht'⟩)
          · rw [List.mem_singleton.mp hy, he] at he'
            obtain ⟨-, rfl, -⟩ : m = m ∧ t' = t ∧ _ := by simpa using he'
            exact ht'
      · -- a start that reads 0 finds a room whose last activity was at 0
        intro ht
        have hold := hi.last m room₀ hb h0
        obtain ⟨y, hy, hya⟩ := hold.at_some
        have hle : room₀.lastActivityUnix ≤ t := hc.last hy (activity_reading hya) hread
        have hzero : room₀.lastActivityUnix = t := by omega
        rw [← hzero]
        exact hold.snoc (by rw [ha]; exact nofun)
    · refine hi.other hr ?_ (by rw [ha]; exact nofun)
      intro t' ps' he'
      rw [he] at he'
      obtain ⟨rfl, -⟩ : m = m₀ ∧ _ := by simpa using he'
      exact hne rfl
  | finished m₀ p room₀ now ha hst hb h0 hrooms =>
    rw [hrooms] at hr
    rcases HashMap.get_insert_cases hr with ⟨rfl, rfl⟩ | ⟨hne, hr⟩
    · refine ⟨?_, fun h => absurd h h0⟩
      rw [started_snoc (hst m)]
      exact hi.started m room₀ hb
    · exact hi.other hr (hst m) (by rw [ha]; exact nofun)

theorem room_times {G : Sys → Action → Prop} {s : Sys} {log : Log}
    (h : server.recorded.Reach G s log) (hc : Clocked log) : RoomTimes s log := by
  refine Machine.Reach.log_induct (P := fun s log => Clocked log → RoomTimes s log) ?_ ?_ h hc
  · intro s hinit _
    obtain ⟨url, rfl⟩ := hinit
    refine ⟨?_, ?_, ?_⟩
    · intro x hx
      cases hx
    · intro m room hr
      cases hr
    · intro m room hr
      cases hr
  · intro s log a s' evs hreach ih hg hs hc
    have hi : RoomTimes s log := ih hc.before
    have hx : RoomsMoment ⟨s, a, evs, s'⟩ := moment_rooms hs
    refine ⟨?_, ?_, ?_⟩
    · intro y hy m t ps he
      rcases List.mem_append.mp hy with hy | hy
      · exact seen_step (step_spec hs) (hi.seen y hy m t ps he)
      · rw [List.mem_singleton.mp hy] at he
        cases hx with
        | quiet _ hst _ => exact absurd he (hst m t ps)
        | active _ _ _ hst _ _ => exact absurd he (hst m t ps)
        | finished _ _ _ _ _ hst _ _ _ => exact absurd he (hst m t ps)
        | started m₀ room₀ sh t₀ ps₀ _ _ hb _ heq _ =>
          rw [heq] at he
          obtain ⟨rfl, -⟩ : m = m₀ ∧ _ := by simpa using he
          exact seen_step (step_spec hs) (rooms_seen hreach.unrecorded m room₀ hb)
    · intro m room hr
      exact (room_times_step hc hi hx hr).1
    · intro m room hr
      exact (room_times_step hc hi hx hr).2

end Kotatsu
