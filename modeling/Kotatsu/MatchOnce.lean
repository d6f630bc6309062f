import Kotatsu.MatchStart

/-
  A match starts once (`start_room`)

  A room that has not started stores 0, so the transition is made once if no start
  reads the clock as 0 (`clockPositive`). Then every successful call returns the time
  that the room stores (`StartedOnce`), the layout of a seated player stays
  (`layout_fixed`), and a channel gets at most one announcement (`AnnouncedOnce`).
-/

namespace Kotatsu

/-! ## Started rooms -/

/-- A start reads a clock that is past 0. -/
def clockPositive (_ : Sys) : Action → Bool
  | .startRoom _ _ ch => 0 < ch.nowUnix
  | _ => true

/-- A successful call of `start_room`, by the room that it finds. -/
theorem start_returns {s : Sys} {a : Action} {core : CoreState} {evs : List Event}
    (h : CoreStep s a core evs) {m : String} {t : Nat} {js : Bool} {ps : List PlayerMatchState}
    (he : Event.roomStarted m t js ps ∈ evs) :
    evs = [.roomStarted m t js ps] ∧ ∃ sh ch room room', a = .startRoom m sh ch ∧
      s.core.rooms.get m = some room ∧ core.rooms.get m = some room' ∧ room'.startedAtUnix = t ∧
      (js = true ∧ room.startedAtUnix = 0 ∧ t = ch.nowUnix ∨
        js = false ∧ room.startedAtUnix = t ∧ t ≠ 0) := by
  cases h with
  | quiet hq => exact absurd (hq _ he) (by simp [Event.onCore])
  | @started m₀ sh ch room hr h0 =>
    obtain ⟨rfl, rfl, rfl, rfl⟩ : m = m₀ ∧ t = ch.nowUnix ∧ js = true ∧ ps = _ := by
      simpa using he
    exact ⟨rfl, sh, ch, room, _, rfl, hr, HashMap.get_insert_self _ _ _, rfl, .inl ⟨rfl, h0, rfl⟩⟩
  | @startedAgain m₀ sh ch room hr h0 =>
    obtain ⟨rfl, rfl, rfl, rfl⟩ : m = m₀ ∧ t = room.startedAtUnix ∧ js = false ∧ ps = _ := by
      simpa using he
    exact ⟨rfl, sh, ch, room, room, rfl, hr, hr, rfl, .inr ⟨rfl, rfl, h0⟩⟩
  | _ => simp at he

/-- Only a first start writes the time of a start. -/
theorem startedAt_step {s : Sys} {m : String} {room room' : MatchRoom} {a : Action}
    {evs : List Event} (h : RoomStep s m room a evs room') :
    room'.startedAtUnix = room.startedAtUnix ∨
      room.startedAtUnix = 0 ∧ ∃ ps, Event.roomStarted m room'.startedAtUnix true ps ∈ evs := by
  cases h with
  | started h0 => exact .inr ⟨h0, _, List.mem_singleton_self _⟩
  | _ => exact .inl rfl

/-- What the successful calls of `start_room` in the history fix. -/
structure StartedOnce (s : Sys) (tr : List Event) : Prop where
  seen : ∀ {m t js ps}, Event.roomStarted m t js ps ∈ tr → m ∈ s.seen
  positive : ∀ {m t js ps}, Event.roomStarted m t js ps ∈ tr → t ≠ 0
  stored : ∀ {m t js ps room}, Event.roomStarted m t js ps ∈ tr →
    s.core.rooms.get m = some room → room.startedAtUnix = t
  logged : ∀ {m room}, s.core.rooms.get m = some room → room.startedAtUnix ≠ 0 →
    ∃ t js ps, Event.roomStarted m t js ps ∈ tr
  same : ∀ {m t js ps t' js' ps'}, Event.roomStarted m t js ps ∈ tr →
    Event.roomStarted m t' js' ps' ∈ tr → t = t'

section Step
variable {s s' : Sys} {tr evs : List Event} {a : Action}

/-- The time of a start is kept while the room stays. -/
theorem startedAt_kept (h : Step s a s' evs) {m : String} {room room' : MatchRoom}
    (hseen : m ∈ s.seen) (hr : s.core.rooms.get m = some room)
    (hr' : s'.core.rooms.get m = some room') (h0 : room.startedAtUnix ≠ 0) :
    room'.startedAtUnix = room.startedAtUnix := by
  rcases step_room (step_core h) hr' with ⟨hfresh, -⟩ | ⟨room₀, hr₀, hroom⟩
  · exact absurd hseen hfresh
  · rw [hr] at hr₀
    obtain rfl := Option.some.inj hr₀
    rcases startedAt_step hroom with hsame | ⟨hzero, -⟩
    · exact hsame
    · exact absurd hzero h0

/-- A call that succeeds says whether another one has before. -/
theorem first_start (hi : StartedOnce s tr) (h : Step s a s' evs) {m : String} {t : Nat} {js : Bool}
    {ps : List PlayerMatchState} (he : Event.roomStarted m t js ps ∈ evs) :
    js = true ↔ ∀ t' js' ps', Event.roomStarted m t' js' ps' ∉ tr := by
  obtain ⟨-, sh, ch, room, room', -, hr, -, -, hjs⟩ := start_returns (step_core h) he
  constructor
  · intro hfirst t' js' ps' ho
    rcases hjs with ⟨-, hzero, -⟩ | ⟨hfalse, -⟩
    · exact hi.positive ho ((hi.stored ho hr).symm.trans hzero)
    · rw [hfalse] at hfirst
      cases hfirst
  · intro hnone
    rcases hjs with ⟨hfirst, -⟩ | ⟨-, rfl, h0⟩
    · exact hfirst
    · obtain ⟨t', js', ps', ho⟩ := hi.logged hr h0
      exact absurd ho (hnone t' js' ps')

theorem startedOnce_step (hseen : RoomsSeen s) (hi : StartedOnce s tr)
    (hg : clockPositive s a = true) (h : Step s a s' evs) : StartedOnce s' (tr ++ evs) := by
  have hcore : CoreStep s a s'.core evs := step_core h
  -- a call returns what an earlier call of the room returned
  have hagain : ∀ {m t js ps t' js' ps'}, Event.roomStarted m t js ps ∈ tr →
      Event.roomStarted m t' js' ps' ∈ evs → t = t' := by
    intro m t js ps t' js' ps' ho he
    obtain ⟨-, sh, ch, room, room', -, hr, -, -, ⟨-, hzero, -⟩ | ⟨-, rfl, -⟩⟩ :=
      start_returns hcore he
    · exact absurd ((hi.stored ho hr).symm.trans hzero) (hi.positive ho)
    · exact (hi.stored ho hr).symm
  refine ⟨?_, ?_, ?_, ?_, ?_⟩
  · intro m t js ps hm
    rcases List.mem_append.mp hm with ho | he
    · exact seen_step h (hi.seen ho)
    · obtain ⟨-, sh, ch, room, room', -, hr, -⟩ := start_returns hcore he
      exact seen_step h (hseen m room hr)
  · intro m t js ps hm
    rcases List.mem_append.mp hm with ho | he
    · exact hi.positive ho
    · obtain ⟨-, sh, ch, room, room', rfl, -, -, -, ⟨-, -, rfl⟩ | ⟨-, -, h0⟩⟩ :=
        start_returns hcore he
      · have hpos : 0 < ch.nowUnix := by simpa [clockPositive] using hg
        omega
      · exact h0
  · intro m t js ps room' hm hr'
    rcases List.mem_append.mp hm with ho | he
    · obtain ⟨room, hr⟩ := room_before h (hi.seen ho) hr'
      have hstored : room.startedAtUnix = t := hi.stored ho hr
      have h0 : room.startedAtUnix ≠ 0 := hstored ▸ hi.positive ho
      rw [startedAt_kept h (hi.seen ho) hr hr' h0, hstored]
    · obtain ⟨-, sh, ch, room, room₁, -, -, hr₁, rfl, -⟩ := start_returns hcore he
      rw [hr'] at hr₁
      rw [Option.some.inj hr₁]
  · intro m room' hr' h0
    rcases step_room hcore hr' with ⟨-, now, rfl, -⟩ | ⟨room, hr, hroom⟩
    · exact absurd rfl h0
    · rcases startedAt_step hroom with hsame | ⟨-, ps, he⟩
      · obtain ⟨t, js, ps, ho⟩ := hi.logged hr (hsame ▸ h0)
        exact ⟨t, js, ps, List.mem_append_left _ ho⟩
      · exact ⟨_, _, ps, List.mem_append_right _ he⟩
  · intro m t js ps t' js' ps' hm hm'
    rcases List.mem_append.mp hm with ho | he <;> rcases List.mem_append.mp hm' with ho' | he'
    · exact hi.same ho ho'
    · exact hagain ho he'
    · exact (hagain ho' he).symm
    · rw [(start_returns hcore he).1] at he'
      obtain ⟨-, rfl, -⟩ := Event.roomStarted.inj (List.mem_singleton.mp he')
      rfl

end Step

theorem started_once {s : Sys} {tr : List Event}
    (h : server.Reach (fun s a => clockPositive s a = true) s tr) : StartedOnce s tr := by
  refine Machine.Reach.induct (P := StartedOnce) ?_ ?_ h
  · intro s hinit
    obtain ⟨url, rfl⟩ := hinit
    refine ⟨nofun, nofun, nofun, ?_, nofun⟩
    intro m room hr
    cases hr
  · intro s tr a s' evs hreach hi hg hs
    exact startedOnce_step (rooms_seen hreach) hi hg (step_spec hs)

/-! ## The layout stays -/

/-- The layout of a seat. -/
def PlayerHandle.layout (h : PlayerHandle) : Option Nat × List Nat := (h.colorIndex, h.stageOrder)

/-- A player that is seated before and after a step in a started room keeps its layout. -/
theorem layout_kept {s s' : Sys} {tr evs : List Event} {a : Action} (hreg : Registry s tr)
    (h : Step s a s' evs) {m p : String} {room : MatchRoom} {seat' : PlayerHandle} {b : SocketAddr}
    {tx : ChanId} (ho : Event.registered m p b tx ∈ tr) (hr : s.core.rooms.get m = some room)
    (h0 : room.startedAtUnix ≠ 0) (hs' : s'.core.seat m p = some seat') :
    ∃ seat, s.core.seat m p = some seat ∧ seat'.layout = seat.layout := by
  cases seat_from (step_core h) hs' with
  | kept hs _ _ => exact ⟨seat', hs, rfl⟩
  | registered => exact absurd ho (unregistered_before hreg h (List.mem_singleton_self _) m b tx)
  | updated hs _ => exact ⟨_, hs, rfl⟩
  | @laidOut _ room₀ sh now hr₀ _ =>
    -- a started room is not laid out again
    obtain ⟨-, -, -, room₁, -, -, hr₁, -, -, ⟨-, hzero, -⟩ | ⟨hfalse, -⟩⟩ :=
      start_returns (step_core h) (List.mem_singleton_self _)
    · rw [hr] at hr₁
      exact absurd (Option.some.inj hr₁ ▸ hzero) h0
    · cases hfalse

/-- The start and the layout of a room are those of the room before. -/
structure StartFixed (room room' : MatchRoom) : Prop where
  started : room'.startedAtUnix = room.startedAtUnix
  layout : ∀ p seat seat', room.players.get p = some seat → room'.players.get p = some seat' →
    seat'.layout = seat.layout

/-- A started room keeps its start and its layout as long as it exists. -/
theorem start_fixed {G : Sys → Action → Prop} {s s' : Sys} {tr us : List Event} {as : List Action}
    (h : server.Reach G s tr) (hrun : server.Run G s as us s') {m : String} {room room' : MatchRoom}
    (hr : s.core.rooms.get m = some room) (h0 : room.startedAtUnix ≠ 0)
    (hr' : s'.core.rooms.get m = some room') : StartFixed room room' := by
  induction hrun generalizing room' with
  | nil =>
    rw [hr] at hr'
    obtain rfl := Option.some.inj hr'
    refine ⟨rfl, ?_⟩
    intro p seat seat' hs hs'
    rw [hs] at hs'
    rw [Option.some.inj hs']
  | @snoc as us s₁ s₂ a evs hrun hg hs ih =>
    have hstep : Step s₁ a s₂ evs := step_spec hs
    have hseen : m ∈ s₁.seen :=
      hrun.keeps (P := fun s => m ∈ s.seen) (fun _ _ _ _ _ hm hs => seen_step (step_spec hs) hm)
        (rooms_seen h m room hr)
    obtain ⟨room₁, hr₁⟩ := room_before hstep hseen hr'
    have hfixed : StartFixed room room₁ := ih hr₁
    have h₁ : room₁.startedAtUnix ≠ 0 := hfixed.started ▸ h0
    refine ⟨(startedAt_kept hstep hseen hr₁ hr' h₁).trans hfixed.started, ?_⟩
    intro p seat seat' hseat hseat'
    obtain ⟨b, ho, -⟩ := seat_registered (registrants h) ((seat_of_room hr p).trans hseat)
    obtain ⟨seat₁, hs₁, hlayout⟩ := layout_kept (registry (h.run hrun)) hstep
      (List.mem_append_left _ ho) hr₁ h₁ ((seat_of_room hr' p).trans hseat')
    rw [seat_of_room hr₁] at hs₁
    rw [hlayout, hfixed.layout p seat seat₁ hseat hs₁]

/-! ## Announced once -/

def ServerReliable.isStart : ServerReliable → Bool
  | .matchStarted .. => true
  | _ => false

/-- How many announcements of a start have been put into the channel. -/
def startsOn (tr : List Event) (tx : ChanId) : Nat := (enqueuedOn tr tx).countP (·.isStart)

theorem startsOn_append (tr evs : List Event) (tx : ChanId) :
    startsOn (tr ++ evs) tx = startsOn tr tx + startsOn evs tx := by
  unfold startsOn
  rw [enqueuedOn_append, List.countP_append]

theorem startsOn_sent (tx tx' : ChanId) (msg : ServerReliable) :
    startsOn [.enqueued tx msg] tx' = if tx = tx' ∧ msg.isStart = true then 1 else 0 := by
  by_cases htx : tx = tx' <;>
    simp [startsOn, enqueuedOn, Event.enqueuedOn, htx, List.countP_singleton]

/-- An event that puts nothing into a channel. -/
theorem startsOn_quiet {evs : List Event} (h : ∀ tx msg, Event.enqueued tx msg ∉ evs)
    (tx : ChanId) : startsOn evs tx = 0 := by
  have hnil : enqueuedOn evs tx = [] := by
    refine List.filterMap_eq_nil_iff.mpr fun e he => ?_
    cases e with
    | enqueued tx' msg => exact absurd he (h tx' msg)
    | _ => rfl
  rw [startsOn, hnil]
  rfl

theorem isStart_iff {msg : ServerReliable} :
    msg.isStart = true ↔ ∃ m players, msg.startOf m = some players := by
  cases msg <;> simp [ServerReliable.isStart, ServerReliable.startOf]

/-- What was announced on a channel is in the history. -/
theorem exists_start {tr : List Event} {tx : ChanId} (h : startsOn tr tx ≠ 0) :
    ∃ msg m players, Event.enqueued tx msg ∈ tr ∧ msg.startOf m = some players := by
  obtain ⟨msg, hmsg, hstart⟩ := List.countP_pos_iff.mp (Nat.pos_of_ne_zero h)
  obtain ⟨m, players, hm⟩ := isStart_iff.mp hstart
  exact ⟨msg, m, players, mem_enqueuedOn.mp hmsg, hm⟩

/-- A call of `start_room` on the room has succeeded. -/
def HasStarted (tr : List Event) (m : String) : Prop :=
  ∃ t js ps, Event.roomStarted m t js ps ∈ tr

theorem HasStarted.mono {tr : List Event} {m : String} (h : HasStarted tr m) (evs : List Event) :
    HasStarted (tr ++ evs) m := by
  obtain ⟨t, js, ps, ho⟩ := h
  exact ⟨t, js, ps, List.mem_append_left _ ho⟩

/-- An announcement under way is that of a start, and no channel that it still goes to
has had one. -/
def Cast.Pending (tr : List Event) (c : Cast) : Prop :=
  ∀ m players, c.msg.startOf m = some players → HasStarted tr m ∧
    match c with
    | .collect m' _ => m' = m ∧ ∀ tx, ChannelOf tr m tx → startsOn tr tx = 0
    | .sending txs _ => txs.Nodup ∧ ∀ tx ∈ txs, ChannelOf tr m tx ∧ startsOn tr tx = 0

structure AnnouncedOnce (s : Sys) (tr : List Event) : Prop where
  once : ∀ tx, startsOn tr tx ≤ 1
  sent : ∀ {tx msg m players}, Event.enqueued tx msg ∈ tr → msg.startOf m = some players →
    HasStarted tr m ∧ ChannelOf tr m tx
  alone : ∀ {cid cid' c c' m players players'}, s.casts.get cid = some c →
    s.casts.get cid' = some c' → c.msg.startOf m = some players →
    c'.msg.startOf m = some players' → cid = cid'
  pending : ∀ {cid c}, s.casts.get cid = some c → c.Pending tr

section Step
variable {s s' : Sys} {tr evs : List Event} {a : Action}

/-- On a channel that is not registered nothing was announced. -/
theorem AnnouncedOnce.unregistered (hi : AnnouncedOnce s tr) {tx : ChanId}
    (hno : ∀ m, ¬ ChannelOf tr m tx) : startsOn tr tx = 0 := by
  by_contra hne
  obtain ⟨msg, m, players, ho, hm⟩ := exists_start hne
  exact hno m (hi.sent ho hm).2

/-- A room that has not started has no announcement, sent or under way. -/
theorem AnnouncedOnce.unstarted (hreg : Registry s tr) (hi : AnnouncedOnce s tr) {m : String}
    (hno : ¬ HasStarted tr m) :
    (∀ tx, ChannelOf tr m tx → startsOn tr tx = 0) ∧
    ∀ cid c, s.casts.get cid = some c → c.msg.startOf m = none := by
  refine ⟨?_, ?_⟩
  · intro tx htx
    by_contra hne
    obtain ⟨msg, m', players, ho, hm⟩ := exists_start hne
    obtain ⟨hstarted, htx'⟩ := hi.sent ho hm
    exact hno (htx.room hreg htx' ▸ hstarted)
  · intro cid c hc
    refine Option.eq_none_iff_forall_ne_some.mpr fun players hm => ?_
    exact hno (hi.pending hc m players hm).1

/-- An announcement that the step leaves where it is, if the step announces nothing on
the channels of its room. -/
theorem Cast.Pending.stays (hreg : Registry s tr) (hi : AnnouncedOnce s tr) (h : Step s a s' evs)
    {c : Cast} (hc : c.Pending tr)
    (hquiet : ∀ m players tx, c.msg.startOf m = some players → ChannelOf tr m tx →
      startsOn evs tx = 0) : c.Pending (tr ++ evs) := by
  intro m players hm
  obtain ⟨hstarted, hrest⟩ := hc m players hm
  refine ⟨hstarted.mono evs, ?_⟩
  cases c with
  | collect m' msg =>
    obtain ⟨rfl, hnone⟩ := hrest
    refine ⟨rfl, ?_⟩
    intro tx htx
    rw [startsOn_append]
    obtain ⟨p, b, hreg'⟩ := htx
    rcases List.mem_append.mp hreg' with ho | he
    · rw [hnone tx ⟨p, b, ho⟩, hquiet m' players tx hm ⟨p, b, ho⟩]
    · -- a channel that is new
      have hnew : startsOn [.registered m' p b tx] tx = 0 := startsOn_quiet (by simp) tx
      rw [(registered_step h he).1, hnew]
      refine hi.unregistered fun m₀ hold => ?_
      obtain ⟨p₀, b₀, ho⟩ := hold
      exact channel_before hreg h he _ _ _ ho
  | sending txs msg =>
    refine ⟨hrest.1, ?_⟩
    intro tx htx
    obtain ⟨hchan, hnone⟩ := hrest.2 tx htx
    refine ⟨hchan.mono evs, ?_⟩
    rw [startsOn_append, hnone, hquiet m players tx hm hchan]

theorem pending_of_none {c : Cast} (h : ∀ m, c.msg.startOf m = none) : c.Pending tr := by
  intro m players hm
  rw [h m] at hm
  cases hm

/-- The announcement of a first start. -/
theorem pending_started (hreg : Registry s tr) (hi : AnnouncedOnce s tr) {m : String}
    {t t' ms : Nat} {js : Bool} {ps ps' : List PlayerMatchState}
    (hno : ¬ HasStarted tr m) (hevs : evs = [.roomStarted m t js ps]) :
    (Cast.collect m (.matchStarted m t' ps' ms)).Pending (tr ++ evs) := by
  intro m' players hm
  obtain ⟨t₁, ms₁, heq⟩ := startOf_eq_some.mp hm
  obtain ⟨rfl, -⟩ := ServerReliable.matchStarted.inj heq
  subst hevs
  refine ⟨⟨t, js, ps, by simp⟩, rfl, ?_⟩
  intro tx htx
  have hcall : startsOn [.roomStarted m t js ps] tx = 0 := startsOn_quiet (by simp) tx
  rw [startsOn_append, hcall]
  refine (hi.unstarted hreg hno).1 tx ?_
  obtain ⟨p, b, ho⟩ := htx
  exact ⟨p, b, by simpa using ho⟩

/-- A step that announces nothing, and adds at most a broadcast that announces nothing
that another one does. -/
theorem announcedOnce_quiet (hreg : Registry s tr) (hi : AnnouncedOnce s tr) (h : Step s a s' evs)
    (hquiet : ∀ tx msg, Event.enqueued tx msg ∉ evs) (cid₀ : Nat)
    (hc : ∀ cid c, s'.casts.get cid = some c → s.casts.get cid = some c ∨
      cid = cid₀ ∧ c.Pending (tr ++ evs) ∧ ∀ m players, c.msg.startOf m = some players →
        ∀ cid' c', s.casts.get cid' = some c' → cid' ≠ cid₀ → c'.msg.startOf m = none) :
    AnnouncedOnce s' (tr ++ evs) := by
  refine ⟨?_, ?_, ?_, ?_⟩
  · intro tx
    rw [startsOn_append, startsOn_quiet hquiet]
    exact hi.once tx
  · intro tx msg m players hm hstart
    rcases List.mem_append.mp hm with ho | he
    · obtain ⟨hstarted, hchan⟩ := hi.sent ho hstart
      exact ⟨hstarted.mono evs, hchan.mono evs⟩
    · exact absurd he (hquiet tx msg)
  · intro cid cid' c c' m players players' hget hget' hm hm'
    by_contra hne
    rcases hc cid c hget with hold | ⟨rfl, -, halone⟩ <;>
      rcases hc cid' c' hget' with hold' | ⟨rfl, -, halone'⟩
    · exact hne (hi.alone hold hold' hm hm')
    · rw [halone' m players' hm' cid c hold hne] at hm
      cases hm
    · rw [halone m players hm cid' c' hold' (Ne.symm hne)] at hm'
      cases hm'
    · exact hne rfl
  · intro cid c hget
    rcases hc cid c hget with hold | ⟨-, hnew, -⟩
    · exact (hi.pending hold).stays hreg hi h fun _ _ tx _ _ => startsOn_quiet hquiet tx
    · exact hnew

/-- An announcement under way that reaches the channel at its head. -/
theorem announcedOnce_sent (hreg : Registry s tr) (hi : AnnouncedOnce s tr) {cid : Nat}
    {ch : Choice} {tx : ChanId} {txs : List ChanId} {msg : ServerReliable}
    (h : Step s (.cast cid ch) s' [.enqueued tx msg])
    (ht : s.casts.get cid = some (.sending (tx :: txs) msg))
    (hc : s'.casts = s.casts.insert cid (.sending txs msg)) :
    AnnouncedOnce s' (tr ++ [.enqueued tx msg]) := by
  refine ⟨?_, ?_, ?_, ?_⟩
  · intro tx'
    rw [startsOn_append, startsOn_sent]
    split
    · next hsame =>
      obtain ⟨rfl, hstart⟩ := hsame
      obtain ⟨m, players, hm⟩ := isStart_iff.mp hstart
      rw [((hi.pending ht m players hm).2.2 tx List.mem_cons_self).2]
    · exact hi.once tx'
  · intro tx' msg' m players hmem hm
    rcases List.mem_append.mp hmem with ho | he
    · obtain ⟨hstarted, hchan⟩ := hi.sent ho hm
      exact ⟨hstarted.mono _, hchan.mono _⟩
    · obtain ⟨rfl, rfl⟩ := Event.enqueued.inj (List.mem_singleton.mp he)
      obtain ⟨hstarted, -, hrest⟩ := hi.pending ht m players hm
      exact ⟨hstarted.mono _, (hrest tx' List.mem_cons_self).1.mono _⟩
  · intro cid₁ cid₂ c₁ c₂ m players₁ players₂ hget₁ hget₂ hm₁ hm₂
    -- the broadcast keeps its message
    have hold : ∀ {cid' c players'}, s'.casts.get cid' = some c →
        c.msg.startOf m = some players' →
        ∃ c₀, s.casts.get cid' = some c₀ ∧ c₀.msg.startOf m = some players' := by
      intro cid' c players' hget hm
      rw [hc] at hget
      rcases HashMap.get_insert_cases hget with ⟨rfl, rfl⟩ | ⟨-, hget⟩
      · exact ⟨_, ht, hm⟩
      · exact ⟨c, hget, hm⟩
    obtain ⟨c₁', h₁, hm₁'⟩ := hold hget₁ hm₁
    obtain ⟨c₂', h₂, hm₂'⟩ := hold hget₂ hm₂
    exact hi.alone h₁ h₂ hm₁' hm₂'
  · intro cid' c hget
    rw [hc] at hget
    rcases HashMap.get_insert_cases hget with ⟨-, rfl⟩ | ⟨hne, hget⟩
    · intro m players hm
      obtain ⟨hstarted, hnodup, hrest⟩ := hi.pending ht m players hm
      obtain ⟨hhead, htail⟩ := List.nodup_cons.mp hnodup
      refine ⟨hstarted.mono _, htail, ?_⟩
      intro tx' htx'
      obtain ⟨hchan, hnone⟩ := hrest tx' (List.mem_cons_of_mem _ htx')
      refine ⟨hchan.mono _, ?_⟩
      have hne : tx ≠ tx' := fun heq => hhead (heq ▸ htx')
      rw [startsOn_append, hnone, startsOn_sent, if_neg fun h => hne h.1]
    · refine (hi.pending hget).stays hreg hi h ?_
      intro m players tx' hm hchan
      rw [startsOn_sent, if_neg]
      -- another announcement on this channel would be of the same room
      intro hsame
      obtain ⟨rfl, hstart⟩ := hsame
      obtain ⟨m₀, players₀, hm₀⟩ := isStart_iff.mp hstart
      obtain ⟨hchan₀, -⟩ := (hi.pending ht m₀ players₀ hm₀).2.2 tx List.mem_cons_self
      obtain rfl := hchan.room hreg hchan₀
      exact hne (hi.alone hget ht hm hm₀)

theorem announcedOnce_step (hreg : Registry s tr) (hents : Registrants s tr)
    (hstarted : StartedOnce s tr) (hi : AnnouncedOnce s tr) (h : Step s a s' evs) :
    AnnouncedOnce s' (tr ++ evs) := by
  -- a broadcast that announces nothing may be added anywhere
  have hplain : ∀ {cid : Nat} {c' : Cast}, (∀ tx msg, Event.enqueued tx msg ∉ evs) →
      s'.casts = s.casts.insert cid c' → (∀ m, c'.msg.startOf m = none) →
      AnnouncedOnce s' (tr ++ evs) := by
    intro cid c' hquiet hc hnone
    refine announcedOnce_quiet hreg hi h hquiet cid ?_
    intro cid' c hget
    rw [hc] at hget
    rcases HashMap.get_insert_cases hget with ⟨rfl, rfl⟩ | ⟨-, hget⟩
    · refine .inr ⟨rfl, pending_of_none hnone, ?_⟩
      intro m players hm
      rw [hnone m] at hm
      cases hm
    · exact .inl hget
  cases casts_step h with
  | quiet hc hq =>
    refine announcedOnce_quiet hreg hi h ?_ 0 fun cid c hget => .inl (hc ▸ hget)
    intro tx msg he
    have := hq _ he
    cases this
  | refused _ hc => exact hplain (by simp) hc fun _ => rfl
  | updated _ hc => exact hplain (by simp) hc fun _ => rfl
  | @started m sh ch room _ hr h0 hc =>
    have hno : ¬ HasStarted tr m := by
      intro hs
      obtain ⟨t, js, ps, ho⟩ := hs
      exact hstarted.positive ho ((hstarted.stored ho hr).symm.trans h0)
    refine announcedOnce_quiet hreg hi h (by simp) ch.fresh ?_
    intro cid c hget
    rw [hc] at hget
    rcases HashMap.get_insert_cases hget with ⟨rfl, rfl⟩ | ⟨-, hget⟩
    · refine .inr ⟨rfl, pending_started hreg hi hno rfl, ?_⟩
      intro m' players hm cid' c' hget' _
      obtain ⟨t, ms, heq⟩ := startOf_eq_some.mp hm
      obtain ⟨rfl, -⟩ := ServerReliable.matchStarted.inj heq
      exact (hi.unstarted hreg hno).2 cid' c' hget'
    · exact .inl hget
  | @cast cid ch evs hcast =>
    cases hcast with
    | noRoom _ _ | done _ =>
      exact announcedOnce_quiet hreg hi h (by simp) 0 fun cid' c hget =>
        .inl (HashMap.get_remove_eq_some.mp hget).2
    | @collected m msg room txs ht hr hperm =>
      refine announcedOnce_quiet hreg hi h (by simp) cid ?_
      intro cid' c hget
      rcases HashMap.get_insert_cases hget with ⟨rfl, rfl⟩ | ⟨-, hget⟩
      · refine .inr ⟨rfl, ?_, ?_⟩
        · intro m' players hm
          obtain ⟨hs, rfl, hnone⟩ := hi.pending ht m' players hm
          rw [List.append_nil]
          refine ⟨hs, hperm.nodup_iff.mpr (recipients_nodup hreg hents hr), ?_⟩
          intro tx htx
          obtain ⟨p, seat, hseat, rfl⟩ := mem_recipients.mp (hperm.mem_iff.mp htx)
          obtain ⟨b, ho, -⟩ := seat_registered hents ((seat_of_room hr p).trans hseat)
          exact ⟨⟨p, b, ho⟩, hnone _ ⟨p, b, ho⟩⟩
        · intro m' players hm cid₁ c₁ hget₁ hne
          refine Option.eq_none_iff_forall_ne_some.mpr fun players₁ hm₁ => ?_
          exact hne (hi.alone hget₁ ht hm₁ hm)
      · exact .inl hget
    | sent ht _ _ _ => exact announcedOnce_sent hreg hi h ht rfl
    | @lost tx txs msg chan ht _ _ =>
      refine announcedOnce_quiet hreg hi h (by simp) cid ?_
      intro cid' c hget
      rcases HashMap.get_insert_cases hget with ⟨rfl, rfl⟩ | ⟨-, hget⟩
      · refine .inr ⟨rfl, ?_, ?_⟩
        · intro m players hm
          obtain ⟨hs, hnodup, hrest⟩ := hi.pending ht m players hm
          rw [List.append_nil]
          exact ⟨hs, hnodup.of_cons, fun tx' htx' => hrest tx' (List.mem_cons_of_mem _ htx')⟩
        · intro m players hm cid₁ c₁ hget₁ hne
          refine Option.eq_none_iff_forall_ne_some.mpr fun players₁ hm₁ => ?_
          exact hne (hi.alone hget₁ ht hm₁ hm)
      · exact .inl hget

end Step

theorem announced_once {s : Sys} {tr : List Event}
    (h : server.Reach (fun s a => clockPositive s a = true) s tr) : AnnouncedOnce s tr := by
  refine Machine.Reach.induct (P := AnnouncedOnce) ?_ ?_ h
  · intro s hinit
    obtain ⟨url, rfl⟩ := hinit
    exact ⟨fun _ => Nat.zero_le _, nofun, nofun, nofun⟩
  · intro s tr a s' evs hreach hi hg hs
    exact announcedOnce_step (registry hreach) (registrants hreach) (started_once hreach) hi
      (step_spec hs)

/-! ## The whole history -/

/-- Over any run whose starts read a clock past 0, the first call on a room that
succeeds is the one that starts it; every successful call on it returns one time,
which the room stores from the first call on; from a started state to any later one
the time and the layout of the seated players stay; and a channel gets at most one
announcement. -/
theorem match_starts_once {s : Sys} {tr : List Event}
    (h : server.Reach (fun s a => clockPositive s a = true) s tr) :
    (∀ pre m t js ps post, tr = pre ++ .roomStarted m t js ps :: post →
      (js = true ↔ ∀ t' js' ps', Event.roomStarted m t' js' ps' ∉ pre)) ∧
    (∀ m t js ps t' js' ps', Event.roomStarted m t js ps ∈ tr →
      Event.roomStarted m t' js' ps' ∈ tr → t = t') ∧
    (∀ m t js ps room, Event.roomStarted m t js ps ∈ tr → s.core.rooms.get m = some room →
      room.startedAtUnix = t ∧ t ≠ 0 ∧
      ∀ as us s' room', server.Run (fun s a => clockPositive s a = true) s as us s' →
        s'.core.rooms.get m = some room' → room'.startedAtUnix = t ∧
        ∀ p seat seat', room.players.get p = some seat → room'.players.get p = some seat' →
          seat'.colorIndex = seat.colorIndex ∧ seat'.stageOrder = seat.stageOrder) ∧
    ∀ tx, (enqueuedOn tr tx).countP (·.isStart) ≤ 1 := by
  have hstarted : StartedOnce s tr := started_once h
  refine ⟨?_, fun m t js ps t' js' ps' => hstarted.same, ?_, (announced_once h).once⟩
  · intro pre m t js ps post heq
    obtain ⟨s₀, a, s₁, hreach, -, hs⟩ := h.event_alone heq
      fun s a s' evs hs hm => (start_returns (step_core (step_spec hs)) hm).1
    exact first_start (started_once hreach) (step_spec hs) (List.mem_singleton_self _)
  · intro m t js ps room ho hr
    have hstored : room.startedAtUnix = t := hstarted.stored ho hr
    have h0 : t ≠ 0 := hstarted.positive ho
    refine ⟨hstored, h0, ?_⟩
    intro as us s' room' hrun hr'
    have hfixed : StartFixed room room' := start_fixed h hrun hr (hstored ▸ h0) hr'
    refine ⟨hfixed.started.trans hstored, ?_⟩
    intro p seat seat' hs hs'
    exact Prod.mk.inj (hfixed.layout p seat seat' hs hs')

/-- Two calls on a room with a joined player, and the announcement of the first. -/
theorem match_starts_once_twice : ∃ s tr room ps,
    server.Reach (fun s a => clockPositive s a = true) s tr ∧
    Event.roomStarted "m_r" 5 false ps ∈ tr ∧ (enqueuedOn tr 0).length = 1 ∧
    s.core.rooms.get "m_r" = some room ∧ room.startedAtUnix = 5 ∧
    (enqueuedOn tr 0).countP (·.isStart) ≤ 1 := by
  obtain ⟨s, tr, h, hp⟩ := reach_of_actions (fun s a => clockPositive s a = true)
    (justStartedRoom ++ [.startRoom "m_r" .inOrder { nowUnix := 9, fresh := 1 },
      .cast 0 { txs := [0] }, .cast 0 {}])
    (fun s tr => (s.core.rooms.get "m_r").isSome && (enqueuedOn tr 0).length == 1 &&
      tr.any fun | .roomStarted "m_r" 5 false _ => true | _ => false) (by decide)
  simp only [Bool.and_eq_true, beq_iff_eq] at hp
  obtain ⟨⟨hroom, hlen⟩, hcall⟩ := hp
  obtain ⟨room, hr⟩ := Option.isSome_iff_exists.mp hroom
  obtain ⟨e, he, hmatch⟩ := List.any_eq_true.mp hcall
  split at hmatch
  · obtain ⟨-, -, hstored, honce⟩ := match_starts_once h
    exact ⟨s, tr, room, _, h, he, hlen, hr, (hstored _ _ _ _ room he hr).1, honce 0⟩
  · cases hmatch

end Kotatsu
