import Kotatsu.ParamHistory

/-
  Messages under way

  A reliable message is on its way (`Cast`) until its recipients are collected and
  it is in their channels. `CastsStep` keeps of a step only its effect on that. A
  channel is live until its receiver is dropped; over any run a live channel is
  that of a seated player, unless the room is gone (`live_seated`), and its queue
  is the end of what was ever put into it (`queues`).
-/

namespace Kotatsu

/-! ## What a step does to the messages under way -/

def Cast.msg : Cast → ServerReliable
  | .collect _ msg => msg
  | .sending _ msg => msg

/-- The event reports no change of the messages under way. -/
def Event.offCasts : Event → Bool
  | .enqueued .. | .paramUpdated .. => false
  | .roomStarted _ _ justStarted _ => !justStarted
  | _ => true

/-- A step, by what it does to the messages under way. -/
inductive CastsStep (s s' : Sys) : Action → List Event → Prop
  | quiet {a : Action} {evs : List Event} (hc : s'.casts = s.casts)
      (he : ∀ e ∈ evs, e.offCasts = true) : CastsStep s s' a evs
  | refused {tid cid now : Nat} {ch : Choice} {tx : ChanId} {m p e : String} {k : ParamKind}
      {d : ParamDirection} (hf : s.casts.get cid = none)
      (hc : s'.casts = s.casts.insert cid (.sending [tx] (.error "param_update_failed" e)))
      (he : ParamRefusal s.core m p k d now e) :
      CastsStep s s' (.param tid ch) [.paramRefused m p k d now e]
  | updated {tid cid seq nowMs now : Nat} {ch : Choice} {m p : String} {k : ParamKind}
      {d : ParamDirection} {mu : ParamMutation} (hf : s.casts.get cid = none)
      (hc : s'.casts = s.casts.insert cid (.collect m
        (.paramApplied p seq mu.params mu.nextParamChangeAtUnix nowMs))) :
      CastsStep s s' (.param tid ch) [.paramUpdated m p k d now mu]
  | started {m : String} {sh : Shuffles} {ch : Choice} {room : MatchRoom}
      (hf : s.casts.get ch.fresh = none) (hr : s.core.rooms.get m = some room)
      (h0 : room.startedAtUnix = 0)
      (hc : s'.casts = s.casts.insert ch.fresh (.collect m (.matchStarted m ch.nowUnix
        (snapshotPlayers (room.start sh ch.nowUnix)) ch.nowMs))) :
      CastsStep s s' (.startRoom m sh ch)
        [.roomStarted m ch.nowUnix true (snapshotPlayers (room.start sh ch.nowUnix))]
  | cast {cid : Nat} {ch : Choice} {evs : List Event} (h : CastStep s cid s' evs) :
      CastsStep s s' (.cast cid ch) evs

theorem casts_step {s s' : Sys} {a : Action} {evs : List Event} (h : Step s a s' evs) :
    CastsStep s s' a evs := by
  cases h with
  | control h =>
    cases h with
    | started hf hr h0 => exact .started hf hr h0 rfl
    | cleaned _ => exact .quiet rfl (by simp [Event.offCasts])
    | created _ | issued _ _ _ _ _ | startedAgain _ _ | finishedFirst _ _ _ _
    | finishedAgain _ _ _ _ | deleted _ | listed | got _ | refused | ticked _ | ignored
    | joinReceived _ | paramReceived _ | datagramReceived _ =>
      exact .quiet rfl (by simp [Event.offCasts])
  | join h =>
    cases h with
    | errorSent _ he => exact .quiet rfl (by rcases he with rfl | rfl <;> simp [Event.offCasts])
    | _ => exact .quiet rfl (by simp [Event.offCasts])
  | param h =>
    cases h with
    | notJoined _ _ | lookedUp _ _ => exact .quiet rfl (by simp)
    | refused _ hf he => exact .refused hf rfl he
    | updated _ hf _ _ _ => exact .updated hf rfl
  | cast h => exact .cast h
  | relay h =>
    obtain ⟨hs, he⟩ := relay_quiet h
    rw [hs]
    exact .quiet rfl fun e hm => by obtain ⟨_, _, rfl⟩ := he e hm; rfl
  | drain h =>
    obtain ⟨hs, he⟩ := drain_quiet h
    rw [hs]
    exact .quiet rfl fun e hm => by obtain ⟨_, _, rfl⟩ := he e hm; rfl

/-- A message is put into a channel by the broadcast that has it next. -/
theorem enqueued_by {s s' : Sys} {a : Action} {evs : List Event} (h : Step s a s' evs)
    {tx : ChanId} {msg : ServerReliable} (he : Event.enqueued tx msg ∈ evs) :
    ∃ cid txs, s.casts.get cid = some (.sending (tx :: txs) msg) := by
  cases casts_step h with
  | quiet _ hq =>
    have := hq _ he
    cases this
  | refused _ _ | updated _ _ => simp at he
  | started _ _ _ _ => simp at he
  | @cast cid ch evs hcast =>
    cases hcast with
    | sent ht _ _ _ =>
      obtain ⟨rfl, rfl⟩ : tx = _ ∧ msg = _ := by simpa using he
      exact ⟨cid, _, ht⟩
    | _ => cases he

/-! ## Recipients -/

theorem mem_recipients {room : MatchRoom} {tx : ChanId} :
    tx ∈ room.players.values.map (·.reliableTx) ↔
      ∃ p seat, room.players.get p = some seat ∧ seat.reliableTx = tx := by
  rw [List.mem_map]
  constructor
  · intro h
    obtain ⟨seat, hs, rfl⟩ := h
    obtain ⟨p, hp⟩ := HashMap.mem_values.mp hs
    exact ⟨p, seat, hp, rfl⟩
  · intro h
    obtain ⟨p, seat, hp, rfl⟩ := h
    exact ⟨seat, HashMap.mem_values.mpr ⟨p, hp⟩, rfl⟩

/-- No channel is collected twice. -/
theorem recipients_nodup {s : Sys} {tr : List Event} (hreg : Registry s tr)
    (hents : Registrants s tr) {m : String} {room : MatchRoom}
    (hr : s.core.rooms.get m = some room) : (room.players.values.map (·.reliableTx)).Nodup := by
  apply HashMap.values_map_nodup
  intro p p' seat seat' hp hp' htx
  obtain ⟨a, ho, -⟩ := seat_registered hents ((seat_of_room hr p).trans hp)
  obtain ⟨a', ho', -⟩ := seat_registered hents ((seat_of_room hr p').trans hp')
  rw [← htx] at ho'
  exact hreg.owner ho ho'

/-! ## Live channels -/

def Sys.live (s : Sys) (tx : ChanId) : Bool := (s.chans.get tx).any (·.alive)

theorem live_iff {s : Sys} {tx : ChanId} :
    s.live tx = true ↔ ∃ chan, s.chans.get tx = some chan ∧ chan.alive = true :=
  Option.any_eq_true _ _

theorem live_closeRx {chans : HashMap ChanId Channel} {rx tx : ChanId} {chan : Channel}
    (h : (closeRx chans rx).get tx = some chan) (ha : chan.alive = true) :
    tx ≠ rx ∧ chans.get tx = some chan := by
  rcases HashMap.get_insert_cases h with ⟨rfl, rfl⟩ | ⟨hne, h⟩
  · cases ha
  · exact ⟨hne, h⟩

theorem live_closeReplaced {chans : HashMap ChanId Channel} {old : Option ClientSession}
    {tx : ChanId} {chan : Channel} (h : (closeReplaced chans old).get tx = some chan)
    (ha : chan.alive = true) : chans.get tx = some chan := by
  cases old with
  | none => exact h
  | some session => exact (live_closeRx h ha).2

theorem live_closeHeld {chans : HashMap ChanId Channel} {rx : Option ChanId} {tx : ChanId}
    {chan : Channel} (h : (closeHeld chans rx).get tx = some chan) (ha : chan.alive = true) :
    chans.get tx = some chan := by
  cases rx with
  | none => exact h
  | some rx => exact (live_closeRx h ha).2

/-- A live channel was live before, or is new. -/
theorem live_step {s s' : Sys} {a : Action} {evs : List Event} (h : Step s a s' evs) {tx : ChanId}
    (hl : s'.live tx = true) : s.live tx = true ∨ s.chans.get tx = none := by
  obtain ⟨chan, hc, ha⟩ := live_iff.mp hl
  have same : s.chans.get tx = some chan → s.live tx = true := fun hc => live_iff.mpr ⟨chan, hc, ha⟩
  cases h with
  | control h => cases h <;> exact .inl (same hc)
  | join h =>
    cases h with
    | consumed _ _ _ hf =>
      rcases HashMap.get_insert_cases hc with ⟨rfl, -⟩ | ⟨-, hc⟩
      · exact .inr hf
      · exact .inl (same hc)
    | inserted _ => exact .inl (same (live_closeReplaced hc ha))
    | removed _ _ | removedNoRoom _ _ => exact .inl (same (live_closeRx hc ha).2)
    | errorSent _ _ => exact .inl (same (live_closeHeld hc ha))
    | _ => exact .inl (same hc)
  | param h => cases h <;> exact .inl (same hc)
  | cast h =>
    cases h with
    | sent _ hc₀ ha₀ _ =>
      rcases HashMap.get_insert_cases hc with ⟨rfl, -⟩ | ⟨-, hc⟩
      · exact .inl (live_iff.mpr ⟨_, hc₀, ha₀⟩)
      · exact .inl (same hc)
    | _ => exact .inl (same hc)
  | relay h => rw [(relay_quiet h).1] at hc; exact .inl (same hc)
  | drain h =>
    cases h with
    | took _ _ hq =>
      rcases HashMap.get_insert_cases hc with ⟨rfl, rfl⟩ | ⟨-, hc⟩
      · exact .inl (live_iff.mpr ⟨_, hq, ha⟩)
      · exact .inl (same hc)
    | _ => exact .inl (same hc)

/-- The live channel of a player that was registered before was live before. -/
theorem live_kept {s s' : Sys} {tr : List Event} (hreg : Registry s tr) {a : Action}
    {evs : List Event} (h : Step s a s' evs) {m p : String} {addr : SocketAddr} {tx : ChanId}
    (ho : Event.registered m p addr tx ∈ tr) (hl : s'.live tx = true) : s.live tx = true := by
  rcases live_step h hl with hl | hnew
  · exact hl
  · obtain ⟨c, hc⟩ := hreg.chan ho
    rw [hnew] at hc
    cases hc

/-- The end of `remove_client` drops the receiver of the seat it takes. -/
theorem unseated_dead {s s' : Sys} {a : Action} {evs : List Event} (h : Step s a s' evs)
    {m p : String} (he : Event.seatRemoved m p ∈ evs) :
    ∃ tid c, s.joins.get tid = some (.remove c) ∧ c.matchId = m ∧ c.playerId = p ∧
      s'.live c.rx = false := by
  obtain ⟨tid, c, ht, hm, hp, hchans⟩ := unseated_by h he
  refine ⟨tid, c, ht, hm, hp, ?_⟩
  simp [Sys.live, hchans, closeRx]

/-- A removed room is gone. -/
theorem removed_gone {s : Sys} {a : Action} {core : CoreState} {evs : List Event}
    (h : CoreStep s a core evs) {m : String} (he : Event.roomRemoved m ∈ evs) :
    core.rooms.get m = none := by
  cases h with
  | quiet hq => exact absurd (hq _ he) (by simp [Event.onCore])
  | deleted _ =>
    obtain rfl : m = _ := by simpa using he
    exact HashMap.get_remove_self _ _
  | @cleaned tid timeout now _ =>
    have hm : m ∈ (deleteStaleLobbyRooms s.core timeout now).2 := by simpa using he
    exact Option.eq_none_iff_forall_ne_some.mpr fun room hr => (deleteStale_rooms.mp hr).2 hm
  | _ => simp at he

/-- A room whose id has been drawn does not come back. -/
theorem room_before {s s' : Sys} {a : Action} {evs : List Event} (h : Step s a s' evs) {m : String}
    {room' : MatchRoom} (hseen : m ∈ s.seen) (hr' : s'.core.rooms.get m = some room') :
    ∃ room, s.core.rooms.get m = some room := by
  rcases step_room (step_core h) hr' with ⟨hfresh, -⟩ | ⟨room, hr, -⟩
  · exact absurd hseen hfresh
  · exact ⟨room, hr⟩

/-- A room that the step does not remove stays. -/
theorem room_after {s : Sys} {a : Action} {core : CoreState} {evs : List Event}
    (h : CoreStep s a core evs) {m : String} {room : MatchRoom}
    (hr : s.core.rooms.get m = some room) (hno : Event.roomRemoved m ∉ evs) :
    ∃ room', core.rooms.get m = some room' := by
  cases h with
  | quiet _ | unknownToken _ _ | expired _ _ _ | consumed _ _ _ | startedAgain _ _
  | finishedAgain _ _ _ _ => exact ⟨room, hr⟩
  | created _ | issued _ _ _ _ _ | registered _ _ _ | removed _ _ | updated _ _ _ _
  | started _ _ | finishedFirst _ _ _ _ => exact HashMap.exists_get_insert ⟨room, hr⟩ _ _
  | @deleted m₀ _ _ =>
    have hne : m ≠ m₀ := by simpa using hno
    exact ⟨room, HashMap.get_remove_eq_some.mpr ⟨hne, hr⟩⟩
  | cleaned _ => exact ⟨room, deleteStale_rooms.mpr ⟨hr, by simpa using hno⟩⟩

/-- What a registration stands for, while its channel is live and its room is there. -/
structure LiveSeats (s : Sys) (tr : List Event) : Prop where
  seen : ∀ {m p a tx}, Event.registered m p a tx ∈ tr → m ∈ s.seen
  seated : ∀ {m p a tx room}, Event.registered m p a tx ∈ tr → s.live tx = true →
    s.core.rooms.get m = some room → s.core.link m p = some (some (.udp a), tx)

theorem liveSeats_step {s s' : Sys} {tr : List Event} (hseen : RoomsSeen s) (hseen' : RoomsSeen s')
    (hreg : Registry s tr) (hents : Registrants s tr) (hi : LiveSeats s tr) {a : Action}
    {evs : List Event} (h : Step s a s' evs) : LiveSeats s' (tr ++ evs) := by
  have hlink : LinkStep s s'.core evs := link_step hseen (step_core h)
  refine ⟨?_, ?_⟩
  · intro m p addr tx hm
    rcases List.mem_append.mp hm with ho | he
    · exact seen_step h (hi.seen ho)
    · obtain ⟨seat, hs, -⟩ := link_eq_some.mp (link_registered hlink he)
      obtain ⟨room, hr, -⟩ := seat_eq_some.mp hs
      exact hseen' m room hr
  · intro m p addr tx room' hm hl hr'
    rcases List.mem_append.mp hm with ho | he
    · obtain ⟨room, hr⟩ := room_before h (hi.seen ho) hr'
      apply link_kept hlink (hi.seated ho (live_kept hreg h ho hl) hr)
      · intro a₁ tx₁ he
        exact unregistered_before hreg h he _ _ _ ho
      · -- the seat's own receiver would be gone
        intro he
        obtain ⟨tid, c, ht, rfl, rfl, hdead⟩ := unseated_dead h he
        obtain ⟨hc, hrx⟩ := hents.removing ht
        obtain ⟨-, -, rfl⟩ := hreg.once ho hc
        rw [← hrx, hdead] at hl
        cases hl
      · intro he
        rw [removed_gone (step_core h) he] at hr'
        cases hr'
    · exact link_registered hlink he

theorem live_seats {G : Sys → Action → Prop} {s : Sys} {tr : List Event}
    (h : server.Reach G s tr) : LiveSeats s tr := by
  refine Machine.Reach.induct (P := LiveSeats) ?_ ?_ h
  · intro s _
    refine ⟨?_, ?_⟩ <;> simp
  · intro s tr a s' evs hreach ih hg hs
    exact liveSeats_step (rooms_seen hreach) (rooms_seen (hreach.step hg hs)) (registry hreach)
      (registrants hreach) ih (step_spec hs)

/-! ## Queues -/

/-- What the event puts into the channel. -/
def Event.enqueuedOn (tx : ChanId) : Event → Option ServerReliable
  | .enqueued tx' msg => if tx' = tx then some msg else none
  | _ => none

/-- Everything that was put into the channel, in order. -/
def enqueuedOn (tr : List Event) (tx : ChanId) : List ServerReliable :=
  tr.filterMap (Event.enqueuedOn tx)

theorem enqueuedOn_append (tr evs : List Event) (tx : ChanId) :
    enqueuedOn (tr ++ evs) tx = enqueuedOn tr tx ++ enqueuedOn evs tx := List.filterMap_append

theorem mem_enqueuedOn {tr : List Event} {tx : ChanId} {msg : ServerReliable} :
    msg ∈ enqueuedOn tr tx ↔ Event.enqueued tx msg ∈ tr := by
  rw [enqueuedOn, List.mem_filterMap]
  constructor
  · intro h
    obtain ⟨e, he, hmsg⟩ := h
    cases e with
    | enqueued tx' msg' =>
      obtain ⟨rfl, rfl⟩ : tx' = tx ∧ msg' = msg := by simpa [Event.enqueuedOn] using hmsg
      exact he
    | _ => cases hmsg
  · intro h
    exact ⟨_, h, if_pos rfl⟩

/-- Each queue is the end of what was put into its channel; a dropped one is empty. -/
def Queues (chans : HashMap ChanId Channel) (tr : List Event) : Prop :=
  ∀ tx chan, chans.get tx = some chan →
    chan.queue <:+ enqueuedOn tr tx ∧ (chan.alive = false → chan.queue = [])

theorem queues_closeRx {chans : HashMap ChanId Channel} {tr : List Event} (hi : Queues chans tr)
    (rx : ChanId) : Queues (closeRx chans rx) tr := by
  intro tx chan hc
  rcases HashMap.get_insert_cases hc with ⟨-, rfl⟩ | ⟨-, hc⟩
  · exact ⟨List.nil_suffix, fun _ => rfl⟩
  · exact hi tx chan hc

theorem queues_closeHeld {chans : HashMap ChanId Channel} {tr : List Event} (hi : Queues chans tr)
    (rx : Option ChanId) : Queues (closeHeld chans rx) tr := by
  cases rx with
  | none => exact hi
  | some rx => exact queues_closeRx hi rx

/-- Without a send, the history of every channel stays. -/
theorem queues_quiet {chans : HashMap ChanId Channel} {tr evs : List Event}
    (hevs : ∀ tx, enqueuedOn evs tx = []) (hi : Queues chans tr) : Queues chans (tr ++ evs) := by
  intro tx chan hc
  rw [enqueuedOn_append, hevs tx, List.append_nil]
  exact hi tx chan hc

theorem queues_step {s s' : Sys} {tr : List Event} (hi : Queues s.chans tr) {a : Action}
    {evs : List Event} (h : Step s a s' evs) : Queues s'.chans (tr ++ evs) := by
  cases h with
  | control h =>
    cases h with
    | cleaned _ => exact queues_quiet (by simp [enqueuedOn, Event.enqueuedOn]) hi
    | _ => exact queues_quiet (fun _ => rfl) hi
  | join h =>
    cases h with
    | consumed _ _ _ _ =>
      refine queues_quiet (fun _ => rfl) ?_
      intro tx chan hc
      rcases HashMap.get_insert_cases hc with ⟨-, rfl⟩ | ⟨-, hc⟩
      · exact ⟨List.nil_suffix, fun _ => rfl⟩
      · exact hi tx chan hc
    | @inserted addr _ _ _ _ _ =>
      refine queues_quiet (fun _ => rfl) ?_
      show Queues (closeReplaced s.chans (s.clients.get addr)) tr
      cases s.clients.get addr with
      | none => exact hi
      | some session => exact queues_closeRx hi session.rx
    | removed _ _ => exact queues_quiet (fun _ => rfl) (queues_closeRx hi _)
    | removedNoRoom _ _ => exact queues_quiet (fun _ => rfl) (queues_closeRx hi _)
    | errorSent _ he =>
      have hi := queues_closeHeld hi
      rcases he with rfl | rfl <;> exact queues_quiet (fun _ => rfl) (hi _)
    | _ => exact queues_quiet (fun _ => rfl) hi
  | param h => cases h <;> exact queues_quiet (fun _ => rfl) hi
  | cast h =>
    cases h with
    | @sent tx₀ txs msg chan₀ _ hc₀ ha₀ _ =>
      intro tx chan hc
      rw [enqueuedOn_append]
      rcases HashMap.get_insert_cases hc with ⟨rfl, rfl⟩ | ⟨hne, hc⟩
      · obtain ⟨pre, hpre⟩ := (hi tx chan₀ hc₀).1
        refine ⟨⟨pre, ?_⟩, fun ha => absurd ha (by simp [ha₀])⟩
        rw [← hpre, ← List.append_assoc]
        simp [enqueuedOn, Event.enqueuedOn]
      · have hother : enqueuedOn [.enqueued tx₀ msg] tx = [] := by
          simp [enqueuedOn, Event.enqueuedOn, Ne.symm hne]
        rw [hother, List.append_nil]
        exact hi tx chan hc
    | _ => exact queues_quiet (fun _ => rfl) hi
  | relay h =>
    obtain ⟨hs, he⟩ := relay_quiet h
    rw [hs]
    refine queues_quiet (fun tx => List.filterMap_eq_nil_iff.mpr fun e hm => ?_) hi
    obtain ⟨_, _, rfl⟩ := he e hm
    rfl
  | drain h =>
    cases h with
    | @took addr rest session msg queue alive _ _ hq =>
      refine queues_quiet (fun _ => rfl) ?_
      intro tx chan hc
      rcases HashMap.get_insert_cases hc with ⟨rfl, rfl⟩ | ⟨-, hc⟩
      · obtain ⟨hsuf, hdead⟩ := hi _ _ hq
        exact ⟨(List.suffix_cons msg queue).trans hsuf, fun ha => by cases hdead ha⟩
      · exact hi tx chan hc
    | sent _ he => rcases he with rfl | rfl <;> exact queues_quiet (fun _ => rfl) hi
    | _ => exact queues_quiet (fun _ => rfl) hi

theorem queues {G : Sys → Action → Prop} {s : Sys} {tr : List Event} (h : server.Reach G s tr) :
    Queues s.chans tr := by
  refine Machine.Reach.induct (P := fun s tr => Queues s.chans tr) ?_ ?_ h
  · intro s hinit tx chan hc
    obtain ⟨url, rfl⟩ := hinit
    cases hc
  · intro s tr a s' evs _ ih _ hs
    exact queues_step ih (step_spec hs)

/-- The message in hand was put into the channel of its session. -/
theorem hand_enqueued {G : Sys → Action → Prop} {s : Sys} {tr : List Event}
    (h : server.Reach G s tr) :
    ∀ {c msg addrs}, s.drain = some (.send c msg addrs) → Event.enqueued c.rx msg ∈ tr := by
  refine Machine.Reach.induct (P := fun s tr => ∀ {c msg addrs},
    s.drain = some (.send c msg addrs) → Event.enqueued c.rx msg ∈ tr) ?_ ?_ h
  · intro s hinit c msg addrs hd
    obtain ⟨url, rfl⟩ := hinit
    cases hd
  · intro s tr a s' evs hreach ih _ hs c msg addrs hd'
    rcases drain_kept (step_spec hs) with heq | hdrain
    · exact List.mem_append_left _ (ih (heq ▸ hd'))
    · cases hdrain with
      | took _ _ hq =>
        cases hd'
        have hput := (queues hreach _ _ hq).1.subset List.mem_cons_self
        exact List.mem_append_left _ (mem_enqueuedOn.mp hput)
      | locked _ _ | unlocked _ | next _ | sent _ _ => cases hd'

end Kotatsu
