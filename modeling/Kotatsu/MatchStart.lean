import Kotatsu.Casts

/-
  The announcement of a match (`start_room`)

  `start_room` takes the list of players in one section and collects the recipients
  in a later one. A player that registers in between is a recipient that the list
  does not name (`start_omits`). While no broadcast collects such a recipient, and no
  room is laid out again under an announcement, every announcement that reaches a
  seated player names it, with the layout that its seat stores
  (`start_names_recipient`).
-/

namespace Kotatsu

/-! ## The list of players -/

/-- The list has a row of the player, with the layout of its seat. -/
def Names (players : List PlayerMatchState) (p : String) (seat : PlayerHandle) : Prop :=
  ∃ row ∈ players, row.playerId = p ∧ seat.colorIndex = some row.colorIndex ∧
    seat.stageOrder = row.stageOrder

theorem snapshot_perm (room : MatchRoom) : (snapshotPlayers room).Perm
    (room.players.toList.map fun e => playerMatchState e.1 e.2) := List.perm_insertionSort _ _

theorem mem_snapshot {room : MatchRoom} {row : PlayerMatchState} :
    row ∈ snapshotPlayers room ↔
      ∃ p seat, room.players.get p = some seat ∧ row = playerMatchState p seat := by
  rw [(snapshot_perm room).mem_iff, List.mem_map]
  constructor
  · intro h
    obtain ⟨⟨p, seat⟩, he, heq⟩ := h
    exact ⟨p, seat, HashMap.mem_toList.mp he, heq.symm⟩
  · intro h
    obtain ⟨p, seat, hs, heq⟩ := h
    exact ⟨(p, seat), HashMap.mem_toList.mpr hs, heq.symm⟩

/-- A row of the list agrees with the seat of its player. -/
def RowFits (players : List PlayerMatchState) (p : String) (seat : PlayerHandle) : Prop :=
  ∀ row ∈ players, row.playerId = p →
    seat.colorIndex = some row.colorIndex ∧ seat.stageOrder = row.stageOrder

theorem RowFits.of_layout {players : List PlayerMatchState} {p : String}
    {seat seat' : PlayerHandle} (h : RowFits players p seat)
    (hc : seat'.colorIndex = seat.colorIndex) (ho : seat'.stageOrder = seat.stageOrder) :
    RowFits players p seat' := by
  intro row hrow hp
  rw [hc, ho]
  exact h row hrow hp

/-- The list that a first start takes fits every seat of the room. -/
theorem snapshot_fits {room : MatchRoom} (sh : Shuffles) (now : Nat)
    (hcap : room.players.len ≤ roomMaxPlayers) {p : String} {seat : PlayerHandle}
    (hs : (room.start sh now).players.get p = some seat) :
    RowFits (snapshotPlayers (room.start sh now)) p seat := by
  intro row hrow hp
  obtain ⟨q, seat', hs', rfl⟩ := mem_snapshot.mp hrow
  obtain rfl : q = p := hp
  rw [hs] at hs'
  obtain rfl : seat = seat' := Option.some.inj hs'
  obtain ⟨c, hc, -⟩ := ((start_laidOut sh now hcap).seats q seat hs).color
  refine ⟨?_, rfl⟩
  show seat.colorIndex = some (seat.colorIndex.getD 0)
  rw [hc]
  rfl

/-! ## Announcements under way -/

/-- The list of the announcement that `m` has started. -/
def ServerReliable.startOf (m : String) : ServerReliable → Option (List PlayerMatchState)
  | .matchStarted m' _ players _ => if m' = m then some players else none
  | _ => none

/-- The step lets an announcement miss a player: it collects the recipients of one
while the room has a player that it does not name, or it lays the room out again under
one (which takes a first start that read the clock as 0). -/
def missesPlayer (s : Sys) : Action → Bool
  | .cast cid _ =>
    match s.casts.get cid with
    | some (.collect m (.matchStarted _ _ players _)) =>
      (s.core.rooms.get m).any fun room =>
        room.players.keys.any fun p => !players.any fun row => row.playerId == p
    | _ => false
  | .startRoom m _ _ =>
    (s.core.rooms.get m).any fun room =>
      room.startedAtUnix == 0 && s.casts.values.any fun c => (c.msg.startOf m).isSome
  | _ => false

theorem startOf_eq_some {msg : ServerReliable} {m : String} {players : List PlayerMatchState} :
    msg.startOf m = some players ↔ ∃ t ms, msg = .matchStarted m t players ms := by
  constructor
  · intro h
    cases msg with
    | matchStarted m' t players' ms =>
      simp only [ServerReliable.startOf] at h
      split at h
      · next hm =>
        subst hm
        cases h
        exact ⟨t, ms, rfl⟩
      · cases h
    | _ => cases h
  · intro h
    obtain ⟨t, ms, rfl⟩ := h
    exact if_pos rfl

/-- A broadcast that misses nobody collects players that it names. -/
theorem collects_named {s : Sys} {cid : Nat} {ch : Choice} {m m' p : String} {msg : ServerReliable}
    {players : List PlayerMatchState} {room : MatchRoom} {seat : PlayerHandle}
    (hg : missesPlayer s (.cast cid ch) = false) (hc : s.casts.get cid = some (.collect m msg))
    (hm : msg.startOf m' = some players) (hr : s.core.rooms.get m = some room)
    (hs : room.players.get p = some seat) : ∃ row ∈ players, row.playerId = p := by
  obtain ⟨t, ms, rfl⟩ := startOf_eq_some.mp hm
  simp only [missesPlayer, hc, hr, Option.any_some, List.any_eq_false] at hg
  have hp := hg p (HashMap.mem_keys.mpr ⟨seat, hs⟩)
  simpa using hp

/-- A room that is laid out has no announcement under way. -/
theorem starts_alone {s : Sys} {m : String} {sh : Shuffles} {ch : Choice} {room : MatchRoom}
    (hg : missesPlayer s (.startRoom m sh ch) = false) (hr : s.core.rooms.get m = some room)
    (h0 : room.startedAtUnix = 0) {cid : Nat} {c : Cast} (hc : s.casts.get cid = some c) :
    c.msg.startOf m = none := by
  simp only [missesPlayer, hr, Option.any_some, h0, BEq.rfl, Bool.true_and,
    List.any_eq_false] at hg
  have hnot := hg c (HashMap.mem_values.mpr ⟨cid, hc⟩)
  exact Option.not_isSome_iff_eq_none.mp hnot

/-- A first start, by the room that it lays out. -/
theorem started_by {s : Sys} {a : Action} {core : CoreState} {evs : List Event}
    (h : CoreStep s a core evs) {m : String} {t : Nat} {players : List PlayerMatchState}
    (he : Event.roomStarted m t true players ∈ evs) :
    ∃ sh ch room, a = .startRoom m sh ch ∧ s.core.rooms.get m = some room ∧
      room.startedAtUnix = 0 ∧ players = snapshotPlayers (room.start sh t) ∧
      core.rooms.get m = some (room.start sh t) := by
  cases h with
  | quiet hq => exact absurd (hq _ he) (by simp [Event.onCore])
  | @started m₀ sh ch room hr h0 =>
    obtain ⟨rfl, rfl, rfl⟩ : m = m₀ ∧ t = _ ∧ players = _ := by simpa using he
    exact ⟨sh, ch, room, rfl, hr, h0, rfl, HashMap.get_insert_self _ _ _⟩
  | startedAgain _ _ => simp at he
  | _ => simp at he

/-- An announcement under way names registered players, fits the seats there are, and
goes to players that it names. -/
def Cast.Announces (s : Sys) (tr : List Event) (c : Cast) : Prop :=
  ∀ m players, c.msg.startOf m = some players →
    (∀ row ∈ players, ∃ a tx, Event.registered m row.playerId a tx ∈ tr) ∧
    (∀ p seat, s.core.seat m p = some seat → RowFits players p seat) ∧
    match c with
    | .collect m' _ => m' = m
    | .sending txs _ => ∀ tx ∈ txs, ∃ row ∈ players, ∃ a,
        Event.registered m row.playerId a tx ∈ tr

def Announcing (s : Sys) (tr : List Event) : Prop :=
  ∀ cid c, s.casts.get cid = some c → c.Announces s tr

section Step
variable {s s' : Sys} {tr evs : List Event} {a : Action}

/-- A seat keeps fitting the rows of an announcement, unless its room is laid out. -/
theorem rowFits_step (hreg : Registry s tr) (h : Step s a s' evs) {m : String}
    {players : List PlayerMatchState}
    (hnames : ∀ row ∈ players, ∃ b tx, Event.registered m row.playerId b tx ∈ tr)
    (hfits : ∀ p seat, s.core.seat m p = some seat → RowFits players p seat)
    (hno : ∀ t ps, Event.roomStarted m t true ps ∉ evs) :
    ∀ p seat, s'.core.seat m p = some seat → RowFits players p seat := by
  intro p seat hs
  cases seat_from (step_core h) hs with
  | kept hs _ _ => exact hfits p seat hs
  | @registered name addr tx =>
    -- a named player has been registered before
    intro row hrow hp
    obtain ⟨b, tx', ho⟩ := hnames row hrow
    rw [hp] at ho
    exact absurd ho (unregistered_before hreg h (List.mem_singleton_self _) m b tx')
  | @updated seat₀ k d now mu hs₀ _ => exact (hfits p seat₀ hs₀).of_layout rfl rfl
  | laidOut _ _ => exact absurd (List.mem_singleton_self _) (hno _ _)

/-- A broadcast that the step leaves where it is. -/
theorem Cast.Announces.stays (hreg : Registry s tr) (hg : missesPlayer s a = false)
    (h : Step s a s' evs) {cid : Nat} {c : Cast} (hget : s.casts.get cid = some c)
    (hc : c.Announces s tr) : c.Announces s' (tr ++ evs) := by
  intro m players hm
  obtain ⟨hnames, hfits, hrest⟩ := hc m players hm
  refine ⟨?_, ?_, ?_⟩
  · intro row hrow
    obtain ⟨b, tx, ho⟩ := hnames row hrow
    exact ⟨b, tx, List.mem_append_left _ ho⟩
  · refine rowFits_step hreg h hnames hfits ?_
    intro t ps he
    obtain ⟨sh, ch, room, rfl, hr, h0, -⟩ := started_by (step_core h) he
    rw [starts_alone hg hr h0 hget] at hm
    cases hm
  · cases c with
    | collect m' msg => exact hrest
    | sending txs msg =>
      intro tx htx
      obtain ⟨row, hrow, b, ho⟩ := hrest tx htx
      exact ⟨row, hrow, b, List.mem_append_left _ ho⟩

theorem announces_of_none {c : Cast} (h : ∀ m, c.msg.startOf m = none) : c.Announces s tr := by
  intro m players hm
  rw [h m] at hm
  cases hm

/-- A broadcast that is done with one channel goes on to the others. -/
theorem Cast.Announces.tail {tx : ChanId} {txs : List ChanId} {msg : ServerReliable}
    (h : (Cast.sending (tx :: txs) msg).Announces s tr) :
    (Cast.sending txs msg).Announces s tr := by
  intro m players hm
  obtain ⟨hnames, hfits, hto⟩ := h m players hm
  exact ⟨hnames, hfits, fun tx' htx' => hto tx' (List.mem_cons_of_mem _ htx')⟩

theorem announcing_insert (hreg : Registry s tr) (hg : missesPlayer s a = false)
    (h : Step s a s' evs) (hi : Announcing s tr) {cid : Nat} {c' : Cast}
    (hc : s'.casts = s.casts.insert cid c') (hnew : c'.Announces s' (tr ++ evs)) :
    Announcing s' (tr ++ evs) := by
  intro cid' c hget
  rw [hc] at hget
  rcases HashMap.get_insert_cases hget with ⟨-, rfl⟩ | ⟨-, hget⟩
  · exact hnew
  · exact (hi cid' c hget).stays hreg hg h hget

/-- What a first start announces. -/
theorem announces_started (hents : Registrants s tr) (h : Step s a s' evs)
    (hcap : ∀ m room, s.core.rooms.get m = some room → room.players.len ≤ roomMaxPlayers)
    {m : String} {t ms : Nat} {players : List PlayerMatchState}
    (he : Event.roomStarted m t true players ∈ evs) :
    (Cast.collect m (.matchStarted m t players ms)).Announces s' (tr ++ evs) := by
  obtain ⟨sh, ch, room, -, hr, -, rfl, hr'⟩ := started_by (step_core h) he
  intro m' players' hm
  obtain ⟨t', ms', heq⟩ := startOf_eq_some.mp hm
  obtain ⟨rfl, rfl, rfl, rfl⟩ := ServerReliable.matchStarted.inj heq
  refine ⟨?_, ?_, rfl⟩
  · intro row hrow
    obtain ⟨p, seat, hs, rfl⟩ := mem_snapshot.mp hrow
    rw [get_start] at hs
    obtain ⟨seat₀, hs₀, -⟩ := Option.map_eq_some_iff.mp hs
    obtain ⟨b, ho, -⟩ := seat_registered hents ((seat_of_room hr p).trans hs₀)
    exact ⟨b, _, List.mem_append_left _ ho⟩
  · intro p seat hs
    exact snapshot_fits sh t (hcap m room hr) ((seat_of_room hr' p).symm.trans hs)

theorem announcing_step (hreg : Registry s tr) (hents : Registrants s tr)
    (hcap : ∀ m room, s.core.rooms.get m = some room → room.players.len ≤ roomMaxPlayers)
    (hi : Announcing s tr) (hg : missesPlayer s a = false) (h : Step s a s' evs) :
    Announcing s' (tr ++ evs) := by
  cases casts_step h with
  | quiet hc _ =>
    intro cid c hget
    rw [hc] at hget
    exact (hi cid c hget).stays hreg hg h hget
  | refused _ hc => exact announcing_insert hreg hg h hi hc (announces_of_none fun _ => rfl)
  | updated _ hc => exact announcing_insert hreg hg h hi hc (announces_of_none fun _ => rfl)
  | started _ _ _ hc =>
    exact announcing_insert hreg hg h hi hc
      (announces_started hents h hcap (List.mem_singleton_self _))
  | @cast cid ch evs hcast =>
    cases hcast with
    | noRoom _ _ | done _ =>
      intro cid' c hget
      have hget' := (HashMap.get_remove_eq_some.mp hget).2
      exact (hi cid' c hget').stays hreg hg h hget'
    | @collected m msg room txs ht hr hperm =>
      refine announcing_insert hreg hg h hi rfl ?_
      intro m' players hm
      obtain ⟨hnames, hfits, rfl⟩ := (hi cid _ ht).stays hreg hg h ht m' players hm
      refine ⟨hnames, hfits, ?_⟩
      -- a recipient is seated, and the list names it
      intro tx htx
      obtain ⟨p, seat, hs, rfl⟩ := mem_recipients.mp (hperm.mem_iff.mp htx)
      obtain ⟨row, hrow, rfl⟩ := collects_named hg ht hm hr hs
      obtain ⟨b, ho, -⟩ := seat_registered hents ((seat_of_room hr row.playerId).trans hs)
      exact ⟨row, hrow, b, List.mem_append_left _ ho⟩
    | sent ht _ _ _ | lost ht _ _ =>
      exact announcing_insert hreg hg h hi rfl ((hi cid _ ht).stays hreg hg h ht).tail

end Step

theorem announcing {s : Sys} {tr : List Event}
    (h : server.Reach (fun s a => missesPlayer s a = false) s tr) : Announcing s tr := by
  refine Machine.Reach.induct (P := Announcing) ?_ ?_ h
  · intro s hinit cid c hc
    obtain ⟨url, rfl⟩ := hinit
    cases hc
  · intro s tr a s' evs hreach ih hg hs
    exact announcing_step (registry hreach) (registrants hreach) (capacity hreach) ih hg
      (step_spec hs)

/-! ## Recipients are named -/

/-- Every announcement that the step puts into the channel of a seated player is
about its room, and names it with the layout of its seat. -/
def StartNamesRecipient (s : Sys) (evs : List Event) : Prop :=
  ∀ tx m t players ms, Event.enqueued tx (.matchStarted m t players ms) ∈ evs →
    ∀ m' p seat, s.core.seat m' p = some seat → seat.reliableTx = tx →
      m' = m ∧ Names players p seat

/-- While no announcement misses a player, every one that reaches a seated player
names it. -/
theorem start_names_recipient {s s' : Sys} {tr evs : List Event} {a : Action}
    (h : server.Reach (fun s a => missesPlayer s a = false) s tr)
    (hs : server.step s a = some (s', evs)) : StartNamesRecipient s evs := by
  intro tx m t players ms he m' p seat hseat htx
  obtain ⟨cid, txs, hc⟩ := enqueued_by (step_spec hs) he
  have hm : (ServerReliable.matchStarted m t players ms).startOf m = some players := if_pos rfl
  obtain ⟨-, hfits, hto⟩ := announcing h cid _ hc m players hm
  obtain ⟨row, hrow, b, ho⟩ := hto tx List.mem_cons_self
  -- the channel has one owner, who is registered in one room
  obtain ⟨b', ho', -⟩ := seat_registered (registrants h) hseat
  rw [htx] at ho'
  obtain rfl : row.playerId = p := (registry h).owner ho ho'
  obtain ⟨rfl, -⟩ := (registry h).once ho ho'
  exact ⟨rfl, row, hrow, rfl, hfits row.playerId seat hseat row hrow rfl⟩

/-- A room with a joined player, that has just been started, and a ticket left. -/
def justStartedRoom : List Action :=
  [.createRoom "r" 1, .issueJoinTicket ⟨"m_r", "x"⟩ "1" "t1" 1,
    .issueJoinTicket ⟨"m_r", "y"⟩ "2" "t2" 1] ++
  soloJoin 0 ⟨1, 1⟩ "t1" [{}, {}, {}, {}, {}] ++ [.startRoom "m_r" .inOrder { nowUnix := 5 }]

/-- The next message of the broadcast goes to the channel, and announces a start with
a list that `ok` accepts. -/
def sendsStart (s : Sys) (cid : Nat) (tx : ChanId) (ok : List PlayerMatchState → Bool) : Bool :=
  (server.step s (.cast cid {})).any fun r =>
    match r.2 with
    | [.enqueued tx' (.matchStarted _ _ players _)] => tx' == tx && ok players
    | _ => false

theorem sendsStart_step {s : Sys} {cid : Nat} {tx : ChanId} {ok : List PlayerMatchState → Bool}
    (h : sendsStart s cid tx ok = true) :
    ∃ s' evs m t players ms, server.step s (.cast cid {}) = some (s', evs) ∧
      Event.enqueued tx (.matchStarted m t players ms) ∈ evs ∧ ok players = true := by
  obtain ⟨⟨s', evs⟩, hs, hp⟩ := (Option.any_eq_true _ _).mp h
  dsimp only at hp
  split at hp
  · obtain ⟨htx, hok⟩ := (Bool.and_eq_true _ _).mp hp
    obtain rfl := beq_iff_eq.mp htx
    exact ⟨s', _, _, _, _, _, hs, List.mem_singleton_self _, hok⟩
  · cases hp

/-- The announcement to the joined player. -/
theorem start_names_recipient_one : ∃ s tr s' evs m t players ms seat,
    server.Reach (fun s a => missesPlayer s a = false) s tr ∧
    server.step s (.cast 0 {}) = some (s', evs) ∧
    Event.enqueued 0 (.matchStarted m t players ms) ∈ evs ∧
    s.core.seat "m_r" "p_1" = some seat ∧ Names players "p_1" seat := by
  obtain ⟨s, tr, h, hp⟩ := reach_of_actions (fun s a => missesPlayer s a = false)
    (justStartedRoom ++ [.cast 0 { txs := [0] }])
    (fun s _ => sendsStart s 0 0 (fun _ => true) &&
      (s.core.seat "m_r" "p_1").any fun seat => seat.reliableTx == 0)
    (by decide)
  obtain ⟨hsend, hp⟩ := (Bool.and_eq_true _ _).mp hp
  obtain ⟨s', evs, m, t, players, ms, hs, he, -⟩ := sendsStart_step hsend
  obtain ⟨seat, hseat, htx⟩ := (Option.any_eq_true _ _).mp hp
  exact ⟨s, tr, s', evs, m, t, players, ms, seat, h, hs, he, hseat,
    (start_names_recipient h hs 0 m t players ms he "m_r" "p_1" seat hseat (by simpa using htx)).2⟩

/-- A player that registers between the start and the collection gets an announcement
that does not name it. -/
theorem start_omits : ¬ ∀ s tr s' a evs, server.Reach Machine.anyStep s tr →
    server.step s a = some (s', evs) → StartNamesRecipient s evs := by
  intro hall
  obtain ⟨s, tr, h, hp⟩ := reach_of_actions Machine.anyStep
    (justStartedRoom ++ soloJoin 1 ⟨1, 2⟩ "t2" [{}, { fresh := 1 }, {}] ++
      [.cast 0 { txs := [1, 0] }])
    (fun s _ => sendsStart s 0 1 (fun players => players.all fun row => row.playerId != "p_2") &&
      (s.core.seat "m_r" "p_2").any fun seat => seat.reliableTx == 1)
    (by decide)
  obtain ⟨hsend, hp⟩ := (Bool.and_eq_true _ _).mp hp
  obtain ⟨s', evs, m, t, players, ms, hs, he, hok⟩ := sendsStart_step hsend
  obtain ⟨seat, hseat, htx⟩ := (Option.any_eq_true _ _).mp hp
  obtain ⟨-, row, hrow, hid, -⟩ :=
    hall s tr s' _ evs h hs 1 m t players ms he "m_r" "p_2" seat hseat (by simpa using htx)
  have hother := List.all_eq_true.mp hok row hrow
  simp [hid] at hother

end Kotatsu
