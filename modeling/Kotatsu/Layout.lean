import Kotatsu.CoreSteps

/-
  The layout of a started match (`assign_randomized_layout`)

  The loop writes one layout to each seated player, by the player's position in
  the sorted list of ids (`get_assignLoop`, `get_start`). With at most
  `roomMaxPlayers` seats, every position has a colour of its own, so a first
  start lays the room out (`start_laidOut`). A seat that is added later has no
  layout, and nothing gives it one: `laidOut_step` is the step lemma, with the
  guard that it needs.
-/

namespace Kotatsu

/-! ## The loop -/

/-- Over distinct ids, the loop gives each one the layout of its position. -/
theorem get_assignLoop (sh : Shuffles) (ids : List String) (i : Nat)
    (players : HashMap String PlayerHandle) (hnd : ids.Nodup) (p : String) :
    (assignLoop sh ids i players).get p =
      if p ∈ ids then (players.get p).map (layoutHandle sh (i + ids.idxOf p))
      else players.get p := by
  induction ids generalizing i players with
  | nil => rfl
  | cons x xs ih =>
    obtain ⟨hx, hxs⟩ := List.nodup_cons.mp hnd
    by_cases hp : p = x
    · -- its own round writes it, and no later one does
      subst hp
      cases hg : players.get p with
      | none => simp [assignLoop, hg, ih _ _ hxs, hx]
      | some player => simp [assignLoop, hg, ih _ _ hxs, hx]
    · have hi : (x :: xs).idxOf p = xs.idxOf p + 1 := List.idxOf_cons_ne xs (Ne.symm hp)
      have hidx : i + 1 + xs.idxOf p = i + (x :: xs).idxOf p := by omega
      cases hg : players.get x with
      | none => simp [assignLoop, hg, ih _ _ hxs, hp, hidx]
      | some player => simp [assignLoop, hg, ih _ _ hxs, hp, hidx, HashMap.get_insert_ne]

theorem len_assignLoop (sh : Shuffles) (ids : List String) (i : Nat)
    (players : HashMap String PlayerHandle) :
    (assignLoop sh ids i players).len = players.len := by
  induction ids generalizing i players with
  | nil => rfl
  | cons x xs ih =>
    cases hg : players.get x with
    | none => simp [assignLoop, hg, ih]
    | some player => simp [assignLoop, hg, ih, HashMap.len_insert, HashMap.contains]

theorem sortedIds_perm (players : HashMap String PlayerHandle) :
    (sortedIds players).Perm players.keys := List.perm_insertionSort _ _

theorem sortedIds_nodup (players : HashMap String PlayerHandle) : (sortedIds players).Nodup :=
  (sortedIds_perm players).nodup_iff.mpr players.keys_nodup

theorem mem_sortedIds {players : HashMap String PlayerHandle} {p : String} :
    p ∈ sortedIds players ↔ ∃ h, players.get p = some h :=
  (sortedIds_perm players).mem_iff.trans HashMap.mem_keys

/-! ## A first start -/

/-- The position that a start gives a player. -/
def MatchRoom.position (room : MatchRoom) (p : String) : Nat := (sortedIds room.players).idxOf p

theorem get_start (room : MatchRoom) (sh : Shuffles) (now : Nat) (p : String) :
    (room.start sh now).players.get p =
      (room.players.get p).map (layoutHandle sh (room.position p)) := by
  have h := get_assignLoop sh (sortedIds room.players) 0 room.players
    (sortedIds_nodup room.players) p
  show (assignLoop sh (sortedIds room.players) 0 room.players).get p = _
  rw [h]
  split
  · rw [Nat.zero_add]; rfl
  · next hp =>
    have hn : room.players.get p = none := by
      rw [mem_sortedIds, not_exists] at hp
      exact Option.eq_none_iff_forall_ne_some.mpr hp
    rw [hn]; rfl

theorem len_start (room : MatchRoom) (sh : Shuffles) (now : Nat) :
    (room.start sh now).players.len = room.players.len := len_assignLoop _ _ _ _

theorem position_lt {room : MatchRoom} {p : String} {h : PlayerHandle}
    (hp : room.players.get p = some h) : room.position p < room.players.len := by
  have hm : p ∈ sortedIds room.players := mem_sortedIds.mpr ⟨h, hp⟩
  have hl : (sortedIds room.players).length = room.players.len := by
    rw [(sortedIds_perm room.players).length_eq, HashMap.len_keys]
  rw [← hl]
  exact List.idxOf_lt_length_of_mem hm

theorem position_inj {room : MatchRoom} {p q : String} {h : PlayerHandle}
    (hp : room.players.get p = some h) (he : room.position p = room.position q) : p = q :=
  (List.idxOf_inj (mem_sortedIds.mpr ⟨h, hp⟩)).mp he

/-! ## Seats stay within capacity -/

theorem registered_len {room : MatchRoom} {p name : String} {addr : SocketAddr} {tx now : Nat}
    (hfull : ¬ room.FullFor p) (h : room.players.len ≤ roomMaxPlayers) :
    (room.register p name addr tx now).players.len ≤ roomMaxPlayers := by
  show (room.players.insert p _).len ≤ roomMaxPlayers
  rw [HashMap.len_insert]
  split
  · exact h
  · next hc =>
    have hlt : ¬ roomMaxPlayers ≤ room.players.len := fun hle => hfull ⟨hle, by simpa using hc⟩
    omega

/-- No room ever has more than `roomMaxPlayers` seats. -/
theorem capacity {G : Sys → Action → Prop} {s : Sys} {tr : List Event} (h : server.Reach G s tr) :
    ∀ m room, s.core.rooms.get m = some room → room.players.len ≤ roomMaxPlayers := by
  apply rooms_invariant (P := fun room => room.players.len ≤ roomMaxPlayers) ?_ ?_ h
  · intro now
    exact Nat.zero_le _
  · intro s tr a evs m room room' _ _ _ hl hs
    cases hs with
    | same => exact hl
    | touched => exact hl
    | registered _ hfull => exact registered_len hfull hl
    | removed _ _ => exact (HashMap.len_remove_le _ _).trans hl
    | updated hp _ =>
      show (room.players.insert _ _).len ≤ roomMaxPlayers
      rw [HashMap.len_insert, if_pos (HashMap.contains_iff.mpr ⟨_, hp⟩)]
      exact hl
    | started _ => rw [len_start]; exact hl
    | finished _ _ _ => exact hl

/-! ## Layouts -/

/-- What a started match promises a player. -/
structure PlayerHandle.LaidOut (h : PlayerHandle) : Prop where
  color : ∃ c, h.colorIndex = some c ∧ c < roomMaxPlayers
  stages : h.stageOrder.length = matchStageOrderLen
  stages_nodup : h.stageOrder.Nodup
  stages_lt : ∀ x ∈ h.stageOrder, x < matchStagePoolSize

/-- Every seat has a layout, with a colour of its own. -/
structure MatchRoom.LaidOut (room : MatchRoom) : Prop where
  seats : ∀ p h, room.players.get p = some h → h.LaidOut
  colors : ∀ p q h h', room.players.get p = some h → room.players.get q = some h' →
    h.colorIndex = h'.colorIndex → p = q

/-- A room whose seats all had their colour and stages before is laid out if it
was before. -/
theorem MatchRoom.LaidOut.of_seats {room room' : MatchRoom} (hl : room.LaidOut)
    (hs : ∀ p h', room'.players.get p = some h' → ∃ h, room.players.get p = some h ∧
      h'.colorIndex = h.colorIndex ∧ h'.stageOrder = h.stageOrder) : room'.LaidOut := by
  refine ⟨?_, ?_⟩
  · intro p h' hp'
    obtain ⟨h, hp, hc, ho⟩ := hs p h' hp'
    obtain ⟨hcol, hlen, hnd, hlt⟩ := hl.seats p h hp
    exact ⟨hc ▸ hcol, ho ▸ hlen, ho ▸ hnd, ho ▸ hlt⟩
  · intro p q h₁ h₂ hp hq he
    obtain ⟨g₁, hp₁, hc₁, -⟩ := hs p h₁ hp
    obtain ⟨g₂, hq₂, hc₂, -⟩ := hs q h₂ hq
    apply hl.colors p q g₁ g₂ hp₁ hq₂
    rw [← hc₁, ← hc₂, he]

theorem colors_get (sh : Shuffles) {i : Nat} (hi : i < roomMaxPlayers) :
    ∃ c, sh.colors.val[i]? = some c ∧ c < roomMaxPlayers := by
  have hlen : sh.colors.val.length = roomMaxPlayers := by
    rw [sh.colors.property.length_eq, List.length_range]
  have hlt : i < sh.colors.val.length := by omega
  refine ⟨sh.colors.val[i], List.getElem?_eq_getElem hlt, ?_⟩
  exact List.mem_range.mp (sh.colors.property.mem_iff.mp (List.getElem_mem hlt))

theorem layoutHandle_laidOut {sh : Shuffles} {i : Nat} (hi : i < roomMaxPlayers)
    (h : PlayerHandle) : (layoutHandle sh i h).LaidOut := by
  have hperm : (sh.stages i).val.Perm (List.range matchStagePoolSize) := (sh.stages i).property
  have hlen : (sh.stages i).val.length = matchStagePoolSize := by
    rw [hperm.length_eq, List.length_range]
  have hsub : ∀ n, ((sh.stages i).val.take n).Sublist (sh.stages i).val :=
    fun n => List.take_sublist n _
  refine ⟨colors_get sh hi, ?_, ?_, ?_⟩
  · show ((sh.stages i).val.take _).length = _
    rw [List.length_take, hlen]
    rfl
  · exact (hsub _).nodup (hperm.nodup_iff.mpr List.nodup_range)
  · intro x hx
    exact List.mem_range.mp (hperm.mem_iff.mp ((hsub _).subset hx))

/-- A first start lays out a room within capacity. -/
theorem start_laidOut {room : MatchRoom} (sh : Shuffles) (now : Nat)
    (hl : room.players.len ≤ roomMaxPlayers) : (room.start sh now).LaidOut := by
  have hget : ∀ p h', (room.start sh now).players.get p = some h' →
      ∃ h, room.players.get p = some h ∧ h' = layoutHandle sh (room.position p) h ∧
        room.position p < roomMaxPlayers := by
    intro p h' hp'
    rw [get_start] at hp'
    obtain ⟨h, hp, he⟩ := Option.map_eq_some_iff.mp hp'
    exact ⟨h, hp, he.symm, Nat.lt_of_lt_of_le (position_lt hp) hl⟩
  refine ⟨?_, ?_⟩
  · intro p h' hp'
    obtain ⟨h, -, rfl, hi⟩ := hget p h' hp'
    exact layoutHandle_laidOut hi h
  · intro p q h₁ h₂ hp' hq' he
    obtain ⟨g₁, hp, rfl, hi⟩ := hget p h₁ hp'
    obtain ⟨g₂, hq, rfl, hj⟩ := hget q h₂ hq'
    obtain ⟨c, hc, -⟩ := colors_get sh hi
    have hnd : sh.colors.val.Nodup := sh.colors.property.nodup_iff.mpr List.nodup_range
    have hlt : room.position p < sh.colors.val.length :=
      (List.getElem?_eq_some_iff.mp hc).choose
    have hij : room.position p = room.position q := (List.getElem?_inj hlt hnd).mp he
    exact position_inj hp hij

/-! ## Late seats -/

/-- The next section of the task registers a player that has no seat, in a room
that has started and has a seat to give. -/
def seatsLate (s : Sys) : Action → Bool
  | .join tid _ =>
    match s.joins.get tid with
    | some (.register _ m p _ _) =>
      match s.core.rooms.get m with
      | some room =>
        room.startedAtUnix != 0 && !room.players.contains p && room.players.len < roomMaxPlayers
      | none => false
    | _ => false
  | _ => false

/-- A step that seats nobody late keeps a started room laid out. -/
theorem laidOut_step {s : Sys} {a : Action} {evs : List Event} {m : String}
    {room room' : MatchRoom}
    (hlate : seatsLate s a = false) (hr : s.core.rooms.get m = some room)
    (hcap : room.players.len ≤ roomMaxPlayers) (hl : room.startedAtUnix ≠ 0 → room.LaidOut)
    (hs : RoomStep s m room a evs room') : room'.startedAtUnix ≠ 0 → room'.LaidOut := by
  intro h0
  cases hs with
  | same => exact hl h0
  | touched => exact (hl h0).of_seats fun p h hp => ⟨h, hp, rfl, rfl⟩
  | @registered tid ch addr p name tx now ht hfull =>
    -- the guard leaves only a player that has its seat already
    have hstarted : room.startedAtUnix ≠ 0 := h0
    have hseated : room.players.contains p = true := by
      by_contra hc
      have hlt : room.players.len < roomMaxPlayers := by
        by_contra hle
        exact hfull ⟨Nat.le_of_not_lt hle, by simpa using hc⟩
      simp [seatsLate, ht, hr, hstarted, hc, hlt] at hlate
    obtain ⟨h₀, hp₀⟩ := HashMap.contains_iff.mp hseated
    apply (hl h0).of_seats
    intro q h hq
    rw [get_register] at hq
    split at hq
    · next hqp =>
      subst hqp
      cases hq
      exact ⟨h₀, hp₀, by simp [registeredHandle, hp₀], by simp [registeredHandle, hp₀]⟩
    · exact ⟨h, hq, rfl, rfl⟩
  | removed _ _ =>
    apply (hl h0).of_seats
    intro q h hq
    exact ⟨h, (HashMap.get_remove_eq_some.mp hq).2, rfl, rfl⟩
  | @updated tid ch p k d now now' player mu hp _ =>
    apply (hl h0).of_seats
    intro q h hq
    rw [get_setParams] at hq
    split at hq
    · next hqp =>
      subst hqp
      cases hq
      exact ⟨player, hp, rfl, rfl⟩
    · exact ⟨h, hq, rfl, rfl⟩
  | started _ => exact start_laidOut _ _ hcap
  | finished _ _ _ => exact (hl h0).of_seats fun p h hp => ⟨h, hp, rfl, rfl⟩

/-- While nobody is seated late, every started room is laid out. -/
theorem started_laidOut {s : Sys} {tr : List Event}
    (h : server.Reach (fun s a => seatsLate s a = false) s tr) :
    ∀ m room, s.core.rooms.get m = some room → room.startedAtUnix ≠ 0 → room.LaidOut := by
  apply rooms_invariant (P := fun room => room.startedAtUnix ≠ 0 → room.LaidOut) ?_ ?_ h
  · intro now h0
    exact absurd rfl h0
  · intro s tr a evs m room room' hreach hlate hr hl hs
    exact laidOut_step hlate hr (capacity hreach m room hr) hl hs

/-- A start with one seat taken before it. -/
theorem started_laidOut_seated : ∃ s tr room,
    server.Reach (fun s a => seatsLate s a = false) s tr ∧
    s.core.rooms.get "m_r" = some room ∧ room.players.contains "p_1" = true ∧ room.LaidOut := by
  obtain ⟨s, tr, h, hp⟩ := reach_of_actions (fun s a => seatsLate s a = false)
    ([.createRoom "r" 1, .issueJoinTicket ⟨"m_r", "x"⟩ "1" "t" 1] ++
      soloJoin 0 ⟨1, 1⟩ "t" [{}, {}, {}] ++ [.startRoom "m_r" .inOrder { nowUnix := 5 }])
    (fun s _ => (s.core.rooms.get "m_r").any fun room =>
      room.startedAtUnix != 0 && room.players.contains "p_1") (by decide)
  obtain ⟨room, hr, hp⟩ := (Option.any_eq_true _ _).mp hp
  obtain ⟨h0, hp⟩ := (Bool.and_eq_true _ _).mp hp
  exact ⟨s, tr, room, h, hr, hp, started_laidOut h "m_r" room hr (by simpa using h0)⟩

/-- A player that registers after the start has no colour. -/
theorem late_seat_not_laidOut : ¬ ∀ s tr, server.Reach Machine.anyStep s tr →
    ∀ m room, s.core.rooms.get m = some room → room.startedAtUnix ≠ 0 → room.LaidOut := by
  intro hall
  obtain ⟨s, tr, h, hp⟩ := reach_of_actions Machine.anyStep
    ([.createRoom "r" 1, .issueJoinTicket ⟨"m_r", "x"⟩ "1" "t" 1,
      .startRoom "m_r" .inOrder { nowUnix := 5 }] ++ soloJoin 0 ⟨1, 1⟩ "t" [{}, {}, {}])
    (fun s _ => (s.core.rooms.get "m_r").any fun room =>
      room.startedAtUnix != 0 && (room.players.get "p_1").any fun h => h.colorIndex == none)
    (by decide)
  obtain ⟨room, hr, hp⟩ := (Option.any_eq_true _ _).mp hp
  obtain ⟨h0, hp⟩ := (Bool.and_eq_true _ _).mp hp
  obtain ⟨seat, hseat, hc⟩ := (Option.any_eq_true _ _).mp hp
  have hl : room.LaidOut := hall s tr h "m_r" room hr (by simpa using h0)
  obtain ⟨c, hcol, -⟩ := (hl.seats "p_1" seat hseat).color
  simp [hcol] at hc

end Kotatsu
