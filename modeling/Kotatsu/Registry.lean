import Kotatsu.Custody
import Kotatsu.Seating

/-
  Registrations

  A registration gives a player id a room, an address and a channel. Over any
  run an id is registered at most once and a channel belongs to at most one
  registration (`registry`); every session, every seat, and every task that
  speaks for a player agrees with that registration (`registrants`).
-/

namespace Kotatsu

/-! ## Room ids -/

theorem created_seen {s s' : Sys} {a : Action} {evs : List Event} (h : Step s a s' evs)
    {resp : CreateRoomResponse} {now : Nat} (he : Event.roomCreated resp now ∈ evs) :
    resp.matchId ∈ s'.seen := by
  have hc : ControlStep s a s' evs := step_emitted (w := .control) h he rfl
  cases hc with
  | created _ =>
    obtain ⟨rfl, -⟩ : resp = _ ∧ _ := by simpa using he
    exact List.mem_cons_self
  | _ => simp at he

theorem rooms_seen {G : Sys → Action → Prop} {s : Sys} {tr : List Event}
    (h : server.Reach G s tr) : RoomsSeen s := by
  refine Machine.Reach.induct (P := fun s _ => RoomsSeen s) ?_ ?_ h
  · intro s hinit m room hr
    obtain ⟨url, rfl⟩ := hinit
    cases hr
  · intro s tr a s' evs _ ih _ hs m room' hr'
    have hstep : Step s a s' evs := step_spec hs
    rcases step_room (step_core hstep) hr' with ⟨-, now, -, resp, he, rfl⟩ | ⟨room, hr, -⟩
    · exact created_seen hstep he
    · exact seen_step hstep (ih m room hr)

/-! ## Registered once -/

theorem chans_step {s s' : Sys} {a : Action} {evs : List Event} (h : Step s a s' evs)
    {tx : ChanId} (hc : ∃ c, s.chans.get tx = some c) : ∃ c, s'.chans.get tx = some c := by
  cases h with
  | control h => cases h <;> exact hc
  | join h =>
    cases h with
    | consumed _ _ _ _ | removed _ _ | removedNoRoom _ _ => exact HashMap.exists_get_insert hc _ _
    | @errorSent _ _ _ rx _ _ _ =>
      show ∃ c, (closeHeld s.chans rx).get tx = some c
      cases rx with
      | none => exact hc
      | some rx => exact HashMap.exists_get_insert hc _ _
    | @inserted addr _ _ _ _ _ =>
      show ∃ c, (closeReplaced s.chans (s.clients.get addr)).get tx = some c
      cases s.clients.get addr with
      | none => exact hc
      | some session => exact HashMap.exists_get_insert hc _ _
    | _ => exact hc
  | param h => cases h <;> exact hc
  | cast h =>
    cases h with
    | sent _ _ _ _ => exact HashMap.exists_get_insert hc _ _
    | _ => exact hc
  | relay h => rw [(relay_quiet h).1]; exact hc
  | drain h =>
    cases h with
    | took _ _ _ => exact HashMap.exists_get_insert hc _ _
    | _ => exact hc

/-- The channel of a task that has no registration for it: none yet, or a refused one. -/
def JoinTask.unregistered : JoinTask → Option ChanId
  | .register _ _ _ _ tx => some tx
  | .sendError _ _ _ rx => rx
  | _ => none

/-- The task has a channel that only it knows. -/
def Unregistered (s : Sys) (tid : Nat) (tx : ChanId) : Prop :=
  ∃ t, s.joins.get tid = some t ∧ t.unregistered = some tx

/-- A registration is the step of a task that held the id, and the channel, before it. -/
theorem registered_step {s s' : Sys} {a : Action} {evs : List Event} (h : Step s a s' evs)
    {m p : String} {addr : SocketAddr} {tx : ChanId} (he : Event.registered m p addr tx ∈ evs) :
    evs = [.registered m p addr tx] ∧
    ∃ tid, Unregistered s tid tx ∧ (∀ tx', ¬ Unregistered s' tid tx') ∧
      Holds s p (.join tid true) ∧ Holds s' p (.join tid false) := by
  obtain ⟨tid, ch, -, hj⟩ := step_emitted (w := .join) h he rfl
  cases hj with
  | @registered addr' m' p' name room tx' now ht hr hfull =>
    obtain ⟨rfl, rfl, rfl, rfl⟩ : m = m' ∧ p = p' ∧ addr = addr' ∧ tx = tx' := by simpa using he
    refine ⟨rfl, tid, ⟨_, ht, rfl⟩, ?_, .join ht rfl, .join (HashMap.get_insert_self _ _ _) rfl⟩
    rintro tx' ⟨t', ht', htx'⟩
    rw [HashMap.get_insert_self] at ht'
    cases ht'
    cases htx'
  | errorSent _ hev => rcases hev with rfl | rfl <;> simp at he
  | _ => simp at he

/-- No move goes back before the registration. -/
theorem late_stays_late {s s' : Sys} {p : String} (hm : Moves s s') (hseen : p ∈ s.seen)
    (hlate : ∀ x, Holds s p x → x.early = false) : ∀ x, Holds s' p x → x.early = false := by
  intro x hx
  cases hm with
  | none hm => exact hlate x (hm p x hx)
  | drawn p₀ y hf _ hm =>
    rcases hm p x hx with ⟨rfl, -⟩ | hx
    · exact absurd hseen hf
    · exact hlate x hx
  | moved p₀ x₀ y hx₀ he hm =>
    rcases hm p x hx with ⟨rfl, rfl⟩ | ⟨hx, -⟩
    · have h₀ : x₀.early = false := hlate x₀ hx₀
      by_contra hy
      rw [he (by simpa using hy)] at h₀
      cases h₀
    · exact hlate x hx

/-- A task that has such a channel had it before the step, or has just made it; the other
tasks then stay where they are. -/
theorem unregistered_step {s s' : Sys} {a : Action} {evs : List Event} (h : Step s a s' evs)
    {tid : Nat} {tx : ChanId} (ht' : Unregistered s' tid tx) :
    Unregistered s tid tx ∨
      (s.chans.get tx = none ∧ (∃ c, s'.chans.get tx = some c) ∧
        ∀ tid' tx', tid' ≠ tid → Unregistered s' tid' tx' → Unregistered s tid' tx') := by
  obtain ⟨t, ht', htx⟩ := ht'
  cases task_from h ht' with
  | kept ht => exact .inl ⟨t, ht, htx⟩
  | refused ht => exact .inl ⟨_, ht, htx⟩
  | consumed ht hf hc =>
    cases htx
    refine .inr ⟨hf, ⟨_, hc ▸ HashMap.get_insert_self _ _ _⟩, ?_⟩
    intro tid' tx' hne hother'
    obtain ⟨t', hother', htx'⟩ := hother'
    rcases step_frame h with ⟨tid₀, ch, -, hj⟩ | hframe
    · obtain rfl : tid = tid₀ := by
        by_contra hother
        rw [join_others hj hother, ht] at ht'
        cases ht'
      exact ⟨t', by rw [← join_others hj hne, hother'], htx'⟩
    · rw [hframe.keeps tid _ ht] at ht'
      cases ht'
  | _ => cases htx

/-- What a registration in the history fixes. -/
structure Registry (s : Sys) (tr : List Event) : Prop where
  seen : ∀ {m p a tx}, Event.registered m p a tx ∈ tr → p ∈ s.seen
  /-- The registration of a registered id is behind it. -/
  late : ∀ {m p a tx}, Event.registered m p a tx ∈ tr → ∀ x, Holds s p x → x.early = false
  once : ∀ {m p a tx m' a' tx'}, Event.registered m p a tx ∈ tr →
    Event.registered m' p a' tx' ∈ tr → m = m' ∧ a = a' ∧ tx = tx'
  chan : ∀ {m p a tx}, Event.registered m p a tx ∈ tr → ∃ c, s.chans.get tx = some c
  owner : ∀ {m p a m' p' a' tx}, Event.registered m p a tx ∈ tr →
    Event.registered m' p' a' tx ∈ tr → p = p'
  /-- A channel without a registration is one task's own. -/
  opened : ∀ {tid tx}, Unregistered s tid tx → (∃ c, s.chans.get tx = some c) ∧
    (∀ m p a, Event.registered m p a tx ∉ tr) ∧ ∀ tid', Unregistered s tid' tx → tid' = tid

/-- A player that registers has not registered before, in any room. -/
theorem unregistered_before {s s' : Sys} {tr : List Event} (hreg : Registry s tr) {a : Action}
    {evs : List Event} (h : Step s a s' evs) {m p : String} {addr : SocketAddr} {tx : ChanId}
    (he : Event.registered m p addr tx ∈ evs) :
    ∀ m' a' tx', Event.registered m' p a' tx' ∉ tr := by
  intro m' a' tx' ho
  obtain ⟨-, tid, -, -, hx, -⟩ := registered_step h he
  have hlate := hreg.late ho _ hx
  cases hlate

/-- Nor has anyone with its channel. -/
theorem channel_before {s s' : Sys} {tr : List Event} (hreg : Registry s tr) {a : Action}
    {evs : List Event} (h : Step s a s' evs) {m p : String} {addr : SocketAddr} {tx : ChanId}
    (he : Event.registered m p addr tx ∈ evs) :
    ∀ m' p' a', Event.registered m' p' a' tx ∉ tr := by
  intro m' p' a' ho
  obtain ⟨-, tid, ht, -⟩ := registered_step h he
  exact (hreg.opened ht).2.1 m' p' a' ho

theorem registry_step {s s' : Sys} {tr : List Event} {a : Action} {evs : List Event}
    (hcust : Custody s) (hcust' : Custody s') (hi : Registry s tr) (h : Step s a s' evs) :
    Registry s' (tr ++ evs) := by
  refine ⟨?_, ?_, ?_, ?_, ?_, ?_⟩
  · intro m p a tx hm
    rcases List.mem_append.mp hm with ho | he
    · exact seen_step h (hi.seen ho)
    · obtain ⟨-, tid, -, -, hx, -⟩ := registered_step h he
      exact seen_step h (hcust.seen hx)
  · intro m p a tx hm x hx
    rcases List.mem_append.mp hm with ho | he
    · exact late_stays_late (holds_step h) (hi.seen ho) (hi.late ho) x hx
    · obtain ⟨-, tid, -, -, -, hx'⟩ := registered_step h he
      rw [hcust'.unique hx hx']
      rfl
  · intro m p a tx m' a' tx' hm hm'
    rcases List.mem_append.mp hm with ho | he <;> rcases List.mem_append.mp hm' with ho' | he'
    · exact hi.once ho ho'
    · exact absurd ho (unregistered_before hi h he' m a tx)
    · exact absurd ho' (unregistered_before hi h he m' a' tx')
    · rw [(registered_step h he).1] at he'
      simpa [eq_comm] using he'
  · intro m p a tx hm
    rcases List.mem_append.mp hm with ho | he
    · exact chans_step h (hi.chan ho)
    · obtain ⟨-, tid, ht, -⟩ := registered_step h he
      exact chans_step h (hi.opened ht).1
  · intro m p a m' p' a' tx hm hm'
    rcases List.mem_append.mp hm with ho | he <;> rcases List.mem_append.mp hm' with ho' | he'
    · exact hi.owner ho ho'
    · exact absurd ho (channel_before hi h he' m p a)
    · exact absurd ho' (channel_before hi h he m' p' a')
    · rw [(registered_step h he).1] at he'
      obtain ⟨-, rfl, -⟩ : m' = m ∧ p' = p ∧ a' = a := by simpa using he'
      rfl
  · intro tid tx ht'
    rcases unregistered_step h ht' with ht | ⟨hnew, hc, hothers⟩
    · obtain ⟨hc, hfree, halone⟩ := hi.opened ht
      refine ⟨chans_step h hc, ?_, ?_⟩
      · intro m p a hm
        rcases List.mem_append.mp hm with ho | he
        · exact hfree m p a ho
        · -- the task that registers is past it
          obtain ⟨-, tid₀, ht₀, hpast, -⟩ := registered_step h he
          obtain rfl := halone tid₀ ht₀
          exact hpast tx ht'
      · intro tid' ht''
        rcases unregistered_step h ht'' with ht'' | ⟨hnew, -, -⟩
        · exact halone tid' ht''
        · obtain ⟨c, hc⟩ := hc
          rw [hnew] at hc
          cases hc
    · refine ⟨hc, ?_, ?_⟩
      · intro m p a hm
        rcases List.mem_append.mp hm with ho | he
        · obtain ⟨c, hc⟩ := hi.chan ho
          rw [hnew] at hc
          cases hc
        · obtain ⟨-, tid₀, ht₀, -⟩ := registered_step h he
          obtain ⟨c, hc⟩ := (hi.opened ht₀).1
          rw [hnew] at hc
          cases hc
      · intro tid' ht''
        by_contra hne
        obtain ⟨c, hc⟩ := (hi.opened (hothers tid' tx hne ht'')).1
        rw [hnew] at hc
        cases hc

theorem registry {G : Sys → Action → Prop} {s : Sys} {tr : List Event}
    (h : server.Reach G s tr) : Registry s tr := by
  refine Machine.Reach.induct (P := Registry) ?_ ?_ h
  · intro s hinit
    obtain ⟨url, rfl⟩ := hinit
    refine ⟨?_, ?_, ?_, ?_, ?_, ?_⟩
    case refine_6 =>
      rintro tid tx ⟨t, ht, -⟩
      cases ht
    all_goals simp
  · intro s tr a s' evs hreach ih hg hs
    exact registry_step (custody hreach) (custody (hreach.step hg hs)) ih (step_spec hs)

/-! ## Everything that speaks for a player agrees with its registration -/

structure Registrants (s : Sys) (tr : List Event) : Prop where
  session : ∀ {a c}, s.clients.get a = some c →
    Event.registered c.matchId c.playerId a c.tx ∈ tr ∧ c.addr = a ∧ c.rx = c.tx
  inserting : ∀ {tid a m p params tx}, s.joins.get tid = some (.insert a m p params tx) →
    Event.registered m p a tx ∈ tr
  removing : ∀ {tid c}, s.joins.get tid = some (.remove c) →
    Event.registered c.matchId c.playerId c.addr c.tx ∈ tr ∧ c.rx = c.tx
  updating : ∀ {tid m p tx seq k d}, s.params.get tid = some (.update m p tx seq k d) →
    ∃ a, Event.registered m p a tx ∈ tr
  seat : ∀ {m p l}, s.core.link m p = some l →
    ∃ a tx, l = (some (.udp a), tx) ∧ Event.registered m p a tx ∈ tr

theorem registrants_step {s s' : Sys} {tr : List Event} {a : Action} {evs : List Event}
    (hseen : RoomsSeen s) (hi : Registrants s tr) (h : Step s a s' evs) :
    Registrants s' (tr ++ evs) := by
  refine ⟨?_, ?_, ?_, ?_, ?_⟩
  · intro addr c hc
    rcases session_from h hc with hc | ⟨tid, params, ht, haddr, hrx⟩
    · obtain ⟨hreg, hrest⟩ := hi.session hc
      exact ⟨List.mem_append_left _ hreg, hrest⟩
    · exact ⟨List.mem_append_left _ (hi.inserting ht), haddr, hrx⟩
  · intro tid addr m p params tx ht
    cases task_from h ht with
    | kept ht => exact List.mem_append_left _ (hi.inserting ht)
    | registered he => exact List.mem_append_right _ he
  · intro tid c ht
    cases task_from h ht with
    | kept ht =>
      obtain ⟨hreg, hrx⟩ := hi.removing ht
      exact ⟨List.mem_append_left _ hreg, hrx⟩
    | taken _ hc =>
      obtain ⟨hreg, haddr, hrx⟩ := hi.session hc
      exact ⟨List.mem_append_left _ (haddr.symm ▸ hreg), hrx⟩
  · intro tid m p tx seq k d ht
    rcases updating_from h ht with ht | ⟨addr, c, hc, rfl, rfl, rfl⟩
    · obtain ⟨addr, hreg⟩ := hi.updating ht
      exact ⟨addr, List.mem_append_left _ hreg⟩
    · exact ⟨addr, List.mem_append_left _ (hi.session hc).1⟩
  · intro m p l hl
    rcases link_from (link_step hseen (step_core h)) hl with hl | ⟨addr, tx, rfl, he⟩
    · obtain ⟨addr, tx, rfl, hreg⟩ := hi.seat hl
      exact ⟨addr, tx, rfl, List.mem_append_left _ hreg⟩
    · exact ⟨addr, tx, rfl, List.mem_append_right _ he⟩

theorem registrants {G : Sys → Action → Prop} {s : Sys} {tr : List Event}
    (h : server.Reach G s tr) : Registrants s tr := by
  refine Machine.Reach.induct (P := Registrants) ?_ ?_ h
  · intro s hinit
    obtain ⟨url, rfl⟩ := hinit
    refine ⟨?_, ?_, ?_, ?_, ?_⟩ <;> intros <;> next h => cases h
  · intro s tr a s' evs hreach hi _ hs
    exact registrants_step (rooms_seen hreach) hi (step_spec hs)

/-- The message in hand was taken for the session that the registry has at its address. -/
theorem in_hand {G : Sys → Action → Prop} {s : Sys} {tr : List Event} (h : server.Reach G s tr) :
    ∀ {c msg addrs}, s.drain = some (.send c msg addrs) → s.clients.get c.addr = some c := by
  refine Machine.Reach.induct (P := fun s _ => ∀ {c msg addrs},
    s.drain = some (.send c msg addrs) → s.clients.get c.addr = some c) ?_ ?_ h
  · intro s hinit c msg addrs hd
    obtain ⟨url, rfl⟩ := hinit
    cases hd
  · intro s tr a s' evs hreach ih _ hs c msg addrs hd'
    have hstep : Step s a s' evs := step_spec hs
    rcases drain_kept hstep with heq | hdrain
    · rw [heq] at hd'
      rw [clients_locked hstep (by simp [hd'])]
      exact ih hd'
    · cases hdrain with
      | took _ hc _ =>
        cases hd'
        rwa [((registrants hreach).session hc).2.1]
      | locked _ _ | unlocked _ | next _ | sent _ _ => cases hd'

/-! ## The channels and the addresses of a room -/

/-- The channel belongs to a player that has registered in the room. -/
def ChannelOf (tr : List Event) (m : String) (tx : ChanId) : Prop :=
  ∃ p a, Event.registered m p a tx ∈ tr

theorem ChannelOf.mono {tr : List Event} {m : String} {tx : ChanId} (h : ChannelOf tr m tx)
    (evs : List Event) : ChannelOf (tr ++ evs) m tx := by
  obtain ⟨p, a, ho⟩ := h
  exact ⟨p, a, List.mem_append_left _ ho⟩

/-- A channel belongs to one room. -/
theorem ChannelOf.room {s : Sys} {tr : List Event} (hreg : Registry s tr) {m m' : String}
    {tx : ChanId} (h : ChannelOf tr m tx) (h' : ChannelOf tr m' tx) : m = m' := by
  obtain ⟨p, a, ho⟩ := h
  obtain ⟨p', a', ho'⟩ := h'
  obtain rfl := hreg.owner ho ho'
  exact (hreg.once ho ho').1

end Kotatsu
