import Kotatsu.CoreSteps

/-
  Who holds a player id

  An issued player id is in one place at a time: in a ticket, in a `handle_join`
  task, or in a session. `holds_step` says how a step moves it, and `custody`
  that it stays in at most one place over any run. Its registration is behind it
  in some places and ahead in others, and no move goes back (`Place.early`).

  Drawn identifiers are fresh, which is what starts an id off in one place.
-/

namespace Kotatsu

/-- The player id that a join task carries, from its ticket to its session and
again from its session to the removal of the seat; with it, whether the
registration is still ahead. -/
def JoinTask.player : JoinTask → Option (String × Bool)
  | .register _ _ p _ _ => some (p, true)
  | .insert _ _ p _ _ => some (p, false)
  | .remove session => some (session.playerId, false)
  | _ => none

inductive Place where
  | ticket (token : String)
  | join (tid : Nat) (early : Bool)
  | session (addr : SocketAddr)

/-- A player id here is not registered yet. -/
def Place.early : Place → Bool
  | .ticket _ => true
  | .join _ early => early
  | .session _ => false

/-- The player id `p` is at this place. -/
inductive Holds (s : Sys) (p : String) : Place → Prop
  | ticket {token : String} {t : Ticket} (h : s.core.tickets.get token = some t)
      (hp : t.playerId = p) : Holds s p (.ticket token)
  | join {tid : Nat} {t : JoinTask} {early : Bool} (h : s.joins.get tid = some t)
      (hp : t.player = some (p, early)) : Holds s p (.join tid early)
  | session {addr : SocketAddr} {c : ClientSession} (h : s.clients.get addr = some c)
      (hp : c.playerId = p) : Holds s p (.session addr)

/-! ## How an id moves -/

section Frames
variable {s s' : Sys} {p : String} {x : Place}

/-- A step that adds no ticket and no session, and no id to a join task, moves
no id. -/
theorem Holds.shrink
    (ht : ∀ token t, s'.core.tickets.get token = some t → s.core.tickets.get token = some t)
    (hc : ∀ addr c, s'.clients.get addr = some c → s.clients.get addr = some c)
    (hj : ∀ tid t p, s'.joins.get tid = some t → t.player = some p →
      ∃ t₀, s.joins.get tid = some t₀ ∧ t₀.player = some p)
    (h : Holds s' p x) : Holds s p x := by
  cases h with
  | ticket h hp => exact .ticket (ht _ _ h) hp
  | session h hp => exact .session (hc _ _ h) hp
  | join h hp =>
    obtain ⟨t₀, h₀, hp₀⟩ := hj _ _ _ h hp
    exact .join h₀ hp₀

/-- A task that is replaced by one carrying the same id, or none, adds no id. -/
theorem joins_insert_keeps {joins : HashMap Nat JoinTask} {tid : Nat} {t₁ t₀ : JoinTask}
    (h₀ : joins.get tid = some t₀) (hp : t₁.player = none ∨ t₁.player = t₀.player) :
    ∀ tid' t p, (joins.insert tid t₁).get tid' = some t → t.player = some p →
      ∃ t₀, joins.get tid' = some t₀ ∧ t₀.player = some p := by
  intro tid' t p h hpt
  rw [HashMap.get_insert] at h
  split at h
  · next ht =>
    subst ht
    cases h
    rcases hp with hp | hp
    · rw [hp] at hpt; cases hpt
    · exact ⟨t₀, h₀, hp ▸ hpt⟩
  · exact ⟨t, h, hpt⟩

theorem joins_remove_keeps {joins : HashMap Nat JoinTask} {tid : Nat} :
    ∀ tid' t p, (joins.remove tid).get tid' = some t → t.player = some p →
      ∃ t₀, joins.get tid' = some t₀ ∧ t₀.player = some p :=
  fun _ t _ h hp => ⟨t, (HashMap.get_remove_eq_some.mp h).2, hp⟩

theorem joins_new_keeps {joins : HashMap Nat JoinTask} {tid : Nat} {t₁ : JoinTask}
    (hp : t₁.player = none) :
    ∀ tid' t p, (joins.insert tid t₁).get tid' = some t → t.player = some p →
      ∃ t₀, joins.get tid' = some t₀ ∧ t₀.player = some p := by
  intro tid' t p h hpt
  rw [HashMap.get_insert] at h
  split at h
  · cases h; rw [hp] at hpt; cases hpt
  · exact ⟨t, h, hpt⟩

end Frames

/-- The ways a step can move player ids: it moves none; it puts an unseen id in
a new place; or it takes an id from its place to another. -/
inductive Moves (s s' : Sys) : Prop
  | none (h : ∀ p x, Holds s' p x → Holds s p x)
  | drawn (p₀ : String) (y : Place) (hf : p₀ ∉ s.seen) (hs : p₀ ∈ s'.seen)
      (h : ∀ p x, Holds s' p x → (p = p₀ ∧ x = y) ∨ Holds s p x)
  | moved (p₀ : String) (x₀ y : Place) (hx : Holds s p₀ x₀) (he : y.early = true → x₀.early = true)
      (h : ∀ p x, Holds s' p x → (p = p₀ ∧ x = y) ∨ (Holds s p x ∧ x ≠ x₀))

theorem join_moves {s s' : Sys} {tid : Nat} {evs : List Event} (h : JoinStep s tid s' evs) :
    Moves s s' := by
  have hid : ∀ addr c, s.clients.get addr = some c → s.clients.get addr = some c :=
    fun _ _ h => h
  have hit : ∀ token t, s.core.tickets.get token = some t → s.core.tickets.get token = some t :=
    fun _ _ h => h
  cases h with
  | alreadyJoined _ _ | okSent _ | rollbackNone _ _ | removed _ _ | removedNoRoom _ _
  | errorSent _ _ =>
    exact .none fun _ _ => Holds.shrink hit hid joins_remove_keeps
  | checked ht _ | unknownToken ht _ | joinRefused ht _ | okFailed ht =>
    exact .none fun _ _ => Holds.shrink hit hid (joins_insert_keeps ht (.inl rfl))
  | expired ht _ _ =>
    exact .none fun _ _ => Holds.shrink (fun _ _ h => (HashMap.get_remove_eq_some.mp h).2) hid
      (joins_insert_keeps ht (.inl rfl))
  | @registered addr m p₀ name room tx now ht _ _ =>
    -- the id stays in the task, its registration now behind it
    refine .moved p₀ (.join tid true) (.join tid false) (.join ht rfl) (by simp [Place.early]) ?_
    intro p x hx
    cases hx with
    | ticket h hp => exact .inr ⟨.ticket h hp, by simp⟩
    | session h hp => exact .inr ⟨.session h hp, by simp⟩
    | join h hp =>
      rw [HashMap.get_insert] at h
      split at h
      · next htid => cases h; cases hp; exact .inl ⟨rfl, by rw [htid]⟩
      · next hne => exact .inr ⟨.join h hp, by simp [hne]⟩
  | @consumed addr token _ t _ ht hk _ _ =>
    -- the id goes from the ticket to the task
    refine .moved t.playerId (.ticket token) (.join tid true) (.ticket hk rfl) (fun _ => rfl) ?_
    intro p x hx
    cases hx with
    | ticket h hp =>
      obtain ⟨hne, h⟩ := HashMap.get_remove_eq_some.mp h
      exact .inr ⟨.ticket h hp, by simpa using hne⟩
    | session h hp => exact .inr ⟨.session h hp, by simp⟩
    | join h hp =>
      rw [HashMap.get_insert] at h
      split at h
      · next htid => cases h; cases hp; exact .inl ⟨rfl, by rw [htid]⟩
      · exact .inr ⟨.join h hp, by simp⟩
  | @inserted addr m p₀ params tx ht =>
    -- the id goes from the task to the session; a session it replaces is gone
    refine .moved p₀ (.join tid false) (.session addr) (.join ht rfl) (by simp [Place.early]) ?_
    intro p x hx
    cases hx with
    | ticket h hp => exact .inr ⟨.ticket h hp, by simp⟩
    | session h hp =>
      rw [HashMap.get_insert] at h
      split at h
      · next ha => cases h; exact .inl ⟨hp.symm, by rw [ha]⟩
      · exact .inr ⟨.session h hp, by simp⟩
    | join h hp =>
      rw [HashMap.get_insert] at h
      split at h
      · cases h; cases hp
      · next hne => exact .inr ⟨.join h hp, by simp [hne]⟩
  | @rollbackTake addr session ht hc =>
    -- the id goes from the session to the task
    refine .moved session.playerId (.session addr) (.join tid false) (.session hc rfl)
      (by simp [Place.early]) ?_
    intro p x hx
    cases hx with
    | ticket h hp => exact .inr ⟨.ticket h hp, by simp⟩
    | session h hp =>
      obtain ⟨hne, h⟩ := HashMap.get_remove_eq_some.mp h
      exact .inr ⟨.session h hp, by simpa using hne⟩
    | join h hp =>
      rw [HashMap.get_insert] at h
      split at h
      · next htid => cases h; cases hp; exact .inl ⟨rfl, by rw [htid]⟩
      · exact .inr ⟨.join h hp, by simp⟩

theorem control_moves {s s' : Sys} {a : Action} {evs : List Event} (h : ControlStep s a s' evs) :
    Moves s s' := by
  cases h with
  | created _ | started _ _ _ | startedAgain _ _ | finishedFirst _ _ _ _ | finishedAgain _ _ _ _
  | listed | got _ | refused | ticked _ | ignored | paramReceived _ | datagramReceived _ =>
    exact .none fun _ _ h => by
      cases h with
      | ticket h hp => exact .ticket h hp
      | session h hp => exact .session h hp
      | join h hp => exact .join h hp
  | @issued req uuid token _ _ hp _ _ _ _ =>
    refine .drawn (playerIdOf uuid) (.ticket token) hp (by simp) ?_
    intro p x hx
    cases hx with
    | ticket h hp =>
      rw [HashMap.get_insert] at h
      split at h
      · next ht => cases h; exact .inl ⟨hp.symm, by rw [ht]⟩
      · exact .inr (.ticket h hp)
    | session h hp => exact .inr (.session h hp)
    | join h hp => exact .inr (.join h hp)
  | deleted _ =>
    exact .none fun _ _ => Holds.shrink (fun _ _ h => (HashMap.get_retain_eq_some.mp h).1)
      (fun _ _ h => h) fun _ t _ h hp => ⟨t, h, hp⟩
  | cleaned _ =>
    exact .none fun _ _ => Holds.shrink (fun _ _ h => (deleteStale_tickets.mp h).1)
      (fun _ _ h => h) fun _ t _ h hp => ⟨t, h, hp⟩
  | joinReceived _ =>
    exact .none fun _ _ => Holds.shrink (fun _ _ h => h) (fun _ _ h => h) (joins_new_keeps rfl)

/-- A step that writes no ticket, session or join task. -/
theorem Moves.of_same {s s' : Sys} (ht : s'.core.tickets = s.core.tickets)
    (hc : s'.clients = s.clients) (hj : s'.joins = s.joins) : Moves s s' :=
  .none fun _ _ => Holds.shrink (fun _ _ h => ht ▸ h) (fun _ _ h => hc ▸ h)
    fun _ t _ h hp => ⟨t, hj ▸ h, hp⟩

theorem holds_step {s s' : Sys} {a : Action} {evs : List Event} (h : Step s a s' evs) :
    Moves s s' := by
  cases h with
  | control h => exact control_moves h
  | join h => exact join_moves h
  | param h => cases h <;> exact .of_same rfl rfl rfl
  | cast h => cases h <;> exact .of_same rfl rfl rfl
  | relay h => rw [(relay_quiet h).1]; exact .of_same rfl rfl rfl
  | drain h => rw [(drain_quiet h).1]; exact .of_same rfl rfl rfl

/-- What has been seen stays seen. -/
theorem seen_step {s s' : Sys} {a : Action} {evs : List Event} (h : Step s a s' evs) {p : String}
    (hp : p ∈ s.seen) : p ∈ s'.seen := by
  cases h with
  | control h =>
    cases h with
    | created _ | joinReceived _ => exact List.mem_cons_of_mem _ hp
    | issued _ _ _ _ _ => exact List.mem_cons_of_mem _ (List.mem_cons_of_mem _ hp)
    | started _ _ _ | startedAgain _ _ | finishedFirst _ _ _ _ | finishedAgain _ _ _ _ | deleted _
    | listed | got _ | refused | ticked _ | cleaned _ | ignored | paramReceived _
    | datagramReceived _ => exact hp
  | join h => cases h <;> exact hp
  | param h => cases h <;> exact hp
  | cast h => cases h <;> exact hp
  | relay h => rw [(relay_quiet h).1]; exact hp
  | drain h => rw [(drain_quiet h).1]; exact hp

/-! ## One place at a time -/

/-- Every held id has been seen, and is held in one place. -/
structure Custody (s : Sys) : Prop where
  seen : ∀ {p x}, Holds s p x → p ∈ s.seen
  unique : ∀ {p x y}, Holds s p x → Holds s p y → x = y

theorem custody_step {s s' : Sys} {a : Action} {evs : List Event} (hi : Custody s)
    (h : Step s a s' evs) : Custody s' := by
  have hseen : ∀ {p}, p ∈ s.seen → p ∈ s'.seen := seen_step h
  cases holds_step h with
  | none hm => exact ⟨fun hx => hseen (hi.seen (hm _ _ hx)),
      fun hx hy => hi.unique (hm _ _ hx) (hm _ _ hy)⟩
  | drawn p₀ y hf hs hm =>
    refine ⟨?_, ?_⟩
    · intro p x hx
      rcases hm _ _ hx with ⟨rfl, -⟩ | hx
      · exact hs
      · exact hseen (hi.seen hx)
    · intro p x z hx hz
      rcases hm _ _ hx with ⟨rfl, rfl⟩ | hx <;> rcases hm _ _ hz with ⟨h, rfl⟩ | hz
      · rfl
      · exact absurd (hi.seen hz) hf
      · exact absurd (hi.seen hx) (h ▸ hf)
      · exact hi.unique hx hz
  | moved p₀ x₀ y hx₀ _ hm =>
    refine ⟨?_, ?_⟩
    · intro p x hx
      rcases hm _ _ hx with ⟨rfl, -⟩ | ⟨hx, -⟩
      · exact hseen (hi.seen hx₀)
      · exact hseen (hi.seen hx)
    · intro p x z hx hz
      rcases hm _ _ hx with ⟨rfl, rfl⟩ | ⟨hx, hne⟩ <;>
        rcases hm _ _ hz with ⟨h, rfl⟩ | ⟨hz, hne'⟩
      · rfl
      · exact absurd (hi.unique hz hx₀) hne'
      · subst h; exact absurd (hi.unique hx hx₀) hne
      · exact hi.unique hx hz

theorem custody {G : Sys → Action → Prop} {s : Sys} {tr : List Event}
    (h : server.Reach G s tr) : Custody s := by
  refine Machine.Reach.induct (P := fun s _ => Custody s) ?_ ?_ h
  · intro s hinit
    obtain ⟨url, rfl⟩ := hinit
    have hno : ∀ {p x}, ¬ Holds (Sys.init url) p x := by
      intro p x hx
      cases hx with
      | ticket h _ | join h _ | session h _ => cases h
    exact ⟨fun hx => absurd hx hno, fun hx _ => absurd hx hno⟩
  · intro s tr a s' evs _ ih _ hs
    exact custody_step ih (step_spec hs)

end Kotatsu
