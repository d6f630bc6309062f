import Kotatsu.Seating

/-
  The sections of `handle_join`, by the task that runs them

  One lemma for each section says what it leaves, given where its task stands; a task
  stands there until it moves itself (`task_waits`). They serve the results that follow
  one handler, or the handlers of one packet, through a run.
-/

namespace Kotatsu

/-! ## One task among others -/

/-- The join task that takes the step. -/
def Action.joinTask : Action → Option Nat
  | .join tid _ => some tid
  | _ => none

/-- Every step that the task `tid` does not take. -/
def others (tid : Nat) : Sys → Action → Prop := fun _ a => a.joinTask ≠ some tid

instance (tid : Nat) (s : Sys) (a : Action) : Decidable (others tid s a) :=
  inferInstanceAs (Decidable (_ ≠ _))

/-- A task is where it was after any run of the others. -/
theorem task_waits {tid : Nat} {s s' : Sys} {as : List Action} {tr : List Event}
    (hrun : server.Run (others tid) s as tr s') {t : JoinTask} (ht : s.joins.get tid = some t) :
    s'.joins.get tid = some t := by
  refine hrun.keeps (P := fun s => s.joins.get tid = some t) ?_ ht
  intro s a s' evs hne ht hs
  refine join_waits (step_spec hs) ?_ ht
  intro ch heq
  exact hne (heq ▸ rfl)

/-! ## The sections -/

section Sections
variable {tid : Nat} {ch : Choice} {s s' : Sys} {evs : List Event}

/-- Only a task that is there takes a step. -/
theorem task_present (hs : server.step s (.join tid ch) = some (s', evs)) :
    ∃ t, s.joins.get tid = some t := by
  cases ht : s.joins.get tid with
  | some t => exact ⟨t, rfl⟩
  | none =>
    change stepJoin s tid ch = some (s', evs) at hs
    simp [stepJoin, ht] at hs

theorem check_section {addr : SocketAddr} {token : String}
    (hs : server.step s (.join tid ch) = some (s', evs))
    (ht : s.joins.get tid = some (.check addr token)) :
    evs = [] ∧
      (((∃ c, s.clients.get addr = some c) ∧ s' = { s with joins := s.joins.remove tid }) ∨
        (s.clients.get addr = none ∧
          s' = { s with joins := s.joins.insert tid (.consume addr token) })) := by
  change stepJoin s tid ch = some (s', evs) at hs
  simp only [stepJoin, ht] at hs
  split at hs
  · cases hs
  · split at hs
    · next hc =>
      cases hs
      exact ⟨rfl, .inl ⟨HashMap.contains_iff.mp hc, rfl⟩⟩
    · next hc =>
      cases hs
      exact ⟨rfl, .inr ⟨HashMap.get_eq_none hc, rfl⟩⟩

/-- The ticket is gone in either case. -/
theorem consume_section {addr : SocketAddr} {token : String}
    (hs : server.step s (.join tid ch) = some (s', evs))
    (ht : s.joins.get tid = some (.consume addr token)) :
    (∃ result, evs = [.ticketPresented token ch.nowUnix result]) ∧ s'.clients = s.clients ∧
      s'.core.rooms = s.core.rooms ∧ s'.core.tickets.get token = none ∧
      ((∃ t tx, s.core.tickets.get token = some t ∧ s'.joins = s.joins.insert tid
          (.register addr t.matchId t.playerId t.displayName tx)) ∨
        ∃ e, s'.joins = s.joins.insert tid (.sendError addr "auth_failed" e none)) := by
  change stepJoin s tid ch = some (s', evs) at hs
  simp only [stepJoin, ht, consumeTicket] at hs
  cases hk : s.core.tickets.get token with
  | none =>
    simp only [hk] at hs
    cases hs
    exact ⟨⟨_, rfl⟩, rfl, rfl, hk, .inr ⟨_, rfl⟩⟩
  | some t =>
    simp only [hk] at hs
    by_cases hx : t.expiresAtUnix < ch.nowUnix
    · simp only [hx, if_true] at hs
      cases hs
      exact ⟨⟨_, rfl⟩, rfl, rfl, HashMap.get_remove_self _ _, .inr ⟨_, rfl⟩⟩
    · simp only [hx, if_false] at hs
      split at hs
      · cases hs
      · cases hs
        exact ⟨⟨_, rfl⟩, rfl, rfl, HashMap.get_remove_self _ _, .inl ⟨t, ch.fresh, rfl, rfl⟩⟩

theorem register_section {addr : SocketAddr} {m p name : String} {tx : ChanId}
    (hs : server.step s (.join tid ch) = some (s', evs))
    (ht : s.joins.get tid = some (.register addr m p name tx)) :
    s'.clients = s.clients ∧ s'.core.tickets = s.core.tickets ∧
      ((∃ room params, s.core.rooms.get m = some room ∧
          s'.core = s.core.setRoom m (room.register p name addr tx ch.nowUnix) ∧
          evs = [.registered m p addr tx] ∧
          s'.joins = s.joins.insert tid (.insert addr m p params tx)) ∨
        ∃ e, evs = [.registerRefused m p e] ∧ s'.core = s.core ∧
          s'.joins = s.joins.insert tid (.sendError addr "join_failed" e (some tx))) := by
  change stepJoin s tid ch = some (s', evs) at hs
  simp only [stepJoin, ht, registerPlayerUdp] at hs
  cases hr : s.core.rooms.get m with
  | none =>
    simp only [hr] at hs
    cases hs
    exact ⟨rfl, rfl, .inr ⟨_, rfl, rfl, rfl⟩⟩
  | some room =>
    simp only [hr] at hs
    by_cases hfull : room.FullFor p
    · simp only [hfull, if_true] at hs
      cases hs
      exact ⟨rfl, rfl, .inr ⟨_, rfl, rfl, rfl⟩⟩
    · simp only [hfull, if_false] at hs
      cases hs
      exact ⟨rfl, rfl, .inl ⟨room, _, rfl, rfl, rfl, rfl⟩⟩

theorem insert_section {addr : SocketAddr} {m p : String} {params : PlayerParams} {tx : ChanId}
    (hs : server.step s (.join tid ch) = some (s', evs))
    (ht : s.joins.get tid = some (.insert addr m p params tx)) :
    evs = [] ∧ s'.core = s.core ∧
      s'.clients = s.clients.insert addr
        { matchId := m, playerId := p, addr := addr, tx := tx, rx := tx } ∧
      s'.joins = s.joins.insert tid (.sendOk addr m p params) := by
  change stepJoin s tid ch = some (s', evs) at hs
  simp only [stepJoin, ht] at hs
  split at hs
  · cases hs
  · cases hs
    exact ⟨rfl, rfl, rfl, rfl⟩

theorem sendOk_section {addr : SocketAddr} {m p : String} {params : PlayerParams}
    (hs : server.step s (.join tid ch) = some (s', evs))
    (ht : s.joins.get tid = some (.sendOk addr m p params)) :
    s'.core = s.core ∧ s'.clients = s.clients ∧
      if ch.sendOk then evs = [.sentReliable addr (.joinOk m p params ch.nowMs)] ∧
        s'.joins = s.joins.remove tid
      else evs = [] ∧ s'.joins = s.joins.insert tid (.rollback addr) := by
  change stepJoin s tid ch = some (s', evs) at hs
  simp only [stepJoin, ht] at hs
  split at hs
  · next hok =>
    cases hs
    exact ⟨rfl, rfl, by rw [if_pos hok]; exact ⟨rfl, rfl⟩⟩
  · next hok =>
    cases hs
    exact ⟨rfl, rfl, by rw [if_neg hok]; exact ⟨rfl, rfl⟩⟩

/-- The first section of `remove_client`: it takes the session of the address, if there
is one, and then goes on. -/
theorem rollback_section {addr : SocketAddr}
    (hs : server.step s (.join tid ch) = some (s', evs))
    (ht : s.joins.get tid = some (.rollback addr)) :
    evs = [] ∧ s'.core = s.core ∧
      ((s.clients.get addr = none ∧ s'.clients = s.clients ∧ s'.joins = s.joins.remove tid) ∨
        ∃ c, s.clients.get addr = some c ∧ s'.clients = s.clients.remove addr ∧
          s'.joins = s.joins.insert tid (.remove c)) := by
  change stepJoin s tid ch = some (s', evs) at hs
  simp only [stepJoin, ht] at hs
  split at hs
  · cases hs
  · split at hs
    · next hc =>
      cases hs
      exact ⟨rfl, rfl, .inl ⟨hc, rfl, rfl⟩⟩
    · next c hc =>
      cases hs
      exact ⟨rfl, rfl, .inr ⟨c, hc, rfl, rfl⟩⟩

theorem seat_removePlayer (core : CoreState) (m p : String) (now : Nat) (m' p' : String) :
    (removePlayer core m p now).seat m' p' =
      if m' = m ∧ p' = p then none else core.seat m' p' := by
  unfold removePlayer
  cases hr : core.rooms.get m with
  | none =>
    show core.seat m' p' = _
    by_cases hmp : m' = m ∧ p' = p
    · rw [if_pos hmp, hmp.1, CoreState.seat, hr]
      rfl
    · rw [if_neg hmp]
  | some room =>
    show (core.setRoom m (room.removePlayer p now)).seat m' p' = _
    rw [seat_setRoom]
    by_cases hm : m' = m
    · subst hm
      simp only [if_true, true_and, get_removePlayer, seat_of_room hr]
    · simp only [hm, if_false, false_and]

theorem removePlayer_tickets (core : CoreState) (m p : String) (now : Nat) :
    (removePlayer core m p now).tickets = core.tickets := by
  unfold removePlayer
  cases core.rooms.get m <;> rfl

/-- The second section: the seat of the session that was taken. -/
theorem remove_section {c : ClientSession} (hs : server.step s (.join tid ch) = some (s', evs))
    (ht : s.joins.get tid = some (.remove c)) :
    s'.clients = s.clients ∧ s'.core = removePlayer s.core c.matchId c.playerId ch.nowUnix ∧
      s'.joins = s.joins.remove tid ∧
      evs =
        if s.core.rooms.contains c.matchId then [.seatRemoved c.matchId c.playerId] else [] := by
  change stepJoin s tid ch = some (s', evs) at hs
  simp only [stepJoin, ht] at hs
  cases hs
  exact ⟨rfl, rfl, rfl, rfl⟩

theorem error_section {addr : SocketAddr} {code message : String} {rx : Option ChanId}
    (hs : server.step s (.join tid ch) = some (s', evs))
    (ht : s.joins.get tid = some (.sendError addr code message rx)) :
    s'.core = s.core ∧ s'.clients = s.clients ∧ s'.joins = s.joins.remove tid ∧
      evs = if ch.sendOk then [.sentReliable addr (.error code message)] else [] := by
  change stepJoin s tid ch = some (s', evs) at hs
  simp only [stepJoin, ht] at hs
  cases hs
  exact ⟨rfl, rfl, rfl, rfl⟩

end Sections

end Kotatsu
