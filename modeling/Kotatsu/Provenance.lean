import Kotatsu.Lib.Moments
import Kotatsu.Tickets

/-
  Where a player id comes from

  An issued id belongs to one room (`issued_once`). Over the log of a run, whatever
  carries a player id, from a join task on, goes back to the join packet that presented
  the ticket of that id (`Joined`, `provenance`).
-/

namespace Kotatsu

/-- The log of a run of the server. -/
abbrev Log := List (Moment Sys Action Event)

/-- A run of the server with its log, by evaluation. -/
theorem log_of_actions (G : Sys → Action → Prop) [∀ s a, Decidable (G s a)] (as : List Action)
    (p : Sys → Log → Bool)
    (h : (server.recorded.exec G (Sys.init "") as).any (fun r => p r.1 r.2) = true) :
    ∃ s log, server.recorded.Reach G s log ∧ p s log = true :=
  Machine.reach_of_exec ⟨"", rfl⟩ h

open Machine (eventsOf)

/-! ## Issued ids -/

/-- A ticket for `p` in `m` was issued under this token. -/
def Issued (tr : List Event) (m p token : String) : Prop :=
  ∃ req resp now, Event.ticketIssued req resp now ∈ tr ∧ resp.matchId = m ∧ resp.playerId = p ∧
    resp.token = token

theorem Issued.mono {tr : List Event} {m p token : String} (h : Issued tr m p token)
    (evs : List Event) : Issued (tr ++ evs) m p token := by
  obtain ⟨req, resp, now, he, h⟩ := h
  exact ⟨req, resp, now, List.mem_append_left _ he, h⟩

theorem issued_draws {s s' : Sys} {a : Action} {evs : List Event} (h : Step s a s' evs)
    {m p token : String} (he : Issued evs m p token) :
    p ∉ s.seen ∧ p ∈ s'.seen ∧ ∀ m' token', Issued evs m' p token' → m' = m ∧ token' = token := by
  obtain ⟨req, resp, now, he, rfl, rfl, rfl⟩ := he
  have hc : ControlStep s a s' evs := step_emitted (w := .control) h he rfl
  cases hc with
  | issued hp _ _ _ _ =>
    obtain ⟨rfl, rfl, rfl⟩ : req = _ ∧ resp = _ ∧ now = _ := by simpa using he
    refine ⟨hp, by simp, ?_⟩
    intro m' token' hi
    obtain ⟨req', resp', now', he', rfl, -, rfl⟩ := hi
    obtain ⟨-, rfl, -⟩ : req' = _ ∧ resp' = _ ∧ now' = _ := by simpa using he'
    exact ⟨rfl, rfl⟩
  | _ => simp at he

structure IssuedOnce (s : Sys) (tr : List Event) : Prop where
  seen : ∀ {m p token}, Issued tr m p token → p ∈ s.seen
  once : ∀ {m p token m' token'}, Issued tr m p token → Issued tr m' p token' →
    m = m' ∧ token = token'

theorem issued_cases {tr evs : List Event} {m p token : String} (h : Issued (tr ++ evs) m p token) :
    Issued tr m p token ∨ Issued evs m p token := by
  obtain ⟨req, resp, now, he, h⟩ := h
  rcases List.mem_append.mp he with ho | he
  · exact .inl ⟨req, resp, now, ho, h⟩
  · exact .inr ⟨req, resp, now, he, h⟩

theorem issued_once {G : Sys → Action → Prop} {s : Sys} {tr : List Event}
    (h : server.Reach G s tr) : IssuedOnce s tr := by
  refine Machine.Reach.induct (P := IssuedOnce) ?_ ?_ h
  · intro s _
    refine ⟨?_, ?_⟩ <;> intros <;> next h => obtain ⟨_, _, _, he, -⟩ := h; cases he
  · intro s tr a s' evs _ hi _ hs
    have hstep : Step s a s' evs := step_spec hs
    refine ⟨?_, ?_⟩
    · intro m p token hm
      rcases issued_cases hm with ho | he
      · exact seen_step hstep (hi.seen ho)
      · exact (issued_draws hstep he).2.1
    · intro m p token m' token' hm hm'
      rcases issued_cases hm with ho | he <;> rcases issued_cases hm' with ho' | he'
      · exact hi.once ho ho'
      · exact absurd (hi.seen ho) (issued_draws hstep he').1
      · exact absurd (hi.seen ho') (issued_draws hstep he).1
      · obtain ⟨rfl, rfl⟩ := (issued_draws hstep he').2.2 m token he
        exact ⟨rfl, rfl⟩

/-- A stored ticket is what a request for one stored. -/
theorem stored_ticket {G : Sys → Action → Prop} {s : Sys} {tr : List Event}
    (h : server.Reach G s tr) {token : String} {t : Ticket}
    (hk : s.core.tickets.get token = some t) :
    ∃ req resp now, Event.ticketIssued req resp now ∈ tr ∧ resp.token = token ∧
      t = { matchId := resp.matchId
            playerId := resp.playerId
            displayName := normalizeDisplayName req.displayName
            expiresAtUnix := now + tokenTtlSecs } := by
  rw [tickets_history h] at hk
  obtain ⟨pre, e, post, rfl, he, -⟩ := History.cell_eq_some_iff.mp hk
  obtain ⟨req, resp, now, rfl, rfl, rfl⟩ := issues_eq_some he
  exact ⟨req, resp, now, by simp, rfl, rfl⟩

theorem ticket_issued {G : Sys → Action → Prop} {s : Sys} {tr : List Event}
    (h : server.Reach G s tr) {token : String} {t : Ticket}
    (hk : s.core.tickets.get token = some t) : Issued tr t.matchId t.playerId token := by
  obtain ⟨req, resp, now, he, htoken, rfl⟩ := stored_ticket h hk
  exact ⟨req, resp, now, he, rfl, rfl, htoken⟩

/-! ## From the join packet on -/

/-- A join packet with this token was received from `a`. -/
def Presented (log : Log) (a : SocketAddr) (token : String) : Prop :=
  ∃ x ∈ log, ∃ tid, x.action = .recv tid a (.reliable (.join token))

/-- A join from `a` consumed the ticket that was issued for `p` in `m`. -/
def Joined (log : Log) (a : SocketAddr) (m p : String) : Prop :=
  ∃ token, Presented log a token ∧ Issued (eventsOf log) m p token ∧
    ∃ x ∈ log, ∃ tid ch now name, x.action = .join tid ch ∧
      x.before.joins.get tid = some (.consume a token) ∧
      Event.ticketPresented token now (.ok (m, p, name)) ∈ x.events

theorem Presented.mono {log : Log} {a : SocketAddr} {token : String} (h : Presented log a token)
    (log' : Log) : Presented (log ++ log') a token := by
  obtain ⟨x, hx, h⟩ := h
  exact ⟨x, List.mem_append_left _ hx, h⟩

theorem Joined.mono {log : Log} {a : SocketAddr} {m p : String} (h : Joined log a m p)
    (log' : Log) : Joined (log ++ log') a m p := by
  obtain ⟨token, hp, hi, x, hx, h⟩ := h
  refine ⟨token, hp.mono log', ?_, x, List.mem_append_left _ hx, h⟩
  rw [Machine.eventsOf_append]
  exact hi.mono _

/-- Every join task under way, and every registration, goes back to a join packet. -/
structure Provenance (s : Sys) (log : Log) : Prop where
  checking : ∀ {tid a token}, s.joins.get tid = some (.check a token) → Presented log a token
  consuming : ∀ {tid a token}, s.joins.get tid = some (.consume a token) → Presented log a token
  registering : ∀ {tid a m p name tx}, s.joins.get tid = some (.register a m p name tx) →
    Joined log a m p
  registered : ∀ {m p a tx}, Event.registered m p a tx ∈ eventsOf log → Joined log a m p

/-- A task that is about to register was there before, or has just consumed its ticket. -/
theorem registering_from {s s' : Sys} {a : Action} {evs : List Event} (h : Step s a s' evs)
    {tid : Nat} {addr : SocketAddr} {m p name : String} {tx : ChanId}
    (ht' : s'.joins.get tid = some (.register addr m p name tx)) :
    s.joins.get tid = some (.register addr m p name tx) ∨
      ∃ ch token now t, a = .join tid ch ∧ s.joins.get tid = some (.consume addr token) ∧
        s.core.tickets.get token = some t ∧ m = t.matchId ∧ p = t.playerId ∧
        Event.ticketPresented token now (.ok (m, p, name)) ∈ evs := by
  rcases step_frame h with ⟨tid₀, ch, rfl, hj⟩ | hf
  · cases hj with
    | consumed ht hk _ _ =>
      rcases HashMap.get_insert_cases ht' with ⟨rfl, hnew⟩ | ⟨-, hold⟩
      · cases hnew
        exact .inr ⟨ch, _, _, _, rfl, ht, hk, rfl, rfl, List.mem_singleton_self _⟩
      · exact .inl hold
    | alreadyJoined _ _ | okSent _ | rollbackNone _ _ | removed _ _ | removedNoRoom _ _
    | errorSent _ _ => exact .inl (HashMap.get_remove_eq_some.mp ht').2
    | checked _ _ | unknownToken _ _ | expired _ _ _ | registered _ _ _ | joinRefused _ _
    | inserted _ | okFailed _ | rollbackTake _ _ =>
      rcases HashMap.get_insert_cases ht' with ⟨-, hnew⟩ | ⟨-, hold⟩
      · cases hnew
      · exact .inl hold
  · rcases hf.adds _ _ ht' with hold | ⟨_, _, hnew, -⟩
    · exact .inl hold
    · cases hnew

/-- A registration is the step of the task that is about to make it. -/
theorem registered_by {s s' : Sys} {a : Action} {evs : List Event} (h : Step s a s' evs)
    {m p : String} {addr : SocketAddr} {tx : ChanId} (he : Event.registered m p addr tx ∈ evs) :
    ∃ tid ch name, a = .join tid ch ∧ s.joins.get tid = some (.register addr m p name tx) := by
  obtain ⟨tid, ch, rfl, hj⟩ := step_emitted (w := .join) h he rfl
  cases hj with
  | registered ht _ _ =>
    obtain ⟨rfl, rfl, rfl, rfl⟩ : m = _ ∧ p = _ ∧ addr = _ ∧ tx = _ := by simpa using he
    exact ⟨tid, ch, _, rfl, ht⟩
  | errorSent _ hev => rcases hev with rfl | rfl <;> simp at he
  | _ => simp at he

/-- A task at its check was there before, or its packet has just been received. -/
theorem checking_from {s s' : Sys} {a : Action} {evs : List Event} (h : Step s a s' evs)
    {tid : Nat} {addr : SocketAddr} {token : String}
    (ht' : s'.joins.get tid = some (.check addr token)) :
    s.joins.get tid = some (.check addr token) ∨ a = .recv tid addr (.reliable (.join token)) := by
  cases h with
  | control h =>
    cases h with
    | joinReceived _ =>
      rcases HashMap.get_insert_cases ht' with ⟨rfl, hnew⟩ | ⟨-, hold⟩
      · cases hnew
        exact .inr rfl
      · exact .inl hold
    | _ => exact .inl ht'
  | join h =>
    cases h with
    | alreadyJoined _ _ | okSent _ | rollbackNone _ _ | removed _ _ | removedNoRoom _ _
    | errorSent _ _ => exact .inl (HashMap.get_remove_eq_some.mp ht').2
    | _ =>
      rcases HashMap.get_insert_cases ht' with ⟨-, hnew⟩ | ⟨-, hold⟩
      · cases hnew
      · exact .inl hold
  | param h => cases h <;> exact .inl ht'
  | cast h => cases h <;> exact .inl ht'
  | relay h => rw [(relay_quiet h).1] at ht'; exact .inl ht'
  | drain h => rw [(drain_quiet h).1] at ht'; exact .inl ht'

theorem provenance {G : Sys → Action → Prop} {s : Sys} {log : Log}
    (h : server.recorded.Reach G s log) : Provenance s log := by
  refine Machine.Reach.log_induct (P := Provenance) ?_ ?_ h
  · intro s hinit
    obtain ⟨url, rfl⟩ := hinit
    refine ⟨nofun, nofun, nofun, ?_⟩
    intro m p a tx he
    cases he
  · intro s log a s' evs hreach hi _ hs
    have hstep : Step s a s' evs := step_spec hs
    have hchecking : ∀ {tid addr token}, s'.joins.get tid = some (.check addr token) →
        Presented (log ++ [⟨s, a, evs, s'⟩]) addr token := by
      intro tid addr token ht
      rcases checking_from hstep ht with ht | rfl
      · exact (hi.checking ht).mono _
      · exact ⟨_, List.mem_append_right _ (List.mem_singleton_self _), tid, rfl⟩
    refine ⟨hchecking, ?_, ?_, ?_⟩
    · intro tid addr token ht
      cases task_from hstep ht with
      | kept ht => exact (hi.consuming ht).mono _
      | checked ht => exact (hi.checking ht).mono _
    · intro tid addr m p name tx ht'
      rcases registering_from hstep ht' with ht | ⟨ch, token, now, t, rfl, ht, hk, rfl, rfl, he⟩
      · exact (hi.registering ht).mono _
      · refine ⟨token, (hi.consuming ht).mono _, ?_, _,
          List.mem_append_right _ (List.mem_singleton_self _), tid, ch, now, name, rfl, ht, he⟩
        rw [Machine.eventsOf_append]
        exact (ticket_issued hreach.unrecorded hk).mono _
    · intro m p addr tx hm
      rw [Machine.eventsOf_append] at hm
      rcases List.mem_append.mp hm with ho | he
      · exact (hi.registered ho).mono _
      · rw [Machine.eventsOf_singleton] at he
        obtain ⟨tid, ch, name, -, ht⟩ := registered_by hstep he
        exact (hi.registering ht).mono _

end Kotatsu
