import Kotatsu.Registry
import Kotatsu.Sections

/-
  Copies of one join packet (`handle_join`)

  A join packet that the network or the client repeats starts one handler for each copy,
  and the handlers of the copies interleave. At most one of them consumes the ticket, so
  at most one joins. A copy that arrives at the check when the session is there is
  dropped, as `already joined`; the others are refused with `auth_failed`.

  The copies of a join that succeeds are harmless (`duplicate_joins`) if none passes the
  check while another is between its own check and the insertion of the session
  (`doubles`). The two are sections of their own, so the code does not rule that out
  (`duplicate_refused`).
-/

namespace Kotatsu

/-! ## Runs of the copies alone -/

/-- A step of the copies: one more arrives, or the handler of one goes on. The tasks of
`s₀` are handlers of other packets. -/
def copyStep (s₀ : Sys) (addr : SocketAddr) (token : String) : Action → Bool
  | .recv _ addr' (.reliable (.join token')) => addr' == addr && token' == token
  | .join tid _ => (s₀.joins.get tid).isNone
  | _ => false

/-- The task has passed its check, and has not inserted a session yet. -/
def JoinTask.entered : JoinTask → Bool
  | .consume .. => true
  | .register .. => true
  | .insert .. => true
  | _ => false

/-- The step passes the check, with another task that is new since `s₀` entered. -/
def doubles (s₀ s : Sys) : Action → Bool
  | .join tid _ =>
    match s.joins.get tid with
    | some (.check addr _) => (s.clients.get addr).isNone &&
        s.joins.toList.any fun e => e.1 != tid && (s₀.joins.get e.1).isNone && e.2.entered
    | _ => false
  | _ => false

/-- If a copy has joined, no copy was refused, and the result is the one seat that the
ticket is bound to, and its session. -/
def Harmless (s₀ : Sys) (addr : SocketAddr) (token : String) (tr : List Event) (s : Sys) : Prop :=
  (∃ m p params ms, Event.sentReliable addr (.joinOk m p params ms) ∈ tr) →
    (∀ code message, Event.sentReliable addr (.error code message) ∉ tr) ∧
    ∃ t tx, s₀.core.tickets.get token = some t ∧ s₀.core.link t.matchId t.playerId = none ∧
      (∀ m p, s.core.link m p =
        if m = t.matchId ∧ p = t.playerId then some (some (.udp addr), tx)
        else s₀.core.link m p) ∧
      ∀ addr', s.clients.get addr' =
        if addr' = addr then
          some { matchId := t.matchId, playerId := t.playerId, addr := addr, tx := tx, rx := tx }
        else s₀.clients.get addr'

/-! ## The phases of such a run -/

/-- Nothing was sent to the address. -/
def Unsent (addr : SocketAddr) (tr : List Event) : Prop :=
  ∀ msg, Event.sentReliable addr msg ∉ tr

/-- The copies other than `tid` are at their check. -/
def RestCheck (s₀ : Sys) (addr : SocketAddr) (token : String) (s : Sys) (tid : Nat) : Prop :=
  ∀ tid' t, s₀.joins.get tid' = none → tid' ≠ tid → s.joins.get tid' = some t →
    t = .check addr token

/-- The links of `s` are those of `s₀` and that of the ticket's player. -/
def SeatsOne (s₀ : Sys) (addr : SocketAddr) (t : Ticket) (tx : ChanId) (s : Sys) : Prop :=
  ∀ m p, s.core.link m p =
    if m = t.matchId ∧ p = t.playerId then some (some (.udp addr), tx) else s₀.core.link m p

/-- The sessions of `s` are those of `s₀` and that of the ticket's player. -/
def InsertsOne (s₀ : Sys) (addr : SocketAddr) (t : Ticket) (tx : ChanId) (s : Sys) : Prop :=
  s.clients = s₀.clients.insert addr
    { matchId := t.matchId, playerId := t.playerId, addr := addr, tx := tx, rx := tx }

/-- A copy that can no longer join. -/
def JoinTask.lost (addr : SocketAddr) (token : String) : JoinTask → Prop
  | .check addr' token' => addr' = addr ∧ token' = token
  | .consume addr' token' => addr' = addr ∧ token' = token
  | .sendError .. => True
  | .rollback _ => True
  | .remove _ => True
  | _ => False

/-- How far the copies have come: one of them, `tid`, is ahead of the others until it has
joined or has failed to. -/
inductive Phase (s₀ : Sys) (addr : SocketAddr) (token : String) (s : Sys) (tr : List Event) : Prop
  | entering (tid : Nat) (hcore : s.core = s₀.core) (hclients : s.clients = s₀.clients)
      (ht : ∀ t, s₀.joins.get tid = none → s.joins.get tid = some t →
        t = .check addr token ∨ t = .consume addr token)
      (hrest : RestCheck s₀ addr token s tid) (hno : Unsent addr tr)
  | registering (tid : Nat) (t : Ticket) (name : String) (tx : ChanId)
      (hnew : s₀.joins.get tid = none) (hk : s₀.core.tickets.get token = some t)
      (hlinks : ∀ m p, s.core.link m p = s₀.core.link m p)
      (hgone : s.core.tickets.get token = none) (hclients : s.clients = s₀.clients)
      (ht : s.joins.get tid = some (.register addr t.matchId t.playerId name tx))
      (hrest : RestCheck s₀ addr token s tid) (hno : Unsent addr tr)
  | inserting (tid : Nat) (t : Ticket) (tx : ChanId) (params : PlayerParams)
      (hnew : s₀.joins.get tid = none) (hk : s₀.core.tickets.get token = some t)
      (hseats : SeatsOne s₀ addr t tx s) (hgone : s.core.tickets.get token = none)
      (hclients : s.clients = s₀.clients)
      (ht : s.joins.get tid = some (.insert addr t.matchId t.playerId params tx))
      (hrest : RestCheck s₀ addr token s tid) (hno : Unsent addr tr)
  | answering (tid : Nat) (t : Ticket) (tx : ChanId) (params : PlayerParams)
      (hnew : s₀.joins.get tid = none) (hk : s₀.core.tickets.get token = some t)
      (hseats : SeatsOne s₀ addr t tx s) (hgone : s.core.tickets.get token = none)
      (hclients : InsertsOne s₀ addr t tx s)
      (ht : s.joins.get tid = some (.sendOk addr t.matchId t.playerId params))
      (hrest : RestCheck s₀ addr token s tid) (hno : Unsent addr tr)
  | joined (t : Ticket) (tx : ChanId) (hk : s₀.core.tickets.get token = some t)
      (hseats : SeatsOne s₀ addr t tx s) (hclients : InsertsOne s₀ addr t tx s)
      (hrest : ∀ tid t, s₀.joins.get tid = none → s.joins.get tid = some t → t = .check addr token)
      (hno : ∀ code message, Event.sentReliable addr (.error code message) ∉ tr)
  | failed (hgone : s.core.tickets.get token = none)
      (hlost : ∀ tid t, s₀.joins.get tid = none → s.joins.get tid = some t → t.lost addr token)
      (hno : ∀ m p params ms, Event.sentReliable addr (.joinOk m p params ms) ∉ tr)

/-! ## How the phases go on -/

section Steps
variable {s₀ s s' : Sys} {addr : SocketAddr} {token : String} {tr evs : List Event} {tid : Nat}
  {ch : Choice}

/-- Every task but `tid` is as it was. -/
def OthersStay (s s' : Sys) (tid : Nat) : Prop :=
  ∀ tid', tid' ≠ tid → s'.joins.get tid' = s.joins.get tid'

theorem others_insert {t : JoinTask} (hj : s'.joins = s.joins.insert tid t) :
    OthersStay s s' tid := by
  intro tid' hne
  rw [hj, HashMap.get_insert_ne _ _ hne]

theorem others_remove (hj : s'.joins = s.joins.remove tid) : OthersStay s s' tid := by
  intro tid' hne
  rw [hj, HashMap.get_remove_ne _ hne]

theorem RestCheck.stay (h : RestCheck s₀ addr token s tid) (hst : OthersStay s s' tid) :
    RestCheck s₀ addr token s' tid := by
  intro tid' t hnew hne ht
  rw [hst tid' hne] at ht
  exact h tid' t hnew hne ht

/-- Another copy has just been dropped at its check. -/
theorem RestCheck.dropped {tid₀ : Nat} (h : RestCheck s₀ addr token s tid₀)
    (hj : s'.joins = s.joins.remove tid) : RestCheck s₀ addr token s' tid₀ := by
  intro tid' t hnew hne ht
  rw [hj] at ht
  exact h tid' t hnew hne (HashMap.get_remove_eq_some.mp ht).2

/-- One more copy has just arrived. -/
theorem RestCheck.arrived {tid₀ : Nat} (h : RestCheck s₀ addr token s tid₀)
    (hj : s'.joins = s.joins.insert tid (.check addr token)) :
    RestCheck s₀ addr token s' tid₀ := by
  intro tid' t hnew hne ht
  rw [hj] at ht
  rcases HashMap.get_insert_cases ht with ⟨-, rfl⟩ | ⟨-, ht⟩
  · rfl
  · exact h tid' t hnew hne ht

/-- The copy that was ahead can no longer join. -/
theorem RestCheck.lost {t : JoinTask} (h : RestCheck s₀ addr token s tid)
    (hj : s'.joins = s.joins.insert tid t) (ht : t.lost addr token) :
    ∀ tid' t', s₀.joins.get tid' = none → s'.joins.get tid' = some t' → t'.lost addr token := by
  intro tid' t' hnew ht'
  rw [hj] at ht'
  rcases HashMap.get_insert_cases ht' with ⟨-, rfl⟩ | ⟨hne, ht'⟩
  · exact ht
  · rw [h tid' t' hnew hne ht']
    exact ⟨rfl, rfl⟩

theorem Unsent.append (h : Unsent addr tr) (he : Unsent addr evs) : Unsent addr (tr ++ evs) := by
  intro msg hm
  rcases List.mem_append.mp hm with hm | hm
  · exact h msg hm
  · exact he msg hm

theorem unsent_nil : Unsent addr [] := fun _ hm => nomatch hm

/-- Where no copy passes the check beside another, the others are not entered. -/
theorem not_entered (hg : doubles s₀ s (.join tid ch) = false)
    (ht : s.joins.get tid = some (.check addr token)) (hc : s.clients.get addr = none)
    {tid' : Nat} {t : JoinTask} (hnew : s₀.joins.get tid' = none) (hne : tid' ≠ tid)
    (ht' : s.joins.get tid' = some t) : t.entered = false := by
  simp only [doubles, ht, hc, Option.isNone_none, Bool.true_and] at hg
  have hnone := List.any_eq_false.mp hg (tid', t) (HashMap.mem_toList.mpr ht')
  simpa [hne, hnew] using hnone

/-- Before anyone has consumed the ticket. -/
theorem entering_step {tid₀ : Nat} (hnew : s₀.joins.get tid = none)
    (hg : doubles s₀ s (.join tid ch) = false)
    (hs : server.step s (.join tid ch) = some (s', evs)) (hcore : s.core = s₀.core)
    (hclients : s.clients = s₀.clients)
    (ht₀ : ∀ t, s₀.joins.get tid₀ = none → s.joins.get tid₀ = some t →
      t = .check addr token ∨ t = .consume addr token)
    (hrest : RestCheck s₀ addr token s tid₀) (hno : Unsent addr tr) :
    Phase s₀ addr token s' (tr ++ evs) := by
  obtain ⟨t, ht⟩ := task_present hs
  have hcheck : t = .check addr token ∨ t = .consume addr token := by
    by_cases htid : tid = tid₀
    · exact ht₀ t (htid ▸ hnew) (htid ▸ ht)
    · exact .inl (hrest tid t hnew htid ht)
  rcases hcheck with rfl | rfl
  · obtain ⟨rfl, ⟨-, rfl⟩ | ⟨hc, rfl⟩⟩ := check_section hs ht
    · refine .entering tid₀ hcore hclients ?_ (hrest.dropped rfl) (hno.append unsent_nil)
      intro t hnew ht
      exact ht₀ t hnew (HashMap.get_remove_eq_some.mp ht).2
    · -- the copy that passes is ahead now
      refine .entering tid hcore hclients ?_ ?_ (hno.append unsent_nil)
      · intro t _ ht
        rw [HashMap.get_insert_self] at ht
        cases ht
        exact .inr rfl
      · intro tid' t hnew' hne ht'
        rw [HashMap.get_insert_ne _ _ hne] at ht'
        have hout := not_entered hg ht hc hnew' hne ht'
        by_cases htid : tid' = tid₀
        · rcases ht₀ t (htid ▸ hnew') (htid ▸ ht') with rfl | rfl
          · rfl
          · cases hout
        · exact hrest tid' t hnew' htid ht'
  · have htid : tid = tid₀ := by
      by_contra hne
      cases hrest tid _ hnew hne ht
    subst htid
    obtain ⟨⟨result, rfl⟩, hcl, hrooms, hgone, ⟨t, tx, hk, hj⟩ | ⟨e, hj⟩⟩ :=
      consume_section hs ht
    · refine .registering tid t t.displayName tx hnew (hcore ▸ hk) ?_ hgone (hcl.trans hclients)
        (hj ▸ HashMap.get_insert_self _ _ _) (hrest.stay (others_insert hj))
        (hno.append fun msg hm => by simp at hm)
      intro m p
      rw [CoreState.link, CoreState.seat, hrooms, hcore]
      rfl
    · refine .failed hgone (hrest.lost hj trivial) ?_
      intro m p params ms hm
      rcases List.mem_append.mp hm with hm | hm
      · exact hno _ hm
      · simp at hm

/-- A copy that is not ahead is dropped at its check, if it may not pass. -/
theorem dropped_step {tid₀ : Nat} (hnew : s₀.joins.get tid = none) (hne : tid ≠ tid₀)
    (hrest : RestCheck s₀ addr token s tid₀) (hs : server.step s (.join tid ch) = some (s', evs))
    (hstop : s.joins.get tid = some (.check addr token) → s.clients.get addr ≠ none) :
    evs = [] ∧ s' = { s with joins := s.joins.remove tid } := by
  obtain ⟨t, ht⟩ := task_present hs
  obtain rfl := hrest tid t hnew hne ht
  obtain ⟨hevs, ⟨-, hs'⟩ | ⟨hc, -⟩⟩ := check_section hs ht
  · exact ⟨hevs, hs'⟩
  · exact absurd hc (hstop ht)

/-- The guard stops the others while one copy is entered. -/
theorem stopped {tid₀ : Nat} {t₀ : JoinTask} (hg : doubles s₀ s (.join tid ch) = false)
    (hnew₀ : s₀.joins.get tid₀ = none) (hne : tid ≠ tid₀) (ht₀ : s.joins.get tid₀ = some t₀)
    (hin : t₀.entered = true) :
    s.joins.get tid = some (.check addr token) → s.clients.get addr ≠ none := by
  intro ht hc
  rw [not_entered hg ht hc hnew₀ (Ne.symm hne) ht₀] at hin
  cases hin

theorem registering_step {tid₀ : Nat} {t : Ticket} {name : String} {tx : ChanId}
    (hnew : s₀.joins.get tid = none) (hg : doubles s₀ s (.join tid ch) = false)
    (hs : server.step s (.join tid ch) = some (s', evs)) (hnew₀ : s₀.joins.get tid₀ = none)
    (hk : s₀.core.tickets.get token = some t) (hlinks : ∀ m p, s.core.link m p = s₀.core.link m p)
    (hgone : s.core.tickets.get token = none) (hclients : s.clients = s₀.clients)
    (ht : s.joins.get tid₀ = some (.register addr t.matchId t.playerId name tx))
    (hrest : RestCheck s₀ addr token s tid₀) (hno : Unsent addr tr) :
    Phase s₀ addr token s' (tr ++ evs) := by
  by_cases htid : tid = tid₀
  · subst htid
    obtain ⟨hcl, htickets, ⟨room, params, hr, hcore, rfl, hj⟩ | ⟨e, rfl, hcore, hj⟩⟩ :=
      register_section hs ht
    · refine .inserting tid t tx params hnew₀ hk ?_ (htickets ▸ hgone) (hcl.trans hclients)
        (hj ▸ HashMap.get_insert_self _ _ _) (hrest.stay (others_insert hj))
        (hno.append fun msg hm => by simp at hm)
      intro m p
      rw [hcore, link_register hr, hlinks]
    · refine .failed (htickets ▸ hgone) (hrest.lost hj trivial) ?_
      intro m p params ms hm
      exact hno _ (by simpa using hm)
  · obtain ⟨rfl, rfl⟩ := dropped_step hnew htid hrest hs (stopped hg hnew₀ htid ht rfl)
    exact .registering tid₀ t name tx hnew₀ hk hlinks hgone hclients
      ((HashMap.get_remove_ne _ (Ne.symm htid)).trans ht) (hrest.dropped rfl)
      (hno.append unsent_nil)

theorem inserting_step {tid₀ : Nat} {t : Ticket} {tx : ChanId} {params : PlayerParams}
    (hnew : s₀.joins.get tid = none) (hg : doubles s₀ s (.join tid ch) = false)
    (hs : server.step s (.join tid ch) = some (s', evs)) (hnew₀ : s₀.joins.get tid₀ = none)
    (hk : s₀.core.tickets.get token = some t) (hseats : SeatsOne s₀ addr t tx s)
    (hgone : s.core.tickets.get token = none) (hclients : s.clients = s₀.clients)
    (ht : s.joins.get tid₀ = some (.insert addr t.matchId t.playerId params tx))
    (hrest : RestCheck s₀ addr token s tid₀) (hno : Unsent addr tr) :
    Phase s₀ addr token s' (tr ++ evs) := by
  by_cases htid : tid = tid₀
  · subst htid
    obtain ⟨rfl, hcore, hcl, hj⟩ := insert_section hs ht
    refine .answering tid t tx params hnew₀ hk ?_ (hcore ▸ hgone) ?_
      (hj ▸ HashMap.get_insert_self _ _ _) (hrest.stay (others_insert hj)) (hno.append unsent_nil)
    · intro m p
      rw [hcore]
      exact hseats m p
    · rw [InsertsOne, hcl, hclients]
  · obtain ⟨rfl, rfl⟩ := dropped_step hnew htid hrest hs (stopped hg hnew₀ htid ht rfl)
    exact .inserting tid₀ t tx params hnew₀ hk hseats hgone hclients
      ((HashMap.get_remove_ne _ (Ne.symm htid)).trans ht) (hrest.dropped rfl)
      (hno.append unsent_nil)

theorem InsertsOne.present {t : Ticket} {tx : ChanId} (h : InsertsOne s₀ addr t tx s) :
    s.clients.get addr ≠ none := by
  rw [h, HashMap.get_insert_self]
  exact nofun

/-- While the session is there, a copy at its check is dropped without a guard. -/
theorem answering_step {tid₀ : Nat} {t : Ticket} {tx : ChanId} {params : PlayerParams}
    (hnew : s₀.joins.get tid = none) (hs : server.step s (.join tid ch) = some (s', evs))
    (hnew₀ : s₀.joins.get tid₀ = none) (hk : s₀.core.tickets.get token = some t)
    (hseats : SeatsOne s₀ addr t tx s) (hgone : s.core.tickets.get token = none)
    (hclients : InsertsOne s₀ addr t tx s)
    (ht : s.joins.get tid₀ = some (.sendOk addr t.matchId t.playerId params))
    (hrest : RestCheck s₀ addr token s tid₀) (hno : Unsent addr tr) :
    Phase s₀ addr token s' (tr ++ evs) := by
  by_cases htid : tid = tid₀
  · subst htid
    obtain ⟨hcore, hcl, hsent⟩ := sendOk_section hs ht
    split at hsent
    · obtain ⟨rfl, hj⟩ := hsent
      refine .joined t tx hk ?_ (hcl.trans hclients) ?_ ?_
      · intro m p
        rw [hcore]
        exact hseats m p
      · intro tid' t' hnew' ht'
        rw [hj] at ht'
        obtain ⟨hne, ht'⟩ := HashMap.get_remove_eq_some.mp ht'
        exact hrest tid' t' hnew' hne ht'
      · intro code message hm
        exact hno _ (by simpa using hm)
    · obtain ⟨rfl, hj⟩ := hsent
      refine .failed (hcore ▸ hgone) (hrest.lost hj trivial) ?_
      intro m p params ms hm
      exact hno _ (by simpa using hm)
  · obtain ⟨rfl, rfl⟩ := dropped_step hnew htid hrest hs fun _ => hclients.present
    exact .answering tid₀ t tx params hnew₀ hk hseats hgone hclients
      ((HashMap.get_remove_ne _ (Ne.symm htid)).trans ht) (hrest.dropped rfl)
      (hno.append unsent_nil)

theorem joined_step {t : Ticket} {tx : ChanId} (hnew : s₀.joins.get tid = none)
    (hs : server.step s (.join tid ch) = some (s', evs))
    (hk : s₀.core.tickets.get token = some t) (hseats : SeatsOne s₀ addr t tx s)
    (hclients : InsertsOne s₀ addr t tx s)
    (hrest : ∀ tid t, s₀.joins.get tid = none → s.joins.get tid = some t → t = .check addr token)
    (hno : ∀ code message, Event.sentReliable addr (.error code message) ∉ tr) :
    Phase s₀ addr token s' (tr ++ evs) := by
  obtain ⟨rfl, rfl⟩ := dropped_step hnew (Nat.ne_of_lt (Nat.lt_succ_self tid))
    (fun tid' t hnew' _ ht' => hrest tid' t hnew' ht') hs fun _ => hclients.present
  refine .joined t tx hk hseats hclients ?_ ?_
  · intro tid' t' hnew' ht'
    exact hrest tid' t' hnew' (HashMap.get_remove_eq_some.mp ht').2
  · intro code message hm
    exact hno code message (by simpa using hm)

/-- No copy joins after a section that leaves its own task with none or a lost one. -/
theorem Phase.of_lost {j : Option JoinTask}
    (hlost : ∀ tid t, s₀.joins.get tid = none → s.joins.get tid = some t → t.lost addr token)
    (hno : ∀ m p params ms, Event.sentReliable addr (.joinOk m p params ms) ∉ tr)
    (hst : OthersStay s s' tid) (hj : s'.joins.get tid = j)
    (hl : ∀ t, j = some t → t.lost addr token) (hgone : s'.core.tickets.get token = none)
    (hno' : ∀ m p params ms, Event.sentReliable addr (.joinOk m p params ms) ∉ evs) :
    Phase s₀ addr token s' (tr ++ evs) := by
  refine .failed hgone ?_ ?_
  · intro tid' t hnew ht
    by_cases htid : tid' = tid
    · subst htid
      exact hl t (hj.symm.trans ht)
    · rw [hst tid' htid] at ht
      exact hlost tid' t hnew ht
  · intro m p params ms hm
    rcases List.mem_append.mp hm with hm | hm
    · exact hno m p params ms hm
    · exact hno' m p params ms hm

theorem Phase.of_inserted {t : JoinTask}
    (hlost : ∀ tid t, s₀.joins.get tid = none → s.joins.get tid = some t → t.lost addr token)
    (hno : ∀ m p params ms, Event.sentReliable addr (.joinOk m p params ms) ∉ tr)
    (hj : s'.joins = s.joins.insert tid t) (ht : t.lost addr token)
    (hgone : s'.core.tickets.get token = none)
    (hno' : ∀ m p params ms, Event.sentReliable addr (.joinOk m p params ms) ∉ evs) :
    Phase s₀ addr token s' (tr ++ evs) := by
  refine .of_lost hlost hno (others_insert hj) (hj ▸ HashMap.get_insert_self _ _ _) ?_ hgone hno'
  intro t' ht'
  cases ht'
  exact ht

theorem Phase.of_removed
    (hlost : ∀ tid t, s₀.joins.get tid = none → s.joins.get tid = some t → t.lost addr token)
    (hno : ∀ m p params ms, Event.sentReliable addr (.joinOk m p params ms) ∉ tr)
    (hj : s'.joins = s.joins.remove tid) (hgone : s'.core.tickets.get token = none)
    (hno' : ∀ m p params ms, Event.sentReliable addr (.joinOk m p params ms) ∉ evs) :
    Phase s₀ addr token s' (tr ++ evs) := by
  refine .of_lost hlost hno (others_remove hj) (j := none) ?_ ?_ hgone hno'
  · rw [hj, HashMap.get_remove_self]
  · intro t ht
    cases ht

/-- Once the ticket is gone and no copy holds it, none joins. -/
theorem failed_step (hnew : s₀.joins.get tid = none)
    (hs : server.step s (.join tid ch) = some (s', evs))
    (hgone : s.core.tickets.get token = none)
    (hlost : ∀ tid t, s₀.joins.get tid = none → s.joins.get tid = some t → t.lost addr token)
    (hno : ∀ m p params ms, Event.sentReliable addr (.joinOk m p params ms) ∉ tr) :
    Phase s₀ addr token s' (tr ++ evs) := by
  obtain ⟨t, ht⟩ := task_present hs
  have hl := hlost tid t hnew ht
  cases t with
  | check addr' token' =>
    obtain ⟨rfl, rfl⟩ := hl
    obtain ⟨rfl, ⟨-, rfl⟩ | ⟨-, rfl⟩⟩ := check_section hs ht
    · exact .of_removed hlost hno rfl hgone (by simp)
    · exact .of_inserted hlost hno rfl ⟨rfl, rfl⟩ hgone (by simp)
  | consume addr' token' =>
    obtain ⟨rfl, rfl⟩ := hl
    obtain ⟨⟨result, rfl⟩, -, -, hgone', ⟨t, _, hk, -⟩ | ⟨e, hj⟩⟩ :=
      consume_section hs ht
    · rw [hgone] at hk
      cases hk
    · exact .of_inserted hlost hno hj trivial hgone' (by simp)
  | sendError addr' code message rx =>
    obtain ⟨hcore, -, hj, rfl⟩ := error_section hs ht
    refine .of_removed hlost hno hj (hcore ▸ hgone) ?_
    intro m p params ms hm
    split at hm <;> simp at hm
  | rollback addr' =>
    obtain ⟨rfl, hcore, ⟨-, -, hj⟩ | ⟨c, -, -, hj⟩⟩ := rollback_section hs ht
    · exact .of_removed hlost hno hj (hcore ▸ hgone) (by simp)
    · exact .of_inserted hlost hno hj trivial (hcore ▸ hgone) (by simp)
  | remove c =>
    obtain ⟨-, hcore, hj, rfl⟩ := remove_section hs ht
    refine .of_removed hlost hno hj (by rw [hcore, removePlayer_tickets]; exact hgone) ?_
    intro m p params ms hm
    split at hm <;> simp at hm
  | register _ _ _ _ _ | insert _ _ _ _ _ | sendOk _ _ _ _ => exact hl.elim

/-- One more copy arrives. -/
theorem Phase.arrives (h : Phase s₀ addr token s tr) (hfree : s.joins.get tid = none)
    (hcore : s'.core = s.core) (hclients : s'.clients = s.clients)
    (hj : s'.joins = s.joins.insert tid (.check addr token)) : Phase s₀ addr token s' tr := by
  have hkeep : ∀ {tid' t}, s.joins.get tid' = some t → s'.joins.get tid' = some t := by
    intro tid' t ht
    rw [hj, HashMap.get_insert_ne _ _ (HashMap.ne_of_get_none hfree ht)]
    exact ht
  cases h with
  | entering tid₀ hc hcl ht hrest hno =>
    refine .entering tid₀ (hcore.trans hc) (hclients.trans hcl) ?_ (hrest.arrived hj) hno
    intro t hnew ht'
    rw [hj] at ht'
    rcases HashMap.get_insert_cases ht' with ⟨-, rfl⟩ | ⟨-, ht'⟩
    · exact .inl rfl
    · exact ht t hnew ht'
  | registering tid₀ t name tx hnew hk hlinks hgone hcl ht hrest hno =>
    exact .registering tid₀ t name tx hnew hk (hcore ▸ hlinks) (hcore ▸ hgone) (hclients.trans hcl)
      (hkeep ht) (hrest.arrived hj) hno
  | inserting tid₀ t tx params hnew hk hseats hgone hcl ht hrest hno =>
    exact .inserting tid₀ t tx params hnew hk (by rw [SeatsOne, hcore]; exact hseats)
      (hcore ▸ hgone) (hclients.trans hcl) (hkeep ht) (hrest.arrived hj) hno
  | answering tid₀ t tx params hnew hk hseats hgone hcl ht hrest hno =>
    exact .answering tid₀ t tx params hnew hk (by rw [SeatsOne, hcore]; exact hseats)
      (hcore ▸ hgone) (hclients.trans hcl) (hkeep ht) (hrest.arrived hj) hno
  | joined t tx hk hseats hcl hrest hno =>
    refine .joined t tx hk (by rw [SeatsOne, hcore]; exact hseats) (hclients.trans hcl) ?_ hno
    intro tid' t' hnew' ht'
    rw [hj] at ht'
    rcases HashMap.get_insert_cases ht' with ⟨-, rfl⟩ | ⟨-, ht'⟩
    · rfl
    · exact hrest tid' t' hnew' ht'
  | failed hgone hlost hno =>
    refine .failed (hcore ▸ hgone) ?_ hno
    intro tid' t' hnew' ht'
    rw [hj] at ht'
    rcases HashMap.get_insert_cases ht' with ⟨-, rfl⟩ | ⟨-, ht'⟩
    · exact ⟨rfl, rfl⟩
    · exact hlost tid' t' hnew' ht'

/-- One step of the copies. -/
theorem Phase.step (h : Phase s₀ addr token s tr) {a : Action}
    (ha : copyStep s₀ addr token a = true) (hg : doubles s₀ s a = false)
    (hs : server.step s a = some (s', evs)) : Phase s₀ addr token s' (tr ++ evs) := by
  cases a with
  | join tid ch =>
    have hnew : s₀.joins.get tid = none := Option.isNone_iff_eq_none.mp ha
    cases h with
    | entering tid₀ hcore hcl ht hrest hno =>
      exact entering_step hnew hg hs hcore hcl ht hrest hno
    | registering tid₀ t name tx hnew₀ hk hlinks hgone hcl ht hrest hno =>
      exact registering_step hnew hg hs hnew₀ hk hlinks hgone hcl ht hrest hno
    | inserting tid₀ t tx params hnew₀ hk hseats hgone hcl ht hrest hno =>
      exact inserting_step hnew hg hs hnew₀ hk hseats hgone hcl ht hrest hno
    | answering tid₀ t tx params hnew₀ hk hseats hgone hcl ht hrest hno =>
      exact answering_step hnew hs hnew₀ hk hseats hgone hcl ht hrest hno
    | joined t tx hk hseats hcl hrest hno => exact joined_step hnew hs hk hseats hcl hrest hno
    | failed hgone hlost hno => exact failed_step hnew hs hgone hlost hno
  | recv tid addr' packet =>
    unfold copyStep at ha
    split at ha
    · next heq =>
      cases heq
      simp only [Bool.and_eq_true, beq_iff_eq] at ha
      obtain ⟨rfl, rfl⟩ := ha
      change stepRecv s tid addr' (.reliable (.join _)) = some (s', evs) at hs
      simp only [stepRecv] at hs
      split at hs
      · cases hs
      · next hf =>
        cases hs
        rw [List.append_nil]
        exact h.arrives (HashMap.get_eq_none hf) rfl rfl rfl
    · next heq => cases heq
    · cases ha
  | _ => cases ha

end Steps

/-! ## The copies of a join that succeeds -/

theorem phase {s₀ s : Sys} {addr : SocketAddr} {token : String} {as : List Action}
    {tr : List Event}
    (h : server.Run (fun s a => copyStep s₀ addr token a = true ∧ doubles s₀ s a = false)
      s₀ as tr s) : Phase s₀ addr token s tr := by
  induction h with
  | nil =>
    refine .entering 0 rfl rfl ?_ ?_ unsent_nil
    · intro t hnew ht
      rw [hnew] at ht
      cases ht
    · intro tid t hnew _ ht
      rw [hnew] at ht
      cases ht
  | snoc _ hg hs ih => exact ih.step hg.1 hg.2 hs

/-- The player of a ticket that is still there has no seat. -/
theorem ticket_unseated {G : Sys → Action → Prop} {s : Sys} {tr : List Event}
    (h : server.Reach G s tr) {token : String} {t : Ticket}
    (hk : s.core.tickets.get token = some t) : s.core.link t.matchId t.playerId = none := by
  cases hl : s.core.link t.matchId t.playerId with
  | none => rfl
  | some l =>
    obtain ⟨a, tx, -, hreg⟩ := (registrants h).seat hl
    have hlate := (registry h).late hreg _ (.ticket hk rfl)
    cases hlate

/-- While no copy passes the check beside another one, copies of a join are harmless. -/
theorem duplicate_joins {s₀ s : Sys} {addr : SocketAddr} {token : String} {tr₀ tr : List Event}
    {as : List Action} (h₀ : server.Reach Machine.anyStep s₀ tr₀)
    (h : server.Run (fun s a => copyStep s₀ addr token a = true ∧ doubles s₀ s a = false)
      s₀ as tr s) : Harmless s₀ addr token tr s := by
  intro hok
  obtain ⟨m, p, params, ms, hok⟩ := hok
  cases phase h with
  | joined t tx hk hseats hclients _ hno =>
    refine ⟨hno, t, tx, hk, ticket_unseated h₀ hk, hseats, ?_⟩
    intro addr'
    rw [hclients, HashMap.get_insert]
  | entering _ _ _ _ _ hno => exact absurd hok (hno _)
  | registering _ _ _ _ _ _ _ _ _ _ _ hno => exact absurd hok (hno _)
  | inserting _ _ _ _ _ _ _ _ _ _ _ hno => exact absurd hok (hno _)
  | answering _ _ _ _ _ _ _ _ _ _ _ hno => exact absurd hok (hno _)
  | failed _ _ hno => exact absurd hok (hno _ _ _ _)

/-- Two copies in turn: the second is dropped. -/
def lateCopy : List Action :=
  soloJoin 1 ⟨1, 1⟩ "t1" [{}, {}, {}, {}, {}] ++ soloJoin 2 ⟨1, 1⟩ "t1" [{}]

/-- Two copies that both pass the check before either consumes the ticket. -/
def earlyCopy : List Action :=
  [.recv 1 ⟨1, 1⟩ (.reliable (.join "t1")), .recv 2 ⟨1, 1⟩ (.reliable (.join "t1")),
    .join 1 {}, .join 2 {}, .join 1 {}, .join 1 {}, .join 1 {}, .join 1 {}, .join 2 {}, .join 2 {}]

/-- One room with one ticket. -/
def oneTicket : List Action :=
  [.createRoom "r" 1, .issueJoinTicket ⟨"m_r", "x"⟩ "1" "t1" 1]

/-- The events have a `JoinOk` for `⟨1, 1⟩`. -/
def answered (tr : List Event) : Bool :=
  tr.any fun | .sentReliable ⟨1, 1⟩ (.joinOk ..) => true | _ => false

theorem answered_spec {tr : List Event} (h : answered tr = true) :
    ∃ m p params ms, Event.sentReliable ⟨1, 1⟩ (.joinOk m p params ms) ∈ tr := by
  obtain ⟨e, he, hok⟩ := List.any_eq_true.mp h
  split at hok
  · exact ⟨_, _, _, _, he⟩
  · cases hok

theorem duplicate_joins_late : ∃ s₀ tr₀ as tr s, server.Reach Machine.anyStep s₀ tr₀ ∧
    server.Run (fun s a => copyStep s₀ ⟨1, 1⟩ "t1" a = true ∧ doubles s₀ s a = false) s₀ as tr s ∧
    (∃ m p params ms, Event.sentReliable ⟨1, 1⟩ (.joinOk m p params ms) ∈ tr) ∧
    Harmless s₀ ⟨1, 1⟩ "t1" tr s := by
  obtain ⟨s₀, tr₀, h₀, hp⟩ := reach_of_actions Machine.anyStep oneTicket
    (fun s₀ _ => (server.exec
      (fun s a => copyStep s₀ ⟨1, 1⟩ "t1" a = true ∧ doubles s₀ s a = false) s₀ lateCopy).any
      fun r => answered r.2) (by decide)
  obtain ⟨⟨s, tr⟩, hr, hok⟩ := (Option.any_eq_true _ _).mp hp
  have hrun := Machine.run_of_exec hr
  exact ⟨s₀, tr₀, _, tr, s, h₀, hrun, answered_spec hok, duplicate_joins h₀ hrun⟩

/-- One copy joins, and the other is answered that the token is invalid. -/
theorem duplicate_refused : ¬ ∀ s₀ addr token tr₀ as tr s, server.Reach Machine.anyStep s₀ tr₀ →
    server.Run (fun _ a => copyStep s₀ addr token a = true) s₀ as tr s →
    Harmless s₀ addr token tr s := by
  intro hall
  obtain ⟨s₀, tr₀, h₀, hp⟩ := reach_of_actions Machine.anyStep oneTicket
    (fun s₀ _ => (server.exec (fun _ a => copyStep s₀ ⟨1, 1⟩ "t1" a = true) s₀ earlyCopy).any
      fun r => answered r.2 && r.2.any fun
        | .sentReliable ⟨1, 1⟩ (.error "auth_failed" "invalid_token") => true
        | _ => false) (by decide)
  obtain ⟨⟨s, tr⟩, hr, hok⟩ := (Option.any_eq_true _ _).mp hp
  obtain ⟨hok, hrefused⟩ := (Bool.and_eq_true _ _).mp hok
  obtain ⟨e, he, hmatch⟩ := List.any_eq_true.mp hrefused
  split at hmatch
  · exact (hall s₀ _ _ tr₀ _ tr s h₀ (Machine.run_of_exec hr) (answered_spec hok)).1 _ _ he
  · cases hmatch

end Kotatsu
