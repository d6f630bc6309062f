import Kotatsu.MatchOnce
import Kotatsu.Provenance
import Kotatsu.Sections

/-
  The first packet of a player (`handle_join`, the outgoing task)

  A seat gets messages from its registration on, its queue can be drained from the
  insertion of its session on, and `JoinOk` is sent after both, by the handler itself. The
  first packet that is sent to the address is that `JoinOk`, and nothing from the queue is
  sent before it (`joinOk_first`), if nobody else sends to the address of a player that
  still waits for it (`preempts`). The code does not see to that (`start_first`). A player
  whose `JoinOk` could not be sent waits until its handler gives up the session.
-/

namespace Kotatsu

open Machine (eventsOf)

/-! ## Packets handed to the socket -/

/-- Whether the socket takes what the step hands to it. -/
def Action.sendOk : Action → Bool
  | .join _ ch | .relay _ ch => ch.sendOk
  | .drainStep sendOk => sendOk
  | _ => false

/-- The reliable packet that the step hands to `send_to`. -/
def sends (s : Sys) : Action → Option (SocketAddr × ServerReliable)
  | .join tid ch =>
    match s.joins.get tid with
    | some (.sendOk addr matchId playerId params) =>
      some (addr, .joinOk matchId playerId params ch.nowMs)
    | some (.sendError addr code message _) => some (addr, .error code message)
    | _ => none
  | .drainStep _ =>
    match s.drain with
    | some (.send session msg _) => some (session.addr, msg)
    | _ => none
  | _ => none

/-- A packet that is handed to the socket is the step's one event, if the socket takes it. -/
theorem events_of_sends {s s' : Sys} {a : Action} {evs : List Event}
    (hs : server.step s a = some (s', evs)) {addr : SocketAddr} {msg : ServerReliable}
    (h : sends s a = some (addr, msg)) :
    evs = if a.sendOk then [.sentReliable addr msg] else [] := by
  cases a with
  | join tid ch =>
    simp only [sends] at h
    split at h
    · next addr' m p params ht =>
      obtain ⟨rfl, rfl⟩ := Prod.mk.inj (Option.some.inj h)
      obtain ⟨-, -, hsent⟩ := sendOk_section hs ht
      change evs = if ch.sendOk then _ else _
      split at hsent
      · next hok => rw [if_pos hok, hsent.1]
      · next hok => rw [if_neg hok, hsent.1]
    · next addr' code message rx ht =>
      obtain ⟨rfl, rfl⟩ := Prod.mk.inj (Option.some.inj h)
      exact (error_section hs ht).2.2.2
    · cases h
  | drainStep ok =>
    simp only [sends] at h
    split at h
    · next session msg' addrs hd =>
      obtain ⟨rfl, rfl⟩ := Prod.mk.inj (Option.some.inj h)
      simp only [server, step, drainStep, hd] at hs
      cases hs
      rfl
    · cases h
  | _ => cases h

/-- A packet that was sent was handed to the socket. -/
theorem sends_of_sent {s s' : Sys} {a : Action} {evs : List Event}
    (hs : server.step s a = some (s', evs)) {addr : SocketAddr} {msg : ServerReliable}
    (he : Event.sentReliable addr msg ∈ evs) : sends s a = some (addr, msg) := by
  cases a with
  | join tid ch =>
    have hj : JoinStep s tid s' evs := stepJoin_spec hs
    cases hj with
    | okSent ht =>
      obtain ⟨-, -, hsent⟩ := sendOk_section hs ht
      split at hsent
      · obtain ⟨hevs, -⟩ := hsent
        rw [hevs] at he
        obtain ⟨rfl, rfl⟩ := Event.sentReliable.inj (List.mem_singleton.mp he)
        simp only [sends, ht]
      · obtain ⟨hevs, -⟩ := hsent
        cases hevs
    | errorSent ht hev =>
      rcases hev with rfl | rfl
      · obtain ⟨rfl, rfl⟩ := Event.sentReliable.inj (List.mem_singleton.mp he)
        simp only [sends, ht]
      · cases he
    | _ => simp at he
  | drainStep sendOk =>
    have hdrain : DrainStep s s' evs := drainStep_spec hs
    cases hdrain with
    | sent hd hev =>
      rcases hev with rfl | rfl
      · obtain ⟨rfl, rfl⟩ := Event.sentReliable.inj (List.mem_singleton.mp he)
        simp only [sends, hd]
      · cases he
    | _ => cases he
  | drainStart order =>
    change drainStart s order = some (s', evs) at hs
    unfold drainStart at hs
    split at hs
    · cases hs
      cases he
    · cases hs
  | param tid ch => cases param_emits (stepParam_spec hs) _ he
  | cast cid ch => cases cast_emits (stepCast_spec hs) _ he
  | relay tid ch =>
    obtain ⟨_, _, heq⟩ := (relay_quiet (stepRelay_spec hs)).2 _ he
    cases heq
  | _ => cases control_emits (control_spec rfl hs) _ he

/-! ## Players that wait for their `JoinOk` -/

/-- The task has registered a player from the address, and has neither sent its `JoinOk`
nor, where that failed, taken the session. -/
def JoinTask.awaits (addr : SocketAddr) : JoinTask → Bool
  | .insert addr' _ _ _ _ | .sendOk addr' _ _ _ | .rollback addr' => addr' == addr
  | _ => false

/-- The step hands a packet to the socket for an address at which another handler has a
player that waits. -/
def preempts (s : Sys) (a : Action) : Bool :=
  (sends s a).any fun r => s.joins.toList.any fun e =>
    a.joinTask != some e.1 && e.2.awaits r.1

/-- The step gives up a join from the address whose `JoinOk` could not be sent. -/
def givesUp (s : Sys) (addr : SocketAddr) : Action → Bool
  | .join tid _ =>
    match s.joins.get tid with
    | some (.rollback addr') => addr' == addr
    | _ => false
  | _ => false

/-- The task `tid` has registered `p` in `m` from `addr`, and still waits. -/
inductive Waiting (s : Sys) (tid : Nat) (addr : SocketAddr) (m p : String) : Prop
  | registered {params : PlayerParams} {tx : ChanId}
      (ht : s.joins.get tid = some (.insert addr m p params tx)) : Waiting s tid addr m p
  | inserted {params : PlayerParams} (ht : s.joins.get tid = some (.sendOk addr m p params)) :
      Waiting s tid addr m p
  | failed (ht : s.joins.get tid = some (.rollback addr)) : Waiting s tid addr m p

theorem Waiting.awaits {s : Sys} {tid : Nat} {addr : SocketAddr} {m p : String}
    (h : Waiting s tid addr m p) : ∃ t, s.joins.get tid = some t ∧ t.awaits addr = true := by
  cases h with
  | registered ht | inserted ht | failed ht => exact ⟨_, ht, by simp [JoinTask.awaits]⟩

/-- A player waits on, unless something is sent to its address or its handler gives up. -/
theorem waiting_step {s s' : Sys} {a : Action} {evs : List Event} (h : Step s a s' evs)
    {tid : Nat} {addr : SocketAddr} {m p : String} (hw : Waiting s tid addr m p)
    (hsent : ∀ msg, Event.sentReliable addr msg ∉ evs)
    (hgives : a.joinTask = some tid → givesUp s addr a = false) : Waiting s' tid addr m p := by
  rcases step_frame h with ⟨tid₀, ch, rfl, hj⟩ | hf
  · by_cases htid : tid = tid₀
    · subst htid
      cases hw with
      | registered ht =>
        cases hj with
        | inserted ht₀ =>
          rw [ht] at ht₀
          cases ht₀
          exact .inserted (HashMap.get_insert_self _ _ _)
        | alreadyJoined ht₀ _ | checked ht₀ _ | unknownToken ht₀ _ | expired ht₀ _ _
        | consumed ht₀ _ _ _ | registered ht₀ _ _ | joinRefused ht₀ _ | okSent ht₀ | okFailed ht₀
        | rollbackNone ht₀ _ | rollbackTake ht₀ _ | removed ht₀ _ | removedNoRoom ht₀ _
        | errorSent ht₀ _ =>
          rw [ht] at ht₀
          cases ht₀
      | inserted ht =>
        cases hj with
        | okSent ht₀ =>
          rw [ht] at ht₀
          cases ht₀
          exact absurd (List.mem_singleton_self _) (hsent _)
        | okFailed ht₀ =>
          rw [ht] at ht₀
          cases ht₀
          exact .failed (HashMap.get_insert_self _ _ _)
        | alreadyJoined ht₀ _ | checked ht₀ _ | unknownToken ht₀ _ | expired ht₀ _ _
        | consumed ht₀ _ _ _ | registered ht₀ _ _ | joinRefused ht₀ _ | inserted ht₀
        | rollbackNone ht₀ _ | rollbackTake ht₀ _ | removed ht₀ _ | removedNoRoom ht₀ _
        | errorSent ht₀ _ =>
          rw [ht] at ht₀
          cases ht₀
      | failed ht =>
        have hno := hgives rfl
        simp [givesUp, ht] at hno
    · cases hw with
      | registered ht => exact .registered ((join_others hj htid).trans ht)
      | inserted ht => exact .inserted ((join_others hj htid).trans ht)
      | failed ht => exact .failed ((join_others hj htid).trans ht)
  · cases hw with
    | registered ht => exact .registered (hf.keeps _ _ ht)
    | inserted ht => exact .inserted (hf.keeps _ _ ht)
    | failed ht => exact .failed (hf.keeps _ _ ht)

/-- A packet for the address of a waiting player is its `JoinOk`, if the step preempts
nobody. -/
theorem sent_waiting {s : Sys} {a : Action} (hg : preempts s a = false) {tid : Nat}
    {addr : SocketAddr} {m p : String} (hw : Waiting s tid addr m p) {msg : ServerReliable}
    (hs : sends s a = some (addr, msg)) : ∃ params ms, msg = .joinOk m p params ms := by
  obtain ⟨t, ht, hawaits⟩ := hw.awaits
  -- any other task that answers preempts this one
  have hself : a.joinTask = some tid := by
    by_contra hother
    rw [preempts, hs, Option.any_some] at hg
    have hany := List.any_eq_false.mp hg (tid, t) (HashMap.mem_toList.mpr ht)
    simp [hawaits, hother] at hany
  cases a with
  | join tid' ch =>
    obtain rfl : tid' = tid := Option.some.inj hself
    cases hw with
    | inserted ht =>
      simp only [sends, ht] at hs
      obtain ⟨-, rfl⟩ := Prod.mk.inj (Option.some.inj hs)
      exact ⟨_, ch.nowMs, rfl⟩
    | registered ht | failed ht => simp [sends, ht] at hs
  | _ => cases hself

/-! ## Sessions whose `JoinOk` is sent -/

/-- The handler of the session is about to send its `JoinOk`, or one of its address is about
to take it, or the `JoinOk` was sent. -/
inductive Answered (s : Sys) (tr : List Event) (addr : SocketAddr) (m p : String) : Prop
  | inserted {tid : Nat} {params : PlayerParams}
      (ht : s.joins.get tid = some (.sendOk addr m p params)) : Answered s tr addr m p
  | failed {tid : Nat} (ht : s.joins.get tid = some (.rollback addr)) : Answered s tr addr m p
  | sent {params : PlayerParams} {ms : Nat}
      (he : Event.sentReliable addr (.joinOk m p params ms) ∈ tr) : Answered s tr addr m p

/-- A session that stays. -/
theorem answered_stays {s s' : Sys} {tr : List Event} {a : Action} {evs : List Event}
    (h : Step s a s' evs) {addr : SocketAddr} {c : ClientSession}
    (hc : s.clients.get addr = some c) (hc' : s'.clients.get addr = some c)
    (hi : Answered s tr addr c.matchId c.playerId) :
    Answered s' (tr ++ evs) addr c.matchId c.playerId := by
  cases hi with
  | sent he => exact .sent (List.mem_append_left _ he)
  | @inserted tid params ht =>
    rcases step_frame h with ⟨tid₀, ch, -, hj⟩ | hf
    · by_cases htid : tid = tid₀
      · subst htid
        cases hj with
        | okSent ht₀ =>
          rw [ht] at ht₀
          cases ht₀
          exact .sent (List.mem_append_right _ (List.mem_singleton_self _))
        | okFailed ht₀ =>
          rw [ht] at ht₀
          cases ht₀
          exact .failed (HashMap.get_insert_self _ _ _)
        | alreadyJoined ht₀ _ | checked ht₀ _ | unknownToken ht₀ _ | expired ht₀ _ _
        | consumed ht₀ _ _ _ | registered ht₀ _ _ | joinRefused ht₀ _ | inserted ht₀
        | rollbackNone ht₀ _ | rollbackTake ht₀ _ | removed ht₀ _ | removedNoRoom ht₀ _
        | errorSent ht₀ _ =>
          rw [ht] at ht₀
          cases ht₀
      · exact .inserted ((join_others hj htid).trans ht)
    · exact .inserted (hf.keeps _ _ ht)
  | @failed tid ht =>
    rcases step_frame h with ⟨tid₀, ch, -, hj⟩ | hf
    · by_cases htid : tid = tid₀
      · subst htid
        cases hj with
        | rollbackNone ht₀ hnone =>
          rw [ht] at ht₀
          cases ht₀
          rw [hnone] at hc
          cases hc
        | rollbackTake ht₀ _ =>
          -- the session would be gone
          rw [ht] at ht₀
          cases ht₀
          exact absurd rfl (HashMap.get_remove_eq_some.mp hc').1
        | alreadyJoined ht₀ _ | checked ht₀ _ | unknownToken ht₀ _ | expired ht₀ _ _
        | consumed ht₀ _ _ _ | registered ht₀ _ _ | joinRefused ht₀ _ | inserted ht₀
        | okSent ht₀ | okFailed ht₀ | removed ht₀ _ | removedNoRoom ht₀ _ | errorSent ht₀ _ =>
          rw [ht] at ht₀
          cases ht₀
      · exact .failed ((join_others hj htid).trans ht)
    · exact .failed (hf.keeps _ _ ht)

theorem session_answered {G : Sys → Action → Prop} {s : Sys} {tr : List Event}
    (h : server.Reach G s tr) :
    ∀ addr c, s.clients.get addr = some c → Answered s tr addr c.matchId c.playerId := by
  refine Machine.Reach.induct (P := fun s tr => ∀ addr c, s.clients.get addr = some c →
    Answered s tr addr c.matchId c.playerId) ?_ ?_ h
  · intro s hinit addr c hc
    obtain ⟨url, rfl⟩ := hinit
    cases hc
  · intro s tr a s' evs _ ih _ hs addr c hc'
    have hstep : Step s a s' evs := step_spec hs
    by_cases hc : s.clients.get addr = some c
    · exact answered_stays hstep hc hc' (ih addr c hc)
    · -- the session has just been inserted, by the task that sends next
      rcases step_frame hstep with ⟨tid, ch, -, hj⟩ | hf
      · cases hj with
        | inserted _ =>
          rcases HashMap.get_insert_cases hc' with ⟨rfl, rfl⟩ | ⟨-, hold⟩
          · exact .inserted (HashMap.get_insert_self _ _ _)
          · exact absurd hold hc
        | rollbackTake _ _ => exact absurd (HashMap.get_remove_eq_some.mp hc').2 hc
        | _ => exact absurd hc' hc
      · exact absurd (hf.clients ▸ hc') hc

/-! ## `JoinOk` comes first -/

/-- After a registration, the first packet that is sent to its address is the `JoinOk` of its
player, unless that could not be sent and its handler has given up; and what is queued for a
session is sent after the `JoinOk` of its player. -/
structure JoinOkFirst (log : Log) : Prop where
  first : ∀ {pre mid post : Log} {x y : Moment Sys Action Event} {m p : String}
    {addr : SocketAddr} {tx : ChanId} {msg : ServerReliable},
    log = pre ++ x :: (mid ++ y :: post) → Event.registered m p addr tx ∈ x.events →
    (∀ z ∈ mid, ∀ msg', Event.sentReliable addr msg' ∉ z.events) →
    Event.sentReliable addr msg ∈ y.events → (∃ params ms, msg = .joinOk m p params ms) ∨
      ∃ z ∈ mid, z.action.joinTask = x.action.joinTask ∧ givesUp z.before addr z.action = true
  queued : ∀ {pre post : Log} {y : Moment Sys Action Event} {c : ClientSession}
    {msg : ServerReliable} {addrs : List SocketAddr} {ok : Bool}, log = pre ++ y :: post →
    y.before.drain = some (.send c msg addrs) → y.action = .drainStep ok →
    Event.sentReliable c.addr msg ∈ y.events →
    ∃ params ms, Event.sentReliable c.addr (.joinOk c.matchId c.playerId params ms) ∈ eventsOf pre

/-- Right after its registration, the task is about to insert the session. -/
theorem registered_waits {s s' : Sys} {a : Action} {evs : List Event} (h : Step s a s' evs)
    {m p : String} {addr : SocketAddr} {tx : ChanId} (he : Event.registered m p addr tx ∈ evs) :
    ∃ tid, a.joinTask = some tid ∧ Waiting s' tid addr m p := by
  obtain ⟨tid, ch, rfl, hj⟩ := step_emitted (w := .join) h he rfl
  cases hj with
  | registered _ _ _ =>
    obtain ⟨rfl, rfl, rfl, rfl⟩ : m = _ ∧ p = _ ∧ addr = _ ∧ tx = _ := by simpa using he
    exact ⟨tid, rfl, .registered (HashMap.get_insert_self _ _ _)⟩
  | errorSent _ hev => rcases hev with rfl | rfl <;> simp at he
  | _ => simp at he

/-- The player waits from its registration on, until something is sent to its address or its
handler gives up. -/
theorem waiting_since {G : Sys → Action → Prop} {s : Sys} {pre mid : Log}
    {x : Moment Sys Action Event} {m p : String} {addr : SocketAddr} {tx : ChanId}
    (h : server.recorded.Reach G s (pre ++ x :: mid))
    (he : Event.registered m p addr tx ∈ x.events)
    (hsent : ∀ z ∈ mid, ∀ msg, Event.sentReliable addr msg ∉ z.events)
    (hgives : ∀ z ∈ mid, z.action.joinTask = x.action.joinTask →
      givesUp z.before addr z.action = false) : ∃ tid, Waiting s tid addr m p := by
  obtain ⟨-, -, hs⟩ := Machine.moment_at h
  obtain ⟨tid, htask, hw⟩ := registered_waits (step_spec hs) he
  refine ⟨tid, Machine.kept_since (P := fun s => Waiting s tid addr m p) h hw ?_⟩
  intro before z after hsplit _ hs hw
  have hz : z ∈ mid := hsplit ▸ List.mem_append_right _ List.mem_cons_self
  exact waiting_step (step_spec hs) hw (hsent z hz) fun htid => hgives z hz (htid.trans htask.symm)

/-- While no step preempts a waiting player, its `JoinOk` comes first. -/
theorem joinOk_first {s : Sys} {log : Log}
    (h : server.recorded.Reach (fun s a => preempts s a = false) s log) : JoinOkFirst log := by
  refine ⟨?_, ?_⟩
  · intro pre mid post x y m p addr tx msg heq he hno hsent
    have hsplit : log = (pre ++ x :: mid) ++ y :: post := by simp [heq]
    obtain ⟨hreach, hg, hs⟩ := Machine.moment_at (hsplit ▸ h)
    by_cases hgives : ∃ z ∈ mid, z.action.joinTask = x.action.joinTask ∧
        givesUp z.before addr z.action = true
    · exact .inr hgives
    · obtain ⟨tid, hw⟩ := waiting_since hreach he hno fun z hz htid => by
        by_contra hgive
        exact hgives ⟨z, hz, htid, by simpa using hgive⟩
      exact .inl (sent_waiting hg hw (sends_of_sent hs hsent))
  · intro pre post y c msg addrs ok heq hd hact _
    obtain ⟨hreach, hg, -⟩ := Machine.moment_at (heq ▸ h)
    have hsend : sends y.before y.action = some (c.addr, msg) := by simp only [sends, hact, hd]
    -- nobody waits at the address, so the session's `JoinOk` was sent
    have hnobody : ∀ {tid t}, y.before.joins.get tid = some t → t.awaits c.addr = false := by
      intro tid t ht
      rw [preempts, hsend, Option.any_some] at hg
      have hany := List.any_eq_false.mp hg (tid, t) (HashMap.mem_toList.mpr ht)
      simpa [hact, Action.joinTask] using hany
    cases session_answered hreach.unrecorded c.addr c (in_hand hreach.unrecorded hd) with
    | sent he => exact ⟨_, _, he⟩
    | inserted ht | failed ht =>
      have hno := hnobody ht
      simp [JoinTask.awaits] at hno

/-- The log registers `p_1` from `⟨1, 1⟩`, and what is sent next, after `n` moments in which
no join is given up, passes `ok`. -/
def firstAfter (n : Nat) (ok : ServerReliable → Bool) : Log → Bool
  | x :: rest =>
    (x.events.any fun | .registered "m_r" "p_1" ⟨1, 1⟩ _ => true | _ => false) &&
    ((rest.take n).all fun z => !givesUp z.before ⟨1, 1⟩ z.action &&
      z.events.all fun | .sentReliable _ _ => false | _ => true) &&
    match rest.drop n with
    | y :: _ => y.events.any fun | .sentReliable ⟨1, 1⟩ msg => ok msg | _ => false
    | [] => false
  | [] => false

theorem firstAfter_split {n : Nat} {ok : ServerReliable → Bool} {log : Log}
    (h : firstAfter n ok log = true) : ∃ x mid y post msg tx, log = x :: (mid ++ y :: post) ∧
      Event.registered "m_r" "p_1" ⟨1, 1⟩ tx ∈ x.events ∧
      (∀ z ∈ mid, givesUp z.before ⟨1, 1⟩ z.action = false ∧
        ∀ msg', Event.sentReliable ⟨1, 1⟩ msg' ∉ z.events) ∧
      Event.sentReliable ⟨1, 1⟩ msg ∈ y.events ∧ ok msg = true := by
  cases log with
  | nil => cases h
  | cons x rest =>
    simp only [firstAfter, Bool.and_eq_true] at h
    obtain ⟨⟨hreg, hmid⟩, hy⟩ := h
    obtain ⟨e, he, hmatch⟩ := List.any_eq_true.mp hreg
    split at hmatch
    · split at hy
      · next y post hdrop =>
        obtain ⟨e', he', hok⟩ := List.any_eq_true.mp hy
        split at hok
        · refine ⟨x, rest.take n, y, post, _, _, ?_, he, ?_, he', hok⟩
          · rw [← hdrop, List.take_append_drop]
          · intro z hz
            have hz' := List.all_eq_true.mp hmid z hz
            obtain ⟨hgives, hquiet⟩ := (Bool.and_eq_true _ _).mp hz'
            refine ⟨by simpa using hgives, ?_⟩
            intro msg' hsent
            have := List.all_eq_true.mp hquiet _ hsent
            cases this
        · cases hok
      · cases hy
    · cases hmatch

/-- A join that nothing preempts. -/
def quietJoin : List Action :=
  [.createRoom "r" 1, .issueJoinTicket ⟨"m_r", "x"⟩ "1" "t1" 1] ++
  soloJoin 1 ⟨1, 1⟩ "t1" [{}, {}, {}, {}, {}]

theorem joinOk_first_quiet : ∃ s log pre mid post, ∃ x y : Moment Sys Action Event,
    ∃ msg tx params ms, server.recorded.Reach (fun s a => preempts s a = false) s log ∧
    log = pre ++ x :: (mid ++ y :: post) ∧ Event.registered "m_r" "p_1" ⟨1, 1⟩ tx ∈ x.events ∧
    Event.sentReliable ⟨1, 1⟩ msg ∈ y.events ∧ msg = .joinOk "m_r" "p_1" params ms := by
  obtain ⟨s, log, h, hp⟩ := log_of_actions (fun s a => preempts s a = false) quietJoin
    (fun _ log => firstAfter 1 (fun _ => true) (log.drop 5)) (by decide)
  obtain ⟨x, mid, y, post, msg, tx, heq, he, hmid, hsent, -⟩ := firstAfter_split hp
  have hsplit : log = log.take 5 ++ x :: (mid ++ y :: post) := by
    rw [← heq, List.take_append_drop]
  rcases (joinOk_first h).first hsplit he (fun z hz => (hmid z hz).2) hsent with
    ⟨params, ms, hmsg⟩ | ⟨z, hz, -, hgives⟩
  · exact ⟨s, log, _, mid, post, x, y, msg, tx, params, ms, h, hsplit, he, hsent, hmsg⟩
  · rw [(hmid z hz).1] at hgives
    cases hgives

/-- A match that starts between the insertion of the session and `JoinOk`. -/
def startedJoining : List Action :=
  [.createRoom "r" 1, .issueJoinTicket ⟨"m_r", "x"⟩ "1" "t1" 1,
    .recv 1 ⟨1, 1⟩ (.reliable (.join "t1")), .join 1 {}, .join 1 {}, .join 1 {}, .join 1 {},
    .startRoom "m_r" .inOrder { nowUnix := 5 }, .cast 0 { txs := [0] }, .cast 0 {},
    .drainStart [⟨1, 1⟩], .drainStep true, .drainStep true]

/-- The announcement is sent before `JoinOk`. -/
theorem start_first : ¬ ∀ s log, server.recorded.Reach Machine.anyStep s log → JoinOkFirst log := by
  intro hall
  obtain ⟨s, log, h, hp⟩ := log_of_actions Machine.anyStep startedJoining
    (fun _ log => firstAfter 6 ServerReliable.isStart (log.drop 5))
    (by decide)
  obtain ⟨x, mid, y, post, msg, tx, heq, he, hmid, hsent, hstart⟩ := firstAfter_split hp
  have hsplit : log = log.take 5 ++ x :: (mid ++ y :: post) := by
    rw [← heq, List.take_append_drop]
  rcases (hall s log h).first hsplit he (fun z hz => (hmid z hz).2) hsent with
    ⟨params, ms, rfl⟩ | ⟨z, hz, -, hgives⟩
  · cases hstart
  · rw [(hmid z hz).1] at hgives
    cases hgives

end Kotatsu
