import Kotatsu.Sections
import Kotatsu.Sessions

/-
  A join whose answer cannot be sent (`handle_join`, `remove_client`)

  When the send of `JoinOk` fails, the handler calls `remove_client` on its address. The
  call finds the session to undo by that address alone, in one section, and removes its
  seat in another; anything may happen between the insertion of the session and the
  first section, and between the two.

  The call removes the player of its own handler and nothing else exactly when it finds
  the session that this handler has inserted, or no session and no seat
  (`rollback_removes_own`). Another join from the address may have replaced the session
  before (`rollback_removes_other`).
-/

namespace Kotatsu

/-- The session that the handler of `p` inserts. -/
def ownSession (addr : SocketAddr) (m p : String) (tx : ChanId) : ClientSession :=
  { matchId := m, playerId := p, addr := addr, tx := tx, rx := tx }

/-- A run, up to the state `s`, in which the task `tid` has registered `p` in `m` from
`addr`, has inserted its session, and has failed to send `JoinOk`. -/
inductive FailedJoin (tid : Nat) (addr : SocketAddr) (m p : String) (tx : ChanId) (s : Sys) :
    List Event → Prop
  | intro {s₀ s₁ s₂ s₃ : Sys} {tr evs₁ tr₁ evs₂ tr₂ : List Event} {as₁ as₂ : List Action}
      {params : PlayerParams} {ch₁ ch₂ : Choice}
      (hreach : server.Reach Machine.anyStep s₀ tr)
      (ht : s₀.joins.get tid = some (.insert addr m p params tx))
      (hinsert : server.step s₀ (.join tid ch₁) = some (s₁, evs₁))
      (hrun₁ : server.Run (others tid) s₁ as₁ tr₁ s₂)
      (hsend : server.step s₂ (.join tid ch₂) = some (s₃, evs₂)) (hfail : ch₂.sendOk = false)
      (hrun₂ : server.Run (others tid) s₃ as₂ tr₂ s) :
      FailedJoin tid addr m p tx s (tr ++ evs₁ ++ tr₁ ++ evs₂ ++ tr₂)

/-- `remove_client`, run by the task `tid`: its first section goes from `s` to `s₁`, and,
if it took a session, its second one from `s₂` to `s'`. -/
inductive RemoveClient (tid : Nat) (s s₁ s₂ s' : Sys) : Prop
  | nothing {ch : Choice} {evs : List Event}
      (hs : server.step s (.join tid ch) = some (s₁, evs)) (hend : s₁.joins.get tid = none)
      (h₂ : s₂ = s₁) (h' : s' = s₁)
  | took {c : ClientSession} {ch ch' : Choice} {evs tr evs' : List Event} {as : List Action}
      (hs : server.step s (.join tid ch) = some (s₁, evs))
      (ht : s₁.joins.get tid = some (.remove c)) (hrun : server.Run (others tid) s₁ as tr s₂)
      (hs' : server.step s₂ (.join tid ch') = some (s', evs'))

/-- The call leaves `p` without a seat in `m`, and takes no seat of another player and no
session but the one that the handler of `p` has inserted. -/
structure RemovesOwn (addr : SocketAddr) (m p : String) (tx : ChanId) (s s₁ s₂ s' : Sys) :
    Prop where
  unseated : s'.core.seat m p = none
  seats : ∀ m' p', ¬ (m' = m ∧ p' = p) →
    s₁.core.seat m' p' = s.core.seat m' p' ∧ s'.core.seat m' p' = s₂.core.seat m' p'
  sessions : ∀ addr' c, c ≠ ownSession addr m p tx →
    (s.clients.get addr' = some c → s₁.clients.get addr' = some c) ∧
    (s₂.clients.get addr' = some c → s'.clients.get addr' = some c)

/-! ## What a failed join undoes -/

section Failed
variable {tid : Nat} {addr : SocketAddr} {m p : String} {tx : ChanId} {s : Sys} {tr : List Event}

theorem FailedJoin.task (h : FailedJoin tid addr m p tx s tr) :
    s.joins.get tid = some (.rollback addr) := by
  cases h with
  | intro _ ht hinsert hrun₁ hsend hfail hrun₂ =>
    obtain ⟨-, -, -, hj₁⟩ := insert_section hinsert ht
    have ht₂ := task_waits hrun₁ (hj₁ ▸ HashMap.get_insert_self _ _ _)
    obtain ⟨-, -, hsent⟩ := sendOk_section hsend ht₂
    simp only [hfail, Bool.false_eq_true, if_false] at hsent
    exact task_waits hrun₂ (hsent.2 ▸ HashMap.get_insert_self _ _ _)

theorem FailedJoin.reach (h : FailedJoin tid addr m p tx s tr) :
    server.Reach Machine.anyStep s tr := by
  cases h with
  | intro hreach _ hinsert hrun₁ hsend _ hrun₂ =>
    have hreach₁ := hreach.step trivial hinsert
    have hreach₂ := hreach₁.run (hrun₁.mono fun _ _ _ => trivial)
    exact (hreach₂.step trivial hsend).run (hrun₂.mono fun _ _ _ => trivial)

theorem FailedJoin.registered (h : FailedJoin tid addr m p tx s tr) :
    Event.registered m p addr tx ∈ tr := by
  cases h with
  | intro hreach ht _ _ _ _ _ =>
    have hm := (registrants hreach).inserting ht
    simp [hm]

/-- The session of the player is the one that its own handler has inserted. -/
theorem FailedJoin.own (h : FailedJoin tid addr m p tx s tr) {a : SocketAddr} {c : ClientSession}
    (hc : s.clients.get a = some c) (hp : c.playerId = p) : c = ownSession addr m p tx := by
  obtain ⟨m', p', a', tx', rx'⟩ := c
  obtain ⟨hreg, haddr, hrx⟩ := (registrants h.reach).session hc
  obtain rfl : p' = p := hp
  obtain ⟨rfl, rfl, rfl⟩ := (registry h.reach).once hreg h.registered
  obtain rfl : a' = a := haddr
  obtain rfl : rx' = tx' := hrx
  rfl

end Failed

/-- The session that `remove_client` finds is the one that its handler has inserted, or
there is none and the player has no seat. -/
def FindsOwn (addr : SocketAddr) (m p : String) (s : Sys) : Prop :=
  (∃ c, s.clients.get addr = some c ∧ c.matchId = m ∧ c.playerId = p) ∨
    (s.clients.get addr = none ∧ s.core.seat m p = none)

section Found
variable {addr : SocketAddr} {m p : String} {tx : ChanId} {s s₁ s₂ s' : Sys}

/-- Where there is no session, the call changes nothing: the player must be unseated already. -/
theorem removesOwn_nothing (hcore : s'.core = s.core) (hclients : s'.clients = s.clients) :
    RemovesOwn addr m p tx s s' s' s' ↔ s.core.seat m p = none := by
  constructor
  · intro hown
    exact hcore ▸ hown.unseated
  · intro hseat
    refine ⟨hcore ▸ hseat, ?_, ?_⟩
    · intro m' p' _
      exact ⟨by rw [hcore], rfl⟩
    · intro addr' c _
      exact ⟨fun hc => hclients ▸ hc, id⟩

/-- Where there is a session, the call removes that session and its seat: they must be those
of the handler. -/
theorem removesOwn_took {c : ClientSession} {nowUnix : Nat} (hc : s.clients.get addr = some c)
    (hcore : s₁.core = s.core) (hclients : s₁.clients = s.clients.remove addr)
    (hcore' : s'.core = removePlayer s₂.core c.matchId c.playerId nowUnix)
    (hclients' : s'.clients = s₂.clients) :
    RemovesOwn addr m p tx s s₁ s₂ s' ↔ c = ownSession addr m p tx := by
  constructor
  · intro hown
    by_contra hne
    have hkept := (hown.sessions addr c hne).1 hc
    rw [hclients, HashMap.get_remove_self] at hkept
    cases hkept
  · intro hown
    subst hown
    refine ⟨by rw [hcore', seat_removePlayer]; exact if_pos ⟨rfl, rfl⟩, ?_, ?_⟩
    · intro m' p' hne
      refine ⟨by rw [hcore], ?_⟩
      rw [hcore', seat_removePlayer]
      exact if_neg hne
    · intro addr' c' hne
      refine ⟨?_, fun hc' => hclients' ▸ hc'⟩
      intro hc'
      have haddr : addr' ≠ addr := by
        intro heq
        subst heq
        rw [hc] at hc'
        cases hc'
        exact hne rfl
      rw [hclients, HashMap.get_remove_ne _ haddr]
      exact hc'

end Found

/-- The rollback of a failed join removes its own player and nothing else exactly when it
finds its own session, or no session and no seat. -/
theorem rollback_removes_own {tid : Nat} {addr : SocketAddr} {m p : String} {tx : ChanId}
    {s s₁ s₂ s' : Sys} {tr : List Event} (h : FailedJoin tid addr m p tx s tr)
    (hrc : RemoveClient tid s s₁ s₂ s') :
    RemovesOwn addr m p tx s s₁ s₂ s' ↔ FindsOwn addr m p s := by
  cases hrc with
  | nothing hs hend h₂ h' =>
    subst h₂ h'
    obtain ⟨-, hcore, ⟨hnone, hclients, -⟩ | ⟨c, -, -, hj⟩⟩ := rollback_section hs h.task
    · rw [removesOwn_nothing hcore hclients]
      simp [FindsOwn, hnone]
    · rw [hj, HashMap.get_insert_self] at hend
      cases hend
  | took hs ht hrun hs' =>
    obtain ⟨-, hcore, ⟨-, -, hj⟩ | ⟨c, hc, hclients, hj⟩⟩ := rollback_section hs h.task
    · rw [hj, HashMap.get_remove_self] at ht
      cases ht
    · have ht' := task_waits hrun (hj ▸ HashMap.get_insert_self _ _ _)
      obtain ⟨hclients', hcore', -, -⟩ := remove_section hs' ht'
      rw [removesOwn_took hc hcore hclients hcore' hclients']
      constructor
      · intro hown
        exact .inl ⟨c, hc, by rw [hown]; exact ⟨rfl, rfl⟩⟩
      · intro hfinds
        obtain ⟨c', hc', -, hp⟩ | ⟨hnone, -⟩ := hfinds
        · rw [hc] at hc'
          cases hc'
          -- a player has one session, which its own handler has inserted
          exact h.own hc hp
        · rw [hc] at hnone
          cases hnone

/-- From the insertion of a session to the end of `remove_client`, with the actions `mid`
before the failed send: the states before, between and after the two sections. -/
def failRun (tid : Nat) (mid : List Action) (s : Sys) : Option (Sys × Sys × Sys) := do
  let r₁ ← server.step s (.join tid {})
  let r₂ ← server.exec (others tid) r₁.1 mid
  let r₃ ← server.step r₂.1 (.join tid { sendOk := false })
  let r₄ ← server.step r₃.1 (.join tid {})
  let r₅ ← server.step r₄.1 (.join tid {})
  some (r₃.1, r₄.1, r₅.1)

theorem failRun_spec {tid : Nat} {mid : List Action} {s₀ s s₁ s' : Sys} {tr : List Event}
    {addr : SocketAddr} {m p : String} {params : PlayerParams} {tx : ChanId}
    (hreach : server.Reach Machine.anyStep s₀ tr)
    (ht : s₀.joins.get tid = some (.insert addr m p params tx))
    (h : failRun tid mid s₀ = some (s, s₁, s')) :
    (∃ tr', FailedJoin tid addr m p tx s tr') ∧ RemoveClient tid s s₁ s₁ s' := by
  unfold failRun at h
  obtain ⟨⟨t₁, evs₁⟩, hs₁, h⟩ := Option.bind_eq_some_iff.mp h
  obtain ⟨⟨t₂, us⟩, hs₂, h⟩ := Option.bind_eq_some_iff.mp h
  obtain ⟨⟨t₃, evs₃⟩, hs₃, h⟩ := Option.bind_eq_some_iff.mp h
  obtain ⟨⟨t₄, evs₄⟩, hs₄, h⟩ := Option.bind_eq_some_iff.mp h
  obtain ⟨⟨t₅, evs₅⟩, hs₅, h⟩ := Option.bind_eq_some_iff.mp h
  obtain ⟨rfl, rfl, rfl⟩ : t₃ = s ∧ t₄ = s₁ ∧ t₅ = s' := by simpa using h
  have hf : FailedJoin tid addr m p tx t₃ _ :=
    .intro hreach ht hs₁ (Machine.run_of_exec hs₂) hs₃ rfl .nil
  refine ⟨⟨_, hf⟩, ?_⟩
  obtain ⟨-, -, ⟨-, -, hj⟩ | ⟨c, -, -, hj⟩⟩ := rollback_section hs₄ hf.task
  · -- a task that has ended takes no second step
    obtain ⟨t, ht⟩ := task_present hs₅
    rw [hj, HashMap.get_remove_self] at ht
    cases ht
  · exact .took hs₄ (hj ▸ HashMap.get_insert_self _ _ _) .nil hs₅

/-- The task `1` has registered `p_1` in `m_r` from `⟨1, 1⟩`. -/
def registeredFirst (s : Sys) : Bool :=
  match s.joins.get 1 with
  | some (.insert ⟨1, 1⟩ "m_r" "p_1" _ 1) => true
  | _ => false

theorem registeredFirst_task {s : Sys} (h : registeredFirst s = true) :
    ∃ params, s.joins.get 1 = some (.insert ⟨1, 1⟩ "m_r" "p_1" params 1) := by
  unfold registeredFirst at h
  split at h
  · next params ht => exact ⟨params, ht⟩
  · cases h

theorem rollback_removes_own_solo : ∃ s s₁ s' tr, FailedJoin 1 ⟨1, 1⟩ "m_r" "p_1" 1 s tr ∧
    RemoveClient 1 s s₁ s₁ s' ∧ FindsOwn ⟨1, 1⟩ "m_r" "p_1" s ∧
    RemovesOwn ⟨1, 1⟩ "m_r" "p_1" 1 s s₁ s₁ s' := by
  obtain ⟨s₀, tr, h, hp⟩ := reach_of_actions Machine.anyStep
    ([.createRoom "r" 1, .issueJoinTicket ⟨"m_r", "x"⟩ "1" "t1" 1] ++
      soloJoin 1 ⟨1, 1⟩ "t1" [{}, { fresh := 1 }, {}])
    (fun s _ => registeredFirst s && (failRun 1 [] s).any fun r =>
      (r.1.clients.get ⟨1, 1⟩).any fun c => c.matchId == "m_r" && c.playerId == "p_1") (by decide)
  obtain ⟨hfirst, hrun⟩ := (Bool.and_eq_true _ _).mp hp
  obtain ⟨params, ht⟩ := registeredFirst_task hfirst
  obtain ⟨⟨s, s₁, s'⟩, hrun, hc⟩ := (Option.any_eq_true _ _).mp hrun
  obtain ⟨c, hc, hown⟩ := (Option.any_eq_true _ _).mp hc
  obtain ⟨⟨tr', hf⟩, hrc⟩ := failRun_spec h ht hrun
  have hfinds : FindsOwn ⟨1, 1⟩ "m_r" "p_1" s := .inl ⟨c, hc, by simpa using hown⟩
  exact ⟨s, s₁, s', tr', hf, hrc, hfinds, (rollback_removes_own hf hrc).mpr hfinds⟩

/-- The session was replaced by that of a second join: the rollback of the first removes
the second player, and leaves the first one seated. -/
theorem rollback_removes_other : ¬ ∀ tid addr m p tx s s₁ s₂ s' tr,
    FailedJoin tid addr m p tx s tr → RemoveClient tid s s₁ s₂ s' →
    RemovesOwn addr m p tx s s₁ s₂ s' := by
  intro hall
  obtain ⟨s₀, tr, h, hp⟩ := reach_of_actions Machine.anyStep (twoJoins.take 9)
    (fun s _ => registeredFirst s &&
      (failRun 1 [.join 2 {}, .join 2 { fresh := 2 }, .join 2 {}, .join 2 {}] s).any fun r =>
        (r.2.2.core.seat "m_r" "p_1").isSome) (by decide)
  obtain ⟨hfirst, hrun⟩ := (Bool.and_eq_true _ _).mp hp
  obtain ⟨params, ht⟩ := registeredFirst_task hfirst
  obtain ⟨⟨s, s₁, s'⟩, hrun, hseat⟩ := (Option.any_eq_true _ _).mp hrun
  obtain ⟨⟨tr', hf⟩, hrc⟩ := failRun_spec h ht hrun
  have hseat : (s'.core.seat "m_r" "p_1").isSome = true := hseat
  rw [(hall _ _ _ _ _ _ _ _ _ _ hf hrc).unseated] at hseat
  cases hseat

end Kotatsu
