import Kotatsu.Lib.Owners
import Kotatsu.Passes

/-
  Receivers (`handle_join`, `remove_client`)

  A join makes a channel and holds its receiver until the session does. A refused join holds
  it while the error is sent, and drops it then; so does `remove_client`, after it has taken
  the session from the registry, and an insertion that replaces a session. So a channel is
  live exactly while one of these holds its receiver, and no two ever do (`live_owned`).
-/

namespace Kotatsu

open Function (update)

/-- The channel whose receiver the task holds. -/
def JoinTask.receiver : JoinTask → Option ChanId
  | .register _ _ _ _ tx | .insert _ _ _ _ tx => some tx
  | .remove session => some session.rx
  | .sendError _ _ _ rx => rx
  | _ => none

/-- Who can hold a receiver: a session in the registry, and a task of `handle_join`. -/
inductive Keeper where
  | session (addr : SocketAddr)
  | task (tid : Nat)
  deriving DecidableEq

def Sys.receiver (s : Sys) : Keeper → Option ChanId
  | .session addr => (s.clients.get addr).map (·.rx)
  | .task tid => (s.joins.get tid).bind JoinTask.receiver

/-! ## What a step does to the receivers -/

section Steps
variable {s s' : Sys}

theorem live_eq (h : s'.chans = s.chans) (tx : ChanId) : s'.live tx = true ↔ s.live tx = true := by
  rw [Sys.live, Sys.live, h]

/-- Writing a channel back as live as it was. -/
theorem live_rewritten {tx₀ : ChanId} {chan chan' : Channel} (h₀ : s.chans.get tx₀ = some chan)
    (h : s'.chans = s.chans.insert tx₀ chan') (ha : chan'.alive = chan.alive) (tx : ChanId) :
    s'.live tx = true ↔ s.live tx = true := by
  rw [Sys.live, Sys.live, h]
  by_cases htx : tx = tx₀
  · subst htx
    rw [HashMap.get_insert_self, h₀, Option.any_some, Option.any_some, ha]
  · rw [HashMap.get_insert_ne _ _ htx]

theorem live_closed {rx tx : ChanId} (h : s'.chans = closeRx s.chans rx) :
    s'.live tx = true ↔ s.live tx = true ∧ some rx ≠ some tx := by
  rw [Sys.live, Sys.live, h, closeRx]
  by_cases htx : tx = rx
  · subst htx
    rw [HashMap.get_insert_self]
    simp
  · rw [HashMap.get_insert_ne _ _ htx]
    simp [Ne.symm htx]

/-! What the places hold, where one task goes on or ends, and one session comes or goes. -/

theorem receiver_same (hc : s'.clients = s.clients) (hj : s'.joins = s.joins) :
    s'.receiver = s.receiver := by
  funext x
  cases x with
  | session addr => rw [Sys.receiver, Sys.receiver, hc]
  | task tid => rw [Sys.receiver, Sys.receiver, hj]

theorem held_insert {tid : Nat} {t : JoinTask} (hj : s'.joins = s.joins.insert tid t)
    (tid' : Nat) : s'.receiver (.task tid') =
      if tid' = tid then t.receiver else s.receiver (.task tid') := by
  rw [Sys.receiver, hj, HashMap.get_insert, Sys.receiver]
  split <;> rfl

theorem held_remove {tid : Nat} (hj : s'.joins = s.joins.remove tid) (tid' : Nat) :
    s'.receiver (.task tid') = if tid' = tid then none else s.receiver (.task tid') := by
  rw [Sys.receiver, hj, HashMap.get_remove, Sys.receiver]
  split <;> rfl

theorem receiver_goes {tid : Nat} {t : JoinTask} {r : Option ChanId}
    (hc : s'.clients = s.clients) (hj : s'.joins = s.joins.insert tid t) (hr : t.receiver = r) :
    s'.receiver = update s.receiver (.task tid) r := by
  funext x
  cases x with
  | session addr => simp [Sys.receiver, hc]
  | task tid' => simp [held_insert hj, hr, Function.update_apply]

theorem receiver_ends {tid : Nat} (hc : s'.clients = s.clients)
    (hj : s'.joins = s.joins.remove tid) :
    s'.receiver = update s.receiver (.task tid) none := by
  funext x
  cases x with
  | session addr => simp [Sys.receiver, hc]
  | task tid' => simp [held_remove hj, Function.update_apply]

theorem receiver_enters {addr : SocketAddr} {c : ClientSession} {tid : Nat} {t : JoinTask}
    {rx : ChanId} (hc : s'.clients = s.clients.insert addr c)
    (hj : s'.joins = s.joins.insert tid t) (hr : t.receiver = none) (hrx : c.rx = rx) :
    s'.receiver = update (update s.receiver (.task tid) none) (.session addr) (some rx) := by
  funext x
  cases x with
  | session addr' =>
    by_cases haddr : addr' = addr
    · simp [Sys.receiver, hc, haddr, hrx]
    · simp [Sys.receiver, hc, haddr, HashMap.get_insert_ne]
  | task tid' => simp [held_insert hj, hr, Function.update_apply]

theorem receiver_leaves {addr : SocketAddr} {tid : Nat} {t : JoinTask} {rx : ChanId}
    (hc : s'.clients = s.clients.remove addr) (hj : s'.joins = s.joins.insert tid t)
    (hr : t.receiver = some rx) :
    s'.receiver = update (update s.receiver (.session addr) none) (.task tid) (some rx) := by
  funext x
  cases x with
  | session addr' =>
    by_cases haddr : addr' = addr
    · simp [Sys.receiver, hc, haddr]
    · simp [Sys.receiver, hc, haddr, HashMap.get_remove]
  | task tid' => simp [held_insert hj, hr, Function.update_apply]

theorem receiver_of_task {tid : Nat} {t : JoinTask} (ht : s.joins.get tid = some t) :
    s.receiver (.task tid) = t.receiver := by
  rw [Sys.receiver, ht, Option.bind_some]

/-- A new task, which holds nothing. -/
theorem receiver_begun {tid : Nat} {t : JoinTask} (hf : s.joins.get tid = none)
    (hc : s'.clients = s.clients) (hj : s'.joins = s.joins.insert tid t)
    (hr : t.receiver = none) : s'.receiver = s.receiver := by
  have hfree : s.receiver (.task tid) = none := by
    rw [Sys.receiver, hf, Option.bind_none]
  rw [receiver_goes hc hj hr, ← hfree, Function.update_eq_self]

/-- A task that goes on with what it held. -/
theorem receiver_kept {tid : Nat} {t t' : JoinTask} (ht : s.joins.get tid = some t)
    (hc : s'.clients = s.clients) (hj : s'.joins = s.joins.insert tid t')
    (hr : t'.receiver = t.receiver) : s'.receiver = s.receiver := by
  rw [receiver_goes hc hj hr, ← receiver_of_task ht, Function.update_eq_self]

/-- A task that ends and held nothing. -/
theorem receiver_done {tid : Nat} {t : JoinTask} (ht : s.joins.get tid = some t)
    (hr : none = t.receiver) (hc : s'.clients = s.clients)
    (hj : s'.joins = s.joins.remove tid) : s'.receiver = s.receiver := by
  rw [receiver_ends hc hj, hr, ← receiver_of_task ht, Function.update_eq_self]

/-- What a step does to the receivers. -/
def Hands (s s' : Sys) : Prop :=
  Handover s.receiver (s.live · = true) s'.receiver (s'.live · = true)

theorem hands_join {tid : Nat} {evs : List Event} (h : JoinStep s tid s' evs) : Hands s s' := by
  cases h with
  | alreadyJoined ht _ | okSent ht | rollbackNone ht _ =>
    exact .same (receiver_done ht rfl rfl rfl) (live_eq rfl)
  | checked ht _ | unknownToken ht _ | expired ht _ _ | okFailed ht =>
    exact .same (receiver_kept ht rfl rfl rfl) (live_eq rfl)
  | registered ht _ _ | joinRefused ht _ =>
    exact .same (receiver_kept ht rfl rfl rfl) (live_eq rfl)
  | @consumed addr token now k tx ht _ _ hf =>
    have hdead : ¬ s.live tx = true := by
      rw [Sys.live, hf]
      simp
    refine .made (receiver_of_task ht) hdead (receiver_goes rfl rfl rfl) fun tx' => ?_
    rw [Sys.live, Sys.live]
    by_cases htx : tx' = tx
    · subst htx
      simp
    · simp [HashMap.get_insert_ne _ _ htx, htx]
  | @errorSent addr code message rx evs ht _ =>
    cases rx with
    | none => exact .same (receiver_done ht rfl rfl rfl) (live_eq rfl)
    | some rx =>
      refine .dropped (.task tid) (receiver_ends rfl rfl) fun tx => ?_
      rw [receiver_of_task ht]
      exact live_closed rfl
  | @inserted addr m p params tx ht =>
    refine .moved (receiver_of_task ht) (y := .session addr) (by simp)
      (receiver_enters rfl rfl rfl rfl) fun tx' => ?_
    rw [Sys.receiver]
    cases hc : s.clients.get addr with
    | none => simp [Sys.live, closeReplaced]
    | some c => exact live_closed rfl
  | @rollbackTake addr c ht hc =>
    have hrx : s.receiver (.session addr) = some c.rx := by
      rw [Sys.receiver, hc]
      rfl
    refine .moved hrx (y := .task tid) (by simp) (receiver_leaves rfl rfl rfl) fun tx => ?_
    rw [receiver_of_task ht]
    simp [Sys.live, JoinTask.receiver]
  | removed ht _ | removedNoRoom ht _ =>
    refine .dropped (.task tid) (receiver_ends rfl rfl) fun tx => ?_
    rw [receiver_of_task ht]
    exact live_closed rfl

theorem hands_step {a : Action} {evs : List Event} (h : Step s a s' evs) : Hands s s' := by
  cases h with
  | control h =>
    cases h with
    | joinReceived hf => exact .same (receiver_begun hf rfl rfl rfl) (live_eq rfl)
    | _ => exact .same (receiver_same rfl rfl) (live_eq rfl)
  | join h => exact hands_join h
  | param h => cases h <;> exact .same (receiver_same rfl rfl) (live_eq rfl)
  | cast h =>
    cases h with
    | sent _ hc _ _ => exact .same (receiver_same rfl rfl) (live_rewritten hc rfl rfl)
    | _ => exact .same (receiver_same rfl rfl) (live_eq rfl)
  | relay h =>
    rw [(relay_quiet h).1]
    exact .same (receiver_same rfl rfl) (live_eq rfl)
  | drain h =>
    cases h with
    | took _ _ hq => exact .same (receiver_same rfl rfl) (live_rewritten hq rfl rfl)
    | _ => exact .same (receiver_same rfl rfl) (live_eq rfl)

end Steps

/-! ## Live channels have an owner -/

theorem receivers_owned {G : Sys → Action → Prop} {s : Sys} {tr : List Event}
    (h : server.Reach G s tr) : Owned s.receiver (s.live · = true) := by
  refine Machine.Reach.induct (P := fun s _ => Owned s.receiver (s.live · = true)) ?_ ?_ h
  · intro s hinit
    obtain ⟨url, rfl⟩ := hinit
    have hnone : ∀ x, (Sys.init url).receiver x = none := by
      intro x
      cases x <;> rfl
    refine ⟨fun tx => ⟨fun hl => ?_, fun hx => ?_⟩, ?_⟩
    · cases hl
    · obtain ⟨x, hx⟩ := hx
      rw [hnone] at hx
      cases hx
    · intro x y tx hx
      rw [hnone] at hx
      cases hx
  · intro s tr a s' evs _ hi _ hs
    exact hi.handover (hands_step (step_spec hs))

/-- In every reachable state, a channel is live exactly while somebody holds its receiver,
and then only one does: the session of the player that registered the channel, or a task of
`handle_join`. -/
theorem live_owned {s : Sys} {tr : List Event} (h : server.Reach Machine.anyStep s tr) :
    (∀ tx, s.live tx = true ↔ ∃ x, s.receiver x = some tx) ∧
    (∀ tx x y, s.receiver x = some tx → s.receiver y = some tx → x = y) ∧
    ∀ addr tx, s.receiver (.session addr) = some tx →
      ∃ m p, Event.registered m p addr tx ∈ tr := by
  have ho : Owned s.receiver (s.live · = true) := receivers_owned h
  refine ⟨ho.live_iff, fun tx x y => ho.one, ?_⟩
  intro addr tx hrx
  obtain ⟨c, hc, rfl⟩ := Option.map_eq_some_iff.mp hrx
  obtain ⟨hreg, -, heq⟩ := (registrants h).session hc
  exact ⟨_, _, heq ▸ hreg⟩

/-- A room that is deleted between the ticket and the registration: the refused join holds
the receiver of its channel. -/
theorem live_owned_refused : ∃ s tr x, server.Reach Machine.anyStep s tr ∧ s.live 7 = true ∧
    s.clients.keys = [] ∧ s.receiver x = some 7 := by
  obtain ⟨s, tr, h, hp⟩ := reach_of_actions Machine.anyStep
    [.createRoom "r" 1, .issueJoinTicket ⟨"m_r", "x"⟩ "1" "t1" 1,
      .recv 1 ⟨1, 1⟩ (.reliable (.join "t1")), .join 1 {}, .join 1 { fresh := 7 },
      .deleteRoom "m_r", .join 1 {}]
    (fun s _ => s.live 7 && s.clients.keys == []) (by decide)
  obtain ⟨hlive, hno⟩ := Bool.and_eq_true_iff.mp hp
  obtain ⟨x, hx⟩ := ((live_owned h).1 7).mp hlive
  exact ⟨s, tr, x, h, hlive, beq_iff_eq.mp hno, hx⟩

end Kotatsu
