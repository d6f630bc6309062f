import Kotatsu.Convergence
import Kotatsu.Layout
import Kotatsu.Receivers

/-
  The server never gets stuck

  A task may have to wait: for the registry while the outgoing task holds it, and for room
  in a full channel. Neither wait closes a circle. The outgoing task waits for nothing, so
  its pass ends (`pass_ends`); a full channel that is live has a session, unless a join is
  still about to insert or to drop its receiver, and the next pass empties the channel of
  every session (`pass_delivers`).

  Without new requests and packets the tasks take a bounded number of steps, and from every
  reachable state some run takes them all (`comes_to_rest`).
-/

namespace Kotatsu

/-- A step of a task. The outgoing task, which has no end, is not counted. -/
def Action.ofTask : Action → Bool
  | .cleanupRun _ | .join .. | .param .. | .cast .. | .relay .. => true
  | _ => false

/-- A step that the server takes by itself, with no new request or packet. -/
def Action.own : Action → Bool
  | .drainStart _ | .drainStep _ => true
  | a => a.ofTask

def ownOnly : Sys → Action → Prop := fun _ a => a.own = true

instance (s : Sys) (a : Action) : Decidable (ownOnly s a) := inferInstanceAs (Decidable (_ = true))

/-! ## Work -/

/-- The steps that a join may still take. -/
def JoinTask.work : JoinTask → Nat
  | .check .. => 7
  | .consume .. => 6
  | .register .. => 5
  | .insert .. => 4
  | .sendOk .. => 3
  | .rollback _ => 2
  | .remove _ => 1
  | .sendError .. => 1

/-- One step for each recipient and one at the end; before they are collected there may
be as many recipients as seats. -/
def Cast.work : Cast → Nat
  | .collect .. => roomMaxPlayers + 2
  | .sending txs _ => txs.length + 1

/-- The broadcast that it ends in is counted. -/
def ParamTask.work : ParamTask → Nat
  | .lookup .. => roomMaxPlayers + 4
  | .update .. => roomMaxPlayers + 3

def RelayTask.work : RelayTask → Nat
  | .lookup .. => roomMaxPlayers + 3
  | .collect .. => roomMaxPlayers + 2
  | .sending addrs _ => addrs.length + 1

/-- The steps that the tasks may still take. -/
def Sys.work (s : Sys) : Nat :=
  HashMap.total JoinTask.work s.joins + HashMap.total ParamTask.work s.params +
    HashMap.total Cast.work s.casts + HashMap.total RelayTask.work s.relays +
    HashMap.total (fun _ => 1) s.cleanups

theorem JoinTask.work_pos (t : JoinTask) : 0 < t.work := by
  cases t <;> exact Nat.succ_pos _

theorem ParamTask.work_pos (t : ParamTask) : 0 < t.work := by
  cases t <;> exact Nat.succ_pos _

theorem Cast.work_pos (c : Cast) : 0 < c.work := by
  cases c <;> exact Nat.succ_pos _

theorem RelayTask.work_pos (t : RelayTask) : 0 < t.work := by
  cases t <;> exact Nat.succ_pos _

/-! ## Every step of a task is paid for -/

section Pays
variable {s s' : Sys} {tid : Nat} {evs : List Event}

theorem join_pays (h : JoinStep s tid s' evs) : s'.work < s.work := by
  have hjoins : HashMap.total JoinTask.work s'.joins < HashMap.total JoinTask.work s.joins := by
    cases h with
    | alreadyJoined ht _ | okSent ht | rollbackNone ht _ | removed ht _ | removedNoRoom ht _
    | errorSent ht _ => exact HashMap.total_remove_lt _ ht (JoinTask.work_pos _)
    | checked ht _ | unknownToken ht _ | expired ht _ _ | consumed ht _ _ _ | registered ht _ _
    | joinRefused ht _ | inserted ht | okFailed ht | rollbackTake ht _ =>
      exact HashMap.total_insert_lt _ ht (by simp [JoinTask.work])
  have hrest : s'.params = s.params ∧ s'.casts = s.casts ∧ s'.relays = s.relays ∧
      s'.cleanups = s.cleanups := by
    cases h <;> exact ⟨rfl, rfl, rfl, rfl⟩
  obtain ⟨hparams, hcasts, hrelays, hcleanups⟩ := hrest
  rw [Sys.work, Sys.work, hparams, hcasts, hrelays, hcleanups]
  omega

theorem param_pays (h : ParamStep s tid s' evs) : s'.work < s.work := by
  have htasks : HashMap.total ParamTask.work s'.params + HashMap.total Cast.work s'.casts <
      HashMap.total ParamTask.work s.params + HashMap.total Cast.work s.casts := by
    cases h with
    | notJoined ht _ =>
      exact Nat.add_lt_add_right (HashMap.total_remove_lt _ ht (ParamTask.work_pos _)) _
    | lookedUp ht _ =>
      exact Nat.add_lt_add_right (HashMap.total_insert_lt _ ht (by simp [ParamTask.work])) _
    | @refused m p tx seq k d cid now e ht hf _ =>
      have hremove := HashMap.total_remove ParamTask.work ht
      have hnew := HashMap.total_new Cast.work hf (.sending [tx] (.error "param_update_failed" e))
      simp only [ParamTask.work, Cast.work, List.length_singleton] at hremove hnew
      dsimp only
      omega
    | @updated m p tx seq k d cid now now' nowMs room player mu ht hf _ _ _ =>
      have hremove := HashMap.total_remove ParamTask.work ht
      have hnew := HashMap.total_new Cast.work hf (.collect m
        (.paramApplied p seq mu.params mu.nextParamChangeAtUnix nowMs))
      simp only [ParamTask.work, Cast.work] at hremove hnew
      dsimp only
      omega
  have hrest : s'.joins = s.joins ∧ s'.relays = s.relays ∧ s'.cleanups = s.cleanups := by
    cases h <;> exact ⟨rfl, rfl, rfl⟩
  obtain ⟨hjoins, hrelays, hcleanups⟩ := hrest
  rw [Sys.work, Sys.work, hjoins, hrelays, hcleanups]
  omega

/-- A broadcast has no more recipients than the room has seats. -/
theorem cast_pays (hcap : ∀ m room, s.core.rooms.get m = some room →
    room.players.len ≤ roomMaxPlayers) (h : CastStep s tid s' evs) : s'.work < s.work := by
  have hcasts : HashMap.total Cast.work s'.casts < HashMap.total Cast.work s.casts := by
    cases h with
    | noRoom ht _ | done ht => exact HashMap.total_remove_lt _ ht (Cast.work_pos _)
    | collected ht hr hp =>
      refine HashMap.total_insert_lt _ ht ?_
      have hlen := hp.length_eq
      rw [List.length_map, HashMap.values, List.length_map] at hlen
      have hroom := hcap _ _ hr
      rw [HashMap.len] at hroom
      simp only [Cast.work]
      omega
    | sent ht _ _ _ | lost ht _ _ => exact HashMap.total_insert_lt _ ht (Nat.lt_succ_self _)
  have hrest : s'.joins = s.joins ∧ s'.params = s.params ∧ s'.relays = s.relays ∧
      s'.cleanups = s.cleanups := by
    cases h <;> exact ⟨rfl, rfl, rfl, rfl⟩
  obtain ⟨hjoins, hparams, hrelays, hcleanups⟩ := hrest
  rw [Sys.work, Sys.work, hjoins, hparams, hrelays, hcleanups]
  omega

theorem connectedAddrs_length (room : MatchRoom) (skip : String → Bool) :
    (connectedAddrs room skip).length ≤ room.players.len := by
  have hlen : room.players.toList.length = room.players.len := List.length_map _
  rw [connectedAddrs, ← hlen]
  exact List.length_filterMap_le _ _

theorem relay_pays (hcap : ∀ m room, s.core.rooms.get m = some room →
    room.players.len ≤ roomMaxPlayers) (h : RelayStep s tid s' evs) : s'.work < s.work := by
  have hrelays :
      HashMap.total RelayTask.work s'.relays < HashMap.total RelayTask.work s.relays := by
    cases h with
    | notJoined ht _ | noRoom ht _ | done ht =>
      exact HashMap.total_remove_lt _ ht (RelayTask.work_pos _)
    | lookedUp ht _ => exact HashMap.total_insert_lt _ ht (Nat.lt_succ_self _)
    | @collected m p out addrs order ht hr hp =>
      refine HashMap.total_insert_lt _ ht ?_
      have hlen : addrs.length ≤ roomMaxPlayers := by
        cases out <;> obtain ⟨room, hroom, rfl⟩ := Option.map_eq_some_iff.mp hr <;>
          exact (connectedAddrs_length room _).trans (hcap _ _ hroom)
      have horder := hp.length_eq
      simp only [RelayTask.work]
      omega
    | sent ht _ => exact HashMap.total_insert_lt _ ht (Nat.lt_succ_self _)
  rw [(relay_quiet h).1] at hrelays ⊢
  unfold Sys.work
  dsimp only at hrelays ⊢
  omega

end Pays

/-- The states that some run reaches. -/
def Reachable (s : Sys) : Prop := ∃ tr, server.Reach Machine.anyStep s tr

theorem own_pays {s s' : Sys} {tr evs : List Event} (h : server.Reach Machine.anyStep s tr)
    {a : Action} (hown : a.own = true) (hs : server.step s a = some (s', evs)) :
    s'.work + a.ofTask.toNat ≤ s.work := by
  cases a with
  | join tid ch => exact join_pays (stepJoin_spec hs)
  | param tid ch => exact param_pays (stepParam_spec hs)
  | cast cid ch => exact cast_pays (capacity h) (stepCast_spec hs)
  | relay tid ch => exact relay_pays (capacity h) (stepRelay_spec hs)
  | cleanupRun tid =>
    change step s (.cleanupRun tid) = some (s', evs) at hs
    simp only [step] at hs
    split at hs
    · cases hs
    · next ht =>
      cases hs
      have hcleanups := HashMap.total_remove_lt (fun _ => 1) ht Nat.one_pos
      show Sys.work _ < Sys.work s
      unfold Sys.work
      dsimp only at hcleanups ⊢
      omega
  | drainStart order | drainStep ok =>
    have hd : DrainStep s s' evs := by
      first
        | exact drainStart_spec hs
        | exact drainStep_spec hs
    rw [(drain_quiet hd).1]
    exact Nat.le_refl _
  | _ => cases hown

theorem own_spends : Machine.Spends server ownOnly Reachable Action.ofTask Sys.work := by
  refine ⟨?_, ?_⟩
  · intro s a s' evs hi _ hs
    obtain ⟨tr, h⟩ := hi
    exact ⟨tr ++ evs, h.step trivial hs⟩
  · intro s a s' evs hi hg hs
    obtain ⟨tr, h⟩ := hi
    exact own_pays h hg hs

/-! ## Some step can always be taken -/

section Goes
variable {s : Sys}

theorem step_of_isSome {a : Action} (h : (server.step s a).isSome = true) :
    ∃ s' evs, server.step s a = some (s', evs) := by
  obtain ⟨⟨s', evs⟩, hs⟩ := Option.isSome_iff_exists.mp h
  exact ⟨s', evs, hs⟩

/-- A join waits for the registry only. -/
theorem join_goes (hd : s.drain = none) {tid : Nat} {t : JoinTask}
    (ht : s.joins.get tid = some t) :
    ∃ ch s' evs, server.step s (.join tid ch) = some (s', evs) := by
  obtain ⟨tx, htx⟩ := HashMap.exists_fresh s.chans
  refine ⟨{ fresh := tx }, step_of_isSome ?_⟩
  show (stepJoin s tid _).isSome = true
  unfold stepJoin
  rw [ht]
  cases t with
  | check addr token =>
    simp only [hd, Option.isSome_none, Bool.false_eq_true, if_false]
    split <;> rfl
  | consume addr token =>
    simp only [HashMap.contains, htx, Option.isSome_none, Bool.false_eq_true, if_false]
    split <;> rfl
  | register addr m p name tx' =>
    dsimp only
    split <;> rfl
  | insert addr m p params tx' =>
    simp only [hd, Option.isSome_none, Bool.false_eq_true, if_false]
    rfl
  | sendOk addr m p params => rfl
  | rollback addr =>
    simp only [hd, Option.isSome_none, Bool.false_eq_true, if_false]
    split <;> rfl
  | remove session => rfl
  | sendError addr code message rx => rfl

theorem param_goes (hd : s.drain = none) {tid : Nat} {t : ParamTask}
    (ht : s.params.get tid = some t) :
    ∃ ch s' evs, server.step s (.param tid ch) = some (s', evs) := by
  obtain ⟨cid, hcid⟩ := HashMap.exists_fresh s.casts
  refine ⟨{ fresh := cid }, step_of_isSome ?_⟩
  show (stepParam s tid _).isSome = true
  unfold stepParam
  rw [ht]
  cases t with
  | lookup addr seq k d =>
    simp only [hd, Option.isSome_none, Bool.false_eq_true, if_false]
    split <;> rfl
  | update m p tx seq k d =>
    simp only [HashMap.contains, hcid, Option.isSome_none, Bool.false_eq_true, if_false]
    split <;> rfl

theorem relay_goes (hd : s.drain = none) {tid : Nat} {t : RelayTask}
    (ht : s.relays.get tid = some t) :
    ∃ ch s' evs, server.step s (.relay tid ch) = some (s', evs) := by
  cases t with
  | lookup addr msg =>
    refine ⟨{}, step_of_isSome ?_⟩
    show (stepRelay s tid _).isSome = true
    unfold stepRelay
    simp only [ht, hd, Option.isSome_none, Bool.false_eq_true, if_false]
    split <;> rfl
  | collect m p out =>
    refine ⟨{ addrs := (relayAddrs s.core m p out).getD [] }, step_of_isSome ?_⟩
    show (stepRelay s tid _).isSome = true
    unfold stepRelay
    simp only [ht]
    cases relayAddrs s.core m p out <;> simp
  | sending addrs out =>
    refine ⟨{}, step_of_isSome ?_⟩
    show (stepRelay s tid _).isSome = true
    unfold stepRelay
    rw [ht]
    cases addrs <;> rfl

/-- A broadcast waits for room in a channel only. -/
theorem cast_goes {cid : Nat} {c : Cast} (hc : s.casts.get cid = some c)
    (hroom : ∀ tx ∈ c.recipients, ∃ chan, s.chans.get tx = some chan ∧
      (chan.alive = true → chan.queue.length < reliableCapacity)) :
    ∃ ch s' evs, server.step s (.cast cid ch) = some (s', evs) := by
  cases c with
  | collect m msg =>
    refine ⟨{ txs := (reliableSenders s.core m).getD [] }, step_of_isSome ?_⟩
    show (stepCast s cid _).isSome = true
    unfold stepCast
    simp only [hc]
    cases reliableSenders s.core m <;> simp
  | sending txs msg =>
    refine ⟨{}, step_of_isSome ?_⟩
    show (stepCast s cid _).isSome = true
    unfold stepCast
    rw [hc]
    cases txs with
    | nil => rfl
    | cons tx txs =>
      obtain ⟨chan, hchan, hlen⟩ := hroom tx List.mem_cons_self
      cases ha : chan.alive with
      | true => simp [hchan, ha, hlen ha]
      | false => simp [hchan, ha]

theorem cleanup_goes {tid : Nat} {t : Nat × Nat} (ht : s.cleanups.get tid = some t) :
    ∃ s' evs, server.step s (.cleanupRun tid) = some (s', evs) := by
  refine step_of_isSome ?_
  show (step s (.cleanupRun tid)).isSome = true
  simp only [step, ht]
  rfl

end Goes

/-! ## A full channel does not stay full -/

/-- The recipients of a broadcast are channels of players that have registered. -/
theorem recipients_registered {G : Sys → Action → Prop} {s : Sys} {tr : List Event}
    (h : server.Reach G s tr) : ∀ cid c tx, s.casts.get cid = some c → tx ∈ c.recipients →
      ∃ m p a, Event.registered m p a tx ∈ tr := by
  refine Machine.Reach.induct (P := fun s tr => ∀ cid c tx, s.casts.get cid = some c →
    tx ∈ c.recipients → ∃ m p a, Event.registered m p a tx ∈ tr) ?_ ?_ h
  · intro s hinit cid c tx hc
    obtain ⟨url, rfl⟩ := hinit
    cases hc
  · intro s tr a s' evs hreach hi _ hs cid c tx hc htx
    have hents : Registrants s tr := registrants hreach
    have hold : ∀ {cid c}, s.casts.get cid = some c → tx ∈ c.recipients →
        ∃ m p a, Event.registered m p a tx ∈ tr ++ evs := by
      intro cid c hc htx
      obtain ⟨m, p, a, ho⟩ := hi cid c tx hc htx
      exact ⟨m, p, a, List.mem_append_left _ ho⟩
    cases step_spec hs with
    | control h =>
      cases h with
      | started _ _ _ =>
        rcases HashMap.get_insert_cases hc with ⟨-, rfl⟩ | ⟨-, hc⟩
        · cases htx
        · exact hold hc htx
      | _ => exact hold hc htx
    | join h => cases h <;> exact hold hc htx
    | param h =>
      cases h with
      | refused ht _ _ =>
        rcases HashMap.get_insert_cases hc with ⟨-, rfl⟩ | ⟨-, hc⟩
        · obtain ⟨a, ho⟩ := hents.updating ht
          obtain rfl := List.mem_singleton.mp htx
          exact ⟨_, _, a, List.mem_append_left _ ho⟩
        · exact hold hc htx
      | updated _ _ _ _ _ =>
        rcases HashMap.get_insert_cases hc with ⟨-, rfl⟩ | ⟨-, hc⟩
        · cases htx
        · exact hold hc htx
      | _ => exact hold hc htx
    | cast h =>
      cases h with
      | noRoom _ _ | done _ => exact hold (HashMap.get_remove_eq_some.mp hc).2 htx
      | collected _ hr hp =>
        rcases HashMap.get_insert_cases hc with ⟨-, rfl⟩ | ⟨-, hc⟩
        · obtain ⟨p, seat, hseat, rfl⟩ := mem_recipients.mp (hp.mem_iff.mp htx)
          obtain ⟨a, ho, -⟩ := seat_registered hents ((seat_of_room hr p).trans hseat)
          exact ⟨_, p, a, List.mem_append_left _ ho⟩
        · exact hold hc htx
      | sent ht _ _ _ | lost ht _ _ =>
        rcases HashMap.get_insert_cases hc with ⟨-, rfl⟩ | ⟨-, hc⟩
        · exact hold ht (List.mem_cons_of_mem _ htx)
        · exact hold hc htx
    | relay h => rw [(relay_quiet h).1] at hc; exact hold hc htx
    | drain h => rw [(drain_quiet h).1] at hc; exact hold hc htx

theorem passOnly_own (s : Sys) (a : Action) (h : passOnly s a) : ownOnly s a := by
  cases a with
  | drainStep ok => rfl
  | _ => cases h

/-- A whole pass of the outgoing task: every session's queue is empty after it. -/
theorem pass_empties {s : Sys} {tr : List Event} (h : server.Reach Machine.anyStep s tr)
    (hd : s.drain = none) : ∃ as us s', server.Run ownOnly s as us s' ∧
      (∀ addr, s'.pendingAt addr = []) ∧ s' = { s with chans := s'.chans } ∧
      ∀ tx, (s'.chans.get tx).map (·.alive) = (s.chans.get tx).map (·.alive) := by
  have hlock : server.step s (.drainStart s.clients.keys) =
      some ({ s with drain := some (.take s.clients.keys) }, []) := by
    show drainStart s s.clients.keys = _
    rw [drainStart, if_pos ⟨hd, List.Perm.refl _⟩]
  obtain ⟨as, log, s', hrun, hend⟩ := pass_ends { s with drain := some (.take s.clients.keys) }
  obtain ⟨-, hframe, hempty, out, hpass, -⟩ := whole_pass h hlock hrun hend
  have hfirst : server.Run ownOnly s [.drainStart s.clients.keys] [] _ :=
    Machine.Run.nil.snoc (rfl : ownOnly s (.drainStart s.clients.keys)) hlock
  exact ⟨_, _, s', hfirst.trans (hrun.unrecorded.mono passOnly_own), hempty, hframe, hpass.alive⟩

/-- A live channel that no join holds is that of a session, so an empty queue of every
session leaves no live channel full. -/
theorem room_in_live {s : Sys} {tr : List Event} (h : server.Reach Machine.anyStep s tr)
    (hj : ∀ tid, s.joins.get tid = none) (hempty : ∀ addr, s.pendingAt addr = []) {tx : ChanId}
    {chan : Channel} (hc : s.chans.get tx = some chan) (ha : chan.alive = true) :
    chan.queue.length < reliableCapacity := by
  obtain ⟨x, hx⟩ := ((receivers_owned h).live_iff tx).mp (live_iff.mpr ⟨chan, hc, ha⟩)
  cases x with
  | session addr =>
    obtain ⟨c, hcl, hrx⟩ := Option.map_eq_some_iff.mp hx
    have hpending := pendingAt_eq hcl (hrx ▸ hc)
    rw [← hpending, hempty addr]
    exact Nat.succ_pos _
  | task tid =>
    rw [Sys.receiver, hj] at hx
    cases hx

/-! ## To rest -/

/-- A step of a task, after a run of the server by itself. -/
theorem spends_after {s s₁ : Sys} (hi : Reachable s) {as : List Action} {us : List Event}
    (hrun : server.Run ownOnly s as us s₁) {a : Action} (ha : a.ofTask = true)
    (hgo : ∃ s' evs, server.step s₁ a = some (s', evs)) :
    ∃ as us s', server.Run ownOnly s as us s' ∧ s'.work < s.work := by
  obtain ⟨s₂, evs, hs⟩ := hgo
  have hown : ownOnly s₁ a := by
    cases a <;> first | rfl | cases ha
  have hbefore := hrun.spends own_spends hi
  have hpay := own_spends.pays s₁ a s₂ evs (own_spends.keeps_run hrun hi) hown hs
  rw [ha, Bool.toNat_true] at hpay
  exact ⟨_, _, s₂, hrun.snoc hown hs, by omega⟩

/-- While the registry is free and something is left to do, the server can do some of it. -/
theorem work_goes_on_free {s : Sys} (hi : Reachable s) (hd : s.drain = none) (hne : s.work ≠ 0) :
    ∃ as us s', server.Run ownOnly s as us s' ∧ s'.work < s.work := by
  by_cases hj : HashMap.total JoinTask.work s.joins = 0
  · by_cases hp : HashMap.total ParamTask.work s.params = 0
    · by_cases hr : HashMap.total RelayTask.work s.relays = 0
      · by_cases hc : HashMap.total (fun _ => 1) s.cleanups = 0
        · -- only broadcasts are left, and a pass makes room for them
          obtain ⟨cid, c, hcast⟩ := HashMap.exists_of_total Cast.work (m := s.casts) (by
            rw [Sys.work, hj, hp, hr, hc] at hne
            omega)
          have hjoins := HashMap.eq_none_of_total _ JoinTask.work_pos hj
          obtain ⟨tr, h⟩ := hi
          obtain ⟨as, us, s₁, hrun, hempty, hframe, -⟩ := pass_empties h hd
          have h₁ := h.run (hrun.mono fun _ _ _ => trivial)
          have hcast₁ : s₁.casts.get cid = some c := by rw [hframe]; exact hcast
          have hjoins₁ : ∀ tid, s₁.joins.get tid = none := by rw [hframe]; exact hjoins
          obtain ⟨ch, hgo⟩ := cast_goes hcast₁ fun tx htx => by
            obtain ⟨m, p, a, ho⟩ := recipients_registered h₁ cid c tx hcast₁ htx
            obtain ⟨chan, hchan⟩ := (registry h₁).chan ho
            exact ⟨chan, hchan, room_in_live h₁ hjoins₁ hempty hchan⟩
          exact spends_after ⟨tr, h⟩ hrun rfl hgo
        · obtain ⟨tid, t, ht⟩ := HashMap.exists_of_total _ hc
          exact spends_after hi .nil rfl (cleanup_goes ht)
      · obtain ⟨tid, t, ht⟩ := HashMap.exists_of_total _ hr
        obtain ⟨ch, hgo⟩ := relay_goes hd ht
        exact spends_after hi .nil rfl hgo
    · obtain ⟨tid, t, ht⟩ := HashMap.exists_of_total _ hp
      obtain ⟨ch, hgo⟩ := param_goes hd ht
      exact spends_after hi .nil rfl hgo
  · obtain ⟨tid, t, ht⟩ := HashMap.exists_of_total _ hj
    obtain ⟨ch, hgo⟩ := join_goes hd ht
    exact spends_after hi .nil rfl hgo

/-- A run of the outgoing task to the end of its pass. -/
theorem pass_released (s : Sys) :
    ∃ as us s', server.Run ownOnly s as us s' ∧ s'.drain = none := by
  obtain ⟨as, log, s', hrun, hend⟩ := pass_ends s
  exact ⟨as, _, s', hrun.unrecorded.mono passOnly_own, hend⟩

/-- While something is left to do, the server can do some of it. -/
theorem work_goes_on {s : Sys} (hi : Reachable s) (hne : s.work ≠ 0) :
    ∃ as us s', server.Run ownOnly s as us s' ∧ s'.work < s.work := by
  obtain ⟨as, us, s₁, hrun, hend⟩ := pass_released s
  have hle := hrun.spends own_spends hi
  by_cases h0 : s₁.work = 0
  · exact ⟨as, us, s₁, hrun, by omega⟩
  · obtain ⟨bs, vs, s₂, hrun', hlt⟩ := work_goes_on_free (own_spends.keeps_run hrun hi) hend h0
    exact ⟨_, _, s₂, hrun.trans hrun', by omega⟩

/-- No task is under way. -/
structure Sys.Idle (s : Sys) : Prop where
  joins : ∀ tid, s.joins.get tid = none
  params : ∀ tid, s.params.get tid = none
  casts : ∀ cid, s.casts.get cid = none
  relays : ∀ tid, s.relays.get tid = none
  cleanups : ∀ tid, s.cleanups.get tid = none

theorem idle_of_work {s : Sys} (h : s.work = 0) : s.Idle := by
  unfold Sys.work at h
  exact ⟨HashMap.eq_none_of_total _ JoinTask.work_pos (by omega),
    HashMap.eq_none_of_total _ ParamTask.work_pos (by omega),
    HashMap.eq_none_of_total _ Cast.work_pos (by omega),
    HashMap.eq_none_of_total _ RelayTask.work_pos (by omega),
    HashMap.eq_none_of_total _ (fun _ => Nat.one_pos) (by omega)⟩

/-- From every reachable state, however the environment has behaved, no run of the server by
itself takes more than `work` steps of tasks, and some run finishes every task, delivers
every queue and leaves the registry free. -/
theorem comes_to_rest {s : Sys} {tr : List Event} (h : server.Reach Machine.anyStep s tr) :
    (∀ as us s', server.Run ownOnly s as us s' → as.countP Action.ofTask ≤ s.work) ∧
    ∃ as us s', server.Run ownOnly s as us s' ∧ s'.Idle ∧ s'.drain = none ∧
      ∀ addr, s'.pendingAt addr = [] := by
  have hi : Reachable s := ⟨tr, h⟩
  refine ⟨?_, ?_⟩
  · intro as us s' hrun
    have hspends := hrun.spends own_spends hi
    omega
  · obtain ⟨as, us, s₁, hrun, h0⟩ := own_spends.rest (fun _ => work_goes_on) hi
    obtain ⟨bs, vs, s₂, hrun₂, hend⟩ := pass_released s₁
    obtain ⟨tr₂, h₂⟩ := own_spends.keeps_run (hrun.trans hrun₂) hi
    obtain ⟨cs, ws, s₃, hrun₃, hempty, hframe, -⟩ := pass_empties h₂ hend
    have hall := (hrun.trans hrun₂).trans hrun₃
    have h₁ := (hrun₂.trans hrun₃).spends own_spends (own_spends.keeps_run hrun hi)
    refine ⟨_, _, s₃, hall, idle_of_work (by omega), ?_, hempty⟩
    rw [hframe]
    exact hend

/-- A join and an announcement that are still under way. -/
theorem comes_to_rest_joining : ∃ s tr, server.Reach Machine.anyStep s tr ∧ s.work ≠ 0 ∧
    ∃ as us s', server.Run ownOnly s as us s' ∧ s'.Idle := by
  obtain ⟨s, tr, h, hp⟩ := reach_of_actions Machine.anyStep (startedJoining.take 8)
    (fun s _ => s.work != 0) (by decide)
  obtain ⟨as, us, s', hrun, hidle, -⟩ := (comes_to_rest h).2
  exact ⟨s, tr, h, by simpa using hp, as, us, s', hrun, hidle⟩

end Kotatsu
