import Kotatsu.Registry
import Mathlib.Data.List.Chain

/-
  The history of a player's parameters

  `ParamLog` is the abstract account: a list of changes, each accepted from what
  the ones before it left. A log determines the levels (`log_levels`), keeps them
  in range (`log_inRange`) and spaces its changes by the cooldown
  (`log_cooldown`). Over any run of the server, the changes of a player form a log,
  and the seat stores what the log leaves (`params_logged`): the registration
  starts it, every accepted change extends it, and nothing else writes it.
-/

namespace Kotatsu

/-! ## Logs of changes -/

structure ParamUpdate where
  param : ParamKind
  direction : ParamDirection
  nowUnix : Nat
  updated : ParamMutation

/-- The parameters after these changes. -/
def paramsAfter (us : List ParamUpdate) : PlayerParams :=
  (us.getLast?.map (·.updated.params)).getD .default

/-- The end of the cooldown after these changes. -/
def nextAfter (us : List ParamUpdate) : Nat :=
  (us.getLast?.map (·.updated.nextParamChangeAtUnix)).getD 0

/-- Each change is accepted from what the ones before it left. -/
inductive ParamLog : List ParamUpdate → Prop
  | nil : ParamLog []
  | snoc {us : List ParamUpdate} {u : ParamUpdate} (hus : ParamLog us)
      (hu : applyParamChange (paramsAfter us) (nextAfter us) u.param u.direction u.nowUnix =
        .ok u.updated) : ParamLog (us ++ [u])

@[simp] theorem paramsAfter_snoc (us : List ParamUpdate) (u : ParamUpdate) :
    paramsAfter (us ++ [u]) = u.updated.params := by simp [paramsAfter]

@[simp] theorem nextAfter_snoc (us : List ParamUpdate) (u : ParamUpdate) :
    nextAfter (us ++ [u]) = u.updated.nextParamChangeAtUnix := by simp [nextAfter]

/-- The changes of this kind in this direction. -/
def changes (k : ParamKind) (d : ParamDirection) (us : List ParamUpdate) : Nat :=
  us.countP fun u => u.param == k && u.direction == d

theorem changes_snoc (k : ParamKind) (d : ParamDirection) (us : List ParamUpdate)
    (u : ParamUpdate) : changes k d (us ++ [u]) =
      changes k d us + if u.param = k ∧ u.direction = d then 1 else 0 := by
  rw [changes, List.countP_append, List.countP_singleton]
  simp [changes]

/-- No change is lost: a level is the default, shifted by the changes of its kind. -/
theorem log_levels {us : List ParamUpdate} (h : ParamLog us) (k : ParamKind) :
    ((paramsAfter us).level k : Int) =
      PlayerParams.default.level k + changes k .increase us - changes k .decrease us := by
  induction h with
  | nil => simp [paramsAfter, changes]
  | @snoc us u hus hu ih =>
    obtain ⟨-, -, hlevel, -⟩ := applyParamChange_ok hu
    rw [paramsAfter_snoc, hlevel k, ih, changes_snoc, changes_snoc]
    by_cases hk : k = u.param
    · subst hk
      cases u.direction <;> simp [ParamDirection.delta] <;> omega
    · simp [hk, Ne.symm hk]

theorem log_inRange {us : List ParamUpdate} (h : ParamLog us) : (paramsAfter us).InRange := by
  induction h with
  | nil => exact default_inRange
  | snoc _ hu ih =>
    rw [paramsAfter_snoc]
    exact applyParamChange_inRange ih hu

/-- Every change starts its cooldown at its own reading of the clock. -/
theorem log_next {us : List ParamUpdate} (h : ParamLog us) :
    ∀ u ∈ us, u.updated.nextParamChangeAtUnix = u.nowUnix + paramChangeCooldownSecs := by
  induction h with
  | nil => simp
  | @snoc us u hus hu ih =>
    intro v hv
    rcases List.mem_append.mp hv with hv | hv
    · exact ih v hv
    · rw [List.mem_singleton.mp hv]
      exact (applyParamChange_ok hu).2.1

/-- A change is the last of a log that is a beginning of the whole one. -/
theorem log_upTo {us : List ParamUpdate} (h : ParamLog us) {u : ParamUpdate} (hu : u ∈ us) :
    ∃ pre, ParamLog (pre ++ [u]) ∧ pre ++ [u] <+: us := by
  induction h with
  | nil => cases hu
  | @snoc us v hus hv ih =>
    rcases List.mem_append.mp hu with hu | hu
    · obtain ⟨pre, hlog, hpre⟩ := ih hu
      exact ⟨pre, hlog, hpre.trans (List.prefix_append us [v])⟩
    · rw [List.mem_singleton.mp hu]
      exact ⟨us, hus.snoc hv, List.prefix_refl _⟩

/-- Neighbouring changes are a cooldown apart. -/
theorem log_cooldown {us : List ParamUpdate} (h : ParamLog us) :
    us.IsChain fun u v => u.nowUnix + paramChangeCooldownSecs ≤ v.nowUnix := by
  induction h with
  | nil => exact .nil
  | @snoc us u hus hu ih =>
    refine ih.append (.singleton u) ?_
    intro v hv w hw
    obtain rfl : u = w := by simpa using hw
    have hlast : us.getLast? = some v := hv
    have hnext : nextAfter us = v.nowUnix + paramChangeCooldownSecs := by
      rw [nextAfter, hlast]
      exact log_next hus v (List.mem_of_getLast? hlast)
    have hnow : nextAfter us ≤ u.nowUnix := (applyParamChange_ok hu).1
    omega

/-! ## The server keeps a log for each player -/

/-- The change that the event reports about `p`. -/
def Event.updateOf (p : String) : Event → Option ParamUpdate
  | .paramUpdated _ p' k d now mu => if p' = p then some ⟨k, d, now, mu⟩ else none
  | _ => none

/-- The changes of `p`, in the order in which they took effect. -/
def updatesOf (tr : List Event) (p : String) : List ParamUpdate := tr.filterMap (Event.updateOf p)

theorem updatesOf_append (tr evs : List Event) (p : String) :
    updatesOf (tr ++ evs) p = updatesOf tr p ++ updatesOf evs p := List.filterMap_append

theorem mem_updatesOf {tr : List Event} {p : String} {u : ParamUpdate} (h : u ∈ updatesOf tr p) :
    ∃ m, Event.paramUpdated m p u.param u.direction u.nowUnix u.updated ∈ tr := by
  obtain ⟨e, he, heq⟩ := List.mem_filterMap.mp h
  cases e with
  | paramUpdated m p' k d now mu =>
    obtain ⟨rfl, rfl⟩ : p' = p ∧ ⟨k, d, now, mu⟩ = u := by simpa [Event.updateOf] using heq
    exact ⟨m, he⟩
  | _ => cases heq

theorem updatesOf_mem {tr : List Event} {m p : String} {k : ParamKind} {d : ParamDirection}
    {now : Nat} {mu : ParamMutation} (h : Event.paramUpdated m p k d now mu ∈ tr) :
    ⟨k, d, now, mu⟩ ∈ updatesOf tr p := List.mem_filterMap.mpr ⟨_, h, if_pos rfl⟩

theorem updatesOf_quiet {evs : List Event} {p : String}
    (h : ∀ m k d now mu, Event.paramUpdated m p k d now mu ∉ evs) : updatesOf evs p = [] := by
  refine List.filterMap_eq_nil_iff.mpr fun e he => ?_
  cases e with
  | paramUpdated m q k d now mu =>
    refine if_neg ?_
    intro heq
    subst heq
    exact h m k d now mu he
  | _ => rfl

theorem updatesOf_self (m p : String) (k : ParamKind) (d : ParamDirection) (now : Nat)
    (mu : ParamMutation) : updatesOf [.paramUpdated m p k d now mu] p = [⟨k, d, now, mu⟩] := by
  simp [updatesOf, Event.updateOf]

/-- A change is alone in its step, is accepted from what the seat stores, and is
stored in the seat. -/
theorem updated_by {s : Sys} {a : Action} {core : CoreState} {evs : List Event}
    (h : CoreStep s a core evs) {m p : String} {k : ParamKind} {d : ParamDirection} {now : Nat}
    {mu : ParamMutation} (he : Event.paramUpdated m p k d now mu ∈ evs) :
    evs = [.paramUpdated m p k d now mu] ∧ ∃ seat, s.core.seat m p = some seat ∧
      applyParamChange seat.params seat.nextParamChangeAtUnix k d now = .ok mu ∧
      core.seat m p = some
        { seat with
          params := mu.params
          nextParamChangeAtUnix := mu.nextParamChangeAtUnix } := by
  cases h with
  | quiet hq => exact absurd (hq _ he) (by simp [Event.onCore])
  | updated _ hr hp hu =>
    obtain ⟨rfl, rfl, rfl, rfl, rfl, rfl⟩ :
      m = _ ∧ p = _ ∧ k = _ ∧ d = _ ∧ now = _ ∧ mu = _ := by simpa using he
    refine ⟨rfl, _, (seat_of_room hr _).trans hp, hu, ?_⟩
    rw [seat_setRoom, if_pos rfl, get_setParams, if_pos rfl]
  | _ => simp at he

structure ParamsLogged (s : Sys) (tr : List Event) : Prop where
  log : ∀ p, ParamLog (updatesOf tr p)
  seat : ∀ {m p seat}, s.core.seat m p = some seat →
    seat.params = paramsAfter (updatesOf tr p) ∧
    seat.nextParamChangeAtUnix = nextAfter (updatesOf tr p)
  registered : ∀ {m p k d now mu}, Event.paramUpdated m p k d now mu ∈ tr →
    ∃ m' a tx, Event.registered m' p a tx ∈ tr

/-- A seat is that of its player's registration. -/
theorem seat_registered {s : Sys} {tr : List Event} (hi : Registrants s tr) {m p : String}
    {seat : PlayerHandle} (hs : s.core.seat m p = some seat) :
    ∃ a, Event.registered m p a seat.reliableTx ∈ tr ∧ seat.connection = some (.udp a) := by
  obtain ⟨a, tx, hl, hreg⟩ := hi.seat (link_eq_some.mpr ⟨seat, hs, rfl⟩)
  obtain ⟨hconn, htx⟩ := Prod.mk.inj hl
  exact ⟨a, htx ▸ hreg, hconn⟩

theorem paramsLogged_step {s s' : Sys} {tr : List Event} (hreg : Registry s tr)
    (hents : Registrants s tr) (hi : ParamsLogged s tr) {a : Action} {evs : List Event}
    (h : Step s a s' evs) : ParamsLogged s' (tr ++ evs) := by
  have hcore : CoreStep s a s'.core evs := step_core h
  refine ⟨?_, ?_, ?_⟩
  · intro p
    rw [updatesOf_append]
    by_cases hu : ∃ m k d now mu, Event.paramUpdated m p k d now mu ∈ evs
    · obtain ⟨m, k, d, now, mu, he⟩ := hu
      obtain ⟨rfl, seat, hs, happ, -⟩ := updated_by hcore he
      obtain ⟨hparams, hnext⟩ := hi.seat hs
      rw [updatesOf_self]
      refine (hi.log p).snoc ?_
      rw [← hparams, ← hnext]
      exact happ
    · rw [updatesOf_quiet fun m k d now mu he => hu ⟨m, k, d, now, mu, he⟩, List.append_nil]
      exact hi.log p
  · intro m p seat hs
    rw [updatesOf_append]
    cases seat_from hcore hs with
    | kept hs hu _ =>
      -- a change of `p` elsewhere would need a second registration
      have hnone : updatesOf evs p = [] := by
        refine updatesOf_quiet fun m' k d now mu he => ?_
        obtain ⟨-, seat', hs', -⟩ := updated_by hcore he
        obtain ⟨_, hr, -⟩ := seat_registered hents hs
        obtain ⟨_, hr', -⟩ := seat_registered hents hs'
        obtain ⟨rfl, -⟩ := hreg.once hr hr'
        exact hu k d now mu he
      rw [hnone, List.append_nil]
      exact hi.seat hs
    | registered =>
      have hfresh := unregistered_before hreg h (List.mem_singleton_self _)
      have hnone : s.core.seat m p = none := by
        refine Option.eq_none_iff_forall_ne_some.mpr fun seat' hs' => ?_
        obtain ⟨_, hr, -⟩ := seat_registered hents hs'
        exact hfresh _ _ _ hr
      have hupd : updatesOf tr p = [] := by
        refine updatesOf_quiet fun m' k d now mu he => ?_
        obtain ⟨m₁, a₁, tx₁, hr⟩ := hi.registered he
        exact hfresh _ _ _ hr
      rw [hnone, hupd]
      exact ⟨rfl, rfl⟩
    | updated _ _ =>
      rw [updatesOf_self, paramsAfter_snoc, nextAfter_snoc]
      exact ⟨rfl, rfl⟩
    | @laidOut _ room sh now hr hp =>
      have hnone : updatesOf [.roomStarted m now true (snapshotPlayers (room.start sh now))] p =
        [] := rfl
      have hseat := hi.seat ((seat_of_room hr p).trans hp)
      rw [hnone, List.append_nil]
      exact hseat
  · intro m p k d now mu hm
    rcases List.mem_append.mp hm with hm | hm
    · obtain ⟨m', a', tx, hr⟩ := hi.registered hm
      exact ⟨m', a', tx, List.mem_append_left _ hr⟩
    · obtain ⟨-, seat, hs, -⟩ := updated_by hcore hm
      obtain ⟨a', hr, -⟩ := seat_registered hents hs
      exact ⟨m, a', _, List.mem_append_left _ hr⟩

/-- Over any run, the changes of a player form a log, and its seat stores what the
log leaves. -/
theorem params_logged {G : Sys → Action → Prop} {s : Sys} {tr : List Event}
    (h : server.Reach G s tr) : ParamsLogged s tr := by
  refine Machine.Reach.induct (P := ParamsLogged) ?_ ?_ h
  · intro s hinit
    obtain ⟨url, rfl⟩ := hinit
    refine ⟨fun _ => .nil, ?_, ?_⟩ <;> intros <;> next h => cases h
  · intro s tr a s' evs hreach hi _ hs
    exact paramsLogged_step (registry hreach) (registrants hreach) hi (step_spec hs)

/-! ## The whole history -/

theorem inRange_bounds {params : PlayerParams} (h : params.InRange) :
    (1 ≤ params.gravity ∧ params.gravity ≤ 3) ∧ (1 ≤ params.friction ∧ params.friction ≤ 2) ∧
    (1 ≤ params.speed ∧ params.speed ≤ 3) :=
  ⟨h .gravity, h .friction, h .speed⟩

/-- The broadcast that an accepted change puts under way carries its mutation. -/
theorem applied_cast {s s' : Sys} {a : Action} {evs : List Event} (h : Step s a s' evs)
    {m p : String} {k : ParamKind} {d : ParamDirection} {now : Nat} {mu : ParamMutation}
    (he : Event.paramUpdated m p k d now mu ∈ evs) :
    ∃ cid seq ms, s'.casts.get cid = some
      (.collect m (.paramApplied p seq mu.params mu.nextParamChangeAtUnix ms)) := by
  obtain ⟨tid, ch, -, hp⟩ := step_emitted (w := .param) h he rfl
  cases hp with
  | updated _ _ _ _ _ =>
    obtain ⟨rfl, rfl, -, -, -, rfl⟩ :
      m = _ ∧ p = _ ∧ k = _ ∧ d = _ ∧ now = _ ∧ mu = _ := by simpa using he
    exact ⟨_, _, _, HashMap.get_insert_self _ _ _⟩
  | _ => simp at he

/-- The step from `s₀` to `s₁` is an accepted change: the seat then stores the returned
mutation, which moved one kind by one from what it stored before, and so does the
broadcast. -/
def StoresMutation (s₀ s₁ : Sys) (m p : String) (k : ParamKind) (d : ParamDirection)
    (mu : ParamMutation) : Prop :=
  (∃ seat₀ seat₁, s₀.core.seat m p = some seat₀ ∧ s₁.core.seat m p = some seat₁ ∧
    seat₁.params = mu.params ∧ seat₁.nextParamChangeAtUnix = mu.nextParamChangeAtUnix ∧
    ∀ k', (seat₁.params.level k' : Int) =
      seat₀.params.level k' + if k' = k then d.delta else 0) ∧
  ∃ cid seq ms, s₁.casts.get cid = some
    (.collect m (.paramApplied p seq mu.params mu.nextParamChangeAtUnix ms))

theorem stores_mutation {s s' : Sys} {a : Action} {evs : List Event} (h : Step s a s' evs)
    {m p : String} {k : ParamKind} {d : ParamDirection} {now : Nat} {mu : ParamMutation}
    (he : Event.paramUpdated m p k d now mu ∈ evs) : StoresMutation s s' m p k d mu := by
  obtain ⟨-, seat, hseat, happ, hseat'⟩ := updated_by (step_core h) he
  refine ⟨⟨seat, _, hseat, hseat', rfl, rfl, ?_⟩, applied_cast h he⟩
  exact (applyParamChange_ok happ).2.2.1

/-- The parameters of every player, over any run and any readings of the clock:
what a seat stores is the default shifted by all changes so far, and in range; two
changes are a cooldown apart; and whatever change the next step makes is stored and
broadcast as returned. -/
theorem param_history {s : Sys} {tr : List Event} (h : server.Reach Machine.anyStep s tr) :
    (∀ m p seat, s.core.seat m p = some seat →
      (∀ k, (seat.params.level k : Int) = PlayerParams.default.level k +
        changes k .increase (updatesOf tr p) - changes k .decrease (updatesOf tr p)) ∧
      (1 ≤ seat.params.gravity ∧ seat.params.gravity ≤ 3) ∧
      (1 ≤ seat.params.friction ∧ seat.params.friction ≤ 2) ∧
      (1 ≤ seat.params.speed ∧ seat.params.speed ≤ 3)) ∧
    (∀ p, (updatesOf tr p).IsChain fun u v =>
      u.nowUnix + paramChangeCooldownSecs ≤ v.nowUnix) ∧
    ∀ a s' evs, server.step s a = some (s', evs) → ∀ m p k d now mu,
      Event.paramUpdated m p k d now mu ∈ evs → StoresMutation s s' m p k d mu := by
  have hlogged : ParamsLogged s tr := params_logged h
  refine ⟨?_, fun p => log_cooldown (hlogged.log p), ?_⟩
  · intro m p seat hs
    rw [(hlogged.seat hs).1]
    exact ⟨log_levels (hlogged.log p), inRange_bounds (log_inRange (hlogged.log p))⟩
  · intro a s' evs hs m p k d now mu he
    exact stores_mutation (step_spec hs) he

/-- Two changes of a player, seven seconds apart, around the second. -/
theorem param_history_two : ∃ s tr seat s' evs mu, server.Reach Machine.anyStep s tr ∧
    s.core.seat "m_r" "p_1" = some seat ∧
    (seat.params.level .gravity : Int) = PlayerParams.default.level .gravity +
      changes .gravity .increase (updatesOf tr "p_1") -
      changes .gravity .decrease (updatesOf tr "p_1") ∧
    server.step s (.param 2 { nowUnix := 17, fresh := 1 }) = some (s', evs) ∧
    (updatesOf (tr ++ evs) "p_1").length = 2 ∧
    Event.paramUpdated "m_r" "p_1" .gravity .decrease 17 mu ∈ evs ∧
    StoresMutation s s' "m_r" "p_1" .gravity .decrease mu := by
  obtain ⟨s, tr, h, hp⟩ := reach_of_actions Machine.anyStep
    ([.createRoom "r" 1, .issueJoinTicket ⟨"m_r", "x"⟩ "1" "t" 1] ++
      soloJoin 0 ⟨1, 1⟩ "t" [{}, {}, {}, {}, {}] ++
      [.recv 1 ⟨1, 1⟩ (.reliable (.paramChange 0 .gravity .increase)), .param 1 {},
        .param 1 { nowUnix := 10 },
        .recv 2 ⟨1, 1⟩ (.reliable (.paramChange 1 .gravity .decrease)), .param 2 {}])
    (fun s tr => (s.core.seat "m_r" "p_1").isSome &&
      (server.step s (.param 2 { nowUnix := 17, fresh := 1 })).any fun r =>
        (updatesOf (tr ++ r.2) "p_1").length == 2 &&
        r.2.any fun | .paramUpdated "m_r" "p_1" .gravity .decrease 17 _ => true | _ => false)
    (by decide)
  obtain ⟨hs, hp⟩ := (Bool.and_eq_true _ _).mp hp
  obtain ⟨seat, hs⟩ := Option.isSome_iff_exists.mp hs
  obtain ⟨⟨s', evs⟩, hstep, hp⟩ := (Option.any_eq_true _ _).mp hp
  obtain ⟨hlen, hp⟩ := (Bool.and_eq_true _ _).mp hp
  obtain ⟨e, he, hm⟩ := List.any_eq_true.mp hp
  obtain ⟨hseat, -, hnext⟩ := param_history h
  split at hm
  · next mu =>
    exact ⟨s, tr, seat, s', evs, mu, h, hs, (hseat "m_r" "p_1" seat hs).1 .gravity, hstep,
      by simpa using hlen, he, hnext _ _ _ hstep _ _ _ _ _ _ he⟩
  · cases hm

end Kotatsu
