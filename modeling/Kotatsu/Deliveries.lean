import Kotatsu.Authority
import Kotatsu.Casts

/-
  Copies of a parameter change (`handle_param_change`)

  The network may deliver a packet more than once, and late. Nothing in the server
  remembers a packet or its `seq`, so each copy is a change of its own: it may take effect
  again once the cooldown is over (`change_reapplied`). What holds is an account
  (`change_per_copy`): a change takes effect at most as often as a copy of it is
  delivered, each of its effects is put into a channel at most once, and the changes of a
  player are a cooldown apart.

  The account counts what has happened and what is still under way: a step moves a change
  from one column to the next, and makes none.
-/

namespace Kotatsu

open Machine (eventsOf)

/-! ## What is counted -/

/-- A parameter change with this number is received from `a`. -/
def receives (a : SocketAddr) (seq : Nat) (x : Moment Sys Action Event) : Bool :=
  match x.action with
  | .recv _ a' (.reliable (.paramChange seq' _ _)) => a' == a && seq' == seq
  | _ => false

/-- The event reports a change that took effect. -/
def Event.updates : Event → Bool
  | .paramUpdated .. => true
  | _ => false

/-- A change of `p` with this number takes effect. -/
def applies (p : String) (seq : Nat) (x : Moment Sys Action Event) : Bool :=
  x.events.any Event.updates &&
  match x.action with
  | .param tid _ =>
    match x.before.params.get tid with
    | some (.update _ p' _ seq' _ _) => p' == p && seq' == seq
    | _ => false
  | _ => false

/-- The message announces a change of `p` with this number. -/
def ServerReliable.carries (p : String) (seq : Nat) (msg : ServerReliable) : Bool :=
  (msg.appliedOf p seq).isSome

/-- The announcements that have been put into the channel. -/
def announcedOn (log : Log) (p : String) (seq : Nat) (tx : ChanId) : Nat :=
  (enqueuedOn (eventsOf log) tx).countP (·.carries p seq)

/-- The changes of `p`, whose address is `a`, that the task may still make. -/
def ParamTask.pending (a : SocketAddr) (p : String) (seq : Nat) : ParamTask → Nat
  | .lookup a' seq' _ _ => if a' = a ∧ seq' = seq then 1 else 0
  | .update _ p' _ seq' _ _ => if p' = p ∧ seq' = seq then 1 else 0

/-- The announcements that the broadcast may still put into the channel. -/
def Cast.pending (p : String) (seq : Nat) (tx : ChanId) : Cast → Nat
  | .collect _ msg => if msg.carries p seq then 1 else 0
  | .sending txs msg => if msg.carries p seq then txs.count tx else 0

/-! ## One step of the account -/

section Account
variable {s s' : Sys} {a : Action} {evs : List Event} {log : Log}

theorem countP_snoc (f : Moment Sys Action Event → Bool) (x : Moment Sys Action Event) :
    (log ++ [x]).countP f = log.countP f + if f x then 1 else 0 := by
  rw [List.countP_append, List.countP_singleton]

theorem applies_quiet {p : String} {seq : Nat} (h : ∀ e ∈ evs, e.updates = false) :
    applies p seq ⟨s, a, evs, s'⟩ = false := by
  have hnone : evs.any Event.updates = false := List.any_eq_false.mpr fun e he => by simp [h e he]
  simp [applies, hnone]

theorem applies_update {p p' m : String} {seq seq' tid now : Nat} {ch : Choice} {tx : ChanId}
    {k : ParamKind} {d : ParamDirection} {mu : ParamMutation}
    (ht : s.params.get tid = some (.update m p' tx seq' k d)) :
    applies p seq ⟨s, .param tid ch, [.paramUpdated m p' k d now mu], s'⟩ =
      decide (p' = p ∧ seq' = seq) := by
  simp only [applies, ht, Bool.decide_and]
  rfl

theorem receives_change (b addr : SocketAddr) (seq seq' tid : Nat) (k : ParamKind)
    (d : ParamDirection) :
    receives b seq ⟨s, .recv tid addr (.reliable (.paramChange seq' k d)), evs, s'⟩ =
      decide (addr = b ∧ seq' = seq) := by
  rw [Bool.decide_and]
  rfl

theorem announcedOn_snoc (p : String) (seq : Nat) (tx : ChanId) :
    announcedOn (log ++ [⟨s, a, evs, s'⟩]) p seq tx =
      announcedOn log p seq tx + (enqueuedOn evs tx).countP (·.carries p seq) := by
  rw [announcedOn, Machine.eventsOf_append, enqueuedOn_append, List.countP_append,
    Machine.eventsOf_singleton]
  rfl

/-- A step takes effect at most as often as it lets go of a pending change. -/
theorem changes_step (h : Step s a s' evs) (b : SocketAddr) (p : String) (seq : Nat)
    (hsession : ∀ addr c, s.clients.get addr = some c → c.playerId = p → addr = b) :
    (if applies p seq ⟨s, a, evs, s'⟩ then 1 else 0) +
        HashMap.total (ParamTask.pending b p seq) s'.params ≤
      HashMap.total (ParamTask.pending b p seq) s.params +
        if receives b seq ⟨s, a, evs, s'⟩ then 1 else 0 := by
  -- a step that leaves the tasks alone and changes nothing
  have hkeep : s'.params = s.params → (∀ e ∈ evs, e.updates = false) →
      (if applies p seq ⟨s, a, evs, s'⟩ then 1 else 0) +
          HashMap.total (ParamTask.pending b p seq) s'.params ≤
        HashMap.total (ParamTask.pending b p seq) s.params +
          if receives b seq ⟨s, a, evs, s'⟩ then 1 else 0 := by
    intro hp hq
    rw [applies_quiet hq, hp]
    simp
  cases h with
  | control h =>
    cases h with
    | @paramReceived tid addr seq' k d hf =>
      rw [applies_quiet (by simp), HashMap.total_new _ hf, receives_change]
      simp only [ParamTask.pending, Bool.false_eq_true, if_false, decide_eq_true_eq]
      omega
    | cleaned _ => exact hkeep rfl (by simp [Event.updates])
    | created _ | issued _ _ _ _ _ | started _ _ _ | startedAgain _ _ | finishedFirst _ _ _ _
    | finishedAgain _ _ _ _ | deleted _ | listed | got _ | refused | ticked _
    | ignored | joinReceived _ | datagramReceived _ => exact hkeep rfl (by simp [Event.updates])
  | join h =>
    have hq : ∀ e ∈ evs, e.updates = false := by
      intro e he
      rcases join_emits h e he with hj | hj <;> cases e <;> first | rfl | cases hj
    cases h <;> exact hkeep rfl hq
  | @param tid ch s' evs h =>
    cases h with
    | notJoined ht hc =>
      rw [applies_quiet (by simp), HashMap.total_remove _ ht]
      simp only [Bool.false_eq_true, if_false]
      omega
    | @lookedUp addr seq' k d c ht hc =>
      -- the session of `p` is at its own address
      rw [applies_quiet (by simp)]
      have hover := HashMap.total_over (ParamTask.pending b p seq) ht
        (.update c.matchId c.playerId c.tx seq' k d)
      have hle : (ParamTask.update c.matchId c.playerId c.tx seq' k d).pending b p seq ≤
          (ParamTask.lookup addr seq' k d).pending b p seq := by
        simp only [ParamTask.pending]
        split
        · next hp =>
          rw [if_pos ⟨hsession addr c hc hp.1, hp.2⟩]
        · omega
      simp only [Bool.false_eq_true, if_false]
      omega
    | refused ht hf _ =>
      rw [applies_quiet (by simp [Event.updates]), HashMap.total_remove _ ht]
      simp only [Bool.false_eq_true, if_false]
      omega
    | @updated m p' tx seq' k d cid now now' nowMs room player mu ht hf hr hp hu =>
      rw [applies_update ht, HashMap.total_remove _ ht]
      simp only [ParamTask.pending, decide_eq_true_eq]
      omega
  | cast h =>
    have hq : ∀ e ∈ evs, e.updates = false := by
      intro e he
      have hc := cast_emits h e he
      cases e <;> first | rfl | cases hc
    cases h <;> exact hkeep rfl hq
  | relay h =>
    obtain ⟨hs, he⟩ := relay_quiet h
    refine hkeep (by rw [hs]) ?_
    intro e hm
    obtain ⟨_, _, rfl⟩ := he e hm
    rfl
  | drain h =>
    obtain ⟨hs, he⟩ := drain_quiet h
    refine hkeep (by rw [hs]) ?_
    intro e hm
    obtain ⟨_, _, rfl⟩ := he e hm
    rfl

theorem carries_applied (p p' : String) (seq seq' : Nat) (params : PlayerParams) (next ms : Nat) :
    (ServerReliable.paramApplied p' seq' params next ms).carries p seq =
      decide (p' = p ∧ seq' = seq) := by
  by_cases hp : p' = p ∧ seq' = seq <;> simp [ServerReliable.carries, ServerReliable.appliedOf, hp]

/-- Events that put nothing into a channel announce nothing there. -/
theorem announces_nothing {p : String} {seq : Nat} {tx : ChanId}
    (h : ∀ msg, Event.enqueued tx msg ∉ evs) :
    (enqueuedOn evs tx).countP (·.carries p seq) = 0 := by
  have hnil : enqueuedOn evs tx = [] := by
    refine List.filterMap_eq_nil_iff.mpr ?_
    intro e he
    cases e with
    | enqueued tx' msg =>
      refine if_neg ?_
      intro heq
      exact h msg (heq ▸ he)
    | _ => rfl
  rw [hnil]
  rfl

/-- A step announces at most as often as it lets go of a pending announcement, and a change
that takes effect adds one. -/
theorem announcements_step (h : Step s a s' evs)
    (hnodup : ∀ m room, s.core.rooms.get m = some room →
      (room.players.values.map (·.reliableTx)).Nodup) (p : String) (seq : Nat) (tx : ChanId) :
    (enqueuedOn evs tx).countP (·.carries p seq) + HashMap.total (Cast.pending p seq tx) s'.casts ≤
      HashMap.total (Cast.pending p seq tx) s.casts +
        if applies p seq ⟨s, a, evs, s'⟩ then 1 else 0 := by
  -- a step that leaves the broadcasts alone and puts nothing into the channel
  have hkeep : s'.casts = s.casts → (∀ msg, Event.enqueued tx msg ∉ evs) →
      (enqueuedOn evs tx).countP (·.carries p seq) +
          HashMap.total (Cast.pending p seq tx) s'.casts ≤
        HashMap.total (Cast.pending p seq tx) s.casts +
          if applies p seq ⟨s, a, evs, s'⟩ then 1 else 0 := by
    intro hc hq
    rw [announces_nothing hq, hc]
    omega
  cases h with
  | control h =>
    cases h with
    | @started m sh ch room hf hr h0 =>
      rw [announces_nothing (by simp), HashMap.total_new _ hf]
      have hw : (Cast.collect m (.matchStarted m ch.nowUnix
        (snapshotPlayers (room.start sh ch.nowUnix)) ch.nowMs)).pending p seq tx = 0 := rfl
      omega
    | cleaned _ => exact hkeep rfl (by simp)
    | created _ | issued _ _ _ _ _ | startedAgain _ _ | finishedFirst _ _ _ _
    | finishedAgain _ _ _ _ | deleted _ | listed | got _ | refused | ticked _ | ignored
    | joinReceived _ | paramReceived _ | datagramReceived _ => exact hkeep rfl (by simp)
  | join h =>
    have hq : ∀ msg, Event.enqueued tx msg ∉ evs := by
      intro msg he
      rcases join_emits h _ he with hj | hj <;> cases hj
    cases h <;> exact hkeep rfl hq
  | param h =>
    cases h with
    | notJoined _ _ | lookedUp _ _ => exact hkeep rfl (by simp)
    | @refused m p' tx' seq' k d cid now e ht hf _ =>
      rw [announces_nothing (by simp), HashMap.total_new _ hf]
      have hw : (Cast.sending [tx'] (.error "param_update_failed" e)).pending p seq tx = 0 := rfl
      omega
    | @updated m p' tx' seq' k d cid now now' nowMs room player mu ht hf hr hp hu =>
      rw [announces_nothing (by simp), HashMap.total_new _ hf, applies_update ht]
      simp only [Cast.pending, carries_applied]
      omega
  | cast h =>
    cases h with
    | noRoom ht hr =>
      rw [announces_nothing (by simp), HashMap.total_remove _ ht]
      dsimp only
      omega
    | @collected m msg room txs ht hr hp =>
      -- no channel is collected twice
      have hover := HashMap.total_over (Cast.pending p seq tx) ht (.sending txs msg)
      have hle :
          (Cast.sending txs msg).pending p seq tx ≤ (Cast.collect m msg).pending p seq tx := by
        simp only [Cast.pending]
        split
        · rw [hp.count_eq]
          exact List.nodup_iff_count_le_one.mp (hnodup m room hr) tx
        · omega
      rw [announces_nothing (by simp)]
      dsimp only
      omega
    | done ht =>
      rw [announces_nothing (by simp), HashMap.total_remove _ ht]
      dsimp only
      omega
    | @sent tx' txs msg chan ht hc ha hl =>
      have hover := HashMap.total_over (Cast.pending p seq tx) ht (.sending txs msg)
      have hput : (enqueuedOn [.enqueued tx' msg] tx).countP (·.carries p seq) +
          (Cast.sending txs msg).pending p seq tx =
          (Cast.sending (tx' :: txs) msg).pending p seq tx := by
        by_cases htx : tx' = tx <;> cases hcar : msg.carries p seq <;>
          simp [enqueuedOn, Event.enqueuedOn, Cast.pending, htx, hcar, Nat.add_comm]
      dsimp only
      omega
    | @lost tx' txs msg chan ht hc ha =>
      have hover := HashMap.total_over (Cast.pending p seq tx) ht (.sending txs msg)
      have hle : (Cast.sending txs msg).pending p seq tx ≤
          (Cast.sending (tx' :: txs) msg).pending p seq tx := by
        simp only [Cast.pending, List.count_cons]
        split <;> omega
      rw [announces_nothing (by simp)]
      dsimp only
      omega
  | relay h =>
    obtain ⟨hs, he⟩ := relay_quiet h
    refine hkeep (by rw [hs]) ?_
    intro msg hm
    obtain ⟨_, _, heq⟩ := he _ hm
    cases heq
  | drain h =>
    obtain ⟨hs, he⟩ := drain_quiet h
    refine hkeep (by rw [hs]) ?_
    intro msg hm
    obtain ⟨_, _, heq⟩ := he _ hm
    cases heq

end Account

/-! ## The account over a run -/

/-- What has happened and what is under way, for the player `p` whose address is `a`. -/
structure Account (a : SocketAddr) (p : String) (seq : Nat) (s : Sys) (log : Log) : Prop where
  changes : log.countP (applies p seq) + HashMap.total (ParamTask.pending a p seq) s.params ≤
    log.countP (receives a seq)
  announcements : ∀ tx, announcedOn log p seq tx + HashMap.total (Cast.pending p seq tx) s.casts ≤
    log.countP (applies p seq)

theorem account {G : Sys → Action → Prop} {s : Sys} {log : Log} {a : SocketAddr} {p : String}
    {seq : Nat} (h : server.recorded.Reach G s log)
    (hp : ∀ m a' tx, Event.registered m p a' tx ∈ eventsOf log → a' = a) :
    Account a p seq s log := by
  refine Machine.Reach.log_induct (P := fun s log =>
    (∀ m a' tx, Event.registered m p a' tx ∈ eventsOf log → a' = a) → Account a p seq s log)
    ?_ ?_ h hp
  · intro s hinit _
    obtain ⟨url, rfl⟩ := hinit
    exact ⟨le_rfl, fun tx => le_rfl⟩
  · intro s log act s' evs hreach ih _ hs hp
    have hold : ∀ m a' tx, Event.registered m p a' tx ∈ eventsOf log → a' = a := by
      intro m a' tx hm
      refine hp m a' tx ?_
      rw [Machine.eventsOf_append]
      exact List.mem_append_left _ hm
    have hi : Account a p seq s log := ih hold
    have hents := registrants hreach.unrecorded
    refine ⟨?_, ?_⟩
    · have hstep := changes_step (step_spec hs) a p seq (by
        intro addr c hc hcp
        subst hcp
        exact hold _ _ _ (hents.session hc).1)
      have hchanges := hi.changes
      rw [countP_snoc, countP_snoc]
      omega
    · intro tx
      have hstep := announcements_step (step_spec hs)
        (fun m room hr => recipients_nodup (registry hreach.unrecorded) hents hr) p seq tx
      have hann := hi.announcements tx
      rw [countP_snoc, announcedOn_snoc]
      omega

/-- A change takes effect at most once for each copy of it that is delivered, and is
announced in a channel at most once for each time that it takes effect; the changes of a
player are a cooldown apart. -/
theorem change_per_copy {s : Sys} {log : Log} (h : server.recorded.Reach Machine.anyStep s log) :
    (∀ m p a tx, Event.registered m p a tx ∈ eventsOf log →
      ∀ seq, log.countP (applies p seq) ≤ log.countP (receives a seq)) ∧
    (∀ m p a tx, Event.registered m p a tx ∈ eventsOf log →
      ∀ seq tx', announcedOn log p seq tx' ≤ log.countP (applies p seq)) ∧
    ∀ p, (updatesOf (eventsOf log) p).Pairwise fun u v =>
      u.nowUnix + paramChangeCooldownSecs ≤ v.nowUnix := by
  have haccount : ∀ {m p a tx}, Event.registered m p a tx ∈ eventsOf log →
      ∀ seq, Account a p seq s log := by
    intro m p a tx hm seq
    refine account h ?_
    intro m' a' tx' hm'
    exact ((registry h.unrecorded).once hm' hm).2.1
  refine ⟨?_, ?_, ?_⟩
  · intro m p a tx hm seq
    have := (haccount hm seq).changes
    omega
  · intro m p a tx hm seq tx'
    have := (haccount hm seq).announcements tx'
    omega
  · intro p
    have : Trans (fun u v : ParamUpdate => u.nowUnix + paramChangeCooldownSecs ≤ v.nowUnix)
        (fun u v : ParamUpdate => u.nowUnix + paramChangeCooldownSecs ≤ v.nowUnix)
        (fun u v : ParamUpdate => u.nowUnix + paramChangeCooldownSecs ≤ v.nowUnix) :=
      ⟨fun h h' => by omega⟩
    exact List.isChain_iff_pairwise.mp (log_cooldown ((params_logged h.unrecorded).log p))

/-- The change `k`, `d` is the only one that `a` numbers `seq`. -/
def onlyChange (a : SocketAddr) (seq : Nat) (k : ParamKind) (d : ParamDirection)
    (x : Moment Sys Action Event) : Bool :=
  match x.action with
  | .recv _ a' (.reliable (.paramChange seq' k' d')) =>
    !(a' == a && seq' == seq) || (k' == k && d' == d)
  | _ => true

/-- Two changes, and a late copy of the second one. -/
def copiedChange : List Action :=
  [.createRoom "r" 1, .issueJoinTicket ⟨"m_r", "x"⟩ "1" "t1" 1] ++
  soloJoin 1 ⟨1, 1⟩ "t1" [{}, { nowUnix := 1, fresh := 1 }, { nowUnix := 1 }, {}, {}] ++
  [.recv 2 ⟨1, 1⟩ (.reliable (.paramChange 1 .gravity .decrease)), .param 2 {},
    .param 2 { nowUnix := 1, nowUnix' := 1, fresh := 0 },
    .recv 3 ⟨1, 1⟩ (.reliable (.paramChange 2 .gravity .increase)), .param 3 {},
    .param 3 { nowUnix := 8, nowUnix' := 8, fresh := 1 },
    .recv 4 ⟨1, 1⟩ (.reliable (.paramChange 2 .gravity .increase)), .param 4 {},
    .param 4 { nowUnix := 15, nowUnix' := 15, fresh := 2 }]

/-- `p_1` has registered from `⟨1, 1⟩`. -/
def registeredAt (log : Log) : Bool :=
  (eventsOf log).any fun | .registered "m_r" "p_1" ⟨1, 1⟩ 1 => true | _ => false

theorem registeredAt_spec {log : Log} (h : registeredAt log = true) :
    Event.registered "m_r" "p_1" ⟨1, 1⟩ 1 ∈ eventsOf log := by
  obtain ⟨e, he, hmatch⟩ := List.any_eq_true.mp h
  split at hmatch
  · exact he
  · cases hmatch

theorem change_per_copy_twice : ∃ s log, server.recorded.Reach Machine.anyStep s log ∧
    log.countP (applies "p_1" 2) = 2 ∧
    log.countP (applies "p_1" 2) ≤ log.countP (receives ⟨1, 1⟩ 2) ∧
    (updatesOf (eventsOf log) "p_1").Pairwise fun u v =>
      u.nowUnix + paramChangeCooldownSecs ≤ v.nowUnix := by
  obtain ⟨s, log, h, hp⟩ := log_of_actions Machine.anyStep copiedChange
    (fun _ log => registeredAt log && log.countP (applies "p_1" 2) == 2) (by decide)
  obtain ⟨hreg, htwo⟩ := (Bool.and_eq_true _ _).mp hp
  obtain ⟨hcopies, -, hspaced⟩ := change_per_copy h
  exact ⟨s, log, h, beq_iff_eq.mp htwo, hcopies _ _ _ _ (registeredAt_spec hreg) 2, hspaced "p_1"⟩

/-- The change takes effect twice. -/
theorem change_reapplied : ¬ ∀ s log m p a tx seq k d,
    server.recorded.Reach Machine.anyStep s log → Event.registered m p a tx ∈ eventsOf log →
    (∀ x ∈ log, onlyChange a seq k d x = true) →
    log.countP (applies p seq) ≤ 1 ∧ ∀ tx', announcedOn log p seq tx' ≤ 1 := by
  intro hall
  obtain ⟨s, log, h, hp⟩ := log_of_actions Machine.anyStep copiedChange
    (fun _ log => registeredAt log && log.all (onlyChange ⟨1, 1⟩ 2 .gravity .increase) &&
      log.countP (applies "p_1" 2) == 2) (by decide)
  simp only [Bool.and_eq_true, beq_iff_eq] at hp
  obtain ⟨⟨hreg, honly⟩, htwo⟩ := hp
  have hone := (hall s log _ _ _ _ 2 .gravity .increase h (registeredAt_spec hreg)
    (List.all_eq_true.mp honly)).1
  omega

end Kotatsu
