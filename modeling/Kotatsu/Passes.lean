import Kotatsu.FirstPacket
import Kotatsu.Lib.Rest

/-
  The outgoing task (`run_udp_server`)

  A pass locks the registry and takes the queued messages of one session after the other,
  each to be sent before the next is taken.
    1. `fifo`: whatever else goes on, the messages taken out of a channel are the first of
       those that were put into it, in order and each once; the next step of the task sends
       what was taken, to the address that the channel was registered from, if the socket
       takes it; and the task sends nothing else;
    2. `pass_delivers`: a pass that nothing comes between tries to send everything that was
       queued for any session when it began, and empties every queue. Such a pass always
       ends (`pass_ends`).
-/

namespace Kotatsu

open Machine (eventsOf)

/-! ## The message in hand -/

/-- The session into whose channel the outgoing task is about to look. -/
def Sys.draining (s : Sys) : Option ClientSession :=
  match s.drain with
  | some (.take (addr :: _)) => s.clients.get addr
  | _ => none

/-- The message that the step takes out of the channel. -/
def takes (s : Sys) (tx : ChanId) : Action → Option ServerReliable
  | .drainStep _ =>
    s.draining.bind fun session =>
      if session.rx = tx then (s.chans.get tx).bind (·.queue.head?) else none
  | _ => none

/-- The message that the outgoing task has taken and not sent yet, with its address. -/
def Sys.inHand (s : Sys) : Option (SocketAddr × ServerReliable) :=
  match s.drain with
  | some (.send session msg _) => some (session.addr, msg)
  | _ => none

/-- A step of a pass. -/
def Action.isPass : Action → Bool
  | .drainStep _ => true
  | _ => false

/-- A step, by what it does to the message in hand. -/
inductive HandStep (s s' : Sys) (a : Action) (evs : List Event) : Prop
  | kept (ha : a.isPass = false) (h : s'.inHand = s.inHand) : HandStep s s' a evs
  | took {addr : SocketAddr} {c : ClientSession} {msg : ServerReliable}
      {queue : List ServerReliable} {alive : Bool} (ha : a.isPass = true)
      (h : s.inHand = none) (hc : s.clients.get addr = some c)
      (hq : s.chans.get c.rx = some { queue := msg :: queue, alive := alive })
      (ht : ∀ tx, takes s tx a = if c.rx = tx then some msg else none)
      (h' : s'.inHand = some (c.addr, msg))
      (hch : s'.chans = s.chans.insert c.rx { queue := queue, alive := alive }) (he : evs = []) :
      HandStep s s' a evs
  | sent {ok : Bool} {addr : SocketAddr} {msg : ServerReliable} (ha : a = .drainStep ok)
      (h : s.inHand = some (addr, msg)) (ht : ∀ tx, takes s tx a = none) (h' : s'.inHand = none)
      (hch : s'.chans = s.chans) (he : evs = if ok then [.sentReliable addr msg] else []) :
      HandStep s s' a evs
  | passed (ha : a.isPass = true) (h : s.inHand = none) (ht : ∀ tx, takes s tx a = none)
      (h' : s'.inHand = none) (hch : s'.chans = s.chans) (he : evs = []) : HandStep s s' a evs

theorem hand_step {s s' : Sys} {a : Action} {evs : List Event}
    (hs : server.step s a = some (s', evs)) : HandStep s s' a evs := by
  cases a with
  | drainStep ok =>
    have hstep := hs
    change drainStep s ok = some (s', evs) at hs
    unfold drainStep at hs
    split at hs
    · cases hs
    · next hd =>
      cases hs
      exact .passed rfl (by rw [Sys.inHand, hd]) (fun tx => by simp [takes, Sys.draining, hd]) rfl
        rfl rfl
    · next addr rest hd =>
      have hnone : s.inHand = none := by rw [Sys.inHand, hd]
      split at hs
      · next hc =>
        cases hs
        exact .passed rfl hnone (fun tx => by simp [takes, Sys.draining, hd, hc]) rfl rfl rfl
      · next c hc =>
        have hat : s.draining = some c := by simp [Sys.draining, hd, hc]
        split at hs
        · next msg queue alive hq =>
          cases hs
          refine .took rfl hnone hc hq ?_ rfl rfl rfl
          intro tx
          simp only [takes, hat, Option.bind_some]
          split
          · next htx => rw [← htx, hq]; rfl
          · rfl
        · next hno =>
          cases hs
          refine .passed rfl hnone ?_ rfl rfl rfl
          intro tx
          simp only [takes, hat, Option.bind_some]
          split
          · next htx =>
            subst htx
            cases hq : s.chans.get c.rx with
            | none => rfl
            | some chan =>
              obtain ⟨queue, alive⟩ := chan
              cases queue with
              | nil => rfl
              | cons msg queue => exact absurd hq (hno msg queue alive)
          · rfl
    · next c msg addrs hd =>
      have hsends : sends s (.drainStep ok) = some (c.addr, msg) := by simp only [sends, hd]
      have he := events_of_sends hstep hsends
      cases hs
      exact .sent rfl (by rw [Sys.inHand, hd]) (fun tx => by simp [takes, Sys.draining, hd]) rfl rfl
        he
  | drainStart order =>
    change drainStart s order = some (s', evs) at hs
    unfold drainStart at hs
    split at hs
    · next hg =>
      cases hs
      exact .kept rfl (by rw [Sys.inHand, Sys.inHand, hg.1])
    · cases hs
  | join tid ch => cases (stepJoin_spec hs : JoinStep s tid s' evs) <;> exact .kept rfl rfl
  | param tid ch => cases (stepParam_spec hs : ParamStep s tid s' evs) <;> exact .kept rfl rfl
  | cast cid ch => cases (stepCast_spec hs : CastStep s cid s' evs) <;> exact .kept rfl rfl
  | relay tid ch =>
    refine .kept rfl ?_
    rw [(relay_quiet (stepRelay_spec hs)).1]
    rfl
  | _ => cases control_spec rfl hs <;> exact .kept rfl rfl

/-! ## What a step does to the channels -/

/-- A step, by what it does to the channels. -/
inductive ChansStep (s : Sys) (a : Action) : HashMap ChanId Channel → List Event → Prop
  | same {evs : List Event} (he : ∀ tx, enqueuedOn evs tx = [])
      (ht : ∀ tx, takes s tx a = none) : ChansStep s a s.chans evs
  | opened {tx : ChanId} {evs : List Event} (hf : s.chans.get tx = none)
      (he : ∀ tx, enqueuedOn evs tx = []) (ht : ∀ tx, takes s tx a = none) :
      ChansStep s a (s.chans.insert tx { queue := [], alive := true }) evs
  | closed {rx : ChanId} {evs : List Event} (hrx : ∃ chan, s.chans.get rx = some chan)
      (he : ∀ tx, enqueuedOn evs tx = []) (ht : ∀ tx, takes s tx a = none) :
      ChansStep s a (closeRx s.chans rx) evs
  | put {tx : ChanId} {msg : ServerReliable} {chan : Channel} (hc : s.chans.get tx = some chan)
      (ha : chan.alive = true) (hl : chan.queue.length < reliableCapacity)
      (ht : ∀ tx, takes s tx a = none) :
      ChansStep s a (s.chans.insert tx { chan with queue := chan.queue ++ [msg] })
        [.enqueued tx msg]
  | taken {session : ClientSession} {msg : ServerReliable} {queue : List ServerReliable}
      {alive : Bool} (hq : s.chans.get session.rx = some { queue := msg :: queue, alive := alive })
      (ht : ∀ tx, takes s tx a = if session.rx = tx then some msg else none) :
      ChansStep s a (s.chans.insert session.rx { queue := queue, alive := alive }) []

/-- One step of a pass, with what it finds at its session. -/
theorem drain_chans {s s' : Sys} {ok : Bool} {evs : List Event}
    (hs : server.step s (.drainStep ok) = some (s', evs)) :
    ChansStep s (.drainStep ok) s'.chans evs := by
  cases hand_step hs with
  | kept ha _ => cases ha
  | took _ _ _ hq ht _ hch he =>
    rw [hch, he]
    exact .taken hq ht
  | sent _ _ ht _ hch he =>
    rw [hch, he]
    refine .same ?_ ht
    intro tx
    split <;> rfl
  | passed _ _ ht _ hch he =>
    rw [hch, he]
    exact .same (fun _ => rfl) ht

theorem chans_step_by {s s' : Sys} {tr : List Event} (hents : Registrants s tr)
    (hreg : Registry s tr) {a : Action} {evs : List Event}
    (hs : server.step s a = some (s', evs)) : ChansStep s a s'.chans evs := by
  cases a with
  | drainStep ok => exact drain_chans hs
  | drainStart order =>
    change drainStart s order = some (s', evs) at hs
    unfold drainStart at hs
    split at hs
    · cases hs
      exact .same (fun _ => rfl) fun _ => rfl
    · cases hs
  | join tid ch =>
    have hj : JoinStep s tid s' evs := stepJoin_spec hs
    cases hj with
    | consumed _ _ _ hf => exact .opened hf (fun _ => rfl) fun _ => rfl
    | @inserted addr m p params tx ht =>
      show ChansStep s _ (closeReplaced s.chans (s.clients.get addr)) _
      cases hc : s.clients.get addr with
      | none => exact .same (fun _ => rfl) fun _ => rfl
      | some session =>
        obtain ⟨ho, -, hrx⟩ := hents.session hc
        exact .closed (hrx ▸ hreg.chan ho) (fun _ => rfl) fun _ => rfl
    | removed ht _ | removedNoRoom ht _ =>
      obtain ⟨ho, hrx⟩ := hents.removing ht
      exact .closed (hrx ▸ hreg.chan ho) (fun _ => rfl) fun _ => rfl
    | @errorSent addr code message rx evs ht he =>
      have hquiet : ∀ tx, enqueuedOn evs tx = [] := by
        rcases he with rfl | rfl <;> exact fun _ => rfl
      cases rx with
      | none => exact .same hquiet fun _ => rfl
      | some rx => exact .closed (hreg.opened ⟨_, ht, rfl⟩).1 hquiet fun _ => rfl
    | _ => exact .same (fun _ => rfl) fun _ => rfl
  | param tid ch =>
    have hp : ParamStep s tid s' evs := stepParam_spec hs
    cases hp <;> exact .same (fun _ => rfl) fun _ => rfl
  | cast cid ch =>
    have hc : CastStep s cid s' evs := stepCast_spec hs
    cases hc with
    | sent _ hc ha hl => exact .put hc ha hl fun _ => rfl
    | _ => exact .same (fun _ => rfl) fun _ => rfl
  | relay tid ch =>
    obtain ⟨hs', he⟩ := relay_quiet (stepRelay_spec hs)
    rw [hs']
    refine .same (fun tx => List.filterMap_eq_nil_iff.mpr fun e hm => ?_) fun _ => rfl
    obtain ⟨_, _, rfl⟩ := he e hm
    rfl
  | cleanupRun tid =>
    have hc : ControlStep s (.cleanupRun tid) s' evs := control_spec rfl hs
    cases hc with
    | cleaned _ =>
      refine .same (fun tx => List.filterMap_eq_nil_iff.mpr fun e hm => ?_) fun _ => rfl
      obtain ⟨_, _, rfl⟩ := List.mem_map.mp hm
      rfl
    | refused _ _ => exact .same (fun _ => rfl) fun _ => rfl
  | _ =>
    have hc := control_spec rfl hs
    cases hc <;> exact .same (fun _ => rfl) fun _ => rfl

/-! ## First in, first out -/

/-- Everything that was taken out of the channel, in order. -/
def takenOn (log : Log) (tx : ChanId) : List ServerReliable :=
  log.filterMap fun x => takes x.before tx x.action

theorem takenOn_snoc (log : Log) (x : Moment Sys Action Event) (tx : ChanId) :
    takenOn (log ++ [x]) tx = takenOn log tx ++ (takes x.before tx x.action).toList := by
  rw [takenOn, List.filterMap_append]
  cases h : takes x.before tx x.action <;> simp [takenOn, h]

/-- What was taken out of a channel is the beginning of what was put in, and a live one
still holds the rest. -/
structure Fifo (s : Sys) (log : Log) : Prop where
  new : ∀ {tx}, s.chans.get tx = none → takenOn log tx = [] ∧ enqueuedOn (eventsOf log) tx = []
  taken : ∀ tx, takenOn log tx <+: enqueuedOn (eventsOf log) tx
  rest : ∀ {tx chan}, s.chans.get tx = some chan → chan.alive = true →
    takenOn log tx ++ chan.queue = enqueuedOn (eventsOf log) tx ∧
      chan.queue.length ≤ reliableCapacity

/-- A step that puts nothing into channels and takes nothing out. -/
theorem Fifo.quiet {s s' : Sys} {log : Log} (hi : Fifo s log) {a : Action} {evs : List Event}
    (he : ∀ tx, enqueuedOn evs tx = []) (ht : ∀ tx, takes s tx a = none)
    (hnew : ∀ tx, s'.chans.get tx = none → s.chans.get tx = none)
    (hrest : ∀ tx chan, s'.chans.get tx = some chan → chan.alive = true →
      (s.chans.get tx = none ∧ chan.queue = []) ∨ s.chans.get tx = some chan) :
    Fifo s' (log ++ [⟨s, a, evs, s'⟩]) := by
  have htaken : ∀ tx, takenOn (log ++ [⟨s, a, evs, s'⟩]) tx = takenOn log tx := by
    intro tx
    rw [takenOn_snoc, ht tx]
    exact List.append_nil _
  have hput : ∀ tx, enqueuedOn (eventsOf (log ++ [⟨s, a, evs, s'⟩])) tx =
      enqueuedOn (eventsOf log) tx := by
    intro tx
    rw [Machine.eventsOf_append, Machine.eventsOf_singleton, enqueuedOn_append, he tx,
      List.append_nil]
  refine ⟨?_, ?_, ?_⟩
  · intro tx hn
    rw [htaken, hput]
    exact hi.new (hnew tx hn)
  · intro tx
    rw [htaken, hput]
    exact hi.taken tx
  · intro tx chan hc ha
    rw [htaken, hput]
    rcases hrest tx chan hc ha with ⟨hn, hq⟩ | hold
    · obtain ⟨htaken, hput⟩ := hi.new hn
      rw [htaken, hput, hq]
      exact ⟨rfl, Nat.zero_le _⟩
    · exact hi.rest hold ha

/-- A message that is put in comes last. -/
theorem fifo_put {s s' : Sys} {log : Log} (hi : Fifo s log) {a : Action} {tx₀ : ChanId}
    {msg : ServerReliable} {chan₀ : Channel} (hc₀ : s.chans.get tx₀ = some chan₀)
    (ha₀ : chan₀.alive = true) (hl : chan₀.queue.length < reliableCapacity)
    (ht : ∀ tx, takes s tx a = none)
    (hchans : s'.chans = s.chans.insert tx₀ { chan₀ with queue := chan₀.queue ++ [msg] }) :
    Fifo s' (log ++ [⟨s, a, [.enqueued tx₀ msg], s'⟩]) := by
  have htaken : ∀ tx, takenOn (log ++ [⟨s, a, [.enqueued tx₀ msg], s'⟩]) tx =
      takenOn log tx := by
    intro tx
    rw [takenOn_snoc, ht tx]
    exact List.append_nil _
  have hput : ∀ tx, enqueuedOn (eventsOf (log ++ [⟨s, a, [.enqueued tx₀ msg], s'⟩])) tx =
      enqueuedOn (eventsOf log) tx ++ if tx₀ = tx then [msg] else [] := by
    intro tx
    rw [Machine.eventsOf_append, Machine.eventsOf_singleton, enqueuedOn_append]
    congr 1
    by_cases htx : tx₀ = tx <;> simp [enqueuedOn, Event.enqueuedOn, htx]
  obtain ⟨heq, -⟩ := hi.rest hc₀ ha₀
  refine ⟨?_, ?_, ?_⟩
  · intro tx hn
    rw [hchans] at hn
    obtain ⟨hne, hn⟩ := HashMap.get_insert_eq_none.mp hn
    rw [htaken, hput, if_neg (Ne.symm hne), List.append_nil]
    exact hi.new hn
  · intro tx
    rw [htaken, hput]
    exact (hi.taken tx).trans (List.prefix_append _ _)
  · intro tx chan hc ha
    rw [hchans] at hc
    rw [htaken, hput]
    rcases HashMap.get_insert_cases hc with ⟨rfl, rfl⟩ | ⟨hne, hc⟩
    · rw [if_pos rfl, ← heq, List.append_assoc, List.length_append]
      exact ⟨rfl, hl⟩
    · rw [if_neg (Ne.symm hne), List.append_nil]
      exact hi.rest hc ha

/-- The message that is taken out is the first of those that wait. -/
theorem fifo_took {s s' : Sys} {log : Log} (hi : Fifo s log)
    (hq : Queues s.chans (eventsOf log)) {a : Action} {session : ClientSession}
    {msg : ServerReliable} {queue : List ServerReliable} {alive : Bool}
    (hq₀ : s.chans.get session.rx = some { queue := msg :: queue, alive := alive })
    (ht : ∀ tx, takes s tx a = if session.rx = tx then some msg else none)
    (hchans : s'.chans = s.chans.insert session.rx { queue := queue, alive := alive }) :
    Fifo s' (log ++ [⟨s, a, [], s'⟩]) := by
  have hput : ∀ tx, enqueuedOn (eventsOf (log ++ [⟨s, a, [], s'⟩])) tx =
      enqueuedOn (eventsOf log) tx := by
    intro tx
    rw [Machine.eventsOf_append, Machine.eventsOf_singleton, List.append_nil]
  have htaken : ∀ tx, takenOn (log ++ [⟨s, a, [], s'⟩]) tx =
      takenOn log tx ++ if session.rx = tx then [msg] else [] := by
    intro tx
    rw [takenOn_snoc, ht tx]
    split <;> rfl
  -- a dropped channel holds nothing, so this one is live
  have hlive : alive = true := by
    cases alive with
    | true => rfl
    | false => cases (hq _ _ hq₀).2 rfl
  obtain ⟨heq, hlen⟩ := hi.rest hq₀ hlive
  have hheld : takenOn log session.rx ++ [msg] ++ queue =
      enqueuedOn (eventsOf log) session.rx := by
    rw [← heq, List.append_assoc]
    rfl
  refine ⟨?_, ?_, ?_⟩
  · intro tx hn
    rw [hchans] at hn
    obtain ⟨hne, hn⟩ := HashMap.get_insert_eq_none.mp hn
    rw [htaken, hput, if_neg (Ne.symm hne), List.append_nil]
    exact hi.new hn
  · intro tx
    rw [htaken, hput]
    split
    · next htx =>
      subst htx
      exact ⟨queue, hheld⟩
    · rw [List.append_nil]
      exact hi.taken tx
  · intro tx chan hc ha
    rw [hchans] at hc
    rw [htaken, hput]
    rcases HashMap.get_insert_cases hc with ⟨rfl, rfl⟩ | ⟨hne, hc⟩
    · rw [if_pos rfl]
      exact ⟨hheld, (Nat.le_succ _).trans hlen⟩
    · rw [if_neg (Ne.symm hne), List.append_nil]
      exact hi.rest hc ha

theorem fifo_step {s s' : Sys} {log : Log} (hi : Fifo s log)
    (hq : Queues s.chans (eventsOf log)) {a : Action} {evs : List Event}
    (h : ChansStep s a s'.chans evs) : Fifo s' (log ++ [⟨s, a, evs, s'⟩]) := by
  generalize hchans : s'.chans = chans at h
  cases h with
  | same he ht => exact hi.quiet he ht (fun _ => hchans ▸ id) fun _ _ hc _ => .inr (hchans ▸ hc)
  | @opened tx₀ evs hf he ht =>
    refine hi.quiet he ht ?_ ?_
    · intro tx hn
      exact (HashMap.get_insert_eq_none.mp (hchans ▸ hn)).2
    · intro tx chan hc _
      rw [hchans] at hc
      rcases HashMap.get_insert_cases hc with ⟨rfl, rfl⟩ | ⟨-, hc⟩
      · exact .inl ⟨hf, rfl⟩
      · exact .inr hc
  | closed hrx he ht =>
    refine hi.quiet he ht ?_ ?_
    · intro tx hn
      rw [hchans, closeRx] at hn
      exact (HashMap.get_insert_eq_none.mp hn).2
    · intro tx chan hc ha
      rw [hchans] at hc
      exact .inr (live_closeRx hc ha).2
  | put hc₀ ha₀ hl ht => exact fifo_put hi hc₀ ha₀ hl ht hchans
  | taken hq₀ ht => exact fifo_took hi hq hq₀ ht hchans

theorem fifo_holds {G : Sys → Action → Prop} {s : Sys} {log : Log}
    (h : server.recorded.Reach G s log) : Fifo s log := by
  refine Machine.Reach.log_induct (P := Fifo) ?_ ?_ h
  · intro s hinit
    obtain ⟨url, rfl⟩ := hinit
    refine ⟨fun _ => ⟨rfl, rfl⟩, fun _ => List.prefix_refl _, ?_⟩
    intro tx chan hc _
    cases hc
  · intro s log a s' evs hreach hi _ hs
    have hrun := hreach.unrecorded
    exact fifo_step hi (queues hrun) (chans_step_by (registrants hrun) (registry hrun) hs)

/-! ## What is taken is sent -/

/-- What the moment has brought to hand is still there, or the next step of the outgoing task
has sent it, if the socket took it. -/
inductive Handed (s : Sys) (addr : SocketAddr) (msg : ServerReliable) (post : Log) : Prop
  | held (hpost : ∀ z ∈ post, z.action.isPass = false) (h : s.inHand = some (addr, msg)) :
      Handed s addr msg post
  | sent {mid post' : Log} {y : Moment Sys Action Event} {ok : Bool}
      (hpost : post = mid ++ y :: post') (hmid : ∀ z ∈ mid, z.action.isPass = false)
      (hy : y.action = .drainStep ok)
      (he : y.events = if ok then [.sentReliable addr msg] else []) : Handed s addr msg post

theorem handed_since {G : Sys → Action → Prop} {s : Sys} {pre post : Log}
    {x : Moment Sys Action Event} (h : server.recorded.Reach G s (pre ++ x :: post))
    {addr : SocketAddr} {msg : ServerReliable} (hx : x.after.inHand = some (addr, msg)) :
    Handed s addr msg post := by
  induction post using List.reverseRecOn generalizing s with
  | nil => exact .held (fun _ hz => by cases hz) (Machine.after_last h ▸ hx)
  | append_singleton post z ih =>
    have hsplit : pre ++ x :: (post ++ [z]) = (pre ++ x :: post) ++ z :: [] := by simp
    rw [hsplit] at h
    obtain ⟨hreach, -, hs⟩ := Machine.moment_at h
    obtain rfl := Machine.after_last h
    cases ih hreach with
    | sent hpost hmid hy he => exact .sent (by rw [hpost, List.append_assoc]; rfl) hmid hy he
    | held hpost hhand =>
      cases hand_step hs with
      | kept ha h' =>
        refine .held ?_ (h'.trans hhand)
        intro w hw
        rcases List.mem_append.mp hw with hw | hw
        · exact hpost w hw
        · rw [List.mem_singleton.mp hw]
          exact ha
      | sent ha hhand' _ _ _ he =>
        rw [hhand] at hhand'
        cases hhand'
        exact .sent rfl hpost ha he
      | took _ hnone _ _ _ _ _ _ | passed _ hnone _ _ _ _ =>
        rw [hhand] at hnone
        cases hnone

/-- The last step of the outgoing task took the message out of a channel of the address. -/
def JustTaken (log : Log) (addr : SocketAddr) (msg : ServerReliable) : Prop :=
  ∃ pre x mid m p tx, log = pre ++ x :: mid ∧ Event.registered m p addr tx ∈ eventsOf pre ∧
    takes x.before tx x.action = some msg ∧ ∀ z ∈ mid, z.action.isPass = false

theorem just_taken {G : Sys → Action → Prop} {s : Sys} {log : Log}
    (h : server.recorded.Reach G s log) :
    ∀ {addr msg}, s.inHand = some (addr, msg) → JustTaken log addr msg := by
  refine Machine.Reach.log_induct (P := fun s log => ∀ {addr msg},
    s.inHand = some (addr, msg) → JustTaken log addr msg) ?_ ?_ h
  · intro s hinit addr msg hhand
    obtain ⟨url, rfl⟩ := hinit
    cases hhand
  · intro s log a s' evs hreach ih _ hs addr msg hhand
    cases hand_step hs with
    | kept ha h' =>
      obtain ⟨pre, x, mid, m, p, tx, rfl, ho, htake, hmid⟩ := ih (h' ▸ hhand)
      refine ⟨pre, x, mid ++ [⟨s, a, evs, s'⟩], m, p, tx, by simp, ho, htake, ?_⟩
      intro z hz
      rcases List.mem_append.mp hz with hz | hz
      · exact hmid z hz
      · rw [List.mem_singleton.mp hz]
        exact ha
    | took _ _ hc _ ht h' _ _ =>
      rw [h'] at hhand
      cases hhand
      obtain ⟨ho, haddr, hrx⟩ := (registrants hreach.unrecorded).session hc
      refine ⟨log, _, [], _, _, _, rfl, haddr ▸ ho, ?_, fun _ hz => by cases hz⟩
      exact (ht _).trans (if_pos hrx)
    | sent _ _ _ h' _ _ | passed _ _ _ h' _ _ =>
      rw [h'] at hhand
      cases hhand

/-- A message that is taken out of a channel is in hand for the address that registered the
channel. -/
theorem takes_inHand {s : Sys} {log pre post : Log} {x : Moment Sys Action Event}
    (h : server.recorded.Reach Machine.anyStep s log) (heq : log = pre ++ x :: post)
    {m p : String} {addr : SocketAddr} {tx : ChanId}
    (ho : Event.registered m p addr tx ∈ eventsOf log) {msg : ServerReliable}
    (htake : takes x.before tx x.action = some msg) : x.after.inHand = some (addr, msg) := by
  subst heq
  obtain ⟨hreach, -, hs⟩ := Machine.moment_at h
  cases hand_step hs with
  | kept ha _ =>
    cases hact : x.action with
    | drainStep ok =>
      rw [hact] at ha
      cases ha
    | _ =>
      rw [hact] at htake
      cases htake
  | @took a c _ _ _ _ _ hc _ ht h' _ _ =>
    rw [ht tx] at htake
    split at htake
    · next hrx =>
      cases htake
      obtain ⟨ho', haddr, hrx'⟩ := (registrants hreach.unrecorded).session hc
      rw [← hrx', hrx] at ho'
      have hreg : Registry s (eventsOf (pre ++ x :: post)) := registry h.unrecorded
      have ho₂ : Event.registered c.matchId c.playerId a tx ∈ eventsOf (pre ++ x :: post) := by
        rw [Machine.eventsOf_append]
        exact List.mem_append_left _ ho'
      obtain rfl := hreg.owner ho ho₂
      obtain ⟨-, rfl, -⟩ := hreg.once ho ho₂
      rw [h', haddr]
    · cases htake
  | sent _ _ ht _ _ _ | passed _ _ ht _ _ _ =>
    rw [ht tx] at htake
    cases htake

/-- Over any run, what is taken out of a registered channel is the beginning of what was put
in, and the rest waits in it while it is live; what is taken is sent by the next step of the
outgoing task to the address that registered the channel, if the socket takes it; and the
task sends nothing to an address but what its last step took out of a channel of it. -/
theorem fifo {s : Sys} {log : Log} (h : server.recorded.Reach Machine.anyStep s log)
    {m p : String} {addr : SocketAddr} {tx : ChanId}
    (ho : Event.registered m p addr tx ∈ eventsOf log) :
    takenOn log tx <+: enqueuedOn (eventsOf log) tx ∧
    (∀ chan, s.chans.get tx = some chan → chan.alive = true →
      takenOn log tx ++ chan.queue = enqueuedOn (eventsOf log) tx ∧
        chan.queue.length ≤ reliableCapacity) ∧
    (∀ pre x post msg, log = pre ++ x :: post → takes x.before tx x.action = some msg →
      Handed s addr msg post) ∧
    ∀ pre y post ok msg, log = pre ++ y :: post → y.action = .drainStep ok →
      Event.sentReliable addr msg ∈ y.events → JustTaken pre addr msg := by
  have hfifo : Fifo s log := fifo_holds h
  refine ⟨hfifo.taken tx, fun _ => hfifo.rest, ?_, ?_⟩
  · intro pre x post msg heq htake
    exact handed_since (heq ▸ h) (takes_inHand h heq ho htake)
  · intro pre y post ok msg heq hy he
    obtain ⟨hreach, -, hs⟩ := Machine.moment_at (heq ▸ h)
    have hhand : y.before.inHand = some (addr, msg) := by
      have hsends := sends_of_sent hs he
      rw [hy] at hsends
      exact hsends
    exact just_taken hreach hhand

/-- The event registers the channel. -/
def Event.opens (tx : ChanId) : Event → Bool
  | .registered _ _ _ tx' => tx' == tx
  | _ => false

theorem opens_iff {tx : ChanId} {e : Event} :
    e.opens tx = true ↔ ∃ m p addr, e = .registered m p addr tx := by
  cases e with
  | registered m p addr tx' =>
    rw [Event.opens, beq_iff_eq]
    constructor
    · rintro rfl
      exact ⟨m, p, addr, rfl⟩
    · rintro ⟨_, _, _, heq⟩
      cases heq
      rfl
  | _ => simp [Event.opens]

/-- An announcement that goes through a channel. -/
theorem fifo_started : ∃ s log pre x post m p addr msg,
    server.recorded.Reach Machine.anyStep s log ∧
    Event.registered m p addr 0 ∈ eventsOf log ∧ log = pre ++ x :: post ∧
    takes x.before 0 x.action = some msg ∧ Handed s addr msg post := by
  obtain ⟨s, log, h, hp⟩ := log_of_actions Machine.anyStep startedJoining
    (fun _ log => (eventsOf log).any (·.opens 0) &&
      log.any fun x => (takes x.before 0 x.action).isSome) (by decide)
  obtain ⟨hopen, htake⟩ := (Bool.and_eq_true _ _).mp hp
  obtain ⟨e, he, hopen⟩ := List.any_eq_true.mp hopen
  obtain ⟨m, p, addr, rfl⟩ := opens_iff.mp hopen
  obtain ⟨x, hx, htake⟩ := List.any_eq_true.mp htake
  obtain ⟨msg, htake⟩ := Option.isSome_iff_exists.mp htake
  obtain ⟨pre, post, heq⟩ := List.append_of_mem hx
  exact ⟨s, log, pre, x, post, m, p, addr, msg, h, he, heq, htake,
    (fifo h he).2.2.1 pre x post msg heq htake⟩

/-! ## One pass -/

/-- The messages that wait for the client at the address. -/
def Sys.pendingAt (s : Sys) (addr : SocketAddr) : List ServerReliable :=
  (((s.clients.get addr).bind fun c => s.chans.get c.rx).map (·.queue)).getD []

/-- What waits for the clients at the addresses, in this order. -/
def Sys.pendingFor (s : Sys) (order : List SocketAddr) : List (SocketAddr × ServerReliable) :=
  order.flatMap fun addr => (s.pendingAt addr).map fun msg => (addr, msg)

/-- The addresses that are left of the pass. -/
def Sys.left (s : Sys) : List SocketAddr :=
  match s.drain with
  | none => []
  | some (.take addrs) => addrs
  | some (.send _ _ addrs) => addrs

/-- The packets that the rest of the pass tries to send, if nothing comes between. -/
def Sys.remaining (s : Sys) : List (SocketAddr × ServerReliable) :=
  s.inHand.toList ++ s.pendingFor s.left

/-- Nothing but the outgoing task. -/
def passOnly : Sys → Action → Prop := fun _ a => a.isPass = true

instance (s : Sys) (a : Action) : Decidable (passOnly s a) := inferInstanceAs (Decidable (_ = true))

/-- The packets that the socket takes, of those that it is given. -/
def delivered (out : List ((SocketAddr × ServerReliable) × Bool)) : List Event :=
  (out.filter (·.2)).map fun r => .sentReliable r.1.1 r.1.2

theorem delivered_append (out new : List ((SocketAddr × ServerReliable) × Bool)) :
    delivered (out ++ new) = delivered out ++ delivered new := by
  rw [delivered, List.filter_append, List.map_append]
  rfl

/-- What a pass relies on: it visits no address twice, and no two sessions share a channel. -/
structure PassReady (s : Sys) : Prop where
  order : s.left.Nodup
  own : ∀ {a c}, s.clients.get a = some c → c.addr = a
  apart : ∀ {a b c d}, s.clients.get a = some c → s.clients.get b = some d → c.rx = d.rx → a = b

theorem left_nodup {G : Sys → Action → Prop} {s : Sys} {tr : List Event}
    (h : server.Reach G s tr) : s.left.Nodup := by
  refine Machine.Reach.induct (P := fun s _ => s.left.Nodup) ?_ ?_ h
  · intro s hinit
    obtain ⟨url, rfl⟩ := hinit
    exact List.nodup_nil
  · intro s tr a s' evs _ ih _ hs
    rcases drain_kept (step_spec hs) with heq | hd
    · rw [Sys.left, heq]
      exact ih
    · cases hd with
      | locked _ hp => exact (hp.nodup_iff).mpr s.clients.keys_nodup
      | unlocked _ => exact List.nodup_nil
      | next hd =>
        rw [Sys.left, hd] at ih
        exact (List.nodup_cons.mp ih).2
      | took hd _ _ | sent hd _ =>
        rw [Sys.left, hd] at ih
        exact ih

theorem pass_ready {G : Sys → Action → Prop} {s : Sys} {tr : List Event}
    (h : server.Reach G s tr) : PassReady s := by
  have hents : Registrants s tr := registrants h
  refine ⟨left_nodup h, fun hc => (hents.session hc).2.1, ?_⟩
  intro a b c d hc hd hrx
  obtain ⟨ho, -, hrxc⟩ := hents.session hc
  obtain ⟨ho', -, hrxd⟩ := hents.session hd
  rw [← hrxd, ← hrx, hrxc] at ho'
  have hreg : Registry s tr := registry h
  rw [← hreg.owner ho ho'] at ho'
  exact (hreg.once ho ho').2.1

/-- A pass from `s₀`, where it had the registry, to `s`, with what became of the packets that
it has tried to send. -/
structure Passing (s₀ s : Sys) (out : List ((SocketAddr × ServerReliable) × Bool)) : Prop where
  ready : PassReady s
  out : out.map Prod.fst ++ s.remaining = s₀.remaining
  frame : s = { s₀ with chans := s.chans, drain := s.drain }
  passed : ∀ addr, addr ∉ s.left → s.pendingAt addr = []
  others : ∀ tx, (∀ addr c, s.clients.get addr = some c → c.rx ≠ tx) →
    s.chans.get tx = s₀.chans.get tx
  alive : ∀ tx, (s.chans.get tx).map (·.alive) = (s₀.chans.get tx).map (·.alive)

theorem pendingAt_eq {s : Sys} {addr : SocketAddr} {c : ClientSession} {chan : Channel}
    (hc : s.clients.get addr = some c) (hq : s.chans.get c.rx = some chan) :
    s.pendingAt addr = chan.queue := by
  rw [Sys.pendingAt, hc, Option.bind_some, hq]
  rfl

/-- Taking a message leaves what waits for the others. -/
theorem pendingAt_taken {s : Sys} (hr : PassReady s) {addr b : SocketAddr} {c : ClientSession}
    (hc : s.clients.get addr = some c) (hne : b ≠ addr) (chan : Channel) (t : Option DrainTask) :
    ({ s with chans := s.chans.insert c.rx chan, drain := t } : Sys).pendingAt b =
      s.pendingAt b := by
  unfold Sys.pendingAt
  dsimp only
  cases hb : s.clients.get b with
  | none => rfl
  | some d =>
    have hrx : d.rx ≠ c.rx := fun heq => hne (hr.apart hb hc heq)
    rw [Option.bind_some, Option.bind_some, HashMap.get_insert_ne _ _ hrx]

theorem remaining_idle {s : Sys} (hd : s.drain = none) : s.remaining = [] := by
  rw [Sys.remaining, Sys.inHand, Sys.left, hd]
  rfl

theorem remaining_next {s : Sys} {addr : SocketAddr} {rest : List SocketAddr}
    (hd : s.drain = some (.take (addr :: rest))) (hempty : s.pendingAt addr = []) :
    s.remaining = ({ s with drain := some (.take rest) } : Sys).remaining := by
  rw [Sys.remaining, Sys.inHand, Sys.left, hd, Sys.pendingFor, List.flatMap_cons, hempty]
  rfl

theorem remaining_taken {s : Sys} (hr : PassReady s) {addr : SocketAddr} {rest : List SocketAddr}
    {c : ClientSession} {msg : ServerReliable} {queue : List ServerReliable} {alive : Bool}
    (hd : s.drain = some (.take (addr :: rest))) (hc : s.clients.get addr = some c)
    (hq : s.chans.get c.rx = some { queue := msg :: queue, alive := alive }) :
    s.remaining =
      ({ s with
          chans := s.chans.insert c.rx { queue := queue, alive := alive }
          drain := some (.send c msg (addr :: rest)) } : Sys).remaining := by
  obtain rfl := hr.own hc
  generalize hs' : ({ s with
    chans := s.chans.insert c.rx { queue := queue, alive := alive }
    drain := some (.send c msg (c.addr :: rest)) } : Sys) = s'
  have hd' : s'.drain = some (.send c msg (c.addr :: rest)) := hs' ▸ rfl
  have hc' : s'.clients.get c.addr = some c := hs' ▸ hc
  have hq' : s'.chans.get c.rx = some { queue := queue, alive := alive } := by
    subst hs'
    exact HashMap.get_insert_self _ _ _
  have horder := hr.order
  rw [Sys.left, hd] at horder
  have hrest : ∀ b ∈ rest, s'.pendingAt b = s.pendingAt b := by
    intro b hb
    subst hs'
    refine pendingAt_taken hr hc ?_ _ _
    intro heq
    exact (List.nodup_cons.mp horder).1 (heq ▸ hb)
  have hfor : s'.pendingFor rest = s.pendingFor rest :=
    List.flatMap_congr fun b hb => by rw [hrest b hb]
  have hsplit : ∀ t : Sys, t.pendingFor (c.addr :: rest) =
      (t.pendingAt c.addr).map (fun m => (c.addr, m)) ++ t.pendingFor rest :=
    fun t => List.flatMap_cons
  rw [Sys.remaining, Sys.remaining, Sys.inHand, Sys.inHand, Sys.left, Sys.left, hd, hd', hsplit,
    hsplit, hfor, pendingAt_eq hc' hq', pendingAt_eq hc hq]
  rfl

/-- The message in hand is sent, and what waits stays. -/
theorem remaining_sent {s : Sys} {c : ClientSession} {msg : ServerReliable}
    {addrs : List SocketAddr} (hd : s.drain = some (.send c msg addrs)) :
    s.remaining = (c.addr, msg) :: ({ s with drain := some (.take addrs) } : Sys).remaining := by
  rw [Sys.remaining, Sys.inHand, Sys.left, hd]
  rfl

section Steps
variable {s₀ s : Sys} {out : List ((SocketAddr × ServerReliable) × Bool)}

/-- The registry is released. -/
theorem Passing.released (hi : Passing s₀ s out) (hd : s.drain = some (.take [])) :
    Passing s₀ { s with drain := none } out := by
  have hready := hi.ready
  have hpassed := hi.passed
  rw [Sys.left, hd] at hpassed
  refine ⟨⟨List.nodup_nil, hready.own, hready.apart⟩, ?_, ?_, hpassed, hi.others, hi.alive⟩
  · rw [← hi.out, remaining_idle rfl, Sys.remaining, Sys.inHand, Sys.left, hd]
    rfl
  · rw [hi.frame]

/-- The session at the head has nothing left. -/
theorem Passing.visited (hi : Passing s₀ s out) {addr : SocketAddr} {rest : List SocketAddr}
    (hd : s.drain = some (.take (addr :: rest))) (hempty : s.pendingAt addr = []) :
    Passing s₀ { s with drain := some (.take rest) } out := by
  have hready := hi.ready
  have horder := hready.order
  have hpassed := hi.passed
  rw [Sys.left, hd] at horder hpassed
  refine ⟨⟨(List.nodup_cons.mp horder).2, hready.own, hready.apart⟩, ?_, ?_, ?_, hi.others,
    hi.alive⟩
  · rw [← hi.out, remaining_next hd hempty]
  · rw [hi.frame]
  · intro b hb
    by_cases hba : b = addr
    · subst hba
      exact hempty
    · exact hpassed b fun hm => (List.mem_cons.mp hm).elim hba hb

/-- A message is taken out of the channel of the session at the head. -/
theorem Passing.took (hi : Passing s₀ s out) {addr : SocketAddr} {rest : List SocketAddr}
    {c : ClientSession} {msg : ServerReliable} {queue : List ServerReliable} {alive : Bool}
    (hd : s.drain = some (.take (addr :: rest))) (hc : s.clients.get addr = some c)
    (hq : s.chans.get c.rx = some { queue := msg :: queue, alive := alive }) :
    Passing s₀
      { s with
          chans := s.chans.insert c.rx { queue := queue, alive := alive }
          drain := some (.send c msg (addr :: rest)) } out := by
  have hready := hi.ready
  have hpassed := hi.passed
  have horder := hready.order
  rw [Sys.left, hd] at hpassed horder
  refine ⟨⟨horder, hready.own, hready.apart⟩, ?_, ?_, ?_, ?_, ?_⟩
  · rw [← hi.out, remaining_taken hready hd hc hq]
  · rw [hi.frame]
  · intro b hb
    have hba : b ≠ addr := by
      rintro rfl
      exact hb List.mem_cons_self
    rw [pendingAt_taken hready hc hba]
    exact hpassed b hb
  · intro tx htx
    rw [HashMap.get_insert_ne _ _ (Ne.symm (htx addr c hc))]
    exact hi.others tx htx
  · intro tx
    rw [← hi.alive tx]
    dsimp only
    by_cases htx : tx = c.rx
    · subst htx
      rw [HashMap.get_insert_self, hq]
      rfl
    · rw [HashMap.get_insert_ne _ _ htx]

/-- The message in hand is tried. -/
theorem Passing.tried (hi : Passing s₀ s out) {c : ClientSession} {msg : ServerReliable}
    {addrs : List SocketAddr} (hd : s.drain = some (.send c msg addrs)) (ok : Bool) :
    Passing s₀ { s with drain := some (.take addrs) } (out ++ [((c.addr, msg), ok)]) := by
  have hready := hi.ready
  have hpassed := hi.passed
  have horder := hready.order
  rw [Sys.left, hd] at hpassed horder
  refine ⟨⟨horder, hready.own, hready.apart⟩, ?_, ?_, hpassed, hi.others, hi.alive⟩
  · rw [← hi.out, remaining_sent hd, List.map_append, List.append_assoc]
    rfl
  · rw [hi.frame]

theorem passing_step {s' : Sys} {ok : Bool} {evs : List Event} (hi : Passing s₀ s out)
    (hs : server.step s (.drainStep ok) = some (s', evs)) :
    ∃ new, Passing s₀ s' (out ++ new) ∧ evs = delivered new ∧ ∀ r ∈ new, r.2 = ok := by
  -- all but the last of the steps try nothing
  have hquiet : ∀ {s'}, Passing s₀ s' out →
      ∃ new, Passing s₀ s' (out ++ new) ∧ [] = delivered new ∧ ∀ r ∈ new, r.2 = ok := by
    intro s' hi'
    exact ⟨[], by rwa [List.append_nil], rfl, fun _ hr => by cases hr⟩
  change drainStep s ok = some (s', evs) at hs
  unfold drainStep at hs
  split at hs
  · cases hs
  · next hd =>
    cases hs
    exact hquiet (hi.released hd)
  · next addr rest hd =>
    split at hs
    · next hc =>
      cases hs
      exact hquiet (hi.visited hd (by rw [Sys.pendingAt, hc]; rfl))
    · next c hc =>
      split at hs
      · next msg queue alive hq =>
        cases hs
        exact hquiet (hi.took hd hc hq)
      · next hno =>
        cases hs
        refine hquiet (hi.visited hd ?_)
        cases hq : s.chans.get c.rx with
        | none => rw [Sys.pendingAt, hc, Option.bind_some, hq]; rfl
        | some chan =>
          obtain ⟨queue, alive⟩ := chan
          rw [pendingAt_eq hc hq]
          cases queue with
          | nil => rfl
          | cons msg queue => exact absurd hq (hno msg queue alive)
  · next c msg addrs hd =>
    cases hs
    refine ⟨[((c.addr, msg), ok)], hi.tried hd ok, by cases ok <;> rfl, ?_⟩
    intro r hr
    rw [List.mem_singleton.mp hr]

end Steps

/-- What a run of the outgoing task alone has sent, from the lock on. -/
theorem passing_run {s₀ s' : Sys} {as : List Action} {log : Log} (hready : PassReady s₀)
    (hall : ∀ addr, addr ∉ s₀.left → s₀.pendingAt addr = [])
    (hrun : server.recorded.Run passOnly s₀ as log s') :
    ∃ out, Passing s₀ s' out ∧ eventsOf log = delivered out ∧
      ∀ r ∈ out, Action.drainStep r.2 ∈ as := by
  induction hrun with
  | nil =>
    exact ⟨[], ⟨hready, rfl, rfl, hall, fun _ _ => rfl, fun _ => rfl⟩, rfl, fun _ hr => by cases hr⟩
  | @snoc as log s s' a x _ hg hs ih =>
    obtain ⟨out, hpass, hevs, hoks⟩ := ih
    obtain ⟨evs, hs', rfl⟩ := Machine.recorded_step.mp hs
    cases a with
    | drainStep ok =>
      obtain ⟨new, hpass', hevs', hnew⟩ := passing_step hpass hs'
      refine ⟨out ++ new, hpass', ?_, ?_⟩
      · rw [Machine.eventsOf_append, Machine.eventsOf_singleton, delivered_append, hevs, hevs']
      · intro r hr
        rcases List.mem_append.mp hr with hr | hr
        · exact List.mem_append_left _ (hoks r hr)
        · rw [hnew r hr]
          exact List.mem_append_right _ (List.mem_singleton_self _)
    | _ => cases hg

/-- Where every send succeeds, all is delivered. -/
theorem delivered_all {out : List ((SocketAddr × ServerReliable) × Bool)}
    (h : ∀ r ∈ out, r.2 = true) :
    delivered out = (out.map Prod.fst).map fun r => .sentReliable r.1 r.2 := by
  rw [delivered, List.filter_eq_self.mpr h, List.map_map]
  rfl

/-- The outgoing task locks the registry. -/
theorem pass_locked {s s₁ : Sys} {order : List SocketAddr} {evs : List Event}
    (h : server.step s (.drainStart order) = some (s₁, evs)) :
    s.drain = none ∧ order.Perm s.clients.keys ∧ s₁ = { s with drain := some (.take order) } := by
  change drainStart s order = some (s₁, evs) at h
  unfold drainStart at h
  split at h
  · next hg =>
    cases h
    exact ⟨hg.1, hg.2, rfl⟩
  · cases h

/-- A pass that nothing comes between, from the lock to the release of the registry: it is
over what was queued, and leaves only the channels changed. -/
theorem whole_pass {s s₁ s' : Sys} {tr evs : List Event} {order : List SocketAddr}
    {as : List Action} {log : Log} (h : server.Reach Machine.anyStep s tr)
    (hlock : server.step s (.drainStart order) = some (s₁, evs))
    (hrun : server.recorded.Run passOnly s₁ as log s') (hend : s'.drain = none) :
    order.Perm s.clients.keys ∧ s' = { s with chans := s'.chans } ∧
    (∀ addr, s'.pendingAt addr = []) ∧
    ∃ out, Passing s₁ s' out ∧ out.map Prod.fst = s.pendingFor order ∧
      eventsOf log = delivered out ∧ ∀ r ∈ out, Action.drainStep r.2 ∈ as := by
  have hready : PassReady s₁ := pass_ready (h.step trivial hlock)
  obtain ⟨hd, hp, rfl⟩ := pass_locked hlock
  have hall : ∀ addr, addr ∉ order →
      ({ s with drain := some (.take order) } : Sys).pendingAt addr = [] := by
    intro addr hno
    have hc : s.clients.get addr = none := by
      refine Option.eq_none_iff_forall_ne_some.mpr fun c hc => hno ?_
      exact hp.mem_iff.mpr (HashMap.mem_keys.mpr ⟨c, hc⟩)
    rw [Sys.pendingAt]
    dsimp only
    rw [hc]
    rfl
  obtain ⟨out, hpass, hevs, hoks⟩ := passing_run hready hall hrun
  have hpassed := hpass.passed
  rw [Sys.left, hend] at hpassed
  have hout : out.map Prod.fst = s.pendingFor order := by
    have hout := hpass.out
    rwa [remaining_idle hend, List.append_nil] at hout
  have hframe := hpass.frame
  rw [hend] at hframe
  refine ⟨hp, ?_, fun addr => hpassed addr List.not_mem_nil, out, hpass, hout, hevs, hoks⟩
  rw [hframe]
  dsimp only
  rw [← hd]

/-- A pass that nothing comes between, from the lock to the release of the registry, tries
to send all that was queued for every session, session after session, and sends what the
socket takes of it; it leaves nothing but empty queues behind. -/
theorem pass_delivers {s s₁ s' : Sys} {tr evs : List Event} {order : List SocketAddr}
    {as : List Action} {log : Log} (h : server.Reach Machine.anyStep s tr)
    (hlock : server.step s (.drainStart order) = some (s₁, evs))
    (hrun : server.recorded.Run passOnly s₁ as log s') (hend : s'.drain = none) :
    order.Perm s.clients.keys ∧
    (∃ out, out.map Prod.fst = s.pendingFor order ∧ (∀ r ∈ out, Action.drainStep r.2 ∈ as) ∧
      eventsOf log = delivered out) ∧
    ((∀ ok, Action.drainStep ok ∈ as → ok = true) →
      eventsOf log = (s.pendingFor order).map fun r => .sentReliable r.1 r.2) ∧
    (∀ addr, s'.pendingAt addr = []) ∧
    s' = { s with chans := s'.chans } ∧
    ∀ tx, (s'.chans.get tx).map (·.alive) = (s.chans.get tx).map (·.alive) ∧
      ((∀ addr c, s.clients.get addr = some c → c.rx ≠ tx) →
        s'.chans.get tx = s.chans.get tx) := by
  obtain ⟨hp, hframe, hempty, out, hpass, hout, hevs, hoks⟩ := whole_pass h hlock hrun hend
  have hchans : s₁.chans = s.chans := by
    rw [(pass_locked hlock).2.2]
  refine ⟨hp, ⟨out, hout, hoks, hevs⟩, ?_, hempty, hframe, fun tx => ⟨?_, ?_⟩⟩
  · intro hok
    rw [hevs, delivered_all fun r hr => hok r.2 (hoks r hr), hout]
  · rw [← hchans]
    exact hpass.alive tx
  · intro htx
    rw [← hchans]
    refine hpass.others tx fun addr c hc => htx addr c ?_
    rw [hframe] at hc
    exact hc

/-- A pass that sends the announcement of a start. -/
theorem pass_delivers_start : ∃ s tr s₁ as log s', server.Reach Machine.anyStep s tr ∧
    server.step s (.drainStart [⟨1, 1⟩]) = some (s₁, []) ∧
    server.recorded.Run passOnly s₁ as log s' ∧ eventsOf log ≠ [] ∧
    eventsOf log = (s.pendingFor [⟨1, 1⟩]).map fun r => .sentReliable r.1 r.2 := by
  obtain ⟨s, tr, h, hp⟩ := reach_of_actions Machine.anyStep (startedJoining.take 10)
    (fun s _ => (server.step s (.drainStart [⟨1, 1⟩])).any fun r => r.2.isEmpty &&
      (server.recorded.exec passOnly r.1 (List.replicate 4 (.drainStep true))).any fun q =>
        q.1.drain.isNone && !(eventsOf q.2).isEmpty) (by decide)
  obtain ⟨⟨s₁, evs⟩, hlock, hp⟩ := (Option.any_eq_true _ _).mp hp
  obtain ⟨hevs, hp⟩ := (Bool.and_eq_true _ _).mp hp
  obtain rfl := List.isEmpty_iff.mp hevs
  obtain ⟨⟨s', log⟩, hrun, hp⟩ := (Option.any_eq_true _ _).mp hp
  obtain ⟨hend, hne⟩ := (Bool.and_eq_true _ _).mp hp
  have hrun := Machine.run_of_exec hrun
  have hall : ∀ ok, Action.drainStep ok ∈ List.replicate 4 (Action.drainStep true) → ok = true := by
    intro ok hok
    exact Action.drainStep.inj (List.eq_of_mem_replicate hok)
  have hsent := (pass_delivers h hlock hrun (Option.isNone_iff_eq_none.mp hend)).2.2.1 hall
  refine ⟨s, tr, s₁, _, log, s', h, hlock, hrun, ?_, hsent⟩
  intro h0
  rw [h0] at hne
  cases hne

/-! ## A pass ends -/

/-- The steps that are left of a pass: two for each message, one for each address, one for the
message in hand, and the release. -/
def passWork (s : Sys) : Nat :=
  match s.drain with
  | none => 0
  | some (.take addrs) => addrs.length + 2 * HashMap.total (·.queue.length) s.chans + 1
  | some (.send _ _ addrs) => addrs.length + 2 * HashMap.total (·.queue.length) s.chans + 2

theorem pass_pays {s s' : Sys} {ok : Bool} {evs : List Event}
    (hs : server.step s (.drainStep ok) = some (s', evs)) : passWork s' + 1 ≤ passWork s := by
  cases drainStep_spec hs with
  | unlocked hd =>
    rw [passWork, passWork, hd]
    dsimp only
    omega
  | next hd =>
    rw [passWork, passWork, hd]
    dsimp only
    rw [List.length_cons]
    omega
  | @took addr rest session msg queue alive hd _ hq =>
    have hover := HashMap.total_over (·.queue.length) hq { queue := queue, alive := alive }
    rw [passWork, passWork]
    dsimp only at hover ⊢
    rw [hd]
    dsimp only
    rw [List.length_cons] at hover
    omega
  | sent hd _ => rw [passWork, passWork, hd]
  | locked hd _ =>
    change drainStep s ok = some _ at hs
    simp [drainStep, hd] at hs

/-- While it has the registry, the outgoing task can go on. -/
theorem pass_goes {s : Sys} {t : DrainTask} (hd : s.drain = some t) (ok : Bool) :
    ∃ s' evs, server.step s (.drainStep ok) = some (s', evs) := by
  have hsome : (drainStep s ok).isSome = true := by
    unfold drainStep
    rw [hd]
    cases t with
    | send c msg addrs => rfl
    | take order =>
      cases order with
      | nil => rfl
      | cons addr rest =>
        dsimp only
        split
        · rfl
        · split <;> rfl
  obtain ⟨⟨s', evs⟩, hs⟩ := Option.isSome_iff_exists.mp hsome
  exact ⟨s', evs, hs⟩

theorem pass_spends : Machine.Spends server.recorded passOnly (fun _ => True) (fun _ => true)
    passWork := by
  refine ⟨fun _ _ _ _ _ _ _ => trivial, ?_⟩
  intro s a s' log _ hg hs
  obtain ⟨evs, hs, -⟩ := Machine.recorded_step.mp hs
  cases a with
  | drainStep ok => exact pass_pays hs
  | _ => cases hg

/-- From any state, the outgoing task alone gets to the end of its pass. -/
theorem pass_ends (s : Sys) :
    ∃ as log s', server.recorded.Run passOnly s as log s' ∧ s'.drain = none := by
  obtain ⟨as, log, s', hrun, h0⟩ := pass_spends.rest (s := s) (fun s _ hne => by
    cases hd : s.drain with
    | none => exact absurd (by rw [passWork, hd]) hne
    | some t =>
      obtain ⟨s', evs, hs⟩ := pass_goes hd true
      have hg : passOnly s (.drainStep true) := rfl
      have hstep := Machine.recorded_step.mpr ⟨evs, hs, rfl⟩
      exact ⟨_, _, s', Machine.Run.nil.snoc hg hstep, pass_pays hs⟩) trivial
  refine ⟨as, log, s', hrun, ?_⟩
  cases hd : s'.drain with
  | none => rfl
  | some t =>
    rw [passWork, hd] at h0
    cases t <;> cases h0

end Kotatsu
