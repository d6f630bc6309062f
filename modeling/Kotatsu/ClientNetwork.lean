import Kotatsu.TestClient

/-
  What the clients say, and what is known of them

  A step of a client is seen from the rest of the world by what it may say: its own join,
  or a change or a position of its own (`Client.Says`). `Voices` is the invariant of the
  network over that: what is under way to the server and bears the address of a client was
  said by it, and what is under way to a client was sent by the server. A player is
  therefore registered from the address of its client only (`own_player`), and its history
  is the one or two raises that the trigger asks for (`own_history`).
-/

namespace Kotatsu.TestClient

open Machine (eventsOf)

/-! ## Tokens -/

/-- A token belongs to one player. -/
theorem issued_token {G : Sys → Action → Prop} {s : Sys} {tr : List Event}
    (h : Kotatsu.server.Reach G s tr) {m m' p p' token : String} (hi : Issued tr m p token)
    (hi' : Issued tr m' p' token) : p = p' := by
  obtain ⟨req, resp, now, he, -, rfl, htoken⟩ := hi
  obtain ⟨req', resp', now', he', -, rfl, htoken'⟩ := hi'
  have heq : resp.token = resp'.token := htoken.trans htoken'.symm
  obtain ⟨pre, post, rfl⟩ := List.append_of_mem he
  rcases List.mem_append.mp he' with he' | he'
  · exact absurd heq.symm ((fresh_before_issue h rfl).1 _ _ _ he')
  · rcases List.mem_cons.mp he' with he' | he'
    · cases he'
      rfl
    · obtain ⟨mid, post, rfl⟩ := List.append_of_mem he'
      have hsplit : pre ++ Event.ticketIssued req resp now ::
          (mid ++ .ticketIssued req' resp' now' :: post) =
          (pre ++ .ticketIssued req resp now :: mid) ++ .ticketIssued req' resp' now' :: post := by
        simp
      exact absurd heq ((fresh_before_issue h hsplit).1 req resp now (by simp))

/-! ## What a client says -/

/-- What the server may read in a packet of the client. -/
def Client.Says (c : Client) : Packet → Prop
  | .reliable (.join token) => token = c.join.token
  | .reliable (.paramChange _ k d) =>
    c.triggerParamUpdate = true ∧ c.reader ≠ .off ∧ k = .gravity ∧ d = .increase
  | .unreliable _ | .malformed => True

/-- What a client keeps. -/
structure Client.Follows (c c' : Client) : Prop where
  join : c'.join = c.join
  trigger : c'.triggerParamUpdate = c.triggerParamUpdate
  spawned : c.reader ≠ .off → c'.reader ≠ .off

theorem Client.Follows.refl (c : Client) : c.Follows c := ⟨rfl, rfl, id⟩

theorem Client.Says.follows {c c' : Client} {packet : Packet} (h : c.Says packet)
    (hc : c.Follows c') : c'.Says packet := by
  cases packet with
  | reliable msg =>
    cases msg with
    | join token => exact h.trans (congrArg JoinMatchRes.token hc.join).symm
    | paramChange seq k d =>
      obtain ⟨htrigger, hspawned, hk⟩ := h
      exact ⟨hc.trigger.trans htrigger, hc.spawned hspawned, hk⟩
  | unreliable msg => trivial
  | malformed => trivial

/-- How a client's task, its reader and its part go together. -/
structure Client.Steady (c : Client) : Prop where
  waiting : c.task = .join ∨ c.task = .joining → c.reader = .off
  spawned : c.reader = .off → c.task = .join ∨ c.task = .joining ∨ ∃ e, c.task = .failed e
  changing : ∀ seq, c.task = .change seq → c.triggerParamUpdate = true

theorem nextTick_ticks (ticks seq : Nat) :
    nextTick ticks seq = .tick seq ∨ nextTick ticks seq = .lastDrain := by
  unfold nextTick
  split
  · exact .inl rfl
  · exact .inr rfl

section ClientSteps
variable {text : F32 → Number} {c c' : Client} {stats stats' : Stats} {a : ClientAction}
  {sent : List UdpPacket}

theorem client_follows (h : ClientStep text c stats a c' stats' sent) : c.Follows c' := by
  cases h with
  | joined _ _ | read _ _ _ | readerEnded _ | handOverFailed _ | handed _ =>
    exact ⟨rfl, rfl, fun _ => Reader.noConfusion⟩
  | _ => exact ⟨rfl, rfl, id⟩

/-- A client past its join has spawned its reader. -/
theorem Client.Steady.joined (hc : c.Steady) (hjoin : c.task ≠ .join) (hjoining : c.task ≠ .joining)
    (hfailed : ∀ e, c.task ≠ .failed e) : c.reader ≠ .off := by
  intro hoff
  rcases hc.spawned hoff with h | h | ⟨e, h⟩
  · exact hjoin h
  · exact hjoining h
  · exact hfailed e h

theorem drained_task {task next : ClientTask} {ticks : Nat} (h : task.drained ticks = some next) :
    (∃ seq, task = .drain seq ∧ next = nextTick ticks (seq + 1)) ∨
      task = .lastDrain ∧ next = .linger := by
  unfold ClientTask.drained at h
  split at h
  · cases h
    exact .inl ⟨_, rfl, rfl⟩
  · cases h
    exact .inr ⟨rfl, rfl⟩
  · cases h

/-- A client that takes messages has spawned its reader. -/
theorem Client.Steady.drains (hc : c.Steady) {next : ClientTask}
    (hd : c.task.drained c.ticks = some next) : c.reader ≠ .off := by
  rcases drained_task hd with ⟨seq, ht, -⟩ | ⟨ht, -⟩ <;>
    exact hc.joined (by simp [ht]) (by simp [ht]) (by simp [ht])

/-- The packet that a client sends, and what it goes on to. -/
theorem packet_task {packet : UdpPacket} (hp : c.packet text = some packet) :
    (c.task = .join ∧ c.sent = .joining ∧
      packet = encodePacket pktReliable (writeClientReliable (.join c.join.token))) ∨
    (∃ seq, c.task = .change seq ∧ (c.sent = .change 2 ∨ c.sent = nextTick c.ticks 1) ∧
      packet =
        encodePacket pktReliable (writeClientReliable (.paramChange seq .gravity .increase))) ∨
    ∃ seq, c.task = .tick seq ∧ c.sent = .drain seq ∧ packet = tickPacket text seq := by
  unfold Client.packet at hp
  unfold Client.sent
  cases ht : c.task with
  | join =>
    rw [ht] at hp
    exact .inl ⟨rfl, rfl, (Option.some.inj hp).symm⟩
  | change seq =>
    rw [ht] at hp
    refine .inr (.inl ⟨seq, rfl, ?_, (Option.some.inj hp).symm⟩)
    by_cases h1 : seq = 1
    · exact .inl (if_pos h1)
    · exact .inr (if_neg h1)
  | tick seq =>
    rw [ht] at hp
    exact .inr (.inr ⟨seq, rfl, rfl, (Option.some.inj hp).symm⟩)
  | _ =>
    rw [ht] at hp
    cases hp

theorem steady_new (join : JoinMatchRes) (trigger : Bool) (ticks : Nat) :
    (Client.new join trigger ticks).Steady := ⟨fun _ => rfl, fun _ => .inl rfl, nofun⟩

/-- A client with its reader spawned, at a task past its join. -/
theorem steady_past (hreader : c.reader ≠ .off) (hjoin : c.task ≠ .join)
    (hjoining : c.task ≠ .joining)
    (hchange : ∀ seq, c.task = .change seq → c.triggerParamUpdate = true) : c.Steady :=
  ⟨fun h => absurd h (not_or.mpr ⟨hjoin, hjoining⟩), fun h => absurd h hreader, hchange⟩

theorem steady_failed (c : Client) (e : ClientError) : Client.Steady { c with task := .failed e } :=
  ⟨fun h => by simp at h, fun _ => .inr (.inr ⟨e, rfl⟩), nofun⟩

/-- At a tick or at the end of the ticks. -/
theorem steady_tick (hreader : c.reader ≠ .off) (ticks seq : Nat)
    (ht : c.task = nextTick ticks seq) : c.Steady := by
  rcases nextTick_ticks ticks seq with h | h <;>
    exact steady_past hreader (by simp [ht, h]) (by simp [ht, h]) (by simp [ht, h])

theorem steady_step (hc : c.Steady) (h : ClientStep text c stats a c' stats' sent) :
    c'.Steady := by
  cases h with
  | sent hp =>
    rcases packet_task hp with ⟨ht, hsent, -⟩ | ⟨seq, ht, hsent, -⟩ | ⟨seq, ht, hsent, -⟩
    · refine ⟨fun _ => hc.waiting (.inl ht), fun _ => .inr (.inl hsent), ?_⟩
      intro seq hchange
      rw [hsent] at hchange
      cases hchange
    · have hreader := hc.joined (by simp [ht]) (by simp [ht]) (by simp [ht])
      rcases hsent with hsent | hsent
      · exact steady_past hreader (by simp [hsent]) (by simp [hsent])
          fun _ _ => hc.changing seq ht
      · exact steady_tick hreader _ _ hsent
    · have hreader := hc.joined (by simp [ht]) (by simp [ht]) (by simp [ht])
      exact steady_past hreader (by simp [hsent]) (by simp [hsent]) (by simp [hsent])
  | joined ht hm =>
    by_cases htrigger : c.triggerParamUpdate = true
    · refine steady_past Reader.noConfusion ?_ ?_ fun _ _ => htrigger <;> simp [htrigger]
    · exact steady_tick Reader.noConfusion c.ticks 1 (if_neg htrigger)
  | sendFailed _ | joinedOther _ _ _ | refused _ _ | recvFailed _ => exact steady_failed c _
  | read _ hr _ | handed hr | readerEnded hr | handOverFailed hr =>
    have hreader : c.reader ≠ .off := by simp [hr]
    refine ⟨fun h => absurd (hc.waiting h) hreader, nofun, hc.changing⟩
  | drained hd =>
    have hreader := hc.drains hd
    rcases drained_task hd with ⟨seq, -, rfl⟩ | ⟨-, rfl⟩
    · exact steady_tick hreader c.ticks (seq + 1) rfl
    · exact steady_past hreader nofun nofun nofun
  | woke ht =>
    have hreader := hc.joined (by simp [ht]) (by simp [ht]) (by simp [ht])
    exact steady_past hreader nofun nofun nofun
  | took _ _ => exact ⟨hc.waiting, hc.spawned, hc.changing⟩
  | counted _ _ _ _ | ignored _ => exact hc

/-- A tick is no reliable packet. -/
theorem read_tickPacket (c : Client) (text : F32 → Number) (seq : Nat) :
    c.Says (readPacket (tickPacket text seq)) := by
  have hne : pktUnreliable ≠ pktReliable := by decide
  simp only [readPacket, tickPacket, encodePacket, if_neg hne, if_true]
  split <;> trivial

theorem says_sent (hc : c.Steady) (h : ClientStep text c stats a c' stats' sent) :
    ∀ packet ∈ sent, c.Says (readPacket packet) := by
  cases h with
  | @sent packet hp =>
    intro packet' hmem
    obtain rfl := List.mem_singleton.mp hmem
    rcases packet_task hp with ⟨-, -, rfl⟩ | ⟨seq, ht, -, rfl⟩ | ⟨seq, -, -, rfl⟩
    · rw [read_reliable]
      exact rfl
    · rw [read_reliable]
      have hreader := hc.joined (by simp [ht]) (by simp [ht]) (by simp [ht])
      exact ⟨hc.changing seq ht, hreader, rfl, rfl⟩
    · exact read_tickPacket c text seq
  | _ => nofun

end ClientSteps

/-! ## The network -/

/-- The clients go on. -/
def World.Follows (w w' : World) : Prop :=
  ∀ a c, w.clients.get a = some c → ∃ c', w'.clients.get a = some c' ∧ c.Follows c'

theorem world_follows {text : F32 → Number} {w w' : World} {log : Log}
    (h : WorldStep text w w' log) : w.Follows w' := by
  intro b c hc
  cases h with
  | server _ _ | arrived _ _ | stranger _ _ => exact ⟨c, hc, .refl c⟩
  | started hnone _ _ =>
    exact ⟨c, (HashMap.get_insert_ne _ _ (HashMap.ne_of_get_none hnone hc)).trans hc, .refl c⟩
  | @client addr a c₀ c' stats sent hc₀ _ h =>
    by_cases hb : b = addr
    · subst hb
      rw [hc] at hc₀
      obtain rfl := Option.some.inj hc₀
      exact ⟨c', HashMap.get_insert_self _ _ _, client_follows h⟩
    · exact ⟨c, (HashMap.get_insert_ne _ _ hb).trans hc, .refl c⟩

/-- A packet that the server has sent to `a`. -/
inductive Carried (text : F32 → Number) (log : Log) (a : SocketAddr) : UdpPacket → Prop
  | reliable {msg : Kotatsu.ServerReliable} (he : Event.sentReliable a msg ∈ eventsOf log) :
      Carried text log a (reliableDatagram msg)
  | datagram {out : ServerDatagram} (he : Event.sentDatagram a out ∈ eventsOf log) :
      Carried text log a (datagramPacket text out)

theorem Carried.mono {text : F32 → Number} {log : Log} {a : SocketAddr} {packet : UdpPacket}
    (h : Carried text log a packet) (log' : Log) : Carried text (log ++ log') a packet := by
  cases h with
  | reliable he => exact .reliable (mem_eventsOf_append he log')
  | datagram he => exact .datagram (mem_eventsOf_append he log')

/-- What is on the network, and what the server has received. -/
structure Voices (text : F32 → Number) (w : World) (log : Log) : Prop where
  steady : ∀ {a c}, w.clients.get a = some c → c.Steady
  /-- Every client has a ticket of its player. -/
  ticket : ∀ {a c}, w.clients.get a = some c →
    ∃ m, Issued (eventsOf log) m c.join.playerId c.join.token
  joins : ∀ {j}, j ∈ w.joins → ∃ m, Issued (eventsOf log) m j.playerId j.token
  apart : ∀ {a}, a ∈ w.strangers → w.clients.get a = none
  said : ∀ {a packet}, (a, packet) ∈ w.toServer →
    ∃ c, w.clients.get a = some c ∧ c.Says (readPacket packet)
  received : ∀ {x}, x ∈ log → ∀ {tid a packet}, x.action = .recv tid a packet →
    (∃ c, w.clients.get a = some c ∧ c.Says packet) ∨ a ∈ w.strangers
  carried : ∀ {a packet}, (a, packet) ∈ w.toClients → Carried text log a packet

theorem voices_init (text : F32 → Number) (url : String) : Voices text (World.init url) [] :=
  ⟨nofun, nofun, nofun, nofun, nofun, nofun, nofun⟩

section Voices
variable {text : F32 → Number} {w w' : World} {log : Log}

theorem issued_mono {m p token : String} (h : Issued (eventsOf log) m p token) (log' : Log) :
    Issued (eventsOf (log ++ log')) m p token := by
  rw [Machine.eventsOf_append]
  exact h.mono _

/-- A ticket is returned in a join response. -/
theorem joinOf_issued {evs : List Event} {j : JoinMatchRes} (h : j ∈ evs.filterMap joinOf) :
    ∃ m, Issued evs m j.playerId j.token := by
  obtain ⟨e, he, hj⟩ := List.mem_filterMap.mp h
  cases e with
  | ticketIssued req resp now =>
    cases hj
    exact ⟨resp.matchId, req, resp, now, he, rfl, rfl, rfl⟩
  | _ => cases hj

/-- The packets on their way are those of the events. -/
theorem packetTo_carried {evs : List Event} (hevs : ∀ e ∈ evs, e ∈ eventsOf log) {a : SocketAddr}
    {packet : UdpPacket} (hp : (a, packet) ∈ evs.filterMap (packetTo text)) :
    Carried text log a packet := by
  obtain ⟨e, he, hpacket⟩ := List.mem_filterMap.mp hp
  cases e with
  | sentReliable b msg =>
    cases hpacket
    exact .reliable (hevs _ he)
  | sentDatagram b out =>
    cases hpacket
    exact .datagram (hevs _ he)
  | _ => cases hpacket

/-- A step of the server, which hears a client, a stranger or nobody. -/
theorem voices_served (hi : Voices text w log) {act : Action} {sys : Sys} {evs : List Event}
    (hact : ∀ tid a packet, act = .recv tid a packet →
      (∃ c, w.clients.get a = some c ∧ c.Says packet) ∨ a ∈ w.strangers) :
    Voices text (w.served text sys evs) (log ++ [⟨w.sys, act, evs, sys⟩]) := by
  have hevs : ∀ e ∈ evs, e ∈ eventsOf (log ++ [⟨w.sys, act, evs, sys⟩]) := by
    intro e he
    rw [Machine.eventsOf_append, Machine.eventsOf_singleton]
    exact List.mem_append_right _ he
  refine ⟨hi.steady, ?_, ?_, hi.apart, hi.said, ?_, ?_⟩
  · intro a c hc
    obtain ⟨m, hm⟩ := hi.ticket hc
    exact ⟨m, issued_mono hm _⟩
  · intro j hj
    rcases List.mem_append.mp hj with hj | hj
    · obtain ⟨m, hm⟩ := hi.joins hj
      exact ⟨m, issued_mono hm _⟩
    · obtain ⟨m, req, resp, now, he, hm⟩ := joinOf_issued hj
      exact ⟨m, req, resp, now, hevs _ he, hm⟩
  · intro x hx tid a packet hrecv
    rcases List.mem_append.mp hx with hx | hx
    · exact hi.received hx hrecv
    · rw [List.mem_singleton.mp hx] at hrecv
      exact hact tid a packet hrecv
  · intro a packet hp
    rcases List.mem_append.mp hp with hp | hp
    · exact (hi.carried hp).mono _
    · exact packetTo_carried hevs hp

/-- A step of a client. -/
theorem voices_moved (hi : Voices text w log) {addr : SocketAddr} {a : ClientAction}
    {c c' : Client} {stats : Stats} {sent : List UdpPacket} (hc : w.clients.get addr = some c)
    (h : ClientStep text c w.stats a c' stats sent) :
    Voices text (w.moved addr c' stats sent) log := by
  have hfollows : c.Follows c' := client_follows h
  -- what holds of every client and of the next state of this one
  have hget : ∀ {b : SocketAddr} {d : Client}, (w.moved addr c' stats sent).clients.get b = some d →
      b = addr ∧ d = c' ∨ w.clients.get b = some d := by
    intro b d hd
    rcases HashMap.get_insert_cases hd with ⟨rfl, rfl⟩ | ⟨-, hold⟩
    · exact .inl ⟨rfl, rfl⟩
    · exact .inr hold
  have hkept : ∀ {b : SocketAddr} {d : Client} {packet : Packet}, w.clients.get b = some d →
      d.Says packet → ∃ d', (w.moved addr c' stats sent).clients.get b = some d' ∧
        d'.Says packet := by
    intro b d packet hd hsay
    by_cases hb : b = addr
    · subst hb
      rw [hc] at hd
      obtain rfl := Option.some.inj hd
      exact ⟨c', HashMap.get_insert_self _ _ _, hsay.follows hfollows⟩
    · exact ⟨d, (HashMap.get_insert_ne _ _ hb).trans hd, hsay⟩
  refine ⟨?_, ?_, hi.joins, ?_, ?_, ?_, hi.carried⟩
  · intro b d hd
    rcases hget hd with ⟨-, rfl⟩ | hold
    · exact steady_step (hi.steady hc) h
    · exact hi.steady hold
  · intro b d hd
    rcases hget hd with ⟨-, rfl⟩ | hold
    · rw [hfollows.join]
      exact hi.ticket hc
    · exact hi.ticket hold
  · -- a client that moves was no stranger before
    intro b hb
    have hnone := hi.apart hb
    exact (HashMap.get_insert_ne _ _ (HashMap.ne_of_get_none hnone hc).symm).trans hnone
  · intro b packet hp
    rcases List.mem_append.mp hp with hp | hp
    · obtain ⟨d, hd, hsay⟩ := hi.said hp
      exact hkept hd hsay
    · obtain ⟨packet', hmem, heq⟩ := List.mem_map.mp hp
      obtain ⟨rfl, rfl⟩ := Prod.mk.inj heq
      exact hkept hc (says_sent (hi.steady hc) h packet' hmem)
  · intro x hx tid b packet hrecv
    rcases hi.received hx hrecv with ⟨d, hd, hsay⟩ | hb
    · exact .inl (hkept hd hsay)
    · exact .inr hb

theorem voices_started (hi : Voices text w log) {addr : SocketAddr} {join : JoinMatchRes}
    (hc : w.clients.get addr = none) (haddr : addr ∉ w.strangers) (hjoin : join ∈ w.joins)
    (trigger : Bool) (ticks : Nat) :
    Voices text
      { w with
        clients := w.clients.insert addr (.new join trigger ticks)
        joins := w.joins.erase join } log := by
  have hold : ∀ {b : SocketAddr} {d : Client}, w.clients.get b = some d →
      (w.clients.insert addr (.new join trigger ticks)).get b = some d := by
    intro b d hd
    exact (HashMap.get_insert_ne _ _ (HashMap.ne_of_get_none hc hd)).trans hd
  refine ⟨?_, ?_, ?_, ?_, ?_, ?_, hi.carried⟩
  · intro b d hd
    rcases HashMap.get_insert_cases hd with ⟨-, rfl⟩ | ⟨-, hd⟩
    · exact steady_new join trigger ticks
    · exact hi.steady hd
  · intro b d hd
    rcases HashMap.get_insert_cases hd with ⟨-, rfl⟩ | ⟨-, hd⟩
    · exact hi.joins hjoin
    · exact hi.ticket hd
  · intro j hj
    exact hi.joins (List.mem_of_mem_erase hj)
  · intro b hb
    have hne : b ≠ addr := fun heq => haddr (heq ▸ hb)
    exact (HashMap.get_insert_ne _ _ hne).trans (hi.apart hb)
  · intro b packet hp
    obtain ⟨d, hd, hsay⟩ := hi.said hp
    exact ⟨d, hold hd, hsay⟩
  · intro x hx tid b packet hrecv
    rcases hi.received hx hrecv with ⟨d, hd, hsay⟩ | hb
    · exact .inl ⟨d, hold hd, hsay⟩
    · exact .inr hb

theorem voices_step (hi : Voices text w log) {log' : Log}
    (h : WorldStep text w w' log') : Voices text w' (log ++ log') := by
  cases h with
  | server hs ha =>
    refine voices_served hi ?_
    rintro tid a packet rfl
    cases ha
  | arrived hp hs =>
    refine voices_served hi ?_
    rintro tid a packet heq
    cases heq
    exact .inl (hi.said hp)
  | @stranger tid addr packet sys evs hc hs =>
    have hi' : Voices text { w with strangers := addr :: w.strangers } log := by
      refine ⟨hi.steady, hi.ticket, hi.joins, ?_, hi.said, ?_, hi.carried⟩
      · intro a ha
        rcases List.mem_cons.mp ha with rfl | ha
        · exact hc
        · exact hi.apart ha
      · intro x hx tid a packet hrecv
        exact (hi.received hx hrecv).imp_right (List.mem_cons_of_mem _)
    refine voices_served hi' ?_
    rintro tid a packet heq
    cases heq
    exact .inr List.mem_cons_self
  | started hc haddr hjoin =>
    rw [List.append_nil]
    exact voices_started hi hc haddr hjoin _ _
  | client hc _ h =>
    rw [List.append_nil]
    exact voices_moved hi hc h

theorem voices (h : (world text).Reach Machine.anyStep w log) : Voices text w log := by
  refine Machine.Reach.induct (P := Voices text) ?_ ?_ h
  · intro w hinit
    obtain ⟨url, rfl⟩ := hinit
    exact voices_init text url
  · intro w log a w' log' hreach hi _ hs
    exact voices_step hi (stepWorld_spec hs)

end Voices

/-! ## What the server knows of a client -/

/-- The parameters after one step up. -/
def raised : PlayerParams := { gravity := 3, friction := 2, speed := 2 }

/-- A log of steps up has one step at most. -/
theorem raised_once {us : List ParamUpdate} (h : ParamLog us)
    (hup : ∀ u ∈ us, u.param = .gravity ∧ u.direction = .increase) {u : ParamUpdate} (hu : u ∈ us) :
    us = [u] ∧ u.updated.params = raised := by
  have hups : changes .gravity .increase us = us.length := by
    refine List.countP_eq_length.mpr fun v hv => ?_
    obtain ⟨hk, hd⟩ := hup v hv
    simp [hk, hd]
  have hdowns : ∀ k, changes k .decrease us = 0 := by
    intro k
    refine List.countP_eq_zero.mpr fun v hv => ?_
    simp [(hup v hv).2]
  have hothers : ∀ k, k ≠ .gravity → changes k .increase us = 0 := by
    intro k hk
    refine List.countP_eq_zero.mpr fun v hv => ?_
    simp [(hup v hv).1, hk.symm]
  have hgravity := log_levels h .gravity
  have hfriction := log_levels h .friction
  have hspeed := log_levels h .speed
  rw [hups, hdowns] at hgravity
  rw [hothers _ (by decide), hdowns] at hfriction hspeed
  obtain ⟨⟨-, hmax⟩, -, -⟩ := inRange_bounds (log_inRange h)
  simp only [PlayerParams.level, PlayerParams.default] at hgravity hfriction hspeed
  -- gravity has room for one step from its default
  obtain ⟨v, rfl⟩ : ∃ v, us = [v] := by
    cases us with
    | nil => cases hu
    | cons v rest =>
      cases rest with
      | nil => exact ⟨v, rfl⟩
      | cons v' rest =>
        simp only [List.length_cons] at hgravity
        omega
  obtain rfl := List.mem_singleton.mp hu
  refine ⟨rfl, ?_⟩
  have hlast : paramsAfter [u] = u.updated.params := paramsAfter_snoc [] u
  rw [← hlast]
  cases hp : paramsAfter [u] with
  | mk g f s =>
    rw [hp] at hgravity hfriction hspeed
    simp only [List.length_singleton] at hgravity hfriction hspeed
    have hg : g = 3 := by omega
    have hf : f = 2 := by omega
    have hs : s = 2 := by omega
    rw [hg, hf, hs]
    rfl

/-- The change that the client of `p` has asked for was made at `now`. -/
def Raised (log : Log) (p : String) (now : Nat) : Prop :=
  ∃ m mu, Event.paramUpdated m p .gravity .increase now mu ∈ eventsOf log

theorem Raised.mono {log : Log} {p : String} {now : Nat} (h : Raised log p now) (log' : Log) :
    Raised (log ++ log') p now := by
  obtain ⟨m, mu, he⟩ := h
  exact ⟨m, mu, mem_eventsOf_append he log'⟩

section Known
variable {text : F32 → Number} {w : World} {log : Log}

/-- Every packet from the address of a client is one that the client says. -/
theorem Voices.only_said (hi : Voices text w log) {a : SocketAddr} {c : Client}
    (hc : w.clients.get a = some c) {x : Moment Sys Action Event} (hx : x ∈ log) {tid : Nat}
    {packet : Packet} (hrecv : x.action = .recv tid a packet) : c.Says packet := by
  rcases hi.received hx hrecv with ⟨d, hd, hsay⟩ | ha
  · rw [hc] at hd
    obtain rfl := Option.some.inj hd
    exact hsay
  · -- a stranger's address is no client's
    rw [hi.apart ha] at hc
    cases hc

variable (h : (world text).Reach Machine.anyStep w log)

include h

/-- The address of a client registers no other player. -/
theorem own_player {a : SocketAddr} {c : Client} (hc : w.clients.get a = some c) {m q : String}
    {tx : ChanId} (ho : Event.registered m q a tx ∈ eventsOf log) : q = c.join.playerId := by
  have hserves := world_serves h
  obtain ⟨token, ⟨x, hx, tid, hrecv⟩, hissued, -⟩ := (provenance hserves).registered ho
  have htoken : token = c.join.token := (voices h).only_said hc hx hrecv
  obtain ⟨m', hticket⟩ := (voices h).ticket hc
  exact issued_token hserves.unrecorded hissued (htoken ▸ hticket)

/-- A change that was asked for from the address of a client is the step up. -/
theorem own_change {a : SocketAddr} {c : Client} (hc : w.clients.get a = some c) {k : ParamKind}
    {d : ParamDirection} (hasked : Asked log a k d) :
    c.triggerParamUpdate = true ∧ c.reader ≠ .off ∧ k = .gravity ∧ d = .increase := by
  obtain ⟨x, hx, tid, seq, hrecv⟩ := hasked
  exact (voices h).only_said hc hx hrecv

/-- A change of the player that a client has registered is its own. -/
theorem own_update {a : SocketAddr} {c : Client} (hc : w.clients.get a = some c) {m m' p : String}
    {tx : ChanId} (ho : Event.registered m p a tx ∈ eventsOf log) {k : ParamKind}
    {d : ParamDirection} {now : Nat} {mu : ParamMutation}
    (he : Event.paramUpdated m' p k d now mu ∈ eventsOf log) : k = .gravity ∧ d = .increase := by
  -- the change was asked for from the one address that registered the player
  obtain ⟨a', tx', ho', hasked⟩ := updated_asked (world_serves h) he
  obtain ⟨-, rfl, -⟩ := (registry (world_serves h).unrecorded).once ho ho'
  exact (own_change h hc hasked).2.2

/-- All that is known of the changes of such a player. -/
theorem own_history {a : SocketAddr} {c : Client} (hc : w.clients.get a = some c) {m p : String}
    {tx : ChanId} (ho : Event.registered m p a tx ∈ eventsOf log) {u : ParamUpdate}
    (hu : u ∈ updatesOf (eventsOf log) p) :
    updatesOf (eventsOf log) p = [u] ∧ u.updated.params = raised ∧
      u.updated.nextParamChangeAtUnix = u.nowUnix + paramChangeCooldownSecs ∧
      Raised log p u.nowUnix := by
  have hlogged := params_logged (world_serves h).unrecorded
  have hup : ∀ v ∈ updatesOf (eventsOf log) p, v.param = .gravity ∧ v.direction = .increase := by
    intro v hv
    obtain ⟨m', he⟩ := mem_updatesOf hv
    exact own_update h hc ho he
  obtain ⟨honly, hparams⟩ := raised_once (hlogged.log p) hup hu
  refine ⟨honly, hparams, log_next (hlogged.log p) u hu, ?_⟩
  obtain ⟨m', he⟩ := mem_updatesOf hu
  obtain ⟨hk, hd⟩ := hup u hu
  rw [hk, hd] at he
  exact ⟨m', _, he⟩

end Known

end Kotatsu.TestClient
