import Kotatsu.ClientNetwork

/-
  What the clients hear

  A packet that is under way to a client carries a reliable message of the server for its
  address, or the position of another player of its room. `Hearing` is the invariant of the
  clients over the whole run: a task fails only where the code lets it, and each entry of
  the statistics is true of the history of the server (`ClientStats.Sound`). The step of a
  client is the case analysis, one lemma for the client and one for its entry; the rest of
  the world only adds to the history.
-/

namespace Kotatsu.TestClient

open Machine (eventsOf)

/-! ## What a client hears -/

/-- A reliable message that the client at `a` reads. -/
def HeardFrom (log : Log) (a : SocketAddr) (msg : ServerReliable) : Prop :=
  ∃ told, Told log a told ∧ msg = heardAs told

theorem HeardFrom.mono {log : Log} {a : SocketAddr} {msg : ServerReliable}
    (h : HeardFrom log a msg) (log' : Log) : HeardFrom (log ++ log') a msg := by
  obtain ⟨told, ht, rfl⟩ := h
  exact ⟨told, ht.mono log', rfl⟩

theorem parse_carried {text : F32 → Number} {s : Sys} {log : Log}
    (h : Kotatsu.server.recorded.Reach Machine.anyStep s log) {a : SocketAddr} {packet : UdpPacket}
    (hp : Carried text log a packet) {msg : ServerReliable}
    (hm : parseReliable packet = some msg) : HeardFrom log a msg := by
  cases hp with
  | reliable he =>
    have ht := told h he
    rw [parse_reliable_packet (told_legible h ht)] at hm
    exact ⟨_, ht, (Option.some.inj hm).symm⟩
  | datagram _ => cases hm

/-- The player is read first, and kept. -/
theorem readServerPos_player {p : String} {seq x y vx vy ms : Doc} {out : ServerDatagram}
    (h : readServerPos [.str p, seq, x, y, vx, vy, ms] = some out) : playerOf out = p := by
  simp only [readServerPos, readString, Option.bind_eq_bind, Option.bind_some,
    Option.bind_eq_some_iff] at h
  obtain ⟨_, -, _, -, _, -, _, -, _, -, _, -, heq⟩ := h
  rw [← Option.some.inj heq]
  rfl

/-- A datagram that a client reads is the position of another player of its room, as the
server has sent it. -/
theorem parse_relayed {text : F32 → Number} {s : Sys} {log : Log}
    (h : Kotatsu.server.recorded.Reach Machine.anyStep s log) {a : SocketAddr} {packet : UdpPacket}
    (hp : Carried text log a packet) {out : ServerDatagram}
    (hd : parseDatagram packet = some out) :
    ∃ m p b tx tx', Event.registered m p a tx ∈ eventsOf log ∧
      Event.registered m (playerOf out) b tx' ∈ eventsOf log ∧ playerOf out ≠ p ∧
      ∃ sent, Event.sentDatagram a sent ∈ eventsOf log ∧ playerOf sent = playerOf out := by
  cases hp with
  | reliable _ => cases hd
  | @datagram sent he =>
    have hsent := he
    cases relayed h he with
    | @intro m p q b tx tx' msg ms ho _ hb hself =>
      cases msg with
      | stageProgress i => cases hd
      | pos seq x y vx vy =>
        have hparse : parseDatagram
            (datagramPacket text (relayOut p ms (.pos seq x y vx vy))) =
            readServerDatagram (writeServerDatagram text (.pos p seq x y vx vy ms)) := rfl
        rw [hparse, read_written_pos] at hd
        have hplayer : playerOf out = p := readServerPos_player hd
        refine ⟨m, q, b, tx', tx, hb, hplayer ▸ ho, ?_, _, hsent, hplayer.symm⟩
        -- only a stage progress comes back to its sender
        intro heq
        obtain ⟨i, hmsg⟩ := hself (heq.symm.trans hplayer)
        cases hmsg

/-! ## The invariant of the clients -/

/-- What a client may fail with. -/
def ClientError.Fair : ClientError → Prop
  | .unexpectedPlayerId _ _ => False
  | .joinFailed code message => (code, message) ∈ joinErrors
  | .socket _ => True

/-- The statistics of the player `p` are true of the history. -/
structure ClientStats.Sound (w : World) (log : Log) (p : String) (st : ClientStats) : Prop where
  /-- The player is that of a client, which has registered it. -/
  own : ∃ a c m tx, w.clients.get a = some c ∧ c.join.playerId = p ∧
    Event.registered m p a tx ∈ eventsOf log
  joinParams : st.joinParams = some .default
  distinct : st.datagramFromPlayers.Nodup
  /-- Each of the others has a seat in the same room, and the server has relayed to the
  client for it. -/
  others : ∀ q ∈ st.datagramFromPlayers, q ≠ p ∧ ∃ m a tx b tx' out,
    Event.registered m p a tx ∈ eventsOf log ∧ Event.registered m q b tx' ∈ eventsOf log ∧
      Event.sentDatagram a out ∈ eventsOf log ∧ playerOf out = q
  counted : st.datagramFromPlayers.length ≤ st.datagramCount ∧
    (st.datagramFromPlayers = [] → st.datagramCount = 0)
  applied : st.paramAppliedCount ≠ 0 → ∃ m q k d now mu,
    Event.paramUpdated m q k d now mu ∈ eventsOf log
  observed : ∀ params, st.observedParamState = some params → params = raised ∧
    ∃ now, Raised log p now ∧
      st.nextParamChangeAtUnix = some (low64 (now + paramChangeCooldownSecs))
  cooldown : st.cooldownErrorSeen = true → ∃ now, Raised log p now

theorem ClientStats.Sound.mono {w w' : World} {log : Log} {p : String} {st : ClientStats}
    (h : st.Sound w log p) (hw : w.Follows w') (log' : Log) : st.Sound w' (log ++ log') p := by
  refine ⟨?_, h.joinParams, h.distinct, ?_, h.counted, ?_, ?_, ?_⟩
  · obtain ⟨a, c, m, tx, hc, hp, ho⟩ := h.own
    obtain ⟨c', hc', hfollows⟩ := hw a c hc
    exact ⟨a, c', m, tx, hc', hfollows.join ▸ hp, mem_eventsOf_append ho log'⟩
  · intro q hq
    obtain ⟨hne, m, a, tx, b, tx', out, ho, ho', he, hout⟩ := h.others q hq
    exact ⟨hne, m, a, tx, b, tx', out, mem_eventsOf_append ho log', mem_eventsOf_append ho' log',
      mem_eventsOf_append he log', hout⟩
  · intro happlied
    obtain ⟨m, q, k, d, now, mu, he⟩ := h.applied happlied
    exact ⟨m, q, k, d, now, mu, mem_eventsOf_append he log'⟩
  · intro params hparams
    obtain ⟨heq, now, hraised, hnext⟩ := h.observed params hparams
    exact ⟨heq, now, hraised.mono log', hnext⟩
  · intro hseen
    obtain ⟨now, hraised⟩ := h.cooldown hseen
    exact ⟨now, hraised.mono log'⟩

/-- What a client has heard, and may have failed with. -/
structure Client.Hears (log : Log) (a : SocketAddr) (c : Client) : Prop where
  queued : ∀ msg ∈ c.queue, HeardFrom log a msg
  handing : ∀ msg, c.reader = .handing msg → HeardFrom log a msg
  failed : ∀ e, c.task = .failed e → e.Fair

theorem Client.Hears.mono {log : Log} {a : SocketAddr} {c : Client} (h : c.Hears log a)
    (log' : Log) : c.Hears (log ++ log') a :=
  ⟨fun msg hmsg => (h.queued msg hmsg).mono log', fun msg hmsg => (h.handing msg hmsg).mono log',
    h.failed⟩

structure Hearing (w : World) (log : Log) : Prop where
  hears : ∀ {a c}, w.clients.get a = some c → c.Hears log a
  entered : ∀ {a c}, w.clients.get a = some c → c.reader ≠ .off →
    ∃ st, w.stats.get c.join.playerId = some st
  sound : ∀ {p st}, w.stats.get p = some st → st.Sound w log p

/-! ### Each kind of message -/

theorem heard_joinOk {log : Log} {a : SocketAddr} {m p : String} {params : PlayerParams} {ms : Nat}
    (h : HeardFrom log a (.joinOk m p params ms)) :
    params = .default ∧ ∃ tx, Event.registered m p a tx ∈ eventsOf log := by
  obtain ⟨told, ht, heq⟩ := h
  cases ht with
  | joined ho =>
    cases heq
    exact ⟨rfl, _, ho⟩
  | refused _ => cases heq
  | mail _ hmail =>
    cases hmail with
    | news hnews => cases hnews <;> cases heq
    | refused _ _ _ => cases heq

theorem heard_error {log : Log} {a : SocketAddr} {code message : String}
    (h : HeardFrom log a (.error code message)) : (code, message) ∈ joinErrors ∨
      code = "param_update_failed" ∧ ∃ m p tx k d, Event.registered m p a tx ∈ eventsOf log ∧
        (∃ m' p' b, Event.registered m' p' b tx ∈ eventsOf log ∧ Asked log b k d ∧
          ChangeRefusal (eventsOf log) p' message) := by
  obtain ⟨told, ht, heq⟩ := h
  cases ht with
  | joined _ => cases heq
  | refused hmem =>
    cases heq
    exact .inl hmem
  | mail ho hmail =>
    cases hmail with
    | news hnews => cases hnews <;> cases heq
    | refused ho' hasked hrefusal =>
      cases heq
      exact .inr ⟨rfl, _, _, _, _, _, ho, _, _, _, ho', hasked, hrefusal⟩

theorem heard_applied {log : Log} {a : SocketAddr} {p : String} {seq next ms : Nat}
    {params : PlayerParams} (h : HeardFrom log a (.paramApplied p seq params next ms)) :
    (∃ m q tx, Event.registered m q a tx ∈ eventsOf log) ∧
      ∃ m k d now mu, Event.paramUpdated m p k d now mu ∈ eventsOf log ∧ params = mu.params ∧
        next = low64 mu.nextParamChangeAtUnix := by
  obtain ⟨told, ht, heq⟩ := h
  cases ht with
  | joined _ | refused _ => cases heq
  | mail ho hmail =>
    cases hmail with
    | refused _ _ _ => cases heq
    | news hnews =>
      cases hnews with
      | started => cases heq
      | applied he _ _ =>
        cases heq
        exact ⟨⟨_, _, _, ho⟩, _, _, _, _, _, he, rfl, rfl⟩

/-- A refusal that names the end of a cooldown comes after a change. -/
theorem changed_of_cooling {tr : List Event} {p e : String} (h : ChangeRefusal tr p e)
    (he : startsWith e "cooldown_active:" = true) : ∃ u, u ∈ updatesOf tr p := by
  cases h with
  | cooling hu => exact ⟨_, hu⟩
  | noRoom | noPlayer | outOfRange => exact absurd he (by decide)

theorem sound_joined {w : World} {log : Log} (hi : Hearing w log) {a : SocketAddr} {c : Client}
    (hc : w.clients.get a = some c) {m : String} {params : PlayerParams} {ms : Nat}
    (hheard : HeardFrom log a (.joinOk m c.join.playerId params ms)) :
    ClientStats.Sound w log c.join.playerId
      { (w.stats.get c.join.playerId).getD .default with joinParams := some params } := by
  obtain ⟨rfl, tx, ho⟩ := heard_joinOk hheard
  have hown : ∃ b d m tx, w.clients.get b = some d ∧ d.join.playerId = c.join.playerId ∧
      Event.registered m c.join.playerId b tx ∈ eventsOf log := ⟨a, c, m, tx, hc, rfl, ho⟩
  cases hst : w.stats.get c.join.playerId with
  | none =>
    exact ⟨hown, rfl, List.nodup_nil, nofun, ⟨Nat.le_refl _, fun _ => rfl⟩, fun h => absurd rfl h,
      nofun, nofun⟩
  | some st => exact { hi.sound hst with own := hown, joinParams := rfl }

section Moves
variable {text : F32 → Number} {w : World} {log : Log}
  (h : (world text).Reach Machine.anyStep w log) {a : SocketAddr} {c : Client}
  (hc : w.clients.get a = some c)

include h hc

/-- A refused change has been asked for by a client whose reader is there. -/
theorem refused_own {code message : String} (hheard : HeardFrom log a (.error code message))
    (hcode : (code, message) ∉ joinErrors) : c.triggerParamUpdate = true ∧ c.reader ≠ .off ∧
      ∃ m tx, Event.registered m c.join.playerId a tx ∈ eventsOf log ∧
        ChangeRefusal (eventsOf log) c.join.playerId message := by
  rcases heard_error hheard with hmem | ⟨-, m, p, tx, k, d, ho, m', p', b, ho', hasked, hrefusal⟩
  · exact absurd hmem hcode
  · -- the channel has one player, and so has the address
    have hreg := registry (world_serves h).unrecorded
    obtain rfl := own_player h hc ho
    obtain rfl := hreg.owner ho ho'
    obtain ⟨-, rfl, -⟩ := hreg.once ho ho'
    obtain ⟨htrigger, hreader, -⟩ := own_change h hc hasked
    exact ⟨htrigger, hreader, m, tx, ho, hrefusal⟩

theorem hears_step (hh : c.Hears log a) {act : ClientAction} {c' : Client} {stats' : Stats}
    {sent : List UdpPacket} (hact : ∀ packet, act = .recv packet → (a, packet) ∈ w.toClients)
    (hs : ClientStep text c w.stats act c' stats' sent) : c'.Hears log a := by
  have hreach := world_serves h
  have hsteady := (voices h).steady hc
  -- what is read from a packet was told
  have hheard : ∀ {packet : UdpPacket} {msg : ServerReliable}, act = .recv packet →
      parseReliable packet = some msg → HeardFrom log a msg := by
    intro packet msg hrecv hm
    exact parse_carried hreach ((voices h).carried (hact packet hrecv)) hm
  have htick : ∀ {ticks seq : Nat} {e : ClientError}, nextTick ticks seq = .failed e → e.Fair := by
    intro ticks seq e he
    rcases nextTick_ticks ticks seq with hn | hn <;> rw [hn] at he <;> cases he
  cases hs with
  | sent hp =>
    refine ⟨hh.queued, hh.handing, ?_⟩
    intro e he
    change c.sent = .failed e at he
    rcases packet_task hp with ⟨-, hsent, -⟩ | ⟨seq, -, hsent, -⟩ | ⟨seq, -, hsent, -⟩
    · rw [hsent] at he
      cases he
    · rcases hsent with hsent | hsent
      · rw [hsent] at he
        cases he
      · exact htick (hsent ▸ he)
    · rw [hsent] at he
      cases he
  | joined _ _ =>
    refine ⟨hh.queued, nofun, ?_⟩
    intro e he
    change (if c.triggerParamUpdate = true then _ else _) = ClientTask.failed e at he
    split at he
    · cases he
    · exact htick he
  | @joinedOther packet m p params ms _ hm hne =>
    -- whoever was registered from this address is the player of its client
    obtain ⟨-, tx, ho⟩ := heard_joinOk (hheard rfl hm)
    exact absurd (own_player h hc ho) hne
  | @refused packet code message ht hm =>
    refine ⟨hh.queued, hh.handing, ?_⟩
    intro e he
    cases he
    -- what else is refused is a change, which needs a reader
    by_contra hcode
    exact (refused_own h hc (hheard rfl hm) hcode).2.1 (hsteady.waiting (.inr ht))
  | read _ _ hm =>
    refine ⟨hh.queued, ?_, hh.failed⟩
    intro msg hmsg
    cases hmsg
    exact hheard rfl hm
  | handed hr =>
    refine ⟨?_, nofun, hh.failed⟩
    intro msg hmsg
    rcases List.mem_append.mp hmsg with hmsg | hmsg
    · exact hh.queued msg hmsg
    · rw [List.mem_singleton.mp hmsg]
      exact hh.handing _ hr
  | drained hd =>
    refine ⟨hh.queued, hh.handing, ?_⟩
    intro e he
    rcases drained_task hd with ⟨seq, -, rfl⟩ | ⟨-, rfl⟩
    · exact htick he
    · cases he
  | took _ hq =>
    refine ⟨?_, hh.handing, hh.failed⟩
    intro msg hmsg
    exact hh.queued msg (hq ▸ List.mem_cons_of_mem _ hmsg)
  | sendFailed _ | recvFailed _ =>
    refine ⟨hh.queued, hh.handing, ?_⟩
    intro e he
    cases he
    trivial
  | readerEnded _ | handOverFailed _ => exact ⟨hh.queued, nofun, hh.failed⟩
  | woke _ => exact ⟨hh.queued, hh.handing, nofun⟩
  | counted _ _ _ _ | ignored _ => exact hh

theorem sound_counted {st : ClientStats} (hsound : st.Sound w log c.join.playerId)
    {packet : UdpPacket} (hp : Carried text log a packet) {out : ServerDatagram}
    (hd : parseDatagram packet = some out) :
    (st.countDatagram (playerOf out)).Sound w log c.join.playerId := by
  obtain ⟨m, p, b, tx, tx', ho, ho', hne, sent, he, hout⟩ := parse_relayed (world_serves h) hp hd
  obtain rfl := own_player h hc ho
  refine { hsound with distinct := hsound.distinct.insert, others := ?_, counted := ⟨?_, ?_⟩ }
  · intro q hq
    rcases List.mem_insert_iff.mp hq with rfl | hq
    · exact ⟨hne, m, a, tx, b, tx', sent, ho, ho', he, hout⟩
    · exact hsound.others q hq
  · refine Nat.le_trans ?_ (Nat.succ_le_succ hsound.counted.1)
    by_cases hmem : playerOf out ∈ st.datagramFromPlayers
    · exact (List.length_insert_of_mem hmem).trans_le (Nat.le_succ _)
    · exact (List.length_insert_of_not_mem hmem).le
  · intro hnil
    exact absurd hnil (List.ne_nil_of_mem List.mem_insert_self)

theorem sound_applied {st : ClientStats} (hsound : st.Sound w log c.join.playerId) {p : String}
    {seq next ms : Nat} {params : PlayerParams}
    (hheard : HeardFrom log a (.paramApplied p seq params next ms)) :
    (st.countApplied (p == c.join.playerId) params next).Sound w log c.join.playerId := by
  refine { hsound with applied := fun _ => ?_, observed := ?_ }
  · obtain ⟨-, m, k, d, now, mu, he, -⟩ := heard_applied hheard
    exact ⟨m, p, k, d, now, mu, he⟩
  by_cases hown : p = c.join.playerId
  · subst hown
    obtain ⟨⟨m, q, tx, ho⟩, m', k, d, now, mu, he, rfl, rfl⟩ := heard_applied hheard
    obtain rfl := own_player h hc ho
    obtain ⟨-, hraised, hnext, hchange⟩ := own_history h hc ho (updatesOf_mem he)
    have hcount : st.countApplied (c.join.playerId == c.join.playerId) mu.params
        (low64 mu.nextParamChangeAtUnix) =
        { st with
          paramAppliedCount := st.paramAppliedCount + 1
          observedParamState := some mu.params
          nextParamChangeAtUnix := some (low64 mu.nextParamChangeAtUnix) } := by
      simp [ClientStats.countApplied]
    rw [hcount]
    intro params hparams
    cases hparams
    exact ⟨hraised, now, hchange, congrArg (fun n => some (low64 n)) hnext⟩
  · have hcount : (p == c.join.playerId) = false := by simpa using hown
    rw [hcount]
    exact hsound.observed

theorem sound_cooled {st : ClientStats} (hsound : st.Sound w log c.join.playerId)
    {message : String} (hheard : HeardFrom log a (.error "param_update_failed" message))
    (hmessage : startsWith message "cooldown_active:" = true) :
    ClientStats.Sound w log c.join.playerId { st with cooldownErrorSeen := true } := by
  refine { hsound with cooldown := fun _ => ?_ }
  obtain ⟨-, -, m, tx, ho, hrefusal⟩ := refused_own h hc hheard (by simp [joinErrors])
  obtain ⟨u, hu⟩ := changed_of_cooling hrefusal hmessage
  exact ⟨u.nowUnix, (own_history h hc ho hu).2.2.2⟩

theorem sound_step (hi : Hearing w log) {act : ClientAction} {c' : Client} {stats' : Stats}
    {sent : List UdpPacket} (hact : ∀ packet, act = .recv packet → (a, packet) ∈ w.toClients)
    (hs : ClientStep text c w.stats act c' stats' sent) {p : String} {st' : ClientStats}
    (hst : stats'.get p = some st') : st'.Sound w log p := by
  have hhears := hi.hears hc
  have hcarried : ∀ {packet : UdpPacket}, act = .recv packet → Carried text log a packet :=
    fun hrecv => (voices h).carried (hact _ hrecv)
  -- an update of the entry of the client
  have hupdate : ∀ {f : ClientStats → ClientStats},
      (f ((w.stats.get c.join.playerId).getD .default)).Sound w log c.join.playerId →
      (w.stats.update c.join.playerId f).get p = some st' → st'.Sound w log p := by
    intro f hf hget
    rcases HashMap.get_insert_cases hget with ⟨rfl, rfl⟩ | ⟨-, hold⟩
    · exact hf
    · exact hi.sound hold
  have hentry : c.reader ≠ .off → ∃ st, w.stats.get c.join.playerId = some st ∧
      st.Sound w log c.join.playerId := by
    intro hreader
    obtain ⟨st, hst⟩ := hi.entered hc hreader
    exact ⟨st, hst, hi.sound hst⟩
  cases hs with
  | joined _ hm =>
    exact hupdate (sound_joined hi hc (parse_carried (world_serves h) (hcarried rfl) hm)) hst
  | counted _ hr _ hd =>
    obtain ⟨st, hget, hsound⟩ := hentry (by simp [hr])
    refine hupdate ?_ hst
    rw [hget]
    exact sound_counted h hc hsound (hcarried rfl) hd
  | @took next msg queue hd hq =>
    obtain ⟨st, hget, hsound⟩ := hentry (((voices h).steady hc).drains hd)
    have hheard : HeardFrom log a msg := hhears.queued msg (hq ▸ List.mem_cons_self)
    cases msg with
    | joinOk _ _ _ _ | matchStarted _ _ _ => exact hi.sound hst
    | paramApplied q seq params next ms =>
      refine hupdate ?_ hst
      rw [hget]
      exact sound_applied h hc hsound hheard
    | error code message =>
      simp only [Client.hear] at hst
      split at hst
      · next hcool =>
        simp only [Bool.and_eq_true, beq_iff_eq] at hcool
        obtain ⟨⟨-, rfl⟩, hmessage⟩ := hcool
        refine hupdate ?_ hst
        rw [hget]
        exact sound_cooled h hc hsound hheard hmessage
      · exact hi.sound hst
  | _ => exact hi.sound hst

end Moves

/-! ### Runs -/

/-- An entry stays. -/
theorem entry_kept {text : F32 → Number} {c c' : Client} {stats stats' : Stats} {a : ClientAction}
    {sent : List UdpPacket} (h : ClientStep text c stats a c' stats' sent) {p : String}
    (hst : ∃ st, stats.get p = some st) : ∃ st, stats'.get p = some st := by
  cases h with
  | joined _ _ | counted _ _ _ _ => exact HashMap.exists_get_insert hst _ _
  | @took next msg queue _ _ =>
    cases msg with
    | joinOk _ _ _ _ | matchStarted _ _ _ => exact hst
    | paramApplied _ _ _ _ _ => exact HashMap.exists_get_insert hst _ _
    | error code message =>
      simp only [Client.hear]
      split
      · exact HashMap.exists_get_insert hst _ _
      · exact hst
  | _ => exact hst

/-- The reader is spawned once there is an entry. -/
theorem entry_spawned {text : F32 → Number} {c c' : Client} {stats stats' : Stats}
    {a : ClientAction} {sent : List UdpPacket} (h : ClientStep text c stats a c' stats' sent)
    (hst : c.reader ≠ .off → ∃ st, stats.get c.join.playerId = some st)
    (hreader : c'.reader ≠ .off) : ∃ st, stats'.get c'.join.playerId = some st := by
  rw [(client_follows h).join]
  cases h with
  | joined _ _ => exact ⟨_, HashMap.get_insert_self _ _ _⟩
  | read _ hr _ | handed hr | readerEnded hr | handOverFailed hr => exact hst (by simp [hr])
  | counted ht hr hm hd =>
    exact entry_kept (@ClientStep.counted text _ _ _ _ ht hr hm hd) (hst hreader)
  | took hd hq => exact entry_kept (@ClientStep.took text _ _ _ _ _ hd hq) (hst hreader)
  | _ => exact hst hreader

theorem hears_new (log : Log) (a : SocketAddr) (join : JoinMatchRes) (trigger : Bool)
    (ticks : Nat) : (Client.new join trigger ticks).Hears log a := ⟨nofun, nofun, nofun⟩

theorem hearing_step {text : F32 → Number} {w w' : World} {log log' : Log}
    (h : (world text).Reach Machine.anyStep w log) (hi : Hearing w log)
    (hs : WorldStep text w w' log') : Hearing w' (log ++ log') := by
  have hfollows : w.Follows w' := world_follows hs
  cases hs with
  | server _ _ | arrived _ _ | stranger _ _ =>
    exact ⟨fun hc => (hi.hears hc).mono _, hi.entered, fun hst => (hi.sound hst).mono hfollows _⟩
  | started _ _ _ =>
    refine ⟨?_, ?_, fun hst => (hi.sound hst).mono hfollows _⟩
    · intro a c hc
      rcases HashMap.get_insert_cases hc with ⟨-, rfl⟩ | ⟨-, hc⟩
      · exact hears_new _ _ _ _ _
      · exact (hi.hears hc).mono _
    · intro a c hc hreader
      rcases HashMap.get_insert_cases hc with ⟨-, rfl⟩ | ⟨-, hc⟩
      · exact absurd rfl hreader
      · exact hi.entered hc hreader
  | client hc₀ hact hstep =>
    refine ⟨?_, ?_, ?_⟩
    · intro a c hc
      rcases HashMap.get_insert_cases hc with ⟨rfl, rfl⟩ | ⟨-, hc⟩
      · exact (hears_step h hc₀ (hi.hears hc₀) hact hstep).mono _
      · exact (hi.hears hc).mono _
    · intro a c hc hreader
      rcases HashMap.get_insert_cases hc with ⟨rfl, rfl⟩ | ⟨-, hc⟩
      · exact entry_spawned hstep (hi.entered hc₀) hreader
      · exact entry_kept hstep (hi.entered hc hreader)
    · intro p st hst
      exact (sound_step h hc₀ hi hact hstep hst).mono hfollows _

theorem hearing {text : F32 → Number} {w : World} {log : Log}
    (h : (world text).Reach Machine.anyStep w log) : Hearing w log := by
  refine Machine.Reach.induct (P := Hearing) ?_ ?_ h
  · intro w hinit
    obtain ⟨url, rfl⟩ := hinit
    exact ⟨nofun, nofun, nofun⟩
  · intro w log a w' log' hreach hi _ hs
    exact hearing_step hreach hi (stepWorld_spec hs)

end Kotatsu.TestClient
