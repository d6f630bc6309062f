import Kotatsu.Authority
import Kotatsu.PacketSize
import Kotatsu.Refinement

/-
  What the server tells a client

  The packets that go to an address are the answers to its joins, the messages in the
  channel of its session, and the datagrams of its room. Over any log, a `JoinOk` carries
  the default parameters of a player that has registered from the address, a message in a
  channel is news of a room or the refusal of a change that its own player has asked for
  (`told`), and a relayed position is never that of the player it goes to (`relayed`).
-/

namespace Kotatsu

open Machine (eventsOf)

/-! ## Changes -/

theorem mem_eventsOf_append {log : Log} {e : Event} (h : e ∈ eventsOf log) (log' : Log) :
    e ∈ eventsOf (log ++ log') := by
  rw [Machine.eventsOf_append]
  exact List.mem_append_left _ h

/-- This change was asked for in a packet from `a`. -/
def Asked (log : Log) (a : SocketAddr) (k : ParamKind) (d : ParamDirection) : Prop :=
  ∃ x ∈ log, ∃ tid seq, x.action = .recv tid a (.reliable (.paramChange seq k d))

theorem Asked.mono {log : Log} {a : SocketAddr} {k : ParamKind} {d : ParamDirection}
    (h : Asked log a k d) (log' : Log) : Asked (log ++ log') a k d := by
  obtain ⟨x, hx, h⟩ := h
  exact ⟨x, List.mem_append_left _ hx, h⟩

/-- The packet of a task is one that was received under its id. -/
theorem received_packet {β : Type} {f : Packet → Option β} {log : Log} {tid : Nat}
    {a : SocketAddr} {v : β} (h : packetOf f log tid = some (a, v)) :
    ∃ x ∈ log, ∃ packet, x.action = .recv tid a packet ∧ f packet = some v := by
  obtain ⟨x, hmem, hx⟩ := History.mem_of_last h
  refine ⟨x, hmem, ?_⟩
  unfold receivedAs at hx
  split at hx
  · next tid' addr packet hact =>
    split at hx
    · next htid =>
      obtain ⟨v', hv', heq⟩ := Option.map_eq_some_iff.mp hx
      obtain ⟨rfl, rfl⟩ := Prod.mk.inj heq
      exact ⟨packet, htid ▸ hact, hv'⟩
    · cases hx
  · cases hx

theorem change_eq_some {packet : Packet} {seq : Nat} {k : ParamKind} {d : ParamDirection}
    (h : packet.change = some (seq, k, d)) : packet = .reliable (.paramChange seq k d) := by
  unfold Packet.change at h
  split at h <;> cases h
  rfl

theorem datagram_eq_some {packet : Packet} {msg : ClientDatagram}
    (h : packet.datagram = some msg) : packet = .unreliable msg := by
  unfold Packet.datagram at h
  split at h <;> cases h
  rfl

theorem asked_of_packet {log : Log} {tid : Nat} {a : SocketAddr} {seq : Nat} {k : ParamKind}
    {d : ParamDirection} (h : packetOf Packet.change log tid = some (a, seq, k, d)) :
    Asked log a k d := by
  obtain ⟨x, hx, packet, hact, hchange⟩ := received_packet h
  exact ⟨x, hx, tid, seq, change_eq_some hchange ▸ hact⟩

/-- A change under way was asked for from the address that its player registered. -/
theorem updating_asked {s : Sys} {log : Log} (h : server.recorded.Reach Machine.anyStep s log)
    {tid : Nat} {m p : String} {tx : ChanId} {seq : Nat} {k : ParamKind} {d : ParamDirection}
    (ht : s.params.get tid = some (.update m p tx seq k d)) :
    ∃ a, Event.registered m p a tx ∈ eventsOf log ∧ Asked log a k d := by
  obtain ⟨a, ho⟩ := (registrants h.unrecorded).updating ht
  obtain ⟨a', hpacket, hjoined⟩ := (backed h).updating ht
  obtain ⟨rfl, -⟩ := joined_once h hjoined ((provenance h).registered ho)
  exact ⟨a', ho, asked_of_packet hpacket⟩

/-- A change that was made was asked for from the address that its player registered. -/
theorem updated_asked {s : Sys} {log : Log} (h : server.recorded.Reach Machine.anyStep s log)
    {m p : String} {k : ParamKind} {d : ParamDirection} {now : Nat} {mu : ParamMutation}
    (he : Event.paramUpdated m p k d now mu ∈ eventsOf log) :
    ∃ a tx, Event.registered m p a tx ∈ eventsOf log ∧ Asked log a k d := by
  refine Machine.Reach.log_induct (P := fun _ log => ∀ m p k d now mu,
    Event.paramUpdated m p k d now mu ∈ eventsOf log →
    ∃ a tx, Event.registered m p a tx ∈ eventsOf log ∧ Asked log a k d) ?_ ?_ h m p k d now mu he
  · intro s _ m p k d now mu he
    cases he
  · intro s log a s' evs hreach ih _ hs m p k d now mu he
    have hmono : ∀ {b tx}, Event.registered m p b tx ∈ eventsOf log → Asked log b k d →
        ∃ b tx, Event.registered m p b tx ∈ eventsOf (log ++ [⟨s, a, evs, s'⟩]) ∧
          Asked (log ++ [⟨s, a, evs, s'⟩]) b k d :=
      fun ho hasked => ⟨_, _, mem_eventsOf_append ho _, hasked.mono _⟩
    rw [Machine.eventsOf_append, Machine.eventsOf_singleton] at he
    rcases List.mem_append.mp he with hold | he
    · obtain ⟨b, tx, ho, hasked⟩ := ih m p k d now mu hold
      exact hmono ho hasked
    · obtain ⟨⟨tid, ch, tx, seq, -, ht⟩, -, -⟩ := updated_elsewhere (step_spec hs) he
      obtain ⟨b, ho, hasked⟩ := updating_asked hreach ht
      exact hmono ho hasked

/-- What a change of `p` is refused with. A cooldown is that of an earlier change of `p`. -/
inductive ChangeRefusal (tr : List Event) (p : String) : String → Prop
  | noRoom : ChangeRefusal tr p "match_not_found"
  | noPlayer : ChangeRefusal tr p "player_not_found"
  | outOfRange : ChangeRefusal tr p ParamUpdateError.outOfRange.toText
  | cooling {u : ParamUpdate} (hu : u ∈ updatesOf tr p) :
      ChangeRefusal tr p
        (ParamUpdateError.cooldownActive u.updated.nextParamChangeAtUnix).toText

theorem ChangeRefusal.mono {tr : List Event} {p e : String} (h : ChangeRefusal tr p e)
    (evs : List Event) : ChangeRefusal (tr ++ evs) p e := by
  cases h with
  | noRoom => exact .noRoom
  | noPlayer => exact .noPlayer
  | outOfRange => exact .outOfRange
  | cooling hu =>
    apply ChangeRefusal.cooling
    rw [updatesOf_append]
    exact List.mem_append_left _ hu

/-- Nothing cools down before a first change. -/
theorem cooldown_changed {s : Sys} {tr : List Event} (hlogged : ParamsLogged s tr) {m p : String}
    {seat : PlayerHandle} (hs : s.core.seat m p = some seat) {k : ParamKind} {d : ParamDirection}
    {now : Nat} {e : ParamUpdateError}
    (he : applyParamChange seat.params seat.nextParamChangeAtUnix k d now = .error e) :
    ChangeRefusal tr p e.toText := by
  unfold applyParamChange at he
  split at he
  · next hcool =>
    cases he
    have hnext := (hlogged.seat hs).2
    cases hlast : (updatesOf tr p).getLast? with
    | none =>
      -- no clock reads less than 0
      have hzero : seat.nextParamChangeAtUnix = 0 := by
        rw [hnext, nextAfter, hlast]
        rfl
      omega
    | some u =>
      have hu : u.updated.nextParamChangeAtUnix = seat.nextParamChangeAtUnix := by
        rw [hnext, nextAfter, hlast]
        rfl
      rw [← hu]
      exact .cooling (List.mem_of_getLast? hlast)
  · dsimp only at he
    split at he
    · cases he
    · cases he
      exact .outOfRange

theorem updatePlayerParams_refusal {s : Sys} {tr : List Event} (hlogged : ParamsLogged s tr)
    {core : CoreState} {m p : String} {k : ParamKind} {d : ParamDirection} {now now' : Nat}
    {e : String} (h : updatePlayerParams s.core m p k d now now' = (core, .error e)) :
    ChangeRefusal tr p e := by
  unfold updatePlayerParams at h
  split at h
  · cases h
    exact .noRoom
  · next room hr =>
    split at h
    · cases h
      exact .noPlayer
    · next player hp =>
      split at h
      · next pe he =>
        cases h
        exact cooldown_changed hlogged ((seat_of_room hr p).trans hp) he
      · cases h

/-- A task that is refused tells its own session, and nobody else. -/
theorem refused_section {s s' : Sys} {tr : List Event} (hlogged : ParamsLogged s tr) {tid : Nat}
    {ch : Choice} {evs : List Event} (hs : server.step s (.param tid ch) = some (s', evs))
    {cid : Nat} {c : Cast} (hf : s.casts.get cid = none) (hc : s'.casts.get cid = some c)
    {code e : String} (hmsg : c.msg = .error code e) :
    ∃ m p tx seq k d, s.params.get tid = some (.update m p tx seq k d) ∧
      c = .sending [tx] (.error "param_update_failed" e) ∧ ChangeRefusal tr p e := by
  change stepParam s tid ch = some (s', evs) at hs
  unfold stepParam at hs
  split at hs
  · cases hs
  · -- the lookup broadcasts nothing
    split at hs
    · cases hs
    · split at hs <;> cases hs <;> simp [hf] at hc
  · next m p tx seq k d ht =>
    split at hs
    · cases hs
    · split at hs
      · next core e' hu =>
        cases hs
        rcases HashMap.get_insert_cases hc with ⟨-, rfl⟩ | ⟨-, hold⟩
        · obtain ⟨rfl, rfl⟩ := ServerReliable.error.inj hmsg
          exact ⟨m, p, tx, seq, k, d, ht, rfl, updatePlayerParams_refusal hlogged hu⟩
        · rw [hf] at hold
          cases hold
      · cases hs
        rcases HashMap.get_insert_cases hc with ⟨-, rfl⟩ | ⟨-, hold⟩
        · cases hmsg
        · rw [hf] at hold
          cases hold

/-! ## What goes into a channel -/

/-- What is announced to a room. -/
inductive News (log : Log) : ServerReliable → Prop
  | started {m : String} {t ms : Nat} {players : List PlayerMatchState} :
      News log (.matchStarted m t players ms)
  | applied {m p : String} {k : ParamKind} {d : ParamDirection} {now seq ms : Nat}
      {mu : ParamMutation} {a : SocketAddr} {tx : ChanId}
      (he : Event.paramUpdated m p k d now mu ∈ eventsOf log)
      (ho : Event.registered m p a tx ∈ eventsOf log) (hasked : Asked log a k d) :
      News log (.paramApplied p seq mu.params mu.nextParamChangeAtUnix ms)

/-- What goes into the channel `tx`. -/
inductive Mail (log : Log) (tx : ChanId) : ServerReliable → Prop
  | news {msg : ServerReliable} (h : News log msg) : Mail log tx msg
  | refused {m p e : String} {a : SocketAddr} {k : ParamKind} {d : ParamDirection}
      (ho : Event.registered m p a tx ∈ eventsOf log) (hasked : Asked log a k d)
      (h : ChangeRefusal (eventsOf log) p e) : Mail log tx (.error "param_update_failed" e)

theorem News.mono {log : Log} {msg : ServerReliable} (h : News log msg) (log' : Log) :
    News (log ++ log') msg := by
  cases h with
  | started => exact .started
  | applied he ho hasked =>
    exact .applied (mem_eventsOf_append he log') (mem_eventsOf_append ho log') (hasked.mono log')

theorem Mail.mono {log : Log} {tx : ChanId} {msg : ServerReliable} (h : Mail log tx msg)
    (log' : Log) : Mail (log ++ log') tx msg := by
  cases h with
  | news h => exact .news (h.mono log')
  | refused ho hasked h =>
    refine .refused (mem_eventsOf_append ho log') (hasked.mono log') ?_
    rw [Machine.eventsOf_append]
    exact h.mono _

/-- What a broadcast still has to tell. -/
def Cast.Mailed (log : Log) : Cast → Prop
  | .collect _ msg => News log msg
  | .sending txs msg => ∀ tx ∈ txs, Mail log tx msg

theorem Cast.Mailed.mono {log : Log} {c : Cast} (h : c.Mailed log) (log' : Log) :
    c.Mailed (log ++ log') := by
  cases c with
  | collect m msg => exact News.mono h log'
  | sending txs msg => exact fun tx htx => (h tx htx).mono log'

theorem mailed_step {s s' : Sys} {log : Log} {a : Action} {evs : List Event}
    (hreach : server.recorded.Reach Machine.anyStep s log)
    (hi : ∀ cid c, s.casts.get cid = some c → c.Mailed log)
    (hs : server.step s a = some (s', evs)) {cid : Nat} {c : Cast}
    (hc : s'.casts.get cid = some c) : c.Mailed (log ++ [⟨s, a, evs, s'⟩]) := by
  have hstep : Step s a s' evs := step_spec hs
  cases casts_step hstep with
  | quiet heq _ =>
    rw [heq] at hc
    exact (hi cid c hc).mono _
  | @refused tid cid₀ now ch tx m₀ p₀ e k₀ d₀ hf heq _ =>
    have hget := heq ▸ HashMap.get_insert_self s.casts cid₀ (.sending [tx] (.error _ e))
    obtain ⟨m, p, tx', seq, k, d, ht, hcast, hrefusal⟩ :=
      refused_section (params_logged hreach.unrecorded) hs hf hget rfl
    obtain ⟨b, ho, hasked⟩ := updating_asked hreach ht
    rw [heq] at hc
    rcases HashMap.get_insert_cases hc with ⟨-, rfl⟩ | ⟨-, hc⟩
    · intro tx₁ htx
      obtain rfl := List.mem_singleton.mp htx
      obtain rfl : tx₁ = tx' := by simpa using hcast
      exact (Mail.refused ho hasked hrefusal).mono _
    · exact (hi cid c hc).mono _
  | @updated tid cid₀ seq ms now ch m p k d mu _ heq =>
    obtain ⟨⟨tid', ch', tx, seq', ha, ht⟩, -, -⟩ :=
      updated_elsewhere hstep (List.mem_singleton_self _)
    obtain ⟨b, ho, hasked⟩ := updating_asked hreach ht
    rw [heq] at hc
    rcases HashMap.get_insert_cases hc with ⟨-, rfl⟩ | ⟨-, hc⟩
    · have he : Event.paramUpdated m p k d now mu ∈
          eventsOf (log ++ [⟨s, .param tid ch, [.paramUpdated m p k d now mu], s'⟩]) := by
        rw [Machine.eventsOf_append]
        exact List.mem_append_right _ (List.mem_singleton_self _)
      exact .applied he (mem_eventsOf_append ho _) (hasked.mono _)
    · exact (hi cid c hc).mono _
  | started _ _ _ heq =>
    rw [heq] at hc
    rcases HashMap.get_insert_cases hc with ⟨-, rfl⟩ | ⟨-, hc⟩
    · exact .started
    · exact (hi cid c hc).mono _
  | @cast cid₀ ch evs hcast =>
    cases hcast with
    | noRoom _ _ | done _ => exact (hi cid c (HashMap.get_remove_eq_some.mp hc).2).mono _
    | collected ht _ _ =>
      rcases HashMap.get_insert_cases hc with ⟨-, rfl⟩ | ⟨-, hc⟩
      · exact fun tx _ => .news (News.mono (hi cid₀ _ ht) _)
      · exact (hi cid c hc).mono _
    | sent ht _ _ _ | lost ht _ _ =>
      rcases HashMap.get_insert_cases hc with ⟨-, rfl⟩ | ⟨-, hc⟩
      · exact fun tx htx => (hi cid₀ _ ht tx (List.mem_cons_of_mem _ htx)).mono _
      · exact (hi cid c hc).mono _

structure Mailing (s : Sys) (log : Log) : Prop where
  cast : ∀ cid c, s.casts.get cid = some c → c.Mailed log
  enqueued : ∀ tx msg, Event.enqueued tx msg ∈ eventsOf log → Mail log tx msg

theorem mailing {s : Sys} {log : Log} (h : server.recorded.Reach Machine.anyStep s log) :
    Mailing s log := by
  refine Machine.Reach.log_induct (P := Mailing) ?_ ?_ h
  · intro s hinit
    obtain ⟨url, rfl⟩ := hinit
    exact ⟨nofun, nofun⟩
  · intro s log a s' evs hreach hi _ hs
    refine ⟨?_, ?_⟩
    · intro cid c hc
      exact mailed_step hreach hi.cast hs hc
    · intro tx msg hm
      rw [Machine.eventsOf_append, Machine.eventsOf_singleton] at hm
      rcases List.mem_append.mp hm with ho | he
      · exact (hi.enqueued tx msg ho).mono _
      · obtain ⟨cid, txs, hc⟩ := enqueued_by (step_spec hs) he
        exact (hi.cast cid _ hc tx List.mem_cons_self).mono _

/-! ## What is sent to an address -/

/-- A player that registers has no seat to take parameters over from. -/
theorem inserting_from {s s' : Sys} {tr : List Event} (hreg : Registry s tr)
    (hents : Registrants s tr) {a : Action} {evs : List Event} (h : Step s a s' evs) {tid : Nat}
    {b : SocketAddr} {m p : String} {params : PlayerParams} {tx : ChanId}
    (ht' : s'.joins.get tid = some (.insert b m p params tx)) :
    s.joins.get tid = some (.insert b m p params tx) ∨ params = .default := by
  rcases step_frame h with ⟨tid₀, ch, rfl, hj⟩ | hf
  · cases hj with
    | registered _ hr _ =>
      rcases HashMap.get_insert_cases ht' with ⟨rfl, hnew⟩ | ⟨-, hold⟩
      · cases hnew
        have hnone := registering_unseated hreg hents h (List.mem_singleton_self _) hr
        right
        rw [hnone]
        rfl
      · exact .inl hold
    | alreadyJoined _ _ | okSent _ | rollbackNone _ _ | removed _ _ | removedNoRoom _ _
    | errorSent _ _ => exact .inl (HashMap.get_remove_eq_some.mp ht').2
    | _ =>
      rcases HashMap.get_insert_cases ht' with ⟨-, hnew⟩ | ⟨-, hold⟩
      · cases hnew
      · exact .inl hold
  · rcases hf.adds _ _ ht' with hold | ⟨_, _, hnew, -⟩
    · exact .inl hold
    · cases hnew

/-- Every join under way that has registered its player has the defaults for it. -/
structure Defaults (s : Sys) : Prop where
  inserting : ∀ {tid a m p params tx}, s.joins.get tid = some (.insert a m p params tx) →
    params = .default
  accepting : ∀ {tid a m p params}, s.joins.get tid = some (.sendOk a m p params) →
    params = .default

theorem defaults {G : Sys → Action → Prop} {s : Sys} {tr : List Event} (h : server.Reach G s tr) :
    Defaults s := by
  refine Machine.Reach.induct (P := fun s _ => Defaults s) ?_ ?_ h
  · intro s hinit
    obtain ⟨url, rfl⟩ := hinit
    exact ⟨nofun, nofun⟩
  · intro s tr a s' evs hreach hi _ hs
    have hstep : Step s a s' evs := step_spec hs
    refine ⟨?_, ?_⟩
    · intro tid b m p params tx ht'
      rcases inserting_from (registry hreach) (registrants hreach) hstep ht' with ht | hdefault
      · exact hi.inserting ht
      · exact hdefault
    · intro tid b m p params ht'
      cases task_from hstep ht' with
      | kept ht => exact hi.accepting ht
      | inserted ht => exact hi.inserting ht

/-- What an address is told. -/
inductive Told (log : Log) (b : SocketAddr) : ServerReliable → Prop
  | joined {m p : String} {tx : ChanId} {ms : Nat}
      (ho : Event.registered m p b tx ∈ eventsOf log) : Told log b (.joinOk m p .default ms)
  | refused {code message : String} (h : (code, message) ∈ joinErrors) :
      Told log b (.error code message)
  | mail {m p : String} {tx : ChanId} {msg : ServerReliable}
      (ho : Event.registered m p b tx ∈ eventsOf log) (h : Mail log tx msg) : Told log b msg

theorem Told.mono {log : Log} {b : SocketAddr} {msg : ServerReliable} (h : Told log b msg)
    (log' : Log) : Told (log ++ log') b msg := by
  cases h with
  | joined ho => exact .joined (mem_eventsOf_append ho log')
  | refused h => exact .refused h
  | mail ho h => exact .mail (mem_eventsOf_append ho log') (h.mono log')

theorem told_step {s s' : Sys} {log : Log} (hreach : server.recorded.Reach Machine.anyStep s log)
    {a : Action} {evs : List Event} (hs : server.step s a = some (s', evs)) {b : SocketAddr}
    {msg : ServerReliable} (he : Event.sentReliable b msg ∈ evs) : Told log b msg := by
  have hrun := hreach.unrecorded
  rcases sends_from (sends_of_sent hs he) with
    ⟨tid, m, p, params, ms, ht, rfl⟩ | ⟨tid, code, message, rx, ht, rfl⟩ | ⟨c, addrs, hd, rfl⟩
  · obtain ⟨tx, ho⟩ := (join_answers hrun).accepting ht
    obtain rfl := (defaults hrun).accepting ht
    exact .joined ho
  · exact .refused ((join_answers hrun).refusing ht)
  · -- what is in hand was put into the channel of the session
    obtain ⟨ho, -, hrx⟩ := (registrants hrun).session (in_hand hrun hd)
    exact .mail ho ((mailing hreach).enqueued c.tx msg (hrx ▸ hand_enqueued hrun hd))

/-- Over any log, every reliable packet tells its address what it may be told. -/
theorem told {s : Sys} {log : Log} (h : server.recorded.Reach Machine.anyStep s log)
    {b : SocketAddr} {msg : ServerReliable} (he : Event.sentReliable b msg ∈ eventsOf log) :
    Told log b msg := by
  refine Machine.Reach.log_induct (P := fun _ log => ∀ b msg,
    Event.sentReliable b msg ∈ eventsOf log → Told log b msg) ?_ ?_ h b msg he
  · intro s _ b msg he
    cases he
  · intro s log a s' evs hreach ih _ hs b msg he
    rw [Machine.eventsOf_append, Machine.eventsOf_singleton] at he
    rcases List.mem_append.mp he with ho | he
    · exact (ih b msg ho).mono _
    · exact (told_step hreach hs he).mono _

/-! ## What is relayed to an address -/

/-- This datagram was received from `a`. -/
def Heard (log : Log) (a : SocketAddr) (msg : ClientDatagram) : Prop :=
  ∃ x ∈ log, ∃ tid, x.action = .recv tid a (.unreliable msg)

/-- What is relayed to an address: a datagram of a player of its room, and a position of
another one. -/
inductive RelayedTo (log : Log) (b : SocketAddr) : ServerDatagram → Prop
  | intro {m p q : String} {a : SocketAddr} {tx tx' : ChanId} {msg : ClientDatagram} {ms : Nat}
      (ho : Event.registered m p a tx ∈ eventsOf log) (hheard : Heard log a msg)
      (hb : Event.registered m q b tx' ∈ eventsOf log)
      (hself : q = p → ∃ i, msg = .stageProgress i) : RelayedTo log b (relayOut p ms msg)

theorem Heard.mono {log : Log} {a : SocketAddr} {msg : ClientDatagram} (h : Heard log a msg)
    (log' : Log) : Heard (log ++ log') a msg := by
  obtain ⟨x, hx, h⟩ := h
  exact ⟨x, List.mem_append_left _ hx, h⟩

theorem RelayedTo.mono {log : Log} {b : SocketAddr} {out : ServerDatagram} (h : RelayedTo log b out)
    (log' : Log) : RelayedTo (log ++ log') b out := by
  cases h with
  | intro ho hheard hb hself =>
    exact .intro (mem_eventsOf_append ho log') (hheard.mono log') (mem_eventsOf_append hb log')
      hself

/-- The recipient of a relay is seated in the room; that of a position is not the sender. -/
theorem relayed_player {s : Sys} {tr : List Event} (hents : Registrants s tr) {m p : String}
    {msg : ClientDatagram} {ms : Nat} {addrs : List SocketAddr}
    (hr : relayAddrs s.core m p (relayOut p ms msg) = some addrs) {b : SocketAddr}
    (hb : b ∈ addrs) : ∃ q tx, Event.registered m q b tx ∈ tr ∧
      (q = p → ∃ i, msg = .stageProgress i) := by
  have key : ∀ {skip : String → Bool},
      (s.core.rooms.get m).map (connectedAddrs · skip) = some addrs →
      ∃ q tx, Event.registered m q b tx ∈ tr ∧ skip q = false := by
    intro skip hmap
    obtain ⟨room, hroom, rfl⟩ := Option.map_eq_some_iff.mp hmap
    obtain ⟨⟨q, seat⟩, hq, hconn⟩ := List.mem_filterMap.mp hb
    have hs : s.core.seat m q = some seat := (seat_of_room hroom q).trans (HashMap.mem_toList.mp hq)
    obtain ⟨b', ho, hb'⟩ := seat_registered hents hs
    simp only [hb'] at hconn
    split at hconn
    · cases hconn
    · next hskip =>
      obtain rfl := Option.some.inj hconn
      exact ⟨q, seat.reliableTx, ho, by simpa using hskip⟩
  cases msg with
  | pos seq x y vx vy =>
    obtain ⟨q, tx, ho, hskip⟩ := key hr
    refine ⟨q, tx, ho, ?_⟩
    intro heq
    simp [heq] at hskip
  | stageProgress i =>
    obtain ⟨q, tx, ho, -⟩ := key hr
    exact ⟨q, tx, ho, fun _ => ⟨i, rfl⟩⟩

/-- Every relay under way is of a datagram of a registered player. -/
structure Relaying (s : Sys) (log : Log) : Prop where
  collecting : ∀ {tid m p out}, s.relays.get tid = some (.collect m p out) →
    ∃ a tx msg ms, Event.registered m p a tx ∈ eventsOf log ∧ Heard log a msg ∧
      out = relayOut p ms msg
  sending : ∀ {tid addrs out}, s.relays.get tid = some (.sending addrs out) →
    ∀ b ∈ addrs, RelayedTo log b out

theorem relaying {s : Sys} {log : Log} (h : server.recorded.Reach Machine.anyStep s log) :
    Relaying s log := by
  refine Machine.Reach.log_induct (P := Relaying) ?_ ?_ h
  · intro s hinit
    obtain ⟨url, rfl⟩ := hinit
    exact ⟨nofun, nofun⟩
  · intro s log a s' evs hreach hi _ hs
    have hents := registrants hreach.unrecorded
    refine ⟨?_, ?_⟩
    · intro tid m p out ht'
      cases relay_from (step_spec hs) ht' with
      | kept ht =>
        obtain ⟨b, tx, msg, ms, ho, hheard, rfl⟩ := hi.collecting ht
        exact ⟨b, tx, msg, ms, mem_eventsOf_append ho _, hheard.mono _, rfl⟩
      | @lookedUp b msg c ms ht hc =>
        obtain ⟨x, hx, packet, hact, hpacket⟩ := received_packet ((backed hreach).heard ht)
        have hheard : Heard log b msg := ⟨x, hx, tid, datagram_eq_some hpacket ▸ hact⟩
        exact ⟨b, c.tx, msg, ms, mem_eventsOf_append (hents.session hc).1 _, hheard.mono _, rfl⟩
    · intro tid addrs out ht' b hb
      cases relay_from (step_spec hs) ht' with
      | kept ht => exact (hi.sending ht b hb).mono _
      | collected _ ht hr hp =>
        obtain ⟨a₀, tx, msg, ms, ho, hheard, rfl⟩ := hi.collecting ht
        obtain ⟨q, tx', hq, hself⟩ := relayed_player hents hr (hp.mem_iff.mp hb)
        exact (RelayedTo.intro ho hheard hq hself).mono _
      | sent ht => exact (hi.sending ht b (List.mem_cons_of_mem _ hb)).mono _

/-- Over any log, every datagram is relayed from a player of the room of its recipient. -/
theorem relayed {s : Sys} {log : Log} (h : server.recorded.Reach Machine.anyStep s log)
    {b : SocketAddr} {out : ServerDatagram} (he : Event.sentDatagram b out ∈ eventsOf log) :
    RelayedTo log b out := by
  refine Machine.Reach.log_induct (P := fun _ log => ∀ b out,
    Event.sentDatagram b out ∈ eventsOf log → RelayedTo log b out) ?_ ?_ h b out he
  · intro s _ b out he
    cases he
  · intro s log a s' evs hreach ih _ hs b out he
    rw [Machine.eventsOf_append, Machine.eventsOf_singleton] at he
    rcases List.mem_append.mp he with ho | he
    · exact (ih b out ho).mono _
    · obtain ⟨tid, ch, -, hrelay⟩ := step_emitted (w := .relay) (step_spec hs) he rfl
      obtain ⟨addrs, ht⟩ := datagram_sent hrelay he
      exact ((relaying hreach).sending ht b List.mem_cons_self).mono _

end Kotatsu
