import Kotatsu.Lib.History
import Kotatsu.Provenance
import Kotatsu.Casts
import Kotatsu.Sessions

/-
  Who may speak for a player (`handle_udp_packet`)

  A task that a packet starts knows the address it came from; every handler trusts the
  session that it finds under that address. Over the log of a run, a change of a
  player's parameters, a `ParamApplied` in its name and a datagram relayed in its name
  go back to a packet from the address whose join consumed the player's ticket, and stay
  in the ticket's room (`packet_authority`).

  The recipients of a datagram are those that have a seat in the room when they are
  collected. A send comes later, and by then the client at the address may have lost the
  seat and joined another room (`relayed_elsewhere`).
-/

namespace Kotatsu

open Machine (eventsOf)

/-! ## The packet behind a task -/

/-- The parameter change that a packet asks for. -/
def Packet.change : Packet → Option (Nat × ParamKind × ParamDirection)
  | .reliable (.paramChange seq k d) => some (seq, k, d)
  | _ => none

def Packet.datagram : Packet → Option ClientDatagram
  | .unreliable msg => some msg
  | _ => none

section LastPacket
variable {β : Type} (f : Packet → Option β)

/-- What `f` reads from the packet that is received under the id `tid`. -/
def receivedAs (tid : Nat) (x : Moment Sys Action Event) : Option (SocketAddr × β) :=
  match x.action with
  | .recv tid' addr packet => if tid' = tid then (f packet).map (addr, ·) else none
  | _ => none

/-- The packet that the task `tid` was last started for. -/
def packetOf (log : Log) (tid : Nat) : Option (SocketAddr × β) :=
  History.last (receivedAs f tid) log

variable {f}

theorem packetOf_snoc (log : Log) (tid : Nat) (x : Moment Sys Action Event) :
    packetOf f (log ++ [x]) tid = (receivedAs f tid x).or (packetOf f log tid) :=
  History.last_snoc log x

end LastPacket

/-- A received packet starts the task of its kind, under a free id. -/
inductive Received (s : Sys) (tid : Nat) (addr : SocketAddr) : Packet → Sys → Prop
  | ignored : Received s tid addr .malformed s
  | join {token : String} (hf : s.joins.get tid = none) :
      Received s tid addr (.reliable (.join token))
        { s with joins := s.joins.insert tid (.check addr token), seen := token :: s.seen }
  | change {seq : Nat} {k : ParamKind} {d : ParamDirection} (hf : s.params.get tid = none) :
      Received s tid addr (.reliable (.paramChange seq k d))
        { s with params := s.params.insert tid (.lookup addr seq k d) }
  | datagram {msg : ClientDatagram} (hf : s.relays.get tid = none) :
      Received s tid addr (.unreliable msg)
        { s with relays := s.relays.insert tid (.lookup addr msg) }

theorem recv_spec {s s' : Sys} {tid : Nat} {addr : SocketAddr} {packet : Packet}
    {evs : List Event} (h : server.step s (.recv tid addr packet) = some (s', evs)) :
    Received s tid addr packet s' ∧ evs = [] := by
  change stepRecv s tid addr packet = some (s', evs) at h
  cases packet with
  | malformed =>
    cases h
    exact ⟨.ignored, rfl⟩
  | reliable msg =>
    cases msg with
    | join token =>
      simp only [stepRecv] at h
      split at h
      · cases h
      · next hf =>
        cases h
        exact ⟨.join (HashMap.get_eq_none hf), rfl⟩
    | paramChange seq k d =>
      simp only [stepRecv] at h
      split at h
      · cases h
      · next hf =>
        cases h
        exact ⟨.change (HashMap.get_eq_none hf), rfl⟩
  | unreliable msg =>
    simp only [stepRecv] at h
    split at h
    · cases h
    · next hf =>
      cases h
      exact ⟨.datagram (HashMap.get_eq_none hf), rfl⟩

/-- No packet is received under the id of a task that is under way. -/
theorem change_kept {s s' : Sys} {log : Log} {a : Action} {evs : List Event} {tid : Nat}
    {t : ParamTask} (hs : server.step s a = some (s', evs)) (ht : s.params.get tid = some t) :
    packetOf Packet.change (log ++ [⟨s, a, evs, s'⟩]) tid = packetOf Packet.change log tid := by
  apply History.last_snoc_quiet
  cases a with
  | recv tid' addr packet =>
    cases (recv_spec hs).1 with
    | change hf =>
      have hne : tid' ≠ tid := (HashMap.ne_of_get_none hf ht).symm
      exact if_neg hne
    | ignored | join _ | datagram _ => simp [receivedAs, Packet.change]
  | _ => rfl

theorem datagram_quiet {s s' : Sys} {a : Action} {evs : List Event} {tid : Nat}
    {t : RelayTask} (hs : server.step s a = some (s', evs)) (ht : s.relays.get tid = some t) :
    receivedAs Packet.datagram tid ⟨s, a, evs, s'⟩ = none := by
  cases a with
  | recv tid' addr packet =>
    cases (recv_spec hs).1 with
    | datagram hf =>
      have hne : tid' ≠ tid := (HashMap.ne_of_get_none hf ht).symm
      exact if_neg hne
    | ignored | join _ | change _ => simp [receivedAs, Packet.datagram]
  | _ => rfl

theorem datagram_kept {s s' : Sys} {log : Log} {a : Action} {evs : List Event} {tid : Nat}
    {t : RelayTask} (hs : server.step s a = some (s', evs)) (ht : s.relays.get tid = some t) :
    packetOf Packet.datagram (log ++ [⟨s, a, evs, s'⟩]) tid = packetOf Packet.datagram log tid :=
  History.last_snoc_quiet (datagram_quiet hs ht)

/-! ## Where a task comes from -/

/-- How the task `tid` of a parameter change came to be at `t`. -/
inductive ParamFrom (s : Sys) (a : Action) (tid : Nat) : ParamTask → Prop
  | kept {t : ParamTask} (h : s.params.get tid = some t) : ParamFrom s a tid t
  | received {addr : SocketAddr} {seq : Nat} {k : ParamKind} {d : ParamDirection}
      (ha : a = .recv tid addr (.reliable (.paramChange seq k d))) :
      ParamFrom s a tid (.lookup addr seq k d)
  | lookedUp {addr : SocketAddr} {seq : Nat} {k : ParamKind} {d : ParamDirection}
      {c : ClientSession} (h : s.params.get tid = some (.lookup addr seq k d))
      (hc : s.clients.get addr = some c) :
      ParamFrom s a tid (.update c.matchId c.playerId c.tx seq k d)

theorem param_from {s s' : Sys} {a : Action} {evs : List Event} (h : Step s a s' evs) {tid : Nat}
    {t : ParamTask} (ht' : s'.params.get tid = some t) : ParamFrom s a tid t := by
  cases h with
  | param h =>
    cases h with
    | lookedUp ht hc =>
      rcases HashMap.get_insert_cases ht' with ⟨rfl, rfl⟩ | ⟨-, hold⟩
      · exact .lookedUp ht hc
      · exact .kept hold
    | _ => exact .kept (HashMap.get_remove_eq_some.mp ht').2
  | control h =>
    cases h with
    | paramReceived _ =>
      rcases HashMap.get_insert_cases ht' with ⟨rfl, rfl⟩ | ⟨-, hold⟩
      · exact .received rfl
      · exact .kept hold
    | _ => exact .kept ht'
  | join h => cases h <;> exact .kept ht'
  | cast h => cases h <;> exact .kept ht'
  | relay h => rw [(relay_quiet h).1] at ht'; exact .kept ht'
  | drain h => rw [(drain_quiet h).1] at ht'; exact .kept ht'

/-- How the task `tid` of a datagram came to be at `t`. -/
inductive RelayFrom (s : Sys) (a : Action) (tid : Nat) : RelayTask → Prop
  | kept {t : RelayTask} (h : s.relays.get tid = some t) : RelayFrom s a tid t
  | received {addr : SocketAddr} {msg : ClientDatagram}
      (ha : a = .recv tid addr (.unreliable msg)) :
      RelayFrom s a tid (.lookup addr msg)
  | lookedUp {addr : SocketAddr} {msg : ClientDatagram} {c : ClientSession} {nowMs : Nat}
      (h : s.relays.get tid = some (.lookup addr msg)) (hc : s.clients.get addr = some c) :
      RelayFrom s a tid (.collect c.matchId c.playerId (relayOut c.playerId nowMs msg))
  | collected {m p : String} {out : ServerDatagram} {addrs order : List SocketAddr} {ch : Choice}
      (ha : a = .relay tid ch) (h : s.relays.get tid = some (.collect m p out))
      (hr : relayAddrs s.core m p out = some addrs) (hp : order.Perm addrs) :
      RelayFrom s a tid (.sending order out)
  | sent {addr : SocketAddr} {addrs : List SocketAddr} {out : ServerDatagram}
      (h : s.relays.get tid = some (.sending (addr :: addrs) out)) :
      RelayFrom s a tid (.sending addrs out)

theorem relay_from {s s' : Sys} {a : Action} {evs : List Event} (h : Step s a s' evs) {tid : Nat}
    {t : RelayTask} (ht' : s'.relays.get tid = some t) : RelayFrom s a tid t := by
  cases h with
  | relay h =>
    cases h with
    | lookedUp ht hc =>
      rcases HashMap.get_insert_cases ht' with ⟨rfl, rfl⟩ | ⟨-, hold⟩
      · exact .lookedUp ht hc
      · exact .kept hold
    | collected ht hr hp =>
      rcases HashMap.get_insert_cases ht' with ⟨rfl, rfl⟩ | ⟨-, hold⟩
      · exact .collected rfl ht hr hp
      · exact .kept hold
    | sent ht _ =>
      rcases HashMap.get_insert_cases ht' with ⟨rfl, rfl⟩ | ⟨-, hold⟩
      · exact .sent ht
      · exact .kept hold
    | notJoined _ _ | noRoom _ _ | done _ => exact .kept (HashMap.get_remove_eq_some.mp ht').2
  | control h =>
    cases h with
    | datagramReceived _ =>
      rcases HashMap.get_insert_cases ht' with ⟨rfl, rfl⟩ | ⟨-, hold⟩
      · exact .received rfl
      · exact .kept hold
    | _ => exact .kept ht'
  | join h => cases h <;> exact .kept ht'
  | param h => cases h <;> exact .kept ht'
  | cast h => cases h <;> exact .kept ht'
  | drain h => rw [(drain_quiet h).1] at ht'; exact .kept ht'

/-- The `ParamApplied` that a change of `p` is announced with. -/
def ServerReliable.appliedOf (p : String) (seq : Nat) : ServerReliable → Option (PlayerParams × Nat)
  | .paramApplied p' seq' params next _ => if p' = p ∧ seq' = seq then some (params, next) else none
  | _ => none

/-- How a broadcast of a `ParamApplied` came to be at `c`. -/
inductive AppliedFrom (s : Sys) (a : Action) (evs : List Event) (cid : Nat) (p : String) (seq : Nat)
    (params : PlayerParams) (next : Nat) : Cast → Prop
  | kept {c : Cast} (h : s.casts.get cid = some c) : AppliedFrom s a evs cid p seq params next c
  | updated {tid : Nat} {ch : Choice} {m : String} {tx : ChanId} {k : ParamKind}
      {d : ParamDirection} {now ms : Nat} {mu : ParamMutation} (ha : a = .param tid ch)
      (ht : s.params.get tid = some (.update m p tx seq k d))
      (he : Event.paramUpdated m p k d now mu ∈ evs) (hparams : mu.params = params)
      (hnext : mu.nextParamChangeAtUnix = next) :
      AppliedFrom s a evs cid p seq params next
        (.collect m (.paramApplied p seq params next ms))
  | collected {m : String} {msg : ServerReliable} {room : MatchRoom} {txs : List ChanId}
      (h : s.casts.get cid = some (.collect m msg)) (hr : s.core.rooms.get m = some room)
      (hp : txs.Perm (room.players.values.map (·.reliableTx))) :
      AppliedFrom s a evs cid p seq params next (.sending txs msg)
  | sent {tx : ChanId} {txs : List ChanId} {msg : ServerReliable}
      (h : s.casts.get cid = some (.sending (tx :: txs) msg)) :
      AppliedFrom s a evs cid p seq params next (.sending txs msg)

theorem appliedOf_eq_some {msg : ServerReliable} {p : String} {seq : Nat} {v : PlayerParams × Nat} :
    msg.appliedOf p seq = some v ↔ ∃ ms, msg = .paramApplied p seq v.1 v.2 ms := by
  constructor
  · intro h
    cases msg with
    | paramApplied p' seq' params next ms =>
      simp only [ServerReliable.appliedOf] at h
      split at h
      · next hsame =>
        obtain ⟨rfl, rfl⟩ := hsame
        cases h
        exact ⟨ms, rfl⟩
      · cases h
    | _ => cases h
  · intro h
    obtain ⟨ms, rfl⟩ := h
    exact if_pos ⟨rfl, rfl⟩

theorem applied_from {s s' : Sys} {a : Action} {evs : List Event} (h : Step s a s' evs) {cid : Nat}
    {c : Cast} {p : String} {seq : Nat} {params : PlayerParams} {next : Nat}
    (hc : s'.casts.get cid = some c) (hm : c.msg.appliedOf p seq = some (params, next)) :
    AppliedFrom s a evs cid p seq params next c := by
  cases h with
  | control h =>
    cases h with
    | started _ _ _ =>
      rcases HashMap.get_insert_cases hc with ⟨-, rfl⟩ | ⟨-, hold⟩
      · cases hm
      · exact .kept hold
    | _ => exact .kept hc
  | join h => cases h <;> exact .kept hc
  | param h =>
    cases h with
    | notJoined _ _ | lookedUp _ _ => exact .kept hc
    | refused _ _ =>
      rcases HashMap.get_insert_cases hc with ⟨-, rfl⟩ | ⟨-, hold⟩
      · cases hm
      · exact .kept hold
    | updated ht _ _ _ _ =>
      rcases HashMap.get_insert_cases hc with ⟨-, rfl⟩ | ⟨-, hold⟩
      · obtain ⟨ms, heq⟩ := appliedOf_eq_some.mp hm
        obtain ⟨rfl, rfl, rfl, rfl, -⟩ := ServerReliable.paramApplied.inj heq
        exact .updated rfl ht (List.mem_singleton_self _) rfl rfl
      · exact .kept hold
  | cast h =>
    cases h with
    | noRoom _ _ | done _ => exact .kept (HashMap.get_remove_eq_some.mp hc).2
    | collected ht hr hp =>
      rcases HashMap.get_insert_cases hc with ⟨rfl, rfl⟩ | ⟨-, hold⟩
      · exact .collected ht hr hp
      · exact .kept hold
    | sent ht _ _ _ | lost ht _ _ =>
      rcases HashMap.get_insert_cases hc with ⟨rfl, rfl⟩ | ⟨-, hold⟩
      · exact .sent ht
      · exact .kept hold
  | relay h => rw [(relay_quiet h).1] at hc; exact .kept hc
  | drain h => rw [(drain_quiet h).1] at hc; exact .kept hc

/-! ## What goes back to a packet -/

/-- In the log, a packet with this `seq` from the address whose join consumed the
ticket of `p` for `m` changed the parameters of `p` to these. -/
def Changed (log : Log) (m p : String) (seq : Nat) (params : PlayerParams) (next : Nat) : Prop :=
  ∃ pre x post tid ch addr k d now mu, log = pre ++ x :: post ∧ x.action = .param tid ch ∧
    packetOf Packet.change pre tid = some (addr, seq, k, d) ∧ Joined pre addr m p ∧
    Event.paramUpdated m p k d now mu ∈ x.events ∧ mu.params = params ∧
    mu.nextParamChangeAtUnix = next

theorem Changed.mono {log : Log} {m p : String} {seq next : Nat} {params : PlayerParams}
    (h : Changed log m p seq params next) (log' : Log) :
    Changed (log ++ log') m p seq params next := by
  obtain ⟨pre, x, post, tid, ch, addr, k, d, now, mu, rfl, h⟩ := h
  exact ⟨pre, x, post ++ log', tid, ch, addr, k, d, now, mu, by simp, h⟩

/-- The player has a seat in the room, at the address. -/
def SeatedAt (s : Sys) (m q : String) (b : SocketAddr) : Prop :=
  ∃ h, s.core.seat m q = some h ∧ h.connection = some (.udp b)

/-- When the task `tid` collected the recipients of this datagram of `p`, a player had a seat
in the room at the address; the task has received nothing since. -/
def CollectedFor (log : Log) (tid : Nat) (m p : String) (out : ServerDatagram) (b : SocketAddr) :
    Prop :=
  ∃ pre y mid ch q, log = pre ++ y :: mid ∧ y.action = .relay tid ch ∧
    y.before.relays.get tid = some (.collect m p out) ∧ SeatedAt y.before m q b ∧
    ∀ z ∈ mid, receivedAs Packet.datagram tid z = none

theorem CollectedFor.snoc {log : Log} {tid : Nat} {m p : String} {out : ServerDatagram}
    {b : SocketAddr} (h : CollectedFor log tid m p out b) {x : Moment Sys Action Event}
    (hx : receivedAs Packet.datagram tid x = none) : CollectedFor (log ++ [x]) tid m p out b := by
  obtain ⟨pre, y, mid, ch, q, rfl, hact, ht, hseat, hmid⟩ := h
  refine ⟨pre, y, mid ++ [x], ch, q, by simp, hact, ht, hseat, ?_⟩
  intro z hz
  rcases List.mem_append.mp hz with hz | hz
  · exact hmid z hz
  · rw [List.mem_singleton.mp hz]
    exact hx

/-- Every task that speaks for a player goes back to a packet of its address, and
goes to players of its room. -/
structure Backed (s : Sys) (log : Log) : Prop where
  looking : ∀ {tid addr seq k d}, s.params.get tid = some (.lookup addr seq k d) →
    packetOf Packet.change log tid = some (addr, seq, k, d)
  updating : ∀ {tid m p tx seq k d}, s.params.get tid = some (.update m p tx seq k d) →
    ∃ addr, packetOf Packet.change log tid = some (addr, seq, k, d) ∧ Joined log addr m p
  heard : ∀ {tid addr msg}, s.relays.get tid = some (.lookup addr msg) →
    packetOf Packet.datagram log tid = some (addr, msg)
  relaying : ∀ {tid m p out}, s.relays.get tid = some (.collect m p out) →
    ∃ addr msg ms, packetOf Packet.datagram log tid = some (addr, msg) ∧ Joined log addr m p ∧
      out = relayOut p ms msg
  sending : ∀ {tid addrs out}, s.relays.get tid = some (.sending addrs out) →
    ∃ addr m p msg ms, packetOf Packet.datagram log tid = some (addr, msg) ∧ Joined log addr m p ∧
      out = relayOut p ms msg ∧ ∀ b ∈ addrs, CollectedFor log tid m p out b
  applied : ∀ {cid c p seq params next}, s.casts.get cid = some c →
    c.msg.appliedOf p seq = some (params, next) → ∃ m, Changed log m p seq params next ∧
      match c with
      | .collect m' _ => m' = m
      | .sending txs _ => ∀ tx ∈ txs, ChannelOf (eventsOf log) m tx

/-- The addresses of a relay are those of players seated in the room. -/
theorem relayed_seat {s : Sys} {m p : String} {out : ServerDatagram} {addrs : List SocketAddr}
    (hr : relayAddrs s.core m p out = some addrs) {b : SocketAddr} (hb : b ∈ addrs) :
    ∃ q, SeatedAt s m q b := by
  have key : ∀ {skip : String → Bool} {addrs : List SocketAddr},
      (s.core.rooms.get m).map (connectedAddrs · skip) = some addrs → b ∈ addrs →
      ∃ q, SeatedAt s m q b := by
    intro skip addrs hmap hb
    obtain ⟨room, hroom, rfl⟩ := Option.map_eq_some_iff.mp hmap
    obtain ⟨⟨q, seat⟩, hq, hread⟩ := List.mem_filterMap.mp hb
    split at hread
    · cases hread
    · split at hread
      · next hconn =>
        obtain rfl := Option.some.inj hread
        exact ⟨q, seat, (seat_of_room hroom q).trans (HashMap.mem_toList.mp hq), hconn⟩
      · cases hread
  cases out with
  | pos => exact key hr hb
  | stageProgress => exact key hr hb

/-- A seat is at the address that its player has registered from. -/
theorem SeatedAt.registered {s : Sys} {tr : List Event} (hents : Registrants s tr) {m q : String}
    {b : SocketAddr} (h : SeatedAt s m q b) : ∃ tx, Event.registered m q b tx ∈ tr := by
  obtain ⟨seat, hs, hconn⟩ := h
  obtain ⟨b', ho, hconn'⟩ := seat_registered hents hs
  rw [hconn] at hconn'
  cases hconn'
  exact ⟨_, ho⟩

theorem backed_step {s s' : Sys} {log : Log} {a : Action} {evs : List Event}
    (hents : Registrants s (eventsOf log)) (hprov : Provenance s log) (hi : Backed s log)
    (hs : server.step s a = some (s', evs)) : Backed s' (log ++ [⟨s, a, evs, s'⟩]) := by
  have hstep : Step s a s' evs := step_spec hs
  have hevents : eventsOf (log ++ [⟨s, a, evs, s'⟩]) = eventsOf log ++ evs := by
    rw [Machine.eventsOf_append, Machine.eventsOf_singleton]
  have hsession : ∀ {addr c}, s.clients.get addr = some c →
      Joined log addr c.matchId c.playerId := fun hc => hprov.registered (hents.session hc).1
  refine ⟨?_, ?_, ?_, ?_, ?_, ?_⟩
  · intro tid addr seq k d ht
    cases param_from hstep ht with
    | kept h => rw [change_kept hs h, hi.looking h]
    | received ha =>
      subst ha
      rw [packetOf_snoc]
      simp [receivedAs, Packet.change]
  · intro tid m p tx seq k d ht
    cases param_from hstep ht with
    | kept h =>
      obtain ⟨addr, hp, hj⟩ := hi.updating h
      exact ⟨addr, by rw [change_kept hs h, hp], hj.mono _⟩
    | lookedUp h hc => exact ⟨_, by rw [change_kept hs h, hi.looking h], (hsession hc).mono _⟩
  · intro tid addr msg ht
    cases relay_from hstep ht with
    | kept h => rw [datagram_kept hs h, hi.heard h]
    | received ha =>
      subst ha
      rw [packetOf_snoc]
      simp [receivedAs, Packet.datagram]
  · intro tid m p out ht
    cases relay_from hstep ht with
    | kept h =>
      obtain ⟨addr, msg, ms, hp, hj, hout⟩ := hi.relaying h
      exact ⟨addr, msg, ms, by rw [datagram_kept hs h, hp], hj.mono _, hout⟩
    | lookedUp h hc =>
      exact ⟨_, _, _, by rw [datagram_kept hs h, hi.heard h], (hsession hc).mono _, rfl⟩
  · intro tid addrs out ht
    cases relay_from hstep ht with
    | kept h =>
      obtain ⟨addr, m, p, msg, ms, hp, hj, hout, hto⟩ := hi.sending h
      refine ⟨addr, m, p, msg, ms, by rw [datagram_kept hs h, hp], hj.mono _, hout, ?_⟩
      intro b hb
      exact (hto b hb).snoc (datagram_quiet hs h)
    | collected ha h hr hperm =>
      obtain ⟨addr, msg, ms, hp, hj, hout⟩ := hi.relaying h
      refine ⟨addr, _, _, msg, ms, by rw [datagram_kept hs h, hp], hj.mono _, hout, ?_⟩
      intro b hb
      obtain ⟨q, hseat⟩ := relayed_seat hr (hperm.mem_iff.mp hb)
      exact ⟨log, _, [], _, q, rfl, ha, h, hseat, fun _ hz => by cases hz⟩
    | sent h =>
      obtain ⟨addr, m, p, msg, ms, hp, hj, hout, hto⟩ := hi.sending h
      refine ⟨addr, m, p, msg, ms, by rw [datagram_kept hs h, hp], hj.mono _, hout, ?_⟩
      intro b hb
      exact (hto b (List.mem_cons_of_mem _ hb)).snoc (datagram_quiet hs h)
  · intro cid c p seq params next hget hm
    cases applied_from hstep hget hm with
    | kept h =>
      obtain ⟨m, hchanged, hto⟩ := hi.applied h hm
      refine ⟨m, hchanged.mono _, ?_⟩
      cases c with
      | collect m' msg => exact hto
      | sending txs msg =>
        intro tx htx
        rw [hevents]
        exact (hto tx htx).mono _
    | updated ha ht he hparams hnext =>
      obtain ⟨addr, hp, hj⟩ := hi.updating ht
      exact ⟨_, ⟨log, _, [], _, _, addr, _, _, _, _, rfl, ha, hp, hj, he, hparams, hnext⟩, rfl⟩
    | collected h hr hperm =>
      obtain ⟨m, hchanged, rfl⟩ := hi.applied h hm
      refine ⟨_, hchanged.mono _, ?_⟩
      intro tx htx
      obtain ⟨q, seat, hseat, rfl⟩ := mem_recipients.mp (hperm.mem_iff.mp htx)
      obtain ⟨b, ho, -⟩ := seat_registered hents ((seat_of_room hr q).trans hseat)
      rw [hevents]
      exact ⟨q, b, List.mem_append_left _ ho⟩
    | sent h =>
      obtain ⟨m, hchanged, hto⟩ := hi.applied h hm
      refine ⟨m, hchanged.mono _, ?_⟩
      intro tx htx
      rw [hevents]
      exact (hto tx (List.mem_cons_of_mem _ htx)).mono _

theorem backed {G : Sys → Action → Prop} {s : Sys} {log : Log}
    (h : server.recorded.Reach G s log) : Backed s log := by
  refine Machine.Reach.log_induct (P := Backed) ?_ ?_ h
  · intro s hinit
    obtain ⟨url, rfl⟩ := hinit
    exact ⟨nofun, nofun, nofun, nofun, nofun, nofun⟩
  · intro s log a s' evs hreach hi _ hs
    exact backed_step (registrants hreach.unrecorded) (provenance hreach) hi hs

/-- A `ParamApplied` in a channel goes back to a change, in the room of the channel. -/
theorem applied_enqueued {G : Sys → Action → Prop} {s : Sys} {log : Log}
    (h : server.recorded.Reach G s log) : ∀ tx msg p seq params next,
      Event.enqueued tx msg ∈ eventsOf log → msg.appliedOf p seq = some (params, next) →
      ∃ m, Changed log m p seq params next ∧ ChannelOf (eventsOf log) m tx := by
  refine Machine.Reach.log_induct (P := fun _ log => ∀ tx msg p seq params next,
    Event.enqueued tx msg ∈ eventsOf log → msg.appliedOf p seq = some (params, next) →
      ∃ m, Changed log m p seq params next ∧ ChannelOf (eventsOf log) m tx) ?_ ?_ h
  · intro s _ tx msg p seq params next he
    cases he
  · intro s log a s' evs hreach ih _ hs tx msg p seq params next hm hmsg
    rw [Machine.eventsOf_append, Machine.eventsOf_singleton] at hm ⊢
    rcases List.mem_append.mp hm with ho | he
    · obtain ⟨m, hchanged, hchan⟩ := ih tx msg p seq params next ho hmsg
      exact ⟨m, hchanged.mono _, hchan.mono _⟩
    · obtain ⟨cid, txs, hc⟩ := enqueued_by (step_spec hs) he
      obtain ⟨m, hchanged, hto⟩ := (backed hreach).applied hc hmsg
      exact ⟨m, hchanged.mono _, (hto tx List.mem_cons_self).mono _⟩

/-- A `ParamApplied` that is sent was in hand, for the session that the registry has at its
address. -/
theorem applied_in_hand {G : Sys → Action → Prop} {s s' : Sys} {tr : List Event}
    (hreach : server.Reach G s tr) {a : Action} {evs : List Event} (h : Step s a s' evs)
    {b : SocketAddr} {msg : ServerReliable} (he : Event.sentReliable b msg ∈ evs) {p : String}
    {seq : Nat} {v : PlayerParams × Nat} (hm : msg.appliedOf p seq = some v) :
    ∃ c, s.clients.get b = some c ∧ Event.enqueued c.rx msg ∈ tr := by
  cases h with
  | control h => cases control_emits h _ he
  | join h =>
    cases h with
    | okSent _ =>
      obtain ⟨-, rfl⟩ : b = _ ∧ msg = _ := by simpa using he
      cases hm
    | errorSent _ hev =>
      rcases hev with rfl | rfl
      · obtain ⟨-, rfl⟩ : b = _ ∧ msg = _ := by simpa using he
        cases hm
      · cases he
    | _ => simp at he
  | param h => cases param_emits h _ he
  | cast h => cases cast_emits h _ he
  | relay h =>
    obtain ⟨_, _, heq⟩ := (relay_quiet h).2 _ he
    cases heq
  | drain h =>
    cases h with
    | sent hd hev =>
      rcases hev with rfl | rfl
      · obtain ⟨rfl, rfl⟩ : b = _ ∧ msg = _ := by simpa using he
        exact ⟨_, in_hand hreach hd, hand_enqueued hreach hd⟩
      · cases he
    | _ => simp at he

/-! ## One address for each player -/

/-- A token is used up once. -/
theorem consumed_once {G : Sys → Action → Prop} {s : Sys} {log : Log}
    (h : server.recorded.Reach G s log) {x y : Moment Sys Action Event}
    (hx : x ∈ log) (hy : y ∈ log)
    {token : String} {now now' : Nat} {v v' : String × String × String}
    (ex : Event.ticketPresented token now (.ok v) ∈ x.events)
    (ey : Event.ticketPresented token now' (.ok v') ∈ y.events) : x = y := by
  -- a moment that uses the token up has no other one before it
  have key : ∀ {pre post : Log} {z w : Moment Sys Action Event} {now now' : Nat}
      {v v' : String × String × String}, log = pre ++ z :: post → w ∈ pre →
      Event.ticketPresented token now (.ok v) ∈ w.events →
      Event.ticketPresented token now' (.ok v') ∈ z.events → False := by
    intro pre post z w now now' v v' heq hw ew ez
    obtain ⟨hreach, -, hs⟩ := Machine.moment_at (heq ▸ h)
    obtain ⟨-, -, hok⟩ := presented_by (step_core (step_spec hs)) ez
    obtain ⟨t, hk, hnow, hv⟩ := (hok v').mp rfl
    obtain ⟨-, -, -, -, -, -, -, -, hnone, -⟩ :=
      (redeemable_iff hreach.unrecorded token now' v').mpr ⟨t, hk, hnow, hv⟩
    exact hnone now _ (Machine.mem_eventsOf.mpr ⟨w, hw, ew⟩)
  obtain ⟨pre, post, rfl⟩ := List.append_of_mem hx
  rcases List.mem_append.mp hy with hy | hy
  · exact (key rfl hy ey ex).elim
  · rcases List.mem_cons.mp hy with rfl | hy
    · rfl
    · obtain ⟨mid, post, rfl⟩ := List.append_of_mem hy
      have hsplit : pre ++ x :: (mid ++ y :: post) = (pre ++ x :: mid) ++ y :: post := by simp
      exact (key hsplit (by simp) ex ey).elim

theorem joined_once {G : Sys → Action → Prop} {s : Sys} {log : Log}
    (h : server.recorded.Reach G s log) {a a' : SocketAddr} {m m' p : String}
    (hj : Joined log a m p) (hj' : Joined log a' m' p) : a = a' ∧ m = m' := by
  obtain ⟨token, -, hi, x, hx, tid, ch, now, name, ha, ht, ex⟩ := hj
  obtain ⟨token', -, hi', y, hy, tid', ch', now', name', ha', ht', ey⟩ := hj'
  obtain ⟨rfl, rfl⟩ := (issued_once h.unrecorded).once hi hi'
  obtain rfl := consumed_once h hx hy ex ey
  rw [ha] at ha'
  obtain ⟨rfl, -⟩ := Action.join.inj ha'
  rw [ht] at ht'
  exact ⟨(JoinTask.consume.inj (Option.some.inj ht')).1, rfl⟩

/-! ## The whole log -/

/-- Nothing that the server keeps for its clients has changed. -/
structure SameServer (s s' : Sys) : Prop where
  core : s'.core = s.core
  clients : s'.clients = s.clients
  chans : s'.chans = s.chans
  joins : s'.joins = s.joins
  casts : s'.casts = s.casts
  cleanups : s'.cleanups = s.cleanups
  drain : s'.drain = s.drain

/-- What the moment `x` does in the name of a player goes back to a packet in the log
before it. -/
structure Authorised (pre : Log) (x : Moment Sys Action Event) : Prop where
  /-- The parameters of a seat change by a reported change alone. -/
  reported : ∀ {m p seat seat'}, x.before.core.seat m p = some seat →
    x.after.core.seat m p = some seat' → seat'.params ≠ seat.params →
    ∃ k d now mu, Event.paramUpdated m p k d now mu ∈ x.events ∧ seat'.params = mu.params
  /-- A change is that of a packet of the player's address, in the player's room. -/
  changed : ∀ {m p k d now mu}, Event.paramUpdated m p k d now mu ∈ x.events →
    (∃ tid ch a seq, x.action = .param tid ch ∧
      packetOf Packet.change pre tid = some (a, seq, k, d) ∧ Joined pre a m p) ∧
    (∀ m', m' ≠ m → x.after.core.rooms.get m' = x.before.core.rooms.get m') ∧
    ∀ q, q ≠ p → x.after.core.seat m q = x.before.core.seat m q
  /-- A `ParamApplied` is put into channels of the room of the change that it tells of. -/
  enqueued : ∀ {tx msg p seq params next}, Event.enqueued tx msg ∈ x.events →
    msg.appliedOf p seq = some (params, next) →
    ∃ m, Changed pre m p seq params next ∧ ChannelOf (eventsOf pre) m tx
  /-- It is sent to an address that then has a session of that room. -/
  sent : ∀ {b msg p seq params next}, Event.sentReliable b msg ∈ x.events →
    msg.appliedOf p seq = some (params, next) →
    ∃ c, x.before.clients.get b = some c ∧ Changed pre c.matchId p seq params next
  /-- A datagram is relayed for a packet of its player's address, and to an address that had a
  seat in the player's room when the recipients were collected. -/
  relayed : ∀ {b out}, Event.sentDatagram b out ∈ x.events →
    ∃ tid ch a m p msg ms, x.action = .relay tid ch ∧
      packetOf Packet.datagram pre tid = some (a, msg) ∧ Joined pre a m p ∧
      out = relayOut p ms msg ∧ CollectedFor pre tid m p out b
  /-- A packet that is no join starts at most a task, -/
  received : ∀ {tid a packet}, x.action = .recv tid a packet →
    (∀ token, packet ≠ .reliable (.join token)) → SameServer x.before x.after ∧ x.events = []
  /-- which ends when it finds no session. -/
  changeNotJoined : ∀ {tid ch a seq k d}, x.action = .param tid ch →
    x.before.params.get tid = some (.lookup a seq k d) → x.before.clients.get a = none →
    x.after = { x.before with params := x.before.params.remove tid } ∧ x.events = []
  datagramNotJoined : ∀ {tid ch a msg}, x.action = .relay tid ch →
    x.before.relays.get tid = some (.lookup a msg) → x.before.clients.get a = none →
    x.after = { x.before with relays := x.before.relays.remove tid } ∧ x.events = []

/-- A change touches one seat of one room. -/
theorem updated_elsewhere {s s' : Sys} {a : Action} {evs : List Event} (h : Step s a s' evs)
    {m p : String} {k : ParamKind} {d : ParamDirection} {now : Nat} {mu : ParamMutation}
    (he : Event.paramUpdated m p k d now mu ∈ evs) :
    (∃ tid ch tx seq, a = .param tid ch ∧ s.params.get tid = some (.update m p tx seq k d)) ∧
    (∀ m', m' ≠ m → s'.core.rooms.get m' = s.core.rooms.get m') ∧
    ∀ q, q ≠ p → s'.core.seat m q = s.core.seat m q := by
  obtain ⟨tid, ch, rfl, hp⟩ := step_emitted (w := .param) h he rfl
  cases hp with
  | @updated m₀ p₀ tx seq k₀ d₀ cid now₀ now' ms room player mu₀ ht _ hr _ _ =>
    obtain ⟨rfl, rfl, rfl, rfl, rfl, rfl⟩ :
      m = m₀ ∧ p = p₀ ∧ k = k₀ ∧ d = d₀ ∧ now = now₀ ∧ mu = mu₀ := by simpa using he
    refine ⟨⟨tid, ch, tx, seq, rfl, ht⟩, ?_, ?_⟩
    · intro m' hne
      exact HashMap.get_insert_ne _ _ hne
    · intro q hne
      rw [seat_setRoom, if_pos rfl, get_setParams, if_neg hne, seat_of_room hr]
  | _ => simp at he

theorem lookup_not_joined {s s' : Sys} {tid : Nat} {ch : Choice} {evs : List Event}
    (hs : server.step s (.param tid ch) = some (s', evs)) {addr : SocketAddr} {seq : Nat}
    {k : ParamKind} {d : ParamDirection} (ht : s.params.get tid = some (.lookup addr seq k d))
    (hc : s.clients.get addr = none) :
    s' = { s with params := s.params.remove tid } ∧ evs = [] := by
  cases stepParam_spec hs with
  | notJoined _ _ => exact ⟨rfl, rfl⟩
  | lookedUp ht' hc' =>
    rw [ht] at ht'
    cases ht'
    rw [hc] at hc'
    cases hc'
  | refused ht' _ | updated ht' _ _ _ _ =>
    rw [ht] at ht'
    cases ht'

theorem datagram_not_joined {s s' : Sys} {tid : Nat} {ch : Choice} {evs : List Event}
    (hs : server.step s (.relay tid ch) = some (s', evs)) {addr : SocketAddr} {msg : ClientDatagram}
    (ht : s.relays.get tid = some (.lookup addr msg)) (hc : s.clients.get addr = none) :
    s' = { s with relays := s.relays.remove tid } ∧ evs = [] := by
  cases stepRelay_spec hs with
  | notJoined _ _ => exact ⟨rfl, rfl⟩
  | lookedUp ht' hc' =>
    rw [ht] at ht'
    cases ht'
    rw [hc] at hc'
    cases hc'
  | noRoom ht' _ | collected ht' _ _ | done ht' | sent ht' _ =>
    rw [ht] at ht'
    cases ht'

theorem datagram_sent {s s' : Sys} {tid : Nat} {evs : List Event} (h : RelayStep s tid s' evs)
    {b : SocketAddr} {out : ServerDatagram} (he : Event.sentDatagram b out ∈ evs) :
    ∃ addrs, s.relays.get tid = some (.sending (b :: addrs) out) := by
  cases h with
  | sent ht hev =>
    rcases hev with rfl | rfl
    · obtain ⟨rfl, rfl⟩ : b = _ ∧ out = _ := by simpa using he
      exact ⟨_, ht⟩
    · cases he
  | _ => cases he

theorem recv_same {s s' : Sys} {tid : Nat} {addr : SocketAddr} {packet : Packet}
    {evs : List Event} (hs : server.step s (.recv tid addr packet) = some (s', evs))
    (hjoin : ∀ token, packet ≠ .reliable (.join token)) : SameServer s s' ∧ evs = [] := by
  obtain ⟨hrecv, rfl⟩ := recv_spec hs
  cases hrecv with
  | join _ => exact absurd rfl (hjoin _)
  | ignored | change _ | datagram _ => exact ⟨⟨rfl, rfl, rfl, rfl, rfl, rfl, rfl⟩, rfl⟩

/-- Where the parameters of a seat differ after a step, the step reports a change of them. -/
theorem change_reported {s s' : Sys} {a : Action} {evs : List Event} (h : Step s a s' evs)
    {m p : String} {seat seat' : PlayerHandle} (hseat : s.core.seat m p = some seat)
    (hseat' : s'.core.seat m p = some seat') (hne : seat'.params ≠ seat.params) :
    ∃ k d now mu, Event.paramUpdated m p k d now mu ∈ evs ∧ seat'.params = mu.params := by
  cases seat_from (step_core h) hseat' with
  | kept hseat'' _ _ =>
    rw [hseat] at hseat''
    exact absurd (by rw [Option.some.inj hseat'']) hne
  | registered => exact absurd (by rw [hseat]; rfl) hne
  | updated _ _ => exact ⟨_, _, _, _, List.mem_singleton_self _, rfl⟩
  | laidOut hr hseat'' =>
    rw [seat_of_room hr, hseat''] at hseat
    exact absurd (by rw [← Option.some.inj hseat]; rfl) hne

/-- A `ParamApplied` that is sent was put into its session's own channel, so the change is one
of the session's room. -/
theorem sent_authorised {s s' : Sys} {log : Log} {a : Action} {evs : List Event}
    (hreach : server.recorded.Reach Machine.anyStep s log) (h : Step s a s' evs)
    {b : SocketAddr} {msg : ServerReliable} {p : String} {seq next : Nat} {params : PlayerParams}
    (he : Event.sentReliable b msg ∈ evs) (hm : msg.appliedOf p seq = some (params, next)) :
    ∃ c, s.clients.get b = some c ∧ Changed log c.matchId p seq params next := by
  obtain ⟨c, hc, hput⟩ := applied_in_hand hreach.unrecorded h he hm
  obtain ⟨ho, -, hrx⟩ := (registrants hreach.unrecorded).session hc
  obtain ⟨m, hchanged, hchan⟩ := applied_enqueued hreach c.rx msg p seq params next hput hm
  rw [hrx] at hchan
  obtain rfl : c.matchId = m := ChannelOf.room (registry hreach.unrecorded) ⟨_, _, ho⟩ hchan
  exact ⟨c, hc, hchanged⟩

/-- Over any run, the address and the room behind a player are one, and every moment
is authorised by the log before it. -/
theorem packet_authority {s : Sys} {log : Log}
    (h : server.recorded.Reach Machine.anyStep s log) :
    (∀ a a' m m' p, Joined log a m p → Joined log a' m' p → a = a' ∧ m = m') ∧
    ∀ pre x post, log = pre ++ x :: post → Authorised pre x := by
  refine ⟨fun a a' m m' p => joined_once h, ?_⟩
  intro pre x post heq
  subst heq
  obtain ⟨s₀, act, evs, s₁⟩ := x
  have hreach : server.recorded.Reach Machine.anyStep s₀ pre := (Machine.moment_at h).1
  have hs : server.step s₀ act = some (s₁, evs) := (Machine.moment_at h).2.2
  have hstep : Step s₀ act s₁ evs := step_spec hs
  have hbacked : Backed s₀ pre := backed hreach
  refine ⟨change_reported hstep, ?_, ?_, sent_authorised hreach hstep, ?_, ?_, ?_, ?_⟩
  · intro m p k d now mu he
    obtain ⟨⟨tid, ch, tx, seq, ha, ht⟩, hrest⟩ := updated_elsewhere hstep he
    obtain ⟨a, hp, hj⟩ := hbacked.updating ht
    exact ⟨⟨tid, ch, a, seq, ha, hp, hj⟩, hrest⟩
  · intro tx msg p seq params next he hm
    obtain ⟨cid, txs, hc⟩ := enqueued_by hstep he
    obtain ⟨m, hchanged, hto⟩ := hbacked.applied hc hm
    exact ⟨m, hchanged, hto tx List.mem_cons_self⟩
  · intro b out he
    obtain ⟨tid, ch, ha, hr⟩ := step_emitted (w := .relay) hstep he rfl
    obtain ⟨addrs, ht⟩ := datagram_sent hr he
    obtain ⟨a, m, p, msg, ms, hp, hj, hout, hto⟩ := hbacked.sending ht
    exact ⟨tid, ch, a, m, p, msg, ms, ha, hp, hj, hout, hto b List.mem_cons_self⟩
  · intro tid a packet ha hjoin
    obtain rfl : act = .recv tid a packet := ha
    exact recv_same hs hjoin
  · intro tid ch a seq k d ha ht hc
    obtain rfl : act = .param tid ch := ha
    exact lookup_not_joined hs ht hc
  · intro tid ch a msg ha ht hc
    obtain rfl : act = .relay tid ch := ha
    exact datagram_not_joined hs ht hc

/-- A position of the first player that is relayed to the second. -/
theorem packet_authority_two : ∃ s log pre post tid, ∃ x : Moment Sys Action Event,
    ∃ out a m p msg ms, server.recorded.Reach Machine.anyStep s log ∧ log = pre ++ x :: post ∧
    Event.sentDatagram ⟨1, 2⟩ out ∈ x.events ∧ Joined pre a m p ∧ out = relayOut p ms msg ∧
    CollectedFor pre tid m p out ⟨1, 2⟩ := by
  obtain ⟨s, tr, h, hp⟩ := reach_of_actions Machine.anyStep
    (twoPlayers ++ [.recv 3 ⟨1, 1⟩ (.unreliable (.pos 1 0 0 0 0)), .relay 3 {},
      .relay 3 { addrs := [⟨1, 2⟩] }, .relay 3 {}])
    (fun _ tr => tr.any fun | .sentDatagram a _ => a == ⟨1, 2⟩ | _ => false) (by decide)
  obtain ⟨e, he, hmatch⟩ := List.any_eq_true.mp hp
  obtain ⟨log, hlog, rfl⟩ := h.recorded
  split at hmatch
  · next a out =>
    obtain rfl := beq_iff_eq.mp hmatch
    obtain ⟨x, hx, hsent⟩ := Machine.mem_eventsOf.mp he
    obtain ⟨pre, post, rfl⟩ := List.append_of_mem hx
    obtain ⟨tid, ch, a, m, p, msg, ms, -, -, hj, hout, hto⟩ :=
      ((packet_authority hlog).2 pre x post rfl).relayed hsent
    exact ⟨s, _, pre, post, tid, x, out, a, m, p, msg, ms, hlog, rfl, hsent, hj, hout, hto⟩
  · cases hmatch

/-- A datagram that is sent to a player of some room is sent to one of the room of its own
player. -/
def StaysInRoom (log : Log) : Prop :=
  ∀ pre x post b out a m m' q', log = pre ++ x :: post → Event.sentDatagram b out ∈ x.events →
    Joined pre a m out.playerId → SeatedAt x.before m' q' b → ∃ q, SeatedAt x.before m q b

/-- The second player of a room loses its seat, since its `JoinOk` cannot be sent, and joins
another room, between the collection of the recipients of a position and the send. -/
def movedOn : List Action :=
  [.createRoom "r" 1, .issueJoinTicket ⟨"m_r", "x"⟩ "1" "t1" 1,
    .issueJoinTicket ⟨"m_r", "y"⟩ "2" "t2" 1, .createRoom "q" 1,
    .issueJoinTicket ⟨"m_q", "z"⟩ "3" "t3" 1] ++
  soloJoin 1 ⟨1, 1⟩ "t1" [{}, { fresh := 1 }, {}, {}, {}] ++
  soloJoin 2 ⟨1, 2⟩ "t2" [{}, { fresh := 2 }, {}, {}] ++
  [.recv 3 ⟨1, 1⟩ (.unreliable (.pos 1 0 0 0 0)), .relay 3 {}, .relay 3 { addrs := [⟨1, 2⟩] },
    .join 2 { sendOk := false }, .join 2 {}, .join 2 {}] ++
  soloJoin 4 ⟨1, 2⟩ "t3" [{}, { fresh := 3 }, {}, {}, {}] ++ [.relay 3 {}]

def Event.registersAt (m p : String) (addr : SocketAddr) : Event → Bool
  | .registered m' p' addr' _ => m' == m && p' == p && addr' == addr
  | _ => false

def Event.datagramOf (p : String) (b : SocketAddr) : Event → Bool
  | .sentDatagram b' out => b' == b && out.playerId == p
  | _ => false

theorem registersAt_iff {m p : String} {addr : SocketAddr} {e : Event} :
    e.registersAt m p addr = true ↔ ∃ tx, e = .registered m p addr tx := by
  cases e <;> simp [Event.registersAt, and_assoc]

theorem datagramOf_iff {p : String} {b : SocketAddr} {e : Event} :
    e.datagramOf p b = true ↔ ∃ out, e = .sentDatagram b out ∧ out.playerId = p := by
  cases e <;> simp [Event.datagramOf]

/-- The position reaches an address whose only player is in the other room. -/
theorem relayed_elsewhere : ¬ ∀ s log, server.recorded.Reach Machine.anyStep s log →
    StaysInRoom log := by
  intro hall
  obtain ⟨s, log, h, hp⟩ := log_of_actions Machine.anyStep movedOn
    (fun _ log => (eventsOf log.dropLast).any (·.registersAt "m_r" "p_1" ⟨1, 1⟩) &&
      log.getLast?.any fun x => (x.events.any (·.datagramOf "p_1" ⟨1, 2⟩)) &&
        ((x.before.core.seat "m_q" "p_3").any fun h => h.connection == some (.udp ⟨1, 2⟩)) &&
        (x.before.core.rooms.get "m_r").any fun room =>
          (room.players.values.all fun h => h.connection != some (.udp ⟨1, 2⟩)))
    (by decide)
  simp only [Bool.and_eq_true, Option.any_eq_true, List.any_eq_true, List.all_eq_true, beq_iff_eq,
    bne_iff_ne, registersAt_iff, datagramOf_iff] at hp
  obtain ⟨⟨_, ho, tx, rfl⟩, x, hlast, ⟨⟨_, hsent, out, rfl, hout⟩, seat', hseat', hconn'⟩, room,
    hroom, hno⟩ := hp
  have hsplit : log = log.dropLast ++ x :: [] := (List.dropLast_append_getLast? x hlast).symm
  obtain ⟨hreach, -, -⟩ := Machine.moment_at (hsplit ▸ h)
  have hjoined : Joined log.dropLast ⟨1, 1⟩ "m_r" out.playerId :=
    hout ▸ (provenance hreach).registered ho
  obtain ⟨q, seat, hseat, hconn⟩ := hall s log h _ x [] _ out _ _ "m_q" "p_3" hsplit hsent hjoined
    ⟨seat', hseat', hconn'⟩
  have hq : room.players.get q = some seat := (seat_of_room hroom q).symm.trans hseat
  exact hno seat (HashMap.mem_values.mpr ⟨q, hq⟩) hconn

end Kotatsu
