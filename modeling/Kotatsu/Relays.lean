import Kotatsu.Authority

/-
  Who a datagram is relayed to (`handle_unreliable_message`)

  The sender is looked up in the session registry, by its address. The recipients are the
  addresses of the room's seats; they are collected in another section, and the sends
  follow one by one. Anything may happen in between. What is sent is what the steps of the
  relay emit: where the socket takes every datagram, each collected address is sent one, in
  order (`relays_sentTo`); where it refuses some, the others are sent theirs
  (`relays_among`).
-/

namespace Kotatsu

/-! ## One relay among others -/

/-- The relay that takes the step. -/
def Action.relayTask : Action → Option Nat
  | .relay tid _ => some tid
  | _ => none

/-- Every step that the relay `tid` does not take. -/
def otherRelays (tid : Nat) : Sys → Action → Prop := fun _ a => a.relayTask ≠ some tid

instance (tid : Nat) (s : Sys) (a : Action) : Decidable (otherRelays tid s a) :=
  inferInstanceAs (Decidable (_ ≠ _))

theorem relay_waits {s s' : Sys} {a : Action} {evs : List Event} (h : Step s a s' evs) {tid : Nat}
    (hne : a.relayTask ≠ some tid) {t : RelayTask} (ht : s.relays.get tid = some t) :
    s'.relays.get tid = some t := by
  cases h with
  | control h =>
    cases h with
    | datagramReceived hf =>
      exact (HashMap.get_insert_ne _ _ (HashMap.ne_of_get_none hf ht)).trans ht
    | _ => exact ht
  | join h => cases h <;> exact ht
  | param h => cases h <;> exact ht
  | cast h => cases h <;> exact ht
  | @relay tid₀ ch s' evs h =>
    have htid : tid ≠ tid₀ := by
      intro heq
      exact hne (heq ▸ rfl)
    cases h with
    | lookedUp _ _ | collected _ _ _ | sent _ _ => exact (HashMap.get_insert_ne _ _ htid).trans ht
    | notJoined _ _ | noRoom _ _ | done _ => exact (HashMap.get_remove_ne _ htid).trans ht
  | drain h => rw [(drain_quiet h).1]; exact ht

/-- A relay is where it was after any run of the others. -/
theorem relay_waits_run {tid : Nat} {s s' : Sys} {as : List Action} {tr : List Event}
    (hrun : server.Run (otherRelays tid) s as tr s') {t : RelayTask}
    (ht : s.relays.get tid = some t) : s'.relays.get tid = some t := by
  refine hrun.keeps (P := fun s => s.relays.get tid = some t) ?_ ht
  intro s a s' evs hne ht hs
  exact relay_waits (step_spec hs) hne ht

/-! ## The sections of a relay -/

section Sections
variable {tid : Nat} {ch : Choice} {s s' : Sys} {evs : List Event}

theorem relay_present (hs : server.step s (.relay tid ch) = some (s', evs)) :
    ∃ t, s.relays.get tid = some t := by
  cases ht : s.relays.get tid with
  | some t => exact ⟨t, rfl⟩
  | none =>
    change stepRelay s tid ch = some (s', evs) at hs
    simp [stepRelay, ht] at hs

/-- The datagram is accepted under the session of its address. -/
theorem lookup_section {a : SocketAddr} {msg : ClientDatagram} {c : ClientSession}
    (hs : server.step s (.relay tid ch) = some (s', evs))
    (ht : s.relays.get tid = some (.lookup a msg)) (hc : s.clients.get a = some c) :
    s'.relays.get tid =
      some (.collect c.matchId c.playerId (relayOut c.playerId ch.nowMs msg)) := by
  change stepRelay s tid ch = some (s', evs) at hs
  simp only [stepRelay, ht, hc] at hs
  split at hs
  · cases hs
  · cases hs
    exact HashMap.get_insert_self _ _ _

theorem collect_section {m p : String} {out : ServerDatagram}
    (hs : server.step s (.relay tid ch) = some (s', evs))
    (ht : s.relays.get tid = some (.collect m p out)) :
    evs = [] ∧ ((relayAddrs s.core m p out = none ∧ s'.relays.get tid = none) ∨
      ∃ addrs order, relayAddrs s.core m p out = some addrs ∧ order.Perm addrs ∧
        s'.relays.get tid = some (.sending order out)) := by
  change stepRelay s tid ch = some (s', evs) at hs
  simp only [stepRelay, ht] at hs
  split at hs
  · next hr =>
    cases hs
    exact ⟨rfl, .inl ⟨hr, HashMap.get_remove_self _ _⟩⟩
  · next addrs hr =>
    split at hs
    · next hp =>
      cases hs
      exact ⟨rfl, .inr ⟨addrs, ch.addrs, hr, hp, HashMap.get_insert_self _ _ _⟩⟩
    · cases hs

theorem sending_section {addrs : List SocketAddr} {out : ServerDatagram}
    (hs : server.step s (.relay tid ch) = some (s', evs))
    (ht : s.relays.get tid = some (.sending addrs out)) :
    (addrs = [] ∧ evs = [] ∧ s'.relays.get tid = none) ∨
      ∃ b rest, addrs = b :: rest ∧ s'.relays.get tid = some (.sending rest out) ∧
        evs = if ch.sendOk then [.sentDatagram b out] else [] := by
  change stepRelay s tid ch = some (s', evs) at hs
  cases addrs with
  | nil =>
    simp only [stepRelay, ht] at hs
    cases hs
    exact .inl ⟨rfl, rfl, HashMap.get_remove_self _ _⟩
  | cons b rest =>
    simp only [stepRelay, ht] at hs
    cases hs
    exact .inr ⟨b, rest, rfl, HashMap.get_insert_self _ _ _, rfl⟩

end Sections

/-! ## What a relay sends -/

def Event.datagram : Event → Option (SocketAddr × ServerDatagram)
  | .sentDatagram addr out => some (addr, out)
  | _ => none

/-- The datagrams that were sent, in order. -/
def datagramsOf (evs : List Event) : List (SocketAddr × ServerDatagram) :=
  evs.filterMap Event.datagram

/-- From `s`, the relay goes on to its end, among any other steps, and sends `sent`; the socket
takes every datagram that it is given, if `all`. -/
inductive Delivers (all : Bool) (tid : Nat) : Sys → List (SocketAddr × ServerDatagram) → Prop
  | ended {s : Sys} (h : s.relays.get tid = none) : Delivers all tid s []
  | waits {s s' : Sys} {a : Action} {evs : List Event} {sent : List (SocketAddr × ServerDatagram)}
      {t : RelayTask} (ht : s.relays.get tid = some t) (hne : a.relayTask ≠ some tid)
      (hs : server.step s a = some (s', evs)) (h : Delivers all tid s' sent) :
      Delivers all tid s sent
  | takes {s s' : Sys} {ch : Choice} {evs : List Event} {sent : List (SocketAddr × ServerDatagram)}
      (hs : server.step s (.relay tid ch) = some (s', evs)) (hok : all = true → ch.sendOk = true)
      (h : Delivers all tid s' sent) : Delivers all tid s (datagramsOf evs ++ sent)

/-- The relay collects its recipients in `s`, and sends `sent` from there on. -/
def RelaysFrom (all : Bool) (tid : Nat) (s : Sys) (sent : List (SocketAddr × ServerDatagram)) :
    Prop :=
  ∃ ch s₁ evs rest, server.step s (.relay tid ch) = some (s₁, evs) ∧
    (all = true → ch.sendOk = true) ∧ Delivers all tid s₁ rest ∧ sent = datagramsOf evs ++ rest

section Delivery
variable {all : Bool} {tid : Nat} {s : Sys} {sent : List (SocketAddr × ServerDatagram)}

theorem delivers_ended (h : Delivers all tid s sent) (ht : s.relays.get tid = none) :
    sent = [] := by
  cases h with
  | ended _ => rfl
  | waits ht' _ _ _ =>
    rw [ht] at ht'
    cases ht'
  | takes hs _ _ =>
    obtain ⟨t, ht'⟩ := relay_present hs
    rw [ht] at ht'
    cases ht'

/-- The datagram is sent to the addresses that are left, in order, but where the socket
refuses it. -/
theorem delivers_sending (h : Delivers all tid s sent) {addrs : List SocketAddr}
    {out : ServerDatagram} (ht : s.relays.get tid = some (.sending addrs out)) :
    sent.Sublist (addrs.map (·, out)) ∧ (all = true → sent = addrs.map (·, out)) := by
  induction h generalizing addrs with
  | ended h =>
    rw [h] at ht
    cases ht
  | waits _ hne hs _ ih => exact ih (relay_waits (step_spec hs) hne ht)
  | @takes s s' ch evs sent hs hok hrest ih =>
    rcases sending_section hs ht with ⟨rfl, rfl, hend⟩ | ⟨b, rest, rfl, hnext, rfl⟩
    · rw [delivers_ended hrest hend]
      exact ⟨.slnil, fun _ => rfl⟩
    · obtain ⟨hsub, hall⟩ := ih hnext
      cases hch : ch.sendOk with
      | true => exact ⟨hsub.cons_cons _, fun h => congrArg _ (hall h)⟩
      | false =>
        refine ⟨hsub.cons _, fun h => ?_⟩
        rw [hok h] at hch
        cases hch

/-- The relay can always go on by itself. -/
theorem delivers_alone (addrs : List SocketAddr) {out : ServerDatagram}
    (ht : s.relays.get tid = some (.sending addrs out)) : ∃ sent, Delivers true tid s sent := by
  induction addrs generalizing s with
  | nil =>
    have hs : server.step s (.relay tid {}) =
        some ({ s with relays := s.relays.remove tid }, []) := by
      show stepRelay s tid {} = _
      simp only [stepRelay, ht]
    exact ⟨_, .takes hs (fun _ => rfl) (.ended (HashMap.get_remove_self _ _))⟩
  | cons b rest ih =>
    have hs : server.step s (.relay tid {}) =
        some ({ s with relays := s.relays.insert tid (.sending rest out) },
          [.sentDatagram b out]) := by
      show stepRelay s tid {} = _
      simp only [stepRelay, ht]
      rfl
    obtain ⟨sent, hrest⟩ := ih (s := { s with relays := s.relays.insert tid (.sending rest out) })
      (HashMap.get_insert_self _ _ _)
    exact ⟨_, .takes hs (fun _ => rfl) hrest⟩

end Delivery

/-! ## Whom a relay addresses -/

/-- A position is not sent back to its sender. -/
def ClientDatagram.skipsSender : ClientDatagram → Bool
  | .pos .. => true
  | .stageProgress _ => false

/-- A datagram of `p` in `m` goes to the seat of `q`, which is at `b`. -/
def Addressed (s : Sys) (m p : String) (msg : ClientDatagram) (q : String) (b : SocketAddr) :
    Prop := SeatedAt s m q b ∧ (msg.skipsSender = true → q ≠ p)

/-- What the collected recipients are: the seats addressed. -/
structure SentTo (s : Sys) (m p : String) (msg : ClientDatagram)
    (sent : List (SocketAddr × ServerDatagram)) : Prop where
  mem : ∀ b, b ∈ sent.map Prod.fst ↔ ∃ q, Addressed s m p msg q b
  once : ∀ b, (sent.map Prod.fst).count b = 1 ↔ ∃! q, Addressed s m p msg q b

theorem relayAddrs_out (core : CoreState) (m p : String) (ms : Nat) (msg : ClientDatagram) :
    relayAddrs core m p (relayOut p ms msg) =
      (core.rooms.get m).map (connectedAddrs · fun q => msg.skipsSender && q == p) := by
  cases msg <;> rfl

section Addressees
variable {s : Sys} {m p : String} {msg : ClientDatagram} {room : MatchRoom}

/-- An entry of the room's players that is collected. -/
theorem addressed_iff (hr : s.core.rooms.get m = some room) (q : String) (b : SocketAddr) :
    Addressed s m p msg q b ↔ ∃ h, room.players.get q = some h ∧
      (if msg.skipsSender && q == p then none
        else match h.connection with
          | some (.udp addr) => some addr
          | none => none) = some b := by
  have hskip : (msg.skipsSender && q == p) = true ↔ msg.skipsSender = true ∧ q = p := by simp
  rw [Addressed, SeatedAt]
  simp only [seat_of_room hr]
  constructor
  · intro hseat
    obtain ⟨⟨h, hq, hconn⟩, hne⟩ := hseat
    have hno : ¬ (msg.skipsSender && q == p) = true := fun hs => hne (hskip.mp hs).1 (hskip.mp hs).2
    exact ⟨h, hq, by rw [if_neg hno, hconn]⟩
  · intro hseat
    obtain ⟨h, hq, hread⟩ := hseat
    split at hread
    · cases hread
    · next hno =>
      refine ⟨⟨h, hq, ?_⟩, fun hs heq => hno (hskip.mpr ⟨hs, heq⟩)⟩
      split at hread
      · next hconn => rw [hconn, Option.some.inj hread]
      · cases hread

theorem mem_connectedAddrs (hr : s.core.rooms.get m = some room) (b : SocketAddr) :
    b ∈ connectedAddrs room (fun q => msg.skipsSender && q == p) ↔
      ∃ q, Addressed s m p msg q b := by
  rw [connectedAddrs, List.mem_filterMap]
  simp only [addressed_iff hr]
  constructor
  · intro hb
    obtain ⟨⟨q, h⟩, he, hread⟩ := hb
    exact ⟨q, h, HashMap.mem_toList.mp he, hread⟩
  · intro hb
    obtain ⟨q, h, hq, hread⟩ := hb
    exact ⟨(q, h), HashMap.mem_toList.mpr hq, hread⟩

theorem count_connectedAddrs (hr : s.core.rooms.get m = some room) (b : SocketAddr) :
    (connectedAddrs room fun q => msg.skipsSender && q == p).count b = 1 ↔
      ∃! q, Addressed s m p msg q b := by
  rw [connectedAddrs, HashMap.count_filterMap_eq_one]
  exact existsUnique_congr fun q => (addressed_iff hr q b).symm

end Addressees

/-- A relay of a datagram of `p` is for the seats that are there when it collects; it sends
the datagram to all of them, if the socket takes it each time. -/
theorem relays_among {all : Bool} {s : Sys} {tid : Nat} {m p : String} {ms : Nat}
    {msg : ClientDatagram} {sent : List (SocketAddr × ServerDatagram)}
    (ht : s.relays.get tid = some (.collect m p (relayOut p ms msg)))
    (h : RelaysFrom all tid s sent) : ∃ full, SentTo s m p msg full ∧ sent.Sublist full ∧
      (∀ e ∈ full, e.2 = relayOut p ms msg) ∧ (all = true → sent = full) := by
  obtain ⟨ch, s₁, evs, rest, hs, -, hd, rfl⟩ := h
  rcases collect_section hs ht with ⟨rfl, ⟨hnone, hend⟩ | ⟨addrs, order, haddrs, hperm, hnext⟩⟩
  · obtain rfl := delivers_ended hd hend
    rw [relayAddrs_out, Option.map_eq_none_iff] at hnone
    -- no room, no seats
    have hno : ∀ q b, ¬ Addressed s m p msg q b := by
      intro q b haddr
      obtain ⟨⟨h, hseat, -⟩, -⟩ := haddr
      rw [CoreState.seat, hnone] at hseat
      cases hseat
    exact ⟨[], ⟨by simp [hno], by simp [hno, ExistsUnique]⟩, .slnil, by simp, fun _ => rfl⟩
  · obtain ⟨hsub, hall⟩ := delivers_sending hd hnext
    rw [relayAddrs_out] at haddrs
    obtain ⟨room, hr, rfl⟩ := Option.map_eq_some_iff.mp haddrs
    have hfst : (order.map (·, relayOut p ms msg)).map Prod.fst = order := by
      rw [List.map_map]
      exact List.map_id order
    refine ⟨order.map (·, relayOut p ms msg), ⟨?_, ?_⟩, hsub, ?_, hall⟩
    · intro b
      rw [hfst, hperm.mem_iff]
      exact mem_connectedAddrs hr b
    · intro b
      rw [hfst, hperm.count_eq]
      exact count_connectedAddrs hr b
    · intro e he
      obtain ⟨b, -, rfl⟩ := List.mem_map.mp he
      rfl

/-- Every datagram that a relay sends is the one that it carries. -/
theorem relays_out {all : Bool} {s : Sys} {tid : Nat} {m p : String} {out : ServerDatagram}
    {sent : List (SocketAddr × ServerDatagram)}
    (ht : s.relays.get tid = some (.collect m p out)) (h : RelaysFrom all tid s sent) :
    ∀ e ∈ sent, e.2 = out := by
  obtain ⟨ch, s₁, evs, rest, hs, -, hd, rfl⟩ := h
  rcases collect_section hs ht with ⟨rfl, ⟨-, hend⟩ | ⟨addrs, order, -, -, hnext⟩⟩
  · rw [delivers_ended hd hend]
    simp [datagramsOf]
  · intro e he
    obtain ⟨b, -, rfl⟩ := List.mem_map.mp ((delivers_sending hd hnext).1.subset he)
    rfl

theorem relays_alone {s : Sys} {tid : Nat} {m p : String} {out : ServerDatagram}
    (ht : s.relays.get tid = some (.collect m p out)) : ∃ sent, RelaysFrom true tid s sent := by
  cases hr : relayAddrs s.core m p out with
  | none =>
    have hs : server.step s (.relay tid {}) =
        some ({ s with relays := s.relays.remove tid }, []) := by
      show stepRelay s tid {} = _
      simp only [stepRelay, ht, hr]
    exact ⟨_, _, _, _, _, hs, fun _ => rfl, .ended (HashMap.get_remove_self _ _), rfl⟩
  | some addrs =>
    have hs : server.step s (.relay tid { addrs := addrs }) =
        some ({ s with relays := s.relays.insert tid (.sending addrs out) }, []) := by
      show stepRelay s tid _ = _
      simp only [stepRelay, ht, hr, List.Perm.refl, if_true]
    obtain ⟨rest, hrest⟩ := delivers_alone
      (s := { s with relays := s.relays.insert tid (.sending addrs out) }) addrs
      (HashMap.get_insert_self _ _ _)
    exact ⟨_, _, _, _, rest, hs, fun _ => rfl, hrest, rfl⟩

/-! ## Sessions of rooms that are there -/

/-- The seats behind the sessions, and behind the tasks about to insert one, in the rooms
that have not been removed. -/
structure AnchoredHere (s : Sys) : Prop where
  session : ∀ {a c room}, s.clients.get a = some c → s.core.rooms.get c.matchId = some room →
    s.core.link c.matchId c.playerId = some (some (.udp a), c.tx)
  inserting : ∀ {tid a m p params tx room},
    s.joins.get tid = some (.insert a m p params tx) → s.core.rooms.get m = some room →
    s.core.link m p = some (some (.udp a), tx)

theorem anchoredHere_step {s s' : Sys} {tr : List Event}
    (hreach : server.Reach Machine.anyStep s tr) (hi : AnchoredHere s) {a : Action}
    {evs : List Event} (h : Step s a s' evs) : AnchoredHere s' := by
  have hents : Registrants s tr := registrants hreach
  have hcust : Custody s := custody hreach
  have hseen : RoomsSeen s := rooms_seen hreach
  -- a room that is there after the step was there before it
  have hspared : ∀ {m room'}, s'.core.rooms.get m = some room' → Event.roomRemoved m ∉ evs := by
    intro m room' hr' he
    rw [removed_gone (step_core h) he] at hr'
    cases hr'
  have hbefore : ∀ {m p a tx room'}, Event.registered m p a tx ∈ tr →
      s'.core.rooms.get m = some room' → ∃ room, s.core.rooms.get m = some room :=
    fun ho hr' => room_before h ((live_seats hreach).seen ho) hr'
  have hins : ∀ {tid a m p params tx room'}, s.joins.get tid = some (.insert a m p params tx) →
      s'.core.rooms.get m = some room' → s'.core.link m p = some (some (.udp a), tx) := by
    intro tid a m p params tx room' ht hr'
    obtain ⟨room, hr⟩ := hbefore (hents.inserting ht) hr'
    exact inserting_stays hcust hseen h ht (hi.inserting ht hr) (hspared hr')
  refine ⟨?_, ?_⟩
  · intro addr c room' hc hr'
    rcases session_from h hc with hc | ⟨tid, params, ht, -, -⟩
    · obtain ⟨room, hr⟩ := hbefore (hents.session hc).1 hr'
      exact session_stays hcust hseen h hc (hi.session hc hr) (hspared hr')
    · exact hins ht hr'
  · intro tid addr m p params tx room' ht hr'
    cases task_from h ht with
    | kept ht => exact hins ht hr'
    | registered he => exact link_registered (link_step hseen (step_core h)) he

theorem anchored_here {s : Sys} {tr : List Event} (h : server.Reach Machine.anyStep s tr) :
    AnchoredHere s := by
  refine Machine.Reach.induct (P := fun s _ => AnchoredHere s) ?_ ?_ h
  · intro s hinit
    obtain ⟨url, rfl⟩ := hinit
    refine ⟨?_, ?_⟩ <;> intros <;> next h _ => cases h
  · intro s tr a s' evs hreach ih _ hs
    exact anchoredHere_step hreach ih (step_spec hs)

/-! ## A datagram that was accepted -/

/-- A run, up to the state `s`, in which the relay `tid` has accepted `msg` from `a` under
the session of `p` in `m`. -/
inductive Accepted (tid : Nat) (a : SocketAddr) (m p : String) (msg : ClientDatagram) (s : Sys) :
    List Event → Prop
  | intro {s₀ s₁ : Sys} {tr evs tr₁ : List Event} {as : List Action} {c : ClientSession}
      {ch : Choice} (hreach : server.Reach Machine.anyStep s₀ tr)
      (ht : s₀.relays.get tid = some (.lookup a msg)) (hc : s₀.clients.get a = some c)
      (hm : c.matchId = m) (hp : c.playerId = p)
      (hs : server.step s₀ (.relay tid ch) = some (s₁, evs))
      (hrun : server.Run (otherRelays tid) s₁ as tr₁ s) :
      Accepted tid a m p msg s (tr ++ evs ++ tr₁)

section Accepted
variable {tid : Nat} {a : SocketAddr} {m p : String} {msg : ClientDatagram} {s : Sys}
  {tr : List Event}

theorem Accepted.task (h : Accepted tid a m p msg s tr) :
    ∃ ms, s.relays.get tid = some (.collect m p (relayOut p ms msg)) := by
  cases h with
  | intro _ ht hc hm hp hs hrun =>
    subst hm hp
    exact ⟨_, relay_waits_run hrun (lookup_section hs ht hc)⟩

theorem Accepted.reach (h : Accepted tid a m p msg s tr) : server.Reach Machine.anyStep s tr := by
  cases h with
  | intro hreach _ _ _ _ hs hrun =>
    exact (hreach.step trivial hs).run (hrun.mono fun _ _ _ => trivial)

theorem Accepted.registered (h : Accepted tid a m p msg s tr) :
    ∃ tx, Event.registered m p a tx ∈ tr := by
  cases h with
  | intro hreach _ hc hm hp _ _ =>
    subst hm hp
    obtain ⟨ho, -, -⟩ := (registrants hreach).session hc
    exact ⟨_, List.mem_append_left _ (List.mem_append_left _ ho)⟩

end Accepted

/-! ## The recipients and their sessions -/

def OwnSession (s : Sys) (m q : String) (b : SocketAddr) : Prop :=
  ∃ c, s.clients.get b = some c ∧ c.matchId = m ∧ c.playerId = q

theorem accepted_now {s : Sys} {tr : List Event} {tid : Nat} {a : SocketAddr}
    {msg : ClientDatagram} {m p : String} (hreach : server.Reach Machine.anyStep s tr)
    (ht : s.relays.get tid = some (.lookup a msg)) (hown : OwnSession s m p a)
    (hd : s.drain = none) :
    ∃ s' tr', Accepted tid a m p msg s' tr' ∧ s'.core = s.core ∧ s'.clients = s.clients := by
  obtain ⟨c, hc, hm, hp⟩ := hown
  have hs : server.step s (.relay tid {}) =
      some ({ s with relays := s.relays.insert tid (.collect c.matchId c.playerId
        (relayOut c.playerId 0 msg)) }, []) := by
    show stepRelay s tid {} = _
    simp [stepRelay, ht, hd, hc]
  exact ⟨_, _, .intro hreach ht hc hm hp hs .nil, rfl, rfl⟩

/-- A datagram from the first client. -/
def firstDatagram (msg : ClientDatagram) : Action := .recv 3 ⟨1, 1⟩ (.unreliable msg)

/-- The datagram has been received, and the session of `p` is at its address. -/
def heardFrom (p : String) (msg : ClientDatagram) (s : Sys) : Bool :=
  (match s.relays.get 3 with
    | some (.lookup a msg') => a == ⟨1, 1⟩ && msg' == msg
    | _ => false) &&
  ((s.clients.get ⟨1, 1⟩).any fun c => c.matchId == "m_r" && c.playerId == p) && s.drain.isNone

theorem accepted_of_heard {s : Sys} {tr : List Event} {p : String} {msg : ClientDatagram}
    (hreach : server.Reach Machine.anyStep s tr) (h : heardFrom p msg s = true) :
    ∃ s' tr', Accepted 3 ⟨1, 1⟩ "m_r" p msg s' tr' ∧ OwnSession s' "m_r" p ⟨1, 1⟩ ∧
      s'.core = s.core ∧ s'.clients = s.clients := by
  simp only [heardFrom, Bool.and_eq_true, Option.any_eq_true, beq_iff_eq,
    Option.isNone_iff_eq_none] at h
  obtain ⟨⟨htask, c, hc, hm, hp⟩, hd⟩ := h
  split at htask
  · next a msg' ht =>
    simp only [Bool.and_eq_true, beq_iff_eq] at htask
    obtain ⟨rfl, rfl⟩ := htask
    have hown : OwnSession s "m_r" p ⟨1, 1⟩ := ⟨c, hc, hm, hp⟩
    obtain ⟨s', tr', hacc, hcore, hclients⟩ := accepted_now hreach ht hown hd
    exact ⟨s', tr', hacc, ⟨c, hclients ▸ hc, hm, hp⟩, hcore, hclients⟩
  · cases htask

end Kotatsu
