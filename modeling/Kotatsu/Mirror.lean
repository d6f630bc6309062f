import Kotatsu.Authority
import Kotatsu.Lib.Parts
import Kotatsu.Shortened

/-
  A state and the part of it that is a room's

  `Mirrors m F S tr s t`: after the events `tr`, the state `t` has what is the room `m`'s in
  `s`, and nothing of what is an outsider's (`F`) or another room's. A channel is made before
  its player is registered, so the room's channels are a set of their own (`S`). A step of
  `m`'s is followed by the same step in `t` (`join_follows` and its likes), and a step that
  is not `m`'s leaves `t` where it is (`join_elsewhere` and its likes).
-/

namespace Kotatsu

open Machine (eventsOf)

/-! ## Sides -/

/-- Everything that speaks for a player is on the side of its room. -/
structure Sides (m : String) (F : List SocketAddr) (s : Sys) (tr : List Event) : Prop where
  consuming : ∀ {tid a token t}, s.joins.get tid = some (.consume a token) →
    s.core.tickets.get token = some t → (a ∈ F ↔ t.matchId ≠ m)
  registering : ∀ {tid a m' p name tx}, s.joins.get tid = some (.register a m' p name tx) →
    (a ∈ F ↔ m' ≠ m)
  registered : ∀ {m' p a tx}, Event.registered m' p a tx ∈ tr → (a ∈ F ↔ m' ≠ m)
  stored : ∀ {token t}, s.core.tickets.get token = some t → token ∈ s.seen
  entries : Registrants s tr
  registry : Registry s tr

theorem sides {G : Sys → Action → Prop} {m : String} {F : List SocketAddr} {s : Sys} {log : Log}
    (h : server.recorded.Reach G s log) (hd : Divides m F log) : Sides m F s (eventsOf log) := by
  have hprov : Provenance s log := provenance h
  refine ⟨?_, ?_, ?_, ?_, registrants h.unrecorded, registry h.unrecorded⟩
  · intro tid a token t ht hk
    exact hd a token t.matchId t.playerId (hprov.consuming ht) (ticket_issued h.unrecorded hk)
  · intro tid a m' p name tx ht
    exact hd.joined (hprov.registering ht)
  · intro m' p a tx he
    exact hd.joined (hprov.registered he)
  · intro token t hk
    obtain ⟨req, resp, now, he, -, -, rfl⟩ := ticket_issued h.unrecorded hk
    exact (tokensSeen h.unrecorded).issued he

/-- The channel is another room's. -/
def ChannelElsewhere (tr : List Event) (m : String) (tx : ChanId) : Prop :=
  ∃ m', m' ≠ m ∧ ChannelOf tr m' tx

theorem ChannelElsewhere.mono {tr : List Event} {m : String} {tx : ChanId}
    (h : ChannelElsewhere tr m tx) (evs : List Event) : ChannelElsewhere (tr ++ evs) m tx := by
  obtain ⟨m', hne, hm'⟩ := h
  exact ⟨m', hne, hm'.mono evs⟩

section Sides
variable {m : String} {F : List SocketAddr} {s : Sys} {tr : List Event}

/-- What is not an outsider's is the room's. -/
theorem own_of_side {a : SocketAddr} {m' : String} (h : a ∈ F ↔ m' ≠ m) (ha : a ∉ F) : m' = m :=
  not_ne_iff.mp (mt h.mpr ha)

theorem channel_elsewhere {p m' : String} {a : SocketAddr} {tx : ChanId} (hm : m' ≠ m)
    (h : Event.registered m' p a tx ∈ tr) : ChannelElsewhere tr m tx := ⟨m', hm, p, a, h⟩

theorem Sides.session (h : Sides m F s tr) {a : SocketAddr} {c : ClientSession}
    (hc : s.clients.get a = some c) :
    (a ∈ F ↔ c.matchId ≠ m) ∧ c.addr = a ∧ ChannelOf tr c.matchId c.rx ∧ c.rx = c.tx := by
  obtain ⟨hreg, haddr, hrx⟩ := h.entries.session hc
  exact ⟨h.registered hreg, haddr, ⟨_, _, hrx ▸ hreg⟩, hrx⟩

theorem Sides.removing (h : Sides m F s tr) {tid : Nat} {c : ClientSession}
    (ht : s.joins.get tid = some (.remove c)) :
    (c.addr ∈ F ↔ c.matchId ≠ m) ∧ ChannelOf tr c.matchId c.rx := by
  obtain ⟨hreg, hrx⟩ := h.entries.removing ht
  exact ⟨h.registered hreg, _, _, hrx ▸ hreg⟩

/-- A channel of a seat is one of its room. -/
theorem Sides.recipient (h : Sides m F s tr) {m' : String} {room : MatchRoom}
    (hr : s.core.rooms.get m' = some room) {tx : ChanId}
    (htx : tx ∈ room.players.values.map (·.reliableTx)) : ChannelOf tr m' tx := by
  obtain ⟨q, seat, hseat, rfl⟩ := mem_recipients.mp htx
  obtain ⟨a, ho, -⟩ := seat_registered h.entries ((seat_of_room hr q).trans hseat)
  exact ⟨q, a, ho⟩

/-- An address that a datagram of a room is relayed to is on the side of the room. -/
theorem Sides.relayed (h : Sides m F s tr) {m' p : String} {out : ServerDatagram}
    {addrs : List SocketAddr} (hr : relayAddrs s.core m' p out = some addrs) {a : SocketAddr}
    (ha : a ∈ addrs) : a ∈ F ↔ m' ≠ m := by
  obtain ⟨q, hseat⟩ := relayed_seat hr ha
  obtain ⟨tx, ho⟩ := hseat.registered h.entries
  exact h.registered ho

end Sides

/-! ## The part of a room -/

/-- The address that the task serves. -/
def JoinTask.addr : JoinTask → SocketAddr
  | .check addr _ | .consume addr _ | .register addr _ _ _ _ | .insert addr _ _ _ _
  | .sendOk addr _ _ _ | .rollback addr | .sendError addr _ _ _ => addr
  | .remove session => session.addr

/-- The task and the channel that it has made are the room's. -/
def JoinTask.within (F : List SocketAddr) (S : Set ChanId) (j : JoinTask) : Prop :=
  j.addr ∉ F ∧ ∀ tx, j.unregistered = some tx → tx ∈ S

def JoinTask.elsewhere (F : List SocketAddr) (S : Set ChanId) (j : JoinTask) : Prop :=
  j.addr ∈ F ∧ ∀ tx, j.unregistered = some tx → tx ∉ S

def ParamTask.elsewhere (m : String) (F : List SocketAddr) : ParamTask → Prop
  | .lookup addr _ _ _ => addr ∈ F
  | .update m' _ _ _ _ _ => m' ≠ m

def Cast.within (tr : List Event) (m : String) : Cast → Prop
  | .collect m' _ => m' = m
  | .sending txs _ => ∀ tx ∈ txs, ChannelOf tr m tx

def Cast.elsewhere (tr : List Event) (m : String) : Cast → Prop
  | .collect m' _ => m' ≠ m
  | .sending txs _ => ∀ tx ∈ txs, ChannelElsewhere tr m tx

def RelayTask.within (m : String) (F : List SocketAddr) : RelayTask → Prop
  | .lookup addr _ => addr ∉ F
  | .collect m' _ _ => m' = m
  | .sending addrs _ => ∀ a ∈ addrs, a ∉ F

def RelayTask.elsewhere (m : String) (F : List SocketAddr) : RelayTask → Prop
  | .lookup addr _ => addr ∈ F
  | .collect m' _ _ => m' ≠ m
  | .sending addrs _ => ∀ a ∈ addrs, a ∈ F

/-- What the outgoing task has to do for the room. -/
def DrainTask.without (F : List SocketAddr) : DrainTask → DrainTask
  | .take addrs => .take (addrs.filter (· ∉ F))
  | .send session msg addrs =>
    if session.addr ∈ F then .take (addrs.filter (· ∉ F))
    else .send session msg (addrs.filter (· ∉ F))

/-- A task without a channel of its own. -/
theorem JoinTask.outside {F : List SocketAddr} {S : Set ChanId} {j : JoinTask} (ha : j.addr ∉ F)
    (hj : j.unregistered = none) : j.within F S := by
  refine ⟨ha, fun tx htx => ?_⟩
  rw [hj] at htx
  cases htx

theorem JoinTask.inside {F : List SocketAddr} {S : Set ChanId} {j : JoinTask} (ha : j.addr ∈ F)
    (hj : j.unregistered = none) : j.elsewhere F S := by
  refine ⟨ha, fun tx htx => ?_⟩
  rw [hj] at htx
  cases htx

structure Mirrors (m : String) (F : List SocketAddr) (S : Set ChanId) (tr : List Event)
    (s t : Sys) : Prop where
  url : t.udpPublicUrl = s.udpPublicUrl
  rooms : HashMap.Part (fun m' _ => m' = m) (fun m' _ => m' ≠ m) s.core.rooms t.core.rooms
  tickets : HashMap.Part (fun _ k => k.matchId = m) (fun _ k => k.matchId ≠ m)
    s.core.tickets t.core.tickets
  clients : HashMap.Part (fun a _ => a ∉ F) (fun a _ => a ∈ F) s.clients t.clients
  owned : ∀ {m' p a tx}, Event.registered m' p a tx ∈ tr → (tx ∈ S ↔ m' = m)
  chans : HashMap.Part (fun tx _ => tx ∈ S) (fun tx _ => tx ∉ S) s.chans t.chans
  joins : HashMap.Part (fun _ j => j.within F S) (fun _ j => j.elsewhere F S) s.joins t.joins
  params : HashMap.Part (fun _ p => ¬ p.elsewhere m F) (fun _ p => p.elsewhere m F)
    s.params t.params
  casts : HashMap.Part (fun _ c => c.within tr m) (fun _ c => c.elsewhere tr m) s.casts t.casts
  relays : HashMap.Part (fun _ r => r.within m F) (fun _ r => r.elsewhere m F) s.relays t.relays
  cleanups : t.cleanups = s.cleanups
  drain : t.drain = s.drain.map (·.without F)
  seen : ∀ x ∈ t.seen, x ∈ s.seen

theorem mirrors_init (m : String) (F : List SocketAddr) (url : String) :
    Mirrors m F ∅ [] (Sys.init url) (Sys.init url) :=
  ⟨rfl, .empty, .empty, .empty, fun h => absurd h List.not_mem_nil, .empty, .empty, .empty, .empty,
    .empty, rfl, rfl, fun _ h => h⟩

section Mirrors
variable {m : String} {F : List SocketAddr} {S : Set ChanId} {tr : List Event} {s t : Sys}

theorem Mirrors.append (h : Mirrors m F S tr s t) {evs : List Event}
    (ho : ∀ {m' p a tx}, Event.registered m' p a tx ∈ evs → (tx ∈ S ↔ m' = m)) :
    Mirrors m F S (tr ++ evs) s t := by
  refine { h with owned := ?_, casts := ?_ }
  · intro m' p a tx he
    exact (List.mem_append.mp he).elim h.owned ho
  · refine h.casts.mono ?_ ?_
    · intro _ c hc
      cases c with
      | collect m' msg => exact hc
      | sending txs msg => exact fun tx htx => (hc tx htx).mono evs
    · intro _ c hc
      cases c with
      | collect m' msg => exact hc
      | sending txs msg => exact fun tx htx => (hc tx htx).mono evs

/-- Events without a registration. -/
theorem Mirrors.mono (h : Mirrors m F S tr s t) (evs : List Event)
    (hno : ∀ m' p a tx, Event.registered m' p a tx ∉ evs) : Mirrors m F S (tr ++ evs) s t :=
  h.append fun he => absurd he (hno _ _ _ _)

theorem Mirrors.quiet (h : Mirrors m F S tr s t) : Mirrors m F S (tr ++ []) s t :=
  h.mono [] fun _ _ _ _ => List.not_mem_nil

/-- A channel that is still to be made may be on either side. -/
theorem Mirrors.resize (h : Mirrors m F S tr s t) (hreg : Registry s tr) {tx : ChanId}
    (hf : s.chans.get tx = none) {T : Set ChanId} (hS : ∀ tx', tx' ≠ tx → (tx' ∈ T ↔ tx' ∈ S)) :
    Mirrors m F T tr s t := by
  have hold : ∀ {tx'}, (∃ c, s.chans.get tx' = some c) → (tx' ∈ T ↔ tx' ∈ S) := by
    intro tx' hc
    refine hS tx' fun heq => ?_
    obtain ⟨c, hc⟩ := hc
    rw [heq, hf] at hc
    cases hc
  refine { h with owned := ?_, chans := ?_, joins := ?_ }
  · intro m' p a tx' ho
    exact (hold (hreg.chan ho)).trans (h.owned ho)
  · exact h.chans.congr fun tx' c hc => ⟨(hold ⟨c, hc⟩).mpr, mt (hold ⟨c, hc⟩).mp⟩
  · refine h.joins.congr fun tid j hj => ⟨fun hmine => ⟨hmine.1, ?_⟩, fun hother => ⟨hother.1, ?_⟩⟩
    · intro tx' htx
      exact (hold (hreg.opened ⟨j, hj, htx⟩).1).mpr (hmine.2 tx' htx)
    · intro tx' htx hS'
      exact hother.2 tx' htx ((hold (hreg.opened ⟨j, hj, htx⟩).1).mp hS')

theorem Mirrors.room (h : Mirrors m F S tr s t) : t.core.rooms.get m = s.core.rooms.get m :=
  h.rooms.get_eq fun _ _ hne => hne rfl

theorem Mirrors.client (h : Mirrors m F S tr s t) {a : SocketAddr} (ha : a ∉ F) :
    t.clients.get a = s.clients.get a := h.clients.get_eq fun _ _ => ha

theorem Mirrors.own (h : Mirrors m F S tr s t) {tx : ChanId} (ho : ChannelOf tr m tx) : tx ∈ S := by
  obtain ⟨p, a, ho⟩ := ho
  exact (h.owned ho).mpr rfl

theorem Mirrors.chan (h : Mirrors m F S tr s t) {tx : ChanId} (ho : ChannelOf tr m tx) :
    t.chans.get tx = s.chans.get tx := h.chans.get_eq fun _ _ hno => hno (h.own ho)

theorem Mirrors.draining (h : Mirrors m F S tr s t) : t.drain.isSome = s.drain.isSome := by
  rw [h.drain, Option.isSome_map]

end Mirrors

/-! ## Steps of the room -/

/-- The ends of two steps that emit `evs`, after the events `tr`. -/
def Beside (m : String) (F : List SocketAddr) (tr : List Event) (s t : Sys) (evs : List Event) :
    Prop := ∃ S, Mirrors m F S (tr ++ evs) s t

section Join
variable {m : String} {F : List SocketAddr} {S : Set ChanId} {tr : List Event} {s t : Sys}
  {tid : Nat} {addr : SocketAddr}

theorem check_follows (h : Mirrors m F S tr s t) {token : String} (ha : addr ∉ F)
    (hs : s.joins.get tid = some (.check addr token))
    (ht : t.joins.get tid = some (.check addr token)) (ch : Choice) :
    Follows (Beside m F tr) (stepJoin s tid ch) (stepJoin t tid ch) := by
  simp only [stepJoin, hs, ht, HashMap.contains, h.client ha, h.draining]
  have h' := h.quiet
  refine .guard id fun _ => .ite ?_ ?_
  · intro _
    exact .done ⟨_, { h' with joins := h'.joins.remove tid }⟩
  · intro _
    exact .done ⟨_, { h' with joins := h'.joins.insert (JoinTask.outside ha rfl) }⟩

theorem consume_follows (hsd : Sides m F s tr) (h : Mirrors m F S tr s t) {token : String}
    (ha : addr ∉ F) (hs : s.joins.get tid = some (.consume addr token))
    (ht : t.joins.get tid = some (.consume addr token)) (ch : Choice) :
    Follows (Beside m F tr) (stepJoin s tid ch) (stepJoin t tid ch) := by
  have hk : t.core.tickets.get token = s.core.tickets.get token := by
    refine h.tickets.get_eq ?_
    intro k hk hne
    exact hne (own_of_side (hsd.consuming hs hk) ha)
  simp only [stepJoin, hs, ht, consumeTicket, hk]
  cases s.core.tickets.get token with
  | none =>
    have h' := h.mono [.ticketPresented token ch.nowUnix (.error "invalid_token")] (by simp)
    exact .done ⟨_, { h' with joins := h'.joins.insert (JoinTask.outside ha rfl) }⟩
  | some k =>
    dsimp only
    by_cases hx : k.expiresAtUnix < ch.nowUnix
    · rw [if_pos hx, if_pos hx]
      have h' := h.mono [.ticketPresented token ch.nowUnix (.error "token_expired")] (by simp)
      exact .done ⟨_,
        { h' with
          tickets := h'.tickets.remove token
          joins := h'.joins.insert (JoinTask.outside ha rfl) }⟩
    · rw [if_neg hx, if_neg hx]
      refine .guard h.chans.free fun hfree => ?_
      -- the channel that the task makes is the room's
      have h' := (h.resize hsd.registry (HashMap.get_eq_none hfree) (T := insert ch.fresh S)
        fun tx' hne => Set.mem_insert_iff.trans (or_iff_right hne)).mono
        [.ticketPresented token ch.nowUnix (.ok (k.matchId, k.playerId, k.displayName))] (by simp)
      refine .done ⟨_,
        { h' with
          tickets := h'.tickets.remove token
          chans := h'.chans.insert (Set.mem_insert _ _)
          joins := h'.joins.insert ⟨ha, ?_⟩ }⟩
      intro tx htx
      cases htx
      exact Set.mem_insert _ _

theorem register_follows (hsd : Sides m F s tr) (h : Mirrors m F S tr s t) {m' p name : String}
    {tx : ChanId} (hj : (JoinTask.register addr m' p name tx).within F S)
    (hs : s.joins.get tid = some (.register addr m' p name tx))
    (ht : t.joins.get tid = some (.register addr m' p name tx)) (ch : Choice) :
    Follows (Beside m F tr) (stepJoin s tid ch) (stepJoin t tid ch) := by
  obtain ⟨ha, hown⟩ := hj
  obtain rfl : m' = m := own_of_side (hsd.registering hs) ha
  have htx : tx ∈ S := hown tx rfl
  simp only [stepJoin, hs, ht, registerPlayerUdp, h.room]
  have hrefused : ∀ e, Mirrors m' F S (tr ++ [.registerRefused m' p e])
      { s with joins := s.joins.insert tid (.sendError addr "join_failed" e (some tx)) }
      { t with joins := t.joins.insert tid (.sendError addr "join_failed" e (some tx)) } := by
    intro e
    have h' := h.mono [.registerRefused m' p e] (by simp)
    exact { h' with joins := h'.joins.insert ⟨ha, hown⟩ }
  cases hr : s.core.rooms.get m' with
  | none => exact .done ⟨_, hrefused "match_not_found"⟩
  | some room =>
    dsimp only
    by_cases hfull : room.FullFor p
    · rw [if_pos hfull, if_pos hfull]
      exact .done ⟨_, hrefused "match_full"⟩
    · rw [if_neg hfull, if_neg hfull]
      have h' : Mirrors m' F S (tr ++ [.registered m' p addr tx]) s t := by
        refine h.append fun he => ?_
        cases List.mem_singleton.mp he
        exact iff_of_true htx rfl
      exact .done ⟨_,
        { h' with
          rooms := h'.rooms.insert rfl
          joins := h'.joins.insert (JoinTask.outside ha rfl) }⟩

theorem insert_follows (hsd : Sides m F s tr) (h : Mirrors m F S tr s t) {m' p : String}
    {params : PlayerParams} {tx : ChanId} (ha : addr ∉ F)
    (hs : s.joins.get tid = some (.insert addr m' p params tx))
    (ht : t.joins.get tid = some (.insert addr m' p params tx)) (ch : Choice) :
    Follows (Beside m F tr) (stepJoin s tid ch) (stepJoin t tid ch) := by
  simp only [stepJoin, hs, ht, h.client ha, h.draining]
  have h' := h.quiet
  refine .guard id fun _ => .done ⟨_,
    { h' with
      clients := h'.clients.insert ha
      chans := ?_
      joins := h'.joins.insert (JoinTask.outside ha rfl) }⟩
  cases hc : s.clients.get addr with
  | none => exact h'.chans
  | some c =>
    -- the session that is replaced is one of the room
    obtain ⟨hside, -, ho, -⟩ := hsd.session hc
    have hm : c.matchId = m := own_of_side hside ha
    exact h'.chans.insert (h.own (hm ▸ ho))

theorem sendOk_follows (h : Mirrors m F S tr s t) {m' p : String} {params : PlayerParams}
    (ha : addr ∉ F) (hs : s.joins.get tid = some (.sendOk addr m' p params))
    (ht : t.joins.get tid = some (.sendOk addr m' p params)) (ch : Choice) :
    Follows (Beside m F tr) (stepJoin s tid ch) (stepJoin t tid ch) := by
  simp only [stepJoin, hs, ht]
  refine .ite ?_ ?_
  · intro _
    have h' := h.mono [.sentReliable addr (.joinOk m' p params ch.nowMs)] (by simp)
    exact .done ⟨_, { h' with joins := h'.joins.remove tid }⟩
  · intro _
    have h' := h.quiet
    exact .done ⟨_, { h' with joins := h'.joins.insert (JoinTask.outside ha rfl) }⟩

theorem rollback_follows (hsd : Sides m F s tr) (h : Mirrors m F S tr s t) (ha : addr ∉ F)
    (hs : s.joins.get tid = some (.rollback addr))
    (ht : t.joins.get tid = some (.rollback addr)) (ch : Choice) :
    Follows (Beside m F tr) (stepJoin s tid ch) (stepJoin t tid ch) := by
  simp only [stepJoin, hs, ht, h.client ha, h.draining]
  have h' := h.quiet
  refine .guard id fun _ => ?_
  cases hc : s.clients.get addr with
  | none => exact .done ⟨_, { h' with joins := h'.joins.remove tid }⟩
  | some c =>
    have hout : c.addr ∉ F := (hsd.session hc).2.1.symm ▸ ha
    exact .done ⟨_,
      { h' with
        clients := h'.clients.remove addr
        joins := h'.joins.insert (JoinTask.outside hout rfl) }⟩

theorem remove_follows (hsd : Sides m F s tr) (h : Mirrors m F S tr s t) {c : ClientSession}
    (ha : c.addr ∉ F) (hs : s.joins.get tid = some (.remove c))
    (ht : t.joins.get tid = some (.remove c)) (ch : Choice) :
    Follows (Beside m F tr) (stepJoin s tid ch) (stepJoin t tid ch) := by
  obtain ⟨hside, ho⟩ := hsd.removing hs
  obtain rfl : c.matchId = m := own_of_side hside ha
  have hroom : t.core.rooms.get c.matchId = s.core.rooms.get c.matchId := h.room
  cases hr : s.core.rooms.get c.matchId with
  | none =>
    simp only [stepJoin, hs, ht, removePlayer, HashMap.contains, hroom, hr]
    have h' := h.quiet
    exact .done ⟨_,
      { h' with
        chans := h'.chans.insert (h.own ho)
        joins := h'.joins.remove tid }⟩
  | some room =>
    simp only [stepJoin, hs, ht, removePlayer, HashMap.contains, hroom, hr]
    have h' := h.mono [.seatRemoved c.matchId c.playerId] (by simp)
    exact .done ⟨_,
      { h' with
        rooms := h'.rooms.insert rfl
        chans := h'.chans.insert (h.own ho)
        joins := h'.joins.remove tid }⟩

theorem sendError_follows (h : Mirrors m F S tr s t) {code message : String} {rx : Option ChanId}
    (hj : (JoinTask.sendError addr code message rx).within F S)
    (hs : s.joins.get tid = some (.sendError addr code message rx))
    (ht : t.joins.get tid = some (.sendError addr code message rx)) (ch : Choice) :
    Follows (Beside m F tr) (stepJoin s tid ch) (stepJoin t tid ch) := by
  simp only [stepJoin, hs, ht]
  have h' := h.mono (if ch.sendOk then [.sentReliable addr (.error code message)] else [])
    (by split <;> simp)
  refine .done ⟨S, { h' with chans := ?_, joins := h'.joins.remove tid }⟩
  cases rx with
  | none => exact h'.chans
  | some tx => exact h'.chans.insert (hj.2 tx rfl)

theorem join_follows (hsd : Sides m F s tr) (h : Mirrors m F S tr s t)
    (ht : t.joins.contains tid = true) (ch : Choice) :
    Follows (Beside m F tr) (stepJoin s tid ch) (stepJoin t tid ch) := by
  obtain ⟨j, ht⟩ := HashMap.contains_iff.mp ht
  obtain ⟨hs, ha⟩ := h.joins.get_some ht
  cases j with
  | check addr token => exact check_follows h ha.1 hs ht ch
  | consume addr token => exact consume_follows hsd h ha.1 hs ht ch
  | register addr m' p name tx => exact register_follows hsd h ha hs ht ch
  | insert addr m' p params tx => exact insert_follows hsd h ha.1 hs ht ch
  | sendOk addr m' p params => exact sendOk_follows h ha.1 hs ht ch
  | rollback addr => exact rollback_follows hsd h ha.1 hs ht ch
  | remove c => exact remove_follows hsd h ha.1 hs ht ch
  | sendError addr code message rx => exact sendError_follows h ha hs ht ch

end Join

section Tasks
variable {m : String} {F : List SocketAddr} {S : Set ChanId} {tr : List Event} {s t : Sys}
  {tid : Nat}

theorem lookup_follows (hsd : Sides m F s tr) (h : Mirrors m F S tr s t) {addr : SocketAddr}
    {seq : Nat} {k : ParamKind} {d : ParamDirection} (ha : addr ∉ F)
    (hs : s.params.get tid = some (.lookup addr seq k d))
    (ht : t.params.get tid = some (.lookup addr seq k d)) (ch : Choice) :
    Follows (Beside m F tr) (stepParam s tid ch) (stepParam t tid ch) := by
  simp only [stepParam, hs, ht, h.client ha, h.draining]
  have h' := h.quiet
  refine .guard id fun _ => ?_
  cases hc : s.clients.get addr with
  | none => exact .done ⟨_, { h' with params := h'.params.remove tid }⟩
  | some c =>
    have hm : c.matchId = m := own_of_side (hsd.session hc).1 ha
    exact .done ⟨_, { h' with params := h'.params.insert (not_ne_iff.mpr hm) }⟩

theorem update_follows (hsd : Sides m F s tr) (h : Mirrors m F S tr s t) {m' p : String}
    {tx : ChanId} {seq : Nat} {k : ParamKind} {d : ParamDirection} (hm : m' = m)
    (hs : s.params.get tid = some (.update m' p tx seq k d))
    (ht : t.params.get tid = some (.update m' p tx seq k d)) (ch : Choice) :
    Follows (Beside m F tr) (stepParam s tid ch) (stepParam t tid ch) := by
  subst hm
  obtain ⟨a, hreg⟩ := hsd.entries.updating hs
  simp only [stepParam, hs, ht, updatePlayerParams, h.room]
  refine .guard h.casts.free fun _ => ?_
  have hrefused : ∀ e, Mirrors m' F S (tr ++ [.paramRefused m' p k d ch.nowUnix e])
      { s with
        params := s.params.remove tid
        casts := s.casts.insert ch.fresh (.sending [tx] (.error "param_update_failed" e)) }
      { t with
        params := t.params.remove tid
        casts := t.casts.insert ch.fresh (.sending [tx] (.error "param_update_failed" e)) } := by
    intro e
    have h' := h.mono [.paramRefused m' p k d ch.nowUnix e] (by simp)
    refine { h' with params := h'.params.remove tid, casts := h'.casts.insert ?_ }
    intro tx' htx
    obtain rfl := List.mem_singleton.mp htx
    exact ChannelOf.mono ⟨p, a, hreg⟩ _
  cases hr : s.core.rooms.get m' with
  | none => exact .done ⟨_, hrefused _⟩
  | some room =>
    dsimp only
    cases room.players.get p with
    | none => exact .done ⟨_, hrefused _⟩
    | some player =>
      dsimp only
      cases applyParamChange player.params player.nextParamChangeAtUnix k d ch.nowUnix with
      | error e => exact .done ⟨_, hrefused _⟩
      | ok mu =>
        have h' := h.mono [.paramUpdated m' p k d ch.nowUnix mu] (by simp)
        exact .done ⟨_,
          { h' with
            rooms := h'.rooms.insert rfl
            params := h'.params.remove tid
            casts := h'.casts.insert rfl }⟩

theorem param_follows (hsd : Sides m F s tr) (h : Mirrors m F S tr s t)
    (ht : t.params.contains tid = true) (ch : Choice) :
    Follows (Beside m F tr) (stepParam s tid ch) (stepParam t tid ch) := by
  obtain ⟨p, ht⟩ := HashMap.contains_iff.mp ht
  obtain ⟨hs, hmine⟩ := h.params.get_some ht
  cases p with
  | lookup addr seq k d => exact lookup_follows hsd h hmine hs ht ch
  | update m' p tx seq k d => exact update_follows hsd h (not_ne_iff.mp hmine) hs ht ch

theorem collect_follows (hsd : Sides m F s tr) (h : Mirrors m F S tr s t) {m' : String}
    {msg : ServerReliable} (hm : m' = m) (hs : s.casts.get tid = some (.collect m' msg))
    (ht : t.casts.get tid = some (.collect m' msg)) (ch : Choice) :
    Follows (Beside m F tr) (stepCast s tid ch) (stepCast t tid ch) := by
  subst hm
  simp only [stepCast, hs, ht, reliableSenders, h.room]
  have h' := h.quiet
  cases hr : s.core.rooms.get m' with
  | none => exact .done ⟨_, { h' with casts := h'.casts.remove tid }⟩
  | some room =>
    refine .ite ?_ fun _ => .refused _
    intro hperm
    refine .done ⟨_, { h' with casts := h'.casts.insert ?_ }⟩
    intro tx htx
    exact (hsd.recipient hr (hperm.mem_iff.mp htx)).mono []

theorem sending_follows (h : Mirrors m F S tr s t) {tx : ChanId}
    {txs : List ChanId} {msg : ServerReliable} (hm : ∀ x ∈ tx :: txs, ChannelOf tr m x)
    (hs : s.casts.get tid = some (.sending (tx :: txs) msg))
    (ht : t.casts.get tid = some (.sending (tx :: txs) msg)) (ch : Choice) :
    Follows (Beside m F tr) (stepCast s tid ch) (stepCast t tid ch) := by
  have htx : ChannelOf tr m tx := hm tx List.mem_cons_self
  have hrest : ∀ evs, Cast.within (tr ++ evs) m (.sending txs msg) :=
    fun evs x hx => (hm x (List.mem_cons_of_mem _ hx)).mono evs
  simp only [stepCast, hs, ht, h.chan htx]
  cases s.chans.get tx with
  | none => exact .refused _
  | some chan =>
    refine .ite ?_ ?_
    · intro _
      refine .ite ?_ fun _ => .refused _
      intro _
      have h' := h.mono [.enqueued tx msg] (by simp)
      exact .done ⟨_,
        { h' with
          chans := h'.chans.insert (h.own htx)
          casts := h'.casts.insert (hrest _) }⟩
    · intro _
      have h' := h.quiet
      exact .done ⟨_, { h' with casts := h'.casts.insert (hrest _) }⟩

theorem cast_follows (hsd : Sides m F s tr) (h : Mirrors m F S tr s t)
    (ht : t.casts.contains tid = true) (ch : Choice) :
    Follows (Beside m F tr) (stepCast s tid ch) (stepCast t tid ch) := by
  obtain ⟨c, ht⟩ := HashMap.contains_iff.mp ht
  obtain ⟨hs, hmine⟩ := h.casts.get_some ht
  cases c with
  | collect m' msg => exact collect_follows hsd h hmine hs ht ch
  | sending txs msg =>
    cases txs with
    | nil =>
      simp only [stepCast, hs, ht]
      have h' := h.quiet
      exact .done ⟨_, { h' with casts := h'.casts.remove tid }⟩
    | cons tx txs => exact sending_follows h hmine hs ht ch

/-- The addresses of a broadcast in the room are the same. -/
theorem Mirrors.relayAddrs (h : Mirrors m F S tr s t) (p : String) (out : ServerDatagram) :
    Kotatsu.relayAddrs t.core m p out = Kotatsu.relayAddrs s.core m p out := by
  cases out with
  | pos => simp only [Kotatsu.relayAddrs, datagramAddrs, h.room]
  | stageProgress => simp only [Kotatsu.relayAddrs, datagramAddrsToAll, h.room]

theorem relay_follows (hsd : Sides m F s tr) (h : Mirrors m F S tr s t)
    (ht : t.relays.contains tid = true) (ch : Choice) :
    Follows (Beside m F tr) (stepRelay s tid ch) (stepRelay t tid ch) := by
  obtain ⟨r, ht⟩ := HashMap.contains_iff.mp ht
  obtain ⟨hs, hmine⟩ := h.relays.get_some ht
  have h' := h.quiet
  cases r with
  | lookup addr msg =>
    simp only [stepRelay, hs, ht, h.client hmine, h.draining]
    refine .guard id fun _ => ?_
    cases hc : s.clients.get addr with
    | none => exact .done ⟨_, { h' with relays := h'.relays.remove tid }⟩
    | some c =>
      have hm : c.matchId = m := own_of_side (hsd.session hc).1 hmine
      exact .done ⟨_, { h' with relays := h'.relays.insert hm }⟩
  | collect m' p out =>
    obtain rfl : m' = m := hmine
    simp only [stepRelay, hs, ht, h.relayAddrs]
    cases hr : Kotatsu.relayAddrs s.core m' p out with
    | none => exact .done ⟨_, { h' with relays := h'.relays.remove tid }⟩
    | some addrs =>
      refine .ite ?_ fun _ => .refused _
      intro hperm
      refine .done ⟨_, { h' with relays := h'.relays.insert ?_ }⟩
      intro a ha hF
      exact (hsd.relayed hr (hperm.mem_iff.mp ha)).mp hF rfl
  | sending addrs out =>
    cases addrs with
    | nil =>
      simp only [stepRelay, hs, ht]
      exact .done ⟨_, { h' with relays := h'.relays.remove tid }⟩
    | cons addr addrs =>
      simp only [stepRelay, hs, ht]
      have h' := h.mono (if ch.sendOk then [.sentDatagram addr out] else []) (by split <;> simp)
      refine .done ⟨_, { h' with relays := h'.relays.insert ?_ }⟩
      intro a ha
      exact hmine a (List.mem_cons_of_mem _ ha)

/-- The outgoing task, at an address that is not an outsider's. -/
theorem drainStep_follows (hsd : Sides m F s tr) (h : Mirrors m F S tr s t)
    (htake : ∀ addr rest, s.drain = some (.take (addr :: rest)) → addr ∉ F)
    (hsend : ∀ c msg rest, s.drain = some (.send c msg rest) → c.addr ∉ F) (sendOk : Bool) :
    Follows (Beside m F tr) (drainStep s sendOk) (drainStep t sendOk) := by
  have hdrain := h.drain
  have h' := h.quiet
  cases hd : s.drain with
  | none =>
    simp only [drainStep, hd]
    exact .refused _
  | some d =>
    rw [hd, Option.map_some] at hdrain
    cases d with
    | take order =>
      cases order with
      | nil =>
        rw [DrainTask.without, List.filter_nil] at hdrain
        simp only [drainStep, hd, hdrain]
        exact .done ⟨S, { h' with drain := rfl }⟩
      | cons addr rest =>
        have ha : addr ∉ F := htake addr rest hd
        have hnext : Mirrors m F S (tr ++ []) { s with drain := some (.take rest) }
            { t with drain := some (.take (rest.filter (· ∉ F))) } := { h' with drain := rfl }
        rw [DrainTask.without, List.filter_cons_of_pos (by simpa using ha)] at hdrain
        simp only [drainStep, hd, hdrain, h.client ha]
        cases hc : s.clients.get addr with
        | none => exact .done ⟨S, hnext⟩
        | some c =>
          obtain ⟨hside, haddr, ho, -⟩ := hsd.session hc
          have hca : c.addr ∉ F := haddr ▸ ha
          obtain rfl : c.matchId = m := own_of_side hside ha
          dsimp only
          rw [h.chan ho]
          cases s.chans.get c.rx with
          | none => exact .done ⟨S, hnext⟩
          | some chan =>
            obtain ⟨queue, alive⟩ := chan
            cases queue with
            | nil => exact .done ⟨S, hnext⟩
            | cons msg queue =>
              exact .done ⟨S,
                { h' with
                  chans := h'.chans.insert (h.own ho)
                  drain := by simp [DrainTask.without, ha, hca] }⟩
    | send c msg rest =>
      have hca : c.addr ∉ F := hsend c msg rest hd
      rw [DrainTask.without, if_neg hca] at hdrain
      simp only [drainStep, hd, hdrain]
      have h' := h.mono (if sendOk then [.sentReliable c.addr msg] else []) (by split <;> simp)
      exact .done ⟨S, { h' with drain := rfl }⟩

end Tasks

section Requests
variable {m : String} {F : List SocketAddr} {S : Set ChanId} {tr : List Event} {s t : Sys}

theorem create_follows (h : Mirrors m F S tr s t) {uuid : String} (hm : matchIdOf uuid = m)
    (now : Nat) :
    Follows (Beside m F tr) (step s (.createRoom uuid now)) (step t (.createRoom uuid now)) := by
  simp only [step, createRoom]
  refine .guard (fun hnew hseen => hnew (h.seen _ hseen)) fun _ => ?_
  have h' := h.mono [.roomCreated { matchId := matchIdOf uuid, maxPlayers := roomMaxPlayers } now]
    (by simp)
  refine .done ⟨_, { h' with rooms := h'.rooms.insert hm, seen := ?_ }⟩
  intro x hx
  rcases List.mem_cons.mp hx with rfl | hx
  · exact List.mem_cons_self
  · exact List.mem_cons_of_mem _ (h.seen x hx)

theorem get_follows (h : Mirrors m F S tr s t) :
    Follows (Beside m F tr) (step s (.getRoom m)) (step t (.getRoom m)) := by
  simp only [step, getRoom, h.room]
  cases s.core.rooms.get m with
  | none => exact .done ⟨_, h.mono _ (by simp)⟩
  | some room => exact .done ⟨_, h.mono _ (by simp)⟩

theorem issue_follows (h : Mirrors m F S tr s t) {req : IssueJoinTicketRequest}
    (hm : req.matchId = m) (uuid token : String) (now : Nat) :
    Follows (Beside m F tr) (step s (.issueJoinTicket req uuid token now))
      (step t (.issueJoinTicket req uuid token now)) := by
  subst hm
  simp only [step, issueJoinTicket, h.room]
  refine .guard ?_ fun _ => ?_
  · intro hnew hseen
    exact hnew (hseen.imp (h.seen _) (Or.imp_left (h.seen _)))
  · cases hr : s.core.rooms.get req.matchId with
    | none => exact .done ⟨_, h.mono _ (by simp)⟩
    | some room =>
      dsimp only
      by_cases hl : roomMaxPlayers ≤ room.players.len
      · rw [if_pos hl, if_pos hl]
        exact .done ⟨_, h.mono _ (by simp)⟩
      · rw [if_neg hl, if_neg hl, h.url]
        have h' := h.mono [.ticketIssued req
          { matchId := req.matchId
            playerId := playerIdOf uuid
            token := token
            tokenExpiresAtUnix := now + tokenTtlSecs
            udpUrl := s.udpPublicUrl } now] (by simp)
        refine .done ⟨_,
          { h' with
            url := rfl
            rooms := h'.rooms.insert rfl
            tickets := h'.tickets.insert rfl
            seen := ?_ }⟩
        intro x hx
        simp only [List.mem_cons] at hx ⊢
        exact hx.imp_right (Or.imp_right (h.seen x))

theorem start_follows (h : Mirrors m F S tr s t) (sh : Shuffles) (ch : Choice) :
    Follows (Beside m F tr) (step s (.startRoom m sh ch)) (step t (.startRoom m sh ch)) := by
  simp only [step, startRoom, startMatchAndSnapshotPlayers, h.room]
  refine .guard h.casts.free fun _ => ?_
  cases hr : s.core.rooms.get m with
  | none => exact .done ⟨_, h.mono _ (by simp)⟩
  | some room =>
    dsimp only
    by_cases h0 : room.startedAtUnix = 0
    · simp only [h0, if_true]
      have h' := h.mono [.roomStarted m (room.start sh ch.nowUnix).startedAtUnix true
        (snapshotPlayers (room.start sh ch.nowUnix))] (by simp)
      exact .done ⟨_, { h' with rooms := h'.rooms.insert rfl, casts := h'.casts.insert rfl }⟩
    · simp only [h0, if_false]
      exact .done ⟨_, h.mono _ (by simp)⟩

theorem finish_follows (h : Mirrors m F S tr s t) (p : String) (now : Nat) :
    Follows (Beside m F tr) (step s (.finishRoom m p now)) (step t (.finishRoom m p now)) := by
  simp only [step, finishRoom, finishPlayer, h.room]
  cases hr : s.core.rooms.get m with
  | none => exact .done ⟨_, h.mono _ (by simp)⟩
  | some room =>
    dsimp only
    by_cases h0 : room.startedAtUnix = 0
    · simp only [h0, if_true]
      exact .done ⟨_, h.mono _ (by simp)⟩
    · by_cases hp : room.players.contains p = false
      · simp only [h0, hp, if_true, if_false]
        exact .done ⟨_, h.mono _ (by simp)⟩
      · simp only [h0, hp, if_false]
        cases room.finishedPlayerIds.idxOf? p with
        | some i => exact .done ⟨_, h.mono _ (by simp)⟩
        | none =>
          dsimp only
          refine .done ⟨S, ?_⟩
          have h' := h.mono [.finished
            { matchId := m
              playerId := p
              rank := asU32 (room.finish p now).finishedPlayerIds.length
              finishedPlayerCount := asU32 (room.finish p now).finishedPlayerIds.length
              totalPlayers := asU32 (room.finish p now).players.len }] (by simp)
          exact { h' with rooms := h'.rooms.insert rfl }

theorem delete_follows (h : Mirrors m F S tr s t) :
    Follows (Beside m F tr) (step s (.deleteRoom m)) (step t (.deleteRoom m)) := by
  have hroom : t.core.rooms.get m = s.core.rooms.get m := h.room
  cases hr : s.core.rooms.get m with
  | none =>
    simp only [step, deleteRoom, HashMap.contains, hroom, hr]
    exact .done ⟨_, h.mono _ (by simp)⟩
  | some room =>
    simp only [step, deleteRoom, HashMap.contains, hroom, hr]
    have h' := h.mono [.roomRemoved m] (by simp)
    exact .done ⟨_,
      { h' with
        rooms := h'.rooms.remove m
        tickets := h'.tickets.filter (HashMap.get_retain _ _) (HashMap.get_retain _ _)
          fun _ _ _ => rfl }⟩

theorem request_follows (h : Mirrors m F S tr s t) {a : Action} (ha : a.room = some m) :
    Follows (Beside m F tr) (step s a) (step t a) := by
  cases a with
  | createRoom uuid now => exact create_follows h (Option.some.inj ha) now
  | getRoom m' =>
    obtain rfl : m' = m := Option.some.inj ha
    exact get_follows h
  | issueJoinTicket req uuid token now => exact issue_follows h (Option.some.inj ha) uuid token now
  | startRoom m' sh ch =>
    obtain rfl : m' = m := Option.some.inj ha
    exact start_follows h sh ch
  | finishRoom m' p now =>
    obtain rfl : m' = m := Option.some.inj ha
    exact finish_follows h p now
  | deleteRoom m' =>
    obtain rfl : m' = m := Option.some.inj ha
    exact delete_follows h
  | _ => cases ha

theorem recv_follows (h : Mirrors m F S tr s t) {addr : SocketAddr} (ha : addr ∉ F) (tid : Nat)
    (packet : Packet) :
    Follows (Beside m F tr) (stepRecv s tid addr packet) (stepRecv t tid addr packet) := by
  have h' := h.quiet
  cases packet with
  | malformed => exact .done ⟨_, h'⟩
  | unreliable msg =>
    refine .guard h.relays.free fun _ => ?_
    exact .done ⟨_, { h' with relays := h'.relays.insert ha }⟩
  | reliable msg =>
    cases msg with
    | paramChange seq k d =>
      refine .guard h.params.free fun _ => ?_
      exact .done ⟨_, { h' with params := h'.params.insert ha }⟩
    | join token =>
      refine .guard h.joins.free fun _ => ?_
      refine .done ⟨_, { h' with joins := h'.joins.insert (JoinTask.outside ha rfl), seen := ?_ }⟩
      intro x hx
      rcases List.mem_cons.mp hx with rfl | hx
      · exact List.mem_cons_self
      · exact List.mem_cons_of_mem _ (h.seen x hx)

theorem tick_follows (h : Mirrors m F S tr s t) (tid timeout now : Nat) :
    Follows (Beside m F tr) (step s (.cleanupTick tid timeout now))
      (step t (.cleanupTick tid timeout now)) := by
  simp only [step, h.cleanups]
  have h' := h.quiet
  refine .guard id fun _ => .done ⟨_, { h' with cleanups := rfl }⟩

/-- The outgoing task starts a pass over what the room has of the registry. -/
theorem drainStart_follows (h : Mirrors m F S tr s t) (order : List SocketAddr) :
    Follows (Beside m F tr) (drainStart s order) (drainStart t (order.filter (· ∉ F))) := by
  by_cases hc : s.drain = none ∧ order.Perm s.clients.keys
  · obtain ⟨hd, hperm⟩ := hc
    have hnodup : order.Nodup := hperm.nodup_iff.mpr s.clients.keys_nodup
    have hkeys : (order.filter (· ∉ F)).Perm t.clients.keys := by
      refine (List.perm_ext_iff_of_nodup (hnodup.filter _) t.clients.keys_nodup).mpr ?_
      intro a
      rw [List.mem_filter, hperm.mem_iff, HashMap.mem_keys, HashMap.mem_keys, decide_eq_true_iff]
      constructor
      · intro ha
        rw [h.client ha.2]
        exact ha.1
      · intro hex
        obtain ⟨c, hc⟩ := hex
        obtain ⟨hc', ha⟩ := h.clients.get_some hc
        exact ⟨⟨c, hc'⟩, ha⟩
    have hdt : t.drain = none := by rw [h.drain, hd]; rfl
    rw [drainStart, drainStart, if_pos ⟨hd, hperm⟩, if_pos ⟨hdt, hkeys⟩]
    have h' := h.quiet
    exact .done ⟨_, { h' with drain := rfl }⟩
  · rw [drainStart, if_neg hc]
    exact .refused _

end Requests

end Kotatsu
