import Kotatsu.PosRelay

/-
  The recipients of a datagram (`handle_unreliable_message`, `broadcast_datagram_udp`)

  The addresses are read off the seats of the room, and the session registry is not looked
  at. So the right players are sent to exactly when every seat that is addressed has its own
  session at its address (`OwnSessions`), in the state in which the recipients are
  collected; a seat that has none is left by the first of two joins from one address
  (`relay_to_ghost`). Sessions may go between that state and the sends: the source has no
  lock over both. What a client reads in the packet is what the server has read, while the
  coordinates are numbers that an `f32` has a value for (`InBounds`).
-/

namespace Kotatsu

/-! ## The contents -/

/-- The packet of `out` is a datagram of `p`, with the contents of the message. A position
is read by the client; the client knows no other variant, so a stage index is the field of
the written document. -/
def Carries (text : F32 → Number) (p : String) (out : ServerDatagram) : ClientDatagram → Prop
  | .pos seq x y vx vy =>
    ∃ ms, parseDatagram (datagramPacket text out) = some (.pos p seq x y vx vy ms)
  | .stageProgress stage => ∃ content d,
    (writeServerDatagram text out).tagged "t" = some ("stage_progress", content) ∧
    content.fields ["player_id", "current_stage_index"] = some [.str p, d] ∧ readU8 d = some stage

/-- The coordinates of a position that was read from the packet have finite values. -/
def InBounds (packet : UdpPacket) (msg : ClientDatagram) : Prop :=
  msg.skipsSender = true → ∀ n ∈ packet.coordinates, n.abs < f32Overflow

theorem readU8_lt {d : Doc} {n : Nat} (h : readU8 d = some n) : n < 2 ^ 8 := by
  unfold readU8 readUnsigned at h
  split at h
  · split at h
    · next hlt =>
      cases h
      exact hlt
    · cases h
  · split at h
    · next hlt =>
      cases h
      omega
    · cases h
  · cases h

/-- A stage index is a `u8`. -/
theorem read_stage {j : Doc} {stage : Nat}
    (h : readClientDatagram j = some (.stageProgress stage)) : stage < 2 ^ 8 := by
  obtain ⟨⟨variant, content⟩, -, h⟩ := Option.bind_eq_some_iff.mp h
  simp only at h
  split at h
  · -- a position is no stage
    obtain ⟨items, -, h⟩ := Option.bind_eq_some_iff.mp h
    unfold readClientPos at h
    split at h
    · obtain ⟨_, -, h⟩ := Option.bind_eq_some_iff.mp h
      obtain ⟨_, -, h⟩ := Option.bind_eq_some_iff.mp h
      obtain ⟨_, -, h⟩ := Option.bind_eq_some_iff.mp h
      obtain ⟨_, -, h⟩ := Option.bind_eq_some_iff.mp h
      obtain ⟨_, -, h⟩ := Option.bind_eq_some_iff.mp h
      cases h
    · cases h
  · split at h
    · obtain ⟨items, -, h⟩ := Option.bind_eq_some_iff.mp h
      unfold readClientStageProgress at h
      split at h
      · obtain ⟨_, hstage, h⟩ := Option.bind_eq_some_iff.mp h
        cases h
        exact readU8_lt hstage
      · cases h
    · cases h

/-- The fields of a relayed stage index. -/
def stageOut (p : String) (stage ms : Nat) : List (String × Doc) :=
  [("player_id", .str p), ("current_stage_index", writeUnsigned stage),
    ("server_time_ms", writeUnsigned ms)]

theorem carries_stage (text : F32 → Number) (p : String) {stage : Nat} (h : stage < 2 ^ 8)
    (ms : Nat) : Carries text p (.stageProgress p stage ms) (.stageProgress stage) := by
  have hsub : [("player_id", .str p), ("current_stage_index", writeUnsigned stage)] ⊆
      stageOut p stage ms := by simp [stageOut]
  refine ⟨.map (stageOut p stage ms), writeUnsigned stage, ?_, ?_, readU8_write h⟩
  · exact Json.tagged_writeTagged "stage_progress" (by simp)
  · exact Json.fields_some (by simp [stageOut]) hsub

/-- What the relay of a datagram carries is what the packet held, within the bounds. -/
theorem carries_iff {text : F32 → Number} (htext : ∀ v, v.Finite → (text v).toF32 = v)
    {packet : UdpPacket} {msg : ClientDatagram} (hpacket : readPacket packet = .unreliable msg)
    (p : String) (ms : Nat) :
    Carries text p (relayOut p ms msg) msg ↔ InBounds packet msg := by
  obtain ⟨j, hj, hread⟩ := readPacket_unreliable hpacket
  have hcoords : packet.coordinates = coordinates j := by rw [UdpPacket.coordinates, hj]; rfl
  cases msg with
  | stageProgress stage =>
    have hcarries : Carries text p (relayOut p ms (.stageProgress stage)) (.stageProgress stage) :=
      carries_stage text p (read_stage hread) ms
    exact ⟨fun _ hskip => Bool.noConfusion hskip, fun _ => hcarries⟩
  | pos seq x y vx vy =>
    have hseq : seq % 2 ^ 64 = seq := by
      obtain ⟨_, dseq, _, _, _, _, -, -, hseq, -⟩ := read_pos hread
      exact Nat.mod_eq_of_lt (readU64_lt hseq)
    rw [InBounds, hcoords, ← finitePos_iff hread]
    simp only [Carries, relayOut, parse_pos htext, hseq]
    by_cases hfin : FinitePos x y vx vy
    · simp only [if_pos hfin]
      exact ⟨fun _ _ => hfin, fun _ => ⟨_, rfl⟩⟩
    · simp only [if_neg hfin]
      refine ⟨fun hex => ?_, fun hin => absurd (hin rfl) hfin⟩
      obtain ⟨_, hex⟩ := hex
      cases hex

/-! ## The right recipients -/

/-- No one but the right players of `m` is sent the datagram of `p`, which came from `a`. -/
structure FewRecipients (text : F32 → Number) (s : Sys) (a : SocketAddr) (m p : String)
    (msg : ClientDatagram) (sent : List (SocketAddr × ServerDatagram)) : Prop where
  atMostOnce : ∀ b, (sent.map Prod.fst).count b ≤ 1
  /-- A position does not come back. -/
  notBack : msg.skipsSender = true → a ∉ sent.map Prod.fst
  only : ∀ b ∈ sent.map Prod.fst, ∃ q, Addressed s m p msg q b
  carries : ∀ e ∈ sent, Carries text p e.2 msg
  /-- Every recipient has a session of the room. -/
  inRoom : ∀ b ∈ sent.map Prod.fst, ∃ c, s.clients.get b = some c ∧ c.matchId = m

/-- The right players of `m` are sent the datagram, each of them once. -/
structure RightRecipients (text : F32 → Number) (s : Sys) (a : SocketAddr) (m p : String)
    (msg : ClientDatagram) (sent : List (SocketAddr × ServerDatagram)) : Prop
    extends FewRecipients text s a m p msg sent where
  /-- Every seated player, other than the sender of a position, is sent it once. -/
  once : ∀ q b, Addressed s m p msg q b → (sent.map Prod.fst).count b = 1
  /-- Anything but a position is sent to its sender too, once. -/
  toSender : msg.skipsSender = false → (∃ b, SeatedAt s m p b) → (sent.map Prod.fst).count a = 1

/-- Every seat that is addressed has its own session, and the sender's address does not by
now belong to another player of the room. -/
structure OwnSessions (s : Sys) (a : SocketAddr) (m p : String) (msg : ClientDatagram) :
    Prop where
  own : ∀ q b, Addressed s m p msg q b → OwnSession s m q b
  sender : msg.skipsSender = true → ∀ q, SeatedAt s m q a → OwnSession s m q a → q = p

section Recipients
variable {text : F32 → Number} {tid : Nat} {a : SocketAddr} {m p : String} {msg : ClientDatagram}
  {s : Sys} {tr : List Event} {sent full : List (SocketAddr × ServerDatagram)}

/-- The player of a session of the room is seated at its address, while the room is there. -/
theorem seated_of_session (hreach : server.Reach Machine.anyStep s tr) {q q' : String}
    {b b' : SocketAddr} (hseat : SeatedAt s m q b) (hown : OwnSession s m q' b') :
    SeatedAt s m q' b' := by
  obtain ⟨h, hs, -⟩ := hseat
  obtain ⟨room, hr, -⟩ := seat_eq_some.mp hs
  obtain ⟨c, hc, rfl, rfl⟩ := hown
  obtain ⟨h', hs', hl⟩ := link_eq_some.mp ((anchored_here hreach).session hc hr)
  exact ⟨h', hs', congrArg Prod.fst hl⟩

/-- The sender has no seat but at the address that it has registered from. -/
theorem Accepted.seat (h : Accepted tid a m p msg s tr) {b : SocketAddr}
    (hseat : SeatedAt s m p b) : b = a := by
  obtain ⟨g, hs, hconn⟩ := hseat
  obtain ⟨b', ho, hconn'⟩ := seat_registered (registrants h.reach) hs
  obtain ⟨tx, ho'⟩ := h.registered
  obtain ⟨-, rfl, -⟩ := (registry h.reach).once ho ho'
  rw [hconn] at hconn'
  cases hconn'
  rfl

theorem ownSession_unique {q q' : String} {b : SocketAddr} (h : OwnSession s m q b)
    (h' : OwnSession s m q' b) : q = q' := by
  obtain ⟨c, hc, -, rfl⟩ := h
  obtain ⟨c', hc', -, rfl⟩ := h'
  rw [hc] at hc'
  rw [Option.some.inj hc']

theorem once_of_own (hfull : SentTo s m p msg full) (hown : OwnSessions s a m p msg)
    {q : String} {b : SocketAddr} (haddr : Addressed s m p msg q b) :
    (full.map Prod.fst).count b = 1 := by
  refine (hfull.once b).mpr ⟨q, haddr, ?_⟩
  intro q' haddr'
  exact ownSession_unique (hown.own q' b haddr') (hown.own q b haddr)

/-- Whatever part of the recipients is sent to, it is no one else. -/
theorem few_of_own (hfull : SentTo s m p msg full) (hsub : sent.Sublist full)
    (hcarries : ∀ e ∈ sent, Carries text p e.2 msg) (hown : OwnSessions s a m p msg) :
    FewRecipients text s a m p msg sent := by
  have hfst : (sent.map Prod.fst).Sublist (full.map Prod.fst) := hsub.map _
  have honly : ∀ b ∈ sent.map Prod.fst, ∃ q, Addressed s m p msg q b :=
    fun b hb => (hfull.mem b).mp (hfst.subset hb)
  refine ⟨?_, ?_, honly, hcarries, ?_⟩
  · intro b
    by_cases hb : b ∈ sent.map Prod.fst
    · obtain ⟨q, haddr⟩ := honly b hb
      exact (hfst.count_le b).trans (once_of_own hfull hown haddr).le
    · rw [List.count_eq_zero_of_not_mem hb]
      omega
  · intro hskip hback
    obtain ⟨q, haddr⟩ := honly a hback
    exact haddr.2 hskip (hown.sender hskip q haddr.1 (hown.own q a haddr))
  · intro b hb
    obtain ⟨q, haddr⟩ := honly b hb
    obtain ⟨c, hc, hm, -⟩ := hown.own q b haddr
    exact ⟨c, hc, hm⟩

theorem right_of_own (h : Accepted tid a m p msg s tr) (hsent : SentTo s m p msg sent)
    (hcarries : ∀ e ∈ sent, Carries text p e.2 msg) (hown : OwnSessions s a m p msg) :
    RightRecipients text s a m p msg sent := by
  refine ⟨few_of_own hsent (List.Sublist.refl _) hcarries hown, ?_, ?_⟩
  · intro q b haddr
    exact once_of_own hsent hown haddr
  · intro hskip hseat
    obtain ⟨b, hseat⟩ := hseat
    obtain rfl := h.seat hseat
    exact once_of_own hsent hown ⟨hseat, by simp [hskip]⟩

theorem own_of_right (h : Accepted tid a m p msg s tr) (hsent : SentTo s m p msg sent)
    (hright : RightRecipients text s a m p msg sent) : OwnSessions s a m p msg := by
  refine ⟨?_, ?_⟩
  · intro q b haddr
    obtain ⟨c, hc, hm⟩ := hright.inRoom b ((hsent.mem b).mpr ⟨q, haddr⟩)
    have hown : OwnSession s m c.playerId b := ⟨c, hc, hm, rfl⟩
    have hseat : SeatedAt s m c.playerId b := seated_of_session h.reach haddr.1 hown
    by_cases hsender : msg.skipsSender = true ∧ c.playerId = p
    · -- the sender's own session is at `a`, to which nothing is sent
      obtain ⟨hskip, hp⟩ := hsender
      obtain rfl := h.seat (hp ▸ hseat)
      exact absurd ((hsent.mem b).mpr ⟨q, haddr⟩) (hright.notBack hskip)
    · -- its player is addressed there as well
      have haddr' : Addressed s m p msg c.playerId b :=
        ⟨hseat, fun hskip hp => hsender ⟨hskip, hp⟩⟩
      have huniq := (hsent.once b).mp (hright.once q b haddr)
      exact huniq.unique haddr haddr' ▸ hown
  · intro hskip q hseat _
    by_contra hne
    exact hright.notBack hskip ((hsent.mem a).mpr ⟨q, hseat, fun _ => hne⟩)

end Recipients

/-- While every seat has its session, so does every seat that is addressed. -/
theorem ownSessions_of_seats {s : Sys} {a : SocketAddr} {m p : String} {msg : ClientDatagram}
    (hs : SeatsHaveSessions s) (hp : OwnSession s m p a) : OwnSessions s a m p msg := by
  refine ⟨?_, fun _ q _ hq => ownSession_unique hq hp⟩
  intro q b haddr
  obtain ⟨h, hseat, hconn⟩ := haddr.1
  obtain ⟨c, hc, hm, hq, -⟩ := hs m q h b hseat hconn
  exact ⟨c, hc, hm, hq⟩

/-- Once the datagram of a packet is accepted its relay can go on to the end. However it
does, if the socket takes what it is given, the recipients of what was sent are right
exactly when the seats addressed have their own sessions in the state in which they are
collected, and the coordinates are within the bounds if anyone is addressed. If the socket
refuses some of it, then no one but the right recipients is sent any. -/
theorem relay_recipients {text : F32 → Number} (htext : ∀ v, v.Finite → (text v).toF32 = v)
    {packet : UdpPacket} {msg : ClientDatagram} (hpacket : readPacket packet = .unreliable msg)
    {tid : Nat} {a : SocketAddr} {m p : String} {s : Sys} {tr : List Event}
    (h : Accepted tid a m p msg s tr) :
    (∃ sent, RelaysFrom true tid s sent) ∧
    (∀ sent, RelaysFrom true tid s sent →
      (RightRecipients text s a m p msg sent ↔ OwnSessions s a m p msg ∧
        ((∃ q b, Addressed s m p msg q b) → InBounds packet msg))) ∧
    ∀ sent, RelaysFrom false tid s sent → OwnSessions s a m p msg →
      ((∃ q b, Addressed s m p msg q b) → InBounds packet msg) →
      FewRecipients text s a m p msg sent := by
  obtain ⟨ms, ht⟩ := h.task
  have hcarries : ∀ {all sent}, RelaysFrom all tid s sent →
      ((∃ q b, Addressed s m p msg q b) → InBounds packet msg) →
      ∀ e ∈ sent, Carries text p e.2 msg := by
    intro all sent hrelays hin e he
    obtain ⟨full, hfull, hsub, hout, -⟩ := relays_among ht hrelays
    obtain ⟨q, haddr⟩ := (hfull.mem e.1).mp (List.mem_map_of_mem (hsub.subset he))
    rw [hout e (hsub.subset he)]
    exact (carries_iff htext hpacket p ms).mpr (hin ⟨q, e.1, haddr⟩)
  refine ⟨relays_alone ht, ?_, ?_⟩
  · intro sent hrelays
    obtain ⟨full, hfull, -, hout, hall⟩ := relays_among ht hrelays
    obtain rfl := hall rfl
    constructor
    · intro hright
      refine ⟨own_of_right h hfull hright, fun haddr => ?_⟩
      obtain ⟨q, b, haddr⟩ := haddr
      obtain ⟨e, he, -⟩ := List.mem_map.mp ((hfull.mem b).mpr ⟨q, haddr⟩)
      have hread := hright.carries e he
      rw [hout e he] at hread
      exact (carries_iff htext hpacket p ms).mp hread
    · intro hcond
      exact right_of_own h hfull (hcarries hrelays hcond.2) hcond.1
  · intro sent hrelays hown hin
    obtain ⟨full, hfull, hsub, -, -⟩ := relays_among ht hrelays
    exact few_of_own hfull hsub (hcarries hrelays hin) hown

/-- A position of the first of two players. -/
def somewhere : ClientDatagram := posMessage oneAndAHalf minusTwo zeroPoint zeroPoint

theorem somewhere_inBounds :
    InBounds (posPacket oneAndAHalf minusTwo zeroPoint zeroPoint) somewhere := by
  intro _
  rw [coordinates_posPacket]
  intro n hn
  have hn : n = oneAndAHalf ∨ n = minusTwo ∨ n = zeroPoint := by simpa using hn
  rcases hn with rfl | rfl | rfl <;> exact (toF32_finite _).mp (by decide)

theorem relay_recipients_two : ∃ s tr sent,
    Accepted 3 ⟨1, 1⟩ "m_r" "p_1" somewhere s tr ∧ RelaysFrom true 3 s sent ∧
    ⟨1, 2⟩ ∈ sent.map Prod.fst ∧
    RightRecipients exactText s ⟨1, 1⟩ "m_r" "p_1" somewhere sent := by
  obtain ⟨s₀, tr₀, h, hp⟩ := reach_of_actions (fun s a => replacesSeated s a = false)
    (twoPlayers ++ [firstDatagram somewhere])
    (fun s _ => heardFrom "p_1" somewhere s && s.joins.len == 0 &&
      (s.core.seat "m_r" "p_2").any fun h => h.connection == some (.udp ⟨1, 2⟩)) (by decide)
  simp only [Bool.and_eq_true, Option.any_eq_true, beq_iff_eq] at hp
  obtain ⟨⟨hheard, hlen⟩, seat, hseat, hconn⟩ := hp
  have hreach : server.Reach Machine.anyStep s₀ tr₀ := h.mono fun _ _ _ => trivial
  obtain ⟨s, tr, hacc, hown, hcore, hclients⟩ := accepted_of_heard hreach hheard
  have hseats : SeatsHaveSessions s := by
    have hs₀ : SeatsHaveSessions s₀ := covered_session (covered h) (settled_of_empty hlen)
    intro m p g a hg
    rw [hcore] at hg
    rw [hclients]
    exact hs₀ m p g a hg
  obtain ⟨⟨sent, hrelays⟩, hiff, -⟩ :=
    relay_recipients exactText_toF32 (readPacket_posPacket _ _ _ _) hacc
  have hright := (hiff sent hrelays).mpr
    ⟨ownSessions_of_seats hseats hown, fun _ => somewhere_inBounds⟩
  have haddr : Addressed s "m_r" "p_1" somewhere "p_2" ⟨1, 2⟩ :=
    ⟨⟨seat, hcore ▸ hseat, hconn⟩, by simp⟩
  refine ⟨s, tr, sent, hacc, hrelays, ?_, hright⟩
  exact List.count_pos_iff.mp (by rw [hright.once _ _ haddr]; omega)

/-- The second of two joins from one address left the first player seated there: a position
of the second comes back to its sender. -/
theorem relay_to_ghost : ¬ ∀ text : F32 → Number, (∀ v, v.Finite → (text v).toF32 = v) →
    ∀ packet msg tid a m p s tr sent, readPacket packet = .unreliable msg →
    Accepted tid a m p msg s tr → RelaysFrom true tid s sent →
    RightRecipients text s a m p msg sent := by
  intro hall
  obtain ⟨s₀, tr₀, h, hp⟩ := reach_of_actions Machine.anyStep
    (twoJoins ++ [firstDatagram somewhere])
    (fun s _ => heardFrom "p_2" somewhere s &&
      (s.core.seat "m_r" "p_1").any fun h => h.connection == some (.udp ⟨1, 1⟩)) (by decide)
  simp only [Bool.and_eq_true, Option.any_eq_true, beq_iff_eq] at hp
  obtain ⟨hheard, seat, hseat, hconn⟩ := hp
  obtain ⟨s, tr, hacc, -, hcore, -⟩ := accepted_of_heard h hheard
  obtain ⟨ms, ht⟩ := hacc.task
  obtain ⟨sent, hrelays⟩ := relays_alone ht
  have haddr : Addressed s "m_r" "p_2" somewhere "p_1" ⟨1, 1⟩ :=
    ⟨⟨seat, hcore ▸ hseat, hconn⟩, by simp⟩
  obtain ⟨full, hfull, -, -, hsent⟩ := relays_among ht hrelays
  obtain rfl := hsent rfl
  have hback := (hfull.mem ⟨1, 1⟩).mpr ⟨"p_1", haddr⟩
  have hright := hall exactText exactText_toF32 _ _ _ _ _ _ _ _ _
    (readPacket_posPacket oneAndAHalf minusTwo zeroPoint zeroPoint) hacc hrelays
  exact hright.notBack rfl hback

end Kotatsu
