import Kotatsu.ClientNetwork

/-
  The latency probe (`test-client/bin/remote-rtt.rs`)

  Two clients of a match join. One of them, the initiator, sends numbered positions, the
  other waits for the relay of each of them in turn and gives a sample up as lost when its
  time is over. What a socket receives, and when, is the environment's: a list of receipts
  for each wait, whose end is the timeout.

  A sample is counted only if the server has heard it from the address of the initiator and
  has relayed it to the receiver, so neither strangers nor late relays of other samples are
  taken for it; a sample whose relay comes in time is counted; and every sample is either
  counted or lost (`probe_counts`).

  Correspondence:
    `connect_and_join`         ↔ `connectAndJoin`
    `encoded_pos`              ↔ `encodedPos`
    `measure_datagram_one_way` ↔ `awaitDatagram`, `measureFrom`, `measureDatagramOneWay`
-/

namespace Kotatsu.RemoteRtt

open Machine (eventsOf)
open TestClient (encodePacket writeClientPos seqAsF32 reliableDatagram low64 packetTo
  read_pos_packet seqAsF32_finite seqAsF32_low64 packetTo_carried)

/-! ## Messages -/

/-- `ServerReliable` of the probe, which knows no parameters. -/
inductive ServerReliable where
  | joinOk (matchId playerId : String) (serverTimeMs : Nat)
  | matchStarted (matchId : String) (startedAtUnix serverTimeMs : Nat)
  | error (code message : String)
  deriving DecidableEq, Repr

def readJoinOk : List Doc → Option ServerReliable
  | [matchId, playerId, serverTimeMs] => do
    let matchId ← readString matchId
    let playerId ← readString playerId
    let serverTimeMs ← readU64 serverTimeMs
    some (.joinOk matchId playerId serverTimeMs)
  | _ => none

def readMatchStarted : List Doc → Option ServerReliable
  | [matchId, startedAtUnix, serverTimeMs] => do
    let matchId ← readString matchId
    let startedAtUnix ← readU64 startedAtUnix
    let serverTimeMs ← readU64 serverTimeMs
    some (.matchStarted matchId startedAtUnix serverTimeMs)
  | _ => none

def readError : List Doc → Option ServerReliable
  | [code, message] => do
    let code ← readString code
    let message ← readString message
    some (.error code message)
  | _ => none

def readServerReliable (j : Doc) : Option ServerReliable := do
  let (variant, content) ← j.tagged "t"
  if variant = "join_ok" then
    content.fields ["match_id", "player_id", "server_time_ms"] >>= readJoinOk
  else if variant = "match_started" then
    content.fields ["match_id", "started_at_unix", "server_time_ms"] >>= readMatchStarted
  else if variant = "error" then content.fields ["code", "message"] >>= readError
  else none

def parseReliable (packet : UdpPacket) : Option ServerReliable :=
  if packet.pktType = pktReliable then packet.payload.bind readServerReliable else none

/-- The packet of a sample: the number is the position, and the rest is `0.0`. -/
def encodedPos (text : F32 → Number) (seq : Nat) : UdpPacket :=
  encodePacket pktUnreliable (writeClientPos text seq (seqAsF32 seq) 0 0 0)

/-- The datagram of a sample. -/
def sampleDatagram (seq : Nat) : ClientDatagram := .pos seq (seqAsF32 seq) 0 0 0

/-! ## Joining -/

/-- What `connect_and_join` fails with; the text of a failed receive is the system's. -/
inductive JoinError where
  | timedOut
  | socket (text : String)
  | unexpectedPlayerId (expected got : String)
  | joinFailed (code message : String)
  deriving DecidableEq, Repr

/-- The loop that waits for the answer to the join of `playerId`. -/
def connectAndJoin (playerId : String) : List (Except String UdpPacket) → Except JoinError Unit
  | [] => .error .timedOut
  | .error e :: _ => .error (.socket e)
  | .ok packet :: rest =>
    match parseReliable packet with
    | some (.joinOk _ got _) =>
      if got = playerId then .ok () else .error (.unexpectedPlayerId playerId got)
    | some (.error code message) => .error (.joinFailed code message)
    | some (.matchStarted ..) | none => connectAndJoin playerId rest

/-! ## Measuring -/

/-- A receive that has returned, and the time since the sample was sent. -/
structure Receipt (τ : Type) where
  elapsed : τ
  packet : Except String UdpPacket

/-- What the environment does with a sample: the send and the receives that return in time. -/
structure Sample (τ : Type) where
  sendError : Option String
  receipts : List (Receipt τ)

structure SampleStats (τ : Type) where
  delivered : List τ
  lost : Nat

variable {τ : Type}

/-- The packet is a position of the player with this number. -/
def accepts (playerId : String) (seq : Nat) (packet : UdpPacket) : Bool :=
  match parseDatagram packet with
  | some (.pos player got ..) => player == playerId && got == seq
  | _ => false

/-- The loop inside the timeout; `none` is a timeout. The context of a failed receive hides the
text of the system. -/
def awaitDatagram (playerId : String) (seq : Nat) :
    List (Receipt τ) → Except String (Option τ)
  | [] => .ok none
  | r :: rest =>
    match r.packet with
    | .error _ => .error "read datagram failed"
    | .ok packet =>
      if accepts playerId seq packet then .ok (some r.elapsed) else awaitDatagram playerId seq rest

/-- The loop over the samples, from `seq` on. -/
def measureFrom (playerId : String) :
    Nat → List (Sample τ) → SampleStats τ → Except String (SampleStats τ)
  | _, [], stats => .ok stats
  | seq, sample :: rest, stats =>
    match sample.sendError with
    | some _ => .error "failed to send datagram probe"
    | none =>
      match awaitDatagram playerId seq sample.receipts with
      | .error e => .error e
      | .ok (some oneWay) =>
        measureFrom playerId (seq + 1) rest { stats with delivered := stats.delivered ++ [oneWay] }
      | .ok none => measureFrom playerId (seq + 1) rest { stats with lost := stats.lost + 1 }

/-- The loop over `1..=samples`; the relays are those of the initiator `playerId`. -/
def measureDatagramOneWay (playerId : String) (samples : List (Sample τ)) :
    Except String (SampleStats τ) :=
  measureFrom playerId 1 samples { delivered := [], lost := 0 }

/-! ## What the loops return -/

/-- A receipt of the sample is accepted. -/
def Sample.Counted (sample : Sample τ) (playerId : String) (seq : Nat) : Prop :=
  ∃ r ∈ sample.receipts, ∃ packet, r.packet = .ok packet ∧ accepts playerId seq packet = true

theorem joined_packet {p : String} {receipts : List (Except String UdpPacket)}
    (h : connectAndJoin p receipts = .ok ()) : ∃ packet m ms, .ok packet ∈ receipts ∧
      parseReliable packet = some (.joinOk m p ms) := by
  induction receipts with
  | nil => cases h
  | cons receipt rest ih =>
    have hlater : connectAndJoin p rest = .ok () → ∃ packet m ms,
        .ok packet ∈ receipt :: rest ∧ parseReliable packet = some (.joinOk m p ms) := by
      intro hrest
      obtain ⟨packet, m, ms, hmem, hparse⟩ := ih hrest
      exact ⟨packet, m, ms, List.mem_cons_of_mem _ hmem, hparse⟩
    cases receipt with
    | error e => cases h
    | ok packet =>
      unfold connectAndJoin at h
      split at h
      · next m got ms hparse =>
        split at h
        · next heq => exact ⟨packet, m, ms, List.mem_cons_self, heq ▸ hparse⟩
        · cases h
      · cases h
      · exact hlater h
      · exact hlater h

/-- A wait ends with an accepted packet, or without one. -/
theorem awaited {p : String} {seq : Nat} {receipts : List (Receipt τ)} {outcome : Option τ}
    (h : awaitDatagram p seq receipts = .ok outcome) : outcome ≠ none ↔
      ∃ r ∈ receipts, ∃ packet, r.packet = .ok packet ∧ accepts p seq packet = true := by
  induction receipts with
  | nil =>
    cases h
    simp
  | cons r rest ih =>
    unfold awaitDatagram at h
    cases hr : r.packet with
    | error e =>
      rw [hr] at h
      cases h
    | ok packet =>
      rw [hr] at h
      dsimp only at h
      split at h
      · next hacc =>
        cases h
        simp only [ne_eq, reduceCtorEq, not_false_eq_true, true_iff]
        exact ⟨r, List.mem_cons_self, packet, hr, hacc⟩
      · next hacc =>
        rw [ih h]
        constructor
        · rintro ⟨r', hr', hrest⟩
          exact ⟨r', List.mem_cons_of_mem _ hr', hrest⟩
        · rintro ⟨r', hr', packet', hpacket, hacc'⟩
          rcases List.mem_cons.mp hr' with rfl | hr'
          · rw [hr] at hpacket
            cases hpacket
            exact absurd hacc' hacc
          · exact ⟨r', hr', packet', hpacket, hacc'⟩

/-- Every sample is counted or lost, and it is counted if a receipt of it is accepted. -/
theorem measured {p : String} {samples : List (Sample τ)} : ∀ {seq : Nat}
    {stats stats' : SampleStats τ}, measureFrom p seq samples stats = .ok stats' →
    ∃ seqs : List Nat, seqs.Sublist (List.range' seq samples.length) ∧
      stats'.delivered.length = stats.delivered.length + seqs.length ∧
      stats'.lost + seqs.length = stats.lost + samples.length ∧
      ∀ i sample, samples[i]? = some sample → (seq + i ∈ seqs ↔ sample.Counted p (seq + i)) := by
  induction samples with
  | nil =>
    intro seq stats stats' h
    cases h
    exact ⟨[], List.Sublist.refl _, rfl, rfl, nofun⟩
  | cons sample rest ih =>
    intro seq stats stats' h
    -- the later samples have later numbers
    have hlater : ∀ {seqs : List Nat}, seqs.Sublist (List.range' (seq + 1) rest.length) →
        seq ∉ seqs := by
      intro seqs hsub hmem
      have hrange := List.mem_range'_1.mp (hsub.subset hmem)
      omega
    have hindex : ∀ i, seq + 1 + i = seq + (i + 1) := by
      intro i
      omega
    unfold measureFrom at h
    split at h
    · cases h
    · split at h
      · cases h
      · next oneWay hawait =>
        have hcounted : sample.Counted p seq := (awaited hawait).mp (Option.some_ne_none _)
        obtain ⟨seqs, hsub, hdelivered, hlost, hiff⟩ := ih h
        refine ⟨seq :: seqs, hsub.cons_cons seq, ?_, ?_, ?_⟩
        · simp only [List.length_append, List.length_singleton] at hdelivered
          simp only [List.length_cons]
          omega
        · dsimp only at hlost
          simp only [List.length_cons]
          omega
        · intro i sample' hi
          cases i with
          | zero =>
            cases hi
            exact iff_of_true List.mem_cons_self hcounted
          | succ i =>
            have hne : seq + (i + 1) ≠ seq := by omega
            rw [List.mem_cons, or_iff_right hne, ← hindex]
            exact hiff i sample' hi
      · next hawait =>
        have hmissed : ¬ sample.Counted p seq := fun hc => (awaited hawait).mpr hc rfl
        obtain ⟨seqs, hsub, hdelivered, hlost, hiff⟩ := ih h
        refine ⟨seqs, hsub.cons seq, hdelivered, ?_, ?_⟩
        · dsimp only at hlost
          simp only [List.length_cons]
          omega
        · intro i sample' hi
          cases i with
          | zero =>
            cases hi
            exact iff_of_false (hlater hsub) hmissed
          | succ i =>
            rw [← hindex]
            exact hiff i sample' hi

/-! ## What the server has sent -/

/-- What the probe makes of a message; it has no `param_applied`. -/
def heardAs : Kotatsu.ServerReliable → Option ServerReliable
  | .joinOk m p _ ms => some (.joinOk m p (low64 ms))
  | .matchStarted m t _ ms => some (.matchStarted m (low64 t) (low64 ms))
  | .paramApplied .. => none
  | .error code message => some (.error code message)

theorem parse_reliable_packet (msg : Kotatsu.ServerReliable) :
    parseReliable (reliableDatagram msg) = heardAs msg := by
  have hparse : parseReliable (reliableDatagram msg) =
      readServerReliable (writeServerReliable msg) := rfl
  rw [hparse, readServerReliable]
  cases msg with
  | joinOk m p params ms =>
    -- the parameters are not asked for
    have hfields := @Json.fields_some _ [("match_id", .str m), ("player_id", .str p),
      ("params", writePlayerParams params), ("server_time_ms", writeUnsigned ms)]
      [("match_id", .str m), ("player_id", .str p), ("server_time_ms", writeUnsigned ms)]
      (by simp) (by simp)
    simp only [List.map_cons, List.map_nil] at hfields
    rw [writeServerReliable, Json.tagged_writeTagged "join_ok" (by simp)]
    simp only [Option.bind_eq_bind, Option.bind_some, if_true, hfields, readJoinOk, readString,
      readU64_write]
    rfl
  | matchStarted m t players ms =>
    have hfields := @Json.fields_some _ [("match_id", .str m),
      ("started_at_unix", writeUnsigned t), ("players", .arr (players.map writePlayerMatchState)),
      ("server_time_ms", writeUnsigned ms)] [("match_id", .str m),
      ("started_at_unix", writeUnsigned t), ("server_time_ms", writeUnsigned ms)] (by simp)
      (by simp)
    simp only [List.map_cons, List.map_nil] at hfields
    rw [writeServerReliable, Json.tagged_writeTagged "match_started" (by simp)]
    simp only [Option.bind_eq_bind, Option.bind_some, if_true, hfields, readMatchStarted,
      readString, readU64_write]
    rfl
  | paramApplied p seq params next ms =>
    rw [writeServerReliable, Json.tagged_writeTagged "param_applied" (by simp)]
    rfl
  | error code message => rfl

/-- A position in a datagram is accepted by its player and its number. -/
theorem accepts_datagram {text : F32 → Number} (htext : ∀ v, v.Finite → (text v).toF32 = v)
    {p : String} {seq : Nat} {out : ServerDatagram} :
    accepts p seq (datagramPacket text out) = true ↔
      ∃ n x y vx vy ms, out = .pos p n x y vx vy ms ∧ low64 n = seq ∧ FinitePos x y vx vy := by
  cases out with
  | stageProgress q i ms =>
    constructor
    · intro h
      cases h
    · rintro ⟨n, x, y, vx, vy, ms', heq, -⟩
      cases heq
  | pos q n x y vx vy ms =>
    rw [accepts, parse_pos htext]
    by_cases hfin : FinitePos x y vx vy
    · simp only [if_pos hfin, Bool.and_eq_true, beq_iff_eq]
      constructor
      · rintro ⟨rfl, hseq⟩
        exact ⟨n, x, y, vx, vy, ms, rfl, hseq, hfin⟩
      · rintro ⟨n', x', y', vx', vy', ms', heq, hseq, -⟩
        cases heq
        exact ⟨rfl, hseq⟩
    · simp only [if_neg hfin]
      constructor
      · intro h
        cases h
      · rintro ⟨n', x', y', vx', vy', ms', heq, -, hfin'⟩
        cases heq
        exact absurd hfin' hfin

theorem zero_finite : F32.Finite 0 := by decide

/-- The server reads the packet of a sample as it was sent. -/
theorem read_sample {text : F32 → Number} (htext : ∀ v, v.Finite → (text v).toF32 = v)
    (seq : Nat) : readPacket (encodedPos text seq) = .unreliable (sampleDatagram (low64 seq)) := by
  have hfin : FinitePos (seqAsF32 seq) 0 0 0 :=
    ⟨seqAsF32_finite seq, zero_finite, zero_finite, zero_finite⟩
  rw [encodedPos, read_pos_packet htext, if_pos hfin, sampleDatagram, seqAsF32_low64]

section Runs
variable {text : F32 → Number} {s : Sys} {log : Log} {a b : SocketAddr} {p : String}

/-- The server has sent the packet to this address. -/
def SentTo (text : F32 → Number) (log : Log) (a : SocketAddr) (packet : UdpPacket) : Prop :=
  (a, packet) ∈ (eventsOf log).filterMap (packetTo text)

/-- Whoever has joined is registered, from the address that the answer was sent to. -/
theorem joined_registered (h : server.recorded.Reach Machine.anyStep s log)
    {receipts : List (Except String UdpPacket)}
    (hsent : ∀ packet, .ok packet ∈ receipts → SentTo text log a packet)
    (hjoined : connectAndJoin p receipts = .ok ()) :
    ∃ m tx, Event.registered m p a tx ∈ eventsOf log := by
  obtain ⟨packet, m, ms, hmem, hparse⟩ := joined_packet hjoined
  cases packetTo_carried (fun _ he => he) (hsent packet hmem) with
  | datagram _ => cases hparse
  | reliable he =>
    rw [parse_reliable_packet] at hparse
    cases told h he with
    | @joined m' p' tx ms' ho =>
      cases hparse
      exact ⟨m, tx, ho⟩
    | refused _ => cases hparse
    | mail _ hmail =>
      cases hmail with
      | news hnews => cases hnews <;> cases hparse
      | refused _ _ _ => cases hparse

/-- A datagram with this number was heard from `a`, whose player shares a room with another
one at `b`. -/
def Sampled (log : Log) (a b : SocketAddr) (p : String) (seq : Nat) : Prop :=
  ∃ m tx q tx' n x y vx vy, Event.registered m p a tx ∈ eventsOf log ∧
    Event.registered m q b tx' ∈ eventsOf log ∧ q ≠ p ∧
    Heard log a (.pos n x y vx vy) ∧ low64 n = seq

/-- A packet that is accepted is the relay of a datagram from the address of the player. -/
theorem accepted_heard (htext : ∀ v, v.Finite → (text v).toF32 = v)
    (h : server.recorded.Reach Machine.anyStep s log) {m : String} {tx : ChanId}
    (ho : Event.registered m p a tx ∈ eventsOf log) {packet : UdpPacket}
    (hsent : SentTo text log b packet) {seq : Nat} (hacc : accepts p seq packet = true) :
    Sampled log a b p seq := by
  cases packetTo_carried (fun _ he => he) hsent with
  | reliable _ => cases hacc
  | @datagram out he =>
    have hrelayed := relayed h he
    obtain ⟨n, x, y, vx, vy, ms, rfl, hseq, -⟩ := (accepts_datagram htext).mp hacc
    generalize hout : ServerDatagram.pos p n x y vx vy ms = out at hrelayed
    cases hrelayed with
    | @intro m' p' q a' tx₁ tx₂ msg ms' ho' hheard hb hself =>
      cases msg with
      | stageProgress i => cases hout
      | pos n' x' y' vx' vy' =>
        cases hout
        -- a player is registered once
        obtain ⟨rfl, rfl, -⟩ := (registry h.unrecorded).once ho ho'
        refine ⟨m, tx, q, _, n, x, y, vx, vy, ho, hb, ?_, hheard, hseq⟩
        intro heq
        obtain ⟨i, hmsg⟩ := hself heq
        cases hmsg

/-- The relay of a sample is accepted for it. -/
theorem accepts_sample (htext : ∀ v, v.Finite → (text v).toF32 = v) {seq ms : Nat}
    (hseq : low64 seq = seq) {msg : ClientDatagram}
    (hmsg : readPacket (encodedPos text seq) = .unreliable msg) :
    accepts p seq (datagramPacket text (relayOut p ms msg)) = true := by
  rw [read_sample htext, hseq] at hmsg
  cases hmsg
  exact (accepts_datagram htext).mpr
    ⟨seq, _, _, _, _, ms, rfl, hseq, seqAsF32_finite seq, zero_finite, zero_finite, zero_finite⟩

end Runs

/-! ## A probe of two samples -/

/-- Two players, and the first sample of the first one. -/
def probing : List Action :=
  twoPlayers ++ [.recv 3 ⟨1, 1⟩ (.unreliable (sampleDatagram 1)), .relay 3 {},
    .relay 3 { addrs := [⟨1, 2⟩] }, .relay 3 {}]

def firstAnswer : Kotatsu.ServerReliable := .joinOk "m_r" "p_1" .default 0

def firstRelay : ServerDatagram := relayOut "p_1" 0 (sampleDatagram 1)

def firstReceipts : List (Except String UdpPacket) := [.ok (reliableDatagram firstAnswer)]

/-- The event hands one of these two over. -/
def handsOver : Event → Option Bool
  | .sentReliable a msg => if a = ⟨1, 1⟩ ∧ msg = firstAnswer then some true else none
  | .sentDatagram a out => if a = ⟨1, 2⟩ ∧ out = firstRelay then some false else none
  | _ => none

theorem answer_handed {e : Event} (h : handsOver e = some true) :
    e = .sentReliable ⟨1, 1⟩ firstAnswer := by
  cases e with
  | sentReliable a msg =>
    obtain ⟨rfl, rfl⟩ : a = ⟨1, 1⟩ ∧ msg = firstAnswer := by simpa [handsOver] using h
    rfl
  | sentDatagram a out => simp [handsOver] at h
  | _ => cases h

theorem relay_handed {e : Event} (h : handsOver e = some false) :
    e = .sentDatagram ⟨1, 2⟩ firstRelay := by
  cases e with
  | sentReliable a msg => simp [handsOver] at h
  | sentDatagram a out =>
    obtain ⟨rfl, rfl⟩ : a = ⟨1, 2⟩ ∧ out = firstRelay := by simpa [handsOver] using h
    rfl
  | _ => cases h

/-- The first relay comes after 7, the second not at all. -/
def twoSamples : List (Sample Nat) :=
  [{ sendError := none
     receipts := [{ elapsed := 7, packet := .ok (datagramPacket exactText firstRelay) }] },
    { sendError := none, receipts := [] }]

theorem twoSamples_measured :
    measureDatagramOneWay "p_1" twoSamples = .ok { delivered := [7], lost := 1 } := by
  have hacc : accepts "p_1" 1 (datagramPacket exactText firstRelay) = true :=
    accepts_sample exactText_toF32 rfl (read_sample exactText_toF32 1)
  simp [measureDatagramOneWay, twoSamples, measureFrom, awaitDatagram, hacc]

/-! ## What is counted -/

section Counting
variable {text : F32 → Number} {s : Sys} {log : Log} {a b : SocketAddr} {p : String}

/-- Which samples are counted, by their numbers. -/
structure Counts (text : F32 → Number) (log : Log) (a b : SocketAddr) (p : String)
    (samples : List (Sample τ)) (stats : SampleStats τ) (seqs : List Nat) : Prop where
  ordered : seqs.Sublist (List.range' 1 samples.length)
  delivered : stats.delivered.length = seqs.length
  lost : stats.lost + seqs.length = samples.length
  heard : ∀ seq ∈ seqs, Sampled log a b p seq
  /-- A relay that comes in time is counted. -/
  inTime : ∀ i sample msg ms, samples[i]? = some sample →
    readPacket (encodedPos text (i + 1)) = .unreliable msg →
    (∃ r ∈ sample.receipts, r.packet = .ok (datagramPacket text (relayOut p ms msg))) →
    i + 1 ∈ seqs

/-- Over any run, the probe between `a` and `b` counts what was heard from `a` and relayed to
`b`, each number once, and everything that comes in time. The number of samples is a `usize`. -/
theorem probe_counts (htext : ∀ v, v.Finite → (text v).toF32 = v)
    (h : server.recorded.Reach Machine.anyStep s log)
    {receipts : List (Except String UdpPacket)}
    (hreceipts : ∀ packet, .ok packet ∈ receipts → SentTo text log a packet)
    (hjoined : connectAndJoin p receipts = .ok ()) {samples : List (Sample τ)}
    (hlen : samples.length < 2 ^ 64)
    (hsamples : ∀ sample ∈ samples, ∀ r ∈ sample.receipts, ∀ packet, r.packet = .ok packet →
      SentTo text log b packet)
    {stats : SampleStats τ} (hstats : measureDatagramOneWay p samples = .ok stats) :
    ∃ seqs, Counts text log a b p samples stats seqs := by
  obtain ⟨m, tx, ho⟩ := joined_registered h hreceipts hjoined
  obtain ⟨seqs, hsub, hdelivered, hlost, hiff⟩ := measured hstats
  refine ⟨seqs, hsub, ?_, ?_, ?_, ?_⟩
  · rw [hdelivered]
    exact Nat.zero_add _
  · rw [hlost]
    exact Nat.zero_add _
  · intro seq hseq
    obtain ⟨hpos, hle⟩ := List.mem_range'_1.mp (hsub.subset hseq)
    obtain ⟨i, rfl⟩ := Nat.exists_eq_add_of_le hpos
    have hi : i < samples.length := by omega
    obtain ⟨r, hr, packet, hpacket, hacc⟩ :=
      (hiff i _ (List.getElem?_eq_getElem hi)).mp hseq
    exact accepted_heard htext h ho (hsamples _ (List.getElem_mem hi) r hr packet hpacket) hacc
  · intro i sample msg ms hi hmsg hrelay
    obtain ⟨r, hr, hpacket⟩ := hrelay
    have hlt : i < samples.length := (List.getElem?_eq_some_iff.mp hi).1
    have hseq : low64 (i + 1) = i + 1 := Nat.mod_eq_of_lt (by omega)
    rw [Nat.add_comm i 1] at hmsg hseq ⊢
    exact (hiff i sample hi).mpr ⟨r, hr, _, hpacket, accepts_sample htext hseq hmsg⟩

end Counting

theorem probe_counts_two : ∃ s log seqs, server.recorded.Reach Machine.anyStep s log ∧
    Counts exactText log ⟨1, 1⟩ ⟨1, 2⟩ "p_1" twoSamples { delivered := [7], lost := 1 } seqs := by
  obtain ⟨s, log, h, hp⟩ := log_of_actions Machine.anyStep probing
    (fun _ log => (eventsOf log).any (handsOver · == some true) &&
      (eventsOf log).any (handsOver · == some false)) (by decide +kernel)
  obtain ⟨hanswer, hrelay⟩ := (Bool.and_eq_true _ _).mp hp
  obtain ⟨e, he, hhanded⟩ := List.any_eq_true.mp hanswer
  obtain rfl := answer_handed (beq_iff_eq.mp hhanded)
  obtain ⟨e', he', hhanded'⟩ := List.any_eq_true.mp hrelay
  obtain rfl := relay_handed (beq_iff_eq.mp hhanded')
  have hjoined : connectAndJoin "p_1" firstReceipts = .ok () := by
    simp [connectAndJoin, parse_reliable_packet, firstReceipts, firstAnswer, heardAs]
  have hreceipts : ∀ packet, .ok packet ∈ firstReceipts → SentTo exactText log ⟨1, 1⟩ packet := by
    intro packet hmem
    obtain rfl := Except.ok.inj (List.mem_singleton.mp hmem)
    exact List.mem_filterMap.mpr ⟨_, he, rfl⟩
  have hsamples : ∀ sample ∈ twoSamples, ∀ r ∈ sample.receipts, ∀ packet,
      r.packet = .ok packet → SentTo exactText log ⟨1, 2⟩ packet := by
    intro sample hsample r hr packet hpacket
    rcases List.mem_pair.mp hsample with rfl | rfl
    · obtain rfl := List.mem_singleton.mp hr
      cases hpacket
      exact List.mem_filterMap.mpr ⟨_, he', rfl⟩
    · cases hr
  obtain ⟨seqs, hcounts⟩ := probe_counts exactText_toF32 h hreceipts hjoined (by decide) hsamples
    twoSamples_measured
  exact ⟨s, log, seqs, h, hcounts⟩

end Kotatsu.RemoteRtt
