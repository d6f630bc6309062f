import Kotatsu.Messages
import Kotatsu.PosRelay

/-
  Both ends of the wire (`types.rs`, the test client)

  The test client declares the messages once more, with the fields that it needs: its
  `MatchStarted` has no rows, and its datagrams have no stage progress. A field that a
  declaration does not name is skipped by serde, so the two ends still agree on the rest:
  each message that one end writes is read by the other as what it was, with numbers taken
  to the width of their fields (`read_reliable`, `read_pos_packet`, `parse_reliable_packet`,
  `parse_tick`). Over any run, no reliable packet of the server is lost on the client's
  reader, and the position of a tick comes out of the relay as it went in (`wire_agrees`).

  Correspondence:
    `encode_packet`            ↔ `encodePacket`
    `parse_reliable`           ↔ `parseReliable`
    `ClientReliable` (written) ↔ `writeClientReliable`
    `ServerReliable` (read)    ↔ `TestClient.ServerReliable`, `readServerReliable`
-/

namespace Kotatsu.TestClient

open Json (Content)
open Machine (eventsOf)

/-! ## What the client writes -/

def encodePacket (pktType : UInt8) (msg : Doc) : UdpPacket :=
  { pktType := pktType, payload := some msg }

def writeParamKind : ParamKind → Doc
  | .gravity => .str "gravity"
  | .friction => .str "friction"
  | .speed => .str "speed"

def writeParamDirection : ParamDirection → Doc
  | .increase => .str "increase"
  | .decrease => .str "decrease"

def writeClientReliable : ClientReliable → Doc
  | .join token => .writeTagged "t" "join" [("token", .str token)]
  | .paramChange seq param direction =>
    .writeTagged "t" "param_change"
      [("seq", writeUnsigned seq), ("param", writeParamKind param),
        ("direction", writeParamDirection direction)]

/-- A position, the only datagram that the client sends. -/
def writeClientPos (text : F32 → Number) (seq : Nat) (x y vx vy : F32) : Doc :=
  .writeTagged "t" "pos"
    [("seq", writeUnsigned seq), ("x", writeF32 text x), ("y", writeF32 text y),
      ("vx", writeF32 text vx), ("vy", writeF32 text vy)]

/-! ## What the client reads -/

/-- `ServerReliable` of the test client. -/
inductive ServerReliable where
  | joinOk (matchId playerId : String) (params : PlayerParams) (serverTimeMs : Nat)
  | matchStarted (matchId : String) (startedAtUnix serverTimeMs : Nat)
  | paramApplied (fromPlayerId : String) (seq : Nat) (params : PlayerParams)
      (nextParamChangeAtUnix serverTimeMs : Nat)
  | error (code message : String)
  deriving DecidableEq, Repr

def readLevels : List Doc → Option PlayerParams
  | [gravity, friction, speed] => do
    let gravity ← readU8 gravity
    let friction ← readU8 friction
    let speed ← readU8 speed
    some { gravity := gravity, friction := friction, speed := speed }
  | _ => none

def readPlayerParams : Doc → Option PlayerParams
  | .obj fields => (Content.map fields).fields ["gravity", "friction", "speed"] >>= readLevels
  | .arr items => (Content.seq items).fields ["gravity", "friction", "speed"] >>= readLevels
  | _ => none

def readJoinOk : List Doc → Option ServerReliable
  | [matchId, playerId, params, serverTimeMs] => do
    let matchId ← readString matchId
    let playerId ← readString playerId
    let params ← readPlayerParams params
    let serverTimeMs ← readU64 serverTimeMs
    some (.joinOk matchId playerId params serverTimeMs)
  | _ => none

def readMatchStarted : List Doc → Option ServerReliable
  | [matchId, startedAtUnix, serverTimeMs] => do
    let matchId ← readString matchId
    let startedAtUnix ← readU64 startedAtUnix
    let serverTimeMs ← readU64 serverTimeMs
    some (.matchStarted matchId startedAtUnix serverTimeMs)
  | _ => none

def readParamApplied : List Doc → Option ServerReliable
  | [fromPlayerId, seq, params, nextParamChangeAtUnix, serverTimeMs] => do
    let fromPlayerId ← readString fromPlayerId
    let seq ← readU64 seq
    let params ← readPlayerParams params
    let nextParamChangeAtUnix ← readU64 nextParamChangeAtUnix
    let serverTimeMs ← readU64 serverTimeMs
    some (.paramApplied fromPlayerId seq params nextParamChangeAtUnix serverTimeMs)
  | _ => none

def readError : List Doc → Option ServerReliable
  | [code, message] => do
    let code ← readString code
    let message ← readString message
    some (.error code message)
  | _ => none

def readServerReliable (j : Doc) : Option ServerReliable := do
  let (variant, content) ← j.tagged "t"
  if variant = "join_ok" then
    content.fields ["match_id", "player_id", "params", "server_time_ms"] >>= readJoinOk
  else if variant = "match_started" then
    content.fields ["match_id", "started_at_unix", "server_time_ms"] >>= readMatchStarted
  else if variant = "param_applied" then
    content.fields ["from_player_id", "seq", "params", "next_param_change_at_unix",
      "server_time_ms"] >>= readParamApplied
  else if variant = "error" then content.fields ["code", "message"] >>= readError
  else none

def parseReliable (packet : UdpPacket) : Option ServerReliable :=
  if packet.pktType = pktReliable then packet.payload.bind readServerReliable else none

/-! ## From the client to the server -/

/-- The low 64 bits of a number, which is what is written of it. -/
def low64 (n : Nat) : Nat := n % 2 ^ 64

/-- A message as it comes out at the other end. -/
def sentAs : ClientReliable → ClientReliable
  | .join token => .join token
  | .paramChange seq param direction => .paramChange (low64 seq) param direction

theorem readParamKind_write (param : ParamKind) :
    readParamKind (writeParamKind param) = some param := by
  cases param <;> rfl

theorem readParamDirection_write (direction : ParamDirection) :
    readParamDirection (writeParamDirection direction) = some direction := by
  cases direction <;> rfl

/-- Every reliable message of the client is read as it was sent. -/
theorem read_reliable (msg : ClientReliable) :
    readPacket (encodePacket pktReliable (writeClientReliable msg)) = .reliable (sentAs msg) := by
  have hread : readClientReliable (writeClientReliable msg) = some (sentAs msg) := by
    cases msg with
    | join token => rfl
    | paramChange seq param direction =>
      have htag : (writeClientReliable (.paramChange seq param direction)).tagged "t" =
          some ("param_change", .map [("seq", writeUnsigned seq), ("param", writeParamKind param),
            ("direction", writeParamDirection direction)]) :=
        Json.tagged_writeTagged "param_change" (by simp)
      have hfields : (Content.map [("seq", writeUnsigned seq), ("param", writeParamKind param),
          ("direction", writeParamDirection direction)]).fields ["seq", "param", "direction"] =
          some [writeUnsigned seq, writeParamKind param, writeParamDirection direction] :=
        Json.fields_map (by simp)
      rw [readClientReliable, htag]
      simp [hfields, readParamChange, readU64_write, readParamKind_write,
        readParamDirection_write, sentAs, low64]
  simp [readPacket, encodePacket, hread]

theorem read_pos_message {text : F32 → Number} (htext : ∀ v, v.Finite → (text v).toF32 = v)
    (seq : Nat) (x y vx vy : F32) :
    readClientDatagram (writeClientPos text seq x y vx vy) =
      if FinitePos x y vx vy then some (.pos (low64 seq) x y vx vy) else none := by
  have htag : (writeClientPos text seq x y vx vy).tagged "t" =
      some ("pos", .map [("seq", writeUnsigned seq), ("x", writeF32 text x),
        ("y", writeF32 text y), ("vx", writeF32 text vx), ("vy", writeF32 text vy)]) :=
    Json.tagged_writeTagged "pos" (by simp)
  have hfields : (Content.map [("seq", writeUnsigned seq), ("x", writeF32 text x),
      ("y", writeF32 text y), ("vx", writeF32 text vx), ("vy", writeF32 text vy)]).fields
        posFields =
      some [writeUnsigned seq, writeF32 text x, writeF32 text y, writeF32 text vx,
        writeF32 text vy] :=
    Json.fields_map (by simp)
  rw [readClientDatagram, htag]
  simp only [Option.bind_eq_bind, Option.bind_some, if_true, hfields, readClientPos, readU64_write,
    readF32_write htext, FinitePos]
  by_cases hx : x.Finite <;> by_cases hy : y.Finite <;> by_cases hvx : vx.Finite <;>
    by_cases hvy : vy.Finite <;> simp [hx, hy, hvx, hvy, low64]

/-- A position is read as it was sent if all of it is finite, and dropped otherwise. -/
theorem read_pos_packet {text : F32 → Number} (htext : ∀ v, v.Finite → (text v).toF32 = v)
    (seq : Nat) (x y vx vy : F32) :
    readPacket (encodePacket pktUnreliable (writeClientPos text seq x y vx vy)) =
      if FinitePos x y vx vy then .unreliable (.pos (low64 seq) x y vx vy) else .malformed := by
  have hne : pktUnreliable ≠ pktReliable := by decide
  simp only [readPacket, encodePacket, if_neg hne, if_true, Option.bind_some,
    read_pos_message htext]
  by_cases hfin : FinitePos x y vx vy
  · simp only [if_pos hfin]
  · simp only [if_neg hfin]

/-! ## From the server to the client -/

/-- The packet of a reliable message. -/
def reliableDatagram (msg : Kotatsu.ServerReliable) : UdpPacket :=
  { pktType := pktReliable, payload := some (writeServerReliable msg) }

/-- What the client makes of a message. -/
def heardAs : Kotatsu.ServerReliable → ServerReliable
  | .joinOk m p params ms => .joinOk m p params (low64 ms)
  | .matchStarted m t _ ms => .matchStarted m (low64 t) (low64 ms)
  | .paramApplied p seq params next ms => .paramApplied p (low64 seq) params (low64 next) (low64 ms)
  | .error code message => .error code message

/-- The levels are `u8`s. -/
def FitsU8 (params : PlayerParams) : Prop :=
  params.gravity < 2 ^ 8 ∧ params.friction < 2 ^ 8 ∧ params.speed < 2 ^ 8

/-- The levels of a message are `u8`s. -/
def Legible : Kotatsu.ServerReliable → Prop
  | .joinOk _ _ params _ => FitsU8 params
  | .paramApplied _ _ params _ _ => FitsU8 params
  | _ => True

theorem readPlayerParams_write {params : PlayerParams} (h : FitsU8 params) :
    readPlayerParams (writePlayerParams params) = some params := by
  obtain ⟨hg, hf, hs⟩ := h
  have hfields : (Content.map [("gravity", writeUnsigned params.gravity),
      ("friction", writeUnsigned params.friction), ("speed", writeUnsigned params.speed)]).fields
        ["gravity", "friction", "speed"] =
      some [writeUnsigned params.gravity, writeUnsigned params.friction,
        writeUnsigned params.speed] :=
    Json.fields_map (by simp)
  rw [writePlayerParams, readPlayerParams, hfields]
  simp only [Option.bind_eq_bind, Option.bind_some, readLevels, readU8_write hg, readU8_write hf,
    readU8_write hs]

/-- Every reliable packet with levels in `u8`s is read as what was sent, without the rows of
a start. -/
theorem parse_reliable_packet {msg : Kotatsu.ServerReliable} (h : Legible msg) :
    parseReliable (reliableDatagram msg) = some (heardAs msg) := by
  have hparse : parseReliable (reliableDatagram msg) =
      readServerReliable (writeServerReliable msg) := rfl
  rw [hparse, readServerReliable]
  cases msg with
  | joinOk m p params ms =>
    have hfields := @Json.fields_map _ [("match_id", .str m), ("player_id", .str p),
      ("params", writePlayerParams params), ("server_time_ms", writeUnsigned ms)] (by simp)
    simp only [List.map_cons, List.map_nil] at hfields
    rw [writeServerReliable, Json.tagged_writeTagged "join_ok" (by simp)]
    simp only [Option.bind_eq_bind, Option.bind_some, if_true, hfields, readJoinOk, readString,
      readPlayerParams_write h, readU64_write]
    rfl
  | matchStarted m t players ms =>
    -- the rows are not asked for
    have hfields := @Json.fields_some _ [("match_id", .str m),
      ("started_at_unix", writeUnsigned t), ("players", .arr (players.map writePlayerMatchState)),
      ("server_time_ms", writeUnsigned ms)] [("match_id", .str m),
      ("started_at_unix", writeUnsigned t), ("server_time_ms", writeUnsigned ms)] (by simp)
      (by simp)
    simp only [List.map_cons, List.map_nil] at hfields
    rw [writeServerReliable, Json.tagged_writeTagged "match_started" (by simp)]
    simp only [Option.bind_eq_bind, Option.bind_some, if_true, hfields, readMatchStarted,
      readString, readU64_write]
    rfl
  | paramApplied p seq params next ms =>
    have hfields := @Json.fields_map _ [("from_player_id", .str p), ("seq", writeUnsigned seq),
      ("params", writePlayerParams params), ("next_param_change_at_unix", writeUnsigned next),
      ("server_time_ms", writeUnsigned ms)] (by simp)
    simp only [List.map_cons, List.map_nil] at hfields
    rw [writeServerReliable, Json.tagged_writeTagged "param_applied" (by simp)]
    simp only [Option.bind_eq_bind, Option.bind_some, if_true, hfields, readParamApplied,
      readString, readPlayerParams_write h, readU64_write]
    rfl
  | error code message => rfl

/-! ## The positions of a client -/

/-- `0.1`, `0.2` and `-0.1` as `f32`s. -/
def oneTenth : F32 := 0x3DCCCCCD#32
def twoTenths : F32 := 0x3E4CCCCD#32
def minusOneTenth : F32 := 0xBDCCCCCD#32

/-- `seq as f32`. -/
def seqAsF32 (seq : Nat) : F32 := (Number.posInt (UInt64.ofNat seq)).toF32

def mulF32 (a b : F32) : F32 := Rounding.mul .binary32 a b

/-- The datagram of a tick. -/
def tickDatagram (seq : Nat) : ClientDatagram :=
  .pos seq (mulF32 (seqAsF32 seq) oneTenth) (mulF32 (seqAsF32 seq) twoTenths) oneTenth
    minusOneTenth

def tickPacket (text : F32 → Number) (seq : Nat) : UdpPacket :=
  encodePacket pktUnreliable
    (writeClientPos text seq (mulF32 (seqAsF32 seq) oneTenth) (mulF32 (seqAsF32 seq) twoTenths)
      oneTenth minusOneTenth)

theorem seqAsF32_low64 (seq : Nat) : seqAsF32 (low64 seq) = seqAsF32 seq := by
  have h : UInt64.ofNat (low64 seq) = UInt64.ofNat seq := by
    apply UInt64.toNat.inj
    simp [low64]
  rw [seqAsF32, h, seqAsF32]

theorem seqAsF32_finite (seq : Nat) : (seqAsF32 seq).Finite := by
  refine (toF32_finite _).mpr ?_
  have hlt : ((UInt64.ofNat seq).toNat : Rat) < 2 ^ 64 := by
    exact_mod_cast (UInt64.ofNat seq).toNat_lt
  calc
    ((UInt64.ofNat seq).toNat : Rat) < 2 ^ 64 := hlt
    _ ≤ 2 ^ (127 : Int) := by norm_num
    _ ≤ f32Overflow := Rounding.overflow_ge .binary32

/-- A tenth or a fifth of a finite value is finite. -/
theorem tick_finite (seq : Nat) :
    FinitePos (mulF32 (seqAsF32 seq) oneTenth) (mulF32 (seqAsF32 seq) twoTenths) oneTenth
      minusOneTenth := by
  have hseq := seqAsF32_finite seq
  have htenth : Float.Model.UnpackedFloat.unpack .binary32 oneTenth =
      Rounding.dyadic .positive 13421773 (-27) := rfl
  have hfifth : Float.Model.UnpackedFloat.unpack .binary32 twoTenths =
      Rounding.dyadic .positive 13421773 (-26) := rfl
  refine ⟨?_, ?_, by decide, by decide⟩
  · exact Rounding.finite_mul (by decide) hseq htenth (by decide) (by norm_num)
  · exact Rounding.finite_mul (by decide) hseq hfifth (by decide) (by norm_num)

/-- The position of a tick is read as it was sent. -/
theorem read_tick {text : F32 → Number} (htext : ∀ v, v.Finite → (text v).toF32 = v) (seq : Nat) :
    readPacket (tickPacket text seq) = .unreliable (tickDatagram (low64 seq)) := by
  rw [tickPacket, read_pos_packet htext, if_pos (tick_finite seq), tickDatagram, seqAsF32_low64]

/-- And comes out of the relay as it went in. -/
theorem parse_tick {text : F32 → Number} (htext : ∀ v, v.Finite → (text v).toF32 = v)
    {seq : Nat} (p : String) (ms : Nat) {msg : ClientDatagram}
    (h : readPacket (tickPacket text seq) = .unreliable msg) :
    parseDatagram (datagramPacket text (relayOut p ms msg)) =
      some (relayOut p (low64 ms) (tickDatagram (low64 seq))) := by
  rw [read_tick htext] at h
  cases h
  rw [tickDatagram, relayOut, parse_pos htext, if_pos (tick_finite _), relayOut]
  simp [low64]

/-! ## Both ends over a run -/

theorem fitsU8_inRange {params : PlayerParams} (h : params.InRange) : FitsU8 params := by
  obtain ⟨⟨-, hg⟩, ⟨-, hf⟩, ⟨-, hs⟩⟩ := inRange_bounds h
  refine ⟨?_, ?_, ?_⟩ <;> omega

/-- What a change leaves is in range. -/
theorem updated_inRange {s : Sys} {tr : List Event} (hlogged : ParamsLogged s tr) {m p : String}
    {k : ParamKind} {d : ParamDirection} {now : Nat} {mu : ParamMutation}
    (he : Event.paramUpdated m p k d now mu ∈ tr) : mu.params.InRange := by
  obtain ⟨pre, hlog, -⟩ := log_upTo (hlogged.log p) (updatesOf_mem he)
  have hrange := log_inRange hlog
  rwa [paramsAfter_snoc] at hrange

theorem told_legible {s : Sys} {log : Log} (h : server.recorded.Reach Machine.anyStep s log)
    {b : SocketAddr} {msg : Kotatsu.ServerReliable} (ht : Told log b msg) : Legible msg := by
  cases ht with
  | joined _ => exact fitsU8_inRange default_inRange
  | refused _ => trivial
  | mail _ hmail =>
    cases hmail with
    | refused _ _ _ => trivial
    | news hnews =>
      cases hnews with
      | started => trivial
      | applied he _ _ =>
        exact fitsU8_inRange (updated_inRange (params_logged h.unrecorded) he)

/-- Both ends agree. The server reads every reliable message of the client, and every
position of its ticks, as what was sent. The client reads every reliable packet of a run
as what was sent, and every relayed tick with the coordinates that were sent. -/
theorem wire_agrees {text : F32 → Number} (htext : ∀ v, v.Finite → (text v).toF32 = v) {s : Sys}
    {log : Log} (h : server.recorded.Reach Machine.anyStep s log) :
    (∀ msg, readPacket (encodePacket pktReliable (writeClientReliable msg)) =
      .reliable (sentAs msg)) ∧
    (∀ seq, readPacket (tickPacket text seq) = .unreliable (tickDatagram (low64 seq))) ∧
    (∀ b msg, Event.sentReliable b msg ∈ eventsOf log →
      parseReliable (reliableDatagram msg) = some (heardAs msg)) ∧
    ∀ seq p ms msg, readPacket (tickPacket text seq) = .unreliable msg →
      parseDatagram (datagramPacket text (relayOut p ms msg)) =
        some (relayOut p (low64 ms) (tickDatagram (low64 seq))) := by
  refine ⟨read_reliable, read_tick htext, ?_, ?_⟩
  · intro b msg he
    exact parse_reliable_packet (told_legible h (told h he))
  · intro seq p ms msg hmsg
    exact parse_tick htext p ms hmsg

/-- The message that the event hands over for `a`. -/
def toldTo (a : SocketAddr) : Event → Option Kotatsu.ServerReliable
  | .sentReliable b msg => if b = a then some msg else none
  | _ => none

theorem toldTo_eq_some {a : SocketAddr} {e : Event} {msg : Kotatsu.ServerReliable}
    (h : toldTo a e = some msg) : e = .sentReliable a msg := by
  cases e with
  | sentReliable b msg' =>
    obtain ⟨rfl, rfl⟩ : b = a ∧ msg' = msg := by simpa [toldTo] using h
    rfl
  | _ => cases h

/-- The answer to the first of two joins. -/
theorem wire_agrees_two : ∃ s log msg, server.recorded.Reach Machine.anyStep s log ∧
    Event.sentReliable ⟨1, 1⟩ msg ∈ eventsOf log ∧
    parseReliable (reliableDatagram msg) = some (.joinOk "m_r" "p_1" .default 0) ∧
    ∀ seq, readPacket (tickPacket exactText seq) = .unreliable (tickDatagram (low64 seq)) := by
  obtain ⟨s, log, h, hp⟩ := log_of_actions Machine.anyStep twoPlayers
    (fun _ log => (eventsOf log).findSome? (toldTo ⟨1, 1⟩) ==
      some (.joinOk "m_r" "p_1" .default 0)) (by decide)
  obtain ⟨e, he, htold⟩ := List.exists_of_findSome?_eq_some (beq_iff_eq.mp hp)
  obtain rfl := toldTo_eq_some htold
  obtain ⟨-, htick, hsent, -⟩ := wire_agrees exactText_toF32 h
  exact ⟨s, log, _, h, he, hsent _ _ he, htick⟩

end Kotatsu.TestClient
