import Kotatsu.Lib.Floats
import Kotatsu.Lib.Json
import Kotatsu.Server

/-
  Packets on the wire (`udp_connection.rs`, `types.rs`, the test client)

  A packet is a type byte before a JSON document. A document is modelled as `serde_json`
  delivers it: a number is a `u64`, an `i64` or else the `f64` nearest to its text. It reads
  a number as an `f32` by a cast. It writes a finite `f32` as a text that reads as some
  number, which is a parameter here (`text`), and any other `f32` as `null`.

  Correspondence:
    `handle_udp_packet`                    ↔ `readPacket`
    `ClientReliable`, `ClientDatagram`     ↔ `readClientReliable`, `readClientDatagram`
    `ServerReliable`, `ServerDatagram`     ↔ `writeServerReliable`, `writeServerDatagram`
    `parse_datagram` of the test client    ↔ `parseDatagram`
-/

namespace Kotatsu

open Float.Model (Format UnpackedFloat)
open Float.Model.UnpackedFloat (Sign)

/-! ## Numbers -/

/-- A finite `f64`. -/
structure F64 where
  sign : Sign
  mantissa : Nat
  exponent : Int
  mantissa_lt : mantissa < 2 ^ 53
  exponent_ge : -1074 ≤ exponent
  exponent_le : exponent ≤ 971

/-- `serde_json::Number`. -/
inductive Number where
  | posInt (n : UInt64)
  | negInt (n : Int64)
  | float (x : F64)

def Number.value : Number → UnpackedFloat
  | .posInt n => Rounding.dyadic .positive n.toNat 0
  | .negInt n =>
    Rounding.dyadic (if n.toInt < 0 then .negative else .positive) n.toInt.natAbs 0
  | .float x => Rounding.dyadic x.sign x.mantissa x.exponent

/-- The magnitude. -/
def Number.abs : Number → Rat
  | .posInt n => n.toNat
  | .negInt n => n.toInt.natAbs
  | .float x => (x.mantissa : Rat) * 2 ^ x.exponent

/-- The `as f32` of a number. -/
def Number.toF32 (n : Number) : F32 := Rounding.cast .binary32 n.value

def F32.Finite (v : F32) : Prop := @Rounding.FiniteBits .binary32 v

instance (v : F32) : Decidable v.Finite :=
  inferInstanceAs (Decidable (@Rounding.FiniteBits .binary32 v))

/-- The least magnitude whose cast to an `f32` is infinite. -/
def f32Overflow : Rat := Rounding.overflow .binary32

theorem toF32_finite (n : Number) : n.toF32.Finite ↔ n.abs < f32Overflow := by
  cases n with
  | float x => exact Rounding.finite_cast_dyadic (by decide) x.sign x.mantissa x.exponent
  | posInt n =>
    have h := @Rounding.finite_cast_dyadic .binary32 (by decide) .positive n.toNat 0
    rwa [zpow_zero, mul_one] at h
  | negInt n =>
    have h := @Rounding.finite_cast_dyadic .binary32 (by decide)
      (if n.toInt < 0 then .negative else .positive) n.toInt.natAbs 0
    rwa [zpow_zero, mul_one] at h

/-! ## Values -/

abbrev Doc := Json Number

def readString : Doc → Option String
  | .str s => some s
  | _ => none

/-- An unsigned integer below `2 ^ bits`. -/
def readUnsigned (bits : Nat) : Doc → Option Nat
  | .num (.posInt n) => if n.toNat < 2 ^ bits then some n.toNat else none
  | .num (.negInt n) => if 0 ≤ n.toInt ∧ n.toInt < 2 ^ bits then some n.toInt.toNat else none
  | _ => none

def readU8 : Doc → Option Nat := readUnsigned 8

def readU64 : Doc → Option Nat := readUnsigned 64

def readF32 : Doc → Option F32
  | .num n => some n.toF32
  | _ => none

/-- An unsigned integer, by its low 64 bits. -/
def writeUnsigned (n : Nat) : Doc := .num (.posInt (UInt64.ofNat n))

def writeF32 (text : F32 → Number) (v : F32) : Doc :=
  if v.Finite then .num (text v) else .null

theorem readU64_write (n : Nat) : readU64 (writeUnsigned n) = some (n % 2 ^ 64) := by
  have hn : (UInt64.ofNat n).toNat = n % 2 ^ 64 := UInt64.toNat_ofNat
  have hlt : n % 2 ^ 64 < 2 ^ 64 := Nat.mod_lt _ (by decide)
  simp only [readU64, readUnsigned, writeUnsigned, hn, if_pos hlt]

theorem readU8_write {n : Nat} (h : n < 2 ^ 8) : readU8 (writeUnsigned n) = some n := by
  have hmod : (UInt64.ofNat n).toNat = n % 2 ^ 64 := UInt64.toNat_ofNat
  have hn : (UInt64.ofNat n).toNat = n := by omega
  simp only [readU8, readUnsigned, writeUnsigned, hn, if_pos h]

theorem readU64_lt {d : Doc} {n : Nat} (h : readU64 d = some n) : n < 2 ^ 64 := by
  unfold readU64 readUnsigned at h
  split at h
  · split at h
    · next hlt =>
      cases h
      exact hlt
    · cases h
  · split at h
    · next hlt =>
      cases h
      omega
    · cases h
  · cases h

/-- A finite value comes back; any other is not written as a number. -/
theorem readF32_write {text : F32 → Number} (htext : ∀ v, v.Finite → (text v).toF32 = v)
    (v : F32) : readF32 (writeF32 text v) = if v.Finite then some v else none := by
  by_cases hv : v.Finite
  · simp only [writeF32, if_pos hv, readF32, htext v hv]
  · simp only [writeF32, if_neg hv, readF32]

/-! ## Messages of the client -/

/-- A variant without fields, by its name or as an empty object under it. -/
def readUnitVariant : Doc → Option String
  | .str name => some name
  | .obj [(name, .null)] => some name
  | .obj [(name, .obj [])] => some name
  | _ => none

def readParamKind (j : Doc) : Option ParamKind := do
  let name ← readUnitVariant j
  if name = "gravity" then some .gravity
  else if name = "friction" then some .friction
  else if name = "speed" then some .speed
  else none

def readParamDirection (j : Doc) : Option ParamDirection := do
  let name ← readUnitVariant j
  if name = "increase" then some .increase
  else if name = "decrease" then some .decrease
  else none

def readJoin : List Doc → Option ClientReliable
  | [token] => do
    let token ← readString token
    some (.join token)
  | _ => none

def readParamChange : List Doc → Option ClientReliable
  | [seq, param, direction] => do
    let seq ← readU64 seq
    let param ← readParamKind param
    let direction ← readParamDirection direction
    some (.paramChange seq param direction)
  | _ => none

def readClientReliable (j : Doc) : Option ClientReliable := do
  let (variant, content) ← j.tagged "t"
  if variant = "join" then content.fields ["token"] >>= readJoin
  else if variant = "param_change" then
    content.fields ["seq", "param", "direction"] >>= readParamChange
  else none

/-- The fields of a position, in the order of the source. -/
def posFields : List String := ["seq", "x", "y", "vx", "vy"]

def readClientPos : List Doc → Option ClientDatagram
  | [seq, x, y, vx, vy] => do
    let seq ← readU64 seq
    let x ← readF32 x
    let y ← readF32 y
    let vx ← readF32 vx
    let vy ← readF32 vy
    some (.pos seq x y vx vy)
  | _ => none

def readClientStageProgress : List Doc → Option ClientDatagram
  | [currentStageIndex] => do
    let currentStageIndex ← readU8 currentStageIndex
    some (.stageProgress currentStageIndex)
  | _ => none

def readClientDatagram (j : Doc) : Option ClientDatagram := do
  let (variant, content) ← j.tagged "t"
  if variant = "pos" then content.fields posFields >>= readClientPos
  else if variant = "stage_progress" then
    content.fields ["current_stage_index"] >>= readClientStageProgress
  else none

/-! ## Packets -/

def pktReliable : UInt8 := 0x01
def pktUnreliable : UInt8 := 0x02

/-- A packet that is not empty; `none` is a payload that is no JSON. -/
structure UdpPacket where
  pktType : UInt8
  payload : Option Doc

def readPacket (packet : UdpPacket) : Packet :=
  if packet.pktType = pktReliable then
    match packet.payload.bind readClientReliable with
    | some msg => .reliable msg
    | none => .malformed
  else if packet.pktType = pktUnreliable then
    match packet.payload.bind readClientDatagram with
    | some msg => .unreliable msg
    | none => .malformed
  else .malformed

/-! ## Messages of the server -/

def writePlayerParams (params : PlayerParams) : Doc :=
  .obj [("gravity", writeUnsigned params.gravity), ("friction", writeUnsigned params.friction),
    ("speed", writeUnsigned params.speed)]

def writePlayerMatchState (row : PlayerMatchState) : Doc :=
  .obj [("player_id", .str row.playerId), ("display_name", .str row.displayName),
    ("color_index", writeUnsigned row.colorIndex),
    ("stage_order", .arr (row.stageOrder.map writeUnsigned)),
    ("current_stage_index", writeUnsigned row.currentStageIndex)]

def writeServerReliable : ServerReliable → Doc
  | .joinOk matchId playerId params serverTimeMs =>
    .writeTagged "t" "join_ok"
      [("match_id", .str matchId), ("player_id", .str playerId),
        ("params", writePlayerParams params), ("server_time_ms", writeUnsigned serverTimeMs)]
  | .matchStarted matchId startedAtUnix players serverTimeMs =>
    .writeTagged "t" "match_started"
      [("match_id", .str matchId), ("started_at_unix", writeUnsigned startedAtUnix),
        ("players", .arr (players.map writePlayerMatchState)),
        ("server_time_ms", writeUnsigned serverTimeMs)]
  | .paramApplied fromPlayerId seq params nextParamChangeAtUnix serverTimeMs =>
    .writeTagged "t" "param_applied"
      [("from_player_id", .str fromPlayerId), ("seq", writeUnsigned seq),
        ("params", writePlayerParams params),
        ("next_param_change_at_unix", writeUnsigned nextParamChangeAtUnix),
        ("server_time_ms", writeUnsigned serverTimeMs)]
  | .error code message =>
    .writeTagged "t" "error" [("code", .str code), ("message", .str message)]

def writeServerDatagram (text : F32 → Number) : ServerDatagram → Doc
  | .pos playerId seq x y vx vy serverTimeMs =>
    .writeTagged "t" "pos"
      [("player_id", .str playerId), ("seq", writeUnsigned seq), ("x", writeF32 text x),
        ("y", writeF32 text y), ("vx", writeF32 text vx), ("vy", writeF32 text vy),
        ("server_time_ms", writeUnsigned serverTimeMs)]
  | .stageProgress playerId currentStageIndex serverTimeMs =>
    .writeTagged "t" "stage_progress"
      [("player_id", .str playerId), ("current_stage_index", writeUnsigned currentStageIndex),
        ("server_time_ms", writeUnsigned serverTimeMs)]

/-- The packet of `broadcast_datagram_udp`. -/
def datagramPacket (text : F32 → Number) (out : ServerDatagram) : UdpPacket :=
  { pktType := pktUnreliable, payload := some (writeServerDatagram text out) }

/-! ## The test client -/

def readServerPos : List Doc → Option ServerDatagram
  | [playerId, seq, x, y, vx, vy, serverTimeMs] => do
    let playerId ← readString playerId
    let seq ← readU64 seq
    let x ← readF32 x
    let y ← readF32 y
    let vx ← readF32 vx
    let vy ← readF32 vy
    let serverTimeMs ← readU64 serverTimeMs
    some (.pos playerId seq x y vx vy serverTimeMs)
  | _ => none

/-- `ServerDatagram` of the test client, which has no variant but `Pos`. -/
def readServerDatagram (j : Doc) : Option ServerDatagram := do
  let (variant, content) ← j.tagged "t"
  if variant = "pos" then
    content.fields ["player_id", "seq", "x", "y", "vx", "vy", "server_time_ms"] >>= readServerPos
  else none

def parseDatagram (packet : UdpPacket) : Option ServerDatagram :=
  if packet.pktType = pktUnreliable then packet.payload.bind readServerDatagram else none

end Kotatsu
