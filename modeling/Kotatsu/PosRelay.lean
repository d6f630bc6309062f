import Kotatsu.Relays
import Kotatsu.Wire

/-
  A position from one client to another (`handle_unreliable_message`, `parse_datagram`)

  The server reads the coordinates of a position as `f32`, and writes them again for the
  other clients. A number from `f32Overflow` on is read as an infinity, which is written as
  `null`, and a client reads no `null` as a coordinate: its packet is dropped
  (`position_lost`). The relayed packet reads back as the position that the server has read
  exactly when the numbers of its payload are below that bound (`pos_round_trip`).
-/

namespace Kotatsu

open Float.Model (UnpackedFloat)

/-! ## What the server reads -/

def numberOf : Doc → Option Number
  | .num n => some n
  | _ => none

/-- The numbers that a payload has for the coordinates of a position, by name or by
place. -/
def coordinates : Doc → List Number
  | .obj fields =>
    (fields.filter fun f => ["x", "y", "vx", "vy"].contains f.1).filterMap fun f => numberOf f.2
  | .arr (_ :: _ :: items) => items.filterMap numberOf
  | _ => []

theorem numberOf_eq_some {d : Doc} {n : Number} : numberOf d = some n ↔ d = .num n := by
  cases d <;> simp [numberOf]

theorem readF32_eq_some {d : Doc} {v : F32} (h : readF32 d = some v) :
    ∃ n, d = .num n ∧ v = n.toF32 := by
  cases d with
  | num n => exact ⟨n, rfl, (Option.some.inj h).symm⟩
  | _ => cases h

/-- The fields of a position that the server has accepted. -/
theorem read_pos {j : Doc} {seq : Nat} {x y vx vy : F32}
    (h : readClientDatagram j = some (.pos seq x y vx vy)) :
    ∃ content dseq dx dy dvx dvy, j.tagged "t" = some ("pos", content) ∧
      content.fields posFields = some [dseq, dx, dy, dvx, dvy] ∧ readU64 dseq = some seq ∧
      readF32 dx = some x ∧ readF32 dy = some y ∧ readF32 dvx = some vx ∧
      readF32 dvy = some vy := by
  obtain ⟨⟨variant, content⟩, htag, h⟩ := Option.bind_eq_some_iff.mp h
  simp only at h
  split at h
  · next hv =>
    obtain ⟨items, hitems, h⟩ := Option.bind_eq_some_iff.mp h
    unfold readClientPos at h
    split at h
    · next dseq dx dy dvx dvy =>
      obtain ⟨_, hseq, h⟩ := Option.bind_eq_some_iff.mp h
      obtain ⟨_, hx, h⟩ := Option.bind_eq_some_iff.mp h
      obtain ⟨_, hy, h⟩ := Option.bind_eq_some_iff.mp h
      obtain ⟨_, hvx, h⟩ := Option.bind_eq_some_iff.mp h
      obtain ⟨_, hvy, h⟩ := Option.bind_eq_some_iff.mp h
      cases h
      exact ⟨content, dseq, dx, dy, dvx, dvy, hv ▸ htag, hitems, hseq, hx, hy, hvx, hvy⟩
    · cases h
  · split at h
    · -- the other variant is no position
      obtain ⟨items, -, h⟩ := Option.bind_eq_some_iff.mp h
      unfold readClientStageProgress at h
      split at h
      · obtain ⟨_, -, h⟩ := Option.bind_eq_some_iff.mp h
        cases h
      · cases h
    · cases h

theorem mem_obj_coordinates {fields : List (String × Doc)} {n : Number} :
    n ∈ coordinates (.obj fields) ↔ ∃ name ∈ ["x", "y", "vx", "vy"], (name, .num n) ∈ fields := by
  simp only [coordinates, List.mem_filterMap, List.mem_filter, numberOf_eq_some,
    List.contains_iff_mem]
  constructor
  · intro h
    obtain ⟨⟨name, d⟩, ⟨hmem, hname⟩, rfl⟩ := h
    exact ⟨name, hname, hmem⟩
  · intro h
    obtain ⟨name, hname, hmem⟩ := h
    exact ⟨(name, .num n), ⟨hmem, hname⟩, rfl⟩

theorem mem_coordinates {j dseq dx dy dvx dvy : Doc} {content : Json.Content Number}
    (htag : j.tagged "t" = some ("pos", content))
    (hfields : content.fields posFields = some [dseq, dx, dy, dvx, dvy]) (n : Number) :
    n ∈ coordinates j ↔ .num n ∈ [dx, dy, dvx, dvy] := by
  cases j with
  | obj fields =>
    simp only [Json.tagged] at htag
    split at htag
    · obtain ⟨-, rfl⟩ := Prod.mk.inj (Option.some.inj htag)
      simp only [posFields, Json.fields_map_cons] at hfields
      obtain ⟨-, hx, hy, hvx, hvy, -⟩ := hfields
      rw [Json.only_untagged _ (by decide)] at hx hy hvx hvy
      rw [mem_obj_coordinates]
      simp [Json.mem_iff_of_only hx, Json.mem_iff_of_only hy, Json.mem_iff_of_only hvx,
        Json.mem_iff_of_only hvy]
    · cases htag
  | arr items =>
    cases items with
    | nil => cases htag
    | cons d items =>
      cases d with
      | str variant =>
        obtain ⟨-, rfl⟩ := Prod.mk.inj (Option.some.inj htag)
        simp only [Json.Content.fields] at hfields
        split at hfields
        · cases hfields
          simp [coordinates, List.mem_filterMap, numberOf_eq_some]
        · cases hfields
      | _ => cases htag
  | _ => cases htag

/-! ## What a client reads back -/

/-- All of a position is finite. -/
def FinitePos (x y vx vy : F32) : Prop := x.Finite ∧ y.Finite ∧ vx.Finite ∧ vy.Finite

instance (x y vx vy : F32) : Decidable (FinitePos x y vx vy) :=
  inferInstanceAs (Decidable (_ ∧ _))

/-- The numbers of an accepted payload are below the bound exactly when the position that
is read from them is finite. -/
theorem finitePos_iff {j : Doc} {seq : Nat} {x y vx vy : F32}
    (h : readClientDatagram j = some (.pos seq x y vx vy)) :
    FinitePos x y vx vy ↔ ∀ n ∈ coordinates j, n.abs < f32Overflow := by
  obtain ⟨content, dseq, dx, dy, dvx, dvy, htag, hfields, -, hx, hy, hvx, hvy⟩ := read_pos h
  obtain ⟨nx, rfl, rfl⟩ := readF32_eq_some hx
  obtain ⟨ny, rfl, rfl⟩ := readF32_eq_some hy
  obtain ⟨nvx, rfl, rfl⟩ := readF32_eq_some hvx
  obtain ⟨nvy, rfl, rfl⟩ := readF32_eq_some hvy
  have hmem : ∀ n, n ∈ coordinates j ↔ n = nx ∨ n = ny ∨ n = nvx ∨ n = nvy := by
    intro n
    rw [mem_coordinates htag hfields]
    simp
  simp only [hmem, FinitePos, toF32_finite]
  constructor
  · intro hfin n hn
    obtain ⟨h1, h2, h3, h4⟩ := hfin
    rcases hn with rfl | rfl | rfl | rfl <;> assumption
  · intro hall
    exact ⟨hall nx (by simp), hall ny (by simp), hall nvx (by simp), hall nvy (by simp)⟩

/-- The fields of a relayed position. -/
def posOut (text : F32 → Number) (p : String) (seq : Nat) (x y vx vy : F32) (ms : Nat) :
    List (String × Doc) :=
  [("player_id", .str p), ("seq", writeUnsigned seq), ("x", writeF32 text x),
    ("y", writeF32 text y), ("vx", writeF32 text vx), ("vy", writeF32 text vy),
    ("server_time_ms", writeUnsigned ms)]

theorem read_written_pos (text : F32 → Number) (p : String) (seq : Nat) (x y vx vy : F32)
    (ms : Nat) :
    readServerDatagram (writeServerDatagram text (.pos p seq x y vx vy ms)) =
      readServerPos ((posOut text p seq x y vx vy ms).map Prod.snd) := by
  have htag : (writeServerDatagram text (.pos p seq x y vx vy ms)).tagged "t" =
      some ("pos", .map (posOut text p seq x y vx vy ms)) :=
    Json.tagged_writeTagged "pos" (by simp)
  have hfields : (Json.Content.map (posOut text p seq x y vx vy ms)).fields
      ["player_id", "seq", "x", "y", "vx", "vy", "server_time_ms"] =
      some ((posOut text p seq x y vx vy ms).map Prod.snd) :=
    Json.fields_map (by simp [posOut])
  rw [readServerDatagram, htag]
  exact congrArg (· >>= readServerPos) hfields

theorem parse_pos {text : F32 → Number} (htext : ∀ v, v.Finite → (text v).toF32 = v) (p : String)
    (seq : Nat) (x y vx vy : F32) (ms : Nat) :
    parseDatagram (datagramPacket text (.pos p seq x y vx vy ms)) =
      if FinitePos x y vx vy then some (.pos p (seq % 2 ^ 64) x y vx vy (ms % 2 ^ 64))
      else none := by
  have hparse : parseDatagram (datagramPacket text (.pos p seq x y vx vy ms)) =
      readServerDatagram (writeServerDatagram text (.pos p seq x y vx vy ms)) := rfl
  rw [hparse, read_written_pos]
  simp only [posOut, List.map_cons, List.map_nil, readServerPos, readString, readU64_write,
    readF32_write htext, FinitePos]
  by_cases hx : x.Finite <;> by_cases hy : y.Finite <;> by_cases hvx : vx.Finite <;>
    by_cases hvy : vy.Finite <;> simp [hx, hy, hvx, hvy]

/-- The relayed packet reads back as the position that the server has read. -/
def ReadsBack (text : F32 → Number) (out : ServerDatagram) (seq : Nat) (x y vx vy : F32) : Prop :=
  ∃ q ms, parseDatagram (datagramPacket text out) = some (.pos q seq x y vx vy ms)

theorem readsBack_iff {text : F32 → Number} (htext : ∀ v, v.Finite → (text v).toF32 = v)
    {j : Doc} {seq : Nat} {x y vx vy : F32}
    (h : readClientDatagram j = some (.pos seq x y vx vy)) (p : String) (ms : Nat) :
    ReadsBack text (.pos p seq x y vx vy ms) seq x y vx vy ↔
      ∀ n ∈ coordinates j, n.abs < f32Overflow := by
  have hseq : seq % 2 ^ 64 = seq := by
    obtain ⟨_, dseq, _, _, _, _, -, -, hseq, -⟩ := read_pos h
    exact Nat.mod_eq_of_lt (readU64_lt hseq)
  rw [← finitePos_iff h, ReadsBack, parse_pos htext, hseq]
  by_cases hfin : FinitePos x y vx vy
  · simp only [if_pos hfin]
    exact ⟨fun _ => hfin, fun _ => ⟨p, ms % 2 ^ 64, rfl⟩⟩
  · simp only [if_neg hfin]
    refine ⟨fun hex => ?_, fun hfin' => absurd hfin' hfin⟩
    obtain ⟨_, _, hex⟩ := hex
    cases hex

/-! ## The relay of a position -/

/-- The numbers of the coordinates in a packet. -/
def UdpPacket.coordinates (packet : UdpPacket) : List Number :=
  (packet.payload.map Kotatsu.coordinates).getD []

theorem readPacket_unreliable {packet : UdpPacket} {msg : ClientDatagram}
    (h : readPacket packet = .unreliable msg) :
    ∃ j, packet.payload = some j ∧ readClientDatagram j = some msg := by
  unfold readPacket at h
  split at h
  · split at h <;> cases h
  · split at h
    · split at h
      · next hread =>
        cases h
        exact Option.bind_eq_some_iff.mp hread
      · cases h
    · cases h

/-- The packet that is relayed for a position reads back as the position that the server
has read exactly when the magnitude of every number given for a coordinate is below the
bound. -/
theorem pos_round_trip {text : F32 → Number} (htext : ∀ v, v.Finite → (text v).toF32 = v)
    {packet : UdpPacket} {seq : Nat} {x y vx vy : F32}
    (hpacket : readPacket packet = .unreliable (.pos seq x y vx vy)) {tid : Nat} {a : SocketAddr}
    {m p : String} {s : Sys} {tr : List Event}
    (h : Accepted tid a m p (.pos seq x y vx vy) s tr) :
    ∃ out, s.relays.get tid = some (.collect m p out) ∧
      (∀ all sent, RelaysFrom all tid s sent → ∀ e ∈ sent, e.2 = out) ∧
      (ReadsBack text out seq x y vx vy ↔ ∀ n ∈ packet.coordinates, n.abs < f32Overflow) := by
  obtain ⟨j, hj, hread⟩ := readPacket_unreliable hpacket
  have hcoords : packet.coordinates = coordinates j := by rw [UdpPacket.coordinates, hj]; rfl
  obtain ⟨ms, ht⟩ := h.task
  refine ⟨.pos p seq x y vx vy ms, ht, ?_, hcoords ▸ readsBack_iff htext hread p ms⟩
  intro all sent hrelays e he
  exact relays_out ht hrelays e he

/-! ## A text for every finite value -/

/-- A value within the bounds of an `f64`, and 0 for any other. -/
def F64.ofUnpacked : UnpackedFloat → F64
  | .finite s m e _ =>
    if h : m < 2 ^ 53 ∧ -1074 ≤ e ∧ e ≤ 971 then ⟨s, m, e, h.1, h.2.1, h.2.2⟩
    else ⟨s, 0, 0, by decide, by decide, by decide⟩
  | .zero s => ⟨s, 0, 0, by decide, by decide, by decide⟩
  | _ => ⟨.positive, 0, 0, by decide, by decide, by decide⟩

/-- The text of a finite `f32` read as exactly its value, as that of a short decimal is. -/
def exactText (v : F32) : Number := .float (F64.ofUnpacked (UnpackedFloat.unpack .binary32 v))

theorem exactText_toF32 (v : F32) (hv : v.Finite) : (exactText v).toF32 = v := by
  obtain ⟨s, m, e, hunpack, hm, hge, hle⟩ := Rounding.unpack_dyadic (by decide) hv
  have hm : m < 2 ^ 24 := hm
  have hge : -149 ≤ e := hge
  have hle : e ≤ 104 := hle
  have hvalue : (exactText v).value = UnpackedFloat.unpack .binary32 v := by
    rw [exactText, hunpack]
    rcases Nat.eq_zero_or_pos m with rfl | hpos
    · rfl
    · rw [Rounding.dyadic_of_pos s hpos e, F64.ofUnpacked, dif_pos ⟨by omega, by omega, by omega⟩]
      exact Rounding.dyadic_of_pos s hpos e
  rw [Number.toF32, hvalue]
  exact Rounding.cast_unpack (by decide) hv

/-- A payload with these numbers, and the position that is read from it. -/
def posPacket (x y vx vy : Number) : UdpPacket :=
  { pktType := pktUnreliable
    payload := some (.obj [("t", .str "pos"), ("seq", .num (.posInt 1)), ("x", .num x),
      ("y", .num y), ("vx", .num vx), ("vy", .num vy)]) }

def posMessage (x y vx vy : Number) : ClientDatagram :=
  .pos 1 x.toF32 y.toF32 vx.toF32 vy.toF32

theorem readPacket_posPacket (x y vx vy : Number) :
    readPacket (posPacket x y vx vy) = .unreliable (posMessage x y vx vy) := rfl

theorem coordinates_posPacket (x y vx vy : Number) :
    (posPacket x y vx vy).coordinates = [x, y, vx, vy] := rfl

/-- The first of two players sends the position. -/
theorem posMessage_accepted {x y vx vy : Number}
    (h : (server.exec Machine.anyStep (Sys.init "")
      (twoPlayers ++ [firstDatagram (posMessage x y vx vy)])).any
        (fun r => heardFrom "p_1" (posMessage x y vx vy) r.1) = true) :
    ∃ s tr, Accepted 3 ⟨1, 1⟩ "m_r" "p_1" (posMessage x y vx vy) s tr := by
  obtain ⟨s₀, tr₀, hreach, hp⟩ := reach_of_actions Machine.anyStep _
    (fun s _ => heardFrom "p_1" (posMessage x y vx vy) s) h
  obtain ⟨s, tr, hacc, -, -, -⟩ := accepted_of_heard hreach hp
  exact ⟨s, tr, hacc⟩

def zeroPoint : Number := .posInt 0
def oneAndAHalf : Number := .float ⟨.positive, 3, -1, by decide, by decide, by decide⟩
def minusTwo : Number := .negInt (-2)

/-- `1e39`, as an `f64`. -/
def beyondF32 : Number :=
  .float ⟨.positive, 6617444900424221, 77, by decide, by decide, by decide⟩

theorem pos_round_trip_two : ∃ s tr out,
    Accepted 3 ⟨1, 1⟩ "m_r" "p_1" (posMessage oneAndAHalf minusTwo zeroPoint zeroPoint) s tr ∧
    s.relays.get 3 = some (.collect "m_r" "p_1" out) ∧
    ReadsBack exactText out 1 oneAndAHalf.toF32 minusTwo.toF32 zeroPoint.toF32 zeroPoint.toF32 := by
  have hrun : ∃ s tr, Accepted 3 ⟨1, 1⟩ "m_r" "p_1"
      (posMessage oneAndAHalf minusTwo zeroPoint zeroPoint) s tr := posMessage_accepted (by decide)
  obtain ⟨s, tr, hacc⟩ := hrun
  obtain ⟨out, ht, -, hback⟩ :=
    pos_round_trip exactText_toF32 (readPacket_posPacket _ _ _ _) hacc
  refine ⟨s, tr, out, hacc, ht, hback.mpr ?_⟩
  rw [coordinates_posPacket]
  intro n hn
  have hn : n = oneAndAHalf ∨ n = minusTwo ∨ n = zeroPoint := by simpa using hn
  rcases hn with rfl | rfl | rfl <;> exact (toF32_finite _).mp (by decide)

/-- A coordinate that an `f32` has no finite value for: no client reads the packet. -/
theorem position_lost : ¬ ∀ text : F32 → Number, (∀ v, v.Finite → (text v).toF32 = v) →
    ∀ packet seq x y vx vy tid a m p s tr,
    readPacket packet = .unreliable (.pos seq x y vx vy) →
    Accepted tid a m p (.pos seq x y vx vy) s tr →
    ∃ out, s.relays.get tid = some (.collect m p out) ∧ ReadsBack text out seq x y vx vy := by
  intro hall
  have hrun : ∃ s tr, Accepted 3 ⟨1, 1⟩ "m_r" "p_1"
      (posMessage beyondF32 zeroPoint zeroPoint zeroPoint) s tr := posMessage_accepted (by decide)
  obtain ⟨s, tr, hacc⟩ := hrun
  obtain ⟨ms, ht⟩ := hacc.task
  obtain ⟨out, ht', q, ms', hparse⟩ := hall exactText exactText_toF32 _ _ _ _ _ _ _ _ _ _ _ _
    (readPacket_posPacket beyondF32 zeroPoint zeroPoint zeroPoint) hacc
  obtain rfl : relayOut "p_1" ms (posMessage beyondF32 zeroPoint zeroPoint zeroPoint) = out := by
    rw [ht] at ht'
    simpa using ht'
  have hinf : ¬ FinitePos beyondF32.toF32 zeroPoint.toF32 zeroPoint.toF32 zeroPoint.toF32 := by
    decide
  rw [posMessage, relayOut, parse_pos exactText_toF32, if_neg hinf] at hparse
  cases hparse

end Kotatsu
