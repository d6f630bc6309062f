import Kotatsu.Wire

/-
  How long a reliable packet is (`send_reliable`, the outgoing task)

  A packet is the type byte and the JSON text of its message. Ids are drawn, numbers have
  at most 20 digits and the texts of errors are fixed, so every message but `MatchStarted`
  is short. The length of a `MatchStarted` is that of the display names and what is around
  them (`matchStarted_size`).

  How `serde_json` writes a string is a parameter (`Writer`): a string of plain characters
  is put between quotes, and every other one takes at least its own bytes.
-/

namespace Kotatsu

/-! ## Texts -/

/-- A printable ASCII character that is neither a quote nor a backslash. -/
def plainChar (c : Char) : Bool :=
  0x20 ≤ c.toNat && c.toNat ≤ 0x7E && c.toNat != 0x22 && c.toNat != 0x5C

def Plain (s : String) : Prop := s.toList.all plainChar = true

instance (s : String) : Decidable (Plain s) := inferInstanceAs (Decidable (_ = true))

/-- What `serde_json` writes for a string and for an `f64`. -/
structure Writer where
  string : String → String
  float : F64 → String
  /-- Plain characters stand for themselves. -/
  plain : ∀ s, Plain s → string s = "\x22" ++ s ++ "\x22"
  bytes : ∀ s, s.utf8ByteSize ≤ (string s).utf8ByteSize

def Number.text (float : F64 → String) : Number → String
  | .posInt n => toString n.toNat
  | .negInt n => toString n.toInt
  | .float x => float x

/-- `serde_json::to_vec`, as a text. -/
def Writer.text (w : Writer) (j : Doc) : String := j.text (Number.text w.float) w.string

def Writer.size (w : Writer) (j : Doc) : Nat := j.size (Number.text w.float) w.string

/-- The packet that is built for a reliable message. -/
def reliablePacket (w : Writer) (msg : ServerReliable) : ByteArray :=
  ByteArray.empty.push pktReliable ++ (w.text (writeServerReliable msg)).toUTF8

/-- The largest payload of a UDP datagram. -/
def maxUdpPayload : Nat := 65507

theorem plain_append {s t : String} (hs : Plain s) (ht : Plain t) : Plain (s ++ t) := by
  rw [Plain, String.toList_append, List.all_append, Bool.and_eq_true]
  exact ⟨hs, ht⟩

theorem plain_size {s : String} (h : Plain s) : s.utf8ByteSize = s.toList.length := by
  refine Json.ascii_size ?_
  intro c hc
  have hplain : plainChar c = true := List.all_eq_true.mp h c hc
  simp only [plainChar, Bool.and_eq_true, decide_eq_true_eq] at hplain
  omega

theorem reliablePacket_size (w : Writer) (msg : ServerReliable) :
    (reliablePacket w msg).size = 1 + w.size (writeServerReliable msg) := ByteArray.size_append

/-! ## The writer of `serde_json` -/

/-- A character in a string: a few have a short escape, and the other control characters
one by their code. -/
def escapeChar (c : Char) : String :=
  match c.toNat with
  | 0x22 => "\\\x22"
  | 0x5C => "\\\\"
  | 0x08 => "\\b"
  | 0x09 => "\\t"
  | 0x0A => "\\n"
  | 0x0C => "\\f"
  | 0x0D => "\\r"
  | n =>
    if n < 0x20 then
      "\\u00" ++ String.singleton (n / 16).digitChar ++ String.singleton (n % 16).digitChar
    else String.singleton c

def escape : List Char → String
  | [] => ""
  | c :: cs => escapeChar c ++ escape cs

def escapeString (s : String) : String := "\x22" ++ escape s.toList ++ "\x22"

theorem escapeChar_plain {c : Char} (h : plainChar c = true) :
    escapeChar c = String.singleton c := by
  simp only [plainChar, Bool.and_eq_true, decide_eq_true_eq, bne_iff_ne] at h
  unfold escapeChar
  split <;> first | omega | exact if_neg (by omega)

theorem escape_plain : ∀ cs : List Char, cs.all plainChar = true → escape cs = String.ofList cs
  | [], _ => rfl
  | c :: cs, h => by
    obtain ⟨hc, hcs⟩ := (Bool.and_eq_true _ _).mp h
    rw [escape, escapeChar_plain hc, escape_plain cs hcs, String.singleton_eq_ofList,
      ← String.ofList_append, List.singleton_append]

theorem escapeChar_bytes (c : Char) : c.utf8Size ≤ (escapeChar c).utf8ByteSize := by
  unfold escapeChar
  split
  case h_8 =>
    split
    · have hone : c.utf8Size = 1 := Char.utf8Size_eq_one_iff.mpr (show c.toNat ≤ 127 by omega)
      rw [hone, String.utf8ByteSize_append, String.utf8ByteSize_append,
        String.utf8ByteSize_singleton]
      have hcode : "\\u00".utf8ByteSize = 4 := by decide
      omega
    · rw [String.utf8ByteSize_singleton]
  all_goals
    have hone : c.utf8Size = 1 := Char.utf8Size_eq_one_iff.mpr (show c.toNat ≤ 127 by omega)
    rw [hone]
    decide

theorem escape_bytes (cs : List Char) :
    (String.ofList cs).utf8ByteSize ≤ (escape cs).utf8ByteSize := by
  induction cs with
  | nil => exact Nat.le_refl _
  | cons c cs ih =>
    have hc := escapeChar_bytes c
    rw [← List.singleton_append, String.ofList_append, ← String.singleton_eq_ofList,
      String.utf8ByteSize_append, String.utf8ByteSize_singleton, List.singleton_append, escape,
      String.utf8ByteSize_append]
    omega

/-- `serde_json`, with any texts for floats. -/
def jsonWriter (float : F64 → String) : Writer where
  string := escapeString
  float := float
  plain s h := by rw [escapeString, escape_plain _ h, String.ofList_toList]
  bytes s := by
    have h := escape_bytes s.toList
    rw [String.ofList_toList] at h
    rw [escapeString, String.utf8ByteSize_append, String.utf8ByteSize_append]
    omega

section Writer
variable (w : Writer)

theorem string_size {s : String} (h : Plain s) :
    (w.string s).utf8ByteSize = s.toList.length + 2 := by
  have hquote : "\x22".utf8ByteSize = 1 := by decide
  rw [w.plain s h, String.utf8ByteSize_append, String.utf8ByteSize_append, plain_size h, hquote]
  omega

theorem size_str (s : String) : w.size (.str s) = (w.string s).utf8ByteSize := by
  rw [Writer.size, Json.size, Json.text]

theorem size_arr (items : List Doc) :
    w.size (.arr items) = (items.map w.size).sum + (items.length - 1) + 2 := Json.size_arr _ _ _

theorem size_obj (fields : List (String × Doc)) : w.size (.obj fields) =
    (fields.map fun f => (w.string f.1).utf8ByteSize + 1 + w.size f.2).sum +
      (fields.length - 1) + 2 := Json.size_obj _ _ _

/-! ## Numbers -/

/-- The digits of a number, by its low 64 bits. -/
def numberSize (n : Nat) : Nat := (toString (n % 2 ^ 64)).utf8ByteSize

theorem digit_bounds {c : Char} (h : c.isDigit = true) : 48 ≤ c.toNat ∧ c.toNat ≤ 57 := by
  simpa [Char.isDigit, UInt32.le_iff_toNat_le] using h

theorem toString_plain (n : Nat) : Plain (toString n) := by
  have hrepr : (toString n).toList = Nat.toDigits 10 n := by
    show n.repr.toList = _
    rw [Nat.repr_eq_ofList_toDigits, String.toList_ofList]
  rw [Plain, hrepr, List.all_eq_true]
  intro c hc
  have hdigit := digit_bounds (Nat.isDigit_of_mem_toDigits (by decide) (by decide) hc)
  simp only [plainChar, Bool.and_eq_true, decide_eq_true_eq, bne_iff_ne]
  omega

theorem toString_size_le {n k : Nat} (hk : 0 < k) (h : n < 10 ^ k) :
    (toString n).toList.length ≤ k := by
  rw [String.length_toList]
  exact (Nat.length_repr_le_iff hk).mpr h

theorem numberSize_le (n : Nat) : numberSize n ≤ 20 := by
  have hlt : n % 2 ^ 64 < 10 ^ 20 := by omega
  rw [numberSize, plain_size (toString_plain _)]
  exact toString_size_le (by decide) hlt

theorem numberSize_digit {n : Nat} (h : n < 10) : numberSize n = 1 := by
  have hmod : n % 2 ^ 64 = n := Nat.mod_eq_of_lt (by omega)
  have hpos : 0 < n.repr.length := Nat.length_repr_pos
  have hle : (toString n).toList.length ≤ 1 := toString_size_le (by decide) (by omega)
  rw [numberSize, hmod, plain_size (toString_plain _)]
  rw [String.length_toList] at hle ⊢
  exact le_antisymm hle hpos

theorem size_writeUnsigned (n : Nat) : w.size (writeUnsigned n) = numberSize n := by
  have hn : (UInt64.ofNat n).toNat = n % 2 ^ 64 := UInt64.toNat_ofNat
  rw [Writer.size, writeUnsigned, Json.size, Json.text, Number.text, hn, numberSize]

/-! ## Ids and names -/

/-- A version 4 UUID in its simple format: 32 hexadecimal digits. -/
def SimpleUuid (uuid : String) : Prop :=
  uuid.toList.length = 32 ∧ uuid.toList.all fun c => c.isDigit || (97 ≤ c.toNat && c.toNat ≤ 102)

instance (uuid : String) : Decidable (SimpleUuid uuid) := inferInstanceAs (Decidable (_ ∧ _))

/-- The id of a room or a player. -/
def DrawnId (id : String) : Prop := id.toList.length = 34 ∧ Plain id

theorem uuid_plain {uuid : String} (h : SimpleUuid uuid) : Plain uuid := by
  refine List.all_eq_true.mpr ?_
  intro c hc
  have hhex := List.all_eq_true.mp h.2 c hc
  simp only [Bool.or_eq_true, Bool.and_eq_true, decide_eq_true_eq] at hhex
  simp only [plainChar, Bool.and_eq_true, decide_eq_true_eq, bne_iff_ne]
  rcases hhex with hdigit | hletter
  · have hbounds := digit_bounds hdigit
    omega
  · omega

theorem drawnId_of_uuid {uuid tag : String} (h : SimpleUuid uuid) (htag : Plain tag)
    (hlen : tag.toList.length = 2) : DrawnId (tag ++ uuid) := by
  refine ⟨?_, plain_append htag (uuid_plain h)⟩
  rw [String.toList_append, List.length_append, hlen, h.1]

theorem id_size {id : String} (h : DrawnId id) : w.size (.str id) = 36 := by
  rw [size_str, string_size w h.2, h.1]

/-! ## Messages -/

theorem size_params_le (params : PlayerParams) : w.size (writePlayerParams params) ≤ 95 := by
  have hg := numberSize_le params.gravity
  have hf := numberSize_le params.friction
  have hs := numberSize_le params.speed
  rw [writePlayerParams, size_obj]
  simp (disch := decide) [size_writeUnsigned, string_size]
  omega

theorem joinOk_size {m p : String} (hm : DrawnId m) (hp : DrawnId p) (params : PlayerParams)
    (ms : Nat) : (reliablePacket w (.joinOk m p params ms)).size ≤ 256 := by
  have hparams := size_params_le w params
  have hms := numberSize_le ms
  rw [reliablePacket_size, writeServerReliable, Json.writeTagged, size_obj]
  simp (disch := decide) [size_writeUnsigned, id_size w hm, id_size w hp, size_str, string_size]
  omega

theorem paramApplied_size {p : String} (hp : DrawnId p) (seq : Nat) (params : PlayerParams)
    (next ms : Nat) : (reliablePacket w (.paramApplied p seq params next ms)).size ≤ 320 := by
  have hparams := size_params_le w params
  have hseq := numberSize_le seq
  have hnext := numberSize_le next
  have hms := numberSize_le ms
  rw [reliablePacket_size, writeServerReliable, Json.writeTagged, size_obj]
  simp (disch := decide) [size_writeUnsigned, id_size w hp, size_str, string_size]
  omega

theorem error_size {code message : String} (hcode : Plain code) (hmessage : Plain message) :
    (reliablePacket w (.error code message)).size =
      37 + code.toList.length + message.toList.length := by
  rw [reliablePacket_size, writeServerReliable, Json.writeTagged, size_obj]
  simp (disch := first | assumption | decide) [size_str, string_size]
  omega

/-- A row with an id that was drawn, and single digits. -/
structure PlayerMatchState.Digits (row : PlayerMatchState) : Prop where
  playerId : DrawnId row.playerId
  colorIndex : row.colorIndex < 10
  stageOrder : row.stageOrder.length = matchStageOrderLen
  stages : ∀ x ∈ row.stageOrder, x < 10
  currentStageIndex : row.currentStageIndex < 10

theorem row_size {row : PlayerMatchState} (h : row.Digits) :
    w.size (writePlayerMatchState row) = 130 + (w.string row.displayName).utf8ByteSize := by
  have hstages : w.size (.arr (row.stageOrder.map writeUnsigned)) = 9 := by
    have hones : (row.stageOrder.map writeUnsigned).map w.size = row.stageOrder.map fun _ => 1 := by
      rw [List.map_map]
      refine List.map_congr_left ?_
      intro x hx
      exact (size_writeUnsigned w x).trans (numberSize_digit (h.stages x hx))
    have hlen : row.stageOrder.length = 4 := h.stageOrder
    rw [size_arr, hones]
    simp [hlen]
  rw [writePlayerMatchState, size_obj]
  simp (disch := decide) [size_writeUnsigned, id_size w h.playerId, hstages, size_str, string_size,
    numberSize_digit h.colorIndex, numberSize_digit h.currentStageIndex]
  omega

/-- What is around the display names in a `MatchStarted` for so many players. -/
def startOverhead (players startedAtUnix serverTimeMs : Nat) : Nat :=
  118 + numberSize startedAtUnix + numberSize serverTimeMs +
    if players = 0 then 2 else 131 * players + 1

theorem matchStarted_size {m : String} (hm : DrawnId m) (t : Nat) {players : List PlayerMatchState}
    (hplayers : ∀ row ∈ players, row.Digits) (ms : Nat) :
    (reliablePacket w (.matchStarted m t players ms)).size =
      startOverhead players.length t ms +
        (players.map fun row => (w.string row.displayName).utf8ByteSize).sum := by
  have hrows : ((players.map writePlayerMatchState).map w.size).sum =
      130 * players.length +
        (players.map fun row => (w.string row.displayName).utf8ByteSize).sum := by
    induction players with
    | nil => rfl
    | cons row players ih =>
      have hrest := ih fun r hr => hplayers r (List.mem_cons_of_mem _ hr)
      have hrow := row_size w (hplayers row List.mem_cons_self)
      simp only [List.map_cons, List.sum_cons, List.length_cons, hrest, hrow]
      omega
  have hlist : w.size (.arr (players.map writePlayerMatchState)) = 130 * players.length +
      (players.map fun row => (w.string row.displayName).utf8ByteSize).sum +
        (players.length - 1) + 2 := by
    rw [size_arr, hrows, List.length_map]
  rw [reliablePacket_size, writeServerReliable, Json.writeTagged, size_obj]
  simp (disch := decide) [size_writeUnsigned, id_size w hm, hlist, size_str, string_size]
  rw [startOverhead]
  split <;> omega

end Writer

end Kotatsu
