import Mathlib.Algebra.Ring.Nat
import Mathlib.Data.List.Basic

/-
  JSON documents and tagged records

  A document is what a reader makes of a JSON text, over any type of numbers: the fields of
  an object keep the order of the text, and a name may come more than once.

  A record is an object whose tag field names its variant, with its other fields in any
  order and unknown ones among them, or an array that begins with the tag and has the fields
  by position (serde's internally tagged representation, `tagged`, `Content.fields`). A
  record that is written reads back as it was (`tagged_writeTagged`, `fields_map`).
-/

inductive Json (N : Type) where
  | null
  | bool (b : Bool)
  | num (n : N)
  | str (s : String)
  | arr (items : List (Json N))
  | obj (fields : List (String × Json N))

namespace Json

variable {N : Type}

/-- What is left of a record without its tag: fields by name, or by position. -/
inductive Content (N : Type) where
  | map (fields : List (String × Json N))
  | seq (items : List (Json N))

/-- The value under a name that comes exactly once. -/
def only (fields : List (String × Json N)) (name : String) : Option (Json N) :=
  match fields.filter fun f => f.1 == name with
  | [f] => some f.2
  | _ => none

def tagged (tag : String) : Json N → Option (String × Content N)
  | .obj fields =>
    match only fields tag with
    | some (.str variant) => some (variant, .map (fields.filter fun f => f.1 != tag))
    | _ => none
  | .arr (.str variant :: items) => some (variant, .seq items)
  | _ => none

/-- The values of the named fields, in the order of the names. -/
def Content.fields (names : List String) : Content N → Option (List (Json N))
  | .map fields => names.mapM (only fields)
  | .seq items => if items.length = names.length then some items else none

def writeTagged (tag variant : String) (fields : List (String × Json N)) : Json N :=
  .obj ((tag, .str variant) :: fields)

/-! ## Reading back -/

theorem only_eq_some {fields : List (String × Json N)} {name : String} {v : Json N} :
    only fields name = some v ↔ fields.filter (fun f => f.1 == name) = [(name, v)] := by
  unfold only
  constructor
  · intro h
    split at h
    · next f hf =>
      have hname : f.1 = name := by
        have hmem : f ∈ fields.filter fun f => f.1 == name := hf ▸ List.mem_singleton_self f
        exact beq_iff_eq.mp (List.mem_filter.mp hmem).2
      rw [hf, ← hname, ← Option.some.inj h]
    · cases h
  · intro h
    rw [h]

/-- A name that comes once has one value. -/
theorem mem_iff_of_only {fields : List (String × Json N)} {name : String} {v : Json N}
    (h : only fields name = some v) (w : Json N) : (name, w) ∈ fields ↔ w = v := by
  have hmem : (name, w) ∈ fields ↔ (name, w) ∈ fields.filter fun f => f.1 == name := by
    rw [List.mem_filter]
    simp
  rw [hmem, only_eq_some.mp h, List.mem_singleton, Prod.mk.injEq, eq_self, true_and]

/-- The tag is no other name. -/
theorem only_untagged (fields : List (String × Json N)) {tag name : String} (hne : name ≠ tag) :
    only (fields.filter fun f => f.1 != tag) name = only fields name := by
  have hfilter : (fields.filter fun f => f.1 != tag).filter (fun f => f.1 == name) =
      fields.filter fun f => f.1 == name := by
    rw [List.filter_filter]
    refine List.filter_congr fun f _ => ?_
    by_cases hf : f.1 = name
    · simp [hf, hne]
    · simp [hf]
  rw [only, only, hfilter]

theorem only_of_nodup {fields : List (String × Json N)} (h : (fields.map Prod.fst).Nodup)
    {name : String} {v : Json N} (hmem : (name, v) ∈ fields) : only fields name = some v := by
  refine only_eq_some.mpr ?_
  induction fields with
  | nil => cases hmem
  | cons f fields ih =>
    obtain ⟨hnot, hrest⟩ := List.nodup_cons.mp h
    rcases List.mem_cons.mp hmem with rfl | hmem
    · have hnone : fields.filter (fun f => f.1 == name) = [] := by
        refine List.filter_eq_nil_iff.mpr fun g hg heq => hnot ?_
        exact List.mem_map.mpr ⟨g, hg, beq_iff_eq.mp heq⟩
      rw [List.filter_cons_of_pos (by simp), hnone]
    · have hne : ¬ (f.1 == name) = true := by
        intro heq
        exact hnot (List.mem_map.mpr ⟨(name, v), hmem, (beq_iff_eq.mp heq).symm⟩)
      rw [List.filter_cons_of_neg (by exact hne)]
      exact ih hrest hmem

theorem tagged_writeTagged {tag : String} (variant : String) {fields : List (String × Json N)}
    (h : tag ∉ fields.map Prod.fst) :
    (writeTagged tag variant fields).tagged tag = some (variant, .map fields) := by
  have hne : ∀ f ∈ fields, (f.1 == tag) = false := by
    intro f hf
    refine beq_eq_false_iff_ne.mpr fun heq => h ?_
    exact List.mem_map.mpr ⟨f, hf, heq⟩
  have honly : only ((tag, .str variant) :: fields) tag = some (.str variant) := by
    refine only_eq_some.mpr ?_
    rw [List.filter_cons_of_pos (by simp), List.filter_eq_nil_iff.mpr]
    intro f hf
    rw [hne f hf]
    exact Bool.false_ne_true
  have hrest : ((tag, .str variant) :: fields).filter (fun f => f.1 != tag) = fields := by
    rw [List.filter_cons_of_neg (by simp)]
    refine List.filter_eq_self.mpr fun f hf => ?_
    rw [bne, hne f hf]
    rfl
  simp only [writeTagged, tagged, honly, hrest]

theorem fields_map_cons {fields : List (String × Json N)} {name : String} {names : List String}
    {v : Json N} {vs : List (Json N)} :
    (Content.map fields).fields (name :: names) = some (v :: vs) ↔
      only fields name = some v ∧ (Content.map fields).fields names = some vs := by
  simp [Content.fields, Option.bind_eq_some_iff]

theorem mapM_only {fields : List (String × Json N)} {fs : List (String × Json N)}
    (h : ∀ f ∈ fs, only fields f.1 = some f.2) :
    (fs.map Prod.fst).mapM (only fields) = some (fs.map Prod.snd) := by
  induction fs with
  | nil => rfl
  | cons f fs ih =>
    rw [List.map_cons, List.mapM_cons, h f List.mem_cons_self,
      ih fun g hg => h g (List.mem_cons_of_mem _ hg)]
    rfl

theorem fields_map {fields : List (String × Json N)} (h : (fields.map Prod.fst).Nodup) :
    (Content.map fields).fields (fields.map Prod.fst) = some (fields.map Prod.snd) :=
  mapM_only fun _ hf => only_of_nodup h hf

/-- A reader that asks for some of the fields is not told of the others. -/
theorem fields_some {fields fs : List (String × Json N)} (h : (fields.map Prod.fst).Nodup)
    (hsub : fs ⊆ fields) : (Content.map fields).fields (fs.map Prod.fst) = some (fs.map Prod.snd) :=
  mapM_only fun _ hf => only_of_nodup h (hsub hf)

/-! ## Texts -/

section Text
variable (number : N → String) (string : String → String)

mutual

/-- The text of a document, without white space. -/
def text : Json N → String
  | .null => "null"
  | .bool b => if b then "true" else "false"
  | .num n => number n
  | .str s => string s
  | .arr items => "[" ++ textItems items ++ "]"
  | .obj fields => "\x7b" ++ textFields fields ++ "\x7d"

def textItems : List (Json N) → String
  | [] => ""
  | [item] => text item
  | item :: next :: items => text item ++ "," ++ textItems (next :: items)

def textFields : List (String × Json N) → String
  | [] => ""
  | [(name, v)] => string name ++ ":" ++ text v
  | (name, v) :: next :: fields =>
    string name ++ ":" ++ text v ++ "," ++ textFields (next :: fields)

end

/-- The bytes of a text. -/
def size (j : Json N) : Nat := (text number string j).utf8ByteSize

/-- Two brackets, and a comma between two items. -/
theorem size_arr (items : List (Json N)) : size number string (.arr items) =
    (items.map (size number string)).sum + (items.length - 1) + 2 := by
  have hitems : (textItems number string items).utf8ByteSize =
      (items.map (size number string)).sum + (items.length - 1) := by
    induction items with
    | nil => rfl
    | cons item items ih =>
      cases items with
      | nil => simp [textItems, size]
      | cons next items =>
        have hcomma : ",".utf8ByteSize = 1 := by decide
        rw [textItems, String.utf8ByteSize_append, String.utf8ByteSize_append, ih, hcomma]
        simp only [List.map_cons, List.sum_cons, List.length_cons, size]
        omega
  have hopen : "[".utf8ByteSize = 1 := by decide
  have hclose : "]".utf8ByteSize = 1 := by decide
  rw [size, text, String.utf8ByteSize_append, String.utf8ByteSize_append, hitems, hopen, hclose]
  omega

/-- Two braces, a colon in every field, and a comma between two fields. -/
theorem size_obj (fields : List (String × Json N)) : size number string (.obj fields) =
    (fields.map fun f => (string f.1).utf8ByteSize + 1 + size number string f.2).sum +
      (fields.length - 1) + 2 := by
  have hcolon : ":".utf8ByteSize = 1 := by decide
  have hfields : (textFields number string fields).utf8ByteSize =
      (fields.map fun f => (string f.1).utf8ByteSize + 1 + size number string f.2).sum +
        (fields.length - 1) := by
    induction fields with
    | nil => rfl
    | cons field fields ih =>
      cases fields with
      | nil => simp [textFields, size, hcolon]
      | cons next fields =>
        have hcomma : ",".utf8ByteSize = 1 := by decide
        simp only [textFields, String.utf8ByteSize_append, ih, hcomma, hcolon, List.map_cons,
          List.sum_cons, List.length_cons, size]
        omega
  have hopen : "\x7b".utf8ByteSize = 1 := by decide
  have hclose : "\x7d".utf8ByteSize = 1 := by decide
  rw [size, text, String.utf8ByteSize_append, String.utf8ByteSize_append, hfields, hopen, hclose]
  omega

end Text

/-- A text of ASCII characters has as many bytes as characters. -/
theorem ascii_size {s : String} (h : ∀ c ∈ s.toList, c.toNat ≤ 127) :
    s.utf8ByteSize = s.toList.length := by
  have key : ∀ l : List Char, (∀ c ∈ l, c.toNat ≤ 127) →
      (String.ofList l).utf8ByteSize = l.length := by
    intro l hl
    induction l with
    | nil => rfl
    | cons c l ih =>
      have hc : c.utf8Size = 1 := Char.utf8Size_eq_one_iff.mpr (hl c List.mem_cons_self)
      rw [← List.singleton_append, String.ofList_append, String.utf8ByteSize_append,
        ih fun d hd => hl d (List.mem_cons_of_mem _ hd), ← String.singleton_eq_ofList,
        String.utf8ByteSize_singleton, hc, List.length_append, List.length_singleton]
  calc
    s.utf8ByteSize = (String.ofList s.toList).utf8ByteSize := by rw [String.ofList_toList]
    _ = s.toList.length := key _ h

end Json
