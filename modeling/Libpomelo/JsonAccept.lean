import Libpomelo.JsonLoad
import Libpomelo.JsonScan
import Mathlib.Data.List.Nodup

/-!
# What the JSON loader accepts

Whatever the buffer holds, loading it ends, and the only way to fail is to refuse
(`jsonLoadb_refusing`). What is loaded has keys that differ, strings without zero bytes and
integers of 64 bits (`Loaded`), all the way down (`Json.All`).
-/

namespace Libpomelo

open Utf8 (Text)

/-! ## Values -/

mutual

/-- Every value in a value meets a condition. -/
def Json.All (P : Json → Prop) : Json → Prop
  | .arr xs => P (.arr xs) ∧ AllElems P xs
  | .obj kvs => P (.obj kvs) ∧ AllMembers P kvs
  | v => P v
termination_by structural v => v

/-- Every value in an element does. -/
def AllElems (P : Json → Prop) : List Json → Prop
  | [] => True
  | x :: xs => x.All P ∧ AllElems P xs
termination_by structural xs => xs

/-- Every value in a member does. -/
def AllMembers (P : Json → Prop) : List (String × Json) → Prop
  | [] => True
  | (_, v) :: kvs => v.All P ∧ AllMembers P kvs
termination_by structural kvs => kvs

end

/-- What the loader makes of a text of at most `n` bytes: integers of 64 bits, strings and keys
without zero bytes, keys that differ, and no more elements than bytes. -/
def Loaded (n : ℕ) : Json → Prop
  | .int i => -2 ^ 63 ≤ i ∧ i < 2 ^ 63
  | .str s => 0 ∉ utf8Bytes s
  | .arr xs => xs.length ≤ n
  | .obj kvs => (kvs.map Prod.fst).Nodup ∧ ∀ kv ∈ kvs, 0 ∉ utf8Bytes kv.1
  | _ => True

/-- Of two lists in a row. -/
theorem allElems_append {P : Json → Prop} {xs ys : List Json} :
    AllElems P (xs ++ ys) ↔ AllElems P xs ∧ AllElems P ys := by
  induction xs with
  | nil => simp [AllElems]
  | cons x xs ih => simp only [List.cons_append, AllElems, ih, and_assoc]

/-- What holds of the members and of a value holds after the value is set. -/
theorem AllMembers.setMember {P : Json → Prop} {key : String} {v : Json}
    {kvs : List (String × Json)} (h : AllMembers P kvs) (hv : v.All P) :
    AllMembers P (setMember key v kvs) := by
  induction kvs with
  | nil => exact ⟨hv, trivial⟩
  | cons kv kvs ih =>
    obtain ⟨k, w⟩ := kv
    rw [Libpomelo.setMember]
    split
    · exact ⟨hv, h.2⟩
    · exact ⟨h.1, ih h.2⟩

/-- A key that is set again keeps its place. -/
theorem map_fst_setMember (key : String) (v : Json) (kvs : List (String × Json)) :
    (setMember key v kvs).map Prod.fst =
      if key ∈ kvs.map Prod.fst then kvs.map Prod.fst else kvs.map Prod.fst ++ [key] := by
  induction kvs with
  | nil => simp [setMember]
  | cons kv kvs ih =>
    obtain ⟨k, w⟩ := kv
    rw [setMember]
    by_cases hk : k = key
    · subst hk
      simp
    · rw [if_neg hk, List.map_cons, ih, List.map_cons]
      by_cases hmem : key ∈ kvs.map Prod.fst
      · rw [if_pos hmem, if_pos (List.mem_cons_of_mem _ hmem)]
      · rw [if_neg hmem, if_neg (by simpa [Ne.symm hk] using hmem), List.cons_append]

/-- An object keeps what is known of its keys when a member is set. -/
theorem Loaded.setMember {n : ℕ} {key : String} {v : Json} {kvs : List (String × Json)}
    (h : Loaded n (.obj kvs)) (hkey : 0 ∉ utf8Bytes key) :
    Loaded n (.obj (setMember key v kvs)) := by
  obtain ⟨hnd, hzero⟩ := h
  have hkeys : ∀ k ∈ kvs.map Prod.fst, 0 ∉ utf8Bytes k := by
    rintro k hk
    obtain ⟨kv, hkv, rfl⟩ := List.mem_map.mp hk
    exact hzero kv hkv
  have hmap := map_fst_setMember key v kvs
  refine ⟨?_, fun kv hkv => ?_⟩
  · rw [hmap]
    split
    · exact hnd
    · next hmem =>
      rw [← List.concat_eq_append]
      exact hnd.concat hmem
  · have hmem := List.mem_map_of_mem (f := Prod.fst) hkv
    rw [hmap] at hmem
    split at hmem
    · exact hkeys _ hmem
    · rcases List.mem_append.mp hmem with hmem | hmem
      · exact hkeys _ hmem
      · exact List.mem_singleton.mp hmem ▸ hkey

/-! ## The parser -/

/-- A text without zeros is a JSON string without them. -/
theorem jsonText_refusing (strtod : Bytes → Strtod) {bytes : Bytes} (htext : Text bytes)
    (hzero : 0 ∉ bytes) : Refusing strtod (jsonText bytes) fun s => 0 ∉ utf8Bytes s := by
  obtain ⟨s, hs⟩ := Utf8.text_iff.mp htext
  rw [jsonText, hs]
  refine .ok ?_
  rwa [utf8Bytes, Utf8.toByteArray_of_fromUTF8? hs]

/-- What a function of the parser returns that has `left` bytes of the buffer before it. -/
structure Parsed (data : Bytes) (left : ℕ) (r : Json × Lex) : Prop where
  value : r.1.All (Loaded data.length)
  whole : Whole data .eof r.2.stream
  left : r.2.stream.left ≤ left

/-- What the functions of the parser do with so much fuel. -/
structure Parses (strtod : Bytes → Strtod) (data : Bytes) (fuel : ℕ) : Prop where
  value : ∀ {left token lex}, Read data left token lex → left ≤ data.length → 3 * left + 1 ≤ fuel →
    Refusing strtod (parseValue strtod fuel token lex) (Parsed data left)
  object : ∀ {lex}, Whole data .eof lex.stream → lex.stream.left ≤ data.length →
    3 * lex.stream.left + 3 ≤ fuel →
    Refusing strtod (parseObject strtod fuel lex) (Parsed data lex.stream.left)
  members : ∀ {left kvs token lex}, Read data left token lex → left ≤ data.length → 3 * left + 2 ≤ fuel →
    (Json.obj kvs).All (Loaded data.length) →
    Refusing strtod (parseMembers strtod fuel (.obj kvs) token lex) (Parsed data left)
  array : ∀ {lex}, Whole data .eof lex.stream → lex.stream.left ≤ data.length →
    3 * lex.stream.left + 3 ≤ fuel →
    Refusing strtod (parseArray strtod fuel lex) (Parsed data lex.stream.left)
  elements : ∀ {left xs token lex}, Read data left token lex → xs.length + left ≤ data.length →
    3 * left + 2 ≤ fuel → AllElems (Loaded data.length) xs →
    Refusing strtod (parseElements strtod fuel (.arr xs) token lex) (Parsed data left)

section

variable {strtod : Bytes → Strtod} {data : Bytes} {fuel : ℕ}

theorem Parsed.mono {left left' : ℕ} {r : Json × Lex} (h : Parsed data left r) (hle : left ≤ left') :
    Parsed data left' r := ⟨h.value, h.whole, h.left.trans hle⟩

/-- A value: by its first token. -/
theorem parseValue_step (h : Parses strtod data fuel) {left : ℕ} {token : Token} {lex : Lex}
    (hread : Read data left token lex) (hleft : left ≤ data.length) (hfuel : 3 * left ≤ fuel) :
    Refusing strtod (parseValue strtod (fuel + 1) token lex) (Parsed data left) := by
  obtain ⟨rfl, -⟩ | ⟨hsound, hwhole, hless⟩ := hread
  · exact .refused
  have hleaf : ∀ v : Json, v.All (Loaded data.length) → Parsed data left (v, lex) := fun v hv =>
    ⟨hv, hwhole, hless.le⟩
  cases token with
  | eof => exact .refused
  | string bytes =>
    exact (jsonText_refusing strtod hsound.1 hsound.2).bind fun s hs => .ok (hleaf (.str s) hs)
  | integer i => exact .ok (hleaf (.int i) hsound)
  | real x =>
    rw [parseValue, jsonReal]
    split
    · next j hj =>
      split at hj
      · obtain rfl := Option.some.inj hj
        exact .ok (hleaf (.real _) trivial)
      · exact absurd hj (by simp)
    · exact .refused
  | bool b => exact .ok (hleaf (.bool b) trivial)
  | null => exact .ok (hleaf .null trivial)
  | punct b =>
    rw [parseValue]
    split
    · exact (h.object hwhole (hless.le.trans hleft) (by omega)).mono fun r hr => hr.mono hless.le
    split
    · exact (h.array hwhole (hless.le.trans hleft) (by omega)).mono fun r hr => hr.mono hless.le
    · exact .refused

/-- An object, from the token behind its brace. -/
theorem parseObject_step (h : Parses strtod data fuel) {lex : Lex} (hwhole : Whole data .eof lex.stream)
    (hleft : lex.stream.left ≤ data.length) (hfuel : 3 * lex.stream.left + 2 ≤ fuel) :
    Refusing strtod (parseObject strtod (fuel + 1) lex) (Parsed data lex.stream.left) := by
  rw [parseObject]
  refine (lexScan_scanned strtod hwhole).bind fun r hr => ?_
  split
  · next hclose =>
    obtain ⟨heof, -⟩ | hscan := hr
    · exact absurd (heof.symm.trans hclose) (by simp)
    · exact .ok ⟨⟨⟨.nil, by simp⟩, trivial⟩, hscan.whole, hscan.left.le⟩
  · exact h.members hr hleft hfuel ⟨⟨.nil, by simp⟩, trivial⟩

/-- Its members, one at a time. -/
theorem parseMembers_step (h : Parses strtod data fuel) {left : ℕ} {kvs : List (String × Json)}
    {token : Token} {lex : Lex} (hread : Read data left token lex) (hleft : left ≤ data.length)
    (hfuel : 3 * left + 1 ≤ fuel) (hkvs : (Json.obj kvs).All (Loaded data.length)) :
    Refusing strtod (parseMembers strtod (fuel + 1) (.obj kvs) token lex) (Parsed data left) := by
  cases token with
  | eof | punct b | integer i | real x | bool b | null => exact .refused
  | string bytes =>
    rw [parseMembers]
    obtain ⟨heof, -⟩ | ⟨hsound, hwhole, hless⟩ := hread
    · exact absurd heof (by simp)
    refine (jsonText_refusing strtod hsound.1 hsound.2).bind fun key hkey => ?_
    refine (lexScan_scanned strtod hwhole).bind fun colon hcolon => ?_
    split
    · exact .refused
    obtain ⟨heof, -⟩ | hscan := hcolon
    · next hne => exact absurd heof (by simp [not_not.mp hne])
    have hfirst := hscan.left
    refine (lexScan_scanned strtod hscan.whole).bind fun r hr => ?_
    refine (h.value hr (by omega) (by omega)).bind fun value hvalue => ?_
    have hmember : (Json.obj (setMember key value.1 kvs)).All (Loaded data.length) :=
      ⟨hkvs.1.setMember hkey, hkvs.2.setMember hvalue.value⟩
    have hbehind := hvalue.left
    refine (lexScan_scanned strtod hvalue.whole).bind fun r hr => ?_
    split
    · next hcomma =>
      obtain ⟨heof, -⟩ | hscan' := hr
      · exact absurd (heof.symm.trans hcomma) (by simp)
      have hlast := hscan'.left
      refine (lexScan_scanned strtod hscan'.whole).bind fun r' hr' => ?_
      exact (h.members hr' (by omega) (by omega) hmember).mono fun r hr => hr.mono (by omega)
    split
    · next hclose =>
      obtain ⟨heof, -⟩ | hscan' := hr
      · exact absurd (heof.symm.trans hclose) (by simp)
      have hlast := hscan'.left
      exact .ok ⟨hmember, hscan'.whole, by dsimp only; omega⟩
    · exact .refused

/-- An array, from the token behind its bracket. -/
theorem parseArray_step (h : Parses strtod data fuel) {lex : Lex} (hwhole : Whole data .eof lex.stream)
    (hleft : lex.stream.left ≤ data.length) (hfuel : 3 * lex.stream.left + 2 ≤ fuel) :
    Refusing strtod (parseArray strtod (fuel + 1) lex) (Parsed data lex.stream.left) := by
  rw [parseArray]
  refine (lexScan_scanned strtod hwhole).bind fun r hr => ?_
  split
  · next hclose =>
    obtain ⟨heof, -⟩ | hscan := hr
    · exact absurd (heof.symm.trans hclose) (by simp)
    · exact .ok ⟨⟨Nat.zero_le _, trivial⟩, hscan.whole, hscan.left.le⟩
  · exact h.elements hr (by simpa using hleft) hfuel trivial

/-- Its elements, one at a time. -/
theorem parseElements_step (h : Parses strtod data fuel) {left : ℕ} {xs : List Json} {token : Token}
    {lex : Lex} (hread : Read data left token lex) (hleft : xs.length + left ≤ data.length)
    (hfuel : 3 * left + 1 ≤ fuel) (hxs : AllElems (Loaded data.length) xs) :
    Refusing strtod (parseElements strtod (fuel + 1) (.arr xs) token lex) (Parsed data left) := by
  rw [parseElements]
  split
  · exact .refused
  · next hne =>
    have hscan := hread.resolve_left fun heof => hne heof.1
    refine (h.value hread (by omega) hfuel).bind fun elem helem => ?_
    have hmore : AllElems (Loaded data.length) (xs ++ [elem.1]) :=
      allElems_append.mpr ⟨hxs, helem.value, trivial⟩
    have hlen : (xs ++ [elem.1]).length = xs.length + 1 := by simp
    have hbehind := helem.left
    have hpos := hscan.left
    refine (lexScan_scanned strtod helem.whole).bind fun r hr => ?_
    split
    · next hcomma =>
      obtain ⟨heof, -⟩ | hscan' := hr
      · exact absurd (heof.symm.trans hcomma) (by simp)
      have hlast := hscan'.left
      refine (lexScan_scanned strtod hscan'.whole).bind fun r' hr' => ?_
      exact (h.elements hr' (by omega) (by omega) hmore).mono fun r hr => hr.mono (by omega)
    split
    · next hclose =>
      obtain ⟨heof, -⟩ | hscan' := hr
      · exact absurd (heof.symm.trans hclose) (by simp)
      have hlast := hscan'.left
      exact .ok ⟨⟨by show (xs ++ [elem.1]).length ≤ data.length; omega, hmore⟩, hscan'.whole,
        by dsimp only; omega⟩
    · exact .refused

/-- The parser does what it should with any fuel: less than the text asks for is never given. -/
theorem parses (strtod : Bytes → Strtod) (data : Bytes) (fuel : ℕ) : Parses strtod data fuel := by
  induction fuel with
  | zero =>
    refine ⟨?_, ?_, ?_, ?_, ?_⟩ <;> intros <;> omega
  | succ fuel ih =>
    exact {
      value := fun hread hleft hfuel => parseValue_step ih hread hleft (by omega)
      object := fun hwhole hleft hfuel => parseObject_step ih hwhole hleft (by omega)
      members := fun hread hleft hfuel hkvs => parseMembers_step ih hread hleft (by omega) hkvs
      array := fun hwhole hleft hfuel => parseArray_step ih hwhole hleft (by omega)
      elements := fun hread hleft hfuel hxs => parseElements_step ih hread hleft (by omega) hxs }

end

/-- **Loading** any buffer is refused, or the buffer is a text and a value is made of it that the
format can express. Nothing else stops it, if `strtod` reads numbers to their end: no assertion, no
read or write outside a block, no string that is not UTF-8 and no recursion without end. -/
theorem jsonLoadb_refusing (strtod : Bytes → Strtod) (data : Bytes) :
    Refusing strtod (jsonLoadb strtod data) fun v => Text data ∧ v.All (Loaded data.length) := by
  have hwhole : Whole data .eof (streamInit data) :=
    ⟨⟨[], by simpa [StreamChar.bytes, streamInit] using Text.nil⟩,
      ⟨⟨[], .nil, rfl⟩, fun hstate => absurd hstate (by simp [streamInit])⟩, trivial⟩
  have hleft : (streamInit data).left = data.length := by simp [JsonStream.left, streamInit]
  refine (@lexScan_scanned _ strtod ⟨streamInit data, []⟩ hwhole).bind fun r hr => ?_
  split
  · exact .refused
  · dsimp only at hr
    rw [hleft] at hr
    refine ((parses strtod data _).value hr le_rfl (by omega)).bind fun value hvalue => ?_
    refine (lexScan_scanned strtod hvalue.whole).bind fun r' hr' => ?_
    split
    · exact .refused
    · next hend =>
      obtain ⟨-, htext⟩ | ⟨hsound, -, -⟩ := hr'
      · exact .ok ⟨htext, hvalue.value⟩
      · rw [not_not.mp hend] at hsound
        exact hsound.elim

end Libpomelo
