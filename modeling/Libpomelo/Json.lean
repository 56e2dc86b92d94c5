import Libpomelo.BinaryFloat
import Libpomelo.Utf8
import Mathlib.Data.List.TakeWhile
import Mathlib.Data.Int.Notation

/-!
# JSON values as the code sees them

The library passes everything structured around as jansson values: protobuf
schemas, messages, handshake responses and the route dictionary. `Json` is that
value type, and the functions below are the accessors the code calls.

* An object is the list of its members in the order the iterator visits them.
  jansson fixes no order, so nothing here sorts.
* A C pointer to a value may be `NULL`; the accessors take an `Option Json` and,
  like jansson's, answer with the neutral value on `NULL` or on another kind.
* A real is finite by construction: `json_real` returns `NULL` for the others.
-/

namespace Libpomelo

open BinaryFloat (Datum double)

/-- A double a JSON value can hold. -/
abbrev FiniteDouble : Type := { x : Datum double // x.Finite }

/-- A jansson value. -/
inductive Json : Type where
  /-- `JSON_NULL` -/
  | null
  /-- `JSON_TRUE` and `JSON_FALSE` -/
  | bool (b : Bool)
  /-- `JSON_INTEGER` -/
  | int (i : ℤ)
  /-- `JSON_REAL` -/
  | real (x : FiniteDouble)
  /-- `JSON_STRING` -/
  | str (s : String)
  /-- `JSON_ARRAY` -/
  | arr (xs : List Json)
  /-- `JSON_OBJECT`, members in iteration order -/
  | obj (kvs : List (String × Json))

/-! ## Text -/

/-- The bytes behind `json_string_value`, without the terminating zero. -/
def utf8Bytes (s : String) : List UInt8 := s.toByteArray.data.toList

/-- `json_string` on a zero-terminated buffer: the text ends at the first zero
byte, and `none` is the `NULL` for text that is not UTF-8. -/
def jsonString (text : List UInt8) : Option Json :=
  (String.fromUTF8? ⟨(text.takeWhile (· ≠ 0)).toArray⟩).map .str

/-- The text of a string that `json_string` makes. -/
theorem jsonString_text {text : List UInt8} {j : Json} (h : jsonString text = some j) :
    ∃ s, j = .str s ∧ utf8Bytes s = text.takeWhile (· ≠ 0) := by
  obtain ⟨s, hs, rfl⟩ := Option.map_eq_some_iff.mp h
  exact ⟨s, rfl, Utf8.toByteArray_of_fromUTF8? hs⟩

theorem fromUTF8_utf8Bytes (s : String) :
    String.fromUTF8? ⟨(utf8Bytes s).toArray⟩ = some s := by
  have hbytes : (⟨(utf8Bytes s).toArray⟩ : ByteArray) = s.toByteArray := by
    simp [utf8Bytes]
  rw [hbytes, String.fromUTF8?, dif_pos s.isValidUTF8]
  rfl

theorem jsonString_utf8Bytes {s : String} (h : 0 ∉ utf8Bytes s) :
    jsonString (utf8Bytes s) = some (.str s) := by
  have hall : (utf8Bytes s).takeWhile (· ≠ 0) = utf8Bytes s := by
    apply List.takeWhile_eq_self_iff.2
    intro b hb
    simp only [decide_eq_true_eq]
    rintro rfl
    exact h hb
  rw [jsonString, hall, fromUTF8_utf8Bytes]
  rfl

/-- `sprintf("%u", n)`. -/
def decimal (n : ℕ) : String := Nat.repr n

theorem decimal_injective : Function.Injective decimal := by
  intro m n h
  have hd : Nat.toDigits 10 m = Nat.toDigits 10 n := by
    rw [← Nat.toList_repr, ← Nat.toList_repr]
    exact congrArg String.toList h
  rw [← Nat.ofDigitChars_ten_toDigits (n := m), hd, Nat.ofDigitChars_ten_toDigits]

/-! ## Accessors -/

/-- `json_object_get`. -/
def jsonObjectGet (j : Option Json) (key : String) : Option Json :=
  match j with
  | some (.obj kvs) => kvs.lookup key
  | _ => none

/-- The members the object iterator visits. -/
def jsonObjectIter : Json → List (String × Json)
  | .obj kvs => kvs
  | _ => []

/-- Overwrite the member `key`, or add it as the last one. -/
def setMember (key : String) (v : Json) : List (String × Json) → List (String × Json)
  | [] => [(key, v)]
  | (k, w) :: kvs => if k = key then (k, v) :: kvs else (k, w) :: setMember key v kvs

/-- `json_object_set` and `json_object_set_new`: without effect when the target
is not an object or the value is `NULL`. -/
def jsonObjectSet (j : Json) (key : String) (v : Option Json) : Json :=
  match j, v with
  | .obj kvs, some v => .obj (setMember key v kvs)
  | j, _ => j

/-- `json_array_append` and `json_array_append_new`. -/
def jsonArrayAppend (j : Json) (v : Option Json) : Json :=
  match j, v with
  | .arr xs, some v => .arr (xs ++ [v])
  | j, _ => j

/-- `json_string_value`. -/
def jsonStringValue : Option Json → Option String
  | some (.str s) => some s
  | _ => none

/-- `json_integer_value`. -/
def jsonIntegerValue : Option Json → ℤ
  | some (.int i) => i
  | _ => 0

/-- `json_number_value`. -/
def jsonNumberValue : Option Json → Datum double
  | some (.int i) => BinaryFloat.ofInt i
  | some (.real x) => x.1
  | _ => BinaryFloat.ofInt 0

/-- `json_real`. -/
def jsonReal (x : Datum double) : Option Json :=
  if h : x.Finite then some (.real ⟨x, h⟩) else none

/-- `json_is_object`. -/
def jsonIsObject : Json → Bool
  | .obj _ => true
  | _ => false

@[simp] theorem jsonObjectGet_obj (kvs : List (String × Json)) (key : String) :
    jsonObjectGet (some (.obj kvs)) key = kvs.lookup key := rfl

@[simp] theorem jsonStringValue_str (s : String) : jsonStringValue (some (.str s)) = some s := rfl

@[simp] theorem lookup_setMember_self (key : String) (v : Json) (kvs : List (String × Json)) :
    (setMember key v kvs).lookup key = some v := by
  induction kvs with
  | nil => simp [setMember]
  | cons kv kvs ih =>
    obtain ⟨k, w⟩ := kv
    by_cases hk : k = key
    · simp [setMember, hk]
    · have hk' : (key == k) = false := by simpa using Ne.symm hk
      simp only [setMember, hk, if_false, List.lookup_cons, hk', ih]

theorem lookup_setMember_of_ne {key key' : String} (hne : key' ≠ key) (v : Json)
    (kvs : List (String × Json)) :
    (setMember key v kvs).lookup key' = kvs.lookup key' := by
  induction kvs with
  | nil => simp [setMember, List.lookup_cons, beq_eq_false_iff_ne.2 hne]
  | cons kv kvs ih =>
    obtain ⟨k, w⟩ := kv
    by_cases hk : k = key
    · subst hk
      simp [setMember, List.lookup_cons, beq_eq_false_iff_ne.2 hne]
    · simp only [setMember, hk, if_false, List.lookup_cons, ih]

/-- A member that is not there yet is added at the end. -/
theorem setMember_of_not_mem {key : String} {v : Json} {kvs : List (String × Json)}
    (h : key ∉ kvs.map Prod.fst) : setMember key v kvs = kvs ++ [(key, v)] := by
  induction kvs with
  | nil => rfl
  | cons kv kvs ih =>
    obtain ⟨k, w⟩ := kv
    simp only [List.map_cons, List.mem_cons, not_or] at h
    rw [setMember, if_neg (Ne.symm h.1), ih h.2, List.cons_append]

/-- A member that is the last one is overwritten in place. -/
theorem setMember_append_self {key : String} {v w : Json} {kvs : List (String × Json)}
    (h : key ∉ kvs.map Prod.fst) : setMember key v (kvs ++ [(key, w)]) = kvs ++ [(key, v)] := by
  induction kvs with
  | nil => simp [setMember]
  | cons kv kvs ih =>
    obtain ⟨k, u⟩ := kv
    simp only [List.map_cons, List.mem_cons, not_or] at h
    rw [List.cons_append, setMember, if_neg (Ne.symm h.1), ih h.2, List.cons_append]

theorem lookup_append_self {key : String} {v : Json} {kvs : List (String × Json)}
    (h : key ∉ kvs.map Prod.fst) : (kvs ++ [(key, v)]).lookup key = some v := by
  rw [← setMember_of_not_mem h, lookup_setMember_self]

theorem lookup_of_not_mem {key : String} {kvs : List (String × Json)}
    (h : key ∉ kvs.map Prod.fst) : kvs.lookup key = none := by
  rw [List.lookup_eq_none_iff]
  intro kv hkv
  rw [bne_iff_ne]
  rintro rfl
  exact h (List.mem_map_of_mem hkv)

/-- With distinct keys, being a member is being found. -/
theorem lookup_eq_some_of_mem {key : String} {v : Json} {kvs : List (String × Json)}
    (hnd : (kvs.map Prod.fst).Nodup) (h : (key, v) ∈ kvs) : kvs.lookup key = some v := by
  induction kvs with
  | nil => simp at h
  | cons kv kvs ih =>
    obtain ⟨k, w⟩ := kv
    rw [List.map_cons, List.nodup_cons] at hnd
    rcases List.mem_cons.1 h with heq | hmem
    · obtain ⟨rfl, rfl⟩ := Prod.mk.inj heq
      simp
    · have hne : key ≠ k := by
        rintro rfl
        exact hnd.1 (List.mem_map.2 ⟨_, hmem, rfl⟩)
      rw [List.lookup_cons, beq_eq_false_iff_ne.2 hne]
      exact ih hnd.2 hmem

end Libpomelo
