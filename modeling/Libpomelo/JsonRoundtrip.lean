import Libpomelo.JsonAccept
import Libpomelo.JsonReal

/-!
# A printed value is loaded again

`json_dumps` prints a value as text, and `json_loadb` makes the value of it again: the two are
compared by `json_equal`, which does not look at the order of members.

A value is `Printable` if its integers have 64 bits, its strings and keys have no zero bytes, its
keys differ, its arrays can be counted by an `int`, and each of its reals is what `strtod` reads
of the text that is printed for it. Whatever the loader makes of a text is printable, up to the
reals.
-/

namespace Libpomelo

open BinaryFloat (Datum double)
open Utf8 (Text)

/-! ## Values -/

/-- What holds of the leaves, and of arrays and objects whose parts it holds of, holds of all
values. -/
theorem Json.ind {Q : Json → Prop}
    (leaf : ∀ v : Json, (∀ xs, v ≠ .arr xs) → (∀ kvs, v ≠ .obj kvs) → Q v)
    (arr : ∀ xs, (∀ x ∈ xs, Q x) → Q (.arr xs))
    (obj : ∀ kvs : List (String × Json), (∀ kv ∈ kvs, Q kv.2) → Q (.obj kvs)) (v : Json) : Q v := by
  induction v using (measure (sizeOf : Json → ℕ)).wf.induction with
  | _ v ih =>
    cases v with
    | arr xs =>
      refine arr xs fun x hx => ih x ?_
      have hlt := List.sizeOf_lt_of_mem hx
      change sizeOf x < sizeOf (Json.arr xs)
      rw [Json.arr.sizeOf_spec]
      omega
    | obj kvs =>
      refine obj kvs fun kv hkv => ih kv.2 ?_
      have hlt := List.sizeOf_lt_of_mem hkv
      obtain ⟨k, w⟩ := kv
      change sizeOf w < sizeOf (Json.obj kvs)
      rw [Json.obj.sizeOf_spec]
      rw [Prod.mk.sizeOf_spec] at hlt
      omega
    | null | bool b | int i | real x | str s => exact leaf _ (by simp) (by simp)

theorem allElems_iff {P : Json → Prop} {xs : List Json} :
    AllElems P xs ↔ ∀ x ∈ xs, x.All P := by
  induction xs with
  | nil => simp [AllElems]
  | cons x xs ih => rw [AllElems, ih, List.forall_mem_cons]

theorem allMembers_iff {P : Json → Prop} {kvs : List (String × Json)} :
    AllMembers P kvs ↔ ∀ kv ∈ kvs, kv.2.All P := by
  induction kvs with
  | nil => simp [AllMembers]
  | cons kv kvs ih => rw [AllMembers, ih, List.forall_mem_cons]

theorem Json.All.imp {P Q : Json → Prop} (himp : ∀ v, P v → Q v) {v : Json} (h : v.All P) :
    v.All Q := by
  induction v using Json.ind with
  | leaf v harr hobj =>
    cases v with
    | arr xs => exact absurd rfl (harr xs)
    | obj kvs => exact absurd rfl (hobj kvs)
    | null | bool b | int i | real x | str s => exact himp _ h
  | arr xs ih =>
    exact ⟨himp _ h.1, allElems_iff.mpr fun x hx => ih x hx (allElems_iff.mp h.2 x hx)⟩
  | obj kvs ih =>
    exact ⟨himp _ h.1, allMembers_iff.mpr fun kv hkv => ih kv hkv (allMembers_iff.mp h.2 kv hkv)⟩

theorem Json.All.and {P Q : Json → Prop} {v : Json} (h : v.All P) (h' : v.All Q) :
    v.All fun w => P w ∧ Q w := by
  induction v using Json.ind with
  | leaf v harr hobj =>
    cases v with
    | arr xs => exact absurd rfl (harr xs)
    | obj kvs => exact absurd rfl (hobj kvs)
    | null | bool b | int i | real x | str s => exact ⟨h, h'⟩
  | arr xs ih =>
    exact ⟨⟨h.1, h'.1⟩, allElems_iff.mpr fun x hx =>
      ih x hx (allElems_iff.mp h.2 x hx) (allElems_iff.mp h'.2 x hx)⟩
  | obj kvs ih =>
    exact ⟨⟨h.1, h'.1⟩, allMembers_iff.mpr fun kv hkv =>
      ih kv hkv (allMembers_iff.mp h.2 kv hkv) (allMembers_iff.mp h'.2 kv hkv)⟩

variable (strtod : Bytes → Strtod) (sprintf17g : FiniteDouble → Bytes)

/-- A real that is printed with the shape `printf` documents and read back as it was. -/
def RealReturns (v : Json) : Prop :=
  ∀ x, v = .real x → PrintedReal (sprintf17g x) ∧
    jsonpStrtod strtod (realText sprintf17g x) = .ok x.1

/-- What the printer and the loader agree about. -/
def Printable (v : Json) : Prop := Loaded (2 ^ 31 - 1) v ∧ RealReturns strtod sprintf17g v

/-! ## The printed text is a text -/

section

variable {strtod : Bytes → Strtod} {sprintf17g : FiniteDouble → Bytes}

theorem text_of_ascii {bytes : Bytes} (h : ∀ b ∈ bytes, b.toNat < 128) : Text bytes := by
  induction bytes with
  | nil => exact .nil
  | cons b bytes ih =>
    rw [List.forall_mem_cons] at h
    exact .ascii h.1 (ih h.2)

theorem text_flatMap_dumpByte {bytes : Bytes} (h : Text bytes) : Text (bytes.flatMap dumpByte) := by
  have hhex : ∀ n < 16, (hexDigit n).toNat < 128 := fun n hn => (hexValue_of_xdigit (hexDigit_eq hn).1).1
  have hascii : ∀ b : UInt8, b.toNat < 128 → ∀ e ∈ dumpByte b, e.toNat < 128 := by
    intro b hb
    rw [dumpByte]
    repeat' split
    all_goals simp only [List.forall_mem_cons]
    all_goals first
      | exact ⟨by decide, by decide, List.forall_mem_nil _⟩
      | exact ⟨by decide, by decide, by decide, by decide, hhex _ (by omega), hhex _ (by omega),
          List.forall_mem_nil _⟩
      | exact ⟨hb, List.forall_mem_nil _⟩
  have hhigh : ∀ b : UInt8, ¬ b.toNat < 128 → dumpByte b = [b] := by
    intro b hb
    have hne : ∀ c : UInt8, c.toNat < 128 → b ≠ c := by
      rintro c hc rfl
      exact hb hc
    have hlow : ¬ b < 0x20 := by
      rw [UInt8.lt_iff_toNat_lt]
      exact fun hlt => hb (hlt.trans (by decide))
    rw [dumpByte, if_neg (hne _ (by decide)), if_neg (hne _ (by decide)), if_neg (hne _ (by decide)),
      if_neg (hne _ (by decide)), if_neg (hne _ (by decide)), if_neg (hne _ (by decide)),
      if_neg (hne _ (by decide)), if_neg hlow]
  obtain ⟨cs, rfl⟩ := h
  induction cs with
  | nil => exact .nil
  | cons c cs ih =>
    rw [List.flatMap_cons, List.flatMap_append]
    refine Text.append ?_ ih
    by_cases hone : ∃ b ∈ String.utf8EncodeChar c, b.toNat < 128
    · obtain ⟨b, hmem, hb⟩ := hone
      rw [Utf8.encodeChar_of_mem hmem hb, List.flatMap_singleton]
      exact text_of_ascii (hascii b hb)
    · simp only [not_exists, not_and, not_lt] at hone
      have hsame : ∀ bytes : Bytes, (∀ b ∈ bytes, 128 ≤ b.toNat) → bytes.flatMap dumpByte = bytes := by
        intro bytes hbytes
        induction bytes with
        | nil => rfl
        | cons b bytes ihb =>
          rw [List.forall_mem_cons] at hbytes
          rw [List.flatMap_cons, hhigh b (by omega), ihb hbytes.2, List.singleton_append]
      rw [hsame _ hone]
      exact .char c

theorem text_utf8Bytes (s : String) : Text (utf8Bytes s) :=
  ⟨s.toList, by rw [utf8Bytes, Utf8.toByteArray_toList]⟩

theorem text_dumpString {s : String} (hzero : 0 ∉ utf8Bytes s) : Text (dumpString s) := by
  rw [dumpString, cString_of_not_mem hzero]
  exact .ascii (by decide) ((text_flatMap_dumpByte (text_utf8Bytes s)).append
    (.ascii (by decide) .nil))

theorem text_dumpInteger (i : ℤ) : Text (dumpInteger i) := by
  rw [dumpInteger]
  split
  · exact .ascii (by decide) (text_utf8Bytes _)
  · exact text_utf8Bytes _

theorem RealText.text {real : Bytes} (h : RealText real) : Text real := by
  have hdigits : ∀ digits : Bytes, (∀ b ∈ digits, lIsDigit b = true) → Text digits := by
    intro digits hall
    refine text_of_ascii fun b hb => ?_
    have hdigit := hall b hb
    simp only [lIsDigit, Bool.and_eq_true, decide_eq_true_eq, UInt8.le_iff_toNat_le,
      UInt8.reduceToNat] at hdigit
    omega
  have hsign : ∀ sign : Bytes, sign = [] ∨ sign = [45] → Text sign := by
    rintro sign (rfl | rfl)
    · exact .nil
    · exact .ascii (by decide) .nil
  obtain ⟨sign, digits, fraction, exponent, rfl, hint, hfraction, hexponent, -⟩ := h
  refine (hsign _ hint.minus).append ((hdigits _ hint.all_digits).append (Text.append ?_ ?_))
  · rcases hfraction with rfl | ⟨ds, -, hall, rfl⟩
    · exact .nil
    · exact .ascii (by decide) (hdigits ds hall)
  · rcases hexponent with rfl | ⟨s, ds, hs, -, hall, rfl⟩
    · exact .nil
    · exact .ascii (by decide) ((hsign s hs).append (hdigits ds hall))

/-- Printing a real that returns gives a real of the grammar. -/
theorem RealReturns.text {x : FiniteDouble} (h : RealReturns strtod sprintf17g (.real x)) :
    RealText (realText sprintf17g x) ∧ jsonpStrtod strtod (realText sprintf17g x) = .ok x.1 := by
  obtain ⟨hprinted, hread⟩ := h x rfl
  obtain ⟨text, htext, hreal⟩ := jsonpDtostr_real hprinted
  refine ⟨?_, hread⟩
  rw [realText, htext]
  exact hreal

/-- The elements of an array are separated by commas. -/
theorem dumpElems_cons (dtostr : FiniteDouble → Bytes) (x : Json) (xs : List Json) :
    dumpElems dtostr (x :: xs) (xs.length + 1) =
      doDump dtostr x ++ if xs = [] then [] else 44 :: dumpElems dtostr xs xs.length := by
  rw [dumpElems, if_neg (Nat.succ_ne_zero _), Nat.add_sub_cancel]
  cases xs with
  | nil => rfl
  | cons y ys => rw [if_neg (by simp), if_neg (by simp)]

theorem dumpMembers_cons (dtostr : FiniteDouble → Bytes) (key : String) (v : Json)
    (kvs : List (String × Json)) :
    dumpMembers dtostr ((key, v) :: kvs) = dumpString key ++ 58 :: doDump dtostr v ++
      if kvs = [] then [] else 44 :: dumpMembers dtostr kvs := by
  rw [dumpMembers]
  cases kvs with
  | nil => rfl
  | cons kv kvs => rfl

theorem text_doDump {v : Json} (h : v.All (Printable strtod sprintf17g)) :
    Text (doDump (realText sprintf17g) v) := by
  induction v using Json.ind with
  | leaf v harr hobj =>
    cases v with
    | arr xs => exact absurd rfl (harr xs)
    | obj kvs => exact absurd rfl (hobj kvs)
    | null => exact text_utf8Bytes _
    | bool b => exact text_utf8Bytes _
    | int i => exact text_dumpInteger i
    | real x => exact (RealReturns.text h.2).1.text
    | str s => exact text_dumpString h.1
  | arr xs ih =>
    obtain ⟨⟨hlen, -⟩, hall⟩ := h
    have hlen' : xs.length ≤ 2 ^ 31 - 1 := hlen
    rw [doDump, dumpCount_of_lt (by omega)]
    refine .ascii (by decide) (Text.append ?_ (.ascii (by decide) .nil))
    clear hlen hlen'
    induction xs with
    | nil => exact .nil
    | cons x xs ihx =>
      rw [List.length_cons, dumpElems_cons]
      refine (ih x List.mem_cons_self hall.1).append ?_
      split
      · exact .nil
      · exact .ascii (by decide) (ihx (fun y hy => ih y (List.mem_cons_of_mem _ hy)) hall.2)
  | obj kvs ih =>
    obtain ⟨⟨⟨-, hzero⟩, -⟩, hall⟩ := h
    rw [doDump]
    refine .ascii (by decide) (Text.append ?_ (.ascii (by decide) .nil))
    induction kvs with
    | nil => exact .nil
    | cons kv kvs ihkv =>
      obtain ⟨key, v⟩ := kv
      rw [dumpMembers_cons]
      refine ((text_dumpString (hzero _ List.mem_cons_self)).append
        (.ascii (by decide) (ih _ List.mem_cons_self hall.1))).append ?_
      split
      · exact .nil
      · exact .ascii (by decide) (ihkv (fun w hw => ih w (List.mem_cons_of_mem _ hw)) hall.2
          fun w hw => hzero w (List.mem_cons_of_mem _ hw))

/-! ## Loading what was printed -/

/-- A text is left with what stands behind a value of it. -/
structure Consumed (strtod : Bytes → Strtod) (lex : Lex) (text : Bytes)
    (parse : Token → Lex → Except JsonStop (Json × Lex)) (v : Json) : Prop where
  returns : ∃ token lex' lex'', lexScan strtod lex = .ok (token, lex') ∧ token ≠ .eof ∧
    token ≠ .punct 93 ∧ parse token lex' = .ok (v, lex'') ∧ Before lex''.stream text

/-- A value that is loaded from the text that is printed for it. -/
def Loads (strtod : Bytes → Strtod) (sprintf17g : FiniteDouble → Bytes) (v : Json) :
    Prop :=
  ∀ fuel lex text, Before lex.stream (doDump (realText sprintf17g) v ++ text) → TokenEnds text →
    3 * (doDump (realText sprintf17g) v ++ text).length + 1 ≤ fuel →
    Consumed strtod lex text (parseValue strtod fuel) v

/-- A value of one token is loaded. -/
theorem consumed_leaf {fuel : ℕ} {lex : Lex} {text : Bytes} {token : Token} {v : Json}
    (hread : Rereads strtod lex token text) (heof : token ≠ .eof) (hclose : token ≠ .punct 93)
    (hfuel : 1 ≤ fuel) (hparse : ∀ n lex', parseValue strtod (n + 1) token lex' = .ok (v, lex')) :
    Consumed strtod lex text (parseValue strtod fuel) v := by
  obtain ⟨lex', hscan, hbefore⟩ := hread
  obtain ⟨n, rfl⟩ := Nat.exists_eq_add_of_le' hfuel
  exact ⟨token, lex', lex', hscan, heof, hclose, hparse n lex', hbefore⟩

theorem jsonText_utf8Bytes (s : String) : jsonText (utf8Bytes s) = .ok s := by
  rw [jsonText, fromUTF8_utf8Bytes]

theorem tokenEnds_cons {b : UInt8} {text : Bytes} (hb : lIsPunct b = true) :
    TokenEnds (b :: text) := by
  intro c hc
  rwa [← Option.some.inj hc]

/-- **The elements** of an array, in front of its bracket. -/
theorem loads_elems {xs : List Json} (hne : xs ≠ [])
    (hxs : ∀ x ∈ xs, Loads strtod sprintf17g x) (fuel : ℕ) (lex : Lex) (text : Bytes)
    (done : List Json)
    (h : Before lex.stream (dumpElems (realText sprintf17g) xs xs.length ++ 93 :: text))
    (hfuel : 3 * (dumpElems (realText sprintf17g) xs xs.length ++ 93 :: text).length + 2 ≤ fuel) :
    Consumed strtod lex text (parseElements strtod fuel (.arr done)) (.arr (done ++ xs)) := by
  induction xs generalizing fuel lex done with
  | nil => exact absurd rfl hne
  | cons x xs ih =>
    rw [List.forall_mem_cons] at hxs
    rw [List.length_cons, dumpElems_cons, List.append_assoc] at h hfuel
    obtain ⟨n, rfl⟩ := Nat.exists_eq_add_of_le' (show 1 ≤ fuel by omega)
    by_cases hlast : xs = []
    · subst hlast
      rw [if_pos rfl, List.nil_append] at h hfuel
      obtain ⟨token, lex', lex'', hscan, heof, hclose, hparse, hbefore⟩ :=
        (hxs.1 n lex (93 :: text) h (tokenEnds_cons (by decide)) (by omega)).returns
      obtain ⟨lex₃, hscan', hbefore'⟩ := reread_punct strtod hbefore (by decide)
      refine ⟨token, lex', lex₃, hscan, heof, hclose, ?_, hbefore'⟩
      rw [parseElements, if_neg heof, hparse, ok_bind]
      dsimp only
      rw [hscan', ok_bind, if_neg (by simp), if_pos rfl]
      rfl
    · rw [if_neg hlast, List.cons_append] at h hfuel
      have hlen : (doDump (realText sprintf17g) x ++
          44 :: (dumpElems (realText sprintf17g) xs xs.length ++ 93 :: text)).length =
          (doDump (realText sprintf17g) x).length +
          (dumpElems (realText sprintf17g) xs xs.length ++ 93 :: text).length + 1 := by
        rw [List.length_append, List.length_cons]
        omega
      obtain ⟨token, lex', lex'', hscan, heof, hclose, hparse, hbefore⟩ :=
        (hxs.1 n lex _ h (tokenEnds_cons (by decide)) (by omega)).returns
      obtain ⟨lex₃, hscan', hbefore'⟩ := reread_punct strtod hbefore (by decide)
      obtain ⟨token', lex₄, lex₅, hscan₂, -, -, hparse', hbefore₂⟩ :=
        (ih hlast hxs.2 n lex₃ (done ++ [x]) hbefore' (by omega)).returns
      refine ⟨token, lex', lex₅, hscan, heof, hclose, ?_, hbefore₂⟩
      rw [parseElements, if_neg heof, hparse, ok_bind]
      dsimp only
      rw [hscan', ok_bind, if_pos rfl, hscan₂, ok_bind, jsonArrayAppend, hparse', List.append_assoc]
      rfl

/-- A member that is read is added to the object, if its key is new. -/
theorem jsonObjectSet_new {done : List (String × Json)} {key : String} {v : Json}
    (h : key ∉ done.map Prod.fst) :
    jsonObjectSet (.obj done) key (some v) = .obj (done ++ [(key, v)]) := by
  rw [jsonObjectSet, setMember_of_not_mem h]

/-- **The members** of an object, in front of its brace. -/
theorem loads_members {kvs : List (String × Json)} (hne : kvs ≠ [])
    (hkvs : ∀ kv ∈ kvs, 0 ∉ utf8Bytes kv.1 ∧ Loads strtod sprintf17g kv.2) (fuel : ℕ) (lex : Lex)
    (text : Bytes) (done : List (String × Json)) (hnd : ((done ++ kvs).map Prod.fst).Nodup)
    (h : Before lex.stream (dumpMembers (realText sprintf17g) kvs ++ 125 :: text))
    (hfuel : 3 * (dumpMembers (realText sprintf17g) kvs ++ 125 :: text).length + 2 ≤ fuel) :
    ∃ token lex' lex'', lexScan strtod lex = .ok (token, lex') ∧ token ≠ .punct 125 ∧
      parseMembers strtod fuel (.obj done) token lex' = .ok (.obj (done ++ kvs), lex'') ∧
      Before lex''.stream text := by
  induction kvs generalizing fuel lex done with
  | nil => exact absurd rfl hne
  | cons kv kvs ih =>
    obtain ⟨key, v⟩ := kv
    rw [List.forall_mem_cons] at hkvs
    obtain ⟨⟨hzero, hv⟩, hkvs⟩ := hkvs
    have hnew : key ∉ done.map Prod.fst := by
      rw [List.map_append, List.nodup_append] at hnd
      intro hmem
      exact hnd.2.2 key hmem key (by simp) rfl
    rw [dumpMembers_cons] at h hfuel
    simp only [List.append_assoc, List.cons_append] at h hfuel
    simp only [List.length_append, List.length_cons] at hfuel
    obtain ⟨n, rfl⟩ := Nat.exists_eq_add_of_le' (show 1 ≤ fuel by omega)
    obtain ⟨lex₁, hkey, hbefore₁⟩ : Rereads strtod lex (.string (utf8Bytes key)) _ :=
      reread_string hzero h
    obtain ⟨lex₂, hcolon, hbefore₂⟩ := reread_punct strtod hbefore₁ (by decide)
    by_cases hlast : kvs = []
    · subst hlast
      rw [if_pos rfl, List.nil_append] at hbefore₂
      rw [if_pos rfl] at hfuel
      obtain ⟨token, lex', lex'', hscan, -, -, hparse, hbefore⟩ :=
        (hv n lex₂ _ hbefore₂ (tokenEnds_cons (by decide))
          (by simp only [List.length_append, List.length_cons]; omega)).returns
      obtain ⟨lex₃, hscan', hbefore'⟩ := reread_punct strtod hbefore (by decide)
      refine ⟨_, lex₁, lex₃, hkey, by simp, ?_, hbefore'⟩
      rw [parseMembers, jsonText_utf8Bytes, ok_bind, hcolon, ok_bind, if_neg (by simp), hscan,
        ok_bind, hparse, ok_bind, hscan', ok_bind, if_neg (by simp), if_pos rfl,
        jsonObjectSet_new hnew]
      rfl
    · rw [if_neg hlast, List.cons_append] at hbefore₂
      rw [if_neg hlast, List.length_cons] at hfuel
      obtain ⟨token, lex', lex'', hscan, -, -, hparse, hbefore⟩ :=
        (hv n lex₂ _ hbefore₂ (tokenEnds_cons (by decide))
          (by simp only [List.length_append, List.length_cons]; omega)).returns
      obtain ⟨lex₃, hscan', hbefore'⟩ := reread_punct strtod hbefore (by decide)
      obtain ⟨token', lex₄, lex₅, hscan₂, -, hparse', hbefore₃⟩ :=
        ih hlast hkvs n lex₃ (done ++ [(key, v)]) (by rwa [List.append_assoc]) hbefore'
          (by simp only [List.length_append, List.length_cons]; omega)
      refine ⟨_, lex₁, lex₅, hkey, by simp, ?_, hbefore₃⟩
      rw [parseMembers, jsonText_utf8Bytes, ok_bind, hcolon, ok_bind, if_neg (by simp), hscan,
        ok_bind, hparse, ok_bind, hscan', ok_bind, if_pos rfl, hscan₂, ok_bind,
        jsonObjectSet_new hnew, hparse', List.append_assoc]
      rfl

/-- **Every printable value** is loaded from the text that is printed for it. -/
theorem loads_printable {v : Json} (h : v.All (Printable strtod sprintf17g)) :
    Loads strtod sprintf17g v := by
  induction v using Json.ind with
  | leaf v harr hobj =>
    intro fuel lex text hbefore hends hfuel
    have htrue : utf8Bytes "true" = [116, 114, 117, 101] := by decide
    have hfalse : utf8Bytes "false" = [102, 97, 108, 115, 101] := by decide
    have hnull : utf8Bytes "null" = [110, 117, 108, 108] := by decide
    cases v with
    | arr xs => exact absurd rfl (harr xs)
    | obj kvs => exact absurd rfl (hobj kvs)
    | null =>
      rw [doDump, hnull] at hbefore
      have hread : Rereads strtod lex .null text :=
        reread_word hbefore (List.all_eq_true.mp rfl) hends fun lex hsaved => by
          rw [htrue, hfalse, hnull, hsaved, if_neg (by decide), if_neg (by decide), if_pos rfl]
      exact consumed_leaf hread (by simp) (by simp) (by omega) fun n lex' => rfl
    | bool b =>
      cases b with
      | true =>
        rw [doDump, if_pos rfl, htrue] at hbefore
        have hread : Rereads strtod lex (.bool true) text :=
          reread_word hbefore (List.all_eq_true.mp rfl) hends fun lex hsaved => by rw [htrue, hsaved, if_pos rfl]
        exact consumed_leaf hread (by simp) (by simp) (by omega) fun n lex' => rfl
      | false =>
        rw [doDump, if_neg (by simp), hfalse] at hbefore
        have hread : Rereads strtod lex (.bool false) text :=
          reread_word hbefore (List.all_eq_true.mp rfl) hends fun lex hsaved => by
            rw [htrue, hfalse, hsaved, if_neg (by decide), if_pos rfl]
        exact consumed_leaf hread (by simp) (by simp) (by omega) fun n lex' => rfl
    | int i =>
      exact consumed_leaf (reread_integer h.1 hbefore hends) (by simp) (by simp) (by omega)
        fun n lex' => rfl
    | real x =>
      obtain ⟨hreal, hread⟩ := RealReturns.text h.2
      refine consumed_leaf (reread_real hreal hread hbefore hends) (by simp) (by simp) (by omega)
        fun n lex' => ?_
      rw [parseValue, jsonReal, dif_pos x.2]
    | str s =>
      refine consumed_leaf (reread_string h.1 hbefore) (by simp) (by simp) (by omega)
        fun n lex' => ?_
      rw [parseValue, jsonText_utf8Bytes]
      rfl
  | arr xs ih =>
    intro fuel lex text hbefore hends hfuel
    obtain ⟨⟨hlen, -⟩, hall⟩ := h
    have hlen' : xs.length ≤ 2 ^ 31 - 1 := hlen
    rw [doDump, dumpCount_of_lt (by omega)] at hbefore hfuel
    simp only [List.cons_append, List.append_assoc, List.nil_append] at hbefore
    simp only [List.length_append, List.length_cons, List.length_nil] at hfuel
    obtain ⟨lex₁, hopen, hbefore₁⟩ := reread_punct strtod hbefore (by decide)
    obtain ⟨n, rfl⟩ := Nat.exists_eq_add_of_le' (show 2 ≤ fuel by omega)
    by_cases hnil : xs = []
    · subst hnil
      obtain ⟨lex₂, hclose, hbefore₂⟩ := reread_punct strtod hbefore₁ (by decide)
      refine ⟨_, lex₁, lex₂, hopen, by simp, by simp, ?_, hbefore₂⟩
      rw [parseValue, if_neg (by decide), if_pos rfl, parseArray, hclose, ok_bind, if_pos rfl]
      rfl
    · obtain ⟨token, lex₂, lex₃, hscan, -, hne, hparse, hbefore₂⟩ :=
        (loads_elems hnil (fun x hx => ih x hx (allElems_iff.mp hall x hx)) n lex₁ text [] hbefore₁
          (by simp only [List.length_append, List.length_cons]; omega)).returns
      refine ⟨_, lex₁, lex₃, hopen, by simp, by simp, ?_, hbefore₂⟩
      rw [parseValue, if_neg (by decide), if_pos rfl, parseArray, hscan, ok_bind, if_neg hne, hparse,
        List.nil_append]
  | obj kvs ih =>
    intro fuel lex text hbefore hends hfuel
    obtain ⟨⟨⟨hnd, hzero⟩, -⟩, hall⟩ := h
    rw [doDump] at hbefore hfuel
    simp only [List.cons_append, List.append_assoc, List.nil_append] at hbefore
    simp only [List.length_append, List.length_cons, List.length_nil] at hfuel
    obtain ⟨lex₁, hopen, hbefore₁⟩ := reread_punct strtod hbefore (by decide)
    obtain ⟨n, rfl⟩ := Nat.exists_eq_add_of_le' (show 2 ≤ fuel by omega)
    by_cases hnil : kvs = []
    · subst hnil
      obtain ⟨lex₂, hclose, hbefore₂⟩ := reread_punct strtod hbefore₁ (by decide)
      refine ⟨_, lex₁, lex₂, hopen, by simp, by simp, ?_, hbefore₂⟩
      rw [parseValue, if_pos rfl, parseObject, hclose, ok_bind, if_pos rfl]
      rfl
    · obtain ⟨token, lex₂, lex₃, hscan, hne, hparse, hbefore₂⟩ :=
        loads_members hnil (fun kv hkv => ⟨hzero kv hkv, ih kv hkv (allMembers_iff.mp hall kv hkv)⟩)
          n lex₁ text [] (by simpa using hnd) hbefore₁
          (by simp only [List.length_append, List.length_cons]; omega)
      refine ⟨_, lex₁, lex₃, hopen, by simp, by simp, ?_, hbefore₂⟩
      rw [parseValue, if_pos rfl, parseObject, hscan, ok_bind, if_neg hne, hparse, List.nil_append]

variable (strtod) in
/-- Behind the text, the end of it is read. -/
theorem reread_eof {lex : Lex} (h : Before lex.stream []) :
    ∃ lex', lexScan strtod lex = .ok (.eof, lex') := by
  have heof : (lexGet { lex with savedText := [] }).1 = .eof := h.get.1
  have hblanks : lexBlanks (lexGet { lex with savedText := [] }).1
      (lexGet { lex with savedText := [] }).2 =
      (.eof, (lexGet { lex with savedText := [] }).2) := by
    rw [lexBlanks, heof, dif_neg (by simp [StreamChar.is])]
  exact ⟨_, by rw [lexScan, hblanks]⟩

/-- The text that `json_dumps` prints for a printable value is loaded as the value. -/
theorem loadb_of_dumps {v : Json} {text : Bytes} (h : v.All (Printable strtod sprintf17g))
    (hdumps : jsonDumps (realText sprintf17g) v = some text) : jsonLoadb strtod text = .ok v := by
  obtain ⟨rfl, b, more, hmore, hb⟩ : text = doDump (realText sprintf17g) v ∧
      ∃ b more, doDump (realText sprintf17g) v = b :: more ∧ (b = 91 ∨ b = 123) := by
    cases v with
    | arr xs => exact ⟨(Option.some.inj hdumps).symm, 91, _, rfl, .inl rfl⟩
    | obj kvs => exact ⟨(Option.some.inj hdumps).symm, 123, _, rfl, .inr rfl⟩
    | null | bool b | int i | real x | str s => exact absurd hdumps (by simp [jsonDumps])
  have hinit : Before (streamInit (doDump (realText sprintf17g) v))
      (doDump (realText sprintf17g) v ++ []) := by
    rw [List.append_nil]
    exact .init (text_doDump h)
  obtain ⟨token, lex', lex'', hscan, -, -, hparse, hend⟩ :=
    (loads_printable h (3 * (doDump (realText sprintf17g) v).length + 3)
      ⟨streamInit (doDump (realText sprintf17g) v), []⟩ [] hinit
      (by intro b hb; exact absurd hb (by simp)) (by rw [List.append_nil]; omega)).returns
  -- the first token is the bracket or the brace
  have htoken : token = .punct b := by
    rw [List.append_nil, hmore] at hinit
    have hpunct : lIsPunct b = true := by
      rcases hb with rfl | rfl <;> decide
    obtain ⟨lex₁, hscan₁, -⟩ := @reread_punct strtod
      ⟨streamInit (doDump (realText sprintf17g) v), []⟩ more b (by rwa [hmore]) hpunct
    exact congrArg Prod.fst (Except.ok.inj (hscan.symm.trans hscan₁))
  have hopen : ¬ (token ≠ .punct 91 ∧ token ≠ .punct 123) := by
    rw [htoken]
    rcases hb with rfl | rfl <;> simp
  obtain ⟨lex₂, hscan₂⟩ := reread_eof strtod hend
  rw [jsonLoadb, parseJson, hscan, ok_bind, if_neg hopen, hparse, ok_bind, hscan₂, ok_bind,
    if_neg (by simp)]
  rfl

/-! ## Comparing -/

/-- The number a double stands for, in multiples of the smallest subnormal. -/
def realValue (x : FiniteDouble) : ℤ := if x.1.neg then -x.1.mag else x.1.mag

mutual

/-- `json_equal`. -/
def jsonEqual : Json → Json → Bool
  | .null, .null => true
  | .bool b, .bool c => b == c
  | .int i, .int j => i == j
  | .real x, .real y => realValue x == realValue y
  | .str s, .str t => cString (utf8Bytes s) == cString (utf8Bytes t)
  | .arr xs, .arr ys => xs.length == ys.length && jsonArrayEqual xs ys
  | .obj kvs, .obj kvs' => kvs.length == kvs'.length && jsonObjectEqual kvs kvs'
  | _, _ => false
termination_by structural v => v

/-- The loop of `json_array_equal`. -/
def jsonArrayEqual : List Json → List Json → Bool
  | x :: xs, y :: ys => jsonEqual x y && jsonArrayEqual xs ys
  | _, _ => true
termination_by structural xs => xs

/-- The loop of `json_object_equal`: every member of the first object is looked up in the second. -/
def jsonObjectEqual : List (String × Json) → List (String × Json) → Bool
  | [], _ => true
  | (key, v) :: kvs, kvs' =>
    (match kvs'.lookup key with
      | some w => jsonEqual v w
      | none => false) && jsonObjectEqual kvs kvs'
termination_by structural kvs => kvs

end

/-- A value whose keys differ is equal to itself. -/
theorem jsonEqual_self {n : ℕ} {v : Json} (h : v.All (Loaded n)) : jsonEqual v v = true := by
  induction v using Json.ind with
  | leaf v harr hobj =>
    cases v with
    | arr xs => exact absurd rfl (harr xs)
    | obj kvs => exact absurd rfl (hobj kvs)
    | null => rfl
    | bool b => exact beq_self_eq_true b
    | int i => exact beq_self_eq_true i
    | real x => exact beq_self_eq_true (realValue x)
    | str s => exact beq_self_eq_true (cString (utf8Bytes s))
  | arr xs ih =>
    have hall := allElems_iff.mp h.2
    rw [jsonEqual, beq_self_eq_true, Bool.true_and]
    clear h
    induction xs with
    | nil => rfl
    | cons x xs ihx =>
      rw [List.forall_mem_cons] at ih hall
      rw [jsonArrayEqual, ih.1 hall.1, ihx ih.2 hall.2, Bool.true_and]
  | obj kvs ih =>
    obtain ⟨⟨hnd, -⟩, hall⟩ := h
    replace hall := allMembers_iff.mp hall
    rw [jsonEqual, beq_self_eq_true, Bool.true_and]
    have hloop : ∀ part : List (String × Json), (∀ kv ∈ part, kv ∈ kvs) →
        jsonObjectEqual part kvs = true := by
      intro part hpart
      induction part with
      | nil => rfl
      | cons kv part ihp =>
        obtain ⟨key, v⟩ := kv
        rw [List.forall_mem_cons] at hpart
        have hlookup := lookup_eq_some_of_mem hnd hpart.1
        rw [jsonObjectEqual, hlookup, ihp hpart.2, Bool.and_true]
        exact ih _ hpart.1 (hall _ hpart.1)
    exact hloop kvs fun kv hkv => hkv

/-! ## Results -/

/-- **Loading is safe**: whatever the buffer holds, the loader comes to an end without running into
an assertion, where `strtod` reads the numbers it is given to their end; and if it does not
refuse the buffer, the buffer is UTF-8 throughout, and so are the strings of the value, which
have no zero bytes; keys differ, integers have 64 bits. -/
theorem jsonLoadb_safe (strtod : Bytes → Strtod) (data : Bytes) :
    (ReadsNumbers strtod → ∀ stop, jsonLoadb strtod data = .error stop → stop = .refused) ∧
      ∀ v, jsonLoadb strtod data = .ok v → Text data ∧ v.All (Loaded data.length) := by
  obtain ⟨stop, hload, hstop⟩ | ⟨v, hload, hv⟩ := jsonLoadb_refusing strtod data
  · rw [hload]
    refine ⟨fun hreads stop' hstop' => ?_, fun v hv => absurd hv (by simp)⟩
    rw [← Except.error.inj hstop']
    exact hstop.resolve_right fun hassert => hassert.2 hreads
  · rw [hload]
    refine ⟨fun _ stop hstop => absurd hstop (by simp), fun w hw => ?_⟩
    rw [← Except.ok.inj hw]
    exact hv

/-- **The round trip of a value**: an array or an object that is printable is printed as UTF-8, and
what is loaded from the text is equal to it. -/
theorem jsonLoadb_jsonDumps {v : Json} (hv : v.All (Printable strtod sprintf17g))
    (hkind : (∃ xs, v = .arr xs) ∨ ∃ kvs, v = .obj kvs) :
    ∃ text w, jsonDumps (realText sprintf17g) v = some text ∧ Text text ∧
      jsonLoadb strtod text = .ok w ∧ jsonEqual w v = true := by
  have hdumps : jsonDumps (realText sprintf17g) v = some (doDump (realText sprintf17g) v) := by
    rcases hkind with ⟨xs, rfl⟩ | ⟨kvs, rfl⟩ <;> rfl
  exact ⟨_, v, hdumps, text_doDump hv, loadb_of_dumps hv hdumps,
    jsonEqual_self (hv.imp fun w hw => hw.1)⟩

theorem parseElements_kind {fuel : ℕ} {xs : List Json} {token : Token} {lex : Lex}
    {r : Json × Lex} (h : parseElements strtod fuel (.arr xs) token lex = .ok r) :
    ∃ ys, r.1 = .arr ys := by
  induction fuel generalizing xs token lex with
  | zero => exact absurd h (by simp [parseElements])
  | succ n ih =>
    rw [parseElements] at h
    split at h
    · exact absurd h (by simp)
    obtain ⟨elem, -, h⟩ := bind_eq_ok.mp h
    obtain ⟨s, -, h⟩ := bind_eq_ok.mp h
    split at h
    · obtain ⟨s', -, h⟩ := bind_eq_ok.mp h
      exact ih h
    split at h
    · cases h
      exact ⟨_, rfl⟩
    · exact absurd h (by simp)

theorem parseMembers_kind {fuel : ℕ} {kvs : List (String × Json)} {token : Token} {lex : Lex}
    {r : Json × Lex} (h : parseMembers strtod fuel (.obj kvs) token lex = .ok r) :
    ∃ kvs', r.1 = .obj kvs' := by
  induction fuel generalizing kvs token lex with
  | zero => exact absurd h (by simp [parseMembers])
  | succ n ih =>
    cases token with
    | eof | punct b | integer i | real x | bool b | null => exact absurd h (by simp [parseMembers])
    | string bytes =>
      rw [parseMembers] at h
      obtain ⟨key, -, h⟩ := bind_eq_ok.mp h
      obtain ⟨colon, -, h⟩ := bind_eq_ok.mp h
      split at h
      · exact absurd h (by simp)
      obtain ⟨s, -, h⟩ := bind_eq_ok.mp h
      obtain ⟨value, -, h⟩ := bind_eq_ok.mp h
      obtain ⟨s', -, h⟩ := bind_eq_ok.mp h
      split at h
      · obtain ⟨s'', -, h⟩ := bind_eq_ok.mp h
        exact ih h
      split at h
      · cases h
        exact ⟨_, rfl⟩
      · exact absurd h (by simp)

/-- What the loader makes of a text is an array or an object. -/
theorem jsonLoadb_kind {data : Bytes} {v : Json} (h : jsonLoadb strtod data = .ok v) :
    (∃ xs, v = .arr xs) ∨ ∃ kvs, v = .obj kvs := by
  obtain ⟨r, -, h⟩ := bind_eq_ok.mp h
  split at h
  · exact absurd h (by simp)
  next hopen =>
  obtain ⟨value, hvalue, h⟩ := bind_eq_ok.mp h
  obtain ⟨s, -, h⟩ := bind_eq_ok.mp h
  split at h
  · exact absurd h (by simp)
  cases h
  obtain ⟨token, lex⟩ := r
  have htoken : token = .punct 91 ∨ token = .punct 123 := by
    by_contra hne
    exact hopen (not_or.mp hne)
  rcases htoken with rfl | rfl
  · rw [parseValue, if_neg (by decide), if_pos rfl, parseArray] at hvalue
    obtain ⟨s, -, hvalue⟩ := bind_eq_ok.mp hvalue
    split at hvalue
    · cases hvalue
      exact .inl ⟨_, rfl⟩
    · exact .inl (parseElements_kind hvalue)
  · rw [parseValue, if_pos rfl, parseObject] at hvalue
    obtain ⟨s, -, hvalue⟩ := bind_eq_ok.mp hvalue
    split at hvalue
    · cases hvalue
      exact .inr ⟨_, rfl⟩
    · exact .inr (parseMembers_kind hvalue)

/-- **Printing what was loaded**: a value that the loader accepts is printed, and the text is loaded
as an equal value. -/
theorem jsonLoadb_printed {data : Bytes} {v : Json} (hload : jsonLoadb strtod data = .ok v)
    (hlen : data.length < 2 ^ 31) (hreal : v.All (RealReturns strtod sprintf17g)) :
    ∃ text w, jsonDumps (realText sprintf17g) v = some text ∧ jsonLoadb strtod text = .ok w ∧
      jsonEqual w v = true := by
  obtain ⟨stop, hstop, -⟩ | ⟨v', hv', -, hall⟩ := jsonLoadb_refusing strtod data
  · exact absurd (hload.symm.trans hstop) (by simp)
  obtain rfl : v = v' := Except.ok.inj (hload.symm.trans hv')
  have hprintable : v.All (Printable strtod sprintf17g) := by
    refine (hall.imp fun w hw => ?_).and hreal
    cases w with
    | arr xs => exact hw.trans (by omega)
    | null | bool b | int i | real x | str s | obj kvs => exact hw
  have hdumps : jsonDumps (realText sprintf17g) v = some (doDump (realText sprintf17g) v) := by
    rcases jsonLoadb_kind hload with ⟨xs, rfl⟩ | ⟨kvs, rfl⟩ <;> rfl
  exact ⟨_, v, hdumps, loadb_of_dumps hprintable hdumps, jsonEqual_self hall⟩

end

/-! ## An example -/

/-- 1.5 -/
def oneAndAHalf : FiniteDouble := ⟨⟨false, 1023, 2 ^ 51, by decide, by decide⟩, by decide⟩

/-- `strtod`, as far as it is right on the texts of 1.5 and 0. -/
def strtodExample (text : Bytes) : Strtod where
  value := if text = [49, 46, 53] then oneAndAHalf.1 else ⟨false, 0, 0, by decide, by decide⟩
  used := text.length
  erange := false

/-- `printf`, for 1.5. -/
def sprintfExample (_ : FiniteDouble) : Bytes := [49, 46, 53]

/-- `{"a":[-1,1.5,"x\n"],"b":null}` -/
def printableExample : Json :=
  .obj [("a", .arr [.int (-1), .real oneAndAHalf, .str "x\n"]), ("b", .null)]

theorem printableExample_printable : printableExample.All (Printable strtodExample sprintfExample) := by
  have hreturns : ∀ v : Json, (∀ x, v ≠ .real x) → RealReturns strtodExample sprintfExample v :=
    fun v hv x hx => absurd hx (hv x)
  have hdigit : ∀ d : UInt8, 48 ≤ d → d ≤ 57 → ∀ b ∈ [d], lIsDigit b = true := by
    intro d hlow hhigh b hb
    obtain rfl := List.mem_singleton.mp hb
    simp [lIsDigit, hlow, hhigh]
  have hprinted : PrintedReal [49, 46, 53] :=
    ⟨⟨[], [49], [46, 53], [], rfl, ⟨.inl rfl, by simp, hdigit 49 (by decide) (by decide), by decide⟩,
      .inr ⟨[53], by simp, hdigit 53 (by decide) (by decide), rfl⟩, .inl rfl⟩, by decide⟩
  have hreal : RealReturns strtodExample sprintfExample (.real oneAndAHalf) := by
    intro x hx
    obtain rfl := Json.real.inj hx
    exact ⟨hprinted, rfl⟩
  have helems : Loaded (2 ^ 31 - 1) (.arr [.int (-1), .real oneAndAHalf, .str "x\n"]) :=
    show 3 ≤ 2 ^ 31 - 1 by omega
  have hstr : Loaded (2 ^ 31 - 1) (.str "x\n") := show 0 ∉ utf8Bytes "x\n" by decide
  exact ⟨⟨⟨by decide, by decide⟩, hreturns _ (by simp)⟩, ⟨⟨helems, hreturns _ (by simp)⟩,
    ⟨⟨by decide, by decide⟩, hreturns _ (by simp)⟩, ⟨trivial, hreal⟩,
    ⟨hstr, hreturns _ (by simp)⟩, trivial⟩, ⟨trivial, hreturns _ (by simp)⟩, trivial⟩

/-- Loading what is printed for the example. -/
theorem jsonLoadb_safe_example :
    (∀ stop, jsonLoadb strtodExample (doDump (realText sprintfExample) printableExample) =
      .error stop → stop = .refused) ∧
      ∀ v, jsonLoadb strtodExample (doDump (realText sprintfExample) printableExample) = .ok v →
        Text (doDump (realText sprintfExample) printableExample) ∧
          v.All (Loaded (doDump (realText sprintfExample) printableExample).length) := by
  obtain ⟨hstop, hload⟩ := jsonLoadb_safe strtodExample
    (doDump (realText sprintfExample) printableExample)
  exact ⟨hstop fun text _ => rfl, hload⟩

theorem jsonLoadb_jsonDumps_example :
    ∃ text w, jsonDumps (realText sprintfExample) printableExample = some text ∧ Text text ∧
      jsonLoadb strtodExample text = .ok w ∧ jsonEqual w printableExample = true :=
  jsonLoadb_jsonDumps printableExample_printable (.inr ⟨_, rfl⟩)

theorem jsonLoadb_printed_example :
    ∃ text w, jsonDumps (realText sprintfExample) printableExample = some text ∧
      jsonLoadb strtodExample text = .ok w ∧ jsonEqual w printableExample = true := by
  have hdumps : jsonDumps (realText sprintfExample) printableExample =
      some (doDump (realText sprintfExample) printableExample) := rfl
  exact jsonLoadb_printed (loadb_of_dumps printableExample_printable hdumps) (by decide)
    (printableExample_printable.imp fun v hv => hv.2)

end Libpomelo
