import Libpomelo.PbSchema

/-!
# The wire format as a grammar

What a buffer may be, in terms of its bytes alone. A message is a sequence of *occurrences* of
its fields; an occurrence is a tag and a payload, and the payload of a message field is a
length and a *body*. What may stand behind the last occurrence of a body, and which bodies
nested messages may have, are parameters: `IsBody V E` is the language in which every nested
message ends in `E`. `Ends V T` is what may go wrong: somewhere below, the first body that is
not whole ends in `T`.

The number `V` that a varint stands for is a parameter too. For the format it is
`Leb128.value`. The decoder keeps 32 bits of it, `varintValue`, so what it takes a buffer for is
the grammar with that number; the two differ on varints of `2 ^ 32` or more only.

The format is unambiguous. A varint ends at its first byte below 128, a tag decides which
field follows, and the field how long its payload is; so two sequences of occurrences at the
start of one buffer agree as far as both go (`IsOccurrences.behind`).
-/

namespace Libpomelo

/-! ## Varints -/

/-- Every byte is followed by another one. -/
def Continued (bs : Bytes) : Prop := ∀ b ∈ bs, 128 ≤ b.toNat

/-- A complete varint: at most ten bytes, of which the last is below 128. -/
def IsVarint (bs : Bytes) : Prop :=
  ∃ front last, bs = front ++ [last] ∧ bs.length ≤ 10 ∧ Continued front ∧ last.toNat < 128

/-- What the bytes of a varint add up to, from `bitpos` on. -/
def varintSum (bitpos dest : ℕ) : Bytes → ℕ
  | [] => dest
  | b :: bs =>
    varintSum (bitpos + 7) (dest ||| (b.toNat &&& 0x7f) <<< bitpos % 2 ^ 64) bs

/-- What `pb_decode_varint32` makes of a varint: its value as a 32-bit number. -/
def varintValue (bs : Bytes) : ℕ := varintSum 0 0 bs % 2 ^ 32

/-- A varint of the value zero: it ends a message. -/
def IsZero (V : Bytes → ℕ) (bs : Bytes) : Prop := IsVarint bs ∧ V bs = 0

/-- A tag that is cut: at most ten bytes, none of which is the last. -/
def IsCut (bs : Bytes) : Prop := bs ≠ [] ∧ bs.length ≤ 10 ∧ Continued bs

/-- The tag of the field with the number `n`, a number of 32 bits. -/
def IsTag (V : Bytes → ℕ) (bs : Bytes) (n : ℕ) : Prop :=
  IsVarint bs ∧ V bs ≠ 0 ∧ V bs < 2 ^ 32 ∧ n = V bs >>> 3

/-- `content` behind its length. -/
def IsPrefixed (V : Bytes → ℕ) (bs content : Bytes) : Prop :=
  ∃ len, IsVarint len ∧ V len = content.length ∧ bs = len ++ content

/-! ## Values and fields -/

/-- The bytes of a primitive value. -/
def IsScalar (V : Bytes → ℕ) : PbType → Bytes → Prop
  | .uInt32, bs | .int32, bs | .sInt32, bs => IsVarint bs
  | .float, bs => bs.length = 4
  | .double, bs => bs.length = 8
  | .string, bs => ∃ text, IsPrefixed V bs text

/-- `bs` holds a message of the level `sub`, with this body. -/
def HoldsMessage (V : Bytes → ℕ) (gprotos protos proto : Json) (bs : Bytes) (sub : Json)
    (body : Bytes) : Prop :=
  ∃ type, fieldType proto = some type ∧ pbGetType type = none ∧
    resolveType gprotos protos type = some sub ∧ IsPrefixed V bs body

/-- The bytes of a value of a field, with `B` the bodies of nested messages. -/
inductive IsValue (V : Bytes → ℕ) (B : Json → Bytes → Prop) (gprotos protos proto : Json) :
    Bytes → Prop
  /-- a primitive value -/
  | scalar {type : String} {t : PbType} {bs : Bytes} : fieldType proto = some type →
      pbGetType type = some t → IsScalar V t bs → IsValue V B gprotos protos proto bs
  /-- a message -/
  | message {sub : Json} {bs body : Bytes} : HoldsMessage V gprotos protos proto bs sub body →
      B sub body → IsValue V B gprotos protos proto bs
  /-- a level without `__messages`; a conforming schema has none -/
  | blank {type : String} : fieldType proto = some type → pbGetType type = none →
      jsonObjectGet (some protos) "__messages" = none → IsValue V B gprotos protos proto []

/-- The bytes of `n` values. -/
inductive IsValues (V : Bytes → ℕ) (B : Json → Bytes → Prop) (gprotos protos proto : Json) :
    ℕ → Bytes → Prop
  /-- no value -/
  | nil : IsValues V B gprotos protos proto 0 []
  /-- one more value -/
  | cons {n : ℕ} {bs bss : Bytes} : IsValue V B gprotos protos proto bs →
      IsValues V B gprotos protos proto n bss →
      IsValues V B gprotos protos proto (n + 1) (bs ++ bss)

/-- The option names a single field. -/
def IsSingle (option : String) : Prop := option = "optional" ∨ option = "required"

/-- What stands behind the tag of a field. -/
inductive IsPayload (V : Bytes → ℕ) (B : Json → Bytes → Prop) (gprotos protos proto : Json) :
    Bytes → Prop
  /-- the value of a single field -/
  | single {option : String} {bs : Bytes} : fieldOption proto = some option → IsSingle option →
      IsValue V B gprotos protos proto bs → IsPayload V B gprotos protos proto bs
  /-- a count and as many values -/
  | packed {count bs : Bytes} : fieldOption proto = some "repeated" → fieldPacked proto = true →
      IsVarint count → IsValues V B gprotos protos proto (V count) bs →
      IsPayload V B gprotos protos proto (count ++ bs)
  /-- one value of a repeated field that is not packed -/
  | element {bs : Bytes} : fieldOption proto = some "repeated" → fieldPacked proto = false →
      IsValue V B gprotos protos proto bs → IsPayload V B gprotos protos proto bs
  /-- the option is none of the three; a conforming schema has no such field -/
  | other {option : String} : fieldOption proto = some option → ¬ IsSingle option →
      option ≠ "repeated" → IsPayload V B gprotos protos proto []

/-- The field that a tag number stands for, by `__tags`: its name and its definition. -/
def fieldOfTag (protos : Json) (n : ℕ) : Option (String × Json) :=
  (jsonObjectGet (some protos) "__tags").bind fun tags =>
    (jsonStringValue (jsonObjectGet (some tags) (decimal n))).bind fun name =>
      (jsonObjectGet (some protos) name).map fun proto => (name, proto)

/-- An occurrence of a field: a known tag and a complete payload. -/
inductive IsOccurrence (V : Bytes → ℕ) (B : Json → Bytes → Prop) (gprotos protos : Json) :
    Bytes → Prop
  /-- tag and payload -/
  | mk {tag payload : Bytes} {n : ℕ} {name : String} {proto : Json} : IsTag V tag n →
      fieldOfTag protos n = some (name, proto) → IsPayload V B gprotos protos proto payload →
      IsOccurrence V B gprotos protos (tag ++ payload)

/-- A sequence of occurrences. -/
inductive IsOccurrences (V : Bytes → ℕ) (B : Json → Bytes → Prop) (gprotos protos : Json) :
    Bytes → Prop
  /-- none -/
  | nil : IsOccurrences V B gprotos protos []
  /-- one more -/
  | cons {f fs : Bytes} : IsOccurrence V B gprotos protos f →
      IsOccurrences V B gprotos protos fs → IsOccurrences V B gprotos protos (f ++ fs)

/-- **The body of a message**: occurrences, and behind them what `E` allows, in it and in all
messages nested in it. -/
inductive IsBody (V : Bytes → ℕ) (E : Bytes → Prop) (gprotos : Json) : Json → Bytes → Prop
  /-- with `B` the bodies of its nested messages -/
  | mk {protos : Json} {fs rest : Bytes} (B : Json → Bytes → Prop) :
      (∀ sub body, B sub body → IsBody V E gprotos sub body) →
      IsOccurrences V B gprotos protos fs → E rest → IsBody V E gprotos protos (fs ++ rest)

/-- `f` is an occurrence of a message field, with this body. -/
inductive Nests (V : Bytes → ℕ) (gprotos protos : Json) (f : Bytes) (sub : Json) (body : Bytes) :
    Prop
  /-- tag, length and body -/
  | mk {tag payload : Bytes} {n : ℕ} {name option : String} {proto : Json} :
      f = tag ++ payload → IsTag V tag n → fieldOfTag protos n = some (name, proto) →
      fieldOption proto = some option → IsSingle option ∨ option = "repeated" →
      HoldsMessage V gprotos protos proto payload sub body → Nests V gprotos protos f sub body

variable {V : Bytes → ℕ}

/-! ## More nested messages -/

section Mono

variable {B B' : Json → Bytes → Prop} {gprotos protos proto : Json} {bs f fs : Bytes}

theorem IsValue.mono (hB : ∀ sub body, B sub body → B' sub body)
    (h : IsValue V B gprotos protos proto bs) : IsValue V B' gprotos protos proto bs := by
  cases h with
  | scalar htype ht hbs => exact .scalar htype ht hbs
  | message hholds hbody => exact .message hholds (hB _ _ hbody)
  | blank htype hnone hmsgs => exact .blank htype hnone hmsgs

theorem IsValues.mono (hB : ∀ sub body, B sub body → B' sub body) {n : ℕ}
    (h : IsValues V B gprotos protos proto n bs) : IsValues V B' gprotos protos proto n bs := by
  induction h with
  | nil => exact .nil
  | cons hv _ ih => exact .cons (hv.mono hB) ih

theorem IsPayload.mono (hB : ∀ sub body, B sub body → B' sub body)
    (h : IsPayload V B gprotos protos proto bs) : IsPayload V B' gprotos protos proto bs := by
  cases h with
  | single hopt hsingle hv => exact .single hopt hsingle (hv.mono hB)
  | packed hopt hpacked hcount hvs => exact .packed hopt hpacked hcount (hvs.mono hB)
  | element hopt hpacked hv => exact .element hopt hpacked (hv.mono hB)
  | other hopt hsingle hrep => exact .other hopt hsingle hrep

theorem IsOccurrence.mono (hB : ∀ sub body, B sub body → B' sub body)
    (h : IsOccurrence V B gprotos protos f) : IsOccurrence V B' gprotos protos f := by
  cases h with
  | mk htag hfield hpay => exact .mk htag hfield (hpay.mono hB)

theorem IsOccurrences.mono (hB : ∀ sub body, B sub body → B' sub body)
    (h : IsOccurrences V B gprotos protos fs) : IsOccurrences V B' gprotos protos fs := by
  induction h with
  | nil => exact .nil
  | cons hf _ ih => exact .cons (hf.mono hB) ih

/-- A body, unfolded once. -/
theorem isBody_iff {E : Bytes → Prop} : IsBody V E gprotos protos bs ↔ ∃ fs rest,
    bs = fs ++ rest ∧ IsOccurrences V (IsBody V E gprotos) gprotos protos fs ∧ E rest := by
  constructor
  · rintro ⟨B, hB, hfs, hrest⟩
    exact ⟨_, _, rfl, hfs.mono hB, hrest⟩
  · rintro ⟨fs, rest, rfl, hfs, hrest⟩
    exact .mk _ (fun _ _ hbody => hbody) hfs hrest

end Mono

/-! ## No ambiguity -/

/-- What `P` and `Q` find at the start of one buffer is the same. -/
def Aligned (P Q : Bytes → Prop) : Prop :=
  ∀ v w r t, P v → Q w → v ++ r = w ++ t → v = w ∧ r = t

theorem Aligned.of_length {P Q : Bytes → Prop} (n : ℕ) (hP : ∀ v, P v → v.length = n)
    (hQ : ∀ w, Q w → w.length = n) : Aligned P Q :=
  fun v w _ _ hv hw heq => List.append_inj heq ((hP v hv).trans (hQ w hw).symm)

/-- A complete varint is not cut. -/
theorem IsVarint.not_continued {v x : Bytes} (h : IsVarint v) : ¬ Continued (v ++ x) := by
  obtain ⟨front, last, rfl, -, -, hlast⟩ := h
  intro hcont
  have hge := hcont last (by simp)
  omega

/-- A varint is cut everywhere but at its end. -/
theorem IsVarint.continued {v x : Bytes} (h : IsVarint (v ++ x)) (hx : x ≠ []) :
    Continued v := by
  obtain ⟨front, last, heq, -, hfront, -⟩ := h
  obtain rfl | ⟨x', b, rfl⟩ := x.eq_nil_or_concat
  · exact absurd rfl hx
  · rw [List.concat_eq_append, ← List.append_assoc] at heq
    obtain ⟨rfl, -⟩ := List.append_inj' heq rfl
    exact fun b hb => hfront b (List.mem_append_left x' hb)

/-- One varint is not longer than another one at the same place. -/
theorem IsVarint.eq_of_append {v x : Bytes} (hv : IsVarint v) (hw : IsVarint (v ++ x)) :
    x = [] := by
  by_contra hx
  have hcont := hw.continued hx
  rw [← v.append_nil] at hcont
  exact hv.not_continued hcont

theorem isVarint_aligned : Aligned IsVarint IsVarint := by
  intro v w r t hv hw heq
  obtain ⟨x, rfl, rfl⟩ | ⟨x, rfl, rfl⟩ := List.append_eq_append_iff.mp heq
  · obtain rfl := hv.eq_of_append hw
    simp
  · obtain rfl := hw.eq_of_append hv
    simp

/-- A length and what is behind it. -/
theorem IsPrefixed.inj {bs bs' c c' r t : Bytes} (h : IsPrefixed V bs c) (h' : IsPrefixed V bs' c')
    (heq : bs ++ r = bs' ++ t) : c = c' ∧ bs = bs' ∧ r = t := by
  obtain ⟨len, hlen, hc, rfl⟩ := h
  obtain ⟨len', hlen', hc', rfl⟩ := h'
  rw [List.append_assoc, List.append_assoc] at heq
  obtain ⟨rfl, heq'⟩ := isVarint_aligned _ _ _ _ hlen hlen' heq
  obtain ⟨rfl, rfl⟩ := List.append_inj heq' (hc.symm.trans hc')
  exact ⟨rfl, rfl, rfl⟩

theorem isScalar_aligned (t : PbType) : Aligned (IsScalar V t) (IsScalar V t) := by
  cases t with
  | uInt32 => exact isVarint_aligned
  | int32 => exact isVarint_aligned
  | sInt32 => exact isVarint_aligned
  | float => exact .of_length 4 (fun _ h => h) fun _ h => h
  | double => exact .of_length 8 (fun _ h => h) fun _ h => h
  | string =>
    rintro v w r t ⟨text, hv⟩ ⟨text', hw⟩ heq
    exact (hv.inj hw heq).2

section Aligned

variable {B B' : Json → Bytes → Prop} {gprotos protos proto sub : Json} {bs f body : Bytes}

/-- A message has one level and one body. -/
theorem HoldsMessage.inj {sub' : Json} {bs' body' r t : Bytes}
    (h : HoldsMessage V gprotos protos proto bs sub body)
    (h' : HoldsMessage V gprotos protos proto bs' sub' body') (heq : bs ++ r = bs' ++ t) :
    (sub = sub' ∧ body = body') ∧ bs = bs' ∧ r = t := by
  obtain ⟨type, htype, -, hres, hpre⟩ := h
  obtain ⟨type', htype', -, hres', hpre'⟩ := h'
  obtain rfl := Option.some.inj (htype.symm.trans htype')
  obtain rfl := Option.some.inj (hres.symm.trans hres')
  obtain ⟨rfl, hrest⟩ := hpre.inj hpre' heq
  exact ⟨⟨rfl, rfl⟩, hrest⟩

/-- A message field holds no primitive value. -/
theorem HoldsMessage.not_scalar {type : String} {t : PbType}
    (h : HoldsMessage V gprotos protos proto bs sub body) (htype : fieldType proto = some type) :
    pbGetType type ≠ some t := by
  obtain ⟨type', htype', hnone, -⟩ := h
  obtain rfl := Option.some.inj (htype.symm.trans htype')
  simp [hnone]

/-- A level with messages is not blank. -/
theorem HoldsMessage.not_blank (h : HoldsMessage V gprotos protos proto bs sub body) :
    jsonObjectGet (some protos) "__messages" ≠ none := by
  obtain ⟨type, -, -, hres, -⟩ := h
  intro hmsgs
  rw [resolveType, hmsgs] at hres
  cases hres

/-- The value of a field that holds a message. -/
theorem IsValue.of_holds {bs' r t : Bytes} (h : IsValue V B gprotos protos proto bs)
    (h' : HoldsMessage V gprotos protos proto bs' sub body) (heq : bs ++ r = bs' ++ t) :
    B sub body ∧ bs = bs' ∧ r = t := by
  cases h with
  | scalar htype ht _ => exact absurd ht (h'.not_scalar htype)
  | message hholds hbody =>
    obtain ⟨⟨rfl, rfl⟩, hrest⟩ := hholds.inj h' heq
    exact ⟨hbody, hrest⟩
  | blank _ _ hmsgs => exact absurd hmsgs h'.not_blank

theorem isValue_aligned :
    Aligned (IsValue V B gprotos protos proto) (IsValue V B' gprotos protos proto) := by
  intro v w r t hv hw heq
  cases hw with
  | @scalar type' t' _ htype' ht' hbs' =>
    cases hv with
    | scalar htype ht hbs =>
      obtain rfl := Option.some.inj (htype.symm.trans htype')
      obtain rfl := Option.some.inj (ht.symm.trans ht')
      exact isScalar_aligned _ _ _ _ _ hbs hbs' heq
    | message hholds _ => exact absurd ht' (hholds.not_scalar htype')
    | blank htype hnone _ =>
      obtain rfl := Option.some.inj (htype.symm.trans htype')
      rw [hnone] at ht'
      cases ht'
  | message hholds _ => exact (hv.of_holds hholds heq).2
  | blank htype' hnone' hmsgs' =>
    cases hv with
    | scalar htype ht _ =>
      obtain rfl := Option.some.inj (htype.symm.trans htype')
      rw [hnone'] at ht
      cases ht
    | message hholds _ => exact absurd hmsgs' hholds.not_blank
    | blank => exact ⟨rfl, heq⟩

theorem isValues_aligned (n : ℕ) :
    Aligned (IsValues V B gprotos protos proto n) (IsValues V B' gprotos protos proto n) := by
  induction n with
  | zero =>
    rintro _ _ r t ⟨⟩ ⟨⟩ heq
    exact ⟨rfl, heq⟩
  | succ n ih =>
    intro v w r t hv hw heq
    obtain - | ⟨hv, hvs⟩ := hv
    obtain - | ⟨hw, hws⟩ := hw
    rw [List.append_assoc, List.append_assoc] at heq
    obtain ⟨rfl, heq'⟩ := isValue_aligned _ _ _ _ hv hw heq
    obtain ⟨rfl, rfl⟩ := ih _ _ _ _ hvs hws heq'
    exact ⟨rfl, rfl⟩

/-- A single field is not repeated. -/
theorem IsSingle.not_repeated {option : String} (h : IsSingle option) : option ≠ "repeated" := by
  obtain rfl | rfl := h <;> decide

/-- The payload of a field that is not packed is its value, if it has one. -/
theorem IsPayload.value {option : String} (h : IsPayload V B gprotos protos proto bs)
    (hopt : fieldOption proto = some option) (hknown : IsSingle option ∨ option = "repeated")
    (hpacked : IsSingle option ∨ fieldPacked proto = false) :
    IsValue V B gprotos protos proto bs := by
  cases h with
  | single _ _ hv => exact hv
  | packed hopt' hpacked' _ _ =>
    obtain rfl := Option.some.inj (hopt.symm.trans hopt')
    obtain hsingle | hfalse := hpacked
    · exact absurd rfl hsingle.not_repeated
    · rw [hpacked'] at hfalse
      cases hfalse
  | element _ _ hv => exact hv
  | other hopt' hsingle hrep =>
    obtain rfl := Option.some.inj (hopt.symm.trans hopt')
    exact absurd hknown (not_or.mpr ⟨hsingle, hrep⟩)

theorem isPayload_aligned :
    Aligned (IsPayload V B gprotos protos proto) (IsPayload V B' gprotos protos proto) := by
  intro v w r t hv hw heq
  cases hw with
  | single hopt hsingle hw =>
    exact isValue_aligned _ _ _ _ (hv.value hopt (.inl hsingle) (.inl hsingle)) hw heq
  | @packed count' bs' hopt' hpacked' hcount' hws =>
    -- the definition fixes which of the four forms both payloads have
    cases hv with
    | single hopt hsingle _ =>
      obtain rfl := Option.some.inj (hopt.symm.trans hopt')
      exact absurd rfl hsingle.not_repeated
    | packed _ _ hcount hvs =>
      rw [List.append_assoc, List.append_assoc] at heq
      obtain ⟨rfl, heq'⟩ := isVarint_aligned _ _ _ _ hcount hcount' heq
      obtain ⟨rfl, rfl⟩ := isValues_aligned _ _ _ _ _ hvs hws heq'
      exact ⟨rfl, rfl⟩
    | element _ hpacked _ =>
      rw [hpacked'] at hpacked
      cases hpacked
    | other hopt _ hrep =>
      exact absurd (Option.some.inj (hopt.symm.trans hopt')) hrep
  | element hopt hpacked hw =>
    exact isValue_aligned _ _ _ _ (hv.value hopt (.inr rfl) (.inr hpacked)) hw heq
  | other hopt' hsingle' hrep' =>
    cases hv with
    | single hopt hsingle _ =>
      obtain rfl := Option.some.inj (hopt.symm.trans hopt')
      exact absurd hsingle hsingle'
    | packed hopt _ _ _ => exact absurd (Option.some.inj (hopt'.symm.trans hopt)) hrep'
    | element hopt _ _ => exact absurd (Option.some.inj (hopt'.symm.trans hopt)) hrep'
    | other => exact ⟨rfl, heq⟩

/-- A tag decides which field follows. -/
theorem IsTag.inj {tag tag' r t : Bytes} {n m : ℕ} (h : IsTag V tag n) (h' : IsTag V tag' m)
    (heq : tag ++ r = tag' ++ t) : n = m ∧ tag = tag' ∧ r = t := by
  obtain ⟨htag, -, -, rfl⟩ := h
  obtain ⟨htag', -, -, rfl⟩ := h'
  obtain ⟨rfl, rfl⟩ := isVarint_aligned _ _ _ _ htag htag' heq
  exact ⟨rfl, rfl, rfl⟩

theorem isOccurrence_aligned :
    Aligned (IsOccurrence V B gprotos protos) (IsOccurrence V B' gprotos protos) := by
  intro v w r t hv hw heq
  obtain ⟨htag, hfield, hpay⟩ := hv
  obtain ⟨htag', hfield', hpay'⟩ := hw
  rw [List.append_assoc, List.append_assoc] at heq
  obtain ⟨rfl, rfl, heq'⟩ := htag.inj htag' heq
  obtain ⟨-, rfl⟩ := Prod.mk.inj (Option.some.inj (hfield.symm.trans hfield'))
  obtain ⟨rfl, rfl⟩ := isPayload_aligned _ _ _ _ hpay hpay' heq'
  exact ⟨rfl, rfl⟩

/-- A message field is not packed. -/
theorem HoldsMessage.not_packed (h : HoldsMessage V gprotos protos proto bs sub body) :
    fieldPacked proto = false := by
  obtain ⟨type, htype, hnone, -⟩ := h
  simp [fieldPacked, htype, pbIsPacked, hnone]

/-- The body of a nested message is a body. -/
theorem IsOccurrence.of_nests {f' r t : Bytes} (h : IsOccurrence V B gprotos protos f)
    (h' : Nests V gprotos protos f' sub body) (heq : f ++ r = f' ++ t) :
    B sub body ∧ f = f' ∧ r = t := by
  obtain ⟨htag, hfield, hpay⟩ := h
  obtain ⟨rfl, htag', hfield', hopt, hknown, hholds⟩ := h'
  rw [List.append_assoc, List.append_assoc] at heq
  obtain ⟨rfl, rfl, heq'⟩ := htag.inj htag' heq
  obtain ⟨-, rfl⟩ := Prod.mk.inj (Option.some.inj (hfield.symm.trans hfield'))
  obtain ⟨hbody, rfl, rfl⟩ :=
    (hpay.value hopt hknown (.inr hholds.not_packed)).of_holds hholds heq'
  exact ⟨hbody, rfl, rfl⟩

/-! ## The end of the occurrences -/

/-- No occurrence can follow: the rest does not start with the tag of a field. -/
def Final (V : Bytes → ℕ) (rest : Bytes) : Prop :=
  ∀ tag n more, IsTag V tag n → rest ≠ tag ++ more

theorem final_nil : Final V [] := by
  rintro _ n more ⟨⟨front, last, rfl, -⟩, -⟩
  simp

theorem IsZero.final {z : Bytes} (h : IsZero V z) (junk : Bytes) : Final V (z ++ junk) := by
  obtain ⟨hvarint, hzero⟩ := h
  rintro tag n more ⟨htag, hne, -⟩ heq
  obtain ⟨rfl, -⟩ := isVarint_aligned _ _ _ _ hvarint htag heq
  exact hne hzero

theorem IsCut.final {rest : Bytes} (h : IsCut rest) : Final V rest := by
  rintro tag n more ⟨htag, -⟩ rfl
  exact htag.not_continued h.2.2

theorem IsOccurrence.not_final (h : IsOccurrence V B gprotos protos f) (more : Bytes) :
    ¬ Final V (f ++ more) := by
  obtain ⟨htag, -, -⟩ := h
  intro hfinal
  exact hfinal _ _ _ htag (List.append_assoc _ _ _)

theorem IsOccurrence.ne_nil (h : IsOccurrence V B gprotos protos f) : f ≠ [] := by
  rintro rfl
  exact h.not_final [] final_nil

variable {fs fs' t t' : Bytes}

/-- What follows shorter occurrences is the rest of the longer ones. -/
theorem IsOccurrences.behind (h : IsOccurrences V B gprotos protos fs)
    (h' : IsOccurrences V B' gprotos protos fs') (heq : fs ++ t = fs' ++ t')
    (hlen : fs.length ≤ fs'.length) :
    ∃ gs, IsOccurrences V B' gprotos protos gs ∧ fs' = fs ++ gs ∧ t = gs ++ t' := by
  induction h generalizing fs' with
  | nil => exact ⟨fs', h', rfl, heq⟩
  | @cons f fs hf _ ih =>
    cases h' with
    | nil => exact absurd (List.append_eq_nil_iff.mp (List.length_eq_zero_iff.mp
        (Nat.le_zero.mp hlen))).1 hf.ne_nil
    | @cons f' fs' hf' hfs' =>
      rw [List.append_assoc, List.append_assoc] at heq
      obtain ⟨rfl, heq'⟩ := isOccurrence_aligned _ _ _ _ hf hf' heq
      obtain ⟨gs, hgs, rfl, rfl⟩ := ih hfs' heq' (by simpa using hlen)
      exact ⟨gs, hgs, by rw [List.append_assoc], rfl⟩

/-- Where nothing can follow `fs'`, other occurrences are not longer. -/
theorem IsOccurrences.behind_final (h : IsOccurrences V B gprotos protos fs)
    (h' : IsOccurrences V B' gprotos protos fs') (heq : fs ++ t = fs' ++ t') (hfinal : Final V t') :
    ∃ gs, IsOccurrences V B' gprotos protos gs ∧ fs' = fs ++ gs ∧ t = gs ++ t' := by
  obtain hlen | hlen := Nat.le_total fs.length fs'.length
  · exact h.behind h' heq hlen
  · obtain ⟨gs, hgs, rfl, rfl⟩ := h'.behind h heq.symm hlen
    cases hgs with
    | nil => exact ⟨[], .nil, by simp, rfl⟩
    | cons hg _ =>
      rw [List.append_assoc] at hfinal
      exact absurd hfinal (hg.not_final _)

/-- A nested message behind some occurrences, in a sequence that goes on there. -/
theorem IsOccurrences.of_nests {rest : Bytes} (h : IsOccurrences V B gprotos protos fs)
    (hf : Nests V gprotos protos f sub body) (h' : IsOccurrences V B' gprotos protos fs')
    (heq : fs ++ (f ++ rest) = fs' ++ t') (hlen : fs.length < fs'.length) : B' sub body := by
  obtain ⟨gs, hgs, rfl, heq'⟩ := h.behind h' heq hlen.le
  cases hgs with
  | nil => simp at hlen
  | cons hg _ =>
    rw [List.append_assoc] at heq'
    exact (hg.of_nests hf heq'.symm).1

end Aligned

/-! ## Bodies that are not whole -/

/-- The end of a body that is read in step: nothing, a zero tag as its last bytes, or a tag
that is cut. -/
def WholeEnd (V : Bytes → ℕ) (rest : Bytes) : Prop := rest = [] ∨ IsZero V rest ∨ IsCut rest

/-- The bodies that are read to their last byte, like all messages nested in them. -/
abbrev IsWhole (V : Bytes → ℕ) (gprotos : Json) : Json → Bytes → Prop :=
  IsBody V (WholeEnd V) gprotos

/-- **The first body that is not whole ends in `T`**: this one, or one nested in it. -/
inductive Ends (V : Bytes → ℕ) (T : Json → Bytes → Prop) (gprotos : Json) :
    Json → Bytes → Prop
  /-- at this level -/
  | here {protos : Json} {fs rest : Bytes} :
      IsOccurrences V (IsWhole V gprotos) gprotos protos fs → T protos rest →
      Ends V T gprotos protos (fs ++ rest)
  /-- in a message nested in it -/
  | nested {protos sub : Json} {fs f rest body : Bytes} :
      IsOccurrences V (IsWhole V gprotos) gprotos protos fs → Nests V gprotos protos f sub body →
      Ends V T gprotos sub body → Ends V T gprotos protos (fs ++ (f ++ rest))

/-- Whole occurrences come first. -/
theorem Ends.cons {T : Json → Bytes → Prop} {gprotos protos : Json} {g bs : Bytes}
    (hg : IsOccurrence V (IsWhole V gprotos) gprotos protos g) (h : Ends V T gprotos protos bs) :
    Ends V T gprotos protos (g ++ bs) := by
  cases h with
  | here hfs hrest =>
    rw [← List.append_assoc]
    exact .here (.cons hg hfs) hrest
  | nested hfs hf hends =>
    rw [← List.append_assoc]
    exact .nested (.cons hg hfs) hf hends

/-- A zero tag before the end. -/
def EarlyEnd (V : Bytes → ℕ) (rest : Bytes) : Prop :=
  ∃ z b junk, IsZero V z ∧ rest = z ++ b :: junk

/-- The body, or the first in it that is not whole, is ended by a zero tag while bytes of it
are left. -/
abbrev EndsEarly (V : Bytes → ℕ) (gprotos : Json) : Json → Bytes → Prop :=
  Ends V (fun _ => EarlyEnd V) gprotos

/-- Where no occurrence can follow, a body is its end. -/
theorem Final.not_isBody {E : Bytes → Prop} {gprotos protos : Json} {rest : Bytes}
    (h : Final V rest) (hE : ¬ E rest) : ¬ IsBody V E gprotos protos rest := by
  rw [isBody_iff]
  rintro ⟨fs, rest', rfl, hfs, hrest'⟩
  cases hfs with
  | nil => exact hE hrest'
  | cons hf _ =>
    rw [List.append_assoc] at h
    exact hf.not_final _ h

/-- What no body begins with, no body ends in. -/
theorem IsBody.not_ends {E : Bytes → Prop} {T : Json → Bytes → Prop} {gprotos protos : Json}
    {bs : Bytes} (hE : ∀ rest, E rest → Final V rest)
    (hT : ∀ protos rest, T protos rest → ¬ IsBody V E gprotos protos rest)
    (h : Ends V T gprotos protos bs) : ¬ IsBody V E gprotos protos bs := by
  induction h with
  | here hfs hrest =>
    rw [isBody_iff]
    rintro ⟨fs', rest', heq, hfs', hrest'⟩
    obtain ⟨gs, hgs, -, heq'⟩ := hfs.behind_final hfs' heq (hE _ hrest')
    exact hT _ _ hrest (isBody_iff.mpr ⟨gs, rest', heq', hgs, hrest'⟩)
  | @nested protos sub fs f rest body hfs hf _ ih =>
    rw [isBody_iff]
    rintro ⟨fs', rest', heq, hfs', hrest'⟩
    obtain ⟨gs, hgs, rfl, heq'⟩ := hfs.behind_final hfs' heq (hE _ hrest')
    cases hgs with
    | nil =>
      obtain ⟨hpre, htag, -⟩ := hf
      subst hpre
      rw [List.append_assoc] at heq'
      exact hE _ hrest' _ _ _ htag heq'.symm
    | cons hg _ =>
      rw [List.append_assoc] at heq'
      exact ih (hg.of_nests hf heq'.symm).1

theorem WholeEnd.final {rest : Bytes} (h : WholeEnd V rest) : Final V rest := by
  obtain rfl | hzero | hcut := h
  · exact final_nil
  · rw [← rest.append_nil]
    exact hzero.final []
  · exact hcut.final

theorem EarlyEnd.final {rest : Bytes} (h : EarlyEnd V rest) : Final V rest := by
  obtain ⟨z, b, junk, hz, rfl⟩ := h
  exact hz.final _

/-- Bytes behind a zero tag are no end. -/
theorem EarlyEnd.not_whole {rest : Bytes} (h : EarlyEnd V rest) : ¬ WholeEnd V rest := by
  obtain ⟨z, b, junk, hz, rfl⟩ := h
  rintro (hnil | hzero | hcut)
  · simp at hnil
  · simpa using hz.1.eq_of_append hzero.1
  · exact hz.1.not_continued hcut.2.2

/-- **A body that ends early is not whole.** -/
theorem EndsEarly.not_whole {gprotos protos : Json} {bs : Bytes}
    (h : EndsEarly V gprotos protos bs) : ¬ IsWhole V gprotos protos bs :=
  IsBody.not_ends (fun _ => WholeEnd.final)
    (fun _ _ hearly => hearly.final.not_isBody hearly.not_whole) h

/-- A message field has a tag. -/
theorem Nests.ne_nil {gprotos protos sub : Json} {f body : Bytes}
    (h : Nests V gprotos protos f sub body) : f ≠ [] := by
  obtain ⟨rfl, ⟨⟨front, last, rfl, -⟩, -⟩, -⟩ := h
  simp

/-- **A nested message that starts among the first `k` bytes ends early**, and nothing before it
does. -/
def LosesStep (V : Bytes → ℕ) (gprotos protos : Json) (k : ℕ) (bs : Bytes) : Prop :=
  ∃ fs f rest sub body, bs = fs ++ (f ++ rest) ∧ fs.length < k ∧
    IsOccurrences V (IsWhole V gprotos) gprotos protos fs ∧ Nests V gprotos protos f sub body ∧
    EndsEarly V gprotos sub body

/-- The same, anywhere in the body. -/
def OutOfStep (V : Bytes → ℕ) (gprotos protos : Json) (bs : Bytes) : Prop :=
  LosesStep V gprotos protos bs.length bs

theorem LosesStep.endsEarly {gprotos protos : Json} {k : ℕ} {bs : Bytes}
    (h : LosesStep V gprotos protos k bs) : EndsEarly V gprotos protos bs := by
  obtain ⟨fs, f, rest, sub, body, rfl, -, hfs, hf, hearly⟩ := h
  exact .nested hfs hf hearly

theorem LosesStep.outOfStep {gprotos protos : Json} {k : ℕ} {bs : Bytes}
    (h : LosesStep V gprotos protos k bs) : OutOfStep V gprotos protos bs := by
  obtain ⟨fs, f, rest, sub, body, rfl, -, hfs, hf, hearly⟩ := h
  refine ⟨fs, f, rest, sub, body, rfl, ?_, hfs, hf, hearly⟩
  rw [List.length_append, List.length_append]
  have hpos := List.length_pos_iff.mpr hf.ne_nil
  omega

/-- A whole occurrence in front moves the place. -/
theorem LosesStep.cons {gprotos protos : Json} {k : ℕ} {g bs : Bytes}
    (hg : IsOccurrence V (IsWhole V gprotos) gprotos protos g) (h : LosesStep V gprotos protos k bs) :
    LosesStep V gprotos protos (g.length + k) (g ++ bs) := by
  obtain ⟨fs, f, rest, sub, body, rfl, hlen, hfs, hf, hearly⟩ := h
  refine ⟨g ++ fs, f, rest, sub, body, by rw [List.append_assoc], ?_, .cons hg hfs, hf, hearly⟩
  rw [List.length_append]
  omega

/-- Bytes of whole occurrences lose no step. -/
theorem IsOccurrences.not_losesStep {gprotos protos : Json} {gs t : Bytes}
    (h : IsOccurrences V (IsWhole V gprotos) gprotos protos gs) :
    ¬ LosesStep V gprotos protos gs.length (gs ++ t) := by
  rintro ⟨fs, f, rest, sub, body, heq, hlen, hfs, hf, hearly⟩
  exact hearly.not_whole (hfs.of_nests hf h heq.symm hlen)

/-- Nor do they where no other occurrence can follow. -/
theorem IsOccurrences.not_losesStep_final {gprotos protos : Json} {k : ℕ} {gs t : Bytes}
    (h : IsOccurrences V (IsWhole V gprotos) gprotos protos gs) (ht : Final V t) :
    ¬ LosesStep V gprotos protos k (gs ++ t) := by
  rintro ⟨fs, f, rest, sub, body, heq, -, hfs, hf, hearly⟩
  obtain ⟨gs', hgs', -, hrest⟩ := hfs.behind_final h heq.symm ht
  cases hgs' with
  | nil =>
    obtain ⟨rfl, htag, -⟩ := hf
    rw [List.append_assoc] at hrest
    exact ht _ _ _ htag hrest.symm
  | cons hg _ =>
    rw [List.append_assoc] at hrest
    exact hearly.not_whole (hg.of_nests hf hrest.symm).1

end Libpomelo
