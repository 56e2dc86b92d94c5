import Libpomelo.PbVarint

/-!
# What the decoder accepts

A buffer is complete if it is a sequence of occurrences that ends with the buffer or at a zero
tag, and so are the bodies of all messages nested in it. Here the grammar is that of the format
itself: a tag, a length and a count have the value of their varint (`Leb128.value`), and a tag
is a number of 32 bits.

A decoder that stays in step accepts two kinds of buffers that are not complete.

* A tag that is cut is taken for the end of its message: the end of the stream and the end of a
  message are told apart by the bytes that are left, and none are left in either case
  (`EndsCut`).
* Of a tag, a length or a count only the low 32 bits are kept, so the decoder takes another
  field, a shorter payload or a zero tag for what stands there (`EndsLarge`).
-/

namespace Libpomelo

/-- The end of a complete body: that of its bytes, or a zero tag. -/
def CompleteEnd (rest : Bytes) : Prop :=
  rest = [] ∨ ∃ z junk, IsZero Leb128.value z ∧ rest = z ++ junk

/-- **Complete**: every field has a known tag and a complete payload, at every depth. -/
abbrev IsComplete (gprotos : Json) : Json → Bytes → Prop :=
  IsBody Leb128.value CompleteEnd gprotos

/-- The body, or the first in it that is not whole, ends in a tag that is cut. -/
abbrev EndsCut (gprotos : Json) : Json → Bytes → Prop :=
  Ends Leb128.value (fun _ => IsCut) gprotos

theorem CompleteEnd.final {rest : Bytes} (h : CompleteEnd rest) : Final Leb128.value rest := by
  obtain rfl | ⟨z, junk, hz, rfl⟩ := h
  · exact final_nil
  · exact hz.final junk

theorem IsCut.not_completeEnd {rest : Bytes} (h : IsCut rest) : ¬ CompleteEnd rest := by
  obtain ⟨hne, -, hcont⟩ := h
  rintro (rfl | ⟨z, junk, hz, rfl⟩)
  · exact hne rfl
  · exact hz.1.not_continued hcont

/-- **A body that ends in a cut tag is not complete.** -/
theorem EndsCut.not_complete {gprotos protos : Json} {bs : Bytes}
    (h : EndsCut gprotos protos bs) : ¬ IsComplete gprotos protos bs :=
  IsBody.not_ends (fun _ => CompleteEnd.final)
    (fun _ _ hcut => hcut.final.not_isBody hcut.not_completeEnd) h

/-! ## Varints above 32 bits -/

/-- A varint of `2 ^ 32` or more. -/
def IsLarge (bs : Bytes) : Prop := IsVarint bs ∧ 2 ^ 32 ≤ Leb128.value bs

/-- The payload of the field starts with a varint that says how much follows: a count of values,
or the length of a string or of a message. -/
inductive Counted (gprotos protos proto : Json) : Prop
  /-- a packed array -/
  | packed : fieldOption proto = some "repeated" → fieldPacked proto = true →
      Counted gprotos protos proto
  /-- one value -/
  | value {option type : String} : fieldOption proto = some option →
      IsSingle option ∨ option = "repeated" → fieldType proto = some type →
      (pbGetType type = some .string ∨
        pbGetType type = none ∧ ∃ sub, resolveType gprotos protos type = some sub) →
      Counted gprotos protos proto

/-- The bytes start with the tag of such a field and the varint `v`, and `more` follows. -/
def Counts (gprotos protos : Json) (bs v more : Bytes) : Prop :=
  ∃ tag n name proto, IsTag Leb128.value tag n ∧ fieldOfTag protos n = some (name, proto) ∧
    Counted gprotos protos proto ∧ IsVarint v ∧ bs = tag ++ (v ++ more)

/-- A tag, or a length or a count, of `2 ^ 32` or more. -/
def LargeEnd (gprotos protos : Json) (rest : Bytes) : Prop :=
  (∃ v more, IsLarge v ∧ rest = v ++ more) ∨
    ∃ v more, Counts gprotos protos rest v more ∧ 2 ^ 32 ≤ Leb128.value v

/-- The first body that is not whole goes on with a varint of `2 ^ 32` or more in the place of a
tag, a length or a count. -/
abbrev EndsLarge (gprotos : Json) : Json → Bytes → Prop :=
  Ends Leb128.value (LargeEnd gprotos) gprotos

/-- A length or a count of `2 ^ 32` or more with as many bytes behind it. -/
def VastEnd (gprotos protos : Json) (rest : Bytes) : Prop :=
  ∃ v more, Counts gprotos protos rest v more ∧ 2 ^ 32 ≤ Leb128.value v ∧
    Leb128.value v ≤ more.length

/-- The same with such a length or count. -/
abbrev EndsVast (gprotos : Json) : Json → Bytes → Prop :=
  Ends Leb128.value (VastEnd gprotos) gprotos

theorem varintValue_eq (bs : Bytes) : varintValue bs = Leb128.value bs % 2 ^ 32 := by
  rw [varintValue, varintSum_zero, Nat.mod_mod_of_dvd _ (by decide)]

/-- What the decoder keeps of a varint is its value, or the varint is too large. -/
theorem varintValue_or_large {bs : Bytes} (h : IsVarint bs) :
    (varintValue bs = Leb128.value bs ∧ Leb128.value bs < 2 ^ 32) ∨ IsLarge bs := by
  rw [varintValue_eq]
  obtain hlt | hge := Nat.lt_or_ge (Leb128.value bs) (2 ^ 32)
  · exact .inl ⟨Nat.mod_eq_of_lt hlt, hlt⟩
  · exact .inr ⟨h, hge⟩

theorem IsZero.exact_or_large {z : Bytes} (h : IsZero varintValue z) :
    IsZero Leb128.value z ∨ IsLarge z := by
  obtain ⟨hvarint, hzero⟩ := h
  refine (varintValue_or_large hvarint).imp_left fun ⟨hvalue, _⟩ => ⟨hvarint, ?_⟩
  rw [← hvalue, hzero]

theorem IsTag.exact_or_large {tag : Bytes} {n : ℕ} (h : IsTag varintValue tag n) :
    IsTag Leb128.value tag n ∨ IsLarge tag := by
  obtain ⟨hvarint, hne, -, rfl⟩ := h
  refine (varintValue_or_large hvarint).imp_left fun ⟨hvalue, hlt⟩ => ?_
  rw [hvalue] at hne ⊢
  exact ⟨hvarint, hne, hlt, rfl⟩

theorem IsPrefixed.exact_or_large {bs c : Bytes} (h : IsPrefixed varintValue bs c) :
    IsPrefixed Leb128.value bs c ∨ ∃ v, IsLarge v ∧ bs = v ++ c := by
  obtain ⟨len, hvarint, hlen, rfl⟩ := h
  obtain ⟨hvalue, -⟩ | hlarge := varintValue_or_large hvarint
  · exact .inl ⟨len, hvarint, hvalue ▸ hlen, rfl⟩
  · exact .inr ⟨len, hlarge, rfl⟩

/-! ## Lengths and counts that are not there -/

section Counts

variable {V : Bytes → ℕ} {B : Json → Bytes → Prop} {gprotos protos proto : Json} {bs : Bytes}

/-- Packed values have a byte each, at least. -/
theorem IsValues.le_length {n : ℕ} (hpacked : fieldPacked proto = true)
    (h : IsValues V B gprotos protos proto n bs) : n ≤ bs.length := by
  obtain ⟨type, t, htype, ht⟩ := fieldPacked_type hpacked
  induction h with
  | nil => exact le_rfl
  | @cons n bs bss hv _ ih =>
    have hone : 1 ≤ bs.length := by
      cases hv with
      | @scalar type' t' _ htype' ht' hbs =>
        have hvarint : IsVarint bs → 1 ≤ bs.length := by
          rintro ⟨front, last, rfl, -⟩
          simp
        cases t' with
        | uInt32 => exact hvarint hbs
        | int32 => exact hvarint hbs
        | sInt32 => exact hvarint hbs
        | float => exact (show bs.length = 4 from hbs).symm ▸ by decide
        | double => exact (show bs.length = 8 from hbs).symm ▸ by decide
        | string =>
          obtain ⟨text, len, ⟨front, last, rfl, -⟩, -, rfl⟩ := hbs
          simp only [List.length_append, List.length_singleton]
          omega
      | message hholds _ => exact absurd hholds.not_packed (by rw [hpacked]; decide)
      | blank htype' hnone _ =>
        obtain rfl := Option.some.inj (htype.symm.trans htype')
        rw [hnone] at ht
        cases ht
    rw [List.length_append]
    omega

/-- What a counted payload says to follow does follow. -/
theorem IsPayload.counted (h : IsPayload V B gprotos protos proto bs)
    (hcounted : Counted gprotos protos proto) :
    ∃ v more, IsVarint v ∧ bs = v ++ more ∧ V v ≤ more.length := by
  cases hcounted with
  | packed hopt hpacked =>
    cases h with
    | single hopt' hsingle _ =>
      obtain rfl := Option.some.inj (hopt.symm.trans hopt')
      exact absurd rfl hsingle.not_repeated
    | packed _ _ hcount hvs => exact ⟨_, _, hcount, rfl, hvs.le_length hpacked⟩
    | element _ hpacked' _ =>
      rw [hpacked] at hpacked'
      cases hpacked'
    | other hopt' _ hrep => exact absurd (Option.some.inj (hopt'.symm.trans hopt)) hrep
  | @value option type hopt hknown htype hkind =>
    have hpacked : fieldPacked proto = false := by
      obtain hstring | ⟨hnone, -⟩ := hkind
      · simp [fieldPacked, htype, pbIsPacked, hstring]
      · simp [fieldPacked, htype, pbIsPacked, hnone]
    cases h.value hopt hknown (.inr hpacked) with
    | scalar htype' ht hbs =>
      obtain rfl := Option.some.inj (htype.symm.trans htype')
      obtain hstring | ⟨hnone, -⟩ := hkind
      · obtain rfl := Option.some.inj (hstring.symm.trans ht)
        obtain ⟨text, len, hvarint, hlen, rfl⟩ := hbs
        exact ⟨len, text, hvarint, rfl, hlen.le⟩
      · rw [hnone] at ht
        cases ht
    | message hholds _ =>
      obtain ⟨_, -, -, -, len, hvarint, hlen, rfl⟩ := hholds
      exact ⟨len, _, hvarint, rfl, hlen.le⟩
    | blank htype' hnone hmsgs =>
      obtain rfl := Option.some.inj (htype.symm.trans htype')
      obtain hstring | ⟨-, sub, hres⟩ := hkind
      · rw [hnone] at hstring
        cases hstring
      · rw [resolveType, hmsgs] at hres
        cases hres

/-- No tag is large. -/
theorem IsLarge.final {v : Bytes} (h : IsLarge v) (more : Bytes) :
    Final Leb128.value (v ++ more) := by
  rintro tag n more' ⟨htag, -, hlt, -⟩ heq
  obtain ⟨rfl, -⟩ := isVarint_aligned _ _ _ _ h.1 htag heq
  exact Nat.not_le.mpr hlt h.2

theorem IsLarge.not_completeEnd {v : Bytes} (h : IsLarge v) (more : Bytes) :
    ¬ CompleteEnd (v ++ more) := by
  rintro (hnil | ⟨z, junk, ⟨hz, hzero⟩, heq⟩)
  · obtain ⟨⟨front, last, rfl, -⟩, -⟩ := h
    simp at hnil
  · obtain ⟨rfl, -⟩ := isVarint_aligned _ _ _ _ h.1 hz heq
    have hge := h.2
    rw [hzero] at hge
    cases hge

/-- **Nothing complete begins with a large varint**, unless as much follows as it says. -/
theorem LargeEnd.not_complete (h : LargeEnd gprotos protos bs) (hvast : ¬ VastEnd gprotos protos bs) :
    ¬ IsComplete gprotos protos bs := by
  obtain ⟨v, more, hlarge, rfl⟩ | ⟨v, more, hcounts, hge⟩ := h
  · exact (hlarge.final more).not_isBody (hlarge.not_completeEnd more)
  · obtain ⟨tag, n, name, proto, htag, hfield, hcounted, hvarint, rfl⟩ := hcounts
    rw [IsComplete, isBody_iff]
    rintro ⟨fs, rest, heq, hfs, hrest⟩
    cases hfs with
    | nil => exact hrest.final _ _ _ htag heq.symm
    | cons hf _ =>
      obtain ⟨htag', hfield', hpay⟩ := hf
      rw [List.append_assoc, List.append_assoc] at heq
      obtain ⟨rfl, rfl, heq'⟩ := htag.inj htag' heq
      obtain ⟨-, rfl⟩ := Prod.mk.inj (Option.some.inj (hfield.symm.trans hfield'))
      obtain ⟨v', more', hvarint', rfl, hle⟩ := hpay.counted hcounted
      rw [List.append_assoc] at heq'
      obtain ⟨rfl, rfl⟩ := isVarint_aligned _ _ _ _ hvarint hvarint' heq'
      refine hvast ⟨v, _, ⟨tag, n, name, proto, htag, hfield, hcounted, hvarint, rfl⟩, hge, ?_⟩
      rw [List.length_append]
      exact hle.trans (Nat.le_add_right _ _)

end Counts

/-! ## From the decoder's numbers to the values -/

section Exact

variable {B C : Json → Bytes → Prop} {T : Json → Bytes → Prop} {gprotos protos proto : Json}
  {bs f fs : Bytes}

/-- A value is one by the values of its varints, or its length is too large, or it has a body
that ends in `T`. -/
theorem IsValue.or_ends
    (hB : ∀ sub body, B sub body → C sub body ∨ Ends Leb128.value T gprotos sub body)
    (h : IsValue varintValue B gprotos protos proto bs) :
    IsValue Leb128.value C gprotos protos proto bs ∨
      (∃ v more, IsLarge v ∧ bs = v ++ more ∧ ∀ {option : String},
        fieldOption proto = some option → IsSingle option ∨ option = "repeated" →
        Counted gprotos protos proto) ∨
      ∃ sub body, HoldsMessage Leb128.value gprotos protos proto bs sub body ∧
        Ends Leb128.value T gprotos sub body := by
  cases h with
  | @scalar type t _ htype ht hbs =>
    cases t with
    | uInt32 => exact .inl (.scalar htype ht hbs)
    | int32 => exact .inl (.scalar htype ht hbs)
    | sInt32 => exact .inl (.scalar htype ht hbs)
    | float => exact .inl (.scalar htype ht hbs)
    | double => exact .inl (.scalar htype ht hbs)
    | string =>
      obtain ⟨text, hprefixed⟩ := hbs
      obtain hexact | ⟨v, hlarge, rfl⟩ := hprefixed.exact_or_large
      · exact .inl (.scalar htype ht ⟨text, hexact⟩)
      · exact .inr (.inl ⟨v, text, hlarge, rfl, fun hopt hknown =>
          .value hopt hknown htype (.inl ht)⟩)
  | message hholds hbody =>
    obtain ⟨type, htype, hnone, hres, hprefixed⟩ := hholds
    obtain hexact | ⟨v, hlarge, rfl⟩ := hprefixed.exact_or_large
    · obtain hC | hends := hB _ _ hbody
      · exact .inl (.message ⟨type, htype, hnone, hres, hexact⟩ hC)
      · exact .inr (.inr ⟨_, _, ⟨type, htype, hnone, hres, hexact⟩, hends⟩)
    · exact .inr (.inl ⟨v, _, hlarge, rfl, fun hopt hknown =>
        .value hopt hknown htype (.inr ⟨hnone, _, hres⟩)⟩)
  | blank htype hnone hmsgs => exact .inl (.blank htype hnone hmsgs)

/-- Packed values hold neither lengths nor bodies. -/
theorem IsValues.packed {n : ℕ} (hpacked : fieldPacked proto = true)
    (h : IsValues varintValue B gprotos protos proto n bs) :
    IsValues Leb128.value C gprotos protos proto n bs := by
  obtain ⟨type, t, htype, ht⟩ := fieldPacked_type hpacked
  induction h with
  | nil => exact .nil
  | cons hv _ ih =>
    refine .cons ?_ ih
    cases hv with
    | @scalar type' t' _ htype' ht' hbs =>
      cases t' with
      | uInt32 => exact .scalar htype' ht' hbs
      | int32 => exact .scalar htype' ht' hbs
      | sInt32 => exact .scalar htype' ht' hbs
      | float => exact .scalar htype' ht' hbs
      | double => exact .scalar htype' ht' hbs
      | string => simp [fieldPacked, htype', pbIsPacked, ht'] at hpacked
    | message hholds _ => exact absurd hholds.not_packed (by rw [hpacked]; decide)
    | blank htype' hnone hmsgs => exact .blank htype' hnone hmsgs

/-- The same for a payload. -/
theorem IsPayload.or_ends
    (hB : ∀ sub body, B sub body → C sub body ∨ Ends Leb128.value T gprotos sub body)
    (h : IsPayload varintValue B gprotos protos proto bs) :
    IsPayload Leb128.value C gprotos protos proto bs ∨
      (∃ v more, IsLarge v ∧ bs = v ++ more ∧ Counted gprotos protos proto) ∨
      ∃ option sub body, fieldOption proto = some option ∧
        (IsSingle option ∨ option = "repeated") ∧
        HoldsMessage Leb128.value gprotos protos proto bs sub body ∧
        Ends Leb128.value T gprotos sub body := by
  cases h with
  | single hopt hsingle hv =>
    obtain hexact | ⟨v, more, hlarge, rfl, hcounted⟩ | ⟨sub, body, hholds, hends⟩ := hv.or_ends hB
    · exact .inl (.single hopt hsingle hexact)
    · exact .inr (.inl ⟨v, more, hlarge, rfl, hcounted hopt (.inl hsingle)⟩)
    · exact .inr (.inr ⟨_, sub, body, hopt, .inl hsingle, hholds, hends⟩)
  | packed hopt hpacked hcount hvs =>
    obtain ⟨hsame, -⟩ | hlarge := varintValue_or_large hcount
    · rw [hsame] at hvs
      exact .inl (.packed hopt hpacked hcount (hvs.packed hpacked))
    · exact .inr (.inl ⟨_, _, hlarge, rfl, .packed hopt hpacked⟩)
  | element hopt hpacked hv =>
    obtain hexact | ⟨v, more, hlarge, rfl, hcounted⟩ | ⟨sub, body, hholds, hends⟩ := hv.or_ends hB
    · exact .inl (.element hopt hpacked hexact)
    · exact .inr (.inl ⟨v, more, hlarge, rfl, hcounted hopt (.inr rfl)⟩)
    · exact .inr (.inr ⟨_, sub, body, hopt, .inr rfl, hholds, hends⟩)
  | other hopt hsingle hrep => exact .inl (.other hopt hsingle hrep)

/-- And for an occurrence, whatever follows it. -/
theorem IsOccurrence.or_ends (hT : ∀ protos rest, LargeEnd gprotos protos rest → T protos rest)
    (hB : ∀ sub body, B sub body → C sub body ∨ Ends Leb128.value T gprotos sub body)
    (h : IsOccurrence varintValue B gprotos protos f) :
    IsOccurrence Leb128.value C gprotos protos f ∨
      ∀ t, Ends Leb128.value T gprotos protos (f ++ t) := by
  have hhere : ∀ {rest : Bytes}, LargeEnd gprotos protos rest →
      Ends Leb128.value T gprotos protos rest := fun hlarge => .here .nil (hT _ _ hlarge)
  obtain ⟨htag, hfield, hpay⟩ := h
  obtain htag | hlarge := htag.exact_or_large
  · obtain hexact | ⟨v, more, hlarge, rfl, hcounted⟩ |
      ⟨option, sub, body, hopt, hknown, hholds, hends⟩ := hpay.or_ends hB
    · exact .inl (.mk htag hfield hexact)
    · refine .inr fun t => hhere (.inr ⟨v, more ++ t, ⟨_, _, _, _, htag, hfield, hcounted, hlarge.1,
        ?_⟩, hlarge.2⟩)
      rw [List.append_assoc, List.append_assoc]
    · exact .inr fun t => .nested .nil (.mk rfl htag hfield hopt hknown hholds) hends
  · exact .inr fun t => hhere (.inl ⟨_, _, hlarge, List.append_assoc _ _ _⟩)

/-- Occurrences are ones by the values of their varints, or whatever follows them ends in `T`. -/
theorem IsOccurrences.or_ends (hT : ∀ protos rest, LargeEnd gprotos protos rest → T protos rest)
    (hwhole : ∀ sub body, C sub body → IsWhole Leb128.value gprotos sub body)
    (hB : ∀ sub body, B sub body → C sub body ∨ Ends Leb128.value T gprotos sub body)
    (h : IsOccurrences varintValue B gprotos protos fs) :
    IsOccurrences Leb128.value C gprotos protos fs ∨
      ∀ t, Ends Leb128.value T gprotos protos (fs ++ t) := by
  induction h with
  | nil => exact .inl .nil
  | @cons f fs hf _ ih =>
    obtain hC | hends := hf.or_ends hT hB
    · obtain hCs | hends := ih
      · exact .inl (.cons hC hCs)
      · -- what a later occurrence ends in, the whole ends in
        refine .inr fun t => ?_
        rw [List.append_assoc]
        exact (hends t).cons (hC.mono hwhole)
    · refine .inr fun t => ?_
      rw [List.append_assoc]
      exact hends _

/-- A nested message is one by the values of its varints, or one of these is too large. -/
theorem Nests.exact_or_large {sub : Json} {body : Bytes}
    (h : Nests varintValue gprotos protos f sub body) :
    Nests Leb128.value gprotos protos f sub body ∨
      ∀ rest, LargeEnd gprotos protos (f ++ rest) := by
  obtain ⟨rfl, htag, hfield, hopt, hknown, type, htype, hnone, hres, hprefixed⟩ := h
  obtain htag | hlarge := htag.exact_or_large
  · obtain hexact | ⟨v, hlarge, rfl⟩ := hprefixed.exact_or_large
    · exact .inl (.mk rfl htag hfield hopt hknown ⟨type, htype, hnone, hres, hexact⟩)
    · refine .inr fun rest => .inr ⟨v, body ++ rest, ⟨_, _, _, _, htag, hfield,
        .value hopt hknown htype (.inr ⟨hnone, sub, hres⟩), hlarge.1, ?_⟩, hlarge.2⟩
      rw [List.append_assoc, List.append_assoc]
  · exact .inr fun rest => .inl ⟨_, _, hlarge, List.append_assoc _ _ _⟩

end Exact

/-! ## Whole bodies -/

/-- What an accepted body that is not complete goes on with: a tag that is cut, or a varint that
is too large. -/
def BadEnd (gprotos protos : Json) (rest : Bytes) : Prop :=
  IsCut rest ∨ LargeEnd gprotos protos rest

section Whole

variable {gprotos protos : Json} {bs fs : Bytes}

/-- The bodies that are whole and complete by the values of their varints. -/
def IsGood (gprotos sub : Json) (body : Bytes) : Prop :=
  IsWhole Leb128.value gprotos sub body ∧ IsComplete gprotos sub body

/-- **A body that the decoder reads whole is complete, or it ends badly.** -/
theorem IsWhole.good_or_bad (h : IsWhole varintValue gprotos protos bs) :
    IsGood gprotos protos bs ∨ Ends Leb128.value (BadEnd gprotos) gprotos protos bs := by
  induction h with
  | @mk protos fs rest B hB hfs hrest ih =>
    obtain hgood | hends := hfs.or_ends (fun _ _ => .inr) (fun _ _ hgood => hgood.1) ih
    · have hwhole : ∀ {rest : Bytes}, WholeEnd Leb128.value rest →
          IsWhole Leb128.value gprotos protos (fs ++ rest) := fun hend =>
        isBody_iff.mpr ⟨fs, _, rfl, hgood.mono fun _ _ hgood => hgood.1, hend⟩
      have hcomplete : ∀ {rest : Bytes}, CompleteEnd rest →
          IsComplete gprotos protos (fs ++ rest) := fun hend =>
        isBody_iff.mpr ⟨fs, _, rfl, hgood.mono fun _ _ hgood => hgood.2, hend⟩
      have hbad : BadEnd gprotos protos rest →
          Ends Leb128.value (BadEnd gprotos) gprotos protos (fs ++ rest) :=
        .here (hgood.mono fun _ _ hgood => hgood.1)
      obtain rfl | hzero | hcut := hrest
      · exact .inl ⟨hwhole (.inl rfl), hcomplete (.inl rfl)⟩
      · obtain hzero | hlarge := hzero.exact_or_large
        · exact .inl ⟨hwhole (.inr (.inl hzero)),
            hcomplete (.inr ⟨rest, [], hzero, (List.append_nil rest).symm⟩)⟩
        · exact .inr (hbad (.inr (.inl ⟨rest, [], hlarge, (List.append_nil rest).symm⟩)))
      · exact .inr (hbad (.inl hcut))
    · exact .inr (hends rest)

/-- Occurrences that the decoder reads whole. -/
theorem IsOccurrences.good_or_bad
    (h : IsOccurrences varintValue (IsWhole varintValue gprotos) gprotos protos fs) :
    IsOccurrences Leb128.value (IsGood gprotos) gprotos protos fs ∨
      ∀ t, Ends Leb128.value (BadEnd gprotos) gprotos protos (fs ++ t) :=
  h.or_ends (fun _ _ => .inr) (fun _ _ hgood => hgood.1) fun _ _ hwhole => hwhole.good_or_bad

/-- **A body that ends early for the decoder** does so by the values of its varints, or it ends
badly. -/
theorem EndsEarly.early_or_bad (h : EndsEarly varintValue gprotos protos bs) :
    EndsEarly Leb128.value gprotos protos bs ∨
      Ends Leb128.value (BadEnd gprotos) gprotos protos bs := by
  induction h with
  | @here protos fs rest hfs hrest =>
    obtain hgood | hends := hfs.good_or_bad
    · have hwhole := hgood.mono fun _ _ hgood => hgood.1
      obtain ⟨z, b, junk, hzero, rfl⟩ := hrest
      obtain hzero | hlarge := hzero.exact_or_large
      · exact .inl (.here hwhole ⟨z, b, junk, hzero, rfl⟩)
      · exact .inr (.here hwhole (.inr (.inl ⟨z, _, hlarge, rfl⟩)))
    · exact .inr (hends rest)
  | @nested protos sub fs f rest body hfs hf _ ih =>
    obtain hgood | hends := hfs.good_or_bad
    · have hwhole := hgood.mono fun _ _ hgood => hgood.1
      obtain hnests | hlarge := hf.exact_or_large
      · exact ih.imp (.nested hwhole hnests) (.nested hwhole hnests)
      · exact .inr (.here hwhole (.inr (hlarge rest)))
    · exact .inr (hends _)

/-- **A decoder that loses step** does so at a message that ends early by the values of its
varints, or the body ends badly. -/
theorem OutOfStep.outOfStep_or_bad (h : OutOfStep varintValue gprotos protos bs) :
    OutOfStep Leb128.value gprotos protos bs ∨
      Ends Leb128.value (BadEnd gprotos) gprotos protos bs := by
  obtain ⟨fs, f, rest, sub, body, rfl, hlen, hfs, hf, hearly⟩ := h
  obtain hgood | hends := hfs.good_or_bad
  · have hwhole := hgood.mono fun _ _ hgood => hgood.1
    obtain hnests | hlarge := hf.exact_or_large
    · exact hearly.early_or_bad.imp
        (fun hearly => ⟨fs, f, rest, sub, body, rfl, hlen, hwhole, hnests, hearly⟩)
        (.nested hwhole hnests)
    · exact .inr (.here hwhole (.inr (hlarge rest)))
  · exact .inr (hends _)

/-- Which of the two it is. -/
theorem Ends.cut_or_large (h : Ends Leb128.value (BadEnd gprotos) gprotos protos bs) :
    EndsCut gprotos protos bs ∨ EndsLarge gprotos protos bs := by
  induction h with
  | here hfs hrest => exact hrest.imp (.here hfs) (.here hfs)
  | nested hfs hf _ ih => exact ih.imp (.nested hfs hf) (.nested hfs hf)

/-- **A body that ends in a large varint is not complete**, unless as much follows as it says. -/
theorem EndsLarge.not_complete (h : EndsLarge gprotos protos bs)
    (hvast : ¬ EndsVast gprotos protos bs) : ¬ IsComplete gprotos protos bs := by
  have hends : Ends Leb128.value (fun protos rest => LargeEnd gprotos protos rest ∧
      ¬ VastEnd gprotos protos rest) gprotos protos bs := by
    induction h with
    | here hfs hrest => exact .here hfs ⟨hrest, fun hend => hvast (.here hfs hend)⟩
    | nested hfs hf _ ih => exact .nested hfs hf (ih fun hend => hvast (.nested hfs hf hend))
  exact IsBody.not_ends (fun _ => CompleteEnd.final)
    (fun _ _ hlarge => hlarge.1.not_complete hlarge.2) hends

end Whole

/-! ## Accepted buffers -/

/-- **What an accepted buffer is.** For every buffer and every schema: if `pc_pb_decode` accepts
the buffer and does not lose step in it, then the buffer is complete if and only if neither it
nor a message nested in it ends in a tag that is cut, or goes on with a tag, a length or a count
of `2 ^ 32` or more. Left out are the buffers with a payload of `2 ^ 32` bytes or values. -/
theorem complete_iff {buf : Bytes} {gprotos protos result r : Json}
    (h : pcPbDecode buf gprotos protos result = .ok r)
    (hstep : ¬ OutOfStep Leb128.value gprotos protos buf)
    (hvast : ¬ EndsVast gprotos protos buf) :
    IsComplete gprotos protos buf ↔
      ¬ EndsCut gprotos protos buf ∧ ¬ EndsLarge gprotos protos buf := by
  refine ⟨fun hcomplete => ⟨fun hcut => hcut.not_complete hcomplete,
    fun hlarge => hlarge.not_complete hvast hcomplete⟩, fun hgood => ?_⟩
  have hbad : ¬ Ends Leb128.value (BadEnd gprotos) gprotos protos buf :=
    fun hends => hends.cut_or_large.elim hgood.1 hgood.2
  obtain ⟨s', hrun⟩ := pcPbDecode_run h
  obtain ⟨items, hitems, -⟩ := pbDecode_reads buf gprotos buf.length _ _ _ _ _ hrun
  have hdecoded := readItems_inStep buf gprotos buf.length _ _ _ _
    (pbIstreamFromBuffer_inside buf) hitems
  rw [Decoded, pbIstreamFromBuffer_ahead] at hdecoded
  obtain ⟨fs, rest, hfs, htakes, hend⟩ | ⟨hout, -⟩ := hdecoded
  · have hbytes := htakes.bytes
    rw [pbIstreamFromBuffer_ahead, List.append_assoc] at hbytes
    rw [hbytes] at hbad ⊢
    obtain hgood | hends := hfs.good_or_bad
    · have hwhole := hgood.mono fun _ _ hgood => hgood.1
      -- a zero tag and the end of the bytes complete a buffer, a cut tag does not
      refine isBody_iff.mpr ⟨fs, _, rfl, hgood.mono fun _ _ hgood => hgood.2, ?_⟩
      have hzeroEnd : IsZero varintValue rest → CompleteEnd (rest ++ s'.ahead buf) := fun hzero =>
        hzero.exact_or_large.elim (fun hzero => .inr ⟨rest, _, hzero, rfl⟩)
          fun hlarge => absurd (.here hwhole (.inr (.inl ⟨rest, _, hlarge, rfl⟩))) hbad
      obtain hzero | ⟨rfl | hzero | hiscut, hleft⟩ := hend
      · exact hzeroEnd hzero
      · exact .inl (IStream.ahead_of_left hleft)
      · exact hzeroEnd hzero
      · rw [IStream.ahead_of_left hleft, List.append_nil] at hbad
        exact absurd (.here hwhole (.inl hiscut)) hbad
    · exact absurd (hends _) hbad
  · exact absurd hout.outOfStep_or_bad (not_or.mpr ⟨hstep, hbad⟩)

/-- No buffer below `2 ^ 32` bytes is left out. -/
theorem EndsVast.le_length {gprotos protos : Json} {bs : Bytes}
    (h : EndsVast gprotos protos bs) : 2 ^ 32 ≤ bs.length := by
  induction h with
  | here _ hrest =>
    obtain ⟨v, more, ⟨tag, n, name, proto, -, -, -, -, rfl⟩, hge, hle⟩ := hrest
    simp only [List.length_append]
    omega
  | nested _ hf _ ih =>
    obtain ⟨rfl, -, -, -, -, type, -, -, -, len, -, -, rfl⟩ := hf
    simp only [List.length_append]
    omega

section Chain

/-- A tag of one byte for the only field of the chain. -/
theorem isTag_chain : IsTag Leb128.value [10] 1 :=
  ⟨⟨[], 10, rfl, by decide, by simp [Continued], by decide⟩, by decide, by decide, by decide⟩

/-- A link of the chain around a whole body. -/
theorem chain_occurrence {body : Bytes} (hbody : IsWhole Leb128.value chainProtos chainLevel body)
    {b : UInt8} (hlen : b.toNat = body.length) (hsmall : body.length < 128) :
    IsOccurrence Leb128.value (IsWhole Leb128.value chainProtos) chainProtos chainLevel
      ([10] ++ ([b] ++ body)) := by
  have hvalue : Leb128.value [b] = body.length := by
    rw [Leb128.value, Leb128.value, Nat.mul_zero, Nat.add_zero, hlen, Nat.mod_eq_of_lt hsmall]
  have hprefixed : IsPrefixed Leb128.value ([b] ++ body) body :=
    ⟨[b], ⟨[], b, rfl, by simp, by simp [Continued], hlen ▸ hsmall⟩, hvalue, rfl⟩
  exact .mk isTag_chain rfl
    (.single rfl (.inl rfl) (.message ⟨"T", rfl, rfl, rfl, hprefixed⟩ hbody))

theorem isWhole_chain_nil : IsWhole Leb128.value chainProtos chainLevel [] :=
  isBody_iff.mpr ⟨[], [], rfl, .nil, .inl rfl⟩

/-- An accepted message in a message. -/
theorem complete_iff_chain :
    IsComplete chainProtos chainLevel [10, 2, 10, 0] ↔
      ¬ EndsCut chainProtos chainLevel [10, 2, 10, 0] ∧
        ¬ EndsLarge chainProtos chainLevel [10, 2, 10, 0] := by
  have haccepted : pcPbDecode [10, 2, 10, 0] chainProtos chainLevel (.obj []) =
      .ok (.obj [("next", .obj [("next", .obj [])])]) := rfl
  have hinner : IsWhole Leb128.value chainProtos chainLevel [10, 0] :=
    isBody_iff.mpr ⟨[10, 0], [], rfl,
      .cons (chain_occurrence isWhole_chain_nil (b := 0) rfl (by decide)) .nil, .inl rfl⟩
  have houter : IsOccurrences Leb128.value (IsWhole Leb128.value chainProtos) chainProtos chainLevel
      [10, 2, 10, 0] := .cons (chain_occurrence hinner (b := 2) rfl (by decide)) .nil
  exact complete_iff haccepted (houter.not_losesStep_final final_nil)
    fun hvast => absurd hvast.le_length (by decide)

/-- Three buffers that are accepted: behind a field, the first byte of a longer tag; behind a
field, the varint of `2 ^ 32`, which is taken for a zero tag; and a field with the length
`2 ^ 32`, which is taken for zero. -/
theorem not_complete_accepted :
    ConformingSchema chainProtos chainLevel ∧
    ∀ buf ∈ ([[10, 0, 128], [10, 0, 128, 128, 128, 128, 16], [10, 128, 128, 128, 128, 16]] :
        List Bytes),
      pcPbDecode buf chainProtos chainLevel (.obj []) = .ok (.obj [("next", .obj [])]) ∧
        ¬ IsComplete chainProtos chainLevel buf := by
  have hfield : IsOccurrences Leb128.value (IsWhole Leb128.value chainProtos) chainProtos chainLevel
      [10, 0] := .cons (chain_occurrence isWhole_chain_nil (b := 0) rfl (by decide)) .nil
  have hvarint : IsVarint [128, 128, 128, 128, 16] :=
    ⟨[128, 128, 128, 128], 16, rfl, by decide, by simp [Continued], by decide⟩
  have hvalue : 2 ^ 32 ≤ Leb128.value [128, 128, 128, 128, 16] := by decide
  refine ⟨conforming_chainLevel, ?_⟩
  simp only [List.forall_mem_cons, List.not_mem_nil, false_implies, implies_true, and_true]
  refine ⟨⟨rfl, ?_⟩, ⟨rfl, ?_⟩, rfl, ?_⟩
  · have hcut : EndsCut chainProtos chainLevel ([10, 0] ++ [128]) :=
      .here hfield ⟨by decide, by decide, by simp [Continued]⟩
    exact hcut.not_complete
  · have hlarge : EndsLarge chainProtos chainLevel ([10, 0] ++ [128, 128, 128, 128, 16]) :=
      .here hfield (.inl ⟨_, [], ⟨hvarint, hvalue⟩, rfl⟩)
    exact hlarge.not_complete fun hvast => absurd hvast.le_length (by decide)
  · have hkind : pbGetType "T" = none ∧ ∃ sub, resolveType chainProtos chainLevel "T" = some sub :=
      ⟨rfl, chainLevel, rfl⟩
    obtain ⟨proto, hnext, hopt, htype⟩ : ∃ proto, fieldOfTag chainLevel 1 = some ("next", proto) ∧
      fieldOption proto = some "optional" ∧ fieldType proto = some "T" := ⟨_, rfl, rfl, rfl⟩
    have hcounted : Counted chainProtos chainLevel proto :=
      .value hopt (.inl (.inl rfl)) htype (.inr hkind)
    have hcounts : Counts chainProtos chainLevel ([10] ++ ([128, 128, 128, 128, 16] ++ []))
        [128, 128, 128, 128, 16] [] :=
      ⟨[10], 1, "next", proto, isTag_chain, hnext, hcounted, hvarint, rfl⟩
    have hlarge : EndsLarge chainProtos chainLevel ([] ++ [10, 128, 128, 128, 128, 16]) :=
      .here .nil (.inr ⟨_, _, hcounts, hvalue⟩)
    exact hlarge.not_complete fun hvast => absurd hvast.le_length (by decide)

end Chain

end Libpomelo
