import Libpomelo.JsonReread

/-!
# Printing and reading reals (`strconv.c` of jansson)

`jsonp_dtostr` completes what `printf` makes of a double under `%.17g`: a real needs a point or
an exponent, or it would be an integer when it is read again, and the exponent is printed
without plus sign and leading zeros. What `printf` prints is documented (`PrintedReal`); what
`jsonp_dtostr` makes of it is a real of the JSON grammar (`jsonpDtostr_real`), which the lexer
reads as one token (`reread_real`).
-/

namespace Libpomelo

open BinaryFloat (Datum double)

/-- The end of `jsonp_dtostr`: the exponent without plus sign and leading zeros. -/
def stripExponent (buffer : Bytes) : Bytes :=
  match buffer.dropWhile (· ≠ 101) with
  | [] => buffer
  | e :: rest =>
    buffer.takeWhile (· ≠ 101) ++
      e :: ((if rest.head? = some 45 then [45] else []) ++ (rest.drop 1).dropWhile (· = 48))

/-- `jsonp_dtostr(buffer, size, value)`, from what `snprintf` prints. -/
def jsonpDtostr (size : ℕ) (printed : Bytes) : Option Bytes :=
  if size ≤ printed.length then none
  else if 46 ∉ printed ∧ 101 ∉ printed then
    if size ≤ printed.length + 3 then none else some (stripExponent (printed ++ [46, 48]))
  else some (stripExponent printed)

/-- `MAX_REAL_STR_LENGTH`. -/
def maxRealStrLength : ℕ := 100

/-- What `do_dump` prints for a real, from what `snprintf` prints; on a failure the printer prints
nothing. -/
def realText (sprintf17g : FiniteDouble → Bytes) (x : FiniteDouble) : Bytes :=
  (jsonpDtostr maxRealStrLength (sprintf17g x)).getD []

/-! ## Shapes -/

/-- What `printf` prints for a finite double under `%.17g`: digits, a fraction if there is one,
and an exponent of at least two digits, not all zero, if the number is large or small. -/
structure PrintedReal (printed : Bytes) : Prop where
  shape : ∃ sign digits fraction exponent, printed = sign ++ digits ++ fraction ++ exponent ∧
    IntegerDigits sign digits ∧ FractionText fraction ∧
    (exponent = [] ∨ ∃ s digits, (s = 43 ∨ s = 45) ∧ (∀ b ∈ digits, lIsDigit b = true) ∧
      (∃ b ∈ digits, b ≠ 48) ∧ exponent = 101 :: s :: digits)
  length_le : printed.length ≤ 24

/-- A real of the JSON grammar, with an exponent as `jsonp_dtostr` leaves it. -/
def RealText (text : Bytes) : Prop :=
  ∃ sign digits fraction exponent, text = sign ++ (digits ++ (fraction ++ exponent)) ∧
    IntegerDigits sign digits ∧ FractionText fraction ∧
    (exponent = [] ∨ ∃ sign digits, (sign = [] ∨ sign = [45]) ∧ digits ≠ [] ∧
      (∀ b ∈ digits, lIsDigit b = true) ∧ exponent = 101 :: (sign ++ digits)) ∧
    (fraction ≠ [] ∨ exponent ≠ [])

theorem IntegerDigits.not_mem {sign digits : Bytes} (h : IntegerDigits sign digits) :
    46 ∉ sign ++ digits ∧ 101 ∉ sign ++ digits := by
  have hmem : ∀ b, lIsDigit b = false → b ≠ 45 → b ∉ sign ++ digits := by
    intro b hb hne hmem
    rcases List.mem_append.mp hmem with hmem | hmem
    · rcases h.minus with rfl | rfl
      · exact absurd hmem (by simp)
      · exact hne (List.mem_singleton.mp hmem)
    · exact absurd (h.all_digits b hmem) (by simp [hb])
  exact ⟨hmem 46 (by decide) (by decide), hmem 101 (by decide) (by decide)⟩

theorem FractionText.not_mem {fraction : Bytes} (h : FractionText fraction) : 101 ∉ fraction := by
  rcases h with rfl | ⟨digits, -, hall, rfl⟩
  · simp
  · rw [List.mem_cons, not_or]
    exact ⟨by decide, fun hmem => absurd (hall 101 hmem) (by decide)⟩

/-- Nothing is stripped where there is no exponent. -/
theorem stripExponent_of_not_mem {buffer : Bytes} (h : 101 ∉ buffer) :
    stripExponent buffer = buffer := by
  have hdrop : buffer.dropWhile (· ≠ 101) = [] := by
    rw [List.dropWhile_eq_nil_iff]
    intro b hb
    rw [decide_eq_true_eq]
    rintro rfl
    exact h hb
  rw [stripExponent, hdrop]

theorem stripExponent_append {mantissa rest : Bytes} (h : 101 ∉ mantissa) :
    stripExponent (mantissa ++ 101 :: rest) = mantissa ++
      101 :: ((if rest.head? = some 45 then [45] else []) ++ (rest.drop 1).dropWhile (· = 48)) := by
  have hall : ∀ b ∈ mantissa, decide (b ≠ 101) = true := by
    intro b hb
    rw [decide_eq_true_eq]
    rintro rfl
    exact h hb
  have hdrop : (mantissa ++ 101 :: rest).dropWhile (· ≠ 101) = 101 :: rest := by
    rw [List.dropWhile_append_of_pos hall]
    rfl
  have htake : (mantissa ++ 101 :: rest).takeWhile (· ≠ 101) = mantissa := by
    rw [List.takeWhile_append_of_pos hall]
    exact List.append_nil _
  rw [stripExponent, hdrop, htake]

/-- **What `jsonp_dtostr` prints** is a real of the grammar, and it always has the room. -/
theorem jsonpDtostr_real {printed : Bytes} (h : PrintedReal printed) :
    ∃ text, jsonpDtostr maxRealStrLength printed = some text ∧ RealText text := by
  obtain ⟨⟨sign, digits, fraction, exponent, rfl, hdigits, hfraction, hexponent⟩, hlen⟩ := h
  obtain ⟨hpoint, hexp⟩ := hdigits.not_mem
  have hmantissa : 101 ∉ sign ++ digits ++ fraction := by
    rw [List.mem_append, not_or]
    exact ⟨hexp, hfraction.not_mem⟩
  rw [jsonpDtostr, maxRealStrLength, if_neg (by omega)]
  split
  · -- neither a point nor an exponent
    next hnone =>
    rw [if_neg (by omega)]
    obtain rfl : exponent = [] := by
      rcases hexponent with rfl | ⟨s, ds, -, -, -, rfl⟩
      · rfl
      · exact absurd hnone.2 (by simp)
    obtain rfl : fraction = [] := by
      rcases hfraction with rfl | ⟨ds, -, -, rfl⟩
      · rfl
      · exact absurd hnone.1 (by simp)
    rw [stripExponent_of_not_mem (by simpa using hexp)]
    refine ⟨_, rfl, sign, digits, [46, 48], [], by simp, hdigits, .inr ⟨[48], by simp, ?_, rfl⟩,
      .inl rfl, .inl (by simp)⟩
    simp [lIsDigit]
  · next hsome =>
    rcases hexponent with rfl | ⟨s, ds, hs, hall, ⟨b, hb, hne⟩, rfl⟩
    · rw [stripExponent_of_not_mem (by simpa using hmantissa)]
      refine ⟨_, rfl, sign, digits, fraction, [], by simp, hdigits, hfraction, .inl rfl, .inl ?_⟩
      rintro rfl
      simp only [List.append_nil] at hsome
      exact hsome ⟨hpoint, hexp⟩
    · rw [stripExponent_append hmantissa, List.drop_succ_cons, List.drop_zero]
      refine ⟨_, rfl, sign, digits, fraction, _, by rw [List.append_assoc, List.append_assoc],
        hdigits, hfraction, .inr ⟨if (s :: ds).head? = some 45 then [45] else [],
          ds.dropWhile (· = 48), ?_, ?_, ?_, rfl⟩, .inr (by simp)⟩
      · rcases hs with rfl | rfl
        · exact .inl rfl
        · exact .inr rfl
      · intro hnil
        rw [List.dropWhile_eq_nil_iff] at hnil
        exact hne (by simpa using hnil b hb)
      · intro c hc
        exact hall c ((List.dropWhile_sublist _).mem hc)

/-! ## Reading -/

section

variable {saved text : Bytes}

/-- The digits behind a byte that is saved are passed over. -/
theorem Front.digits {r : StreamChar × Lex} {b : UInt8} {digits : Bytes}
    (h : Front r saved (b :: (digits ++ text))) (hall : ∀ d ∈ digits, lIsDigit d = true)
    (htext : text.head?.any lIsDigit = false) :
    Front (lexDigits r.2) (saved ++ b :: digits) text := by
  have hrun := h.next.while hall htext
  rwa [List.append_assoc] at hrun

/-- The fraction is passed over. -/
theorem Front.fraction {r : StreamChar × Lex} {fraction : Bytes}
    (h : Front r saved (fraction ++ text)) (hfraction : FractionText fraction)
    (htext : text.head?.any lIsDigit = false) (hpoint : text.head? ≠ some 46) :
    ∃ r', lexFraction r.1 r.2 = .ok r' ∧ Front r' (saved ++ fraction) text := by
  rcases hfraction with rfl | ⟨digits, hne, hall, rfl⟩
  · refine ⟨r, ?_, by simpa using h⟩
    rw [lexFraction, if_neg (h.ne_byte hpoint)]
    rfl
  · obtain ⟨d, ds, rfl⟩ := List.exists_cons_of_ne_nil hne
    rw [List.forall_mem_cons] at hall
    have hnext := h.next
    refine ⟨lexDigits (lexGetSave r.2).2, ?_, ?_⟩
    · have hdigit : (lexGet r.2).1.is lIsDigit = true := (hnext.is lIsDigit).trans hall.1
      rw [lexFraction, if_pos h.byte]
      exact if_pos hdigit
    · have hdigits := hnext.digits hall.2 htext
      rwa [List.append_assoc] at hdigits

/-- The exponent is passed over. -/
theorem Front.exponent {r : StreamChar × Lex} {sign digits : Bytes}
    (h : Front r saved (101 :: (sign ++ digits) ++ text)) (hsign : sign = [] ∨ sign = [45])
    (hne : digits ≠ []) (hall : ∀ b ∈ digits, lIsDigit b = true)
    (htext : text.head?.any lIsDigit = false) :
    ∃ r', lexExponent r.1 r.2 = .ok r' ∧ Front r' (saved ++ 101 :: (sign ++ digits)) text := by
  obtain ⟨d, ds, rfl⟩ := List.exists_cons_of_ne_nil hne
  rw [List.forall_mem_cons] at hall
  have hnext := h.next
  rw [lexExponent, if_pos (.inr h.byte)]
  rcases hsign with rfl | rfl
  · have hplus : ¬ ((lexGetSave r.2).1 = .byte 43 ∨ (lexGetSave r.2).1 = .byte 45) := by
      rw [hnext.byte]
      rintro (hd | hd) <;> obtain rfl := StreamChar.byte.inj hd <;> exact absurd hall.1 (by decide)
    refine ⟨lexDigits (lexGetSave r.2).2, ?_, ?_⟩
    · dsimp only
      rw [if_neg hplus, if_pos (by rw [hnext.is]; simpa using hall.1)]
    · have hdigits := hnext.digits hall.2 htext
      rwa [List.append_assoc] at hdigits
  · have hminus := hnext.next
    refine ⟨lexDigits (lexGetSave (lexGetSave r.2).2).2, ?_, ?_⟩
    · have hsigned : (lexGetSave r.2).1 = .byte 43 ∨ (lexGetSave r.2).1 = .byte 45 :=
        .inr hnext.byte
      dsimp only
      rw [if_pos hsigned, if_pos (by rw [hminus.is]; simpa using hall.1)]
    · have hdigits := hminus.digits hall.2 htext
      rwa [List.append_assoc, List.append_assoc] at hdigits

end

/-- **A real** of the grammar is read as one token. -/
theorem reread_real {strtod : Bytes → Strtod} {lex : Lex} {real text : Bytes}
    {x : Datum double} (hreal : RealText real) (hx : jsonpStrtod strtod real = .ok x)
    (h : Before lex.stream (real ++ text)) (hends : TokenEnds text) :
    Rereads strtod lex (.real x) text := by
  obtain ⟨sign, digits, fraction, exponent, rfl, hdigits, hfraction, hexponent, hsome⟩ := hreal
  obtain ⟨hsign, hne, hall, hhead⟩ := hdigits
  simp only [List.append_assoc] at h
  obtain ⟨r, hfront, hscan⟩ := lexScan_number strtod h hsign hne hall
  -- what stands behind the fraction, and behind the integer digits
  have hbehind : (exponent ++ text).head?.any lIsDigit = false ∧
      (exponent ++ text).head? ≠ some 46 := by
    rcases hexponent with rfl | ⟨s, ds, -, -, -, rfl⟩
    · exact ⟨hends.not_digit, hends.ne (by decide)⟩
    · exact ⟨by simp [lIsDigit], by simp⟩
  have hmiddle : (fraction ++ (exponent ++ text)).head?.any lIsDigit = false := by
    rcases hfraction with rfl | ⟨ds, -, -, rfl⟩
    · exact hbehind.1
    · simp [lIsDigit]
  obtain ⟨r', hpart, hfront'⟩ := hfront.integerPart hsign hne hall hhead hmiddle
  have hreal : ¬ (r'.1 ≠ .byte 46 ∧ r'.1 ≠ .byte 69 ∧ r'.1 ≠ .byte 101) := by
    rintro ⟨hpoint, -, he⟩
    rcases hfraction with rfl | ⟨ds, -, -, rfl⟩
    · rcases hexponent with rfl | ⟨s, ds, -, -, -, rfl⟩
      · exact hsome.elim (fun h => h rfl) fun h => h rfl
      · exact he hfront'.byte
    · exact hpoint hfront'.byte
  obtain ⟨r₂, hr₂, hfront₂⟩ := hfront'.fraction hfraction hbehind.1 hbehind.2
  obtain ⟨r₃, hr₃, hfront₃⟩ : ∃ r₃, lexExponent r₂.1 r₂.2 = .ok r₃ ∧
      Front r₃ (sign ++ digits ++ fraction ++ exponent) text := by
    rcases hexponent with rfl | ⟨s, ds, hs, hds, hall', rfl⟩
    · refine ⟨r₂, ?_, by simpa using hfront₂⟩
      have hnone : ¬ (r₂.1 = .byte 69 ∨ r₂.1 = .byte 101) := by
        rintro (he | he)
        · exact hfront₂.ne_byte (hends.ne (by decide)) he
        · exact hfront₂.ne_byte (hends.ne (by decide)) he
      rw [lexExponent, if_neg hnone]
    · exact hfront₂.exponent hs hds hall' hends.not_digit
  obtain ⟨lex', hunget, hbefore, hsaved⟩ := hfront₃.unget (hends.ne (by decide))
  refine ⟨lex', ?_, hbefore⟩
  have htext : sign ++ digits ++ fraction ++ exponent =
      sign ++ (digits ++ (fraction ++ exponent)) := by
    rw [List.append_assoc, List.append_assoc]
  rw [hscan, lexScanNumber, hpart, ok_bind, if_neg hreal, hr₂, ok_bind, hr₃, ok_bind, hunget,
    ok_bind, hsaved, htext, hx]
  rfl

end Libpomelo
