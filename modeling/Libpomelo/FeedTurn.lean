import Libpomelo.PackageStream

/-!
# One turn of the feed loop

With an allocator that may fail and a callback that may change the parser under the
loop, one turn of `pc_pkg_parser_feed` does one of two things: it only stores bytes, and
then it is the last turn (`FeedTurn.keeps`), or it completes a package, calls back and
resets the parser, and what follows depends on the bytes behind the package alone
(`FeedTurn.delivers`).
-/

namespace Libpomelo

/-- The parser between two turns of the loop: inside a head, or inside a body of which bytes
are missing. A head may be complete when the body could not be allocated. -/
structure PkgParser.Sound (p : PkgParser) : Prop where
  headSize : p.headSize = pkgHeadBytes
  headBuf : p.headBuf.length = pkgHeadBytes
  state :
    (p.state = .head ∧ p.headOffset ≤ pkgHeadBytes ∧
      (p.headOffset = pkgHeadBytes → 0 < p.bodyLen)) ∨
    (p.state = .body ∧ p.pkgOffset < p.pkgSize)

theorem PkgParser.AtRest.sound {p : PkgParser} (h : p.AtRest) : p.Sound := by
  obtain ⟨hsize, hbuf, hstate, hoffset, -, -, -⟩ := h
  refine ⟨hsize, hbuf, .inl ⟨hstate, by omega, fun hfull => ?_⟩⟩
  rw [hoffset] at hfull
  exact absurd hfull (by decide)

/-- A reset parser is at rest. -/
theorem pkgParserReset_atRest {p : PkgParser} (hstate : p.state ≠ .closed)
    (hsize : p.headSize = pkgHeadBytes) (hbuf : p.headBuf.length = pkgHeadBytes) :
    (pkgParserReset p).AtRest := by
  rw [pkgParserReset, if_neg hstate]
  exact ⟨hsize, hbuf, rfl, rfl, rfl, rfl, rfl⟩

theorem PkgParser.Sound.not_closed {p : PkgParser} (h : p.Sound) : p.state ≠ .closed := by
  obtain ⟨hstate, -⟩ | ⟨hstate, -⟩ := h.state
  · rw [hstate]
    decide
  · rw [hstate]
    decide

theorem PkgParser.Sound.reset {p : PkgParser} (h : p.Sound) : (pkgParserReset p).AtRest :=
  pkgParserReset_atRest h.not_closed h.headSize h.headBuf

/-! ## Heads -/

theorem storeHead_headBuf {p : PkgParser} {data : Bytes} (hsound : p.Sound)
    (h : p.headOffset + data.length ≤ p.headSize) :
    (storeHead p data).headBuf.length = pkgHeadBytes := by
  have hsize := hsound.headSize
  have hbuf := hsound.headBuf
  rw [storeHead, length_memcpy (by omega)]
  exact hbuf

/-- Too few bytes to complete the head are stored. -/
theorem pkgHead_stores {ms : List Bool} {p : PkgParser} {data : Bytes}
    (h : p.headOffset + data.length < p.headSize) :
    pkgHead ms p data = (storeHead p data, some [], ms) := by
  have hmin : min (p.headSize - p.headOffset) data.length = data.length := by omega
  simp only [pkgHead, hmin]
  rw [if_neg (by omega), List.take_of_length_le le_rfl, List.drop_of_length_le le_rfl]
  rfl

/-- The bytes that complete the head, whatever follows them: the body is allocated unless it
is empty. -/
theorem pkgHead_completes {ms : List Bool} {p : PkgParser} {used : Bytes} (tail : Bytes)
    (h : p.headOffset + used.length = p.headSize) :
    pkgHead ms p (used ++ tail) =
      if 0 < (storeHead p used).bodyLen then
        if (malloc ms).1 then (openBody (storeHead p used), some tail, (malloc ms).2)
        else ({ storeHead p used with pkgBuf := .null }, none, (malloc ms).2)
      else (openBody (storeHead p used), some tail, ms) := by
  have hmin : min (p.headSize - p.headOffset) (used ++ tail).length = used.length := by
    rw [List.length_append]
    omega
  simp only [pkgHead, hmin, List.take_left', List.drop_left', h, if_true]
  simp only [openBody, storeHead, h]
  split
  · split <;> rfl
  · rfl

section Turn

variable {σ : Type*} {host : PkgHost σ}

/-- The callback for the complete package of `p`, and the reset behind it. -/
def PkgHost.deliver (host : PkgHost σ) (s : σ) (p : PkgParser) : σ :=
  let s := host.cb p.type p.pkgBuf p.pkgSize (host.setParser s p)
  host.setParser s (pkgParserReset (host.parser s))

/-- The parser is a field of its host. -/
structure PkgHost.Lawful (host : PkgHost σ) : Prop where
  get : ∀ s p, host.parser (host.setParser s p) = p
  set : ∀ s p q, host.setParser (host.setParser s p) q = host.setParser s q
  same : ∀ s, host.setParser s (host.parser s) = s

/-! ## Bodies -/

/-- Too few bytes to complete the body are stored. -/
theorem pkgBody_stores {s : σ} {data : Bytes}
    (h : (host.parser s).pkgOffset + data.length < (host.parser s).pkgSize) :
    ∃ buf, pkgBody host s data = (host.setParser s { host.parser s with
      pkgBuf := buf, pkgOffset := (host.parser s).pkgOffset + data.length }, []) := by
  have hmin : min ((host.parser s).pkgSize - (host.parser s).pkgOffset) data.length =
      data.length := by omega
  by_cases hpos : 0 < data.length
  · refine ⟨(host.parser s).pkgBuf.write (host.parser s).pkgOffset data, ?_⟩
    simp only [pkgBody, hmin, hpos, if_true]
    rw [if_neg (by omega), List.take_of_length_le le_rfl, List.drop_of_length_le le_rfl]
  · have hnil : data = [] := List.eq_nil_of_length_eq_zero (by omega)
    subst hnil
    refine ⟨(host.parser s).pkgBuf, ?_⟩
    simp only [List.length_nil, Nat.add_zero] at h
    simp [pkgBody, Nat.ne_of_lt h]

/-- The bytes that complete the body, whatever follows them. -/
theorem pkgBody_completes {s : σ} {used : Bytes}
    (h : (host.parser s).pkgOffset + used.length = (host.parser s).pkgSize) :
    ∃ buf, ∀ tail, pkgBody host s (used ++ tail) = (host.deliver s { host.parser s with
      pkgBuf := buf, pkgOffset := (host.parser s).pkgSize }, tail) := by
  have hmin : ∀ tail : Bytes, min ((host.parser s).pkgSize - (host.parser s).pkgOffset)
      (used ++ tail).length = used.length := by
    intro tail
    rw [List.length_append]
    omega
  by_cases hpos : 0 < used.length
  · refine ⟨(host.parser s).pkgBuf.write (host.parser s).pkgOffset used, fun tail => ?_⟩
    simp only [pkgBody, hmin, hpos, if_true, h, List.take_left', List.drop_left']
    rfl
  · have hnil : used = [] := List.eq_nil_of_length_eq_zero (by omega)
    subst hnil
    refine ⟨(host.parser s).pkgBuf, fun tail => ?_⟩
    rw [List.length_nil, Nat.add_zero] at h
    have hsame : { host.parser s with pkgOffset := (host.parser s).pkgSize } = host.parser s := by
      rw [← h]
    simp [pkgBody, PkgHost.deliver, h, hsame]

/-! ## Turns -/

/-- **One turn of the loop** at the unread bytes `data`. -/
inductive FeedTurn (host : PkgHost σ) (ms : List Bool) (s : σ) (data : Bytes) : Prop where
  /-- bytes were stored, and the loop ends -/
  | keeps (rc : ℤ) (p : PkgParser) : p.Sound → ¬ p.AtRest →
      (∀ fuel, feedLoop host (fuel + 1) ms s data = some (rc, host.setParser s p)) →
      FeedTurn host ms s data
  /-- the bytes `used` completed a package -/
  | delivers (used rest : Bytes) (ms' : List Bool) (p : PkgParser) : data = used ++ rest →
      used ≠ [] → p.state ≠ .closed → p.headSize = pkgHeadBytes →
      p.headBuf.length = pkgHeadBytes →
      (∀ tail fuel, feedLoop host (fuel + 1) ms s (used ++ tail) =
        if (host.parser (host.deliver s p)).state = .closed then some (0, host.deliver s p)
        else feedLoop host fuel ms' (host.deliver s p) tail) →
      FeedTurn host ms s data

theorem feedLoop_turn {ms ms' : List Bool} {s s' : σ} {data rest : Bytes} (hne : data ≠ [])
    (hhead : feedHead host ms s data = (s', some rest, ms')) (fuel : ℕ) :
    feedLoop host (fuel + 1) ms s data =
      if (host.parser (feedBody host s' rest).1).state = .closed then
        some (0, (feedBody host s' rest).1)
      else feedLoop host fuel ms' (feedBody host s' rest).1 (feedBody host s' rest).2 := by
  cases data with
  | nil => exact absurd rfl hne
  | cons b bs => rw [feedLoop, hhead]

theorem feedLoop_nil (fuel : ℕ) (ms : List Bool) (s : σ) : feedLoop host fuel ms s [] = some (0, s) := by
  cases fuel <;> rfl

theorem deliver_set (hl : host.Lawful) (s : σ) (p q : PkgParser) :
    host.deliver (host.setParser s p) q = host.deliver s q := by
  rw [PkgHost.deliver, PkgHost.deliver, hl.set]

/-- The turn once the parser is inside a body, at the bytes `rest` behind the bytes `front`
that brought it there. -/
theorem feedTurn_body (hl : host.Lawful) {ms ms' : List Bool} {s : σ} {p : PkgParser}
    {front rest : Bytes} (hstate : p.state = .body) (hsize : p.headSize = pkgHeadBytes)
    (hbuf : p.headBuf.length = pkgHeadBytes) (hle : p.pkgOffset ≤ p.pkgSize)
    (hne : front ++ rest ≠ []) (hprogress : front = [] → p.pkgOffset < p.pkgSize)
    (hhead : ∀ tail, front ++ tail ≠ [] →
      feedHead host ms s (front ++ tail) = (host.setParser s p, some tail, ms')) :
    FeedTurn host ms s (front ++ rest) := by
  have hget : host.parser (host.setParser s p) = p := hl.get s p
  have hbody : ∀ tail, feedBody host (host.setParser s p) tail =
      pkgBody host (host.setParser s p) tail := by
    intro tail
    rw [feedBody, if_pos (by rw [hget]; exact hstate)]
  by_cases hshort : p.pkgOffset + rest.length < p.pkgSize
  · -- the body stays incomplete
    have hshort' : (host.parser (host.setParser s p)).pkgOffset + rest.length <
        (host.parser (host.setParser s p)).pkgSize := by rwa [hget]
    obtain ⟨buf, hstores⟩ := pkgBody_stores hshort'
    rw [hget, hl.set] at hstores
    refine .keeps 0 { p with pkgBuf := buf, pkgOffset := p.pkgOffset + rest.length }
      ⟨hsize, hbuf, .inr ⟨hstate, hshort⟩⟩ ?_ fun fuel => ?_
    · rintro ⟨-, -, hhead', -⟩
      exact absurd (hstate.symm.trans hhead') (by decide)
    · rw [feedLoop_turn hne (hhead rest hne), hbody, hstores]
      dsimp only
      rw [hl.get, if_neg (by rw [hstate]; decide), feedLoop_nil]
  · -- the rest of the body is there
    set used := rest.take (p.pkgSize - p.pkgOffset) with hused
    have hfull : (host.parser (host.setParser s p)).pkgOffset + used.length =
        (host.parser (host.setParser s p)).pkgSize := by
      rw [hget, hused, List.length_take]
      omega
    obtain ⟨buf, hcompletes⟩ := pkgBody_completes hfull
    rw [hget, deliver_set hl] at hcompletes
    have hused_ne : front ++ used ≠ [] := by
      intro hnil
      obtain ⟨hfront, hnil⟩ := List.append_eq_nil_iff.mp hnil
      have hpos := hprogress hfront
      have hlen := congrArg List.length hnil
      rw [hused, List.length_take, List.length_nil] at hlen
      omega
    refine .delivers (front ++ used) (rest.drop (p.pkgSize - p.pkgOffset)) ms'
      { p with pkgBuf := buf, pkgOffset := p.pkgSize } ?_ hused_ne ?_ hsize hbuf
      fun tail fuel => ?_
    · rw [List.append_assoc, hused, List.take_append_drop]
    · rw [hstate]
      decide
    · have hne' : front ++ (used ++ tail) ≠ [] := by
        rw [← List.append_assoc]
        exact List.append_ne_nil_of_left_ne_nil hused_ne tail
      rw [List.append_assoc, feedLoop_turn hne' (hhead _ hne'), hbody, hcompletes]

/-- The turn of a parser whose head stays incomplete. -/
theorem feedTurn_short (hl : host.Lawful) {ms : List Bool} {s : σ} {data : Bytes}
    (hsound : (host.parser s).Sound) (hstate : (host.parser s).state = .head) (hne : data ≠ [])
    (hshort : (host.parser s).headOffset + data.length < (host.parser s).headSize) :
    FeedTurn host ms s data := by
  have hpos : 0 < data.length := List.length_pos_of_ne_nil hne
  have hsize := hsound.headSize
  set p := storeHead (host.parser s) data with hp
  have hhead : feedHead host ms s data = (host.setParser s p, some [], ms) := by
    rw [feedHead, if_pos hstate, pkgHead_stores hshort]
  have hinside : p.state = .head := hstate
  have hoffset : p.headOffset = (host.parser s).headOffset + data.length := rfl
  refine .keeps 0 p ⟨hsize, storeHead_headBuf hsound hshort.le, .inl ⟨hinside, ?_, ?_⟩⟩ ?_
    fun fuel => ?_
  · omega
  · omega
  · rintro ⟨-, -, -, hzero, -⟩
    omega
  · have hbody : feedBody host (host.setParser s p) [] = (host.setParser s p, []) := by
      rw [feedBody, hl.get, hinside, if_neg (by decide)]
    rw [feedLoop_turn hne hhead, hbody]
    dsimp only
    rw [hl.get, hinside, if_neg (by decide), feedLoop_nil]

/-- The turn of a parser whose head the bytes `front` complete. -/
theorem feedTurn_full (hl : host.Lawful) {ms : List Bool} {s : σ} {front rest : Bytes}
    (hsound : (host.parser s).Sound) (hstate : (host.parser s).state = .head)
    (hne : front ++ rest ≠ [])
    (hfull : (host.parser s).headOffset + front.length = (host.parser s).headSize) :
    FeedTurn host ms s (front ++ rest) := by
  have hsize := hsound.headSize
  have hbuf : (storeHead (host.parser s) front).headBuf.length = pkgHeadBytes :=
    storeHead_headBuf hsound hfull.le
  set p := storeHead (host.parser s) front with hp
  have hhead : ∀ tail, feedHead host ms s (front ++ tail) = _ := fun tail => by
    rw [feedHead, if_pos hstate, pkgHead_completes tail hfull]
  have hsize' : (openBody p).pkgSize = p.bodyLen := rfl
  have hoffset' : (openBody p).pkgOffset = 0 := rfl
  by_cases hlen : 0 < p.bodyLen
  · cases hmalloc : (malloc ms).1 with
    | false =>
      -- the body could not be allocated
      have hfour : p.headOffset = pkgHeadBytes := hfull.trans hsize
      refine .keeps (-1) { p with pkgBuf := .null }
        ⟨hsize, hbuf, .inl ⟨hstate, hfour.le, fun _ => hlen⟩⟩ ?_ fun fuel => ?_
      · rintro ⟨-, -, -, hzero, -⟩
        exact absurd (hfour.symm.trans hzero) (by decide)
      · have hfail := hhead rest
        rw [if_pos hlen, hmalloc, if_neg Bool.false_ne_true] at hfail
        generalize front ++ rest = data at hne hfail
        cases data with
        | nil => exact absurd rfl hne
        | cons b bs => rw [feedLoop, hfail]
    | true =>
      have hopen : ∀ tail, front ++ tail ≠ [] → feedHead host ms s (front ++ tail) =
          (host.setParser s (openBody p), some tail, (malloc ms).2) := by
        intro tail _
        rw [hhead tail, if_pos hlen, hmalloc, if_pos rfl]
      exact feedTurn_body (p := openBody p) hl rfl hsize hbuf (by omega) hne (fun _ => by omega) hopen
  · have hopen : ∀ tail, front ++ tail ≠ [] → feedHead host ms s (front ++ tail) =
        (host.setParser s (openBody p), some tail, ms) := by
      intro tail _
      rw [hhead tail, if_neg hlen]
    refine feedTurn_body (p := openBody p) hl rfl hsize hbuf (by omega) hne (fun hnil => ?_) hopen
    -- a complete head was left by an allocation that failed, so its body is not empty
    rw [hnil, List.length_nil, Nat.add_zero, hsize] at hfull
    have hsame : p.bodyLen = (host.parser s).bodyLen := by
      rw [hp, hnil, PkgParser.bodyLen, storeHead, memcpy_nil, PkgParser.bodyLen]
    obtain ⟨-, -, hbody⟩ | ⟨hin, -⟩ := hsound.state
    · rw [hsame] at hlen
      exact absurd (hbody hfull) hlen
    · exact absurd (hstate.symm.trans hin) (by decide)

/-- **Every turn of a sound parser** is one of these. -/
theorem feedTurn_of_sound (hl : host.Lawful) {ms : List Bool} {s : σ} {data : Bytes}
    (hsound : (host.parser s).Sound) (hne : data ≠ []) : FeedTurn host ms s data := by
  obtain ⟨hstate, hle, -⟩ | ⟨hstate, hlt⟩ := hsound.state
  · by_cases hshort : (host.parser s).headOffset + data.length < (host.parser s).headSize
    · exact feedTurn_short hl hsound hstate hne hshort
    · have hsize := hsound.headSize
      set n := (host.parser s).headSize - (host.parser s).headOffset with hn
      have hsplit : data = data.take n ++ data.drop n := (List.take_append_drop n data).symm
      rw [hsplit] at hne ⊢
      apply feedTurn_full hl hsound hstate hne
      rw [List.length_take]
      omega
  · have hhead : ∀ tail, [] ++ tail ≠ [] → feedHead host ms s ([] ++ tail) =
        (host.setParser s (host.parser s), some tail, ms) := by
      intro tail _
      rw [hl.same, List.nil_append, feedHead, if_neg (by rw [hstate]; decide)]
    have hne' : [] ++ data ≠ [] := hne
    exact feedTurn_body hl hstate hsound.headSize hsound.headBuf hlt.le hne' (fun _ => hlt) hhead

end Turn

end Libpomelo
