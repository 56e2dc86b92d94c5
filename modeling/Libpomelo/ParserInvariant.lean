import Libpomelo.FeedTurn
import Libpomelo.Lts

/-!
# The parser invariant

Five fields and one allocation of the parser belong together (`PkgParser.Fit`): inside a
head there is no body block, and inside a body the block has the announced size and at
least one byte is missing. Within a turn of the feed loop the invariant is open: between
`pc__pkg_head` and `pc__pkg_body` the body may be complete (`PkgParser.Filling`).

* `fitTurn_of_fit` says what a turn does to a fit parser: it fails, it ends the loop, or
  it consumes a byte.
* `feedLoop_fit` and `feedLoop_returns` carry it through the loop, for any property of the
  host that the setter and the callback keep (`PkgHost.Keeps`).
* `pkgParser_invariant` is about every run of feeds, resets and closes.
-/

namespace Libpomelo

/-! ## The length in a head -/

/-- Digits added up in base 256 stay below the power of their number. -/
theorem foldl_base256_lt (bs : Bytes) (n : ℕ) :
    bs.foldl (fun n b => n * 0x100 + b.toNat) n < (n + 1) * 0x100 ^ bs.length := by
  induction bs generalizing n with
  | nil => simp
  | cons b bs ih =>
    have hb : b.toNat < 0x100 := b.toNat_lt
    calc bs.foldl (fun n b => n * 0x100 + b.toNat) (n * 0x100 + b.toNat)
        < (n * 0x100 + b.toNat + 1) * 0x100 ^ bs.length := ih _
      _ ≤ ((n + 1) * 0x100) * 0x100 ^ bs.length := Nat.mul_le_mul_right _ (by omega)
      _ = (n + 1) * 0x100 ^ (b :: bs).length := by
        rw [List.length_cons, Nat.pow_succ, Nat.mul_assoc, Nat.mul_comm 0x100]

theorem PkgParser.bodyLen_lt (p : PkgParser) : p.bodyLen < 2 ^ 24 := by
  have hlen : ((p.headBuf.drop 1).take pkgBodyLenBytes).length ≤ 3 := by
    rw [List.length_take]
    exact Nat.min_le_left _ _
  calc p.bodyLen < (0 + 1) * 0x100 ^ ((p.headBuf.drop 1).take pkgBodyLenBytes).length :=
        foldl_base256_lt _ 0
    _ ≤ (0 + 1) * 0x100 ^ 3 := Nat.mul_le_mul_left _ (Nat.pow_le_pow_right (by decide) hlen)
    _ = 2 ^ 24 := by decide

/-! ## The invariant -/

/-- The head buffer and its two counters. -/
structure PkgParser.HeadFits (p : PkgParser) : Prop where
  headSize : p.headSize = pkgHeadBytes
  headBuf : p.headBuf.length = pkgHeadBytes
  headOffset : p.headOffset ≤ pkgHeadBytes

/-- **The parser between two calls.** A head may be complete when its body could not be
allocated. -/
structure PkgParser.Fit (p : PkgParser) : Prop extends p.HeadFits where
  head : p.state = .head → p.pkgBuf = .null ∧ (p.headOffset = pkgHeadBytes → 0 < p.bodyLen)
  body : p.state = .body → p.headOffset = pkgHeadBytes ∧ p.pkgSize = p.bodyLen ∧
    0 < p.pkgSize ∧ p.pkgSize < 2 ^ 24 ∧ p.pkgOffset < p.pkgSize ∧
    ∃ b, p.pkgBuf = .own b ∧ b.length = p.pkgSize

/-- The parser behind `pc__pkg_head`: a body that may be empty or complete. -/
structure PkgParser.Filling (p : PkgParser) : Prop extends p.HeadFits where
  state : p.state = .body
  full : p.headOffset = pkgHeadBytes
  size : p.pkgSize = p.bodyLen
  offset : p.pkgOffset ≤ p.pkgSize
  empty : p.pkgSize = 0 → p.pkgBuf = .null
  buf : 0 < p.pkgSize → ∃ b, p.pkgBuf = .own b ∧ b.length = p.pkgSize

/-- No head is waiting for the memory of its body. -/
def PkgParser.Resting (p : PkgParser) : Prop := p.state = .head → p.headOffset < pkgHeadBytes

theorem PkgParser.Filling.fit {p : PkgParser} (h : p.Filling) (hlt : p.pkgOffset < p.pkgSize) :
    p.Fit where
  toHeadFits := h.toHeadFits
  head hstate := absurd (h.state.symm.trans hstate) (by decide)
  body _ := ⟨h.full, h.size, by omega, h.size ▸ p.bodyLen_lt, hlt, h.buf (by omega)⟩

theorem PkgParser.Fit.filling {p : PkgParser} (h : p.Fit) (hstate : p.state = .body) :
    p.Filling := by
  obtain ⟨hfull, hsize, hpos, -, hlt, hbuf⟩ := h.body hstate
  exact ⟨h.toHeadFits, hstate, hfull, hsize, hlt.le, fun hzero => absurd hzero hpos.ne',
    fun _ => hbuf⟩

/-- What a callback may do to the parser: reset it and close it. -/
def PkgParser.Touched : PkgParser → PkgParser → Prop :=
  Relation.ReflTransGen fun p q => q = pkgParserReset p ∨ q = pkgParserClose p

theorem PkgParser.HeadFits.reset {p : PkgParser} (h : p.HeadFits) : (pkgParserReset p).HeadFits := by
  rw [pkgParserReset]
  split
  · exact h
  · exact ⟨h.headSize, h.headBuf, Nat.zero_le _⟩

theorem PkgParser.HeadFits.close {p : PkgParser} (h : p.HeadFits) : (pkgParserClose p).HeadFits := by
  rw [pkgParserClose]
  split
  · exact h
  · exact ⟨h.headSize, h.headBuf, h.headOffset⟩

theorem PkgParser.HeadFits.touched {p q : PkgParser} (h : p.HeadFits) (htouched : p.Touched q) :
    q.HeadFits := by
  refine preserved_of_reflTransGen (fun p q hp hpq => ?_) htouched h
  rcases hpq with rfl | rfl
  · exact hp.reset
  · exact hp.close

/-- A reset parser is fit, and rests. -/
theorem PkgParser.HeadFits.reset_fit {p : PkgParser} (h : p.HeadFits) :
    (pkgParserReset p).Fit ∧ (pkgParserReset p).Resting := by
  by_cases hclosed : p.state = .closed
  · have hsame : pkgParserReset p = p := if_pos hclosed
    rw [hsame]
    refine ⟨⟨h, fun hstate => ?_, fun hstate => ?_⟩, fun hstate => ?_⟩
    all_goals exact absurd (hclosed.symm.trans hstate) (by decide)
  · obtain ⟨-, -, hhead, hzero, -, -, hnull⟩ :=
      pkgParserReset_atRest hclosed h.headSize h.headBuf
    refine ⟨⟨h.reset, fun _ => ⟨hnull, fun hfull => ?_⟩, fun hstate => ?_⟩, fun _ => ?_⟩
    · rw [hzero] at hfull
      exact absurd hfull (by decide)
    · exact absurd (hhead.symm.trans hstate) (by decide)
    · rw [hzero]
      decide

/-- A closed parser is fit. -/
theorem PkgParser.HeadFits.close_fit {p : PkgParser} (h : p.HeadFits) :
    (pkgParserClose p).Fit ∧ (pkgParserClose p).Resting := by
  have hstate : (pkgParserClose p).state = .closed := by
    rw [pkgParserClose]
    split
    · assumption
    · rfl
  refine ⟨⟨h.close, fun hstate' => ?_, fun hstate' => ?_⟩, fun hstate' => ?_⟩
  all_goals exact absurd (hstate.symm.trans hstate') (by decide)

theorem pkgParserNew_fit : pkgParserNew.Fit where
  headSize := rfl
  headBuf := rfl
  headOffset := by decide
  head _ := ⟨rfl, by decide⟩
  body hstate := absurd hstate (by decide)

/-! ## Heads -/

theorem storeHead_fits {p : PkgParser} {data : Bytes} (h : p.HeadFits)
    (hle : p.headOffset + data.length ≤ p.headSize) : (storeHead p data).HeadFits := by
  have hsize := h.headSize
  have hbuf := h.headBuf
  refine ⟨hsize, ?_, ?_⟩
  · rw [storeHead, length_memcpy (by omega)]
    exact hbuf
  · exact hle.trans hsize.le

/-- The body of a complete head is open. -/
theorem openBody_filling {p : PkgParser} (h : p.HeadFits) (hnull : p.pkgBuf = .null)
    (hfull : p.headOffset = pkgHeadBytes) : (openBody p).Filling where
  headSize := h.headSize
  headBuf := h.headBuf
  headOffset := h.headOffset
  state := rfl
  full := hfull
  size := rfl
  offset := Nat.zero_le _
  empty hzero := by
    have hlen : ¬ 0 < p.bodyLen := by
      have hzero' : p.bodyLen = 0 := hzero
      omega
    exact (if_neg hlen).trans hnull
  buf hpos := ⟨List.replicate p.bodyLen 0, if_pos hpos, List.length_replicate ..⟩

/-- **What `pc__pkg_head` leaves** of a fit parser inside a head: the head of a body that
could not be allocated, an incomplete head and no unread byte, or an open body. -/
theorem pkgHead_fit (ms : List Bool) {p : PkgParser} {data : Bytes} (h : p.Fit)
    (hstate : p.state = .head) (hne : data ≠ []) :
    ∃ q out ms', pkgHead ms p data = (q, out, ms') ∧
      ((out = none ∧ q.Fit) ∨
       (out = some [] ∧ q.Fit ∧ q.state = .head ∧ q.Resting) ∨
       (∃ rest, out = some rest ∧ rest <:+ data ∧ q.Filling ∧
         (rest.length < data.length ∨ q.pkgOffset < q.pkgSize))) := by
  obtain ⟨hnull, hwaits⟩ := h.head hstate
  have hsize := h.headSize
  have hle := h.headOffset
  by_cases hshort : p.headOffset + data.length < p.headSize
  · -- the head stays incomplete
    have hless : (storeHead p data).headOffset < pkgHeadBytes := hshort.trans_le hsize.le
    refine ⟨_, _, _, pkgHead_stores hshort, .inr (.inl ⟨rfl, ?_, hstate, fun _ => hless⟩)⟩
    refine ⟨storeHead_fits h.toHeadFits hshort.le, fun _ => ⟨hnull, fun hfull => ?_⟩,
      fun hbody => ?_⟩
    · exact absurd hfull hless.ne
    · exact absurd (hstate.symm.trans hbody) (by decide)
  · obtain ⟨used, tail, hdata, hfull⟩ : ∃ used tail, data = used ++ tail ∧
        p.headOffset + used.length = p.headSize := by
      refine ⟨data.take (p.headSize - p.headOffset), data.drop (p.headSize - p.headOffset),
        (List.take_append_drop _ _).symm, ?_⟩
      rw [List.length_take]
      omega
    subst hdata
    have hfits := storeHead_fits h.toHeadFits hfull.le
    have hfour : (storeHead p used).headOffset = pkgHeadBytes := hfull.trans hsize
    have hopen := openBody_filling hfits hnull hfour
    -- no byte is consumed only when the head was complete before, and then its body is not empty
    have hprogress : tail.length < (used ++ tail).length ∨
        (openBody (storeHead p used)).pkgOffset < (openBody (storeHead p used)).pkgSize := by
      rcases used with _ | ⟨b, bs⟩
      · right
        have hsame : (storeHead p []).bodyLen = p.bodyLen := by
          rw [PkgParser.bodyLen, storeHead, memcpy_nil, PkgParser.bodyLen]
        have hpos := hwaits (hfull.trans hsize)
        rwa [← hsame] at hpos
      · left
        rw [List.length_append, List.length_cons]
        omega
    have hopened : ∃ rest, some tail = some rest ∧ rest <:+ used ++ tail ∧
        (openBody (storeHead p used)).Filling ∧ (rest.length < (used ++ tail).length ∨
          (openBody (storeHead p used)).pkgOffset < (openBody (storeHead p used)).pkgSize) :=
      ⟨tail, rfl, List.suffix_append used tail, hopen, hprogress⟩
    rw [pkgHead_completes tail hfull]
    by_cases hlen : 0 < (storeHead p used).bodyLen
    · rw [if_pos hlen]
      cases (malloc ms).1 with
      | true =>
        rw [if_pos rfl]
        exact ⟨_, _, _, rfl, .inr (.inr hopened)⟩
      | false =>
        rw [if_neg Bool.false_ne_true]
        refine ⟨_, _, _, rfl, .inl ⟨rfl, ?_⟩⟩
        refine ⟨⟨hfits.headSize, hfits.headBuf, hfits.headOffset⟩, fun _ => ⟨rfl, fun _ => hlen⟩,
          fun hbody => ?_⟩
        exact absurd (hstate.symm.trans hbody) (by decide)
    · rw [if_neg hlen]
      exact ⟨_, _, _, rfl, .inr (.inr hopened)⟩

/-! ## Bodies -/

/-- The parser after body bytes `data` were stored. -/
def storeBody (p : PkgParser) (data : Bytes) : PkgParser :=
  { p with pkgBuf := p.pkgBuf.write p.pkgOffset data, pkgOffset := p.pkgOffset + data.length }

theorem storeBody_nil (p : PkgParser) : storeBody p [] = p := by
  have hbuf : p.pkgBuf.write p.pkgOffset [] = p.pkgBuf := by
    cases p.pkgBuf with
    | own b => rw [PkgBuf.write_own, memcpy_nil]
    | null => rfl
    | wild => rfl
  rw [storeBody, hbuf]
  rfl

/-- How many of the unread bytes the body takes. -/
def PkgParser.takes (p : PkgParser) (data : Bytes) : ℕ := min (p.pkgSize - p.pkgOffset) data.length

theorem storeBody_filling {p : PkgParser} (h : p.Filling) (data : Bytes) :
    (storeBody p (data.take (p.takes data))).Filling := by
  have hlen : (data.take (p.takes data)).length = p.takes data := by
    rw [List.length_take, PkgParser.takes]
    omega
  have hoffset := h.offset
  have hle : p.pkgOffset + p.takes data ≤ p.pkgSize := by
    rw [PkgParser.takes]
    omega
  refine ⟨⟨h.headSize, h.headBuf, h.headOffset⟩, h.state, h.full, h.size, ?_, fun hzero => ?_,
    fun hpos => ?_⟩
  · rw [← hlen] at hle
    exact hle
  · have hnull := h.empty hzero
    exact (congrArg (PkgBuf.write · _ _) hnull).trans rfl
  · obtain ⟨b, hbuf, hb⟩ := h.buf hpos
    refine ⟨memcpy b p.pkgOffset (data.take (p.takes data)), ?_, ?_⟩
    · exact (congrArg (PkgBuf.write · _ _) hbuf).trans (PkgBuf.write_own ..)
    · rw [length_memcpy (by omega)]
      exact hb

section Loop

variable {σ : Type*} {host : PkgHost σ}

/-- **What `pc__pkg_body` does**: it stores what the body takes, and delivers the package when
nothing is missing any more. -/
theorem pkgBody_eq (s : σ) (data : Bytes) :
    pkgBody host s data =
      (if (storeBody (host.parser s) (data.take ((host.parser s).takes data))).pkgOffset =
          (host.parser s).pkgSize then
        host.deliver s (storeBody (host.parser s) (data.take ((host.parser s).takes data)))
      else host.setParser s (storeBody (host.parser s) (data.take ((host.parser s).takes data))),
        data.drop ((host.parser s).takes data)) := by
  set p := host.parser s with hp
  have hstored : (if 0 < p.takes data then
      { p with pkgBuf := p.pkgBuf.write p.pkgOffset (data.take (p.takes data)),
               pkgOffset := p.pkgOffset + p.takes data } else p) =
      storeBody p (data.take (p.takes data)) := by
    have hlen : (data.take (p.takes data)).length = p.takes data := by
      rw [List.length_take, PkgParser.takes]
      omega
    split
    · rw [storeBody, hlen]
    · have hzero : p.takes data = 0 := by omega
      rw [hzero, List.take_zero, storeBody_nil]
  rw [pkgBody]
  simp only [← hp]
  rw [PkgParser.takes] at hstored ⊢
  rw [hstored]
  have hsize : (storeBody p (data.take (min (p.pkgSize - p.pkgOffset) data.length))).pkgSize =
    p.pkgSize := rfl
  rw [hsize]
  split
  · rfl
  · rfl

/-- A property of the host that the setter and the callback keep; of the parser, the callback
may assume a complete package and may only reset or close it. -/
structure PkgHost.Keeps (host : PkgHost σ) (Q : σ → Prop) : Prop where
  lawful : host.Lawful
  set : ∀ s p, Q s → Q (host.setParser s p)
  cb : ∀ s, (host.parser s).Filling → Q s →
    Q (host.cb (host.parser s).type (host.parser s).pkgBuf (host.parser s).pkgSize s)
  touches : ∀ type buf len s, (host.parser s).Touched (host.parser (host.cb type buf len s))

variable {Q : σ → Prop}

/-- A delivery resets the parser, unless the callback closed it. -/
theorem deliver_fit (hk : host.Keeps Q) {s : σ} {p : PkgParser} (hp : p.Filling) (hQ : Q s) :
    (host.parser (host.deliver s p)).Fit ∧ (host.parser (host.deliver s p)).Resting ∧
      Q (host.deliver s p) := by
  set s₁ := host.setParser s p with hs₁
  have hget : host.parser s₁ = p := hk.lawful.get s p
  set s₂ := host.cb p.type p.pkgBuf p.pkgSize s₁ with hs₂
  have hdeliver : host.deliver s p = host.setParser s₂ (pkgParserReset (host.parser s₂)) := rfl
  have htouched : p.Touched (host.parser s₂) := by
    have htouches := hk.touches p.type p.pkgBuf p.pkgSize s₁
    rwa [hget] at htouches
  have hcb : Q s₂ := by
    have hcalls := hk.cb s₁ (hget ▸ hp) (hk.set s p hQ)
    rwa [hget] at hcalls
  obtain ⟨hfit, hrests⟩ := (hp.toHeadFits.touched htouched).reset_fit
  rw [hdeliver, hk.lawful.get]
  exact ⟨hfit, hrests, hk.set _ _ hcb⟩

/-- **What `pc__pkg_body` leaves** of an open body: a body of which bytes are missing and no
unread byte, or the parser behind a delivery. -/
theorem pkgBody_fit (data : Bytes) (hk : host.Keeps Q) {s : σ} (hp : (host.parser s).Filling)
    (hQ : Q s) :
    ∃ s' rest, pkgBody host s data = (s', rest) ∧ rest <:+ data ∧
      (host.parser s').Fit ∧ (host.parser s').Resting ∧ Q s' ∧
      ((host.parser s).pkgOffset < (host.parser s).pkgSize → data ≠ [] →
        rest.length < data.length) := by
  set p := host.parser s with hp'
  have hfilling := storeBody_filling hp data
  refine ⟨_, _, pkgBody_eq s data, List.drop_suffix _ _, ?_⟩
  rw [← hp']
  have hprogress : p.pkgOffset < p.pkgSize → data ≠ [] →
      (data.drop (p.takes data)).length < data.length := by
    intro hlt hne
    have hpos := List.length_pos_of_ne_nil hne
    rw [List.length_drop, PkgParser.takes]
    omega
  split
  · obtain ⟨hfit, hrests, hQ'⟩ := deliver_fit hk hfilling hQ
    exact ⟨hfit, hrests, hQ', hprogress⟩
  · next hmissing =>
    rw [hk.lawful.get]
    have hlt := lt_of_le_of_ne hfilling.offset hmissing
    refine ⟨hfilling.fit hlt, fun hhead => ?_, hk.set _ _ hQ, hprogress⟩
    exact absurd (hfilling.state.symm.trans hhead) (by decide)

/-! ## Turns -/

/-- **One turn of the loop at a fit parser**: it fails, or both halves return; then the loop ends
because the parser is closed, or a byte was consumed. -/
inductive FitTurn (host : PkgHost σ) (Q : σ → Prop) (ms : List Bool) (s : σ) (data : Bytes) :
    Prop where
  /-- the body could not be allocated -/
  | fails (s' : σ) (ms' : List Bool) : feedHead host ms s data = (s', none, ms') →
      (host.parser s').Fit → Q s' → FitTurn host Q ms s data
  /-- both halves of the turn return -/
  | goes (s₁ s' : σ) (rest rest' : Bytes) (ms' : List Bool) :
      feedHead host ms s data = (s₁, some rest, ms') →
      ((host.parser s₁).state = .body → (host.parser s₁).Filling) →
      feedBody host s₁ rest = (s', rest') → rest' <:+ data →
      (host.parser s').Fit → (host.parser s').Resting → Q s' →
      ((host.parser s').state ≠ .closed → rest'.length < data.length) → FitTurn host Q ms s data

/-- The turn once the parser is inside a body. -/
theorem fitTurn_body (hk : host.Keeps Q) {ms ms' : List Bool} {s s₁ : σ} {data rest : Bytes}
    (hne : data ≠ []) (hhead : feedHead host ms s data = (s₁, some rest, ms'))
    (hfilling : (host.parser s₁).Filling) (hQ : Q s₁) (hsuffix : rest <:+ data)
    (hprogress : rest.length < data.length ∨ (host.parser s₁).pkgOffset < (host.parser s₁).pkgSize) :
    FitTurn host Q ms s data := by
  obtain ⟨s', rest', hbody, hsuffix', hfit, hrests, hQ', hless⟩ :=
    pkgBody_fit rest hk hfilling hQ
  have hbody' : feedBody host s₁ rest = (s', rest') := by
    rw [feedBody, if_pos hfilling.state, hbody]
  refine .goes s₁ s' rest rest' ms' hhead (fun _ => hfilling) hbody'
    (hsuffix'.trans hsuffix) hfit hrests hQ' fun _ => ?_
  have hle := hsuffix'.length_le
  have hle' := hsuffix.length_le
  rcases hprogress with hless' | hlt
  · omega
  · by_cases hrest : rest = []
    · have hpos := List.length_pos_of_ne_nil hne
      rw [hrest, List.length_nil] at hle
      omega
    · exact (hless hlt hrest).trans_le hle'

/-- **Every turn of a fit parser** is one of these. -/
theorem fitTurn_of_fit (hk : host.Keeps Q) (ms : List Bool) {s : σ} {data : Bytes}
    (hfit : (host.parser s).Fit) (hQ : Q s) (hne : data ≠ []) : FitTurn host Q ms s data := by
  cases hstate : (host.parser s).state with
  | head =>
    obtain ⟨q, out, ms', hpkg, hcases⟩ := pkgHead_fit ms hfit hstate hne
    have hhead : feedHead host ms s data = (host.setParser s q, out, ms') := by
      rw [feedHead, if_pos hstate, hpkg]
    have hget := hk.lawful.get s q
    have hset := hk.set s q hQ
    rcases hcases with ⟨rfl, hq⟩ | ⟨rfl, hq, hinside, hrests⟩ |
        ⟨rest, rfl, hsuffix, hfilling, hprogress⟩
    · exact .fails _ _ hhead (hget.symm ▸ hq) hset
    · -- the head stays incomplete, and the second half of the turn does nothing
      have hnot : q.state ≠ .body := by
        rw [hinside]
        decide
      have hbody : feedBody host (host.setParser s q) [] = (host.setParser s q, []) := by
        rw [feedBody, hget, if_neg hnot]
      refine .goes _ _ _ _ _ hhead ?_ hbody (List.nil_suffix) ?_ ?_ hset fun _ => ?_
      · rw [hget]
        exact fun hbody => absurd hbody hnot
      · rwa [hget]
      · rwa [hget]
      · exact List.length_pos_of_ne_nil hne
    · exact fitTurn_body hk hne hhead (hget.symm ▸ hfilling) hset hsuffix (hget.symm ▸ hprogress)
  | body =>
    have hhead : feedHead host ms s data = (s, some data, ms) := by
      rw [feedHead, hstate, if_neg (by decide)]
    obtain ⟨-, -, -, -, hlt, -⟩ := hfit.body hstate
    exact fitTurn_body hk hne hhead (hfit.filling hstate) hQ List.suffix_rfl (.inr hlt)
  | closed =>
    have hhead : feedHead host ms s data = (s, some data, ms) := by
      rw [feedHead, hstate, if_neg (by decide)]
    have hbody : feedBody host s data = (s, data) := by
      rw [feedBody, hstate, if_neg (by decide)]
    refine .goes _ _ _ _ _ hhead (fun hinside => ?_) hbody List.suffix_rfl hfit (fun hinside => ?_)
      hQ fun hopen => absurd hstate hopen
    · exact absurd (hstate.symm.trans hinside) (by decide)
    · exact absurd (hstate.symm.trans hinside) (by decide)

/-! ## Whole feeds -/

/-- **A feed keeps the parser fit**, and what its setter and its callback keep. Unless it fails,
no head is left that waits for the memory of its body. -/
theorem feedLoop_fit (hk : host.Keeps Q) :
    ∀ (fuel : ℕ) {ms : List Bool} {s s' : σ} {data : Bytes} {rc : ℤ},
      (host.parser s).Fit → Q s → feedLoop host fuel ms s data = some (rc, s') →
      (host.parser s').Fit ∧ Q s' ∧
        (rc ≠ -1 → (data = [] → (host.parser s).Resting) → (host.parser s').Resting) := by
  have hnil : ∀ {fuel ms s s'} {rc : ℤ}, (host.parser s).Fit → Q s →
      feedLoop host fuel ms s [] = some (rc, s') →
      (host.parser s').Fit ∧ Q s' ∧
        (rc ≠ -1 → (([] : Bytes) = [] → (host.parser s).Resting) → (host.parser s').Resting) := by
    intro fuel ms s s' rc hfit hQ hfeed
    rw [feedLoop_nil] at hfeed
    obtain ⟨-, rfl⟩ := Prod.mk.inj (Option.some.inj hfeed)
    exact ⟨hfit, hQ, fun _ hrests => hrests rfl⟩
  intro fuel
  induction fuel with
  | zero =>
    intro ms s s' data rc hfit hQ hfeed
    cases data with
    | nil => exact hnil hfit hQ hfeed
    | cons b bs => exact absurd hfeed (by simp [feedLoop])
  | succ fuel ih =>
    intro ms s s' data rc hfit hQ hfeed
    rcases data with _ | ⟨b, bs⟩
    · exact hnil hfit hQ hfeed
    · have hne : b :: bs ≠ [] := List.cons_ne_nil b bs
      cases fitTurn_of_fit hk ms hfit hQ hne with
      | fails s₁ ms' hhead hfit₁ hQ₁ =>
        rw [feedLoop, hhead] at hfeed
        obtain ⟨rfl, rfl⟩ := Prod.mk.inj (Option.some.inj hfeed)
        exact ⟨hfit₁, hQ₁, fun hrc => absurd rfl hrc⟩
      | goes s₁ s₂ rest rest' ms' hhead _ hbody _ hfit₂ hrests₂ hQ₂ _ =>
        rw [feedLoop_turn hne hhead, hbody] at hfeed
        split at hfeed
        · obtain ⟨-, rfl⟩ := Prod.mk.inj (Option.some.inj hfeed)
          exact ⟨hfit₂, hQ₂, fun _ _ => hrests₂⟩
        · obtain ⟨hfit', hQ', hrests'⟩ := ih hfit₂ hQ₂ hfeed
          exact ⟨hfit', hQ', fun hrc _ => hrests' hrc fun _ => hrests₂⟩

/-- **A feed of a fit parser returns**: every turn that does not return consumes a byte. -/
theorem feedLoop_returns (hk : host.Keeps Q) :
    ∀ (fuel : ℕ) {ms : List Bool} {s : σ} {data : Bytes}, (host.parser s).Fit → Q s →
      data.length ≤ fuel → ∃ rc s', feedLoop host fuel ms s data = some (rc, s') := by
  intro fuel
  induction fuel with
  | zero =>
    intro ms s data _ _ hlen
    have hnil : data = [] := List.eq_nil_of_length_eq_zero (Nat.le_zero.mp hlen)
    exact ⟨0, s, hnil ▸ feedLoop_nil 0 ms s⟩
  | succ fuel ih =>
    intro ms s data hfit hQ hlen
    by_cases hne : data = []
    · exact ⟨0, s, hne ▸ feedLoop_nil (fuel + 1) ms s⟩
    · cases fitTurn_of_fit hk ms hfit hQ hne with
      | fails s₁ ms' hhead _ _ =>
        cases data with
        | nil => exact absurd rfl hne
        | cons b bs => exact ⟨-1, s₁, by rw [feedLoop, hhead]⟩
      | goes s₁ s₂ rest rest' ms' hhead _ hbody _ hfit₂ _ hQ₂ hless =>
        rw [feedLoop_turn hne hhead, hbody]
        split
        · exact ⟨0, s₂, rfl⟩
        · next hopen =>
          have hless' := hless hopen
          exact ih hfit₂ hQ₂ (show rest'.length ≤ fuel by omega)

/-! ## Runs -/

/-- What the user of a parser calls; the allocator is the environment's. -/
inductive ParserCall : Type where
  /-- `pc_pkg_parser_feed` -/
  | feed (ms : List Bool) (data : Bytes)
  /-- `pc_pkg_parser_reset` -/
  | reset
  /-- `pc_pkg_parser_close` -/
  | close

/-- A parser in the hands of its user. -/
structure ParserRun (σ : Type*) where
  /-- the host -/
  state : σ
  /-- a feed has returned `-1` since the parser was reset, and none since has got over it -/
  failed : Bool

/-- One call between two others. -/
inductive ParserStep (host : PkgHost σ) : ParserRun σ → ParserCall → ParserRun σ → Prop where
  /-- a feed that is given no byte says nothing about an earlier failure -/
  | feed {s s' : σ} {failed : Bool} {ms : List Bool} {data : Bytes} {rc : ℤ} :
      pkgParserFeed host ms s data = some (rc, s') →
      ParserStep host ⟨s, failed⟩ (.feed ms data)
        ⟨s', decide (rc = -1) || (data.isEmpty && failed)⟩
  | reset {s : σ} {failed : Bool} :
      ParserStep host ⟨s, failed⟩ .reset ⟨host.setParser s (pkgParserReset (host.parser s)), false⟩
  | close {s : σ} {failed : Bool} :
      ParserStep host ⟨s, failed⟩ .close ⟨host.setParser s (pkgParserClose (host.parser s)), failed⟩

/-- A parser of `pc_pkg_parser_new` and the calls that follow. -/
def parserLts (host : PkgHost σ) : Lts (ParserRun σ) ParserCall where
  init run := host.parser run.state = pkgParserNew ∧ run.failed = false
  step := ParserStep host

/-- A point of the loop: the allocator, the host and the unread bytes. -/
structure LoopPoint (σ : Type*) where
  /-- allocator supply -/
  ms : List Bool
  /-- the host -/
  state : σ
  /-- the fed bytes from `offset` on -/
  unread : Bytes

/-- A turn of the loop that does not return. -/
inductive LoopTurn (host : PkgHost σ) : LoopPoint σ → LoopPoint σ → Prop where
  | mk {ms ms' : List Bool} {s s₁ s' : σ} {data rest rest' : Bytes} : data ≠ [] →
      feedHead host ms s data = (s₁, some rest, ms') → feedBody host s₁ rest = (s', rest') →
      (host.parser s').state ≠ .closed → LoopTurn host ⟨ms, s, data⟩ ⟨ms', s', rest'⟩

/-- The copy of `pc__pkg_head`: no size wraps, and `head_buf` and the unread bytes hold it. -/
def PkgParser.HeadCopyFits (p : PkgParser) (data : Bytes) : Prop :=
  p.headOffset ≤ p.headSize ∧
    p.headOffset + min (p.headSize - p.headOffset) data.length ≤ p.headBuf.length ∧
    min (p.headSize - p.headOffset) data.length ≤ data.length

/-- The copy of `pc__pkg_body`: no size wraps, and `pkg_buf` and the unread bytes hold it. -/
def PkgParser.BodyCopyFits (p : PkgParser) (data : Bytes) : Prop :=
  p.pkgOffset ≤ p.pkgSize ∧
    (0 < p.takes data → ∃ b, p.pkgBuf = .own b ∧ p.pkgOffset + p.takes data ≤ b.length) ∧
    p.takes data ≤ data.length

/-- Both copies of the turn at a point stay in bounds. -/
def LoopPoint.CopiesFit (host : PkgHost σ) (t : LoopPoint σ) : Prop :=
  ((host.parser t.state).state = .head → (host.parser t.state).HeadCopyFits t.unread) ∧
  ∀ s₁ rest ms', feedHead host t.ms t.state t.unread = (s₁, some rest, ms') →
    (host.parser s₁).state = .body → (host.parser s₁).BodyCopyFits rest

theorem PkgParser.HeadFits.copyFits {p : PkgParser} (h : p.HeadFits) (data : Bytes) :
    p.HeadCopyFits data := by
  have hsize := h.headSize
  have hbuf := h.headBuf
  have hle := h.headOffset
  refine ⟨by omega, by omega, Nat.min_le_right _ _⟩

theorem PkgParser.Filling.copyFits {p : PkgParser} (h : p.Filling) (data : Bytes) :
    p.BodyCopyFits data := by
  have hle := h.offset
  refine ⟨hle, fun htakes => ?_, Nat.min_le_right _ _⟩
  rw [PkgParser.takes] at htakes ⊢
  obtain ⟨b, hbuf, hb⟩ := h.buf (by omega)
  exact ⟨b, hbuf, by omega⟩

/-- The turns are those of `feedLoop`. -/
theorem LoopTurn.feedLoop_eq {t t' : LoopPoint σ} (h : LoopTurn host t t') (fuel : ℕ) :
    feedLoop host (fuel + 1) t.ms t.state t.unread = feedLoop host fuel t'.ms t'.state t'.unread := by
  obtain ⟨hne, hhead, hbody, hopen⟩ := h
  rw [feedLoop_turn hne hhead, hbody]
  exact if_neg hopen

/-- A turn from a fit parser leaves one and consumes a byte. -/
theorem LoopTurn.fit (hk : host.Keeps Q) {t t' : LoopPoint σ} (h : LoopTurn host t t')
    (hfit : (host.parser t.state).Fit) (hQ : Q t.state) :
    (host.parser t'.state).Fit ∧ Q t'.state ∧ t'.unread <:+ t.unread ∧
      t'.unread.length < t.unread.length := by
  obtain ⟨hne, hhead, hbody, hopen⟩ := h
  cases fitTurn_of_fit hk _ hfit hQ hne with
  | fails s₁ ms' hhead' =>
    obtain ⟨-, hout⟩ := Prod.mk.inj (hhead.symm.trans hhead')
    exact absurd (Prod.mk.inj hout).1 (by simp)
  | goes s₁ s' rest rest' ms' hhead' _ hbody' hsuffix hfit' _ hQ' hless =>
    obtain ⟨rfl, hout⟩ := Prod.mk.inj (hhead.symm.trans hhead')
    obtain rfl := Option.some.inj (Prod.mk.inj hout).1
    obtain ⟨rfl, rfl⟩ := Prod.mk.inj (hbody.symm.trans hbody')
    exact ⟨hfit', hQ', hsuffix, hless hopen⟩

theorem LoopPoint.copiesFit (hk : host.Keeps Q) {t : LoopPoint σ}
    (hfit : (host.parser t.state).Fit) (hQ : Q t.state) (hne : t.unread ≠ []) :
    t.CopiesFit host := by
  refine ⟨fun _ => hfit.toHeadFits.copyFits _, fun s₁ rest ms' hhead hstate => ?_⟩
  cases fitTurn_of_fit hk t.ms hfit hQ hne with
  | fails s₁' ms'' hhead' =>
    obtain ⟨-, hout⟩ := Prod.mk.inj (hhead.symm.trans hhead')
    exact absurd (Prod.mk.inj hout).1 (by simp)
  | goes s₁' s' rest' rest'' ms'' hhead' hfilling =>
    obtain ⟨rfl, -⟩ := Prod.mk.inj (hhead.symm.trans hhead')
    exact (hfilling hstate).copyFits rest

/-- The parser of a run is fit, and rests unless a feed has failed. -/
theorem parserLts_fit (hk : host.Keeps fun _ => True) {run : ParserRun σ}
    (h : (parserLts host).Reach (fun _ _ _ => True) run) :
    (host.parser run.state).Fit ∧ (run.failed = false → (host.parser run.state).Resting) := by
  refine h.invariant (P := fun run => (host.parser run.state).Fit ∧
    (run.failed = false → (host.parser run.state).Resting)) ?_ ?_
  · rintro run ⟨hnew, -⟩
    rw [hnew]
    exact ⟨pkgParserNew_fit, fun _ _ => by decide⟩
  · rintro run call run' - ⟨hfit, hrests⟩ hstep -
    cases hstep with
    | @feed s s' failed ms data rc hfeed =>
      obtain ⟨hfit', -, hrests'⟩ := feedLoop_fit hk _ hfit trivial hfeed
      refine ⟨hfit', fun hfailed => ?_⟩
      obtain ⟨hrc, hkept⟩ := Bool.or_eq_false_iff.mp hfailed
      refine hrests' (of_decide_eq_false hrc) fun hnil => hrests ?_
      subst hnil
      exact hkept
    | reset =>
      obtain ⟨hfit', hrests'⟩ := hfit.toHeadFits.reset_fit
      rw [hk.lawful.get]
      exact ⟨hfit', fun _ => hrests'⟩
    | close =>
      obtain ⟨hfit', hrests'⟩ := hfit.toHeadFits.close_fit
      rw [hk.lawful.get]
      exact ⟨hfit', fun _ => hrests'⟩

/-- **The parser invariant.** Whatever was fed, reset and closed before, the parser is fit, and
inside a head fewer than four bytes of it are there unless a feed has failed. The next feed
returns; every copy of its turns stays in bounds, and every turn that does not return consumes
a byte. -/
theorem pkgParser_invariant (hl : host.Lawful)
    (htouches : ∀ type buf len s, (host.parser s).Touched (host.parser (host.cb type buf len s)))
    {run : ParserRun σ} (h : (parserLts host).Reach (fun _ _ _ => True) run) :
    (host.parser run.state).Fit ∧ (run.failed = false → (host.parser run.state).Resting) ∧
    ∀ ms data, (∃ rc s', pkgParserFeed host ms run.state data = some (rc, s')) ∧
      ∀ t, Relation.ReflTransGen (LoopTurn host) ⟨ms, run.state, data⟩ t →
        t.unread <:+ data ∧ (t.unread ≠ [] → t.CopiesFit host) ∧
        ∀ t', LoopTurn host t t' → t'.unread.length < t.unread.length ∧
          ∀ fuel, feedLoop host (fuel + 1) t.ms t.state t.unread =
            feedLoop host fuel t'.ms t'.state t'.unread := by
  have hk : host.Keeps fun _ => True := ⟨hl, fun _ _ _ => trivial, fun _ _ _ => trivial, htouches⟩
  obtain ⟨hfit, hrests⟩ := parserLts_fit hk h
  refine ⟨hfit, hrests, fun ms data => ⟨feedLoop_returns hk _ hfit trivial (by omega), ?_⟩⟩
  intro t hturns
  have hpoint : (host.parser t.state).Fit ∧ t.unread <:+ data := by
    refine preserved_of_reflTransGen (P := fun t => (host.parser t.state).Fit ∧ t.unread <:+ data)
      (fun t t' ht hturn => ?_) hturns ⟨hfit, List.suffix_rfl⟩
    obtain ⟨hfit', -, hsuffix, -⟩ := hturn.fit hk ht.1 trivial
    exact ⟨hfit', hsuffix.trans ht.2⟩
  refine ⟨hpoint.2, LoopPoint.copiesFit hk hpoint.1 trivial, fun t' hturn => ?_⟩
  exact ⟨(hturn.fit hk hpoint.1 trivial).2.2.2, hturn.feedLoop_eq⟩

end Loop

theorem pkgLogHost_lawful : pkgLogHost.Lawful := ⟨fun _ _ => rfl, fun _ _ _ => rfl, fun _ => rfl⟩

/-- The invariant after a feed that fails for want of memory in the middle of a package, and one
that gets over it: one byte of two is there. -/
theorem pkgParser_invariant_retried :
    (parserLts pkgLogHost).Reach (fun _ _ _ => True)
      ⟨⟨⟨[4, 0, 0, 2], .own [7, 0], 4, 4, 1, 2, .body⟩, []⟩, false⟩ ∧
    (PkgParser.mk [4, 0, 0, 2] (.own [7, 0]) 4 4 1 2 .body).Fit := by
  have hfails : pkgParserFeed pkgLogHost [false] ⟨pkgParserNew, []⟩ [4, 0, 0, 2, 7] =
      some (-1, ⟨⟨[4, 0, 0, 2], .null, 4, 4, 0, 0, .head⟩, []⟩) := by decide
  have hretried : pkgParserFeed pkgLogHost [] ⟨⟨[4, 0, 0, 2], .null, 4, 4, 0, 0, .head⟩, []⟩ [7] =
      some (0, ⟨⟨[4, 0, 0, 2], .own [7, 0], 4, 4, 1, 2, .body⟩, []⟩) := by decide
  have hnew : (parserLts pkgLogHost).Reach (fun _ _ _ => True) ⟨⟨pkgParserNew, []⟩, false⟩ :=
    .init ⟨rfl, rfl⟩
  have hreach := (hnew.step (ParserStep.feed hfails) trivial).step (ParserStep.feed hretried) trivial
  exact ⟨hreach, (pkgParser_invariant pkgLogHost_lawful (fun _ _ _ _ => .refl) hreach).1⟩

end Libpomelo
