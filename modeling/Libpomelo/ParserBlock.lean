import Libpomelo.ParserInvariant

/-!
# A parser on a block of the caller

`pc_pkg_parser_init` works on any block of memory and leaves two fields of it as they are:
`head_buf`, which the first head overwrites, and `pkg_buf`. What the callback sees of a
run, and what the parser frees (`useParser`), may therefore depend on the block.

* Two blocks whose `pkg_buf` is `NULL` cannot be told apart, and only buffers of the parser
  are freed.
* An address left in `pkg_buf` is overwritten when the first four bytes fed announce a body,
  and freed otherwise: by the first reset, by the close, or behind the callback for a first
  package without a body.
-/

namespace Libpomelo

/-- A block of the size of a parser: four bytes of head, and a `pkg_buf` that no parser
allocated. -/
structure ParserBlock : Type where
  /-- what the block holds, read as a parser -/
  fields : PkgParser
  /-- `head_buf` has its four bytes -/
  headBuf : fields.headBuf.length = pkgHeadBytes
  /-- `pkg_buf` is `NULL` or a stray address -/
  foreign : fields.pkgBuf = .null ∨ ∃ a, 0 < a ∧ fields.pkgBuf = .wild a

/-- The pointers that `pc_pkg_parser_reset` and `pc_pkg_parser_close` pass to `free`. -/
def PkgParser.frees (p : PkgParser) : List PkgBuf :=
  if p.state = .closed ∨ p.pkgBuf = .null then [] else [p.pkgBuf]

/-- What the callback sees of one invocation. -/
structure SeenCall : Type where
  /-- package type -/
  type : ℕ
  /-- whether the body pointer is `NULL` -/
  null : Bool
  /-- body length -/
  len : ℕ
  /-- the bytes behind the pointer -/
  body : Bytes
  deriving DecidableEq, Repr

/-- A parser with what its callback saw and what was freed, both oldest first. -/
structure ParserUse : Type where
  /-- the parser -/
  parser : PkgParser
  /-- invocations of the callback -/
  calls : List SeenCall
  /-- pointers passed to `free` -/
  freed : List PkgBuf
  deriving DecidableEq, Repr

/-- The recorder as a host. The feed resets the parser behind every callback, so the pointer of
that reset is recorded with the call. -/
def useHost : PkgHost ParserUse where
  parser := ParserUse.parser
  setParser s p := { s with parser := p }
  cb type data len s := { s with
    calls := s.calls ++ [⟨type, decide (data = .null), len, data.bytes⟩],
    freed := s.freed ++ s.parser.frees }

/-- `pc_pkg_parser_reset`. -/
def useReset (s : ParserUse) : ParserUse :=
  { s with parser := pkgParserReset s.parser, freed := s.freed ++ s.parser.frees }

/-- `pc_pkg_parser_close`. -/
def useClose (s : ParserUse) : ParserUse :=
  { s with parser := pkgParserClose s.parser, freed := s.freed ++ s.parser.frees }

/-- What the user of a parser calls before the close. -/
inductive UseOp : Type where
  /-- `pc_pkg_parser_feed` -/
  | feed (ms : List Bool) (data : Bytes)
  /-- `pc_pkg_parser_reset` -/
  | reset
  deriving DecidableEq, Repr

/-- Call after call, collecting the return values of the feeds. -/
def useOps : ParserUse → List UseOp → Option (List ℤ × ParserUse)
  | s, [] => some ([], s)
  | s, .feed ms data :: ops => do
    let (rc, s) ← pkgParserFeed useHost ms s data
    let (rcs, s) ← useOps s ops
    pure (rc :: rcs, s)
  | s, .reset :: ops => useOps (useReset s) ops

/-- `pc_pkg_parser_init` on a block. -/
def useInit (block : ParserBlock) : ParserUse := ⟨pkgParserInit block.fields, [], []⟩

/-- `pc_pkg_parser_init` on a block, the calls, and the close. -/
def useParser (block : ParserBlock) (ops : List UseOp) : Option (List ℤ × ParserUse) :=
  (useOps (useInit block) ops).map fun r => (r.1, useClose r.2)

/-- The pointer is a block the parser allocated. -/
def PkgBuf.isOwn : PkgBuf → Bool
  | .own _ => true
  | _ => false

/-- On both blocks the calls return, and return the same; the callback sees the same; and only
buffers of the parser are freed. -/
def SameUse (block block' : ParserBlock) (ops : List UseOp) : Prop :=
  ∃ rcs s s', useParser block ops = some (rcs, s) ∧ useParser block' ops = some (rcs, s') ∧
    s.calls = s'.calls ∧ ∀ buf ∈ s.freed ++ s'.freed, buf.isOwn = true

/-- The bytes fed before the first reset. -/
def fedBeforeReset : List UseOp → Bytes
  | [] => []
  | .feed _ data :: ops => data ++ fedBeforeReset ops
  | .reset :: _ => []

/-- The body length in the first four bytes. -/
def headLen (head : Bytes) : ℕ :=
  ((head.drop 1).take pkgBodyLenBytes).foldl (fun n b => n * 0x100 + b.toNat) 0

/-- Four bytes are fed before any reset, and announce a body. -/
def AnnouncesBody (fed : Bytes) : Prop := pkgHeadBytes ≤ fed.length ∧ 0 < headLen fed

/-! ## The first head -/

/-- An initialised parser that has read the bytes `got` of its first head. -/
structure PkgParser.Starts (p : PkgParser) (got : Bytes) : Prop where
  headSize : p.headSize = pkgHeadBytes
  headBuf : p.headBuf.length = pkgHeadBytes
  state : p.state = .head
  headOffset : p.headOffset = got.length
  few : got.length < pkgHeadBytes
  read : p.headBuf.take got.length = got
  pkgOffset : p.pkgOffset = 0
  pkgSize : p.pkgSize = 0

theorem useInit_starts (block : ParserBlock) : (useInit block).parser.Starts [] :=
  ⟨rfl, block.headBuf, rfl, rfl, by decide, List.take_zero, rfl, rfl⟩

theorem PkgParser.Starts.fit {p : PkgParser} {got : Bytes} (h : p.Starts got)
    (hnull : p.pkgBuf = .null) : p.Fit where
  headSize := h.headSize
  headBuf := h.headBuf
  headOffset := h.headOffset.trans_le h.few.le
  head _ := ⟨hnull, fun hfull => absurd (h.headOffset.symm.trans hfull) h.few.ne⟩
  body hbody := absurd (h.state.symm.trans hbody) (by decide)

/-- Bytes that do not complete the head. -/
theorem PkgParser.Starts.store {p : PkgParser} {got data : Bytes} (h : p.Starts got)
    (hshort : got.length + data.length < pkgHeadBytes) :
    (storeHead p data).Starts (got ++ data) := by
  have hbuf := h.headBuf
  have hoffset := h.headOffset
  have hread := h.read
  have hlen : (got ++ data).length = got.length + data.length := List.length_append
  have hcopied : memcpy p.headBuf got.length data =
      got ++ data ++ p.headBuf.drop (got ++ data).length := by
    rw [memcpy, hread, hlen]
  refine ⟨h.headSize, ?_, h.state, ?_, hlen ▸ hshort, ?_, h.pkgOffset, h.pkgSize⟩
  · rw [storeHead, length_memcpy (by omega)]
    exact hbuf
  · rw [hlen, ← hoffset]
    rfl
  · rw [storeHead, hoffset]
    dsimp only
    rw [hcopied, List.take_left']
    rfl

/-- The bytes that complete the head leave nothing of the old one. -/
theorem PkgParser.Starts.complete {p : PkgParser} {got used : Bytes} (h : p.Starts got)
    (hfull : got.length + used.length = pkgHeadBytes) :
    storeHead p used = ⟨got ++ used, p.pkgBuf, pkgHeadBytes, pkgHeadBytes, 0, 0, .head⟩ := by
  have hbuf := h.headBuf
  have hcopied : memcpy p.headBuf got.length used = got ++ used := by
    rw [memcpy, h.read, List.drop_of_length_le (by omega), List.append_nil]
  rw [storeHead, h.headOffset, hcopied, hfull, h.headSize, h.state, h.pkgOffset, h.pkgSize]

/-- Bytes behind the head do not count. -/
theorem headLen_append {head : Bytes} (h : pkgHeadBytes ≤ head.length) (more : Bytes) :
    headLen (head ++ more) = headLen head := by
  have h4 : 4 ≤ head.length := h
  have hsame : ((head ++ more).drop 1).take pkgBodyLenBytes = (head.drop 1).take pkgBodyLenBytes := by
    rw [List.drop_append_of_le_length (by omega), List.take_append_of_le_length]
    rw [List.length_drop]
    exact Nat.le_sub_of_add_le h4
  rw [headLen, hsame, headLen]

/-- The bytes that complete the head, and those behind them. -/
theorem exists_headSplit {got data : Bytes} (hfew : got.length < pkgHeadBytes)
    (hlong : pkgHeadBytes ≤ got.length + data.length) :
    ∃ used tail, data = used ++ tail ∧ used ++ tail ≠ [] ∧
      got.length + used.length = pkgHeadBytes ∧ headLen (got ++ data) = headLen (got ++ used) := by
  have hlen : (data.take (pkgHeadBytes - got.length)).length = pkgHeadBytes - got.length := by
    rw [List.length_take]
    omega
  refine ⟨data.take (pkgHeadBytes - got.length), data.drop (pkgHeadBytes - got.length),
    (List.take_append_drop _ _).symm, ?_, by omega, ?_⟩
  · rw [List.take_append_drop]
    apply List.ne_nil_of_length_pos
    omega
  · have hfull : pkgHeadBytes ≤ (got ++ data.take (pkgHeadBytes - got.length)).length := by
      rw [List.length_append]
      omega
    rw [← headLen_append hfull (data.drop (pkgHeadBytes - got.length)), List.append_assoc,
      List.take_append_drop]

/-! ## The first feed -/

@[simp] theorem useHost_get (s : ParserUse) : useHost.parser s = s.parser := rfl

@[simp] theorem useHost_set (s : ParserUse) (p : PkgParser) :
    useHost.setParser s p = { s with parser := p } := rfl

theorem useHost_lawful : useHost.Lawful := ⟨fun _ _ => rfl, fun _ _ _ => rfl, fun _ => rfl⟩

section Start

variable {s s' : ParserUse} {got : Bytes}

/-- A feed that does not complete the first head only stores its bytes. -/
theorem feed_starts (h : s.parser.Starts got) (ms : List Bool) {data : Bytes}
    (hshort : got.length + data.length < pkgHeadBytes) :
    pkgParserFeed useHost ms s data = some (0, { s with parser := storeHead s.parser data }) := by
  have hstate : (storeHead s.parser data).state = .head := h.state
  by_cases hne : data = []
  · have hsame : storeHead s.parser [] = s.parser := by
      rw [storeHead, memcpy_nil]
      rfl
    rw [hne, pkgParserFeed, feedLoop_nil, hsame]
  · have hshort' : s.parser.headOffset + data.length < s.parser.headSize := by
      rw [h.headOffset, h.headSize]
      exact hshort
    have hhead : feedHead useHost ms s data =
        ({ s with parser := storeHead s.parser data }, some [], ms) := by
      rw [feedHead, useHost_get, if_pos h.state, pkgHead_stores hshort']
      rfl
    have hbody : feedBody useHost { s with parser := storeHead s.parser data } [] =
        ({ s with parser := storeHead s.parser data }, []) := by
      rw [feedBody, useHost_get, hstate, if_neg (by decide)]
    rw [pkgParserFeed, feedLoop_turn hne hhead, hbody, useHost_get, hstate, if_neg (by decide),
      feedLoop_nil]

/-- The rest of the head, and what `pc__pkg_head` makes of it. -/
theorem pkgHead_starts {p : PkgParser} (h : p.Starts got) (ms : List Bool) {used : Bytes}
    (tail : Bytes) (hfull : got.length + used.length = pkgHeadBytes) :
    pkgHead ms p (used ++ tail) =
      if 0 < headLen (got ++ used) then
        if (malloc ms).1 then
          (⟨got ++ used, .own (List.replicate (headLen (got ++ used)) 0), pkgHeadBytes, pkgHeadBytes,
            0, headLen (got ++ used), .body⟩, some tail, (malloc ms).2)
        else (⟨got ++ used, .null, pkgHeadBytes, pkgHeadBytes, 0, 0, .head⟩, none, (malloc ms).2)
      else (⟨got ++ used, p.pkgBuf, pkgHeadBytes, pkgHeadBytes, 0, headLen (got ++ used), .body⟩,
        some tail, ms) := by
  have hfull' : p.headOffset + used.length = p.headSize := by
    rw [h.headOffset, h.headSize]
    exact hfull
  rw [pkgHead_completes tail hfull', h.complete hfull]
  have hlen : (PkgParser.mk (got ++ used) p.pkgBuf pkgHeadBytes pkgHeadBytes 0 0 .head).bodyLen =
    headLen (got ++ used) := rfl
  rw [openBody, hlen]
  by_cases hpos : 0 < headLen (got ++ used)
  · simp only [if_pos hpos]
  · simp only [if_neg hpos]

/-- Two feeds that complete the first head are one and the same when the stray pointers are
equal or overwritten. -/
theorem feed_same (h : s.parser.Starts got) (h' : s'.parser.Starts got) (hcalls : s.calls = s'.calls)
    (hfreed : s.freed = s'.freed) (ms : List Bool) {data : Bytes}
    (hlong : pkgHeadBytes ≤ got.length + data.length)
    (hbuf : s.parser.pkgBuf = s'.parser.pkgBuf ∨ 0 < headLen (got ++ data)) :
    pkgParserFeed useHost ms s data = pkgParserFeed useHost ms s' data := by
  obtain ⟨used, tail, rfl, hne, hfull, hlen⟩ := exists_headSplit h.few hlong
  rw [hlen] at hbuf
  have hpkg : pkgHead ms s.parser (used ++ tail) = pkgHead ms s'.parser (used ++ tail) := by
    rw [pkgHead_starts h ms tail hfull, pkgHead_starts h' ms tail hfull]
    rcases hbuf with hsame | hpos
    · rw [hsame]
    · rw [if_pos hpos, if_pos hpos]
  have hhead : feedHead useHost ms s (used ++ tail) = feedHead useHost ms s' (used ++ tail) := by
    rw [feedHead, feedHead, useHost_get, useHost_get, if_pos h.state, if_pos h'.state, hpkg]
    simp only [useHost_set, hcalls, hfreed]
  rw [pkgParserFeed, pkgParserFeed]
  generalize used ++ tail = data at hne hhead
  cases data with
  | nil => exact absurd rfl hne
  | cons b bs => rw [feedLoop, feedLoop, hhead]

end Start

/-! ## Two runs -/

theorem useOps_feed {s t : ParserUse} {ms : List Bool} {data : Bytes} {rc : ℤ}
    (h : pkgParserFeed useHost ms s data = some (rc, t)) (ops : List UseOp) :
    useOps s (.feed ms data :: ops) = (useOps t ops).map fun r => (rc :: r.1, r.2) := by
  cases hops : useOps t ops with
  | none => simp [useOps, h, hops]
  | some r => simp [useOps, h, hops]

/-- A run that begins with a feed, taken apart. -/
theorem useOps_feed_some {s t : ParserUse} {ms : List Bool} {data : Bytes} {ops : List UseOp}
    {rcs : List ℤ} (h : useOps s (.feed ms data :: ops) = some (rcs, t)) :
    ∃ rc u rcs', pkgParserFeed useHost ms s data = some (rc, u) ∧ useOps u ops = some (rcs', t) := by
  cases hfeed : pkgParserFeed useHost ms s data with
  | none =>
    rw [useOps, hfeed] at h
    exact absurd h (by simp)
  | some r =>
    obtain ⟨rc, u⟩ := r
    rw [useOps_feed hfeed] at h
    obtain ⟨⟨rcs', t'⟩, hops, heq⟩ := Option.map_eq_some_iff.mp h
    obtain ⟨-, rfl⟩ := Prod.mk.inj heq
    exact ⟨rc, u, rcs', rfl, hops⟩

/-- What can be told of a run: the return values, the calls, and the pointers freed up to and
with the close. -/
def useView (r : List ℤ × ParserUse) : List ℤ × List SeenCall × List PkgBuf :=
  (r.1, (useClose r.2).calls, (useClose r.2).freed)

theorem PkgParser.Starts.reset {p : PkgParser} {got : Bytes} (h : p.Starts got) :
    (pkgParserReset p).Starts [] ∧ (pkgParserReset p).pkgBuf = .null := by
  have hopen : ¬ p.state = .closed := by
    rw [h.state]
    decide
  rw [pkgParserReset, if_neg hopen]
  exact ⟨⟨h.headSize, h.headBuf, rfl, rfl, by decide, List.take_zero, rfl, rfl⟩, rfl⟩

theorem frees_null {p : PkgParser} (h : p.pkgBuf = .null) : p.frees = [] := if_pos (.inr h)

/-- **Two runs agree** when no stray pointer is there, or the first head overwrites it. -/
theorem useOps_same (ops : List UseOp) :
    ∀ {s s' : ParserUse} {got : Bytes}, s.parser.Starts got → s'.parser.Starts got →
      s.calls = s'.calls → s.freed = s'.freed →
      (s.parser.pkgBuf = .null ∧ s'.parser.pkgBuf = .null) ∨
        AnnouncesBody (got ++ fedBeforeReset ops) →
      (useOps s ops).map useView = (useOps s' ops).map useView := by
  induction ops with
  | nil =>
    intro s s' got h h' hcalls hfreed hcond
    rcases hcond with ⟨hnull, hnull'⟩ | ⟨hfour, -⟩
    · simp [useOps, useView, useClose, frees_null hnull, frees_null hnull', hcalls, hfreed]
    · rw [fedBeforeReset, List.append_nil] at hfour
      exact absurd hfour h.few.not_ge
  | cons op ops ih =>
    intro s s' got h h' hcalls hfreed hcond
    cases op with
    | reset =>
      rcases hcond with ⟨hnull, hnull'⟩ | ⟨hfour, -⟩
      · have hstarts : (useReset s).parser.Starts [] := h.reset.1
        have hstarts' : (useReset s').parser.Starts [] := h'.reset.1
        refine ih hstarts hstarts' hcalls ?_ (.inl ⟨h.reset.2, h'.reset.2⟩)
        rw [useReset, useReset, frees_null hnull, frees_null hnull', hfreed]
      · rw [fedBeforeReset, List.append_nil] at hfour
        exact absurd hfour h.few.not_ge
    | feed ms data =>
      by_cases hshort : got.length + data.length < pkgHeadBytes
      · -- both parsers wait for the rest of the first head
        have hmap : ∀ t, ((useOps t ops).map fun r => (0 :: r.1, r.2)).map useView =
            ((useOps t ops).map useView).map fun v => (0 :: v.1, v.2) := by
          intro t
          cases useOps t ops <;> rfl
        rw [useOps_feed (feed_starts h ms hshort), useOps_feed (feed_starts h' ms hshort), hmap,
          hmap]
        refine congrArg _ (ih (h.store hshort) (h'.store hshort) hcalls hfreed ?_)
        rw [fedBeforeReset, ← List.append_assoc] at hcond
        exact hcond
      · have hlong : pkgHeadBytes ≤ got.length + data.length := not_lt.mp hshort
        have hbuf : s.parser.pkgBuf = s'.parser.pkgBuf ∨ 0 < headLen (got ++ data) := by
          rcases hcond with ⟨hnull, hnull'⟩ | ⟨-, hpos⟩
          · exact .inl (hnull.trans hnull'.symm)
          · right
            have hlen : pkgHeadBytes ≤ (got ++ data).length := hlong.trans_eq List.length_append.symm
            rwa [fedBeforeReset, ← List.append_assoc, headLen_append hlen] at hpos
        rw [useOps, useOps, feed_same h h' hcalls hfreed ms hlong hbuf]

/-! ## What is freed -/

/-- Only buffers of the parser were freed. -/
def ParserUse.OwnFreed (s : ParserUse) : Prop := ∀ buf ∈ s.freed, buf.isOwn = true

theorem frees_own {p : PkgParser} (h : p.state ≠ .closed → p.pkgBuf = .null ∨ p.pkgBuf.isOwn = true) :
    ∀ buf ∈ p.frees, buf.isOwn = true := by
  intro buf hbuf
  rw [PkgParser.frees] at hbuf
  split at hbuf
  · exact absurd hbuf List.not_mem_nil
  · next hnot =>
    obtain ⟨hopen, hsome⟩ := not_or.mp hnot
    rw [List.mem_singleton.mp hbuf]
    exact (h hopen).resolve_left hsome

theorem PkgParser.Fit.frees_own {p : PkgParser} (h : p.Fit) : ∀ buf ∈ p.frees, buf.isOwn = true := by
  refine Libpomelo.frees_own fun hopen => ?_
  cases hstate : p.state with
  | head => exact .inl (h.head hstate).1
  | body =>
    obtain ⟨-, -, -, -, -, b, hbuf, -⟩ := h.body hstate
    rw [hbuf]
    exact .inr rfl
  | closed => exact absurd hstate hopen

theorem PkgParser.Filling.frees_own {p : PkgParser} (h : p.Filling) :
    ∀ buf ∈ p.frees, buf.isOwn = true := by
  refine Libpomelo.frees_own fun _ => ?_
  rcases Nat.eq_zero_or_pos p.pkgSize with hzero | hpos
  · exact .inl (h.empty hzero)
  · obtain ⟨b, hbuf, -⟩ := h.buf hpos
    rw [hbuf]
    exact .inr rfl

theorem ParserUse.OwnFreed.append {s : ParserUse} (h : s.OwnFreed) {more : List PkgBuf}
    (hmore : ∀ buf ∈ more, buf.isOwn = true) : ∀ buf ∈ s.freed ++ more, buf.isOwn = true := by
  intro buf hbuf
  rcases List.mem_append.mp hbuf with hbuf | hbuf
  · exact h buf hbuf
  · exact hmore buf hbuf

/-- A feed of a fit parser frees only buffers of the parser. -/
theorem useHost_keeps : useHost.Keeps ParserUse.OwnFreed where
  lawful := useHost_lawful
  set _ _ h := h
  cb _ hfilling h := h.append hfilling.frees_own
  touches _ _ _ _ := .refl

/-- A fit parser goes through every run, and only its own buffers are freed. -/
theorem useOps_fit (ops : List UseOp) :
    ∀ {s : ParserUse}, s.parser.Fit → s.OwnFreed →
      ∃ rcs t, useOps s ops = some (rcs, t) ∧ t.parser.Fit ∧ t.OwnFreed := by
  induction ops with
  | nil => exact fun {s} hfit hown => ⟨[], s, rfl, hfit, hown⟩
  | cons op ops ih =>
    intro s hfit hown
    cases op with
    | reset => exact ih (s := useReset s) hfit.toHeadFits.reset_fit.1 (hown.append hfit.frees_own)
    | feed ms data =>
      obtain ⟨rc, t, hfeed⟩ : ∃ rc t, pkgParserFeed useHost ms s data = some (rc, t) :=
        feedLoop_returns useHost_keeps _ hfit hown (by omega)
      obtain ⟨hfit', hown', -⟩ := feedLoop_fit useHost_keeps _ hfit hown hfeed
      obtain ⟨rcs, u, hops, hfit'', hown''⟩ := ih hfit' hown'
      refine ⟨rc :: rcs, u, ?_, hfit'', hown''⟩
      rw [useOps_feed hfeed, hops]
      rfl

/-- Nothing is freed back. -/
theorem useOps_freed {buf : PkgBuf} (ops : List UseOp) :
    ∀ {s t : ParserUse} {rcs : List ℤ}, buf ∈ s.freed → useOps s ops = some (rcs, t) →
      buf ∈ t.freed := by
  induction ops with
  | nil =>
    intro s t rcs hbuf hops
    obtain ⟨-, rfl⟩ := Prod.mk.inj (Option.some.inj hops)
    exact hbuf
  | cons op ops ih =>
    intro s t rcs hbuf hops
    cases op with
    | reset => exact ih (s := useReset s) (List.mem_append_left _ hbuf) hops
    | feed ms data =>
      obtain ⟨rc, u, rcs', hfeed, hops'⟩ := useOps_feed_some hops
      refine ih ?_ hops'
      exact feedLoop_preserves useHost (P := fun s => buf ∈ s.freed) (fun _ _ h => h)
        (fun _ _ _ _ h => List.mem_append_left _ h) _ hbuf hfeed

theorem frees_stray {p : PkgParser} {a : ℕ} (hopen : p.state ≠ .closed) (hbuf : p.pkgBuf = .wild a) :
    .wild a ∈ p.frees := by
  have hsome : ¬ (p.state = .closed ∨ p.pkgBuf = .null) := by
    rw [hbuf]
    exact not_or.mpr ⟨hopen, by simp⟩
  rw [PkgParser.frees, if_neg hsome, hbuf]
  exact List.mem_singleton_self _

/-- A first package without a body frees the stray pointer. -/
theorem feed_stray {s u : ParserUse} {got data : Bytes} {a : ℕ} {ms : List Bool} {rc : ℤ}
    (h : s.parser.Starts got) (hbuf : s.parser.pkgBuf = .wild a)
    (hlong : pkgHeadBytes ≤ got.length + data.length) (hzero : headLen (got ++ data) = 0)
    (hfeed : pkgParserFeed useHost ms s data = some (rc, u)) : .wild a ∈ u.freed := by
  obtain ⟨used, tail, rfl, hne, hfull, hlen⟩ := exists_headSplit h.few hlong
  rw [hlen] at hzero
  set q : PkgParser := ⟨got ++ used, .wild a, pkgHeadBytes, pkgHeadBytes, 0, 0, .body⟩ with hq
  have hhead : feedHead useHost ms s (used ++ tail) = ({ s with parser := q }, some tail, ms) := by
    rw [feedHead, useHost_get, if_pos h.state, pkgHead_starts h ms tail hfull, hzero, hbuf,
      if_neg (lt_irrefl 0)]
    rfl
  have hbody : .wild a ∈ (feedBody useHost { s with parser := q } tail).1.freed := by
    have hcalls : (feedBody useHost { s with parser := q } tail).1.freed = s.freed ++ q.frees := by
      simp [feedBody, pkgBody, hq, useHost]
    rw [hcalls]
    exact List.mem_append_right _ (frees_stray PkgParserState.noConfusion rfl)
  rw [pkgParserFeed, feedLoop_turn hne hhead] at hfeed
  split at hfeed
  · obtain ⟨-, rfl⟩ := Prod.mk.inj (Option.some.inj hfeed)
    exact hbody
  · exact feedLoop_preserves useHost (P := fun s => .wild a ∈ s.freed) (fun _ _ h => h)
      (fun _ _ _ _ h => List.mem_append_left _ h) _ hbody hfeed

/-- **A stray pointer is freed** unless the first head overwrites it. -/
theorem useOps_stray {a : ℕ} (ops : List UseOp) :
    ∀ {s t : ParserUse} {got : Bytes} {rcs : List ℤ}, s.parser.Starts got →
      s.parser.pkgBuf = .wild a → ¬ AnnouncesBody (got ++ fedBeforeReset ops) →
      useOps s ops = some (rcs, t) → .wild a ∈ (useClose t).freed := by
  have hopen : ∀ {p : PkgParser} {got}, p.Starts got → p.state ≠ .closed := fun h => by
    rw [h.state]
    decide
  induction ops with
  | nil =>
    intro s t got rcs h hbuf _ hops
    obtain ⟨-, rfl⟩ := Prod.mk.inj (Option.some.inj hops)
    exact List.mem_append_right _ (frees_stray (hopen h) hbuf)
  | cons op ops ih =>
    intro s t got rcs h hbuf hcond hops
    cases op with
    | reset =>
      have hfreed : .wild a ∈ (useReset s).freed :=
        List.mem_append_right _ (frees_stray (hopen h) hbuf)
      exact List.mem_append_left _ (useOps_freed ops hfreed hops)
    | feed ms data =>
      rw [fedBeforeReset, ← List.append_assoc] at hcond
      obtain ⟨rc, u, rcs', hfeed, hops'⟩ := useOps_feed_some hops
      by_cases hshort : got.length + data.length < pkgHeadBytes
      · rw [feed_starts h ms hshort] at hfeed
        obtain ⟨-, rfl⟩ := Prod.mk.inj (Option.some.inj hfeed)
        have hstarts : ({ s with parser := storeHead s.parser data } : ParserUse).parser.Starts
            (got ++ data) := h.store hshort
        exact ih hstarts hbuf hcond hops'
      · have hlong : pkgHeadBytes ≤ got.length + data.length := not_lt.mp hshort
        have hlen : pkgHeadBytes ≤ (got ++ data).length := hlong.trans_eq List.length_append.symm
        have hzero : headLen (got ++ data) = 0 := by
          by_contra hsome
          refine hcond ⟨?_, ?_⟩
          · rw [List.length_append]
            omega
          · rw [headLen_append hlen]
            exact Nat.pos_of_ne_zero hsome
        exact List.mem_append_left _ (useOps_freed ops (feed_stray h hbuf hlong hzero hfeed) hops')

/-! ## Any two blocks -/

/-- The block with `NULL` in its `pkg_buf`. -/
def ParserBlock.cleared (block : ParserBlock) : ParserBlock where
  fields := { block.fields with pkgBuf := .null }
  headBuf := block.headBuf
  foreign := .inl rfl

/-- The run on a block that holds no stray pointer, or whose first head overwrites it, is that on
the cleared block of any other. -/
theorem useParser_cleared (block block' : ParserBlock) (ops : List UseOp)
    (h : block.fields.pkgBuf = .null ∨ AnnouncesBody (fedBeforeReset ops)) :
    ∃ rcs s t, useParser block ops = some (rcs, s) ∧ useParser block'.cleared ops = some (rcs, t) ∧
      s.calls = t.calls ∧ s.freed = t.freed ∧ t.OwnFreed := by
  have hview : ∀ b : ParserBlock, (useOps (useInit b) ops).map useView =
      (useParser b ops).map fun r => (r.1, r.2.calls, r.2.freed) := fun b => by
    rw [useParser, Option.map_map]
    rfl
  obtain ⟨rcs, t, hops, hfit, hown⟩ := useOps_fit ops ((useInit_starts block'.cleared).fit rfl)
    (fun _ hbuf => absurd hbuf List.not_mem_nil)
  have hcleared : useParser block'.cleared ops = some (rcs, useClose t) := by
    rw [useParser, hops]
    rfl
  have hsame := useOps_same ops (useInit_starts block) (useInit_starts block'.cleared) rfl rfl
    (h.imp (fun hnull => ⟨hnull, rfl⟩) id)
  rw [hview, hview, hcleared] at hsame
  obtain ⟨⟨rcs', s⟩, hrun, heq⟩ := Option.map_eq_some_iff.mp hsame
  obtain ⟨rfl, hseen⟩ := Prod.mk.inj heq
  obtain ⟨hcalls, hfreed⟩ := Prod.mk.inj hseen
  exact ⟨rcs', s, useClose t, hrun, hcleared, hcalls, hfreed, hown.append hfit.frees_own⟩

/-- A stray pointer in the block is freed unless the first head overwrites it. -/
theorem stray_freed {block : ParserBlock} {ops : List UseOp}
    (hbuf : block.fields.pkgBuf ≠ .null) (hcond : ¬ AnnouncesBody (fedBeforeReset ops))
    {rcs : List ℤ} {s : ParserUse} (h : useParser block ops = some (rcs, s)) : ¬ s.OwnFreed := by
  intro hown
  obtain ⟨a, -, ha⟩ := block.foreign.resolve_left hbuf
  obtain ⟨⟨rcs', t⟩, hops, heq⟩ := Option.map_eq_some_iff.mp h
  obtain ⟨-, rfl⟩ := Prod.mk.inj heq
  have hfreed := useOps_stray ops (useInit_starts block) ha hcond hops
  exact absurd (hown _ hfreed) Bool.false_ne_true

/-- **What a parser does is independent of the block it was put on exactly when** both blocks hold
`NULL` in `pkg_buf`, or the first four bytes are fed before any reset and announce a body. -/
theorem sameUse_iff (block block' : ParserBlock) (ops : List UseOp) :
    SameUse block block' ops ↔
      (block.fields.pkgBuf = .null ∧ block'.fields.pkgBuf = .null) ∨
        AnnouncesBody (fedBeforeReset ops) := by
  constructor
  · rintro ⟨rcs, s, s', hrun, hrun', -, hown⟩
    by_contra hnot
    obtain ⟨hstray, hcond⟩ := not_or.mp hnot
    rcases not_and_or.mp hstray with hbuf | hbuf
    · exact stray_freed hbuf hcond hrun fun buf h => hown buf (List.mem_append_left _ h)
    · exact stray_freed hbuf hcond hrun' fun buf h => hown buf (List.mem_append_right _ h)
  · intro hcond
    obtain ⟨rcs, s, t, hrun, hclean, hcalls, hfreed, hown⟩ :=
      useParser_cleared block block ops (hcond.imp_left And.left)
    obtain ⟨rcs', s', t', hrun', hclean', hcalls', hfreed', -⟩ :=
      useParser_cleared block' block ops (hcond.imp_left And.right)
    obtain ⟨rfl, rfl⟩ := Prod.mk.inj (Option.some.inj (hclean.symm.trans hclean'))
    refine ⟨rcs, s, s', hrun, hrun', hcalls.trans hcalls'.symm, ?_⟩
    rw [hfreed, hfreed']
    exact hown.append hown

/-- A zeroed block. -/
def zeroedBlock : ParserBlock :=
  ⟨⟨[0, 0, 0, 0], .null, 0, 0, 0, 0, .head⟩, rfl, .inl rfl⟩

/-- A block of the stack, with what happened to lie there. -/
def stackBlock : ParserBlock :=
  ⟨⟨[1, 2, 3, 4], .wild 0x7ffc, 5, 6, 7, 8, .closed⟩, rfl, .inr ⟨0x7ffc, by decide, rfl⟩⟩

/-- A heartbeat as the first package: the stray address is passed to the callback, and to
`free`. -/
theorem not_sameUse_heartbeat : ¬ SameUse zeroedBlock stackBlock [.feed [] [3, 0, 0, 0]] := by
  rintro ⟨rcs, s, s', -, hrun', -, hown⟩
  have hstack : useParser stackBlock [.feed [] [3, 0, 0, 0]] =
      some ([0], ⟨⟨[3, 0, 0, 0], .null, 0, 4, 0, 0, .closed⟩, [⟨3, false, 0, []⟩],
        [.wild 0x7ffc]⟩) := by
    decide
  obtain ⟨-, rfl⟩ := Prod.mk.inj (Option.some.inj (hrun'.symm.trans hstack))
  exact absurd (hown (.wild 0x7ffc) (by simp)) (by decide)

end Libpomelo
