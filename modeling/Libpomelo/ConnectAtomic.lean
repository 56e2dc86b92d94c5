import Libpomelo.System

/-!
# A refused connect

`pc_connect` moves the client to `CONNECTING` before it allocates anything, and takes
nothing back on its error paths. Its callers go by its result alone: they release the
request, and tell from the state of the client whether there is a thread to join. So the
call should leave the client as it was whenever it fails (`ConnectAtomic`); it does so only
when it fails before that move.
-/

namespace Libpomelo

/-- **Atomic on failure.** The call returns, and if it returns `-1` then the client is as it
was before. -/
structure ConnectAtomic (args : ConnectArgs) (w : World) : Prop where
  /-- it returns -/
  returns : (pcConnectWith args w).1.halted = w.halted
  /-- the state -/
  state : (pcConnectWith args w).2 = false → (pcConnectWith args w).1.state = w.state
  /-- the connect request -/
  connReq : (pcConnectWith args w).2 = false → (pcConnectWith args w).1.connReq = w.connReq
  /-- the handshake options -/
  handshakeOpts : (pcConnectWith args w).2 = false →
    (pcConnectWith args w).1.handshakeOpts = w.handshakeOpts
  /-- the transport -/
  transport : (pcConnectWith args w).2 = false → (pcConnectWith args w).1.transport = w.transport

section Atomic

variable {args : ConnectArgs} {w : World}

/-- A call that fails behind the move leaves the client in the state `CONNECTING`. -/
theorem pcConnectWith_connecting (hstate : w.state = .inited) (hvalid : args.valid = true)
    (hfails : (connectStages w.supply).1 ≠ .launched) :
    (pcConnectWith args w).2 = false ∧ (pcConnectWith args w).1.state = .connecting := by
  have hinited : ¬ w.state ≠ .inited := by simpa using hstate
  have hrequest : ¬ ¬ args.valid = true := by simpa using hvalid
  rw [pcConnectWith, if_neg hinited, if_neg hrequest]
  rcases hstages : connectStages w.supply with ⟨stage, supply⟩
  rw [hstages] at hfails
  cases stage with
  | launched => exact absurd rfl hfails
  | refused | crashed | notConnected => exact ⟨rfl, rfl⟩

/-- **When `pc_connect` is atomic.** A client in the state `INITED` is as before after a
failure exactly when the request itself is refused, or there is no failure: none of the
allocations, `uv_tcp_init` and `uv_tcp_connect` fails. -/
theorem connectAtomic_iff (args : ConnectArgs) {w : World} (hstate : w.state = .inited) :
    ConnectAtomic args w ↔ args.valid = false ∨ (connectStages w.supply).1 = .launched := by
  have hinited : ¬ w.state ≠ .inited := by simpa using hstate
  constructor
  · intro hatomic
    by_contra hno
    obtain ⟨hvalid, hfails⟩ := not_or.mp hno
    obtain ⟨hret, hconnecting⟩ := pcConnectWith_connecting hstate (by simpa using hvalid) hfails
    have hsame := hatomic.state hret
    rw [hconnecting, hstate] at hsame
    exact absurd hsame (by decide)
  · intro h
    by_cases hvalid : args.valid = true
    · have hlaunched : (connectStages w.supply).1 = .launched := by simpa [hvalid] using h
      have hrequest : ¬ ¬ args.valid = true := by simpa using hvalid
      rcases hstages : connectStages w.supply with ⟨stage, supply⟩
      rw [hstages] at hlaunched
      obtain rfl : stage = .launched := hlaunched
      have hret : (pcConnectWith args w).2 = true := by
        rw [pcConnectWith, if_neg hinited, if_neg hrequest, hstages]
      have hreturns : (pcConnectWith args w).1.halted = w.halted := by
        rw [pcConnectWith, if_neg hinited, if_neg hrequest, hstages]
        rfl
      refine ⟨hreturns, ?_, ?_, ?_, ?_⟩ <;>
        exact fun hfails => absurd (hret.symm.trans hfails) (by simp)
    · have hsame : pcConnectWith args w = (w, false) := by
        rw [pcConnectWith, if_neg hinited, if_pos hvalid]
      refine ⟨?_, ?_, ?_, ?_, ?_⟩ <;> simp [hsame]

end Atomic

theorem connectAtomic_plainInit :
    ConnectAtomic ⟨true, none, .user⟩ plainInit ↔
      true = false ∨ (connectStages plainInit.supply).1 = .launched :=
  connectAtomic_iff ⟨true, none, .user⟩ rfl

/-- **The first allocation fails.** The fresh client stays in the state `CONNECTING`, so that
no later call can connect it. -/
theorem not_connectAtomic_firstAllocation :
    ∃ w, w = { plainInit with supply := [false] } ∧ w.state = .inited ∧
      (pcConnectWith ⟨true, none, .user⟩ w).2 = false ∧
      (pcConnectWith ⟨true, none, .user⟩ w).1.state = .connecting ∧
      (∀ args, (pcConnectWith args (pcConnectWith ⟨true, none, .user⟩ w).1).2 = false) ∧
      ¬ ConnectAtomic ⟨true, none, .user⟩ w := by
  refine ⟨_, rfl, rfl, rfl, rfl, fun args => rfl, fun hatomic => ?_⟩
  have hkept : ClientState.connecting = .inited := hatomic.state rfl
  exact absurd hkept (by decide)

end Libpomelo
