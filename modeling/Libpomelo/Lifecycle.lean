import Libpomelo.Turns

/-!
# The life cycle of a connection

Three facts tie the state of the client to its transports, in every state that a run
reaches and, inside a handler, after every move:

* a working transport is the current one;
* there is none while the client is `INITED`, `CONNECTING` or `CLOSED`;
* the request map is empty while the client is `INITED` or `CONNECTING`.

`DISCONNECTING` is left out on purpose: `pc_client_disconnect` sets it from any state and
from another thread.
-/

namespace Libpomelo

/-- **The life cycle.** -/
structure World.Lifecycle (w : World) : Prop where
  /-- a working transport is the current one -/
  current : ∀ t, w.working t = true → w.transport = some t
  /-- nothing works before the connect and after the close -/
  idle : w.state = .inited ∨ w.state = .connecting ∨ w.state = .closed →
    ∀ t, w.working t = false
  /-- a connection starts without requests -/
  fresh : w.state = .inited ∨ w.state = .connecting → w.requests = []

/-! ## Transports -/

section Transports

variable {w : World}

theorem length_closeSocket (t : ℕ) (transports : List TransportState) :
    (closeSocket t transports).length = transports.length := by
  rw [closeSocket]
  split
  · exact List.length_set
  · exact List.length_set
  · rfl

/-- After `uv_close` the transport does not work, and the others are as before. -/
theorem working_closeSocket (t t' : ℕ) (transports : List TransportState) :
    (closeSocket t transports)[t']? = some .working ↔
      t' ≠ t ∧ transports[t']? = some .working := by
  rw [closeSocket]
  split
  · next h =>
    rw [List.getElem?_set]
    by_cases htt : t = t'
    · subst htt
      simp [h]
    · simp [htt, Ne.symm htt]
  · next h =>
    rw [List.getElem?_set]
    by_cases htt : t = t'
    · subst htt
      rw [if_pos rfl]
      split <;> simp
    · simp [htt, Ne.symm htt]
  · next h =>
    constructor
    · intro hwork
      refine ⟨?_, hwork⟩
      rintro rfl
      exact h hwork
    · exact And.right

/-- A new transport does not count among those in another state. -/
theorem getElem?_concat_ne {transports : List TransportState} {s s' : TransportState} (hs : s ≠ s')
    (t : ℕ) : (transports ++ [s])[t]? = some s' ↔ transports[t]? = some s' := by
  rw [List.getElem?_append]
  split
  · exact Iff.rfl
  · next hlen =>
    have hnone : transports[t]? = none := List.getElem?_eq_none (by omega)
    rw [hnone]
    constructor
    · intro h
      have hmem : s' ∈ [s] := List.mem_of_getElem? h
      exact absurd (List.mem_singleton.1 hmem).symm hs
    · intro h
      exact absurd h (by simp)

/-- Without the current transport nothing works. -/
theorem World.Lifecycle.working_dropTransport (h : w.Lifecycle) (t : ℕ) :
    (dropTransport w).working t = false := by
  by_contra hwork
  rw [Bool.not_eq_false, World.working, decide_eq_true_eq, dropTransport] at hwork
  dsimp only at hwork
  split at hwork
  · next t₀ ht₀ =>
    rw [working_closeSocket] at hwork
    have hcur := h.current t (by rw [World.working, decide_eq_true_eq]; exact hwork.2)
    rw [ht₀] at hcur
    exact hwork.1 (Option.some.inj hcur).symm
  · next hnone =>
    have hcur := h.current t (by rw [World.working, decide_eq_true_eq]; exact hwork)
    rw [hnone] at hcur
    exact absurd hcur (by simp)

/-- Nothing works while there is no current transport. -/
theorem World.Lifecycle.not_working (h : w.Lifecycle) (hnone : w.transport = none) (t : ℕ) :
    w.working t = false := by
  by_contra hwork
  have hcur := h.current t (by simpa using hwork)
  rw [hnone] at hcur
  exact absurd hcur (by simp)

end Transports

/-! ## Moves -/

section Moves

variable {cfg : Config} {begins : Bool} {w w' : World}

/-- A change that neither starts nor ends a transport and adds no request. -/
theorem World.Lifecycle.of_eq (h : w.Lifecycle) (hstate : w'.state = w.state)
    (htransport : w'.transport = w.transport) (hwork : w'.working = w.working)
    (hrequests : w.requests = [] → w'.requests = []) : w'.Lifecycle := by
  refine ⟨?_, ?_, ?_⟩
  · rw [hwork, htransport]
    exact h.current
  · rw [hwork, hstate]
    exact h.idle
  · rw [hstate]
    exact fun hst => hrequests (h.fresh hst)

/-- Where nothing works, only the requests count. -/
theorem World.Lifecycle.of_not_working (hwork : ∀ t, w.working t = false)
    (hfresh : w.state = .inited ∨ w.state = .connecting → w.requests = []) : w.Lifecycle := by
  refine ⟨?_, fun _ => hwork, hfresh⟩
  intro t ht
  rw [hwork t] at ht
  exact absurd ht (by decide)

/-- The same transports work. -/
theorem working_congr (h : ∀ t : ℕ, w'.transports[t]? = some TransportState.working ↔
      w.transports[t]? = some TransportState.working) : w'.working = w.working := by
  funext t
  rw [World.working, World.working]
  exact decide_eq_decide.2 (h t)

theorem Move.lifecycle (h : Move cfg begins w w') (hw : w.Lifecycle) : w'.Lifecycle := by
  cases h with
  | inert w' hin _ =>
    rw [hin.eq]
    exact hw.of_eq rfl rfl rfl id
  | shook w' _ _ hin _ _ _ =>
    rw [hin.eq]
    exact hw.of_eq rfl rfl rfl id
  | enlist i t data req hi hworking _ _ _ =>
    -- a working transport excludes the states that ask for an empty map
    refine ⟨hw.current, hw.idle, ?_⟩
    intro hst
    have hidle := hw.idle (hst.imp_right .inl) req.transport
    rw [hworking] at hidle
    exact absurd hidle (by decide)
  | unlink id =>
    refine hw.of_eq rfl rfl rfl ?_
    intro hnil
    rw [requestsDel, hnil]
    rfl
  | release id req before after hsplit =>
    refine hw.of_eq rfl rfl rfl ?_
    intro hnil
    rw [hnil] at hsplit
    exact absurd hsplit (by simp)
  | respond t raw rest req before after hsplit _ _ _ =>
    refine hw.of_eq rfl rfl rfl ?_
    intro hnil
    rw [hnil] at hsplit
    exact absurd hsplit (by simp)
  | lateCb write req _ _ =>
    refine hw.of_eq rfl rfl rfl ?_
    intro hnil
    rw [requestsDel, hnil]
    rfl
  | beginReset _ _ _ _ => exact .of_not_working hw.working_dropTransport hw.fresh
  | reset delay _ hnil hin =>
    exact .of_not_working (hw.not_working hin.transport) fun _ => hnil
  | closeInited _ hst =>
    refine ⟨hw.current, fun _ => hw.idle (.inl hst), ?_⟩
    intro hcl
    exact absurd hcl (by simp)
  | close _ _ _ =>
    refine .of_not_working hw.working_dropTransport ?_
    intro hcl
    exact absurd hcl (by simp)
  | disconnect =>
    refine ⟨hw.current, ?_, ?_⟩
    · intro hst
      exact absurd hst (by simp [disconnectSet, World.note])
    · intro hst
      exact absurd hst (by simp [disconnectSet, World.note])
  | _ => exact hw.of_eq rfl rfl rfl id

theorem Link.lifecycle (h : Link cfg w w') (hw : w.Lifecycle) : w'.Lifecycle := by
  cases h with
  | move hm => exact hm.lifecycle hw
  | connecting hst =>
    exact .of_not_working (hw.idle (.inl hst)) fun _ => hw.fresh (.inl hst)
  | transportNew => exact hw.of_eq rfl rfl (working_congr (getElem?_concat_ne (by decide))) id
  | launch req => exact hw.of_eq rfl rfl (working_congr (getElem?_concat_ne (by decide))) id
  | refused i t req _ _ =>
    refine ⟨?_, ?_, hw.fresh⟩
    · intro t' hwork
      simp only [World.working, transportDestroy, decide_eq_true_eq, working_closeSocket] at hwork
      exact hw.current t' (decide_eq_true hwork.2)
    · intro hst t'
      have hidle := hw.idle hst t'
      simp only [World.working, transportDestroy, decide_eq_false_iff_not, working_closeSocket]
        at hidle ⊢
      exact fun hwork => hidle hwork.2
  | connected i t req _ hst _ =>
    -- nothing worked so far, so only the new transport can
    have hidle := hw.idle (.inr (.inl hst))
    refine ⟨?_, ?_, ?_⟩
    · intro t' hwork
      by_cases htt : t = t'
      · rw [← htt]
        rfl
      · have hold := hidle t'
        simp only [World.working, transportStart, decide_eq_true_eq, decide_eq_false_iff_not]
          at hwork hold
        split at hwork
        · rw [List.getElem?_set_ne htt] at hwork
          exact absurd hwork hold
        · exact absurd hwork hold
    · intro hcl
      exact absurd hcl (by simp [transportStart])
    · intro hcl
      exact absurd hcl (by simp [transportStart])
  | acked t write working listed _ _ _ _ =>
    refine ⟨hw.current, ?_, ?_⟩
    · intro hcl
      exact absurd hcl (by simp [World.note])
    · intro hcl
      exact absurd hcl (by simp [World.note])
  | _ => exact hw.of_eq rfl rfl rfl id

end Moves

/-! ## Runs -/

theorem lifecycle_init (reqId : ℕ) (files : ProtoFiles) : (World.init reqId files).Lifecycle :=
  .of_not_working (fun _ => rfl) fun _ => rfl

/-- When nothing is left to wait for, nothing works. -/
theorem not_working_of_loopIdle {w : World} (h : loopIdle w = true) (t : ℕ) :
    w.working t = false := by
  simp only [loopIdle, Bool.and_eq_true, List.all_eq_true, decide_eq_true_eq] at h
  obtain ⟨⟨⟨⟨⟨-, hall⟩, -⟩, -⟩, -⟩, -⟩ := h
  rw [World.working, decide_eq_false_iff_not]
  intro hwork
  exact hall _ (List.mem_of_getElem? hwork) rfl

theorem World.Lifecycle.loopEnd {w : World} (hidle : loopIdle w = true) :
    { w with worker := .ended, state := .closed }.Lifecycle := by
  refine .of_not_working (not_working_of_loopIdle hidle) ?_
  intro hcl
  exact absurd hcl (by simp)

/-- **The life cycle is kept.** -/
theorem kept_lifecycle {cfg : Config} : Kept cfg World.Lifecycle where
  init := lifecycle_init
  link _ _ hw hlink := hlink.lifecycle hw
  threads _ _ _ _ hw := hw.of_eq rfl rfl rfl id
  start _ _ hw _ _ := hw.of_eq rfl rfl rfl id
  finish _ hw := hw.of_eq rfl rfl rfl id
  loopEnd _ _ hidle := .loopEnd hidle

theorem reach_lifecycle {cfg : Config} {ok : World → List Bool × Label → World → Prop} {w : World}
    (h : (clientLts cfg).Reach ok w) : w.Lifecycle :=
  kept_lifecycle.reach h

/-! ## Closing -/

/-- **How a client ends.** Without reconnect it is not `INITED` again, and `CLOSED` means that
`close_async` was closed, too; both once it has been connected. -/
structure World.Shuts (cfg : Config) (w : World) : Prop where
  /-- no second beginning -/
  inited : cfg.enableReconnect = false → w.state ≠ .inited
  /-- the handle goes with the client -/
  closed : w.state = .closed → w.closeAsync = false

section Closing

variable {cfg : Config} {begins : Bool} {w w' : World}

theorem World.Shuts.of_eq (h : w.Shuts cfg) (hstate : w'.state = w.state)
    (hasync : w'.closeAsync = w.closeAsync) : w'.Shuts cfg := by
  refine ⟨?_, ?_⟩
  · rw [hstate]
    exact h.inited
  · rw [hstate, hasync]
    exact h.closed

/-- Nothing is claimed of the states in between. -/
theorem World.Shuts.of_state (hinited : w.state ≠ .inited) (hclosed : w.state ≠ .closed) :
    w.Shuts cfg :=
  ⟨fun _ => hinited, fun hst => absurd hst hclosed⟩

theorem Move.shuts (h : Move cfg begins w w') (hw : w.Shuts cfg) : w'.Shuts cfg := by
  cases h with
  | inert w' hin _ =>
    rw [hin.eq]
    exact hw.of_eq rfl rfl
  | shook w' _ _ hin _ _ _ =>
    rw [hin.eq]
    exact hw.of_eq rfl rfl
  | reset _ hyes _ _ =>
    refine ⟨?_, fun hst => absurd hst (by simp [World.note])⟩
    intro hno
    rw [hno] at hyes
    exact absurd hyes (by decide)
  | closeInited hno hst => exact absurd hst (hw.inited hno)
  | close _ _ _ => exact ⟨fun _ => by simp, fun _ => rfl⟩
  | disconnect => exact .of_state (by simp [disconnectSet, World.note]) (by simp [disconnectSet, World.note])
  | _ => exact hw.of_eq rfl rfl

theorem Link.shuts (h : Link cfg w w') (hw : w.Shuts cfg) : w'.Shuts cfg := by
  cases h with
  | move hm => exact hm.shuts hw
  | connecting => exact .of_state (by simp) (by simp)
  | connected => exact .of_state (by simp [transportStart]) (by simp [transportStart])
  | acked => exact .of_state (by simp [World.note]) (by simp [World.note])
  | _ => exact hw.of_eq rfl rfl

/-- The loop ends only after `close_async` was closed. -/
theorem closeAsync_of_loopIdle (h : loopIdle w = true) : w.closeAsync = false := by
  simp only [loopIdle, Bool.and_eq_true, Bool.not_eq_true'] at h
  exact h.1.1.1.1.1.1.1.1

theorem stable_shuts : Stable cfg (World.Shuts cfg) where
  link _ _ hw hlink := hlink.shuts hw
  threads _ _ _ _ hw := hw.of_eq rfl rfl
  start _ _ hw _ _ := hw.of_eq rfl rfl
  finish _ hw := hw.of_eq rfl rfl
  loopEnd _ _ hidle := ⟨fun _ => by simp, fun _ => closeAsync_of_loopIdle hidle⟩

end Closing

end Libpomelo
