import SyntriassOverlay.Accord

/-!
# Two endpoints and the channel between them

An initiator and a responder that call `overlay_send` and `overlay_recv`, in any
interleaving, over a pair of FIFO byte channels. Each endpoint runs one call at a
time, as the lock of its descriptor has it. The real `send` moves any part of its
buffer into the channel, the real `recv` takes any part of what is in it, and both
may say that they would block.
-/

namespace SyntriassOverlay
open Crypto Resumption

/-- A call of the application, with flags 0. -/
inductive IoCall where
  | send (plaintext : Bytes) (fuel : ℕ)
  | recv (len : ℕ) (hlen : 0 < len) (fuel : ℕ)

def IoCall.call : IoCall → FdCall
  | .send plaintext fuel => .send plaintext 0 fuel
  | .recv len hlen fuel => .recv len hlen 0 fuel

def Role.peer : Role → Role
  | .initiator => .responder
  | .responder => .initiator

@[simp] theorem Role.peer_peer (ρ : Role) : ρ.peer.peer = ρ := by cases ρ <;> rfl
@[simp] theorem Role.peer_ne (ρ : Role) : ρ.peer ≠ ρ := by cases ρ <;> decide
@[simp] theorem Role.ne_peer (ρ : Role) : ρ ≠ ρ.peer := by cases ρ <;> decide

theorem Role.eq_or_eq_peer (ρ σ : Role) : σ = ρ ∨ σ = ρ.peer := by
  cases ρ <;> cases σ <;> decide

/-- One end of a connection with everything done on it. -/
structure Endpoint where
  start : FdState
  log : List (IoCall × FdRet)
  trace : Tr
  status : Status Resp IoCall FdState FdRet

/-- The two ends, and the bytes on the way from each of them to the other. -/
structure Connection where
  ends : Role → Endpoint
  wire : Role → Bytes

def Connection.start (st : Role → FdState) : Connection where
  ends ρ := ⟨st ρ, [], [], .idle (st ρ)⟩
  wire _ := []

def Connection.put (c : Connection) (ρ : Role) (e : Endpoint) : Connection :=
  { c with ends := Function.update c.ends ρ e }

/-- The connection with a new end `ρ` and new channels from and to it. -/
def Connection.after (c : Connection) (ρ : Role) (e : Endpoint) (w : Bytes × Bytes) :
    Connection where
  ends := Function.update c.ends ρ e
  wire := Function.update (Function.update c.wire ρ w.1) ρ.peer w.2

inductive Connection.Step (P : Primitives) (env : Role → Env) (c : Connection) : Connection → Prop
  | enter (ρ : Role) {s : FdState} (hs : (c.ends ρ).status = .idle s) (i : IoCall) :
      Step P env c (c.put ρ { c.ends ρ with status := .busy i (i.call.run P s) })
  | answer (ρ : Role) {i : IoCall} {s : FdState} {o : Op} {k : Resp o → Prog Resp FdState FdRet}
      (hs : (c.ends ρ).status = .busy i (.call s o k)) (a : Resp o) (ha : (env ρ).Allows o a)
      {rest : Bytes} (hin : c.wire ρ.peer = Ev.received ⟨o, a⟩ ++ rest) :
      Step P env c (c.after ρ
        { c.ends ρ with trace := (c.ends ρ).trace ++ [⟨o, a⟩], status := .busy i (k a) }
        (c.wire ρ ++ Ev.sent ⟨o, a⟩, rest))
  | leave (ρ : Role) {i : IoCall} {s : FdState} {a : FdRet}
      (hs : (c.ends ρ).status = .busy i (.done s a)) :
      Step P env c (c.put ρ { c.ends ρ with
        log := (c.ends ρ).log ++ [(i, a)], status := .idle s })

inductive Connection.Reachable (P : Primitives) (env : Role → Env) (c₀ : Connection) :
    Connection → Prop
  | start : Reachable P env c₀ c₀
  | step {c c' : Connection} :
      Reachable P env c₀ c → Connection.Step P env c c' → Reachable P env c₀ c'

/-! ### What holds in every reachable state -/

structure Connection.Ok (P : Primitives) (env : Role → Env) (st : Role → FdState)
    (c : Connection) : Prop where
  start : ∀ ρ, (c.ends ρ).start = st ρ
  run : ∀ ρ, Reach (fun i : IoCall => i.call.run P) (st ρ) (c.ends ρ).log (c.ends ρ).trace
    (c.ends ρ).status
  steady : ∀ ρ, (env ρ).Steady (c.ends ρ).trace
  fifo : ∀ ρ, sentBytes (c.ends ρ).trace = receivedBytes (c.ends ρ.peer).trace ++ c.wire ρ

section
variable {P : Primitives} {env : Role → Env} {st : Role → FdState} {c c' : Connection}

theorem Connection.Ok.put (h : c.Ok P env st) (ρ : Role) {e : Endpoint}
    (hstart : e.start = (c.ends ρ).start) (htrace : e.trace = (c.ends ρ).trace)
    (hrun : Reach (fun i : IoCall => i.call.run P) (st ρ) e.log e.trace e.status) :
    (c.put ρ e).Ok P env st := by
  have hends : ∀ σ, (c.put ρ e).ends σ = if σ = ρ then e else c.ends σ := by
    intro σ
    simp [Connection.put, Function.update_apply]
  have htr : ∀ σ, ((c.put ρ e).ends σ).trace = (c.ends σ).trace := by
    intro σ
    rw [hends]
    split
    · rename_i hσ
      rw [htrace, hσ]
    · rfl
  refine ⟨fun σ => ?_, fun σ => ?_, fun σ => ?_, fun σ => ?_⟩
  · rw [hends]
    split
    · rename_i hσ
      rw [hstart, h.start, hσ]
    · exact h.start σ
  · rw [hends]
    split
    · rename_i hσ
      exact hσ ▸ hrun
    · exact h.run σ
  · rw [htr]
    exact h.steady σ
  · rw [htr, htr]
    exact h.fifo σ

theorem Connection.Ok.step (h : c.Ok P env st) (hs : Connection.Step P env c c') :
    c'.Ok P env st := by
  cases hs with
  | enter ρ hs i =>
    have hrun := h.run ρ
    rw [hs] at hrun
    exact h.put ρ rfl rfl (hrun.enter i)
  | leave ρ hs =>
    have hrun := h.run ρ
    rw [hs] at hrun
    exact h.put ρ rfl rfl hrun.leave
  | @answer ρ i s o k hs a ha rest hin =>
    have hrun := h.run ρ
    rw [hs] at hrun
    have hrun' := hrun.answer a
    have hout := h.fifo ρ
    have hback := h.fifo ρ.peer
    rw [hin] at hback
    rw [Role.peer_peer] at hback
    refine ⟨fun σ => ?_, fun σ => ?_, fun σ => ?_, fun σ => ?_⟩ <;>
      rcases ρ.eq_or_eq_peer σ with rfl | rfl
    · simpa [Connection.after] using h.start σ
    · simpa [Connection.after] using h.start ρ.peer
    · simpa [Connection.after] using hrun'
    · simpa [Connection.after] using h.run ρ.peer
    · intro e he
      simp only [Connection.after, Function.update_self, List.mem_append,
        List.mem_singleton] at he
      rcases he with he | rfl
      · exact h.steady σ e he
      · exact ha
    · simpa [Connection.after] using h.steady ρ.peer
    · have hone : sentBytes [(⟨o, a⟩ : Ev Resp)] = Ev.sent ⟨o, a⟩ := List.append_nil _
      simp [Connection.after, hout, hone]
    · have hone : receivedBytes [(⟨o, a⟩ : Ev Resp)] = Ev.received ⟨o, a⟩ := List.append_nil _
      simp [Connection.after, hback, hone]

theorem Connection.Reachable.ok (h : Connection.Reachable P env (.start st) c) :
    c.Ok P env st := by
  induction h with
  | start => exact ⟨fun _ => rfl, fun _ => .start, fun _ e he => (by cases he), fun _ => rfl⟩
  | step _ hs ih => exact ih.step hs

end

/-! ### Endpoints at rest or waiting for the kernel -/

/-- The state of an endpoint that runs no call, has just finished one, or waits in a
real `send` or `recv`. Between these points an endpoint holds its lock. -/
def Endpoint.observed (e : Endpoint) : Option FdState :=
  match e.status with
  | .idle s => some s
  | .busy _ (.done s _) => some s
  | .busy _ (.call s (.send _ _) _) => some s
  | .busy _ (.call s (.recv _) _) => some s
  | _ => none

section
variable {P : Primitives} {env : Role → Env} {st : Role → FdState} {c : Connection}

theorem IoCall.inside (i : IoCall) : i.call.outside = true → False := by
  cases i <;> simp [IoCall.call, FdCall.outside]

theorem Connection.Ok.held (h : c.Ok P env st) {ρ : Role} (hb : (env ρ).Begins (st ρ)) :
    Held (ioInv P False (st ρ))
      (fun l t s => AtRest P False (st ρ) (l.map (Prod.map IoCall.call id)) t s)
      (c.ends ρ).log (c.ends ρ).trace (c.ends ρ).status :=
  run_held IoCall.call IoCall.inside hb.sound (fun _ => by rw [hb.rxWire]; rfl) (h.run ρ)

/-- An observed endpoint is between two steps, and no record waits. -/
theorem Connection.Ok.history (h : c.Ok P env st) {ρ : Role} (hb : (env ρ).Begins (st ρ))
    (hroom : noted .limitExceeded ∉ (c.ends ρ).trace) {s : FdState}
    (hs : (c.ends ρ).observed = some s) : History P False (st ρ) (c.ends ρ).trace s none := by
  have hheld := h.held hb
  rw [Endpoint.observed] at hs
  rcases hstatus : (c.ends ρ).status with s' | ⟨i, ⟨s', a⟩ | ⟨s', o, k⟩ | s'⟩ <;>
    rw [hstatus] at hs hheld
  · cases hs
    exact hheld.history
  · cases hs
    exact (hheld : AtRest _ _ _ _ _ _).history
  · have hinv : (ioInv P False (st ρ)).call (c.ends ρ).trace s' o := hheld.1
    cases o with
    | send buf flags =>
      cases hs
      obtain ⟨-, -, -, pd, hpd, hh⟩ := hinv
      obtain rfl := hpd.resolve_right hroom
      exact hh
    | recv flags =>
      cases hs
      exact hinv.2.2.2
    | _ => cases hs
  · cases hs

end

/-! ### Running a connection -/

/-- The answers of a steady environment on a non-blocking descriptor, where `w` holds
the channels from and to the endpoint: a `send` is taken whole, a `recv` gets all it
has room for. -/
def Env.answer (env : Env) (eph : Ephemeral) (nonce : ByteArr 16) :
    (o : Op) → Bytes × Bytes → Resp o × (Bytes × Bytes)
  | .send buf _, w =>
    if h : 0 < buf.length then (.sent buf.length ⟨h, le_rfl⟩, (w.1 ++ buf, w.2)) else (.zero, w)
  | .recv _, w =>
    if h : 0 < w.2.length then
      (.data (w.2.take pullSize) ⟨by simp [h, pullSize], by simp⟩, (w.1, w.2.drop pullSize))
    else (.error EAGAIN, w)
  | .getfl, w => (some oNonblock, w)
  | .getpid, w => (env.pid, w)
  | .configEpoch, w => (env.epoch, w)
  | .resolvePolicy, w => (some env.suite, w)
  | .resolveIdentity, w => (.ok env.identity, w)
  | .pqcControlAvailable, w => (env.available, w)
  | .resolveFallbackPsk, w => (env.psk, w)
  | .ephemeral, w => (eph, w)
  | .freshNonce, w => (nonce, w)
  | .note _, w => ((), w)

section
variable {P : Primitives} {env : Role → Env} (eph : Ephemeral) (nonce : ByteArr 16)
  {c₀ c : Connection}

theorem Env.answer_allows (env : Env) (o : Op) (w : Bytes × Bytes) :
    env.Allows o (env.answer eph nonce o w).1 := by
  cases o with
  | send buf flags =>
    by_cases h : 0 < buf.length <;> simp [Env.answer, h, Env.Allows]
  | recv flags =>
    by_cases h : 0 < w.2.length
    · simp [Env.answer, h, Env.Allows]
    · simp [Env.answer, h, Env.Allows, wouldBlock]
  | _ => simp [Env.answer, Env.Allows]

theorem Env.answer_moves (env : Env) (o : Op) (w : Bytes × Bytes) :
    (env.answer eph nonce o w).2.1 = w.1 ++ Ev.sent ⟨o, (env.answer eph nonce o w).1⟩ ∧
      w.2 = Ev.received ⟨o, (env.answer eph nonce o w).1⟩ ++ (env.answer eph nonce o w).2.2 := by
  cases o with
  | send buf flags =>
    by_cases h : 0 < buf.length <;> simp [Env.answer, h, Ev.sent, Ev.received]
  | recv flags =>
    by_cases h : 0 < w.2.length <;> simp [Env.answer, h, Ev.sent, Ev.received]
  | _ => simp [Env.answer, Ev.sent, Ev.received]

theorem Env.runWith_steady {σ α : Type} (env : Env) (n : ℕ) (p : Prog Resp σ α)
    (w : Bytes × Bytes) : env.Steady (runWith (env.answer eph nonce) n p w).2.1 := by
  induction n generalizing p w with
  | zero => exact fun e he => (by cases he)
  | succ n ih =>
    cases p with
    | done | cut => exact fun e he => (by cases he)
    | call s o k =>
      intro e he
      rcases List.mem_cons.mp he with rfl | he
      · exact env.answer_allows eph nonce o w
      · exact ih _ _ e he

/-- The session that a constructor builds in the environment. -/
def Env.built (env : Env) (new : Act Resp Unit FdState) : Option FdState :=
  match runWith (env.answer eph nonce) 10 (new ()) ([], []) with
  | (.done _ st, _, _) => some st
  | _ => none

theorem Env.built_at {env : Env} {new : Act Resp Unit FdState} {st : FdState}
    (h : env.built eph nonce new = some st) :
    ∃ t, env.Steady t ∧ At (new ()) t (.done () st) := by
  unfold Env.built at h
  split at h
  · rename_i u s t w hrun
    cases h
    refine ⟨t, ?_, ?_⟩
    · have hsteady := env.runWith_steady eph nonce 10 (new ()) ([], [])
      rwa [hrun] at hsteady
    · have hat := at_runWith (env.answer eph nonce) 10 (new ()) ([], [])
      rwa [hrun] at hat
  · cases h

theorem Connection.after_self (c : Connection) (ρ : Role) :
    c.after ρ (c.ends ρ) (c.wire ρ, c.wire ρ.peer) = c := by
  simp [Connection.after]

@[simp] theorem Connection.after_ends (c : Connection) (ρ : Role) (e : Endpoint)
    (w : Bytes × Bytes) : (c.after ρ e w).ends ρ = e := Function.update_self _ _ _

@[simp] theorem Connection.after_wire (c : Connection) (ρ : Role) (e : Endpoint)
    (w : Bytes × Bytes) : (c.after ρ e w).wire ρ = w.1 := by simp [Connection.after]

@[simp] theorem Connection.after_wire_peer (c : Connection) (ρ : Role) (e : Endpoint)
    (w : Bytes × Bytes) : (c.after ρ e w).wire ρ.peer = w.2 := Function.update_self _ _ _

theorem Connection.after_after (c : Connection) (ρ : Role) (e e' : Endpoint)
    (w w' : Bytes × Bytes) : (c.after ρ e w).after ρ e' w' = c.after ρ e' w' := by
  rcases ρ with _ | _ <;> simp only [Connection.after, Function.update_idem] <;>
    congr 1 <;> funext σ <;> cases σ <;> rfl

theorem Connection.Reachable.runWith (h : Connection.Reachable P env c₀ c) (ρ : Role) (n : ℕ)
    {i : IoCall} {p : Prog Resp FdState FdRet} (hs : (c.ends ρ).status = .busy i p) :
    let r := runWith ((env ρ).answer eph nonce) n p (c.wire ρ, c.wire ρ.peer)
    Connection.Reachable P env c₀ (c.after ρ
      { c.ends ρ with trace := (c.ends ρ).trace ++ r.2.1, status := .busy i r.1 } r.2.2) := by
  have hstay : ∀ {c p}, Connection.Reachable P env c₀ c → (c.ends ρ).status = .busy i p →
      Connection.Reachable P env c₀ (c.after ρ
        { c.ends ρ with trace := (c.ends ρ).trace ++ [], status := .busy i p }
        (c.wire ρ, c.wire ρ.peer)) := by
    intro c p h hs
    rwa [List.append_nil, ← hs, c.after_self]
  induction n generalizing p c with
  | zero => exact hstay h hs
  | succ n ih =>
    cases p with
    | done | cut => exact hstay h hs
    | call s o k =>
      obtain ⟨hout, hin⟩ :=
        (env ρ).answer_moves eph nonce o (c.wire ρ, c.wire ρ.peer)
      have hstep := h.step (.answer ρ hs _
        ((env ρ).answer_allows eph nonce o (c.wire ρ, c.wire ρ.peer)) hin)
      rw [← hout] at hstep
      have hnext := ih hstep (p := k ((env ρ).answer eph nonce o (c.wire ρ, c.wire ρ.peer)).1)
        (by rw [Connection.after_ends])
      simpa [Connection.after_after, Resumption.runWith] using hnext

/-- The end `ρ` makes the call `i`, for at most `n` answers; when it does not return
by then nothing is done. -/
def Connection.play (P : Primitives) (env : Role → Env) (n : ℕ) (ρ : Role) (i : IoCall)
    (c : Connection) : Connection :=
  match (c.ends ρ).status with
  | .idle s =>
    match Resumption.runWith ((env ρ).answer eph nonce) n (i.call.run P s)
        (c.wire ρ, c.wire ρ.peer) with
    | (.done s' a, t, w) =>
      c.after ρ ⟨(c.ends ρ).start, (c.ends ρ).log ++ [(i, a)], (c.ends ρ).trace ++ t, .idle s'⟩ w
    | _ => c
  | .busy _ _ => c

theorem Connection.Reachable.play (h : Connection.Reachable P env c₀ c) (n : ℕ) (ρ : Role)
    (i : IoCall) : Connection.Reachable P env c₀ (c.play eph nonce P env n ρ i) := by
  unfold Connection.play
  split
  · rename_i s hs
    split
    · rename_i s' a t w hrun
      have hbusy := (h.step (.enter ρ hs i)).runWith eph nonce ρ n (i := i) (p := i.call.run P s)
        (by simp [Connection.put])
      have hwire : (c.put ρ { c.ends ρ with status := .busy i (i.call.run P s) }).wire = c.wire :=
        rfl
      simp only [hwire, hrun] at hbusy
      have hleave := hbusy.step (.leave ρ (by rw [Connection.after_ends]))
      simpa [Connection.after, Connection.put] using hleave
    · exact h
  · exact h

end

end SyntriassOverlay
