import SyntriassOverlay.Process
import SyntriassOverlay.Crypto.Specimen

/-!
# An executable scheduler

The step relation of `Process` leaves the next thread and every answer open. Here
both are computed: `tick` takes the next step of one thread, with the answers of a
scripted kernel. What `tick` does is a step, so that whole calls can be run and
their result is a reachable process.
-/

namespace SyntriassOverlay
open Crypto Resumption

/-- A kernel, configuration and random source with fixed answers. `room` is how
much the next `send`s take and `incoming` what the next `recv`s give; when they are
used up the descriptor would block. An empty piece is the end of the stream. -/
structure Kernel where
  policy : Option CipherSuite
  identity : Except CryptoError IdentityMaterial
  available : Bool
  psk : Option (ByteArr 32)
  eph : Ephemeral
  nonce : ByteArr 16
  epoch : ℕ
  flags : ℕ
  soType : Option ℕ
  real : RealRet
  room : List ℕ
  incoming : List Bytes

namespace Kernel

def takeUpTo (n len : ℕ) : SendResult len :=
  if h : 0 < min n len ∧ min n len ≤ len then .sent (min n len) h else .zero

def give (d : Bytes) : RecvResult :=
  if h : 0 < d.length ∧ d.length ≤ pullSize then .data d h else .eof

def answer (k : Kernel) (pid : Pid) : (o : Op) → Resp o × Kernel
  | .send buf _ =>
    match k.room with
    | [] => (.error EAGAIN, k)
    | n :: ns => (takeUpTo n buf.length, { k with room := ns })
  | .recv _ =>
    match k.incoming with
    | [] => (.error EAGAIN, k)
    | d :: ds => (give d, { k with incoming := ds })
  | .getfl => (some k.flags, k)
  | .getpid => (pid, k)
  | .configEpoch => (k.epoch, k)
  | .resolvePolicy => (k.policy, k)
  | .resolveIdentity => (k.identity, k)
  | .pqcControlAvailable => (k.available, k)
  | .resolveFallbackPsk => (k.psk, k)
  | .ephemeral => (k.eph, k)
  | .freshNonce => (k.nonce, k)
  | .note _ => ((), k)

theorem answer_answers (k : Kernel) (pid : Pid) (o : Op) : Answers pid o (k.answer pid o).1 := by
  cases o <;> trivial

end Kernel

/-- What a hook gets for the return of a session call. -/
def HookOp.returned : (o : HookOp) → FdRet → Option (HookResp o)
  | .overlaySend _ _ _ _, .sent r => some r
  | .overlayRecv _ _ _ _ _, .received r => some r
  | _, _ => none

theorem HookOp.enters_some {o : HookOp} {h : Handle} {c : FdCall} (he : o.enters = some (h, c)) :
    ∃ a r, Enters o h c a r := by
  cases o with
  | overlaySend h plaintext flags fuel =>
    cases he
    exact ⟨_, _, .send h plaintext flags fuel (.ok 0)⟩
  | overlayRecv h len hlen flags fuel =>
    cases he
    exact ⟨_, _, .recv h len hlen flags fuel (.ok [])⟩
  | _ => cases he

theorem HookOp.returned_some {o : HookOp} {h : Handle} {c : FdCall} {a : FdRet} {r : HookResp o}
    (he : o.enters = some (h, c)) (hr : o.returned a = some r) : Enters o h c a r := by
  cases o with
  | overlaySend h plaintext flags fuel =>
    cases he
    cases a <;> cases hr
    exact .send h plaintext flags fuel r
  | overlayRecv h len hlen flags fuel =>
    cases he
    cases a <;> cases hr
    exact .recv h len hlen flags fuel r
  | _ => cases he

namespace Process

/-- The answer to a call of a hook that enters no session, and what it does. -/
def serve (p : Process) (k : Kernel) (birth : Trace HookResp) :
    (o : HookOp) → Option (HookResp o × Process × Kernel)
  | .containsKey fd => some ((p.registry fd).isSome, p, k)
  | .lookup fd => some (p.registry fd, p, k)
  | .soType _ => some (k.soType, p, k)
  | .query o => some ((k.answer p.pid o).1, p, (k.answer p.pid o).2)
  | .insert fd st => some ((), p.addSession fd (.new .initiator fd birth st), k)
  | .orInsert fd st =>
    if p.registry fd = none then some ((), p.addSession fd (.new .responder fd birth st), k)
    else some ((), p, k)
  | .remove fd => some ((), { p with registry := Function.update p.registry fd none }, k)
  | .blockedBypassAttempt => some ((), p, k)
  | .real _ => some (k.real, p, k)
  | .overlaySend _ _ _ _ | .overlayRecv _ _ _ _ _ => none

/-- The next step of thread `tid` inside the session it wants to enter or is in. -/
def tickSession (P : Primitives) (tid : Tid) (p : Process) (k : Kernel) (th : Thread) (o : HookOp)
    (kont : HookResp o → Prog HookResp Unit HookRet) (h : Handle) (c : FdCall) :
    Option (Process × Kernel) :=
  match p.sessions[h]? with
  | none => none
  | some se =>
    match se.status with
    | .idle s =>
      if se.holder = none then
        some (p.setSession h
          { se with status := .busy c (c.run P s), holder := some (.thread tid) }, k)
      else none
    | .busy c' (.call _ o' k') =>
      if se.holder = some (.thread tid) then
        let a := k.answer p.pid o'
        some (p.setSession h
          { se with trace := se.trace ++ [⟨o', a.1⟩], status := .busy c' (k' a.1) }, a.2)
      else none
    | .busy c' (.done s a) =>
      if se.holder = some (.thread tid) ∧ c' = c then
        (o.returned a).map fun r =>
          ((p.setSession h
            { se with log := se.log ++ [(c, a)], status := .idle s, holder := none }).setThread tid
              (some { th with trace := th.trace ++ [⟨o, r⟩], prog := kont r }), k)
      else none
    | .busy _ (.cut _) => none

/-- The next step of thread `tid`. -/
def tick (P : Primitives) (tid : Tid) (p : Process) (k : Kernel) : Option (Process × Kernel) :=
  match p.threads tid with
  | none => none
  | some th =>
    match th.prog with
    | .done _ _ => some ({ p.setThread tid none with finished := p.finished ++ [th] }, k)
    | .cut _ => none
    | .call _ o kont =>
      match o.enters with
      | some (h, c) => tickSession P tid p k th o kont h c
      | none =>
        (p.serve k th.trace o).map fun (r, p', k') =>
          (p'.setThread tid (some { th with trace := th.trace ++ [⟨o, r⟩], prog := kont r }), k')

/-- Run thread `tid` for at most `n` steps. -/
def play (P : Primitives) (tid : Tid) : ℕ → Process × Kernel → Process × Kernel
  | 0, s => s
  | n + 1, s =>
    match s.1.tick P tid s.2 with
    | some s' => play P tid n s'
    | none => s

/-- Call a hook in thread `tid`, if it is free, and run it. -/
def invoke (P : Primitives) (tid : Tid) (c : HookCall) (fuel n : ℕ) (s : Process × Kernel) :
    Process × Kernel :=
  match s.1.threads tid with
  | none => play P tid n (s.1.setThread tid
      (some ⟨c, fuel, [], c.run P fuel s.1.interpositionEnabled ()⟩), s.2)
  | some _ => s

variable {P : Primitives} {p p' : Process} {k k' : Kernel} {tid : Tid}

theorem serve_effect {birth : Trace HookResp} {o : HookOp} {r : HookResp o}
    (h : p.serve k birth o = some (r, p', k')) : Effect p birth o r p' := by
  cases o with
  | containsKey fd => cases h; exact .containsKey fd
  | lookup fd => cases h; exact .lookup fd
  | soType fd => cases h; exact .soType fd _
  | query o => cases h; exact .query o _ (k.answer_answers p.pid o)
  | insert fd st => cases h; exact .insert fd st
  | orInsert fd st =>
    simp only [serve] at h
    split at h
    · rename_i hvacant
      cases h
      exact .orInsertVacant fd st hvacant
    · rename_i hoccupied
      cases h
      exact .orInsertOccupied fd st hoccupied
  | remove fd => cases h; exact .remove fd
  | blockedBypassAttempt => cases h; exact .blockedBypassAttempt
  | real c => cases h; exact .real c _
  | overlaySend | overlayRecv => cases h

theorem tickSession_step {th : Thread} {o : HookOp}
    {kont : HookResp o → Prog HookResp Unit HookRet} {h : Handle} {c : FdCall}
    (htid : p.threads tid = some th) (hprog : th.prog = .call () o kont)
    (henter : o.enters = some (h, c))
    (ht : tickSession P tid p k th o kont h c = some (p', k')) : Process.Step P p p' := by
  unfold tickSession at ht
  cases hse : p.sessions[h]? with
  | none => simp [hse] at ht
  | some se =>
    simp only [hse] at ht
    cases hstatus : se.status with
    | idle s =>
      simp only [hstatus] at ht
      split at ht
      · rename_i hfree
        cases ht
        obtain ⟨a, r, he⟩ := HookOp.enters_some henter
        exact .lock htid hprog he hse hstatus hfree
      · cases ht
    | busy c' prog =>
      cases prog with
      | call s o' k' =>
        simp only [hstatus] at ht
        split at ht
        · rename_i hholder
          cases ht
          exact .answer hse hstatus (by simp [hholder]) _ (k.answer_answers p.pid o')
        · cases ht
      | done s a =>
        simp only [hstatus] at ht
        split at ht
        · rename_i hholder
          obtain ⟨hholder, rfl⟩ := hholder
          cases hr : o.returned a with
          | none => simp [hr] at ht
          | some r =>
            simp only [hr, Option.map_some, Option.some.injEq, Prod.mk.injEq] at ht
            rw [← ht.1]
            exact .unlock htid hprog (HookOp.returned_some henter hr) hse hstatus hholder
        · cases ht
      | cut s => simp [hstatus] at ht

theorem tick_step (h : p.tick P tid k = some (p', k')) : Process.Step P p p' := by
  unfold tick at h
  cases htid : p.threads tid with
  | none => simp [htid] at h
  | some th =>
    simp only [htid] at h
    cases hprog : th.prog with
    | done u a =>
      simp only [hprog, Option.some.injEq, Prod.mk.injEq] at h
      rw [← h.1]
      exact .leave htid hprog
    | cut u => simp [hprog] at h
    | call u o kont =>
      simp only [hprog] at h
      cases henter : o.enters with
      | some hc =>
        obtain ⟨hd, c⟩ := hc
        simp only [henter] at h
        exact tickSession_step htid hprog henter h
      | none =>
        simp only [henter, Option.map_eq_some_iff, Prod.exists, Prod.mk.injEq] at h
        obtain ⟨r, p₁, k₁, hserve, rfl, -⟩ := h
        exact .hook htid hprog (serve_effect hserve)

theorem Reachable.play {p₀ : Process} (n : ℕ) {s : Process × Kernel}
    (h : Process.Reachable P p₀ s.1) : Process.Reachable P p₀ (Process.play P tid n s).1 := by
  induction n generalizing s with
  | zero => exact h
  | succ n ih =>
    unfold Process.play
    cases hs : s.1.tick P tid s.2 with
    | none => exact h
    | some s' => exact ih (.step h (tick_step hs))

theorem Reachable.invoke {p₀ : Process} (c : HookCall) (fuel n : ℕ) {s : Process × Kernel}
    (h : Process.Reachable P p₀ s.1) :
    Process.Reachable P p₀ (Process.invoke P tid c fuel n s).1 := by
  unfold Process.invoke
  cases htid : s.1.threads tid with
  | none => exact Reachable.play n (.step h (.call htid c fuel))
  | some th => exact h

end Process

/-! ### Sessions on their own -/

/-- Finished calls on one session and its trace. -/
structure Played where
  log : List (FdCall × FdRet)
  trace : Tr
  state : FdState

/-- The calls `cs` one after the other on a session in `s`, each for at most `n`
answers of the kernel; a call that does not finish ends the run before it. -/
def playCalls (P : Primitives) (pid : Pid) (n : ℕ) : List FdCall → Played → Kernel → Played
  | [], r, _ => r
  | c :: cs, r, k =>
    match runWith (fun o k => Kernel.answer k pid o) n (c.run P r.state) k with
    | (.done s a, t, k') => playCalls P pid n cs ⟨r.log ++ [(c, a)], r.trace ++ t, s⟩ k'
    | _ => r

theorem Reach.playCalls {P : Primitives} {pid : Pid} {n : ℕ} {s₀ : FdState} (cs : List FdCall)
    {r : Played} (k : Kernel) (h : Reach (FdCall.run P) s₀ r.log r.trace (.idle r.state)) :
    Reach (FdCall.run P) s₀ (playCalls P pid n cs r k).log (playCalls P pid n cs r k).trace
      (.idle (playCalls P pid n cs r k).state) := by
  induction cs generalizing r k with
  | nil => exact h
  | cons c cs ih =>
    have hat := at_runWith (fun o k => Kernel.answer k pid o) n (c.run P r.state) k
    unfold SyntriassOverlay.playCalls
    split
    · rename_i s a t k' heq
      rw [heq] at hat
      exact ih k' (reach_at (h.enter c) hat).leave
    · exact h

/-- The calls `cs` on a new session `s₀` of process 7. -/
def played (P : Primitives) (s₀ : FdState) (cs : List FdCall) (k : Kernel) : Played :=
  playCalls P 7 60 cs ⟨[], [], s₀⟩ k

theorem played_reach {P : Primitives} (s₀ : FdState) (cs : List FdCall) (k : Kernel) :
    Reach (FdCall.run P) s₀ (played P s₀ cs k).log (played P s₀ cs k).trace
      (.idle (played P s₀ cs k).state) :=
  Reach.playCalls cs k .start

/-- A session of process 7 with the given keys and nothing in its buffers. -/
def activeSession (keys : SessionKeys) : FdState where
  phase := .active keys
  ownerPid := 7
  policySuite := .nistStandard768
  configEpoch := 0
  txBacklog := []
  rxWire := []
  rxPlain := []
  countedActive := true

theorem activeSession_sound (keys : SessionKeys) : (activeSession keys).Sound :=
  ⟨fun h => (by cases h), fun h => (by cases h), Nat.zero_le _, Nat.zero_le _, Nat.zero_le _⟩

/-- What `ensure_tracked` builds in process 7. -/
def responderSession : FdState where
  phase := .responderAwaitingClientHello
  ownerPid := 7
  policySuite := .nistStandard768
  configEpoch := 0
  txBacklog := []
  rxWire := []
  rxPlain := []
  countedActive := false

/-! ### A fallback client -/

/-- The kernel of a client without PQC control and with a PSK, on a non-blocking
stream socket whose peer answers the hello with `ramp 16` as the server nonce. -/
def fallbackKernel (room : List ℕ) : Kernel where
  policy := some .nistStandard768
  identity := .error .badIdentityConfig
  available := false
  psk := some (ramp 32)
  eph := ⟨ramp 32, []⟩
  nonce := ramp 16
  epoch := 0
  flags := oNonblock
  soType := some sockStream
  real := ⟨0, 0⟩
  room := room
  incoming :=
    match fallbackRespond specimen (ramp 32) (ramp 16).val (ramp 16) with
    | .ok (_, reply) => [frameBytes fallbackWireId typeFallbackFinished reply]
    | .error _ => []

theorem responderSession_built (P : Primitives) : ∃ c, Built P .responder c responderSession :=
  ⟨_, .nistStandard768, at_runWith (fun o k => Kernel.answer k 7 o) 5 _ (fallbackKernel [])⟩

/-- Process 7 connects descriptor 3 and sends the two bytes `hi`. -/
def fallbackClient (room : List ℕ) : Process × Kernel :=
  Process.invoke specimen 0 (.send 3 (.bytes (ascii "hi")) 0) 8 200
    (Process.invoke specimen 0 (.connect 3) 8 50 (Process.initial 7 true, fallbackKernel room))

theorem fallbackClient_reachable (room : List ℕ) :
    Process.Reachable specimen (Process.initial 7 true) (fallbackClient room).1 :=
  .invoke _ _ _ (.invoke _ _ _ .start)

end SyntriassOverlay
