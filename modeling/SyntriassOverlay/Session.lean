import SyntriassOverlay.Interceptor

/-!
# Histories of one session

What a session does, said once: every step the code can take between two of its
calls, with the guard under which it takes it. A `History` is a sequence of such
steps, recorded as the trace of the calls made. It forgets in which function and
at which round of which loop a step was taken. That the functions of
`Interceptor` only ever take these steps is shown in `Simulation`; what holds of
every session is then an induction over its history.
-/

namespace SyntriassOverlay
open Crypto Resumption

/-- A note in a trace. -/
abbrev noted (n : Note) : Ev Resp := ⟨Op.note n, ()⟩

/-- What `fail_closed` at `site` adds to the trace. -/
def failSeg (s : FdState) (site : FailSite) : Tr :=
  (if s.countedActive then [noted .activeSessionsDec] else []) ++ [noted (.failClosed site)]

/-- What `activate` adds to the trace. -/
def activateSeg (s : FdState) (keys : SessionKeys) (origin : Origin) : Tr :=
  (if s.countedActive then [] else [noted .activeSessionsInc]) ++ [noted (.activated keys origin)]

/-- Calls between the steps of a session that leave it as it is. -/
def Op.quiet : Op → Bool
  | .getfl | .getpid | .configEpoch | .note .limitExceeded => true
  | _ => false

/-! ### Handshake steps -/

/-- The four ways in which the frame `f` makes a session active: the keys and
where they come from, the calls made on the way, the reply queued. -/
inductive Activation (P : Primitives) (s : FdState) (f : ParsedFrame) :
    SessionKeys → Origin → Tr → Bytes → Prop
  | respond {identity : IdentityMaterial} {eph : Ephemeral} {keys : SessionKeys} {reply fr : Bytes}
      (hphase : s.phase = .responderAwaitingClientHello) (htag : f.tag = typeClientHello)
      (hsuite : CipherSuite.fromId f.suiteId = some s.policySuite)
      (hrun : s.policySuite.respond P identity f.payload eph = .ok (keys, reply))
      (hframe : frame s.policySuite.id typeServerHello reply = some fr)
      (hroom : fr.length ≤ maxWriteBacklog - s.txBacklog.length) :
      Activation P s f keys (.respond s.policySuite identity f.payload eph reply)
        [⟨.resolveIdentity, .ok identity⟩, ⟨.ephemeral, eph⟩, noted (.queued fr)] fr
  | fallbackRespond {psk : ByteArr 32} (psk' : ByteArr 32) {nonce : ByteArr 16} {keys : SessionKeys}
      {reply fr : Bytes}
      (hphase : s.phase = .responderAwaitingClientHello) (htag : f.tag = typeFallbackHello)
      (hrun : fallbackRespond P psk f.payload nonce = .ok (keys, reply))
      (hframe : frame fallbackWireId typeFallbackFinished reply = some fr)
      (hroom : fr.length ≤ maxWriteBacklog - s.txBacklog.length) :
      Activation P s f keys (.fallbackRespond psk f.payload nonce reply)
        [⟨.pqcControlAvailable, false⟩, ⟨.resolveFallbackPsk, some psk'⟩,
          ⟨.resolveFallbackPsk, some psk⟩, ⟨.freshNonce, nonce⟩,
          noted (.sealed .confirm keys.tx.key (nonceFromCounter 0) fallbackConfirm
            (reply.drop fallbackNonceLen)),
          noted (.queued fr), noted .fallbackActivation] fr
  | finish {state : InitiatorState} {identity : IdentityMaterial} {keys : SessionKeys}
      (hphase : s.phase = .initiatorAwaitingServerHello state) (htag : f.tag = typeServerHello)
      (hsuite : f.suiteId = s.policySuite.id)
      (hrun : state.finish P identity f.payload = .ok keys) :
      Activation P s f keys (.finish state identity f.payload)
        [⟨.resolveIdentity, .ok identity⟩] []
  | fallbackFinish {state : FallbackInitiator} {keys : SessionKeys}
      (hphase : s.phase = .initiatorAwaitingFallbackFinished state)
      (htag : f.tag = typeFallbackFinished) (hrun : state.finish P f.payload = .ok keys) :
      Activation P s f keys (.fallbackFinish state f.payload) [noted .fallbackActivation] []

/-- Why a reply could not be queued, with what that adds to the trace. -/
inductive Unqueued (s : FdState) (suiteId tag : UInt8) (payload : Bytes) : Tr → Prop
  | tooLong (h : frame suiteId tag payload = none) : Unqueued s suiteId tag payload []
  | noRoom {f : Bytes} (hf : frame suiteId tag payload = some f)
      (h : maxWriteBacklog - s.txBacklog.length < f.length) :
      Unqueued s suiteId tag payload [noted .limitExceeded]

/-- The ways in which a handshake frame makes a session fail. -/
inductive Rejection (P : Primitives) (s : FdState) (f : ParsedFrame) : Tr → FailSite → Prop
  | helloMismatch (r : Except CryptoError IdentityMaterial)
      (hphase : s.phase = .responderAwaitingClientHello) (htag : f.tag = typeClientHello)
      (h : ∀ identity, r = .ok identity → CipherSuite.fromId f.suiteId ≠ some s.policySuite) :
      Rejection P s f [⟨.resolveIdentity, r⟩] .helloMismatch
  | helloRejected {identity : IdentityMaterial} {eph : Ephemeral} {e : CryptoError}
      (hphase : s.phase = .responderAwaitingClientHello) (htag : f.tag = typeClientHello)
      (hsuite : CipherSuite.fromId f.suiteId = some s.policySuite)
      (hrun : s.policySuite.respond P identity f.payload eph = .error e) :
      Rejection P s f [⟨.resolveIdentity, .ok identity⟩, ⟨.ephemeral, eph⟩] .helloRejected
  | helloReply {identity : IdentityMaterial} {eph : Ephemeral} {keys : SessionKeys}
      {reply : Bytes} {q : Tr}
      (hphase : s.phase = .responderAwaitingClientHello) (htag : f.tag = typeClientHello)
      (hsuite : CipherSuite.fromId f.suiteId = some s.policySuite)
      (hrun : s.policySuite.respond P identity f.payload eph = .ok (keys, reply))
      (hq : Unqueued s s.policySuite.id typeServerHello reply q) :
      Rejection P s f ([⟨.resolveIdentity, .ok identity⟩, ⟨.ephemeral, eph⟩] ++ q) .helloReply
  | fallbackNotDegraded {available : Bool} {p p' : Option (ByteArr 32)}
      (hphase : s.phase = .responderAwaitingClientHello) (htag : f.tag = typeFallbackHello)
      (h : selectPosture available p.isSome = .encryptedFallback → p' = none) :
      Rejection P s f
        [⟨.pqcControlAvailable, available⟩, ⟨.resolveFallbackPsk, p⟩, ⟨.resolveFallbackPsk, p'⟩,
          noted (.downgradeAttack "FallbackHello received by a non-degraded responder")]
        .fallbackNotDegraded
  | fallbackRejected {psk : ByteArr 32} (psk' : ByteArr 32) {nonce : ByteArr 16} {e : FallbackError}
      (hphase : s.phase = .responderAwaitingClientHello) (htag : f.tag = typeFallbackHello)
      (hrun : fallbackRespond P psk f.payload nonce = .error e) :
      Rejection P s f
        [⟨.pqcControlAvailable, false⟩, ⟨.resolveFallbackPsk, some psk'⟩,
          ⟨.resolveFallbackPsk, some psk⟩, ⟨.freshNonce, nonce⟩,
          noted (.downgradeAttack "malformed FallbackHello at responder")]
        .fallbackRejected
  | fallbackReply {psk : ByteArr 32} (psk' : ByteArr 32) {nonce : ByteArr 16} {keys : SessionKeys}
      {reply : Bytes} {q : Tr}
      (hphase : s.phase = .responderAwaitingClientHello) (htag : f.tag = typeFallbackHello)
      (hrun : fallbackRespond P psk f.payload nonce = .ok (keys, reply))
      (hq : Unqueued s fallbackWireId typeFallbackFinished reply q) :
      Rejection P s f
        ([⟨.pqcControlAvailable, false⟩, ⟨.resolveFallbackPsk, some psk'⟩,
          ⟨.resolveFallbackPsk, some psk⟩, ⟨.freshNonce, nonce⟩,
          noted (.sealed .confirm keys.tx.key (nonceFromCounter 0) fallbackConfirm
            (reply.drop fallbackNonceLen))] ++ q) .fallbackReply
  | finishMismatch {state : InitiatorState} (r : Except CryptoError IdentityMaterial)
      (hphase : s.phase = .initiatorAwaitingServerHello state) (htag : f.tag = typeServerHello)
      (h : ∀ identity, r = .ok identity → f.suiteId ≠ s.policySuite.id) :
      Rejection P s f [⟨.resolveIdentity, r⟩] .finishMismatch
  | finishRejected {state : InitiatorState} {identity : IdentityMaterial} {e : CryptoError}
      (hphase : s.phase = .initiatorAwaitingServerHello state) (htag : f.tag = typeServerHello)
      (hsuite : f.suiteId = s.policySuite.id)
      (hrun : state.finish P identity f.payload = .error e) :
      Rejection P s f [⟨.resolveIdentity, .ok identity⟩] .finishRejected
  | fallbackFinishRejected {state : FallbackInitiator} {e : FallbackError}
      (hphase : s.phase = .initiatorAwaitingFallbackFinished state)
      (htag : f.tag = typeFallbackFinished) (hrun : state.finish P f.payload = .error e) :
      Rejection P s f [noted (.downgradeAttack "FallbackFinished failed PSK authentication")]
        .fallbackFinishRejected
  | unexpectedDowngrade
      (h : (∃ state, s.phase = .initiatorAwaitingServerHello state ∧ f.tag ≠ typeServerHello) ∨
        ∃ state, s.phase = .initiatorAwaitingFallbackFinished state ∧
          f.tag ≠ typeFallbackFinished) :
      Rejection P s f
        [noted (.downgradeAttack "unexpected handshake frame type for current phase")]
        .unexpectedDowngrade
  | unexpectedFrame
      (hresp : s.phase = .responderAwaitingClientHello →
        f.tag ≠ typeClientHello ∧ f.tag ≠ typeFallbackHello)
      (hinit : ∀ state, s.phase = .initiatorAwaitingServerHello state → f.tag ≠ typeServerHello)
      (hfall : ∀ state, s.phase = .initiatorAwaitingFallbackFinished state →
        f.tag ≠ typeFallbackFinished) :
      Rejection P s f [] .unexpectedFrame

/-! ### Record steps -/

/-- The ways in which the frame `f` makes an active session fail. -/
inductive Refusal (P : Primitives) (s : FdState) (keys : SessionKeys) (f : ParsedFrame) :
    Tr → FailSite → Prop
  | suite (htag : f.tag = typeData) (h : f.suiteId ≠ s.policySuite.id) :
      Refusal P s keys f [] .recordSuite
  | tag (h : f.tag ≠ typeData) : Refusal P s keys f [] .recordTag
  | «open» {e : CryptoError} (htag : f.tag = typeData) (hsuite : f.suiteId = s.policySuite.id)
      (h : keys.open P f.payload = .error e) : Refusal P s keys f [] .recordOpen
  | plain {keys' : SessionKeys} {pt : Bytes} (htag : f.tag = typeData)
      (hsuite : f.suiteId = s.policySuite.id) (hopen : keys.open P f.payload = .ok (keys', pt))
      (h : maxPlainRxBuffer - s.rxPlain.length < pt.length) :
      Refusal P s keys f
        [noted (.opened keys.rx.key (nonceFromCounter keys.rx.counter) f.payload pt)] .recordPlain

/-- The other reasons to call `fail_closed`, each with the place that does. The
last argument is the ciphertext that waits to be queued. -/
inductive Failing (P : Primitives) : Tr → FdState → Option Bytes → FailSite → Prop
  | inherited {t s pd} {pid : Pid} (h : s.ownerPid ≠ pid) :
      Failing P (t ++ [⟨.getpid, pid⟩]) s pd .inheritedAfterFork
  | stale {t s pd} {epoch : ℕ} (h : s.configEpoch ≠ epoch) :
      Failing P (t ++ [⟨.configEpoch, epoch⟩]) s pd .staleIdleConfig
  | flush {t s pd} {buf : Bytes} {flags : Flags} {e : Errno} (site : FailSite)
      (h : wouldBlock e = false)
      (hsite : site ∈ [.writeFirstFlush, .writeFlush, .appendFlush, .finalFlush,
        .finalFlushLoop]) :
      Failing P (t ++ [⟨.send buf flags, .error e⟩]) s pd site
  | eof {t s pd} {flags : Flags} : Failing P (t ++ [⟨.recv flags, .eof⟩]) s pd .writeEof
  | recvError {t s pd} {flags : Flags} {e : Errno} (h : wouldBlock e = false) :
      Failing P (t ++ [⟨.recv flags, .error e⟩]) s pd .writeRecvError
  | header {t s pd} (site : FailSite) (h : tryPopFrame s.rxWire = .error ())
      (hsite : site ∈ [.handshakeHeader, .recordHeader]) : Failing P t s pd site
  | sealError {t s pd} {keys : SessionKeys} {chunk : Bytes} {e : CryptoError}
      (hphase : s.phase = .active keys) (hlen : chunk.length ≤ maxRecordPlaintext)
      (h : keys.seal P chunk = .error e) : Failing P t s pd .sealError
  | frameError {t s} {ct : Bytes} (h : frame s.policySuite.id typeData ct = none) :
      Failing P t s (some ct) .frameError
  | appendRefused {t s pd} (h : s.phase = .failed ∨ noted .limitExceeded ∈ t) :
      Failing P t s pd .appendRefused

/-! ### Histories -/

/-- `History P aside s₀ t s pd`: a session that started in `s₀` has made the
calls `t` and is in `s`; `pd` is a sealed record that still has to be queued.
`aside` says whether the session may be touched aside from `overlay_send` and
`overlay_recv`: retired by the config reload thread, or driven in a phase that is
no handshake. -/
inductive History (P : Primitives) (aside : Prop) (s₀ : FdState) :
    Tr → FdState → Option Bytes → Prop
  | start : History P aside s₀ [] s₀ none
  | quiet {t s pd} (h : History P aside s₀ t s pd) (o : Op) (ho : o.quiet = true) (r : Resp o) :
      History P aside s₀ (t ++ [⟨o, r⟩]) s pd
  | sent {t s pd} (h : History P aside s₀ t s pd) (hphase : s.phase ≠ .failed)
      (flags : Flags) (n : ℕ) (hn : 0 < n ∧ n ≤ s.txBacklog.length) :
      History P aside s₀ (t ++ [⟨.send s.txBacklog flags, .sent n hn⟩])
        { s with txBacklog := s.txBacklog.drop n } pd
  | stalled {t s pd} (h : History P aside s₀ t s pd) (hphase : s.phase ≠ .failed)
      (hne : s.txBacklog ≠ []) (flags : Flags) (r : SendResult s.txBacklog.length)
      (hr : ∀ n hn, r ≠ .sent n hn) :
      History P aside s₀ (t ++ [⟨.send s.txBacklog flags, r⟩]) s pd
  | pulled {t s} (h : History P aside s₀ t s none) (hphase : s.phase ≠ .failed)
      (hpop : tryPopFrame s.rxWire = .ok none) (hplain : s.rxPlain = []) (flags : Flags)
      (d : Bytes) (hd : 0 < d.length ∧ d.length ≤ pullSize)
      (hroom : d.length ≤ maxWireRxBuffer - s.rxWire.length) :
      History P aside s₀ (t ++ [⟨.recv flags, .data d hd⟩])
        { s with rxWire := s.rxWire ++ d } none
  | unread {t s} (h : History P aside s₀ t s none) (hphase : s.phase ≠ .failed)
      (hpop : tryPopFrame s.rxWire = .ok none) (flags : Flags) (r : RecvResult)
      (hr : ∀ d hd, r ≠ .data d hd) :
      History P aside s₀ (t ++ [⟨.recv flags, r⟩]) s none
  | flooded {t s} (h : History P aside s₀ t s none) (hphase : s.phase ≠ .failed)
      (hpop : tryPopFrame s.rxWire = .ok none) (flags : Flags) (d : Bytes)
      (hd : 0 < d.length ∧ d.length ≤ pullSize)
      (hfull : maxWireRxBuffer - s.rxWire.length < d.length) (site : FailSite)
      (hsite : site ∈ [.writeOverflow, .recvOverflow]) :
      History P aside s₀ (t ++ [⟨.recv flags, .data d hd⟩] ++ failSeg s site) s.closed none
  | activated {t s f rest keys origin pre fr} (h : History P aside s₀ t s none)
      (hpop : tryPopFrame s.rxWire = .ok (some (f, rest)))
      (ha : Activation P s f keys origin pre fr) :
      History P aside s₀ (t ++ noted (.popped f) :: pre ++ activateSeg s keys origin)
        { s with rxWire := rest, txBacklog := s.txBacklog ++ fr, phase := .active keys,
                 countedActive := true } none
  | rejected {t s f rest pre site} (h : History P aside s₀ t s none)
      (hhs : s.phase.handshaking = true ∨ aside)
      (hpop : tryPopFrame s.rxWire = .ok (some (f, rest))) (hr : Rejection P s f pre site) :
      History P aside s₀ (t ++ noted (.popped f) :: pre ++ failSeg s site) s.closed none
  | opened {t s keys keys' f rest pt} (h : History P aside s₀ t s none)
      (hphase : s.phase = .active keys) (hpop : tryPopFrame s.rxWire = .ok (some (f, rest)))
      (htag : f.tag = typeData) (hsuite : f.suiteId = s.policySuite.id)
      (hopen : keys.open P f.payload = .ok (keys', pt))
      (hroom : pt.length ≤ maxPlainRxBuffer - s.rxPlain.length) :
      History P aside s₀
        (t ++ [noted (.popped f),
          noted (.opened keys.rx.key (nonceFromCounter keys.rx.counter) f.payload pt)])
        { s with rxWire := rest, phase := .active keys', rxPlain := s.rxPlain ++ pt } none
  | refused {t s keys f rest pre site} (h : History P aside s₀ t s none)
      (hphase : s.phase = .active keys) (hpop : tryPopFrame s.rxWire = .ok (some (f, rest)))
      (hr : Refusal P s keys f pre site) :
      History P aside s₀ (t ++ noted (.popped f) :: pre ++ failSeg s site) s.closed none
  | delivered {t s} (h : History P aside s₀ t s none) (n : ℕ)
      (hn : 0 < n ∧ n ≤ s.rxPlain.length) :
      History P aside s₀ (t ++ [noted (.delivered (s.rxPlain.take n))])
        { s with rxPlain := s.rxPlain.drop n } none
  | sealed {t s keys keys' chunk ct} (h : History P aside s₀ t s none)
      (hphase : s.phase = .active keys)
      (hlen : 0 < chunk.length ∧ chunk.length ≤ maxRecordPlaintext)
      (hseal : keys.seal P chunk = .ok (keys', ct)) :
      History P aside s₀
        (t ++ [noted (.sealed .record keys.tx.key (nonceFromCounter keys.tx.counter) chunk ct)])
        { s with phase := .active keys' } (some ct)
  | queued {t s ct f} (h : History P aside s₀ t s (some ct)) (hphase : s.phase ≠ .failed)
      (hframe : frame s.policySuite.id typeData ct = some f)
      (hroom : f.length ≤ maxWriteBacklog - s.txBacklog.length) :
      History P aside s₀ (t ++ [noted (.queued f)]) { s with txBacklog := s.txBacklog ++ f } none
  | failed {t s pd site} (h : History P aside s₀ t s pd) (hf : Failing P t s pd site) :
      History P aside s₀ (t ++ failSeg s site) s.closed none
  | restamped {t s} (h : History P aside s₀ t s none) (hphase : s.phase = .failed) (epoch : ℕ) :
      History P aside s₀ (t ++ [⟨.configEpoch, epoch⟩]) { s with configEpoch := epoch } none
  | retired {t s} (h : History P aside s₀ t s none) (haside : aside)
      (hidle : s.isIdleForConfigReload = true) (epoch : ℕ) :
      History P aside s₀ (t ++ failSeg s .retired) { s.closed with configEpoch := epoch } none

/-! ### What a trace shows -/

/-- Bytes the real `send` took. -/
def Ev.sent : Ev Resp → Bytes
  | ⟨.send buf _, .sent n _⟩ => buf.take n
  | _ => []

/-- Bytes the real `recv` gave. -/
def Ev.received : Ev Resp → Bytes
  | ⟨.recv _, .data d _⟩ => d
  | _ => []

/-- A record sealed by `overlay_send`: its plaintext and ciphertext. -/
def Ev.record : Ev Resp → List (Bytes × Bytes)
  | ⟨.note (.sealed .record _ _ pt ct), _⟩ => [(pt, ct)]
  | _ => []

/-- Plaintext copied to the application. -/
def Ev.delivered : Ev Resp → Bytes
  | ⟨.note (.delivered b), _⟩ => b
  | _ => []

/-- A call of `fail_closed`. -/
def Ev.closing : Ev Resp → List FailSite
  | ⟨.note (.failClosed site), _⟩ => [site]
  | _ => []

/-- An activation, with the keys and their origin. -/
def Ev.activation : Ev Resp → List (SessionKeys × Origin)
  | ⟨.note (.activated keys origin), _⟩ => [(keys, origin)]
  | _ => []

/-- A call of `SessionKeys::seal` that succeeded. -/
structure Seal where
  who : Sealer
  key : ByteArr 32
  nonce : ByteArr 12
  plaintext : Bytes
  ct : Bytes
  deriving DecidableEq

def Ev.seal : Ev Resp → List Seal
  | ⟨.note (.sealed who key nonce pt ct), _⟩ => [⟨who, key, nonce, pt, ct⟩]
  | _ => []

def sentBytes (t : Tr) : Bytes := t.flatMap Ev.sent
def receivedBytes (t : Tr) : Bytes := t.flatMap Ev.received
def records (t : Tr) : List (Bytes × Bytes) := t.flatMap Ev.record
def deliveredBytes (t : Tr) : Bytes := t.flatMap Ev.delivered
def closings (t : Tr) : List FailSite := t.flatMap Ev.closing
def seals (t : Tr) : List Seal := t.flatMap Ev.seal
def activations (t : Tr) : List (SessionKeys × Origin) := t.flatMap Ev.activation

/-- The plaintext of all records sealed by `overlay_send`. -/
def sealedPlain (t : Tr) : Bytes := (records t).flatMap Prod.fst

section Shows
variable (t u : Tr)

@[simp] theorem sentBytes_append : sentBytes (t ++ u) = sentBytes t ++ sentBytes u :=
  List.flatMap_append
@[simp] theorem receivedBytes_append :
    receivedBytes (t ++ u) = receivedBytes t ++ receivedBytes u := List.flatMap_append
@[simp] theorem records_append : records (t ++ u) = records t ++ records u := List.flatMap_append
@[simp] theorem deliveredBytes_append :
    deliveredBytes (t ++ u) = deliveredBytes t ++ deliveredBytes u := List.flatMap_append
@[simp] theorem closings_append : closings (t ++ u) = closings t ++ closings u :=
  List.flatMap_append
@[simp] theorem activations_append : activations (t ++ u) = activations t ++ activations u :=
  List.flatMap_append
@[simp] theorem seals_append : seals (t ++ u) = seals t ++ seals u := List.flatMap_append
@[simp] theorem sealedPlain_append : sealedPlain (t ++ u) = sealedPlain t ++ sealedPlain u := by
  simp only [sealedPlain, records_append, List.flatMap_append]

variable (s : FdState) (site : FailSite) (keys : SessionKeys) (origin : Origin)

/-- Closing and activating a session move no bytes. -/
@[simp] theorem sentBytes_failSeg : sentBytes (failSeg s site) = [] := by
  unfold failSeg; split <;> rfl
@[simp] theorem receivedBytes_failSeg : receivedBytes (failSeg s site) = [] := by
  unfold failSeg; split <;> rfl
@[simp] theorem records_failSeg : records (failSeg s site) = [] := by
  unfold failSeg; split <;> rfl
@[simp] theorem deliveredBytes_failSeg : deliveredBytes (failSeg s site) = [] := by
  unfold failSeg; split <;> rfl
@[simp] theorem closings_failSeg : closings (failSeg s site) = [site] := by
  unfold failSeg; split <;> rfl
@[simp] theorem activations_failSeg : activations (failSeg s site) = [] := by
  unfold failSeg; split <;> rfl
@[simp] theorem seals_failSeg : seals (failSeg s site) = [] := by
  unfold failSeg; split <;> rfl
@[simp] theorem sentBytes_activateSeg : sentBytes (activateSeg s keys origin) = [] := by
  unfold activateSeg; split <;> rfl
@[simp] theorem receivedBytes_activateSeg : receivedBytes (activateSeg s keys origin) = [] := by
  unfold activateSeg; split <;> rfl
@[simp] theorem records_activateSeg : records (activateSeg s keys origin) = [] := by
  unfold activateSeg; split <;> rfl
@[simp] theorem deliveredBytes_activateSeg : deliveredBytes (activateSeg s keys origin) = [] := by
  unfold activateSeg; split <;> rfl
@[simp] theorem closings_activateSeg : closings (activateSeg s keys origin) = [] := by
  unfold activateSeg; split <;> rfl
@[simp] theorem seals_activateSeg : seals (activateSeg s keys origin) = [] := by
  unfold activateSeg; split <;> rfl
@[simp] theorem activations_activateSeg :
    activations (activateSeg s keys origin) = [(keys, origin)] := by
  unfold activateSeg; split <;> rfl

variable (f : ParsedFrame)

@[simp] theorem sentBytes_popped : sentBytes (noted (.popped f) :: t) = sentBytes t := rfl
@[simp] theorem receivedBytes_popped :
    receivedBytes (noted (.popped f) :: t) = receivedBytes t := rfl
@[simp] theorem records_popped : records (noted (.popped f) :: t) = records t := rfl
@[simp] theorem deliveredBytes_popped :
    deliveredBytes (noted (.popped f) :: t) = deliveredBytes t := rfl
@[simp] theorem closings_popped : closings (noted (.popped f) :: t) = closings t := rfl
@[simp] theorem seals_popped : seals (noted (.popped f) :: t) = seals t := rfl
@[simp] theorem activations_popped :
    activations (noted (.popped f) :: t) = activations t := rfl

variable (flags : Flags) (r : RecvResult)

@[simp] theorem sentBytes_read : sentBytes (⟨.recv flags, r⟩ :: t) = sentBytes t := rfl
@[simp] theorem records_read : records (⟨.recv flags, r⟩ :: t) = records t := rfl
@[simp] theorem deliveredBytes_read :
    deliveredBytes (⟨.recv flags, r⟩ :: t) = deliveredBytes t := rfl
@[simp] theorem closings_read : closings (⟨.recv flags, r⟩ :: t) = closings t := rfl
@[simp] theorem seals_read : seals (⟨.recv flags, r⟩ :: t) = seals t := rfl
@[simp] theorem activations_read : activations (⟨.recv flags, r⟩ :: t) = activations t := rfl

end Shows

/-- The calls of a trace that do not send, seal or deliver a byte of a session and do
not close or activate it. -/
structure Silent (t : Tr) : Prop where
  sent : sentBytes t = []
  records : records t = []
  delivered : deliveredBytes t = []
  closings : closings t = []
  activations : activations t = []

/-- The calls of a trace that move no byte of a session and do not close or
activate it. -/
structure Inert (t : Tr) : Prop extends Silent t where
  received : receivedBytes t = []

theorem Activation.inert {P : Primitives} {s : FdState} {f : ParsedFrame} {keys : SessionKeys}
    {origin : Origin} {pre : Tr} {fr : Bytes} (h : Activation P s f keys origin pre fr) :
    Inert pre := by
  cases h <;> exact ⟨⟨rfl, rfl, rfl, rfl, rfl⟩, rfl⟩

theorem Rejection.inert {P : Primitives} {s : FdState} {f : ParsedFrame} {pre : Tr}
    {site : FailSite} (h : Rejection P s f pre site) : Inert pre := by
  cases h with
  | helloReply _ _ _ _ hq => cases hq <;> exact ⟨⟨rfl, rfl, rfl, rfl, rfl⟩, rfl⟩
  | fallbackReply _ _ _ _ hq => cases hq <;> exact ⟨⟨rfl, rfl, rfl, rfl, rfl⟩, rfl⟩
  | _ => exact ⟨⟨rfl, rfl, rfl, rfl, rfl⟩, rfl⟩

theorem Refusal.inert {P : Primitives} {s : FdState} {keys : SessionKeys} {f : ParsedFrame}
    {pre : Tr} {site : FailSite} (h : Refusal P s keys f pre site) : Inert pre := by
  cases h <;> exact ⟨⟨rfl, rfl, rfl, rfl, rfl⟩, rfl⟩

/-- Calls that do nothing to a session and seal nothing. -/
def Op.mute : Op → Bool
  | .send _ _ | .recv _ => false
  | .note n =>
    match n with
    | .sealed _ _ _ _ _ | .activated _ _ | .failClosed _ | .delivered _ => false
    | _ => true
  | _ => true

theorem Op.mute_inert {o : Op} (ho : o.mute = true) (r : Resp o) :
    Inert [⟨o, r⟩] ∧ seals [⟨o, r⟩] = [] := by
  cases o with
  | send | recv => cases ho
  | note n => cases n <;> first | exact ⟨⟨⟨rfl, rfl, rfl, rfl, rfl⟩, rfl⟩, rfl⟩ | cases ho
  | _ => exact ⟨⟨⟨rfl, rfl, rfl, rfl, rfl⟩, rfl⟩, rfl⟩

theorem Op.mute_of_quiet {o : Op} (ho : o.quiet = true) : o.mute = true := by
  cases o with
  | note n => cases n <;> first | rfl | cases ho
  | send | recv => cases ho
  | _ => rfl

theorem Op.inert_of_quiet {o : Op} (ho : o.quiet = true) (r : Resp o) : Inert [⟨o, r⟩] :=
  (mute_inert (mute_of_quiet ho) r).1

theorem Silent.append {t u : Tr} (ht : Silent t) (hu : Silent u) : Silent (t ++ u) where
  sent := by rw [sentBytes_append, ht.sent, hu.sent]; rfl
  records := by rw [records_append, ht.records, hu.records]; rfl
  delivered := by rw [deliveredBytes_append, ht.delivered, hu.delivered]; rfl
  closings := by rw [closings_append, ht.closings, hu.closings]; rfl
  activations := by rw [activations_append, ht.activations, hu.activations]; rfl

theorem receivedBytes_unread (flags : Flags) {r : RecvResult} (hr : ∀ d hd, r ≠ .data d hd) :
    receivedBytes [(⟨.recv flags, r⟩ : Ev Resp)] = [] := by
  cases r with
  | data d hd => exact absurd rfl (hr d hd)
  | eof | error e => rfl

/-! ### Inside a step -/

/-- The calls `u` are the beginning of a step of a session in `s`. The only seal
among them is the confirmation of a fallback responder. -/
structure Underway (P : Primitives) (s : FdState) (u : Tr) : Prop where
  silent : Silent u
  seals : seals u = [] ∨ ∃ psk hello nonce keys reply,
    s.phase = .responderAwaitingClientHello ∧
    fallbackRespond P psk hello nonce = .ok (keys, reply) ∧ (⟨.freshNonce, nonce⟩ : Ev Resp) ∈ u ∧
    seals u = [⟨.confirm, keys.tx.key, nonceFromCounter 0, fallbackConfirm,
      reply.drop fallbackNonceLen⟩]

/-- The trace of a session that may be inside a step. -/
def Between (P : Primitives) (aside : Prop) (s₀ : FdState) (t : Tr) : Prop :=
  ∃ t₀ u s pd, t = t₀ ++ u ∧ History P aside s₀ t₀ s pd ∧ Underway P s u

theorem History.between {P : Primitives} {aside : Prop} {s₀ s : FdState} {t : Tr}
    {pd : Option Bytes} (h : History P aside s₀ t s pd) : Between P aside s₀ t :=
  ⟨t, [], s, pd, (List.append_nil t).symm, h, ⟨rfl, rfl, rfl, rfl, rfl⟩, .inl rfl⟩

/-- Bytes were read that are not put anywhere yet. -/
theorem History.between_read {P : Primitives} {aside : Prop} {s₀ s : FdState} {t : Tr}
    {pd : Option Bytes} (h : History P aside s₀ t s pd) (flags : Flags) (r : RecvResult) :
    Between P aside s₀ (t ++ [⟨.recv flags, r⟩]) :=
  ⟨t, _, s, pd, rfl, h, ⟨rfl, rfl, rfl, rfl, rfl⟩, .inl rfl⟩

theorem Between.snoc {P : Primitives} {aside : Prop} {s₀ : FdState} {t : Tr}
    (h : Between P aside s₀ t) {o : Op} (ho : o.mute = true) (r : Resp o) :
    Between P aside s₀ (t ++ [⟨o, r⟩]) := by
  obtain ⟨t₀, u, s, pd, rfl, hh, hu⟩ := h
  obtain ⟨hi, hs⟩ := Op.mute_inert ho r
  refine ⟨t₀, u ++ [⟨o, r⟩], s, pd, List.append_assoc _ _ _, hh, hu.silent.append hi.toSilent, ?_⟩
  rw [seals_append, hs, List.append_nil]
  refine hu.seals.imp_right ?_
  rintro ⟨psk, hello, nonce, keys, reply, hphase, hrun, hmem, heq⟩
  exact ⟨psk, hello, nonce, keys, reply, hphase, hrun, by simp [hmem], heq⟩

/-! ### Buffers -/

/-- What holds of the phase and the buffers of a session at rest. -/
structure FdState.Sound (s : FdState) : Prop where
  failed_empty : s.phase = .failed → s.txBacklog = [] ∧ s.rxWire = [] ∧ s.rxPlain = []
  handshaking_plain : s.phase.handshaking = true → s.rxPlain = []
  txBacklog_le : s.txBacklog.length ≤ maxWriteBacklog
  rxWire_le : s.rxWire.length ≤ maxWireRxBuffer
  rxPlain_le : s.rxPlain.length ≤ maxPlainRxBuffer

theorem FdState.closed_sound (s : FdState) : s.closed.Sound :=
  ⟨fun _ => ⟨rfl, rfl, rfl⟩, fun _ => rfl, Nat.zero_le _, Nat.zero_le _, Nat.zero_le _⟩

theorem Activation.handshaking {P : Primitives} {s : FdState} {f : ParsedFrame}
    {keys : SessionKeys} {origin : Origin} {pre : Tr} {fr : Bytes}
    (h : Activation P s f keys origin pre fr) : s.phase.handshaking = true := by
  cases h with
  | respond hphase | fallbackRespond _ hphase | finish hphase | fallbackFinish hphase =>
    rw [hphase]; rfl

theorem Activation.room {P : Primitives} {s : FdState} {f : ParsedFrame}
    {keys : SessionKeys} {origin : Origin} {pre : Tr} {fr : Bytes}
    (h : Activation P s f keys origin pre fr) :
    fr.length ≤ maxWriteBacklog - s.txBacklog.length := by
  cases h with
  | respond _ _ _ _ _ hroom => exact hroom
  | fallbackRespond _ _ _ _ _ hroom => exact hroom
  | finish | fallbackFinish => exact Nat.zero_le _

theorem tryPopFrame_rest_le {b rest : Bytes} {f : ParsedFrame}
    (h : tryPopFrame b = .ok (some (f, rest))) : rest.length ≤ b.length := by
  obtain ⟨rfl, -⟩ := tryPopFrame_eq_some h
  simp

theorem History.sound {P : Primitives} {aside : Prop} {s₀ s : FdState} {t : Tr}
    {pd : Option Bytes} (h₀ : s₀.Sound) (h : History P aside s₀ t s pd) : s.Sound := by
  induction h with
  | start => exact h₀
  | quiet _ _ _ _ ih => exact ih
  | sent _ hphase _ n _ ih =>
    exact ⟨fun hf => absurd hf hphase, ih.handshaking_plain,
      (List.drop_sublist _ _).length_le.trans ih.txBacklog_le, ih.rxWire_le, ih.rxPlain_le⟩
  | stalled _ _ _ _ _ _ ih => exact ih
  | pulled _ hphase _ _ _ d _ hroom ih =>
    have hle := ih.rxWire_le
    refine ⟨fun hf => absurd hf hphase, ih.handshaking_plain, ih.txBacklog_le, ?_, ih.rxPlain_le⟩
    simp only [List.length_append]
    omega
  | unread _ _ _ _ _ _ ih => exact ih
  | activated _ hpop ha ih =>
    have hle := ih.txBacklog_le
    have hroom := ha.room
    refine ⟨fun hf => (by cases hf), fun hh => (by cases hh), ?_,
      (tryPopFrame_rest_le hpop).trans ih.rxWire_le, ih.rxPlain_le⟩
    simp only [List.length_append]
    omega
  | rejected => exact FdState.closed_sound _
  | opened _ _ hpop _ _ _ hroom ih =>
    have hle := ih.rxPlain_le
    refine ⟨fun hf => (by cases hf), fun hh => (by cases hh), ih.txBacklog_le,
      (tryPopFrame_rest_le hpop).trans ih.rxWire_le, ?_⟩
    simp only [List.length_append]
    omega
  | refused | flooded => exact FdState.closed_sound _
  | @delivered _ s _ n hn ih =>
    have hne : s.rxPlain ≠ [] := List.ne_nil_of_length_pos (by omega)
    exact ⟨fun hf => absurd (ih.failed_empty hf).2.2 hne,
      fun hh => absurd (ih.handshaking_plain hh) hne, ih.txBacklog_le, ih.rxWire_le,
      (List.drop_sublist _ _).length_le.trans ih.rxPlain_le⟩
  | sealed _ _ _ _ ih =>
    exact ⟨fun hf => (by cases hf), fun hh => (by cases hh), ih.txBacklog_le, ih.rxWire_le,
      ih.rxPlain_le⟩
  | queued _ hphase _ hroom ih =>
    have hle := ih.txBacklog_le
    refine ⟨fun hf => absurd hf hphase, ih.handshaking_plain, ?_, ih.rxWire_le, ih.rxPlain_le⟩
    simp only [List.length_append]
    omega
  | failed => exact FdState.closed_sound _
  | restamped _ _ _ ih =>
    exact ⟨ih.failed_empty, ih.handshaking_plain, ih.txBacklog_le, ih.rxWire_le, ih.rxPlain_le⟩
  | @retired _ s =>
    have hc := s.closed_sound
    exact ⟨hc.failed_empty, hc.handshaking_plain, hc.txBacklog_le, hc.rxWire_le, hc.rxPlain_le⟩

/-! ### What stays -/

theorem History.ownerPid {P : Primitives} {aside : Prop} {s₀ s : FdState} {t : Tr}
    {pd : Option Bytes} (h : History P aside s₀ t s pd) : s.ownerPid = s₀.ownerPid := by
  induction h with
  | start => rfl
  | quiet _ _ _ _ ih | sent _ _ _ _ _ ih | stalled _ _ _ _ _ _ ih | pulled _ _ _ _ _ _ _ _ ih
  | unread _ _ _ _ _ _ ih | activated _ _ _ ih | rejected _ _ _ _ ih | opened _ _ _ _ _ _ _ ih
  | refused _ _ _ _ ih | delivered _ _ _ ih | sealed _ _ _ _ ih | queued _ _ _ _ ih
  | failed _ _ ih | restamped _ _ _ ih | retired _ _ _ _ ih
  | flooded _ _ _ _ _ _ _ _ _ ih => exact ih

/-- Only a failed session takes over a new epoch. -/
theorem History.configEpoch {P : Primitives} {aside : Prop} {s₀ s : FdState} {t : Tr}
    {pd : Option Bytes} (h : History P aside s₀ t s pd) (hlive : s.phase ≠ .failed) :
    s.configEpoch = s₀.configEpoch := by
  induction h with
  | start => rfl
  | quiet _ _ _ _ ih | sent _ _ _ _ _ ih | stalled _ _ _ _ _ _ ih | pulled _ _ _ _ _ _ _ _ ih
  | unread _ _ _ _ _ _ ih | delivered _ _ _ ih | queued _ _ _ _ ih => exact ih hlive
  | activated _ _ ha ih => exact ih (FdPhase.ne_failed_of_handshaking ha.handshaking)
  | opened _ hphase _ _ _ _ _ ih | sealed _ hphase _ _ ih => exact ih (by simp [hphase])
  | rejected | refused | failed | retired | flooded => exact absurd rfl hlive
  | restamped _ hphase => exact absurd hphase hlive

/-! ### Failing is final -/

theorem History.failed_iff {P : Primitives} {aside : Prop} {s₀ s : FdState} {t : Tr}
    {pd : Option Bytes} (h : History P aside s₀ t s pd) :
    s.phase = .failed ↔ s₀.phase = .failed ∨ closings t ≠ [] := by
  induction h with
  | start => simp [closings]
  | quiet _ o ho r ih =>
    rw [ih, closings_append, (Op.inert_of_quiet ho r).closings, List.append_nil]
  | sent _ _ _ _ _ ih | pulled _ _ _ _ _ _ _ _ ih | delivered _ _ _ ih | queued _ _ _ _ ih =>
    rw [ih, closings_append]
    simp [closings, Ev.closing]
  | stalled _ _ _ _ _ _ ih | unread _ _ _ _ _ _ ih =>
    rw [ih, closings_append]
    simp [closings, Ev.closing]
  | activated _ _ ha ih =>
    have hlive := FdPhase.ne_failed_of_handshaking ha.handshaking
    simpa [ha.inert.closings, hlive] using ih
  | opened _ hphase _ _ _ _ _ ih =>
    rw [hphase] at ih
    simpa [closings, Ev.closing] using ih
  | sealed _ hphase _ _ ih =>
    rw [hphase] at ih
    simpa [closings, Ev.closing] using ih
  | rejected | refused | failed | retired | flooded => simp
  | restamped _ hphase _ ih =>
    rw [ih, closings_append]
    simp [closings, Ev.closing]

theorem History.alive_before {P : Primitives} {aside : Prop} {s₀ s s' : FdState} {t t' : Tr}
    {pd pd' : Option Bytes} (h : History P aside s₀ t s pd) (h' : History P aside s₀ t' s' pd')
    (hpre : t <+: t') (hlive : s'.phase ≠ .failed) : s.phase ≠ .failed := by
  intro hf
  obtain ⟨u, rfl⟩ := hpre
  refine hlive (h'.failed_iff.mpr ((h.failed_iff.mp hf).imp_right ?_))
  intro hne
  simp [hne]

/-! ### One activation at most -/

section Activations
variable {P : Primitives} {aside : Prop} {s₀ s : FdState} {t : Tr} {pd : Option Bytes}

theorem History.handshaking_untouched (h : History P aside s₀ t s pd)
    (hhs : s.phase.handshaking = true) :
    s.phase = s₀.phase ∧ records t = [] ∧ activations t = [] := by
  induction h with
  | start => exact ⟨rfl, rfl, rfl⟩
  | quiet _ o ho r ih =>
    obtain ⟨hp, hr, ha⟩ := ih hhs
    refine ⟨hp, ?_, ?_⟩
    · rw [records_append, hr, (Op.inert_of_quiet ho r).records, List.nil_append]
    · rw [activations_append, ha, (Op.inert_of_quiet ho r).activations, List.nil_append]
  | sent _ _ _ _ _ ih | stalled _ _ _ _ _ _ ih | pulled _ _ _ _ _ _ _ _ ih
  | unread _ _ _ _ _ _ ih =>
    obtain ⟨hp, hr, ha⟩ := ih hhs
    refine ⟨hp, ?_, ?_⟩
    · rw [records_append, hr]; rfl
    · rw [activations_append, ha]; rfl
  | activated | opened | sealed => cases hhs
  | rejected | refused | failed | retired | flooded => cases hhs
  | restamped _ hphase => rw [hphase] at hhs; cases hhs
  | delivered _ _ _ ih =>
    obtain ⟨hp, hr, ha⟩ := ih hhs
    exact ⟨hp, by rw [records_append, hr]; rfl, by rw [activations_append, ha]; rfl⟩
  | queued _ _ _ _ ih =>
    obtain ⟨hp, hr, ha⟩ := ih hhs
    exact ⟨hp, by rw [records_append, hr]; rfl, by rw [activations_append, ha]; rfl⟩

/-- A step of a handshake that made a session active, and the session before it. -/
structure Activated (P : Primitives) (aside : Prop) (s₀ : FdState) (t : Tr) (keys : SessionKeys)
    (origin : Origin) where
  before : Tr
  state : FdState
  frame : ParsedFrame
  rest : Bytes
  pre : Tr
  reply : Bytes
  history : History P aside s₀ before state none
  popped : tryPopFrame state.rxWire = .ok (some (frame, rest))
  activation : Activation P state frame keys origin pre reply
  within : before ++ noted (.popped frame) :: pre ++ activateSeg state keys origin <+: t

/-- Where a session that is or was active got its keys from. -/
inductive Beginning (P : Primitives) (aside : Prop) (s₀ : FdState) (t : Tr) : Prop
  | none (h : activations t = [])
  | once {keys : SessionKeys} {origin : Origin} (h : activations t = [(keys, origin)])
      (ha : Nonempty (Activated P aside s₀ t keys origin))

theorem Beginning.extend {u : Tr} (h : Beginning P aside s₀ t) (hu : activations u = []) :
    Beginning P aside s₀ (t ++ u) := by
  cases h with
  | none h => exact .none (by rw [activations_append, h, hu]; rfl)
  | once h ha =>
    obtain ⟨a⟩ := ha
    exact .once (by rw [activations_append, h, hu]; rfl)
      ⟨{ a with within := a.within.trans (List.prefix_append _ _) }⟩

theorem History.beginning (h : History P aside s₀ t s pd) : Beginning P aside s₀ t := by
  induction h with
  | start => exact .none rfl
  | quiet _ o ho r ih => exact ih.extend (Op.inert_of_quiet ho r).activations
  | sent _ _ _ _ _ ih | stalled _ _ _ _ _ _ ih | pulled _ _ _ _ _ _ _ _ ih
  | unread _ _ _ _ _ _ ih => exact ih.extend rfl
  | @activated t s f rest keys origin pre fr h hpop ha ih =>
    have hnone := (h.handshaking_untouched ha.handshaking).2.2
    have hone : activations (t ++ noted (.popped f) :: pre ++ activateSeg s keys origin) =
        [(keys, origin)] := by simp [hnone, ha.inert.activations]
    exact .once hone ⟨⟨t, s, f, rest, pre, fr, h, hpop, ha, List.prefix_rfl⟩⟩
  | rejected _ _ _ hr ih =>
    rw [List.append_assoc]
    exact ih.extend (by simp [hr.inert.activations])
  | refused _ _ _ hr ih =>
    rw [List.append_assoc]
    exact ih.extend (by simp [hr.inert.activations])
  | opened _ _ _ _ _ _ _ ih | delivered _ _ _ ih | sealed _ _ _ _ ih | queued _ _ _ _ ih
  | restamped _ _ _ ih => exact ih.extend rfl
  | failed _ _ ih | retired _ _ _ _ ih => exact ih.extend (by simp)
  | flooded _ _ _ _ _ _ _ _ _ ih => exact (ih.extend rfl).extend (by simp)

theorem History.inactive_records (h : History P aside s₀ t s pd)
    (hs₀ : ∀ keys, s₀.phase ≠ .active keys) (ha : activations t = []) :
    records t = [] ∧ ∀ keys, s.phase ≠ .active keys := by
  induction h with
  | start => exact ⟨rfl, hs₀⟩
  | quiet _ o ho r ih =>
    have hi := Op.inert_of_quiet ho r
    rw [activations_append, hi.activations, List.append_nil] at ha
    rw [records_append, hi.records, List.append_nil]
    exact ih ha
  | sent _ _ _ _ _ ih | stalled _ _ _ _ _ _ ih | pulled _ _ _ _ _ _ _ _ ih
  | unread _ _ _ _ _ _ ih | delivered _ _ _ ih | queued _ _ _ _ ih =>
    rw [activations_append, List.append_eq_nil_iff] at ha
    obtain ⟨hr, hp⟩ := ih ha.1
    exact ⟨by rw [records_append, hr]; rfl, hp⟩
  | activated => simp at ha
  | rejected _ _ _ hr ih =>
    simp only [activations_append, List.append_eq_nil_iff] at ha
    obtain ⟨hrec, -⟩ := ih ha.1.1
    exact ⟨by simp [hrec, hr.inert.records], by simp⟩
  | refused _ _ _ hr ih =>
    simp only [activations_append, List.append_eq_nil_iff] at ha
    obtain ⟨hrec, -⟩ := ih ha.1.1
    exact ⟨by simp [hrec, hr.inert.records], by simp⟩
  | opened _ hphase _ _ _ _ _ ih | sealed _ hphase _ _ ih =>
    rw [activations_append, List.append_eq_nil_iff] at ha
    exact absurd hphase ((ih ha.1).2 _)
  | failed _ _ ih | retired _ _ _ _ ih =>
    rw [activations_append, List.append_eq_nil_iff] at ha
    obtain ⟨hrec, -⟩ := ih ha.1
    exact ⟨by simp [hrec], by simp⟩
  | flooded _ _ _ _ _ _ _ _ _ ih =>
    simp only [activations_append, List.append_eq_nil_iff] at ha
    obtain ⟨hrec, -⟩ := ih ha.1.1
    exact ⟨by simp [hrec], by simp⟩
  | restamped _ _ _ ih =>
    rw [activations_append, List.append_eq_nil_iff] at ha
    obtain ⟨hrec, hp⟩ := ih ha.1
    exact ⟨by rw [records_append, hrec]; rfl, hp⟩

end Activations

end SyntriassOverlay
