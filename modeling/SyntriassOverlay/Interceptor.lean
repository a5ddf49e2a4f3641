import SyntriassOverlay.FdState

/-!
# The overlay I/O paths of one descriptor (interceptor.rs:207-841)

Everything that runs under the per-descriptor lock, function by function as in
the source. `fuel` bounds the rounds of each loop; the loops of the source that
spin on a blocking descriptor have no bound of their own.
-/

namespace SyntriassOverlay
open Crypto Resumption

/-! ### Availability posture (kernel_native.rs:223-251) -/

inductive AvailabilityPosture where
  | fullPqc
  | encryptedFallback
  | failClosed
  deriving DecidableEq, Repr

def selectPosture (daemonAvailable pskConfigured : Bool) : AvailabilityPosture :=
  match daemonAvailable, pskConfigured with
  | true, _ => .fullPqc
  | false, true => .encryptedFallback
  | false, false => .failClosed

section Building
variable {σ : Type} (P : Primitives)

def localPosture : Act Resp σ AvailabilityPosture := do
  let available ← perform Op.pqcControlAvailable
  let psk ← perform Op.resolveFallbackPsk
  pure (selectPosture available psk.isSome)

def failedPolicySuite : Act Resp σ CipherSuite := do
  let policy ← perform Op.resolvePolicy
  pure (policy.getD .nistStandard768)

def buildPqcInitiator (suite : CipherSuite) : Act Resp σ FdState := do
  match ← perform Op.resolveIdentity with
  | .error _ => FdState.failed suite
  | .ok identity => do
    let eph ← perform Op.ephemeral
    match suite.beginInitiator P identity eph with
    | .error _ => FdState.failed suite
    | .ok (state, helloBody) =>
      match frame suite.id typeClientHello helloBody with
      | some f => FdState.initiator suite state f
      | none => FdState.failed suite

def buildFallbackInitiator (suite : CipherSuite) : Act Resp σ FdState := do
  match ← perform Op.resolveFallbackPsk with
  | none => FdState.failed suite
  | some psk => do
    let nonce ← perform Op.freshNonce
    let (state, hello) := FallbackInitiator.begin psk nonce
    match frame fallbackWireId typeFallbackHello hello with
    | some f => FdState.fallbackInitiator suite state f
    | none => FdState.failed suite

/-- The state `install_initiator_state` puts into the registry. -/
def newInitiatorState : Act Resp σ FdState := do
  let suiteForFailure ← failedPolicySuite
  match ← perform Op.resolvePolicy with
  | none => FdState.failed suiteForFailure
  | some suite =>
    match ← localPosture with
    | .fullPqc => buildPqcInitiator P suite
    | .encryptedFallback => buildFallbackInitiator suite
    | .failClosed => FdState.failed suite

/-- The state `ensure_tracked` puts into the registry for an unknown stream
socket. -/
def newResponderState (suiteForFailure : CipherSuite) : Act Resp σ FdState := do
  match ← perform Op.resolvePolicy with
  | some suite => FdState.responder suite
  | none => FdState.failed suiteForFailure

end Building

/-! ### Socket I/O -/

/-- EAGAIN or EWOULDBLOCK. -/
def wouldBlock (e : Errno) : Bool := e == EAGAIN || e == EWOULDBLOCK

def isBlocking : FdAct Bool := do
  match ← perform Op.getfl with
  | some flags => pure (flags &&& oNonblock == 0)
  | none => pure false

def flushBacklog (flags : Flags) (fuel : ℕ) : FdAct (Except Unit Bool) :=
  iter (fun (_ : Unit) => do
    let st ← get
    if st.txBacklog.isEmpty then pure (.inr (.ok true))
    else
      match ← perform (Op.send st.txBacklog flags) with
      | .sent n _ => do
        set { st with txBacklog := st.txBacklog.drop n }
        pure (.inl ())
      | .zero => pure (.inr (.ok false))
      | .error e =>
          if wouldBlock e then pure (.inr (.ok false)) else pure (.inr (.error ()))) fuel ()

/-- `Err` is a receive buffer that cannot take what was read. -/
def pullWire (flags : Flags) : FdAct (Except Unit RecvResult) := do
  let n ← perform (Op.recv flags)
  match n with
  | .data d _ => do
    let st ← get
    match st.appendRxWire d with
    | some st' => do
      set st'
      pure (.ok n)
    | none => pure (.error ())
  | _ => pure (.ok n)

/-- Whether the frame could be queued. -/
def queueFrame (suiteId tag : UInt8) (payload : Bytes) : FdAct Bool := do
  match frame suiteId tag payload with
  | none => pure false
  | some f => do
    let st ← get
    match st.appendTx f with
    | none => do
      note .limitExceeded
      pure false
    | some st' => do
      set st'
      note (.queued f)
      pure true

/-! ### Handshake -/

section Paths
variable (P : Primitives)

def onClientHello (f : ParsedFrame) : FdAct Unit := do
  let st ← get
  let identity ← perform Op.resolveIdentity
  match CipherSuite.fromId f.suiteId, identity with
  | some proposed, .ok identity =>
    if proposed = st.policySuite then do
      let eph ← perform Op.ephemeral
      match proposed.respond P identity f.payload eph with
      | .ok (keys, serverHello) => do
        if ← queueFrame proposed.id typeServerHello serverHello then
          activate keys (.respond proposed identity f.payload eph serverHello)
        else failClosed .helloReply
      | .error _ => failClosed .helloRejected
    else failClosed .helloMismatch
  | _, _ => failClosed .helloMismatch

def onFallbackHello (f : ParsedFrame) : FdAct Unit := do
  let posture ← localPosture
  let psk ← perform Op.resolveFallbackPsk
  match posture, psk with
  | .encryptedFallback, some psk => do
    let nonce ← perform Op.freshNonce
    match fallbackRespond P psk f.payload nonce with
    | .ok (keys, finished) => do
      -- the confirmation record is sealed inside `fallback::respond`
      note (.sealed .confirm keys.tx.key (nonceFromCounter 0) fallbackConfirm
        (finished.drop fallbackNonceLen))
      if ← queueFrame fallbackWireId typeFallbackFinished finished then do
        note .fallbackActivation
        activate keys (.fallbackRespond psk f.payload nonce finished)
      else failClosed .fallbackReply
    | .error _ => do
      note (.downgradeAttack "malformed FallbackHello at responder")
      failClosed .fallbackRejected
  | _, _ => do
    note (.downgradeAttack "FallbackHello received by a non-degraded responder")
    failClosed .fallbackNotDegraded

def onServerHello (state : InitiatorState) (f : ParsedFrame) : FdAct Unit := do
  let st ← get
  match ← perform Op.resolveIdentity with
  | .ok identity =>
    if f.suiteId = st.policySuite.id then
      match state.finish P identity f.payload with
      | .ok keys => activate keys (.finish state identity f.payload)
      | .error _ => failClosed .finishRejected
    else failClosed .finishMismatch
  | .error _ => failClosed .finishMismatch

def onFallbackFinished (state : FallbackInitiator) (f : ParsedFrame) : FdAct Unit := do
  match state.finish P f.payload with
  | .ok keys => do
    note .fallbackActivation
    activate keys (.fallbackFinish state f.payload)
  | .error _ => do
    note (.downgradeAttack "FallbackFinished failed PSK authentication")
    failClosed .fallbackFinishRejected

def onUnexpectedHello : FdAct Unit := do
  note (.downgradeAttack "unexpected handshake frame type for current phase")
  failClosed .unexpectedDowngrade

/-- The `match (current, f.tag)` of `drive_handshake`. -/
def onHandshakeFrame (current : FdPhase) (f : ParsedFrame) : FdAct Unit :=
  match current with
  | .responderAwaitingClientHello =>
    if f.tag = typeClientHello then onClientHello P f
    else if f.tag = typeFallbackHello then onFallbackHello P f
    else failClosed .unexpectedFrame
  | .initiatorAwaitingServerHello state =>
    if f.tag = typeServerHello then onServerHello P state f
    else if f.tag = typeFallbackHello ∨ f.tag = typeFallbackFinished then onUnexpectedHello
    else failClosed .unexpectedFrame
  | .initiatorAwaitingFallbackFinished state =>
    if f.tag = typeFallbackFinished then onFallbackFinished P state f
    else if f.tag = typeClientHello ∨ f.tag = typeServerHello then onUnexpectedHello
    else failClosed .unexpectedFrame
  | .active _ => failClosed .unexpectedFrame
  | .failed => failClosed .unexpectedFrame

def driveHandshake (fuel : ℕ) : FdAct Unit :=
  iter (fun (_ : Unit) => do
    let st ← get
    match tryPopFrame st.rxWire with
    | .ok none => pure (.inr ())
    | .error _ => do
      failClosed .handshakeHeader
      pure (.inr ())
    | .ok (some (f, rest)) => do
      -- `mem::replace(&mut st.phase, FdPhase::Failed)`
      set { st with rxWire := rest, phase := .failed }
      note (.popped f)
      onHandshakeFrame P st.phase f
      let st ← get
      if st.phase.handshaking then pure (.inl ()) else pure (.inr ())) fuel ()

/-! ### Send path -/

/-- The `pull_wire` half of a round of `drive_until_active_for_write`. -/
def pullForWrite (flags : Flags) (blocking : Bool) (fuel : ℕ) :
    FdAct (Unit ⊕ Except Errno Unit) := do
  match ← pullWire flags with
  | .ok .eof => do
    failClosed .writeEof
    pure (.inr (.error EPIPE))
  | .ok (.data _ _) => do
    driveHandshake P fuel
    pure (.inl ())
  | .ok (.error e) =>
    if wouldBlock e && !blocking then pure (.inr (.error e))
    else if !wouldBlock e then do
      failClosed .writeRecvError
      pure (.inr (.error e))
    else pure (.inl ())
  | .error _ => do
    failClosed .writeOverflow
    pure (.inr (.error EPIPE))

def driveUntilActiveForWrite (flags : Flags) (blocking : Bool) (fuel : ℕ) :
    FdAct (Except Errno Unit) := do
  match ← flushBacklog flags fuel with
  | .error _ => do
    failClosed .writeFirstFlush
    pure (.error EIO)
  | .ok _ =>
    iter (fun (_ : Unit) => do
      let st ← get
      match st.phase with
      | .active _ => pure (.inr (.ok ()))
      | .failed => pure (.inr (.error EPIPE))
      | _ =>
        if st.txBacklog.isEmpty then pullForWrite P flags blocking fuel
        else
          match ← flushBacklog flags fuel with
          | .ok true => pullForWrite P flags blocking fuel
          | .ok false => if !blocking then pure (.inr (.error EAGAIN)) else pure (.inl ())
          | .error _ => do
            failClosed .writeFlush
            pure (.inr (.error EIO))) fuel ()

def appendOrFlush (bytes : Bytes) (flags : Flags) (blocking : Bool) (fuel : ℕ) :
    FdAct (Except Errno Unit) := do
  let st ← get
  match st.appendTx bytes with
  | some st' => do
    set st'
    note (.queued bytes)
    pure (.ok ())
  | none => do
    note .limitExceeded
    match ← flushBacklog flags fuel with
    | .error _ => do
      failClosed .appendFlush
      pure (.error EIO)
    | .ok flushed =>
      if !flushed && !blocking then pure (.error EAGAIN)
      else do
        let st ← get
        match st.appendTx bytes with
        | some st' => do
          set st'
          note (.queued bytes)
          pure (.ok ())
        | none => do
          note .limitExceeded
          pure (.error EMSGSIZE)

/-- One round of the record loop of `overlay_send`: seal the chunk at `offset`
and queue it. -/
def sendRecord (plaintext : Bytes) (suiteId : UInt8) (flags : Flags) (blocking : Bool) (fuel : ℕ)
    (offset : ℕ) : FdAct (ℕ ⊕ Except Errno Unit) := do
  if offset < plaintext.length then do
    let stop := min (offset + maxRecordPlaintext) plaintext.length
    let chunk := slice plaintext offset stop
    let st ← get
    match st.phase with
    | .active keys =>
      match keys.seal P chunk with
      | .ok (keys', ct) => do
        set { st with phase := .active keys' }
        note (.sealed .record keys.tx.key (nonceFromCounter keys.tx.counter) chunk ct)
        match frame suiteId typeData ct with
        | some f => do
          match ← appendOrFlush f flags blocking fuel with
          | .ok _ => pure (.inl stop)
          | .error e => do
            failClosed .appendRefused
            pure (.inr (.error e))
        | none => do
          failClosed .frameError
          pure (.inr (.error EMSGSIZE))
      | .error _ => do
        failClosed .sealError
        pure (.inr (.error EIO))
    | _ => do
      failClosed .sealNotActive
      pure (.inr (.error EPIPE))
  else pure (.inr (.ok ()))

/-- The final flush of `overlay_send`, which spins on a blocking descriptor. -/
def sendFlush (len : ℕ) (flags : Flags) (blocking : Bool) (fuel : ℕ) : FdAct (Except Errno ℕ) := do
  match ← flushBacklog flags fuel with
  | .ok true => pure (.ok len)
  | .ok false =>
    if !blocking then pure (.ok len)
    else
      iter (fun (_ : Unit) => do
        match ← flushBacklog flags fuel with
        | .ok true => pure (.inr (.ok len))
        | .ok false => pure (.inl ())
        | .error _ => do
          failClosed .finalFlushLoop
          pure (.inr (.error EIO))) fuel ()
  | .error _ => do
    failClosed .finalFlush
    pure (.error EIO)

def inheritedAfterFork : FdAct Bool := do
  let st ← get
  let pid ← perform Op.getpid
  if st.ownerPid = pid then pure false
  else do
    failClosed .inheritedAfterFork
    pure true

/-- `overlay_send` from where the per-descriptor lock is held. `.ok n` is a
return of `n`, `.error e` a return of `-1` with errno `e`. -/
def overlaySend (plaintext : Bytes) (flags : Flags) (fuel : ℕ) : FdAct (Except Errno ℕ) := do
  if ← inheritedAfterFork then pure (.error EPIPE)
  else if ← failIfStaleIdleConfig then pure (.error EPIPE)
  else
    let blocking ← isBlocking
    match ← driveUntilActiveForWrite P flags blocking fuel with
    | .error e => pure (.error e)
    | .ok _ =>
      if plaintext.isEmpty then pure (.ok 0)
      else do
        let st ← get
        match ← iter (sendRecord P plaintext st.policySuite.id flags blocking fuel) fuel 0 with
        | .error e => pure (.error e)
        | .ok _ => sendFlush plaintext.length flags blocking fuel

/-! ### Receive path -/

def copyPlaintextToApp (len : ℕ) : FdAct Bytes := do
  let st ← get
  let amt := min len st.rxPlain.length
  set { st with rxPlain := st.rxPlain.drop amt }
  note (.delivered (st.rxPlain.take amt))
  pure (st.rxPlain.take amt)

/-- The `try_pop_frame` loop of `overlay_recv` on an active session; `.ok` is
its `break`. -/
def openRecords (fuel : ℕ) : FdAct (Except Errno Unit) :=
  iter (fun (_ : Unit) => do
    let st ← get
    match tryPopFrame st.rxWire with
    | .ok none => pure (.inr (.ok ()))
    | .error _ => do
      failClosed .recordHeader
      pure (.inr (.error EPIPE))
    | .ok (some (f, rest)) => do
      set { st with rxWire := rest }
      note (.popped f)
      if f.tag = typeData then
        if f.suiteId ≠ st.policySuite.id then do
          failClosed .recordSuite
          pure (.inr (.error EPIPE))
        else
          match st.phase with
          | .active keys =>
            match keys.open P f.payload with
            | .ok (keys', pt) => do
              let st' : FdState := { st with rxWire := rest, phase := .active keys' }
              set st'
              note (.opened keys.rx.key (nonceFromCounter keys.rx.counter) f.payload pt)
              match st'.appendRxPlain pt with
              | some st'' => do
                set st''
                pure (.inl ())
              | none => do
                failClosed .recordPlain
                pure (.inr (.error EPIPE))
            | .error _ => do
              failClosed .recordOpen
              pure (.inr (.error EPIPE))
          | _ => pure (.inl ())
      else do
        failClosed .recordTag
        pure (.inr (.error EPIPE))) fuel ()

/-- The `pull_wire` end of a round of `overlay_recv`. -/
def pullForRecv (flags : Flags) (blocking : Bool) : FdAct (Unit ⊕ Except Errno Bytes) := do
  match ← pullWire flags with
  | .ok .eof => pure (.inr (.ok []))
  | .ok (.data _ _) => pure (.inl ())
  | .ok (.error e) =>
    if wouldBlock e && !blocking then pure (.inr (.error e))
    else if wouldBlock e && blocking then pure (.inl ())
    else pure (.inr (.error e))
  | .error _ => do
    failClosed .recvOverflow
    pure (.inr (.error EPIPE))

/-- A round of `overlay_recv` from where the handshake had its turn. -/
def openOrPull (flags : Flags) (blocking : Bool) (fuel : ℕ) :
    FdAct (Unit ⊕ Except Errno Bytes) := do
  let st ← get
  match st.phase with
  | .failed => pure (.inr (.error EPIPE))
  | .active _ => do
    match ← openRecords P fuel with
    | .error e => pure (.inr (.error e))
    | .ok _ => do
      let st ← get
      if !st.rxPlain.isEmpty then pure (.inl ()) else pullForRecv flags blocking
  | _ => pullForRecv flags blocking

/-- One round of the loop of `overlay_recv`. -/
def recvRound (len : ℕ) (flags : Flags) (blocking : Bool) (fuel : ℕ) :
    FdAct (Unit ⊕ Except Errno Bytes) := do
  let st ← get
  if !st.rxPlain.isEmpty then do
    let b ← copyPlaintextToApp len
    pure (.inr (.ok b))
  else if st.phase.handshaking then do
    let _ ← flushBacklog flags fuel
    driveHandshake P fuel
    let _ ← flushBacklog flags fuel
    openOrPull P flags blocking fuel
  else openOrPull P flags blocking fuel

/-- `overlay_recv` from where the per-descriptor lock is held, for a non-null
buffer of `len > 0` bytes. `.ok b` is a return of `b.length` with `b` copied to
the buffer. -/
def overlayRecv (len : ℕ) (flags : Flags) (fuel : ℕ) : FdAct (Except Errno Bytes) := do
  if ← inheritedAfterFork then pure (.error EPIPE)
  else if ← failIfStaleIdleConfig then pure (.error EPIPE)
  else
    let blocking ← isBlocking
    iter (fun (_ : Unit) => recvRound P len flags blocking fuel) fuel ()

end Paths

/-! ### Calls on one descriptor state -/

inductive FdCall where
  | send (plaintext : Bytes) (flags : Flags) (fuel : ℕ)
  | recv (len : ℕ) (hlen : 0 < len) (flags : Flags) (fuel : ℕ)
  | driveHandshake (fuel : ℕ)
  | staleIdleConfig
  | inheritedAfterFork
  | retire (epoch : ℕ)
  deriving DecidableEq

inductive FdRet where
  | sent (r : Except Errno ℕ)
  | received (r : Except Errno Bytes)
  | flag (b : Bool)
  | unit

def FdCall.run (P : Primitives) : FdCall → FdAct FdRet
  | .send plaintext flags fuel => do
    let r ← overlaySend P plaintext flags fuel
    pure (.sent r)
  | .recv len _ flags fuel => do
    let r ← overlayRecv P len flags fuel
    pure (.received r)
  | .driveHandshake fuel => do
    SyntriassOverlay.driveHandshake P fuel
    pure .unit
  | .staleIdleConfig => do
    let b ← failIfStaleIdleConfig
    pure (.flag b)
  | .inheritedAfterFork => do
    let b ← SyntriassOverlay.inheritedAfterFork
    pure (.flag b)
  | .retire epoch => do
    retireIdleSession epoch
    pure .unit

end SyntriassOverlay
