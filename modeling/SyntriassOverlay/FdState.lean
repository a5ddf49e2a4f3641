import SyntriassOverlay.Lib.Resumption
import SyntriassOverlay.Frame

/-!
# Per-descriptor state and its environment (fd_state.rs)

`FdState` with its phases and bounded buffers, and the calls its code makes:
the real `send` and `recv`, `fcntl`, `getpid`, the reloadable configuration, the
random number generator. Every evaluation of such a value is a call of its own,
because its answer may differ from one evaluation to the next.

`Note` is what the code does that no return value shows: the telemetry of the
source, and the atomic steps (a record sealed, a frame taken off the buffer,
a session closed and at which place of the source) on which properties of whole
runs are stated. A note has no answer and changes nothing.
-/

namespace SyntriassOverlay
open Crypto Resumption

abbrev Errno := ℕ
abbrev Flags := ℕ
abbrev Pid := ℕ

def EINTR : Errno := 4
def EIO : Errno := 5
def EBADF : Errno := 9
def EAGAIN : Errno := 11
def EWOULDBLOCK : Errno := 11
def EFAULT : Errno := 14
def EINVAL : Errno := 22
def EPIPE : Errno := 32
def EMSGSIZE : Errno := 90
def EOPNOTSUPP : Errno := 95
def EINPROGRESS : Errno := 115

/-- `O_NONBLOCK` of Linux. -/
def oNonblock : ℕ := 2048

/-- Return of the real `send` on a buffer of `len` bytes. -/
inductive SendResult (len : ℕ) where
  | sent (n : ℕ) (h : 0 < n ∧ n ≤ len)
  | zero
  | error (e : Errno)
  deriving DecidableEq

/-- Size of the stack buffer of `pull_wire`. -/
def pullSize : ℕ := 8192

/-- Return of the real `recv` into a buffer of `pullSize` bytes. -/
inductive RecvResult where
  | data (d : Bytes) (h : 0 < d.length ∧ d.length ≤ pullSize)
  | eof
  | error (e : Errno)
  deriving DecidableEq

/-! ### Notes -/

/-- The places that call `fail_closed`. -/
inductive FailSite where
  | inheritedAfterFork | staleIdleConfig | retired
  | writeFirstFlush | writeFlush | writeEof | writeRecvError | writeOverflow
  | appendFlush | appendRefused | sealError | sealNotActive | frameError
  | finalFlush | finalFlushLoop
  | handshakeHeader | helloMismatch | helloRejected | helloReply
  | fallbackNotDegraded | fallbackRejected | fallbackReply
  | finishMismatch | finishRejected | fallbackFinishRejected
  | unexpectedDowngrade | unexpectedFrame
  | recordHeader | recordSuite | recordTag | recordOpen | recordPlain | recvOverflow
  deriving DecidableEq, Repr

/-- The engine call a session's keys come from, with all it was given. -/
inductive Origin where
  | respond (suite : CipherSuite) (identity : IdentityMaterial) (hello : Bytes) (eph : Ephemeral)
      (reply : Bytes)
  | finish (state : InitiatorState) (identity : IdentityMaterial) (serverHello : Bytes)
  | fallbackRespond (psk : ByteArr 32) (hello : Bytes) (nonce : ByteArr 16) (reply : Bytes)
  | fallbackFinish (state : FallbackInitiator) (finished : Bytes)
  deriving DecidableEq

/-- The two callers of `SessionKeys::seal`. -/
inductive Sealer where
  | record
  | confirm
  deriving DecidableEq, Repr

inductive Note where
  | sealed (who : Sealer) (key : ByteArr 32) (nonce : ByteArr 12) (plaintext ct : Bytes)
  | opened (key : ByteArr 32) (nonce : ByteArr 12) (ct plaintext : Bytes)
  | popped (f : ParsedFrame)
  | queued (f : Bytes)
  | activated (keys : SessionKeys) (origin : Origin)
  | failClosed (site : FailSite)
  | limitExceeded
  | delivered (b : Bytes)
  | activeSessionsInc
  | activeSessionsDec
  | fallbackActivation
  | downgradeAttack (detail : String)
  deriving DecidableEq

inductive Op where
  | send (buf : Bytes) (flags : Flags)
  | recv (flags : Flags)
  | getfl
  | getpid
  | configEpoch
  | resolvePolicy
  | resolveIdentity
  | pqcControlAvailable
  | resolveFallbackPsk
  | ephemeral
  | freshNonce
  | note (n : Note)
  deriving DecidableEq

/-- The answers of each call; `fcntl(F_GETFL)` fails as `none`. -/
@[reducible] def Resp : Op → Type
  | .send buf _ => SendResult buf.length
  | .recv _ => RecvResult
  | .getfl => Option ℕ
  | .getpid => Pid
  | .configEpoch => ℕ
  | .resolvePolicy => Option CipherSuite
  | .resolveIdentity => Except CryptoError IdentityMaterial
  | .pqcControlAvailable => Bool
  | .resolveFallbackPsk => Option (ByteArr 32)
  | .ephemeral => Ephemeral
  | .freshNonce => ByteArr 16
  | .note _ => Unit

abbrev Tr := Trace Resp

def note {σ : Type} (n : Note) : Act Resp σ Unit := perform (Op.note n)

/-! ### State -/

inductive FdPhase where
  | initiatorAwaitingServerHello (state : InitiatorState)
  | initiatorAwaitingFallbackFinished (state : FallbackInitiator)
  | responderAwaitingClientHello
  | active (keys : SessionKeys)
  | failed
  deriving DecidableEq

structure FdState where
  phase : FdPhase
  ownerPid : Pid
  policySuite : CipherSuite
  configEpoch : ℕ
  txBacklog : Bytes
  rxWire : Bytes
  rxPlain : Bytes
  countedActive : Bool
  deriving DecidableEq

/-- The phases in which a handshake is still under way. -/
def FdPhase.handshaking : FdPhase → Bool
  | .active _ => false
  | .failed => false
  | _ => true

theorem FdPhase.ne_failed_of_handshaking {p : FdPhase} (h : p.handshaking = true) :
    p ≠ .failed := by
  rintro rfl
  cases h

namespace FdState
variable {σ : Type}

/-- The state every constructor builds, for its phase and first outgoing bytes. -/
def build (phase : FdPhase) (policySuite : CipherSuite) (txBacklog : Bytes) :
    Act Resp σ FdState := do
  let ownerPid ← perform .getpid
  let configEpoch ← perform .configEpoch
  pure
    { phase := phase
      ownerPid := ownerPid
      policySuite := policySuite
      configEpoch := configEpoch
      txBacklog := txBacklog
      rxWire := []
      rxPlain := []
      countedActive := false }

def responder (policySuite : CipherSuite) : Act Resp σ FdState :=
  build .responderAwaitingClientHello policySuite []

def initiator (policySuite : CipherSuite) (state : InitiatorState) (clientHelloFrame : Bytes) :
    Act Resp σ FdState :=
  build (.initiatorAwaitingServerHello state) policySuite clientHelloFrame

def fallbackInitiator (policySuite : CipherSuite) (state : FallbackInitiator)
    (fallbackHelloFrame : Bytes) : Act Resp σ FdState :=
  build (.initiatorAwaitingFallbackFinished state) policySuite fallbackHelloFrame

def failed (policySuite : CipherSuite) : Act Resp σ FdState := build .failed policySuite []

/-- `append_bounded`; `none` is `LimitExceeded`. -/
def appendBounded (buf bytes : Bytes) (limit : ℕ) : Option Bytes :=
  if bytes.length > limit - buf.length then none else some (buf ++ bytes)

def appendTx (st : FdState) (bytes : Bytes) : Option FdState :=
  (appendBounded st.txBacklog bytes maxWriteBacklog).map fun b => { st with txBacklog := b }

def appendRxWire (st : FdState) (bytes : Bytes) : Option FdState :=
  (appendBounded st.rxWire bytes maxWireRxBuffer).map fun b => { st with rxWire := b }

def appendRxPlain (st : FdState) (bytes : Bytes) : Option FdState :=
  (appendBounded st.rxPlain bytes maxPlainRxBuffer).map fun b => { st with rxPlain := b }

def isIdleForConfigReload (st : FdState) : Bool :=
  st.txBacklog.isEmpty && st.rxWire.isEmpty && st.rxPlain.isEmpty

/-- What `fail_closed` leaves. -/
def closed (st : FdState) : FdState :=
  { st with phase := .failed, txBacklog := [], rxWire := [], rxPlain := [], countedActive := false }

@[simp] theorem closed_phase (st : FdState) : st.closed.phase = .failed := rfl
@[simp] theorem closed_txBacklog (st : FdState) : st.closed.txBacklog = [] := rfl
@[simp] theorem closed_rxWire (st : FdState) : st.closed.rxWire = [] := rfl
@[simp] theorem closed_rxPlain (st : FdState) : st.closed.rxPlain = [] := rfl
@[simp] theorem closed_countedActive (st : FdState) : st.closed.countedActive = false := rfl
@[simp] theorem closed_ownerPid (st : FdState) : st.closed.ownerPid = st.ownerPid := rfl
@[simp] theorem closed_policySuite (st : FdState) : st.closed.policySuite = st.policySuite := rfl
@[simp] theorem closed_configEpoch (st : FdState) : st.closed.configEpoch = st.configEpoch := rfl

theorem appendBounded_eq_some {buf bytes out : Bytes} {limit : ℕ} :
    appendBounded buf bytes limit = some out ↔
      bytes.length ≤ limit - buf.length ∧ out = buf ++ bytes := by
  unfold appendBounded
  by_cases h : bytes.length > limit - buf.length
  · simp only [h, if_true, reduceCtorEq, false_iff]; omega
  · simp only [h, if_false, Option.some.injEq, eq_comm, iff_and_self]; omega

theorem appendBounded_eq_none {buf bytes : Bytes} {limit : ℕ} :
    appendBounded buf bytes limit = none ↔ limit - buf.length < bytes.length := by
  unfold appendBounded
  by_cases h : bytes.length > limit - buf.length
  · simp only [h, if_true]
  · simp only [h, if_false, reduceCtorEq]

theorem appendTx_eq_some {st st' : FdState} {bytes : Bytes} :
    st.appendTx bytes = some st' ↔ bytes.length ≤ maxWriteBacklog - st.txBacklog.length ∧
      st' = { st with txBacklog := st.txBacklog ++ bytes } := by
  simp only [appendTx, Option.map_eq_some_iff, appendBounded_eq_some]
  constructor
  · rintro ⟨b, ⟨h, rfl⟩, rfl⟩
    exact ⟨h, rfl⟩
  · rintro ⟨h, rfl⟩
    exact ⟨_, ⟨h, rfl⟩, rfl⟩

theorem appendTx_eq_none {st : FdState} {bytes : Bytes} :
    st.appendTx bytes = none ↔ maxWriteBacklog - st.txBacklog.length < bytes.length := by
  simp only [appendTx, Option.map_eq_none_iff, appendBounded_eq_none]

theorem appendRxWire_eq_some {st st' : FdState} {bytes : Bytes} :
    st.appendRxWire bytes = some st' ↔ bytes.length ≤ maxWireRxBuffer - st.rxWire.length ∧
      st' = { st with rxWire := st.rxWire ++ bytes } := by
  simp only [appendRxWire, Option.map_eq_some_iff, appendBounded_eq_some]
  constructor
  · rintro ⟨b, ⟨h, rfl⟩, rfl⟩
    exact ⟨h, rfl⟩
  · rintro ⟨h, rfl⟩
    exact ⟨_, ⟨h, rfl⟩, rfl⟩

theorem appendRxWire_eq_none {st : FdState} {bytes : Bytes} :
    st.appendRxWire bytes = none ↔ maxWireRxBuffer - st.rxWire.length < bytes.length := by
  simp only [appendRxWire, Option.map_eq_none_iff, appendBounded_eq_none]

theorem appendRxPlain_eq_some {st st' : FdState} {bytes : Bytes} :
    st.appendRxPlain bytes = some st' ↔ bytes.length ≤ maxPlainRxBuffer - st.rxPlain.length ∧
      st' = { st with rxPlain := st.rxPlain ++ bytes } := by
  simp only [appendRxPlain, Option.map_eq_some_iff, appendBounded_eq_some]
  constructor
  · rintro ⟨b, ⟨h, rfl⟩, rfl⟩
    exact ⟨h, rfl⟩
  · rintro ⟨h, rfl⟩
    exact ⟨_, ⟨h, rfl⟩, rfl⟩

theorem appendRxPlain_eq_none {st : FdState} {bytes : Bytes} :
    st.appendRxPlain bytes = none ↔ maxPlainRxBuffer - st.rxPlain.length < bytes.length := by
  simp only [appendRxPlain, Option.map_eq_none_iff, appendBounded_eq_none]

end FdState

abbrev FdAct (α : Type) := Act Resp FdState α

/-- `fail_closed`, called at `site`. -/
def failClosed (site : FailSite) : FdAct Unit := do
  let st ← get
  if st.countedActive then note .activeSessionsDec
  set st.closed
  note (.failClosed site)

/-- `activate`, for keys that come from `origin`. -/
def activate (keys : SessionKeys) (origin : Origin) : FdAct Unit := do
  let st ← get
  if !st.countedActive then note .activeSessionsInc
  set { st with phase := .active keys, countedActive := true }
  note (.activated keys origin)

def failIfStaleIdleConfig : FdAct Bool := do
  let st ← get
  let epoch ← perform .configEpoch
  if st.configEpoch = epoch then pure false
  else if st.isIdleForConfigReload then do
    failClosed .staleIdleConfig
    let epoch' ← perform .configEpoch
    modify fun st => { st with configEpoch := epoch' }
    pure true
  else pure false

/-- What the config reload thread does to one session for the new `epoch`. -/
def retireIdleSession (epoch : ℕ) : FdAct Unit := do
  let st ← get
  if st.configEpoch ≠ epoch && st.isIdleForConfigReload then do
    failClosed .retired
    modify fun st => { st with configEpoch := epoch }
  else pure ()

end SyntriassOverlay
