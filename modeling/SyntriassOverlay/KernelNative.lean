import SyntriassOverlay.Hooks
import SyntriassOverlay.Crypto.Completeness

/-!
# Upcalls of the kernel and the handoff to kernel TLS (kernel_native.rs:37-301, 303-612)

The daemon answers an upcall for a socket: it runs the hybrid handshake and installs the
session's keys as kernel TLS keys. What the daemon asks of its environment are the calls of
its programs. The documentation promises that a socket on which any of it fails is torn
down; only `bridge_session_to_ktls` does so.
-/

namespace SyntriassOverlay
open Crypto Resumption BigEndian

/-! ### Calls of the daemon -/

/-- Return of a `read` into a buffer of `len` bytes. -/
inductive ReadResult (len : ℕ) where
  | data (d : Bytes) (h : 0 < d.length ∧ d.length ≤ len)
  | eof
  | error (e : Errno)
  deriving DecidableEq

inductive DaemonOp where
  | resolvePolicy
  | resolveIdentity
  | ephemeral
  | read (fd : Fd) (len : ℕ)
  | write (fd : Fd) (buf : Bytes)
  | intoStd (fd : Fd)
  | setsockopt (fd : Fd) (level name : ℕ) (value : Bytes)
  | shutdown (fd : Fd) (how : ℕ)
  | close (fd : Fd)
  deriving DecidableEq

@[reducible] def DaemonResp : DaemonOp → Type
  | .resolvePolicy => Option CipherSuite
  | .resolveIdentity => Except CryptoError IdentityMaterial
  | .ephemeral => Ephemeral
  | .read _ len => ReadResult len
  | .write _ buf => SendResult buf.length
  | .intoStd _ => Except Errno Unit
  | .setsockopt _ _ _ _ => Except Errno Unit
  | .shutdown _ _ => Unit
  | .close _ => Unit

abbrev DaemonTr := Trace DaemonResp
abbrev DaemonAct (α : Type) := Act DaemonResp Unit α

/-! ### Kernel TLS -/

def ipprotoTcp : ℕ := 6
def tcpUlp : ℕ := 31
def solTls : ℕ := 282
def tlsTx : ℕ := 1
def tlsRx : ℕ := 2
def tls13Version : ℕ := 0x0304
def tlsCipherAesGcm256 : ℕ := 52
def shutRdwr : ℕ := 2

def ENOENT : Errno := 2
def ENOPROTOOPT : Errno := 92
def EPROTONOSUPPORT : Errno := 93

structure KtlsSecrets where
  key : ByteArr 32
  salt : ByteArr 4
  iv : ByteArr 8
  recSeq : ByteArr 8
  deriving DecidableEq

/-- The record sequence starts at 0. -/
def KtlsSecrets.fromTrafficSecret (s : KtlsTrafficSecret) : KtlsSecrets :=
  ⟨s.key, s.salt, s.iv, List.Vector.replicate 8 0⟩

structure KtlsDuplexKeys where
  tx : KtlsSecrets
  rx : KtlsSecrets
  deriving DecidableEq

/-- `tls12_crypto_info_aes_gcm_256`, as it lies in the memory of a little-endian machine. -/
def KtlsSecrets.cryptoInfo (s : KtlsSecrets) : Bytes :=
  leBytes 2 tls13Version ++ leBytes 2 tlsCipherAesGcm256 ++ s.iv.val ++ s.key.val ++ s.salt.val ++
    s.recSeq.val

structure KtlsError where
  stage : String
  errno : Errno
  deriving DecidableEq

def KtlsError.isUnsupported (e : KtlsError) : Bool :=
  e.errno == ENOENT || e.errno == EOPNOTSUPP || e.errno == ENOPROTOOPT ||
    e.errno == EPROTONOSUPPORT

inductive KernelNativeError where
  | config
  | crypto (e : CryptoError)
  | missingSocketReference
  | ktlsUnavailable
  | ktls (e : KtlsError)
  deriving DecidableEq

/-- `From<KtlsError>`. -/
def KernelNativeError.ofKtls (e : KtlsError) : KernelNativeError :=
  if e.isUnsupported then .ktlsUnavailable else .ktls e

/-- A `setsockopt` whose failure is reported with its stage. -/
def setKtlsOption (fd : Fd) (level name : ℕ) (value : Bytes) (stage : String) :
    DaemonAct (Except KtlsError Unit) := do
  match ← perform (DaemonOp.setsockopt fd level name value) with
  | .ok _ => pure (.ok ())
  | .error errno => pure (.error ⟨stage, errno⟩)

def attachTlsUlp (fd : Fd) : DaemonAct (Except KtlsError Unit) :=
  setKtlsOption fd ipprotoTcp tcpUlp (ascii "tls") "TCP_ULP=tls"

def installKtlsTx (fd : Fd) (secrets : KtlsSecrets) : DaemonAct (Except KtlsError Unit) :=
  setKtlsOption fd solTls tlsTx secrets.cryptoInfo "TLS_TX"

def installKtlsRx (fd : Fd) (secrets : KtlsSecrets) : DaemonAct (Except KtlsError Unit) :=
  setKtlsOption fd solTls tlsRx secrets.cryptoInfo "TLS_RX"

def installKtlsDuplex (fd : Fd) (keys : KtlsDuplexKeys) : DaemonAct (Except KtlsError Unit) := do
  match ← attachTlsUlp fd with
  | .error e => pure (.error e)
  | .ok _ =>
    match ← installKtlsTx fd keys.tx with
    | .error e => pure (.error e)
    | .ok _ => installKtlsRx fd keys.rx

def installKtlsKeys (fd : Fd) (keys : KtlsDuplexKeys) :
    DaemonAct (Except KernelNativeError Unit) := do
  let r ← installKtlsDuplex fd keys
  pure (r.mapError .ofKtls)

def failClosedShutdown (fd : Fd) : DaemonAct Unit := do
  perform (DaemonOp.shutdown fd shutRdwr)
  perform (DaemonOp.close fd)

/-- The keys of a session as kernel TLS keys. -/
def ktlsDuplex (P : Primitives) (keys : SessionKeys) : KtlsDuplexKeys :=
  let traffic := keys.exportKtls P
  ⟨.fromTrafficSecret traffic.tx, .fromTrafficSecret traffic.rx⟩

def bridgeSessionToKtls (P : Primitives) (fd : Fd) (keys : SessionKeys) :
    DaemonAct (Except KernelNativeError Unit) := do
  match ← installKtlsKeys fd (ktlsDuplex P keys) with
  | .ok _ => pure (.ok ())
  | .error e => do
    failClosedShutdown fd
    pure (.error e)

/-! ### Upcalls -/

structure KernelUpcall where
  socketId : UInt64
  localPort : UInt16
  remotePort : UInt16
  remoteAddr : String
  cgroupId : Option UInt64
  pid : Option UInt32
  fd : Option Fd
  deriving DecidableEq

inductive EnforcementDecision where
  | enforce
  | ignore
  deriving DecidableEq

def classifyUpcall (upcall : KernelUpcall) : EnforcementDecision :=
  if upcall.localPort = 0 ∨ upcall.remotePort = 0 then .ignore else .enforce

def configuredSuite : DaemonAct (Except KernelNativeError CipherSuite) := do
  match ← perform DaemonOp.resolvePolicy with
  | some suite => pure (.ok suite)
  | none => pure (.error .config)

/-- The daemon plays both roles with its own identity. -/
def runLocalHandshake (P : Primitives) (suite : CipherSuite) :
    DaemonAct (Except KernelNativeError SessionKeys) := do
  match ← perform DaemonOp.resolveIdentity with
  | .error e => pure (.error (.crypto e))
  | .ok identity =>
    let eph ← perform DaemonOp.ephemeral
    match suite.beginInitiator P identity eph with
    | .error e => pure (.error (.crypto e))
    | .ok (state, clientHello) =>
      let eph' ← perform DaemonOp.ephemeral
      match suite.respond P identity clientHello eph' with
      | .error e => pure (.error (.crypto e))
      | .ok (_, serverHello) =>
        match state.finish P identity serverHello with
        | .error e => pure (.error (.crypto e))
        | .ok keys => pure (.ok keys)

def completeKernelUpcall (P : Primitives) (upcall : KernelUpcall) :
    DaemonAct (Except KernelNativeError Unit) := do
  if classifyUpcall upcall = .ignore then pure (.ok ())
  else
    match ← configuredSuite with
    | .error e => pure (.error e)
    | .ok suite =>
      match upcall.fd with
      | none => pure (.error .missingSocketReference)
      | some fd =>
        match ← runLocalHandshake P suite with
        | .error e => pure (.error e)
        | .ok keys => bridgeSessionToKtls P fd keys

/-! ### What a run of the daemon shows -/

/-- A socket option that was set. -/
structure SockOpt where
  fd : Fd
  level : ℕ
  name : ℕ
  value : Bytes
  deriving DecidableEq

/-- A `setsockopt` that succeeded. -/
def installed : Ev DaemonResp → List SockOpt
  | ⟨.setsockopt fd level name value, .ok _⟩ => [⟨fd, level, name, value⟩]
  | _ => []

/-- A call that ends a connection. -/
def ending : Ev DaemonResp → List DaemonOp
  | ⟨.shutdown fd how, _⟩ => [.shutdown fd how]
  | ⟨.close fd, _⟩ => [.close fd]
  | _ => []

def drawn : Ev DaemonResp → List Ephemeral
  | ⟨.ephemeral, eph⟩ => [eph]
  | _ => []

def installs (t : DaemonTr) : List SockOpt := t.flatMap installed
def endings (t : DaemonTr) : List DaemonOp := t.flatMap ending
def draws (t : DaemonTr) : List Ephemeral := t.flatMap drawn

section
variable (t u : DaemonTr)

@[simp] theorem installs_append : installs (t ++ u) = installs t ++ installs u :=
  List.flatMap_append
@[simp] theorem endings_append : endings (t ++ u) = endings t ++ endings u := List.flatMap_append
@[simp] theorem draws_append : draws (t ++ u) = draws t ++ draws u := List.flatMap_append

end

/-- The TLS ULP and the keys of one session in both directions. -/
def ktlsOptions (P : Primitives) (fd : Fd) (keys : SessionKeys) : List SockOpt :=
  [⟨fd, ipprotoTcp, tcpUlp, ascii "tls"⟩,
    ⟨fd, solTls, tlsTx, (ktlsDuplex P keys).tx.cryptoInfo⟩,
    ⟨fd, solTls, tlsRx, (ktlsDuplex P keys).rx.cryptoInfo⟩]

/-- What `fail_closed_shutdown` does. -/
def tornDown (fd : Fd) : List DaemonOp := [.shutdown fd shutRdwr, .close fd]

/-- What a call that is to protect `fd` with `keys` must have done when it returns. -/
structure Protects (P : Primitives) (fd : Fd) (keys : SessionKeys) (u : DaemonTr)
    (r : Except KernelNativeError Unit) : Prop where
  ok : r = .ok () → installs u = ktlsOptions P fd keys ∧ endings u = []
  error : ∀ e, r = .error e → endings u = tornDown fd

/-- Any answers of the environment. -/
abbrev anyAnswer : Obligation DaemonResp Unit where
  call _ _ _ := True
  cut _ _ := False

section
variable {P : Primitives} {fd : Fd} {keys : SessionKeys}

theorem Protects.failed {u : DaemonTr} {e : KernelNativeError} (h : endings u = tornDown fd) :
    Protects P fd keys u (.error e) :=
  ⟨fun heq => (by cases heq), fun _ _ => h⟩

/-- Whatever the three `setsockopt` calls answer, the bridge installs everything or tears the
socket down. -/
theorem bridgeSessionToKtls_safe :
    Safe anyAnswer (fun u _ r => Protects P fd keys u r ∧ draws u = [])
      (bridgeSessionToKtls P fd keys ()) [] := by
  refine ⟨trivial, fun ulp => ?_⟩
  cases ulp with
  | error e => exact ⟨trivial, fun _ => ⟨trivial, fun _ => ⟨.failed rfl, rfl⟩⟩⟩
  | ok _ =>
    refine ⟨trivial, fun tx => ?_⟩
    cases tx with
    | error e => exact ⟨trivial, fun _ => ⟨trivial, fun _ => ⟨.failed rfl, rfl⟩⟩⟩
    | ok _ =>
      refine ⟨trivial, fun rx => ?_⟩
      cases rx with
      | error e => exact ⟨trivial, fun _ => ⟨trivial, fun _ => ⟨.failed rfl, rfl⟩⟩⟩
      | ok _ => exact ⟨⟨fun _ => ⟨rfl, rfl⟩, fun _ heq => (by cases heq)⟩, rfl⟩

/-! ### One upcall -/

/-- The exchange of the daemon with itself, for what it draws in the two roles. -/
def localHandshake (P : Primitives) (suite : CipherSuite) (identity : IdentityMaterial)
    (eph eph' : Ephemeral) : Except CryptoError SessionKeys :=
  match suite.beginInitiator P identity eph with
  | .error e => .error e
  | .ok (state, clientHello) =>
    match suite.respond P identity clientHello eph' with
    | .error e => .error e
    | .ok (_, serverHello) => state.finish P identity serverHello

/-- The policy and the identity were resolved, and the engine accepted the handshake. -/
def Negotiated (P : Primitives) (t : DaemonTr) (keys : SessionKeys) : Prop :=
  ∃ suite identity eph eph', (⟨.resolvePolicy, some suite⟩ : Ev DaemonResp) ∈ t ∧
    (⟨.resolveIdentity, .ok identity⟩ : Ev DaemonResp) ∈ t ∧ draws t = [eph, eph'] ∧
    localHandshake P suite identity eph eph' = .ok keys

/-- An upcall for `fd` returns success only when kernel TLS has the keys of an established
session, and an error only when the socket is gone. -/
structure UpcallFailsClosed (P : Primitives) (fd : Fd) (t : DaemonTr)
    (r : Except KernelNativeError Unit) : Prop where
  ok : r = .ok () → ∃ keys, Negotiated P t keys ∧ installs t = ktlsOptions P fd keys ∧
    endings t = []
  error : ∀ e, r = .error e → endings t = tornDown fd

/-- How an upcall for `fd` ends: with a bridge for an established session, or before there
is one. -/
inductive UpcallEnds (P : Primitives) (fd : Fd) (t : DaemonTr) :
    Except KernelNativeError Unit → Prop
  | bridged {t₀ u : DaemonTr} {keys : SessionKeys} {r : Except KernelNativeError Unit}
      (ht : t = t₀ ++ u) (hest : Negotiated P t keys) (hinst : installs t₀ = [])
      (hend : endings t₀ = []) (hu : Protects P fd keys u r) : UpcallEnds P fd t r
  | unsettled {e : KernelNativeError} (hnone : ∀ keys, ¬ Negotiated P t keys)
      (hend : endings t = []) : UpcallEnds P fd t (.error e)

theorem negotiated_iff {suite : CipherSuite} {identity : IdentityMaterial} {eph eph' : Ephemeral} :
    Negotiated P [⟨.resolvePolicy, some suite⟩, ⟨.resolveIdentity, .ok identity⟩,
      ⟨.ephemeral, eph⟩, ⟨.ephemeral, eph'⟩] keys ↔
      localHandshake P suite identity eph eph' = .ok keys := by
  constructor
  · rintro ⟨suite', identity', e, e', hpolicy, hid, hdraws, hrun⟩
    simp only [List.mem_cons, Ev.mk.injEq, reduceCtorEq, false_and, heq_eq_eq, true_and,
      Option.some.injEq, List.not_mem_nil, or_false, or_self] at hpolicy
    simp only [List.mem_cons, Ev.mk.injEq, reduceCtorEq, false_and, heq_eq_eq, true_and,
      Except.ok.injEq, List.not_mem_nil, or_false, false_or, or_self] at hid
    cases hdraws
    rwa [← hpolicy, ← hid]
  · intro hrun
    exact ⟨suite, identity, eph, eph', by simp, by simp, rfl, hrun⟩

theorem Negotiated.extend {t u : DaemonTr} (h : Negotiated P t keys) (hu : draws u = []) :
    Negotiated P (t ++ u) keys := by
  obtain ⟨suite, identity, eph, eph', hpolicy, hid, hdraws, hrun⟩ := h
  refine ⟨suite, identity, eph, eph', List.mem_append_left _ hpolicy, List.mem_append_left _ hid,
    ?_, hrun⟩
  rw [draws_append, hdraws, hu, List.append_nil]

theorem completeKernelUpcall_safe {upcall : KernelUpcall}
    (henf : classifyUpcall upcall = .enforce) (hfd : upcall.fd = some fd) :
    Safe anyAnswer (fun t _ r => UpcallEnds P fd t r) (completeKernelUpcall P upcall ()) [] := by
  have hnot : ¬ classifyUpcall upcall = .ignore := by simp [henf]
  simp only [completeKernelUpcall, hnot, if_false, configuredSuite, bind_apply, perform_apply,
    bind_call, bind_done]
  refine ⟨trivial, fun policy => ?_⟩
  cases policy with
  | none =>
    refine .unsettled ?_ rfl
    rintro keys ⟨suite, identity, eph, eph', hmem, -⟩
    simp at hmem
  | some suite =>
    simp only [pure_apply, bind_done, hfd, runLocalHandshake, bind_apply, perform_apply, bind_call]
    refine ⟨trivial, fun identity => ?_⟩
    cases identity with
    | error e =>
      refine .unsettled ?_ rfl
      rintro keys ⟨suite, identity, eph, eph', -, hmem, -⟩
      simp at hmem
    | ok identity =>
      simp only [bind_done, bind_apply, perform_apply, bind_call]
      refine ⟨trivial, fun eph => ?_⟩
      dsimp only
      cases hbegin : suite.beginInitiator P identity eph with
      | error e =>
        refine .unsettled ?_ rfl
        rintro keys ⟨suite', identity', e, e', -, -, hdraws, -⟩
        cases hdraws
      | ok begun =>
        obtain ⟨state, clientHello⟩ := begun
        simp only [bind_apply, perform_apply, bind_call]
        refine ⟨trivial, fun eph' => ?_⟩
        -- from here on the run is decided: the engine accepts or it does not
        have hend : ∀ e : CryptoError, localHandshake P suite identity eph eph' = .error e →
            UpcallEnds P fd [⟨.resolvePolicy, some suite⟩, ⟨.resolveIdentity, .ok identity⟩,
              ⟨.ephemeral, eph⟩, ⟨.ephemeral, eph'⟩] (.error (.crypto e)) := by
          intro e he
          refine .unsettled (fun keys hest => ?_) rfl
          rw [negotiated_iff, he] at hest
          cases hest
        simp only [bind_done]
        cases hrespond : suite.respond P identity clientHello eph' with
        | error e => exact hend e (by simp [localHandshake, hbegin, hrespond])
        | ok answered =>
          obtain ⟨serverKeys, serverHello⟩ := answered
          dsimp only
          cases hfinish : state.finish P identity serverHello with
          | error e => exact hend e (by simp [localHandshake, hbegin, hrespond, hfinish])
          | ok keys =>
            have hrun : localHandshake P suite identity eph eph' = .ok keys := by
              simp [localHandshake, hbegin, hrespond, hfinish]
            refine safe_after _ (fun _ _ _ _ => trivial) (fun _ _ h => h) ?_
              bridgeSessionToKtls_safe
            rintro u - r ⟨hu, hdraws⟩
            exact .bridged rfl ((negotiated_iff.mpr hrun).extend hdraws) rfl rfl hu

theorem completeKernelUpcall_at {upcall : KernelUpcall} {suite : CipherSuite}
    {identity : IdentityMaterial} {eph eph' : Ephemeral}
    (henf : classifyUpcall upcall = .enforce) (hfd : upcall.fd = some fd)
    (hrun : localHandshake P suite identity eph eph' = .ok keys) :
    At (completeKernelUpcall P upcall ()) [⟨.resolvePolicy, some suite⟩,
      ⟨.resolveIdentity, .ok identity⟩, ⟨.ephemeral, eph⟩, ⟨.ephemeral, eph'⟩]
      (bridgeSessionToKtls P fd keys ()) := by
  have hnot : ¬ classifyUpcall upcall = .ignore := by simp [henf]
  simp only [localHandshake] at hrun
  split at hrun
  · cases hrun
  · rename_i state hello hbegin
    split at hrun
    · cases hrun
    · rename_i serverKeys reply hrespond
      simp only [completeKernelUpcall, hnot, if_false, configuredSuite, bind_apply, perform_apply,
        bind_call, bind_done, runLocalHandshake]
      refine .head ?_
      simp only [pure_apply, bind_done, hfd, bind_apply, perform_apply, bind_call]
      refine .head (.head ?_)
      simp only [bind_done, hbegin, bind_apply, perform_apply, bind_call]
      refine .head ?_
      simp only [bind_done, hrespond, hrun, pure_apply]
      exact .refl

end

/-- An upcall fails closed just when the policy, the identity and the handshake are in order:
only what the bridge does is torn down. -/
theorem completeKernelUpcall_failsClosed_iff {P : Primitives} {upcall : KernelUpcall} {fd : Fd}
    (henf : classifyUpcall upcall = .enforce) (hfd : upcall.fd = some fd) {t : DaemonTr}
    {r : Except KernelNativeError Unit}
    (hrun : At (completeKernelUpcall P upcall ()) t (.done () r)) :
    UpcallFailsClosed P fd t r ↔ ∃ keys, Negotiated P t keys := by
  have hends : UpcallEnds P fd t r := safe_at (completeKernelUpcall_safe henf hfd) hrun
  cases hends with
  | @bridged t₀ u keys _ ht hest hinst hend hu =>
    refine ⟨fun _ => ⟨keys, hest⟩, fun _ => ⟨fun hr => ?_, fun e hr => ?_⟩⟩
    · obtain ⟨hopts, hopen⟩ := hu.ok hr
      refine ⟨keys, hest, ?_, ?_⟩
      · rw [ht, installs_append, hinst, hopts, List.nil_append]
      · rw [ht, endings_append, hend, hopen, List.nil_append]
    · rw [ht, endings_append, hend, hu.error e hr, List.nil_append]
  | @unsettled e hnone hend =>
    constructor
    · intro h
      have htorn := h.error e rfl
      rw [hend] at htorn
      cases htorn
    · rintro ⟨keys, hest⟩
      exact absurd hest (hnone keys)

/-- The two ends of a daemon that trusts its own keys come to an agreement. -/
theorem localHandshake_complete {P : Primitives} (hP : CorrectPrimitives P) (suite : CipherSuite)
    {identity : IdentityMaterial} (htrust : Trusts P identity identity) (eph eph' : Ephemeral) :
    ∃ keys, localHandshake P suite identity eph eph' = .ok keys := by
  obtain ⟨state, hello, keys, reply, hbegin, hrespond, hfinish, -⟩ :=
    hybrid_complete hP suite htrust htrust eph eph'
  exact ⟨keys.mirror, by simp only [localHandshake, hbegin, hrespond, hfinish]⟩

/-- A connection to port 8443 on descriptor 11. -/
def specimenUpcall : KernelUpcall where
  socketId := 0x51515151
  localPort := 50001
  remotePort := 8443
  remoteAddr := "127.0.0.1"
  cgroupId := some 1234
  pid := none
  fd := some 11

/-- A daemon whose identity pins its own keys, on a kernel without the TLS ULP: the handshake
is accepted, and the bridge tears the socket down. -/
theorem completeKernelUpcall_failsClosed_noUlp : ∃ t,
    At (completeKernelUpcall specimen specimenUpcall ()) t (.done () (.error .ktlsUnavailable)) ∧
    endings t = tornDown 11 ∧ UpcallFailsClosed specimen 11 t (.error .ktlsUnavailable) := by
  obtain ⟨keys, hhand⟩ := localHandshake_complete specimen_correct .nistStandard768
    specimenIdentity_trusts ⟨ramp 32, []⟩ ⟨ramp 32, []⟩
  let asked : DaemonTr := [⟨.resolvePolicy, some .nistStandard768⟩,
    ⟨.resolveIdentity, .ok specimenIdentity⟩, ⟨.ephemeral, ⟨ramp 32, []⟩⟩,
    ⟨.ephemeral, ⟨ramp 32, []⟩⟩]
  let torn : DaemonTr := [⟨.setsockopt 11 ipprotoTcp tcpUlp (ascii "tls"), .error ENOENT⟩,
    ⟨.shutdown 11 shutRdwr, ()⟩, ⟨.close 11, ()⟩]
  have hat : At (completeKernelUpcall specimen specimenUpcall ()) (asked ++ torn)
      (.done () (.error .ktlsUnavailable)) := by
    have hbridge : At (bridgeSessionToKtls specimen 11 keys ()) torn
        (.done () (.error .ktlsUnavailable)) := .head (.head (.head .refl))
    exact (completeKernelUpcall_at rfl rfl hhand).trans hbridge
  refine ⟨_, hat, rfl, (completeKernelUpcall_failsClosed_iff rfl rfl hat).mpr ⟨keys, ?_⟩⟩
  exact (negotiated_iff.mpr hhand).extend rfl

/-- No policy is configured: the upcall fails and the socket stays as it is. -/
theorem completeKernelUpcall_failsClosed_not : ∃ t,
    At (completeKernelUpcall specimen specimenUpcall ()) t (.done () (.error .config)) ∧
    endings t = [] ∧ ¬ UpcallFailsClosed specimen 11 t (.error .config) := by
  have hat : At (completeKernelUpcall specimen specimenUpcall ()) [⟨.resolvePolicy, none⟩]
      (.done () (.error .config)) := .head .refl
  refine ⟨_, hat, rfl, fun h => ?_⟩
  have htorn := h.error _ rfl
  cases htorn

end SyntriassOverlay
