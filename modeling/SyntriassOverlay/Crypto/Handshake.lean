import SyntriassOverlay.Crypto.SessionKeys

/-!
# The hybrid handshake and the PSK fallback (crypto/generic.rs, crypto/fallback.rs)

Both sides of the X25519 + ML-KEM handshake, generic in the ML-KEM parameter
set as in the source, the two engines built from it (`nist768`, `nist1024`), and
the two-message PSK fallback. The randomness a step draws (`Ephemeral`, a nonce)
is its last argument.
-/

namespace SyntriassOverlay.Crypto

def hkdfLabelPrefix : Bytes := ascii "syntriass-overlay v3 suite="
def clientAuthLabel : Bytes := ascii "syntriass-overlay client identity v1"
def serverAuthLabel : Bytes := ascii "syntriass-overlay server identity v1"
def keyTranscriptLabel : Bytes := ascii "syntriass-overlay transcript hash v1"
def fallbackTranscriptLabel : Bytes := ascii "syntriass-overlay psk-fallback transcript v1"

/-! ### Key schedule -/

def hkdfInfo (suiteId : UInt8) (transcriptHash : ByteArr 32) : Bytes :=
  hkdfLabelPrefix ++ [suiteId] ++ transcriptHash.val

/-- Initiator writes the first half (c2s) and reads the second (s2c); the
responder is mirrored. -/
def derive (P : Primitives) (ikm : Bytes) (suiteId : UInt8) (transcriptHash : ByteArr 32)
    (isInitiator : Bool) : Except CryptoError SessionKeys := do
  let okm ← hkdfExpand P ikm (hkdfInfo suiteId transcriptHash) 64
  let c2s := okm.sub 0 32 (by omega)
  let s2c := okm.sub 32 32 (by omega)
  let (tx, rx) := if isInitiator then (c2s, s2c) else (s2c, c2s)
  pure ⟨Direction.new tx, Direction.new rx⟩

/-- Transcript string hashed for the fallback key schedule. -/
def fallbackTranscript (clientNonce serverNonce : Bytes) : Bytes :=
  fallbackTranscriptLabel ++ clientNonce ++ serverNonce

def deriveFallback (P : Primitives) (psk clientNonce serverNonce : Bytes) (isInitiator : Bool) :
    Except CryptoError SessionKeys :=
  derive P psk 0xFF (P.sha256 (fallbackTranscript clientNonce serverNonce)) isInitiator

/-! ### Signed messages and transcript -/

def clientAuthMessage (suiteId : UInt8) (clientUnsigned : Bytes) : Bytes :=
  clientAuthLabel ++ [suiteId] ++ clientUnsigned

def serverAuthMessage (suiteId : UInt8) (clientHello serverUnsigned : Bytes) : Bytes :=
  serverAuthLabel ++ [suiteId] ++ clientHello ++ serverUnsigned

def transcriptMessage (suiteId : UInt8) (clientHello serverHello : Bytes) : Bytes :=
  keyTranscriptLabel ++ [suiteId] ++ clientHello ++ serverHello

def transcriptHash (P : Primitives) (suiteId : UInt8) (clientHello serverHello : Bytes) :
    ByteArr 32 :=
  P.sha256 (transcriptMessage suiteId clientHello serverHello)

/-! ### The generic engine -/

/-- What one handshake draws from `OsRng`: the X25519 secret and the coins of
`K::generate` or `encapsulate`. -/
structure Ephemeral where
  xSecret : ByteArr 32
  kemCoins : Bytes
  deriving DecidableEq

structure GenericInitiatorState where
  suiteId : UInt8
  xSecret : ByteArr 32
  mlDecap : Bytes
  clientHello : Bytes
  deriving DecidableEq

/-- The four identity fields behind the key shares of a hello. -/
def splitIdentityFields (body : Bytes) (publicStart : ℕ) :
    Except CryptoError (Bytes × Bytes × Bytes × Bytes) :=
  let edPubEnd := publicStart + ed25519PublicLen
  let mlPubEnd := edPubEnd + mldsa65PublicLen
  let edSigEnd := mlPubEnd + ed25519SignatureLen
  let mlSigEnd := edSigEnd + mldsa65SignatureLen
  if body.length ≠ mlSigEnd then .error .badHelloLength
  else .ok (slice body publicStart edPubEnd, slice body edPubEnd mlPubEnd,
    slice body mlPubEnd edSigEnd, slice body edSigEnd mlSigEnd)

/-- A hello body: what is signed, then the two signatures. -/
def signedBody (unsigned : Bytes) (sigs : IdentitySignatures) : Bytes :=
  unsigned ++ sigs.ed25519.val ++ sigs.mldsa65.val

/-- A key share pair followed by the sender's public identity keys. -/
def unsignedHello (P : Primitives) (identity : IdentityMaterial) (xPublic : ByteArr 32)
    (kemPart : Bytes) : Bytes :=
  xPublic.val ++ kemPart ++ (identity.ownEd25519Public P).val ++ (identity.ownMldsa65Public P).val

def clientHello (P : Primitives) (K : KemCore) (suiteId : UInt8) (identity : IdentityMaterial)
    (eph : Ephemeral) : Except CryptoError (GenericInitiatorState × Bytes) := do
  let (mlDecap, mlEncap) := K.generate eph.kemCoins
  let unsigned := unsignedHello P identity (P.x25519Public eph.xSecret) mlEncap.val
  let signatures ← identity.sign P (clientAuthMessage suiteId unsigned)
  let body := signedBody unsigned signatures
  pure (⟨suiteId, eph.xSecret, mlDecap, body⟩, body)

def respond (P : Primitives) (K : KemCore) (suiteId : UInt8) (ekLen : ℕ)
    (identity : IdentityMaterial) (body : Bytes) (eph : Ephemeral) :
    Except CryptoError (SessionKeys × Bytes) := do
  let unsignedLen := x25519Len + ekLen + identityPublicLen
  if body.length ≠ unsignedLen + identitySignatureLen then throw .badHelloLength
  let unsigned := slice body 0 unsignedLen
  let (edPub, mlPub, edSig, mlSig) ← splitIdentityFields body (x25519Len + ekLen)
  identity.verifyPeerPublicKeys edPub mlPub
  identity.verifyPeerSignatures P (clientAuthMessage suiteId unsigned) edSig mlSig
  let peerX ← (toArr 32 (slice body 0 x25519Len)).elim (throw .badHelloLength) pure
  let peerEk ← (toArr K.ekSize (slice body x25519Len (x25519Len + ekLen))).elim
    (throw .mlKemDecode) pure
  let (mlCt, mlSs) ← (K.encapsulate peerEk eph.kemCoins).elim (throw .mlKemDecode) pure
  let xSs := P.diffieHellman eph.xSecret peerX
  let serverUnsigned := unsignedHello P identity (P.x25519Public eph.xSecret) mlCt.val
  let signatures ← identity.sign P (serverAuthMessage suiteId body serverUnsigned)
  let hello := signedBody serverUnsigned signatures
  let keys ← derive P (xSs.val ++ mlSs) suiteId (transcriptHash P suiteId body hello) false
  pure (keys, hello)

def finish (P : Primitives) (K : KemCore) (state : GenericInitiatorState) (ctLen : ℕ)
    (identity : IdentityMaterial) (body : Bytes) : Except CryptoError SessionKeys := do
  let unsignedLen := x25519Len + ctLen + identityPublicLen
  if body.length ≠ unsignedLen + identitySignatureLen then throw .badHelloLength
  let unsigned := slice body 0 unsignedLen
  let (edPub, mlPub, edSig, mlSig) ← splitIdentityFields body (x25519Len + ctLen)
  identity.verifyPeerPublicKeys edPub mlPub
  identity.verifyPeerSignatures P (serverAuthMessage state.suiteId state.clientHello unsigned)
    edSig mlSig
  let peerX ← (toArr 32 (slice body 0 x25519Len)).elim (throw .badHelloLength) pure
  let ct ← (toArr K.ctSize (slice body x25519Len (x25519Len + ctLen))).elim
    (throw .mlKemDecode) pure
  let mlSs ← (K.decapsulate state.mlDecap ct).elim (throw .decapsulate) pure
  let xSs := P.diffieHellman state.xSecret peerX
  derive P (xSs.val ++ mlSs) state.suiteId (transcriptHash P state.suiteId state.clientHello body)
    true

/-! ### The two engines -/

/-- `Box<dyn InitiatorState>`: the suite whose engine made it, and its state. -/
structure InitiatorState where
  suite : CipherSuite
  inner : GenericInitiatorState
  deriving DecidableEq

namespace CipherSuite

/-- `engine().begin_initiator`. -/
def beginInitiator (P : Primitives) (s : CipherSuite) (identity : IdentityMaterial)
    (eph : Ephemeral) : Except CryptoError (InitiatorState × Bytes) := do
  let (state, hello) ← clientHello P (s.kem P) s.id identity eph
  pure (⟨s, state⟩, hello)

/-- `engine().respond`. -/
def respond (P : Primitives) (s : CipherSuite) (identity : IdentityMaterial) (hello : Bytes)
    (eph : Ephemeral) : Except CryptoError (SessionKeys × Bytes) :=
  Crypto.respond P (s.kem P) s.id s.ekLen identity hello eph

end CipherSuite

def InitiatorState.finish (P : Primitives) (st : InitiatorState) (identity : IdentityMaterial)
    (serverHello : Bytes) : Except CryptoError SessionKeys :=
  Crypto.finish P (st.suite.kem P) st.inner st.suite.ctLen identity serverHello

/-! ### PSK fallback -/

def fallbackConfirm : Bytes := ascii "syntriass-overlay psk-fallback confirm v1"

inductive FallbackError where
  | malformed
  | crypto
  | downgradeDetected
  deriving DecidableEq, Repr

structure FallbackInitiator where
  psk : ByteArr 32
  clientNonce : ByteArr 16
  deriving DecidableEq

namespace FallbackInitiator

def begin (psk : ByteArr 32) (freshNonce : ByteArr 16) : FallbackInitiator × Bytes :=
  (⟨psk, freshNonce⟩, freshNonce.val)

def finish (P : Primitives) (st : FallbackInitiator) (finished : Bytes) :
    Except FallbackError SessionKeys :=
  if finished.length ≤ fallbackNonceLen then .error .malformed
  else
    let serverNonce := finished.take fallbackNonceLen
    let confirmCt := finished.drop fallbackNonceLen
    match deriveFallback P st.psk.val st.clientNonce.val serverNonce true with
    | .error _ => .error .crypto
    | .ok keys =>
      match keys.open P confirmCt with
      | .error _ => .error .downgradeDetected
      | .ok (keys, opened) =>
        if opened ≠ fallbackConfirm then .error .downgradeDetected else .ok keys

end FallbackInitiator

def fallbackRespond (P : Primitives) (psk : ByteArr 32) (hello : Bytes) (freshNonce : ByteArr 16) :
    Except FallbackError (SessionKeys × Bytes) :=
  if hello.length ≠ fallbackNonceLen then .error .malformed
  else
    match deriveFallback P psk.val hello freshNonce.val false with
    | .error _ => .error .crypto
    | .ok keys =>
      match keys.seal P fallbackConfirm with
      | .error _ => .error .crypto
      | .ok (keys, confirmCt) => .ok (keys, freshNonce.val ++ confirmCt)

end SyntriassOverlay.Crypto
