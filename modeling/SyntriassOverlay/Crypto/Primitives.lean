import SyntriassOverlay.Lib.BigEndian
import Mathlib.Data.Vector.Basic

/-!
# Byte strings, suites and the primitives of the crypto crates (crypto/mod.rs)

The primitives themselves (`x25519-dalek`, `ml-kem`, `ed25519-dalek`, `ml-dsa`,
`sha2`, `hkdf`, `aes-gcm`) are the parameter `Primitives`. Fixed-size arrays
keep their length in the type, so the sizes the crates guarantee by their types
need no hypotheses. What the crates draw from `OsRng` is an explicit argument.
-/

namespace SyntriassOverlay

abbrev Bytes := List UInt8

/-- `[u8; n]`. -/
abbrev ByteArr (n : ℕ) := List.Vector UInt8 n

/-- A byte string literal. -/
def ascii (s : String) : Bytes := s.toList.map fun c => UInt8.ofNat c.toNat

/-- `&b[start..stop]`. -/
def slice (b : Bytes) (start stop : ℕ) : Bytes := (b.drop start).take (stop - start)

/-- `<[u8; n]>::try_from(&[u8])`. -/
def toArr (n : ℕ) (b : Bytes) : Option (ByteArr n) :=
  if h : b.length = n then some ⟨b, h⟩ else none

/-- The part of a fixed-size array that starts at `start`. -/
def ByteArr.sub {n : ℕ} (v : ByteArr n) (start len : ℕ) (h : start + len ≤ n) : ByteArr len :=
  ⟨slice v.val start (start + len), by
    have hv := v.property
    simp only [slice, List.length_take, List.length_drop]
    omega⟩

@[simp] theorem slice_length (b : Bytes) (start stop : ℕ) :
    (slice b start stop).length = min (stop - start) (b.length - start) := by
  simp [slice]

theorem toArr_val {n : ℕ} (v : ByteArr n) : toArr n v.val = some v := by
  simp only [toArr, v.property, dite_true]
  rfl

namespace Crypto

def x25519Len : ℕ := 32
def mldsa65PublicLen : ℕ := 1952
def mldsa65SignatureLen : ℕ := 3309
def ed25519PublicLen : ℕ := 32
def ed25519SignatureLen : ℕ := 64
def identityPublicLen : ℕ := ed25519PublicLen + mldsa65PublicLen
def identitySignatureLen : ℕ := ed25519SignatureLen + mldsa65SignatureLen
def fallbackNonceLen : ℕ := 16

inductive CryptoError where
  | badHelloLength
  | badIdentityConfig
  | authentication
  | mlKemDecode
  | decapsulate
  | hkdf
  | encrypt
  | decrypt
  | nonceExhausted
  deriving DecidableEq, Repr

/-- One ML-KEM parameter set (`ml_kem::KemCore`). -/
structure KemCore where
  ekSize : ℕ
  ctSize : ℕ
  /-- Decapsulation key and encoded encapsulation key of the drawn coins. -/
  generate : Bytes → Bytes × ByteArr ekSize
  encapsulate : ByteArr ekSize → Bytes → Option (ByteArr ctSize × Bytes)
  decapsulate : Bytes → ByteArr ctSize → Option Bytes

structure Primitives where
  x25519Public : ByteArr 32 → ByteArr 32
  diffieHellman : ByteArr 32 → ByteArr 32 → ByteArr 32
  mlKem768 : KemCore
  mlKem1024 : KemCore
  mlKem768_sizes : mlKem768.ekSize = 1184 ∧ mlKem768.ctSize = 1088
  mlKem1024_sizes : mlKem1024.ekSize = 1568 ∧ mlKem1024.ctSize = 1568
  ed25519Public : ByteArr 32 → ByteArr 32
  ed25519Sign : ByteArr 32 → Bytes → Option (ByteArr 64)
  ed25519VerifyStrict : ByteArr 32 → Bytes → ByteArr 64 → Bool
  mldsa65Public : ByteArr 32 → ByteArr 1952
  mldsa65Sign : ByteArr 32 → Bytes → Option (ByteArr 3309)
  /-- Decoding of the signature and verification. -/
  mldsa65Verify : ByteArr 1952 → Bytes → ByteArr 3309 → Bool
  sha256 : Bytes → ByteArr 32
  /-- HKDF-SHA256 without salt: input key material, info, output length. -/
  hkdf : Bytes → Bytes → (len : ℕ) → ByteArr len
  gcmEncrypt : ByteArr 32 → ByteArr 12 → Bytes → Bytes
  gcmDecrypt : ByteArr 32 → ByteArr 12 → Bytes → Option Bytes
  gcmEncrypt_length : ∀ key nonce msg, (gcmEncrypt key nonce msg).length = msg.length + 16
  gcmDecrypt_length : ∀ key nonce ct msg, gcmDecrypt key nonce ct = some msg →
    msg.length + 16 = ct.length

/-- `Hkdf::expand` refuses outputs of more than 255 hash blocks. -/
def hkdfExpand (P : Primitives) (ikm info : Bytes) (len : ℕ) : Except CryptoError (ByteArr len) :=
  if len ≤ 255 * 32 then .ok (P.hkdf ikm info len) else .error .hkdf

/-- `P_MAX` of the `aes-gcm` crate: longer plaintexts are refused. -/
def gcmPlainMax : ℕ := 2 ^ 36

/-- `Aes256Gcm::encrypt` without associated data. -/
def aesGcmEncrypt (P : Primitives) (key : ByteArr 32) (nonce : ByteArr 12) (msg : Bytes) :
    Except CryptoError Bytes :=
  if msg.length ≤ gcmPlainMax then .ok (P.gcmEncrypt key nonce msg) else .error .encrypt

/-- `Aes256Gcm::decrypt` without associated data. -/
def aesGcmDecrypt (P : Primitives) (key : ByteArr 32) (nonce : ByteArr 12) (ct : Bytes) :
    Except CryptoError Bytes :=
  match P.gcmDecrypt key nonce ct with
  | some msg => .ok msg
  | none => .error .decrypt

/-! ### Suites -/

inductive CipherSuite where
  | nistStandard768
  | nistStandard1024
  deriving DecidableEq, Repr

namespace CipherSuite

/-- `SUITE_ID` of `nist768` and `nist1024`. -/
def id : CipherSuite → UInt8
  | .nistStandard768 => 0x01
  | .nistStandard1024 => 0x02

def fromId (x : UInt8) : Option CipherSuite :=
  if x = 0x01 then some .nistStandard768
  else if x = 0x02 then some .nistStandard1024
  else none

/-- `EK_LEN` of `nist768` and `nist1024`. -/
def ekLen : CipherSuite → ℕ
  | .nistStandard768 => 1184
  | .nistStandard1024 => 1568

/-- `CT_LEN` of `nist768` and `nist1024`. -/
def ctLen : CipherSuite → ℕ
  | .nistStandard768 => 1088
  | .nistStandard1024 => 1568

def kem (P : Primitives) : CipherSuite → KemCore
  | .nistStandard768 => P.mlKem768
  | .nistStandard1024 => P.mlKem1024

theorem fromId_eq_some {x : UInt8} {s : CipherSuite} : fromId x = some s ↔ x = s.id := by
  unfold fromId
  cases s with
  | nistStandard768 =>
    by_cases h : x = 1
    · simp [h, id]
    · by_cases h2 : x = 2 <;> simp [h, h2, id]
  | nistStandard1024 =>
    by_cases h : x = 1
    · subst h
      simp [id]
    · by_cases h2 : x = 2 <;> simp [h, h2, id]

theorem id_injective {s s' : CipherSuite} (h : s.id = s'.id) : s = s' := by
  cases s <;> cases s' <;> first | rfl | cases h

theorem kem_ekSize (P : Primitives) (s : CipherSuite) : (s.kem P).ekSize = s.ekLen := by
  cases s with
  | nistStandard768 => exact P.mlKem768_sizes.1
  | nistStandard1024 => exact P.mlKem1024_sizes.1

theorem kem_ctSize (P : Primitives) (s : CipherSuite) : (s.kem P).ctSize = s.ctLen := by
  cases s with
  | nistStandard768 => exact P.mlKem768_sizes.2
  | nistStandard1024 => exact P.mlKem1024_sizes.2

end CipherSuite

/-! ### Identities -/

/-- Own signing keys and the pinned public keys of the one trusted peer. -/
structure IdentityMaterial where
  ownEd25519 : ByteArr 32
  ownMldsa65 : ByteArr 32
  peerEd25519Public : ByteArr 32
  peerMldsa65Public : ByteArr 1952
  deriving DecidableEq

structure IdentitySignatures where
  ed25519 : ByteArr 64
  mldsa65 : ByteArr 3309
  deriving DecidableEq

namespace IdentityMaterial
variable (P : Primitives) (m : IdentityMaterial)

def ownEd25519Public : ByteArr 32 := P.ed25519Public m.ownEd25519
def ownMldsa65Public : ByteArr 1952 := P.mldsa65Public m.ownMldsa65

def sign (transcript : Bytes) : Except CryptoError IdentitySignatures :=
  match P.ed25519Sign m.ownEd25519 transcript with
  | none => .error .authentication
  | some edSig =>
    match P.mldsa65Sign m.ownMldsa65 transcript with
    | none => .error .authentication
    | some mlSig => .ok ⟨edSig, mlSig⟩

def verifyPeerPublicKeys (ed25519Public mldsa65Public : Bytes) : Except CryptoError Unit :=
  if ed25519Public ≠ m.peerEd25519Public.val ∨ mldsa65Public ≠ m.peerMldsa65Public.val then
    .error .authentication
  else .ok ()

def verifyPeerSignatures (transcript ed25519Signature mldsa65Signature : Bytes) :
    Except CryptoError Unit :=
  match toArr 64 ed25519Signature with
  | none => .error .authentication
  | some edSig =>
    if P.ed25519VerifyStrict m.peerEd25519Public transcript edSig then
      match toArr 3309 mldsa65Signature with
      | none => .error .authentication
      | some mlSig =>
        if P.mldsa65Verify m.peerMldsa65Public transcript mlSig then .ok ()
        else .error .authentication
    else .error .authentication

end IdentityMaterial

end Crypto

end SyntriassOverlay
