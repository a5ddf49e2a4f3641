import SyntriassOverlay.Crypto.HandshakeSpec

/-!
# A specimen of the primitives

Concrete functions with the types of `Primitives`, good enough to run the model
on an example: they are correct (decryption inverts encryption, both sides of an
exchange agree), an AEAD tag names key and nonce, and nothing about them is secret.
-/

namespace SyntriassOverlay.Crypto

/-- The first `n` bytes of `b`, filled up with zeros. -/
def pad (n : ℕ) (b : Bytes) : ByteArr n :=
  ⟨(b ++ List.replicate n 0).take n, by simp⟩

theorem pad_pad {m n : ℕ} (h : m ≤ n) (b : Bytes) : pad m (pad n b).val = pad m b := by
  have hlen : m ≤ (pad n b).val.length := by
    rw [(pad n b).2]
    exact h
  apply Subtype.ext
  change ((pad n b).val ++ List.replicate m 0).take m = (b ++ List.replicate m 0).take m
  rw [List.take_append_of_le_length hlen, pad, List.take_take, Nat.min_eq_left h,
    List.take_append, List.take_append, List.take_replicate, List.take_replicate,
    Nat.min_eq_left (by omega), Nat.min_eq_left (by omega)]

/-- The bytes `0, 1, 2, …`. -/
def ramp (n : ℕ) : ByteArr n := ⟨(List.range n).map UInt8.ofNat, by simp⟩

/-- The ciphertext carries the coins, which are the shared secret. -/
def specimenKem (ekSize ctSize : ℕ) : KemCore where
  ekSize := ekSize
  ctSize := ctSize
  generate coins := (coins, pad ekSize coins)
  encapsulate _ coins := some (pad ctSize coins, (pad 32 coins).val)
  decapsulate _ ct := some (pad 32 ct.val).val

/-- Sixteen bytes that name the key, by its first four, and the nonce. -/
def specimenTag (key : ByteArr 32) (nonce : ByteArr 12) : Bytes := key.val.take 4 ++ nonce.val

theorem specimenTag_length (key : ByteArr 32) (nonce : ByteArr 12) :
    (specimenTag key nonce).length = 16 := by
  simp [specimenTag, key.2, nonce.2]

def specimenDecrypt (key : ByteArr 32) (nonce : ByteArr 12) (ct : Bytes) : Option Bytes :=
  let msg := ct.take (ct.length - 16)
  if ct = msg ++ specimenTag key nonce then some msg else none

theorem specimenDecrypt_eq_some {key : ByteArr 32} {nonce : ByteArr 12} {ct msg : Bytes} :
    specimenDecrypt key nonce ct = some msg ↔ ct = msg ++ specimenTag key nonce := by
  have htag := specimenTag_length key nonce
  simp only [specimenDecrypt]
  constructor
  · intro h
    split at h
    · cases h
      assumption
    · cases h
  · rintro rfl
    simp [htag]

def specimen : Primitives where
  x25519Public secret := secret
  diffieHellman a b := ⟨List.zipWith (· + ·) a.val b.val, by simp [a.2, b.2]⟩
  mlKem768 := specimenKem 1184 1088
  mlKem1024 := specimenKem 1568 1568
  mlKem768_sizes := ⟨rfl, rfl⟩
  mlKem1024_sizes := ⟨rfl, rfl⟩
  ed25519Public secret := secret
  ed25519Sign secret msg := some (pad 64 (secret.val ++ msg))
  ed25519VerifyStrict key msg sig := decide (sig = pad 64 (key.val ++ msg))
  mldsa65Public secret := pad 1952 secret.val
  mldsa65Sign secret msg := some (pad 3309 ((pad 1952 secret.val).val ++ msg))
  mldsa65Verify key msg sig := decide (sig = pad 3309 (key.val ++ msg))
  sha256 msg := pad 32 msg
  hkdf _ _ len := ramp len
  gcmEncrypt key nonce msg := msg ++ specimenTag key nonce
  gcmDecrypt := specimenDecrypt
  gcmEncrypt_length key nonce msg := by simp [specimenTag_length]
  gcmDecrypt_length key nonce ct msg h := by
    rw [specimenDecrypt_eq_some.mp h, List.length_append, specimenTag_length]

/-- Two sides that hold the same signing keys and pin them. -/
def specimenIdentity : IdentityMaterial where
  ownEd25519 := ramp 32
  ownMldsa65 := ramp 32
  peerEd25519Public := ramp 32
  peerMldsa65Public := pad 1952 (ramp 32).val

end SyntriassOverlay.Crypto
