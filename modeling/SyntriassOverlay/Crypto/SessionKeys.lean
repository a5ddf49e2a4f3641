import SyntriassOverlay.Crypto.Primitives

/-!
# One AEAD direction and the session keys (crypto/generic.rs, crypto/mod.rs)

A `Direction` owns its key and a `u64` counter; the nonce of a record is the
counter, and both `seal` and `open` refuse the last counter value.
-/

namespace SyntriassOverlay.Crypto
open BigEndian

/-- 96-bit nonce: four zero bytes, then the counter big-endian. -/
def nonceFromCounter (counter : UInt64) : ByteArr 12 :=
  ⟨List.replicate 4 0 ++ beBytes 8 counter.toNat, by simp⟩

def u64Max : UInt64 := 0xFFFFFFFFFFFFFFFF

structure Direction where
  key : ByteArr 32
  counter : UInt64
  deriving DecidableEq

structure KtlsTrafficSecret where
  key : ByteArr 32
  salt : ByteArr 4
  iv : ByteArr 8
  deriving DecidableEq

/-- The info string of `ktls_secret`. -/
def ktlsInfo : Bytes := ascii "syntriass-overlay ktls salt+iv v1"

namespace Direction
variable (P : Primitives) (d : Direction)

def new (key : ByteArr 32) : Direction := ⟨key, 0⟩

/-- The direction after the record counter moved by one. -/
def advance : Direction := { d with counter := d.counter + 1 }

def «seal» (plaintext : Bytes) : Except CryptoError (Direction × Bytes) :=
  if d.counter = u64Max then .error .nonceExhausted
  else match aesGcmEncrypt P d.key (nonceFromCounter d.counter) plaintext with
    | .ok ct => .ok (d.advance, ct)
    | .error e => .error e

def «open» (ciphertext : Bytes) : Except CryptoError (Direction × Bytes) :=
  if d.counter = u64Max then .error .nonceExhausted
  else match aesGcmDecrypt P d.key (nonceFromCounter d.counter) ciphertext with
    | .ok pt => .ok (d.advance, pt)
    | .error e => .error e

/-- `ktls_secret`: the key, with salt and IV expanded from it. -/
def ktlsSecret : KtlsTrafficSecret :=
  let okm := P.hkdf d.key.val ktlsInfo 12
  { key := d.key, salt := okm.sub 0 4 (by omega), iv := okm.sub 4 8 (by omega) }

end Direction

structure SessionKeys where
  tx : Direction
  rx : Direction
  deriving DecidableEq

structure KtlsTrafficKeys where
  tx : KtlsTrafficSecret
  rx : KtlsTrafficSecret
  deriving DecidableEq

namespace SessionKeys
variable (P : Primitives) (k : SessionKeys)

def «seal» (plaintext : Bytes) : Except CryptoError (SessionKeys × Bytes) :=
  match k.tx.seal P plaintext with
  | .ok (tx, ct) => .ok ({ k with tx := tx }, ct)
  | .error e => .error e

def «open» (ciphertext : Bytes) : Except CryptoError (SessionKeys × Bytes) :=
  match k.rx.open P ciphertext with
  | .ok (rx, pt) => .ok ({ k with rx := rx }, pt)
  | .error e => .error e

def exportKtls : KtlsTrafficKeys := ⟨k.tx.ktlsSecret P, k.rx.ktlsSecret P⟩

end SessionKeys

/-! ### The nonce sequence of one direction -/

theorem counter_ne_max {c : UInt64} : c ≠ u64Max ↔ c.toNat < 2 ^ 64 - 1 := by
  have hmax : u64Max.toNat = 2 ^ 64 - 1 := by decide
  have hlt := c.toNat_lt
  constructor
  · intro h
    have hne : c.toNat ≠ 2 ^ 64 - 1 := fun he => h (UInt64.toNat_inj.mp (he.trans hmax.symm))
    omega
  · rintro h rfl
    omega

theorem advance_toNat {d : Direction} (h : d.counter ≠ u64Max) :
    d.advance.counter.toNat = d.counter.toNat + 1 := by
  have hlt := counter_ne_max.mp h
  simp only [Direction.advance, UInt64.toNat_add, UInt64.reduceToNat]
  omega

theorem nonceFromCounter_injective : Function.Injective nonceFromCounter := by
  intro c c' h
  have hl := congrArg Subtype.val h
  have hb : beBytes 8 c.toNat = beBytes 8 c'.toNat := List.append_cancel_left hl
  have hc := c.toNat_lt
  have hc' := c'.toNat_lt
  exact UInt64.toNat_inj.mp (beBytes_inj (by norm_num; omega) (by norm_num; omega) hb)

variable {P : Primitives}

theorem Direction.seal_eq_ok {d d' : Direction} {pt ct : Bytes} :
    d.seal P pt = .ok (d', ct) ↔ d.counter ≠ u64Max ∧ pt.length ≤ gcmPlainMax ∧ d' = d.advance ∧
      ct = P.gcmEncrypt d.key (nonceFromCounter d.counter) pt := by
  by_cases hc : d.counter = u64Max
  · simp [Direction.seal, hc]
  · by_cases hp : pt.length ≤ gcmPlainMax
    · simp only [Direction.seal, hc, if_false, aesGcmEncrypt, hp, if_true, Except.ok.injEq,
        Prod.mk.injEq, ne_eq, not_false_eq_true, true_and, eq_comm]
    · simp [Direction.seal, hc, aesGcmEncrypt, hp]

theorem Direction.open_eq_ok {d d' : Direction} {pt ct : Bytes} :
    d.open P ct = .ok (d', pt) ↔ d.counter ≠ u64Max ∧ d' = d.advance ∧
      P.gcmDecrypt d.key (nonceFromCounter d.counter) ct = some pt := by
  by_cases hc : d.counter = u64Max
  · simp [Direction.open, hc]
  · cases hd : P.gcmDecrypt d.key (nonceFromCounter d.counter) ct with
    | none => simp [Direction.open, hc, aesGcmDecrypt, hd]
    | some m =>
      simp only [Direction.open, hc, if_false, aesGcmDecrypt, hd, Except.ok.injEq,
        Prod.mk.injEq, ne_eq, not_false_eq_true, true_and, Option.some.injEq, eq_comm]

theorem SessionKeys.seal_eq_ok {k k' : SessionKeys} {pt ct : Bytes} :
    k.seal P pt = .ok (k', ct) ↔ k.tx.counter ≠ u64Max ∧ pt.length ≤ gcmPlainMax ∧
      k' = { k with tx := k.tx.advance } ∧
      ct = P.gcmEncrypt k.tx.key (nonceFromCounter k.tx.counter) pt := by
  cases h : k.tx.seal P pt with
  | error e =>
    simp only [SessionKeys.seal, h, reduceCtorEq, false_iff]
    rintro ⟨hc, hp, -, -⟩
    have hok := (Direction.seal_eq_ok (P := P)).mpr ⟨hc, hp, rfl, rfl⟩
    rw [h] at hok
    cases hok
  | ok r =>
    obtain ⟨hc, hp, hd, he⟩ := Direction.seal_eq_ok.mp h
    simp only [SessionKeys.seal, h, Except.ok.injEq, Prod.mk.injEq, hc, hp, hd, he, ne_eq,
      not_false_eq_true, true_and, eq_comm]

theorem SessionKeys.seal_length {k k' : SessionKeys} {pt ct : Bytes}
    (h : k.seal P pt = .ok (k', ct)) : ct.length = pt.length + 16 := by
  obtain ⟨-, -, -, rfl⟩ := SessionKeys.seal_eq_ok.mp h
  exact P.gcmEncrypt_length _ _ _

theorem SessionKeys.open_eq_ok {k k' : SessionKeys} {pt ct : Bytes} :
    k.open P ct = .ok (k', pt) ↔ k.rx.counter ≠ u64Max ∧ k' = { k with rx := k.rx.advance } ∧
      P.gcmDecrypt k.rx.key (nonceFromCounter k.rx.counter) ct = some pt := by
  cases h : k.rx.open P ct with
  | error e =>
    simp only [SessionKeys.open, h, reduceCtorEq, false_iff]
    rintro ⟨hc, -, hp⟩
    have hok := (Direction.open_eq_ok (P := P)).mpr ⟨hc, rfl, hp⟩
    rw [h] at hok
    cases hok
  | ok r =>
    obtain ⟨hc, hd, hp⟩ := Direction.open_eq_ok.mp h
    simp only [SessionKeys.open, h, Except.ok.injEq, Prod.mk.injEq, hc, hd, hp, ne_eq,
      not_false_eq_true, true_and, eq_comm, Option.some.injEq]

/-! ### Runs of one direction -/

/-- `Direction.Run step d l d'`: the operations `l` are done with the direction `d`
one after the other, each with the next counter, and it is `d'` then. -/
inductive Direction.Run {α : Type} (step : Direction → α → Prop) (d : Direction) :
    List α → Direction → Prop
  | nil : Run step d [] d
  | snoc {l : List α} {d' : Direction} {x : α} (h : Run step d l d') (hc : d'.counter ≠ u64Max)
      (hx : step d' x) : Run step d (l ++ [x]) d'.advance

namespace Direction.Run
variable {α : Type} {step : Direction → α → Prop} {d d' : Direction} {l : List α}

theorem key_eq (h : Run step d l d') : d'.key = d.key := by
  induction h with
  | nil => rfl
  | snoc _ _ _ ih => exact ih

theorem counter_eq (h : Run step d l d') : d'.counter.toNat = d.counter.toNat + l.length := by
  induction h with
  | nil => rfl
  | snoc _ hc _ ih =>
    rw [advance_toNat hc, ih, List.length_append]
    rfl

theorem getElem? (h : Run step d l d') {i : ℕ} {x : α} (hx : l[i]? = some x) :
    ∃ c : UInt64, c.toNat = d.counter.toNat + i ∧ step ⟨d.key, c⟩ x := by
  induction h with
  | nil => cases hx
  | @snoc l e y hl _ hy ih =>
    rcases Nat.lt_trichotomy i l.length with hi | rfl | hi
    · rw [List.getElem?_append_left hi] at hx
      exact ih hx
    · rw [List.getElem?_concat_length] at hx
      cases hx
      refine ⟨e.counter, hl.counter_eq, ?_⟩
      rw [← hl.key_eq]
      exact hy
    · rw [List.getElem?_eq_none (by simp; omega)] at hx
      cases hx

theorem of_mem (h : Run step d l d') {x : α} (hx : x ∈ l) : ∃ c, step ⟨d.key, c⟩ x := by
  obtain ⟨i, hi⟩ := List.mem_iff_getElem?.mp hx
  obtain ⟨c, -, hc⟩ := h.getElem? hi
  exact ⟨c, hc⟩

theorem eq_of_nil (h : Run step d [] d') : d' = d := by
  generalize hxs : ([] : List α) = xs at h
  cases h with
  | nil => rfl
  | snoc => simp at hxs

theorem uncons {x : α} (h : Run step d (x :: l) d') :
    d.counter ≠ u64Max ∧ step d x ∧ Run step d.advance l d' := by
  generalize hxs : x :: l = xs at h
  induction h generalizing l with
  | nil => cases hxs
  | @snoc ys e y hrun hc hy ih =>
    cases ys with
    | nil =>
      cases hxs
      obtain rfl := hrun.eq_of_nil
      exact ⟨hc, hy, .nil⟩
    | cons z zs =>
      cases hxs
      obtain ⟨hc', hx, hrest⟩ := ih rfl
      exact ⟨hc', hx, hrest.snoc hc hy⟩

end Direction.Run

end SyntriassOverlay.Crypto
