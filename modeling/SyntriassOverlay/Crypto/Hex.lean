import SyntriassOverlay.Crypto.Config

/-!
# Hex keys (crypto/mod.rs:598-631, bin/syntriass-identity.rs:39-73)

The overlay and the `syntriass-identity` tool each have their own decoder of hex tokens.
Here both are written with the index arithmetic of the source, where an access out of range
is an outcome of its own. A length is at most `isize::MAX` in Rust, so `N * 2` is the product
of naturals.
-/

namespace SyntriassOverlay.Crypto

/-! ### The decoders as written -/

/-- How a decoder ends without a result: it returns an error, or it indexes out of range and
panics. -/
inductive Fault (ε : Type) where
  | returned (e : ε)
  | outOfRange
  deriving DecidableEq

section
variable {ε : Type}

/-- `xs[i]`. -/
def index (xs : Bytes) (i : ℕ) : Except (Fault ε) UInt8 :=
  match xs[i]? with
  | some x => .ok x
  | none => .error .outOfRange

/-- `xs[i] = x`. -/
def assign (xs : Bytes) (i : ℕ) (x : UInt8) : Except (Fault ε) Bytes :=
  if i < xs.length then .ok (xs.set i x) else .error .outOfRange

/-- `chunks_exact(2)`. -/
def chunksExact : Bytes → List Bytes
  | a :: b :: rest => [a, b] :: chunksExact rest
  | _ => []

/-- The loop over the chunks; `idx` is the count of `enumerate`. -/
def writeDigits (nibble : UInt8 → Option UInt8) (nonDigit : ε) :
    Bytes → ℕ → List Bytes → Except (Fault ε) Bytes
  | out, _, [] => .ok out
  | out, idx, chunk :: chunks =>
    match index chunk 0 with
    | .error e => .error e
    | .ok a =>
      match nibble a with
      | none => .error (.returned nonDigit)
      | some high =>
        match index chunk 1 with
        | .error e => .error e
        | .ok b =>
          match nibble b with
          | none => .error (.returned nonDigit)
          | some low =>
            match assign out idx (high <<< 4 ||| low) with
            | .error e => .error e
            | .ok out => writeDigits nibble nonDigit out (idx + 1) chunks

/-- `token` without its whitespace and mark. -/
def bareHex (token : Text) : Text := stripHexMark (token.filter (!isAsciiWhitespace ·))

/-- What the two decoders share; they differ in their errors and in `nibble`. -/
def decodeHex (nibble : UInt8 → Option UInt8) (wrongLength nonDigit : ε) (token : Text) (n : ℕ) :
    Except (Fault ε) Bytes :=
  let hex := (bareHex token).flatMap String.utf8EncodeChar
  if hex.length ≠ n * 2 then .error (.returned wrongLength)
  else writeDigits nibble nonDigit (List.replicate n 0) 0 (chunksExact hex)

end

/-- `decode_hex_vec` of the overlay. -/
def decodeHexVecIndexed (token : Text) (n : ℕ) : Except (Fault CryptoError) Bytes :=
  decodeHex hexNibble .badIdentityConfig .badIdentityConfig token n

/-- `decode_hex_exact` of the overlay; `copy_from_slice` panics on lengths that differ. -/
def decodeHexExactIndexed (n : ℕ) (token : Text) : Except (Fault CryptoError) (ByteArr n) :=
  match decodeHexVecIndexed token n with
  | .error e => .error e
  | .ok bytes =>
    match toArr n bytes with
    | some out => .ok out
    | none => .error .outOfRange

namespace IdentityTool

def hexNibble (b : UInt8) : Option UInt8 :=
  if 48 ≤ b ∧ b ≤ 57 then some (b - 48)
  else if 97 ≤ b ∧ b ≤ 102 then some (b - 97 + 10)
  else if 65 ≤ b ∧ b ≤ 70 then some (b - 65 + 10)
  else none

/-- `decode_hex_exact` of the tool. -/
def decodeHexExact (n : ℕ) (token : Text) : Except (Fault String) Bytes :=
  decodeHex hexNibble "wrong length" "non-hex digit" token n

/-- The digit that `{:x}` writes for a value below sixteen. -/
def lowerHex (v : UInt8) : Char :=
  if v < 10 then Char.ofNat (48 + v.toNat) else Char.ofNat (87 + v.toNat)

/-- `hex`: each byte as `{b:02x}`. -/
def hex (bytes : Bytes) : Text :=
  bytes.flatMap fun b : UInt8 => [lowerHex (b >>> 4), lowerHex (b &&& 15)]

end IdentityTool

/-! ### No access is out of range -/

/-- The first pair of a list of pairs. -/
theorem exists_pair {α : Type} {xs : List α} {k : ℕ} (h : xs.length = (k + 1) * 2) :
    ∃ a b rest, xs = a :: b :: rest ∧ rest.length = k * 2 := by
  match xs, h with
  | a :: b :: rest, h =>
    simp only [List.length_cons] at h
    exact ⟨a, b, rest, rfl, by omega⟩
  | [_], h =>
    rw [List.length_singleton] at h
    omega
  | [], h =>
    rw [List.length_nil] at h
    omega

section
variable {ε : Type}

theorem index_cons_zero (a : UInt8) (xs : Bytes) :
    (index (a :: xs) 0 : Except (Fault ε) UInt8) = .ok a := rfl

theorem index_pair_one (a b : UInt8) : (index [a, b] 1 : Except (Fault ε) UInt8) = .ok b := rfl

theorem assign_middle (done : Bytes) (x y : UInt8) (rest : Bytes) :
    (assign (done ++ y :: rest) done.length x : Except (Fault ε) Bytes) =
      .ok (done ++ [x] ++ rest) := by
  rw [assign, if_pos (by simp), List.set_append_right _ _ (Nat.le_refl _)]
  simp

/-- The loop fills the places behind `done`, one for each pair that is left. -/
theorem writeDigits_eq (nonDigit : ε) (done bs : Bytes) (k : ℕ) (hlen : bs.length = k * 2) :
    writeDigits hexNibble nonDigit (done ++ List.replicate k 0) done.length (chunksExact bs) =
      match hexBytes bs with
      | some out => .ok (done ++ out)
      | none => .error (.returned nonDigit) := by
  induction k generalizing done bs with
  | zero =>
    obtain rfl : bs = [] := List.length_eq_zero_iff.mp (by omega)
    simp [chunksExact, writeDigits, hexBytes]
  | succ k ih =>
    obtain ⟨a, b, rest, rfl, hrest⟩ := exists_pair hlen
    rw [chunksExact, writeDigits, index_cons_zero, index_pair_one, hexBytes]
    cases ha : hexNibble a with
    | none => simp [ha]
    | some high =>
      cases hb : hexNibble b with
      | none => simp [ha, hb]
      | some low =>
        have hnext := ih (done ++ [high <<< 4 ||| low]) rest hrest
        rw [List.length_append, List.length_singleton] at hnext
        simp only [ha, hb, List.replicate_succ, assign_middle, hnext]
        cases hexBytes rest <;> simp

end

/-- The result of a decoder: the bytes that the digits spell. -/
def hexResult (token : Text) (n : ℕ) : Option Bytes :=
  let hex := (bareHex token).flatMap String.utf8EncodeChar
  if hex.length = n * 2 then hexBytes hex else none

theorem decodeHexVec_eq_ok {token : Text} {n : ℕ} {out : Bytes} :
    decodeHexVec token n = .ok out ↔ hexResult token n = some out := by
  change (if ((bareHex token).flatMap String.utf8EncodeChar).length ≠ n * 2 then _ else _) = _ ↔ _
  by_cases hlen : ((bareHex token).flatMap String.utf8EncodeChar).length = n * 2
  · rw [if_neg (not_not.mpr hlen), hexResult, if_pos hlen]
    change (match hexBytes ((bareHex token).flatMap String.utf8EncodeChar) with
      | some out => _ | none => _) = _ ↔ _
    cases hexBytes ((bareHex token).flatMap String.utf8EncodeChar) <;> simp
  · rw [if_pos hlen, hexResult, if_neg hlen]
    simp

/-- A decoder returns the result, or one of its errors; it does not panic. -/
theorem decodeHex_eq {ε : Type} (wrongLength nonDigit : ε) (token : Text) (n : ℕ) :
    (∃ out, hexResult token n = some out ∧
      decodeHex hexNibble wrongLength nonDigit token n = .ok out) ∨
    (hexResult token n = none ∧
      ∃ e, decodeHex hexNibble wrongLength nonDigit token n = .error (.returned e)) := by
  rw [decodeHex, hexResult]
  by_cases hlen : ((bareHex token).flatMap String.utf8EncodeChar).length = n * 2
  · have hloop := writeDigits_eq nonDigit [] _ n hlen
    rw [List.nil_append, List.length_nil] at hloop
    rw [if_pos hlen, if_neg (not_not.mpr hlen), hloop]
    cases hexBytes ((bareHex token).flatMap String.utf8EncodeChar) with
    | none => exact .inr ⟨rfl, nonDigit, rfl⟩
    | some out => exact .inl ⟨out, rfl, rfl⟩
  · rw [if_neg hlen, if_pos hlen]
    exact .inr ⟨rfl, wrongLength, rfl⟩

theorem IdentityTool.decodeHexExact_eq (token : Text) (n : ℕ) :
    IdentityTool.decodeHexExact n token =
      decodeHex Crypto.hexNibble "wrong length" "non-hex digit" token n := rfl

/-! ### Digits -/

/-- The value of a hex digit. -/
def hexValue (c : Char) : Option ℕ :=
  if '0' ≤ c ∧ c ≤ '9' then some (c.toNat - 48)
  else if 'a' ≤ c ∧ c ≤ 'f' then some (c.toNat - 97 + 10)
  else if 'A' ≤ c ∧ c ≤ 'F' then some (c.toNat - 65 + 10)
  else none

theorem Char.le_iff_toNat {a b : Char} : a ≤ b ↔ a.toNat ≤ b.toNat := Iff.rfl

theorem hexValue_lt {c : Char} {v : ℕ} (h : hexValue c = some v) : v < 16 ∧ c.toNat < 128 := by
  simp only [hexValue, Char.le_iff_toNat] at h
  have h0 : '0'.toNat = 48 := rfl
  have h9 : '9'.toNat = 57 := rfl
  have ha : 'a'.toNat = 97 := rfl
  have hf : 'f'.toNat = 102 := rfl
  have hA : 'A'.toNat = 65 := rfl
  have hF : 'F'.toNat = 70 := rfl
  split at h
  · cases h
    omega
  · split at h
    · cases h
      omega
    · split at h
      · cases h
        omega
      · cases h

theorem hexNibble_ofNat : ∀ n < 128,
    hexNibble (UInt8.ofNat n) = (hexValue (Char.ofNat n)).map UInt8.ofNat := by
  decide +kernel

theorem hexNibble_char {c : Char} (hc : c.toNat < 128) :
    hexNibble (UInt8.ofNat c.toNat) = (hexValue c).map UInt8.ofNat := by
  have h := hexNibble_ofNat c.toNat hc
  rwa [Char.ofNat_toNat] at h

/-- A byte of 128 or more is no digit. -/
theorem hexNibble_high {b : UInt8} (hb : 128 ≤ b.toNat) : hexNibble b = none := by
  have hle : ∀ x : UInt8, x.toNat < 128 → ¬ b ≤ x := by
    intro x hx h
    have := UInt8.le_iff_toNat_le.mp h
    omega
  simp [hexNibble, hle 57 (by decide), hle 102 (by decide), hle 70 (by decide)]

theorem utf8_ascii {c : Char} (hc : c.toNat < 128) :
    String.utf8EncodeChar c = [UInt8.ofNat c.toNat] := by
  have hle : c.val.toNat ≤ 127 := Nat.le_of_lt_succ hc
  simp only [String.utf8EncodeChar, hle, if_true]
  rfl

/-- The bytes of a character that is not ASCII begin with one that is no digit. -/
theorem utf8_high {c : Char} (hc : 128 ≤ c.toNat) :
    ∃ b rest, String.utf8EncodeChar c = b :: rest ∧ 128 ≤ b.toNat := by
  have hv : ¬ c.val.toNat ≤ 127 := Nat.not_le.mpr hc
  simp only [String.utf8EncodeChar, hv, if_false]
  split
  · refine ⟨_, _, rfl, ?_⟩
    simp
    omega
  · split
    · refine ⟨_, _, rfl, ?_⟩
      simp
      omega
    · refine ⟨_, _, rfl, ?_⟩
      simp
      omega

theorem hexValue_of_nibbles {c : Char}
    (h : ∀ b ∈ String.utf8EncodeChar c, hexNibble b ≠ none) : hexValue c ≠ none := by
  by_cases hc : c.toNat < 128
  · have hb := h (UInt8.ofNat c.toNat) (by rw [utf8_ascii hc]; simp)
    rw [hexNibble_char hc] at hb
    exact fun hnone => hb (by rw [hnone]; rfl)
  · obtain ⟨b, rest, hutf, hhigh⟩ := utf8_high (Nat.not_lt.mp hc)
    exact absurd (hexNibble_high hhigh) (h b (by rw [hutf]; simp))

/-- Digits are single bytes. -/
theorem flatMap_utf8 {ds : Text} (h : ∀ c ∈ ds, hexValue c ≠ none) :
    ds.flatMap String.utf8EncodeChar = ds.map fun c => UInt8.ofNat c.toNat := by
  induction ds with
  | nil => rfl
  | cons c ds ih =>
    obtain ⟨v, hv⟩ := Option.ne_none_iff_exists'.mp (h c (List.mem_cons_self ..))
    rw [List.flatMap_cons, utf8_ascii (hexValue_lt hv).2,
      ih fun c' hc' => h c' (List.mem_cons_of_mem _ hc')]
    rfl

theorem hexBytes_nibbles {n : ℕ} {bs out : Bytes} (hlen : bs.length = n * 2)
    (h : hexBytes bs = some out) : ∀ b ∈ bs, hexNibble b ≠ none := by
  induction n generalizing bs out with
  | zero =>
    obtain rfl : bs = [] := List.length_eq_zero_iff.mp (by omega)
    simp
  | succ n ih =>
    obtain ⟨a, b, rest, rfl, hrest⟩ := exists_pair hlen
    simp only [hexBytes, Option.bind_eq_bind, Option.bind_eq_some_iff] at h
    obtain ⟨high, ha, low, hb, out', hout, -⟩ := h
    have hall := ih hrest hout
    simp only [List.mem_cons, forall_eq_or_imp]
    exact ⟨by simp [ha], by simp [hb], hall⟩

/-! ### What a token spells -/

/-- The token, without ASCII whitespace and at most one leading mark, is `2 * n` digits. -/
structure HexToken (token : Text) (n : ℕ) (ds : Text) : Prop where
  compact : ∃ mark ∈ ([[], ['0', 'x'], ['0', 'X']] : List Text),
    token.filter (!isAsciiWhitespace ·) = mark ++ ds
  length : ds.length = 2 * n
  digits : ∀ c ∈ ds, hexValue c ≠ none

/-- Byte `i` is made of the digits `2 * i` and `2 * i + 1`. -/
def Spells (ds : Text) (out : Bytes) : Prop :=
  ∀ i b, out[i]? = some b → ∃ c d high low, ds[2 * i]? = some c ∧ ds[2 * i + 1]? = some d ∧
    hexValue c = some high ∧ hexValue d = some low ∧ b.toNat = 16 * high + low

theorem pair_toNat {high low : ℕ} (hh : high < 16) (hl : low < 16) :
    (UInt8.ofNat high <<< 4 ||| UInt8.ofNat low).toNat = 16 * high + low := by
  have hall : ∀ h < 16, ∀ l < 16,
      (UInt8.ofNat h <<< 4 ||| UInt8.ofNat l).toNat = 16 * h + l := by decide +kernel
  exact hall high hh low hl

theorem hexBytes_spells {n : ℕ} {ds : Text} (hlen : ds.length = 2 * n)
    (hds : ∀ c ∈ ds, hexValue c ≠ none) :
    ∃ out, hexBytes (ds.map fun c => UInt8.ofNat c.toNat) = some out ∧ out.length = n ∧
      Spells ds out := by
  induction n generalizing ds with
  | zero =>
    obtain rfl : ds = [] := List.length_eq_zero_iff.mp (by omega)
    exact ⟨[], rfl, rfl, fun i b hb => by simp at hb⟩
  | succ n ih =>
    obtain ⟨c, d, rest, rfl, hrest⟩ := exists_pair (hlen.trans (Nat.mul_comm 2 (n + 1)))
    obtain ⟨high, hc⟩ := Option.ne_none_iff_exists'.mp (hds c (by simp))
    obtain ⟨low, hd⟩ := Option.ne_none_iff_exists'.mp (hds d (by simp))
    obtain ⟨out, hout, hn, hspells⟩ := ih (hrest.trans (Nat.mul_comm n 2))
      fun c' hc' => hds c' (by simp [hc'])
    refine ⟨(UInt8.ofNat high <<< 4 ||| UInt8.ofNat low) :: out, ?_, by simp [hn], ?_⟩
    · simp only [List.map_cons, hexBytes, hexNibble_char (hexValue_lt hc).2, hc,
        hexNibble_char (hexValue_lt hd).2, hd, Option.map_some, hout, Option.bind_eq_bind,
        Option.bind_some]
      rfl
    · intro i b hb
      cases i with
      | zero =>
        simp only [List.getElem?_cons_zero, Option.some.injEq] at hb
        subst hb
        exact ⟨c, d, high, low, rfl, rfl, hc, hd,
          pair_toNat (hexValue_lt hc).1 (hexValue_lt hd).1⟩
      | succ i => exact hspells i b (by simpa using hb)

theorem Spells.unique {ds : Text} {out out' : Bytes} (h : Spells ds out) (h' : Spells ds out')
    (hlen : out.length = out'.length) : out = out' := by
  refine List.ext_getElem hlen fun i hi hi' => ?_
  obtain ⟨c, d, high, low, hc, hd, hhigh, hlow, hb⟩ := h i out[i] (List.getElem?_eq_getElem hi)
  obtain ⟨c', d', high', low', hc', hd', hhigh', hlow', hb'⟩ :=
    h' i out'[i] (List.getElem?_eq_getElem hi')
  rw [hc, Option.some.injEq] at hc'
  rw [hd, Option.some.injEq] at hd'
  subst hc' hd'
  rw [hhigh, Option.some.injEq] at hhigh'
  rw [hlow, Option.some.injEq] at hlow'
  exact UInt8.toNat_inj.mp (by omega)

/-- A mark is not taken for digits, nor digits for a mark. -/
theorem stripHexMark_eq {ds : Text} (hds : ∀ c ∈ ds, hexValue c ≠ none) {mark : Text}
    (hmark : mark ∈ ([[], ['0', 'x'], ['0', 'X']] : List Text)) :
    stripHexMark (mark ++ ds) = ds := by
  simp only [List.mem_cons, List.not_mem_nil, or_false] at hmark
  rcases hmark with rfl | rfl | rfl
  · match ds with
    | [] => rfl
    | c :: rest =>
      rw [List.nil_append, stripHexMark]
      · intro rest' h
        cases h
        exact absurd (by decide) (hds 'x' (by simp))
      · intro rest' h
        cases h
        exact absurd (by decide) (hds 'X' (by simp))
  · rfl
  · rfl

theorem exists_mark (t : Text) :
    ∃ mark ∈ ([[], ['0', 'x'], ['0', 'X']] : List Text), t = mark ++ stripHexMark t := by
  unfold stripHexMark
  split
  · exact ⟨['0', 'x'], by simp, rfl⟩
  · exact ⟨['0', 'X'], by simp, rfl⟩
  · exact ⟨[], by simp, rfl⟩

theorem hexResult_eq_some {token : Text} {n : ℕ} {out : Bytes} :
    hexResult token n = some out ↔ out.length = n ∧ ∃ ds, HexToken token n ds ∧ Spells ds out := by
  rw [hexResult]
  constructor
  · intro h
    split at h
    · next hlen =>
      have hds : ∀ c ∈ bareHex token, hexValue c ≠ none := by
        intro c hc
        refine hexValue_of_nibbles fun b hb => hexBytes_nibbles hlen h b ?_
        exact List.mem_flatMap.mpr ⟨c, hc, hb⟩
      rw [flatMap_utf8 hds, List.length_map, Nat.mul_comm] at hlen
      rw [flatMap_utf8 hds] at h
      obtain ⟨out', hout, hn, hspells⟩ := hexBytes_spells hlen hds
      rw [hout, Option.some.injEq] at h
      subst h
      exact ⟨hn, bareHex token, ⟨exists_mark _, hlen, hds⟩, hspells⟩
    · cases h
  · rintro ⟨hn, ds, ⟨⟨mark, hmark, hcompact⟩, hlen, hds⟩, hspells⟩
    have hbare : bareHex token = ds := by
      rw [bareHex, hcompact, stripHexMark_eq hds hmark]
    obtain ⟨out', hout, hn', hspells'⟩ := hexBytes_spells hlen hds
    have hlen' : ((bareHex token).flatMap String.utf8EncodeChar).length = n * 2 := by
      rw [hbare, flatMap_utf8 hds, List.length_map, hlen, Nat.mul_comm]
    rw [if_pos hlen', hbare, flatMap_utf8 hds, hout,
      Spells.unique hspells' hspells (hn'.trans hn.symm)]

/-! ### Written by the tool -/

theorem lowerHex_value : ∀ n < 256,
    hexValue (IdentityTool.lowerHex (UInt8.ofNat n >>> 4)) = some (n / 16) ∧
    hexValue (IdentityTool.lowerHex (UInt8.ofNat n &&& 15)) = some (n % 16) := by
  decide +kernel

theorem hexValue_not_whitespace {c : Char} (h : hexValue c ≠ none) :
    isAsciiWhitespace c = false := by
  by_contra hw
  simp only [isAsciiWhitespace, Bool.not_eq_false, Bool.or_eq_true, beq_iff_eq] at hw
  rcases hw with (((rfl | rfl) | rfl) | rfl) | rfl <;> exact h (by decide)

theorem IdentityTool.hex_cons (b : UInt8) (bytes : Bytes) :
    IdentityTool.hex (b :: bytes) =
      lowerHex (b >>> 4) :: lowerHex (b &&& 15) :: IdentityTool.hex bytes := rfl

theorem byte_digits (b : UInt8) :
    hexValue (IdentityTool.lowerHex (b >>> 4)) = some (b.toNat / 16) ∧
    hexValue (IdentityTool.lowerHex (b &&& 15)) = some (b.toNat % 16) := by
  have h := lowerHex_value b.toNat b.toNat_lt
  rwa [UInt8.ofNat_toNat] at h

theorem IdentityTool.hex_digits (bytes : Bytes) :
    ∀ c ∈ IdentityTool.hex bytes, hexValue c ≠ none := by
  induction bytes with
  | nil => simp [IdentityTool.hex]
  | cons b bytes ih =>
    obtain ⟨hhigh, hlow⟩ := byte_digits b
    rw [IdentityTool.hex_cons]
    simp only [List.mem_cons, forall_eq_or_imp]
    exact ⟨by simp [hhigh], by simp [hlow], ih⟩

theorem IdentityTool.hex_length (bytes : Bytes) :
    (IdentityTool.hex bytes).length = 2 * bytes.length := by
  induction bytes with
  | nil => rfl
  | cons b bytes ih =>
    rw [IdentityTool.hex_cons, List.length_cons, List.length_cons, List.length_cons, ih]
    omega

theorem IdentityTool.hex_token (bytes : Bytes) :
    HexToken (IdentityTool.hex bytes) bytes.length (IdentityTool.hex bytes) := by
  refine ⟨⟨[], by simp, ?_⟩, hex_length bytes, hex_digits bytes⟩
  rw [List.nil_append, List.filter_eq_self]
  intro c hc
  rw [hexValue_not_whitespace (hex_digits bytes c hc)]
  rfl

theorem IdentityTool.hex_spells (bytes : Bytes) : Spells (IdentityTool.hex bytes) bytes := by
  induction bytes with
  | nil => exact fun i b hb => by simp at hb
  | cons b bytes ih =>
    intro i x hx
    cases i with
    | zero =>
      simp only [List.getElem?_cons_zero, Option.some.injEq] at hx
      subst hx
      obtain ⟨hhigh, hlow⟩ := byte_digits b
      exact ⟨_, _, _, _, rfl, rfl, hhigh, hlow, by omega⟩
    | succ i => exact ih i x (by simpa using hx)

/-- The outcomes of a decoder in terms of what the token spells. -/
theorem decodeHex_eq_ok {ε : Type} {wrongLength nonDigit : ε} {token : Text} {n : ℕ}
    {out : Bytes} : decodeHex hexNibble wrongLength nonDigit token n = .ok out ↔
      hexResult token n = some out := by
  rcases decodeHex_eq wrongLength nonDigit token n with ⟨out', hres, hdec⟩ | ⟨hres, e, hdec⟩
  · rw [hres, hdec]
    simp
  · rw [hres, hdec]
    simp

theorem decodeHex_ne_outOfRange {ε : Type} (wrongLength nonDigit : ε) (token : Text) (n : ℕ) :
    decodeHex hexNibble wrongLength nonDigit token n ≠ .error .outOfRange := by
  rcases decodeHex_eq wrongLength nonDigit token n with ⟨out, -, hdec⟩ | ⟨-, e, hdec⟩ <;>
    rw [hdec] <;> simp

theorem decodeHexExactIndexed_ne_outOfRange (token : Text) (n : ℕ) :
    decodeHexExactIndexed n token ≠ .error .outOfRange := by
  rw [decodeHexExactIndexed, decodeHexVecIndexed]
  rcases decodeHex_eq CryptoError.badIdentityConfig .badIdentityConfig token n with
    ⟨out, hres, hdec⟩ | ⟨-, e, hdec⟩
  · have hlen : out.length = n := (hexResult_eq_some.mp hres).1
    rw [hdec]
    simp [toArr, hlen]
  · rw [hdec]
    simp

/-- Hex decoding is exact, the two decoders agree, neither indexes out of range, and both read
back what the tool writes. -/
theorem hexDecoders_agree (token : Text) (n : ℕ) :
    (∀ out, decodeHexVec token n = .ok out ↔
      out.length = n ∧ ∃ ds, HexToken token n ds ∧ Spells ds out) ∧
    (∀ out, decodeHexVecIndexed token n = .ok out ↔ decodeHexVec token n = .ok out) ∧
    (∀ out, IdentityTool.decodeHexExact n token = .ok out ↔ decodeHexVec token n = .ok out) ∧
    decodeHexVecIndexed token n ≠ .error .outOfRange ∧
    decodeHexExactIndexed n token ≠ .error .outOfRange ∧
    IdentityTool.decodeHexExact n token ≠ .error .outOfRange ∧
    ∀ bytes : Bytes, bytes.length = n →
      decodeHexVec (IdentityTool.hex bytes) n = .ok bytes ∧
      IdentityTool.decodeHexExact n (IdentityTool.hex bytes) = .ok bytes := by
  refine ⟨fun out => decodeHexVec_eq_ok.trans hexResult_eq_some,
    fun out => decodeHex_eq_ok.trans decodeHexVec_eq_ok.symm, fun out => ?_,
    decodeHex_ne_outOfRange _ _ token n, decodeHexExactIndexed_ne_outOfRange token n, ?_, ?_⟩
  · rw [IdentityTool.decodeHexExact_eq]
    exact decodeHex_eq_ok.trans decodeHexVec_eq_ok.symm
  · rw [IdentityTool.decodeHexExact_eq]
    exact decodeHex_ne_outOfRange _ _ token n
  rintro bytes rfl
  have hres : hexResult (IdentityTool.hex bytes) bytes.length = some bytes :=
    hexResult_eq_some.mpr ⟨rfl, _, IdentityTool.hex_token bytes, IdentityTool.hex_spells bytes⟩
  rw [IdentityTool.decodeHexExact_eq]
  exact ⟨decodeHexVec_eq_ok.mpr hres, decodeHex_eq_ok.mpr hres⟩

end SyntriassOverlay.Crypto
