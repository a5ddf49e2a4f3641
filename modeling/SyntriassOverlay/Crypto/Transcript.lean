import SyntriassOverlay.Crypto.Handshake

/-!
# Transcript encodings (crypto/generic.rs:32-36, 90-106, 129-184, 345-390)

The byte strings that are signed or hashed are concatenations without length prefixes. A
label stands in front of each, and the suite byte behind it fixes every later length.
-/

namespace SyntriassOverlay.Crypto

/-! ### One encoding at a time -/

theorem clientAuthMessage_inj {s s' : UInt8} {u u' : Bytes}
    (heq : clientAuthMessage s u = clientAuthMessage s' u') : s = s' ∧ u = u' := by
  simpa [clientAuthMessage] using heq

/-- Two parts behind a label and a suite byte, the first of a length that the suite fixes. -/
theorem labelled_inj {label : Bytes} {s s' : UInt8} {h h' u u' : Bytes}
    (heq : label ++ [s] ++ h ++ u = label ++ [s'] ++ h' ++ u')
    (hlen : s = s' → h.length = h'.length) : s = s' ∧ h = h' ∧ u = u' := by
  simp only [List.append_assoc] at heq
  obtain ⟨rfl, hrest⟩ := List.cons.inj (List.append_cancel_left heq)
  have hsplit : h ++ u = h' ++ u' := hrest
  obtain ⟨rfl, rfl⟩ := List.append_inj hsplit (hlen rfl)
  exact ⟨rfl, rfl, rfl⟩

theorem serverAuthMessage_inj {s s' : UInt8} {h h' u u' : Bytes}
    (heq : serverAuthMessage s h u = serverAuthMessage s' h' u')
    (hlen : s = s' → h.length = h'.length) : s = s' ∧ h = h' ∧ u = u' :=
  labelled_inj heq hlen

theorem transcriptMessage_inj {s s' : UInt8} {h h' u u' : Bytes}
    (heq : transcriptMessage s h u = transcriptMessage s' h' u')
    (hlen : s = s' → h.length = h'.length) : s = s' ∧ h = h' ∧ u = u' :=
  labelled_inj heq hlen

theorem fallbackTranscript_inj {n n' m m' : ByteArr 16}
    (heq : fallbackTranscript n.val m.val = fallbackTranscript n'.val m'.val) :
    n = n' ∧ m = m' := by
  simp only [fallbackTranscript, List.append_assoc] at heq
  have hsplit := List.append_cancel_left heq
  obtain ⟨hn, hm⟩ := List.append_inj hsplit (by rw [n.2, n'.2])
  exact ⟨Subtype.ext hn, Subtype.ext hm⟩

/-! ### The four encodings together -/

/-- The length of a hello before its signatures, with `kemLen` bytes of ML-KEM material. -/
def unsignedLen (kemLen : ℕ) : ℕ := x25519Len + kemLen + identityPublicLen

def helloLen (kemLen : ℕ) : ℕ := unsignedLen kemLen + identitySignatureLen

/-- What is signed or hashed, over arguments that pass the length checks of `respond`,
`finish` and the fallback. -/
inductive Transcript where
  | clientAuth (suite : CipherSuite) (clientUnsigned : Bytes)
      (hlen : clientUnsigned.length = unsignedLen suite.ekLen)
  | serverAuth (suite : CipherSuite) (clientHello serverUnsigned : Bytes)
      (hclient : clientHello.length = helloLen suite.ekLen)
      (hserver : serverUnsigned.length = unsignedLen suite.ctLen)
  | keys (suite : CipherSuite) (clientHello serverHello : Bytes)
      (hclient : clientHello.length = helloLen suite.ekLen)
      (hserver : serverHello.length = helloLen suite.ctLen)
  | fallback (clientNonce serverNonce : ByteArr 16)

namespace Transcript

def bytes : Transcript → Bytes
  | clientAuth suite clientUnsigned _ => clientAuthMessage suite.id clientUnsigned
  | serverAuth suite clientHello serverUnsigned _ _ =>
    serverAuthMessage suite.id clientHello serverUnsigned
  | keys suite clientHello serverHello _ _ => transcriptMessage suite.id clientHello serverHello
  | fallback clientNonce serverNonce => fallbackTranscript clientNonce.val serverNonce.val

/-- The byte behind `syntriass-overlay `, where the labels part. -/
def mark : Transcript → UInt8
  | clientAuth .. => 0x63
  | serverAuth .. => 0x73
  | keys .. => 0x74
  | fallback .. => 0x70

theorem getElem?_label {label : Bytes} {b : UInt8} (h : label[18]? = some b) (rest : Bytes) :
    (label ++ rest)[18]? = some b := by
  have hlt : 18 < label.length := (List.getElem?_eq_some_iff.mp h).1
  rw [List.getElem?_append_left hlt, h]

theorem bytes_mark (e : Transcript) : e.bytes[18]? = some e.mark := by
  cases e with
  | clientAuth suite u =>
    rw [bytes, clientAuthMessage, List.append_assoc]
    exact getElem?_label (b := 0x63) (by decide +kernel) _
  | serverAuth suite c u =>
    rw [bytes, serverAuthMessage, List.append_assoc, List.append_assoc]
    exact getElem?_label (b := 0x73) (by decide +kernel) _
  | keys suite c s =>
    rw [bytes, transcriptMessage, List.append_assoc, List.append_assoc]
    exact getElem?_label (b := 0x74) (by decide +kernel) _
  | fallback n m =>
    rw [bytes, fallbackTranscript, List.append_assoc]
    exact getElem?_label (b := 0x70) (by decide +kernel) _

theorem mark_eq {e e' : Transcript} (h : e.bytes = e'.bytes) : e.mark = e'.mark := by
  have hm := e.bytes_mark
  rw [h, e'.bytes_mark] at hm
  exact (Option.some.inj hm).symm

end Transcript

/-! ### HKDF info strings -/

/-- What HKDF is asked to expand. -/
inductive Expansion where
  | session (suite : CipherSuite)
  | fallback
  | ktls
  deriving DecidableEq

/-- The info string; `ktls` has no transcript in it. -/
def Expansion.info (hash : ByteArr 32) : Expansion → Bytes
  | .session suite => hkdfInfo suite.id hash
  | .fallback => hkdfInfo 0xFF hash
  | .ktls => ktlsInfo

theorem hkdfInfo_inj {s s' : UInt8} {h h' : ByteArr 32} (heq : hkdfInfo s h = hkdfInfo s' h') :
    s = s' ∧ h = h' := by
  simp only [hkdfInfo, List.append_assoc] at heq
  obtain ⟨hs, hh⟩ := List.cons.inj (List.append_cancel_left heq)
  exact ⟨hs, Subtype.ext hh⟩

theorem hkdfInfo_ne_ktlsInfo (s : UInt8) (h : ByteArr 32) : hkdfInfo s h ≠ ktlsInfo := by
  intro heq
  have hmark : (hkdfInfo s h)[18]? = some 0x76 := by
    rw [hkdfInfo, List.append_assoc]
    exact Transcript.getElem?_label (by decide +kernel) _
  rw [heq] at hmark
  exact absurd hmark (by decide +kernel)

theorem CipherSuite.id_ne_fallback (s : CipherSuite) : s.id ≠ 0xFF := by
  cases s <;> decide

theorem Expansion.info_ne {i j : Expansion} (hij : i ≠ j) (h h' : ByteArr 32) :
    i.info h ≠ j.info h' := by
  cases i with
  | session s =>
    cases j with
    | session s' => exact fun heq => hij (by rw [CipherSuite.id_injective (hkdfInfo_inj heq).1])
    | fallback => exact fun heq => s.id_ne_fallback (hkdfInfo_inj heq).1
    | ktls => exact hkdfInfo_ne_ktlsInfo _ _
  | fallback =>
    cases j with
    | session s => exact fun heq => s.id_ne_fallback (hkdfInfo_inj heq).1.symm
    | fallback => exact absurd rfl hij
    | ktls => exact hkdfInfo_ne_ktlsInfo _ _
  | ktls =>
    cases j with
    | session | fallback => exact fun heq => hkdfInfo_ne_ktlsInfo _ _ heq.symm
    | ktls => exact absurd rfl hij

/-! ### Main result -/

/-- The two keys out of the 64 bytes of `derive`. -/
def splitOkm (isInitiator : Bool) (okm : ByteArr 64) : SessionKeys :=
  let c2s : ByteArr 32 := okm.take 32
  let s2c : ByteArr 32 := okm.drop 32
  if isInitiator then ⟨Direction.new c2s, Direction.new s2c⟩
  else ⟨Direction.new s2c, Direction.new c2s⟩

/-- The functions of the key schedule hash the transcripts and expand with the info strings. -/
structure KeySchedule (P : Primitives) : Prop where
  keys : ∀ suite clientHello serverHello hc hs, transcriptHash P suite.id clientHello serverHello =
    P.sha256 (Transcript.keys suite clientHello serverHello hc hs).bytes
  fallback : ∀ psk clientNonce serverNonce isInitiator,
    deriveFallback P psk clientNonce.val serverNonce.val isInitiator =
      derive P psk 0xFF (P.sha256 (Transcript.fallback clientNonce serverNonce).bytes) isInitiator
  session : ∀ ikm suite hash isInitiator, derive P ikm (CipherSuite.id suite) hash isInitiator =
    (hkdfExpand P ikm ((Expansion.session suite).info hash) 64).map (splitOkm isInitiator)
  degraded : ∀ ikm hash isInitiator, derive P ikm 0xFF hash isInitiator =
    (hkdfExpand P ikm (Expansion.fallback.info hash) 64).map (splitOkm isInitiator)
  ktls : ∀ (d : Direction) hash,
    (d.ktlsSecret P).salt.val = slice (P.hkdf d.key.val (Expansion.ktls.info hash) 12).val 0 4 ∧
    (d.ktlsSecret P).iv.val = slice (P.hkdf d.key.val (Expansion.ktls.info hash) 12).val 4 12

theorem derive_eq_split (P : Primitives) (ikm : Bytes) (suiteId : UInt8) (hash : ByteArr 32)
    (isInitiator : Bool) : derive P ikm suiteId hash isInitiator =
      (hkdfExpand P ikm (hkdfInfo suiteId hash) 64).map (splitOkm isInitiator) := by
  rw [derive]
  cases hkdfExpand P ikm (hkdfInfo suiteId hash) 64 with
  | error e => rfl
  | ok okm =>
    have hback : okm.sub 32 32 (by omega) = (okm.drop 32 : ByteArr 32) :=
      Subtype.ext (List.take_of_length_le (by rw [List.length_drop, okm.property]))
    cases isInitiator <;> simp only [bind, Except.bind, hback] <;> rfl

theorem keySchedule (P : Primitives) : KeySchedule P where
  keys := fun _ _ _ _ _ => rfl
  fallback := fun _ _ _ _ => rfl
  session := fun ikm suite hash => derive_eq_split P ikm suite.id hash
  degraded := fun ikm hash => derive_eq_split P ikm 0xFF hash
  ktls := fun _ _ => ⟨rfl, rfl⟩

/-- The four encodings are injective in all arguments and no string of one kind is one of
another; the HKDF info strings are pairwise different whatever the transcripts hash to. These are
the strings that the key schedule hashes and expands with. -/
theorem transcripts_separated :
    Function.Injective Transcript.bytes ∧
    (Pairwise fun i j : Expansion => ∀ h h', i.info h ≠ j.info h') ∧ ∀ P, KeySchedule P := by
  refine ⟨fun e e' heq => ?_, fun i j hij h h' => Expansion.info_ne hij h h', keySchedule⟩
  have hmark := Transcript.mark_eq heq
  cases e with
  | clientAuth s u =>
    cases e' with
    | clientAuth s' u' =>
      obtain ⟨hs, rfl⟩ := clientAuthMessage_inj heq
      obtain rfl := CipherSuite.id_injective hs
      rfl
    | serverAuth | keys | fallback => simp [Transcript.mark] at hmark
  | serverAuth s c u hc hu =>
    cases e' with
    | serverAuth s' c' u' hc' hu' =>
      have hlen : s.id = s'.id → c.length = c'.length := fun hs => by
        rw [hc, hc', CipherSuite.id_injective hs]
      obtain ⟨hs, rfl, rfl⟩ := serverAuthMessage_inj heq hlen
      obtain rfl := CipherSuite.id_injective hs
      rfl
    | clientAuth | keys | fallback => simp [Transcript.mark] at hmark
  | keys s c u hc hu =>
    cases e' with
    | keys s' c' u' hc' hu' =>
      have hlen : s.id = s'.id → c.length = c'.length := fun hs => by
        rw [hc, hc', CipherSuite.id_injective hs]
      obtain ⟨hs, rfl, rfl⟩ := transcriptMessage_inj heq hlen
      obtain rfl := CipherSuite.id_injective hs
      rfl
    | clientAuth | serverAuth | fallback => simp [Transcript.mark] at hmark
  | fallback n m =>
    cases e' with
    | fallback n' m' =>
      obtain ⟨rfl, rfl⟩ := fallbackTranscript_inj heq
      rfl
    | clientAuth | serverAuth | keys => simp [Transcript.mark] at hmark

end SyntriassOverlay.Crypto
