import SyntriassOverlay.Records
import SyntriassOverlay.Schedule

/-!
# Record-stream integrity

Between two active sessions with mirrored keys stands an attacker who delivers to
the receiver whatever it likes, as long as it cannot make ciphertexts of its own.
The counters leave it no choice: the frame that the receiver opens with its next
counter is the one the sender sealed with the same counter.
-/

namespace SyntriassOverlay
open Crypto Resumption

/-- An ideal AEAD, as far as two keys are concerned: what opens is what was sealed,
and nothing opens under another key or nonce. -/
structure IdealAead (P : Primitives) (k k' : ByteArr 32) : Prop where
  open_iff : ∀ key, key = k ∨ key = k' → ∀ nonce ct msg,
    P.gcmDecrypt key nonce ct = some msg ↔ ct = P.gcmEncrypt key nonce msg
  separate : ∀ key₁ key₂, key₁ = k ∨ key₁ = k' → key₂ = k ∨ key₂ = k' → ∀ nonce₁ nonce₂ msg₁ msg₂,
    P.gcmEncrypt key₁ nonce₁ msg₁ = P.gcmEncrypt key₂ nonce₂ msg₂ → key₁ = key₂ ∧ nonce₁ = nonce₂
  distinct : k ≠ k'

/-- A seal made with the keys `ka` before they had their present counters, or in
the other direction. -/
structure Earlier (P : Primitives) (ka : SessionKeys) (x : Seal) : Prop where
  ct_eq : x.ct = P.gcmEncrypt x.key x.nonce x.plaintext
  used : x.key = ka.rx.key ∨
    x.key = ka.tx.key ∧ ∃ c, c.toNat < ka.tx.counter.toNat ∧ x.nonce = nonceFromCounter c

/-- The attacker has no key: what reaches the receiver in a frame and is a
ciphertext under the sending key of `ka` is one of the seals `made`, or was sealed
before. -/
def Unforged (P : Primitives) (ka : SessionKeys) (made : List Seal) (frames : List ParsedFrame) :
    Prop :=
  ∀ f ∈ frames, ∀ nonce msg, f.payload = P.gcmEncrypt ka.tx.key nonce msg →
    ∃ x : Seal, x.ct = f.payload ∧ (x ∈ made ∨ Earlier P ka x)

section
variable {P : Primitives} {aside : Prop} {a b sA sB : FdState} {ka : SessionKeys} {tA tB : Tr}
  {pdA pdB : Option Bytes}

/-- The ciphertext and the plaintext of a record. -/
abbrev Seal.record (x : Seal) : Bytes × Bytes := (x.ct, x.plaintext)
abbrev Unseal.record (x : Unseal) : Bytes × Bytes := (x.ct, x.plaintext)

/-- A ciphertext that opens with the counter `c` was sealed by the sender with it. -/
theorem IdealAead.sealed_at (hideal : IdealAead P ka.tx.key ka.rx.key) {xs ys : List Seal}
    {dA dB : Direction} (hA : SealRun P ka.tx xs dA) (hB : SealRun P ka.rx ys dB)
    {c : UInt64} {i : ℕ} (hc : c.toNat = ka.tx.counter.toNat + i) {x : Unseal}
    (hx : x.By P ⟨ka.tx.key, c⟩) {y : Seal} (hct : y.ct = x.ct)
    (hy : y ∈ xs ++ ys ∨ Earlier P ka y) :
    xs[i]? = some y ∧ y.plaintext = x.plaintext := by
  obtain ⟨-, -, hdec⟩ := Direction.open_eq_ok.mp hx.open_eq
  have henc := (hideal.open_iff _ (.inl rfl) _ _ _).mp hdec
  have hother : ∀ nonce msg, y.ct = P.gcmEncrypt ka.rx.key nonce msg → False := by
    intro nonce msg h
    exact hideal.distinct (hideal.separate _ _ (.inl rfl) (.inr rfl) _ _ _ _
      (henc.symm.trans (hct.symm.trans h))).1
  have hnonce : ∀ e msg, y.ct = P.gcmEncrypt ka.tx.key (nonceFromCounter e) msg → e = c := by
    intro e msg h
    exact nonceFromCounter_injective (hideal.separate _ _ (.inl rfl) (.inl rfl) _ _ _ _
      (h.symm.trans (hct.trans henc))).2
  rw [List.mem_append, or_assoc] at hy
  rcases hy with hy | hy | hy
  · obtain ⟨j, hj⟩ := List.mem_iff_getElem?.mp hy
    obtain ⟨e, he, hby⟩ := hA.getElem? hj
    have hyct := hby.ct_eq
    rw [hby.key_eq, hby.nonce_eq] at hyct
    have hec : e = c := hnonce _ _ hyct
    subst hec
    have hij : j = i := by omega
    subst hij
    refine ⟨hj, Option.some_inj.mp ?_⟩
    rw [← (hideal.open_iff _ (.inl rfl) _ _ _).mpr hyct, hct]
    exact hdec
  · obtain ⟨j, hj⟩ := List.mem_iff_getElem?.mp hy
    obtain ⟨e, -, hby⟩ := hB.getElem? hj
    have hyct := hby.ct_eq
    rw [hby.key_eq] at hyct
    exact (hother _ _ hyct).elim
  · have hyct := hy.ct_eq
    rcases hy.used with hkey | ⟨hkey, e, hlt, he⟩
    · rw [hkey] at hyct
      exact (hother _ _ hyct).elim
    · rw [hkey, he] at hyct
      have hec : e = c := hnonce _ _ hyct
      subst hec
      omega

/-- The records opened by the receiver are the first ones of the sender. -/
theorem ReadAccount.openings_le {xs ys : List Seal} {dA dB : Direction} {frames : List ParsedFrame}
    (hread : ReadAccount P b ka.mirror tB sB) (hideal : IdealAead P ka.tx.key ka.rx.key)
    (hA : SealRun P ka.tx xs dA) (hB : SealRun P ka.rx ys dB)
    (hforge : Unforged P ka (xs ++ ys) frames) (hframes : pops tB <+: frames) :
    (openings tB).map Unseal.record <+: xs.map Seal.record := by
  obtain ⟨d, hopen, -⟩ := hread.run
  obtain ⟨l, -, hpops⟩ := hread.pops_eq
  refine List.prefix_iff_getElem?.mpr fun i hi => ?_
  rw [List.length_map] at hi
  have hx : (openings tB)[i]? = some (openings tB)[i] := List.getElem?_eq_getElem hi
  obtain ⟨c, hc, hby⟩ := hopen.getElem? hx
  -- the record came in a frame, and the attacker did not make it
  have hmem : Unseal.frame b.policySuite (openings tB)[i] ∈ frames := by
    refine hframes.subset ?_
    rw [hpops]
    exact List.mem_append_left _ (List.mem_map_of_mem (List.mem_of_getElem? hx))
  obtain ⟨-, -, hdec⟩ := Direction.open_eq_ok.mp hby.open_eq
  have henc := (hideal.open_iff _ (.inl rfl) _ _ _).mp hdec
  obtain ⟨y, hct, hy⟩ := hforge _ hmem _ _ henc
  obtain ⟨hat, hplain⟩ := hideal.sealed_at hA hB hc hby hct hy
  rw [List.getElem?_map, hat, List.getElem_map]
  exact congrArg some (Prod.ext hct hplain)

/-- The same inside a step, because no step of an active session seals midway. -/
theorem Between.sealRun_active (h : Between P aside a tA) (ha : a.phase = .active ka) :
    ∃ d, SealRun P ka.tx (seals tA) d := by
  rcases h.sealRun with hnone | ⟨d₀, d, hout, hrun⟩
  · exact ⟨ka.tx, hnone ▸ .nil⟩
  · cases hout with
    | active hphase hd =>
      rw [ha] at hphase
      cases hphase
      exact ⟨d, hd ▸ hrun⟩
    | fresh hhs =>
      rw [ha] at hhs
      cases hhs

/-- The frame that carries a sealed record. -/
def Seal.frame (suite : CipherSuite) (x : Seal) : ParsedFrame := ⟨suite.id, typeData, x.ct⟩

theorem map_le_of_records {os : List Unseal} {xs : List Seal}
    (h : os.map Unseal.record <+: xs.map Seal.record) (suite : CipherSuite) :
    os.map (Unseal.frame suite) <+: xs.map (Seal.frame suite) ∧
      os.flatMap Unseal.plaintext <+: xs.flatMap Seal.plaintext := by
  have hframes := h.map fun r : Bytes × Bytes => (⟨suite.id, typeData, r.1⟩ : ParsedFrame)
  rw [List.map_map, List.map_map] at hframes
  obtain ⟨r, hr⟩ := h
  have hplain := congrArg (List.flatMap Prod.snd) hr
  rw [List.flatMap_append, List.flatMap_map, List.flatMap_map] at hplain
  exact ⟨hframes, _, hplain⟩

end

theorem specimen_idealAead {k k' : ByteArr 32} (h : k.val.take 4 ≠ k'.val.take 4) :
    IdealAead specimen k k' := by
  have hlen : ∀ key : ByteArr 32, (key.val.take 4).length = 4 := fun key => by simp [key.2]
  have htag : ∀ (key₁ key₂ : ByteArr 32) (nonce₁ nonce₂ : ByteArr 12) (msg₁ msg₂ : Bytes),
      msg₁ ++ specimenTag key₁ nonce₁ = msg₂ ++ specimenTag key₂ nonce₂ →
      key₁.val.take 4 = key₂.val.take 4 ∧ nonce₁ = nonce₂ := by
    intro key₁ key₂ nonce₁ nonce₂ msg₁ msg₂ heq
    obtain ⟨-, heq⟩ := List.append_inj' heq (by rw [specimenTag_length, specimenTag_length])
    obtain ⟨hkey, hnonce⟩ := List.append_inj heq (by rw [hlen, hlen])
    exact ⟨hkey, Subtype.ext hnonce⟩
  refine ⟨fun key _ nonce ct msg => specimenDecrypt_eq_some, ?_, fun heq => h (by rw [heq])⟩
  rintro key₁ key₂ (rfl | rfl) (rfl | rfl) nonce₁ nonce₂ msg₁ msg₂ heq
  · exact ⟨rfl, (htag _ _ _ _ _ _ heq).2⟩
  · exact absurd (htag _ _ _ _ _ _ heq).1 h
  · exact absurd (htag _ _ _ _ _ _ heq).1.symm h
  · exact ⟨rfl, (htag _ _ _ _ _ _ heq).2⟩

/-- The keys `ramp 64` is cut into. -/
def rampKeys : SessionKeys := scheduledKeys specimen [] 1 (ramp 32)

/-- One record, sent. -/
def oneRecord : Played :=
  playCalls specimen 7 100 [.send (ascii "hi") 0 8] ⟨[], [], activeSession rampKeys⟩
    (fallbackKernel [100])

/-- The record arrives, is read, and arrives once more. -/
def replayed : Played :=
  playCalls specimen 7 100 [.recv 10 (by decide) 0 8, .recv 10 (by decide) 0 8]
    ⟨[], [], activeSession rampKeys.mirror⟩
    { fallbackKernel [] with incoming := [sentBytes oneRecord.trace, sentBytes oneRecord.trace] }

/-- What `connect` builds in process 7 in the degraded posture. -/
def clientSession : FdState where
  phase := .initiatorAwaitingFallbackFinished ⟨ramp 32, ramp 16⟩
  ownerPid := 7
  policySuite := .nistStandard768
  configEpoch := 0
  txBacklog := frameBytes fallbackWireId typeFallbackHello (ramp 16).val
  rxWire := []
  rxPlain := []
  countedActive := false

theorem clientSession_built : ∃ c, Built specimen .initiator c clientSession :=
  ⟨_, at_runWith (fun o k => Kernel.answer k 7 o) 20 _ (fallbackKernel [])⟩

/-- What `ensure_tracked` builds for the other suite. -/
def otherResponder : FdState := { responderSession with policySuite := .nistStandard1024 }

theorem otherResponder_built : ∃ c, Built specimen .responder c otherResponder :=
  ⟨_, .nistStandard768, at_runWith (fun o k => Kernel.answer k 7 o) 5 _
    { fallbackKernel [] with policy := some .nistStandard1024 }⟩

/-- The client and the responder after the handshake of the fallback. -/
def openedClient : Played :=
  played specimen clientSession [.recv 1 Nat.one_pos 0 5] (fallbackKernel [100])

def openedResponder : Played :=
  played specimen otherResponder [.recv 1 Nat.one_pos 0 5]
    { fallbackKernel [100] with incoming := [clientSession.txBacklog] }

def openedKeys : SessionKeys :=
  match openedClient.state.phase with
  | .active keys => keys
  | _ => rampKeys

/-- The client sends one record, and its suite byte is changed on the way. -/
def clientRecord : Played :=
  playCalls specimen 7 100 [.send (ascii "hi") 0 8] ⟨[], [], openedClient.state⟩
    (fallbackKernel [100])

def rewritten : Played :=
  playCalls specimen 7 100 [.recv 10 (by decide) 0 8] ⟨[], [], openedResponder.state⟩
    { fallbackKernel [] with incoming := [(sentBytes clientRecord.trace).set 4 2] }

end SyntriassOverlay
