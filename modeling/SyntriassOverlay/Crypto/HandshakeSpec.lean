import SyntriassOverlay.Crypto.Handshake

/-!
# When the engine calls succeed

For every call of the two engines and of the fallback: the condition under which
it succeeds, and what it returns then. A hello body is looked at through its six
fields (`HelloBody`); the encoder writes them one after the other and the slices
of the decoder are again these fields.
-/

namespace SyntriassOverlay.Crypto

theorem except_bind_eq_ok {ε α β : Type} {x : Except ε α} {f : α → Except ε β} {b : β} :
    (x >>= f) = .ok b ↔ ∃ a, x = .ok a ∧ f a = .ok b := by
  cases x <;> simp [bind, Except.bind]

theorem except_pure_eq_ok {ε α : Type} {a b : α} : (pure a : Except ε α) = .ok b ↔ a = b := by
  simp [pure, Except.pure]

theorem optElim_eq_ok {ε α : Type} {x : Option α} {e : ε} {a : α} :
    x.elim (throw e : Except ε α) pure = .ok a ↔ x = some a := by
  cases x <;> simp [throw, throwThe, MonadExceptOf.throw, pure, Except.pure]

/-! ### Key schedule -/

/-- Keys of the other side of a session. -/
def SessionKeys.mirror (k : SessionKeys) : SessionKeys := ⟨k.rx, k.tx⟩

@[simp] theorem SessionKeys.mirror_tx (k : SessionKeys) : k.mirror.tx = k.rx := rfl
@[simp] theorem SessionKeys.mirror_rx (k : SessionKeys) : k.mirror.rx = k.tx := rfl
@[simp] theorem SessionKeys.mirror_mirror (k : SessionKeys) : k.mirror.mirror = k := rfl

theorem okm_first : 0 + 32 ≤ 64 := by omega
theorem okm_second : 32 + 32 ≤ 64 := by omega

/-- The keys an initiator derives. -/
def scheduledKeys (P : Primitives) (ikm : Bytes) (suiteId : UInt8) (hash : ByteArr 32) :
    SessionKeys :=
  let okm := P.hkdf ikm (hkdfInfo suiteId hash) 64
  ⟨Direction.new (okm.sub 0 32 okm_first), Direction.new (okm.sub 32 32 okm_second)⟩

variable {P : Primitives}

theorem derive_eq (ikm : Bytes) (suiteId : UInt8) (hash : ByteArr 32) (isInitiator : Bool) :
    derive P ikm suiteId hash isInitiator =
      .ok (if isInitiator then scheduledKeys P ikm suiteId hash
        else (scheduledKeys P ikm suiteId hash).mirror) := by
  cases isInitiator <;> rfl

@[simp] theorem scheduledKeys_tx_counter (ikm : Bytes) (suiteId : UInt8) (hash : ByteArr 32) :
    (scheduledKeys P ikm suiteId hash).tx.counter = 0 := rfl

@[simp] theorem scheduledKeys_rx_counter (ikm : Bytes) (suiteId : UInt8) (hash : ByteArr 32) :
    (scheduledKeys P ikm suiteId hash).rx.counter = 0 := rfl

/-! ### The fields of a hello body -/

structure HelloBody (kemLen : ℕ) where
  xPublic : ByteArr 32
  kem : ByteArr kemLen
  edPub : ByteArr 32
  mlPub : ByteArr 1952
  sigs : IdentitySignatures

namespace HelloBody
variable {n : ℕ} (b : HelloBody n)

def unsigned : Bytes := b.xPublic.val ++ b.kem.val ++ b.edPub.val ++ b.mlPub.val

def bytes : Bytes := signedBody b.unsigned b.sigs

theorem slice_middle (pre mid post : Bytes) {b : Bytes} {start stop : ℕ}
    (hb : b = pre ++ (mid ++ post)) (hs : pre.length = start) (he : start + mid.length = stop) :
    slice b start stop = mid := by
  subst hb hs he
  rw [slice, List.drop_left, Nat.add_sub_cancel_left, List.take_left]

theorem unsigned_length : b.unsigned.length = x25519Len + n + identityPublicLen := by
  simp only [unsigned, List.length_append, b.xPublic.2, b.kem.2, b.edPub.2, b.mlPub.2, x25519Len,
    identityPublicLen, ed25519PublicLen, mldsa65PublicLen]

theorem bytes_length :
    b.bytes.length = x25519Len + n + identityPublicLen + identitySignatureLen := by
  simp only [bytes, signedBody, List.length_append, unsigned_length, b.sigs.ed25519.2,
    b.sigs.mldsa65.2, identitySignatureLen, ed25519SignatureLen, mldsa65SignatureLen]

theorem slice_unsigned : slice b.bytes 0 (x25519Len + n + identityPublicLen) = b.unsigned := by
  refine slice_middle [] b.unsigned (b.sigs.ed25519.val ++ b.sigs.mldsa65.val) ?_ rfl ?_
  · simp only [bytes, signedBody, List.nil_append, List.append_assoc]
  · rw [unsigned_length, Nat.zero_add]

theorem slice_xPublic : slice b.bytes 0 x25519Len = b.xPublic.val := by
  refine slice_middle [] b.xPublic.val (b.kem.val ++ b.edPub.val ++ b.mlPub.val ++
    b.sigs.ed25519.val ++ b.sigs.mldsa65.val) ?_ rfl ?_
  · simp only [bytes, signedBody, unsigned, List.nil_append, List.append_assoc]
  · rw [b.xPublic.2, Nat.zero_add, x25519Len]

theorem slice_kem : slice b.bytes x25519Len (x25519Len + n) = b.kem.val := by
  refine slice_middle b.xPublic.val b.kem.val (b.edPub.val ++ b.mlPub.val ++
    b.sigs.ed25519.val ++ b.sigs.mldsa65.val) ?_ b.xPublic.2 ?_
  · simp only [bytes, signedBody, unsigned, List.append_assoc]
  · rw [b.kem.2]

theorem splitIdentityFields_bytes : splitIdentityFields b.bytes (x25519Len + n) =
    .ok (b.edPub.val, b.mlPub.val, b.sigs.ed25519.val, b.sigs.mldsa65.val) := by
  have hlen : b.bytes.length = x25519Len + n + ed25519PublicLen + mldsa65PublicLen +
      ed25519SignatureLen + mldsa65SignatureLen := by
    rw [bytes_length, identityPublicLen, identitySignatureLen]
    omega
  have hx := b.xPublic.2
  have hk := b.kem.2
  have hep := b.edPub.2
  have hmp := b.mlPub.2
  have hes := b.sigs.ed25519.2
  have hms := b.sigs.mldsa65.2
  have h1 : slice b.bytes (x25519Len + n) (x25519Len + n + ed25519PublicLen) = b.edPub.val := by
    refine slice_middle (b.xPublic.val ++ b.kem.val) _
      (b.mlPub.val ++ b.sigs.ed25519.val ++ b.sigs.mldsa65.val) ?_ ?_ ?_
    · simp only [bytes, signedBody, unsigned, List.append_assoc]
    · rw [List.length_append, hx, hk, x25519Len]
    · rw [hep, ed25519PublicLen]
  have h2 : slice b.bytes (x25519Len + n + ed25519PublicLen)
      (x25519Len + n + ed25519PublicLen + mldsa65PublicLen) = b.mlPub.val := by
    refine slice_middle (b.xPublic.val ++ b.kem.val ++ b.edPub.val) _
      (b.sigs.ed25519.val ++ b.sigs.mldsa65.val) ?_ ?_ ?_
    · simp only [bytes, signedBody, unsigned, List.append_assoc]
    · rw [List.length_append, List.length_append, hx, hk, hep, x25519Len, ed25519PublicLen]
    · rw [hmp, mldsa65PublicLen]
  have h3 : slice b.bytes (x25519Len + n + ed25519PublicLen + mldsa65PublicLen)
      (x25519Len + n + ed25519PublicLen + mldsa65PublicLen + ed25519SignatureLen) =
      b.sigs.ed25519.val := by
    refine slice_middle b.unsigned _ b.sigs.mldsa65.val ?_ ?_ ?_
    · simp only [bytes, signedBody, List.append_assoc]
    · rw [unsigned_length, identityPublicLen, ← Nat.add_assoc]
    · rw [hes, ed25519SignatureLen]
  have h4 : slice b.bytes
      (x25519Len + n + ed25519PublicLen + mldsa65PublicLen + ed25519SignatureLen)
      (x25519Len + n + ed25519PublicLen + mldsa65PublicLen + ed25519SignatureLen +
        mldsa65SignatureLen) = b.sigs.mldsa65.val := by
    refine slice_middle (b.unsigned ++ b.sigs.ed25519.val) _ [] ?_ ?_ ?_
    · simp only [bytes, signedBody, List.append_nil]
    · rw [List.length_append, unsigned_length, hes, identityPublicLen, ed25519SignatureLen,
        ← Nat.add_assoc]
    · rw [hms, mldsa65SignatureLen]
  simp only [splitIdentityFields, hlen, ne_eq, not_true_eq_false, if_false, h1, h2, h3, h4]

/-- Every byte string of the right length is a hello body. -/
theorem exists_bytes {body : Bytes}
    (h : body.length = x25519Len + n + identityPublicLen + identitySignatureLen) :
    ∃ b : HelloBody n, body = b.bytes := by
  simp only [x25519Len, identityPublicLen, identitySignatureLen, ed25519PublicLen,
    mldsa65PublicLen, ed25519SignatureLen, mldsa65SignatureLen] at h
  have hcut : ∀ (m : ℕ) (l : Bytes), m ≤ l.length → ∃ (v : ByteArr m) (r : Bytes),
      l = v.val ++ r ∧ r.length = l.length - m := by
    intro m l hm
    refine ⟨⟨l.take m, by rw [List.length_take]; omega⟩, l.drop m, ?_, List.length_drop⟩
    exact (List.take_append_drop m l).symm
  obtain ⟨x, r1, h1, hl1⟩ := hcut 32 body (by omega)
  obtain ⟨k, r2, h2, hl2⟩ := hcut n r1 (by omega)
  obtain ⟨e, r3, h3, hl3⟩ := hcut 32 r2 (by omega)
  obtain ⟨m, r4, h4, hl4⟩ := hcut 1952 r3 (by omega)
  obtain ⟨se, r5, h5, hl5⟩ := hcut 64 r4 (by omega)
  have hl6 : r5.length = 3309 := by omega
  refine ⟨⟨x, k, e, m, se, ⟨r5, hl6⟩⟩, ?_⟩
  simp only [bytes, signedBody, unsigned, List.append_assoc]
  rw [h1, h2, h3, h4, h5]

theorem bytes_inj {b b' : HelloBody n} (h : b.bytes = b'.bytes) : b = b' := by
  have hx := b.slice_xPublic
  have hk := b.slice_kem
  have hid := b.splitIdentityFields_bytes
  rw [h, b'.slice_xPublic] at hx
  rw [h, b'.slice_kem] at hk
  rw [h, b'.splitIdentityFields_bytes, Except.ok.injEq, Prod.mk.injEq, Prod.mk.injEq,
    Prod.mk.injEq] at hid
  obtain ⟨hep, hmp, hes, hms⟩ := hid
  obtain ⟨x, k, ep, mp, es, ms⟩ := b
  obtain ⟨x', k', ep', mp', es', ms'⟩ := b'
  obtain rfl : x' = x := Subtype.ext hx
  obtain rfl : k' = k := Subtype.ext hk
  obtain rfl : ep' = ep := Subtype.ext hep
  obtain rfl : mp' = mp := Subtype.ext hmp
  obtain rfl : es' = es := Subtype.ext hes
  obtain rfl : ms' = ms := Subtype.ext hms
  rfl

end HelloBody

/-! ### Identities -/

theorem sign_eq_ok {m : IdentityMaterial} {transcript : Bytes} {sigs : IdentitySignatures} :
    m.sign P transcript = .ok sigs ↔ P.ed25519Sign m.ownEd25519 transcript = some sigs.ed25519 ∧
      P.mldsa65Sign m.ownMldsa65 transcript = some sigs.mldsa65 := by
  unfold IdentityMaterial.sign
  cases P.ed25519Sign m.ownEd25519 transcript with
  | none => simp
  | some e =>
    cases P.mldsa65Sign m.ownMldsa65 transcript with
    | none => simp
    | some s =>
      simp only [Except.ok.injEq, Option.some.injEq]
      constructor
      · rintro rfl
        exact ⟨rfl, rfl⟩
      · rintro ⟨rfl, rfl⟩
        rfl

theorem verifyPeerPublicKeys_eq_ok {m : IdentityMaterial} {ed ml : Bytes} :
    m.verifyPeerPublicKeys ed ml = .ok () ↔
      ed = m.peerEd25519Public.val ∧ ml = m.peerMldsa65Public.val := by
  unfold IdentityMaterial.verifyPeerPublicKeys
  split
  · rename_i h
    simp only [reduceCtorEq, false_iff]
    rintro ⟨he, hm⟩
    exact h.elim (fun h => h he) (fun h => h hm)
  · rename_i h
    simpa [not_or] using h

/-- Both signatures of the pinned peer on one message. -/
def SignedByPeer (P : Primitives) (m : IdentityMaterial) (message : Bytes)
    (sigs : IdentitySignatures) : Prop :=
  P.ed25519VerifyStrict m.peerEd25519Public message sigs.ed25519 = true ∧
    P.mldsa65Verify m.peerMldsa65Public message sigs.mldsa65 = true

theorem verifyPeerSignatures_eq_ok {m : IdentityMaterial} {transcript : Bytes}
    {sigs : IdentitySignatures} :
    m.verifyPeerSignatures P transcript sigs.ed25519.val sigs.mldsa65.val = .ok () ↔
      SignedByPeer P m transcript sigs := by
  simp only [IdentityMaterial.verifyPeerSignatures, toArr_val, SignedByPeer]
  cases P.ed25519VerifyStrict m.peerEd25519Public transcript sigs.ed25519 <;>
    cases P.mldsa65Verify m.peerMldsa65Public transcript sigs.mldsa65 <;> simp

/-! ### The hybrid handshake -/

section Engine
variable {K : KemCore} {suiteId : UInt8} {identity : IdentityMaterial} {eph : Ephemeral}

/-- The hello with key share `x`, KEM part `kem` and the sender's own keys, under
the given signatures. -/
def ownHello (P : Primitives) (identity : IdentityMaterial) {n : ℕ} (x : ByteArr 32)
    (kem : ByteArr n) (sigs : IdentitySignatures) : HelloBody n :=
  ⟨x, kem, identity.ownEd25519Public P, identity.ownMldsa65Public P, sigs⟩

theorem ownHello_unsigned {n : ℕ} (x : ByteArr 32) (kem : ByteArr n) (sigs : IdentitySignatures) :
    (ownHello P identity x kem sigs).unsigned = unsignedHello P identity x kem.val := rfl

/-- The hello of an initiator with the given signatures. -/
def offeredHello (P : Primitives) (K : KemCore) (identity : IdentityMaterial) (eph : Ephemeral)
    (sigs : IdentitySignatures) : HelloBody K.ekSize :=
  ownHello P identity (P.x25519Public eph.xSecret) (K.generate eph.kemCoins).2 sigs

theorem clientHello_eq_ok {state : GenericInitiatorState} {body : Bytes} :
    clientHello P K suiteId identity eph = .ok (state, body) ↔ ∃ sigs,
      identity.sign P (clientAuthMessage suiteId (offeredHello P K identity eph sigs).unsigned) =
        .ok sigs ∧
      body = (offeredHello P K identity eph sigs).bytes ∧
      state = ⟨suiteId, eph.xSecret, (K.generate eph.kemCoins).1, body⟩ := by
  simp only [clientHello, except_bind_eq_ok, pure, Except.pure, Except.ok.injEq, Prod.mk.injEq]
  constructor
  · rintro ⟨sigs, hs, rfl, rfl⟩
    exact ⟨sigs, hs, rfl, rfl⟩
  · rintro ⟨sigs, hs, rfl, rfl⟩
    exact ⟨sigs, hs, rfl, rfl⟩

/-- What `respond` accepts, and what it returns. -/
structure Responded (P : Primitives) (K : KemCore) (suiteId : UInt8) (identity : IdentityMaterial)
    (eph : Ephemeral) (client : HelloBody K.ekSize) (keys : SessionKeys)
    (server : HelloBody K.ctSize) (mlSs : Bytes) : Prop where
  edPub : client.edPub = identity.peerEd25519Public
  mlPub : client.mlPub = identity.peerMldsa65Public
  signed : SignedByPeer P identity (clientAuthMessage suiteId client.unsigned) client.sigs
  encapsulated : K.encapsulate client.kem eph.kemCoins = some (server.kem, mlSs)
  own : server = ownHello P identity (P.x25519Public eph.xSecret) server.kem server.sigs
  sign : identity.sign P (serverAuthMessage suiteId client.bytes server.unsigned) =
    .ok server.sigs
  keys : keys = (scheduledKeys P ((P.diffieHellman eph.xSecret client.xPublic).val ++ mlSs) suiteId
    (transcriptHash P suiteId client.bytes server.bytes)).mirror

theorem respond_bytes_eq_ok {client : HelloBody K.ekSize} {keys : SessionKeys} {hello : Bytes} :
    respond P K suiteId K.ekSize identity client.bytes eph = .ok (keys, hello) ↔
      ∃ server mlSs, hello = HelloBody.bytes server ∧
        Responded P K suiteId identity eph client keys server mlSs := by
  simp only [respond, client.bytes_length, ne_eq, not_true_eq_false, if_false,
    client.slice_unsigned, client.splitIdentityFields_bytes, client.slice_xPublic,
    client.slice_kem, toArr_val, except_bind_eq_ok, optElim_eq_ok, derive_eq, except_pure_eq_ok,
    Except.ok.injEq, Prod.mk.injEq, Option.some.injEq]
  constructor
  · rintro ⟨_, rfl, ⟨⟩, hpub, ⟨⟩, hsig, _, rfl, _, rfl, ⟨mlCt, mlSs⟩, henc, sigs, hsign, _, rfl,
      rfl, rfl⟩
    obtain ⟨hed, hml⟩ := verifyPeerPublicKeys_eq_ok.mp hpub
    refine ⟨ownHello P identity (P.x25519Public eph.xSecret) mlCt sigs, mlSs, rfl, ?_⟩
    exact ⟨Subtype.ext hed, Subtype.ext hml, verifyPeerSignatures_eq_ok.mp hsig, henc, rfl, hsign,
      rfl⟩
  · rintro ⟨server, mlSs, rfl, hr⟩
    have hun := congrArg HelloBody.unsigned hr.own
    rw [ownHello_unsigned] at hun
    have hpub := verifyPeerPublicKeys_eq_ok.mpr ⟨congrArg Subtype.val hr.edPub,
      congrArg Subtype.val hr.mlPub⟩
    refine ⟨_, rfl, (), hpub, (), verifyPeerSignatures_eq_ok.mpr hr.signed, _, rfl, _, rfl, _,
      hr.encapsulated, server.sigs, ?_, _, rfl, ?_, ?_⟩
    · rw [← hun, hr.sign]
    · rw [hr.keys, ← hun]
      rfl
    · rw [← hun]
      rfl

theorem respond_eq_ok {body : Bytes} {keys : SessionKeys} {hello : Bytes} :
    respond P K suiteId K.ekSize identity body eph = .ok (keys, hello) ↔
      ∃ client server mlSs, body = HelloBody.bytes client ∧ hello = HelloBody.bytes server ∧
        Responded P K suiteId identity eph client keys server mlSs := by
  constructor
  · intro h
    have hlen : body.length = x25519Len + K.ekSize + identityPublicLen + identitySignatureLen := by
      by_contra hne
      simp [respond, hne, throw, throwThe, MonadExceptOf.throw, bind, Except.bind] at h
    obtain ⟨client, rfl⟩ := HelloBody.exists_bytes hlen
    obtain ⟨server, mlSs, hserver, hr⟩ := respond_bytes_eq_ok.mp h
    exact ⟨client, server, mlSs, rfl, hserver, hr⟩
  · rintro ⟨client, server, mlSs, rfl, hserver, hr⟩
    exact respond_bytes_eq_ok.mpr ⟨server, mlSs, hserver, hr⟩

/-- What `finish` accepts, and what it returns. -/
structure Completed (P : Primitives) (K : KemCore) (state : GenericInitiatorState)
    (identity : IdentityMaterial) (server : HelloBody K.ctSize) (keys : SessionKeys)
    (mlSs : Bytes) : Prop where
  edPub : server.edPub = identity.peerEd25519Public
  mlPub : server.mlPub = identity.peerMldsa65Public
  signed : SignedByPeer P identity
    (serverAuthMessage state.suiteId state.clientHello server.unsigned) server.sigs
  decapsulated : K.decapsulate state.mlDecap server.kem = some mlSs
  keys : keys = scheduledKeys P ((P.diffieHellman state.xSecret server.xPublic).val ++ mlSs)
    state.suiteId (transcriptHash P state.suiteId state.clientHello server.bytes)

theorem finish_bytes_eq_ok {state : GenericInitiatorState} {server : HelloBody K.ctSize}
    {keys : SessionKeys} : finish P K state K.ctSize identity server.bytes = .ok keys ↔
      ∃ mlSs, Completed P K state identity server keys mlSs := by
  simp only [finish, server.bytes_length, ne_eq, not_true_eq_false, if_false,
    server.slice_unsigned, server.splitIdentityFields_bytes, server.slice_xPublic,
    server.slice_kem, toArr_val, except_bind_eq_ok, optElim_eq_ok, derive_eq,
    Except.ok.injEq, Option.some.injEq]
  constructor
  · rintro ⟨_, rfl, ⟨⟩, hpub, ⟨⟩, hsig, _, rfl, _, rfl, mlSs, hdec, rfl⟩
    obtain ⟨hed, hml⟩ := verifyPeerPublicKeys_eq_ok.mp hpub
    exact ⟨mlSs, Subtype.ext hed, Subtype.ext hml, verifyPeerSignatures_eq_ok.mp hsig, hdec, rfl⟩
  · rintro ⟨mlSs, hc⟩
    have hpub := verifyPeerPublicKeys_eq_ok.mpr ⟨congrArg Subtype.val hc.edPub,
      congrArg Subtype.val hc.mlPub⟩
    exact ⟨_, rfl, (), hpub, (), verifyPeerSignatures_eq_ok.mpr hc.signed, _, rfl, _, rfl, mlSs,
      hc.decapsulated, hc.keys.symm⟩

theorem finish_eq_ok {state : GenericInitiatorState} {body : Bytes} {keys : SessionKeys} :
    finish P K state K.ctSize identity body = .ok keys ↔
      ∃ server mlSs, body = HelloBody.bytes server ∧
        Completed P K state identity server keys mlSs := by
  constructor
  · intro h
    have hlen : body.length = x25519Len + K.ctSize + identityPublicLen + identitySignatureLen := by
      by_contra hne
      simp [finish, hne, throw, throwThe, MonadExceptOf.throw, bind, Except.bind] at h
    obtain ⟨server, rfl⟩ := HelloBody.exists_bytes hlen
    obtain ⟨mlSs, hc⟩ := finish_bytes_eq_ok.mp h
    exact ⟨server, mlSs, rfl, hc⟩
  · rintro ⟨server, mlSs, rfl, hc⟩
    exact finish_bytes_eq_ok.mpr ⟨mlSs, hc⟩

end Engine

/-! ### The engines of the suites -/

theorem beginInitiator_eq_ok {s : CipherSuite} {identity : IdentityMaterial} {eph : Ephemeral}
    {state : InitiatorState} {hello : Bytes} :
    s.beginInitiator P identity eph = .ok (state, hello) ↔ state.suite = s ∧
      clientHello P (s.kem P) s.id identity eph = .ok (state.inner, hello) := by
  simp only [CipherSuite.beginInitiator, except_bind_eq_ok, pure, Except.pure, Except.ok.injEq,
    Prod.mk.injEq, Prod.exists]
  constructor
  · rintro ⟨inner, body, h, rfl, rfl⟩
    exact ⟨rfl, h⟩
  · rintro ⟨rfl, h⟩
    exact ⟨_, _, h, rfl, rfl⟩

theorem suiteRespond_eq_ok {s : CipherSuite} {identity : IdentityMaterial} {body : Bytes}
    {eph : Ephemeral} {keys : SessionKeys} {hello : Bytes} :
    s.respond P identity body eph = .ok (keys, hello) ↔
      ∃ client server mlSs, body = HelloBody.bytes client ∧ hello = HelloBody.bytes server ∧
        Responded P (s.kem P) s.id identity eph client keys server mlSs := by
  rw [CipherSuite.respond, ← s.kem_ekSize P]
  exact respond_eq_ok

theorem suiteRespond_length {s : CipherSuite} {identity : IdentityMaterial} {body : Bytes}
    {eph : Ephemeral} {keys : SessionKeys} {hello : Bytes}
    (h : s.respond P identity body eph = .ok (keys, hello)) :
    hello.length = x25519Len + s.ctLen + identityPublicLen + identitySignatureLen := by
  obtain ⟨-, server, -, -, rfl, -⟩ := suiteRespond_eq_ok.mp h
  rw [server.bytes_length, s.kem_ctSize P]

theorem suiteFinish_eq_ok {state : InitiatorState} {identity : IdentityMaterial} {body : Bytes}
    {keys : SessionKeys} : state.finish P identity body = .ok keys ↔
      ∃ server mlSs, body = HelloBody.bytes server ∧
        Completed P (state.suite.kem P) state.inner identity server keys mlSs := by
  rw [InitiatorState.finish, ← state.suite.kem_ctSize P]
  exact finish_eq_ok

/-! ### PSK fallback -/

/-- The keys a fallback initiator derives. -/
def fallbackKeys (P : Primitives) (psk clientNonce serverNonce : Bytes) : SessionKeys :=
  scheduledKeys P psk 0xFF (P.sha256 (fallbackTranscript clientNonce serverNonce))

theorem deriveFallback_eq (psk clientNonce serverNonce : Bytes) (isInitiator : Bool) :
    deriveFallback P psk clientNonce serverNonce isInitiator =
      .ok (if isInitiator then fallbackKeys P psk clientNonce serverNonce
        else (fallbackKeys P psk clientNonce serverNonce).mirror) :=
  derive_eq _ _ _ _

theorem fallbackRespond_eq_ok {psk : ByteArr 32} {hello : Bytes} {nonce : ByteArr 16}
    {keys : SessionKeys} {reply : Bytes} :
    fallbackRespond P psk hello nonce = .ok (keys, reply) ↔ hello.length = fallbackNonceLen ∧
      ∃ ct,
        (fallbackKeys P psk.val hello nonce.val).mirror.seal P fallbackConfirm = .ok (keys, ct) ∧
        reply = nonce.val ++ ct := by
  simp only [fallbackRespond, deriveFallback_eq, if_false, Bool.false_eq_true]
  by_cases hlen : hello.length = fallbackNonceLen
  · cases hseal : (fallbackKeys P psk.val hello nonce.val).mirror.seal P fallbackConfirm with
    | error e => simp [hlen]
    | ok r =>
      obtain ⟨keys', ct⟩ := r
      simp only [hlen, ne_eq, not_true_eq_false, if_false, Except.ok.injEq, Prod.mk.injEq, true_and]
      constructor
      · rintro ⟨rfl, rfl⟩
        exact ⟨ct, ⟨rfl, rfl⟩, rfl⟩
      · rintro ⟨_, ⟨rfl, rfl⟩, rfl⟩
        exact ⟨rfl, rfl⟩
  · simp [hlen]

theorem fallbackRespond_length {psk : ByteArr 32} {hello : Bytes} {nonce : ByteArr 16}
    {keys : SessionKeys} {reply : Bytes}
    (h : fallbackRespond P psk hello nonce = .ok (keys, reply)) :
    reply.length = fallbackNonceLen + (fallbackConfirm.length + 16) := by
  obtain ⟨-, ct, hseal, rfl⟩ := fallbackRespond_eq_ok.mp h
  rw [List.length_append, SessionKeys.seal_length hseal, nonce.2]
  rfl

theorem fallbackFinish_eq_ok {st : FallbackInitiator} {finished : Bytes} {keys : SessionKeys} :
    st.finish P finished = .ok keys ↔ fallbackNonceLen < finished.length ∧
      (fallbackKeys P st.psk.val st.clientNonce.val (finished.take fallbackNonceLen)).open P
        (finished.drop fallbackNonceLen) = .ok (keys, fallbackConfirm) := by
  simp only [FallbackInitiator.finish, deriveFallback_eq, if_true]
  by_cases hlen : finished.length ≤ fallbackNonceLen
  · simp [hlen]
  · simp only [hlen, if_false]
    cases hopen : (fallbackKeys P st.psk.val st.clientNonce.val
        (finished.take fallbackNonceLen)).open P (finished.drop fallbackNonceLen) with
    | error e => simp
    | ok r =>
      obtain ⟨keys', opened⟩ := r
      by_cases ho : opened = fallbackConfirm
      · simp only [ho, ne_eq, not_true_eq_false, if_false, Except.ok.injEq, Prod.mk.injEq, and_true]
        exact ⟨fun h => ⟨by omega, h⟩, fun h => h.2⟩
      · simp [ho]

end SyntriassOverlay.Crypto
