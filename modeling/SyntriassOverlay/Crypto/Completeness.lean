import SyntriassOverlay.Crypto.Specimen

/-!
# Completeness of the handshakes and key synchrony

With correct primitives two parties that trust each other complete the handshake
they start, in both suites and in the fallback, and end up with the same keys in
opposite roles. From then on the two counters of a direction differ by the records
that are under way.
-/

namespace SyntriassOverlay.Crypto

/-! ### Assumptions on the primitives -/

/-- Encapsulation to a generated key succeeds and decapsulation inverts it. -/
def KemCorrect (K : KemCore) : Prop :=
  ∀ coins coins', ∃ ct ss, K.encapsulate (K.generate coins).2 coins' = some (ct, ss) ∧
    K.decapsulate (K.generate coins).1 ct = some ss

structure CorrectPrimitives (P : Primitives) : Prop where
  dh_comm : ∀ x y, P.diffieHellman x (P.x25519Public y) = P.diffieHellman y (P.x25519Public x)
  mlKem768 : KemCorrect P.mlKem768
  mlKem1024 : KemCorrect P.mlKem1024
  ed25519 : ∀ sk msg, ∃ sig, P.ed25519Sign sk msg = some sig ∧
    P.ed25519VerifyStrict (P.ed25519Public sk) msg sig = true
  mldsa65 : ∀ sk msg, ∃ sig, P.mldsa65Sign sk msg = some sig ∧
    P.mldsa65Verify (P.mldsa65Public sk) msg sig = true
  gcm : ∀ key nonce msg, P.gcmDecrypt key nonce (P.gcmEncrypt key nonce msg) = some msg

/-- The pinned keys of `m` are the public keys of `m'`. -/
structure Trusts (P : Primitives) (m m' : IdentityMaterial) : Prop where
  ed25519 : m.peerEd25519Public = m'.ownEd25519Public P
  mldsa65 : m.peerMldsa65Public = m'.ownMldsa65Public P

section
variable {P : Primitives}

theorem CorrectPrimitives.kem (hP : CorrectPrimitives P) (s : CipherSuite) :
    KemCorrect (s.kem P) := by
  cases s with
  | nistStandard768 => exact hP.mlKem768
  | nistStandard1024 => exact hP.mlKem1024

theorem CorrectPrimitives.signs (hP : CorrectPrimitives P) {m m' : IdentityMaterial}
    (h : Trusts P m m') (msg : Bytes) :
    ∃ sigs, m'.sign P msg = .ok sigs ∧ SignedByPeer P m msg sigs := by
  obtain ⟨ed, hed, hedv⟩ := hP.ed25519 m'.ownEd25519 msg
  obtain ⟨ml, hml, hmlv⟩ := hP.mldsa65 m'.ownMldsa65 msg
  refine ⟨⟨ed, ml⟩, sign_eq_ok.mpr ⟨hed, hml⟩, ?_, ?_⟩
  · rw [h.ed25519]
    exact hedv
  · rw [h.mldsa65]
    exact hmlv

/-! ### The two handshakes -/

/-- An initiator that trusts anybody at all gets its hello. The signatures are made
with its own keys, so any party that trusts it will do to verify them. -/
theorem beginInitiator_succeeds (hP : CorrectPrimitives P) (s : CipherSuite)
    {a b : IdentityMaterial} (hba : Trusts P b a) (eph : Ephemeral) :
    ∃ state sigs, let hello := offeredHello P (s.kem P) a eph sigs
      s.beginInitiator P a eph = .ok (state, hello.bytes) ∧ state.suite = s ∧
      state.inner = ⟨s.id, eph.xSecret, ((s.kem P).generate eph.kemCoins).1, hello.bytes⟩ ∧
      SignedByPeer P b (clientAuthMessage s.id hello.unsigned) sigs := by
  obtain ⟨sigs, hsign, hverify⟩ := hP.signs hba (clientAuthMessage s.id
    (unsignedHello P a (P.x25519Public eph.xSecret) ((s.kem P).generate eph.kemCoins).2.val))
  refine ⟨⟨s, _⟩, sigs, ?_, rfl, rfl, hverify⟩
  exact beginInitiator_eq_ok.mpr ⟨rfl, clientHello_eq_ok.mpr ⟨sigs, hsign, rfl, rfl⟩⟩

/-- The hybrid handshake, from the initiator's draw to the keys of both sides. -/
theorem hybrid_complete (hP : CorrectPrimitives P) (s : CipherSuite) {a b : IdentityMaterial}
    (hab : Trusts P a b) (hba : Trusts P b a) (eph eph' : Ephemeral) :
    ∃ state hello keys reply, s.beginInitiator P a eph = .ok (state, hello) ∧
      s.respond P b hello eph' = .ok (keys, reply) ∧ state.finish P a reply = .ok keys.mirror ∧
      keys.tx.counter = 0 ∧ keys.rx.counter = 0 := by
  obtain ⟨state, csigs, hbegin, hsuite, hinner, hverify⟩ := beginInitiator_succeeds hP s hba eph
  obtain ⟨ct, ss, henc, hdec⟩ := hP.kem s eph.kemCoins eph'.kemCoins
  set client := offeredHello P (s.kem P) a eph csigs with hclient
  obtain ⟨ssigs, hsign, hverify'⟩ := hP.signs hab (serverAuthMessage s.id client.bytes
    (unsignedHello P b (P.x25519Public eph'.xSecret) ct.val))
  set server := ownHello P b (P.x25519Public eph'.xSecret) ct ssigs with hserver
  set keys := scheduledKeys P ((P.diffieHellman eph'.xSecret client.xPublic).val ++ ss) s.id
    (transcriptHash P s.id client.bytes server.bytes) with hkeys
  refine ⟨state, client.bytes, keys.mirror, server.bytes, hbegin,
    suiteRespond_eq_ok.mpr ⟨client, server, ss, rfl, rfl, ?_⟩, ?_, rfl, rfl⟩
  · exact ⟨hba.ed25519.symm, hba.mldsa65.symm, hverify, henc, rfl, hsign, rfl⟩
  · obtain ⟨suite, inner⟩ := state
    obtain rfl : suite = s := hsuite
    obtain rfl := hinner
    refine suiteFinish_eq_ok.mpr ⟨server, ss, rfl, hab.ed25519.symm, hab.mldsa65.symm, hverify',
      hdec, ?_⟩
    rw [SessionKeys.mirror_mirror]
    exact congrArg (fun dh : ByteArr 32 => scheduledKeys P (dh.val ++ ss) suite.id
      (transcriptHash P suite.id client.bytes server.bytes)) (hP.dh_comm eph'.xSecret eph.xSecret)

/-- The fallback: the confirmation moves the server-to-client counter of both
sides by one. -/
theorem fallback_complete (hP : CorrectPrimitives P) (psk : ByteArr 32)
    (nonce nonce' : ByteArr 16) :
    ∃ keys reply,
      fallbackRespond P psk (FallbackInitiator.begin psk nonce).2 nonce' = .ok (keys, reply) ∧
      (FallbackInitiator.begin psk nonce).1.finish P reply = .ok keys.mirror ∧
      keys.rx.counter = 0 ∧ keys.tx.counter = 1 := by
  set k := fallbackKeys P psk.val nonce.val nonce'.val with hk
  have hlen : fallbackConfirm.length ≤ gcmPlainMax := by decide +kernel
  have hseal : k.mirror.seal P fallbackConfirm = .ok (⟨k.rx.advance, k.tx⟩,
      P.gcmEncrypt k.rx.key (nonceFromCounter 0) fallbackConfirm) :=
    SessionKeys.seal_eq_ok.mpr ⟨(by decide : (0 : UInt64) ≠ u64Max), hlen, rfl, rfl⟩
  refine ⟨_, _, fallbackRespond_eq_ok.mpr ⟨nonce.2, _, hseal, rfl⟩, ?_, rfl, rfl⟩
  have htake : ∀ c : Bytes, (nonce'.val ++ c).take fallbackNonceLen = nonce'.val :=
    fun c => List.take_left' nonce'.2
  have hdrop : ∀ c : Bytes, (nonce'.val ++ c).drop fallbackNonceLen = c :=
    fun c => List.drop_left' nonce'.2
  refine fallbackFinish_eq_ok.mpr ⟨?_, ?_⟩
  · rw [List.length_append, P.gcmEncrypt_length, nonce'.2, fallbackNonceLen]
    omega
  · rw [htake, hdrop]
    exact SessionKeys.open_eq_ok.mpr ⟨(by decide : (0 : UInt64) ≠ u64Max), rfl, hP.gcm _ _ _⟩

end

/-! ### Records in both directions -/

/-- Two sets of keys and the sealed records under way between them. -/
structure Exchange where
  left : SessionKeys
  right : SessionKeys
  toRight : List Bytes
  toLeft : List Bytes

/-- Either side seals a record or opens the next one that is under way to it. -/
inductive Exchange.Step (P : Primitives) (x : Exchange) : Exchange → Prop
  | sealLeft {pt ct : Bytes} {k : SessionKeys} (h : x.left.seal P pt = .ok (k, ct)) :
      Step P x { x with left := k, toRight := x.toRight ++ [ct] }
  | sealRight {pt ct : Bytes} {k : SessionKeys} (h : x.right.seal P pt = .ok (k, ct)) :
      Step P x { x with right := k, toLeft := x.toLeft ++ [ct] }
  | openLeft {pt ct : Bytes} {cts : List Bytes} {k : SessionKeys} (hcts : x.toLeft = ct :: cts)
      (h : x.left.open P ct = .ok (k, pt)) : Step P x { x with left := k, toLeft := cts }
  | openRight {pt ct : Bytes} {cts : List Bytes} {k : SessionKeys} (hcts : x.toRight = ct :: cts)
      (h : x.right.open P ct = .ok (k, pt)) : Step P x { x with right := k, toRight := cts }

inductive Exchange.Reachable (P : Primitives) (x₀ : Exchange) : Exchange → Prop
  | start : Reachable P x₀ x₀
  | step {x y : Exchange} : Reachable P x₀ x → Exchange.Step P x y → Reachable P x₀ y

/-- The ciphertext is what the direction makes of some plaintext. -/
def SealedBy (P : Primitives) (d : Direction) (ct : Bytes) : Prop :=
  ∃ pt, d.seal P pt = .ok (d.advance, ct)

/-- The records under way lead from the receiver's counter to the sender's. -/
structure Exchange.Synced (P : Primitives) (x : Exchange) : Prop where
  right : x.right.rx.Run (SealedBy P) x.toRight x.left.tx
  left : x.left.rx.Run (SealedBy P) x.toLeft x.right.tx

section
variable {P : Primitives} {x y : Exchange}

theorem run_seal {d d' : Direction} {cts : List Bytes} (h : d.Run (SealedBy P) cts d')
    {k k' : SessionKeys} (hk : k.tx = d') {pt ct : Bytes} (hs : k.seal P pt = .ok (k', ct)) :
    d.Run (SealedBy P) (cts ++ [ct]) k'.tx ∧ k'.rx = k.rx := by
  obtain ⟨hc, hlen, rfl, hct⟩ := SessionKeys.seal_eq_ok.mp hs
  subst hk
  exact ⟨h.snoc hc ⟨pt, Direction.seal_eq_ok.mpr ⟨hc, hlen, rfl, hct⟩⟩, rfl⟩

theorem run_open {d' : Direction} {ct : Bytes} {cts : List Bytes} {k k' : SessionKeys}
    (h : k.rx.Run (SealedBy P) (ct :: cts) d') {pt : Bytes} (ho : k.open P ct = .ok (k', pt)) :
    k'.rx.Run (SealedBy P) cts d' ∧ k'.tx = k.tx := by
  obtain ⟨-, rfl, -⟩ := SessionKeys.open_eq_ok.mp ho
  exact ⟨h.uncons.2.2, rfl⟩

theorem Exchange.Synced.step (h : x.Synced P) (hs : Exchange.Step P x y) : y.Synced P := by
  cases hs with
  | sealLeft hs =>
    obtain ⟨hrun, hrx⟩ := run_seal h.right rfl hs
    exact ⟨hrun, hrx ▸ h.left⟩
  | sealRight hs =>
    obtain ⟨hrun, hrx⟩ := run_seal h.left rfl hs
    exact ⟨hrx ▸ h.right, hrun⟩
  | openLeft hcts ho =>
    obtain ⟨hrun, htx⟩ := run_open (hcts ▸ h.left) ho
    exact ⟨htx ▸ h.right, hrun⟩
  | openRight hcts ho =>
    obtain ⟨hrun, htx⟩ := run_open (hcts ▸ h.right) ho
    exact ⟨hrun, htx ▸ h.left⟩

theorem Exchange.Reachable.synced {k : SessionKeys}
    (h : Exchange.Reachable P ⟨k.mirror, k, [], []⟩ x) : x.Synced P := by
  induction h with
  | start => exact ⟨.nil, .nil⟩
  | step _ hs ih => exact ih.step hs

theorem run_opens (hP : CorrectPrimitives P) {d' : Direction} {ct : Bytes} {cts : List Bytes}
    {k : SessionKeys} (h : k.rx.Run (SealedBy P) (ct :: cts) d') :
    ∃ k' pt, k.open P ct = .ok (k', pt) := by
  obtain ⟨hc, ⟨pt, hseal⟩, -⟩ := h.uncons
  obtain ⟨-, -, -, rfl⟩ := Direction.seal_eq_ok.mp hseal
  exact ⟨_, pt, SessionKeys.open_eq_ok.mpr ⟨hc, rfl, hP.gcm _ _ _⟩⟩

theorem ktlsSecret_congr {d d' : Direction} (h : d.key = d'.key) :
    d.ktlsSecret P = d'.ktlsSecret P := by
  rw [Direction.ktlsSecret, Direction.ktlsSecret, h]

/-- Between synchronised keys nothing drifts: what one side transmits with is what
the other receives with, and the next record under way opens. -/
structure Exchange.Agrees (P : Primitives) (x : Exchange) : Prop where
  toRight : (x.left.exportKtls P).tx = (x.right.exportKtls P).rx
  toLeft : (x.right.exportKtls P).tx = (x.left.exportKtls P).rx
  opensRight : ∀ ct cts, x.toRight = ct :: cts → ∃ k pt, x.right.open P ct = .ok (k, pt)
  opensLeft : ∀ ct cts, x.toLeft = ct :: cts → ∃ k pt, x.left.open P ct = .ok (k, pt)

theorem Exchange.Synced.agrees (hP : CorrectPrimitives P) (h : x.Synced P) : x.Agrees P where
  toRight := ktlsSecret_congr h.right.key_eq
  toLeft := ktlsSecret_congr h.left.key_eq
  opensRight := fun _ _ hcts => run_opens hP (hcts ▸ h.right)
  opensLeft := fun _ _ hcts => run_opens hP (hcts ▸ h.left)

end

/-- Both handshakes complete between parties that trust each other, the keys of the
two sides mirror each other with the counters in step, and the exported kTLS
material of a direction agrees after any exchange of records. -/
theorem handshake_complete (P : Primitives) (hP : CorrectPrimitives P) :
    (∀ (s : CipherSuite) (a b : IdentityMaterial) (eph eph' : Ephemeral),
      Trusts P a b → Trusts P b a →
      ∃ state hello keys reply, s.beginInitiator P a eph = .ok (state, hello) ∧
        s.respond P b hello eph' = .ok (keys, reply) ∧
        state.finish P a reply = .ok keys.mirror ∧
        keys.tx.counter = 0 ∧ keys.rx.counter = 0 ∧
        ∀ x, Exchange.Reachable P ⟨keys.mirror, keys, [], []⟩ x → x.Agrees P) ∧
    ∀ (psk : ByteArr 32) (nonce nonce' : ByteArr 16), ∃ keys reply,
      fallbackRespond P psk (FallbackInitiator.begin psk nonce).2 nonce' = .ok (keys, reply) ∧
      (FallbackInitiator.begin psk nonce).1.finish P reply = .ok keys.mirror ∧
      keys.rx.counter = 0 ∧ keys.tx.counter = 1 ∧
      ∀ x, Exchange.Reachable P ⟨keys.mirror, keys, [], []⟩ x → x.Agrees P := by
  constructor
  · intro s a b eph eph' hab hba
    obtain ⟨state, hello, keys, reply, hbegin, hrespond, hfinish, htx, hrx⟩ :=
      hybrid_complete hP s hab hba eph eph'
    exact ⟨state, hello, keys, reply, hbegin, hrespond, hfinish, htx, hrx,
      fun x hx => hx.synced.agrees hP⟩
  · intro psk nonce nonce'
    obtain ⟨keys, reply, hrespond, hfinish, hrx, htx⟩ := fallback_complete hP psk nonce nonce'
    exact ⟨keys, reply, hrespond, hfinish, hrx, htx, fun x hx => hx.synced.agrees hP⟩

/-! ### The specimen is correct -/

theorem specimenKem_correct {ekSize ctSize : ℕ} (h : 32 ≤ ctSize) :
    KemCorrect (specimenKem ekSize ctSize) := by
  intro coins coins'
  refine ⟨_, _, rfl, ?_⟩
  change some (pad 32 (pad ctSize coins').val).val = some (pad 32 coins').val
  rw [pad_pad h]

theorem specimen_correct : CorrectPrimitives specimen where
  dh_comm x y := Subtype.ext (List.zipWith_comm_of_comm UInt8.add_comm)
  mlKem768 := specimenKem_correct (by decide)
  mlKem1024 := specimenKem_correct (by decide)
  ed25519 sk msg := ⟨_, rfl, decide_eq_true rfl⟩
  mldsa65 sk msg := ⟨_, rfl, decide_eq_true rfl⟩
  gcm _ _ _ := specimenDecrypt_eq_some.mpr rfl

theorem specimenIdentity_trusts : Trusts specimen specimenIdentity specimenIdentity := ⟨rfl, rfl⟩

theorem handshake_complete_specimen : CorrectPrimitives specimen ∧
    (∃ state hello keys reply,
      CipherSuite.nistStandard768.beginInitiator specimen specimenIdentity ⟨ramp 32, []⟩ =
        .ok (state, hello) ∧
      CipherSuite.nistStandard768.respond specimen specimenIdentity hello ⟨pad 32 [], [1]⟩ =
        .ok (keys, reply) ∧
      state.finish specimen specimenIdentity reply = .ok keys.mirror) ∧
    ∃ keys reply,
      fallbackRespond specimen (ramp 32) (FallbackInitiator.begin (ramp 32) (ramp 16)).2
        (pad 16 []) = .ok (keys, reply) ∧ keys.tx.counter = 1 := by
  refine ⟨specimen_correct, ?_, ?_⟩
  · obtain ⟨state, hello, keys, reply, hbegin, hrespond, hfinish, -⟩ :=
      (handshake_complete specimen specimen_correct).1 .nistStandard768 specimenIdentity
        specimenIdentity ⟨ramp 32, []⟩ ⟨pad 32 [], [1]⟩ specimenIdentity_trusts
        specimenIdentity_trusts
    exact ⟨state, hello, keys, reply, hbegin, hrespond, hfinish⟩
  · obtain ⟨keys, reply, hrespond, -, -, htx, -⟩ :=
      (handshake_complete specimen specimen_correct).2 (ramp 32) (ramp 16) (pad 16 [])
    exact ⟨keys, reply, hrespond, htx⟩

end SyntriassOverlay.Crypto
