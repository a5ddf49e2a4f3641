import SyntriassOverlay.Connection
import SyntriassOverlay.Crypto.Transcript

/-!
# Authenticated agreement of the hybrid handshake

What a party that holds the pinned signing keys has signed is what its runs of the
engines have signed, in whichever suite, role and session. When nothing else
verifies under the pinned keys, an initiator that becomes active has an answer to
its own hello, made by such a run, and a responder has a hello made by one.
-/

namespace SyntriassOverlay
open Crypto Resumption

/-! ### Runs of the engines and what they sign -/

/-- A call of an engine that succeeded, with all it was given and returned. -/
inductive EngineRun where
  | began (suite : CipherSuite) (identity : IdentityMaterial) (eph : Ephemeral)
      (state : InitiatorState) (hello : Bytes)
  | responded (suite : CipherSuite) (identity : IdentityMaterial) (hello : Bytes)
      (eph : Ephemeral) (keys : SessionKeys) (reply : Bytes)

namespace EngineRun

def identity : EngineRun → IdentityMaterial
  | .began _ identity _ _ _ => identity
  | .responded _ identity _ _ _ _ => identity

def Ran (P : Primitives) : EngineRun → Prop
  | .began suite identity eph state hello =>
    suite.beginInitiator P identity eph = .ok (state, hello)
  | .responded suite identity hello eph keys reply =>
    suite.respond P identity hello eph = .ok (keys, reply)

/-- The run puts `sigs` under `message`. -/
inductive Signs : EngineRun → Bytes → IdentitySignatures → Prop
  | began {suite : CipherSuite} {identity : IdentityMaterial} {eph : Ephemeral}
      {state : InitiatorState} {unsigned : Bytes} {sigs : IdentitySignatures} :
      Signs (.began suite identity eph state (signedBody unsigned sigs))
        (clientAuthMessage suite.id unsigned) sigs
  | responded {suite : CipherSuite} {identity : IdentityMaterial} {hello : Bytes}
      {eph : Ephemeral} {keys : SessionKeys} {unsigned : Bytes} {sigs : IdentitySignatures} :
      Signs (.responded suite identity hello eph keys (signedBody unsigned sigs))
        (serverAuthMessage suite.id hello unsigned) sigs

end EngineRun

/-- No forgery among the `frames` that reached a party with this `identity`: its
pinned keys are those of `peer`, and a signature in a frame that verifies under one
of them was made by one of the `runs` of the holders of these keys, on the very
message it is checked against. -/
structure Unforgeable (P : Primitives) (identity peer : IdentityMaterial) (runs : Set EngineRun)
    (frames : List ParsedFrame) : Prop where
  pinned : Trusts P identity peer
  ran : ∀ r ∈ runs, r.Ran P
  held : ∀ r ∈ runs, r.identity.ownEd25519 = peer.ownEd25519 ∧
    r.identity.ownMldsa65 = peer.ownMldsa65
  ed25519 : ∀ f ∈ frames, ∀ unsigned sigs, f.payload = signedBody unsigned sigs →
    ∀ message, P.ed25519VerifyStrict identity.peerEd25519Public message sigs.ed25519 = true →
    ∃ r ∈ runs, ∃ sigs', r.Signs message sigs' ∧ sigs'.ed25519 = sigs.ed25519
  mldsa65 : ∀ f ∈ frames, ∀ unsigned sigs, f.payload = signedBody unsigned sigs →
    ∀ message, P.mldsa65Verify identity.peerMldsa65Public message sigs.mldsa65 = true →
    ∃ r ∈ runs, ∃ sigs', r.Signs message sigs' ∧ sigs'.mldsa65 = sigs.mldsa65

section
variable {P : Primitives}

theorem signedBody_inj {u u' : Bytes} {s s' : IdentitySignatures}
    (h : signedBody u s = signedBody u' s') : u = u' ∧ s = s' := by
  obtain ⟨ed, ml⟩ := s
  obtain ⟨ed', ml'⟩ := s'
  simp only [signedBody] at h
  obtain ⟨h, hml⟩ := List.append_inj' h (by rw [ml.2, ml'.2])
  obtain ⟨hu, hed⟩ := List.append_inj' h (by rw [ed.2, ed'.2])
  obtain rfl : ed = ed' := Subtype.ext hed
  obtain rfl : ml = ml' := Subtype.ext hml
  exact ⟨hu, rfl⟩

theorem EngineRun.Ran.sign {r : EngineRun} (hr : r.Ran P) {message : Bytes}
    {sigs : IdentitySignatures} (hs : r.Signs message sigs) :
    r.identity.sign P message = .ok sigs := by
  cases hs with
  | began =>
    obtain ⟨-, hhello⟩ := beginInitiator_eq_ok.mp hr
    obtain ⟨sigs', hsign, hbody, -⟩ := clientHello_eq_ok.mp hhello
    obtain ⟨rfl, rfl⟩ := signedBody_inj hbody
    exact hsign
  | responded =>
    obtain ⟨client, server, mlSs, rfl, hreply, hresp⟩ := suiteRespond_eq_ok.mp hr
    obtain ⟨rfl, rfl⟩ := signedBody_inj hreply
    exact hresp.sign

theorem Unforgeable.signed {identity peer : IdentityMaterial} {runs : Set EngineRun}
    {frames : List ParsedFrame} (h : Unforgeable P identity peer runs frames) {f : ParsedFrame}
    (hf : f ∈ frames) {unsigned message : Bytes} {sigs : IdentitySignatures}
    (hbody : f.payload = signedBody unsigned sigs)
    (hsigned : SignedByPeer P identity message sigs) : ∃ r ∈ runs, r.Signs message sigs := by
  obtain ⟨r, hr, s, hs, hed⟩ := h.ed25519 f hf unsigned sigs hbody message hsigned.1
  obtain ⟨r', hr', s', hs', hml⟩ := h.mldsa65 f hf unsigned sigs hbody message hsigned.2
  obtain ⟨-, hsign⟩ := sign_eq_ok.mp ((h.ran r hr).sign hs)
  obtain ⟨-, hsign'⟩ := sign_eq_ok.mp ((h.ran r' hr').sign hs')
  -- signing is a function of the key and the message
  rw [(h.held r hr).2, ← (h.held r' hr').2, hsign', hml, Option.some.injEq] at hsign
  obtain rfl : s = sigs := by
    obtain ⟨ed, ml⟩ := s
    simp only at hed hsign
    rw [hed, ← hsign]
  exact ⟨r, hr, hs⟩

/-! ### Which run made a signed message -/

theorem clientAuthMessage_ne_serverAuthMessage (s s' : UInt8) (u h u' : Bytes) :
    clientAuthMessage s u ≠ serverAuthMessage s' h u' := by
  intro heq
  have hlen : clientAuthLabel.length = serverAuthLabel.length := by decide +kernel
  simp only [clientAuthMessage, serverAuthMessage, List.append_assoc] at heq
  have hlabel := (List.append_inj heq hlen).1
  exact absurd hlabel (by decide +kernel)

theorem EngineRun.Signs.client {r : EngineRun} {suite : CipherSuite} {unsigned : Bytes}
    {sigs : IdentitySignatures} (h : r.Signs (clientAuthMessage suite.id unsigned) sigs) :
    ∃ identity eph state, r = .began suite identity eph state (signedBody unsigned sigs) := by
  generalize hm : clientAuthMessage suite.id unsigned = message at h
  cases h with
  | began =>
    obtain ⟨hid, rfl⟩ := clientAuthMessage_inj hm
    obtain rfl := CipherSuite.id_injective hid
    exact ⟨_, _, _, rfl⟩
  | responded => exact absurd hm (clientAuthMessage_ne_serverAuthMessage _ _ _ _ _)

theorem EngineRun.Signs.server {r : EngineRun} (hr : r.Ran P) {suite : CipherSuite}
    {client : HelloBody (suite.kem P).ekSize} {unsigned : Bytes} {sigs : IdentitySignatures}
    (h : r.Signs (serverAuthMessage suite.id client.bytes unsigned) sigs) :
    ∃ identity eph keys,
      r = .responded suite identity client.bytes eph keys (signedBody unsigned sigs) := by
  generalize hm : serverAuthMessage suite.id client.bytes unsigned = message at h
  cases h with
  | began => exact absurd hm.symm (clientAuthMessage_ne_serverAuthMessage _ _ _ _ _)
  | responded =>
    obtain ⟨client', _, _, rfl, -⟩ := suiteRespond_eq_ok.mp hr
    have hlen : ∀ {s s' : CipherSuite} (b : HelloBody (s.kem P).ekSize)
        (b' : HelloBody (s'.kem P).ekSize), s.id = s'.id → b.bytes.length = b'.bytes.length := by
      intro s s' b b' hid
      obtain rfl := CipherSuite.id_injective hid
      rw [b.bytes_length, b'.bytes_length]
    obtain ⟨hid, hhello, rfl⟩ := serverAuthMessage_inj hm (hlen client client')
    obtain rfl := CipherSuite.id_injective hid
    rw [hhello]
    exact ⟨_, _, _, rfl⟩

/-! ### Both sides of an agreed handshake -/

/-- Diffie-Hellman commutes and decapsulation inverts encapsulation. -/
structure ExchangeCorrect (P : Primitives) : Prop where
  dh_comm : ∀ x y, P.diffieHellman x (P.x25519Public y) = P.diffieHellman y (P.x25519Public x)
  kem : ∀ s : CipherSuite, KemCorrect (s.kem P)

/-- The initiator that accepts a reply made for its own hello has the keys of the
party that made it, in the other role. -/
theorem ExchangeCorrect.mirrored (hP : ExchangeCorrect P) {suite : CipherSuite}
    {own identity peer : IdentityMaterial} {eph eph' : Ephemeral} {state : InitiatorState}
    {hello reply : Bytes} {keys keys' : SessionKeys}
    (hbegin : suite.beginInitiator P own eph = .ok (state, hello))
    (hrespond : suite.respond P peer hello eph' = .ok (keys', reply))
    (hfinish : state.finish P identity reply = .ok keys) : keys = keys'.mirror := by
  obtain ⟨hsuite, hclient⟩ := beginInitiator_eq_ok.mp hbegin
  obtain ⟨sigs, -, hhello, hinner⟩ := clientHello_eq_ok.mp hclient
  obtain ⟨suite', inner⟩ := state
  obtain rfl : suite' = suite := hsuite
  obtain rfl := hinner
  obtain ⟨client, server, ss, rfl, rfl, hresp⟩ := suiteRespond_eq_ok.mp hrespond
  obtain rfl := HelloBody.bytes_inj hhello
  obtain ⟨server', ss', hreply, hdone⟩ := suiteFinish_eq_ok.mp hfinish
  obtain rfl := HelloBody.bytes_inj hreply
  obtain ⟨ct, k, henc, hdec⟩ := hP.kem suite' eph.kemCoins eph'.kemCoins
  have hboth : (ct, k) = (server.kem, ss) := Option.some.inj (henc.symm.trans hresp.encapsulated)
  obtain ⟨rfl, rfl⟩ := Prod.mk.inj hboth
  obtain rfl : k = ss' := Option.some.inj (hdec.symm.trans hdone.decapsulated)
  have hx : server.xPublic = P.x25519Public eph'.xSecret := congrArg HelloBody.xPublic hresp.own
  rw [hdone.keys, hresp.keys, SessionKeys.mirror_mirror, hx]
  exact congrArg (fun dh : ByteArr 32 => scheduledKeys P (dh.val ++ k) suite'.id _)
    (hP.dh_comm eph.xSecret eph'.xSecret)

end

/-! ### Sessions -/

/-- What a session `st` with trace `t` has agreed on with the holders of the keys it
pins, whose engine calls are `runs`. -/
structure Agreed (P : Primitives) (runs : Set EngineRun) (st : FdState) (t : Tr) : Prop where
  /-- A pinned party answered exactly this hello with exactly this reply, in the same
  suite, and has the mirrored keys. -/
  initiator : ∀ state, st.phase = .initiatorAwaitingServerHello state → ∀ a ∈ activations t,
    ∃ identity peer hello eph keys reply, a.2 = .finish state identity reply ∧
      st.txBacklog = frameBytes st.policySuite.id typeClientHello hello ∧
      .responded st.policySuite peer hello eph keys reply ∈ runs ∧ Trusts P identity peer ∧
      a.1 = keys.mirror
  /-- A responder that is not asked for the fallback got the hello of a pinned party,
  made for the suite of its own policy. -/
  responder : st.phase = .responderAwaitingClientHello → ∀ a ∈ activations t,
    (∃ f ∈ pops t, f.tag = typeFallbackHello ∧
      ∃ psk nonce reply, a.2 = .fallbackRespond psk f.payload nonce reply) ∨
    ∃ identity hello eph reply, a.2 = .respond st.policySuite identity hello eph reply ∧
      ⟨st.policySuite.id, typeClientHello, hello⟩ ∈ pops t ∧
      ∃ peer eph' state, .began st.policySuite peer eph' state hello ∈ runs ∧
        Trusts P identity peer

section
variable {P : Primitives} {runs : Set EngineRun}

theorem Unforgeable.trusts {identity peer : IdentityMaterial} {frames : List ParsedFrame}
    (h : Unforgeable P identity peer runs frames) {r : EngineRun} (hr : r ∈ runs) :
    Trusts P identity r.identity := by
  obtain ⟨hed, hml⟩ := h.held r hr
  refine ⟨h.pinned.ed25519.trans ?_, h.pinned.mldsa65.trans ?_⟩
  · rw [IdentityMaterial.ownEd25519Public, IdentityMaterial.ownEd25519Public, hed]
  · rw [IdentityMaterial.ownMldsa65Public, IdentityMaterial.ownMldsa65Public, hml]

/-- The reply an initiator accepts was made for its hello. -/
theorem Unforgeable.answered (hP : ExchangeCorrect P) {identity peer own : IdentityMaterial}
    {frames : List ParsedFrame} (h : Unforgeable P identity peer runs frames)
    {suite : CipherSuite} {eph : Ephemeral} {state : InitiatorState} {hello : Bytes}
    (hbegin : suite.beginInitiator P own eph = .ok (state, hello)) {f : ParsedFrame}
    (hf : f ∈ frames) {keys : SessionKeys}
    (hfinish : state.finish P identity f.payload = .ok keys) :
    ∃ peer' eph' keys', .responded suite peer' hello eph' keys' f.payload ∈ runs ∧
      Trusts P identity peer' ∧ keys = keys'.mirror := by
  obtain ⟨hsuite, hclient⟩ := beginInitiator_eq_ok.mp hbegin
  obtain ⟨sigs, -, hhello, hinner⟩ := clientHello_eq_ok.mp hclient
  obtain ⟨server, ss, hbody, hdone⟩ := suiteFinish_eq_ok.mp hfinish
  have hsigned := hdone.signed
  rw [hinner, hhello] at hsigned
  obtain ⟨r, hr, hsigns⟩ := h.signed hf hbody hsigned
  obtain ⟨peer', eph', keys', rfl⟩ := hsigns.server (h.ran r hr)
  have hmem : .responded suite peer' hello eph' keys' f.payload ∈ runs := by
    rw [hhello, hbody]
    exact hr
  exact ⟨peer', eph', keys', hmem, h.trusts hmem, hP.mirrored hbegin (h.ran _ hmem) hfinish⟩

/-- The hello a responder accepts was made by a pinned party, in this suite. -/
theorem Unforgeable.offered {identity peer : IdentityMaterial} {frames : List ParsedFrame}
    (h : Unforgeable P identity peer runs frames) {suite : CipherSuite} {eph : Ephemeral}
    {f : ParsedFrame} (hf : f ∈ frames) {keys : SessionKeys} {reply : Bytes}
    (hrespond : suite.respond P identity f.payload eph = .ok (keys, reply)) :
    ∃ peer' eph' state, .began suite peer' eph' state f.payload ∈ runs ∧
      Trusts P identity peer' := by
  obtain ⟨client, server, ss, hbody, -, hresp⟩ := suiteRespond_eq_ok.mp hrespond
  obtain ⟨r, hr, hsigns⟩ := h.signed hf hbody hresp.signed
  obtain ⟨peer', eph', state, rfl⟩ := hsigns.client
  refine ⟨peer', eph', state, ?_, h.trusts hr⟩
  rw [hbody]
  exact hr

end

/-- Whatever bytes reach a session, in whatever calls. -/
theorem authenticated_agreement {P : Primitives} (hP : ExchangeCorrect P) {role : Role} {c : Tr}
    {st : FdState} (hst : Built P role c st) {log : List (FdCall × FdRet)} {t : Tr}
    {status : Status Resp FdCall FdState FdRet} (hrun : Reach (FdCall.run P) st log t status)
    {runs : Set EngineRun}
    (hunf : ∀ identity, (⟨.resolveIdentity, .ok identity⟩ : Ev Resp) ∈ t →
      ∃ peer, Unforgeable P identity peer runs (pops t)) :
    Agreed P runs st t ∧ ∀ s k, status = .idle s → s.phase = .active k →
      ∃ a, activations t = [a] ∧ k.tx.key = a.1.tx.key ∧ k.rx.key = a.1.rx.key := by
  obtain ⟨hfresh, hopen⟩ := hst.opening
  have hsound := hopen.sound hfresh
  have hbetween := run_between id (fun _ _ => trivial) hsound hfresh.settled hrun
  refine ⟨⟨?_, ?_⟩, ?_⟩
  · rintro state hphase ⟨keys, origin⟩ ha
    obtain ⟨-, s, f, pre, fr, hact, hin, hs, -⟩ := hbetween.activated ha
    obtain ⟨hf, hpre⟩ := mem_of_step hin
    cases hopen with
    | failed hp | responder hp | fallback hp => rw [hphase] at hp; cases hp
    | hybrid hp hbegin hframe =>
      rw [hphase] at hp
      cases hp
      rw [hphase] at hs
      cases hact with
      | respond hp | fallbackRespond _ hp | fallbackFinish hp => rw [hs] at hp; cases hp
      | @finish state' identity keys hp _ _ hfinish =>
        rw [hs] at hp
        cases hp
        obtain ⟨peer, hunf⟩ := hunf identity (hpre (by simp))
        obtain ⟨peer', eph', keys', hmem, htrust, hkeys⟩ := hunf.answered hP hbegin hf hfinish
        exact ⟨identity, peer', _, eph', keys', f.payload, rfl, (frame_eq_some.mp hframe).2, hmem,
          htrust, hkeys⟩
  · rintro hphase ⟨keys, origin⟩ ha
    obtain ⟨-, s, f, pre, fr, hact, hin, hs, hsuite⟩ := hbetween.activated ha
    obtain ⟨hf, hpre⟩ := mem_of_step hin
    rw [hphase] at hs
    cases hact with
    | finish hp | fallbackFinish hp => rw [hs] at hp; cases hp
    | fallbackRespond _ _ htag => exact .inl ⟨f, hf, htag, _, _, _, rfl⟩
    | @respond identity eph keys reply fr _ htag hfrom hrespond =>
      obtain ⟨peer, hunf⟩ := hunf identity (hpre (by simp))
      obtain ⟨peer', eph', state, hmem, htrust⟩ := hunf.offered hf hrespond
      rw [hsuite] at hmem
      refine .inr ⟨identity, f.payload, eph, reply, by rw [hsuite], ?_, peer', eph', state, hmem,
        htrust⟩
      have hid := CipherSuite.fromId_eq_some.mp hfrom
      rw [hsuite] at hid
      rw [← hid, ← htag]
      exact hf
  · intro s' k hidle hk
    subst hidle
    have hheld := run_held id (fun _ _ => trivial) hsound hfresh.settled hrun
    exact hheld.history.keyed hopen.inactive hk

/-! ### An initiator that is answered -/

/-- Process 7 with PQC control. -/
def healthy : Env where
  pid := 7
  epoch := 0
  suite := .nistStandard768
  identity := specimenIdentity
  available := true
  psk := none

/-- The bytes of a frame that one read takes in whole. -/
structure ParsedFrame.Whole (f : ParsedFrame) (b : Bytes) : Prop where
  pos : 0 < b.length
  take : b.take pullSize = b
  drop : b.drop pullSize = []
  pop : tryPopFrame b = .ok (some (f, []))
  append : ∀ s : FdState, s.rxWire = [] → s.appendRxWire b = some { s with rxWire := b }

theorem ParsedFrame.whole {f : ParsedFrame} (hlen : f.payload.length + 6 ≤ pullSize) :
    f.Whole f.bytes := by
  have hmax : pullSize + 2 ≤ maxFrameBody ∧ pullSize ≤ maxWireRxBuffer := by decide
  have hbytes : f.bytes.length = f.payload.length + 6 := frameBytes_length _ _ _
  have hpop := tryPopFrame_bytes (f := f) (by omega) []
  rw [List.append_nil] at hpop
  refine ⟨by omega, List.take_of_length_le (by omega), List.drop_eq_nil_of_le (by omega), hpop,
    fun s hs => ?_⟩
  refine FdState.appendRxWire_eq_some.mpr ⟨?_, by rw [hs]; rfl⟩
  rw [hs, List.length_nil]
  omega

section
variable {P : Primitives} {st : FdState} {state : InitiatorState} {reply : Bytes}
  {keys : SessionKeys}

theorem overlayRecv_serverHello (hphase : st.phase = .initiatorAwaitingServerHello state)
    (hpid : st.ownerPid = 7) (hepoch : st.configEpoch = 0)
    (hsuite : st.policySuite = .nistStandard768) (hcount : st.countedActive = false)
    (htx : st.txBacklog ≠ []) (hrx : st.rxWire = []) (hplain : st.rxPlain = [])
    (hlen : reply.length + 6 ≤ pullSize)
    (hfinish : state.finish P specimenIdentity reply = .ok keys) (eph : Ephemeral)
    (nonce : ByteArr 16) :
    ∃ u w, runWith (healthy.answer eph nonce) 60 ((FdCall.recv 1 Nat.one_pos 0 3).run P st)
        ([], frameBytes 1 typeServerHello reply) =
      (.done { st with phase := .active keys, txBacklog := [], countedActive := true }
        (.received (.error EAGAIN)), u, w) := by
  obtain ⟨hpos, htake, hdrop, hpop, happ⟩ :=
    ParsedFrame.whole (f := ⟨1, typeServerHello, reply⟩) hlen
  rw [ParsedFrame.bytes] at hpos htake hdrop hpop happ
  generalize frameBytes 1 typeServerHello reply = fr at hpos htake hdrop hpop happ ⊢
  have htxpos : 0 < st.txBacklog.length := List.length_pos_iff.mpr htx
  obtain ⟨phase, pid, suite, epoch, tx, rx, plain, counted⟩ := st
  simp only at hphase hpid hepoch hsuite hcount hrx hplain htx htxpos
  subst hphase hpid hepoch hsuite hcount hrx hplain
  have hnil : tryPopFrame [] = .ok none := rfl
  simp [FdCall.run, overlayRecv, inheritedAfterFork, failIfStaleIdleConfig, isBlocking, iter,
    recvRound, openOrPull, pullForRecv, pullWire, driveHandshake, onHandshakeFrame, onServerHello,
    activate, openRecords, flushBacklog, FdPhase.handshaking, runWith, Env.answer, healthy, note,
    htx, htxpos, hpos, htake, hdrop, happ, hpop, hnil, hfinish, CipherSuite.id, typeServerHello,
    oNonblock, wouldBlock]

theorem healthy_built {hello : Bytes} {eph : Ephemeral} (nonce : ByteArr 16)
    (hbegin : CipherSuite.nistStandard768.beginInitiator P specimenIdentity eph =
      .ok (state, hello)) (hlen : hello.length + 2 ≤ maxFrameBody) :
    healthy.built eph nonce (newInitiatorState P) = some
      { phase := .initiatorAwaitingServerHello state, ownerPid := 7,
        policySuite := .nistStandard768, configEpoch := 0,
        txBacklog := frameBytes 1 typeClientHello hello, rxWire := [], rxPlain := [],
        countedActive := false } := by
  have hframe : frame 1 typeClientHello hello = some (frameBytes 1 typeClientHello hello) :=
    frame_eq_some.mpr ⟨hlen, rfl⟩
  simp [Env.built, newInitiatorState, failedPolicySuite, localPosture, selectPosture,
    buildPqcInitiator, FdState.initiator, FdState.build, runWith, Env.answer, healthy, hbegin,
    CipherSuite.id, hframe]

end

/-- The signatures of the specimen identity. -/
def specimenSigs (message : Bytes) : IdentitySignatures :=
  ⟨pad 64 ((ramp 32).val ++ message), pad 3309 ((pad 1952 (ramp 32).val).val ++ message)⟩

/-- The hello of an initiator that draws `ramp 32` and no coins. -/
def specimenOffer : HelloBody 1184 :=
  ownHello specimen specimenIdentity (ramp 32) (pad 1184 []) <| specimenSigs <|
    clientAuthMessage 1 (unsignedHello specimen specimenIdentity (ramp 32) (pad 1184 []).val)

/-- The answer of a responder that draws zeros and the coin 1. -/
def specimenAnswer : HelloBody 1088 :=
  ownHello specimen specimenIdentity (pad 32 []) (pad 1088 [1]) <| specimenSigs <|
    serverAuthMessage 1 specimenOffer.bytes
      (unsignedHello specimen specimenIdentity (pad 32 []) (pad 1088 [1]).val)

/-- The message one of the two hellos is signed on. -/
def SpecimenSigned (message : Bytes) : Prop :=
  message = clientAuthMessage 1 specimenOffer.unsigned ∨
    message = serverAuthMessage 1 specimenOffer.bytes specimenAnswer.unsigned

instance (message : Bytes) : Decidable (SpecimenSigned message) :=
  inferInstanceAs (Decidable (_ ∨ _))

/-- The specimen with signatures that verify on these two messages only. -/
def specimenLogged : Primitives :=
  { specimen with
    ed25519VerifyStrict := fun key message sig =>
      decide (SpecimenSigned message ∧ sig = pad 64 (key.val ++ message))
    mldsa65Verify := fun key message sig =>
      decide (SpecimenSigned message ∧ sig = pad 3309 (key.val ++ message)) }

theorem specimenLogged_exchange : ExchangeCorrect specimenLogged where
  dh_comm := specimen_correct.dh_comm
  kem := specimen_correct.kem

def specimenState : InitiatorState := ⟨.nistStandard768, ⟨1, ramp 32, [], specimenOffer.bytes⟩⟩

def specimenKeys : SessionKeys :=
  scheduledKeys specimenLogged
    ((specimenLogged.diffieHellman (pad 32 []) (ramp 32)).val ++ (pad 32 [1]).val) 1
    (transcriptHash specimenLogged 1 specimenOffer.bytes specimenAnswer.bytes)

theorem specimenSigs_verify {message : Bytes} (h : SpecimenSigned message) :
    SignedByPeer specimenLogged specimenIdentity message (specimenSigs message) :=
  ⟨decide_eq_true ⟨h, rfl⟩, decide_eq_true ⟨h, rfl⟩⟩

theorem specimen_began : CipherSuite.nistStandard768.beginInitiator specimenLogged specimenIdentity
    ⟨ramp 32, []⟩ = .ok (specimenState, specimenOffer.bytes) :=
  beginInitiator_eq_ok.mpr ⟨rfl, clientHello_eq_ok.mpr ⟨specimenOffer.sigs, rfl, rfl, rfl⟩⟩

theorem specimen_responded : CipherSuite.nistStandard768.respond specimenLogged specimenIdentity
    specimenOffer.bytes ⟨pad 32 [], [1]⟩ = .ok (specimenKeys.mirror, specimenAnswer.bytes) := by
  refine suiteRespond_eq_ok.mpr ⟨specimenOffer, specimenAnswer, (pad 32 [1]).val,
    rfl, rfl, rfl, rfl, ?_, rfl, rfl, rfl, rfl⟩
  exact specimenSigs_verify (.inl rfl)

theorem specimen_finished :
    specimenState.finish specimenLogged specimenIdentity specimenAnswer.bytes =
      .ok specimenKeys := by
  refine suiteFinish_eq_ok.mpr ⟨specimenAnswer, (pad 32 [1]).val, rfl, rfl, rfl, ?_, ?_, ?_⟩
  · exact specimenSigs_verify (.inr rfl)
  · exact congrArg (fun b : ByteArr 32 => some b.val) (pad_pad (by decide) [1])
  · exact congrArg
      (fun dh : ByteArr 32 => scheduledKeys specimenLogged (dh.val ++ (pad 32 [1]).val) 1 _)
      (specimenLogged_exchange.dh_comm _ _)

/-- The runs of the holder of the specimen keys. -/
def specimenRuns : Set EngineRun :=
  {.began .nistStandard768 specimenIdentity ⟨ramp 32, []⟩ specimenState specimenOffer.bytes,
    .responded .nistStandard768 specimenIdentity specimenOffer.bytes ⟨pad 32 [], [1]⟩
      specimenKeys.mirror specimenAnswer.bytes}

/-- Of a signature that verifies, both the message and the signature are known. -/
theorem specimenRuns_signed {message : Bytes} (h : SpecimenSigned message) :
    ∃ r ∈ specimenRuns, r.Signs message (specimenSigs message) := by
  rcases h with rfl | rfl
  · exact ⟨_, .inl rfl, .began⟩
  · exact ⟨_, .inr rfl, .responded⟩

theorem specimen_unforgeable (frames : List ParsedFrame) :
    Unforgeable specimenLogged specimenIdentity specimenIdentity specimenRuns frames where
  pinned := ⟨rfl, rfl⟩
  ran := by
    rintro r (rfl | rfl)
    · exact specimen_began
    · exact specimen_responded
  held := by rintro r (rfl | rfl) <;> exact ⟨rfl, rfl⟩
  ed25519 := by
    intro f _ unsigned sigs _ message hverify
    obtain ⟨hsigned, hsig⟩ := of_decide_eq_true hverify
    obtain ⟨r, hr, hs⟩ := specimenRuns_signed hsigned
    exact ⟨r, hr, _, hs, hsig.symm⟩
  mldsa65 := by
    intro f _ unsigned sigs _ message hverify
    obtain ⟨hsigned, hsig⟩ := of_decide_eq_true hverify
    obtain ⟨r, hr, hs⟩ := specimenRuns_signed hsigned
    exact ⟨r, hr, _, hs, hsig.symm⟩

/-- An initiator that reads the answer to its hello is active, and has agreed. -/
theorem authenticated_agreement_specimen : ∃ c st log t s k,
    Built specimenLogged .initiator c st ∧
    Reach (FdCall.run specimenLogged) st log t (.idle s) ∧ s.phase = .active k ∧
    Agreed specimenLogged specimenRuns st t := by
  have hoffer := specimenOffer.bytes_length
  have hanswer := specimenAnswer.bytes_length
  have hmax : x25519Len + 1184 + identityPublicLen + identitySignatureLen + 2 ≤ maxFrameBody ∧
      x25519Len + 1088 + identityPublicLen + identitySignatureLen + 6 ≤ pullSize := by decide
  have hbuilt := healthy_built (ramp 16) specimen_began (by omega)
  generalize hst : FdState.mk _ _ _ _ _ _ _ _ = st at hbuilt
  obtain ⟨c, -, hat⟩ := Env.built_at _ _ hbuilt
  have htx : st.txBacklog ≠ [] := by
    rw [← hst]
    refine List.ne_nil_of_length_pos ?_
    rw [frameBytes_length]
    omega
  have hphase : st.phase = .initiatorAwaitingServerHello specimenState := by rw [← hst]
  obtain ⟨u, w, hrun⟩ := overlayRecv_serverHello hphase (by rw [← hst]) (by rw [← hst])
    (by rw [← hst]) (by rw [← hst]) htx (by rw [← hst]) (by rw [← hst]) (by omega)
    specimen_finished ⟨ramp 32, []⟩ (ramp 16)
  have hnode := at_runWith (healthy.answer ⟨ramp 32, []⟩ (ramp 16)) 60
    ((FdCall.recv 1 Nat.one_pos 0 3).run specimenLogged st)
    ([], frameBytes 1 typeServerHello specimenAnswer.bytes)
  have hsteady := healthy.runWith_steady ⟨ramp 32, []⟩ (ramp 16) 60
    ((FdCall.recv 1 Nat.one_pos 0 3).run specimenLogged st)
    ([], frameBytes 1 typeServerHello specimenAnswer.bytes)
  rw [hrun] at hnode hsteady
  have hstart : Reach (FdCall.run specimenLogged) st [] [] (.idle st) := .start
  have hreach := (reach_at (hstart.enter _) hnode).leave
  have hbuilt' : Built specimenLogged .initiator c st := hat
  refine ⟨c, st, _, _, _, specimenKeys, hbuilt', hreach, rfl, ?_⟩
  refine (authenticated_agreement specimenLogged_exchange hbuilt' hreach ?_).1
  intro identity hmem
  obtain rfl : identity = specimenIdentity := Except.ok.inj (hsteady _ hmem)
  exact ⟨specimenIdentity, specimen_unforgeable _⟩

end SyntriassOverlay
