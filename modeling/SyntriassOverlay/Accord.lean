import SyntriassOverlay.Following

/-!
# Two sessions that match

An initiator and a responder whose environments match accept each other's
handshake frames, and the keys they get mirror each other. With that, whatever
histories the two have had, each follows the stream of the other.
-/

namespace SyntriassOverlay
open Crypto Resumption

/-- The two environments agree on the suite, and either both parties trust each
other or both are degraded with the same PSK. The posture that counts for the
hybrid handshake is that of the initiator. -/
inductive Env.Matches (P : Primitives) (ei er : Env) : Prop
  | hybrid (hsuite : ei.suite = er.suite) (havail : ei.available = true)
      (hir : Trusts P ei.identity er.identity) (hri : Trusts P er.identity ei.identity)
  | fallback {psk : ByteArr 32} (hsuite : ei.suite = er.suite) (hi : ei.available = false)
      (hr : er.available = false) (hpi : ei.psk = some psk) (hpr : er.psk = some psk)

/-- The session `st` was built in the environment `env`. -/
def Env.Builds (P : Primitives) (env : Env) : Role → FdState → Prop
  | .initiator, st => ∃ c, env.Steady c ∧ At (newInitiatorState P ()) c (.done () st)
  | .responder, st => ∃ suite c, env.Steady c ∧ At (newResponderState suite ()) c (.done () st)

/-- The frames an activation queues. -/
def Origin.replyFrames : Origin → List ParsedFrame
  | .respond suite _ _ _ reply => [⟨suite.id, typeServerHello, reply⟩]
  | .fallbackRespond _ _ _ reply => [⟨fallbackWireId, typeFallbackFinished, reply⟩]
  | .finish _ _ _ | .fallbackFinish _ _ => []

theorem Origin.reply_eq (o : Origin) : o.reply = o.replyFrames.flatMap ParsedFrame.bytes := by
  cases o <;> simp [Origin.reply, Origin.replyFrames, ParsedFrame.bytes]

/-- What the initiator `x` makes of the frame `g` that answers its hello. -/
structure Answered (P : Primitives) (ei : Env) (x : FdState) (keys : SessionKeys)
    (g : ParsedFrame) : Prop where
  fits : g.Fits
  handshake : g.tag ≠ typeData
  welcome : ei.Welcomes P x g
  mirrored : ∀ s k origin pre fr, s.phase = x.phase → ei.Steady pre →
    Activation P s g k origin pre fr → k = keys.mirror

/-- The initiator `x` and the responder `y` understand each other, where `f` is the
hello of `x`. -/
structure Accord (P : Primitives) (ei er : Env) (x y : FdState) (f : ParsedFrame) : Prop where
  suite : x.policySuite = y.policySuite
  initiator : x.phase ≠ .responderAwaitingClientHello
  hello : x.txBacklog = f.bytes
  silent : y.txBacklog = []
  fits : f.Fits
  handshake : f.tag ≠ typeData
  welcome : er.Welcomes P y f
  answer : ∀ s keys origin pre fr, s.phase = y.phase → s.policySuite = y.policySuite →
    er.Steady pre → Activation P s f keys origin pre fr →
    ∃ g, origin.replyFrames = [g] ∧ Answered P ei x keys g

section
variable {P : Primitives} {ei er : Env} {x y : FdState} {c : Tr}

theorem Env.Steady.identity {env : Env} {t : Tr} (h : env.Steady t) (identity : IdentityMaterial)
    (hm : (⟨.resolveIdentity, .ok identity⟩ : Ev Resp) ∈ t) : identity = env.identity :=
  Except.ok.inj (h _ hm)

theorem Opening.begins {env : Env} {role : Role} (hf : Fresh c x) (ho : Opening P c x role)
    (hc : env.Steady c) (hlive : x.phase ≠ .failed) : env.Begins x where
  handshaking := by
    cases ho with
    | failed hp => exact absurd hp hlive
    | responder hp | hybrid hp | fallback hp => rw [hp]; rfl
  sound := ho.sound hf
  rxWire := hf.rxWire
  rxPlain := hf.rxPlain
  pid := hc _ hf.owner
  epoch := hc _ hf.epoch

/-! ### The hybrid handshake -/

theorem helloBody_fits {s : CipherSuite} {n : ℕ} (hn : n = s.ekLen ∨ n = s.ctLen) (h : HelloBody n)
    (suiteId tag : UInt8) : (⟨suiteId, tag, h.bytes⟩ : ParsedFrame).Fits := by
  have hlen := h.bytes_length
  have hsize : n ≤ 1568 := by
    rcases hn with rfl | rfl <;> cases s <;> decide
  have hfixed : x25519Len + 1568 + identityPublicLen + identitySignatureLen + 6 ≤ frameMax := by
    decide
  change h.bytes.length + 6 ≤ frameMax
  omega

theorem fits_frame {suiteId tag : UInt8} {payload : Bytes}
    (h : (⟨suiteId, tag, payload⟩ : ParsedFrame).Fits) : frame suiteId tag payload ≠ none := by
  intro hnone
  have hlong := frame_eq_none.mp hnone
  have hmax := frameMax_lt.2.1
  have hfit : payload.length + 6 ≤ frameMax := h
  omega

/-- The outcome of the hybrid handshake is determined by what both sides draw. -/
theorem hybrid_outcome (hP : CorrectPrimitives P) {s : CipherSuite} {a b : IdentityMaterial}
    (hab : Trusts P a b) (hba : Trusts P b a) {eph : Ephemeral} {state : InitiatorState}
    {hello : Bytes} (hbegin : s.beginInitiator P a eph = .ok (state, hello)) (eph' : Ephemeral) :
    ∃ keys reply, s.respond P b hello eph' = .ok (keys, reply) ∧
      state.finish P a reply = .ok keys.mirror := by
  obtain ⟨state', hello', keys, reply, hbegin', hrespond, hfinish, -⟩ :=
    hybrid_complete hP s hab hba eph eph'
  rw [hbegin] at hbegin'
  cases hbegin'
  exact ⟨keys, reply, hrespond, hfinish⟩

theorem answered_hybrid {s : CipherSuite} {state : InitiatorState} {keys : SessionKeys}
    {reply : Bytes} (hphase : x.phase = .initiatorAwaitingServerHello state)
    (hsuite : x.policySuite = s)
    (hfits : (⟨s.id, typeServerHello, reply⟩ : ParsedFrame).Fits)
    (hfinish : state.finish P ei.identity reply = .ok keys.mirror) :
    Answered P ei x keys ⟨s.id, typeServerHello, reply⟩ := by
  refine ⟨hfits, (by decide : typeServerHello ≠ typeData), ?_, ?_⟩
  · intro s' pre site hp hs hsteady _ hr
    rw [hphase] at hp
    cases hr with
    | helloMismatch _ hp' | helloRejected hp' | helloReply hp' | fallbackNotDegraded hp'
    | fallbackRejected _ hp' | fallbackReply _ hp' | fallbackFinishRejected hp' =>
      rw [hp] at hp'
      cases hp'
    | finishMismatch r _ _ hne =>
      have hid : r = .ok ei.identity := hsteady ⟨.resolveIdentity, r⟩ (by simp)
      exact hne _ hid (by rw [hs, hsuite])
    | @finishRejected _ identity _ hp' _ _ herr =>
      rw [hp] at hp'
      cases hp'
      obtain rfl := hsteady.identity identity (by simp)
      rw [hfinish] at herr
      cases herr
    | unexpectedDowngrade h =>
      rcases h with ⟨_, _, hne⟩ | ⟨_, hp', _⟩
      · exact hne rfl
      · rw [hp] at hp'
        cases hp'
    | unexpectedFrame _ hinit => exact hinit state hp rfl
  · intro s' k origin pre fr hp hsteady ha
    rw [hphase] at hp
    cases ha with
    | respond hp' | fallbackRespond _ hp' | fallbackFinish hp' =>
      rw [hp] at hp'
      cases hp'
    | @finish _ identity _ hp' _ _ hrun =>
      rw [hp] at hp'
      cases hp'
      obtain rfl := hsteady.identity identity (by simp)
      rw [hfinish] at hrun
      cases hrun
      rfl

theorem accord_hybrid (hP : CorrectPrimitives P) (hir : Trusts P ei.identity er.identity)
    (hri : Trusts P er.identity ei.identity) {eph : Ephemeral} {state : InitiatorState}
    {hello : Bytes} (hsuite : x.policySuite = y.policySuite)
    (hx : x.phase = .initiatorAwaitingServerHello state)
    (hy : y.phase = .responderAwaitingClientHello) (hsilent : y.txBacklog = [])
    (hbegin : x.policySuite.beginInitiator P ei.identity eph = .ok (state, hello))
    (hframe : frame x.policySuite.id typeClientHello hello = some x.txBacklog) :
    Accord P ei er x y ⟨x.policySuite.id, typeClientHello, hello⟩ := by
  have houtcome := hybrid_outcome hP hir hri hbegin
  obtain ⟨sigs, -, hbytes, -⟩ := clientHello_eq_ok.mp (beginInitiator_eq_ok.mp hbegin).2
  have hreply : ∀ eph' keys reply, x.policySuite.respond P er.identity hello eph' =
      .ok (keys, reply) → (⟨x.policySuite.id, typeServerHello, reply⟩ : ParsedFrame).Fits := by
    intro eph' keys reply h
    obtain ⟨_, server, _, -, rfl, -⟩ := suiteRespond_eq_ok.mp h
    exact helloBody_fits (.inr (x.policySuite.kem_ctSize P)) server _ _
  refine ⟨hsuite, by simp [hx], (frame_eq_some.mp hframe).2, hsilent, ?_,
    (by decide : typeClientHello ≠ typeData), ?_, ?_⟩
  · rw [hbytes]
    exact helloBody_fits (.inl (x.policySuite.kem_ekSize P)) _ _ _
  · intro s pre site hp hs hsteady hroom hr
    rw [hy] at hp
    rw [← hsuite] at hs
    cases hr with
    | helloMismatch r _ _ hne =>
      have hid : r = .ok er.identity := hsteady ⟨.resolveIdentity, r⟩ (by simp)
      exact hne _ hid (CipherSuite.fromId_eq_some.mpr (by rw [hs]))
    | @helloRejected identity eph' _ _ _ _ herr =>
      obtain rfl := hsteady.identity identity (by simp)
      obtain ⟨keys, reply, hok, -⟩ := houtcome eph'
      rw [hs, hok] at herr
      cases herr
    | @helloReply identity _ _ _ _ _ _ _ hrun hq =>
      obtain rfl := hsteady.identity identity (by simp)
      rw [hs] at hrun hq
      cases hq with
      | tooLong hnone => exact fits_frame (hreply _ _ _ hrun) hnone
      | noRoom => exact hroom (by simp)
    | fallbackNotDegraded _ htag | fallbackRejected _ _ htag | fallbackReply _ _ htag =>
      exact absurd htag (by decide : typeClientHello ≠ typeFallbackHello)
    | finishMismatch _ hp' | finishRejected hp' | fallbackFinishRejected hp' =>
      rw [hp] at hp'
      cases hp'
    | unexpectedDowngrade h =>
      rcases h with ⟨_, hp', _⟩ | ⟨_, hp', _⟩ <;> · rw [hp] at hp'; cases hp'
    | unexpectedFrame hresp => exact (hresp hp).1 rfl
  · intro s keys origin pre fr hp hs hsteady ha
    rw [hy] at hp
    rw [← hsuite] at hs
    cases ha with
    | fallbackRespond _ _ htag =>
      exact absurd htag (by decide : typeClientHello ≠ typeFallbackHello)
    | finish hp' | fallbackFinish hp' =>
      rw [hp] at hp'
      cases hp'
    | @respond identity eph' _ reply _ _ _ _ hrun =>
      obtain rfl := hsteady.identity identity (by simp)
      rw [hs] at hrun ⊢
      obtain ⟨keys', reply', hok, hfinish⟩ := houtcome eph'
      rw [hrun] at hok
      cases hok
      exact ⟨_, rfl, answered_hybrid hx rfl (hreply _ _ _ hrun) hfinish⟩

/-! ### The fallback -/

theorem fallbackReply_fits {psk : ByteArr 32} {hello : Bytes} {nonce : ByteArr 16}
    {keys : SessionKeys} {reply : Bytes}
    (h : fallbackRespond P psk hello nonce = .ok (keys, reply)) (suiteId tag : UInt8) :
    (⟨suiteId, tag, reply⟩ : ParsedFrame).Fits := by
  obtain ⟨-, ct, hseal, rfl⟩ := fallbackRespond_eq_ok.mp h
  obtain ⟨-, -, -, rfl⟩ := SessionKeys.seal_eq_ok.mp hseal
  have hsize : 16 + (fallbackConfirm.length + 16) + 6 ≤ frameMax := by decide +kernel
  change (nonce.val ++ _).length + 6 ≤ frameMax
  rw [List.length_append, P.gcmEncrypt_length, nonce.2]
  exact hsize

theorem answered_fallback {psk : ByteArr 32} {nonce : ByteArr 16} {keys : SessionKeys}
    {reply : Bytes} (hphase : x.phase = .initiatorAwaitingFallbackFinished ⟨psk, nonce⟩)
    (hfits : (⟨fallbackWireId, typeFallbackFinished, reply⟩ : ParsedFrame).Fits)
    (hfinish : FallbackInitiator.finish P ⟨psk, nonce⟩ reply = .ok keys.mirror) :
    Answered P ei x keys ⟨fallbackWireId, typeFallbackFinished, reply⟩ := by
  refine ⟨hfits, (by decide : typeFallbackFinished ≠ typeData), ?_, ?_⟩
  · intro s' pre site hp _ _ _ hr
    rw [hphase] at hp
    cases hr with
    | helloMismatch _ hp' | helloRejected hp' | helloReply hp' | fallbackNotDegraded hp'
    | fallbackRejected _ hp' | fallbackReply _ hp' | finishMismatch _ hp' | finishRejected hp' =>
      rw [hp] at hp'
      cases hp'
    | fallbackFinishRejected hp' _ herr =>
      rw [hp] at hp'
      cases hp'
      rw [hfinish] at herr
      cases herr
    | unexpectedDowngrade h =>
      rcases h with ⟨_, hp', _⟩ | ⟨_, _, hne⟩
      · rw [hp] at hp'
        cases hp'
      · exact hne rfl
    | unexpectedFrame _ _ hfall => exact hfall _ hp rfl
  · intro s' k origin pre fr hp _ ha
    rw [hphase] at hp
    cases ha with
    | respond hp' | fallbackRespond _ hp' | finish hp' =>
      rw [hp] at hp'
      cases hp'
    | fallbackFinish hp' _ hrun =>
      rw [hp] at hp'
      cases hp'
      rw [hfinish] at hrun
      cases hrun
      rfl

theorem accord_fallback (hP : CorrectPrimitives P) {psk : ByteArr 32} {nonce : ByteArr 16}
    (hdegraded : er.available = false) (hpsk : er.psk = some psk)
    (hsuite : x.policySuite = y.policySuite)
    (hx : x.phase = .initiatorAwaitingFallbackFinished ⟨psk, nonce⟩)
    (hy : y.phase = .responderAwaitingClientHello) (hsilent : y.txBacklog = [])
    (hframe : frame fallbackWireId typeFallbackHello nonce.val = some x.txBacklog) :
    Accord P ei er x y ⟨fallbackWireId, typeFallbackHello, nonce.val⟩ := by
  have houtcome : ∀ nonce', ∃ keys reply, fallbackRespond P psk nonce.val nonce' =
      .ok (keys, reply) ∧ FallbackInitiator.finish P ⟨psk, nonce⟩ reply = .ok keys.mirror := by
    intro nonce'
    obtain ⟨keys, reply, hrespond, hfinish, -⟩ := fallback_complete hP psk nonce nonce'
    exact ⟨keys, reply, hrespond, hfinish⟩
  have hown : ∀ (pre : Tr) psk', er.Steady pre →
      (⟨.resolveFallbackPsk, some psk'⟩ : Ev Resp) ∈ pre → psk' = psk := by
    intro pre psk' hsteady hm
    have heq : some psk' = er.psk := hsteady _ hm
    rw [hpsk] at heq
    exact Option.some.inj heq
  refine ⟨hsuite, by simp [hx], (frame_eq_some.mp hframe).2, hsilent, ?_,
    (by decide : typeFallbackHello ≠ typeData), ?_, ?_⟩
  · change nonce.val.length + 6 ≤ frameMax
    rw [nonce.2]
    decide
  · intro s pre site hp _ hsteady hroom hr
    rw [hy] at hp
    cases hr with
    | helloMismatch _ _ htag | helloRejected _ htag | helloReply _ htag =>
      exact absurd htag (by decide : typeFallbackHello ≠ typeClientHello)
    | @fallbackNotDegraded available p p' _ _ hwhy =>
      have ha : available = er.available := hsteady ⟨.pqcControlAvailable, available⟩ (by simp)
      have h₁ : p = er.psk := hsteady ⟨.resolveFallbackPsk, p⟩ (by simp)
      have h₂ : p' = er.psk := hsteady ⟨.resolveFallbackPsk, p'⟩ (by simp)
      rw [ha, h₁, h₂, hdegraded, hpsk] at hwhy
      cases hwhy rfl
    | @fallbackRejected own _ nonce' _ _ _ herr =>
      obtain rfl := hown _ own hsteady (by simp)
      obtain ⟨keys, reply, hok, -⟩ := houtcome nonce'
      rw [hok] at herr
      cases herr
    | fallbackReply _ _ _ hrun hq =>
      cases hq with
      | tooLong hnone => exact fits_frame (fallbackReply_fits hrun _ _) hnone
      | noRoom => exact hroom (by simp)
    | finishMismatch _ hp' | finishRejected hp' | fallbackFinishRejected hp' =>
      rw [hp] at hp'
      cases hp'
    | unexpectedDowngrade h =>
      rcases h with ⟨_, hp', _⟩ | ⟨_, hp', _⟩ <;> · rw [hp] at hp'; cases hp'
    | unexpectedFrame hresp => exact (hresp hp).2 rfl
  · intro s keys origin pre fr hp _ hsteady ha
    rw [hy] at hp
    cases ha with
    | respond _ htag => exact absurd htag (by decide : typeFallbackHello ≠ typeClientHello)
    | finish hp' | fallbackFinish hp' =>
      rw [hp] at hp'
      cases hp'
    | @fallbackRespond own _ nonce' _ reply _ _ _ hrun =>
      obtain rfl := hown _ own hsteady (by simp)
      obtain ⟨keys', reply', hok, hfinish⟩ := houtcome nonce'
      have hpayload : fallbackRespond P own nonce.val nonce' = .ok (keys, reply) := hrun
      rw [hpayload] at hok
      cases hok
      exact ⟨_, rfl, answered_fallback hx (fallbackReply_fits hrun _ _) hfinish⟩

/-! ### Sessions as they are built -/

/-- A construction that ends in a live session wherever the answers were steady. -/
abbrev Env.Alive (env : Env) (t : Tr) (_ : Unit) (st : FdState) : Prop :=
  env.Steady t → st.phase ≠ .failed

theorem build_alive {env : Env} {t : Tr} {phase : FdPhase} {suite : CipherSuite} {tx : Bytes}
    (h : phase ≠ .failed) : Safe anyCall env.Alive (FdState.build phase suite tx ()) t := by
  refine build_safe fun t' st _ _ hphase _ _ _ => ?_
  rw [hphase]
  exact h

theorem alive_of_unsteady {env : Env} {t : Tr} {o : Op} {r : Resp o} (hr : ¬env.Allows o r)
    (p : Prog Resp Unit FdState) : Safe anyCall env.Alive p (t ++ [⟨o, r⟩]) := by
  refine safe_of_extends (fun _ _ _ => trivial) (fun _ _ => trivial) (fun u _ _ hsteady => ?_) p
  exact absurd (hsteady ⟨o, r⟩ (by simp)) hr

theorem buildPqcInitiator_alive (hP : CorrectPrimitives P) {b : IdentityMaterial}
    (hb : Trusts P b ei.identity) {suite : CipherSuite} {t : Tr} :
    Safe anyCall ei.Alive (buildPqcInitiator P suite ()) t := by
  refine ⟨trivial, fun r => ?_⟩
  by_cases hr : r = .ok ei.identity
  · subst hr
    refine ⟨trivial, fun eph => ?_⟩
    obtain ⟨state, sigs, hbegin, -⟩ := beginInitiator_succeeds hP suite hb eph
    have hfits := helloBody_fits (.inl (suite.kem_ekSize P))
      (offeredHello P (suite.kem P) ei.identity eph sigs) suite.id typeClientHello
    obtain ⟨fr, hfr⟩ := Option.ne_none_iff_exists'.mp (fits_frame hfits)
    simp only [bind_done, hbegin, hfr]
    exact build_alive (by simp)
  · exact alive_of_unsteady (o := .resolveIdentity) hr _

theorem buildFallbackInitiator_alive {psk : ByteArr 32} (hpsk : ei.psk = some psk)
    {suite : CipherSuite} {t : Tr} :
    Safe anyCall ei.Alive (buildFallbackInitiator suite ()) t := by
  refine ⟨trivial, fun r => ?_⟩
  cases r with
  | none =>
    refine alive_of_unsteady (fun hr => ?_) _
    have heq : none = ei.psk := hr
    rw [hpsk] at heq
    cases heq
  | some own =>
    refine ⟨trivial, fun nonce => ?_⟩
    have hfits : (⟨fallbackWireId, typeFallbackHello, nonce.val⟩ : ParsedFrame).Fits := by
      change nonce.val.length + 6 ≤ frameMax
      rw [nonce.2]
      decide
    obtain ⟨fr, hfr⟩ := Option.ne_none_iff_exists'.mp (fits_frame hfits)
    simp only [bind_done, FallbackInitiator.begin, hfr]
    exact build_alive (by simp)

theorem newInitiatorState_alive (hP : CorrectPrimitives P) (hm : ei.Matches P er) :
    Safe anyCall ei.Alive (newInitiatorState P ()) [] := by
  refine ⟨trivial, fun policy => ⟨trivial, fun policy' => ?_⟩⟩
  by_cases hpolicy : policy' = some ei.suite
  · subst hpolicy
    refine ⟨trivial, fun available => ?_⟩
    by_cases hav : available = ei.available
    · subst hav
      refine ⟨trivial, fun psk => ?_⟩
      by_cases hpsk : psk = ei.psk
      · subst hpsk
        cases hm with
        | hybrid _ hi _ hri =>
          simp only [bind_done, pure_apply, hi, selectPosture]
          exact buildPqcInitiator_alive hP hri
        | fallback _ hi _ hpi =>
          simp only [bind_done, pure_apply, hi, hpi, selectPosture, Option.isSome_some]
          exact buildFallbackInitiator_alive hpi
      · exact alive_of_unsteady (o := .resolveFallbackPsk) hpsk _
    · exact alive_of_unsteady (o := .pqcControlAvailable) hav _
  · exact alive_of_unsteady (o := .resolvePolicy) hpolicy _

theorem newResponderState_alive {suite : CipherSuite} :
    Safe anyCall er.Alive (newResponderState suite ()) [] := by
  refine ⟨trivial, fun policy => ?_⟩
  by_cases hpolicy : policy = some er.suite
  · subst hpolicy
    exact build_alive (by simp)
  · exact alive_of_unsteady (o := .resolvePolicy) hpolicy _

/-- Sessions that were built in matching environments understand each other. -/
theorem Env.Matches.accord (hP : CorrectPrimitives P) (hm : ei.Matches P er)
    (hx : ei.Builds P .initiator x) (hy : er.Builds P .responder y) :
    ei.Begins x ∧ er.Begins y ∧ ∃ f, Accord P ei er x y f := by
  obtain ⟨c, hc, hat⟩ := hx
  obtain ⟨suite, c', hc', hat'⟩ := hy
  have hlx : x.phase ≠ .failed := safe_at (newInitiatorState_alive hP hm) hat hc
  have hly : y.phase ≠ .failed := safe_at newResponderState_alive hat' hc'
  obtain ⟨hf, ho⟩ := newInitiatorState_opening hat
  obtain ⟨hf', ho'⟩ := newResponderState_opening (P := P) hat'
  refine ⟨ho.begins hf hc hlx, ho'.begins hf' hc' hly, ?_⟩
  cases ho' with
  | failed hp => exact absurd hp hly
  | responder hpy hsilent hpolicy' =>
    have hsuite : ∀ hpolicy : (⟨.resolvePolicy, some x.policySuite⟩ : Ev Resp) ∈ c,
        ei.suite = er.suite → x.policySuite = y.policySuite := by
      intro hpolicy heq
      have h₁ : some x.policySuite = some ei.suite := hc _ hpolicy
      have h₂ : some y.policySuite = some er.suite := hc' _ hpolicy'
      rw [Option.some.inj h₁, Option.some.inj h₂, heq]
    cases ho with
    | failed hp => exact absurd hp hlx
    | @hybrid identity eph state hello hp hrun hframe hpolicy havail _ hid =>
      have hav : true = ei.available := hc _ havail
      obtain rfl := hc.identity identity hid
      cases hm with
      | hybrid heq _ hir hri =>
        exact ⟨_, accord_hybrid hP hir hri (hsuite hpolicy heq) hp hpy hsilent hrun hframe⟩
      | fallback _ hi =>
        rw [hi] at hav
        cases hav
    | @fallback psk _ nonce hp hframe hpolicy havail _ hown =>
      have hav : false = ei.available := hc _ havail
      have hpsk : some psk = ei.psk := hc _ hown
      cases hm with
      | hybrid _ hi =>
        rw [hi] at hav
        cases hav
      | @fallback psk' heq _ hr hpi hpr =>
        rw [hpi] at hpsk
        cases hpsk
        exact ⟨_, accord_fallback hP hr hpr (hsuite hpolicy heq) hp hpy hsilent hframe⟩

end

/-! ### Both sides of a dialogue -/

/-- The receiver with start `b` follows what the sender with start `a` has made: at
most one handshake frame, then the data frames of its records. -/
inductive Hears (P : Primitives) (a b : FdState) (t t' : Tr) (s' : FdState) (pd' : Option Bytes) :
    Prop
  | nothing (hmade : made a t = []) (hrec : records t = []) (h : Following P b [] [] t' s' pd')
  | stream {g : ParsedFrame} (htag : g.tag ≠ typeData)
      (hmade : made a t = g.bytes ++ dataFrames b.policySuite (records t))
      (h : Following P b (g :: (records t).map (dataFrame b.policySuite)) (records t) t' s' pd')

section
variable {P : Primitives} {ei er : Env} {x y sx sy : FdState} {f : ParsedFrame} {tx ty : Tr}
  {pdx pdy : Option Bytes}

theorem Env.Begins.inactive {env : Env} (h : env.Begins x) (keys : SessionKeys) :
    x.phase ≠ .active keys := by
  intro hk
  have hhs := h.handshaking
  rw [hk] at hhs
  cases hhs

theorem History.no_replies {aside : Prop} (h : History P aside x tx sx pdx)
    (hinit : x.phase ≠ .responderAwaitingClientHello) : replies tx = [] := by
  cases h.beginning with
  | none ha => simp [replies, ha]
  | @once keys origin ha hact =>
    obtain ⟨a⟩ := hact
    have hphase := (a.history.handshaking_untouched a.activation.handshaking).1
    have hfr := a.activation.reply_frame
    rw [if_neg (by rwa [hphase])] at hfr
    simp [replies, ha, hfr]

/-- Whatever both have done, each side follows the stream of the other. -/
theorem Accord.dialogue (hP : CorrectPrimitives P) (hacc : Accord P ei er x y f)
    (hbx : ei.Begins x) (hby : er.Begins y) (hx : History P False x tx sx pdx)
    (hy : History P False y ty sy pdy) (hcx : ei.Civil tx) (hcy : er.Civil ty)
    (hxy : receivedBytes ty <+: made x tx) (hyx : receivedBytes tx <+: made y ty) :
    Hears P x y tx ty sy pdy ∧ Hears P y x ty tx sx pdx := by
  have hmadex : made x tx = f.bytes ++ dataFrames y.policySuite (records tx) := by
    rw [made, hacc.hello, hx.no_replies hacc.initiator, List.append_nil, hacc.suite]
  have hstream : made x tx =
      (f :: (records tx).map (dataFrame y.policySuite)).flatMap ParsedFrame.bytes := by
    rw [hmadex, List.flatMap_cons, dataFrames_eq]
  rw [hstream] at hxy
  have hfitsy : ∀ g ∈ f :: (records tx).map (dataFrame y.policySuite), g.Fits := by
    intro g hg
    rcases List.mem_cons.mp hg with rfl | hg
    · exact hacc.fits
    · exact hx.records_fit hbx.inactive _ g hg
  have hwely : ∀ g gs, f :: (records tx).map (dataFrame y.policySuite) = g :: gs →
      er.Welcomes P y g := by
    intro g gs hg
    cases hg
    exact hacc.welcome
  -- what the responder was activated with, and what the initiator will make of it
  have hanswer : ∀ a ∈ activations ty, ∃ g, a.2.replyFrames = [g] ∧ Answered P ei x a.1 g := by
    intro a ha
    obtain ⟨g, gs, s', pre, fr, hg, hphase, hsuite, hpre, hact⟩ :=
      hy.activation_first hP hby.handshaking hby.rxWire hby.rxPlain hfitsy hxy ha
    cases hg
    exact hacc.answer s' a.1 a.2 pre fr hphase hsuite (hcy.steady.mono hpre) hact
  cases hy.recordAccount hby.inactive with
  | none hnone =>
    have hrec := (hy.inactive_records hby.inactive hnone).1
    have hmadey : made y ty = [] := by
      simp [made, hacc.silent, replies, hnone, hrec, dataFrames]
    rw [hmadey] at hyx
    have hidle : ∀ a ∈ activations tx, False := by
      intro a ha
      obtain ⟨g, gs, _, _, _, hg, -⟩ :=
        hx.activation_first hP hbx.handshaking hbx.rxWire hbx.rxPlain (List.forall_mem_nil _) hyx ha
      cases hg
    refine ⟨.stream hacc.handshake hmadex (hy.following hP hby hfitsy hwely ⟨hcy, ⟨hxy, ?_⟩⟩),
      .nothing hmadey hrec (hx.following hP hbx (by simp) (by simp) ⟨hcx, ⟨hyx, ?_⟩⟩)⟩
    · intro a ha
      rw [hnone] at ha
      cases ha
    · exact fun a ha => (hidle a ha).elim
  | @active ky oy d hone hruny _ =>
    obtain ⟨g, hg, hans⟩ := hanswer (ky, oy) (by simp [hone])
    have hmadey : made y ty = g.bytes ++ dataFrames x.policySuite (records ty) := by
      simp [made, hacc.silent, replies, hone, Origin.reply_eq, hg, hacc.suite]
    have hstreamy : made y ty =
        (g :: (records ty).map (dataFrame x.policySuite)).flatMap ParsedFrame.bytes := by
      rw [hmadey, List.flatMap_cons, dataFrames_eq]
    rw [hstreamy] at hyx
    have hfitsx : ∀ g' ∈ g :: (records ty).map (dataFrame x.policySuite), g'.Fits := by
      intro g' hg'
      rcases List.mem_cons.mp hg' with rfl | hg'
      · exact hans.fits
      · exact hy.records_fit hby.inactive _ g' hg'
    have hwelx : ∀ g' gs, g :: (records ty).map (dataFrame x.policySuite) = g' :: gs →
        ei.Welcomes P x g' := by
      intro g' gs hg'
      cases hg'
      exact hans.welcome
    have hmirror : ∀ a ∈ activations tx, a.1 = ky.mirror := by
      intro a ha
      obtain ⟨g', gs, s', pre, fr, hg', hphase, -, hpre, hact⟩ :=
        hx.activation_first hP hbx.handshaking hbx.rxWire hbx.rxPlain hfitsx hyx ha
      cases hg'
      exact hans.mirrored s' a.1 a.2 pre fr hphase (hcx.steady.mono hpre) hact
    refine ⟨.stream hacc.handshake hmadex (hy.following hP hby hfitsy hwely ⟨hcy, ⟨hxy, ?_⟩⟩),
      .stream hans.handshake hmadey (hx.following hP hbx hfitsx hwelx ⟨hcx, ⟨hyx, ?_⟩⟩)⟩
    · intro a ha
      rw [hone, List.mem_singleton] at ha
      subst ha
      refine ⟨⟨f, rfl⟩, ?_⟩
      cases hx.recordAccount hbx.inactive with
      | none hnone =>
        rw [(hx.inactive_records hbx.inactive hnone).1]
        exact ⟨_, .nil⟩
      | @active kx ox d' ha hrunx _ =>
        have hk : kx = ky.mirror := hmirror (kx, ox) (by simp [ha])
        subst hk
        exact ⟨d', hrunx⟩
    · intro a ha
      rw [hmirror a ha]
      exact ⟨⟨g, rfl⟩, d, hruny⟩

end

end SyntriassOverlay
