import SyntriassOverlay.Agreement
import SyntriassOverlay.Conservation

/-!
# The policies of two active endpoints

An initiator and a responder over a channel that nobody touches, each with the
policy, the posture, the identity and the PSK that its own process finds. The frames
of the hybrid handshake name the suite, and both sides compare it with their policy.
The frames of the fallback carry a reserved suite byte and neither side compares
anything, so two endpoints with different policies become active and then refuse
each other's first record.
-/

namespace SyntriassOverlay
open Crypto Resumption

/-! ### Two sessions and the channel between them -/

/-- An initiator and a responder with everything done on them, where each has received
a beginning of what the other has sent. Nothing else is said about the answers they
got, or about the order in which the two have moved. -/
structure Pairing (P : Primitives) where
  start : Role → FdState
  log : Role → List (FdCall × FdRet)
  trace : Role → Tr
  status : Role → Status Resp FdCall FdState FdRet
  built : ∀ ρ, ∃ c, Built P ρ c (start ρ)
  run : ∀ ρ, Reach (FdCall.run P) (start ρ) (log ρ) (trace ρ) (status ρ)
  fifo : ∀ ρ, receivedBytes (trace ρ) <+: sentBytes (trace ρ.peer)

/-- The suite check and `open` accept the frames, one after the other. -/
def Accepts (P : Primitives) (suite : CipherSuite) : SessionKeys → List ParsedFrame → Prop
  | _, [] => True
  | keys, f :: fs => f.suiteId = suite.id ∧
      ∃ keys' pt, keys.open P f.payload = .ok (keys', pt) ∧ Accepts P suite keys' fs

section
variable {P : Primitives}

/-- Both ends are active. -/
structure Pairing.Active (p : Pairing P) (s : Role → FdState) (keys : Role → SessionKeys) :
    Prop where
  standing : ∀ ρ, standing (p.status ρ) = some (s ρ)
  phase : ∀ ρ, (s ρ).phase = .active (keys ρ)

/-- The end `ρ` in the state `s` accepts the data frames of the other end: it has taken
the first of them off its buffer and opened them, and what is left to take will pass. -/
def Pairing.Hears (p : Pairing P) (ρ : Role) (s : FdState) (keys : SessionKeys) : Prop :=
  ∃ (f : ParsedFrame) (old new : List (Bytes × Bytes)), f.tag ≠ typeData ∧
    records (p.trace ρ.peer) = old ++ new ∧
    receivedBytes (p.trace ρ) =
      f.bytes ++ dataFrames (p.start ρ.peer).policySuite old ++ s.rxWire ∧
    deliveredBytes (p.trace ρ) ++ s.rxPlain = old.flatMap Prod.fst ∧
    Accepts P s.policySuite keys (new.map (dataFrame (p.start ρ.peer).policySuite))

/-- Both ends have one suite and accept each other's data frames. -/
structure Pairing.Talks (p : Pairing P) (s : Role → FdState) (keys : Role → SessionKeys) :
    Prop where
  suite : (s .initiator).policySuite = (s .responder).policySuite
  hears : ∀ ρ, p.Hears ρ (s ρ) (keys ρ)

/-- The initiator has offered the hybrid handshake. -/
def Pairing.Hybrid (p : Pairing P) : Prop :=
  ∃ state, (p.start .initiator).phase = .initiatorAwaitingServerHello state

/-- The two policies name the same suite. -/
def Pairing.Alike (p : Pairing P) : Prop :=
  (p.start .initiator).policySuite = (p.start .responder).policySuite

/-- The handshake has come to nothing: no end has become active, and the responder has
failed if it has looked at a frame. -/
structure Pairing.Rejects (p : Pairing P) : Prop where
  inactive : ∀ ρ, activations (p.trace ρ) = []
  failed : ∀ s, SyntriassOverlay.standing (p.status .responder) = some s →
    pops (p.trace .responder) ≠ [] → s.phase = .failed

/-- The confirmation of the fallback authenticates the keys: an initiator that accepts
the one made for its nonce has derived the keys of the responder that made it. With
one PSK correct primitives are enough; with two it is what the AEAD is there for. -/
def Confirms (P : Primitives) : Prop :=
  ∀ (psk psk' : ByteArr 32) (nonce nonce' : ByteArr 16) (keys keys' : SessionKeys) (reply : Bytes),
    fallbackRespond P psk' nonce.val nonce' = .ok (keys', reply) →
    FallbackInitiator.finish P ⟨psk, nonce⟩ reply = .ok keys → keys = keys'.mirror

/-! ### The handshake -/

/-- The hello an initiator was built with. -/
inductive Offer (P : Primitives) (x : FdState) : ParsedFrame → Prop
  | hybrid {identity : IdentityMaterial} {eph : Ephemeral} {state : InitiatorState} {hello : Bytes}
      (hphase : x.phase = .initiatorAwaitingServerHello state)
      (hrun : x.policySuite.beginInitiator P identity eph = .ok (state, hello)) :
      Offer P x ⟨x.policySuite.id, typeClientHello, hello⟩
  | fallback {psk : ByteArr 32} {nonce : ByteArr 16}
      (hphase : x.phase = .initiatorAwaitingFallbackFinished ⟨psk, nonce⟩) :
      Offer P x ⟨fallbackWireId, typeFallbackHello, nonce.val⟩

variable {x y : FdState} {f : ParsedFrame}

theorem Opening.offer {c : Tr} (h : Opening P c x .initiator) (hhs : x.phase.handshaking = true) :
    ∃ f, Offer P x f ∧ x.txBacklog = f.bytes := by
  cases h with
  | failed hphase =>
    rw [hphase] at hhs
    cases hhs
  | hybrid hphase hrun hframe => exact ⟨_, .hybrid hphase hrun, (frame_eq_some.mp hframe).2⟩
  | fallback hphase hframe => exact ⟨_, .fallback hphase, (frame_eq_some.mp hframe).2⟩

theorem Offer.fits (h : Offer P x f) : f.Fits := by
  cases h with
  | hybrid _ hrun =>
    obtain ⟨sigs, -, hbytes, -⟩ := clientHello_eq_ok.mp (beginInitiator_eq_ok.mp hrun).2
    rw [hbytes]
    exact helloBody_fits (.inl (x.policySuite.kem_ekSize P)) _ _ _
  | @fallback psk nonce =>
    change nonce.val.length + 6 ≤ frameMax
    rw [nonce.2]
    decide

theorem Offer.handshake (h : Offer P x f) : f.tag ≠ typeData := by
  cases h with
  | hybrid => exact (by decide : typeClientHello ≠ typeData)
  | fallback => exact (by decide : typeFallbackHello ≠ typeData)

theorem Offer.initiator (h : Offer P x f) : x.phase ≠ .responderAwaitingClientHello := by
  cases h with
  | hybrid hphase | fallback hphase => simp [hphase]

/-- What becomes of the hello `f` of `x` at the responder `y`, which gets the keys
`keys`: the reply `g` gives `x` the same keys, and a hybrid hello was for the suite of
`y`. -/
structure Replied (x y : FdState) (keys : SessionKeys) (P : Primitives) (g : ParsedFrame) :
    Prop where
  fits : g.Fits
  handshake : g.tag ≠ typeData
  suite : ∀ state, x.phase = .initiatorAwaitingServerHello state → x.policySuite = y.policySuite
  mirrored : ∀ s k origin pre fr, s.phase = x.phase → Activation P s g k origin pre fr →
    k = keys.mirror

theorem Offer.replied (hP : CorrectPrimitives P) (hconf : Confirms P) (h : Offer P x f)
    {s : FdState} {keys : SessionKeys} {origin : Origin} {pre : Tr} {fr : Bytes}
    (hphase : s.phase = .responderAwaitingClientHello) (hsuite : s.policySuite = y.policySuite)
    (ha : Activation P s f keys origin pre fr) :
    ∃ g, origin.replyFrames = [g] ∧ Replied x y keys P g := by
  cases h with
  | @hybrid own eph state hello hx hbegin =>
    cases ha with
    | finish hp | fallbackFinish hp =>
      rw [hphase] at hp
      cases hp
    | fallbackRespond _ _ htag =>
      exact absurd htag (by decide : typeClientHello ≠ typeFallbackHello)
    | @respond identity eph' _ reply _ _ _ hfrom hrespond =>
      have heq : x.policySuite = s.policySuite :=
        CipherSuite.id_injective (CipherSuite.fromId_eq_some.mp hfrom)
      refine ⟨_, rfl, ?_, (by decide : typeServerHello ≠ typeData),
        fun _ _ => heq.trans hsuite, ?_⟩
      · obtain ⟨_, server, _, -, rfl, -⟩ := suiteRespond_eq_ok.mp hrespond
        exact helloBody_fits (.inr (s.policySuite.kem_ctSize P)) server _ _
      · intro s' k o u fr' hp hact
        rw [hx] at hp
        cases hact with
        | respond hp' | fallbackRespond _ hp' | fallbackFinish hp' =>
          rw [hp] at hp'
          cases hp'
        | finish hp' _ _ hfinish =>
          rw [hp] at hp'
          cases hp'
          rw [heq] at hbegin
          exact ExchangeCorrect.mirrored ⟨hP.dh_comm, hP.kem⟩ hbegin hrespond hfinish
  | @fallback psk nonce hx =>
    cases ha with
    | finish hp | fallbackFinish hp =>
      rw [hphase] at hp
      cases hp
    | respond _ htag => exact absurd htag (by decide : typeFallbackHello ≠ typeClientHello)
    | fallbackRespond _ _ _ hrespond =>
      refine ⟨_, rfl, fallbackReply_fits hrespond _ _,
        (by decide : typeFallbackFinished ≠ typeData), ?_, ?_⟩
      · intro state hp
        rw [hx] at hp
        cases hp
      · intro s' k o u fr' hp hact
        rw [hx] at hp
        cases hact with
        | respond hp' | fallbackRespond _ hp' | finish hp' =>
          rw [hp] at hp'
          cases hp'
        | fallbackFinish hp' _ hfinish =>
          rw [hp] at hp'
          cases hp'
          exact hconf _ _ _ _ _ _ _ hrespond hfinish

end

/-! ### Both ends of a pairing -/

section
variable {P : Primitives} {p : Pairing P} {ρ : Role}

theorem accepts_of_run (hP : CorrectPrimitives P) (suite : CipherSuite)
    {rs : List (Bytes × Bytes)} {keys : SessionKeys} {d : Direction}
    (h : keys.rx.Run (RecordBy P) rs d) : Accepts P suite keys (rs.map (dataFrame suite)) := by
  induction rs generalizing keys with
  | nil => trivial
  | cons r rs ih =>
    obtain ⟨-, hr, hrest⟩ := h.uncons
    exact ⟨rfl, _, _, hr.opens hP rfl, ih hrest⟩

theorem Pairing.history {s : FdState} (hs : standing (p.status ρ) = some s) :
    ∃ pd, History P True (p.start ρ) (p.trace ρ) s pd := by
  obtain ⟨c, hbuilt⟩ := p.built ρ
  exact hbuilt.history (p.run ρ) hs

/-- What is true of the trace of an end inside a step is true of a trace at its end. -/
theorem Pairing.between (p : Pairing P) (ρ : Role) : Between P True (p.start ρ) (p.trace ρ) := by
  obtain ⟨c, hbuilt⟩ := p.built ρ
  obtain ⟨hfresh, hopen⟩ := hbuilt.opening
  exact run_between id (fun _ _ => trivial) (hopen.sound hfresh) hfresh.settled (p.run ρ)

theorem Pairing.received_le (p : Pairing P) (ρ : Role) :
    receivedBytes (p.trace ρ) <+: made (p.start ρ.peer) (p.trace ρ.peer) := by
  obtain ⟨c, hbuilt⟩ := p.built ρ.peer
  exact (p.fifo ρ).trans ((p.between ρ.peer).grammatical hbuilt.opening.2).2

/-- The frames made by an end whose handshake frame is `f`. -/
def Pairing.stream (p : Pairing P) (ρ : Role) (f : ParsedFrame) : List ParsedFrame :=
  f :: (records (p.trace ρ)).map (dataFrame (p.start ρ).policySuite)

theorem Pairing.stream_bytes (p : Pairing P) (ρ : Role) (f : ParsedFrame) :
    (p.stream ρ f).flatMap ParsedFrame.bytes =
      f.bytes ++ dataFrames (p.start ρ).policySuite (records (p.trace ρ)) := by
  rw [Pairing.stream, List.flatMap_cons, dataFrames_eq]

theorem Pairing.inactive (p : Pairing P) (ρ : Role) (keys : SessionKeys) :
    (p.start ρ).phase ≠ .active keys := by
  obtain ⟨c, hbuilt⟩ := p.built ρ
  exact hbuilt.opening.2.inactive keys

theorem Pairing.stream_fits (p : Pairing P) (ρ : Role) {f : ParsedFrame} (hf : f.Fits) :
    ∀ g ∈ p.stream ρ f, g.Fits := by
  obtain ⟨t₀, u, s, pd, ht, hh, hu⟩ := p.between ρ
  have hrec : records (p.trace ρ) = records t₀ := by
    rw [ht, records_append, hu.silent.records, List.append_nil]
  intro g hg
  rw [Pairing.stream, hrec] at hg
  rcases List.mem_cons.mp hg with rfl | hg
  · exact hf
  · exact hh.records_fit (p.inactive ρ) _ g hg

/-- An end is activated by the first frame that the other has made. -/
theorem Pairing.activation_first (hP : CorrectPrimitives P) {fs : List ParsedFrame}
    (hfits : ∀ f ∈ fs, f.Fits)
    (hmade : made (p.start ρ.peer) (p.trace ρ.peer) = fs.flatMap ParsedFrame.bytes)
    {a : SessionKeys × Origin} (ha : a ∈ activations (p.trace ρ)) :
    ∃ f fs' s pre fr, fs = f :: fs' ∧ s.phase = (p.start ρ).phase ∧
      s.policySuite = (p.start ρ).policySuite ∧ Activation P s f a.1 a.2 pre fr := by
  have hrec := p.received_le ρ
  rw [hmade] at hrec
  obtain ⟨c, hbuilt⟩ := p.built ρ
  obtain ⟨hfresh, -⟩ := hbuilt.opening
  obtain ⟨-, s, f, pre, reply, hact, -, hphase, -⟩ := (p.between ρ).activated ha
  have hhs : (p.start ρ).phase.handshaking = true := hphase ▸ hact.handshaking
  obtain ⟨t₀, u, s', pd, ht, hh, hu⟩ := p.between ρ
  rw [ht, receivedBytes_append] at hrec
  rw [ht, activations_append, hu.silent.activations, List.append_nil] at ha
  obtain ⟨f, fs', s, pre, fr, hfs, hphase, hsuite, -, hact⟩ :=
    hh.activation_first hP hhs hfresh.rxWire hfresh.rxPlain hfits
      ((List.prefix_append _ _).trans hrec) ha
  exact ⟨f, fs', s, pre, fr, hfs, hphase, hsuite, hact⟩

/-- What an end has made that has not become active: its hello, if it was built with
one. -/
theorem Pairing.made_inactive (ha : activations (p.trace ρ) = []) :
    made (p.start ρ) (p.trace ρ) = (p.start ρ).txBacklog := by
  obtain ⟨t₀, u, s, pd, ht, hh, hu⟩ := p.between ρ
  have ha₀ : activations t₀ = [] := by
    rwa [ht, activations_append, hu.silent.activations, List.append_nil] at ha
  have hrec : records (p.trace ρ) = [] := by
    rw [ht, records_append, hu.silent.records, (hh.inactive_records (p.inactive ρ) ha₀).1]
    rfl
  simp [made, replies, ha, hrec, dataFrames]

theorem Pairing.made_initiator {f : ParsedFrame} (hoff : Offer P (p.start .initiator) f)
    (hf : (p.start .initiator).txBacklog = f.bytes) :
    made (p.start .initiator) (p.trace .initiator) =
      (p.stream .initiator f).flatMap ParsedFrame.bytes := by
  obtain ⟨t₀, u, s, pd, ht, hh, hu⟩ := p.between .initiator
  have hreplies : replies (p.trace .initiator) = [] := by
    have hnone := hh.no_replies hoff.initiator
    rw [replies] at hnone ⊢
    rwa [ht, activations_append, hu.silent.activations, List.append_nil]
  rw [p.stream_bytes, made, hf, hreplies, List.append_nil]

/-- A responder becomes active with the hello of the initiator, and answers it. -/
theorem Pairing.responded (hP : CorrectPrimitives P) (hconf : Confirms P)
    {a : SessionKeys × Origin} (ha : a ∈ activations (p.trace .responder)) :
    ∃ f g, Offer P (p.start .initiator) f ∧
      made (p.start .initiator) (p.trace .initiator) =
        (p.stream .initiator f).flatMap ParsedFrame.bytes ∧
      made (p.start .responder) (p.trace .responder) =
        (p.stream .responder g).flatMap ParsedFrame.bytes ∧
      Replied (p.start .initiator) (p.start .responder) a.1 P g := by
  obtain ⟨c, hbuilt⟩ := p.built .initiator
  obtain ⟨c', hbuilt'⟩ := p.built .responder
  obtain ⟨hone, s₀, f₀, pre₀, fr₀, hact₀, -, hphase₀, -⟩ := (p.between .responder).activated ha
  have hresp : (p.start .responder).phase = .responderAwaitingClientHello ∧
      (p.start .responder).txBacklog = [] := by
    cases hbuilt'.opening.2 with
    | failed hp =>
      have hhs := hact₀.handshaking
      rw [hphase₀, hp] at hhs
      cases hhs
    | responder hp htx => exact ⟨hp, htx⟩
  -- an initiator that was built failed has made nothing
  have hhs : (p.start .initiator).phase.handshaking = true := by
    cases hbuilt.opening.2 with
    | hybrid hp | fallback hp => rw [hp]; rfl
    | failed hp htx =>
      have hnone : activations (p.trace .initiator) = [] := by
        rcases hlist : activations (p.trace .initiator) with _ | ⟨b, bs⟩
        · rfl
        · have hb : (b.1, b.2) ∈ activations (p.trace .initiator) := by simp [hlist]
          obtain ⟨-, s, f, pre, fr, hact, -, hphase, -⟩ := (p.between .initiator).activated hb
          have hhs := hact.handshaking
          rw [hphase, hp] at hhs
          cases hhs
      obtain ⟨f, fs', s, pre, fr, hfs, -⟩ := p.activation_first (ρ := .responder) hP
        (List.forall_mem_nil _) (by rw [Role.peer, p.made_inactive hnone, htx]; rfl) ha
      cases hfs
  obtain ⟨f, hoff, hf⟩ := hbuilt.opening.2.offer hhs
  have hmade := p.made_initiator hoff hf
  obtain ⟨f', fs', s, pre, fr, hfs, hphase, hsuite, hact⟩ :=
    p.activation_first (ρ := .responder) hP (p.stream_fits .initiator hoff.fits) hmade ha
  obtain ⟨rfl, -⟩ := List.cons.inj hfs
  obtain ⟨g, hg, hrep⟩ := hoff.replied hP hconf (hphase.trans hresp.1) hsuite hact
  refine ⟨f, g, hoff, hmade, ?_, hrep⟩
  rw [p.stream_bytes, made, hresp.2, replies, hone]
  simp [Origin.reply_eq, hg]

/-- An initiator becomes active with the reply of an active responder, whose keys it
gets. -/
theorem Pairing.finished (hP : CorrectPrimitives P) (hconf : Confirms P)
    {a : SessionKeys × Origin} (ha : a ∈ activations (p.trace .initiator)) :
    ∃ b, activations (p.trace .responder) = [b] ∧ a.1 = b.1.mirror := by
  rcases hlist : activations (p.trace .responder) with _ | ⟨b, bs⟩
  · obtain ⟨c', hbuilt'⟩ := p.built .responder
    have htx : (p.start .responder).txBacklog = [] := by
      cases hbuilt'.opening.2 with
      | failed _ htx | responder _ htx => exact htx
    obtain ⟨f, fs', s, pre, fr, hfs, -⟩ := p.activation_first (ρ := .initiator) hP
      (List.forall_mem_nil _) (by rw [Role.peer, p.made_inactive hlist, htx]; rfl) ha
    cases hfs
  · have hb : (b.1, b.2) ∈ activations (p.trace .responder) := by simp [hlist]
    obtain ⟨hone, -⟩ := (p.between .responder).activated hb
    obtain ⟨f, g, hoff, -, hmade, hrep⟩ := p.responded hP hconf hb
    obtain ⟨g', fs', s, pre, fr, hfs, hphase, -, hact⟩ :=
      p.activation_first (ρ := .initiator) hP (p.stream_fits .responder hrep.fits) hmade ha
    obtain ⟨rfl, -⟩ := List.cons.inj hfs
    exact ⟨b, hlist ▸ hone, hrep.mirrored s a.1 a.2 pre fr hphase hact⟩

/-- An active end with the suite and the keys of the other accepts its data frames. -/
theorem Pairing.hears_of (hP : CorrectPrimitives P) {s : FdState} {keys : SessionKeys}
    (hs : standing (p.status ρ) = some s) (hk : s.phase = .active keys) {f : ParsedFrame}
    (hfits : f.Fits) (htag : f.tag ≠ typeData)
    (hmade : made (p.start ρ.peer) (p.trace ρ.peer) =
      (p.stream ρ.peer f).flatMap ParsedFrame.bytes)
    (hsuite : (p.start ρ.peer).policySuite = (p.start ρ).policySuite)
    {a b : SessionKeys × Origin} (ha : activations (p.trace ρ) = [a])
    (hb : activations (p.trace ρ.peer) = [b]) (hkeys : a.1.rx = b.1.tx) : p.Hears ρ s keys := by
  obtain ⟨pd, hh⟩ := Pairing.history hs
  obtain ⟨c, hbuilt⟩ := p.built ρ
  obtain ⟨hfresh, -⟩ := hbuilt.opening
  obtain ⟨-, s₀, f₀, pre, fr, hact, -, hphase, -⟩ :=
    (p.between ρ).activated (show (a.1, a.2) ∈ activations (p.trace ρ) by simp [ha])
  have hrun : ∃ d, a.1.rx.Run (RecordBy P) (records (p.trace ρ.peer)) d := by
    obtain ⟨t₀, u, s', pd', ht, hh', hu⟩ := p.between ρ.peer
    rw [ht, activations_append, hu.silent.activations, List.append_nil] at hb
    rw [ht, records_append, hu.silent.records, List.append_nil, hkeys]
    cases hh'.recordAccount (p.inactive ρ.peer) with
    | none hnone =>
      rw [hnone] at hb
      cases hb
    | active hone hrun =>
      rw [hone] at hb
      cases hb
      exact ⟨_, hrun⟩
  have hin : Streamed P (p.start ρ) (p.stream ρ.peer f) (records (p.trace ρ.peer)) (p.trace ρ) := by
    refine ⟨hmade ▸ p.received_le ρ, fun a' ha' => ⟨⟨f, ?_⟩, ?_⟩⟩
    · rw [Pairing.stream, hsuite]
    · rw [ha, List.mem_singleton] at ha'
      exact ha' ▸ hrun
  cases hh.position hP (hphase ▸ hact.handshaking) hfresh.rxWire hfresh.rxPlain
      (p.stream_fits ρ.peer hfits) hin (by simp [hk]) with
  | waiting hhs =>
    rw [hk] at hhs
    cases hhs
  | @reading keys' f' old new d hphase' hfs hrs hwire hplain hrun' =>
    rw [hk] at hphase'
    cases hphase'
    obtain ⟨rfl, -⟩ := List.cons.inj hfs
    refine ⟨f, old, new, htag, hrs, hsuite ▸ hwire, hplain, ?_⟩
    rw [hsuite, hh.wire.suite]
    exact accepts_of_run hP _ hrun'

theorem Pairing.Active.activated {s : Role → FdState} {keys : Role → SessionKeys}
    (h : p.Active s keys) (ρ : Role) : ∃ a, activations (p.trace ρ) = [a] := by
  obtain ⟨pd, hh⟩ := Pairing.history (h.standing ρ)
  obtain ⟨a, ha, -⟩ := hh.keyed (p.inactive ρ) (h.phase ρ)
  exact ⟨a, ha⟩

theorem Pairing.Active.policySuite {s : Role → FdState} {keys : Role → SessionKeys}
    (h : p.Active s keys) (ρ : Role) : (s ρ).policySuite = (p.start ρ).policySuite := by
  obtain ⟨pd, hh⟩ := Pairing.history (h.standing ρ)
  exact hh.wire.suite

/-- Of a session that has not become active, the first frame it looked at was the end. -/
theorem History.unlooked {aside : Prop} {s₀ s : FdState} {t : Tr} {pd : Option Bytes}
    (h : History P aside s₀ t s pd) (hs₀ : ∀ keys, s₀.phase ≠ .active keys)
    (ha : activations t = []) (hlive : s.phase ≠ .failed) : pops t = [] := by
  induction h with
  | start => rfl
  | quiet _ o ho r ih =>
    have hi := Op.inert_of_quiet ho r
    rw [activations_append, hi.activations, List.append_nil] at ha
    rw [pops_append, ih ha hlive]
    cases o with
    | note n => cases n <;> first | rfl | cases ho
    | _ => rfl
  | sent _ _ _ _ _ ih | stalled _ _ _ _ _ _ ih | pulled _ _ _ _ _ _ _ _ ih
  | unread _ _ _ _ _ _ ih | delivered _ _ _ ih | queued _ _ _ _ ih =>
    rw [activations_append] at ha
    rw [pops_append, ih (List.append_eq_nil_iff.mp ha).1 hlive]
    rfl
  | activated => simp at ha
  | opened h hphase _ _ _ _ _ _ | sealed h hphase _ _ _ =>
    rw [activations_append] at ha
    exact absurd hphase ((h.inactive_records hs₀ (List.append_eq_nil_iff.mp ha).1).2 _)
  | restamped _ hphase => exact absurd hphase hlive
  | rejected | refused | failed | retired | flooded => exact absurd rfl hlive

end

/-- Whatever policies, postures, identities and PSKs the two ends have, in whatever
interleaving. -/
theorem Pairing.talks_iff {P : Primitives} (hP : CorrectPrimitives P) (hconf : Confirms P)
    (p : Pairing P) :
    (∀ s keys, p.Active s keys → (p.Talks s keys ↔ p.Hybrid ∨ p.Alike)) ∧
      (p.Hybrid → ¬p.Alike → p.Rejects) := by
  refine ⟨fun s keys hactive => ⟨fun htalks => .inr ?_, fun hcond => ?_⟩, fun hhybrid hne => ?_⟩
  · have hsuite := htalks.suite
    rwa [hactive.policySuite, hactive.policySuite] at hsuite
  · obtain ⟨a, ha⟩ := hactive.activated .initiator
    obtain ⟨b, hb, hkeys⟩ := p.finished hP hconf (a := a) (by simp [ha])
    obtain ⟨f, g, hoff, hmadex, hmadey, hrep⟩ := p.responded hP hconf (a := b) (by simp [hb])
    have halike : p.Alike := hcond.elim (fun ⟨state, hstate⟩ => hrep.suite state hstate) id
    refine ⟨by rw [hactive.policySuite, hactive.policySuite, halike], fun ρ => ?_⟩
    cases ρ with
    | initiator =>
      exact p.hears_of hP (hactive.standing _) (hactive.phase _) hrep.fits hrep.handshake hmadey
        halike.symm ha hb (by rw [hkeys]; rfl)
    | responder =>
      exact p.hears_of hP (hactive.standing _) (hactive.phase _) hoff.fits hoff.handshake hmadex
        halike hb ha (by rw [hkeys]; rfl)
  · obtain ⟨state, hstate⟩ := hhybrid
    have hresp : activations (p.trace .responder) = [] := by
      by_contra hsome
      obtain ⟨b, hb⟩ := List.exists_mem_of_ne_nil _ hsome
      obtain ⟨f, g, -, -, -, hrep⟩ := p.responded hP hconf hb
      exact hne (hrep.suite state hstate)
    refine ⟨fun ρ => ?_, fun s hs hpops => ?_⟩
    · cases ρ with
      | responder => exact hresp
      | initiator =>
        by_contra hsome
        obtain ⟨a, ha⟩ := List.exists_mem_of_ne_nil _ hsome
        obtain ⟨b, hb, -⟩ := p.finished hP hconf ha
        rw [hresp] at hb
        cases hb
    · by_contra hlive
      obtain ⟨pd, hh⟩ := Pairing.history hs
      exact hpops (hh.unlooked (p.inactive .responder) hresp hlive)

/-! ### Two degraded endpoints -/

/-- What holds of every pairing holds in every state of a connection. -/
def Connection.Ok.pairing {P : Primitives} {env : Role → Env} {st : Role → FdState}
    {c : Connection} (h : c.Ok P env st) (hst : ∀ ρ, (env ρ).Builds P ρ (st ρ)) : Pairing P where
  start := st
  log ρ := (c.ends ρ).log.map (Prod.map IoCall.call id)
  trace ρ := (c.ends ρ).trace
  status ρ := (c.ends ρ).status.map IoCall.call
  built ρ := by
    have hb := hst ρ
    cases ρ with
    | initiator =>
      obtain ⟨c, -, hat⟩ := hb
      exact ⟨c, hat⟩
    | responder =>
      obtain ⟨suite, c, -, hat⟩ := hb
      exact ⟨c, suite, hat⟩
  run ρ := reach_map IoCall.call (h.run ρ)
  fifo ρ := by
    have hle := h.fifo ρ.peer
    rw [Role.peer_peer] at hle
    exact ⟨_, hle.symm⟩

theorem Connection.play_trace {P : Primitives} {env : Role → Env} (eph : Ephemeral)
    (nonce : ByteArr 16) {n : ℕ} {ρ : Role} {i : IoCall} {c : Connection} (σ : Role) :
    (c.ends σ).trace <+: ((c.play eph nonce P env n ρ i).ends σ).trace := by
  unfold Connection.play
  split
  · split
    · rcases eq_or_ne σ ρ with rfl | hne
      · simp [Connection.after]
      · simp [Connection.after, hne]
    · exact List.prefix_rfl
  · exact List.prefix_rfl

/-- The keys of an end at rest that is active. -/
def Endpoint.activeKeys (e : Endpoint) : Option SessionKeys :=
  match e.status with
  | .idle ⟨.active keys, _, _, _, _, _, _, _⟩ => some keys
  | _ => none

theorem Connection.Ok.active {P : Primitives} {env : Role → Env} {st : Role → FdState}
    {c : Connection} (h : c.Ok P env st) (hst : ∀ ρ, (env ρ).Builds P ρ (st ρ))
    (hkeys : ∀ ρ, ((c.ends ρ).activeKeys).isSome = true) :
    ∃ s keys, (h.pairing hst).Active s keys := by
  have hone : ∀ ρ, ∃ (s : FdState) (keys : SessionKeys),
      (c.ends ρ).status = .idle s ∧ s.phase = .active keys := by
    intro ρ
    obtain ⟨keys, hk⟩ := Option.isSome_iff_exists.mp (hkeys ρ)
    unfold Endpoint.activeKeys at hk
    split at hk
    · rename_i hstatus
      exact ⟨_, _, hstatus, rfl⟩
    · cases hk
  choose s keys hstatus hphase using hone
  refine ⟨s, keys, fun ρ => ?_, hphase⟩
  change standing ((c.ends ρ).status.map IoCall.call) = some (s ρ)
  rw [hstatus]
  rfl

theorem specimen_confirms : Confirms specimen := by
  intro psk psk' nonce nonce' keys keys' reply hrespond hfinish
  obtain ⟨-, ct, hseal, rfl⟩ := fallbackRespond_eq_ok.mp hrespond
  obtain ⟨-, hopen⟩ := fallbackFinish_eq_ok.mp hfinish
  obtain ⟨-, -, rfl, -⟩ := SessionKeys.seal_eq_ok.mp hseal
  obtain ⟨-, rfl, -⟩ := SessionKeys.open_eq_ok.mp hopen
  rfl

theorem Pairing.talks_iff_degraded :
    ∃ (p : Pairing specimen) (s : Role → FdState) (keys : Role → SessionKeys),
      p.Active s keys ∧ p.Alike ∧ p.Talks s keys := by
  have hok := degradedOpen_reachable.ok
  obtain ⟨s, keys, hactive⟩ := hok.active degradedStart_builds fun ρ => by
    cases ρ <;> decide +kernel
  exact ⟨_, s, keys, hactive, rfl,
    ((Pairing.talks_iff specimen_correct specimen_confirms _).1 s keys hactive).mpr (.inr rfl)⟩

/-- Two degraded processes with one PSK and two policies. -/
def mixed (ρ : Role) : Env :=
  match ρ with
  | .initiator => degraded
  | .responder => { degraded with suite := .nistStandard1024 }

def mixedStart (ρ : Role) : FdState := { degradedStart ρ with policySuite := (mixed ρ).suite }

theorem mixedStart_builds (ρ : Role) : (mixed ρ).Builds specimen ρ (mixedStart ρ) := by
  cases ρ with
  | initiator => exact Env.built_at ⟨ramp 32, []⟩ (ramp 16) (by decide +kernel)
  | responder =>
    exact ⟨.nistStandard768, Env.built_at ⟨ramp 32, []⟩ (ramp 16) (by decide +kernel)⟩

def mixedPlay (ρ : Role) (i : IoCall) (c : Connection) : Connection :=
  c.play ⟨ramp 32, []⟩ (ramp 16) specimen mixed 60 ρ i

theorem mixedPlay_trace (ρ σ : Role) (i : IoCall) (c : Connection) :
    (c.ends σ).trace <+: ((mixedPlay ρ i c).ends σ).trace :=
  Connection.play_trace _ _ σ

theorem Connection.Reachable.mixedPlay {c₀ c : Connection}
    (h : Connection.Reachable specimen mixed c₀ c) (ρ : Role) (i : IoCall) :
    Connection.Reachable specimen mixed c₀ (mixedPlay ρ i c) :=
  h.play _ _ _ _ _

/-- Both ends after the handshake. -/
def mixedActive : Connection :=
  mixedPlay .initiator (.recv 1 Nat.one_pos 5) <|
  mixedPlay .responder (.recv 1 Nat.one_pos 5) <|
  mixedPlay .initiator (.recv 1 Nat.one_pos 5) (.start mixedStart)

/-- The initiator has sent two bytes, and the responder has tried to receive them. -/
def mixedRefused : Connection :=
  mixedPlay .responder (.recv 2 Nat.two_pos 5) <|
  mixedPlay .initiator (.send (ascii "hi") 5) mixedActive

theorem mixedActive_reachable :
    Connection.Reachable specimen mixed (.start mixedStart) mixedActive := by
  unfold mixedActive
  exact ((Connection.Reachable.start.mixedPlay _ _).mixedPlay _ _).mixedPlay _ _

theorem mixedRefused_reachable :
    Connection.Reachable specimen mixed (.start mixedStart) mixedRefused := by
  unfold mixedRefused
  exact (mixedActive_reachable.mixedPlay _ _).mixedPlay _ _

theorem mixedRefused_le (ρ : Role) :
    (mixedActive.ends ρ).trace <+: (mixedRefused.ends ρ).trace := by
  unfold mixedRefused
  exact (mixedPlay_trace .initiator ρ _ mixedActive).trans (mixedPlay_trace .responder ρ _ _)

theorem mixedRefused_closings : closings (mixedRefused.ends .initiator).trace = [] ∧
    (records (mixedRefused.ends .initiator).trace).length = 1 ∧
    closings (mixedRefused.ends .responder).trace = [.recordSuite] := by
  decide +kernel

/-- The fallback takes both ends with different policies to the active phase; the
first record the initiator seals then makes the responder fail. -/
theorem Pairing.talks_iff_not :
    ∃ (p p' : Pairing specimen) (s : Role → FdState) (keys : Role → SessionKeys),
      p.Active s keys ∧ (s .initiator).policySuite ≠ (s .responder).policySuite ∧
      p'.start = p.start ∧ (∀ ρ, p.trace ρ <+: p'.trace ρ) ∧
      closings (p'.trace .initiator) = [] ∧ (records (p'.trace .initiator)).length = 1 ∧
      closings (p'.trace .responder) = [.recordSuite] := by
  have hok := mixedActive_reachable.ok
  have hok' := mixedRefused_reachable.ok
  have hkeys : ∀ ρ, ((mixedActive.ends ρ).activeKeys).isSome = true := by
    intro ρ
    cases ρ <;> decide +kernel
  have hle := mixedRefused_le
  obtain ⟨hinit, hrec, hresp⟩ := mixedRefused_closings
  have hne : (mixedStart .initiator).policySuite ≠ (mixedStart .responder).policySuite := by decide
  -- from here on nothing is evaluated
  generalize mixedActive = c at *
  generalize mixedRefused = c' at *
  obtain ⟨s, keys, hactive⟩ := hok.active mixedStart_builds hkeys
  refine ⟨_, hok'.pairing mixedStart_builds, s, keys, hactive, ?_, rfl, hle, hinit, hrec, hresp⟩
  rw [hactive.policySuite, hactive.policySuite]
  exact hne

end SyntriassOverlay
