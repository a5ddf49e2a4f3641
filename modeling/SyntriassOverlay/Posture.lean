import SyntriassOverlay.Agreement

/-!
# Sessions and the availability posture

Which posture a session was in when it took the handshake it has: a fallback
handshake needs a degraded endpoint with a PSK, on both sides of the connection.
The hybrid arm of the responder asks for no posture at all.
-/

namespace SyntriassOverlay
open Crypto Resumption

/-- The keys are those of `derive_fallback`. -/
def Origin.fallback : Origin → Bool
  | .fallbackRespond _ _ _ _ | .fallbackFinish _ _ => true
  | .respond _ _ _ _ _ | .finish _ _ _ => false

/-- Both evaluations that `local_posture` combines, as they stand in a trace. -/
def Assessed (t : Tr) (posture : AvailabilityPosture) : Prop :=
  ∃ available psk, (⟨.pqcControlAvailable, available⟩ : Ev Resp) ∈ t ∧
    (⟨.resolveFallbackPsk, psk⟩ : Ev Resp) ∈ t ∧ selectPosture available psk.isSome = posture

/-- What an initiator has that accepts the frame `finished` of a fallback: `c` is the
trace of its construction. -/
structure Confirmed (P : Primitives) (c t : Tr) (keys : SessionKeys) (state : FallbackInitiator)
    (finished : Bytes) : Prop where
  posture : Assessed c .encryptedFallback
  psk : (⟨.resolveFallbackPsk, some state.psk⟩ : Ev Resp) ∈ c
  nonce : (⟨.freshNonce, state.clientNonce⟩ : Ev Resp) ∈ c
  received : ∃ f ∈ pops t, f.tag = typeFallbackFinished ∧ f.payload = finished
  opens : ∃ derived, deriveFallback P state.psk.val state.clientNonce.val
      (finished.take fallbackNonceLen) true = .ok derived ∧
    derived.open P (finished.drop fallbackNonceLen) = .ok (keys, fallbackConfirm)

/-- What a responder has done that answered the hello of a fallback: right after it
took the frame it found itself degraded and with a PSK. -/
def Degraded (t : Tr) (psk : ByteArr 32) (hello : Bytes) : Prop :=
  ∃ f psk', f.tag = typeFallbackHello ∧ f.payload = hello ∧
    [noted (.popped f), ⟨.pqcControlAvailable, false⟩, ⟨.resolveFallbackPsk, some psk'⟩,
      ⟨.resolveFallbackPsk, some psk⟩] <:+: t

section
variable {P : Primitives} {aside : Prop} {role : Role} {c t : Tr} {s₀ : FdState}

theorem Between.confirmed (h : Between P aside s₀ t) (ho : Opening P c s₀ role)
    {keys : SessionKeys} {state : FallbackInitiator} {finished : Bytes}
    (ha : (keys, .fallbackFinish state finished) ∈ activations t) :
    Confirmed P c t keys state finished := by
  obtain ⟨-, s, f, pre, fr, hact, hin, hphase, -⟩ := h.activated ha
  cases hact with
  | fallbackFinish hp htag hrun =>
    rw [hphase] at hp
    cases ho with
    | failed hp' | responder hp' | hybrid hp' => rw [hp] at hp'; cases hp'
    | fallback hp' _ _ havail hpsk hown hmem =>
      rw [hp] at hp'
      cases hp'
      refine ⟨⟨_, _, havail, hpsk, rfl⟩, hown, hmem, ⟨f, (mem_of_step hin).1, htag, rfl⟩, ?_⟩
      exact ⟨_, deriveFallback_eq _ _ _ true, (fallbackFinish_eq_ok.mp hrun).2⟩

theorem Between.degraded (h : Between P aside s₀ t) {keys : SessionKeys} {psk : ByteArr 32}
    {hello reply : Bytes} {nonce : ByteArr 16}
    (ha : (keys, .fallbackRespond psk hello nonce reply) ∈ activations t) :
    Degraded t psk hello := by
  obtain ⟨-, s, f, pre, fr, hact, hin, -, -⟩ := h.activated ha
  cases hact with
  | fallbackRespond psk' _ htag =>
    refine ⟨f, psk', htag, rfl, List.IsInfix.trans ?_ hin⟩
    exact (List.prefix_append _ _).isInfix

/-- With PQC control at every evaluation no handshake is a fallback. -/
theorem Between.no_fallback (h : Between P aside s₀ t) (ho : Opening P c s₀ role)
    (hc : ∀ b, (⟨.pqcControlAvailable, b⟩ : Ev Resp) ∈ c → b = true)
    (ht : ∀ b, (⟨.pqcControlAvailable, b⟩ : Ev Resp) ∈ t → b = true) :
    ∀ a ∈ activations t, a.2.fallback = false := by
  rintro ⟨keys, origin⟩ ha
  cases origin with
  | respond | finish => rfl
  | fallbackFinish state finished =>
    obtain ⟨available, psk, havail, -, hposture⟩ := (h.confirmed ho ha).posture
    rw [hc available havail] at hposture
    cases hposture
  | fallbackRespond psk hello nonce reply =>
    obtain ⟨f, psk', -, -, hin⟩ := h.degraded ha
    cases ht false (hin.subset (by simp))

theorem made_hybrid (ho : Opening P c s₀ role)
    (hc : ∀ b, (⟨.pqcControlAvailable, b⟩ : Ev Resp) ∈ c → b = true)
    (ha : ∀ a ∈ activations t, a.2.fallback = false) :
    ∃ fs : List ParsedFrame, made s₀ t = fs.flatMap ParsedFrame.bytes ∧
      ∀ f ∈ fs, f.tag ≠ typeFallbackHello ∧ f.tag ≠ typeFallbackFinished := by
  have hfirst : ∃ fs : List ParsedFrame, s₀.txBacklog = fs.flatMap ParsedFrame.bytes ∧
      ∀ f ∈ fs, f.tag = typeClientHello := by
    cases ho with
    | failed _ htx | responder _ htx => exact ⟨[], htx, List.forall_mem_nil _⟩
    | @hybrid identity eph state hello _ _ hframe =>
      refine ⟨[⟨s₀.policySuite.id, typeClientHello, hello⟩], ?_, by simp⟩
      simpa [ParsedFrame.bytes] using (frame_eq_some.mp hframe).2
    | fallback _ _ _ havail => cases hc false havail
  obtain ⟨fs, htx, hfs⟩ := hfirst
  refine ⟨fs ++ (activations t).flatMap (fun a => a.2.replyFrames) ++
    (records t).map (dataFrame s₀.policySuite), ?_, ?_⟩
  · rw [made, htx, replies, dataFrames_eq, List.flatMap_append, List.flatMap_append,
      List.flatMap_assoc]
    simp only [Origin.reply_eq]
  · intro f hf
    rcases List.mem_append.mp hf with hf | hf
    · rcases List.mem_append.mp hf with hf | hf
      · rw [hfs f hf]
        decide
      · obtain ⟨⟨keys, origin⟩, hmem, hf⟩ := List.mem_flatMap.mp hf
        have hne := ha _ hmem
        cases origin with
        | respond =>
          rw [List.mem_singleton.mp hf]
          exact (by decide : typeServerHello ≠ typeFallbackHello ∧
            typeServerHello ≠ typeFallbackFinished)
        | finish => cases hf
        | fallbackRespond | fallbackFinish => cases hne
    · obtain ⟨r, -, rfl⟩ := List.mem_map.mp hf
      exact (by decide : typeData ≠ typeFallbackHello ∧ typeData ≠ typeFallbackFinished)

end

/-! ### Downgrade resistance -/

/-- PQC control was available whenever it was asked for, by the thread that built the
session and in every call on it. -/
def Session.Healthy (se : Session) : Prop :=
  (∀ b, (⟨.query .pqcControlAvailable, b⟩ : Ev HookResp) ∈ se.birth → b = true) ∧
    ∀ b, (⟨.pqcControlAvailable, b⟩ : Ev Resp) ∈ se.trace → b = true

/-- The session takes a fallback only where its endpoint is degraded. -/
structure Session.DowngradeResistant (P : Primitives) (se : Session) : Prop where
  emits : se.Healthy → ∃ fs : List ParsedFrame, se.handed <+: fs.flatMap ParsedFrame.bytes ∧
    ∀ f ∈ fs, f.tag ≠ typeFallbackHello ∧ f.tag ≠ typeFallbackFinished
  activates : se.Healthy → ∀ a ∈ activations se.trace, a.2.fallback = false
  confirmed : ∀ keys state finished, (keys, .fallbackFinish state finished) ∈ activations se.trace →
    ∃ pre c, se.birth = pre ++ c.map queried ∧ Confirmed P c se.trace keys state finished
  degraded : ∀ keys psk hello nonce reply,
    (keys, .fallbackRespond psk hello nonce reply) ∈ activations se.trace →
      Degraded se.trace psk hello
  keyed : ∀ s k, se.status = .idle s → s.phase = .active k →
    ∃ a, activations se.trace = [a] ∧ k.tx.key = a.1.tx.key ∧ k.rx.key = a.1.rx.key

theorem Session.Ok.downgradeResistant {P : Primitives} {pid : Pid} {se : Session}
    (h : se.Ok P pid) (hown : se.inherited = false) (hholder : se.holder ≠ some .gone) :
    se.DowngradeResistant P := by
  have hbetween := h.between hown hholder
  obtain ⟨pre, c, hbirth, hf, ho⟩ := h.opening hown
  have hquery : se.Healthy → ∀ b, (⟨.pqcControlAvailable, b⟩ : Ev Resp) ∈ c → b = true := by
    intro hh b hb
    refine hh.1 b ?_
    rw [hbirth]
    exact List.mem_append_right _ (List.mem_map.mpr ⟨_, hb, rfl⟩)
  have hnone : se.Healthy → ∀ a ∈ activations se.trace, a.2.fallback = false :=
    fun hh => hbetween.no_fallback ho (hquery hh) hh.2
  refine ⟨fun hh => ?_, hnone, ?_, ?_, ?_⟩
  · obtain ⟨fs, hmade, hfs⟩ := made_hybrid ho (hquery hh) (hnone hh)
    exact ⟨fs, hmade ▸ h.handed_le hown hholder, hfs⟩
  · exact fun keys state finished ha => ⟨pre, c, hbirth, hbetween.confirmed ho ha⟩
  · exact fun keys psk hello nonce reply ha => hbetween.degraded ha
  · intro s k hidle hk
    have hheld := h.held hown hholder
    rw [hidle] at hheld
    exact hheld.history.keyed ho.inactive hk

/-- In every reachable state of a process, whatever calls were made and whatever bytes
came in. -/
theorem Process.downgrade_resistant {P : Primitives} {pid : Pid} {p : Process}
    (hp : Process.Reachable P (Process.initial pid true) p) :
    ∀ se ∈ p.sessions, se.DowngradeResistant P := by
  intro se hmem
  obtain ⟨hown, hholder⟩ := hp.own se hmem
  exact ((hp.ok (Process.initial_ok pid)).sessions se hmem).downgradeResistant hown hholder

/-- A degraded client, active with the keys of the PSK. -/
theorem Process.downgrade_resistant_fallbackClient :
    ((fallbackClient [10, 100, 5, 1000]).1.sessions.map fun se =>
      (activations se.trace).map fun a => a.2.fallback) = [[true]] ∧
    ∀ se ∈ (fallbackClient [10, 100, 5, 1000]).1.sessions, se.DowngradeResistant specimen :=
  ⟨by decide +kernel, Process.downgrade_resistant (fallbackClient_reachable _)⟩

/-! ### An endpoint without PQC control and without a PSK -/

/-- Every evaluation that goes into the posture is one of an endpoint that has neither. -/
structure FailsClosed (t : Tr) : Prop where
  unavailable : ∀ b, (⟨.pqcControlAvailable, b⟩ : Ev Resp) ∈ t → b = false
  unkeyed : ∀ psk, (⟨.resolveFallbackPsk, psk⟩ : Ev Resp) ∈ t → psk = none

/-- The frame is a client hello in the suite of the policy that its engine accepts with
an identity configured in the run. -/
def Welcome (P : Primitives) (t : Tr) (st : FdState) (f : ParsedFrame) : Prop :=
  f.tag = typeClientHello ∧ CipherSuite.fromId f.suiteId = some st.policySuite ∧
    ∃ identity eph out, (⟨.resolveIdentity, .ok identity⟩ : Ev Resp) ∈ t ∧
      st.policySuite.respond P identity f.payload eph = .ok out

theorem fail_closed_posture {P : Primitives} {role : Role} {c : Tr} {st : FdState}
    (hst : Built P role c st) {log : List (FdCall × FdRet)} {t : Tr}
    {status : Status Resp FdCall FdState FdRet} (hrun : Reach (FdCall.run P) st log t status)
    (hposture : FailsClosed (c ++ t))
    (hwelcome : role = .initiator ∨ ∀ f ∈ pops t, ¬ Welcome P t st f) :
    activations t = [] ∧ ∀ s k, status = .idle s → s.phase ≠ .active k := by
  obtain ⟨hfresh, ho⟩ := hst.opening
  have hsound := ho.sound hfresh
  have hbetween := run_between id (fun _ _ => trivial) hsound hfresh.settled hrun
  have hnone : activations t = [] := by
    refine List.eq_nil_iff_forall_not_mem.mpr ?_
    rintro ⟨keys, origin⟩ ha
    obtain ⟨-, s, f, pre, fr, hact, hin, hs, hsuite⟩ := hbetween.activated ha
    obtain ⟨hf, hpre⟩ := mem_of_step hin
    cases hact with
    | @respond identity eph keys reply fr hp htag hfrom hrespond =>
      rw [hs] at hp
      rw [hsuite] at hfrom hrespond
      rcases hwelcome with rfl | hwelcome
      · cases ho with
        | failed hp' | hybrid hp' | fallback hp' => rw [hp] at hp'; cases hp'
      · exact hwelcome f hf ⟨htag, hfrom, identity, eph, _, hpre (by simp), hrespond⟩
    | @fallbackRespond psk =>
      cases hposture.unkeyed (some psk) (List.mem_append_right _ (hpre (by simp)))
    | finish hp =>
      rw [hs] at hp
      cases ho with
      | failed hp' | responder hp' | fallback hp' => rw [hp] at hp'; cases hp'
      | hybrid _ _ _ _ havail => cases hposture.unavailable true (List.mem_append_left _ havail)
    | fallbackFinish hp =>
      rw [hs] at hp
      cases ho with
      | failed hp' | responder hp' | hybrid hp' => rw [hp] at hp'; cases hp'
      | @fallback psk _ _ _ _ _ _ _ hown =>
        cases hposture.unkeyed (some psk) (List.mem_append_left _ hown)
  refine ⟨hnone, fun s k hidle hk => ?_⟩
  subst hidle
  have hheld := run_held id (fun _ _ => trivial) hsound hfresh.settled hrun
  obtain ⟨a, hone, -⟩ := hheld.history.keyed ho.inactive hk
  rw [hnone] at hone
  cases hone

/-- Process 7 without PQC control and without a PSK. -/
def unavailable : Env where
  pid := 7
  epoch := 0
  suite := .nistStandard768
  identity := specimenIdentity
  available := false
  psk := none

theorem unavailable_failsClosed {t : Tr} (h : unavailable.Steady t) : FailsClosed t :=
  ⟨fun _ hb => h _ hb, fun _ hpsk => h _ hpsk⟩

/-- What `ensure_tracked` builds there. -/
def unavailableResponder : FdState where
  phase := .responderAwaitingClientHello
  ownerPid := 7
  policySuite := .nistStandard768
  configEpoch := 0
  txBacklog := []
  rxWire := []
  rxPlain := []
  countedActive := false

theorem unavailableResponder_built (P : Primitives) :
    ∃ c, unavailable.Steady c ∧ Built P .responder c unavailableResponder := by
  have hbuilt : unavailable.built ⟨ramp 32, []⟩ (ramp 16) (newResponderState .nistStandard768) =
      some unavailableResponder := rfl
  obtain ⟨c, hc, hat⟩ := Env.built_at _ _ hbuilt
  exact ⟨c, hc, _, hat⟩

theorem unavailableResponder_run {P : Primitives} {c : FdCall} {eph : Ephemeral} {b : Bytes}
    {s : FdState} {a : FdRet} {t : Tr} {w : Bytes × Bytes}
    (h : runWith (unavailable.answer eph (ramp 16)) 60 (c.run P unavailableResponder) ([], b) =
      (.done s a, t, w)) :
    unavailable.Steady t ∧ Reach (FdCall.run P) unavailableResponder [(c, a)] t (.idle s) := by
  have hsteady := unavailable.runWith_steady eph (ramp 16) 60 (c.run P unavailableResponder) ([], b)
  have hnode := at_runWith (unavailable.answer eph (ramp 16)) 60 (c.run P unavailableResponder)
    ([], b)
  rw [h] at hsteady hnode
  have hstart : Reach (FdCall.run P) unavailableResponder [] [] (.idle unavailableResponder) :=
    .start
  have hreach := (reach_at (hstart.enter c) hnode).leave
  exact ⟨hsteady, hreach⟩

/-- A responder there that is offered a fallback. -/
theorem fail_closed_posture_hello : ∃ c t s log,
    Built specimen .responder c unavailableResponder ∧ FailsClosed (c ++ t) ∧
    Reach (FdCall.run specimen) unavailableResponder log t (.idle s) ∧
    (pops t).map ParsedFrame.tag = [typeFallbackHello] ∧ activations t = [] := by
  obtain ⟨c, hc, hbuilt⟩ := unavailableResponder_built specimen
  have hrun : ∃ t w, runWith (unavailable.answer ⟨ramp 32, []⟩ (ramp 16)) 60
      ((FdCall.recv 1 Nat.one_pos 0 3).run specimen unavailableResponder)
      ([], frameBytes fallbackWireId typeFallbackHello (ramp 16).val) =
        (.done unavailableResponder.closed (.received (.error EPIPE)), t, w) ∧
      (pops t).map ParsedFrame.tag = [typeFallbackHello] := ⟨_, _, rfl, rfl⟩
  obtain ⟨t, w, hrun, hpops⟩ := hrun
  obtain ⟨hsteady, hreach⟩ := unavailableResponder_run hrun
  have hclosed : FailsClosed (c ++ t) := unavailable_failsClosed fun e he =>
    (List.mem_append.mp he).elim (hc e) (hsteady e)
  refine ⟨c, t, _, _, hbuilt, hclosed, hreach, hpops, ?_⟩
  refine (fail_closed_posture hbuilt hreach hclosed (.inr fun f hf hw => ?_)).1
  have htag := List.mem_map_of_mem (f := ParsedFrame.tag) hf
  rw [hpops, hw.1] at htag
  exact absurd htag (by decide)

theorem overlayRecv_clientHello {P : Primitives} {hello reply : Bytes} {keys : SessionKeys}
    {eph : Ephemeral} (hlen : hello.length + 6 ≤ pullSize) (hrep : reply.length + 6 ≤ pullSize)
    (hrespond : CipherSuite.nistStandard768.respond P specimenIdentity hello eph =
      .ok (keys, reply)) :
    ∃ t w, runWith (unavailable.answer eph (ramp 16)) 60
        ((FdCall.recv 1 Nat.one_pos 0 3).run P unavailableResponder)
        ([], frameBytes 1 typeClientHello hello) =
      (.done { unavailableResponder with phase := .active keys, countedActive := true }
        (.received (.error EAGAIN)), t, w) := by
  have hmax : pullSize + 2 ≤ maxFrameBody ∧ pullSize ≤ maxWriteBacklog := by decide
  obtain ⟨hpos, htake, hdrop, hpop, happ⟩ :=
    ParsedFrame.whole (f := ⟨1, typeClientHello, hello⟩) hlen
  have hout : (frameBytes 1 typeServerHello reply).length = reply.length + 6 :=
    frameBytes_length _ _ _
  have hframe : frame 1 typeServerHello reply = some (frameBytes 1 typeServerHello reply) :=
    frame_eq_some.mpr ⟨by omega, rfl⟩
  rw [ParsedFrame.bytes] at hpos htake hdrop hpop happ
  generalize frameBytes 1 typeClientHello hello = fr at hpos htake hdrop hpop happ ⊢
  generalize frameBytes 1 typeServerHello reply = out at hframe hout
  have hpos' : 0 < out.length := by omega
  have hne : out ≠ [] := List.ne_nil_of_length_pos hpos'
  have hqueue : ∀ s : FdState, s.txBacklog = [] →
      s.appendTx out = some { s with txBacklog := out } := by
    intro s hs
    refine FdState.appendTx_eq_some.mpr ⟨?_, by rw [hs]; rfl⟩
    rw [hs, List.length_nil]
    omega
  have hnil : tryPopFrame [] = .ok none := rfl
  have hid : CipherSuite.fromId 1 = some .nistStandard768 := rfl
  simp [FdCall.run, overlayRecv, inheritedAfterFork, failIfStaleIdleConfig, isBlocking, iter,
    recvRound, openOrPull, pullForRecv, pullWire, driveHandshake, onHandshakeFrame, onClientHello,
    queueFrame, activate, openRecords, flushBacklog, FdPhase.handshaking, runWith, Env.answer,
    unavailable, unavailableResponder, note, hpos, hpos', hne, htake, hdrop, happ, hqueue, hpop,
    hnil, hid, hframe, hrespond, CipherSuite.id, typeClientHello, oNonblock, wouldBlock]

theorem fail_closed_posture_bypassed : ∃ c t s log k,
    Built specimenLogged .responder c unavailableResponder ∧ FailsClosed (c ++ t) ∧
    unavailable.Steady (c ++ t) ∧
    Reach (FdCall.run specimenLogged) unavailableResponder log t (.idle s) ∧
    s.phase = .active k := by
  obtain ⟨c, hc, hbuilt⟩ := unavailableResponder_built specimenLogged
  have hoffer := specimenOffer.bytes_length
  have hanswer := specimenAnswer.bytes_length
  have hmax : x25519Len + 1184 + identityPublicLen + identitySignatureLen + 6 ≤ pullSize ∧
      x25519Len + 1088 + identityPublicLen + identitySignatureLen + 6 ≤ pullSize := by decide
  obtain ⟨t, w, hrun⟩ := overlayRecv_clientHello (by omega) (by omega) specimen_responded
  obtain ⟨hsteady, hreach⟩ := unavailableResponder_run hrun
  have hall : unavailable.Steady (c ++ t) := fun e he =>
    (List.mem_append.mp he).elim (hc e) (hsteady e)
  exact ⟨c, t, _, _, _, hbuilt, unavailable_failsClosed hall, hall, hreach, rfl⟩

end SyntriassOverlay
