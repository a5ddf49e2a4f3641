import SyntriassOverlay.Egress
import SyntriassOverlay.Limits
import SyntriassOverlay.Waiting

/-!
# Which bytes make a session active

The header of a frame is outside every signature and every AEAD tag. Whether a session that
waits in the handshake accepts a frame depends on the six bytes of the header all the same:
the length is pinned by what the engines accept, the type by the phase, and the suite byte
of a hybrid frame by the policy. Nothing looks at the suite byte of a fallback frame.
-/

namespace SyntriassOverlay
open Crypto Resumption BigEndian

/-- The suite byte that an honest peer puts into a handshake frame of this type. -/
def honestSuite (st : FdState) (tag : UInt8) : UInt8 :=
  if tag = typeFallbackHello ∨ tag = typeFallbackFinished then fallbackWireId else st.policySuite.id

/-- The frame has the type that is expected in the phase of `st`, a hybrid frame has the suite
byte of the policy, and the engine of its type accepts the payload. -/
inductive Acceptable (P : Primitives) (st : FdState) (f : ParsedFrame) : Prop
  | clientHello {identity : IdentityMaterial} {eph : Ephemeral} {keys : SessionKeys} {reply : Bytes}
      (hphase : st.phase = .responderAwaitingClientHello) (htag : f.tag = typeClientHello)
      (hsuite : f.suiteId = st.policySuite.id)
      (hrun : st.policySuite.respond P identity f.payload eph = .ok (keys, reply))
  | fallbackHello {psk : ByteArr 32} {nonce : ByteArr 16} {keys : SessionKeys} {reply : Bytes}
      (hphase : st.phase = .responderAwaitingClientHello) (htag : f.tag = typeFallbackHello)
      (hrun : fallbackRespond P psk f.payload nonce = .ok (keys, reply))
  | serverHello {state : InitiatorState} {identity : IdentityMaterial} {keys : SessionKeys}
      (hphase : st.phase = .initiatorAwaitingServerHello state) (htag : f.tag = typeServerHello)
      (hsuite : f.suiteId = st.policySuite.id)
      (hrun : state.finish P identity f.payload = .ok keys)
  | fallbackFinished {state : FallbackInitiator} {keys : SessionKeys}
      (hphase : st.phase = .initiatorAwaitingFallbackFinished state)
      (htag : f.tag = typeFallbackFinished) (hrun : state.finish P f.payload = .ok keys)

/-- A handshake frame as an honest peer makes it. -/
structure Valid (P : Primitives) (st : FdState) (f : ParsedFrame) : Prop where
  acceptable : Acceptable P st f
  suite : f.suiteId = honestSuite st f.tag

/-- The stream `w` makes the session `st` active only by a handshake frame at its start that is
right in every byte of its header. -/
structure BitExact (P : Primitives) (st : FdState) (w : Bytes) : Prop where
  exact : ∀ log t status, Reach (FdCall.run P) st log t status → receivedBytes t <+: w →
    activations t ≠ [] → ∃ f rest, frame f.suiteId f.tag f.payload = some f.bytes ∧
      w = f.bytes ++ rest ∧ (pops t).head? = some f ∧ Valid P st f
  tampered : ∀ g i x, Valid P st g → i < 6 → x ≠ g.bytes.getD i 0 → g.bytes.set i x <+: w →
    ∀ log t status, Reach (FdCall.run P) st log t status → receivedBytes t <+: w →
      activations t = []

/-! ### The header of a valid frame -/

/-- The length of the payload that the engine for a tag accepts. -/
def payloadLength (st : FdState) (tag : UInt8) : ℕ :=
  if tag = typeFallbackHello then fallbackNonceLen
  else if tag = typeFallbackFinished then fallbackNonceLen + (fallbackConfirm.length + 16)
  else if tag = typeClientHello then
    x25519Len + st.policySuite.ekLen + identityPublicLen + identitySignatureLen
  else
    match st.phase with
    | .initiatorAwaitingServerHello state =>
      x25519Len + state.suite.ctLen + identityPublicLen + identitySignatureLen
    | _ => 0

section
variable {P : Primitives} {st : FdState} {f g : ParsedFrame}

theorem fallbackFinish_length {state : FallbackInitiator} {finished : Bytes} {keys : SessionKeys}
    (h : state.finish P finished = .ok keys) :
    finished.length = fallbackNonceLen + (fallbackConfirm.length + 16) := by
  obtain ⟨hlt, hopen⟩ := fallbackFinish_eq_ok.mp h
  have hlen := open_length hopen
  rw [List.length_drop] at hlen
  omega

theorem Acceptable.length (h : Acceptable P st f) : f.payload.length = payloadLength st f.tag := by
  cases h with
  | clientHello hphase htag _ hrun =>
    obtain ⟨client, -, -, hbody, -⟩ := suiteRespond_eq_ok.mp hrun
    rw [hbody, client.bytes_length, st.policySuite.kem_ekSize P, htag]
    rfl
  | fallbackHello hphase htag hrun =>
    rw [(fallbackRespond_eq_ok.mp hrun).1, htag]
    rfl
  | serverHello hphase htag _ hrun =>
    obtain ⟨server, -, hbody, -⟩ := suiteFinish_eq_ok.mp hrun
    rw [hbody, server.bytes_length, InitiatorState.suite, CipherSuite.kem_ctSize, htag]
    simp [payloadLength, hphase, typeServerHello, typeFallbackHello, typeFallbackFinished,
      typeClientHello]
  | fallbackFinished hphase htag hrun =>
    rw [fallbackFinish_length hrun, htag]
    rfl

theorem Acceptable.short (h : Acceptable P st f) : f.bytes.length ≤ pullSize := by
  have hek (s : CipherSuite) : x25519Len + s.ekLen + identityPublicLen + identitySignatureLen +
      6 ≤ pullSize := by cases s <;> decide
  have hct (s : CipherSuite) : x25519Len + s.ctLen + identityPublicLen + identitySignatureLen +
      6 ≤ pullSize := by cases s <;> decide
  rw [ParsedFrame.bytes, frameBytes_length, h.length]
  unfold payloadLength
  split_ifs
  · decide
  · decide
  · exact hek _
  · split
    · exact hct _
    · decide

theorem Acceptable.fits (h : Acceptable P st f) : f.payload.length + 2 ≤ maxFrameBody := by
  have hshort := h.short
  have hmax : pullSize ≤ maxFrameBody := by decide
  rw [ParsedFrame.bytes, frameBytes_length] at hshort
  omega

theorem Acceptable.tags (hf : Acceptable P st f) (hg : Acceptable P st g) : f.tag = g.tag ∨
    (f.tag = typeClientHello ∧ g.tag = typeFallbackHello) ∨
      f.tag = typeFallbackHello ∧ g.tag = typeClientHello := by
  cases hf with
  | clientHello hp ht =>
    cases hg with
    | clientHello _ ht' => exact .inl (ht.trans ht'.symm)
    | fallbackHello _ ht' => exact .inr (.inl ⟨ht, ht'⟩)
    | serverHello hp' | fallbackFinished hp' => rw [hp] at hp'; cases hp'
  | fallbackHello hp ht =>
    cases hg with
    | clientHello _ ht' => exact .inr (.inr ⟨ht, ht'⟩)
    | fallbackHello _ ht' => exact .inl (ht.trans ht'.symm)
    | serverHello hp' | fallbackFinished hp' => rw [hp] at hp'; cases hp'
  | serverHello hp ht =>
    cases hg with
    | serverHello _ ht' => exact .inl (ht.trans ht'.symm)
    | clientHello hp' | fallbackHello hp' | fallbackFinished hp' => rw [hp] at hp'; cases hp'
  | fallbackFinished hp ht =>
    cases hg with
    | fallbackFinished _ ht' => exact .inl (ht.trans ht'.symm)
    | clientHello hp' | fallbackHello hp' | serverHello hp' => rw [hp] at hp'; cases hp'

/-- The six bytes in front of the payload. -/
def ParsedFrame.header (f : ParsedFrame) : Bytes := f.bytes.take 6

theorem ParsedFrame.header_eq (f : ParsedFrame) :
    f.header = beBytes hdrLen (2 + f.payload.length) ++ [f.suiteId, f.tag] := by
  have hlen : (beBytes hdrLen (2 + f.payload.length) ++ [f.suiteId, f.tag]).length = 6 := by
    simp [hdrLen]
  exact List.take_left' hlen

theorem ParsedFrame.header_suite (f : ParsedFrame) : f.header[4]? = some f.suiteId := by
  rw [f.header_eq, List.getElem?_append_right (by simp [hdrLen])]
  simp [hdrLen]

theorem ParsedFrame.header_tag (f : ParsedFrame) : f.header[5]? = some f.tag := by
  rw [f.header_eq, List.getElem?_append_right (by simp [hdrLen])]
  simp [hdrLen]

/-- The headers of two valid frames are equal or differ in two places. -/
theorem Valid.headers (hf : Valid P st f) (hg : Valid P st g) : f.header = g.header ∨
    f.header[4]? ≠ g.header[4]? ∧ f.header[5]? ≠ g.header[5]? := by
  have hid : st.policySuite.id ≠ fallbackWireId := by cases st.policySuite <;> decide
  rcases hf.acceptable.tags hg.acceptable with htag | ⟨htf, htg⟩ | ⟨htf, htg⟩
  · refine .inl ?_
    rw [f.header_eq, g.header_eq, hf.acceptable.length, hg.acceptable.length, hf.suite, hg.suite,
      htag]
  · refine .inr ⟨?_, ?_⟩
    · rw [f.header_suite, g.header_suite, hf.suite, hg.suite, htf, htg]
      exact fun heq => hid (Option.some.inj heq)
    · rw [f.header_tag, g.header_tag, htf, htg]
      decide
  · refine .inr ⟨?_, ?_⟩
    · rw [f.header_suite, g.header_suite, hf.suite, hg.suite, htf, htg]
      exact fun heq => hid (Option.some.inj heq).symm
    · rw [f.header_tag, g.header_tag, htf, htg]
      decide

/-- No valid frame starts a stream that starts with another one whose header is changed in
one place. -/
theorem Valid.not_tampered (hf : Valid P st f) (hg : Valid P st g) {i : ℕ} (hi : i < 6) {x : UInt8}
    (hx : x ≠ g.bytes.getD i 0) {rest : Bytes} (hw : g.bytes.set i x <+: f.bytes ++ rest) :
    False := by
  have hlen (h : ParsedFrame) : 6 ≤ h.bytes.length := by
    rw [ParsedFrame.bytes, frameBytes_length]
    omega
  have hheader : f.header = g.header.set i x := by
    obtain ⟨more, hmore⟩ := hw
    have hset : 6 ≤ (g.bytes.set i x).length := by
      rw [List.length_set]
      exact hlen g
    have htake : (g.bytes.set i x).take 6 = f.bytes.take 6 := by
      rw [← List.take_append_of_le_length hset, hmore, List.take_append_of_le_length (hlen f)]
    rw [List.take_set] at htake
    exact htake.symm
  have hat : f.header[i]? = some x := by
    rw [hheader, List.getElem?_set_self]
    simpa [ParsedFrame.header, hi] using lt_of_lt_of_le hi (hlen g)
  have hother (j : ℕ) (hj : i ≠ j) : f.header[j]? = g.header[j]? := by
    rw [hheader, List.getElem?_set_ne hj]
  rcases hf.headers hg with heq | ⟨hsuite, htag⟩
  · refine hx ?_
    rw [heq, ParsedFrame.header, List.getElem?_take_of_lt hi] at hat
    rw [List.getD_eq_getElem?_getD, hat]
    rfl
  · have hfour : i = 4 := by_contra fun h => hsuite (hother 4 h)
    have hfive : i = 5 := by_contra fun h => htag (hother 5 h)
    omega

end

/-! ### What has been read when the handshake ends -/

section
variable {P : Primitives} {aside : Prop} {s₀ s : FdState} {t : Tr} {pd : Option Bytes}

theorem Activation.acceptable {f : ParsedFrame} {keys : SessionKeys} {origin : Origin} {pre : Tr}
    {fr : Bytes} (h : Activation P s f keys origin pre fr) (hphase : s.phase = s₀.phase)
    (hsuite : s.policySuite = s₀.policySuite) : Acceptable P s₀ f := by
  cases h with
  | respond hp htag hid hrun =>
    rw [hphase] at hp
    rw [hsuite] at hid hrun
    exact .clientHello hp htag (CipherSuite.fromId_eq_some.mp hid) hrun
  | fallbackRespond _ hp htag hrun => exact .fallbackHello (hphase ▸ hp) htag hrun
  | finish hp htag hid hrun => exact .serverHello (hphase ▸ hp) htag (hsuite ▸ hid) hrun
  | fallbackFinish hp htag hrun => exact .fallbackFinished (hphase ▸ hp) htag hrun

/-- The bytes that made a session active: the first frame of what was read. -/
theorem Between.welcomed (h : Between P aside s₀ t) (hs₀ : s₀.Sound) (hwire : s₀.rxWire = [])
    (ha : activations t ≠ []) : ∃ f rest, receivedBytes t = f.bytes ++ rest ∧
      (pops t).head? = some f ∧ Acceptable P s₀ f := by
  obtain ⟨t₀, u, s, pd, rfl, hh, hu⟩ := h
  rw [activations_append, hu.silent.activations, List.append_nil] at ha
  cases hh.beginning with
  | none hnone => exact absurd hnone ha
  | @once keys origin _ hact =>
    obtain ⟨a⟩ := hact
    have hhs := a.activation.handshaking
    have hacc := a.activation.acceptable (a.history.handshaking_untouched hhs).1
      a.history.wire.suite
    have hlive := FdPhase.ne_failed_of_handshaking hhs
    have hpops := (a.history.handshaking_iff
      ((a.history.handshaking_untouched hhs).1 ▸ hhs) hlive).mp hhs
    have hread : receivedBytes a.before = a.state.rxWire := by
      have hall := (a.history.buffered hs₀).alive hlive
      rwa [hwire, hpops] at hall
    obtain ⟨heq, -⟩ := tryPopFrame_eq_some a.popped
    obtain ⟨v, htrace⟩ : ∃ v, t₀ ++ u = a.before ++ noted (.popped a.frame) :: v := by
      obtain ⟨v, hv⟩ := a.within
      refine ⟨a.pre ++ activateSeg a.state keys origin ++ v ++ u, ?_⟩
      refine (congrArg (· ++ u) hv.symm).trans ?_
      simp
    refine ⟨a.frame, a.rest ++ receivedBytes v, ?_, ?_, hacc⟩
    · rw [htrace, receivedBytes_append, hread, heq, List.append_assoc, receivedBytes_popped]
    · rw [htrace, pops_append, hpops, pops_popped]
      rfl

end

/-! ### A stream that makes a session active -/

section
variable {P : Primitives} {s st : FdState} {f : ParsedFrame}

theorem flushBacklog_zero (s : FdState) (flags : Flags) (n : ℕ) :
    ∃ u b, At (flushBacklog flags (n + 1) s) u (.done s (.ok b)) ∧ receivedBytes u = [] := by
  by_cases htx : s.txBacklog = []
  · refine ⟨[], true, ?_, rfl⟩
    have hdone : flushBacklog flags (n + 1) s = .done s (.ok true) := by
      simp [flushBacklog, iter, htx]
    rw [hdone]
    exact .refl
  · refine ⟨[⟨.send s.txBacklog flags, .zero⟩], false, ?_, rfl⟩
    simp only [flushBacklog, iter, bind_apply, get_apply, bind_done, List.isEmpty_iff, htx,
      if_false, perform_apply, bind_call]
    exact .head .refl

theorem recvRound_pulls (hhs : s.phase.handshaking = true) (hplain : s.rxPlain = [])
    (hrx : s.rxWire = []) (len : ℕ) (flags : Flags) (blocking : Bool) (n : ℕ) {d : Bytes}
    (hd : 0 < d.length ∧ d.length ≤ pullSize) :
    ∃ u, At (recvRound P len flags blocking (n + 1) s) u
      (.done { s with rxWire := d } (.inl ())) ∧ receivedBytes u = d := by
  obtain ⟨u, b, hflush, hu⟩ := flushBacklog_zero s flags n
  have hroom : pullSize ≤ maxWireRxBuffer := by decide
  have happ : s.appendRxWire d = some { s with rxWire := d } := by
    refine FdState.appendRxWire_eq_some.mpr ⟨?_, by rw [hrx]; rfl⟩
    rw [hrx, List.length_nil]
    omega
  have hdrive : driveHandshake P (n + 1) s = .done s () := by
    have hnil : tryPopFrame [] = .ok none := rfl
    simp [driveHandshake, iter, hrx, hnil]
  have hpull : At (openOrPull P flags blocking (n + 1) s) [⟨.recv flags, .data d hd⟩]
      (.done { s with rxWire := d } (.inl ())) := by
    have hpull : openOrPull P flags blocking (n + 1) s = pullForRecv flags blocking s := by
      cases hphase : s.phase with
      | active | failed => rw [hphase] at hhs; cases hhs
      | _ => simp only [openOrPull, bind_apply, get_apply, bind_done, hphase]
    rw [hpull]
    simp only [pullForRecv, pullWire, bind_apply, perform_apply, bind_call]
    refine .head ?_
    simp only [bind_done, get_apply, happ, bind_apply, set_apply, pure_apply]
    exact .refl
  have hempty : s.rxPlain.isEmpty = true := by rw [hplain]; rfl
  refine ⟨u ++ (u ++ [⟨.recv flags, .data d hd⟩]), ?_, ?_⟩
  · simp only [recvRound, bind_apply, get_apply, bind_done, hempty, hhs, Bool.not_true,
      Bool.false_eq_true, if_false, if_true]
    refine (hflush.bind _).trans ?_
    simp only [bind_done, hdrive, bind_apply]
    refine (hflush.bind _).trans ?_
    simpa only [bind_done] using hpull
  · rw [receivedBytes_append, receivedBytes_append, hu]
    exact List.append_nil d

theorem driveHandshake_handles {rest : Bytes} {v : Tr} {q : Prog Resp FdState Unit}
    (hpop : tryPopFrame s.rxWire = .ok (some (f, rest)))
    (h : At (onHandshakeFrame P s.phase f { s with rxWire := rest, phase := .failed }) v q)
    (n : ℕ) : ∃ q', At (driveHandshake P (n + 1) s) (noted (.popped f) :: v) q' := by
  simp only [driveHandshake, iter, bind_apply, get_apply, bind_done, hpop, set_apply, note,
    perform_apply, bind_call]
  exact ⟨_, .head ((h.bind _).bind _)⟩

theorem onFallbackFinished_at {state : FallbackInitiator} {keys : SessionKeys}
    (hrun : state.finish P f.payload = .ok keys) (hcount : s.countedActive = false) :
    ∃ q, At (onFallbackFinished P state f s) [noted .fallbackActivation, noted .activeSessionsInc,
      noted (.activated keys (.fallbackFinish state f.payload))] q := by
  simp only [onFallbackFinished, hrun, activate, note, bind_apply, perform_apply, bind_call,
    bind_done, get_apply, hcount, Bool.not_false, if_true, set_apply]
  exact ⟨_, .head (.head (.head .refl))⟩

theorem onFallbackHello_at {psk : ByteArr 32} {nonce : ByteArr 16} {keys : SessionKeys}
    {reply : Bytes} (hrun : fallbackRespond P psk f.payload nonce = .ok (keys, reply))
    (htx : s.txBacklog = []) (hcount : s.countedActive = false) :
    ∃ v q, At (onFallbackHello P f s) v q ∧ receivedBytes v = [] ∧ activations v ≠ [] := by
  have hlen := fallbackRespond_length hrun
  have hmax : fallbackNonceLen + (fallbackConfirm.length + 16) + 6 ≤ maxFrameBody ∧
    maxFrameBody ≤ maxWriteBacklog := by decide
  obtain ⟨fr, hframe⟩ : ∃ fr, frame fallbackWireId typeFallbackFinished reply = some fr :=
    ⟨_, frame_eq_some.mpr ⟨by omega, rfl⟩⟩
  have happ : s.appendTx fr = some { s with txBacklog := fr } := by
    refine FdState.appendTx_eq_some.mpr ⟨?_, by rw [htx]; rfl⟩
    obtain ⟨-, rfl⟩ := frame_eq_some.mp hframe
    rw [htx, List.length_nil, frameBytes_length]
    omega
  refine ⟨[⟨.pqcControlAvailable, false⟩, ⟨.resolveFallbackPsk, some psk⟩,
    ⟨.resolveFallbackPsk, some psk⟩, ⟨.freshNonce, nonce⟩, noted (.sealed .confirm keys.tx.key
      (nonceFromCounter 0) fallbackConfirm (reply.drop fallbackNonceLen)), noted (.queued fr),
    noted .fallbackActivation, noted .activeSessionsInc,
    noted (.activated keys (.fallbackRespond psk f.payload nonce reply))],
    .done { s with txBacklog := fr, phase := .active keys, countedActive := true } (), ?_, rfl,
    by simp [activations, Ev.activation]⟩
  simp only [onFallbackHello, localPosture, bind_apply, perform_apply, bind_call, bind_done]
  refine .head (.head (.head ?_))
  simp only [selectPosture, Option.isSome_some, bind_apply, perform_apply, bind_call, bind_done]
  refine .head ?_
  simp only [hrun, queueFrame, hframe, happ, activate, note, bind_apply, perform_apply, bind_call,
    bind_done, get_apply, set_apply, pure_apply, if_true, hcount, Bool.not_false]
  exact .head (.head (.head (.head (.head .refl))))

/-- The fallback arms of the handshake take a frame whatever its suite byte is. -/
theorem driveHandshake_fallback (hf : Acceptable P st f)
    (htag : f.tag = typeFallbackHello ∨ f.tag = typeFallbackFinished) (hphase : s.phase = st.phase)
    (htx : st.phase = .responderAwaitingClientHello → s.txBacklog = [])
    (hrx : s.rxWire = f.bytes) (hcount : s.countedActive = false) (n : ℕ) :
    ∃ v q, At (driveHandshake P (n + 1) s) v q ∧ receivedBytes v = [] ∧ activations v ≠ [] := by
  have hpop : tryPopFrame s.rxWire = .ok (some (f, [])) := by
    rw [hrx, ← List.append_nil f.bytes]
    exact tryPopFrame_bytes hf.fits []
  cases hf with
  | clientHello _ ht | serverHello _ ht => rw [ht] at htag; exact absurd htag (by decide)
  | fallbackHello hp ht hrun =>
    obtain ⟨v, q, hat, hv, ha⟩ := onFallbackHello_at
      (s := { s with rxWire := [], phase := .failed }) hrun (htx hp) hcount
    have hhandle : onHandshakeFrame P s.phase f = onFallbackHello P f := by
      rw [hphase, hp, onHandshakeFrame, ht]
      rfl
    rw [← hhandle] at hat
    obtain ⟨q', hdrive⟩ := driveHandshake_handles hpop hat n
    exact ⟨_, q', hdrive, hv, ha⟩
  | @fallbackFinished state _ hp ht hrun =>
    obtain ⟨q, hat⟩ := onFallbackFinished_at
      (s := { s with rxWire := [], phase := .failed }) hrun hcount
    have hhandle : onHandshakeFrame P s.phase f = onFallbackFinished P state f := by
      rw [hphase, hp, onHandshakeFrame, ht]
      rfl
    rw [← hhandle] at hat
    obtain ⟨q', hdrive⟩ := driveHandshake_handles hpop hat n
    exact ⟨_, q', hdrive, rfl, by simp [activations, Ev.activation]⟩

theorem overlayRecv_fallback {c : Tr} {role : Role} (hst : Built P role c st)
    (hf : Acceptable P st f) (htag : f.tag = typeFallbackHello ∨ f.tag = typeFallbackFinished) :
    ∃ log t status, Reach (FdCall.run P) st log t status ∧ receivedBytes t = f.bytes ∧
      activations t ≠ [] := by
  obtain ⟨hfresh, hopen⟩ := hst.opening
  have hhs : st.phase.handshaking = true := by
    cases hf with
    | clientHello hp | fallbackHello hp | serverHello hp | fallbackFinished hp => rw [hp]; rfl
  have hpos : 0 < f.bytes.length := by
    rw [ParsedFrame.bytes, frameBytes_length]
    omega
  obtain ⟨u, hpull, hu⟩ := recvRound_pulls (P := P) hhs hfresh.rxPlain hfresh.rxWire 1 0 true 1
    ⟨hpos, hf.short⟩
  obtain ⟨v, q, hdrive, hv, ha⟩ := driveHandshake_fallback
    (s := { st with rxWire := f.bytes }) hf htag rfl (hopen.roomy hfresh).awaiting rfl
    hfresh.countedActive 1
  obtain ⟨w, b, hflush, hw⟩ := flushBacklog_zero { st with rxWire := f.bytes } 0 1
  have hempty : st.rxPlain.isEmpty = true := by rw [hfresh.rxPlain]; rfl
  have hturn : ∃ q', At (recvRound P 1 0 true 2 { st with rxWire := f.bytes }) (w ++ v) q' := by
    simp only [recvRound, bind_apply, get_apply, bind_done, hempty, hhs, Bool.not_true,
      Bool.false_eq_true, if_false, if_true]
    exact ⟨_, (hflush.bind _).trans (hdrive.bind _)⟩
  obtain ⟨q', hturn⟩ := hturn
  have hguards := guards_at (fun blocking => iter (fun (_ : Unit) =>
    recvRound P 1 0 blocking 2) 2 ()) st (some 0)
  have hcall := (hguards.trans ((hpull.bind _).trans (hturn.bind _))).bind
    (fun r => (pure (.received r) : FdAct FdRet))
  have henter : Reach (FdCall.run P) st [] [] (.busy (.recv 1 Nat.one_pos 0 2)
    ((FdCall.recv 1 Nat.one_pos 0 2).run P st)) := .enter .start _
  refine ⟨_, _, _, reach_at henter hcall, ?_, ?_⟩
  · simp only [List.nil_append, receivedBytes_append, hu, hw, hv, List.append_nil]
    rfl
  · simp only [List.nil_append, activations_append, ne_eq, List.append_eq_nil_iff, not_and]
    exact fun _ _ _ => ha

end

/-- What makes a session active is right in every byte of its header unless the stream starts
with a fallback frame whose suite byte is not that of the fallback. -/
theorem bitExact_iff {P : Primitives} {role : Role} {c : Tr} {st : FdState}
    (hst : Built P role c st) (w : Bytes) :
    BitExact P st w ↔ ∀ f rest, tryPopFrame w = .ok (some (f, rest)) → Acceptable P st f →
      f.suiteId = honestSuite st f.tag := by
  obtain ⟨hfresh, hopen⟩ := hst.opening
  constructor
  · intro h f rest hpop hf
    obtain ⟨hw, -⟩ := tryPopFrame_eq_some hpop
    by_cases htag : f.tag = typeFallbackHello ∨ f.tag = typeFallbackFinished
    · obtain ⟨log, t, status, hreach, hread, ha⟩ := overlayRecv_fallback hst hf htag
      have hpre : receivedBytes t <+: w := by
        rw [hread, hw]
        exact List.prefix_append _ _
      obtain ⟨g, rest', hframe, hw', -, hg⟩ := h.exact log t status hreach hpre ha
      rw [hw', tryPopFrame_bytes (frame_eq_some.mp hframe).1] at hpop
      cases hpop
      exact hg.suite
    · rw [honestSuite, if_neg htag]
      cases hf with
      | clientHello _ _ hid | serverHello _ _ hid => exact hid
      | fallbackHello _ ht => exact absurd (.inl ht) htag
      | fallbackFinished _ ht => exact absurd (.inr ht) htag
  · intro h
    have hexact : ∀ log t status, Reach (FdCall.run P) st log t status → receivedBytes t <+: w →
        activations t ≠ [] → ∃ f rest, frame f.suiteId f.tag f.payload = some f.bytes ∧
          w = f.bytes ++ rest ∧ (pops t).head? = some f ∧ Valid P st f := by
      intro log t status hrun hpre ha
      have hbetween : Between P True st t :=
        run_between id (fun _ _ => trivial) (hopen.sound hfresh) hfresh.settled hrun
      obtain ⟨f, rest, hread, hfirst, hf⟩ := hbetween.welcomed (hopen.sound hfresh) hfresh.rxWire ha
      obtain ⟨more, rfl⟩ := hpre
      rw [hread, List.append_assoc] at h ⊢
      exact ⟨f, rest ++ more, frame_eq_some.mpr ⟨hf.fits, rfl⟩, rfl, hfirst, hf,
        h f _ (tryPopFrame_bytes hf.fits _) hf⟩
    refine ⟨hexact, fun g i x hg hi hx hset log t status hrun hpre => ?_⟩
    by_contra ha
    obtain ⟨f, rest, -, rfl, -, hf⟩ := hexact log t status hrun hpre ha
    exact hf.not_tampered hg hi hx hset

/-- A `FallbackHello` with the suite byte `id`, as a whole stream. -/
def markedHello (id : UInt8) : Bytes := frameBytes id typeFallbackHello (ramp 16).val

theorem tryPopFrame_markedHello (id : UInt8) : tryPopFrame (markedHello id) =
    .ok (some (⟨id, typeFallbackHello, (ramp 16).val⟩, [])) := by
  rw [markedHello, ← List.append_nil (frameBytes _ _ _)]
  exact tryPopFrame_frame (by decide) []

/-- With its own suite byte the stream is admitted. -/
theorem bitExact_hello : ∃ c, Built specimen .responder c responderSession ∧
    BitExact specimen responderSession (markedHello fallbackWireId) := by
  obtain ⟨c, hbuilt⟩ := responderSession_built specimen
  refine ⟨c, hbuilt, (bitExact_iff hbuilt _).mpr fun f rest hpop _ => ?_⟩
  rw [tryPopFrame_markedHello] at hpop
  cases hpop
  rfl

/-- With the suite byte of a hybrid suite it makes the responder active all the same. -/
theorem bitExact_not : ∃ c log t s, Built specimen .responder c responderSession ∧
    Reach (FdCall.run specimen) responderSession log t (.idle s) ∧
    receivedBytes t = markedHello 1 ∧ (∃ keys, s.phase = .active keys) ∧
    ¬ BitExact specimen responderSession (markedHello 1) := by
  obtain ⟨c, hbuilt⟩ := responderSession_built specimen
  have hplay : ∃ log t s keys, Reach (FdCall.run specimen) responderSession log t (.idle s) ∧
      receivedBytes t = markedHello 1 ∧ s.phase = .active keys ∧ activations t ≠ [] :=
    ⟨_, _, _, _, played_reach responderSession [.recv 1 Nat.one_pos 0 3]
      { fallbackKernel [100] with incoming := [markedHello 1] }, rfl, rfl, by decide +kernel⟩
  obtain ⟨log, t, s, keys, hreach, hread, hphase, ha⟩ := hplay
  refine ⟨c, log, t, s, hbuilt, hreach, hread, ⟨keys, hphase⟩, fun h => ?_⟩
  have hpre : receivedBytes t <+: markedHello 1 := hread ▸ List.prefix_rfl
  obtain ⟨f, rest, hframe, hw, -, hf⟩ := h.exact log t _ hreach hpre ha
  have hpop := tryPopFrame_bytes (frame_eq_some.mp hframe).1 rest
  rw [← hw, tryPopFrame_markedHello] at hpop
  cases hpop
  exact absurd hf.suite (by decide)

end SyntriassOverlay
