import SyntriassOverlay.Rules
import SyntriassOverlay.Schedule

/-!
# Limits that a session never runs into

Three limits of the source guard against sizes that cannot come up. The wire is only
read when no plaintext waits, so what is opened fits where the ciphertext came from; a
record is cut far below the longest frame; and a responder that still waits for a hello
has an empty backlog to queue its reply on. The branches behind these limits close the
session, and none of them is ever taken.
-/

namespace SyntriassOverlay
open Crypto Resumption

/-- The places that close a session over a limit of its own: `append_rx_plain` in
`overlay_recv`, `frame` in `overlay_send`, `queue_frame` in `drive_handshake`. -/
def limitSites : List FailSite := [.recordPlain, .frameError, .helloReply, .fallbackReply]

/-- The room that is left in a session, with the record it has sealed last. -/
structure Roomy (s : FdState) (pd : Option Bytes) : Prop where
  inbound : s.rxWire.length + s.rxPlain.length ≤ maxWireRxBuffer
  awaiting : s.phase = .responderAwaitingClientHello → s.txBacklog = []
  pending : ∀ ct, pd = some ct →
    (∃ keys, s.phase = .active keys) ∧ ct.length ≤ maxRecordPlaintext + 16

section
variable {P : Primitives} {aside : Prop} {s₀ s : FdState} {t : Tr} {pd : Option Bytes}
  {f : ParsedFrame} {rest : Bytes}

theorem FdState.closed_roomy (s : FdState) : Roomy s.closed none :=
  ⟨Nat.zero_le _, fun _ => rfl, fun _ heq => by cases heq⟩

theorem tryPopFrame_length {b : Bytes} (h : tryPopFrame b = .ok (some (f, rest))) :
    rest.length + f.payload.length + 6 = b.length := by
  obtain ⟨rfl, -⟩ := tryPopFrame_eq_some h
  simp only [List.length_append, ParsedFrame.bytes, frameBytes_length]
  omega

theorem open_length {keys keys' : SessionKeys} {ct pt : Bytes}
    (h : keys.open P ct = .ok (keys', pt)) : pt.length + 16 = ct.length := by
  obtain ⟨-, -, hdec⟩ := SessionKeys.open_eq_ok.mp h
  exact P.gcmDecrypt_length _ _ _ _ hdec

/-- A reply of the size a responder makes can always be queued on an empty backlog. -/
theorem not_unqueued {suiteId tag : UInt8} {payload : Bytes} {q : Tr} (htx : s.txBacklog = [])
    (hlen : payload.length + 6 ≤ replyMax) : ¬ Unqueued s suiteId tag payload q := by
  have hmax : replyMax ≤ maxFrameBody ∧ replyMax ≤ maxWriteBacklog := by decide
  intro hq
  cases hq with
  | tooLong h =>
    have hlong := frame_eq_none.mp h
    omega
  | noRoom hf h =>
    obtain ⟨-, rfl⟩ := frame_eq_some.mp hf
    rw [htx, List.length_nil, frameBytes_length] at h
    omega

theorem Roomy.rejection {pre : Tr} {site : FailSite} (h : Roomy s none)
    (hr : Rejection P s f pre site) : site ∉ limitSites := by
  cases hr with
  | helloReply hphase _ _ hrun hq =>
    have hlen := suiteRespond_length hrun
    have hmax := ctLen_le s.policySuite
    exact absurd hq (not_unqueued (h.awaiting hphase) (by omega))
  | fallbackReply _ hphase _ hrun hq =>
    have hlen := fallbackRespond_length hrun
    have hmax : fallbackNonceLen + (fallbackConfirm.length + 16) + 6 ≤ replyMax := by decide
    exact absurd hq (not_unqueued (h.awaiting hphase) (by omega))
  | _ => decide

theorem Roomy.refusal {keys : SessionKeys} {pre : Tr} {site : FailSite} (h : Roomy s none)
    (hpop : tryPopFrame s.rxWire = .ok (some (f, rest))) (hr : Refusal P s keys f pre site) :
    site ∉ limitSites := by
  cases hr with
  | plain _ _ hopen hfull =>
    have hin := h.inbound
    have hpop := tryPopFrame_length hpop
    have hopen := open_length hopen
    have hmax : maxWireRxBuffer ≤ maxPlainRxBuffer := le_rfl
    omega
  | _ => decide

theorem Roomy.failing {site : FailSite} (h : Roomy s pd) (hf : Failing P t s pd site) :
    site ∉ limitSites := by
  cases hf with
  | frameError hframe =>
    have hlong := frame_eq_none.mp hframe
    have hlen := (h.pending _ rfl).2
    have hmax : maxRecordPlaintext + 16 + 2 ≤ maxFrameBody := by decide
    omega
  | flush _ _ hsite =>
    simp only [List.mem_cons, List.not_mem_nil, or_false] at hsite
    rcases hsite with rfl | rfl | rfl | rfl | rfl <;> decide
  | header _ _ hsite =>
    simp only [List.mem_cons, List.not_mem_nil, or_false] at hsite
    rcases hsite with rfl | rfl <;> decide
  | _ => decide

/-- There is room in every session, and no limit has closed it. -/
theorem History.roomy (h₀ : Roomy s₀ none) (h : History P aside s₀ t s pd) :
    Roomy s pd ∧ ∀ site ∈ closings t, site ∉ limitSites := by
  have hclose : ∀ {t : Tr} {s : FdState} {site : FailSite},
      (∀ site ∈ closings t, site ∉ limitSites) → site ∉ limitSites →
      ∀ site' ∈ closings (t ++ failSeg s site), site' ∉ limitSites := by
    intro t s site ht hsite site' hmem
    rw [closings_append, closings_failSeg] at hmem
    rcases List.mem_append.mp hmem with hmem | hmem
    · exact ht site' hmem
    · rwa [List.mem_singleton.mp hmem]
  have hkeep : ∀ {t u : Tr}, (∀ site ∈ closings t, site ∉ limitSites) → closings u = [] →
      ∀ site ∈ closings (t ++ u), site ∉ limitSites := by
    intro t u ht hu
    rwa [closings_append, hu, List.append_nil]
  induction h with
  | start => exact ⟨h₀, fun site hmem => by cases hmem⟩
  | quiet _ o ho r ih => exact ⟨ih.1, hkeep ih.2 (Op.inert_of_quiet ho r).closings⟩
  | sent _ _ _ n _ ih =>
    refine ⟨⟨ih.1.inbound, fun hp => ?_, ih.1.pending⟩, hkeep ih.2 rfl⟩
    have htx := ih.1.awaiting hp
    simp [htx]
  | stalled _ _ _ _ _ _ ih => exact ⟨ih.1, hkeep ih.2 rfl⟩
  | pulled _ _ _ hplain _ d _ hroom ih =>
    have hin := ih.1.inbound
    refine ⟨⟨?_, ih.1.awaiting, ih.1.pending⟩, hkeep ih.2 rfl⟩
    simp only [hplain, List.length_append, List.length_nil] at hin ⊢
    omega
  | unread _ _ _ _ _ _ ih => exact ⟨ih.1, hkeep ih.2 rfl⟩
  | activated _ hpop ha ih =>
    have hin := ih.1.inbound
    have hpop := tryPopFrame_length hpop
    refine ⟨⟨?_, fun hp => (by cases hp), fun _ heq => (by cases heq)⟩, ?_⟩
    · dsimp only
      omega
    · rw [List.append_assoc]
      exact hkeep ih.2 (by simp [ha.inert.closings])
  | rejected _ _ _ hr ih =>
    exact ⟨FdState.closed_roomy _, hclose (hkeep ih.2 hr.inert.closings) (ih.1.rejection hr)⟩
  | opened _ _ hpop _ _ hopen _ ih =>
    have hin := ih.1.inbound
    have hpop := tryPopFrame_length hpop
    have hopen := open_length hopen
    refine ⟨⟨?_, fun hp => (by cases hp), fun _ heq => (by cases heq)⟩, hkeep ih.2 rfl⟩
    simp only [List.length_append]
    omega
  | refused _ _ hpop hr ih =>
    exact ⟨FdState.closed_roomy _, hclose (hkeep ih.2 hr.inert.closings) (ih.1.refusal hpop hr)⟩
  | delivered _ n _ ih =>
    have hin := ih.1.inbound
    refine ⟨⟨?_, ih.1.awaiting, ih.1.pending⟩, hkeep ih.2 rfl⟩
    simp only [List.length_drop]
    omega
  | sealed _ _ hlen hseal ih =>
    refine ⟨⟨ih.1.inbound, fun hp => (by cases hp), fun ct heq => ?_⟩, hkeep ih.2 rfl⟩
    cases heq
    refine ⟨⟨_, rfl⟩, ?_⟩
    rw [SessionKeys.seal_length hseal]
    omega
  | queued _ _ _ _ ih =>
    obtain ⟨⟨keys, hactive⟩, -⟩ := ih.1.pending _ rfl
    refine ⟨⟨ih.1.inbound, fun hp => ?_, fun _ heq => (by cases heq)⟩, hkeep ih.2 rfl⟩
    rw [hactive] at hp
    cases hp
  | failed _ hf ih => exact ⟨FdState.closed_roomy _, hclose ih.2 (ih.1.failing hf)⟩
  | flooded _ _ _ _ _ _ _ _ hsite ih =>
    refine ⟨FdState.closed_roomy _, hclose (hkeep ih.2 rfl) ?_⟩
    simp only [List.mem_cons, List.not_mem_nil, or_false] at hsite
    rcases hsite with rfl | rfl <;> decide
  | restamped _ _ _ ih => exact ⟨⟨ih.1.inbound, ih.1.awaiting, ih.1.pending⟩, hkeep ih.2 rfl⟩
  | retired _ _ _ _ ih =>
    refine ⟨⟨Nat.zero_le _, fun _ => rfl, fun _ heq => (by cases heq)⟩, ?_⟩
    exact hclose ih.2 (by decide)

theorem Opening.roomy {c : Tr} {role : Role} (hf : Fresh c s) (ho : Opening P c s role) :
    Roomy s none := by
  refine ⟨?_, fun hphase => ?_, fun _ heq => (by cases heq)⟩
  · rw [hf.rxWire, hf.rxPlain]
    exact Nat.zero_le _
  · cases ho with
    | failed _ htx | responder _ htx => exact htx
    | hybrid hp | fallback hp =>
      rw [hphase] at hp
      cases hp

end

/-- No session is ever closed over a limit of its own, whatever it is asked to send and
whatever arrives. -/
theorem limits_never_close {P : Primitives} {role : Role} {c : Tr} {st : FdState}
    (hst : Built P role c st) {log : List (FdCall × FdRet)} {t : Tr}
    {status : Status Resp FdCall FdState FdRet} (hrun : Reach (FdCall.run P) st log t status) :
    .recordPlain ∉ closings t ∧ .frameError ∉ closings t ∧ .helloReply ∉ closings t ∧
      .fallbackReply ∉ closings t := by
  obtain ⟨hfresh, hopen⟩ := hst.opening
  have hbetween : Between P True st t :=
    run_between id (fun _ _ => trivial) (hopen.sound hfresh) hfresh.settled hrun
  obtain ⟨t₀, u, s, pd, rfl, hh, hu⟩ := hbetween
  have hclosed : ∀ site ∈ closings (t₀ ++ u), site ∉ limitSites := by
    rw [closings_append, hu.silent.closings, List.append_nil]
    exact (hh.roomy (hopen.roomy hfresh)).2
  refine ⟨fun hmem => ?_, fun hmem => ?_, fun hmem => ?_, fun hmem => ?_⟩ <;>
    exact hclosed _ hmem (by decide)

/-- A responder in the degraded posture that was sent a `FallbackHello` and answered it. -/
theorem limits_never_close_answered : ∃ c log t s, Built specimen .responder c responderSession ∧
    Reach (FdCall.run specimen) responderSession log t (.idle s) ∧ activations t ≠ [] ∧
    .fallbackReply ∉ closings t := by
  obtain ⟨c, hbuilt⟩ := responderSession_built specimen
  have hreach := played_reach (P := specimen) responderSession [.recv 1 Nat.one_pos 0 3]
    { fallbackKernel [] with
      incoming := [frameBytes fallbackWireId typeFallbackHello (ramp 16).val] }
  exact ⟨c, _, _, _, hbuilt, hreach, by decide +kernel, (limits_never_close hbuilt hreach).2.2.2⟩

end SyntriassOverlay
