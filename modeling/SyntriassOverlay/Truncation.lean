import SyntriassOverlay.Conduct
import SyntriassOverlay.Schedule

/-!
# The end of the stream

A stream that ends between two frames of an active session has ended in order; one that
ends inside a frame, or before the handshake is through, was cut off. `overlay_send`
closes the session when the stream ends in the handshake. `overlay_recv` returns zero to
its caller wherever the stream ends.
-/

namespace SyntriassOverlay
open Crypto Resumption

/-- The real `recv` reports the end of the stream. -/
def Ev.ended (e : Ev Resp) : Prop := ∃ flags, e = ⟨.recv flags, .eof⟩

/-! ### What `overlay_recv` makes of the end of the stream -/

section
variable {P : Primitives} {s : FdState}

theorem without_ended_lenient : Lenient (without Ev.ended) := by
  rintro t s o ho - r ⟨flags, he⟩
  cases he
  cases ho

theorem flushBacklog_without {flags : Flags} {fuel : ℕ}
    {Q : Tr → FdState → Except Unit Bool → Prop} (h : ∀ t s r, Q t s r) :
    Safe (without Ev.ended) Q (flushBacklog flags fuel s) [] := by
  refine flushBacklog_rule flags fuel (fun t' s' _ _ r he => ?_) (fun _ _ _ _ _ => trivial)
    (fun _ _ _ _ _ _ => h _ _ _) fun _ _ _ _ _ => h _ _ _
  obtain ⟨fl, he⟩ := he
  cases he

theorem pullForRecv_ended (flags : Flags) (blocking : Bool) (s : FdState) :
    EndsWith Ev.ended (.inr (.ok [])) (pullForRecv flags blocking s) := by
  have hpull : EndsWith Ev.ended (.ok .eof) (pullWire flags s) := by
    intro r
    refine ⟨?_, ?_⟩
    · rintro ⟨fl, he⟩
      cases he
      rfl
    · cases r with
      | data d hd =>
        simp only [bind_apply, get_apply, bind_done]
        cases s.appendRxWire d <;> trivial
      | eof | error => trivial
  rw [pullForRecv, bind_apply]
  refine endsWith_bind hpull (fun _ => rfl) fun x s' => ?_
  cases x with
  | error =>
    refine endsWith_of_without (t := []) ?_
    exact failWith_rule without_ended_lenient (fun _ => without_ended_lenient.site rfl _ _) trivial
  | ok r =>
    cases r with
    | error e =>
      dsimp only
      split
      · trivial
      · split <;> trivial
    | eof | data => trivial

theorem openOrPull_ended (flags : Flags) (blocking : Bool) (fuel : ℕ) (s : FdState) :
    EndsWith Ev.ended (.inr (.ok [])) (openOrPull P flags blocking fuel s) := by
  simp only [openOrPull, bind_apply, get_apply, bind_done]
  cases hphase : s.phase with
  | failed => trivial
  | active keys =>
    refine endsWith_bind_without (t := [])
      (openRecords_rule without_ended_lenient fuel hphase (fun _ _ _ _ => trivial) ?_ ?_)
    · intro u s' keys' _ _ _ _
      simp only [bind_apply, get_apply, bind_done]
      split
      · trivial
      · exact pullForRecv_ended flags blocking s'
    · exact fun u s' _ _ => trivial
  | responderAwaitingClientHello | initiatorAwaitingServerHello _
  | initiatorAwaitingFallbackFinished _ => exact pullForRecv_ended flags blocking s

theorem recvRound_ended (len : ℕ) (flags : Flags) (blocking : Bool) (fuel : ℕ) (s : FdState) :
    EndsWith Ev.ended (.inr (.ok [])) (recvRound P len flags blocking fuel s) := by
  simp only [recvRound, bind_apply, get_apply, bind_done]
  split
  · refine fun r => ⟨?_, trivial⟩
    rintro ⟨fl, he⟩
    cases he
  · split
    · refine endsWith_bind_without (flushBacklog_without fun t₁ s₁ _ => ?_)
      refine endsWith_bind_without (t := []) (driveHandshake_rule without_ended_lenient fuel
        (fun _ => trivial) (fun _ => ?_) fun u s₂ _ _ => ?_)
      · refine endsWith_bind_without (flushBacklog_without fun _ s₃ _ => ?_)
        exact openOrPull_ended flags blocking fuel s₃
      · refine endsWith_bind_without (flushBacklog_without fun _ s₃ _ => ?_)
        exact openOrPull_ended flags blocking fuel s₃
    · exact openOrPull_ended flags blocking fuel s

theorem overlayRecv_ended (len : ℕ) (flags : Flags) (fuel : ℕ) (s : FdState) :
    EndsWith Ev.ended (.ok []) (overlayRecv P len flags fuel s) := by
  rw [overlayRecv, bind_apply]
  refine endsWith_bind_without (t := []) (inheritedAfterFork_rule without_ended_lenient
    (fun u _ => ?_) fun u s' _ _ => trivial)
  refine endsWith_bind_without (t := []) (failIfStaleIdleConfig_rule without_ended_lenient
    (fun v _ => ?_) fun v s' _ _ => trivial)
  refine fun r => ⟨?_, ?_⟩
  · rintro ⟨fl, he⟩
    cases he
  · cases r <;> exact endsWith_iter (fun _ => recvRound_ended len flags _ fuel) fuel () s

end

/-! ### Streams that were cut off -/

/-- The session is not between two frames of an active connection. -/
def FdState.CutOff (s : FdState) : Prop := s.phase.handshaking = true ∨ s.rxWire ≠ []

/-- During the call with trace `u` the end of the stream is reported to a session that
stands in `s₁`. -/
def EndsIn (P : Primitives) (s : FdState) (len : ℕ) (flags : Flags) (fuel : ℕ) (u : Tr)
    (s₁ : FdState) : Prop :=
  ∃ u₀ u₁ fl k, u = u₀ ++ ⟨.recv fl, .eof⟩ :: u₁ ∧
    At (overlayRecv P len flags fuel s) u₀ (.call s₁ (.recv fl) k)

/-- The end of the stream is reported to the application when the stream has ended in order,
and a stream that was cut off is an error that closes the session. -/
structure Truthful (P : Primitives) (s : FdState) (len : ℕ) (flags : Flags) (fuel : ℕ) (u : Tr)
    (s' : FdState) (r : Except Errno Bytes) : Prop where
  zero : r = .ok [] → (∃ keys, s'.phase = .active keys) ∧ s'.rxWire = []
  cut : ∀ s₁, EndsIn P s len flags fuel u s₁ → s₁.CutOff →
    (∃ e, r = .error e) ∧ s'.phase = .failed

/-- With the bytes `w` behind what it has buffered, the session has got whole frames, and one
of them at least if its handshake was not over. -/
def FdState.Complete (s : FdState) (w : Bytes) : Prop :=
  ∃ fs, (∀ f ∈ fs, f.payload.length + 2 ≤ maxFrameBody) ∧ s.rxWire ++ w = framesBytes fs ∧
    (s.phase.handshaking = true → fs ≠ [])

section
variable {P : Primitives} {s s' s₁ : FdState} {len fuel : ℕ} {flags : Flags} {t u : Tr}
  {r : Except Errno Bytes}

/-- A session that waits for bytes was cut off unless it has got whole frames. -/
theorem History.complete_iff (h : History P True s t s' none) (hs : s.Sound)
    (hlive : s'.phase ≠ .failed) (hpop : tryPopFrame s'.rxWire = .ok none) :
    s.Complete (receivedBytes t) ↔ ¬ s'.CutOff := by
  have hbuf := h.buffered hs
  have hall := hbuf.alive hlive
  have hbefore : s'.phase.handshaking = true → s.phase.handshaking = true := by
    intro hhs
    rw [← (h.handshaking_untouched hhs).1]
    exact hhs
  constructor
  · rintro ⟨fs, hfits, heq, hsome⟩ hcut
    rw [heq] at hall
    obtain ⟨rfl, hnil⟩ := framesBytes_unique hbuf.fits hfits hpop hall
    rcases hcut with hhs | hwire
    · exact hsome (hbefore hhs) ((h.handshaking_iff (hbefore hhs) hlive).mp hhs)
    · exact hwire hnil
  · intro hcut
    obtain ⟨hhs, hwire⟩ := not_or.mp hcut
    rw [not_not.mp hwire, List.append_nil] at hall
    exact ⟨pops t, hbuf.fits, hall, fun hhs₀ hnil => hhs ((h.handshaking_iff hhs₀ hlive).mpr hnil)⟩

theorem EndsIn.returns (h : EndsIn P s len flags fuel u s₁)
    (hat : At (overlayRecv P len flags fuel s) u (.done s' r)) : s' = s₁ ∧ r = .ok [] ∧
      ∃ u₀ fl k, u = u₀ ++ [⟨.recv fl, .eof⟩] ∧
        At (overlayRecv P len flags fuel s) u₀ (.call s₁ (.recv fl) k) := by
  obtain ⟨u₀, u₁, fl, k, rfl, hcall⟩ := h
  have hend := endsWith_at (overlayRecv_ended len flags fuel s) hcall ⟨fl, rfl⟩
  have hrest := hcall.rest hat
  rw [hend] at hrest
  obtain rfl := at_done_nil hrest
  cases at_done hrest
  exact ⟨rfl, rfl, u₀, fl, k, rfl, hcall⟩

/-- What is received before the end decides whether the stream is cut off there. -/
theorem EndsIn.cutOff_iff (h : EndsIn P s len flags fuel u s₁) (hs : s.Sound) (hlen : 0 < len)
    (hat : At (overlayRecv P len flags fuel s) u (.done s' r)) :
    s₁.CutOff ↔ ¬ s.Complete (receivedBytes u) := by
  obtain ⟨-, -, u₀, fl, k, rfl, hcall⟩ := h.returns hat
  have hsafe : Safe (ioInv P True s) (fun _ _ _ => True) (overlayRecv P len flags fuel s) [] :=
    overlayRecv_safe hs hlen flags fuel .start (fun _ _ _ _ _ _ => trivial)
      fun _ _ _ _ _ _ => trivial
  obtain ⟨hlive, hpop, -, hh⟩ := (safe_at hsafe hcall).1
  rw [List.nil_append] at hh
  have hrec : receivedBytes (u₀ ++ [⟨.recv fl, .eof⟩]) = receivedBytes u₀ := by
    rw [receivedBytes_append]
    exact List.append_nil _
  rw [hrec, hh.complete_iff hs hlive hpop, not_not]

theorem overlayRecv_zero (hs : s.Sound) (hlen : 0 < len)
    (hat : At (overlayRecv P len flags fuel s) u (.done s' (.ok []))) :
    EndsIn P s len flags fuel u s' ∧ s'.phase ≠ .failed := by
  have hsafe : Safe (ioInv P True s) (fun u _ r => r = .ok [] →
      ∃ (v : Tr) (fl : Flags), u = v ++ [⟨.recv fl, .eof⟩])
      (overlayRecv P len flags fuel s) [] := by
    refine overlayRecv_safe hs hlen flags fuel .start ?_ fun _ _ _ _ _ _ heq => by cases heq
    intro u s' b _ hr _ heq
    cases heq
    obtain ⟨v, fl, hu⟩ := hr.eof rfl
    exact ⟨v, fl, by simpa using hu⟩
  have hlast := safe_at hsafe hat
  obtain ⟨v, fl, hu⟩ := hlast rfl
  rw [List.nil_append] at hu
  subst hu
  obtain ⟨s₁, k, hcall⟩ := hat.pending
  have hends : EndsIn P s len flags fuel (v ++ [⟨.recv fl, .eof⟩]) s₁ := ⟨v, [], fl, k, rfl, hcall⟩
  obtain ⟨rfl, -⟩ := hends.returns hat
  exact ⟨hends, (safe_at hsafe hcall).1.1⟩

end

/-- A call of `overlay_recv` is truthful about the end of the stream just when the bytes that
came before it make whole frames with what was buffered, and complete the handshake. -/
theorem overlayRecv_truthful_iff {P : Primitives} {role : Role} {c : Tr} {st s s' : FdState}
    {log : List (FdCall × FdRet)} {t u : Tr} (hst : Built P role c st)
    (hrun : Reach (FdCall.run P) st log t (.idle s)) {len : ℕ} (hlen : 0 < len) {flags : Flags}
    {fuel : ℕ} {r : Except Errno Bytes}
    (hat : At (overlayRecv P len flags fuel s) u (.done s' r)) :
    Truthful P s len flags fuel u s' r ↔
      ((∃ e ∈ u, Ev.ended e) → s.Complete (receivedBytes u)) := by
  obtain ⟨hs, -⟩ := hst.atRest hrun
  constructor
  · rintro h ⟨e, he, fl, rfl⟩
    obtain ⟨u₀, u₁, hu⟩ := List.append_of_mem he
    obtain ⟨s₁, k, hcall⟩ := (hu ▸ hat).pending
    have hends : EndsIn P s len flags fuel u s₁ := ⟨u₀, u₁, fl, k, hu, hcall⟩
    by_contra hno
    obtain ⟨⟨e, he⟩, -⟩ := h.cut s₁ hends ((hends.cutOff_iff hs hlen hat).mpr hno)
    obtain ⟨-, hr, -⟩ := hends.returns hat
    rw [hr] at he
    cases he
  · intro h
    have hwhole : ∀ s₁, EndsIn P s len flags fuel u s₁ → ¬ s₁.CutOff := by
      intro s₁ hends hcut
      obtain ⟨-, -, u₀, fl, -, hu, -⟩ := hends.returns hat
      exact (hends.cutOff_iff hs hlen hat).mp hcut (h ⟨_, by simp [hu], fl, rfl⟩)
    refine ⟨fun hr => ?_, fun s₁ hends hcut => absurd hcut (hwhole s₁ hends)⟩
    subst hr
    obtain ⟨hends, hlive⟩ := overlayRecv_zero hs hlen hat
    have hnot := not_or.mp (hwhole s' hends)
    refine ⟨?_, not_not.mp hnot.2⟩
    cases hphase : s'.phase with
    | active keys => exact ⟨keys, rfl⟩
    | failed => exact absurd hphase hlive
    | responderAwaitingClientHello | initiatorAwaitingServerHello _
    | initiatorAwaitingFallbackFinished _ => exact absurd (by rw [hphase]; rfl) hnot.1

/-- A kernel that reports the end of the stream when nothing is left to read. -/
def Kernel.answerThenEnd (o : Op) (k : Kernel) : Resp o × Kernel :=
  match o with
  | .recv flags => if k.incoming = [] then (.eof, k) else k.answer 7 (.recv flags)
  | o => k.answer 7 o

/-- A peer that sends a `FallbackHello` and `more` and closes. -/
def closingPeer (more : Bytes) : Kernel :=
  { fallbackKernel [100] with
    incoming := [frameBytes fallbackWireId typeFallbackHello (ramp 16).val ++ more] }

/-- A responder in the degraded posture reads all of it in one call. -/
def closingRun (more : Bytes) : Prog Resp FdState (Except Errno Bytes) × Tr × Kernel :=
  runWith Kernel.answerThenEnd 40 (overlayRecv specimen 64 0 8 responderSession) (closingPeer more)

/-- How its state is after that, and what the call returns. -/
def closingOutcome (more : Bytes) : Option (Bool × Bytes × Except Errno Bytes) :=
  (closingRun more).1.outcome.map fun x => (x.1.phase.handshaking, x.1.rxWire, x.2)

theorem closingOutcome_at {more b : Bytes} (h : closingOutcome more = some (false, b, .ok [])) :
    ∃ s', At (overlayRecv specimen 64 0 8 responderSession) (closingRun more).2.1
      (.done s' (.ok [])) ∧ s'.phase.handshaking = false ∧ s'.rxWire = b := by
  obtain ⟨s', r, hφ, hat⟩ := at_of_outcome _ _ _ _
    (fun (s : FdState) (r : Except Errno Bytes) => (s.phase.handshaking, s.rxWire, r)) h
  simp only [Prod.mk.injEq] at hφ
  obtain ⟨hhs, hw, rfl⟩ := hφ
  exact ⟨s', hat, hhs, hw⟩

/-- The peer closes after a complete handshake and between two frames. -/
theorem overlayRecv_truthful_between : ∃ c u s', Built specimen .responder c responderSession ∧
    At (overlayRecv specimen 64 0 8 responderSession) u (.done s' (.ok [])) ∧
    responderSession.Complete (receivedBytes u) ∧
    Truthful specimen responderSession 64 0 8 u s' (.ok []) := by
  obtain ⟨c, hbuilt⟩ := responderSession_built specimen
  have hend : closingOutcome [] = some (false, [], .ok []) := by decide +kernel
  obtain ⟨s', hat, -⟩ := closingOutcome_at hend
  have hread : receivedBytes (closingRun []).2.1 =
      framesBytes [⟨fallbackWireId, typeFallbackHello, (ramp 16).val⟩] := by decide +kernel
  have hwhole : responderSession.Complete (receivedBytes (closingRun []).2.1) :=
    ⟨_, by decide, hread, fun _ => by simp⟩
  exact ⟨c, _, s', hbuilt, hat, hwhole,
    (overlayRecv_truthful_iff hbuilt .start (by decide) hat).mpr fun _ => hwhole⟩

/-- The connection is cut three bytes into a record, and the application is told that the
stream has ended in order. -/
theorem overlayRecv_truthful_not : ∃ c u s', Built specimen .responder c responderSession ∧
    At (overlayRecv specimen 64 0 8 responderSession) u (.done s' (.ok [])) ∧
    s'.phase.handshaking = false ∧ s'.rxWire = [0, 0, 0] ∧
    ¬ Truthful specimen responderSession 64 0 8 u s' (.ok []) := by
  obtain ⟨c, hbuilt⟩ := responderSession_built specimen
  have hcut : closingOutcome [0, 0, 0] = some (false, [0, 0, 0], .ok []) := by decide +kernel
  obtain ⟨s', hat, hhs, hw⟩ := closingOutcome_at hcut
  refine ⟨c, _, s', hbuilt, hat, hhs, hw, fun h => ?_⟩
  have hempty := (h.zero rfl).2
  rw [hw] at hempty
  cases hempty

end SyntriassOverlay
