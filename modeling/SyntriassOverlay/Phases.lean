import SyntriassOverlay.Interceptor

/-!
# The phases a session goes through

What the code of a session does to its phase and to `counted_active`, with the increments
and decrements of the gauge in the trace: a property of the two that each of these steps
keeps holds wherever a call stands. Whatever happens to a session, its phase stays or becomes
`Active` or `Failed`: only the constructors put a session into a phase of the handshake.
-/

namespace SyntriassOverlay
open Crypto Resumption

/-- The calls that move the gauge of active sessions. -/
def Op.counting : Op → Bool
  | .note .activeSessionsInc | .note .activeSessionsDec => true
  | _ => false

/-- The steps of a session, as far as its phase and the gauge go. `aside` says whether a
handshake may be driven in a phase that is no handshake. -/
structure SessionRule (aside : Prop) (I : Tr → FdState → Prop) : Prop where
  same : ∀ t s s', s'.phase = s.phase → s'.countedActive = s.countedActive → I t s → I t s'
  call : ∀ t s (o : Op) (r : Resp o), o.counting = false → I t s → I (t ++ [⟨o, r⟩]) s
  keys : ∀ t s s' keys keys', s.phase = .active keys → s'.phase = .active keys' →
    s'.countedActive = s.countedActive → I t s → I t s'
  taken : ∀ t s s', s.phase.handshaking = true ∨ aside → s'.phase = .failed →
    s'.countedActive = s.countedActive → I t s → I t s'
  close : ∀ t s, s.countedActive = false → I t s → I t s.closed
  closeCounted : ∀ t s, s.countedActive = true → I t s →
    I (t ++ [⟨.note .activeSessionsDec, ()⟩]) s.closed
  activate : ∀ t s keys, s.countedActive = false → I t s →
    I (t ++ [⟨.note .activeSessionsInc, ()⟩])
      { s with phase := .active keys, countedActive := true }
  activateCounted : ∀ t s keys, s.countedActive = true → I t s →
    I t { s with phase := .active keys, countedActive := true }

section
variable {aside : Prop} {I : Tr → FdState → Prop} (h : SessionRule aside I) {P : Primitives}
  {α : Type} {s : FdState} {t : Tr}

include h

theorem SessionRule.perform {o : Op} (ho : o.counting = false) :
    Holds I (perform o : FdAct (Resp o)) :=
  holds_perform fun t s r => h.call t s o r ho

theorem SessionRule.note {n : Note} (hn : (Op.note n).counting = false) :
    Holds I (note n : FdAct Unit) := h.perform hn

theorem localPosture_holds : Holds I localPosture :=
  holds_bind (h.perform rfl) fun _ => holds_bind (h.perform rfl) fun _ => holds_pure _

theorem isBlocking_holds : Holds I isBlocking := by
  refine holds_bind (h.perform rfl) fun r => ?_
  split <;> exact holds_pure _

theorem failClosed_holds (site : FailSite) : Holds I (failClosed site) := by
  intro s t hs
  cases hc : s.countedActive with
  | false =>
    simp only [failClosed, bind_apply, get_apply, bind_done, hc, Bool.false_eq_true, if_false]
    exact h.note rfl _ t (h.close t s hc hs)
  | true =>
    simp only [failClosed, bind_apply, get_apply, bind_done, hc, if_true]
    exact ⟨hs, fun _ => h.note rfl _ _ (h.closeCounted t s hc hs)⟩

theorem failWith_holds (site : FailSite) (a : α) :
    Holds I (do failClosed site; pure a : FdAct α) :=
  holds_bind (failClosed_holds h site) fun _ => holds_pure a

theorem activate_holds (keys : SessionKeys) (origin : Origin) : Holds I (activate keys origin) := by
  intro s t hs
  cases hc : s.countedActive with
  | false =>
    simp only [SyntriassOverlay.activate, bind_apply, get_apply, bind_done, hc, Bool.not_false,
      if_true]
    exact ⟨hs, fun _ => h.note rfl _ _ (h.activate t s keys hc hs)⟩
  | true =>
    simp only [SyntriassOverlay.activate, bind_apply, get_apply, bind_done, hc, Bool.not_true,
      Bool.false_eq_true, if_false]
    exact h.note rfl _ t (h.activateCounted t s keys hc hs)

theorem failIfStaleIdleConfig_holds : Holds I failIfStaleIdleConfig := by
  refine holds_get fun st => holds_bind (h.perform rfl) fun epoch => ?_
  split
  · exact holds_pure _
  · split
    · refine holds_bind (failClosed_holds h _) fun _ => holds_bind (h.perform rfl) fun _ => ?_
      exact holds_bind (holds_modify fun t s => h.same t s _ rfl rfl) fun _ => holds_pure _
    · exact holds_pure _

theorem retireIdleSession_holds (epoch : ℕ) : Holds I (retireIdleSession epoch) := by
  refine holds_get fun st => ?_
  split
  · exact holds_bind (failClosed_holds h _) fun _ => holds_modify fun t s => h.same t s _ rfl rfl
  · exact holds_pure _

theorem inheritedAfterFork_holds : Holds I inheritedAfterFork := by
  refine holds_get fun st => holds_bind (h.perform rfl) fun pid => ?_
  split
  · exact holds_pure _
  · exact failWith_holds h _ _

/-! ### Socket I/O

Flushing and pulling leave the phase as it is. -/

theorem flushBacklog_holds (flags : Flags) (fuel : ℕ) (hs : I t s) :
    Safe (always I) (fun t' s' _ => I t' s' ∧ s'.phase = s.phase)
      (flushBacklog flags fuel s) t := by
  refine safe_iter (fun _ t' s' => I t' s' ∧ s'.phase = s.phase) (fun _ _ _ hJ => hJ.1) ?_ fuel
    ⟨hs, rfl⟩
  rintro - t' s' ⟨hs', hphase⟩
  by_cases hempty : s'.txBacklog.isEmpty = true
  · simp only [bind_apply, get_apply, bind_done, hempty, if_true]
    exact ⟨hs', hphase⟩
  · simp only [bind_apply, get_apply, bind_done, hempty]
    refine ⟨hs', fun r => ?_⟩
    have hcall := h.call t' s' (.send s'.txBacklog flags) r rfl hs'
    cases r with
    | sent n hn => exact ⟨h.same _ s' _ rfl rfl hcall, hphase⟩
    | zero => exact ⟨hcall, hphase⟩
    | error e =>
      simp only [bind_done]
      split <;> exact ⟨hcall, hphase⟩

theorem flush_holds (flags : Flags) (fuel : ℕ) : Holds I (flushBacklog flags fuel) :=
  fun _ _ hs => safe_mono (fun _ _ _ hpost => hpost.1) (flushBacklog_holds h flags fuel hs)

theorem pullWire_holds (flags : Flags) (hs : I t s) :
    Safe (always I) (fun t' s' _ => I t' s' ∧ s'.phase = s.phase) (pullWire flags s) t := by
  refine ⟨hs, fun r => ?_⟩
  have hcall := h.call t s (.recv flags) r rfl hs
  cases r with
  | data d hd =>
    simp only [bind_done, bind_apply, get_apply]
    cases happ : s.appendRxWire d with
    | none => exact ⟨hcall, rfl⟩
    | some s' =>
      obtain ⟨-, rfl⟩ := FdState.appendRxWire_eq_some.mp happ
      exact ⟨h.same _ s _ rfl rfl hcall, rfl⟩
  | eof | error => exact ⟨hcall, rfl⟩

theorem SessionRule.appendTx {s' : FdState} {bytes : Bytes} (hs : I t s)
    (heq : s.appendTx bytes = some s') : I t s' := by
  obtain ⟨-, rfl⟩ := FdState.appendTx_eq_some.mp heq
  exact h.same t s _ rfl rfl hs

theorem queueFrame_holds (suiteId tag : UInt8) (payload : Bytes) :
    Holds I (queueFrame suiteId tag payload) := by
  unfold queueFrame
  split
  · exact holds_pure _
  · intro s t hs
    simp only [bind_apply, get_apply, bind_done]
    cases happ : s.appendTx _ with
    | none => exact holds_bind (h.note rfl) (fun _ => holds_pure _) s t hs
    | some s' => exact holds_bind (h.note rfl) (fun _ => holds_pure _) s' t (h.appendTx hs happ)

/-! ### Handshake -/

theorem onClientHello_holds (f : ParsedFrame) : Holds I (onClientHello P f) := by
  refine holds_get fun st => holds_bind (h.perform rfl) fun identity => ?_
  split
  · split
    · refine holds_bind (h.perform rfl) fun eph => ?_
      split
      · refine holds_bind (queueFrame_holds h _ _ _) fun queued => ?_
        split
        · exact activate_holds h _ _
        · exact failClosed_holds h _
      · exact failClosed_holds h _
    · exact failClosed_holds h _
  · exact failClosed_holds h _

theorem onFallbackHello_holds (f : ParsedFrame) : Holds I (onFallbackHello P f) := by
  refine holds_bind (localPosture_holds h) fun posture => holds_bind (h.perform rfl) fun psk => ?_
  split
  · refine holds_bind (h.perform rfl) fun nonce => ?_
    split
    · refine holds_bind (h.note rfl) fun _ => ?_
      refine holds_bind (queueFrame_holds h _ _ _) fun queued => ?_
      split
      · exact holds_bind (h.note rfl) fun _ => activate_holds h _ _
      · exact failClosed_holds h _
    · exact holds_bind (h.note rfl) fun _ => failClosed_holds h _
  · exact holds_bind (h.note rfl) fun _ => failClosed_holds h _

theorem onServerHello_holds (state : InitiatorState) (f : ParsedFrame) :
    Holds I (onServerHello P state f) := by
  refine holds_get fun st => holds_bind (h.perform rfl) fun identity => ?_
  split
  · split
    · split
      · exact activate_holds h _ _
      · exact failClosed_holds h _
    · exact failClosed_holds h _
  · exact failClosed_holds h _

theorem onFallbackFinished_holds (state : FallbackInitiator) (f : ParsedFrame) :
    Holds I (onFallbackFinished P state f) := by
  unfold onFallbackFinished
  split
  · exact holds_bind (h.note rfl) fun _ => activate_holds h _ _
  · exact holds_bind (h.note rfl) fun _ => failClosed_holds h _

theorem onHandshakeFrame_holds (current : FdPhase) (f : ParsedFrame) :
    Holds I (onHandshakeFrame P current f) := by
  have hunexpected : Holds I onUnexpectedHello :=
    holds_bind (h.note rfl) fun _ => failClosed_holds h _
  unfold onHandshakeFrame
  split
  · split
    · exact onClientHello_holds h f
    · split
      · exact onFallbackHello_holds h f
      · exact failClosed_holds h _
  · split
    · exact onServerHello_holds h _ f
    · split
      · exact hunexpected
      · exact failClosed_holds h _
  · split
    · exact onFallbackFinished_holds h _ f
    · split
      · exact hunexpected
      · exact failClosed_holds h _
  · exact failClosed_holds h _
  · exact failClosed_holds h _

theorem driveHandshake_holds (fuel : ℕ) (hs : I t s)
    (hhs : s.phase.handshaking = true ∨ aside) :
    Safe (always I) (fun t s _ => I t s) (driveHandshake P fuel s) t := by
  -- a further round is made in a phase of the handshake only
  refine safe_iter (fun _ t s => I t s ∧ (s.phase.handshaking = true ∨ aside))
    (fun _ _ _ hJ => hJ.1) ?_ fuel ⟨hs, hhs⟩
  rintro - t s ⟨hs, hhs⟩
  simp only [bind_apply, get_apply, bind_done]
  cases hpop : tryPopFrame s.rxWire with
  | error e => exact safe_bind (failClosed_holds h _ s t hs)
  | ok popped =>
    cases popped with
    | none => exact hs
    | some taken =>
      obtain ⟨f, rest⟩ := taken
      have htaken := h.taken t s { s with rxWire := rest, phase := .failed } hhs rfl rfl hs
      have hnoted := h.call t _ (.note (.popped f)) () rfl htaken
      refine ⟨htaken, fun _ => ?_⟩
      simp only [bind_done, bind_apply]
      refine safe_bind (safe_mono (fun t' s' _ hs' => ?_) (onHandshakeFrame_holds h _ f _ _ hnoted))
      rw [bind_apply, get_apply, bind_done]
      by_cases hmore : s'.phase.handshaking = true
      · rw [if_pos hmore]
        exact ⟨hs', .inl hmore⟩
      · rw [if_neg hmore]
        exact hs'

/-! ### Send path -/

theorem pullForWrite_holds (flags : Flags) (blocking : Bool) (fuel : ℕ) (hs : I t s)
    (hhs : s.phase.handshaking = true) :
    Safe (always I) (fun t s _ => I t s) (pullForWrite P flags blocking fuel s) t := by
  refine safe_bind (safe_mono (fun t' s' r hpost => ?_) (pullWire_holds h flags hs))
  obtain ⟨hs', hphase⟩ := hpost
  split
  · exact failWith_holds h _ _ s' t' hs'
  · exact safe_bind (driveHandshake_holds h fuel hs' (.inl (by rwa [hphase])))
  · split
    · exact hs'
    · split
      · exact failWith_holds h _ _ s' t' hs'
      · exact hs'
  · exact failWith_holds h _ _ s' t' hs'

theorem driveUntilActiveForWrite_holds (flags : Flags) (blocking : Bool) (fuel : ℕ) :
    Holds I (driveUntilActiveForWrite P flags blocking fuel) := by
  refine holds_bind (flush_holds h flags fuel) fun r => ?_
  split
  · exact failWith_holds h _ _
  · refine holds_iter (fun _ s t hs => ?_) fuel ()
    simp only [bind_apply, get_apply, bind_done]
    cases hphase : s.phase with
    | active keys => exact hs
    | failed => exact hs
    | _ =>
      -- the phases of the handshake share one branch of the source
      have hhs : s.phase.handshaking = true := by rw [hphase]; rfl
      dsimp only
      split
      · exact pullForWrite_holds h flags blocking fuel hs hhs
      · refine safe_bind (safe_mono (fun t' s' r hpost => ?_) (flushBacklog_holds h flags fuel hs))
        obtain ⟨hs', hkept⟩ := hpost
        split
        · exact pullForWrite_holds h flags blocking fuel hs' (by rwa [hkept])
        · split <;> exact hs'
        · exact failWith_holds h _ _ s' t' hs'

theorem appendOrFlush_holds (bytes : Bytes) (flags : Flags) (blocking : Bool) (fuel : ℕ) :
    Holds I (appendOrFlush bytes flags blocking fuel) := by
  have hqueue : Holds I (do note (.queued bytes); pure (.ok ()) : FdAct (Except Errno Unit)) :=
    holds_bind (h.note rfl) fun _ => holds_pure _
  intro s t hs
  simp only [appendOrFlush, bind_apply, get_apply, bind_done]
  cases happ : s.appendTx bytes with
  | some s' => exact hqueue s' t (h.appendTx hs happ)
  | none =>
    refine holds_bind (h.note rfl) (fun _ => holds_bind (flush_holds h flags fuel) fun r => ?_)
      s t hs
    split
    · exact failWith_holds h _ _
    · split
      · exact holds_pure _
      · intro s₁ t₁ hs₁
        simp only [bind_apply, get_apply, bind_done]
        cases happ₁ : s₁.appendTx bytes with
        | some s' => exact hqueue s' t₁ (h.appendTx hs₁ happ₁)
        | none => exact holds_bind (h.note rfl) (fun _ => holds_pure _) s₁ t₁ hs₁

theorem sendRecord_holds (plaintext : Bytes) (suiteId : UInt8) (flags : Flags) (blocking : Bool)
    (fuel offset : ℕ) : Holds I (sendRecord P plaintext suiteId flags blocking fuel offset) := by
  unfold sendRecord
  split
  · intro s t hs
    simp only [bind_apply, get_apply, bind_done]
    cases hphase : s.phase with
    | active keys =>
      dsimp only
      cases keys.seal P (slice plaintext offset
        (min (offset + maxRecordPlaintext) plaintext.length)) with
      | error e => exact failWith_holds h _ _ s t hs
      | ok out =>
        have hsealed := h.keys t s { s with phase := .active out.1 } keys _ hphase rfl rfl hs
        refine ⟨hsealed, fun _ => ?_⟩
        have hnoted := h.call t _ (.note (.sealed .record keys.tx.key
          (nonceFromCounter keys.tx.counter) (slice plaintext offset
            (min (offset + maxRecordPlaintext) plaintext.length)) out.2)) () rfl hsealed
        simp only [bind_done]
        cases frame suiteId typeData out.2 with
        | none => exact failWith_holds h _ _ _ _ hnoted
        | some f =>
          refine holds_bind (appendOrFlush_holds h f flags blocking fuel) (fun r => ?_) _ _ hnoted
          split
          · exact holds_pure _
          · exact failWith_holds h _ _
    | _ => exact failWith_holds h _ _ s t hs
  · exact holds_pure _

theorem sendFlush_holds (len : ℕ) (flags : Flags) (blocking : Bool) (fuel : ℕ) :
    Holds I (sendFlush len flags blocking fuel) := by
  refine holds_bind (flush_holds h flags fuel) fun r => ?_
  split
  · exact holds_pure _
  · split
    · exact holds_pure _
    · refine holds_iter (fun _ => holds_bind (flush_holds h flags fuel) fun r => ?_) fuel ()
      split
      · exact holds_pure _
      · exact holds_pure _
      · exact failWith_holds h _ _
  · exact failWith_holds h _ _

/-- The checks at the start of `overlay_send` and `overlay_recv`. -/
theorem guards_holds {body : Bool → FdAct (Except Errno α)} (hbody : ∀ b, Holds I (body b)) :
    Holds I (do
      if ← inheritedAfterFork then pure (.error EPIPE)
      else if ← failIfStaleIdleConfig then pure (.error EPIPE)
      else
        let blocking ← isBlocking
        body blocking : FdAct (Except Errno α)) := by
  refine holds_bind (inheritedAfterFork_holds h) fun inherited => ?_
  split
  · exact holds_pure _
  · refine holds_bind (failIfStaleIdleConfig_holds h) fun stale => ?_
    split
    · exact holds_pure _
    · exact holds_bind (isBlocking_holds h) hbody

theorem overlaySend_holds (plaintext : Bytes) (flags : Flags) (fuel : ℕ) :
    Holds I (overlaySend P plaintext flags fuel) := by
  refine guards_holds h fun blocking => ?_
  refine holds_bind (driveUntilActiveForWrite_holds h flags blocking fuel) fun r => ?_
  split
  · exact holds_pure _
  · split
    · exact holds_pure _
    · refine holds_get fun st => holds_bind (holds_iter (fun offset => ?_) fuel 0) fun r => ?_
      · exact sendRecord_holds h plaintext _ flags blocking fuel offset
      · split
        · exact holds_pure _
        · exact sendFlush_holds h _ flags blocking fuel

/-! ### Receive path -/

theorem openRecords_holds (fuel : ℕ) : Holds I (openRecords P fuel) := by
  refine holds_iter (fun _ s t hs => ?_) fuel ()
  simp only [bind_apply, get_apply, bind_done]
  cases hpop : tryPopFrame s.rxWire with
  | error e => exact failWith_holds h _ _ s t hs
  | ok popped =>
    cases popped with
    | none => exact hs
    | some taken =>
      obtain ⟨f, rest⟩ := taken
      have htaken : I t { s with rxWire := rest } := h.same t s _ rfl rfl hs
      have hnoted := h.call t _ (.note (.popped f)) () rfl htaken
      refine ⟨htaken, fun _ => ?_⟩
      by_cases htag : f.tag = typeData
      · by_cases hsuite : f.suiteId = s.policySuite.id
        · simp only [bind_done, htag, hsuite, ne_eq, not_true_eq_false, if_true, if_false]
          revert hnoted
          cases hphase : s.phase with
          | active keys =>
            intro hnoted
            dsimp only
            cases keys.open P f.payload with
            | error e => exact failWith_holds h _ _ _ _ hnoted
            | ok out =>
              have hopened := h.keys _ { s with rxWire := rest, phase := .active keys }
                { s with rxWire := rest, phase := .active out.1 } keys _ rfl rfl rfl hnoted
              refine ⟨hopened, fun _ => ?_⟩
              have hseen := h.call _ _ (.note (.opened keys.rx.key
                (nonceFromCounter keys.rx.counter) f.payload out.2)) () rfl hopened
              cases happ : FdState.appendRxPlain _ out.2 with
              | none => exact failWith_holds h _ _ _ _ hseen
              | some s' =>
                obtain ⟨-, rfl⟩ := FdState.appendRxPlain_eq_some.mp happ
                exact h.same _ { s with rxWire := rest, phase := .active out.1 } _ rfl rfl hseen
          | _ => exact fun hnoted => hnoted
        · simp only [bind_done, htag, hsuite, ne_eq, not_false_eq_true, if_true]
          exact failWith_holds h _ _ _ _ hnoted
      · simp only [bind_done, htag, if_false]
        exact failWith_holds h _ _ _ _ hnoted

theorem pullForRecv_holds (flags : Flags) (blocking : Bool) :
    Holds I (pullForRecv flags blocking) := by
  have hpull : Holds I (pullWire flags) := fun _ _ hs =>
    safe_mono (fun _ _ _ hpost => hpost.1) (pullWire_holds h flags hs)
  refine holds_bind hpull fun r => ?_
  split
  · exact holds_pure _
  · exact holds_pure _
  · split
    · exact holds_pure _
    · split <;> exact holds_pure _
  · exact failWith_holds h _ _

theorem openOrPull_holds (flags : Flags) (blocking : Bool) (fuel : ℕ) :
    Holds I (openOrPull P flags blocking fuel) := by
  refine holds_get fun st => ?_
  split
  · exact holds_pure _
  · refine holds_bind (openRecords_holds h fuel) fun r => ?_
    split
    · exact holds_pure _
    · refine holds_get fun st' => ?_
      split
      · exact holds_pure _
      · exact pullForRecv_holds h flags blocking
  · exact pullForRecv_holds h flags blocking

theorem recvRound_holds (len : ℕ) (flags : Flags) (blocking : Bool) (fuel : ℕ) :
    Holds I (recvRound P len flags blocking fuel) := by
  intro s t hs
  simp only [recvRound, bind_apply, get_apply, bind_done]
  split
  · simp only [copyPlaintextToApp, bind_apply, get_apply, bind_done]
    have htaken := h.same t s { s with rxPlain := s.rxPlain.drop (min len s.rxPlain.length) }
      rfl rfl hs
    exact ⟨htaken, fun _ => h.call _ _ _ _ rfl htaken⟩
  · split
    case isTrue hhs =>
      refine safe_bind (safe_mono (fun t' s' _ hpost => ?_) (flushBacklog_holds h flags fuel hs))
      obtain ⟨hs', hphase⟩ := hpost
      refine safe_bind (safe_mono (fun t' s' _ hs' => ?_)
        (driveHandshake_holds h fuel hs' (.inl (by rwa [hphase]))))
      exact holds_bind (flush_holds h flags fuel) (fun _ => openOrPull_holds h flags blocking fuel)
        s' t' hs'
    · exact openOrPull_holds h flags blocking fuel s t hs

theorem FdCall.run_holds (c : FdCall) (hc : ∀ fuel, c = .driveHandshake fuel → aside) :
    Holds I (c.run P) := by
  cases c with
  | send plaintext flags fuel =>
    exact holds_bind (overlaySend_holds h plaintext flags fuel) fun _ => holds_pure _
  | recv len hlen flags fuel =>
    refine holds_bind (guards_holds h fun blocking => ?_) fun _ => holds_pure _
    exact holds_iter (fun _ => recvRound_holds h len flags blocking fuel) fuel ()
  | driveHandshake fuel =>
    exact fun s t hs => safe_bind (driveHandshake_holds h fuel hs (.inr (hc fuel rfl)))
  | staleIdleConfig => exact holds_bind (failIfStaleIdleConfig_holds h) fun _ => holds_pure _
  | inheritedAfterFork => exact holds_bind (inheritedAfterFork_holds h) fun _ => holds_pure _
  | retire epoch => exact holds_bind (retireIdleSession_holds h epoch) fun _ => holds_pure _

end

/-! ### The phase alone -/

/-- A property of the phase that `Active` and `Failed` have. -/
structure PhaseRule (R : FdState → Prop) : Prop where
  same : ∀ s s', s'.phase = s.phase → R s → R s'
  active : ∀ s keys, s.phase = .active keys → R s
  failed : ∀ s, s.phase = .failed → R s

theorem PhaseRule.session {R : FdState → Prop} (h : PhaseRule R) :
    SessionRule True fun _ s => R s where
  same := fun _ s s' hphase _ hs => h.same s s' hphase hs
  call := fun _ _ _ _ _ hs => hs
  keys := fun _ _ s' _ keys' _ hphase _ _ => h.active s' keys' hphase
  taken := fun _ _ s' _ hphase _ _ => h.failed s' hphase
  close := fun _ _ _ _ => h.failed _ rfl
  closeCounted := fun _ _ _ _ => h.failed _ rfl
  activate := fun _ _ keys _ _ => h.active _ keys rfl
  activateCounted := fun _ _ keys _ _ => h.active _ keys rfl

theorem FdCall.run_keeps {R : FdState → Prop} (h : PhaseRule R) {P : Primitives} (c : FdCall) :
    Keeps R (c.run P) :=
  FdCall.run_holds h.session c fun _ _ => trivial

theorem phase_ne_responder {P : Primitives} {st : FdState}
    {log : List (FdCall × FdRet)} {t : Tr} {status : Status Resp FdCall FdState FdRet}
    (hrun : Reach (FdCall.run P) st log t status)
    (hst : st.phase ≠ .responderAwaitingClientHello) :
    status.state.phase ≠ .responderAwaitingClientHello := by
  have hrule : PhaseRule fun s => s.phase ≠ .responderAwaitingClientHello :=
    ⟨fun s s' heq hs => by rwa [heq], fun s keys hs => by simp [hs], fun s hs => by simp [hs]⟩
  exact reach_keeps (fun c => FdCall.run_keeps hrule c) hst hrun

end SyntriassOverlay
