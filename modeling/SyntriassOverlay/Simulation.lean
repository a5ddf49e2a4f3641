import SyntriassOverlay.Session

/-!
# The functions of the interceptor only take the steps of a history

One lemma for each function of `Interceptor`, in continuation form: whatever
follows the function is safe for every state it can end in. The lemmas are
assembled into `FdCall.run_safe`, and over whole runs into `run_idle` and
`run_io`.
-/

namespace SyntriassOverlay
open Crypto Resumption

/-- What holds when a call is made: at the real `send` and `recv` the session is
alive and at the end of a step, at the other calls it may be inside one. A record
waits to be queued during a `send` only if the backlog had no room for it. -/
def ioInv (P : Primitives) (aside : Prop) (s₀ : FdState) : Obligation Resp FdState where
  call t s o :=
    match o with
    | .send buf _ => s.phase ≠ .failed ∧ buf = s.txBacklog ∧ buf ≠ [] ∧
        ∃ pd, (pd = none ∨ noted .limitExceeded ∈ t) ∧ History P aside s₀ t s pd
    | .recv _ => s.phase ≠ .failed ∧ tryPopFrame s.rxWire = .ok none ∧ s.rxPlain = [] ∧
        History P aside s₀ t s none
    | _ => Between P aside s₀ t
  cut t _ := Between P aside s₀ t

/-- The second trace continues the first; no application byte was sealed or
delivered in between. -/
structure Same (t t' : Tr) : Prop where
  mono : t <+: t'
  sealed : sealedPlain t' = sealedPlain t
  delivered : deliveredBytes t' = deliveredBytes t

theorem Same.refl (t : Tr) : Same t t := ⟨List.prefix_rfl, rfl, rfl⟩

theorem Same.trans {t u v : Tr} (h : Same t u) (h' : Same u v) : Same t v :=
  ⟨h.mono.trans h'.mono, h'.sealed.trans h.sealed, h'.delivered.trans h.delivered⟩

theorem sealedPlain_eq_nil {t : Tr} (h : records t = []) : sealedPlain t = [] := by
  rw [sealedPlain, h]
  rfl

theorem Same.append {t u v : Tr} (h : Same t u) (hr : records v = [])
    (hd : deliveredBytes v = []) : Same t (u ++ v) := by
  refine ⟨h.mono.trans (List.prefix_append _ _), ?_, ?_⟩
  · rw [sealedPlain_append, h.sealed, sealedPlain_eq_nil hr, List.append_nil]
  · rw [deliveredBytes_append, hd, List.append_nil, h.delivered]

theorem Same.fail {t u : Tr} (h : Same t u) (s : FdState) (site : FailSite) :
    Same t (u ++ failSeg s site) :=
  h.append (records_failSeg s site) (deliveredBytes_failSeg s site)

/-- A handshake that is still under way has looked at every frame it has. -/
def FdState.Settled (s : FdState) : Prop :=
  s.phase.handshaking = true → tryPopFrame s.rxWire = .ok none

theorem FdState.closed_settled (s : FdState) : s.closed.Settled := fun h => (by cases h)

theorem FdState.settled_of_failed {s : FdState} (h : s.phase = .failed) : s.Settled := by
  intro hh
  rw [h] at hh
  cases hh

theorem FdState.settled_of_active {s : FdState} {keys : SessionKeys} (h : s.phase = .active keys) :
    s.Settled := by
  intro hh
  rw [h] at hh
  cases hh

/-- A trace that ends in a hard error of the real `send`. -/
def HardSend (t : Tr) : Prop :=
  ∃ (u : Tr) (buf : Bytes) (flags : Flags) (e : Errno),
    wouldBlock e = false ∧ t = u ++ [⟨.send buf flags, .error e⟩]

section
variable {P : Primitives} {aside : Prop} {s₀ s : FdState} {t : Tr} {α : Type}

theorem note_bind_safe {n : Note} {f : Unit → FdAct α} {Q : Tr → FdState → α → Prop}
    (hb : Between P aside s₀ t) (h : Safe (ioInv P aside s₀) Q (f () s) (t ++ [noted n])) :
    Safe (ioInv P aside s₀) Q ((note n s).bind f) t := ⟨hb, fun _ => h⟩

theorem note_safe {n : Note} {Q : Tr → FdState → Unit → Prop} (hb : Between P aside s₀ t)
    (h : Q (t ++ [noted n]) s ()) : Safe (ioInv P aside s₀) Q (note n s) t := ⟨hb, fun _ => h⟩

theorem failClosed_safe {Q : Tr → FdState → Unit → Prop} {site : FailSite}
    (hb : Between P aside s₀ t) (h : Q (t ++ failSeg s site) s.closed ()) :
    Safe (ioInv P aside s₀) Q (failClosed site s) t := by
  unfold failSeg at h
  unfold failClosed
  by_cases hc : s.countedActive = true
  · simp only [hc, if_true] at h
    simp only [bind_apply, get_apply, bind_done, hc, if_true]
    refine note_bind_safe hb (note_safe (hb.snoc rfl _) ?_)
    simpa using h
  · simp only [hc, Bool.false_eq_true, if_false] at h
    simp only [bind_apply, get_apply, bind_done, hc, Bool.false_eq_true, if_false]
    exact note_safe hb h

theorem activate_safe {Q : Tr → FdState → Unit → Prop} {keys : SessionKeys} {origin : Origin}
    (hb : Between P aside s₀ t) (h : Q (t ++ activateSeg s keys origin)
      { s with phase := .active keys, countedActive := true } ()) :
    Safe (ioInv P aside s₀) Q (activate keys origin s) t := by
  unfold activateSeg at h
  unfold activate
  by_cases hc : s.countedActive = true
  · simp only [hc, if_true] at h
    simp only [bind_apply, get_apply, bind_done, hc, Bool.not_true, Bool.false_eq_true, if_false]
    exact note_safe hb h
  · simp only [hc, Bool.false_eq_true, if_false] at h
    simp only [bind_apply, get_apply, bind_done, hc, Bool.not_false, if_true]
    refine note_bind_safe hb (note_safe (hb.snoc rfl _) ?_)
    simpa using h

theorem failWith_safe {Q : Tr → FdState → α → Prop} {site : FailSite} {a : α}
    (hb : Between P aside s₀ t) (h : Q (t ++ failSeg s site) s.closed a) :
    Safe (ioInv P aside s₀) Q ((do failClosed site; pure a : FdAct α) s) t := by
  rw [bind_apply]
  exact safe_bind (failClosed_safe hb h)

/-! ### Socket I/O -/

theorem flushBacklog_safe {pd : Option Bytes} (flags : Flags) (fuel : ℕ)
    (h : History P aside s₀ t s pd) (hpd : pd = none ∨ noted .limitExceeded ∈ t)
    (hphase : s.phase = .failed → s.txBacklog = [])
    {Q : Tr → FdState → Except Unit Bool → Prop}
    (hok : ∀ t' n b, History P aside s₀ t' { s with txBacklog := s.txBacklog.drop n } pd →
      Same t t' → (b = true → s.txBacklog.drop n = []) →
      Q t' { s with txBacklog := s.txBacklog.drop n } (.ok b))
    (herr : ∀ t' n, History P aside s₀ t' { s with txBacklog := s.txBacklog.drop n } pd →
      Same t t' → HardSend t' → Q t' { s with txBacklog := s.txBacklog.drop n } (.error ())) :
    Safe (ioInv P aside s₀) Q (flushBacklog flags fuel s) t := by
  -- the loop invariant: some number of bytes is gone from the front of the backlog
  refine safe_iter (fun _ t' s' => ∃ n, s' = { s with txBacklog := s.txBacklog.drop n } ∧
    History P aside s₀ t' s' pd ∧ Same t t') (fun _ _ _ hJ => hJ.choose_spec.2.1.between) ?_ fuel
    ⟨0, rfl, h, Same.refl t⟩
  rintro - t' s' ⟨n, rfl, h', hsame⟩
  by_cases hnil : s.txBacklog.drop n = []
  · have hb := hok t' n true h' hsame fun _ => hnil
    simpa [hnil] using hb
  · have hactive : s.phase ≠ .failed := fun hf => hnil (by rw [hphase hf, List.drop_nil])
    simp only [bind_apply, get_apply, bind_done, List.isEmpty_iff, hnil, if_false, perform_apply,
      bind_call, safe_call]
    refine ⟨⟨hactive, rfl, hnil, pd, hpd.imp_right fun hm => hsame.mono.subset hm, h'⟩, ?_⟩
    intro r
    have hmove : ∀ r', Same t (t' ++ [⟨.send (s.txBacklog.drop n) flags, r'⟩]) := fun r' =>
      hsame.append rfl rfl
    cases r with
    | sent m hm =>
      refine ⟨n + m, ?_, ?_, hmove _⟩
      · simp [List.drop_drop]
      · exact History.sent h' hactive flags m hm
    | zero =>
      refine hok _ n false (History.stalled h' hactive hnil flags _ ?_) (hmove _) (by simp)
      intro k hk hne
      cases hne
    | error e =>
      have hst := History.stalled h' hactive hnil flags (.error e) (by intro k hk hne; cases hne)
      by_cases hw : wouldBlock e = true
      · simpa [hw] using hok _ n false hst (hmove _) (by simp)
      · simpa [hw] using herr _ n hst (hmove _) ⟨t', _, flags, e, by simpa using hw, rfl⟩

theorem pullWire_safe (flags : Flags) (h : History P aside s₀ t s none)
    (hphase : s.phase ≠ .failed) (hpop : tryPopFrame s.rxWire = .ok none) (hplain : s.rxPlain = [])
    {Q : Tr → FdState → Except Unit RecvResult → Prop}
    (hdata : ∀ d hd, History P aside s₀ (t ++ [⟨.recv flags, .data d hd⟩])
      { s with rxWire := s.rxWire ++ d } none →
      Q (t ++ [⟨.recv flags, .data d hd⟩]) { s with rxWire := s.rxWire ++ d } (.ok (.data d hd)))
    (heof : History P aside s₀ (t ++ [⟨.recv flags, .eof⟩]) s none →
      Q (t ++ [⟨.recv flags, .eof⟩]) s (.ok .eof))
    (herr : ∀ e, History P aside s₀ (t ++ [⟨.recv flags, .error e⟩]) s none →
      Q (t ++ [⟨.recv flags, .error e⟩]) s (.ok (.error e)))
    (hfull : ∀ d hd, Between P aside s₀ (t ++ [⟨.recv flags, .data d hd⟩]) →
      (∀ site ∈ [FailSite.writeOverflow, FailSite.recvOverflow], History P aside s₀
        (t ++ [⟨.recv flags, .data d hd⟩] ++ failSeg s site) s.closed none) →
      Q (t ++ [⟨.recv flags, .data d hd⟩]) s (.error ())) :
    Safe (ioInv P aside s₀) Q (pullWire flags s) t := by
  simp only [pullWire, bind_apply, perform_apply, bind_call, bind_done, safe_call]
  refine ⟨⟨hphase, hpop, hplain, h⟩, ?_⟩
  intro r
  cases r with
  | eof => exact heof (History.unread h hphase hpop flags .eof (by intro d hd he; cases he))
  | error e => exact herr e (History.unread h hphase hpop flags _ (by intro d hd he; cases he))
  | data d hd =>
    simp only [bind_apply, get_apply, bind_done]
    cases ha : s.appendRxWire d with
    | some s' =>
      obtain ⟨hroom, rfl⟩ := FdState.appendRxWire_eq_some.mp ha
      exact hdata d hd (History.pulled h hphase hpop hplain flags d hd hroom)
    | none =>
      have hlt := FdState.appendRxWire_eq_none.mp ha
      exact hfull d hd (h.between_read flags _)
        fun site hsite => h.flooded hphase hpop flags d hd hlt site hsite

theorem queueFrame_safe {suiteId tag : UInt8} {payload : Bytes} {Q : Tr → FdState → Bool → Prop}
    (hb : Between P aside s₀ t)
    (hok : ∀ fr, frame suiteId tag payload = some fr →
      fr.length ≤ maxWriteBacklog - s.txBacklog.length →
      Q (t ++ [noted (.queued fr)]) { s with txBacklog := s.txBacklog ++ fr } true)
    (hno : ∀ q, Unqueued s suiteId tag payload q → Between P aside s₀ (t ++ q) →
      Q (t ++ q) s false) :
    Safe (ioInv P aside s₀) Q (queueFrame suiteId tag payload s) t := by
  unfold queueFrame
  cases hf : frame suiteId tag payload with
  | none => simpa using hno [] (.tooLong hf) (by simpa using hb)
  | some fr =>
    simp only [bind_apply, get_apply, bind_done]
    cases ha : s.appendTx fr with
    | none =>
      exact note_bind_safe hb (hno _ (.noRoom hf (FdState.appendTx_eq_none.mp ha)) (hb.snoc rfl _))
    | some s' =>
      obtain ⟨hroom, rfl⟩ := FdState.appendTx_eq_some.mp ha
      exact note_bind_safe hb (hok fr hf hroom)

/-! ### Handshake

The handlers run on the state whose frame has been taken off and whose phase has
been moved out; closing or activating it is the same as closing or activating the
state it was before. -/

/-- The state on which a handshake frame is handled. -/
abbrev taken (s : FdState) (rest : Bytes) : FdState := { s with rxWire := rest, phase := .failed }

section Handlers
variable {f : ParsedFrame} {rest : Bytes} {Q : Tr → FdState → Unit → Prop}

/-- The session before the frame was taken off, and what is left to show after
each outcome of its handler. -/
structure Handled (P : Primitives) (aside : Prop) (s₀ s : FdState) (t : Tr) (f : ParsedFrame)
    (rest : Bytes) (Q : Tr → FdState → Unit → Prop) : Prop where
  history : History P aside s₀ t s none
  activated : ∀ keys origin pre fr, Activation P s f keys origin pre fr →
    Q (t ++ noted (.popped f) :: pre ++ activateSeg s keys origin)
      { s with rxWire := rest, txBacklog := s.txBacklog ++ fr, phase := .active keys,
               countedActive := true } ()
  rejected : ∀ pre site, Rejection P s f pre site →
    Q (t ++ noted (.popped f) :: pre ++ failSeg s site) s.closed ()

theorem Handled.between (hQ : Handled P aside s₀ s t f rest Q) :
    Between P aside s₀ (t ++ [noted (.popped f)]) := hQ.history.between.snoc rfl _

theorem Handled.reject (hQ : Handled P aside s₀ s t f rest Q) {pre : Tr} {site : FailSite}
    {t' : Tr} (hr : Rejection P s f pre site) (hb : Between P aside s₀ t')
    (ht : t' = t ++ noted (.popped f) :: pre) :
    Safe (ioInv P aside s₀) Q (failClosed site (taken s rest)) t' := by
  subst ht
  exact failClosed_safe hb (hQ.rejected pre site hr)

theorem Handled.accept (hQ : Handled P aside s₀ s t f rest Q) {keys : SessionKeys}
    {origin : Origin} {pre : Tr} {fr : Bytes} {t' : Tr} {s' : FdState}
    (ha : Activation P s f keys origin pre fr) (hb : Between P aside s₀ t')
    (ht : t' = t ++ noted (.popped f) :: pre)
    (hs : s' = { taken s rest with txBacklog := s.txBacklog ++ fr }) :
    Safe (ioInv P aside s₀) Q (activate keys origin s') t' := by
  subst ht hs
  exact activate_safe hb (hQ.activated keys origin pre fr ha)

theorem Unqueued.of_taken {suiteId tag : UInt8} {payload : Bytes} {q : Tr}
    (h : Unqueued (taken s rest) suiteId tag payload q) : Unqueued s suiteId tag payload q := by
  cases h with
  | tooLong hf => exact .tooLong hf
  | noRoom hf hroom => exact .noRoom hf hroom

theorem onClientHello_safe (hphase : s.phase = .responderAwaitingClientHello)
    (htag : f.tag = typeClientHello) (hQ : Handled P aside s₀ s t f rest Q) :
    Safe (ioInv P aside s₀) Q (onClientHello P f (taken s rest)) (t ++ [noted (.popped f)]) := by
  simp only [onClientHello, bind_apply, get_apply, bind_done, perform_apply, bind_call, safe_call]
  refine ⟨hQ.between, fun r => ?_⟩
  have hb₁ : Between P aside s₀ (t ++ [noted (.popped f)] ++ [⟨.resolveIdentity, r⟩]) :=
    hQ.between.snoc rfl r
  cases hs : CipherSuite.fromId f.suiteId with
  | none =>
    refine hQ.reject (.helloMismatch r hphase htag ?_) hb₁ (by simp)
    intro _ _ he
    rw [hs] at he
    cases he
  | some proposed =>
    cases r with
    | error e =>
      exact hQ.reject (.helloMismatch (.error e) hphase htag fun _ he => by cases he) hb₁ (by simp)
    | ok identity =>
      by_cases hp : proposed = s.policySuite
      · subst hp
        simp only [if_true, bind_apply, perform_apply, bind_call, bind_done, safe_call]
        refine ⟨hb₁, fun eph => ?_⟩
        have hb₂ := hb₁.snoc (o := .ephemeral) rfl eph
        cases hrun : s.policySuite.respond P identity f.payload eph with
        | error e => exact hQ.reject (.helloRejected hphase htag hs hrun) hb₂ (by simp)
        | ok out =>
          obtain ⟨keys, reply⟩ := out
          simp only [bind_apply]
          refine safe_bind (queueFrame_safe hb₂ ?_ ?_)
          · intro fr hfr hroom
            exact hQ.accept (.respond hphase htag hs hrun hfr hroom) (hb₂.snoc rfl _) (by simp) rfl
          · intro q hq hb₃
            exact hQ.reject (.helloReply hphase htag hs hrun hq.of_taken) hb₃ (by simp)
      · simp only [hp, if_false]
        refine hQ.reject (.helloMismatch (.ok identity) hphase htag ?_) hb₁ (by simp)
        intro _ _ he
        rw [hs, Option.some.injEq] at he
        exact hp he

theorem onFallbackHello_safe (hphase : s.phase = .responderAwaitingClientHello)
    (htag : f.tag = typeFallbackHello) (hQ : Handled P aside s₀ s t f rest Q) :
    Safe (ioInv P aside s₀) Q (onFallbackHello P f (taken s rest))
      (t ++ [noted (.popped f)]) := by
  simp only [onFallbackHello, localPosture, bind_apply, perform_apply, bind_call, bind_done,
    pure_apply, safe_call]
  refine ⟨hQ.between, fun available => ?_⟩
  have hb₁ := hQ.between.snoc (o := .pqcControlAvailable) rfl available
  refine ⟨hb₁, fun p => ?_⟩
  have hb₂ := hb₁.snoc (o := .resolveFallbackPsk) rfl p
  refine ⟨hb₂, fun p' => ?_⟩
  have hb₃ := hb₂.snoc (o := .resolveFallbackPsk) rfl p'
  by_cases hd : selectPosture available p.isSome = .encryptedFallback ∧ p'.isSome
  · obtain ⟨hpos, hsome⟩ := hd
    obtain ⟨psk, rfl⟩ := Option.isSome_iff_exists.mp hsome
    obtain ⟨rfl, psk', rfl⟩ : available = false ∧ ∃ psk', p = some psk' := by
      cases available <;> cases p <;> simp [selectPosture] at hpos ⊢
    simp only [hpos, bind_apply, perform_apply, bind_call, bind_done, safe_call]
    refine ⟨hb₃, fun nonce => ?_⟩
    have hb₄ := hb₃.snoc (o := .freshNonce) rfl nonce
    cases hrun : fallbackRespond P psk f.payload nonce with
    | error e =>
      simp only [bind_apply]
      refine note_bind_safe hb₄ ?_
      exact hQ.reject (.fallbackRejected psk' hphase htag hrun) (hb₄.snoc rfl _) (by simp)
    | ok out =>
      obtain ⟨keys, reply⟩ := out
      -- the confirmation is the one seal inside a step
      have hb₅ : Between P aside s₀ (t ++ [noted (.popped f)] ++ [⟨.pqcControlAvailable, false⟩] ++
          [⟨.resolveFallbackPsk, some psk'⟩] ++ [⟨.resolveFallbackPsk, some psk⟩] ++
          [⟨.freshNonce, nonce⟩] ++ [noted (.sealed .confirm keys.tx.key (nonceFromCounter 0)
            fallbackConfirm (reply.drop fallbackNonceLen))]) := by
        refine ⟨t, _, s, none, by simp only [List.append_assoc]; rfl, hQ.history,
          ⟨rfl, rfl, rfl, rfl, rfl⟩,
          .inr ⟨psk, f.payload, nonce, keys, reply, hphase, hrun, ?_, rfl⟩⟩
        simp
      simp only [bind_apply]
      refine note_bind_safe hb₄ (safe_bind (queueFrame_safe hb₅ ?_ ?_))
      · intro fr hfr hroom
        simp only [if_true, bind_apply]
        have hb₆ := hb₅.snoc (o := .note (.queued fr)) rfl ()
        refine note_bind_safe hb₆ ?_
        exact hQ.accept (.fallbackRespond psk' hphase htag hrun hfr hroom) (hb₆.snoc rfl _)
          (by simp) rfl
      · intro q hq hb₆
        exact hQ.reject (.fallbackReply psk' hphase htag hrun hq.of_taken) hb₆ (by simp)
  · have hrej : Rejection P s f
        [⟨.pqcControlAvailable, available⟩, ⟨.resolveFallbackPsk, p⟩, ⟨.resolveFallbackPsk, p'⟩,
          noted (.downgradeAttack "FallbackHello received by a non-degraded responder")]
        .fallbackNotDegraded := by
      refine .fallbackNotDegraded hphase htag ?_
      intro hpos
      by_contra hne
      exact hd ⟨hpos, Option.isSome_iff_ne_none.mpr hne⟩
    have hgoal : Safe (ioInv P aside s₀) Q _ _ := hQ.reject hrej
      (hb₃.snoc (o := .note (.downgradeAttack
        "FallbackHello received by a non-degraded responder")) rfl ()) (by simp)
    generalize selectPosture available (Option.isSome p) = posture at hd
    cases posture with
    | encryptedFallback =>
      cases p' with
      | some psk => exact absurd ⟨rfl, rfl⟩ hd
      | none => exact note_bind_safe hb₃ hgoal
    | fullPqc | failClosed => exact note_bind_safe hb₃ hgoal

theorem onServerHello_safe {state : InitiatorState}
    (hphase : s.phase = .initiatorAwaitingServerHello state) (htag : f.tag = typeServerHello)
    (hQ : Handled P aside s₀ s t f rest Q) :
    Safe (ioInv P aside s₀) Q (onServerHello P state f (taken s rest))
      (t ++ [noted (.popped f)]) := by
  simp only [onServerHello, bind_apply, get_apply, bind_done, perform_apply, bind_call, safe_call]
  refine ⟨hQ.between, fun r => ?_⟩
  have hb₁ : Between P aside s₀ (t ++ [noted (.popped f)] ++ [⟨.resolveIdentity, r⟩]) :=
    hQ.between.snoc rfl r
  cases r with
  | error e =>
    exact hQ.reject (.finishMismatch (.error e) hphase htag fun _ he => by cases he) hb₁ (by simp)
  | ok identity =>
    by_cases hs : f.suiteId = s.policySuite.id
    · simp only [hs, if_true]
      cases hrun : state.finish P identity f.payload with
      | ok keys => exact hQ.accept (.finish hphase htag hs hrun) hb₁ (by simp) (by simp)
      | error e => exact hQ.reject (.finishRejected hphase htag hs hrun) hb₁ (by simp)
    · simp only [hs, if_false]
      exact hQ.reject (.finishMismatch (.ok identity) hphase htag fun _ _ => hs) hb₁ (by simp)

theorem onFallbackFinished_safe {state : FallbackInitiator}
    (hphase : s.phase = .initiatorAwaitingFallbackFinished state)
    (htag : f.tag = typeFallbackFinished) (hQ : Handled P aside s₀ s t f rest Q) :
    Safe (ioInv P aside s₀) Q (onFallbackFinished P state f (taken s rest))
      (t ++ [noted (.popped f)]) := by
  unfold onFallbackFinished
  have hb := hQ.between
  cases hrun : state.finish P f.payload with
  | ok keys =>
    refine note_bind_safe hb ?_
    exact hQ.accept (.fallbackFinish hphase htag hrun) (hb.snoc rfl _) (by simp) (by simp)
  | error e =>
    refine note_bind_safe hb ?_
    exact hQ.reject (.fallbackFinishRejected hphase htag hrun) (hb.snoc rfl _) (by simp)

theorem onUnexpectedHello_safe
    (h : (∃ state, s.phase = .initiatorAwaitingServerHello state ∧ f.tag ≠ typeServerHello) ∨
      ∃ state, s.phase = .initiatorAwaitingFallbackFinished state ∧ f.tag ≠ typeFallbackFinished)
    (hQ : Handled P aside s₀ s t f rest Q) :
    Safe (ioInv P aside s₀) Q (onUnexpectedHello (taken s rest)) (t ++ [noted (.popped f)]) := by
  have hb := hQ.between
  refine note_bind_safe hb ?_
  exact hQ.reject (.unexpectedDowngrade h) (hb.snoc rfl _) (by simp)

theorem onHandshakeFrame_safe (hQ : Handled P aside s₀ s t f rest Q) :
    Safe (ioInv P aside s₀) Q (onHandshakeFrame P s.phase f (taken s rest))
      (t ++ [noted (.popped f)]) := by
  have hb := hQ.between
  cases hphase : s.phase with
  | responderAwaitingClientHello =>
    simp only [onHandshakeFrame]
    split
    · rename_i htag
      exact onClientHello_safe hphase htag hQ
    · rename_i hno
      split
      · rename_i htag
        exact onFallbackHello_safe hphase htag hQ
      · rename_i hno'
        refine hQ.reject (.unexpectedFrame (fun _ => ⟨hno, hno'⟩) ?_ ?_) hb rfl <;> simp [hphase]
  | initiatorAwaitingServerHello state =>
    simp only [onHandshakeFrame]
    split
    · rename_i htag
      exact onServerHello_safe hphase htag hQ
    · rename_i hno
      split
      · exact onUnexpectedHello_safe (.inl ⟨state, hphase, hno⟩) hQ
      · refine hQ.reject (.unexpectedFrame ?_ (fun _ _ => hno) ?_) hb rfl <;> simp [hphase]
  | initiatorAwaitingFallbackFinished state =>
    simp only [onHandshakeFrame]
    split
    · rename_i htag
      exact onFallbackFinished_safe hphase htag hQ
    · rename_i hno
      split
      · exact onUnexpectedHello_safe (.inr ⟨state, hphase, hno⟩) hQ
      · refine hQ.reject (.unexpectedFrame ?_ ?_ fun _ _ => hno) hb rfl <;> simp [hphase]
  | active keys => refine hQ.reject (.unexpectedFrame ?_ ?_ ?_) hb rfl <;> simp [hphase]
  | failed => refine hQ.reject (.unexpectedFrame ?_ ?_ ?_) hb rfl <;> simp [hphase]

end Handlers

theorem driveHandshake_safe (fuel : ℕ) (h : History P aside s₀ t s none)
    (hhs : s.phase.handshaking = true ∨ aside)
    {Q : Tr → FdState → Unit → Prop}
    (hQ : ∀ t' s', History P aside s₀ t' s' none → Same t t' → s'.Settled →
      (s.rxPlain = [] → s'.rxPlain = []) → Q t' s' ()) :
    Safe (ioInv P aside s₀) Q (driveHandshake P fuel s) t := by
  -- the loop never goes round: a frame ends the handshake one way or the other
  refine safe_iter (fun _ t' s' => t' = t ∧ s' = s) (fun _ _ _ hJ => hJ.1 ▸ h.between) ?_ fuel
    ⟨rfl, rfl⟩
  rintro - t s ⟨rfl, rfl⟩
  simp only [bind_apply, get_apply, bind_done]
  cases hpop : tryPopFrame s.rxWire with
  | error u =>
    have hf := History.failed h (.header .handshakeHeader hpop (by simp))
    exact failWith_safe h.between (hQ _ _ hf ((Same.refl t).fail _ _) s.closed_settled fun _ => rfl)
  | ok o =>
    cases o with
    | none => exact hQ t s h (Same.refl t) (fun _ => hpop) id
    | some fr =>
      obtain ⟨f, rest⟩ := fr
      simp only [bind_apply, set_apply, bind_done]
      refine note_bind_safe h.between (safe_bind (onHandshakeFrame_safe ⟨h, ?_, ?_⟩))
      · intro keys origin pre fr ha
        have hi := ha.inert
        have hsame : Same t (t ++ noted (.popped f) :: pre ++ activateSeg s keys origin) :=
          ((Same.refl t).append (by simp [hi.records]) (by simp [hi.delivered])).append
            (records_activateSeg _ _ _) (deliveredBytes_activateSeg _ _ _)
        exact hQ _ _ (h.activated hpop ha) hsame (fun hh => by cases hh) id
      · intro pre site hr
        have hi := hr.inert
        have hsame : Same t (t ++ noted (.popped f) :: pre ++ failSeg s site) :=
          ((Same.refl t).append (by simp [hi.records]) (by simp [hi.delivered])).fail s site
        exact hQ _ _ (h.rejected hhs hpop hr) hsame s.closed_settled fun _ => rfl

/-! ### Send path -/

variable (hs₀ : s₀.Sound)
include hs₀

theorem pullForWrite_safe (flags : Flags) (blocking : Bool) (fuel : ℕ)
    (h : History P aside s₀ t s none) (hhs : s.phase.handshaking = true) (hset : s.Settled)
    {Q : Tr → FdState → Unit ⊕ Except Errno Unit → Prop}
    (hgo : ∀ t' s', History P aside s₀ t' s' none → Same t t' → s'.Settled → Q t' s' (.inl ()))
    (hleave : ∀ t' s' e, History P aside s₀ t' s' none → Same t t' → s'.Settled →
      Q t' s' (.inr (.error e))) :
    Safe (ioInv P aside s₀) Q (pullForWrite P flags blocking fuel s) t := by
  have hphase := FdPhase.ne_failed_of_handshaking hhs
  have hsame : ∀ r, Same t (t ++ [⟨.recv flags, r⟩]) :=
    fun r => (Same.refl t).append (by rfl) (by rfl)
  rw [pullForWrite, bind_apply]
  refine safe_bind (pullWire_safe flags h hphase (hset hhs)
    ((h.sound hs₀).handshaking_plain hhs) ?_ ?_ ?_ ?_)
  · intro d hd hh
    simp only [bind_apply]
    refine safe_bind (driveHandshake_safe fuel hh (.inl hhs) ?_)
    intro t' s' hh' hs' hset' _
    exact hgo t' s' hh' ((hsame _).trans hs') hset'
  · intro hh
    exact failWith_safe hh.between
      (hleave _ _ _ (hh.failed .eof) ((hsame _).fail _ _) s.closed_settled)
  · intro e hh
    by_cases hw : wouldBlock e = true
    · cases blocking with
      | false => simpa [hw] using hleave _ _ e hh (hsame _) hset
      | true => simpa [hw] using hgo _ _ hh (hsame _) hset
    · have hw' : wouldBlock e = false := by simpa using hw
      simp only [hw', Bool.false_and, Bool.false_eq_true, if_false, Bool.not_false, if_true]
      exact failWith_safe hh.between (hleave _ _ _ (hh.failed (.recvError hw')) ((hsame _).fail _ _)
        s.closed_settled)
  · intro d hd hb hfull
    exact failWith_safe hb
      (hleave _ _ _ (hfull .writeOverflow (by simp)) ((hsame _).fail _ _) s.closed_settled)

theorem driveUntilActiveForWrite_safe (flags : Flags) (blocking : Bool) (fuel : ℕ)
    (h : History P aside s₀ t s none) (hset : s.Settled)
    {Q : Tr → FdState → Except Errno Unit → Prop}
    (hok : ∀ t' s' keys, History P aside s₀ t' s' none → Same t t' → s'.phase = .active keys →
      Q t' s' (.ok ()))
    (herr : ∀ t' s' e, History P aside s₀ t' s' none → Same t t' → s'.Settled →
      Q t' s' (.error e)) :
    Safe (ioInv P aside s₀) Q (driveUntilActiveForWrite P flags blocking fuel s) t := by
  rw [driveUntilActiveForWrite, bind_apply]
  refine safe_bind (flushBacklog_safe flags fuel h (.inl rfl)
        (fun hf => ((h.sound hs₀).failed_empty hf).1) ?_ ?_)
  · intro t₁ n b h₁ hs₁ _
    refine safe_iter (fun _ t' s' => History P aside s₀ t' s' none ∧ Same t t' ∧ s'.Settled)
      (fun _ _ _ hJ => hJ.1.between) ?_ fuel ⟨h₁, hs₁, hset⟩
    rintro - t' s' ⟨h', hs', hset'⟩
    simp only [bind_apply, get_apply, bind_done]
    have hpull : ∀ t₂ s₂, History P aside s₀ t₂ s₂ none → Same t t₂ →
        s₂.phase.handshaking = true → s₂.Settled →
        Safe (ioInv P aside s₀) (fun t₃ s₃ r => r.elim
          (fun _ => History P aside s₀ t₃ s₃ none ∧ Same t t₃ ∧ s₃.Settled)
          (fun a => Q t₃ s₃ a)) (pullForWrite P flags blocking fuel s₂) t₂ := by
      intro t₂ s₂ h₂ hs₂ hhs hset₂
      refine pullForWrite_safe hs₀ flags blocking fuel h₂ hhs hset₂ ?_ ?_
      · intro t₃ s₃ h₃ hs₃ hset₃
        exact ⟨h₃, hs₂.trans hs₃, hset₃⟩
      · intro t₃ s₃ e h₃ hs₃ hset₃
        exact herr t₃ s₃ e h₃ (hs₂.trans hs₃) hset₃
    cases hph : s'.phase with
    | active keys => exact hok t' s' keys h' hs' hph
    | failed => exact herr t' s' _ h' hs' hset'
    | _ =>
      -- the phases of the handshake share one branch of the source
      have hhs : s'.phase.handshaking = true := by rw [hph]; rfl
      dsimp only
      split
      · exact hpull t' s' h' hs' hhs hset'
      · rw [bind_apply]
        refine safe_bind (flushBacklog_safe flags fuel h' (.inl rfl)
          (fun hf => ((h'.sound hs₀).failed_empty hf).1) ?_ ?_)
        · intro t₂ m b' h₂ hs₂ _
          cases b' with
          | true => exact hpull t₂ _ h₂ (hs'.trans hs₂) hhs hset'
          | false =>
            cases blocking with
            | false => exact herr t₂ _ _ h₂ (hs'.trans hs₂) hset'
            | true => exact ⟨h₂, hs'.trans hs₂, hset'⟩
        · rintro t₂ m h₂ hs₂ ⟨u, buf, fl, e, hw, rfl⟩
          exact failWith_safe h₂.between (herr _ _ _ (h₂.failed (.flush _ hw (by simp)))
            ((hs'.trans hs₂).fail _ _) (FdState.closed_settled _))
  · rintro t₁ n h₁ hs₁ ⟨u, buf, fl, e, hw, rfl⟩
    exact failWith_safe h₁.between (herr _ _ _ (h₁.failed (.flush _ hw (by simp))) (hs₁.fail _ _)
      (FdState.closed_settled _))

omit hs₀ in
theorem appendOrFlush_safe {ct f : Bytes} {keys : SessionKeys} (flags : Flags) (blocking : Bool)
    (fuel : ℕ) (h : History P aside s₀ t s (some ct)) (hphase : s.phase = .active keys)
    (hframe : frame s.policySuite.id typeData ct = some f)
    {Q : Tr → FdState → Except Errno Unit → Prop}
    (hok : ∀ t' n, History P aside s₀ t' { s with txBacklog := s.txBacklog.drop n ++ f } none →
      Same t t' → Q t' { s with txBacklog := s.txBacklog.drop n ++ f } (.ok ()))
    (herr : ∀ t' s' pd e, History P aside s₀ t' s' pd → Same t t' →
      (s'.phase = .failed ∨ noted .limitExceeded ∈ t') → Q t' s' (.error e)) :
    Safe (ioInv P aside s₀) Q (appendOrFlush f flags blocking fuel s) t := by
  have hlive : s.phase ≠ .failed := by simp [hphase]
  -- queueing the frame on what `n` sent bytes leave of the backlog
  have hqueue : ∀ t' n, History P aside s₀ t' { s with txBacklog := s.txBacklog.drop n } (some ct) →
      Same t t' → f.length ≤ maxWriteBacklog - (s.txBacklog.drop n).length →
      Q (t' ++ [noted (.queued f)]) { s with txBacklog := s.txBacklog.drop n ++ f } (.ok ()) := by
    intro t' n h' hs' hroom
    exact hok _ n (h'.queued hlive hframe hroom) (hs'.append rfl rfl)
  simp only [appendOrFlush, bind_apply, get_apply, bind_done]
  cases ha : s.appendTx f with
  | some s' =>
    obtain ⟨hroom, rfl⟩ := FdState.appendTx_eq_some.mp ha
    exact note_bind_safe h.between (hqueue t 0 h (Same.refl t) hroom)
  | none =>
    simp only [bind_apply]
    have h₁ := h.quiet (.note .limitExceeded) rfl ()
    have hs₁ : Same t (t ++ [noted .limitExceeded]) := (Same.refl t).append rfl rfl
    refine note_bind_safe h.between
      (safe_bind (flushBacklog_safe flags fuel h₁ (.inr (by simp))
        (fun hf => absurd hf hlive) ?_ ?_))
    · intro t' n b h' hs' _
      have hmem : noted .limitExceeded ∈ t' := hs'.mono.subset (by simp)
      by_cases hb : (!b && !blocking) = true
      · simpa [hb] using herr t' _ _ EAGAIN h' (hs₁.trans hs') (.inr hmem)
      · simp only [if_neg hb, bind_apply, get_apply, bind_done]
        cases ha' : FdState.appendTx { s with txBacklog := s.txBacklog.drop n } f with
        | some s'' =>
          obtain ⟨hroom, rfl⟩ := FdState.appendTx_eq_some.mp ha'
          exact note_bind_safe h'.between (hqueue t' n h' (hs₁.trans hs') hroom)
        | none =>
          have h'' := h'.quiet (.note .limitExceeded) rfl ()
          have hs'' := (hs₁.trans hs').append (v := [noted .limitExceeded]) rfl rfl
          exact note_bind_safe h'.between (herr _ _ _ EMSGSIZE h'' hs'' (.inr (by simp)))
    · rintro t' n h' hs' ⟨u, buf, fl, e, hw, rfl⟩
      exact failWith_safe h'.between (herr _ _ _ _ (h'.failed (.flush _ hw (by simp)))
        ((hs₁.trans hs').fail _ _) (.inl rfl))

/-- What `overlay_send` has done with the first `k` bytes of its plaintext. -/
structure Sealed (t t' : Tr) (plaintext : Bytes) (k : ℕ) : Prop where
  mono : t <+: t'
  plain : sealedPlain t' = sealedPlain t ++ plaintext.take k
  delivered : deliveredBytes t' = deliveredBytes t

omit hs₀ in
theorem Sealed.same {u v : Tr} {plaintext : Bytes} {k : ℕ} (h : Sealed t u plaintext k)
    (h' : Same u v) : Sealed t v plaintext k :=
  ⟨h.mono.trans h'.mono, h'.sealed.trans h.plain, h'.delivered.trans h.delivered⟩

omit hs₀ in
theorem Same.sealed_zero {u : Tr} (h : Same t u) (plaintext : Bytes) : Sealed t u plaintext 0 :=
  ⟨h.mono, by rw [h.sealed, List.take_zero, List.append_nil], h.delivered⟩

omit hs₀ in
theorem Sealed.chunk {u : Tr} {plaintext : Bytes} {k stop : ℕ} {key : ByteArr 32}
    {nonce : ByteArr 12} {ct : Bytes} (h : Sealed t u plaintext k) (hk : k ≤ stop) :
    Sealed t (u ++ [noted (.sealed .record key nonce (slice plaintext k stop) ct)]) plaintext
      stop := by
  refine ⟨h.mono.trans (List.prefix_append _ _), ?_, ?_⟩
  · have hone : sealedPlain [noted (.sealed .record key nonce (slice plaintext k stop) ct)] =
        slice plaintext k stop := by simp [sealedPlain, records, Ev.record]
    rw [sealedPlain_append, h.plain, hone, slice, List.append_assoc]
    congr 1
    rw [← List.take_append_drop k (plaintext.take stop), List.take_take, min_eq_left hk,
      List.drop_take]
  · rw [deliveredBytes_append, h.delivered]
    exact List.append_nil _

omit hs₀ in
theorem sendRecord_safe {plaintext : Bytes} {keys : SessionKeys} {k : ℕ} {u : Tr} (flags : Flags)
    (blocking : Bool) (fuel : ℕ) (h : History P aside s₀ t s none)
    (hphase : s.phase = .active keys) (hseal : Sealed u t plaintext k) (hk : k ≤ plaintext.length)
    {Q : Tr → FdState → ℕ ⊕ Except Errno Unit → Prop}
    (hgo : ∀ t' s' keys' stop, History P aside s₀ t' s' none → s'.phase = .active keys' →
      s'.policySuite = s.policySuite → Sealed u t' plaintext stop → stop ≤ plaintext.length →
      Q t' s' (.inl stop))
    (hok : Sealed u t plaintext plaintext.length → Q t s (.inr (.ok ())))
    (herr : ∀ t' s' e k', History P aside s₀ t' s' none → s'.phase = .failed →
      Sealed u t' plaintext k' → Q t' s' (.inr (.error e))) :
    Safe (ioInv P aside s₀) Q (sendRecord P plaintext s.policySuite.id flags blocking fuel k s)
      t := by
  unfold sendRecord
  by_cases hlt : k < plaintext.length
  · have hlen : (slice plaintext k (min (k + maxRecordPlaintext) plaintext.length)).length =
        min (k + maxRecordPlaintext) plaintext.length - k := by
      rw [slice_length]
      omega
    have hpos : 0 < maxRecordPlaintext := by decide
    generalize hstop : min (k + maxRecordPlaintext) plaintext.length = stop at hlen ⊢
    have hfail : ∀ (t' : Tr) (s' : FdState) (pd : Option Bytes) (e : Errno) (k' : ℕ)
        (site : FailSite), History P aside s₀ t' s' pd → Failing P t' s' pd site →
        Sealed u t' plaintext k' → Safe (ioInv P aside s₀) Q
          ((do failClosed site; pure (.inr (.error e)) : FdAct (ℕ ⊕ Except Errno Unit)) s') t' := by
      intro t' s' pd e k' site h' hf hs'
      exact failWith_safe h'.between
        (herr _ _ _ _ (h'.failed hf) rfl (hs'.same ((Same.refl _).fail _ _)))
    simp only [hlt, if_true, bind_apply, get_apply, bind_done, hphase]
    cases hrun : keys.seal P (slice plaintext k stop) with
    | error e => exact hfail t s _ _ k _ h (.sealError hphase (by omega) hrun) hseal
    | ok out =>
      obtain ⟨keys', ct⟩ := out
      simp only [bind_apply, set_apply, bind_done]
      refine note_bind_safe h.between ?_
      have h₁ := h.sealed hphase (by omega) hrun
      have hs₁ : Sealed u (t ++ [noted (.sealed .record keys.tx.key
          (nonceFromCounter keys.tx.counter) (slice plaintext k stop) ct)]) plaintext stop :=
        hseal.chunk (by omega)
      cases hfr : frame s.policySuite.id typeData ct with
      | none => exact hfail _ _ _ _ _ _ h₁ (.frameError hfr) hs₁
      | some f =>
        simp only [bind_apply]
        refine safe_bind (appendOrFlush_safe flags blocking fuel h₁ rfl hfr ?_ ?_)
        · intro t' n h' hs'
          exact hgo t' _ keys' stop h' rfl rfl (hs₁.same hs') (by omega)
        · intro t' s' pd e h' hs' hwhy
          exact hfail t' s' pd e stop _ h' (.appendRefused hwhy) (hs₁.same hs')
  · have hend : k = plaintext.length := by omega
    subst hend
    simpa using hok hseal

omit hs₀ in
theorem sendRecords_safe {plaintext : Bytes} {keys : SessionKeys} (flags : Flags) (blocking : Bool)
    (fuel fuel' : ℕ) (h : History P aside s₀ t s none) (hphase : s.phase = .active keys) {u : Tr}
    (hu : Same u t) {Q : Tr → FdState → Except Errno Unit → Prop}
    (hok : ∀ t' s' keys', History P aside s₀ t' s' none → s'.phase = .active keys' →
      Sealed u t' plaintext plaintext.length → Q t' s' (.ok ()))
    (herr : ∀ t' s' e k, History P aside s₀ t' s' none → s'.phase = .failed →
      Sealed u t' plaintext k → Q t' s' (.error e)) :
    Safe (ioInv P aside s₀) Q
      (iter (sendRecord P plaintext s.policySuite.id flags blocking fuel) fuel' 0 s) t := by
  refine safe_iter (fun k t' s' => k ≤ plaintext.length ∧ s'.policySuite = s.policySuite ∧
    (∃ keys', s'.phase = .active keys') ∧ History P aside s₀ t' s' none ∧
    Sealed u t' plaintext k) (fun _ _ _ hJ => hJ.2.2.2.1.between) ?_ fuel'
    ⟨Nat.zero_le _, rfl, ⟨keys, hphase⟩, h, hu.sealed_zero plaintext⟩
  rintro k t' s' ⟨hk, hsuite, ⟨keys', hphase'⟩, h', hs'⟩
  rw [← hsuite]
  refine sendRecord_safe flags blocking fuel h' hphase' hs' hk ?_ ?_ ?_
  · intro t₂ s₂ keys₂ stop h₂ hphase₂ hsuite₂ hs₂ hstop
    exact ⟨hstop, hsuite₂, ⟨keys₂, hphase₂⟩, h₂, hs₂⟩
  · intro hs₂
    exact hok t' s' keys' h' hphase' hs₂
  · intro t₂ s₂ e k₂ h₂ hphase₂ hs₂
    exact herr t₂ s₂ e k₂ h₂ hphase₂ hs₂

theorem sendFlush_safe {len : ℕ} {keys : SessionKeys} (flags : Flags) (blocking : Bool) (fuel : ℕ)
    (h : History P aside s₀ t s none) (hphase : s.phase = .active keys)
    {Q : Tr → FdState → Except Errno ℕ → Prop}
    (hok : ∀ t' s', History P aside s₀ t' s' none → Same t t' → s'.phase = .active keys →
      (blocking = true → s'.txBacklog = []) → Q t' s' (.ok len))
    (herr : ∀ t' s' e, History P aside s₀ t' s' none → Same t t' → s'.phase = .failed →
      Q t' s' (.error e)) :
    Safe (ioInv P aside s₀) Q (sendFlush len flags blocking fuel s) t := by
  rw [sendFlush, bind_apply]
  refine safe_bind (flushBacklog_safe flags fuel h (.inl rfl)
        (fun hf => ((h.sound hs₀).failed_empty hf).1) ?_ ?_)
  · intro t₁ n b h₁ hs₁ hb
    cases b with
    | true => exact hok t₁ _ h₁ hs₁ hphase fun _ => hb rfl
    | false =>
      cases blocking with
      | false => exact hok t₁ _ h₁ hs₁ hphase fun hb => by cases hb
      | true =>
        refine safe_iter (fun _ t' s' => History P aside s₀ t' s' none ∧ Same t t' ∧
          s'.phase = .active keys) (fun _ _ _ hJ => hJ.1.between) ?_ fuel ⟨h₁, hs₁, hphase⟩
        rintro - t' s' ⟨h', hs', hphase'⟩
        rw [bind_apply]
        refine safe_bind (flushBacklog_safe flags fuel h' (.inl rfl)
        (fun hf => ((h'.sound hs₀).failed_empty hf).1) ?_ ?_)
        · intro t₂ m b h₂ hs₂ hb
          cases b with
          | true => exact hok t₂ _ h₂ (hs'.trans hs₂) hphase' fun _ => hb rfl
          | false => exact ⟨h₂, hs'.trans hs₂, hphase'⟩
        · rintro t₂ m h₂ hs₂ ⟨v, buf, fl, e, hw, rfl⟩
          exact failWith_safe h₂.between (herr _ _ _ (h₂.failed (.flush _ hw (by simp)))
            ((hs'.trans hs₂).fail _ _) rfl)
  · rintro t₁ n h₁ hs₁ ⟨v, buf, fl, e, hw, rfl⟩
    exact failWith_safe h₁.between
      (herr _ _ _ (h₁.failed (.flush _ hw (by simp))) (hs₁.fail _ _) rfl)

/-! ### Guards -/

omit hs₀ in
theorem inheritedAfterFork_safe (h : History P aside s₀ t s none)
    {Q : Tr → FdState → Bool → Prop}
    (hno : ∀ t', History P aside s₀ t' s none → Same t t' → Q t' s false)
    (hyes : ∀ t', History P aside s₀ t' s.closed none → Same t t' → Q t' s.closed true) :
    Safe (ioInv P aside s₀) Q (inheritedAfterFork s) t := by
  simp only [inheritedAfterFork, bind_apply, get_apply, bind_done, perform_apply, bind_call,
    safe_call]
  refine ⟨h.between, ?_⟩
  intro pid
  have h₁ := h.quiet .getpid rfl pid
  have hs₁ : Same t (t ++ [⟨.getpid, pid⟩]) := (Same.refl t).append rfl rfl
  by_cases hp : s.ownerPid = pid
  · simpa [hp] using hno _ h₁ hs₁
  · simp only [hp, if_false]
    exact failWith_safe h₁.between (hyes _ (h₁.failed (.inherited hp)) (hs₁.fail _ _))

omit hs₀ in
theorem failIfStaleIdleConfig_safe (h : History P aside s₀ t s none)
    {Q : Tr → FdState → Bool → Prop}
    (hno : ∀ t', History P aside s₀ t' s none → Same t t' → Q t' s false)
    (hyes : ∀ t' s', History P aside s₀ t' s' none → Same t t' → s'.phase = .failed →
      Q t' s' true) :
    Safe (ioInv P aside s₀) Q (failIfStaleIdleConfig s) t := by
  simp only [failIfStaleIdleConfig, bind_apply, get_apply, bind_done, perform_apply, bind_call,
    safe_call]
  refine ⟨h.between, ?_⟩
  intro epoch
  have h₁ := h.quiet .configEpoch rfl epoch
  have hs₁ : Same t (t ++ [⟨.configEpoch, epoch⟩]) := (Same.refl t).append rfl rfl
  by_cases he : s.configEpoch = epoch
  · simpa [he] using hno _ h₁ hs₁
  · simp only [he, if_false]
    by_cases hidle : s.isIdleForConfigReload = true
    · simp only [hidle, if_true, bind_apply]
      have h₂ := h₁.failed (.stale he)
      refine safe_bind (failClosed_safe h₁.between ⟨h₂.between, ?_⟩)
      intro epoch'
      exact hyes _ _ (h₂.restamped rfl epoch') ((hs₁.fail _ _).append (by rfl) (by rfl)) rfl
    · simpa [hidle] using hno _ h₁ hs₁

omit hs₀ in
theorem isBlocking_safe (h : History P aside s₀ t s none) {Q : Tr → FdState → Bool → Prop}
    (hQ : ∀ t' b, History P aside s₀ t' s none → Same t t' → Q t' s b) :
    Safe (ioInv P aside s₀) Q (isBlocking s) t := by
  simp only [isBlocking, bind_apply, perform_apply, bind_call, bind_done, safe_call]
  refine ⟨h.between, ?_⟩
  intro r
  have h₁ := h.quiet .getfl rfl r
  have hs₁ : Same t (t ++ [⟨.getfl, r⟩]) := (Same.refl t).append rfl rfl
  cases r with
  | none => exact hQ _ _ h₁ hs₁
  | some flags => exact hQ _ _ h₁ hs₁

theorem overlaySend_safe {plaintext : Bytes} (flags : Flags) (fuel : ℕ)
    (h : History P aside s₀ t s none) (hset : s.Settled)
    {Q : Tr → FdState → Except Errno ℕ → Prop}
    (hok : ∀ t' s' keys, History P aside s₀ t' s' none → s'.phase = .active keys →
      Sealed t t' plaintext plaintext.length → Q t' s' (.ok plaintext.length))
    (herr : ∀ t' s' e k, History P aside s₀ t' s' none → s'.Settled →
      Sealed t t' plaintext k → (s'.phase = .failed ∨ k = 0) → Q t' s' (.error e)) :
    Safe (ioInv P aside s₀) Q (overlaySend P plaintext flags fuel s) t := by
  rw [overlaySend, bind_apply]
  refine safe_bind (inheritedAfterFork_safe h ?_ ?_)
  · intro t₁ h₁ hs₁
    simp only [Bool.false_eq_true, if_false, bind_apply]
    refine safe_bind (failIfStaleIdleConfig_safe h₁ ?_ ?_)
    · intro t₂ h₂ hs₂
      have hs₂' := hs₁.trans hs₂
      simp only [Bool.false_eq_true, if_false, bind_apply]
      refine safe_bind (isBlocking_safe h₂ ?_)
      intro t₃ blocking h₃ hs₃
      have hs₃' := hs₂'.trans hs₃
      refine safe_bind (driveUntilActiveForWrite_safe hs₀ flags blocking fuel h₃ hset ?_ ?_)
      · intro t₄ s₄ keys h₄ hs₄ hphase
        have hs₄' := hs₃'.trans hs₄
        by_cases hnil : plaintext = []
        · subst hnil
          exact hok t₄ s₄ keys h₄ hphase (hs₄'.sealed_zero _)
        · simp only [List.isEmpty_iff, hnil, if_false, bind_apply, get_apply, bind_done]
          refine safe_bind (sendRecords_safe flags blocking fuel fuel h₄ hphase hs₄' ?_ ?_)
          · intro t₅ s₅ keys₅ h₅ hphase₅ hseal
            refine sendFlush_safe hs₀ flags blocking fuel h₅ hphase₅ ?_ ?_
            · intro t₆ s₆ h₆ hs₆ hphase₆ _
              exact hok t₆ s₆ keys₅ h₆ hphase₆ (hseal.same hs₆)
            · intro t₆ s₆ e h₆ hs₆ hphase₆
              exact herr t₆ s₆ e _ h₆ (FdState.settled_of_failed hphase₆) (hseal.same hs₆)
                (.inl hphase₆)
          · intro t₅ s₅ e k h₅ hphase₅ hseal
            exact herr t₅ s₅ e k h₅ (FdState.settled_of_failed hphase₅) hseal (.inl hphase₅)
      · intro t₄ s₄ e h₄ hs₄ hset₄
        exact herr t₄ s₄ e 0 h₄ hset₄ ((hs₃'.trans hs₄).sealed_zero _) (.inr rfl)
    · intro t₂ s₂ h₂ hs₂ hphase₂
      exact herr t₂ s₂ _ 0 h₂ (FdState.settled_of_failed hphase₂)
        ((hs₁.trans hs₂).sealed_zero _) (.inl hphase₂)
  · intro t₁ h₁ hs₁
    exact herr t₁ _ _ 0 h₁ s.closed_settled (hs₁.sealed_zero _) (.inl rfl)

/-! ### Receive path -/

omit hs₀ in
theorem openRecords_safe {keys : SessionKeys} (fuel : ℕ) (h : History P aside s₀ t s none)
    (hphase : s.phase = .active keys) {Q : Tr → FdState → Except Errno Unit → Prop}
    (hok : ∀ t' s' keys', History P aside s₀ t' s' none → Same t t' → s'.phase = .active keys' →
      tryPopFrame s'.rxWire = .ok none → Q t' s' (.ok ()))
    (herr : ∀ t' s' e, History P aside s₀ t' s' none → Same t t' → s'.phase = .failed →
      Q t' s' (.error e)) :
    Safe (ioInv P aside s₀) Q (openRecords P fuel s) t := by
  refine safe_iter (fun _ t' s' => History P aside s₀ t' s' none ∧ Same t t' ∧
    ∃ keys', s'.phase = .active keys') (fun _ _ _ hJ => hJ.1.between) ?_ fuel
    ⟨h, Same.refl t, keys, hphase⟩
  rintro - t' s' ⟨h', hs', keys', hphase'⟩
  simp only [bind_apply, get_apply, bind_done]
  cases hpop : tryPopFrame s'.rxWire with
  | error u =>
    exact failWith_safe h'.between (herr _ _ _ (h'.failed (.header .recordHeader hpop (by simp)))
      (hs'.fail _ _) rfl)
  | ok o =>
    cases o with
    | none => exact hok t' s' keys' h' hs' hphase' hpop
    | some fr =>
      obtain ⟨f, rest⟩ := fr
      simp only [bind_apply, set_apply, bind_done]
      refine note_bind_safe h'.between ?_
      have hb := h'.between.snoc (o := .note (.popped f)) rfl ()
      -- every refusal ends in the closed state, whatever was changed before
      have hrefuse : ∀ (pre : Tr) (site : FailSite) (t'' : Tr) (s'' : FdState),
          Refusal P s' keys' f pre site → t'' = t' ++ [noted (.popped f)] ++ pre →
          Between P aside s₀ t'' → s''.closed = s'.closed → s''.countedActive = s'.countedActive →
          Safe (ioInv P aside s₀) (fun t₂ s₂ r => r.elim
            (fun _ => History P aside s₀ t₂ s₂ none ∧ Same t t₂ ∧
              ∃ keys', s₂.phase = .active keys') (fun a => Q t₂ s₂ a))
            ((do failClosed site; pure (.inr (.error EPIPE)) :
              FdAct (Unit ⊕ Except Errno Unit)) s'') t'' := by
        rintro pre site t'' s'' hr rfl hb' hclosed hcount
        have hi := hr.inert
        have hh := h'.refused hphase' hpop hr
        have hsame := ((hs'.append (v := [noted (.popped f)]) rfl rfl).append hi.records
          hi.delivered).fail s' site
        refine failWith_safe hb' ?_
        have hseg : failSeg s'' site = failSeg s' site := by simp only [failSeg, hcount]
        rw [hclosed, hseg]
        exact herr _ _ _ (by simpa using hh) hsame rfl
      by_cases htag : f.tag = typeData
      · simp only [htag, if_true]
        by_cases hsuite : f.suiteId = s'.policySuite.id
        · simp only [hsuite, ne_eq, not_true_eq_false, if_false, hphase']
          cases hrun : keys'.open P f.payload with
          | error e => exact hrefuse [] _ _ _ (.open htag hsuite hrun) (by simp) hb rfl rfl
          | ok out =>
            obtain ⟨keys'', pt⟩ := out
            simp only [bind_apply, set_apply, bind_done]
            refine note_bind_safe hb ?_
            cases ha : FdState.appendRxPlain
                { s' with rxWire := rest, phase := .active keys'' } pt with
            | some s'' =>
              obtain ⟨hroom, rfl⟩ := FdState.appendRxPlain_eq_some.mp ha
              refine ⟨?_, ?_, keys'', rfl⟩
              · simpa using h'.opened hphase' hpop htag hsuite hrun hroom
              · exact (hs'.append (v := [noted (.popped f)]) rfl rfl).append rfl rfl
            | none =>
              have hfull := FdState.appendRxPlain_eq_none.mp ha
              exact hrefuse _ _ _ _ (.plain htag hsuite hrun hfull) rfl (hb.snoc rfl _) rfl rfl
        · simp only [hsuite, ne_eq, not_false_eq_true, if_true]
          exact hrefuse [] _ _ _ (.suite htag hsuite) (by simp) hb rfl rfl
      · simp only [htag, if_false]
        exact hrefuse [] _ _ _ (.tag htag) (by simp) hb rfl rfl

omit hs₀ in
theorem pullForRecv_safe (flags : Flags) (blocking : Bool) (h : History P aside s₀ t s none)
    (hphase : s.phase ≠ .failed) (hpop : tryPopFrame s.rxWire = .ok none) (hplain : s.rxPlain = [])
    {Q : Tr → FdState → Unit ⊕ Except Errno Bytes → Prop}
    (hgo : ∀ t' s', History P aside s₀ t' s' none → Same t t' → Q t' s' (.inl ()))
    (heof : History P aside s₀ (t ++ [⟨.recv flags, .eof⟩]) s none →
      Same t (t ++ [⟨.recv flags, .eof⟩]) → Q (t ++ [⟨.recv flags, .eof⟩]) s (.inr (.ok [])))
    (herr : ∀ t' s' e, History P aside s₀ t' s' none → Same t t' → s'.Settled →
      Q t' s' (.inr (.error e))) :
    Safe (ioInv P aside s₀) Q (pullForRecv flags blocking s) t := by
  have hsame : ∀ r, Same t (t ++ [⟨.recv flags, r⟩]) := fun r =>
    (Same.refl t).append (by rfl) (by rfl)
  rw [pullForRecv, bind_apply]
  refine safe_bind (pullWire_safe flags h hphase hpop hplain ?_ ?_ ?_ ?_)
  · intro d hd hh
    exact hgo _ _ hh (hsame _)
  · intro hh
    exact heof hh (hsame _)
  · intro e hh
    have hleave := herr _ _ e hh (hsame _) fun _ => hpop
    by_cases hw : wouldBlock e = true
    · cases blocking with
      | false => simpa [hw] using hleave
      | true => simpa [hw] using hgo _ _ hh (hsame _)
    · simpa [hw] using hleave
  · intro d hd hb hfull
    exact failWith_safe hb
      (herr _ _ _ (hfull .recvOverflow (by simp)) ((hsame _).fail _ _) s.closed_settled)

/-- What `overlay_recv` has done when it returns the bytes `b`: it delivered
them, and if there are none the real `recv` has just reported the end. -/
structure Received (t t' : Tr) (b : Bytes) : Prop where
  mono : t <+: t'
  plain : sealedPlain t' = sealedPlain t
  delivered : deliveredBytes t' = deliveredBytes t ++ b
  eof : b = [] → ∃ (u : Tr) (flags : Flags), t' = t ++ u ++ [⟨.recv flags, .eof⟩]

omit hs₀ in
theorem Same.received {u v : Tr} {b : Bytes} (h : Same t u) (hr : Received u v b) :
    Received t v b := by
  refine ⟨h.mono.trans hr.mono, hr.plain.trans h.sealed, by rw [hr.delivered, h.delivered], ?_⟩
  intro hb
  obtain ⟨w, rfl⟩ := h.mono
  obtain ⟨x, flags, rfl⟩ := hr.eof hb
  exact ⟨w ++ x, flags, by simp only [List.append_assoc]⟩

omit hs₀ in
theorem openOrPull_safe (flags : Flags) (blocking : Bool) (fuel : ℕ)
    (h : History P aside s₀ t s none) (hset : s.Settled) (hplain : s.rxPlain = [])
    {Q : Tr → FdState → Unit ⊕ Except Errno Bytes → Prop}
    (hgo : ∀ t' s', History P aside s₀ t' s' none → Same t t' → Q t' s' (.inl ()))
    (hok : ∀ t' s' b, History P aside s₀ t' s' none → Received t t' b → s'.Settled →
      Q t' s' (.inr (.ok b)))
    (herr : ∀ t' s' e, History P aside s₀ t' s' none → Same t t' → s'.Settled →
      Q t' s' (.inr (.error e))) :
    Safe (ioInv P aside s₀) Q (openOrPull P flags blocking fuel s) t := by
  have hpull : ∀ t' s', History P aside s₀ t' s' none → Same t t' → s'.phase ≠ .failed →
      tryPopFrame s'.rxWire = .ok none → s'.rxPlain = [] →
      Safe (ioInv P aside s₀) Q (pullForRecv flags blocking s') t' := by
    intro t' s' h' hs' hphase' hpop' hplain'
    refine pullForRecv_safe flags blocking h' hphase' hpop' hplain' ?_ ?_ ?_
    · intro t₂ s₂ h₂ hs₂
      exact hgo t₂ s₂ h₂ (hs'.trans hs₂)
    · intro h₂ hs₂
      have hall := hs'.trans hs₂
      obtain ⟨w, rfl⟩ := hs'.mono
      exact hok _ _ _ h₂ ⟨hall.mono, hall.sealed, by rw [hall.delivered, List.append_nil],
        fun _ => ⟨w, flags, rfl⟩⟩ fun _ => hpop'
    · intro t₂ s₂ e h₂ hs₂ hset₂
      exact herr t₂ s₂ e h₂ (hs'.trans hs₂) hset₂
  have hwait : s.phase.handshaking = true →
      Safe (ioInv P aside s₀) Q (pullForRecv flags blocking s) t := by
    intro hhs
    exact hpull t s h (Same.refl t) (FdPhase.ne_failed_of_handshaking hhs) (hset hhs) hplain
  simp only [openOrPull, bind_apply, get_apply, bind_done]
  cases hph : s.phase with
  | failed => exact herr t s _ h (Same.refl t) hset
  | active keys =>
    simp only [bind_apply]
    refine safe_bind (openRecords_safe fuel h hph ?_ ?_)
    · intro t₂ s₂ keys₂ h₂ hs₂ hph₂ hpop₂
      simp only [bind_apply, get_apply, bind_done]
      by_cases hp : s₂.rxPlain = []
      · simp only [hp, List.isEmpty_nil, Bool.not_true, Bool.false_eq_true, if_false]
        exact hpull t₂ s₂ h₂ hs₂ (by simp [hph₂]) hpop₂ hp
      · simpa [hp] using hgo t₂ s₂ h₂ hs₂
    · intro t₂ s₂ e h₂ hs₂ hph₂
      exact herr t₂ s₂ e h₂ hs₂ (FdState.settled_of_failed hph₂)
  | responderAwaitingClientHello => exact hwait (by rw [hph]; rfl)
  | initiatorAwaitingServerHello state => exact hwait (by rw [hph]; rfl)
  | initiatorAwaitingFallbackFinished state => exact hwait (by rw [hph]; rfl)

theorem recvRound_safe {len : ℕ} (hlen : 0 < len) (flags : Flags) (blocking : Bool) (fuel : ℕ)
    (h : History P aside s₀ t s none) {Q : Tr → FdState → Unit ⊕ Except Errno Bytes → Prop}
    (hgo : ∀ t' s', History P aside s₀ t' s' none → Same t t' → Q t' s' (.inl ()))
    (hok : ∀ t' s' b, History P aside s₀ t' s' none → Received t t' b → s'.Settled →
      Q t' s' (.inr (.ok b)))
    (herr : ∀ t' s' e, History P aside s₀ t' s' none → Same t t' → s'.Settled →
      Q t' s' (.inr (.error e))) :
    Safe (ioInv P aside s₀) Q (recvRound P len flags blocking fuel s) t := by
  have hsound := h.sound hs₀
  have hrest : ∀ t' s', History P aside s₀ t' s' none → Same t t' → s'.Settled →
      s'.rxPlain = [] →
      Safe (ioInv P aside s₀) Q (openOrPull P flags blocking fuel s') t' := by
    intro t' s' h' hs' hset' hplain'
    refine openOrPull_safe flags blocking fuel h' hset' hplain' ?_ ?_ ?_
    · intro t₂ s₂ h₂ hs₂
      exact hgo t₂ s₂ h₂ (hs'.trans hs₂)
    · intro t₂ s₂ b h₂ hr hset₂
      exact hok t₂ s₂ b h₂ (hs'.received hr) hset₂
    · intro t₂ s₂ e h₂ hs₂ hset₂
      exact herr t₂ s₂ e h₂ (hs'.trans hs₂) hset₂
  simp only [recvRound, bind_apply, get_apply, bind_done]
  by_cases hplain : s.rxPlain = []
  · simp only [hplain, List.isEmpty_nil, Bool.not_true, Bool.false_eq_true, if_false]
    by_cases hhs : s.phase.handshaking = true
    · simp only [hhs, if_true, bind_apply]
      -- the outcome of both flushes is ignored, so their two cases go on alike
      have hdrive : ∀ t₁ n r,
          History P aside s₀ t₁ { s with txBacklog := s.txBacklog.drop n } none →
          Same t t₁ → Safe (ioInv P aside s₀) Q
            ((fun (_ : Except Unit Bool) => (do
              driveHandshake P fuel
              let _ ← flushBacklog flags fuel
              openOrPull P flags blocking fuel : FdAct (Unit ⊕ Except Errno Bytes))) r
              { s with txBacklog := s.txBacklog.drop n }) t₁ := by
        intro t₁ n r h₁ hs₁
        simp only [bind_apply]
        refine safe_bind (driveHandshake_safe fuel h₁ (.inl hhs) ?_)
        intro t₂ s₂ h₂ hs₂ hset₂ hplain₂
        refine safe_bind (flushBacklog_safe flags fuel h₂ (.inl rfl)
        (fun hf => ((h₂.sound hs₀).failed_empty hf).1) ?_ ?_)
        · intro t₃ m b h₃ hs₃ _
          exact hrest _ _ h₃ ((hs₁.trans hs₂).trans hs₃) hset₂ (hplain₂ hplain)
        · intro t₃ m h₃ hs₃ _
          exact hrest _ _ h₃ ((hs₁.trans hs₂).trans hs₃) hset₂ (hplain₂ hplain)
      refine safe_bind (flushBacklog_safe flags fuel h (.inl rfl)
        (fun hf => (hsound.failed_empty hf).1) ?_ ?_)
      · intro t₁ n b h₁ hs₁ _
        exact hdrive t₁ n (.ok b) h₁ hs₁
      · intro t₁ n h₁ hs₁ _
        exact hdrive t₁ n (.error ()) h₁ hs₁
    · simp only [if_neg hhs]
      refine hrest t s h (Same.refl t) (fun hh => absurd hh hhs) hplain
  · have hb : (!s.rxPlain.isEmpty) = true := by simpa using hplain
    have hpos : 0 < s.rxPlain.length := List.length_pos_iff.mpr hplain
    rw [if_pos hb, bind_apply]
    refine safe_bind ?_
    simp only [copyPlaintextToApp, bind_apply, get_apply, bind_done, set_apply]
    refine note_bind_safe h.between ?_
    have hh := h.delivered (min len s.rxPlain.length) (by omega)
    refine hok _ _ _ hh ⟨List.prefix_append _ _, ?_, ?_, ?_⟩ ?_
    · rw [sealedPlain_append]
      exact List.append_nil _
    · rw [deliveredBytes_append]
      simp [deliveredBytes, Ev.delivered]
    · intro hnil
      have := congrArg List.length hnil
      simp only [List.length_take, List.length_nil] at this
      omega
    · intro hhs
      exact absurd (hsound.handshaking_plain hhs) hplain

theorem overlayRecv_safe {len : ℕ} (hlen : 0 < len) (flags : Flags) (fuel : ℕ)
    (h : History P aside s₀ t s none) {Q : Tr → FdState → Except Errno Bytes → Prop}
    (hok : ∀ t' s' b, History P aside s₀ t' s' none → Received t t' b → s'.Settled →
      Q t' s' (.ok b))
    (herr : ∀ t' s' e, History P aside s₀ t' s' none → Same t t' → s'.Settled →
      Q t' s' (.error e)) :
    Safe (ioInv P aside s₀) Q (overlayRecv P len flags fuel s) t := by
  rw [overlayRecv, bind_apply]
  refine safe_bind (inheritedAfterFork_safe h ?_ ?_)
  · intro t₁ h₁ hs₁
    simp only [Bool.false_eq_true, if_false, bind_apply]
    refine safe_bind (failIfStaleIdleConfig_safe h₁ ?_ ?_)
    · intro t₂ h₂ hs₂
      simp only [Bool.false_eq_true, if_false, bind_apply]
      refine safe_bind (isBlocking_safe h₂ ?_)
      intro t₃ blocking h₃ hs₃
      refine safe_iter (fun _ t' s' => History P aside s₀ t' s' none ∧ Same t t')
        (fun _ _ _ hJ => hJ.1.between) ?_ fuel ⟨h₃, (hs₁.trans hs₂).trans hs₃⟩
      rintro - t' s' ⟨h', hs'⟩
      refine recvRound_safe hs₀ hlen flags blocking fuel h' ?_ ?_ ?_
      · intro t₄ s₄ h₄ hs₄
        exact ⟨h₄, hs'.trans hs₄⟩
      · intro t₄ s₄ b h₄ hr hset₄
        exact hok t₄ s₄ b h₄ (hs'.received hr) hset₄
      · intro t₄ s₄ e h₄ hs₄ hset₄
        exact herr t₄ s₄ e h₄ (hs'.trans hs₄) hset₄
    · intro t₂ s₂ h₂ hs₂ hphase₂
      exact herr t₂ s₂ _ h₂ (hs₁.trans hs₂) (FdState.settled_of_failed hphase₂)
  · intro t₁ h₁ hs₁
    exact herr t₁ _ _ h₁ hs₁ s.closed_settled

end

/-! ### Whole runs -/

/-- Plaintext that a finished call has accepted from the application. -/
def acceptedBy : FdCall × FdRet → Bytes
  | (.send plaintext _ _, .sent (.ok _)) => plaintext
  | _ => []

/-- Plaintext that a finished call has returned to the application. -/
def returnedBy : FdCall × FdRet → Bytes
  | (.recv _ _ _ _, .received (.ok b)) => b
  | _ => []

def acceptedPlain (log : List (FdCall × FdRet)) : Bytes := log.flatMap acceptedBy
def returnedPlain (log : List (FdCall × FdRet)) : Bytes := log.flatMap returnedBy

theorem acceptedPlain_concat (log : List (FdCall × FdRet)) (e : FdCall × FdRet) :
    acceptedPlain (log ++ [e]) = acceptedPlain log ++ acceptedBy e := by
  simp [acceptedPlain]

theorem returnedPlain_concat (log : List (FdCall × FdRet)) (e : FdCall × FdRet) :
    returnedPlain (log ++ [e]) = returnedPlain log ++ returnedBy e := by
  simp [returnedPlain]

/-- The calls on a session besides `overlay_send`, `overlay_recv` and the guards
they begin with. -/
def FdCall.outside : FdCall → Bool
  | .retire _ => true
  | .driveHandshake _ => true
  | _ => false

/-- What holds between two calls on a session. -/
structure AtRest (P : Primitives) (aside : Prop) (s₀ : FdState) (log : List (FdCall × FdRet))
    (t : Tr) (s : FdState) : Prop where
  history : History P aside s₀ t s none
  settled : s.Settled
  accepted : s.phase ≠ .failed → sealedPlain t = acceptedPlain log
  returned : deliveredBytes t = returnedPlain log
  lengths : ∀ plaintext flags fuel n, (FdCall.send plaintext flags fuel, FdRet.sent (.ok n)) ∈ log →
    n = plaintext.length

section
variable {P : Primitives} {aside : Prop} {s₀ s : FdState} {t : Tr}
  {log : List (FdCall × FdRet)}

theorem AtRest.concat {t' : Tr} {s' : FdState} {c : FdCall} {r : FdRet}
    (h : AtRest P aside s₀ log t s) (h' : History P aside s₀ t' s' none) (hpre : t <+: t')
    (hset : s'.Settled)
    (hsealed : s'.phase ≠ .failed → sealedPlain t' = sealedPlain t ++ acceptedBy (c, r))
    (hdelivered : deliveredBytes t' = deliveredBytes t ++ returnedBy (c, r))
    (hlength : ∀ plaintext flags fuel n, c = .send plaintext flags fuel → r = .sent (.ok n) →
      n = plaintext.length) :
    AtRest P aside s₀ (log ++ [(c, r)]) t' s' := by
  refine ⟨h', hset, ?_, ?_, ?_⟩
  · intro hlive
    rw [hsealed hlive, h.accepted (h.history.alive_before h' hpre hlive), acceptedPlain_concat]
  · rw [hdelivered, h.returned, returnedPlain_concat]
  · intro plaintext flags fuel n hmem
    rcases List.mem_append.mp hmem with hmem | hmem
    · exact h.lengths plaintext flags fuel n hmem
    · obtain ⟨hc, hr⟩ := Prod.mk.inj (List.mem_singleton.mp hmem)
      exact hlength plaintext flags fuel n hc.symm hr.symm

theorem AtRest.same {t' : Tr} {s' : FdState} {c : FdCall} {r : FdRet}
    (h : AtRest P aside s₀ log t s) (h' : History P aside s₀ t' s' none) (hs : Same t t')
    (hset : s'.Settled) (ha : acceptedBy (c, r) = []) (hr : returnedBy (c, r) = [])
    (hok : ∀ n, r ≠ .sent (.ok n)) : AtRest P aside s₀ (log ++ [(c, r)]) t' s' := by
  refine h.concat h' hs.mono hset (fun _ => ?_) ?_ fun _ _ _ n _ he => absurd he (hok n)
  · rw [hs.sealed, ha, List.append_nil]
  · rw [hs.delivered, hr, List.append_nil]

theorem retireIdleSession_safe (haside : aside) (epoch : ℕ) (h : History P aside s₀ t s none)
    (hset : s.Settled) {Q : Tr → FdState → Unit → Prop}
    (hQ : ∀ t' s', History P aside s₀ t' s' none → Same t t' → s'.Settled → Q t' s' ()) :
    Safe (ioInv P aside s₀) Q (retireIdleSession epoch s) t := by
  simp only [retireIdleSession, bind_apply, get_apply, bind_done]
  by_cases hc : (decide (s.configEpoch ≠ epoch) && s.isIdleForConfigReload) = true
  · have hidle : s.isIdleForConfigReload = true := (Bool.and_eq_true_iff.mp hc).2
    simp only [if_pos hc, bind_apply]
    refine safe_bind (failClosed_safe h.between ?_)
    exact hQ _ _ (h.retired haside hidle epoch) ((Same.refl t).fail _ _)
      (FdState.settled_of_failed rfl)
  · simp only [if_neg hc]
    exact hQ t s h (Same.refl t) hset

/-- Every call on a session takes it from rest to rest. -/
theorem FdCall.run_safe (hs₀ : s₀.Sound) (c : FdCall) (hc : c.outside = true → aside)
    (h : AtRest P aside s₀ log t s) :
    Safe (ioInv P aside s₀) (fun t' s' r => AtRest P aside s₀ (log ++ [(c, r)]) t' s')
      (c.run P s) t := by
  cases c with
  | send plaintext flags fuel =>
    rw [FdCall.run, bind_apply]
    refine safe_bind (overlaySend_safe hs₀ flags fuel h.history h.settled ?_ ?_)
    · intro t' s' keys h' hphase hseal
      refine h.concat h' hseal.mono (FdState.settled_of_active hphase) (fun _ => ?_) ?_ ?_
      · rw [hseal.plain, List.take_length]
        rfl
      · rw [hseal.delivered]
        exact (List.append_nil _).symm
      · intro _ _ _ n hc hr
        cases hc
        cases hr
        rfl
    · intro t' s' e k h' hset hseal hor
      refine h.concat h' hseal.mono hset (fun hlive => ?_) ?_ ?_
      · obtain rfl := hor.resolve_left hlive
        rw [hseal.plain]
        rfl
      · rw [hseal.delivered]
        exact (List.append_nil _).symm
      · intro _ _ _ n _ hr
        cases hr
  | recv len hlen flags fuel =>
    rw [FdCall.run, bind_apply]
    refine safe_bind (overlayRecv_safe hs₀ hlen flags fuel h.history ?_ ?_)
    · intro t' s' b h' hr hset
      refine h.concat h' hr.mono hset (fun _ => ?_) hr.delivered fun _ _ _ n _ he => by cases he
      rw [hr.plain]
      exact (List.append_nil _).symm
    · intro t' s' e h' hs hset
      exact h.same h' hs hset rfl rfl fun n he => by cases he
  | driveHandshake fuel =>
    rw [FdCall.run, bind_apply]
    refine safe_bind (driveHandshake_safe fuel h.history (.inr (hc rfl)) ?_)
    intro t' s' h' hs hset _
    exact h.same h' hs hset rfl rfl fun n he => by cases he
  | staleIdleConfig =>
    rw [FdCall.run, bind_apply]
    refine safe_bind (failIfStaleIdleConfig_safe h.history ?_ ?_)
    · intro t' h' hs
      exact h.same h' hs h.settled rfl rfl fun n he => by cases he
    · intro t' s' h' hs hphase
      exact h.same h' hs (FdState.settled_of_failed hphase) rfl rfl fun n he => by cases he
  | inheritedAfterFork =>
    rw [FdCall.run, bind_apply]
    refine safe_bind (inheritedAfterFork_safe h.history ?_ ?_)
    · intro t' h' hs
      exact h.same h' hs h.settled rfl rfl fun n he => by cases he
    · intro t' h' hs
      exact h.same h' hs s.closed_settled rfl rfl fun n he => by cases he
  | retire epoch =>
    rw [FdCall.run, bind_apply]
    refine safe_bind (retireIdleSession_safe (hc rfl) epoch h.history h.settled ?_)
    intro t' s' h' hs hset
    exact h.same h' hs hset rfl rfl fun n he => by cases he

theorem atRest_start (hset : s₀.Settled) : AtRest P aside s₀ [] [] s₀ :=
  ⟨.start, hset, fun _ => rfl, rfl, fun _ _ _ _ hmem => by cases hmem⟩

theorem run_held {ι : Type} (call : ι → FdCall) (hcall : ∀ i, (call i).outside = true → aside)
    (hs₀ : s₀.Sound) (hset₀ : s₀.Settled) {calls : List (ι × FdRet)}
    {st : Status Resp ι FdState FdRet}
    (h : Reach (fun i => (call i).run P) s₀ calls t st) :
    Held (ioInv P aside s₀)
      (fun l t s => AtRest P aside s₀ (l.map (Prod.map call id)) t s) calls t st := by
  refine reach_held (J := fun l t s => AtRest P aside s₀ (l.map (Prod.map call id)) t s)
    (atRest_start hset₀) ?_ h
  intro i l t s hl
  have hrun := FdCall.run_safe hs₀ (call i) (hcall i) hl
  simpa using hrun

/-- Wherever a run stands, its trace is that of a session that may be inside a
step. -/
theorem run_between {ι : Type} (call : ι → FdCall) (hcall : ∀ i, (call i).outside = true → aside)
    (hs₀ : s₀.Sound) (hset₀ : s₀.Settled) {calls : List (ι × FdRet)}
    {st : Status Resp ι FdState FdRet} (h : Reach (fun i => (call i).run P) s₀ calls t st) :
    Between P aside s₀ t := by
  have hheld := run_held call hcall hs₀ hset₀ h
  cases st with
  | idle s => exact hheld.history.between
  | busy i p =>
    cases p with
    | done s a => exact (hheld : AtRest _ _ _ _ _ _).history.between
    | cut s => exact hheld
    | call s o k =>
      have hinv : (ioInv P aside s₀).call t s o := hheld.1
      cases o with
      | send buf flags =>
        obtain ⟨-, -, -, pd, -, hh⟩ := hinv
        exact hh.between
      | recv flags =>
        obtain ⟨-, -, -, hh⟩ := hinv
        exact hh.between
      | _ => exact hinv

end

end SyntriassOverlay
