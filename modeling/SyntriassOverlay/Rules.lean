import SyntriassOverlay.Records

/-!
# Rules for the parts of a call

A proof rule for each function that `overlay_send` and `overlay_recv` are made of, for
any obligation that asks nothing of the calls that are no I/O. `Simulation` says which
steps the functions take; here only the real calls among them count, what they were
answered, and how many rounds a loop takes.
-/

namespace SyntriassOverlay
open Crypto Resumption

/-! ### What is seen in the trace of a call -/

/-- The real calls. -/
def Op.io : Op → Bool
  | .send _ _ | .recv _ => true
  | _ => false

def Still (u : Tr) : Prop := ∀ e ∈ u, e.op.io = false

/-- The places that close a session for an error of a real call or a full backlog. -/
def FailSite.io : FailSite → Bool
  | .writeFirstFlush | .writeFlush | .writeRecvError | .appendFlush | .appendRefused
  | .finalFlush | .finalFlushLoop => true
  | _ => false

def Ev.advances : Ev Resp → Bool
  | ⟨.send _ _, .sent _ _⟩ | ⟨.recv _, .data _ _⟩ => true
  | _ => false

/-- How many real calls have moved bytes. -/
def progress (t : Tr) : ℕ := t.countP Ev.advances

/-- The real `recv` had nothing to give and said so with `e`. -/
def Dry (t : Tr) (e : Errno) : Prop :=
  wouldBlock e = true ∧ ∃ flags, (⟨.recv flags, .error e⟩ : Ev Resp) ∈ t

/-- A real `send` of `buf` was tried. -/
def Offered (buf : Bytes) (t : Tr) : Prop := ∃ flags r, (⟨.send buf flags, r⟩ : Ev Resp) ∈ t

/-- What `is_blocking` makes of the answer of `fcntl`. -/
def blocks : Option ℕ → Bool
  | some flags => flags &&& oNonblock == 0
  | none => false

/-- The descriptor was not blocking when it was asked. -/
def Polling (t : Tr) : Prop := ∀ r, (⟨.getfl, r⟩ : Ev Resp) ∈ t → blocks r = false

/-- Not a real call that failed otherwise than for having to wait. -/
def Ev.smooth : Ev Resp → Bool
  | ⟨.send _ _, .error e⟩ | ⟨.recv _, .error e⟩ => wouldBlock e
  | _ => true

def Smooth (t : Tr) : Prop := ∀ e ∈ t, Ev.smooth e = true

/-- A real `send` that took some bytes. -/
def Ev.moves : Ev Resp → Bool
  | ⟨.send _ _, .sent _ _⟩ => true
  | _ => false

/-- A real `send` that took none for having to wait. -/
def Ev.stalls : Ev Resp → Bool
  | ⟨.send _ _, .zero⟩ => true
  | ⟨.send _ _, .error e⟩ => wouldBlock e
  | _ => false

/-- A flush that began after `t` ended after `t'` in a real `send` that took nothing. -/
def Stalls (t t' : Tr) : Prop :=
  ∃ u e, t' = t ++ u ++ [e] ∧ (∀ x ∈ u, Ev.moves x = true) ∧ Ev.stalls e = true

section
variable {t u : Tr}

@[simp] theorem progress_append : progress (t ++ u) = progress t + progress u :=
  List.countP_append

theorem Still.append (ht : Still t) (hu : Still u) : Still (t ++ u) := by
  intro e he
  rcases List.mem_append.mp he with he | he
  · exact ht e he
  · exact hu e he

theorem still_nil : Still [] := fun e he => (by cases he)

theorem still_one {o : Op} {r : Resp o} (h : o.io = false) : Still [⟨o, r⟩] := by
  intro e he
  rw [List.mem_singleton.mp he]
  exact h

theorem still_failSeg (s : FdState) (site : FailSite) : Still (failSeg s site) := by
  unfold failSeg
  split
  · exact (still_one rfl).append (still_one rfl)
  · exact still_nil.append (still_one rfl)

theorem still_activateSeg (s : FdState) (keys : SessionKeys) (origin : Origin) :
    Still (activateSeg s keys origin) := by
  unfold activateSeg
  split
  · exact still_nil.append (still_one rfl)
  · exact (still_one rfl).append (still_one rfl)

theorem Dry.still {e : Errno} (h : Dry (t ++ u) e) (hu : Still u) : Dry t e := by
  obtain ⟨hw, flags, hmem⟩ := h
  rcases List.mem_append.mp hmem with hmem | hmem
  · exact ⟨hw, flags, hmem⟩
  · exact absurd (hu _ hmem) (by simp [Op.io])

theorem Still.not_dry (h : Still t) (e : Errno) : ¬ Dry t e := by
  rintro ⟨-, flags, hmem⟩
  exact absurd (h _ hmem) (by simp [Op.io])

theorem Dry.send {e : Errno} {buf : Bytes} {flags : Flags} {r : SendResult buf.length}
    (h : Dry (t ++ [⟨.send buf flags, r⟩]) e) : Dry t e := by
  obtain ⟨hw, fl, hmem⟩ := h
  rcases List.mem_append.mp hmem with hmem | hmem
  · exact ⟨hw, fl, hmem⟩
  · cases List.mem_singleton.mp hmem

theorem Polling.left (h : Polling (t ++ u)) : Polling t :=
  fun r hr => h r (List.mem_append_left _ hr)

theorem Offered.mono {buf : Bytes} (h : Offered buf t) (u : Tr) : Offered buf (t ++ u) := by
  obtain ⟨flags, r, hmem⟩ := h
  exact ⟨flags, r, List.mem_append_left _ hmem⟩

theorem not_smooth_of_mem {e : Ev Resp} (he : e ∈ t) (hs : Ev.smooth e = false) :
    ¬ Smooth t := by
  intro h
  rw [h e he] at hs
  cases hs

theorem Smooth.left (h : Smooth (t ++ u)) : Smooth t := fun e he => h e (List.mem_append_left _ he)

theorem Smooth.append (h : Smooth t) (hu : Smooth u) : Smooth (t ++ u) := by
  intro e he
  rcases List.mem_append.mp he with he | he
  · exact h e he
  · exact hu e he

theorem Smooth.snoc (h : Smooth t) {e : Ev Resp} (he : Ev.smooth e = true) :
    Smooth (t ++ [e]) := by
  refine h.append fun x hx => ?_
  rw [List.mem_singleton.mp hx]
  exact he

theorem Ev.smooth_of_moves {e : Ev Resp} (h : Ev.moves e = true) : Ev.smooth e = true := by
  obtain ⟨o, r⟩ := e
  cases o with
  | send => cases r <;> first | rfl | cases h
  | _ => cases h

theorem Ev.smooth_of_stalls {e : Ev Resp} (h : Ev.stalls e = true) : Ev.smooth e = true := by
  obtain ⟨o, r⟩ := e
  cases o with
  | send => cases r <;> first | rfl | exact h
  | _ => cases h

theorem Still.smooth (h : Still u) : Smooth u := by
  rintro ⟨o, r⟩ he
  have hio := h _ he
  cases o with
  | send | recv => cases hio
  | _ => rfl

theorem Still.sent (h : Still u) : sentBytes u = [] := by
  refine List.flatMap_eq_nil_iff.mpr ?_
  rintro ⟨o, r⟩ he
  have hio := h _ he
  cases o with
  | send | recv => cases hio
  | _ => rfl

end

/-! ### Rules for the parts of a call -/

/-- An obligation that lets everything pass but the real calls and the sessions closed
because of them. -/
def Lenient (inv : Obligation Resp FdState) : Prop :=
  ∀ t s o, o.io = false → (∀ site, o = .note (.failClosed site) → site.io = false) →
    inv.call t s o

section
variable {inv : Obligation Resp FdState} {s : FdState} {t : Tr} {α : Type}

theorem Lenient.quiet (hl : Lenient inv) {o : Op} (ho : o.quiet = true) : inv.call t s o := by
  refine hl t s o ?_ ?_
  · cases o <;> first | rfl | cases ho
  · rintro site rfl
    cases ho

theorem note_bind_rule {n : Note} {k : Unit → FdAct α} {Q : Tr → FdState → α → Prop}
    (hn : inv.call t s (.note n)) (h : Safe inv Q (k () s) (t ++ [noted n])) :
    Safe inv Q ((note n s).bind k) t := ⟨hn, fun _ => h⟩

theorem failClosed_rule (hl : Lenient inv) {site : FailSite} {Q : Tr → FdState → Unit → Prop}
    (hsite : ∀ u, inv.call (t ++ u) s.closed (.note (.failClosed site)))
    (h : Q (t ++ failSeg s site) s.closed ()) : Safe inv Q (failClosed site s) t := by
  unfold failSeg at h
  unfold failClosed
  by_cases hc : s.countedActive = true
  · simp only [hc, if_true] at h
    simp only [bind_apply, get_apply, bind_done, hc, if_true]
    refine ⟨hl _ _ _ rfl (fun site he => by cases he), fun _ => ⟨hsite _, fun _ => ?_⟩⟩
    simpa using h
  · simp only [hc, Bool.false_eq_true, if_false] at h
    simp only [bind_apply, get_apply, bind_done, hc, Bool.false_eq_true, if_false]
    refine ⟨?_, fun _ => h⟩
    simpa using hsite []

theorem failWith_rule (hl : Lenient inv) {site : FailSite} {a : α} {Q : Tr → FdState → α → Prop}
    (hsite : ∀ u, inv.call (t ++ u) s.closed (.note (.failClosed site)))
    (h : Q (t ++ failSeg s site) s.closed a) :
    Safe inv Q ((do failClosed site; pure a : FdAct α) s) t := by
  rw [bind_apply]
  exact safe_bind (failClosed_rule hl hsite h)

theorem Lenient.site (hl : Lenient inv) {site : FailSite} (h : site.io = false) (u : Tr)
    (s : FdState) : inv.call u s (.note (.failClosed site)) := by
  refine hl u s _ rfl ?_
  rintro site' he
  cases he
  exact h

theorem activate_rule (hl : Lenient inv) {keys : SessionKeys} {origin : Origin}
    {Q : Tr → FdState → Unit → Prop} (h : Q (t ++ activateSeg s keys origin)
      { s with phase := .active keys, countedActive := true } ()) :
    Safe inv Q (activate keys origin s) t := by
  have hnote : ∀ t' s' n, (∀ site, n ≠ .failClosed site) → inv.call t' s' (.note n) := by
    intro t' s' n hn
    refine hl t' s' _ rfl ?_
    rintro site he
    cases he
    exact absurd rfl (hn site)
  unfold activateSeg at h
  unfold activate
  by_cases hc : s.countedActive = true
  · simp only [hc, if_true] at h
    simp only [bind_apply, get_apply, bind_done, hc, Bool.not_true, Bool.false_eq_true, if_false]
    exact ⟨hnote _ _ _ (by simp), fun _ => h⟩
  · simp only [hc, Bool.false_eq_true, if_false] at h
    simp only [bind_apply, get_apply, bind_done, hc, Bool.not_false, if_true]
    refine ⟨hnote _ _ _ (by simp), fun _ => ⟨hnote _ _ _ (by simp), fun _ => ?_⟩⟩
    simpa using h

/-- The longest frame a responder answers a hello with. -/
def replyMax : ℕ := x25519Len + 1568 + identityPublicLen + identitySignatureLen + 6

theorem ctLen_le (s : CipherSuite) :
    x25519Len + s.ctLen + identityPublicLen + identitySignatureLen + 6 ≤ replyMax := by
  cases s <;> decide

/-- What a turn of the handshake that came to an end leaves of the state it ran on. -/
structure Ended (s s' : FdState) (u : Tr) : Prop where
  still : Still u
  phase : s'.phase.handshaking = false
  rxWire : s'.rxWire.length ≤ s.rxWire.length
  rxPlain : s'.rxPlain = s.rxPlain ∨ s'.rxPlain = []
  backlog : s'.txBacklog.length ≤ s.txBacklog.length + replyMax
  closed : s'.phase = .failed → s'.rxPlain = [] ∧ s'.txBacklog = []

/-- What is to be shown after a handler, and where it stands: on `s` with the calls `u`. -/
structure Handling (inv : Obligation Resp FdState) (s : FdState) (t : Tr)
    (Q : Tr → FdState → Unit → Prop) : Prop where
  lenient : Lenient inv
  ended : ∀ u s', Ended s s' u → pops u = [] → Q (t ++ u) s' ()

/-- The calls of a handler before its outcome. -/
def Op.aside : Op → Bool
  | .resolveIdentity | .ephemeral | .freshNonce | .pqcControlAvailable | .resolveFallbackPsk => true
  | .note (.sealed _ _ _ _ _) | .note .limitExceeded | .note (.queued _)
  | .note .fallbackActivation | .note (.downgradeAttack _) => true
  | _ => false

/-- No I/O and no frame taken off. -/
structure Aside (u : Tr) : Prop where
  still : Still u
  pops : pops u = []

theorem Aside.nil : Aside [] := ⟨still_nil, rfl⟩

theorem Aside.snoc {u : Tr} (h : Aside u) {o : Op} (ho : o.aside = true) (r : Resp o) :
    Aside (u ++ [⟨o, r⟩]) := by
  constructor
  · refine h.still.append (still_one ?_)
    cases o with
    | note n => rfl
    | _ => first | rfl | cases ho
  · rw [pops_append, h.pops]
    cases o with
    | note n => cases n <;> first | rfl | cases ho
    | _ => rfl

section Handlers
variable {u : Tr} {Q : Tr → FdState → Unit → Prop} {P : Primitives} {f : ParsedFrame}

theorem Handling.perform (h : Handling inv s t Q) {o : Op} (ho : o.aside = true) (t' : Tr)
    (s' : FdState) : inv.call t' s' o := by
  refine h.lenient t' s' o ?_ ?_
  · cases o with
    | note n => rfl
    | _ => first | rfl | cases ho
  · rintro site rfl
    cases ho

theorem Handling.fail (h : Handling inv s t Q) (hu : Aside u) {site : FailSite}
    (hsite : site.io = false) {s' : FdState} {t' : Tr} (ht : t' = t ++ u) :
    Safe inv Q (failClosed site s') t' := by
  subst ht
  refine failClosed_rule h.lenient (fun v => h.lenient.site hsite _ _) ?_
  rw [List.append_assoc]
  refine h.ended _ _ ⟨hu.still.append (still_failSeg _ _), rfl, Nat.zero_le _, .inr rfl,
    Nat.zero_le _, fun _ => ⟨rfl, rfl⟩⟩ ?_
  rw [pops_append, hu.pops, pops_failSeg]
  rfl

theorem Handling.activate (h : Handling inv s t Q) (hu : Aside u) {keys : SessionKeys}
    {origin : Origin} {s' : FdState} (hw : s'.rxWire = s.rxWire) (hpl : s'.rxPlain = s.rxPlain)
    (htx : s'.txBacklog.length ≤ s.txBacklog.length + replyMax) {t' : Tr} (ht : t' = t ++ u) :
    Safe inv Q (activate keys origin s') t' := by
  subst ht
  refine activate_rule h.lenient ?_
  rw [List.append_assoc]
  refine h.ended _ _ ⟨hu.still.append (still_activateSeg _ _ _), rfl, ?_, .inl hpl, htx,
    fun hf => by cases hf⟩ ?_
  · exact (congrArg List.length hw).le
  · rw [pops_append, hu.pops, pops_activateSeg]
    rfl

theorem queueFrame_rule {R : Tr → FdState → Bool → Prop} (h : Handling inv s t Q)
    (hu : Aside u) {suiteId tag : UInt8} {payload : Bytes} {t' : Tr} (ht : t' = t ++ u)
    (hR : ∀ v s' b, Aside v → s'.rxWire = s.rxWire → s'.rxPlain = s.rxPlain →
      s'.txBacklog.length ≤ s.txBacklog.length + (payload.length + 6) → R (t ++ v) s' b) :
    Safe inv R (queueFrame suiteId tag payload s) t' := by
  subst ht
  unfold queueFrame
  cases hfr : frame suiteId tag payload with
  | none => exact hR u s false hu rfl rfl (Nat.le_add_right _ _)
  | some fr =>
    simp only [bind_apply, get_apply, bind_done]
    cases ha : s.appendTx fr with
    | none =>
      refine ⟨h.perform rfl _ _, fun r => ?_⟩
      rw [List.append_assoc]
      exact hR _ s false (hu.snoc (o := .note .limitExceeded) rfl r) rfl rfl (Nat.le_add_right _ _)
    | some s' =>
      obtain ⟨-, rfl⟩ := FdState.appendTx_eq_some.mp ha
      refine ⟨h.perform rfl _ _, fun r => ?_⟩
      rw [List.append_assoc]
      refine hR _ _ true (hu.snoc (o := .note (.queued fr)) rfl r) rfl rfl ?_
      obtain ⟨-, rfl⟩ := frame_eq_some.mp hfr
      exact (List.length_append.trans (congrArg _ (frameBytes_length _ _ _))).le

theorem onClientHello_rule (h : Handling inv s t Q) : Safe inv Q (onClientHello P f s) t := by
  simp only [onClientHello, bind_apply, get_apply, bind_done, perform_apply, bind_call, safe_call]
  refine ⟨h.perform rfl _ _, fun r => ?_⟩
  have hu₁ : Aside [⟨.resolveIdentity, r⟩] := Aside.nil.snoc (o := .resolveIdentity) rfl r
  cases CipherSuite.fromId f.suiteId with
  | none => exact h.fail hu₁ rfl rfl
  | some proposed =>
    cases r with
    | error e => exact h.fail hu₁ rfl rfl
    | ok identity =>
      dsimp only
      split
      · simp only [bind_apply, perform_apply, bind_call, bind_done, safe_call]
        refine ⟨h.perform rfl _ _, fun eph => ?_⟩
        have hu₂ := hu₁.snoc (o := .ephemeral) rfl eph
        cases hrespond : proposed.respond P identity f.payload eph with
        | error e => exact h.fail hu₂ rfl (List.append_assoc _ _ _)
        | ok out =>
          simp only [bind_apply]
          refine safe_bind (queueFrame_rule h hu₂ (List.append_assoc _ _ _) ?_)
          intro v s' b hv hw hpl htx
          cases b with
          | true =>
            refine h.activate hv hw hpl (htx.trans (Nat.add_le_add_left ?_ _)) rfl
            rw [suiteRespond_length hrespond]
            exact ctLen_le proposed
          | false => exact h.fail hv rfl rfl
      · exact h.fail hu₁ rfl rfl

theorem onFallbackHello_rule (h : Handling inv s t Q) : Safe inv Q (onFallbackHello P f s) t := by
  simp only [onFallbackHello, localPosture, bind_apply, perform_apply, bind_call, bind_done,
    pure_apply, safe_call]
  refine ⟨h.perform rfl _ _, fun available => ⟨h.perform rfl _ _, fun p =>
    ⟨h.perform rfl _ _, fun p' => ?_⟩⟩⟩
  have hu : Aside [⟨.pqcControlAvailable, available⟩, ⟨.resolveFallbackPsk, p⟩,
      ⟨.resolveFallbackPsk, p'⟩] :=
    ((Aside.nil.snoc (o := .pqcControlAvailable) rfl available).snoc
      (o := .resolveFallbackPsk) rfl p).snoc (o := .resolveFallbackPsk) rfl p'
  have hrefuse : ∀ t', t' = t ++ [⟨.pqcControlAvailable, available⟩, ⟨.resolveFallbackPsk, p⟩,
      ⟨.resolveFallbackPsk, p'⟩] → Safe inv Q ((do
        note (.downgradeAttack "FallbackHello received by a non-degraded responder")
        failClosed .fallbackNotDegraded : FdAct Unit) s) t' := by
    rintro t' rfl
    refine ⟨h.perform rfl _ _, fun r => ?_⟩
    exact h.fail (hu.snoc (o := .note (.downgradeAttack _)) rfl r) rfl (List.append_assoc _ _ _)
  generalize selectPosture available p.isSome = posture
  cases posture with
  | fullPqc | failClosed => exact hrefuse _ (by simp)
  | encryptedFallback =>
    cases p' with
    | none => exact hrefuse _ (by simp)
    | some psk =>
      simp only [bind_apply, perform_apply, bind_call, bind_done, safe_call]
      refine ⟨h.perform rfl _ _, fun nonce => ?_⟩
      have hu₁ := hu.snoc (o := .freshNonce) rfl nonce
      cases hrespond : fallbackRespond P psk f.payload nonce with
      | error e =>
        refine ⟨h.perform rfl _ _, fun r => ?_⟩
        exact h.fail (hu₁.snoc (o := .note (.downgradeAttack _)) rfl r) rfl (by simp)
      | ok out =>
        simp only [bind_apply]
        refine note_bind_rule (h.perform rfl _ _) (safe_bind ?_)
        have hu₂ := hu₁.snoc (o := .note (.sealed .confirm out.1.tx.key (nonceFromCounter 0)
          fallbackConfirm (out.2.drop fallbackNonceLen))) rfl ()
        refine queueFrame_rule h hu₂ (by simp) fun v s' b hv hw hpl htx => ?_
        cases b with
        | true =>
          refine ⟨h.perform rfl _ _, fun r => ?_⟩
          refine h.activate (hv.snoc (o := .note .fallbackActivation) rfl r) hw hpl
            (htx.trans (Nat.add_le_add_left ?_ _)) (List.append_assoc _ _ _)
          rw [fallbackRespond_length hrespond]
          decide
        | false => exact h.fail hv rfl rfl

theorem onServerHello_rule (h : Handling inv s t Q) {state : InitiatorState} :
    Safe inv Q (onServerHello P state f s) t := by
  simp only [onServerHello, bind_apply, get_apply, bind_done, perform_apply, bind_call, safe_call]
  refine ⟨h.perform rfl _ _, fun r => ?_⟩
  have hu : Aside [⟨.resolveIdentity, r⟩] := Aside.nil.snoc (o := .resolveIdentity) rfl r
  cases r with
  | error e => exact h.fail hu rfl rfl
  | ok identity =>
    dsimp only
    split
    · cases state.finish P identity f.payload with
      | ok keys => exact h.activate hu rfl rfl (Nat.le_add_right _ _) rfl
      | error e => exact h.fail hu rfl rfl
    · exact h.fail hu rfl rfl

theorem onFallbackFinished_rule (h : Handling inv s t Q) {state : FallbackInitiator} :
    Safe inv Q (onFallbackFinished P state f s) t := by
  unfold onFallbackFinished
  cases state.finish P f.payload with
  | ok keys =>
    refine ⟨h.perform rfl _ _, fun r => ?_⟩
    exact h.activate (Aside.nil.snoc (o := .note .fallbackActivation) rfl r) rfl rfl
      (Nat.le_add_right _ _) rfl
  | error e =>
    refine ⟨h.perform rfl _ _, fun r => ?_⟩
    exact h.fail (Aside.nil.snoc (o := .note (.downgradeAttack _)) rfl r) rfl rfl

theorem onHandshakeFrame_rule (h : Handling inv s t Q) (current : FdPhase) :
    Safe inv Q (onHandshakeFrame P current f s) t := by
  have hfail : ∀ site : FailSite, site.io = false → Safe inv Q (failClosed site s) t :=
    fun site hsite => h.fail Aside.nil hsite (List.append_nil t).symm
  have hunexpected : Safe inv Q (onUnexpectedHello s) t := by
    refine ⟨h.perform rfl _ _, fun r => ?_⟩
    exact h.fail (Aside.nil.snoc (o := .note (.downgradeAttack _)) rfl r) rfl rfl
  cases current with
  | responderAwaitingClientHello =>
    simp only [onHandshakeFrame]
    split
    · exact onClientHello_rule h
    · split
      · exact onFallbackHello_rule h
      · exact hfail _ rfl
  | initiatorAwaitingServerHello state =>
    simp only [onHandshakeFrame]
    split
    · exact onServerHello_rule h
    · split
      · exact hunexpected
      · exact hfail _ rfl
  | initiatorAwaitingFallbackFinished state =>
    simp only [onHandshakeFrame]
    split
    · exact onFallbackFinished_rule h
    · split
      · exact hunexpected
      · exact hfail _ rfl
  | active keys => exact hfail _ rfl
  | failed => exact hfail _ rfl

/-- One turn of the handshake: it waits for more bytes, or it takes one frame off and is
over. -/
theorem driveHandshake_rule (hl : Lenient inv) (fuel : ℕ) (hcut : fuel = 0 → inv.cut t s)
    (hwait : tryPopFrame s.rxWire = .ok none → Q t s ())
    (hend : ∀ u s', Ended s s' u → (pops u).length ≤ 1 → Q (t ++ u) s' ()) :
    Safe inv Q (driveHandshake P fuel s) t := by
  cases fuel with
  | zero => exact hcut rfl
  | succ n =>
    refine safe_bind ?_
    simp only [bind_apply, get_apply, bind_done]
    cases hpop : tryPopFrame s.rxWire with
    | error x =>
      refine failWith_rule hl (fun v => hl.site rfl _ _) ?_
      exact hend _ _ ⟨still_failSeg _ _, rfl, Nat.zero_le _, .inr rfl, Nat.zero_le _,
        fun _ => ⟨rfl, rfl⟩⟩ (by simp)
    | ok o =>
      cases o with
      | none => exact hwait hpop
      | some fr =>
        obtain ⟨f, rest⟩ := fr
        simp only [bind_apply, set_apply, bind_done]
        have hpopped : inv.call t { s with rxWire := rest, phase := .failed } (.note (.popped f)) :=
          hl _ _ _ rfl fun site he => by cases he
        refine note_bind_rule hpopped (safe_bind ?_)
        refine onHandshakeFrame_rule ⟨hl, ?_⟩ _
        intro u s' hs' hpops
        -- the phase is settled, so the loop does not go round
        simp only [bind_apply, get_apply, bind_done, hs'.phase, Bool.false_eq_true, if_false]
        rw [List.append_assoc]
        refine hend _ s' ⟨(still_one rfl).append hs'.still, hs'.phase,
          hs'.rxWire.trans (tryPopFrame_rest_le hpop), hs'.rxPlain, hs'.backlog, hs'.closed⟩ ?_
        rw [pops_append, hpops]
        exact Nat.le_refl 1

end Handlers

/-- What sending off the front of the backlog leaves. -/
structure Flushed (s s' : FdState) (t t' : Tr) : Prop where
  state : ∃ m, s' = { s with txBacklog := s.txBacklog.drop m }
  trace : ∃ u, t' = t ++ u ∧ ∀ e ∈ u, ∃ buf flags r, e = ⟨.send buf flags, r⟩
  account : sentBytes t' ++ s'.txBacklog = sentBytes t ++ s.txBacklog

section Flushing
variable {s' : FdState} {t' : Tr}

theorem Flushed.refl (s : FdState) (t : Tr) : Flushed s s t t :=
  ⟨⟨0, rfl⟩, ⟨[], (List.append_nil t).symm, fun e he => by cases he⟩, rfl⟩

theorem Flushed.send (h : Flushed s s' t t') (m : ℕ) {flags : Flags}
    (r : SendResult s'.txBacklog.length)
    (hm : sentBytes [(⟨.send s'.txBacklog flags, r⟩ : Ev Resp)] = s'.txBacklog.take m) :
    Flushed s { s' with txBacklog := s'.txBacklog.drop m } t
      (t' ++ [⟨.send s'.txBacklog flags, r⟩]) := by
  have hall := h.account
  obtain ⟨⟨k, rfl⟩, ⟨u, rfl, hu⟩, -⟩ := h
  refine ⟨⟨k + m, by simp only [List.drop_drop]⟩,
    ⟨_, List.append_assoc _ _ _, fun e he => ?_⟩, ?_⟩
  · rcases List.mem_append.mp he with he | he
    · exact hu e he
    · exact ⟨_, _, _, List.mem_singleton.mp he⟩
  · rw [sentBytes_append, hm, List.append_assoc, List.take_append_drop, hall]

theorem Flushed.phase (h : Flushed s s' t t') : s'.phase = s.phase := by
  obtain ⟨⟨m, rfl⟩, -⟩ := h
  rfl

theorem Flushed.rxWire (h : Flushed s s' t t') : s'.rxWire = s.rxWire := by
  obtain ⟨⟨m, rfl⟩, -⟩ := h
  rfl

theorem Flushed.rxPlain (h : Flushed s s' t t') : s'.rxPlain = s.rxPlain := by
  obtain ⟨⟨m, rfl⟩, -⟩ := h
  rfl

theorem Flushed.empty (h : Flushed s s' t t') (htx : s.txBacklog = []) : s'.txBacklog = [] := by
  obtain ⟨⟨m, rfl⟩, -⟩ := h
  simp [htx]

theorem Flushed.length_eq (h : Flushed s s' t t') :
    s'.txBacklog.length + (sentBytes t').length = s.txBacklog.length + (sentBytes t).length := by
  have hlen := congrArg List.length h.account
  rw [List.length_append, List.length_append] at hlen
  omega

theorem Flushed.mono (h : Flushed s s' t t') : t <+: t' := by
  obtain ⟨-, ⟨u, rfl, -⟩, -⟩ := h
  exact List.prefix_append _ _

theorem Flushed.dry (h : Flushed s s' t t') {e : Errno} (hd : Dry t' e) : Dry t e := by
  obtain ⟨-, ⟨u, rfl, hu⟩, -⟩ := h
  obtain ⟨hw, flags, hmem⟩ := hd
  rcases List.mem_append.mp hmem with hmem | hmem
  · exact ⟨hw, flags, hmem⟩
  · obtain ⟨buf, fl, r, he⟩ := hu _ hmem
    cases he

end Flushing

theorem progress_le {t t' : Tr} (h : t <+: t') : progress t ≤ progress t' := by
  obtain ⟨u, rfl⟩ := h
  rw [progress_append]
  exact Nat.le_add_right _ _

/-- How `flush_backlog` returns without an error: all is sent, or a real `send` stalls. -/
structure FlushDone (s' : FdState) (t t' : Tr) (b : Bool) : Prop where
  empty : b = true → s'.txBacklog = []
  stalls : b = false → Stalls t t'
  smooth : Smooth t → Smooth t'

theorem flushBacklog_rule (flags : Flags) (fuel : ℕ) {Q : Tr → FdState → Except Unit Bool → Prop}
    (hcall : ∀ t' s', Flushed s s' t t' → s'.txBacklog ≠ [] →
      inv.call t' s' (.send s'.txBacklog flags))
    (hcut : ∀ t' s', Flushed s s' t t' → progress t' = progress t + fuel →
      (fuel = 0 ∨ s.txBacklog ≠ []) → inv.cut t' s')
    (hok : ∀ t' s' b, Flushed s s' t t' → (s.txBacklog ≠ [] → Offered s.txBacklog t') →
      FlushDone s' t t' b → Q t' s' (.ok b))
    (herr : ∀ t' s', Flushed s s' t t' → Offered s.txBacklog t' → ¬ Smooth t' →
      Q t' s' (.error ())) :
    Safe inv Q (flushBacklog flags fuel s) t := by
  -- each round that goes on has moved bytes
  refine safe_iter_countdown (fun n _ t' s' => Flushed s s' t t' ∧
    progress t' + n = progress t + fuel ∧
    (s' = s ∧ n = fuel ∨ Offered s.txBacklog t' ∧ s.txBacklog ≠ []) ∧
    ∃ u, t' = t ++ u ∧ ∀ x ∈ u, Ev.moves x = true) ?_ ?_ fuel
    ⟨Flushed.refl s t, rfl, .inl ⟨rfl, rfl⟩, [], (List.append_nil t).symm, by simp⟩
  · rintro - t' s' ⟨hf, hn, ho, -⟩
    refine hcut t' s' hf hn (ho.imp ?_ fun ho => ho.2)
    exact fun ho => ho.2.symm
  · rintro n - t' s' ⟨hf, hn, ho, u, hu, hmoves⟩
    have hne : s'.txBacklog ≠ [] → s.txBacklog ≠ [] := fun h h' => h (hf.empty h')
    have hsmooth : Smooth t → Smooth t' := by
      rw [hu]
      exact fun h => h.append fun x hx => Ev.smooth_of_moves (hmoves x hx)
    by_cases hnil : s'.txBacklog = []
    · have hoff : s.txBacklog ≠ [] → Offered s.txBacklog t' := by
        rintro hne
        rcases ho with ⟨rfl, -⟩ | ⟨ho, -⟩
        · exact absurd hnil hne
        · exact ho
      simpa [hnil] using hok t' s' true hf hoff ⟨fun _ => hnil, fun hb => (by cases hb), hsmooth⟩
    · have hb : s'.txBacklog.isEmpty = false := by simpa using hnil
      simp only [bind_apply, get_apply, bind_done, hb, Bool.false_eq_true, if_false, perform_apply,
        bind_call, safe_call]
      refine ⟨hcall t' s' hf hnil, fun r => ?_⟩
      have hoff : Offered s.txBacklog (t' ++ [⟨.send s'.txBacklog flags, r⟩]) := by
        rcases ho with ⟨rfl, -⟩ | ⟨ho, -⟩
        · exact ⟨flags, r, List.mem_append_right _ (List.mem_singleton.mpr rfl)⟩
        · exact ho.mono _
      have hstall : ∀ r, Ev.stalls ⟨.send s'.txBacklog flags, r⟩ = true →
          FlushDone s' t (t' ++ [⟨.send s'.txBacklog flags, r⟩]) false := fun r hr =>
        ⟨fun hb => (by cases hb), fun _ => ⟨u, _, by rw [hu], hmoves, hr⟩,
          fun h => (hsmooth h).snoc (Ev.smooth_of_stalls hr)⟩
      cases r with
      | sent m hm =>
        refine ⟨hf.send m _ (List.append_nil _), ?_, .inr ⟨hoff, hne hnil⟩, _,
          by rw [hu, List.append_assoc], fun x hx => ?_⟩
        · have hone : progress [(⟨.send s'.txBacklog flags, .sent m hm⟩ : Ev Resp)] = 1 := rfl
          rw [progress_append, hone]
          omega
        · rcases List.mem_append.mp hx with hx | hx
          · exact hmoves x hx
          · rw [List.mem_singleton.mp hx]
            rfl
      | zero => exact hok _ _ false (hf.send 0 _ rfl) (fun _ => hoff) (hstall _ rfl)
      | error e =>
        have hf' : Flushed s s' t (t' ++ [⟨.send s'.txBacklog flags, .error e⟩]) :=
          hf.send 0 _ rfl
        by_cases hw : wouldBlock e = true
        · simpa [hw] using hok _ _ false hf' (fun _ => hoff) (hstall _ hw)
        · have hns : ¬ Smooth (t' ++ [⟨.send s'.txBacklog flags, .error e⟩]) :=
            not_smooth_of_mem (List.mem_append_right _ (List.mem_singleton.mpr rfl))
              (by simpa [Ev.smooth] using hw)
          simpa [hw] using herr _ _ hf' hoff hns

theorem pullWire_rule (flags : Flags) {Q : Tr → FdState → Except Unit RecvResult → Prop}
    (hcall : inv.call t s (.recv flags))
    (hdata : ∀ d hd, (s.rxWire ++ d).length ≤ maxWireRxBuffer →
      Q (t ++ [⟨.recv flags, .data d hd⟩]) { s with rxWire := s.rxWire ++ d } (.ok (.data d hd)))
    (heof : Q (t ++ [⟨.recv flags, .eof⟩]) s (.ok .eof))
    (herr : ∀ e, Q (t ++ [⟨.recv flags, .error e⟩]) s (.ok (.error e)))
    (hfull : ∀ d hd, Q (t ++ [⟨.recv flags, .data d hd⟩]) s (.error ())) :
    Safe inv Q (pullWire flags s) t := by
  simp only [pullWire, bind_apply, perform_apply, bind_call, bind_done, safe_call]
  refine ⟨hcall, fun r => ?_⟩
  cases r with
  | eof => exact heof
  | error e => exact herr e
  | data d hd =>
    simp only [bind_apply, get_apply, bind_done]
    cases ha : s.appendRxWire d with
    | none => exact hfull d hd
    | some s' =>
      obtain ⟨hroom, rfl⟩ := FdState.appendRxWire_eq_some.mp ha
      refine hdata d hd ?_
      rw [List.length_append]
      have hpos := hd.1
      omega

/-- All that is buffered is complete records without plaintext and the start of a frame. -/
inductive UsedUp (P : Primitives) (suite : CipherSuite) : SessionKeys → Bytes → Prop
  | waiting {keys wire} : tryPopFrame wire = .ok none → UsedUp P suite keys wire
  | empty {keys keys' wire f rest} : tryPopFrame wire = .ok (some (f, rest)) →
      f.tag = typeData → f.suiteId = suite.id → keys.open P f.payload = .ok (keys', []) →
      UsedUp P suite keys' rest → UsedUp P suite keys wire

theorem openRecords_rule {P : Primitives} (hl : Lenient inv) (fuel : ℕ) {keys : SessionKeys}
    (hphase : s.phase = .active keys) {Q : Tr → FdState → Except Errno Unit → Prop}
    (hcut : fuel ≤ s.rxWire.length → ∀ u s', Still u → inv.cut (t ++ u) s')
    (hok : ∀ u s' keys', Still u → s'.phase = .active keys' →
      s'.rxWire.length ≤ s.rxWire.length →
      (s'.rxPlain = [] → UsedUp P s.policySuite keys s.rxWire) → Q (t ++ u) s' (.ok ()))
    (herr : ∀ u s', Still u → s'.phase = .failed → Q (t ++ u) s' (.error EPIPE)) :
    Safe inv Q (openRecords P fuel s) t := by
  -- each round takes a frame off, so that the buffer gets shorter
  refine safe_iter_countdown (fun n _ t' s' => ∃ u, t' = t ++ u ∧ Still u ∧
    fuel + s'.rxWire.length ≤ n + s.rxWire.length ∧ s'.rxWire.length ≤ s.rxWire.length ∧
    s'.policySuite = s.policySuite ∧ ∃ keys', s'.phase = .active keys' ∧ (s'.rxPlain = [] →
      UsedUp P s.policySuite keys' s'.rxWire → UsedUp P s.policySuite keys s.rxWire)) ?_ ?_ fuel
    ⟨[], (List.append_nil t).symm, still_nil, Nat.le_refl _, Nat.le_refl _, rfl, keys, hphase,
      fun _ => id⟩
  · rintro - t' s' ⟨u, rfl, hu, hn, hle, -⟩
    exact hcut (by omega) u s' hu
  · rintro n - t' s' ⟨u, rfl, hu, hn, hle, hsuite, keys', hphase', hused⟩
    have hfail : ∀ (v : Tr) (s'' : FdState) (site : FailSite), Still v → site.io = false →
        Safe inv (fun t₂ s₂ r => r.elim (fun _ => ∃ u, t₂ = t ++ u ∧ Still u ∧
            fuel + s₂.rxWire.length ≤ n + s.rxWire.length ∧ s₂.rxWire.length ≤ s.rxWire.length ∧
            s₂.policySuite = s.policySuite ∧ ∃ keys', s₂.phase = .active keys' ∧
            (s₂.rxPlain = [] → UsedUp P s.policySuite keys' s₂.rxWire →
              UsedUp P s.policySuite keys s.rxWire)) (fun a => Q t₂ s₂ a))
          ((do failClosed site; pure (.inr (.error EPIPE)) :
            FdAct (Unit ⊕ Except Errno Unit)) s'') (t ++ v) := by
      intro v s'' site hv hsite
      refine failWith_rule hl (fun w => hl.site hsite _ _) ?_
      rw [List.append_assoc]
      exact herr _ _ (hv.append (still_failSeg _ _)) rfl
    have hnote : ∀ t₂ s₂ n', (∀ site, n' ≠ .failClosed site) → inv.call t₂ s₂ (.note n') := by
      intro t₂ s₂ n' hn'
      refine hl t₂ s₂ _ rfl ?_
      rintro site he
      cases he
      exact absurd rfl (hn' site)
    simp only [bind_apply, get_apply, bind_done]
    cases hpop : tryPopFrame s'.rxWire with
    | error x => exact hfail u s' _ hu rfl
    | ok o =>
      cases o with
      | none => exact hok u s' keys' hu hphase' hle fun hp => hused hp (.waiting hpop)
      | some fr =>
        obtain ⟨f, rest⟩ := fr
        have hrest : rest.length < s'.rxWire.length := by
          obtain ⟨hb, -⟩ := tryPopFrame_eq_some hpop
          rw [hb, List.length_append, ParsedFrame.bytes, frameBytes_length]
          omega
        simp only [bind_apply, set_apply, bind_done]
        refine note_bind_rule (hnote _ _ _ (by simp)) ?_
        rw [List.append_assoc]
        have hv : Still (u ++ [noted (.popped f)]) := hu.append (still_one rfl)
        by_cases htag : f.tag = typeData
        · rw [if_pos htag]
          by_cases hid : f.suiteId ≠ s'.policySuite.id
          · rw [if_pos hid]
            exact hfail _ _ _ hv rfl
          · rw [if_neg hid, hphase']
            dsimp only
            cases hopen : keys'.open P f.payload with
            | error e => exact hfail _ _ _ hv rfl
            | ok out =>
              obtain ⟨keys'', pt⟩ := out
              simp only [bind_apply, set_apply, bind_done]
              refine note_bind_rule (hnote _ _ _ (by simp)) ?_
              rw [List.append_assoc]
              have hw := hv.append (u := [noted (.opened keys'.rx.key
                (nonceFromCounter keys'.rx.counter) f.payload pt)]) (still_one rfl)
              cases ha : FdState.appendRxPlain
                  { s' with rxWire := rest, phase := .active keys'' } pt with
              | none => exact hfail _ _ _ hw rfl
              | some s'' =>
                obtain ⟨-, rfl⟩ := FdState.appendRxPlain_eq_some.mp ha
                refine ⟨_, rfl, hw, ?_, ?_, hsuite, keys'', rfl, fun hp hrest => ?_⟩
                · change fuel + rest.length ≤ _
                  omega
                · change rest.length ≤ _
                  omega
                · have hnil : s'.rxPlain ++ pt = [] := hp
                  obtain ⟨hp', rfl⟩ := List.append_eq_nil_iff.mp hnil
                  rw [not_not, hsuite] at hid
                  exact hused hp' (.empty hpop htag hid hopen hrest)
        · rw [if_neg htag]
          exact hfail _ _ _ hv rfl

theorem inheritedAfterFork_rule (hl : Lenient inv) {Q : Tr → FdState → Bool → Prop}
    (hno : ∀ u, Still u → Q (t ++ u) s false)
    (hyes : ∀ u s', Still u → s'.phase = .failed → Q (t ++ u) s' true) :
    Safe inv Q (inheritedAfterFork s) t := by
  simp only [inheritedAfterFork, bind_apply, get_apply, bind_done, perform_apply, bind_call,
    safe_call]
  refine ⟨hl.quiet rfl, fun pid => ?_⟩
  have hu : Still [⟨.getpid, pid⟩] := still_one rfl
  by_cases hp : s.ownerPid = pid
  · simpa [hp] using hno _ hu
  · simp only [hp, if_false]
    refine failWith_rule hl (fun v => hl.site rfl _ _) ?_
    rw [List.append_assoc]
    exact hyes _ _ (hu.append (still_failSeg _ _)) rfl

theorem failIfStaleIdleConfig_rule (hl : Lenient inv) {Q : Tr → FdState → Bool → Prop}
    (hno : ∀ u, Still u → Q (t ++ u) s false)
    (hyes : ∀ u s', Still u → s'.phase = .failed → Q (t ++ u) s' true) :
    Safe inv Q (failIfStaleIdleConfig s) t := by
  simp only [failIfStaleIdleConfig, bind_apply, get_apply, bind_done, perform_apply, bind_call,
    safe_call]
  refine ⟨hl.quiet rfl, fun epoch => ?_⟩
  have hu : Still [⟨.configEpoch, epoch⟩] := still_one rfl
  by_cases he : s.configEpoch = epoch
  · simpa [he] using hno _ hu
  · simp only [he, if_false]
    by_cases hidle : s.isIdleForConfigReload = true
    · simp only [hidle, if_true, bind_apply]
      refine safe_bind (failClosed_rule hl (fun v => hl.site rfl _ _) ?_)
      refine ⟨hl.quiet rfl, fun epoch' => ?_⟩
      rw [List.append_assoc, List.append_assoc]
      exact hyes _ _ (hu.append ((still_failSeg _ _).append (still_one rfl))) rfl
    · simpa [hidle] using hno _ hu

theorem guards_rule (hl : Lenient inv) {body : Bool → FdAct (Except Errno α)}
    {Q : Tr → FdState → Except Errno α → Prop}
    (hrefuse : ∀ u s', Still u → s'.phase = .failed → Q (t ++ u) s' (.error EPIPE))
    (hbody : ∀ u r, Still u → (⟨.getfl, r⟩ : Ev Resp) ∈ u →
      Safe inv Q (body (blocks r) s) (t ++ u)) :
    Safe inv Q ((do
      if ← inheritedAfterFork then pure (.error EPIPE)
      else if ← failIfStaleIdleConfig then pure (.error EPIPE)
      else
        let blocking ← isBlocking
        body blocking : FdAct (Except Errno α)) s) t := by
  rw [bind_apply]
  refine safe_bind (inheritedAfterFork_rule hl ?_ ?_)
  · intro u hu
    simp only [Bool.false_eq_true, if_false, bind_apply]
    refine safe_bind (failIfStaleIdleConfig_rule hl ?_ ?_)
    · intro v hv
      simp only [Bool.false_eq_true, if_false, isBlocking, bind_apply, perform_apply, bind_call,
        bind_done, safe_call]
      refine ⟨hl.quiet rfl, fun r => ?_⟩
      have hw : Still (u ++ (v ++ [⟨.getfl, r⟩])) := hu.append (hv.append (still_one rfl))
      rw [List.append_assoc, List.append_assoc]
      cases r with
      | none => exact hbody _ none hw (by simp)
      | some flags => exact hbody _ (some flags) hw (by simp)
    · intro v s' hv hf
      rw [List.append_assoc]
      exact hrefuse _ s' (hu.append hv) hf
  · exact fun u s' hu hf => hrefuse u s' hu hf

/-- In the process that owns the session, and with its configuration, the guards let the
call pass. -/
theorem guards_at (body : Bool → FdAct (Except Errno α)) (s : FdState) (r : Option ℕ) :
    At ((do
      if ← inheritedAfterFork then pure (.error EPIPE)
      else if ← failIfStaleIdleConfig then pure (.error EPIPE)
      else
        let blocking ← isBlocking
        body blocking : FdAct (Except Errno α)) s)
      [⟨.getpid, s.ownerPid⟩, ⟨.configEpoch, s.configEpoch⟩, ⟨.getfl, r⟩] (body (blocks r) s) := by
  simp only [inheritedAfterFork, bind_apply, get_apply, bind_done, perform_apply, bind_call]
  refine .head ?_
  simp only [if_true, pure_apply, bind_done, Bool.false_eq_true, if_false, failIfStaleIdleConfig,
    bind_apply, get_apply, perform_apply, bind_call]
  refine .head ?_
  simp only [if_true, pure_apply, bind_done, Bool.false_eq_true, if_false, isBlocking,
    bind_apply, perform_apply, bind_call]
  refine .head ?_
  cases r with
  | none => exact .refl
  | some flags => exact .refl

end

end SyntriassOverlay
