import SyntriassOverlay.Conservation
import SyntriassOverlay.Rules

/-!
# When both ends wait

Two applications on a plain socket that both wait in `recv` have read all that the other one has
written. With the overlay between them, an end may also wait inside a handshake, for a frame that
its peer has in its backlog and does not send. Between two ends that match this does not happen
as long as the kernel takes something of whatever it is given, with one exception: a call of
`send` without any bytes may complete the handshake, and returns before it has sent the answer.
-/

namespace SyntriassOverlay
open Crypto Resumption

/-! ### Nothing left to send -/

/-- The real `send` took nothing. -/
def Ev.stuck : Ev Resp → Bool
  | ⟨.send _ _, .zero⟩ | ⟨.send _ _, .error _⟩ => true
  | _ => false

def Flowing (t : Tr) : Prop := ∀ e ∈ t, Ev.stuck e = false

instance (t : Tr) : Decidable (Flowing t) :=
  inferInstanceAs (Decidable (∀ e ∈ t, Ev.stuck e = false))

/-- What holds of a call that began after `t₀` where it waits for the peer. -/
def waitInv (sending : Bool) (t₀ : Tr) : Obligation Resp FdState where
  call t s o :=
    match o with
    | .recv _ => (Flowing t → s.txBacklog = []) ∧ Same t₀ t ∧
        (sending = true → s.phase.handshaking = true)
    | _ => True
  cut _ _ := True

/-- What holds between two calls: only a handshake leaves something in the backlog. -/
def Drained (t : Tr) (s : FdState) : Prop :=
  Flowing t → s.phase.handshaking = true ∨ s.txBacklog = []

section
variable {P : Primitives} {sending : Bool} {t₀ t u : Tr} {s₀ s : FdState} {fuel : ℕ}

theorem Flowing.left (h : Flowing (t ++ u)) : Flowing t :=
  fun e he => h e (List.mem_append_left _ he)

theorem Flowing.of_le {t' : Tr} (h : Flowing t') (hle : t <+: t') : Flowing t := by
  obtain ⟨u, rfl⟩ := hle
  exact h.left

theorem not_flowing_last {e : Ev Resp} (he : Ev.stuck e = true) : ¬ Flowing (t ++ [e]) := by
  intro h
  have hlast := h e (List.mem_append_right _ (List.mem_singleton.mpr rfl))
  rw [he] at hlast
  cases hlast

theorem drained_of_empty (h : Flowing t → s.txBacklog = []) : Drained t s :=
  fun hf => .inr (h hf)

theorem drained_closed (s : FdState) : Drained t s.closed := fun _ => .inr rfl

theorem waitInv_lenient : Lenient (waitInv sending t₀) := by
  intro t s o ho _
  cases o with
  | recv => cases ho
  | _ => trivial

theorem failWith_waits {α : Type} {a : α} {site : FailSite} {Q : Tr → FdState → α → Prop}
    (h : Q (t ++ failSeg s site) s.closed a) :
    Safe (waitInv sending t₀) Q ((do failClosed site; pure a : FdAct α) s) t :=
  failWith_rule waitInv_lenient (fun _ => trivial) h

/-- A part that does not read keeps to `waitInv`, and ends as `ioInv` has it. -/
theorem waits_of_safe {α : Type} {p : Prog Resp FdState α} {Q : Tr → FdState → α → Prop}
    (hquiet : Safe (waitInv sending t₀) (fun _ _ _ => True) p t)
    (hsafe : Safe (ioInv P False s₀) Q p t) : Safe (waitInv sending t₀) Q p t :=
  safe_mono (fun _ _ _ h => h.2) (safe_both hquiet hsafe)

/-- A flush leaves nothing in the backlog, unless the kernel took nothing of it. -/
theorem flushBacklog_drains (flags : Flags) :
    Safe (waitInv sending t₀) (fun t' s' r => Flowing t' → r = .ok true ∧ s'.txBacklog = [])
      (flushBacklog flags fuel s) t := by
  refine safe_iter (fun _ _ _ => True) (fun _ _ _ _ => trivial) ?_ fuel trivial
  rintro - t' s' -
  by_cases hnil : s'.txBacklog = []
  · simp [hnil]
  · have hb : s'.txBacklog.isEmpty = false := by simpa using hnil
    simp only [bind_apply, get_apply, bind_done, hb, Bool.false_eq_true, if_false, perform_apply,
      bind_call, safe_call]
    refine ⟨trivial, fun r => ?_⟩
    cases r with
    | sent => trivial
    | zero => exact fun hf => absurd hf (not_flowing_last rfl)
    | error e =>
      have hstuck : ¬ Flowing (t' ++ [⟨.send s'.txBacklog flags, .error e⟩]) :=
        not_flowing_last rfl
      by_cases hw : wouldBlock e = true
      · simpa [hw] using fun hf => absurd hf hstuck
      · simpa [hw] using fun hf => absurd hf hstuck

/-- What a flush leaves as it was. -/
structure FlushEnd (P : Primitives) (s₀ s : FdState) (t t' : Tr) (s' : FdState) : Prop where
  history : History P False s₀ t' s' none
  same : Same t t'
  phase : s'.phase = s.phase
  rxWire : s'.rxWire = s.rxWire

theorem FlushEnd.settled {t' : Tr} {s' : FdState} (h : FlushEnd P s₀ s t t' s')
    (hset : s.Settled) : s'.Settled := by
  intro hhs
  rw [h.phase] at hhs
  rw [h.rxWire]
  exact hset hhs

theorem flushBacklog_waits (flags : Flags) (hs₀ : s₀.Sound) (h : History P False s₀ t s none)
    {Q : Tr → FdState → Except Unit Bool → Prop}
    (hQ : ∀ t' s' r, FlushEnd P s₀ s t t' s' → (Flowing t' → r = .ok true ∧ s'.txBacklog = []) →
      Q t' s' r) :
    Safe (waitInv sending t₀) Q (flushBacklog flags fuel s) t := by
  have hsafe : Safe (ioInv P False s₀) (fun t' s' _ => FlushEnd P s₀ s t t' s')
      (flushBacklog flags fuel s) t := by
    apply flushBacklog_safe flags fuel h (.inl rfl) fun hf => ((h.sound hs₀).failed_empty hf).1
    · exact fun t' n b h' hsame _ => ⟨h', hsame, rfl, rfl⟩
    · exact fun t' n h' hsame _ => ⟨h', hsame, rfl, rfl⟩
  refine safe_mono ?_ (safe_both (flushBacklog_drains flags) hsafe)
  intro t' s' r hboth
  exact hQ t' s' r hboth.2 hboth.1

theorem driveHandshake_waits (h : History P False s₀ t s none)
    (hhs : s.phase.handshaking = true) {Q : Tr → FdState → Unit → Prop}
    (hQ : ∀ t' s', History P False s₀ t' s' none → Same t t' → Q t' s' ()) :
    Safe (waitInv sending t₀) Q (driveHandshake P fuel s) t := by
  apply waits_of_safe
  · exact driveHandshake_rule waitInv_lenient fuel (fun _ => trivial) (fun _ => trivial)
      fun _ _ _ _ => trivial
  · exact driveHandshake_safe fuel h (.inl hhs) fun t' s' h' hsame _ _ => hQ t' s' h' hsame

theorem guards_waits {α : Type} {body : Bool → FdAct (Except Errno α)}
    {Q : Tr → FdState → Except Errno α → Prop} (h : History P False s₀ t s none)
    (hrefuse : ∀ t' s', History P False s₀ t' s' none → s'.phase = .failed →
      Q t' s' (.error EPIPE))
    (hbody : ∀ t' blocking, History P False s₀ t' s none → Same t t' →
      Safe (waitInv sending t₀) Q (body blocking s) t') :
    Safe (waitInv sending t₀) Q ((do
      if ← inheritedAfterFork then pure (.error EPIPE)
      else if ← failIfStaleIdleConfig then pure (.error EPIPE)
      else
        let blocking ← isBlocking
        body blocking : FdAct (Except Errno α)) s) t := by
  have hfork : ∀ {t s}, Safe (waitInv sending t₀) (fun _ _ _ => True) (inheritedAfterFork s) t :=
    inheritedAfterFork_rule waitInv_lenient (fun _ _ => trivial) fun _ _ _ _ => trivial
  have hstale : ∀ {t s}, Safe (waitInv sending t₀) (fun _ _ _ => True)
      (failIfStaleIdleConfig s) t :=
    failIfStaleIdleConfig_rule waitInv_lenient (fun _ _ => trivial) fun _ _ _ _ => trivial
  have hasks : ∀ {t s}, Safe (waitInv sending t₀) (fun _ _ _ => True) (isBlocking s) t := by
    refine ⟨trivial, fun r => ?_⟩
    cases r <;> trivial
  rw [bind_apply]
  refine safe_bind (waits_of_safe hfork (inheritedAfterFork_safe h ?_ ?_))
  · intro t₁ h₁ hs₁
    simp only [Bool.false_eq_true, if_false, bind_apply]
    refine safe_bind (waits_of_safe hstale (failIfStaleIdleConfig_safe h₁ ?_ ?_))
    · intro t₂ h₂ hs₂
      simp only [Bool.false_eq_true, if_false, bind_apply]
      refine safe_bind (waits_of_safe hasks (isBlocking_safe h₂ ?_))
      exact fun t₃ blocking h₃ hs₃ => hbody t₃ blocking h₃ ((hs₁.trans hs₂).trans hs₃)
    · exact fun t₂ s₂ h₂ _ hphase => hrefuse t₂ s₂ h₂ hphase
  · exact fun t₁ h₁ _ => hrefuse t₁ _ h₁ rfl

/-! ### The receive path -/

theorem pullForRecv_waits (flags : Flags) (blocking : Bool) (hsame : Same t₀ t)
    (htx : Flowing t → s.txBacklog = []) :
    Safe (waitInv false t₀) (fun t' s' _ => Drained t' s') (pullForRecv flags blocking s) t := by
  rw [pullForRecv, bind_apply]
  refine safe_bind (pullWire_rule flags ⟨htx, hsame, fun hsend => by cases hsend⟩ ?_ ?_ ?_ ?_)
  · exact fun d hd _ => drained_of_empty fun hf => htx hf.left
  · exact drained_of_empty fun hf => htx hf.left
  · intro e
    have hstay : Drained (t ++ [⟨.recv flags, .error e⟩]) s :=
      drained_of_empty fun hf => htx hf.left
    cases hw : wouldBlock e <;> cases blocking <;> simpa [hw] using hstay
  · exact fun d hd => failWith_waits (drained_closed s)

/-- The records that are opened leave the backlog as it is. -/
theorem openRecords_backlog :
    Safe (waitInv sending t₀) (fun _ s' _ => s.txBacklog = [] → s'.txBacklog = [])
      (openRecords P fuel s) t := by
  refine safe_iter (fun _ _ s' => s.txBacklog = [] → s'.txBacklog = []) (fun _ _ _ _ => trivial) ?_
    fuel id
  rintro - t' s' hs'
  simp only [bind_apply, get_apply, bind_done]
  cases hpop : tryPopFrame s'.rxWire with
  | error e => exact failWith_waits fun _ => rfl
  | ok o =>
    cases o with
    | none => exact hs'
    | some fr =>
      obtain ⟨f, rest⟩ := fr
      simp only [bind_apply, set_apply, bind_done]
      refine note_bind_rule trivial ?_
      by_cases htag : f.tag = typeData
      · rw [if_pos htag]
        by_cases hid : f.suiteId ≠ s'.policySuite.id
        · rw [if_pos hid]
          exact failWith_waits fun _ => rfl
        · rw [if_neg hid]
          cases hphase : s'.phase with
          | active keys =>
            dsimp only
            cases hopen : keys.open P f.payload with
            | error e => exact failWith_waits fun _ => rfl
            | ok out =>
              simp only [bind_apply, set_apply, bind_done]
              refine note_bind_rule trivial ?_
              cases happ : FdState.appendRxPlain
                  { s' with rxWire := rest, phase := .active out.1 } out.2 with
              | none => exact failWith_waits fun _ => rfl
              | some s'' =>
                obtain ⟨-, rfl⟩ := FdState.appendRxPlain_eq_some.mp happ
                exact hs'
          | _ => exact hs'
      · rw [if_neg htag]
        exact failWith_waits fun _ => rfl

theorem openRecords_waits {keys : SessionKeys} (h : History P False s₀ t s none)
    (hphase : s.phase = .active keys) (htx : Flowing t → s.txBacklog = [])
    {Q : Tr → FdState → Except Errno Unit → Prop}
    (hQ : ∀ t' s' r, History P False s₀ t' s' none → Same t t' →
      (Flowing t' → s'.txBacklog = []) → Q t' s' r) :
    Safe (waitInv sending t₀) Q (openRecords P fuel s) t := by
  have hsafe : Safe (ioInv P False s₀) (fun t' s' _ => History P False s₀ t' s' none ∧ Same t t')
      (openRecords P fuel s) t := by
    apply openRecords_safe fuel h hphase
    · exact fun t' s' keys' h' hsame _ _ => ⟨h', hsame⟩
    · exact fun t' s' e h' hsame _ => ⟨h', hsame⟩
  refine safe_mono ?_ (safe_both openRecords_backlog hsafe)
  rintro t' s' r ⟨hkeep, h', hsame⟩
  exact hQ t' s' r h' hsame fun hf => hkeep (htx (hf.of_le hsame.mono))

theorem openOrPull_waits (flags : Flags) (blocking : Bool) (h : History P False s₀ t s none)
    (hsame : Same t₀ t) (htx : Flowing t → s.txBacklog = []) :
    Safe (waitInv false t₀) (fun t' s' _ => Drained t' s')
      (openOrPull P flags blocking fuel s) t := by
  simp only [openOrPull, bind_apply, get_apply, bind_done]
  cases hphase : s.phase with
  | failed => exact drained_of_empty htx
  | active keys =>
    simp only [bind_apply]
    refine safe_bind (openRecords_waits h hphase htx ?_)
    intro t' s' r h' hsame' htx'
    cases r with
    | error e => exact drained_of_empty htx'
    | ok _ =>
      simp only [bind_apply, get_apply, bind_done]
      split
      · exact drained_of_empty htx'
      · exact pullForRecv_waits flags blocking (hsame.trans hsame') htx'
  | responderAwaitingClientHello | initiatorAwaitingServerHello _
  | initiatorAwaitingFallbackFinished _ => exact pullForRecv_waits flags blocking hsame htx

variable (hs₀ : s₀.Sound)
include hs₀

theorem recvRound_waits (len : ℕ) (flags : Flags) (blocking : Bool)
    (h : History P False s₀ t s none) (hsame : Same t₀ t) (hdrained : Drained t s) :
    Safe (waitInv false t₀) (fun t' s' _ => Drained t' s')
      (recvRound P len flags blocking fuel s) t := by
  simp only [recvRound, bind_apply, get_apply, bind_done]
  split
  · simp only [bind_apply]
    refine safe_bind ?_
    simp only [copyPlaintextToApp, bind_apply, get_apply, bind_done, set_apply]
    exact note_bind_rule trivial fun hf => hdrained hf.left
  · split
    · rename_i hhs
      have hturn : ∀ t' s', History P False s₀ t' s' none → Same t t' →
          Safe (waitInv false t₀) (fun t' s' _ => Drained t' s')
            ((do
              let _ ← flushBacklog flags fuel
              openOrPull P flags blocking fuel : FdAct (Unit ⊕ Except Errno Bytes)) s') t' := by
        intro t' s' h' hsame'
        rw [bind_apply]
        refine safe_bind (flushBacklog_waits flags hs₀ h' ?_)
        intro t₂ s₂ r hf hdone
        exact openOrPull_waits flags blocking hf.history (hsame.trans (hsame'.trans hf.same))
          fun hflow => (hdone hflow).2
      rw [bind_apply]
      refine safe_bind (flushBacklog_waits flags hs₀ h ?_)
      intro t' s' r hf _
      rw [bind_apply]
      refine safe_bind (driveHandshake_waits hf.history (hf.phase ▸ hhs) ?_)
      exact fun t₂ s₂ h₂ hs₂ => hturn t₂ s₂ h₂ (hf.same.trans hs₂)
    · rename_i hhs
      exact openOrPull_waits flags blocking h hsame fun hf => (hdrained hf).resolve_left hhs

theorem overlayRecv_waits {len : ℕ} (hlen : 0 < len) (flags : Flags)
    (h : History P False s₀ t s none) (hdrained : Drained t s) :
    Safe (waitInv false t) (fun t' s' _ => Drained t' s') (overlayRecv P len flags fuel s) t := by
  refine guards_waits h ?_ ?_
  · exact fun t' s' h' hf => drained_of_empty fun _ => ((h'.sound hs₀).failed_empty hf).1
  · intro t₁ blocking h₁ hs₁
    refine safe_iter (fun _ t' s' => History P False s₀ t' s' none ∧ Same t t' ∧ Drained t' s')
      (fun _ _ _ _ => trivial) ?_ fuel ⟨h₁, hs₁, fun hf => hdrained (hf.of_le hs₁.mono)⟩
    rintro - t' s' ⟨h', hsame, hdr⟩
    have hround : Safe (ioInv P False s₀) (fun t₂ s₂ r => r.elim
        (fun _ => History P False s₀ t₂ s₂ none ∧ Same t t₂) fun _ => True)
        (recvRound P len flags blocking fuel s') t' := by
      apply recvRound_safe hs₀ hlen flags blocking fuel h'
      · exact fun t₂ s₂ h₂ hs₂ => ⟨h₂, hsame.trans hs₂⟩
      · exact fun _ _ _ _ _ _ => trivial
      · exact fun _ _ _ _ _ _ => trivial
    refine safe_mono ?_ (safe_both (recvRound_waits hs₀ len flags blocking h' hsame hdr) hround)
    rintro t₂ s₂ r ⟨hdr₂, hr⟩
    cases r with
    | inl _ => exact ⟨hr.1, hr.2, hdr₂⟩
    | inr _ => exact hdr₂

/-! ### The send path -/

/-- What a round of `drive_until_active_for_write` leads to. -/
def WriteStep (P : Primitives) (s₀ : FdState) (t₀ t : Tr) (s : FdState)
    (r : Unit ⊕ Except Errno Unit) : Prop :=
  r.elim (fun _ => History P False s₀ t s none ∧ Same t₀ t ∧ s.Settled)
    fun a => ∀ e, a = .error e → Drained t s

theorem pullForWrite_waits (flags : Flags) (blocking : Bool) (h : History P False s₀ t s none)
    (hsame : Same t₀ t) (hset : s.Settled) (hhs : s.phase.handshaking = true)
    (htx : Flowing t → s.txBacklog = []) :
    Safe (waitInv true t₀) (WriteStep P s₀ t₀) (pullForWrite P flags blocking fuel s) t := by
  have hquiet : Safe (waitInv true t₀) (fun t' s' r => r.elim (fun _ => True)
      fun (_ : Except Errno Unit) => Drained t' s') (pullForWrite P flags blocking fuel s) t := by
    have hstay : ∀ {r : RecvResult}, Drained (t ++ [⟨.recv flags, r⟩]) s :=
      drained_of_empty fun hf => htx hf.left
    rw [pullForWrite, bind_apply]
    refine safe_bind (pullWire_rule flags ⟨htx, hsame, fun _ => hhs⟩ ?_ ?_ ?_ ?_)
    · intro d hd _
      simp only [bind_apply]
      exact safe_bind (driveHandshake_rule waitInv_lenient fuel (fun _ => trivial)
        (fun _ => trivial) fun _ _ _ _ => trivial)
    · exact failWith_waits (drained_closed s)
    · intro e
      dsimp only
      cases hw : wouldBlock e with
      | true =>
        cases blocking with
        | false => exact hstay
        | true => trivial
      | false => exact failWith_waits (drained_closed s)
    · exact fun d hd => failWith_waits (drained_closed s)
  have hsafe : Safe (ioInv P False s₀) (fun t' s' _ => History P False s₀ t' s' none ∧
      Same t₀ t' ∧ s'.Settled) (pullForWrite P flags blocking fuel s) t := by
    apply pullForWrite_safe hs₀ flags blocking fuel h hhs hset
    · exact fun t' s' h' hs' hset' => ⟨h', hsame.trans hs', hset'⟩
    · exact fun t' s' e h' hs' hset' => ⟨h', hsame.trans hs', hset'⟩
  refine safe_mono ?_ (safe_both hquiet hsafe)
  rintro t' s' r ⟨hdr, hgo⟩
  cases r with
  | inl _ => exact hgo
  | inr _ => exact fun _ _ => hdr

theorem driveUntilActiveForWrite_waits (flags : Flags) (blocking : Bool)
    (h : History P False s₀ t s none) (hsame : Same t₀ t) (hset : s.Settled) :
    Safe (waitInv true t₀) (fun t' s' r => ∀ e, r = .error e → Drained t' s')
      (driveUntilActiveForWrite P flags blocking fuel s) t := by
  rw [driveUntilActiveForWrite, bind_apply]
  refine safe_bind (flushBacklog_waits flags hs₀ h ?_)
  intro t₁ s₁ r₁ hf₁ _
  cases r₁ with
  | error _ => exact failWith_waits fun _ _ => drained_closed s₁
  | ok _ =>
    refine safe_iter (fun _ t' s' => History P False s₀ t' s' none ∧ Same t₀ t' ∧ s'.Settled)
      (fun _ _ _ _ => trivial) ?_ fuel ⟨hf₁.history, hsame.trans hf₁.same, hf₁.settled hset⟩
    rintro - t' s' ⟨h', hs', hset'⟩
    simp only [bind_apply, get_apply, bind_done]
    cases hph : s'.phase with
    | active keys =>
      intro e he
      cases he
    | failed =>
      exact fun e _ => drained_of_empty fun _ => ((h'.sound hs₀).failed_empty hph).1
    | _ =>
      have hhs : s'.phase.handshaking = true := by rw [hph]; rfl
      dsimp only
      split
      · rename_i hempty
        exact pullForWrite_waits hs₀ flags blocking h' hs' hset' hhs
          fun _ => List.isEmpty_iff.mp hempty
      · rw [bind_apply]
        refine safe_bind (flushBacklog_waits flags hs₀ h' ?_)
        intro t₂ s₂ r₂ hf hdone
        rcases r₂ with _ | ⟨_ | _⟩
        · exact failWith_waits fun _ _ => drained_closed s₂
        · -- the kernel took nothing
          have hstuck : ¬ Flowing t₂ := by
            intro hflow
            cases (hdone hflow).1
          cases blocking with
          | false => exact fun _ _ hflow => absurd hflow hstuck
          | true => exact ⟨hf.history, hs'.trans hf.same, hf.settled hset'⟩
        · exact pullForWrite_waits hs₀ flags blocking hf.history (hs'.trans hf.same)
            (hf.settled hset') (hf.phase ▸ hhs) fun hflow => (hdone hflow).2

omit hs₀ in
theorem appendOrFlush_quiet (bytes : Bytes) (flags : Flags) (blocking : Bool) :
    Safe (waitInv sending t₀) (fun _ _ _ => True) (appendOrFlush bytes flags blocking fuel s)
      t := by
  simp only [appendOrFlush, bind_apply, get_apply, bind_done]
  cases happ : s.appendTx bytes with
  | some s' => exact note_bind_rule trivial trivial
  | none =>
    refine note_bind_rule trivial (safe_bind (safe_mono ?_ (flushBacklog_drains flags)))
    intro t' s' r _
    cases r with
    | error _ => exact failWith_waits trivial
    | ok flushed =>
      dsimp only
      split
      · trivial
      · simp only [bind_apply, get_apply, bind_done]
        cases happ' : s'.appendTx bytes with
        | some s'' => exact note_bind_rule trivial trivial
        | none => exact note_bind_rule trivial trivial

omit hs₀ in
theorem sendRecord_quiet (plaintext : Bytes) (suiteId : UInt8) (flags : Flags) (blocking : Bool)
    (k : ℕ) : Safe (waitInv sending t₀) (fun _ _ _ => True)
      (sendRecord P plaintext suiteId flags blocking fuel k s) t := by
  unfold sendRecord
  split
  · simp only [bind_apply, get_apply, bind_done]
    cases hphase : s.phase with
    | active keys =>
      dsimp only
      cases hseal : keys.seal P
          (slice plaintext k (min (k + maxRecordPlaintext) plaintext.length)) with
      | error e => exact failWith_waits trivial
      | ok out =>
        simp only [bind_apply, set_apply, bind_done]
        refine note_bind_rule trivial ?_
        cases hframe : frame suiteId typeData out.2 with
        | none => exact failWith_waits trivial
        | some f =>
          simp only [bind_apply]
          refine safe_bind (safe_mono ?_ (appendOrFlush_quiet f flags blocking))
          intro t' s' r _
          cases r with
          | ok _ => trivial
          | error e => exact failWith_waits trivial
    | _ => exact failWith_waits trivial
  · trivial

omit hs₀ in
theorem sendFlush_waits (len : ℕ) (flags : Flags) (blocking : Bool) :
    Safe (waitInv sending t₀) (fun t' s' _ => Drained t' s')
      (sendFlush len flags blocking fuel s) t := by
  rw [sendFlush, bind_apply]
  refine safe_bind (safe_mono ?_ (flushBacklog_drains flags))
  intro t₁ s₁ r₁ hdone
  have hend : Drained t₁ s₁ := drained_of_empty fun hflow => (hdone hflow).2
  rcases r₁ with _ | ⟨_ | _⟩
  · exact failWith_waits (drained_closed s₁)
  · cases blocking with
    | false => exact hend
    | true =>
      refine safe_iter (fun _ _ _ => True) (fun _ _ _ _ => trivial) ?_ fuel trivial
      intro _ t' s' _
      rw [bind_apply]
      refine safe_bind (safe_mono ?_ (flushBacklog_drains flags))
      intro t₂ s₂ r₂ hdone₂
      rcases r₂ with _ | ⟨_ | _⟩
      · exact failWith_waits (drained_closed s₂)
      · trivial
      · exact drained_of_empty fun hflow => (hdone₂ hflow).2
  · exact hend

theorem overlaySend_waits {plaintext : Bytes} (hne : plaintext ≠ []) (flags : Flags)
    (h : History P False s₀ t s none) (hset : s.Settled) :
    Safe (waitInv true t) (fun t' s' _ => Drained t' s') (overlaySend P plaintext flags fuel s)
      t := by
  refine guards_waits h ?_ ?_
  · exact fun t' s' h' hf => drained_of_empty fun _ => ((h'.sound hs₀).failed_empty hf).1
  · intro t₁ blocking h₁ hs₁
    rw [bind_apply]
    have hsafe : Safe (ioInv P False s₀) (fun t' s' (r : Except Errno Unit) => r = .ok () →
        ∃ keys, s'.phase = .active keys ∧ History P False s₀ t' s' none ∧ Same t t')
        (driveUntilActiveForWrite P flags blocking fuel s) t₁ := by
      apply driveUntilActiveForWrite_safe hs₀ flags blocking fuel h₁ hset
      · exact fun t' s' keys h' hs' hphase _ => ⟨keys, hphase, h', hs₁.trans hs'⟩
      · exact fun _ _ _ _ _ _ hr => by cases hr
    refine safe_bind (safe_mono ?_ (safe_both
      (driveUntilActiveForWrite_waits hs₀ flags blocking h₁ hs₁ hset) hsafe))
    rintro t₂ s₂ r ⟨herr, hok⟩
    cases r with
    | error e => exact herr e rfl
    | ok _ =>
      obtain ⟨keys, hphase, h₂, hs₂⟩ := hok rfl
      simp only [List.isEmpty_iff, hne, if_false, bind_apply, get_apply, bind_done]
      have hquiet : Safe (waitInv true t) (fun _ _ _ => True)
          (iter (sendRecord P plaintext s₂.policySuite.id flags blocking fuel) fuel 0 s₂) t₂ := by
        refine safe_iter (fun _ _ _ => True) (fun _ _ _ _ => trivial) ?_ fuel trivial
        intro k t' s' _
        refine safe_mono ?_ (sendRecord_quiet plaintext _ flags blocking k)
        intro t₃ s₃ r _
        cases r <;> trivial
      refine safe_bind (waits_of_safe hquiet
        (sendRecords_safe flags blocking fuel fuel h₂ hphase hs₂ ?_ ?_))
      · exact fun t₃ s₃ keys₃ h₃ hphase₃ _ => sendFlush_waits _ flags blocking
      · exact fun t₃ s₃ e k h₃ hf _ =>
          drained_of_empty fun _ => ((h₃.sound hs₀).failed_empty hf).1

end

/-! ### One end -/

def IoCall.sending : IoCall → Bool
  | .send _ _ => true
  | .recv _ _ _ => false

/-- A `send` without any bytes. -/
def IoCall.empty : IoCall → Bool
  | .send [] _ => true
  | _ => false

section
variable {P : Primitives} {s₀ s : FdState} {t : Tr} {log : List (FdCall × FdRet)}

theorem IoCall.run_waits {i : IoCall} (hi : i.empty = false) (hs₀ : s₀.Sound)
    (h : AtRest P False s₀ log t s) (hdrained : Drained t s) :
    Safe (waitInv i.sending t) (fun t' s' _ => Drained t' s') (i.call.run P s) t := by
  cases i with
  | send plaintext fuel =>
    have hne : plaintext ≠ [] := by
      rintro rfl
      cases hi
    exact safe_bind (overlaySend_waits hs₀ hne 0 h.history h.settled)
  | recv len hlen fuel => exact safe_bind (overlayRecv_waits hs₀ hlen 0 h.history hdrained)

end

/-- The calls that the application has made at an end. -/
def Endpoint.calls (e : Endpoint) : List IoCall :=
  e.log.map Prod.fst ++
    match e.status with
    | .idle _ => []
    | .busy i _ => [i]

/-- The end waits for bytes of its peer. -/
def Endpoint.waits (e : Endpoint) : Bool :=
  match e.status with
  | .busy _ (.call _ (.recv _) _) => true
  | _ => false

theorem Endpoint.waits_iff {e : Endpoint} : e.waits = true ↔
    ∃ i s flags k, e.status = .busy i (.call s (.recv flags) k) := by
  constructor
  · intro h
    unfold Endpoint.waits at h
    split at h
    · rename_i i s flags k hs
      exact ⟨i, s, flags, k, hs⟩
    · cases h
  · rintro ⟨i, s, flags, k, hs⟩
    rw [Endpoint.waits, hs]

/-- What holds of an end where it waits. -/
structure Endpoint.Idling (P : Primitives) (s₀ : FdState) (e : Endpoint) (i : IoCall)
    (s : FdState) : Prop where
  history : History P False s₀ e.trace s none
  sound : s.Sound
  live : s.phase ≠ .failed
  pop : tryPopFrame s.rxWire = .ok none
  rxPlain : s.rxPlain = []
  txBacklog : s.txBacklog = []
  handshaking : i.sending = true → s.phase.handshaking = true
  accepted : sealedPlain e.trace = acceptedPlain (e.log.map (Prod.map IoCall.call id))
  returned : deliveredBytes e.trace = returnedPlain (e.log.map (Prod.map IoCall.call id))

section
variable {P : Primitives} {env : Role → Env} {st : Role → FdState} {c : Connection}

theorem Connection.Ok.idling (h : c.Ok P env st) {ρ : Role} (hb : (env ρ).Begins (st ρ))
    (hcalls : ∀ i ∈ (c.ends ρ).calls, i.empty = false) (hflow : Flowing (c.ends ρ).trace)
    {i : IoCall} {s : FdState} {flags : Flags} {k : RecvResult → Prog Resp FdState FdRet}
    (hs : (c.ends ρ).status = .busy i (.call s (.recv flags) k)) :
    (c.ends ρ).Idling P (st ρ) i s := by
  have hlog : ∀ e ∈ (c.ends ρ).log, e.1.empty = false := fun e he =>
    hcalls e.1 (List.mem_append_left _ (List.mem_map_of_mem he))
  have hi : i.empty = false := hcalls i (by simp [Endpoint.calls, hs])
  have hset : (st ρ).Settled := fun _ => by rw [hb.rxWire]; rfl
  have hrun := h.run ρ
  have hheld := h.held hb
  rw [hs] at hrun hheld
  obtain ⟨hlive, hpop, hplain, hh⟩ := hheld.1
  obtain ⟨t₁, s₁, u, ht, hidle, hat⟩ := hrun.inside
  have hrest : Held (ioInv P False (st ρ)) (fun l t s =>
      AtRest P False (st ρ) (l.map (Prod.map IoCall.call id)) t s ∧ Drained t s)
      (c.ends ρ).log t₁ (.idle s₁) := by
    refine reach_held_of (C := fun i => i.empty = false)
      ⟨atRest_start hset, fun _ => .inl hb.handshaking⟩ ?_ hidle hlog fun _ _ hb => by cases hb
    rintro j l t s' hj ⟨hat', hdr⟩
    have hsafe := FdCall.run_safe hb.sound j.call (fun hout => (j.inside hout).elim) hat'
    refine safe_mono ?_ (safe_both hsafe (IoCall.run_waits hj hb.sound hat' hdr))
    rintro t' s'' a ⟨hat'', hdr'⟩
    rw [List.map_append]
    exact ⟨hat'', hdr'⟩
  obtain ⟨htx, hsame, hhs⟩ := (safe_at (IoCall.run_waits hi hb.sound hrest.1 hrest.2) hat).1
  rw [← ht] at htx hsame
  refine ⟨hh, hh.sound hb.sound, hlive, hpop, hplain, htx hflow, hhs, ?_, ?_⟩
  · rw [hsame.sealed]
    apply hrest.1.accepted
    intro hfailed
    rcases hrest.1.history.failed_iff.mp hfailed with hf | hne
    · exact FdPhase.ne_failed_of_handshaking hb.handshaking hf
    · refine hlive (hh.failed_iff.mpr (.inr ?_))
      rw [ht, closings_append]
      exact List.append_ne_nil_of_left_ne_nil hne _
  · rw [hsame.delivered]
    exact hrest.1.returned

end

/-! ### Both ends -/

section
variable {P : Primitives} {a b s s' : FdState} {t t' : Tr} {pd' : Option Bytes}

theorem FdState.Sound.no_frame (hs : s.Sound) (hpop : tryPopFrame s.rxWire = .ok none)
    (g : ParsedFrame) (rest : Bytes) : s.rxWire ≠ g.bytes ++ rest := by
  intro hwire
  have hle := hs.rxWire_le
  rw [hwire, List.length_append, g.bytes_length] at hle
  have hfits : g.payload.length + 2 ≤ maxFrameBody := by
    have hmax : maxFrameBody + 4 = maxWireRxBuffer := rfl
    omega
  rw [hwire, tryPopFrame_bytes hfits] at hpop
  cases hpop

/-- A receiver that was given everything and waits: there was nothing, or it is active and has
returned all of it. -/
theorem Hears.caught_up (h : Hears P a b t t' s' pd') (hs' : s'.Sound)
    (hpop : tryPopFrame s'.rxWire = .ok none) (hplain : s'.rxPlain = [])
    (hall : receivedBytes t' = made a t) :
    made a t = [] ∨ ∃ keys, s'.phase = .active keys ∧ deliveredBytes t' = sealedPlain t := by
  cases h with
  | nothing hmade => exact .inl hmade
  | @stream g _ hmade hf =>
    cases hf.position with
    | waiting _ hwire =>
      rw [hall, hmade] at hwire
      exact absurd hwire.symm (hs'.no_frame hpop _ _)
    | @reading keys f old new d hphase hfs hrs hwire hdel _ =>
      obtain ⟨rfl, -⟩ := List.cons.inj hfs
      rw [hall, hmade, hrs, dataFrames_append, List.append_assoc,
        List.append_cancel_left_eq, List.append_cancel_left_eq] at hwire
      cases new with
      | nil =>
        rw [hplain, List.append_nil] at hdel
        rw [List.append_nil] at hrs
        exact .inr ⟨keys, hphase, by rw [hdel, sealedPlain, hrs]⟩
      | cons r new =>
        exact absurd hwire.symm (hs'.no_frame hpop (dataFrame b.policySuite r) _)

/-- A responder that is active has made its answer. -/
theorem History.made_ne_nil (h : History P False a t s none)
    (ha : a.phase = .responderAwaitingClientHello) {keys : SessionKeys}
    (hs : s.phase = .active keys) : made a t ≠ [] := by
  cases h.beginning with
  | none hnone =>
    exact absurd hs ((h.inactive_records (by simp [ha]) hnone).2 keys)
  | @once keys origin hone hact =>
    obtain ⟨act⟩ := hact
    have hfr := act.activation.reply_frame
    rw [if_pos ((act.history.handshaking_untouched act.activation.handshaking).1.trans ha)] at hfr
    have hreply : origin.reply ≠ [] := by
      generalize origin.reply = reply at hfr
      cases hfr <;> simp [frameBytes]
    intro hmade
    rw [made, List.append_eq_nil_iff, List.append_eq_nil_iff, replies, hone] at hmade
    exact hreply (by simpa using hmade.1.2)

end

theorem Env.Builds.responder {P : Primitives} {env : Env} {st : FdState}
    (h : env.Builds P .responder st) (hb : env.Begins st) :
    st.phase = .responderAwaitingClientHello := by
  obtain ⟨suite, c, -, hat⟩ := h
  cases (newResponderState_opening (P := P) hat).2 with
  | failed hp => exact absurd hp (FdPhase.ne_failed_of_handshaking hb.handshaking)
  | responder hp => exact hp

/-- Both ends wait for bytes, and none are on the way. -/
structure Connection.Standstill (c : Connection) : Prop where
  waits : ∀ ρ, (c.ends ρ).waits = true
  wire : ∀ ρ, c.wire ρ = []

/-- The end `ρ` makes the call `i` and gets `n` answers. -/
def Connection.pend (P : Primitives) (env : Role → Env) (eph : Ephemeral) (nonce : ByteArr 16)
    (n : ℕ) (ρ : Role) (i : IoCall) (c : Connection) : Connection :=
  match (c.ends ρ).status with
  | .idle s =>
    let r := Resumption.runWith ((env ρ).answer eph nonce) n (i.call.run P s)
      (c.wire ρ, c.wire ρ.peer)
    c.after ρ { c.ends ρ with trace := (c.ends ρ).trace ++ r.2.1, status := .busy i r.1 } r.2.2
  | .busy _ _ => c

theorem Connection.Reachable.pend {P : Primitives} {env : Role → Env} {c₀ c : Connection}
    (h : Connection.Reachable P env c₀ c) (eph : Ephemeral) (nonce : ByteArr 16) (n : ℕ) (ρ : Role)
    (i : IoCall) : Connection.Reachable P env c₀ (c.pend P env eph nonce n ρ i) := by
  unfold Connection.pend
  split
  · rename_i s hs
    have hbusy := (h.step (.enter ρ hs i)).runWith eph nonce ρ n (i := i) (p := i.call.run P s)
      (by simp [Connection.put])
    have hwire : (c.put ρ { c.ends ρ with status := .busy i (i.call.run P s) }).wire = c.wire := rfl
    simp only [hwire] at hbusy
    simpa [Connection.after, Connection.put] using hbusy
  · exact h

/-- Both ends wait in `recv`, with three answers to what the call asks before. -/
def degradedWait (c : Connection) : Connection :=
  let pend := Connection.pend specimen (fun _ => degraded) ⟨ramp 32, []⟩ (ramp 16) 3
  pend .initiator (.recv 2 Nat.two_pos 5) (pend .responder (.recv 2 Nat.two_pos 5) c)

theorem degradedWait_reachable {c₀ c : Connection}
    (h : Connection.Reachable specimen (fun _ => degraded) c₀ c) :
    Connection.Reachable specimen (fun _ => degraded) c₀ (degradedWait c) :=
  (h.pend _ _ _ _ _).pend _ _ _ _ _

/-- Each end has sent two bytes to the other one. -/
def degradedTalk : Connection :=
  degradedWait <|
  degradedPlay .responder (.recv 2 Nat.two_pos 5) <|
  degradedPlay .initiator (.send (ascii "ho") 5) <|
  degradedPlay .initiator (.recv 2 Nat.two_pos 5) <|
  degradedPlay .responder (.send (ascii "hi") 5) <|
  degradedPlay .initiator (.send (ascii "ho") 5) (.start degradedStart)

/-- The responder answers the hello in a `send` without any bytes. -/
def degradedEmpty : Connection :=
  degradedWait <|
  degradedPlay .responder (.send [] 5) <|
  degradedPlay .initiator (.send (ascii "ho") 5) (.start degradedStart)

/-- Its answer stays in the backlog, and both ends wait. -/
theorem degradedEmpty_standstill :
    Connection.Reachable specimen (fun _ => degraded) (.start degradedStart) degradedEmpty ∧
    (∀ ρ, Flowing (degradedEmpty.ends ρ).trace) ∧ degradedEmpty.Standstill ∧
    (degradedEmpty.ends .initiator).observed.map (fun s => s.phase.handshaking) = some true ∧
    (degradedEmpty.ends .responder).observed.map (fun s => s.txBacklog.isEmpty) = some false := by
  refine ⟨?_, fun ρ => ?_, ⟨fun ρ => ?_, fun ρ => ?_⟩, by decide +kernel, by decide +kernel⟩
  · unfold degradedEmpty
    exact degradedWait_reachable ((Connection.Reachable.start.degradedPlay _ _).degradedPlay _ _)
  · cases ρ <;> decide +kernel
  · cases ρ <;> decide +kernel
  · cases ρ <;> decide +kernel

end SyntriassOverlay
