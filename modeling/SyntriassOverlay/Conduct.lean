import SyntriassOverlay.Rules

/-!
# How one call conducts itself

`overlay_send` and `overlay_recv` from lock to return, seen from the trace of the one
call: which real calls they make in which phase, where they stop after a real call that
would block, how long their loops go on, and what they return for a session that is
closed.
-/

namespace SyntriassOverlay
open Crypto Resumption

/-! ### Receive path -/

/-- What `overlay_recv`, entered in `s₁`, keeps to at each call it makes: it hands on
its flags; it sends in a handshake only, and then before it reads; it reads only when what
it has is used up, and no more after a read that would block; and its loops are bounded
by what the kernel moves and the buffer holds. -/
def recvInv (P : Primitives) (s₁ : FdState) (flags : Flags) (fuel : ℕ) :
    Obligation Resp FdState where
  call t _ o :=
    match o with
    | .send _ fl => fl = flags ∧ s₁.phase.handshaking = true
    | .recv fl => fl = flags ∧ s₁.phase ≠ .failed ∧ (Polling t → ∀ e, ¬ Dry t e) ∧
        (s₁.phase.handshaking = true → s₁.txBacklog ≠ [] → Offered s₁.txBacklog t) ∧
        ∀ keys, s₁.phase = .active keys →
          s₁.rxPlain = [] ∧ UsedUp P s₁.policySuite keys s₁.rxWire
    | .note (.failClosed site) => site.io = false
    | _ => True
  cut t _ := (s₁.phase = .failed → fuel = 0) ∧
    (Polling t → fuel ≤ progress t + maxWireRxBuffer + 2)

structure RecvConduct (s₁ : FdState) (len : ℕ) (t : Tr) (s : FdState) (r : Except Errno Bytes) :
    Prop where
  failed : s₁.phase = .failed → s.phase = .failed
  refused : s.phase = .failed → r = .error EPIPE
  dry : Polling t → ∀ e, Dry t e → r = .error e
  left : s.phase ≠ .failed → s.rxPlain ≠ [] → ∃ b, r = .ok b ∧ len ≤ b.length

/-- Between two rounds of the loop of `overlay_recv`, with `n` rounds left. -/
structure RecvRound (P : Primitives) (s₁ : FdState) (fuel : ℕ) (blocking : Bool) (n : ℕ) (t : Tr)
    (s : FdState) : Prop where
  polling : Polling t → blocking = false
  settled : s₁.phase.handshaking = false → s.phase.handshaking = false
  failed : s₁.phase = .failed → s.phase = .failed ∧ n = fuel
  dry : Polling t → ∀ e, ¬ Dry t e
  offered : s₁.phase.handshaking = true → s₁.txBacklog ≠ [] →
    Offered s₁.txBacklog t ∨ s.phase.handshaking = true ∧ s.txBacklog = s₁.txBacklog
  usedUp : ∀ keys, s₁.phase = .active keys → s.rxPlain = [] →
    s = s₁ ∨ s₁.rxPlain = [] ∧ UsedUp P s₁.policySuite keys s₁.rxWire
  rxWire : s.rxWire.length ≤ maxWireRxBuffer
  closed : s.phase = .failed → s.rxPlain = []
  rounds : Polling t → fuel ≤ n + progress t + if s.rxPlain = [] then 0 else 1

section
variable {s₁ s : FdState} {fuel n len : ℕ} {blocking : Bool} {t : Tr} {P : Primitives}

theorem recvInv_lenient {flags : Flags} : Lenient (recvInv P s₁ flags fuel) := by
  intro t s o ho hsite
  cases o with
  | send | recv => cases ho
  | note x =>
    cases x with
    | failClosed site => exact hsite site rfl
    | _ => trivial
  | _ => trivial

theorem not_dry_snoc {o : Op} {r : Resp o} (h : Polling t → ∀ e, ¬ Dry t e)
    (ho : ∀ flags e, (⟨.recv flags, .error e⟩ : Ev Resp) ≠ ⟨o, r⟩) :
    Polling (t ++ [⟨o, r⟩]) → ∀ e, ¬ Dry (t ++ [⟨o, r⟩]) e := by
  rintro hp e ⟨hw, flags, hmem⟩
  rcases List.mem_append.mp hmem with hmem | hmem
  · exact h hp.left e ⟨hw, flags, hmem⟩
  · exact ho flags e (List.mem_singleton.mp hmem)

theorem dry_snoc {flags : Flags} {e e' : Errno} (h : Polling t → ∀ e, ¬ Dry t e)
    (hp : Polling (t ++ [⟨.recv flags, .error e⟩]))
    (hd : Dry (t ++ [⟨.recv flags, .error e⟩]) e') : e' = e := by
  obtain ⟨hw, fl, hmem⟩ := hd
  rcases List.mem_append.mp hmem with hmem | hmem
  · exact absurd ⟨hw, fl, hmem⟩ (h hp.left e')
  · cases List.mem_singleton.mp hmem
    rfl

theorem not_dry_hard {flags : Flags} {e : Errno} (h : Polling t → ∀ e, ¬ Dry t e)
    (hw : wouldBlock e = false) : Polling (t ++ [⟨.recv flags, .error e⟩]) →
      ∀ e', ¬ Dry (t ++ [⟨.recv flags, .error e⟩]) e' := by
  intro hp e' hd
  have hblock := hd.1
  rw [dry_snoc h hp hd, hw] at hblock
  cases hblock

theorem not_polling_blocking (h : Polling t → true = false) (u : Tr) : ¬ Polling (t ++ u) := by
  intro hp
  cases h hp.left

theorem Polling.of_le {t' : Tr} (hle : t <+: t') (h : Polling t') : Polling t := by
  obtain ⟨u, rfl⟩ := hle
  exact h.left

/-- What has to hold where `overlay_recv` turns to the buffer of records. -/
structure RecvTurn (P : Primitives) (s₁ : FdState) (fuel : ℕ) (blocking : Bool) (n : ℕ) (t : Tr)
    (s : FdState) : Prop extends RecvRound P s₁ fuel blocking (n + 1) t s where
  plain : s.rxPlain = []
  tried : s₁.phase.handshaking = true → s₁.txBacklog ≠ [] → Offered s₁.txBacklog t

/-- A round of `overlay_recv` leads to the next one or to a return. -/
def RecvStep (P : Primitives) (s₁ : FdState) (fuel len : ℕ) (blocking : Bool) (n : ℕ) (t : Tr)
    (s : FdState) (r : Unit ⊕ Except Errno Bytes) : Prop :=
  r.elim (fun _ => RecvRound P s₁ fuel blocking n t s) (fun a => RecvConduct s₁ len t s a)

theorem RecvRound.leave (h : RecvRound P s₁ fuel blocking n t s) {u : Tr} (hu : Still u)
    {s' : FdState} {r : Except Errno Bytes} (hf : s₁.phase = .failed → s'.phase = .failed)
    (hr : s'.phase = .failed → r = .error EPIPE)
    (hleft : s'.phase ≠ .failed → s'.rxPlain ≠ [] → ∃ b, r = .ok b ∧ len ≤ b.length) :
    RecvConduct s₁ len (t ++ u) s' r :=
  ⟨hf, hr, fun hp e hd => absurd (hd.still hu) (h.dry hp.left e), hleft⟩

theorem RecvRound.started (h : RecvRound P s₁ fuel blocking n t s)
    (hhs : s.phase.handshaking = true) : s₁.phase.handshaking = true := by
  by_contra hno
  rw [h.settled (by simpa using hno)] at hhs
  cases hhs

theorem RecvTurn.read (h : RecvTurn P s₁ fuel blocking n t s) (hlive : s.phase ≠ .failed)
    (hused : ∀ keys, s₁.phase = .active keys →
      s₁.rxPlain = [] ∧ UsedUp P s₁.policySuite keys s₁.rxWire) (flags : Flags) {d : Bytes}
    (hd : 0 < d.length ∧ d.length ≤ pullSize) (hroom : (s.rxWire ++ d).length ≤ maxWireRxBuffer) :
    RecvRound P s₁ fuel blocking n (t ++ [⟨.recv flags, .data d hd⟩])
      { s with rxWire := s.rxWire ++ d } := by
  refine ⟨fun hp => h.polling hp.left, h.settled, fun hf => absurd (h.failed hf).1 hlive,
    not_dry_snoc h.dry (by simp), fun hh htx => .inl ((h.tried hh htx).mono _),
    fun keys hk _ => .inr (hused keys hk), hroom, fun hf => absurd hf hlive, fun hp => ?_⟩
  have hone : progress [(⟨.recv flags, .data d hd⟩ : Ev Resp)] = 1 := rfl
  have hrounds := h.rounds hp.left
  rw [if_pos h.plain] at hrounds ⊢
  rw [progress_append, hone]
  omega

theorem RecvTurn.waits (h : RecvTurn P s₁ fuel true n t s) (hlive : s.phase ≠ .failed)
    (hused : ∀ keys, s₁.phase = .active keys →
      s₁.rxPlain = [] ∧ UsedUp P s₁.policySuite keys s₁.rxWire) (u : Tr) :
    RecvRound P s₁ fuel true n (t ++ u) s := by
  have hnot := not_polling_blocking h.polling u
  exact ⟨fun hp => absurd hp hnot, h.settled, fun hf => absurd (h.failed hf).1 hlive,
    fun hp => absurd hp hnot, fun hh htx => .inl ((h.tried hh htx).mono _),
    fun keys hk _ => .inr (hused keys hk), h.rxWire, h.closed, fun hp => absurd hp hnot⟩

theorem pullForRecv_rule (h : RecvTurn P s₁ fuel blocking n t s) (hlive : s.phase ≠ .failed)
    (hused : ∀ keys, s₁.phase = .active keys →
      s₁.rxPlain = [] ∧ UsedUp P s₁.policySuite keys s₁.rxWire) (flags : Flags) :
    Safe (recvInv P s₁ flags fuel) (RecvStep P s₁ fuel len blocking n)
      (pullForRecv flags blocking s) t := by
  have hlive₁ : s₁.phase ≠ .failed := fun hf => hlive (h.failed hf).1
  have hstay : ∀ r, (Polling (t ++ [⟨.recv flags, r⟩]) → ∀ e, ¬ Dry (t ++ [⟨.recv flags, r⟩]) e) →
      ∀ a : Except Errno Bytes, RecvConduct s₁ len (t ++ [⟨.recv flags, r⟩]) s a :=
    fun r hr a => ⟨fun hf => absurd hf hlive₁, fun hf => absurd hf hlive,
      fun hp e hd => absurd hd (hr hp e), fun _ hne => absurd h.plain hne⟩
  rw [pullForRecv, bind_apply]
  refine safe_bind (pullWire_rule flags ⟨rfl, hlive₁, h.dry, h.tried, hused⟩ ?_ ?_ ?_ ?_)
  · exact fun d hd hroom => h.read hlive hused flags hd hroom
  · exact hstay .eof (not_dry_snoc h.dry (by simp)) (.ok [])
  · intro e
    dsimp only
    cases hw : wouldBlock e with
    | true =>
      cases blocking with
      | false =>
        refine ⟨fun hf => absurd hf hlive₁, fun hf => absurd hf hlive, fun hp e' hd => ?_,
          fun _ hne => absurd h.plain hne⟩
        rw [dry_snoc h.dry hp hd]
      | true => exact h.waits hlive hused _
    | false => exact hstay (.error e) (not_dry_hard h.dry hw) (.error e)
  · intro d hd
    refine failWith_rule recvInv_lenient (fun v => rfl) ?_
    refine ⟨fun _ => rfl, fun _ => rfl, fun hp e hdry => ?_, fun hne => absurd rfl hne⟩
    have hdata := not_dry_snoc (o := .recv flags) (r := .data d hd) h.dry (by simp)
    exact absurd (hdry.still (still_failSeg _ _)) (hdata hp.left e)

theorem RecvTurn.opened (h : RecvTurn P s₁ fuel blocking n t s) (hlive₁ : s₁.phase ≠ .failed)
    {u : Tr} {s' : FdState} {keys : SessionKeys} (hu : Still u) (hphase : s'.phase = .active keys)
    (hle : s'.rxWire.length ≤ s.rxWire.length)
    (hused : s'.rxPlain = [] → ∀ keys, s₁.phase = .active keys →
      s₁.rxPlain = [] ∧ UsedUp P s₁.policySuite keys s₁.rxWire)
    {m : ℕ} (hm : s'.rxPlain = [] → m = n + 1) (hnm : n ≤ m) :
    RecvRound P s₁ fuel blocking m (t ++ u) s' := by
  refine ⟨fun hp => h.polling hp.left, fun _ => by rw [hphase]; rfl,
    fun hf => absurd hf hlive₁, fun hp e hd => h.dry hp.left e (hd.still hu),
    fun hh htx => .inl ((h.tried hh htx).mono _), fun keys hk hp => .inr (hused hp keys hk),
    hle.trans h.rxWire, fun hf => (by rw [hphase] at hf; cases hf), fun hp => ?_⟩
  have hrounds := h.rounds hp.left
  rw [if_pos h.plain] at hrounds
  rw [progress_append]
  split
  · rename_i hnil
    have hmax := hm hnil
    omega
  · omega

theorem openOrPull_rule (h : RecvTurn P s₁ fuel blocking n t s) (flags : Flags) :
    Safe (recvInv P s₁ flags fuel) (RecvStep P s₁ fuel len blocking n)
      (openOrPull P flags blocking fuel s) t := by
  simp only [openOrPull, bind_apply, get_apply, bind_done]
  cases hph : s.phase with
  | failed =>
    have hfailed : s₁.phase = .failed → s.phase = .failed := fun hf => (h.failed hf).1
    have hleave : RecvConduct s₁ len (t ++ []) s (.error EPIPE) :=
      h.leave still_nil hfailed (fun _ => rfl) fun hne => absurd hph hne
    rwa [List.append_nil] at hleave
  | active keys =>
    have hlive₁ : s₁.phase ≠ .failed := by
      intro hf
      have hfailed := (h.failed hf).1
      rw [hph] at hfailed
      cases hfailed
    simp only [bind_apply]
    refine safe_bind (openRecords_rule recvInv_lenient fuel hph ?_ ?_ ?_)
    · intro hle u s' _
      have hmax := h.rxWire
      exact ⟨fun hf => absurd hf hlive₁, fun _ => by omega⟩
    · intro u s' keys' hu hph' hle hused
      have hused₁ : s'.rxPlain = [] → ∀ keys₁, s₁.phase = .active keys₁ →
          s₁.rxPlain = [] ∧ UsedUp P s₁.policySuite keys₁ s₁.rxWire := by
        intro hp keys₁ hk
        rcases h.usedUp keys₁ hk h.plain with rfl | hdone
        · cases hph.symm.trans hk
          exact ⟨h.plain, hused hp⟩
        · exact hdone
      simp only [bind_apply, get_apply, bind_done]
      by_cases hp : s'.rxPlain = []
      · simp only [hp, List.isEmpty_nil, Bool.not_true, Bool.false_eq_true, if_false]
        have hround := h.opened hlive₁ hu hph' hle hused₁ (fun _ => rfl) (Nat.le_succ n)
        refine pullForRecv_rule ⟨hround, hp, fun hh htx => (h.tried hh htx).mono _⟩ ?_
          (hused₁ hp) flags
        simp [hph']
      · have hb : (!s'.rxPlain.isEmpty) = true := by simpa using hp
        rw [if_pos hb]
        exact h.opened hlive₁ hu hph' hle hused₁ (fun hnil => absurd hnil hp) (Nat.le_refl n)
    · intro u s' hu hf
      exact h.leave hu (fun _ => hf) (fun _ => rfl) fun hne => absurd hf hne
  | responderAwaitingClientHello | initiatorAwaitingServerHello _
  | initiatorAwaitingFallbackFinished _ =>
    refine pullForRecv_rule h (by simp [hph]) (fun keys hk => ?_) flags
    have hno := h.settled (by rw [hk]; rfl)
    rw [hph] at hno
    cases hno

/-- A round in a handshake, once the backlog was tried and whatever the handshake left. -/
theorem RecvRound.turn (h : RecvRound P s₁ fuel blocking (n + 1) t s)
    (hhs₁ : s₁.phase.handshaking = true) (hplain : s.rxPlain = []) {t' : Tr} {s' : FdState}
    (hle : t <+: t') (hdry : ∀ e, Dry t' e → Dry t e)
    (hoff : s₁.txBacklog ≠ [] → Offered s₁.txBacklog t')
    (hwire : s'.rxWire.length ≤ maxWireRxBuffer) (hplain' : s'.rxPlain = []) :
    RecvTurn P s₁ fuel blocking n t' s' := by
  refine ⟨⟨fun hp => h.polling (hp.of_le hle), fun hno => ?_,
    fun hf => absurd hf (FdPhase.ne_failed_of_handshaking hhs₁),
    fun hp e hd => h.dry (hp.of_le hle) e (hdry e hd), fun _ htx => .inl (hoff htx),
    fun keys hk => (by rw [hk] at hhs₁; cases hhs₁), hwire, fun _ => hplain', fun hp => ?_⟩,
    hplain', fun _ => hoff⟩
  · rw [hhs₁] at hno
    cases hno
  · have hrounds := h.rounds (hp.of_le hle)
    have hprog := progress_le hle
    rw [if_pos hplain] at hrounds
    rw [if_pos hplain']
    omega

theorem flushOpenOrPull_rule (hhs₁ : s₁.phase.handshaking = true) (flags : Flags)
    (hturn : ∀ t' s', Flushed s s' t t' → RecvTurn P s₁ fuel blocking n t' s') :
    Safe (recvInv P s₁ flags fuel) (RecvStep P s₁ fuel len blocking n)
      ((do
        let _ ← flushBacklog flags fuel
        openOrPull P flags blocking fuel : FdAct (Unit ⊕ Except Errno Bytes)) s) t := by
  rw [bind_apply]
  refine safe_bind (flushBacklog_rule flags fuel (fun _ _ _ _ => ⟨rfl, hhs₁⟩) ?_ ?_ ?_)
  · intro t' s' _ hprog _
    exact ⟨fun hf => absurd hf (FdPhase.ne_failed_of_handshaking hhs₁), fun _ => by omega⟩
  · exact fun t' s' b hf _ _ => openOrPull_rule (hturn t' s' hf) flags
  · exact fun t' s' hf _ _ => openOrPull_rule (hturn t' s' hf) flags

theorem recvHandshake_rule (h : RecvRound P s₁ fuel blocking (n + 1) t s)
    (hhs₁ : s₁.phase.handshaking = true) (hplain : s.rxPlain = []) (flags : Flags) {t' : Tr}
    {s' : FdState} (hf : Flushed s s' t t')
    (hoff : s₁.txBacklog ≠ [] → Offered s₁.txBacklog t') :
    Safe (recvInv P s₁ flags fuel) (RecvStep P s₁ fuel len blocking n)
      ((do
        driveHandshake P fuel
        let _ ← flushBacklog flags fuel
        openOrPull P flags blocking fuel : FdAct (Unit ⊕ Except Errno Bytes)) s') t' := by
  have hflush : ∀ u s₂, Still u → s₂.rxWire.length ≤ maxWireRxBuffer → s₂.rxPlain = [] →
      Safe (recvInv P s₁ flags fuel) (RecvStep P s₁ fuel len blocking n)
        ((do
          let _ ← flushBacklog flags fuel
          openOrPull P flags blocking fuel : FdAct (Unit ⊕ Except Errno Bytes)) s₂) (t' ++ u) := by
    intro u s₂ hu hwire hplain₂
    refine flushOpenOrPull_rule hhs₁ flags fun t₃ s₃ hf₃ => ?_
    have hle : t' ++ u <+: t₃ := hf₃.mono
    refine h.turn hhs₁ hplain ((hf.mono.trans (List.prefix_append _ _)).trans hle)
      (fun e hd => hf.dry ((hf₃.dry hd).still hu)) (fun htx => ?_) (hf₃.rxWire ▸ hwire)
      (hf₃.rxPlain.trans hplain₂)
    obtain ⟨v, rfl⟩ := hle
    exact ((hoff htx).mono _).mono _
  have hwire' : s'.rxWire.length ≤ maxWireRxBuffer := hf.rxWire ▸ h.rxWire
  have hplain' : s'.rxPlain = [] := hf.rxPlain.trans hplain
  rw [bind_apply]
  refine safe_bind (driveHandshake_rule recvInv_lenient fuel ?_ ?_ ?_)
  · rintro rfl
    exact ⟨fun _ => rfl, fun _ => Nat.zero_le _⟩
  · intro _
    have hgo := hflush [] s' still_nil hwire' hplain'
    rwa [List.append_nil] at hgo
  · intro u s₂ hend _
    refine hflush u s₂ hend.still (hend.rxWire.trans hwire') ?_
    rcases hend.rxPlain with hpl | hpl
    · exact hpl.trans hplain'
    · exact hpl

theorem recvRound_rule (h : RecvRound P s₁ fuel blocking (n + 1) t s) (len : ℕ) (flags : Flags) :
    Safe (recvInv P s₁ flags fuel) (RecvStep P s₁ fuel len blocking n)
      (recvRound P len flags blocking fuel s) t := by
  simp only [recvRound, bind_apply, get_apply, bind_done]
  by_cases hplain : s.rxPlain = []
  · simp only [hplain, List.isEmpty_nil, Bool.not_true, Bool.false_eq_true, if_false]
    by_cases hhs : s.phase.handshaking = true
    · have hhs₁ := h.started hhs
      have htried : ∀ t' s', Flushed s s' t t' →
          (s.txBacklog ≠ [] → Offered s.txBacklog t') → s₁.txBacklog ≠ [] →
          Offered s₁.txBacklog t' := by
        intro t' s' hf hoff htx
        rcases h.offered hhs₁ htx with ho | ⟨-, ho⟩
        · obtain ⟨v, rfl⟩ := hf.mono
          exact ho.mono v
        · exact ho ▸ hoff (ho ▸ htx)
      rw [if_pos hhs, bind_apply]
      refine safe_bind (flushBacklog_rule flags fuel (fun _ _ _ _ => ⟨rfl, hhs₁⟩) ?_ ?_ ?_)
      · intro t' s' _ hprog _
        exact ⟨fun hf => absurd hf (FdPhase.ne_failed_of_handshaking hhs₁), fun _ => by omega⟩
      · exact fun t' s' b hf hoff _ =>
          recvHandshake_rule h hhs₁ hplain flags hf (htried t' s' hf hoff)
      · exact fun t' s' hf ho _ =>
          recvHandshake_rule h hhs₁ hplain flags hf (htried t' s' hf fun _ => ho)
    · rw [if_neg hhs]
      refine openOrPull_rule ⟨h, hplain, fun hh htx => ?_⟩ flags
      rcases h.offered hh htx with ho | ⟨ho, -⟩
      · exact ho
      · exact absurd ho hhs
  · have hb : (!s.rxPlain.isEmpty) = true := by simpa using hplain
    rw [if_pos hb, bind_apply]
    refine safe_bind ?_
    simp only [copyPlaintextToApp, bind_apply, get_apply, bind_done, set_apply]
    refine note_bind_rule trivial ?_
    refine h.leave (still_one rfl) (fun hf => (h.failed hf).1)
      (fun hf => absurd (h.closed hf) hplain) fun _ hne => ⟨_, rfl, ?_⟩
    rw [List.length_take]
    have hlong : s.rxPlain.length ≠ len ⊓ s.rxPlain.length := by
      intro heq
      exact hne (List.drop_eq_nil_of_le heq.le)
    omega

/-- How `overlay_recv` conducts itself on a session in good order. -/
theorem overlayRecv_conduct (hs₁ : s₁.Sound) (len : ℕ) (flags : Flags) :
    Safe (recvInv P s₁ flags fuel) (fun t s r => RecvConduct s₁ len t s r)
      (overlayRecv P len flags fuel s₁) [] := by
  refine guards_rule recvInv_lenient ?_ ?_
  · intro u s' hu hf
    exact ⟨fun _ => hf, fun _ => rfl, fun _ e hd => absurd hd (hu.not_dry e),
      fun hne => absurd hf hne⟩
  · intro u r hu hr
    have hdry := hu.not_dry
    refine safe_iter_countdown (fun n _ t s => RecvRound P s₁ fuel (blocks r) n t s) ?_ ?_ fuel ?_
    · rintro - t s h
      refine ⟨fun hf => ((h.failed hf).2).symm, fun hp => ?_⟩
      have hrounds := h.rounds hp
      split at hrounds <;> omega
    · exact fun n _ t s h => recvRound_rule h len flags
    · exact ⟨fun hp => hp r hr, id, fun hf => ⟨hf, rfl⟩, fun _ => hdry,
        fun hh _ => .inr ⟨hh, rfl⟩, fun _ _ _ => .inl rfl, hs₁.rxWire_le,
        fun hf => (hs₁.failed_empty hf).2.2, fun _ => by omega⟩

end

/-! ### Send path -/

/-- What the records of `n` bytes of plaintext take in the backlog. -/
def recordsLength (n : ℕ) : ℕ := n + 22 * ((n + (maxRecordPlaintext - 1)) / maxRecordPlaintext)

/-- The backlog can take the plaintext besides what it holds and what the handshake may
add. -/
def HasRoom (s : FdState) (plaintext : Bytes) : Prop :=
  s.txBacklog.length + (if s.phase.handshaking then replyMax else 0) +
    recordsLength plaintext.length ≤ maxWriteBacklog

instance (s : FdState) (plaintext : Bytes) : Decidable (HasRoom s plaintext) :=
  inferInstanceAs (Decidable (_ ≤ _))

/-- Each time a flush came to wait, the backlog could take all of the plaintext besides the
rest, less what the kernel had taken by the time the flush began. -/
def Ample (s : FdState) (plaintext : Bytes) (t : Tr) : Prop :=
  ∀ v v', v' <+: t → Stalls v v' →
    s.txBacklog.length + (if s.phase.handshaking then replyMax else 0) +
      recordsLength plaintext.length ≤ maxWriteBacklog + (sentBytes v).length

theorem HasRoom.ample {s : FdState} {plaintext : Bytes} (h : HasRoom s plaintext) (t : Tr) :
    Ample s plaintext t := fun _ _ _ _ => h.trans (Nat.le_add_right _ _)

/-- Nothing has happened for which `overlay_send` closes a session because of its I/O. -/
structure Eased (s₁ : FdState) (plaintext : Bytes) (t : Tr) : Prop where
  smooth : Smooth t
  room : Ample s₁ plaintext t

theorem Eased.left {s₁ : FdState} {plaintext : Bytes} {t u : Tr} (h : Eased s₁ plaintext (t ++ u)) :
    Eased s₁ plaintext t :=
  ⟨h.smooth.left, fun v v' hle => h.room v v' (hle.trans (List.prefix_append _ _))⟩

theorem recordsLength_step {n k : ℕ} (hk : k < n) :
    recordsLength (n - k) = (min (k + maxRecordPlaintext) n - k + 22) +
      recordsLength (n - min (k + maxRecordPlaintext) n) := by
  simp only [recordsLength, maxRecordPlaintext]
  omega

/-- What `overlay_send`, entered in `s₁`, keeps to at each call it makes: it hands on
its flags; it reads in a handshake only, and no more after a read that would block; it
closes the session for its I/O only after a hard error or for want of room; and its loops
are bounded by what the kernel moves and by the plaintext. -/
def sendInv (s₁ : FdState) (plaintext : Bytes) (flags : Flags) (fuel : ℕ) :
    Obligation Resp FdState where
  call t _ o :=
    match o with
    | .send _ fl => fl = flags ∧ s₁.phase ≠ .failed
    | .recv fl => fl = flags ∧ s₁.phase.handshaking = true ∧ (Polling t → ∀ e, ¬ Dry t e)
    | .note (.failClosed site) => Eased s₁ plaintext t → site.io = false
    | _ => True
  cut t _ := (s₁.phase = .failed → fuel = 0) ∧
    (Polling t → fuel ≤ progress t + plaintext.length + 1)

/-- The errors `overlay_send` returns for a session it has closed. -/
def hardErrors : List Errno := [EPIPE, EIO, EMSGSIZE]

structure SendConduct (s₁ : FdState) (plaintext : Bytes) (t : Tr) (s : FdState)
    (r : Except Errno ℕ) : Prop where
  failed : s₁.phase = .failed → s.phase = .failed
  refused : s.phase = .failed → ∃ e, r = .error e ∧ (Eased s₁ plaintext t → e ∈ hardErrors)
  dry : Polling t → ∀ e, Dry t e → r = .error e
  rough : Smooth t ∨ ∃ site ∈ closings t, site.io = true

/-- Between two rounds of `drive_until_active_for_write`, with `n` rounds left. -/
structure SendRound (s₁ : FdState) (fuel : ℕ) (blocking : Bool) (n : ℕ) (t : Tr) (s : FdState) :
    Prop where
  polling : Polling t → blocking = false
  settled : s₁.phase.handshaking = false → s.phase.handshaking = false
  failed : s₁.phase = .failed → s.phase = .failed ∧ n = fuel
  dry : Polling t → ∀ e, ¬ Dry t e
  rounds : Polling t → fuel ≤ n + progress t
  smooth : Smooth t
  waiting : s.phase.handshaking = true →
    s.txBacklog.length + (sentBytes t).length ≤ s₁.txBacklog.length
  backlog : s.txBacklog.length + (sentBytes t).length ≤
    s₁.txBacklog.length + if s₁.phase.handshaking then replyMax else 0

/-- An active session on which `overlay_send` has no read to wait for, and the plaintext
from `k` on to queue. -/
structure SendReady (s₁ : FdState) (plaintext : Bytes) (k : ℕ) (blocking : Bool) (t : Tr)
    (s : FdState) : Prop where
  polling : Polling t → blocking = false
  live : s₁.phase ≠ .failed
  dry : Polling t → ∀ e, ¬ Dry t e
  smooth : Smooth t
  active : ∃ keys, s.phase = .active keys
  load : s.txBacklog.length + recordsLength (plaintext.length - k) + (sentBytes t).length ≤
    s₁.txBacklog.length + (if s₁.phase.handshaking then replyMax else 0) +
      recordsLength plaintext.length

section
variable {s₁ s : FdState} {fuel n k : ℕ} {blocking : Bool} {t : Tr} {P : Primitives}
  {plaintext : Bytes}

theorem sendInv_lenient {flags : Flags} : Lenient (sendInv s₁ plaintext flags fuel) := by
  intro t s o ho hsite
  cases o with
  | send | recv => cases ho
  | note x =>
    cases x with
    | failClosed site => exact fun _ => hsite site rfl
    | _ => trivial
  | _ => trivial

theorem SendReady.flushed (h : SendReady s₁ plaintext k blocking t s) {t' : Tr} {s' : FdState}
    (hf : Flushed s s' t t') (hsmooth : Smooth t → Smooth t') :
    SendReady s₁ plaintext k blocking t' s' := by
  have hp : Polling t' → Polling t := by
    obtain ⟨u, rfl⟩ := hf.mono
    exact Polling.left
  have hload := h.load
  have hlen := hf.length_eq
  exact ⟨fun hp' => h.polling (hp hp'), h.live, fun hp' e hd => h.dry (hp hp') e (hf.dry hd),
    hsmooth h.smooth, hf.phase ▸ h.active, by omega⟩

theorem SendReady.still (h : SendReady s₁ plaintext k blocking t s) {u : Tr} (hu : Still u)
    (s' : FdState) (hs' : ∃ keys, s'.phase = .active keys) {k' : ℕ}
    (hroom : s'.txBacklog.length + recordsLength (plaintext.length - k') =
      s.txBacklog.length + recordsLength (plaintext.length - k)) :
    SendReady s₁ plaintext k' blocking (t ++ u) s' := by
  have hload := h.load
  refine ⟨fun hp => h.polling hp.left, h.live, fun hp e hd => h.dry hp.left e (hd.still hu),
    h.smooth.append hu.smooth, hs', ?_⟩
  rw [sentBytes_append, hu.sent, List.append_nil]
  omega

/-- What does not fit and is not made to fit by the flush after it was not foreseen. -/
theorem SendReady.overfull (h : SendReady s₁ plaintext k blocking t s) {bytes : Bytes} {k' : ℕ}
    (hbytes : recordsLength (plaintext.length - k) =
      bytes.length + recordsLength (plaintext.length - k'))
    (hfull : maxWriteBacklog - s.txBacklog.length < bytes.length) {t' : Tr}
    (hstalls : Stalls (t ++ [noted .limitExceeded]) t') : ¬ Ample s₁ plaintext t' := by
  intro hample
  have hload := h.load
  have hroom := hample _ t' List.prefix_rfl hstalls
  have hsent : sentBytes (t ++ [noted .limitExceeded]) = sentBytes t := by
    rw [sentBytes_append]
    exact List.append_nil _
  rw [hsent] at hroom
  omega

theorem SendReady.leave (h : SendReady s₁ plaintext k blocking t s) {r : Except Errno ℕ} :
    SendConduct s₁ plaintext t s r := by
  obtain ⟨keys, hk⟩ := h.active
  refine ⟨fun hf => absurd hf h.live, fun hf => ?_, fun hp e hd => absurd hd (h.dry hp e),
    .inl h.smooth⟩
  rw [hk] at hf
  cases hf

theorem SendConduct.closed {site : FailSite} (hdry : Polling t → ∀ e, ¬ Dry t e)
    (hrough : Smooth t ∨ site.io = true) {e : Errno}
    (he : Eased s₁ plaintext (t ++ failSeg s site) → e ∈ hardErrors) :
    SendConduct s₁ plaintext (t ++ failSeg s site) s.closed (.error e) := by
  have hstill := still_failSeg s site
  refine ⟨fun _ => rfl, fun _ => ⟨e, rfl, he⟩,
    fun hp e' hd => absurd (hd.still hstill) (hdry hp.left e'), ?_⟩
  exact hrough.imp (fun h => h.append hstill.smooth) fun h => ⟨site, by simp, h⟩

/-- How a part of the send path ends: `ready` to go on, or with an error to return. -/
def SendEnds (s₁ : FdState) (plaintext : Bytes) (ready : Tr → FdState → Prop) (t : Tr)
    (s : FdState) : Except Errno Unit → Prop
  | .ok _ => ready t s
  | .error e => SendConduct s₁ plaintext t s (.error e)

theorem closeWith_rule {β : Type} {b : β} {site : FailSite} {e : Errno} {flags : Flags}
    {Q : Tr → FdState → β → Prop} (hdry : Polling t → ∀ e, ¬ Dry t e)
    (hrough : Smooth t ∨ site.io = true)
    (hwhy : ∀ u, Eased s₁ plaintext (t ++ u) → site.io = false ∧ e ∈ hardErrors)
    (hQ : ∀ t' s', SendConduct s₁ plaintext t' s' (.error e) → Q t' s' b) :
    Safe (sendInv s₁ plaintext flags fuel) Q ((do failClosed site; pure b : FdAct β) s) t := by
  refine failWith_rule sendInv_lenient (fun u hsm => (hwhy u hsm).1) (hQ _ _ ?_)
  exact SendConduct.closed hdry hrough fun hsm => (hwhy _ hsm).2

/-- A flush that fails closes the session. -/
theorem closeFlush_rule {β : Type} {b : β} {site : FailSite} {e : Errno} {flags : Flags}
    {Q : Tr → FdState → β → Prop} {t' : Tr} {s' : FdState} (hdry : Polling t → ∀ e, ¬ Dry t e)
    (hf : Flushed s s' t t') (hns : ¬ Smooth t') (hsite : site.io = true)
    (hQ : ∀ t' s', SendConduct s₁ plaintext t' s' (.error e) → Q t' s' b) :
    Safe (sendInv s₁ plaintext flags fuel) Q ((do failClosed site; pure b : FdAct β) s') t' :=
  closeWith_rule (fun hp e hd => hdry (hp.of_le hf.mono) e (hf.dry hd)) (.inr hsite)
    (fun _ hsm => absurd hsm.smooth.left hns) hQ

theorem SendRound.started (h : SendRound s₁ fuel blocking n t s)
    (hhs : s.phase.handshaking = true) : s₁.phase.handshaking = true := by
  by_contra hno
  rw [h.settled (by simpa using hno)] at hhs
  cases hhs

theorem SendRound.read (h : SendRound s₁ fuel blocking (n + 1) t s)
    (hhs : s.phase.handshaking = true) (flags : Flags) {d : Bytes}
    {hd : 0 < d.length ∧ d.length ≤ pullSize} {u : Tr} (hu : Still u) {s' : FdState}
    (hmax : s'.txBacklog.length ≤ replyMax)
    (hstays : s'.phase.handshaking = true → s'.txBacklog = []) :
    SendRound s₁ fuel blocking n (t ++ [⟨.recv flags, .data d hd⟩] ++ u) s' := by
  have hhs₁ := h.started hhs
  have hdry := not_dry_snoc (o := .recv flags) (r := .data d hd) h.dry (by simp)
  have hone : progress [(⟨.recv flags, .data d hd⟩ : Ev Resp)] = 1 := rfl
  have hsent : sentBytes (t ++ [⟨.recv flags, .data d hd⟩] ++ u) = sentBytes t := by
    simp [hu.sent]
  have hbefore := h.waiting hhs
  refine ⟨fun hp => h.polling hp.left.left, fun hno => ?_,
    fun hf => absurd hf (FdPhase.ne_failed_of_handshaking hhs₁),
    fun hp e hd => hdry hp.left e (hd.still hu), fun hp => ?_,
    (h.smooth.snoc rfl).append hu.smooth, fun hh => ?_, ?_⟩
  · rw [hhs₁] at hno
    cases hno
  · have hrounds := h.rounds hp.left.left
    rw [progress_append, progress_append, hone]
    omega
  · rw [hsent, hstays hh, List.length_nil]
    omega
  · rw [hsent, if_pos hhs₁]
    omega

theorem SendRound.waits (h : SendRound s₁ fuel true (n + 1) t s) (hlive : s₁.phase ≠ .failed)
    {u : Tr} (hu : Smooth u) (hsent : sentBytes u = []) :
    SendRound s₁ fuel true n (t ++ u) s := by
  have hnot := not_polling_blocking h.polling u
  refine ⟨fun hp => absurd hp hnot, h.settled, fun hf => absurd hf hlive,
    fun hp => absurd hp hnot, fun hp => absurd hp hnot, h.smooth.append hu, ?_, ?_⟩
  · rw [sentBytes_append, hsent, List.append_nil]
    exact h.waiting
  · rw [sentBytes_append, hsent, List.append_nil]
    exact h.backlog

theorem SendRound.flushed (h : SendRound s₁ fuel blocking n t s) (hlive : s₁.phase ≠ .failed)
    {t' : Tr} {s' : FdState} (hf : Flushed s s' t t') (hsmooth : Smooth t → Smooth t') :
    SendRound s₁ fuel blocking n t' s' := by
  have hlen := hf.length_eq
  refine ⟨fun hp => h.polling (hp.of_le hf.mono), fun hno => ?_, fun hph => absurd hph hlive,
    fun hp e hd => h.dry (hp.of_le hf.mono) e (hf.dry hd), fun hp => ?_, hsmooth h.smooth,
    fun hhs => ?_, hlen.trans_le h.backlog⟩
  · rw [hf.phase]
    exact h.settled hno
  · have hrounds := h.rounds (hp.of_le hf.mono)
    have hle := progress_le hf.mono
    omega
  · exact hlen.trans_le (h.waiting (hf.phase ▸ hhs))

/-- A round of `drive_until_active_for_write` leads to the next one or to an end. -/
def SendStep (s₁ : FdState) (plaintext : Bytes) (fuel : ℕ) (blocking : Bool) (n : ℕ) (t : Tr)
    (s : FdState) (r : Unit ⊕ Except Errno Unit) : Prop :=
  r.elim (fun _ => SendRound s₁ fuel blocking n t s)
    (fun a => SendEnds s₁ plaintext (SendReady s₁ plaintext 0 blocking) t s a)

theorem pullForWrite_rule (h : SendRound s₁ fuel blocking (n + 1) t s)
    (hhs : s.phase.handshaking = true) (htx : s.txBacklog = []) (flags : Flags) :
    Safe (sendInv s₁ plaintext flags fuel) (SendStep s₁ plaintext fuel blocking n)
      (pullForWrite P flags blocking fuel s) t := by
  have hhs₁ := h.started hhs
  have hlive₁ := FdPhase.ne_failed_of_handshaking hhs₁
  have hlive := FdPhase.ne_failed_of_handshaking hhs
  rw [pullForWrite, bind_apply]
  refine safe_bind (pullWire_rule flags ⟨rfl, hhs₁, h.dry⟩ ?_ ?_ ?_ ?_)
  · intro d hd _
    simp only [bind_apply]
    refine safe_bind (driveHandshake_rule sendInv_lenient fuel ?_ ?_ ?_)
    · rintro rfl
      exact ⟨fun _ => rfl, fun _ => Nat.zero_le _⟩
    · intro _
      have hgo : SendRound s₁ fuel blocking n (t ++ [⟨.recv flags, .data d hd⟩] ++ [])
          { s with rxWire := s.rxWire ++ d } :=
        h.read hhs flags still_nil (by simp [htx]) fun _ => htx
      rwa [List.append_nil] at hgo
    · intro u s' hend _
      refine h.read hhs flags hend.still ?_ fun hh => ?_
      · simpa [htx] using hend.backlog
      · rw [hend.phase] at hh
        cases hh
  · exact closeWith_rule (not_dry_snoc h.dry (by simp)) (.inl (h.smooth.snoc rfl))
      (fun _ _ => ⟨rfl, by decide⟩) fun _ _ hc => hc
  · intro e
    dsimp only
    cases hw : wouldBlock e with
    | true =>
      cases blocking with
      | false =>
        refine ⟨fun hf => absurd hf hlive₁, fun hf => absurd hf hlive, fun hp e' hd => ?_,
          .inl (h.smooth.snoc hw)⟩
        rw [dry_snoc h.dry hp hd]
      | true =>
        refine h.waits hlive₁ (fun x hx => ?_) rfl
        rw [List.mem_singleton.mp hx]
        exact hw
    | false =>
      have hhard : ∀ u, ¬ Eased s₁ plaintext (t ++ [⟨.recv flags, .error e⟩] ++ u) := fun u hsm =>
        not_smooth_of_mem (e := ⟨.recv flags, .error e⟩) (by simp) hw hsm.smooth
      exact closeWith_rule (not_dry_hard h.dry hw) (.inr rfl) (fun u hsm => absurd hsm (hhard u))
        fun _ _ hc => hc
  · intro d hd
    exact closeWith_rule (not_dry_snoc h.dry (by simp)) (.inl (h.smooth.snoc rfl))
      (fun _ _ => ⟨rfl, by decide⟩) fun _ _ hc => hc

/-- A round in a handshake: the backlog goes out before anything is read. -/
theorem writeHandshake_rule (h : SendRound s₁ fuel blocking (n + 1) t s)
    (hhs : s.phase.handshaking = true) (flags : Flags) :
    Safe (sendInv s₁ plaintext flags fuel) (SendStep s₁ plaintext fuel blocking n)
      ((if s.txBacklog.isEmpty then pullForWrite P flags blocking fuel
        else do
          match ← flushBacklog flags fuel with
          | .ok true => pullForWrite P flags blocking fuel
          | .ok false => if !blocking then pure (.inr (.error EAGAIN)) else pure (.inl ())
          | .error _ => do
            failClosed .writeFlush
            pure (.inr (.error EIO)) : FdAct (Unit ⊕ Except Errno Unit)) s) t := by
  have hlive := FdPhase.ne_failed_of_handshaking hhs
  have hlive₁ := FdPhase.ne_failed_of_handshaking (h.started hhs)
  split
  · rename_i hempty
    exact pullForWrite_rule h hhs (List.isEmpty_iff.mp hempty) flags
  · rw [bind_apply]
    refine safe_bind (flushBacklog_rule flags fuel (fun _ _ _ _ => ⟨rfl, hlive₁⟩) ?_ ?_ ?_)
    · intro t' s' _ hprog _
      exact ⟨fun hph => absurd hph hlive₁, fun _ => by omega⟩
    · intro t' s' b hf _ hdone
      have h' := h.flushed hlive₁ hf hdone.smooth
      cases b with
      | true => exact pullForWrite_rule h' (hf.phase ▸ hhs) (hdone.empty rfl) flags
      | false =>
        cases blocking with
        | false =>
          exact ⟨fun hph => absurd hph hlive₁, fun hph => absurd (hf.phase ▸ hph) hlive,
            fun hp e hd => absurd hd (h'.dry hp e), .inl h'.smooth⟩
        | true =>
          have hwait := h'.waits (u := []) hlive₁ (fun x hx => by cases hx) rfl
          rwa [List.append_nil] at hwait
    · intro t' s' hf _ hns
      exact closeFlush_rule h.dry hf hns rfl fun _ _ hc => hc

theorem driveUntilActiveForWrite_rule (hpoll : Polling t → blocking = false)
    (hstill : Still t) (htx : s.phase = .failed → s.txBacklog = []) (flags : Flags) :
    Safe (sendInv s plaintext flags fuel)
      (SendEnds s plaintext (SendReady s plaintext 0 blocking))
      (driveUntilActiveForWrite P flags blocking fuel s) t := by
  have hdry : ∀ e, ¬ Dry t e := hstill.not_dry
  rw [driveUntilActiveForWrite, bind_apply]
  refine safe_bind (flushBacklog_rule flags fuel ?_ ?_ ?_ ?_)
  · exact fun t' s' hf hne => ⟨rfl, fun hph => hne (hf.empty (htx hph))⟩
  · intro t' s' _ hprog hor
    exact ⟨fun hph => hor.resolve_right fun hne => hne (htx hph), fun _ => by omega⟩
  · intro t₁ s₁ b hf₁ _ hdone
    have hlen := hf₁.length_eq
    rw [hstill.sent, List.length_nil] at hlen
    refine safe_iter_countdown (fun n _ t' s' => SendRound s fuel blocking n t' s') ?_ ?_ fuel ?_
    · rintro - t' s' h
      refine ⟨fun hph => ((h.failed hph).2).symm, fun hp => ?_⟩
      have hrounds := h.rounds hp
      omega
    · intro n _ t' s' h
      simp only [bind_apply, get_apply, bind_done]
      cases hph : s'.phase with
      | active keys =>
        refine ⟨h.polling, fun hf => ?_, h.dry, h.smooth, ⟨keys, hph⟩, ?_⟩
        · have hfailed := (h.failed hf).1
          rw [hph] at hfailed
          cases hfailed
        · have hback := h.backlog
          rw [Nat.sub_zero]
          omega
      | failed =>
        exact ⟨fun _ => hph, fun _ => ⟨EPIPE, rfl, fun _ => by decide⟩,
          fun hp e hd => absurd hd (h.dry hp e), .inl h.smooth⟩
      | responderAwaitingClientHello | initiatorAwaitingServerHello _
      | initiatorAwaitingFallbackFinished _ => exact writeHandshake_rule h (by rw [hph]; rfl) flags
    · exact ⟨fun hp => hpoll (hp.of_le hf₁.mono), fun hno => by rw [hf₁.phase]; exact hno,
        fun hph => ⟨hf₁.phase.trans hph, rfl⟩, fun _ e hd => hdry e (hf₁.dry hd),
        fun _ => Nat.le_add_right _ _, hdone.smooth hstill.smooth, fun _ => hlen.le,
        hlen.trans_le (Nat.le_add_right _ _)⟩
  · intro t₁ s₁ hf₁ _ hns
    exact closeFlush_rule (fun _ => hdry) hf₁ hns rfl fun _ _ hc => hc

/-- Frame bytes that go behind the backlog are no longer to be framed. -/
theorem SendReady.queued (h : SendReady s₁ plaintext k blocking t s) {bytes : Bytes} {k' : ℕ}
    (hbytes : recordsLength (plaintext.length - k) =
      bytes.length + recordsLength (plaintext.length - k')) {s' : FdState}
    (ha : s.appendTx bytes = some s') :
    SendReady s₁ plaintext k' blocking (t ++ [noted (.queued bytes)]) s' := by
  obtain ⟨-, rfl⟩ := FdState.appendTx_eq_some.mp ha
  refine h.still (u := [noted (.queued bytes)]) (still_one rfl)
    { s with txBacklog := s.txBacklog ++ bytes } h.active ?_
  rw [List.length_append]
  omega

theorem appendOrFlush_rule (h : SendReady s₁ plaintext k blocking t s) {bytes : Bytes} {k' : ℕ}
    (hbytes : recordsLength (plaintext.length - k) =
      bytes.length + recordsLength (plaintext.length - k'))
    (hsmall : bytes.length ≤ maxWriteBacklog) (flags : Flags)
    {Q : Tr → FdState → Except Errno Unit → Prop}
    (hok : ∀ t' s', SendReady s₁ plaintext k' blocking t' s' → Q t' s' (.ok ()))
    (herr : ∀ t' s' e, (Polling t' → ∀ e, ¬ Dry t' e) → ¬ Eased s₁ plaintext t' →
      Q t' s' (.error e)) :
    Safe (sendInv s₁ plaintext flags fuel) Q (appendOrFlush bytes flags blocking fuel s) t := by
  simp only [appendOrFlush, bind_apply, get_apply, bind_done]
  cases ha : s.appendTx bytes with
  | some s' => exact note_bind_rule trivial (hok _ _ (h.queued hbytes ha))
  | none =>
    have hfull := FdState.appendTx_eq_none.mp ha
    simp only [bind_apply]
    have h₁ : SendReady s₁ plaintext k blocking (t ++ [noted .limitExceeded]) s :=
      h.still (still_one rfl) s h.active rfl
    refine note_bind_rule trivial (safe_bind (flushBacklog_rule flags fuel ?_ ?_ ?_ ?_))
    · exact fun _ _ _ _ => ⟨rfl, h.live⟩
    · intro t' s' _ hprog _
      exact ⟨fun hf => absurd hf h.live, fun _ => by omega⟩
    · intro t' s' b hf _ hdone
      have h₂ := h₁.flushed hf hdone.smooth
      have hstalled : b = false → ∀ u, ¬ Eased s₁ plaintext (t' ++ u) := fun hb u he =>
        h.overfull hbytes hfull (hdone.stalls hb) he.left.room
      dsimp only
      split
      · rename_i hb
        have hb' : b = false := by
          simp only [Bool.and_eq_true, Bool.not_eq_true'] at hb
          exact hb.1
        have hnot := hstalled hb' []
        rw [List.append_nil] at hnot
        exact herr t' s' _ h₂.dry hnot
      · simp only [bind_apply, get_apply, bind_done]
        cases ha' : s'.appendTx bytes with
        | some s'' => exact note_bind_rule trivial (hok _ _ (h₂.queued hbytes ha'))
        | none =>
          have h₃ : SendReady s₁ plaintext k blocking (t' ++ [noted .limitExceeded]) s' :=
            h₂.still (still_one rfl) s' h₂.active rfl
          -- an empty backlog would have had room
          have hb : b = false := by
            by_contra hne
            have hempty := hdone.empty (by simpa using hne)
            have hlt := FdState.appendTx_eq_none.mp ha'
            rw [hempty, List.length_nil] at hlt
            omega
          exact note_bind_rule trivial (herr _ _ _ h₃.dry (hstalled hb _))
    · intro t' s' hf _ hns
      have hdry : Polling t' → ∀ e, ¬ Dry t' e :=
        fun hp e hd => h₁.dry (hp.of_le hf.mono) e (hf.dry hd)
      refine failWith_rule sendInv_lenient (fun u he => absurd he.smooth.left hns)
        (herr _ _ _ ?_ ?_)
      · exact fun hp e hd => hdry hp.left e (hd.still (still_failSeg _ _))
      · exact fun he => hns he.smooth.left

theorem sendRecord_rule (h : SendReady s₁ plaintext k blocking t s) (suiteId : UInt8)
    (flags : Flags) (hk : fuel ≤ n + 1 + k) :
    Safe (sendInv s₁ plaintext flags fuel) (fun t s r => r.elim
      (fun k' => SendReady s₁ plaintext k' blocking t s ∧ fuel ≤ n + k' ∧ k' ≤ plaintext.length)
      (fun a => SendEnds s₁ plaintext (fun t s => ∃ k', SendReady s₁ plaintext k' blocking t s)
        t s a))
      (sendRecord P plaintext suiteId flags blocking fuel k s) t := by
  unfold sendRecord
  by_cases hlt : k < plaintext.length
  · have hpos : 0 < maxRecordPlaintext := by decide
    obtain ⟨keys, hphase⟩ := h.active
    simp only [hlt, if_true, bind_apply, get_apply, bind_done, hphase]
    cases hseal : keys.seal P
        (slice plaintext k (min (k + maxRecordPlaintext) plaintext.length)) with
    | error e =>
      exact closeWith_rule h.dry (.inl h.smooth) (fun _ _ => ⟨rfl, by decide⟩) fun _ _ hc => hc
    | ok out =>
      obtain ⟨keys', ct⟩ := out
      simp only [bind_apply, set_apply, bind_done]
      refine note_bind_rule trivial ?_
      have h₁ : SendReady s₁ plaintext k blocking (t ++ [noted (.sealed .record keys.tx.key
          (nonceFromCounter keys.tx.counter)
          (slice plaintext k (min (k + maxRecordPlaintext) plaintext.length)) ct)])
          { s with phase := .active keys' } := h.still (still_one rfl) _ ⟨keys', rfl⟩ rfl
      cases hfr : frame suiteId typeData ct with
      | none =>
        exact closeWith_rule h₁.dry (.inl h₁.smooth) (fun _ _ => ⟨rfl, by decide⟩) fun _ _ hc => hc
      | some f =>
        have hlen : f.length =
            min (k + maxRecordPlaintext) plaintext.length - k + 22 := by
          obtain ⟨-, rfl⟩ := frame_eq_some.mp hfr
          have hct := SessionKeys.seal_length hseal
          rw [slice_length] at hct
          rw [frameBytes_length]
          omega
        have hbytes : recordsLength (plaintext.length - k) = f.length +
            recordsLength (plaintext.length - min (k + maxRecordPlaintext) plaintext.length) := by
          rw [recordsLength_step hlt, hlen]
        have hmax : maxRecordPlaintext + 22 ≤ maxWriteBacklog := by decide
        simp only [bind_apply]
        refine safe_bind (appendOrFlush_rule h₁ hbytes (by omega) flags ?_ ?_)
        · exact fun t' s' h' => ⟨h', by omega, by omega⟩
        · exact fun t' s' e hdry hns =>
            closeWith_rule hdry (.inr rfl) (fun u hsm => absurd hsm.left hns) fun _ _ hc => hc
  · simp only [hlt, if_false]
    exact ⟨k, h⟩

theorem sendFlush_rule (h : SendReady s₁ plaintext k blocking t s) (len : ℕ) (flags : Flags) :
    Safe (sendInv s₁ plaintext flags fuel) (fun t s r => SendConduct s₁ plaintext t s r)
      (sendFlush len flags blocking fuel s) t := by
  have hcut : ∀ t' s', progress t' = progress t + fuel →
      (sendInv s₁ plaintext flags fuel).cut t' s' :=
    fun t' s' hprog => ⟨fun hf => absurd hf h.live, fun _ => by omega⟩
  rw [sendFlush, bind_apply]
  refine safe_bind (flushBacklog_rule flags fuel (fun _ _ _ _ => ⟨rfl, h.live⟩) ?_ ?_ ?_)
  · exact fun t' s' _ hprog _ => hcut t' s' hprog
  · intro t₁ s' b hf _ hdone
    have h₁ := h.flushed hf hdone.smooth
    cases b with
    | true => exact h₁.leave
    | false =>
      cases blocking with
      | false => exact h₁.leave
      | true =>
        refine safe_iter (fun _ t' s' => SendReady s₁ plaintext k true t' s') ?_ ?_ fuel h₁
        · rintro - t' s₂ h'
          refine ⟨fun hf => absurd hf h'.live, fun hp => ?_⟩
          cases h'.polling hp
        · rintro - t' s₂ h'
          rw [bind_apply]
          refine safe_bind (flushBacklog_rule flags fuel (fun _ _ _ _ => ⟨rfl, h.live⟩) ?_ ?_ ?_)
          · intro t₂ s₃ _ hprog _
            exact ⟨fun hf => absurd hf h.live, fun _ => by omega⟩
          · intro t₂ s₃ b hf₂ _ hdone₂
            have h₂ := h'.flushed hf₂ hdone₂.smooth
            cases b with
            | true => exact h₂.leave
            | false => exact h₂
          · intro t₂ s₃ hf₂ _ hns
            exact closeFlush_rule h'.dry hf₂ hns rfl fun _ _ hc => hc
  · intro t₁ s' hf _ hns
    exact closeFlush_rule h.dry hf hns rfl fun _ _ hc => hc

/-- How `overlay_send` conducts itself on a session in good order. -/
theorem overlaySend_conduct (hs₁ : s₁.Sound) (flags : Flags) :
    Safe (sendInv s₁ plaintext flags fuel) (fun t s r => SendConduct s₁ plaintext t s r)
      (overlaySend P plaintext flags fuel s₁) [] := by
  refine guards_rule sendInv_lenient ?_ ?_
  · intro u s' hu hf
    exact ⟨fun _ => hf, fun _ => ⟨EPIPE, rfl, fun _ => by decide⟩,
      fun _ e hd => absurd hd (hu.not_dry e), .inl hu.smooth⟩
  · intro u r hu hr
    rw [bind_apply]
    refine safe_bind (safe_mono ?_ (driveUntilActiveForWrite_rule (fun hp => hp r hr) hu
      (fun hf => (hs₁.failed_empty hf).1) flags))
    intro t s a ha
    cases a with
    | error e => exact ha
    | ok _ =>
      have h : SendReady s₁ plaintext 0 (blocks r) t s := ha
      dsimp only
      split
      · exact h.leave
      · simp only [bind_apply, get_apply, bind_done]
        refine safe_bind (safe_mono ?_ (safe_iter_countdown
          (Q := SendEnds s₁ plaintext fun t s => ∃ k, SendReady s₁ plaintext k (blocks r) t s)
          (fun n k t s => SendReady s₁ plaintext k (blocks r) t s ∧ fuel ≤ n + k ∧
            k ≤ plaintext.length)
          ?_ ?_ fuel ⟨h, Nat.le_refl _, Nat.zero_le _⟩))
        · intro t' s' a ha
          cases a with
          | error e => exact ha
          | ok _ =>
            obtain ⟨k, hk⟩ := ha
            exact sendFlush_rule hk _ flags
        · rintro k t' s' ⟨h', hn, hk⟩
          exact ⟨fun hf => absurd hf h'.live, fun _ => by omega⟩
        · rintro n k t' s' ⟨h', hn, hk⟩
          exact sendRecord_rule h' _ flags hn

end

end SyntriassOverlay
