import SyntriassOverlay.Limits
import SyntriassOverlay.Posture

/-!
# Downgrade alerts (fd_state.rs:301-311, interceptor.rs:332-448)

`drive_handshake` records a downgrade attack at four of the places where it closes a session,
and a fallback activation where it activates one with the pre-shared key. Over whole runs the
two records say what they are meant to say: an alert is raised once, for a session that never
had keys, because of the frame that it received first.
-/

namespace SyntriassOverlay
open Crypto Resumption

/-! ### What is recorded -/

def Ev.alert : Ev Resp → List String
  | ⟨.note (.downgradeAttack detail), _⟩ => [detail]
  | _ => []

def Ev.fallback : Ev Resp → ℕ
  | ⟨.note .fallbackActivation, _⟩ => 1
  | _ => 0

/-- The details of `record_downgrade_attack`. -/
def alerts (t : Tr) : List String := t.flatMap Ev.alert

/-- The calls of `record_fallback_activation`. -/
def fallbackActivations (t : Tr) : ℕ := (t.map Ev.fallback).sum

/-- The detail that is recorded where a session is closed. -/
def FailSite.alert : FailSite → Option String
  | .fallbackNotDegraded => some "FallbackHello received by a non-degraded responder"
  | .fallbackRejected => some "malformed FallbackHello at responder"
  | .fallbackFinishRejected => some "FallbackFinished failed PSK authentication"
  | .unexpectedDowngrade => some "unexpected handshake frame type for current phase"
  | _ => none

section
variable (t u : Tr) (s : FdState) (site : FailSite) (keys : SessionKeys) (origin : Origin)
  (f : ParsedFrame)

@[simp] theorem alerts_append : alerts (t ++ u) = alerts t ++ alerts u := List.flatMap_append
@[simp] theorem alerts_popped : alerts (noted (.popped f) :: t) = alerts t := rfl
@[simp] theorem alerts_read (flags : Flags) (r : RecvResult) :
    alerts (⟨.recv flags, r⟩ :: t) = alerts t := rfl
@[simp] theorem alerts_failSeg : alerts (failSeg s site) = [] := by
  unfold failSeg; split <;> rfl
@[simp] theorem alerts_activateSeg : alerts (activateSeg s keys origin) = [] := by
  unfold activateSeg; split <;> rfl

@[simp] theorem fallbackActivations_append :
    fallbackActivations (t ++ u) = fallbackActivations t + fallbackActivations u := by
  simp [fallbackActivations]
@[simp] theorem fallbackActivations_popped :
    fallbackActivations (noted (.popped f) :: t) = fallbackActivations t := by
  simp [fallbackActivations, Ev.fallback]
@[simp] theorem fallbackActivations_read (flags : Flags) (r : RecvResult) :
    fallbackActivations (⟨.recv flags, r⟩ :: t) = fallbackActivations t := by
  simp [fallbackActivations, Ev.fallback]
@[simp] theorem fallbackActivations_failSeg : fallbackActivations (failSeg s site) = 0 := by
  unfold failSeg; split <;> rfl
@[simp] theorem fallbackActivations_activateSeg :
    fallbackActivations (activateSeg s keys origin) = 0 := by
  unfold activateSeg; split <;> rfl

end

/-- Calls that record nothing. -/
structure Unalarming (u : Tr) : Prop where
  alerts : alerts u = []
  fallbacks : fallbackActivations u = 0

theorem Op.unalarming_of_quiet {o : Op} (ho : o.quiet = true) (r : Resp o) :
    Unalarming [⟨o, r⟩] := by
  cases o with
  | note n => cases n <;> first | exact ⟨rfl, rfl⟩ | cases ho
  | _ => exact ⟨rfl, rfl⟩

section
variable {P : Primitives} {s : FdState} {f : ParsedFrame} {pre : Tr}

theorem Activation.alerts {keys : SessionKeys} {origin : Origin} {fr : Bytes}
    (h : Activation P s f keys origin pre fr) : alerts pre = [] := by
  cases h <;> rfl

theorem Activation.fallbacks {keys : SessionKeys} {origin : Origin} {fr : Bytes}
    (h : Activation P s f keys origin pre fr) :
    fallbackActivations pre = if origin.fallback then 1 else 0 := by
  cases h <;> rfl

theorem Unqueued.unalarming {suiteId tag : UInt8} {payload : Bytes}
    (h : Unqueued s suiteId tag payload pre) : Unalarming pre := by
  cases h <;> exact ⟨rfl, rfl⟩

/-- The alert goes with the place where the frame is rejected. -/
theorem Rejection.alerts {site : FailSite} (h : Rejection P s f pre site) :
    alerts pre = site.alert.toList := by
  cases h with
  | helloReply _ _ _ _ hq =>
    rw [alerts_append, hq.unalarming.alerts]
    rfl
  | fallbackReply _ _ _ _ hq =>
    rw [alerts_append, hq.unalarming.alerts]
    rfl
  | _ => rfl

theorem Rejection.fallbacks {site : FailSite} (h : Rejection P s f pre site) :
    fallbackActivations pre = 0 := by
  cases h with
  | helloReply _ _ _ _ hq =>
    rw [fallbackActivations_append, hq.unalarming.fallbacks]
    rfl
  | fallbackReply _ _ _ _ hq =>
    rw [fallbackActivations_append, hq.unalarming.fallbacks]
    rfl
  | _ => rfl

theorem Refusal.unalarming {keys : SessionKeys} {site : FailSite}
    (h : Refusal P s keys f pre site) : Unalarming pre ∧ site.alert = none := by
  cases h <;> exact ⟨⟨rfl, rfl⟩, rfl⟩

theorem overflow_unalarming {site : FailSite} (h : site ∈ [.writeOverflow, .recvOverflow]) :
    site.alert = none := by
  simp only [List.mem_cons, List.not_mem_nil, or_false] at h
  rcases h with rfl | rfl <;> rfl

theorem Failing.unalarming {t : Tr} {pd : Option Bytes} {site : FailSite}
    (h : Failing P t s pd site) : site.alert = none := by
  cases h with
  | flush _ _ hsite =>
    simp only [List.mem_cons, List.not_mem_nil, or_false] at hsite
    rcases hsite with rfl | rfl | rfl | rfl | rfl <;> rfl
  | header _ _ hsite =>
    simp only [List.mem_cons, List.not_mem_nil, or_false] at hsite
    rcases hsite with rfl | rfl <;> rfl
  | _ => rfl

end

/-! ### The account of a session -/

/-- The frames of which a session in a handshake says that somebody tries to downgrade it. -/
def Provokes (P : Primitives) : FdPhase → ParsedFrame → Prop
  | .responderAwaitingClientHello, f => f.tag = typeFallbackHello
  | .initiatorAwaitingServerHello _, f => f.tag ≠ typeServerHello
  | .initiatorAwaitingFallbackFinished state, f =>
    f.tag = typeFallbackFinished → ∃ e, state.finish P f.payload = .error e
  | _, _ => False

/-- How far a session is that started with a handshake, in terms of its first frame. -/
inductive Alarm (P : Primitives) (s₀ : FdState) (t : Tr) (s : FdState) : Prop
  | waiting (hpops : pops t = []) (hact : activations t = []) (halerts : alerts t = [])
      (hphase : s.phase = s₀.phase ∨ s.phase = .failed)
  | keyed {f : ParsedFrame} {rest : List ParsedFrame} {a : SessionKeys × Origin}
      (hpops : pops t = f :: rest) (hact : activations t = [a]) (halerts : alerts t = [])
      (hfallback : f.tag = typeFallbackHello → a.2.fallback = true)
      (hphase : s.phase.handshaking = false)
  | refused {f : ParsedFrame} {rest : List ParsedFrame} (hpops : pops t = f :: rest)
      (hact : activations t = [])
      (halerts : alerts t = [] ∨ ∃ detail, alerts t = [detail] ∧ Provokes P s₀.phase f)
      (hfallback : s₀.phase = .responderAwaitingClientHello → f.tag = typeFallbackHello →
        alerts t ≠ []) (hphase : s.phase = .failed)

section
variable {P : Primitives} {aside : Prop} {s₀ s s' : FdState} {t u : Tr} {pd : Option Bytes}

/-- A step that takes no frame. -/
theorem Alarm.keep (h : Alarm P s₀ t s) (hpops : pops u = []) (hact : activations u = [])
    (halerts : alerts u = []) (hphase : s'.phase = s.phase ∨ s'.phase = .failed) :
    Alarm P s₀ (t ++ u) s' := by
  have hpops' : pops (t ++ u) = pops t := by rw [pops_append, hpops, List.append_nil]
  have hact' : activations (t ++ u) = activations t := by
    rw [activations_append, hact, List.append_nil]
  have halerts' : alerts (t ++ u) = alerts t := by rw [alerts_append, halerts, List.append_nil]
  cases h with
  | waiting hp ha hal hph =>
    refine .waiting (hpops'.trans hp) (hact'.trans ha) (halerts'.trans hal) ?_
    rcases hphase with hsame | hfailed
    · rwa [hsame]
    · exact .inr hfailed
  | keyed hp ha hal hf hph =>
    refine .keyed (hpops'.trans hp) (hact'.trans ha) (halerts'.trans hal) hf ?_
    rcases hphase with hsame | hfailed
    · rwa [hsame]
    · rw [hfailed]
      rfl
  | refused hp ha hal hf hph =>
    refine .refused (hpops'.trans hp) (hact'.trans ha) (by rwa [halerts']) (by rwa [halerts']) ?_
    rcases hphase with hsame | hfailed
    · rw [hsame, hph]
    · exact hfailed

/-- A step of a session with keys. -/
theorem Alarm.active (h : Alarm P s₀ t s) (hs₀ : ∀ k, s₀.phase ≠ .active k) {k : SessionKeys}
    (hactive : s.phase = .active k) (hact : activations u = []) (halerts : alerts u = [])
    (hphase : s'.phase.handshaking = false) : Alarm P s₀ (t ++ u) s' := by
  cases h with
  | waiting _ _ _ hph =>
    rcases hph with hsame | hfailed
    · exact absurd (hsame.symm.trans hactive) (hs₀ k)
    · rw [hfailed] at hactive
      cases hactive
  | keyed hp ha hal hf _ =>
    refine .keyed (by rw [pops_append, hp, List.cons_append]) ?_ ?_ hf hphase
    · rw [activations_append, ha, hact, List.append_nil]
    · rw [alerts_append, hal, halerts]
      rfl
  | refused _ _ _ _ hph =>
    rw [hph] at hactive
    cases hactive

/-- A frame that a session rejects although it waits for none. -/
theorem Rejection.idle {f : ParsedFrame} {pre : Tr} {site : FailSite}
    (h : Rejection P s f pre site) (hs : s.phase.handshaking = false) : site.alert = none := by
  cases h with
  | helloMismatch _ hp | helloRejected hp | helloReply hp | fallbackNotDegraded hp
  | fallbackRejected _ hp | fallbackReply _ hp | finishMismatch _ hp | finishRejected hp
  | fallbackFinishRejected hp =>
    rw [hp] at hs
    cases hs
  | unexpectedDowngrade hp =>
    rcases hp with ⟨state, hp, -⟩ | ⟨state, hp, -⟩
    · rw [hp] at hs
      cases hs
    · rw [hp] at hs
      cases hs
  | unexpectedFrame => rfl

/-- A frame that leads to an alert. -/
theorem Rejection.provokes {f : ParsedFrame} {pre : Tr} {site : FailSite}
    (h : Rejection P s f pre site) (halert : site.alert ≠ none) : Provokes P s.phase f := by
  cases h with
  | helloMismatch | helloRejected | helloReply | fallbackReply | finishMismatch | finishRejected
  | unexpectedFrame => exact absurd rfl halert
  | fallbackNotDegraded hp htag | fallbackRejected _ hp htag =>
    rw [hp]
    exact htag
  | fallbackFinishRejected hp _ hrun =>
    rw [hp]
    exact fun _ => ⟨_, hrun⟩
  | unexpectedDowngrade hp =>
    rcases hp with ⟨state, hp, htag⟩ | ⟨state, hp, htag⟩
    · rw [hp]
      exact htag
    · rw [hp]
      exact fun htag' => absurd htag' htag

/-- A responder that is offered the fallback and does not take it raises an alert. -/
theorem Rejection.alerted {f : ParsedFrame} {pre : Tr} {site : FailSite} (hroomy : Roomy s none)
    (h : Rejection P s f pre site) (hphase : s.phase = .responderAwaitingClientHello)
    (htag : f.tag = typeFallbackHello) : site.alert ≠ none := by
  have hlimit := hroomy.rejection h
  cases h with
  | fallbackNotDegraded | fallbackRejected | fallbackFinishRejected | unexpectedDowngrade => nofun
  | fallbackReply => exact absurd (by decide) hlimit
  | helloMismatch _ _ htag' | helloRejected _ htag' | helloReply _ htag' =>
    rw [htag] at htag'
    cases htag'
  | finishMismatch _ hp | finishRejected hp =>
    rw [hphase] at hp
    cases hp
  | unexpectedFrame hresp => exact absurd htag (hresp hphase).2

theorem Alarm.reject {f : ParsedFrame} {pre : Tr} {site : FailSite} (h : Alarm P s₀ t s)
    (hlive : s.phase ≠ .failed) (hroomy : Roomy s none) (hr : Rejection P s f pre site)
    (hs' : s'.phase = .failed) :
    Alarm P s₀ (t ++ noted (.popped f) :: pre ++ failSeg s site) s' := by
  have hpops : pops (t ++ noted (.popped f) :: pre ++ failSeg s site) = pops t ++ [f] := by
    simp [hr.unread.pops]
  have hact : activations (t ++ noted (.popped f) :: pre ++ failSeg s site) = activations t := by
    simp [hr.inert.activations]
  have halerts : alerts (t ++ noted (.popped f) :: pre ++ failSeg s site) =
      alerts t ++ site.alert.toList := by
    simp [hr.alerts]
  cases h with
  | waiting hp ha hal hph =>
    rw [hp, List.nil_append] at hpops
    rw [hal, List.nil_append] at halerts
    have hphase := hph.resolve_right hlive
    refine .refused hpops (hact.trans ha) ?_ ?_ hs'
    · cases hsite : site.alert with
      | none =>
        rw [hsite] at halerts
        exact .inl halerts
      | some detail =>
        have hprovokes := hr.provokes (by rw [hsite]; nofun)
        rw [hsite] at halerts
        exact .inr ⟨detail, halerts, hphase ▸ hprovokes⟩
    · intro hresp htag hnone
      rw [hnone] at halerts
      apply hr.alerted hroomy (hphase.trans hresp) htag
      cases hsite : site.alert with
      | none => rfl
      | some detail =>
        rw [hsite] at halerts
        cases halerts
  | keyed hp ha hal hf hph =>
    rw [hp, List.cons_append] at hpops
    rw [hal, hr.idle hph] at halerts
    refine .keyed hpops (hact.trans ha) halerts hf ?_
    rw [hs']
    rfl
  | refused _ _ _ _ hph => exact absurd hph hlive

theorem Activation.fallback_hello {f : ParsedFrame} {keys : SessionKeys} {origin : Origin}
    {pre : Tr} {fr : Bytes} (h : Activation P s f keys origin pre fr)
    (htag : f.tag = typeFallbackHello) : origin.fallback = true := by
  cases h with
  | fallbackRespond | fallbackFinish => rfl
  | respond _ htag' | finish _ htag' =>
    rw [htag] at htag'
    cases htag'

theorem Alarm.activate {f : ParsedFrame} {keys : SessionKeys} {origin : Origin} {pre : Tr}
    {fr : Bytes} (h : Alarm P s₀ t s) (ha : Activation P s f keys origin pre fr)
    (hs' : s'.phase = .active keys) :
    Alarm P s₀ (t ++ noted (.popped f) :: pre ++ activateSeg s keys origin) s' := by
  have hhs := ha.handshaking
  cases h with
  | waiting hp hact hal =>
    have hpops : pops (t ++ noted (.popped f) :: pre ++ activateSeg s keys origin) = [f] := by
      simp [hp, ha.unread.pops]
    have hone : activations (t ++ noted (.popped f) :: pre ++ activateSeg s keys origin) =
        [(keys, origin)] := by
      simp [hact, ha.inert.activations]
    refine .keyed hpops hone (by simp [hal, ha.alerts]) ha.fallback_hello ?_
    rw [hs']
    rfl
  | keyed _ _ _ _ hph =>
    rw [hph] at hhs
    cases hhs
  | refused _ _ _ _ hph =>
    rw [hph] at hhs
    cases hhs

theorem History.alarm (h : History P aside s₀ t s pd) (hs₀ : s₀.Sound) (hroomy : Roomy s₀ none)
    (hinactive : ∀ k, s₀.phase ≠ .active k) : Alarm P s₀ t s := by
  induction h with
  | start => exact .waiting rfl rfl rfl (.inl rfl)
  | quiet _ o ho r ih =>
    exact ih.keep (Op.unread_of_quiet ho r).pops (Op.inert_of_quiet ho r).activations
      (Op.unalarming_of_quiet ho r).alerts (.inl rfl)
  | sent _ _ _ _ _ ih | stalled _ _ _ _ _ _ ih | pulled _ _ _ _ _ _ _ _ ih
  | unread _ _ _ _ _ _ ih | delivered _ _ _ ih | queued _ _ _ _ ih | restamped _ _ _ ih =>
    exact ih.keep rfl rfl rfl (.inl rfl)
  | failed _ _ ih | retired _ _ _ _ ih =>
    exact ih.keep (by simp) (by simp) (by simp) (.inr rfl)
  | flooded _ _ _ _ _ _ _ _ _ ih =>
    rw [List.append_assoc]
    exact ih.keep (by simp) (by simp) (by simp) (.inr rfl)
  | opened _ hphase _ _ _ _ _ ih | sealed _ hphase _ _ ih =>
    exact ih.active hinactive hphase rfl rfl rfl
  | refused _ hphase _ hr ih =>
    rw [List.append_assoc]
    exact ih.active hinactive hphase (by simp [hr.inert.activations])
      (by simp [hr.unalarming.1.alerts]) rfl
  | rejected h _ hpop hr ih =>
    refine ih.reject ?_ (h.roomy hroomy).1 hr rfl
    intro hfailed
    rw [((h.sound hs₀).failed_empty hfailed).2.1] at hpop
    cases hpop
  | activated _ _ ha ih => exact ih.activate ha rfl

/-- The alerts of a history are those of the places where it closes, its fallback activations
are those with the pre-shared key. -/
theorem History.recorded (h : History P aside s₀ t s pd) :
    alerts t = (closings t).filterMap FailSite.alert ∧
      fallbackActivations t = (activations t).countP fun a => a.2.fallback := by
  have hkeep : ∀ {t u : Tr}, (alerts t = (closings t).filterMap FailSite.alert ∧
      fallbackActivations t = (activations t).countP fun a => a.2.fallback) →
      alerts u = (closings u).filterMap FailSite.alert →
      (fallbackActivations u = (activations u).countP fun a => a.2.fallback) →
      alerts (t ++ u) = (closings (t ++ u)).filterMap FailSite.alert ∧
        fallbackActivations (t ++ u) = (activations (t ++ u)).countP fun a => a.2.fallback := by
    intro t u ht hu hu'
    rw [alerts_append, closings_append, List.filterMap_append, ht.1, hu,
      fallbackActivations_append, activations_append, List.countP_append, ht.2, hu']
    exact ⟨rfl, rfl⟩
  induction h with
  | start => exact ⟨rfl, rfl⟩
  | quiet _ o ho r ih =>
    have hi := Op.inert_of_quiet ho r
    have hu := Op.unalarming_of_quiet ho r
    exact hkeep ih (by rw [hu.alerts, hi.closings]; rfl) (by rw [hu.fallbacks, hi.activations]; rfl)
  | sent _ _ _ _ _ ih | stalled _ _ _ _ _ _ ih | pulled _ _ _ _ _ _ _ _ ih
  | unread _ _ _ _ _ _ ih | delivered _ _ _ ih | queued _ _ _ _ ih | restamped _ _ _ ih
  | opened _ _ _ _ _ _ _ ih | sealed _ _ _ _ ih => exact hkeep ih rfl rfl
  | failed _ hf ih => exact hkeep ih (by simp [hf.unalarming]) (by simp)
  | flooded _ _ _ _ _ _ _ _ hsite ih =>
    rw [List.append_assoc]
    exact hkeep ih (by simp [overflow_unalarming hsite]) (by simp)
  | retired _ _ _ _ ih => exact hkeep ih (by simp [FailSite.alert]) (by simp)
  | refused _ _ _ hr ih =>
    rw [List.append_assoc]
    exact hkeep ih (by simp [hr.unalarming.1.alerts, hr.unalarming.2, hr.inert.closings])
      (by simp [hr.unalarming.1.fallbacks, hr.inert.activations])
  | @rejected t s f rest pre site _ _ _ hr ih =>
    rw [List.append_assoc]
    refine hkeep ih ?_ (by simp [hr.fallbacks, hr.inert.activations])
    simp only [List.cons_append, alerts_popped, alerts_append, hr.alerts, alerts_failSeg,
      closings_popped, closings_append, hr.inert.closings, closings_failSeg, List.nil_append,
      List.append_nil, List.filterMap_cons, List.filterMap_nil]
    cases site.alert <;> rfl
  | activated _ _ ha ih =>
    rw [List.append_assoc]
    refine hkeep ih (by simp [ha.alerts, ha.inert.closings]) ?_
    simp [ha.fallbacks, ha.inert.activations, List.countP_singleton]

end

/-- Between the calls on a session: alerts were raised where it was closed because of a
downgrade and nowhere else, and fallbacks were counted where it was activated with the
pre-shared key. There is one alert at most, in a session that has failed and never had keys,
and the first frame is to blame. A responder that was offered the fallback has taken it or
has raised one. -/
theorem downgrade_alerts {P : Primitives} {role : Role} {c : Tr} {st s : FdState}
    (hst : Built P role c st) {log : List (FdCall × FdRet)} {t : Tr}
    (hrun : Reach (FdCall.run P) st log t (.idle s)) :
    alerts t = (closings t).filterMap FailSite.alert ∧
    (fallbackActivations t = (activations t).countP fun a => a.2.fallback) ∧
    (∀ detail ∈ alerts t, alerts t = [detail] ∧ activations t = [] ∧ s.phase = .failed ∧
      ∃ f rest, pops t = f :: rest ∧ Provokes P st.phase f) ∧
    ∀ f rest, st.phase = .responderAwaitingClientHello → pops t = f :: rest →
      f.tag = typeFallbackHello →
      alerts t ≠ [] ∨ ∃ a, activations t = [a] ∧ a.2.fallback = true := by
  obtain ⟨hfresh, hopen⟩ := hst.opening
  obtain ⟨-, hat⟩ := hst.atRest hrun
  obtain ⟨halerts, hfallbacks⟩ := hat.history.recorded
  refine ⟨halerts, hfallbacks, ?_, ?_⟩
  · intro detail hmem
    cases hat.history.alarm (hopen.sound hfresh) (hopen.roomy hfresh) hopen.inactive with
    | waiting _ _ hnone | keyed _ _ hnone =>
      rw [hnone] at hmem
      cases hmem
    | refused hpops hact hal _ hphase =>
      rcases hal with hnone | ⟨detail', hone, hprovokes⟩
      · rw [hnone] at hmem
        cases hmem
      · rw [hone] at hmem
        rw [hone, List.mem_singleton.mp hmem]
        exact ⟨rfl, hact, hphase, _, _, hpops, hprovokes⟩
  · intro f rest hresp hfirst htag
    cases hat.history.alarm (hopen.sound hfresh) (hopen.roomy hfresh) hopen.inactive with
    | waiting hpops =>
      rw [hpops] at hfirst
      cases hfirst
    | keyed hpops hact _ hf =>
      rw [hpops] at hfirst
      cases hfirst
      exact .inr ⟨_, hact, hf htag⟩
    | refused hpops _ _ hf =>
      rw [hpops] at hfirst
      cases hfirst
      exact .inl (hf hresp htag)

/-- A responder in the degraded posture that was sent a `FallbackHello` of three bytes. -/
theorem downgrade_alerts_malformed : ∃ c log t s, Built specimen .responder c responderSession ∧
    Reach (FdCall.run specimen) responderSession log t (.idle s) ∧
    alerts t = ["malformed FallbackHello at responder"] ∧ activations t = [] ∧
    s.phase = .failed := by
  obtain ⟨c, hbuilt⟩ := responderSession_built specimen
  have hreach := played_reach (P := specimen) responderSession [.recv 1 Nat.one_pos 0 3]
    { fallbackKernel [] with
      incoming := [frameBytes fallbackWireId typeFallbackHello [1, 2, 3]] }
  have halert : "malformed FallbackHello at responder" ∈ alerts (played specimen responderSession
      [.recv 1 Nat.one_pos 0 3] { fallbackKernel [] with
        incoming := [frameBytes fallbackWireId typeFallbackHello [1, 2, 3]] }).trace := by
    decide +kernel
  obtain ⟨hone, hact, hphase, -⟩ := (downgrade_alerts hbuilt hreach).2.2.1 _ halert
  exact ⟨c, _, _, _, hbuilt, hreach, hone, hact, hphase⟩

end SyntriassOverlay
