import SyntriassOverlay.Simulation

/-!
# States as the constructors leave them

What `install_initiator_state` and `ensure_tracked` can put into the registry,
with the answers they got on the way.
-/

namespace SyntriassOverlay
open Crypto Resumption

/-- Common to all constructors: nothing received, nothing counted, and the owner
and the epoch are what the environment answered. -/
structure Fresh (c : Tr) (st : FdState) : Prop where
  rxWire : st.rxWire = []
  rxPlain : st.rxPlain = []
  countedActive : st.countedActive = false
  owner : (⟨.getpid, st.ownerPid⟩ : Ev Resp) ∈ c
  epoch : (⟨.configEpoch, st.configEpoch⟩ : Ev Resp) ∈ c

/-- How a session came into the registry: by `connect` or by `ensure_tracked`. -/
inductive Role where
  | initiator
  | responder
  deriving DecidableEq, Repr

/-- The states a session can start in. `c` is the trace of its construction. -/
inductive Opening (P : Primitives) (c : Tr) (st : FdState) : Role → Prop
  | failed {role : Role} (hphase : st.phase = .failed) (htx : st.txBacklog = []) :
      Opening P c st role
  | responder (hphase : st.phase = .responderAwaitingClientHello) (htx : st.txBacklog = [])
      (hpolicy : (⟨.resolvePolicy, some st.policySuite⟩ : Ev Resp) ∈ c) :
      Opening P c st .responder
  | hybrid {identity : IdentityMaterial} {eph : Ephemeral} {state : InitiatorState} {hello : Bytes}
      (hphase : st.phase = .initiatorAwaitingServerHello state)
      (hrun : st.policySuite.beginInitiator P identity eph = .ok (state, hello))
      (hframe : frame st.policySuite.id typeClientHello hello = some st.txBacklog)
      (hpolicy : (⟨.resolvePolicy, some st.policySuite⟩ : Ev Resp) ∈ c)
      (havail : (⟨.pqcControlAvailable, true⟩ : Ev Resp) ∈ c)
      (hmem : (⟨.ephemeral, eph⟩ : Ev Resp) ∈ c)
      (hid : (⟨.resolveIdentity, .ok identity⟩ : Ev Resp) ∈ c) :
      Opening P c st .initiator
  | fallback {psk psk' : ByteArr 32} {nonce : ByteArr 16}
      (hphase : st.phase = .initiatorAwaitingFallbackFinished ⟨psk, nonce⟩)
      (hframe : frame fallbackWireId typeFallbackHello nonce.val = some st.txBacklog)
      (hpolicy : (⟨.resolvePolicy, some st.policySuite⟩ : Ev Resp) ∈ c)
      (havail : (⟨.pqcControlAvailable, false⟩ : Ev Resp) ∈ c)
      (hpsk : (⟨.resolveFallbackPsk, some psk'⟩ : Ev Resp) ∈ c)
      (hown : (⟨.resolveFallbackPsk, some psk⟩ : Ev Resp) ∈ c)
      (hmem : (⟨.freshNonce, nonce⟩ : Ev Resp) ∈ c) :
      Opening P c st .initiator

/-- No call of a construction is of interest but its answer. -/
abbrev anyCall : Obligation Resp Unit where
  call _ _ _ := True
  cut _ _ := True

section
variable {P : Primitives} {t : Tr} {Q : Tr → Unit → FdState → Prop}

theorem build_safe {phase : FdPhase} {suite : CipherSuite} {tx : Bytes}
    (h : ∀ t' st, t <+: t' → Fresh t' st → st.phase = phase → st.policySuite = suite →
      st.txBacklog = tx → Q t' () st) :
    Safe anyCall Q (FdState.build phase suite tx ()) t := by
  refine ⟨trivial, fun pid => ⟨trivial, fun epoch => ?_⟩⟩
  exact h _ _ (by simp) ⟨rfl, rfl, rfl, by simp, by simp⟩ rfl rfl rfl

theorem buildPqcInitiator_safe {suite : CipherSuite}
    (hpolicy : (⟨.resolvePolicy, some suite⟩ : Ev Resp) ∈ t)
    (havail : (⟨.pqcControlAvailable, true⟩ : Ev Resp) ∈ t)
    (h : ∀ t' st, t <+: t' → Fresh t' st → Opening P t' st .initiator → Q t' () st) :
    Safe anyCall Q (buildPqcInitiator P suite ()) t := by
  have hfail : ∀ t', t <+: t' → Safe anyCall Q (FdState.failed suite ()) t' := by
    intro t' ht
    refine build_safe fun t'' st ht' hf hphase _ htx => ?_
    exact h t'' st (ht.trans ht') hf (.failed hphase htx)
  refine ⟨trivial, fun identity => ?_⟩
  cases identity with
  | error e => exact hfail _ (by simp)
  | ok identity =>
    refine ⟨trivial, fun eph => ?_⟩
    simp only [bind_done]
    cases hrun : suite.beginInitiator P identity eph with
    | error e => exact hfail _ (by simp)
    | ok out =>
      obtain ⟨state, hello⟩ := out
      dsimp only
      cases hframe : frame suite.id typeClientHello hello with
      | none => exact hfail _ (by simp)
      | some f =>
        refine build_safe fun t' st ht hf hphase hsuite htx => ?_
        subst hsuite htx
        have hpre : t <+: t' := List.IsPrefix.trans (by simp) ht
        refine h t' st hpre hf (.hybrid hphase hrun hframe (hpre.subset hpolicy)
          (hpre.subset havail) ?_ ?_)
        · exact ht.subset (by simp)
        · exact ht.subset (by simp)

theorem buildFallbackInitiator_safe {suite : CipherSuite} (psk' : ByteArr 32)
    (hpolicy : (⟨.resolvePolicy, some suite⟩ : Ev Resp) ∈ t)
    (havail : (⟨.pqcControlAvailable, false⟩ : Ev Resp) ∈ t)
    (hpsk : (⟨.resolveFallbackPsk, some psk'⟩ : Ev Resp) ∈ t)
    (h : ∀ t' st, t <+: t' → Fresh t' st → Opening P t' st .initiator → Q t' () st) :
    Safe anyCall Q (buildFallbackInitiator suite ()) t := by
  refine ⟨trivial, fun psk => ?_⟩
  cases psk with
  | none =>
    refine build_safe fun t' st ht hf hphase _ htx => ?_
    exact h t' st (List.IsPrefix.trans (by simp) ht) hf (.failed hphase htx)
  | some psk =>
    refine ⟨trivial, fun nonce => ?_⟩
    simp only [bind_done, FallbackInitiator.begin]
    cases hframe : frame fallbackWireId typeFallbackHello nonce.val with
    | none =>
      refine build_safe fun t' st ht hf hphase _ htx => ?_
      exact h t' st (List.IsPrefix.trans (by simp) ht) hf (.failed hphase htx)
    | some f =>
      refine build_safe fun t' st ht hf hphase hsuite htx => ?_
      subst hsuite htx
      have hpre : t <+: t' := List.IsPrefix.trans (by simp) ht
      exact h t' st hpre hf (.fallback hphase hframe (hpre.subset hpolicy) (hpre.subset havail)
        (hpre.subset hpsk) (ht.subset (by simp)) (ht.subset (by simp)))

theorem newInitiatorState_safe
    (h : ∀ t' st, Fresh t' st → Opening P t' st .initiator → Q t' () st) :
    Safe anyCall Q (newInitiatorState P ()) t := by
  have hfail : ∀ suite t', Safe anyCall Q (FdState.failed suite ()) t' := by
    intro suite t'
    exact build_safe fun t'' st _ hf hphase _ htx => h t'' st hf (.failed hphase htx)
  refine ⟨trivial, fun policy => ⟨trivial, fun policy' => ?_⟩⟩
  cases policy' with
  | none => exact hfail _ _
  | some suite =>
    refine ⟨trivial, fun available => ⟨trivial, fun psk => ?_⟩⟩
    simp only [bind_done, pure_apply]
    cases available with
    | true =>
      refine buildPqcInitiator_safe ?_ ?_ fun t' st _ hf ho => h t' st hf ho
      · simp
      · simp
    | false =>
      cases psk with
      | none => exact hfail _ _
      | some psk =>
        refine buildFallbackInitiator_safe psk ?_ ?_ ?_ fun t' st _ hf ho => h t' st hf ho
        · simp
        · simp
        · simp

theorem newResponderState_safe {suite : CipherSuite}
    (h : ∀ t' st, Fresh t' st → Opening P t' st .responder → Q t' () st) :
    Safe anyCall Q (newResponderState suite ()) t := by
  refine ⟨trivial, fun policy => ?_⟩
  cases policy with
  | some suite =>
    refine build_safe fun t' st ht hf hphase hsuite htx => h t' st hf (.responder hphase htx ?_)
    rw [hsuite]
    exact ht.subset (by simp)
  | none => exact build_safe fun t' st _ hf hphase _ htx => h t' st hf (.failed hphase htx)

end

section
variable {P : Primitives} {c : Tr} {st : FdState}

theorem newInitiatorState_opening (h : At (newInitiatorState P ()) c (.done () st)) :
    Fresh c st ∧ Opening P c st .initiator := by
  have hs : Safe anyCall (fun t _ st => Fresh t st ∧ Opening P t st .initiator)
      (newInitiatorState P ()) [] :=
    newInitiatorState_safe fun t' st hf ho => ⟨hf, ho⟩
  simpa using safe_at hs h

theorem newResponderState_opening {suite : CipherSuite}
    (h : At (newResponderState suite ()) c (.done () st)) :
    Fresh c st ∧ Opening P c st .responder := by
  have hs : Safe anyCall (fun t _ st => Fresh t st ∧ Opening P t st .responder)
      (newResponderState suite ()) [] := newResponderState_safe fun t' st hf ho => ⟨hf, ho⟩
  simpa using safe_at hs h

theorem Opening.inactive {role : Role} (ho : Opening P c st role) (keys : SessionKeys) :
    st.phase ≠ .active keys := by
  cases ho with
  | failed hp | responder hp | hybrid hp | fallback hp => simp [hp]

theorem frame_fits {suiteId tag : UInt8} {payload f : Bytes}
    (h : frame suiteId tag payload = some f) : f.length ≤ maxWriteBacklog := by
  obtain ⟨hlen, rfl⟩ := frame_eq_some.mp h
  rw [frameBytes_length]
  have hmax : maxFrameBody + 4 = maxWriteBacklog := by decide
  omega

theorem Opening.sound {role : Role} (hf : Fresh c st) (ho : Opening P c st role) : st.Sound := by
  have htx : st.txBacklog.length ≤ maxWriteBacklog := by
    cases ho with
    | failed _ htx => rw [htx]; exact Nat.zero_le _
    | responder _ htx => rw [htx]; exact Nat.zero_le _
    | hybrid _ _ hframe => exact frame_fits hframe
    | fallback _ hframe => exact frame_fits hframe
  refine ⟨fun hphase => ⟨?_, hf.rxWire, hf.rxPlain⟩, fun _ => hf.rxPlain, htx, ?_, ?_⟩
  · cases ho with
    | failed _ htx => exact htx
    | responder _ htx => exact htx
    | hybrid hphase' => rw [hphase] at hphase'; cases hphase'
    | fallback hphase' => rw [hphase] at hphase'; cases hphase'
  · rw [hf.rxWire]; exact Nat.zero_le _
  · rw [hf.rxPlain]; exact Nat.zero_le _

theorem Fresh.settled (hf : Fresh c st) : st.Settled := by
  intro _
  rw [hf.rxWire]
  rfl

end

/-- How a session was built in its role: the trace of the construction and the state. -/
def Built (P : Primitives) (role : Role) (c : Tr) (st : FdState) : Prop :=
  match role with
  | .initiator => At (newInitiatorState P ()) c (.done () st)
  | .responder => ∃ suite, At (newResponderState suite ()) c (.done () st)

theorem Built.opening {P : Primitives} {role : Role} {c : Tr} {st : FdState}
    (h : Built P role c st) : Fresh c st ∧ Opening P c st role := by
  cases role with
  | initiator => exact newInitiatorState_opening h
  | responder =>
    obtain ⟨suite, hat⟩ := h
    exact newResponderState_opening hat

theorem Built.atRest {P : Primitives} {role : Role} {c : Tr} {st s : FdState}
    {log : List (FdCall × FdRet)} {t : Tr} (hst : Built P role c st)
    (hrun : Reach (FdCall.run P) st log t (.idle s)) : s.Sound ∧ AtRest P True st log t s := by
  obtain ⟨hfresh, hopen⟩ := hst.opening
  have hsound := hopen.sound hfresh
  have hheld : AtRest P True st (log.map (Prod.map id id)) t s :=
    run_held id (fun _ _ => trivial) hsound hfresh.settled hrun
  refine ⟨hheld.history.sound hsound, ?_⟩
  simpa using hheld

/-- The state of a session that runs no call, has just finished one, or waits in a
real `send` or `recv`. -/
def standing : Status Resp FdCall FdState FdRet → Option FdState
  | .idle s => some s
  | .busy _ (.done s _) => some s
  | .busy _ (.call s (.send _ _) _) => some s
  | .busy _ (.call s (.recv _) _) => some s
  | _ => none

theorem Built.history {P : Primitives} {role : Role} {c : Tr} {st s : FdState}
    {log : List (FdCall × FdRet)} {t : Tr} {status : Status Resp FdCall FdState FdRet}
    (hst : Built P role c st) (hrun : Reach (FdCall.run P) st log t status)
    (hs : standing status = some s) : ∃ pd, History P True st t s pd := by
  obtain ⟨hfresh, hopen⟩ := hst.opening
  have hheld := run_held id (fun _ _ => trivial) (hopen.sound hfresh) hfresh.settled hrun
  rcases hstatus : status with s' | ⟨i, ⟨s', a⟩ | ⟨s', o, k⟩ | s'⟩ <;> rw [hstatus] at hs hheld
  · cases hs
    exact ⟨none, hheld.history⟩
  · cases hs
    exact ⟨none, (hheld : AtRest _ _ _ _ _ _).history⟩
  · have hinv : (ioInv P True st).call t s' o := hheld.1
    cases o with
    | send buf flags =>
      cases hs
      obtain ⟨-, -, -, pd, -, hh⟩ := hinv
      exact ⟨pd, hh⟩
    | recv flags =>
      cases hs
      exact ⟨none, hinv.2.2.2⟩
    | _ => cases hs
  · cases hs

end SyntriassOverlay
