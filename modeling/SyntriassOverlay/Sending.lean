import SyntriassOverlay.Following
import SyntriassOverlay.Retry

/-!
# All or nothing

A call of `overlay_send` that returns a count has sealed the whole plaintext, cut into
records; one that returns an error has closed the session or has sealed nothing. There is
no third outcome in which a part of the plaintext is on its way and the caller is told to
try again.
-/

namespace SyntriassOverlay
open Crypto Resumption

/-- The keys with which `overlay_send` starts to seal: those of an active session, or those
that the handshake inside the call ended with. -/
def sealingKeys (s : FdState) (u : Tr) : Option SessionKeys :=
  match s.phase with
  | .active keys => some keys
  | _ => (activations u).head?.map Prod.fst

/-- What a call of `overlay_send` with trace `u` that took the session from `s` to `s'` may
return. -/
structure AllOrNothing (s : FdState) (plaintext : Bytes) (u : Tr) (s' : FdState)
    (r : Except Errno ℕ) : Prop where
  all : ∀ n, r = .ok n → n = plaintext.length ∧
    (∀ x ∈ records u, x.1 ≠ [] ∧ x.1.length ≤ maxRecordPlaintext) ∧
    (records u).flatMap Prod.fst = plaintext ∧
    ∃ keys keys', sealingKeys s u = some keys ∧ s'.phase = .active keys' ∧
      keys'.tx.counter.toNat = keys.tx.counter.toNat + (records u).length
  nothing : ∀ e, r = .error e → s'.phase = .failed ∨ records u = [] ∧
    sentBytes u ++ s'.txBacklog = s.txBacklog ++ replies u ∧
    ∀ keys', s'.phase = .active keys' → ∃ keys, sealingKeys s u = some keys ∧
      keys'.tx.counter = keys.tx.counter

section
variable {P : Primitives} {aside : Prop} {s s' : FdState} {u : Tr}

/-- The sending counter moves by one for each record, from the keys the session began to
seal with. -/
theorem History.counter_advance (h : History P aside s u s' none) {keys' : SessionKeys}
    (hactive : s'.phase = .active keys') : ∃ keys, sealingKeys s u = some keys ∧
      keys'.tx.counter.toNat = keys.tx.counter.toNat + (records u).length := by
  cases hp : s.phase with
  | active keys =>
    have hs : s.phase.handshaking = false := by rw [hp]; rfl
    refine ⟨keys, by rw [sealingKeys, hp], ?_⟩
    cases h.sealAccount with
    | unkeyed _ hno => exact absurd hactive (hno keys')
    | keyed hout hrun _ htx =>
      have hlen : (seals u).length = (records u).length := by
        rw [records_eq_recordSeals, List.length_map, ← h.seals_active hs]
      cases hout with
      | active hk hd =>
        rw [hp] at hk
        cases hk
        rw [htx keys' hactive, hrun.counter_eq, hd, hlen]
      | fresh hhs =>
        rw [hs] at hhs
        cases hhs
  | failed =>
    have hf := h.failed_iff.mpr (.inl hp)
    rw [hactive] at hf
    cases hf
  | responderAwaitingClientHello | initiatorAwaitingServerHello _
  | initiatorAwaitingFallbackFinished _ =>
    have hs : ∀ keys, s.phase ≠ .active keys := by simp [hp]
    cases h.recordAccount hs with
    | none ha => exact absurd hactive ((h.inactive_records hs ha).2 keys')
    | @active keys origin d ha hrun htx =>
      refine ⟨keys, by simp [sealingKeys, hp, ha], ?_⟩
      rw [htx keys' hactive, hrun.counter_eq]

end

theorem overlaySend_all_or_nothing {P : Primitives} {role : Role} {c : Tr} {st s s' : FdState}
    {log : List (FdCall × FdRet)} {t u : Tr} (hst : Built P role c st)
    (hrun : Reach (FdCall.run P) st log t (.idle s)) {plaintext : Bytes} {flags : Flags} {fuel : ℕ}
    {r : Except Errno ℕ} (hat : At (overlaySend P plaintext flags fuel s) u (.done s' r)) :
    AllOrNothing s plaintext u s' r := by
  obtain ⟨hs, hrest⟩ := hst.atRest hrun
  have hsafe : Safe (ioInv P True s) (fun u s' r => AllOrNothing s plaintext u s' r)
      (overlaySend P plaintext flags fuel s) [] := by
    refine overlaySend_safe hs flags fuel .start hrest.settled ?_ ?_
    · intro u s' keys' h hactive hseal
      have hplain : (records u).flatMap Prod.fst = plaintext := by
        have hp := hseal.plain
        rwa [List.take_length] at hp
      obtain ⟨keys, hkeys, hcount⟩ := h.counter_advance hactive
      refine ⟨fun n heq => ?_, fun e heq => by cases heq⟩
      cases heq
      exact ⟨rfl, h.record_sizes, hplain, keys, keys', hkeys, hactive, hcount⟩
    · intro u s' e k h _ hseal hor
      refine ⟨fun n heq => (by cases heq), fun e' _ => ?_⟩
      rcases hor with hf | rfl
      · exact .inl hf
      · by_cases hf : s'.phase = .failed
        · exact .inl hf
        have hrec := h.unframed hseal.plain
        have hwire := h.wire.alive hf
        refine .inr ⟨hrec, by simpa [made, hrec, dataFrames, pending] using hwire, ?_⟩
        intro keys' hactive
        obtain ⟨keys, hkeys, hcount⟩ := h.counter_advance hactive
        rw [hrec, List.length_nil, Nat.add_zero] at hcount
        exact ⟨keys, hkeys, UInt64.toNat_inj.mp hcount⟩
  simpa using safe_at hsafe hat

/-- A responder in the degraded posture that is asked to send and finds a `FallbackHello`
waiting. -/
theorem overlaySend_all_or_nothing_hello : ∃ c u s', Built specimen .responder c responderSession ∧
    At (overlaySend specimen (ascii "hi") 0 8 responderSession) u (.done s' (.ok 2)) ∧
    (records u).flatMap Prod.fst = ascii "hi" := by
  obtain ⟨c, hbuilt⟩ := responderSession_built specimen
  obtain ⟨s', r, rfl, hat⟩ := at_of_outcome (fun o k => Kernel.answer k 7 o) 40
    (overlaySend specimen (ascii "hi") 0 8 responderSession)
    { fallbackKernel [100, 100] with
      incoming := [frameBytes fallbackWireId typeFallbackHello (ramp 16).val] }
    (fun _ r => r) (c := .ok 2) (by decide +kernel)
  obtain ⟨-, -, hplain, -⟩ := (overlaySend_all_or_nothing hbuilt .start hat).all 2 rfl
  exact ⟨c, _, s', hbuilt, hat, hplain⟩

end SyntriassOverlay
