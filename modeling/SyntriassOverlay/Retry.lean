import SyntriassOverlay.Conduct
import SyntriassOverlay.Egress

/-!
# Calls that can be made again

A call that was refused because the kernel had nothing to give or no room should leave a
session on which the same call can be made again: no byte of its plaintext is on its way,
and nothing that was received is lost.
-/

namespace SyntriassOverlay
open Crypto Resumption

/-- EAGAIN, EWOULDBLOCK or EINTR. -/
def transient (e : Errno) : Bool := wouldBlock e || e == EINTR

/-- The error of a real call. -/
def Ev.errno : Ev Resp → Option Errno
  | ⟨.send _ _, .error e⟩ | ⟨.recv _, .error e⟩ => some e
  | _ => none

/-- The real calls fail with transient errors only. -/
def Transient (u : Tr) : Prop := ∀ x ∈ u, ∀ e, Ev.errno x = some e → transient e = true

/-- No real call is interrupted by a signal. -/
def Uninterrupted (u : Tr) : Prop := ∀ x ∈ u, Ev.errno x ≠ some EINTR

theorem wouldBlock_of_transient {e : Errno} (h : transient e = true) (hne : e ≠ EINTR) :
    wouldBlock e = true := by
  simpa [transient, hne] using h

theorem not_transient_of_hard {e : Errno} (h : e ∈ hardErrors) : ¬ transient e = true := by
  simp only [hardErrors, List.mem_cons, List.not_mem_nil, or_false] at h
  rcases h with rfl | rfl | rfl <;> decide

theorem Transient.smooth {u : Tr} (h : Transient u) (h' : Uninterrupted u) : Smooth u := by
  rintro ⟨o, r⟩ hmem
  have ht := h _ hmem
  have hu := h' _ hmem
  cases o with
  | send =>
    cases r with
    | error e => exact wouldBlock_of_transient (ht e rfl) fun he => hu (congrArg some he)
    | _ => rfl
  | recv =>
    cases r with
    | error e => exact wouldBlock_of_transient (ht e rfl) fun he => hu (congrArg some he)
    | _ => rfl
  | _ => rfl

theorem Smooth.uninterrupted {u : Tr} (h : Smooth u) : Uninterrupted u := by
  rintro ⟨o, r⟩ hmem he
  have hx := h _ hmem
  cases o with
  | send | recv =>
    cases r with
    | error e =>
      cases he
      cases hx
    | _ => cases he
  | _ => cases he

section
variable {P : Primitives} {aside : Prop} {s₀ s : FdState} {t : Tr} {pd : Option Bytes}

/-- Every record carries a piece of plaintext of the size records may have. -/
theorem History.record_sizes (h : History P aside s₀ t s pd) :
    ∀ r ∈ records t, r.1 ≠ [] ∧ r.1.length ≤ maxRecordPlaintext := by
  have hkeep : ∀ {t u : Tr}, (∀ r ∈ records t, r.1 ≠ [] ∧ r.1.length ≤ maxRecordPlaintext) →
      records u = [] → ∀ r ∈ records (t ++ u), r.1 ≠ [] ∧ r.1.length ≤ maxRecordPlaintext := by
    intro t u ht hu
    rwa [records_append, hu, List.append_nil]
  induction h with
  | start => exact fun r hr => by cases hr
  | quiet _ o ho r ih => exact hkeep ih (Op.inert_of_quiet ho r).records
  | sent _ _ _ _ _ ih | stalled _ _ _ _ _ _ ih | pulled _ _ _ _ _ _ _ _ ih
  | unread _ _ _ _ _ _ ih | delivered _ _ _ ih | queued _ _ _ _ ih | restamped _ _ _ ih
  | opened _ _ _ _ _ _ _ ih => exact hkeep ih rfl
  | activated _ _ ha ih =>
    rw [List.append_assoc]
    exact hkeep ih (by simp [ha.inert.records])
  | rejected _ _ _ hr ih =>
    rw [List.append_assoc]
    exact hkeep ih (by simp [hr.inert.records])
  | refused _ _ _ hr ih =>
    rw [List.append_assoc]
    exact hkeep ih (by simp [hr.inert.records])
  | sealed _ _ hlen _ ih =>
    intro r hr
    rw [records_append] at hr
    rcases List.mem_append.mp hr with hr | hr
    · exact ih r hr
    · rw [List.mem_singleton.mp hr]
      exact ⟨List.ne_nil_of_length_pos hlen.1, hlen.2⟩
  | failed _ _ ih | retired _ _ _ _ ih => exact hkeep ih (by simp)
  | flooded _ _ _ _ _ _ _ _ _ ih =>
    rw [List.append_assoc]
    exact hkeep ih (by simp)

theorem History.unframed (h : History P aside s₀ t s pd) (hplain : sealedPlain t = []) :
    records t = [] := by
  refine List.eq_nil_iff_forall_not_mem.mpr fun r hr => ?_
  exact (h.record_sizes r hr).1 (List.flatMap_eq_nil_iff.mp hplain r hr)

/-- A session that was active and has sealed nothing since stands where it stood. -/
theorem History.tx_kept (h : History P aside s₀ t s pd) {keys : SessionKeys}
    (hphase : s₀.phase = .active keys) (hlive : s.phase ≠ .failed) (hrec : records t = []) :
    ∃ keys', s.phase = .active keys' ∧ keys'.tx = keys.tx := by
  have hs₀ : s₀.phase.handshaking = false := by rw [hphase]; rfl
  have hnot : s.phase.handshaking = false := by
    by_contra hne
    have hhs : s.phase.handshaking = true := by simpa using hne
    rw [(h.handshaking_untouched hhs).1, hs₀] at hhs
    cases hhs
  have hseals : seals t = [] := by
    rw [h.seals_active hs₀]
    rw [records_eq_recordSeals] at hrec
    exact List.map_eq_nil_iff.mp hrec
  cases hp : s.phase with
  | failed => exact absurd hp hlive
  | active keys' =>
    refine ⟨keys', rfl, ?_⟩
    cases h.sealAccount with
    | unkeyed _ hno => exact absurd hp (hno keys')
    | keyed hout hrun _ htx =>
      rw [hseals] at hrun
      rw [htx keys' hp, hrun.eq_of_nil]
      cases hout with
      | active hk hd =>
        rw [hphase] at hk
        cases hk
        exact hd
      | fresh hhs =>
        rw [hs₀] at hhs
        cases hhs
  | responderAwaitingClientHello | initiatorAwaitingServerHello _
  | initiatorAwaitingFallbackFinished _ => rw [hp] at hnot; cases hnot

end

/-! ### A handshake that a call goes on with -/

/-- Calls that seal no plaintext left the handshake of `s₀` waiting for the peer's frame, or
the first frame they took off the buffer ended it and the others were opened, one after the
other, with the keys that came out of it. -/
inductive Entered (P : Primitives) (s₀ : FdState) (t : Tr) (s : FdState) : Prop
  | waiting (hphase : s.phase = s₀.phase) (hpops : pops t = [])
  | through {f : ParsedFrame} {s₁ : FdState} {keys keys' : SessionKeys} {origin : Origin}
      {pre : Tr} {fr : Bytes} (hphase₁ : s₁.phase = s₀.phase)
      (hsuite₁ : s₁.policySuite = s₀.policySuite) (ha : Activation P s₁ f keys origin pre fr)
      (hpops : pops t = f :: (openings t).map (Unseal.frame s₀.policySuite))
      (hrun : OpenRun P keys.rx (openings t) keys'.rx) (hphase : s.phase = .active keys')
      (htx : keys'.tx = keys.tx)

section
variable {P : Primitives} {aside : Prop} {s₀ s s' : FdState} {t u : Tr} {pd : Option Bytes}

theorem Entered.keep (h : Entered P s₀ t s) (hu : Unread u) (hphase : s'.phase = s.phase) :
    Entered P s₀ (t ++ u) s' := by
  have hpops : pops (t ++ u) = pops t := by rw [pops_append, hu.pops, List.append_nil]
  have hopens : openings (t ++ u) = openings t := by
    rw [openings_append, hu.openings, List.append_nil]
  cases h with
  | waiting hph hnil => exact .waiting (hphase.trans hph) (hpops.trans hnil)
  | through hph₁ hsuite₁ ha hp hrun hph htx =>
    exact .through hph₁ hsuite₁ ha (by rw [hpops, hopens, hp]) (by rwa [hopens])
      (hphase.trans hph) htx

/-- One more record is opened by a session whose handshake is over. -/
theorem Entered.open {f : ParsedFrame} {keys keys' : SessionKeys} {pt : Bytes}
    (h : Entered P s₀ t s) (hhs₀ : s₀.phase.handshaking = true) (hphase : s.phase = .active keys)
    (htag : f.tag = typeData) (hsuite : f.suiteId = s₀.policySuite.id)
    (hopen : keys.open P f.payload = .ok (keys', pt)) (hpops : pops u = [f])
    (hopens : openings u = [⟨keys.rx.key, nonceFromCounter keys.rx.counter, f.payload, pt⟩])
    (hphase' : s'.phase = .active keys') : Entered P s₀ (t ++ u) s' := by
  obtain ⟨hc, rfl, hdec⟩ := SessionKeys.open_eq_ok.mp hopen
  cases h with
  | waiting hph _ =>
    rw [← hph, hphase] at hhs₀
    cases hhs₀
  | through hph₁ hsuite₁ ha hp hrun hph htx =>
    obtain rfl : keys = _ := FdPhase.active.inj (hphase.symm.trans hph)
    refine .through hph₁ hsuite₁ ha ?_ ?_ hphase' htx
    · have hf : f = ⟨s₀.policySuite.id, typeData, f.payload⟩ := by rw [← hsuite, ← htag]
      rw [pops_append, openings_append, hpops, hopens, hp, List.map_append, List.cons_append]
      conv_lhs => rw [hf]
      rfl
    · rw [openings_append, hopens]
      exact hrun.snoc hc ⟨Direction.open_eq_ok.mpr ⟨hc, rfl, hdec⟩, rfl, rfl⟩

theorem History.entered (h : History P aside s₀ t s pd) (hhs₀ : s₀.phase.handshaking = true)
    (hlive : s.phase ≠ .failed) (hrec : records t = []) :
    Entered P s₀ t s ∧ s.policySuite = s₀.policySuite := by
  induction h with
  | start => exact ⟨.waiting rfl rfl, rfl⟩
  | quiet _ o ho r ih =>
    rw [records_append, List.append_eq_nil_iff] at hrec
    obtain ⟨hent, hsuite⟩ := ih hlive hrec.1
    exact ⟨hent.keep (Op.unread_of_quiet ho r) rfl, hsuite⟩
  | sent _ _ _ _ _ ih | stalled _ _ _ _ _ _ ih | pulled _ _ _ _ _ _ _ _ ih
  | unread _ _ _ _ _ _ ih | delivered _ _ _ ih | queued _ _ _ _ ih =>
    rw [records_append, List.append_eq_nil_iff] at hrec
    obtain ⟨hent, hsuite⟩ := ih hlive hrec.1
    exact ⟨hent.keep ⟨rfl, rfl⟩ rfl, hsuite⟩
  | @activated t s f rest keys origin pre fr h _ ha ih =>
    have hhs := ha.handshaking
    have hpops := (h.handshaking_iff hhs₀ (FdPhase.ne_failed_of_handshaking hhs)).mp hhs
    have hopens := h.unopened hpops
    rw [List.append_assoc, records_append, List.append_eq_nil_iff] at hrec
    obtain ⟨-, hsuite⟩ := ih (FdPhase.ne_failed_of_handshaking hhs) hrec.1
    have hpops' : pops (t ++ noted (.popped f) :: pre ++ activateSeg s keys origin) = [f] := by
      simp [hpops, ha.unread.pops]
    have hopens' : openings (t ++ noted (.popped f) :: pre ++ activateSeg s keys origin) = [] := by
      simp [hopens, ha.unread.openings]
    refine ⟨.through (h.handshaking_untouched hhs).1 hsuite ha ?_ ?_ rfl rfl, hsuite⟩
    · rw [hpops', hopens']
      rfl
    · rw [hopens']
      exact .nil
  | opened _ hph _ htag hsuite hopen _ ih =>
    rw [records_append, List.append_eq_nil_iff] at hrec
    obtain ⟨hent, hsuite₀⟩ := ih (by simp [hph]) hrec.1
    exact ⟨hent.open hhs₀ hph htag (hsuite₀ ▸ hsuite) hopen rfl rfl rfl, hsuite₀⟩
  | sealed => simp [records, Ev.record] at hrec
  | restamped _ hphase => exact absurd hphase hlive
  | rejected | refused | failed | retired | flooded => exact absurd rfl hlive

end

/-! ### The session after a call that was refused -/

/-- A call with trace `u` took the session from `s` to `s'` and left it so that the call
can be made again: no plaintext was framed or delivered, the sealing counter stands, what
is gone from the backlog was sent, the frames taken off the buffer are the first of what
was received, and what was opened waits. -/
structure Resumes (P : Primitives) (s : FdState) (u : Tr) (s' : FdState) : Prop where
  live : s'.phase ≠ .failed
  unframed : records u = []
  undelivered : deliveredBytes u = []
  backlog : sentBytes u ++ s'.txBacklog = s.txBacklog ++ replies u
  wire : s.rxWire ++ receivedBytes u = framesBytes (pops u) ++ s'.rxWire
  plain : s'.rxPlain = s.rxPlain ++ openedPlain u
  counter : ∀ keys, s.phase = .active keys → ∃ keys', s'.phase = .active keys' ∧ keys'.tx = keys.tx
  inbound : ∀ keys, s.phase = .active keys → ReadAccount P s keys u s'
  handshake : s.phase.handshaking = true → Entered P s u s'

/-- The call `c` up to `p` is not the end of the session for its I/O, and where it returns a
transient error it can be made again. -/
structure Retryable (P : Primitives) (s : FdState) (u : Tr) (p : Prog Resp FdState FdRet) :
    Prop where
  unclosed : ∀ site ∈ closings u, site.io = false
  resumes : ∀ s' a e, p = .done s' a → transient e = true →
    (a = .sent (.error e) ∨ a = .received (.error e)) → Resumes P s u s'

/-- The call is `overlay_recv`, or it is `overlay_send` and none of its real calls is
interrupted. -/
inductive Undisturbed (u : Tr) : FdCall → Prop
  | send {plaintext flags fuel} (hint : Uninterrupted u) :
      Undisturbed u (.send plaintext flags fuel)
  | recv {len hlen flags fuel} : Undisturbed u (.recv len hlen flags fuel)

/-- `overlay_recv`, or an `overlay_send` that never waits for want of room. -/
inductive Roomed (s : FdState) (u : Tr) : FdCall → Prop
  | send {plaintext flags fuel} (hroom : Ample s plaintext u) :
      Roomed s u (.send plaintext flags fuel)
  | recv {len hlen flags fuel} : Roomed s u (.recv len hlen flags fuel)

theorem mem_closings {u : Tr} {site : FailSite} (h : site ∈ closings u) :
    noted (.failClosed site) ∈ u := by
  obtain ⟨⟨o, r⟩, hmem, he⟩ := List.mem_flatMap.mp h
  cases o with
  | note n =>
    cases n with
    | failClosed site' =>
      cases List.mem_singleton.mp he
      exact hmem
    | _ => cases he
  | _ => cases he

section
variable {P : Primitives} {s s' : FdState} {u : Tr} {c : FdCall} {a : FdRet}

/-- What an undisturbed call with transient errors does to the session. -/
theorem conduct_of_undisturbed (hs : s.Sound) (htr : Transient u) (hroom : Roomed s u c)
    (hc : Undisturbed u c) {p : Prog Resp FdState FdRet} (hat : At (c.run P s) u p) :
    (∀ site ∈ closings u, site.io = false) ∧ ∀ s' a e, p = .done s' a → transient e = true →
      (a = .sent (.error e) ∨ a = .received (.error e)) → s'.phase ≠ .failed := by
  cases hc with
  | @send plaintext flags fuel hint =>
    obtain ⟨hroom⟩ := hroom
    have heased : Eased s plaintext u := ⟨htr.smooth hint, hroom⟩
    have hsafe : Safe (sendInv s plaintext flags fuel) (fun t s' a => ∀ e, s'.phase = .failed →
        a = .sent (.error e) ∨ a = .received (.error e) → Eased s plaintext t → e ∈ hardErrors)
        ((FdCall.send plaintext flags fuel).run P s) [] := by
      refine safe_bind (safe_mono ?_ (overlaySend_conduct hs flags))
      intro t s' r h e hf ha
      obtain ⟨e', rfl, he'⟩ := h.refused hf
      rcases ha with ha | ha
      · cases ha
        exact he'
      · cases ha
    refine ⟨fun site hsite => ?_, ?_⟩
    · obtain ⟨u', s', ⟨v, rfl⟩, hcall⟩ := safe_mem hsafe hat (mem_closings hsite)
      exact hcall heased.left
    · rintro s' a e rfl he ha hf
      have hhard : e ∈ hardErrors := safe_at hsafe hat e hf ha heased
      exact absurd he (not_transient_of_hard hhard)
  | @recv len hlen flags fuel =>
    have hsafe : Safe (recvInv P s flags fuel) (fun _ s' a => ∀ e, s'.phase = .failed →
        a = .sent (.error e) ∨ a = .received (.error e) → e = EPIPE)
        ((FdCall.recv len hlen flags fuel).run P s) [] := by
      refine safe_bind (safe_mono ?_ (overlayRecv_conduct hs len flags))
      intro t s' r h e hf ha
      rw [h.refused hf] at ha
      rcases ha with ha | ha
      · cases ha
      · cases ha
        rfl
    refine ⟨fun site hsite => ?_, ?_⟩
    · obtain ⟨u', s', -, hcall⟩ := safe_mem hsafe hat (mem_closings hsite)
      exact hcall
    · rintro s' a e rfl he ha hf
      rw [safe_at hsafe hat e hf ha] at he
      cases he

/-- An `overlay_send` that has returned was interrupted by a signal only if it closed the
session for it. -/
theorem uninterrupted_of_unclosed {plaintext : Bytes} {flags : Flags} {fuel : ℕ} (hs : s.Sound)
    (hat : At ((FdCall.send plaintext flags fuel).run P s) u (.done s' a))
    (hsites : ∀ site ∈ closings u, site.io = false) : Uninterrupted u := by
  have hsafe : Safe (sendInv s plaintext flags fuel)
      (fun t _ _ => Smooth t ∨ ∃ site ∈ closings t, site.io = true)
      ((FdCall.send plaintext flags fuel).run P s) [] :=
    safe_bind (safe_mono (fun _ _ _ h => h.rough) (overlaySend_conduct hs flags))
  rcases safe_at hsafe hat with hsmooth | ⟨site, hmem, hio⟩
  · exact hsmooth.uninterrupted
  · rw [hsites site hmem] at hio
    cases hio

/-- The session after a call that was refused with a transient error and left it alive. -/
theorem AtRest.resumes {e : Errno} (hs : s.Sound)
    (h : AtRest P True s [(c, a)] u s') (hlive : s'.phase ≠ .failed)
    (ha : a = .sent (.error e) ∨ a = .received (.error e)) : Resumes P s u s' := by
  have haccepted : sealedPlain u = [] := by
    rw [h.accepted hlive]
    rcases ha with rfl | rfl <;> cases c <;> rfl
  have hreturned : deliveredBytes u = [] := by
    rw [h.returned]
    rcases ha with rfl | rfl <;> cases c <;> rfl
  have hrec := h.history.unframed haccepted
  have hwire := h.history.wire.alive hlive
  have hplain := h.history.plaintext hlive
  rw [hreturned, List.nil_append] at hplain
  refine ⟨hlive, hrec, hreturned, ?_, (h.history.buffered hs).alive hlive, hplain, ?_, ?_, ?_⟩
  · simpa [made, hrec, dataFrames, pending] using hwire
  · exact fun keys hk => h.history.tx_kept hk hlive hrec
  · exact fun keys hk => h.history.readAccount hs hk
  · exact fun hhs => (h.history.entered hhs hlive hrec).1

end

end SyntriassOverlay
