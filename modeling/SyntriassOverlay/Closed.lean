import SyntriassOverlay.Opening
import SyntriassOverlay.Conduct
import SyntriassOverlay.Schedule

/-!
# A closed session stays closed

`fail_closed` is final: after it no real call is made for the session, within the call
that closed it or in any later one, and every call is refused.
-/

namespace SyntriassOverlay
open Crypto Resumption

/-- The call did not accept or return any bytes. -/
def FdRet.Refuses : FdRet → Prop
  | .sent (.ok _) | .received (.ok _) => False
  | _ => True

/-- The loops of the call may take a round. -/
def FdCall.Fueled : FdCall → Prop
  | .send _ _ fuel | .recv _ _ _ fuel | .driveHandshake fuel => 0 < fuel
  | _ => True

/-- No real call, and no loop that goes on. -/
abbrev shut : Obligation Resp FdState where
  call _ _ o := o.io = false
  cut _ _ := False

/-- Nothing is asked but that no loop goes on. -/
abbrev uncut : Obligation Resp FdState where
  call _ _ _ := True
  cut _ _ := False

abbrev unasked : Obligation Resp FdState where
  call _ _ _ := True
  cut _ _ := True

section
variable {P : Primitives} {s : FdState} {t : Tr}

theorem shut_lenient : Lenient shut := fun _ _ _ ho _ => ho

/-- A call on a closed session makes no real call and is refused. -/
theorem FdCall.run_shut (hs : s.Sound) (hf : s.phase = .failed) (c : FdCall) (hc : c.Fueled) :
    Safe shut (fun _ s' a => s'.phase = .failed ∧ a.Refuses) (c.run P s) t := by
  obtain ⟨htx, hrx, hpl⟩ := hs.failed_empty hf
  have hnot : ¬ s.phase.handshaking = true := by simp [hf, FdPhase.handshaking]
  cases c with
  | send plaintext flags fuel =>
    refine safe_bind (safe_after t ?_ ?_ ?_ (overlaySend_conduct hs flags))
    · intro u s' o h
      cases o with
      | send => exact absurd hf h.2
      | recv => exact absurd h.2.1 hnot
      | _ => rfl
    · exact fun u s' h => absurd (h.1 hf) (Nat.ne_of_gt hc)
    · intro u s' r h
      obtain ⟨e, rfl, -⟩ := h.refused (h.failed hf)
      exact ⟨h.failed hf, trivial⟩
  | recv len hlen flags fuel =>
    refine safe_bind (safe_after t ?_ ?_ ?_ (overlayRecv_conduct hs len flags))
    · intro u s' o h
      cases o with
      | send => exact absurd h.2 hnot
      | recv => exact absurd hf h.2.1
      | _ => rfl
    · exact fun u s' h => absurd (h.1 hf) (Nat.ne_of_gt hc)
    · intro u s' r h
      rw [h.refused (h.failed hf)]
      exact ⟨h.failed hf, trivial⟩
  | driveHandshake fuel =>
    obtain ⟨n, rfl⟩ := Nat.exists_eq_succ_of_ne_zero (Nat.ne_of_gt hc)
    simp [FdCall.run, SyntriassOverlay.driveHandshake, iter, hrx, tryPopFrame_nil, hf,
      FdRet.Refuses]
  | staleIdleConfig =>
    refine safe_bind (failIfStaleIdleConfig_rule shut_lenient ?_ ?_)
    · exact fun u _ => ⟨hf, trivial⟩
    · exact fun u s' _ hf' => ⟨hf', trivial⟩
  | inheritedAfterFork =>
    refine safe_bind (inheritedAfterFork_rule shut_lenient ?_ ?_)
    · exact fun u _ => ⟨hf, trivial⟩
    · exact fun u s' _ hf' => ⟨hf', trivial⟩
  | retire epoch =>
    simp only [FdCall.run, retireIdleSession, bind_apply, get_apply, bind_done]
    split
    · simp only [bind_apply]
      refine safe_bind (safe_bind (failClosed_rule shut_lenient (fun _ => rfl) ?_))
      exact ⟨rfl, trivial⟩
    · exact ⟨hf, trivial⟩

/-- A call that ends in a closed session is refused, whatever it had done before. -/
theorem FdCall.run_refused (hs : s.Sound) (c : FdCall) :
    Safe unasked (fun _ s' a => s'.phase = .failed → a.Refuses) (c.run P s) [] := by
  cases c with
  | send plaintext flags fuel =>
    refine safe_bind (safe_after [] (fun _ _ _ _ => trivial) (fun _ _ _ => trivial) ?_
      (overlaySend_conduct hs flags))
    intro u s' r h hf
    obtain ⟨e, rfl, -⟩ := h.refused hf
    trivial
  | recv len hlen flags fuel =>
    refine safe_bind (safe_after [] (fun _ _ _ _ => trivial) (fun _ _ _ => trivial) ?_
      (overlayRecv_conduct hs len flags))
    intro u s' r h hf
    rw [h.refused hf]
    trivial
  | driveHandshake | staleIdleConfig | inheritedAfterFork | retire =>
    exact safe_bind (safe_of_extends (fun _ _ _ => trivial) (fun _ _ => trivial)
      (fun _ _ _ _ => trivial) _)

theorem driveHandshake_once {fuel : ℕ} (hfuel : 0 < fuel) :
    Safe uncut (fun u s' _ => (pops u).length ≤ 1 ∧
        (pops u ≠ [] → (∃ keys, s'.phase = .active keys) ∨ s'.phase = .failed))
      (driveHandshake P fuel s) [] := by
  refine driveHandshake_rule (fun _ _ _ _ _ => trivial) fuel ?_ ?_ ?_
  · exact fun h0 => absurd h0 (Nat.ne_of_gt hfuel)
  · exact fun _ => ⟨Nat.zero_le _, fun hne => absurd rfl hne⟩
  · intro u s' hend hone
    have hph := hend.phase
    refine ⟨hone, fun _ => ?_⟩
    cases hs : s'.phase with
    | active keys => exact .inl ⟨keys, rfl⟩
    | failed => exact .inr rfl
    | _ => rw [hs] at hph; cases hph

/-! ### Within the call that closes, and after it -/

/-- A call has run to `p`. No real call came after the session was closed, and if the
call ends with a closed session it is refused and has delivered nothing. -/
structure ClosesOnce (u : Tr) (p : Prog Resp FdState FdRet) : Prop where
  pending : ∀ s o k, p = .call s o k → o.io = true → s.Sound ∧ s.phase ≠ .failed
  silent : ∀ u₁ e u₂, u = u₁ ++ e :: u₂ → e.op.io = true → closings u₁ = []
  sound : ∀ s a, p = .done s a → s.Sound
  refused : ∀ s a, p = .done s a → s.phase = .failed → a.Refuses ∧ deliveredBytes u = []

/-- The calls in `log` were made on a closed session. -/
structure Absorbed (log : List ({c : FdCall // c.Fueled} × FdRet)) (u : Tr)
    (status : Status Resp {c : FdCall // c.Fueled} FdState FdRet) : Prop where
  failed : ∀ s, status = .idle s → s.phase = .failed ∧ deliveredBytes u = []
  still : Still u
  pending : ∀ c s o k, status = .busy c (.call s o k) → o.io = false
  returns : ∀ c s, status ≠ .busy c (.cut s)
  refused : ∀ e ∈ log, e.2.Refuses

theorem returnedBy_of_refuses {e : FdCall × FdRet} (h : e.2.Refuses) : returnedBy e = [] := by
  obtain ⟨c, a⟩ := e
  cases c with
  | recv =>
    cases a with
    | received r =>
      cases r with
      | ok => exact h.elim
      | error => rfl
    | _ => rfl
  | _ => rfl

theorem ioInv_history {aside : Prop} {s₀ : FdState} {o : Op} (h : (ioInv P aside s₀).call t s o)
    (ho : o.io = true) : s.phase ≠ .failed ∧ ∃ pd, History P aside s₀ t s pd := by
  cases o with
  | send =>
    obtain ⟨hlive, -, -, pd, -, hh⟩ := h
    exact ⟨hlive, pd, hh⟩
  | recv => exact ⟨h.1, none, h.2.2.2⟩
  | _ => cases ho

theorem closesOnce_of_at (hs : s.Sound) (hset : s.Settled) {c : FdCall}
    {u : Tr} {p : Prog Resp FdState FdRet} (h : At (c.run P s) u p) : ClosesOnce u p := by
  have hrun : Reach (FdCall.run P) s [] u (.busy c p) := by
    simpa using reach_at (Reach.start.enter c) h
  have hheld := run_held (P := P) id (fun _ _ => trivial) hs hset hrun
  refine ⟨?_, ?_, ?_, ?_⟩
  · rintro s' o k rfl ho
    obtain ⟨hlive, pd, hh⟩ := ioInv_history hheld.1 ho
    exact ⟨hh.sound hs, hlive⟩
  · intro u₁ e u₂ hu he
    obtain ⟨log, i, s', k, hr⟩ := hrun.event hu
    have hheld₁ := run_held (P := P) id (fun _ _ => trivial) hs hset hr
    obtain ⟨hlive, pd, hh⟩ := ioInv_history hheld₁.1 he
    by_contra hne
    exact hlive (hh.failed_iff.mpr (.inr hne))
  · rintro s' a rfl
    exact (hheld : AtRest _ _ _ _ _ _).history.sound hs
  · rintro s' a rfl hf
    have hrefuses : a.Refuses := safe_at (FdCall.run_refused hs c) h hf
    have hreturned := (hheld : AtRest _ _ _ _ _ _).returned
    refine ⟨hrefuses, ?_⟩
    simpa [returnedPlain, returnedBy_of_refuses (e := (c, a)) hrefuses] using hreturned

theorem absorbed_of_reach (hs : s.Sound) (hf : s.phase = .failed)
    {log : List ({c : FdCall // c.Fueled} × FdRet)} {u : Tr}
    {status : Status Resp {c : FdCall // c.Fueled} FdState FdRet}
    (h : Reach (fun c => FdCall.run P c.1) s log u status) : Absorbed log u status := by
  have hheld : ∀ {log u status}, Reach (fun c : {c : FdCall // c.Fueled} => FdCall.run P c.1)
      s log u status → Held shut (fun log u s' =>
        (s'.phase = .failed ∧ ∀ e ∈ log, e.2.Refuses) ∧
        AtRest P True s (log.map (Prod.map Subtype.val id)) u s') log u status := by
    refine reach_held ⟨⟨hf, by simp⟩, atRest_start (FdState.settled_of_failed hf)⟩ ?_
    rintro c log u s' ⟨⟨hf', hlog⟩, hrest⟩
    refine safe_mono ?_ (safe_both (FdCall.run_shut (hrest.history.sound hs) hf' c.1 c.2)
      (FdCall.run_safe hs c.1 (fun _ => trivial) hrest))
    rintro u' s'' a ⟨⟨hf'', ha⟩, hrest'⟩
    refine ⟨⟨hf'', ?_⟩, by simpa using hrest'⟩
    intro e he
    rcases List.mem_append.mp he with he | he
    · exact hlog e he
    · rw [List.mem_singleton.mp he]
      exact ha
  refine ⟨?_, ?_, ?_, ?_, ?_⟩
  · rintro s' rfl
    obtain ⟨⟨hf', hlog⟩, hrest⟩ := hheld h
    refine ⟨hf', hrest.returned.trans (List.flatMap_eq_nil_iff.mpr ?_)⟩
    intro e he
    obtain ⟨e, hmem, rfl⟩ := List.mem_map.mp he
    exact returnedBy_of_refuses (hlog e hmem)
  · intro e he
    obtain ⟨u₁, u₂, hu⟩ := List.append_of_mem he
    obtain ⟨log', c, s', k, hr⟩ := h.event hu
    exact (hheld hr).1
  · rintro c s' o k rfl
    exact (hheld h).1
  · rintro c s' rfl
    exact hheld h
  · obtain ⟨u₀, s', -, hr⟩ := h.rested
    exact (hheld hr).1.2

end

/-- Fail-closed is absorbing. The last part is about every state `drive_handshake` is entered in,
also within a call. -/
theorem fail_closed_absorbing {P : Primitives} {role : Role} {c : Tr} {st s : FdState}
    {log : List (FdCall × FdRet)} {t : Tr} (hst : Built P role c st)
    (hrun : Reach (FdCall.run P) st log t (.idle s)) :
    s.Sound ∧
    (∀ c u p, At (FdCall.run P c s) u p → ClosesOnce u p) ∧
    (s.phase = .failed → ∀ log u status,
      Reach (fun c : {c : FdCall // c.Fueled} => FdCall.run P c.1) s log u status →
        Absorbed log u status) ∧
    ∀ s₁ fuel, 0 < fuel → Safe uncut (fun u s' _ => (pops u).length ≤ 1 ∧
        (pops u ≠ [] → (∃ keys, s'.phase = .active keys) ∨ s'.phase = .failed))
      (driveHandshake P fuel s₁) [] := by
  obtain ⟨hs, hrest⟩ := hst.atRest hrun
  refine ⟨hs, ?_, ?_, ?_⟩
  · exact fun c u p h => closesOnce_of_at hs hrest.settled h
  · exact fun hf log u status h => absorbed_of_reach hs hf h
  · exact fun s₁ fuel hfuel => driveHandshake_once hfuel

/-- A responder that was sent six zero bytes, which are no frame. -/
theorem fail_closed_absorbing_malformed : ∃ c s log t,
    Built specimen .responder c responderSession ∧
    Reach (FdCall.run specimen) responderSession log t (.idle s) ∧ closings t = [.handshakeHeader] ∧
    ∀ log u status,
      Reach (fun c : {c : FdCall // c.Fueled} => FdCall.run specimen c.1) s log u status →
        Absorbed log u status := by
  obtain ⟨c, hbuilt⟩ := responderSession_built specimen
  have hreach := played_reach (P := specimen) responderSession [.recv 1 Nat.one_pos 0 3]
    { fallbackKernel [] with incoming := [List.replicate 6 0] }
  refine ⟨c, _, _, _, hbuilt, hreach, rfl, ?_⟩
  exact (fail_closed_absorbing hbuilt hreach).2.2.1 rfl

end SyntriassOverlay
