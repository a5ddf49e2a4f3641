import SyntriassOverlay.Closed
import SyntriassOverlay.Retry
import SyntriassOverlay.Egress

/-!
# Closing a descriptor (interceptor.rs:1289-1311)

The interposed `close` removes the session from the registry and calls the real `close`;
it does not flush the session. Whether everything `overlay_send` has accepted is with the
kernel by then depends on what the last calls have left in the backlog.
-/

namespace SyntriassOverlay
open Crypto Resumption

section
variable {P : Primitives} {s₀ s : FdState} {t : Tr} {pd : Option Bytes}

/-! ### Sessions that nothing but a reload has closed -/

theorem Rejection.site_ne {f : ParsedFrame} {pre : Tr} {site : FailSite}
    (h : Rejection P s f pre site) : site ≠ .retired := by
  cases h <;> exact fun he => by cases he

theorem Refusal.site_ne {keys : SessionKeys} {f : ParsedFrame} {pre : Tr} {site : FailSite}
    (h : Refusal P s keys f pre site) : site ≠ .retired := by
  cases h <;> exact fun he => by cases he

theorem Failing.site_ne {site : FailSite} (h : Failing P t s pd site) : site ≠ .retired := by
  cases h with
  | flush _ _ hsite | header _ _ hsite =>
    rintro rfl
    simp at hsite
  | _ => exact fun he => by cases he

theorem overflow_site_ne {site : FailSite} (h : site ∈ [.writeOverflow, .recvOverflow]) :
    site ≠ .retired := by
  rintro rfl
  simp at h

/-- Every byte made is sent or waits in the backlog, also after a reload has retired the
session: only a session with an empty backlog is retired. -/
theorem History.kept {aside : Prop} (h : History P aside s₀ t s pd)
    (hsites : ∀ site ∈ closings t, site = .retired) :
    sentBytes t ++ s.txBacklog ++ pending s₀.policySuite pd = made s₀ t := by
  by_cases hf : s.phase = .failed
  case neg => exact h.wire.alive hf
  have hkeep : ∀ {t u : Tr}, sentBytes u = [] → records u = [] → activations u = [] →
      sentBytes (t ++ u) = sentBytes t ∧ made s₀ (t ++ u) = made s₀ t := by
    intro t u hsent hrec hact
    exact ⟨by rw [sentBytes_append, hsent, List.append_nil], made_append_inert hrec hact⟩
  induction h with
  | start => simp [made, sentBytes, pending, replies, activations, records, dataFrames]
  | quiet _ o ho r ih =>
    have hi := Op.inert_of_quiet ho r
    obtain ⟨hsent, hmade⟩ := hkeep hi.sent hi.records hi.activations
    rw [hsent, hmade]
    exact ih (fun site hs => hsites site (by simp [hs])) hf
  | sent _ hphase | stalled _ hphase | pulled _ hphase | unread _ hphase | queued _ hphase =>
    exact absurd hf hphase
  | activated | opened | sealed => cases hf
  | rejected _ _ _ hr =>
    exact absurd (hsites _ (by simp)) hr.site_ne
  | refused _ _ _ hr => exact absurd (hsites _ (by simp)) hr.site_ne
  | failed _ hr => exact absurd (hsites _ (by simp)) hr.site_ne
  | flooded _ _ _ _ _ _ _ _ hsite => exact absurd (hsites _ (by simp)) (overflow_site_ne hsite)
  | @delivered t s _ n _ ih =>
    obtain ⟨hsent, hmade⟩ :=
      hkeep (t := t) (u := [noted (.delivered (s.rxPlain.take n))]) rfl rfl rfl
    rw [hsent, hmade]
    exact ih (fun site hs => hsites site (by simp [hs])) hf
  | @restamped t s _ hphase epoch ih =>
    obtain ⟨hsent, hmade⟩ := hkeep (t := t) (u := [⟨.configEpoch, epoch⟩]) rfl rfl rfl
    rw [hsent, hmade]
    exact ih (fun site hs => hsites site (by simp [hs])) hphase
  | @retired t s h _ hidle epoch ih =>
    obtain ⟨hsent, hmade⟩ := hkeep (t := t) (sentBytes_failSeg s .retired)
      (records_failSeg s .retired) (activations_failSeg s .retired)
    have htx : s.txBacklog = [] := by
      simp only [FdState.isIdleForConfigReload, Bool.and_eq_true, List.isEmpty_iff] at hidle
      exact hidle.1.1
    have hall : sentBytes t ++ s.txBacklog ++ pending s₀.policySuite none = made s₀ t := by
      by_cases hfs : s.phase = .failed
      · exact ih (fun site hs => hsites site (by simp [hs])) hfs
      · exact h.wire.alive hfs
    rw [hsent, hmade, ← hall, htx]
    rfl

theorem History.not_retired (h : History P False s₀ t s pd) : .retired ∉ closings t := by
  have hkeep : ∀ {t u : Tr} {sites : List FailSite}, .retired ∉ closings t → closings u = sites →
      .retired ∉ sites → .retired ∉ closings (t ++ u) := by
    intro t u sites ht hu hsites
    rw [closings_append, hu]
    exact fun hmem => (List.mem_append.mp hmem).elim ht hsites
  have hone : ∀ {site : FailSite}, site ≠ .retired → FailSite.retired ∉ [site] :=
    fun hne hmem => hne (List.mem_singleton.mp hmem).symm
  induction h with
  | start => exact List.not_mem_nil
  | quiet _ o ho r ih => exact hkeep ih (Op.inert_of_quiet ho r).closings List.not_mem_nil
  | sent _ _ _ _ _ ih | stalled _ _ _ _ _ _ ih | pulled _ _ _ _ _ _ _ _ ih
  | unread _ _ _ _ _ _ ih | delivered _ _ _ ih | queued _ _ _ _ ih | restamped _ _ _ ih
  | opened _ _ _ _ _ _ _ ih | sealed _ _ _ _ ih => exact hkeep ih rfl List.not_mem_nil
  | activated _ _ ha ih =>
    rw [List.append_assoc]
    exact hkeep ih (by simp [ha.inert.closings]) List.not_mem_nil
  | rejected _ _ _ hr ih =>
    rw [List.append_assoc]
    exact hkeep ih (by simp [hr.inert.closings]) (hone hr.site_ne)
  | refused _ _ _ hr ih =>
    rw [List.append_assoc]
    exact hkeep ih (by simp [hr.inert.closings]) (hone hr.site_ne)
  | failed _ hf ih => exact hkeep ih (by simp) (hone hf.site_ne)
  | flooded _ _ _ _ _ _ _ _ hsite ih =>
    rw [List.append_assoc]
    exact hkeep ih (by simp) (hone (overflow_site_ne hsite))
  | retired _ haside => exact haside.elim

theorem acceptedBy_of_refuses {e : FdCall × FdRet} (h : e.2.Refuses) : acceptedBy e = [] := by
  obtain ⟨c, a⟩ := e
  cases c with
  | send =>
    cases a with
    | sent r =>
      cases r with
      | ok => exact h.elim
      | error => rfl
    | _ => rfl
  | _ => rfl

/-- A call that hooks make, on a session that nothing but a reload has closed: what it
seals is what it accepts. -/
theorem FdCall.run_accepts (hs : s.Sound) (hset : s.Settled) {c : FdCall} (hc : c.hooked = true) :
    Safe unasked (fun u _ a => (∀ site ∈ closings u, site = .retired) →
      sealedPlain u = acceptedBy (c, a)) (c.run P s) [] := by
  by_cases hout : c.outside = true
  · cases c with
    | retire epoch =>
      have hsame : Safe (ioInv P True s) (fun u _ _ => Same [] u) (retireIdleSession epoch s) [] :=
        retireIdleSession_safe trivial epoch .start hset fun t' s' _ h _ => h
      refine safe_bind (safe_after [] (fun _ _ _ _ => trivial) (fun _ _ _ => trivial) ?_ hsame)
      exact fun u s' _ h _ => h.sealed
    | driveHandshake => cases hc
    | _ => cases hout
  · have hstart : AtRest P False s [] [] s := atRest_start hset
    refine safe_mono ?_ (safe_both (FdCall.run_refused hs c)
      (FdCall.run_safe hs c (fun h => absurd h hout) hstart))
    rintro u s' a ⟨hrefused, hrest⟩ hsites
    have hnone : closings u = [] := by
      refine List.eq_nil_iff_forall_not_mem.mpr fun site hsite => ?_
      exact hrest.history.not_retired (hsites site hsite ▸ hsite)
    by_cases hf : s'.phase = .failed
    · have hfs : s.phase = .failed :=
        (hrest.history.failed_iff.mp hf).resolve_right fun hne => hne hnone
      have hact : activations u = [] := by
        cases hrest.history.beginning with
        | none h => exact h
        | once _ hact =>
          obtain ⟨act⟩ := hact
          have hhs := act.activation.handshaking
          rw [(act.history.handshaking_untouched hhs).1, hfs] at hhs
          cases hhs
      have hrec := (hrest.history.inactive_records (by simp [hfs]) hact).1
      rw [acceptedBy_of_refuses (e := (c, a)) (hrefused hf), sealedPlain, hrec]
      rfl
    · simpa [acceptedPlain] using hrest.accepted hf

end

section
variable {P : Primitives} {pid : Pid} {se : Session}

/-- No call of `overlay_send` or `overlay_recv` has closed the session; the reload thread
may have retired it. -/
def Session.Unfailed (se : Session) : Prop := ∀ site ∈ closings se.trace, site = .retired

/-- Every byte of every frame with accepted plaintext was taken by the real `send`. -/
def Session.Delivered (se : Session) : Prop :=
  records se.trace ≠ [] → sentBytes se.trace = made se.start se.trace

theorem Session.Ok.accepted (h : se.Ok P pid) (hown : se.inherited = false)
    (hholder : se.holder ≠ some .gone) {s : FdState} (hidle : se.status = .idle s)
    (hsites : se.Unfailed) : sealedPlain se.trace = acceptedPlain se.log := by
  obtain ⟨hs, hset⟩ := h.sound hown
  have hreach := h.reach hholder
  rw [hidle] at hreach
  have hheld : Held unasked (fun log t s => AtRest P True se.start log t s ∧
      ((∀ site ∈ closings t, site = .retired) → sealedPlain t = acceptedPlain log))
      se.log se.trace (.idle s) := by
    refine reach_held_of (C := fun c => c.hooked = true) ⟨atRest_start hset, fun _ => rfl⟩ ?_
      hreach h.log_hooked fun c p hb => by cases hb
    rintro c log t s' hc ⟨hrest, hacc⟩
    have hcall : Safe unasked (fun t' _ a => (∀ site ∈ closings t', site = .retired) →
        sealedPlain t' = acceptedPlain (log ++ [(c, a)])) (c.run P s') t := by
      refine safe_after t (fun _ _ _ _ => trivial) (fun _ _ _ => trivial) ?_
        (FdCall.run_accepts (hrest.history.sound hs) hrest.settled hc)
      intro u s'' a hu hsites
      rw [sealedPlain_append, acceptedPlain_concat, hacc fun site hm => hsites site (by simp [hm]),
        hu fun site hm => hsites site (by simp [hm])]
    refine safe_mono ?_ (safe_both hcall (FdCall.run_safe hs c (fun _ => trivial) hrest))
    exact fun t' s'' a hboth => ⟨hboth.2, hboth.1⟩
  exact hheld.2 hsites

/-- What is still in the backlog is what the kernel has not taken. -/
theorem Session.Ok.delivered_iff (h : se.Ok P pid) (hown : se.inherited = false)
    (hholder : se.holder ≠ some .gone) {s : FdState} (hidle : se.status = .idle s)
    (hsites : se.Unfailed) :
    se.Delivered ↔ s.txBacklog = [] ∨ acceptedPlain se.log = [] := by
  have hheld := h.held hown hholder
  rw [hidle] at hheld
  have hkept := hheld.history.kept hsites
  have hnone : acceptedPlain se.log = [] ↔ records se.trace = [] := by
    rw [← h.accepted hown hholder hidle hsites]
    refine ⟨hheld.history.unframed, fun hrec => ?_⟩
    rw [sealedPlain, hrec]
    rfl
  have hempty : sentBytes se.trace = made se.start se.trace ↔ s.txBacklog = [] := by
    rw [← hkept]
    simp [pending]
  rw [hnone, Session.Delivered, hempty]
  tauto

end

theorem hookClose_trace {fd : Fd} {t : Trace HookResp} {o : HookOp}
    {k : HookResp o → Prog HookResp Unit HookRet} (h : At (hookClose fd ()) t (.call () o k))
    {c : RealCall} (ho : o = .real c) : t = [⟨.remove fd, ()⟩] := by
  let inv : Obligation HookResp Unit :=
    ⟨fun t _ o => ∀ c, o = .real c → t = [⟨.remove fd, ()⟩], fun _ _ => True⟩
  have hsafe : Safe inv (fun _ _ _ => True) (hookClose fd ()) [] :=
    ⟨fun c hc => (by cases hc), fun _ => ⟨fun _ _ => rfl, fun _ => trivial⟩⟩
  have hat := safe_at hsafe h
  exact hat.1 c ho

/-- `close` flushes nothing: when it is about to call the real `close`, everything that
was accepted on the descriptor is with the kernel if and only if the backlog is empty. -/
theorem Process.close_flushed_iff {P : Primitives} {pid : Pid} {p : Process} {tid : Tid}
    {th : Thread} {fd : Fd} {k : RealRet → Prog HookResp Unit HookRet}
    (hp : Process.Reachable P (Process.initial pid true) p) (htid : p.threads tid = some th)
    (hcall : th.call = .close fd) (hprog : th.prog = .call () (.real (.close fd)) k) :
    th.trace = [⟨.remove fd, ()⟩] ∧
    ∀ se ∈ p.sessions, se.fd = fd → ∀ s, se.status = .idle s → se.Unfailed →
      sealedPlain se.trace = acceptedPlain se.log ∧
      (se.Delivered ↔ s.txBacklog = [] ∨ acceptedPlain se.log = []) := by
  have hok := hp.ok (Process.initial_ok pid)
  refine ⟨?_, fun se hmem _ s hidle hsites => ?_⟩
  · have hruns := (hok.threads tid th htid).runs
    rw [hcall, hprog] at hruns
    exact hookClose_trace hruns rfl
  · obtain ⟨hown, hholder⟩ := hp.own se hmem
    have hse := hok.sessions se hmem
    exact ⟨hse.accepted hown hholder hidle hsites, hse.delivered_iff hown hholder hidle hsites⟩

/-- The process of `fallbackClient`, up to the real `close` of its descriptor. -/
def closingClient (room : List ℕ) : Process :=
  (Process.invoke specimen 0 (.close 3) 8 1 (fallbackClient room)).1

theorem closingClient_reachable (room : List ℕ) :
    Process.Reachable specimen (Process.initial 7 true) (closingClient room) :=
  .invoke _ _ _ (fallbackClient_reachable room)

/-- The thread is in `close`, about to call the real one. -/
def Thread.closing (th : Thread) (fd : Fd) : Bool :=
  match th.call, th.prog with
  | .close n, .call _ (.real (.close n')) _ => n == fd && n' == fd
  | _, _ => false

theorem Thread.closing_iff {th : Thread} {fd : Fd} : th.closing fd = true ↔
    th.call = .close fd ∧ ∃ k, th.prog = .call () (.real (.close fd)) k := by
  refine ⟨fun h => ?_, ?_⟩
  · unfold Thread.closing at h
    split at h
    case h_1 n _ n' k hcall hprog =>
      obtain ⟨rfl, rfl⟩ : n = fd ∧ n' = fd := by simpa using h
      exact ⟨hcall, k, hprog⟩
    case h_2 => cases h
  · rintro ⟨hcall, k, hprog⟩
    simp [Thread.closing, hcall, hprog]

/-- What a session was told to send, what became of it, and what is left of it. -/
structure Outcome where
  fd : Fd
  accepted : Bytes
  closings : ℕ
  records : ℕ
  sent : ℕ
  made : ℕ
  backlog : Option ℕ
  deriving DecidableEq

def Session.outcome (se : Session) : Outcome where
  fd := se.fd
  accepted := acceptedPlain se.log
  closings := (SyntriassOverlay.closings se.trace).length
  records := (SyntriassOverlay.records se.trace).length
  sent := (sentBytes se.trace).length
  made := (SyntriassOverlay.made se.start se.trace).length
  backlog := match se.status with
    | .idle s => some s.txBacklog.length
    | .busy _ _ => none

theorem closingClient_closing (room : List ℕ)
    (h : ((closingClient room).threads 0).map (Thread.closing · 3) = some true) :
    ∃ th k, (closingClient room).threads 0 = some th ∧ th.call = .close 3 ∧
      th.prog = .call () (.real (.close 3)) k := by
  obtain ⟨th, hth, hclosing⟩ := Option.map_eq_some_iff.mp h
  obtain ⟨hcall, k, hprog⟩ := Thread.closing_iff.mp hclosing
  exact ⟨th, k, hth, hcall, hprog⟩

theorem closingClient_session {room : List ℕ} {v : Outcome}
    (h : (closingClient room).sessions.map Session.outcome = [v]) :
    ∃ se ∈ (closingClient room).sessions, se.outcome = v := by
  rw [← List.mem_map, h]
  exact List.mem_singleton.mpr rfl

/-- With room for the hello and the record, all 46 bytes are sent before the `close`. -/
theorem Process.close_flushed_iff_empty :
    ∃ se ∈ (closingClient [100, 100]).sessions, acceptedPlain se.log = ascii "hi" ∧
      se.Delivered := by
  have hout : (closingClient [100, 100]).sessions.map Session.outcome =
      [⟨3, ascii "hi", 0, 1, 46, 46, some 0⟩] := by decide +kernel
  obtain ⟨th, k, htid, hcall, hprog⟩ := closingClient_closing [100, 100] (by decide +kernel)
  obtain ⟨se, hse, hview⟩ := closingClient_session hout
  simp only [Session.outcome, Outcome.mk.injEq] at hview
  obtain ⟨hfd, hacc, hsites, -, -, -, hst⟩ := hview
  cases hstatus : se.status with
  | busy => simp [hstatus] at hst
  | idle s =>
    have htx : s.txBacklog = [] := by simpa [hstatus] using hst
    have hiff := (Process.close_flushed_iff (closingClient_reachable [100, 100]) htid hcall hprog).2
      se hse hfd s hstatus fun site hmem => by simp [List.length_eq_zero_iff.mp hsites] at hmem
    exact ⟨se, hse, hacc, hiff.2.mpr (.inl htx)⟩

/-- With room for the hello only, `overlay_send` has accepted its two bytes and their
record of 24 bytes is lost. -/
theorem Process.close_flushed_not : ∃ p th k se s,
    Process.Reachable specimen (Process.initial 7 true) p ∧ p.threads 0 = some th ∧
    th.call = .close 3 ∧ th.prog = .call () (.real (.close 3)) k ∧ se ∈ p.sessions ∧ se.fd = 3 ∧
    se.status = .idle s ∧ se.Unfailed ∧ acceptedPlain se.log = ascii "hi" ∧
    s.txBacklog.length = 24 ∧ ¬ se.Delivered := by
  have hout : (closingClient [100]).sessions.map Session.outcome =
      [⟨3, ascii "hi", 0, 1, 22, 46, some 24⟩] := by decide +kernel
  obtain ⟨th, k, htid, hcall, hprog⟩ := closingClient_closing [100] (by decide +kernel)
  obtain ⟨se, hse, hview⟩ := closingClient_session hout
  simp only [Session.outcome, Outcome.mk.injEq] at hview
  obtain ⟨hfd, hacc, hsites, hrec, hsent, hmade, hst⟩ := hview
  cases hstatus : se.status with
  | busy => simp [hstatus] at hst
  | idle s =>
    refine ⟨_, th, k, se, s, closingClient_reachable [100], htid, hcall, hprog, hse, hfd, hstatus,
      ?_, hacc, by simpa [hstatus] using hst, fun hdel => ?_⟩
    · intro site hmem
      rw [List.length_eq_zero_iff.mp hsites] at hmem
      cases hmem
    · have heq := hdel fun hnil => by simp [hnil] at hrec
      rw [heq, hmade] at hsent
      cases hsent

end SyntriassOverlay
