import SyntriassOverlay.Conduct
import SyntriassOverlay.Schedule

/-!
# What a call does before it waits for the peer

A call that is told not to wait must not ask a second time, and a call that waits for the
peer must have sent what the peer waits for. Both hold of `overlay_send` and
`overlay_recv` on some descriptors and in some phases only.
-/

namespace SyntriassOverlay
open Crypto Resumption

/-! ### Unsent bytes -/

section
variable {P : Primitives} {s : FdState} {keys : SessionKeys}

/-- Records without plaintext are opened and leave nothing to return. -/
theorem openRecords_usedUp (h : UsedUp P s.policySuite keys s.rxWire)
    (hphase : s.phase = .active keys) (hplain : s.rxPlain = []) :
    ∃ n, ∀ fuel, n < fuel → ∃ u s', At (openRecords P fuel s) u (.done s' (.ok ())) ∧ Still u ∧
      s'.rxPlain = [] := by
  generalize hsuite : s.policySuite = suite at h
  generalize hwire : s.rxWire = wire at h
  induction h generalizing s with
  | waiting hpop =>
    refine ⟨0, fun fuel hfuel => ?_⟩
    obtain ⟨m, rfl⟩ := Nat.exists_eq_succ_of_ne_zero (Nat.ne_of_gt hfuel)
    refine ⟨[], s, ?_, still_nil, hplain⟩
    have hdone : openRecords P (m + 1) s = .done s (.ok ()) := by
      simp [openRecords, iter, hwire, hpop]
    rw [hdone]
    exact .refl
  | @empty keys keys' wire f rest hpop htag hid hopen _ ih =>
    obtain ⟨n, hn⟩ := ih (s := { s with rxWire := rest, phase := .active keys' }) rfl hplain hsuite
      rfl
    subst hsuite
    refine ⟨n + 1, fun fuel hfuel => ?_⟩
    obtain ⟨m, rfl⟩ := Nat.exists_eq_succ_of_ne_zero (Nat.ne_of_gt (Nat.zero_lt_of_lt hfuel))
    obtain ⟨u, s', hat, hu, hp⟩ := hn m (Nat.lt_of_succ_lt_succ hfuel)
    have happend : FdState.appendRxPlain { s with rxWire := rest, phase := .active keys' } [] =
        some { s with rxWire := rest, phase := .active keys' } := by
      refine FdState.appendRxPlain_eq_some.mpr ⟨Nat.zero_le _, ?_⟩
      simp
    have hstep : openRecords P (m + 1) s = .call { s with rxWire := rest } (.note (.popped f))
        fun _ => .call { s with rxWire := rest, phase := .active keys' }
          (.note (.opened keys.rx.key (nonceFromCounter keys.rx.counter) f.payload []))
          fun _ => openRecords P m { s with rxWire := rest, phase := .active keys' } := by
      simp [openRecords, iter, hwire, hpop, htag, hid, hphase, hopen, happend, note]
    have hround : At (openRecords P (m + 1) s) ([noted (.popped f), noted (.opened keys.rx.key
        (nonceFromCounter keys.rx.counter) f.payload [])] ++ u) (.done s' (.ok ())) := by
      rw [hstep]
      exact .head (.head hat)
    exact ⟨_, s', hround, ((still_one rfl).append (still_one rfl)).append hu, hp⟩

theorem overlayRecv_reads (hphase : s.phase = .active keys) (hplain : s.rxPlain = [])
    (hused : UsedUp P s.policySuite keys s.rxWire) (len : ℕ) (flags : Flags) :
    ∃ fuel u s' k, At (overlayRecv P len flags fuel s) u (.call s' (.recv flags) k) ∧ Still u := by
  obtain ⟨n, hn⟩ := openRecords_usedUp hused hphase hplain
  obtain ⟨u, s', hat, hu, hp⟩ := hn (n + 1) (Nat.lt_succ_self n)
  have hround : At (recvRound P len flags true (n + 1) s) u (pullForRecv flags true s') := by
    simp only [recvRound, openOrPull, bind_apply, get_apply, bind_done, hplain, hphase,
      FdPhase.handshaking, List.isEmpty_nil, Bool.not_true, Bool.false_eq_true, if_false]
    convert hat.bind _ using 1
    simp [hp]
  have hguards := guards_at (fun blocking => iter (fun (_ : Unit) =>
    recvRound P len flags blocking (n + 1)) (n + 1) ()) s (some 0)
  refine ⟨n + 1, _, s', _, hguards.trans (hround.bind _), Still.append ?_ hu⟩
  intro e he
  simp only [List.mem_cons, List.not_mem_nil, or_false] at he
  rcases he with rfl | rfl | rfl <;> rfl

end

/-- `overlay_recv` tries to send what is pending before it reads, except on an active
session that has nothing buffered to return. -/
theorem overlayRecv_offers_iff {P : Primitives} {role : Role} {c : Tr} {st s : FdState}
    {log : List (FdCall × FdRet)} {t : Tr} (hst : Built P role c st)
    (hrun : Reach (FdCall.run P) st log t (.idle s)) (hlive : s.phase ≠ .failed)
    (htx : s.txBacklog ≠ []) :
    (∀ len hlen flags fuel u s' flags' k,
      At ((FdCall.recv len hlen flags fuel).run P s) u (.call s' (.recv flags') k) →
        Offered s.txBacklog u) ↔
    ∀ keys, s.phase = .active keys → s.rxPlain = [] → ¬ UsedUp P s.policySuite keys s.rxWire := by
  obtain ⟨hs, -⟩ := hst.atRest hrun
  constructor
  · intro hall keys hphase hplain hused
    obtain ⟨fuel, u, s', k, hat, hu⟩ := overlayRecv_reads hphase hplain hused 1 0
    obtain ⟨flags, r, hmem⟩ := hall 1 Nat.one_pos 0 fuel u s' 0 _ (hat.bind _)
    cases hu _ hmem
  · intro hkeys len hlen flags fuel u s' flags' k hat
    have hsafe : Safe (recvInv P s flags fuel) (fun _ _ _ => True)
        ((FdCall.recv len hlen flags fuel).run P s) [] :=
      safe_bind (safe_mono (fun _ _ _ _ => trivial) (overlayRecv_conduct hs len flags))
    obtain ⟨-, -, -, hoffered, hused⟩ := (safe_at hsafe hat).1
    cases hphase : s.phase with
    | failed => exact absurd hphase hlive
    | active keys =>
      obtain ⟨hplain, hused⟩ := hused keys hphase
      exact absurd hused (hkeys keys hphase hplain)
    | responderAwaitingClientHello | initiatorAwaitingServerHello _
    | initiatorAwaitingFallbackFinished _ => exact hoffered (by rw [hphase]; rfl) htx

/-- A fallback client that has not sent its hello. -/
theorem overlayRecv_offers_hello : ∃ c st, Built specimen .initiator c st ∧ st.txBacklog ≠ [] ∧
    ∀ len hlen flags fuel u s' flags' k,
      At ((FdCall.recv len hlen flags fuel).run specimen st) u (.call s' (.recv flags') k) →
        Offered st.txBacklog u := by
  have hnew : ∃ c st, Built specimen .initiator c st ∧ st.txBacklog ≠ [] ∧
      st.phase.handshaking = true :=
    ⟨_, _, at_runWith (fun o k => Kernel.answer k 7 o) 20 _ (fallbackKernel []), by decide, rfl⟩
  obtain ⟨c, st, hbuilt, htx, hhs⟩ := hnew
  refine ⟨c, st, hbuilt, htx, (overlayRecv_offers_iff hbuilt .start ?_ htx).mpr ?_⟩
  · exact FdPhase.ne_failed_of_handshaking hhs
  · intro keys hk
    rw [hk] at hhs
    cases hhs

/-- A kernel whose `send` takes ten bytes of the answer to a fallback hello. -/
def slowPeer : Kernel :=
  { fallbackKernel [10] with
    incoming := [frameBytes fallbackWireId typeFallbackHello (ramp 16).val] }

/-- The responder has sent ten bytes of its answer and is active; the next call reads
without trying to send the rest. -/
theorem overlayRecv_offers_not : ∃ c log t s, Built specimen .responder c responderSession ∧
    Reach (FdCall.run specimen) responderSession log t (.idle s) ∧ s.phase ≠ .failed ∧
    s.txBacklog ≠ [] ∧ ∃ len hlen flags fuel u s' flags' k,
      At ((FdCall.recv len hlen flags fuel).run specimen s) u (.call s' (.recv flags') k) ∧
        Still u := by
  obtain ⟨c, hbuilt⟩ := responderSession_built specimen
  have hplay : ∃ log t s keys, Reach (FdCall.run specimen) responderSession log t (.idle s) ∧
      s.phase = .active keys ∧ s.txBacklog ≠ [] ∧ s.rxPlain = [] ∧ s.rxWire = [] :=
    ⟨_, _, _, _, played_reach responderSession [.recv 1 Nat.one_pos 0 3] slowPeer, rfl,
      by decide, rfl, rfl⟩
  obtain ⟨log, t, s, keys, hreach, hphase, htx, hplain, hwire⟩ := hplay
  have hused : UsedUp specimen s.policySuite keys s.rxWire := .waiting (by rw [hwire]; rfl)
  obtain ⟨fuel, u, s', k, hat, hu⟩ := overlayRecv_reads hphase hplain hused 1 0
  exact ⟨c, log, t, s, hbuilt, hreach, by simp [hphase], htx, 1, Nat.one_pos, 0, fuel, u, s', 0, _,
    hat.bind _, hu⟩

/-! ### Calls that must not wait -/

def msgDontwait : Flags := 0x40

/-- The descriptor's status flags are `fl` whenever they are asked for. -/
def Flagged (fl : ℕ) (t : Tr) : Prop := ∀ r, (⟨.getfl, r⟩ : Ev Resp) ∈ t → r = some fl

/-- No real call has moved bytes after the first `n` events. -/
def Stalled (n : ℕ) (t : Tr) : Prop := progress (t.drop n) = 0

/-- What a call must keep to that is not to wait, on a descriptor with the flags `fl`:
after a read that would block it reads no more and returns that error; and it returns if
nothing moves any more. `call` is the call with a bound on the rounds of its loops. -/
structure NeverWaits (P : Primitives) (fl : ℕ) (s : FdState) (call : ℕ → FdCall) : Prop where
  once : ∀ fuel u s' flags k e, At ((call fuel).run P s) u (.call s' (.recv flags) k) →
    Flagged fl u → ¬ Dry u e
  error : ∀ fuel u s' a e, At ((call fuel).run P s) u (.done s' a) → Flagged fl u → Dry u e →
    a = .sent (.error e) ∨ a = .received (.error e)
  returns : ∀ m, ∃ fuel, ∀ {τ : Type} (answer : (o : Op) → τ → Resp o × τ) (w : τ),
    (∀ n, Flagged fl (runWith answer n ((call fuel).run P s) w).2.1 ∧
      Stalled m (runWith answer n ((call fuel).run P s) w).2.1) →
    ∃ n s' a, (runWith answer n ((call fuel).run P s) w).1 = .done s' a

theorem Flagged.polling {fl : ℕ} {t : Tr} (h : Flagged fl t) (hfl : fl &&& oNonblock ≠ 0) :
    Polling t := by
  intro r hr
  rw [h r hr]
  simpa [blocks] using hfl

theorem Stalled.progress_le {m : ℕ} {t : Tr} (h : Stalled m t) : progress t ≤ m := by
  have hsplit : progress t = progress (t.take m) + progress (t.drop m) := by
    rw [← progress_append, List.take_append_drop]
  have hle : progress (t.take m) ≤ (t.take m).length := List.countP_le_length
  rw [hsplit, h, Nat.add_zero]
  exact hle.trans (List.length_take_le m t)

section
variable {P : Primitives} {s : FdState} {fl : ℕ}

/-- A call keeps to it when its conduct on a polled descriptor does. -/
theorem neverWaits_of_conduct {call : ℕ → FdCall} (inv : ℕ → Obligation Resp FdState) (bound : ℕ)
    (hfl : fl &&& oNonblock ≠ 0)
    (hsafe : ∀ fuel, Safe (inv fuel) (fun t _ a => Polling t → ∀ e, Dry t e →
      a = .sent (.error e) ∨ a = .received (.error e)) ((call fuel).run P s) [])
    (honce : ∀ fuel t s' flags, (inv fuel).call t s' (.recv flags) → Polling t → ∀ e, ¬ Dry t e)
    (hcut : ∀ fuel t s', (inv fuel).cut t s' → Polling t → fuel ≤ progress t + bound) :
    NeverWaits P fl s call := by
  refine ⟨?_, ?_, ?_⟩
  · intro fuel u s' flags k e hat hu
    exact honce fuel u s' flags (safe_at (hsafe fuel) hat).1 (hu.polling hfl) e
  · intro fuel u s' a e hat hu hd
    exact safe_at (hsafe fuel) hat (hu.polling hfl) e hd
  · intro m
    refine ⟨m + bound + 1, fun answer w hall => ?_⟩
    obtain ⟨n, hend⟩ := runWith_ends answer ((call (m + bound + 1)).run P s) w
    rcases hend with ⟨s', a, hdone⟩ | ⟨s', hcutoff⟩
    · exact ⟨n, s', a, hdone⟩
    · obtain ⟨hflag, hstall⟩ := hall n
      have hat := at_runWith answer n ((call (m + bound + 1)).run P s) w
      rw [hcutoff] at hat
      have hle := hcut _ _ s' (safe_at (hsafe _) hat) (hflag.polling hfl)
      rw [List.nil_append] at hle
      have hprog := hstall.progress_le
      omega

theorem overlaySend_neverWaits (hs : s.Sound) (hfl : fl &&& oNonblock ≠ 0) (plaintext : Bytes)
    (flags : Flags) : NeverWaits P fl s (.send plaintext flags) := by
  refine neverWaits_of_conduct (sendInv s plaintext flags) (plaintext.length + 1) hfl ?_ ?_ ?_
  · intro fuel
    refine safe_bind (safe_mono ?_ (overlaySend_conduct hs flags))
    intro t s' r h hp e hd
    rw [h.dry hp e hd]
    exact .inl rfl
  · exact fun fuel t s' flags h => h.2.2
  · exact fun fuel t s' h hp => h.2 hp

theorem overlayRecv_neverWaits (hs : s.Sound) (hfl : fl &&& oNonblock ≠ 0) {len : ℕ}
    (hlen : 0 < len) (flags : Flags) : NeverWaits P fl s (.recv len hlen flags) := by
  refine neverWaits_of_conduct (recvInv P s flags) (maxWireRxBuffer + 2) hfl ?_ ?_ ?_
  · intro fuel
    refine safe_bind (safe_mono ?_ (overlayRecv_conduct hs len flags))
    intro t s' r h hp e hd
    rw [h.dry hp e hd]
    exact .inr rfl
  · exact fun fuel t s' flags h => h.2.2.1
  · exact fun fuel t s' h hp => h.2 hp

/-- On a blocking descriptor a read that would block is made again. -/
theorem overlayRecv_spins (P : Primitives) (hfl : fl &&& oNonblock = 0) (flags : Flags) :
    ∃ u k, At ((FdCall.recv 1 Nat.one_pos flags 2).run P responderSession) u
      (.call responderSession (.recv flags) k) ∧ Flagged fl u ∧ Dry u EAGAIN := by
  have hround : recvRound P 1 flags true 2 responderSession =
      pullForRecv flags true responderSession := rfl
  have hloop : At (iter (fun (_ : Unit) => recvRound P 1 flags true 2) 2 () responderSession)
      [⟨.recv flags, .error EAGAIN⟩]
      (iter (fun (_ : Unit) => recvRound P 1 flags true 2) 1 () responderSession) := by
    exact .head .refl
  have hguards := guards_at (fun blocking => iter (fun (_ : Unit) =>
    recvRound P 1 flags blocking 2) 2 ()) responderSession (some fl)
  have hblocks : blocks (some fl) = true := by simpa [blocks] using hfl
  rw [hblocks] at hguards
  refine ⟨_, _, (hguards.trans hloop).bind _, ?_, rfl, flags, by simp⟩
  intro r hr
  simpa using hr

end

/-- A call that must not wait does not, unless it was told so by `MSG_DONTWAIT` alone. -/
theorem neverWaits_iff (P : Primitives) (fl : ℕ) (flags : Flags) :
    (∀ role c st log t s, Built P role c st → Reach (FdCall.run P) st log t (.idle s) →
      fl &&& oNonblock ≠ 0 ∨ flags &&& msgDontwait ≠ 0 →
        (∀ plaintext, NeverWaits P fl s (.send plaintext flags)) ∧
        ∀ len hlen, NeverWaits P fl s (.recv len hlen flags)) ↔
      (flags &&& msgDontwait ≠ 0 → fl &&& oNonblock ≠ 0) := by
  constructor
  · intro hall hdont hfl
    obtain ⟨c, hbuilt⟩ := responderSession_built P
    obtain ⟨u, k, hat, hflag, hdry⟩ := overlayRecv_spins P hfl flags
    have hwaits := (hall _ _ _ _ _ _ hbuilt .start (.inr hdont)).2 1 Nat.one_pos
    exact hwaits.once 2 u _ _ _ _ hat hflag hdry
  · intro himp role c st log t s hst hrun hmode
    have hfl : fl &&& oNonblock ≠ 0 := hmode.elim id himp
    obtain ⟨hs, -⟩ := hst.atRest hrun
    exact ⟨fun plaintext => overlaySend_neverWaits hs hfl plaintext flags,
      fun len hlen => overlayRecv_neverWaits hs hfl hlen flags⟩

/-- `recv` with `MSG_DONTWAIT` on a blocking descriptor reads again after `EAGAIN`. -/
theorem neverWaits_dontwait : ∃ c u k, Built specimen .responder c responderSession ∧
    At ((FdCall.recv 1 Nat.one_pos msgDontwait 2).run specimen responderSession) u
      (.call responderSession (.recv msgDontwait) k) ∧ Flagged 0 u ∧ Dry u EAGAIN := by
  obtain ⟨c, hbuilt⟩ := responderSession_built specimen
  have hblocking : 0 &&& oNonblock = 0 := rfl
  obtain ⟨u, k, hat, hflag, hdry⟩ := overlayRecv_spins specimen hblocking msgDontwait
  exact ⟨c, u, k, hbuilt, hat, hflag, hdry⟩

end SyntriassOverlay
