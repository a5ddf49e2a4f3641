import SyntriassOverlay.Connection

/-!
# Conservation of the stream

Plaintext that one endpoint has accepted is in one of four places until the other
has returned it: in frames in the backlog of the sender, in the channel or in the
receive buffer, or decrypted in the receive buffer. Nothing is lost, nothing is
doubled and no endpoint fails, as long as the counters last.
-/

namespace SyntriassOverlay
open Crypto Resumption

/-! ### The places where plaintext is -/

/-- The bytes are data frames that the direction `d` opens one after the other, to
`plain` in all. -/
inductive Carries (P : Primitives) (suite : CipherSuite) : Direction → Bytes → Bytes → Prop
  | nil (d : Direction) : Carries P suite d [] []
  | record {d : Direction} {pt ct rest plain : Bytes} (hopen : d.open P ct = .ok (d.advance, pt))
      (hrest : Carries P suite d.advance rest plain) :
      Carries P suite d (frameBytes suite.id typeData ct ++ rest) (pt ++ plain)

/-- The plaintext in the bytes that a receiver in `phase` has before it, where `t` is
the trace of the sender: an active one opens the frames as they come, one that still
waits for its handshake frame will get the direction the sender seals with. -/
inductive Before (P : Primitives) (suite : CipherSuite) (t : Tr) : FdPhase → Bytes → Bytes → Prop
  | active {keys : SessionKeys} {b plain : Bytes} (h : Carries P suite keys.rx b plain) :
      Before P suite t (.active keys) b plain
  | quiet {phase : FdPhase} (hphase : phase.handshaking = true) : Before P suite t phase [] []
  | hello {phase : FdPhase} {g : ParsedFrame} {d : Direction} {b plain : Bytes}
      (hphase : phase.handshaking = true) (htag : g.tag ≠ typeData)
      (hd : ∀ a ∈ activations t, d = a.1.tx) (h : Carries P suite d b plain) :
      Before P suite t phase (g.bytes ++ b) plain

/-- What the sender, with trace `t` and in `s`, has taken in is what the receiver,
with trace `t'` and in `s'`, has given out, what it has decrypted, and what is still
in frames in its buffer, in the channel `w` or in the backlog of the sender. -/
def Conserved (P : Primitives) (suite : CipherSuite) (t : Tr) (s : FdState) (w : Bytes) (t' : Tr)
    (s' : FdState) : Prop :=
  ∃ plain, sealedPlain t = deliveredBytes t' ++ s'.rxPlain ++ plain ∧
    Before P suite t s'.phase (s'.rxWire ++ w ++ s.txBacklog) plain

section
variable {P : Primitives} {a b s s' : FdState} {t t' : Tr} {pd pd' : Option Bytes}

theorem carries_of_run (hP : CorrectPrimitives P) (suite : CipherSuite)
    {rs : List (Bytes × Bytes)} {d d' : Direction} (h : d.Run (RecordBy P) rs d') :
    Carries P suite d (dataFrames suite rs) (rs.flatMap Prod.fst) := by
  induction rs generalizing d with
  | nil => exact .nil d
  | cons r rs ih =>
    obtain ⟨hc, hr, hrest⟩ := h.uncons
    obtain ⟨-, -, -, hct⟩ := Direction.seal_eq_ok.mp hr.seal_eq
    have hdec : P.gcmDecrypt d.key (nonceFromCounter d.counter) r.2 = some r.1 := by
      rw [hct]
      exact hP.gcm _ _ _
    have hopen := Direction.open_eq_ok.mpr ⟨hc, rfl, hdec⟩
    exact .record hopen (ih hrest)

/-- A sender that has sealed and the direction it does so with. -/
theorem History.direction (hP : CorrectPrimitives P) {aside : Prop}
    (h : History P aside a t s pd) (ha : ∀ keys, a.phase ≠ .active keys) (suite : CipherSuite) :
    ∃ d, (∀ e ∈ activations t, d = e.1.tx) ∧
      Carries P suite d (dataFrames suite (records t)) (sealedPlain t) := by
  cases h.recordAccount ha with
  | none hnone =>
    refine ⟨⟨List.Vector.replicate 32 0, 0⟩, fun e he => ?_, ?_⟩
    · rw [hnone] at he
      cases he
    · rw [sealedPlain, (h.inactive_records ha hnone).1]
      exact .nil _
  | @active keys origin d hone hrun _ =>
    refine ⟨keys.tx, fun e he => ?_, carries_of_run hP suite hrun⟩
    rw [hone, List.mem_singleton] at he
    rw [he]

theorem Hears.conserved (hP : CorrectPrimitives P) (h : Hears P a b t t' s' pd')
    (ha : ∀ keys, a.phase ≠ .active keys) (hh : History P False a t s none)
    (hlive : s.phase ≠ .failed) {w : Bytes} (hfifo : sentBytes t = receivedBytes t' ++ w) :
    Conserved P b.policySuite t s w t' s' := by
  have hall := hh.wire.alive hlive
  rw [hfifo] at hall
  simp only [pending, Option.elim_none, List.append_nil] at hall
  cases h with
  | nothing hmade hrec hf =>
    rw [hmade, List.append_eq_nil_iff, List.append_eq_nil_iff] at hall
    obtain ⟨⟨hrcv, rfl⟩, htx⟩ := hall
    cases hf.position with
    | reading _ hfs => cases hfs
    | waiting hphase hw hdel hplain =>
      refine ⟨[], ?_, ?_⟩
      · rw [sealedPlain_eq_nil hrec, hdel, hplain]
        rfl
      · rw [← hw, hrcv, htx]
        exact .quiet hphase
  | @stream g htag hmade hf =>
    rw [hmade] at hall
    cases hf.position with
    | waiting hphase hw hdel hplain =>
      obtain ⟨d, hd, hcarries⟩ := hh.direction hP ha b.policySuite
      refine ⟨sealedPlain t, ?_, ?_⟩
      · rw [hdel, hplain]
        rfl
      · rw [← hw, hall]
        exact .hello hphase htag hd hcarries
    | @reading keys f old new d hphase hfs hrs hw hplain hrun =>
      obtain ⟨rfl, -⟩ := List.cons.inj hfs
      rw [hw, hrs, dataFrames_append] at hall
      simp only [List.append_assoc, List.append_cancel_left_eq] at hall
      refine ⟨new.flatMap Prod.fst, ?_, ?_⟩
      · rw [hplain, sealedPlain, hrs, List.flatMap_append]
      · rw [hphase, List.append_assoc, hall]
        exact .active (carries_of_run hP b.policySuite hrun)

end

section
variable {P : Primitives} {env : Role → Env} {st : Role → FdState} {c : Connection}
  {f : ParsedFrame}

theorem Connection.Ok.hears (h : c.Ok P env st) (hP : CorrectPrimitives P)
    (hacc : Accord P (env .initiator) (env .responder) (st .initiator) (st .responder) f)
    (hb : ∀ ρ, (env ρ).Begins (st ρ)) (hcivil : ∀ ρ, (env ρ).Civil (c.ends ρ).trace)
    {t u : Role → Tr} {s : Role → FdState} {pd : Role → Option Bytes}
    (ht : ∀ ρ, (c.ends ρ).trace = t ρ ++ u ρ) (hu : ∀ ρ, Silent (u ρ))
    (hh : ∀ ρ, History P False (st ρ) (t ρ) (s ρ) (pd ρ)) (ρ : Role) :
    Hears P (st ρ) (st ρ.peer) (t ρ) (t ρ.peer) (s ρ.peer) (pd ρ.peer) := by
  have hc : ∀ ρ, (env ρ).Civil (t ρ) := by
    intro ρ
    have hρ := hcivil ρ
    rw [ht ρ] at hρ
    exact hρ.left
  have hflow : ∀ ρ, receivedBytes (t ρ.peer) <+: made (st ρ) (t ρ) := by
    intro ρ
    have hfifo := h.fifo ρ
    rw [ht ρ, ht ρ.peer, sentBytes_append, receivedBytes_append, (hu ρ).sent,
      List.append_nil, List.append_assoc] at hfifo
    exact List.IsPrefix.trans ⟨_, hfifo.symm⟩ (hh ρ).wire.sent_le
  have hboth := hacc.dialogue hP (hb .initiator) (hb .responder) (hh .initiator) (hh .responder)
    (hc .initiator) (hc .responder) (hflow .initiator) (hflow .responder)
  cases ρ with
  | initiator => exact hboth.1
  | responder => exact hboth.2

end

/-- What holds of the end `ρ` and of the stream from it to its peer. -/
structure Connection.Intact (P : Primitives) (st : Role → FdState) (c : Connection) (ρ : Role) :
    Prop where
  alive : closings (c.ends ρ).trace = []
  observed_alive : ∀ s, (c.ends ρ).observed = some s → s.phase ≠ .failed
  conserved : ∀ s s', (c.ends ρ).observed = some s → (c.ends ρ.peer).observed = some s' →
    Conserved P (st ρ.peer).policySuite (c.ends ρ).trace s (c.wire ρ) (c.ends ρ.peer).trace s'
  accepted : ∀ s, (c.ends ρ).status = .idle s →
    sealedPlain (c.ends ρ).trace = acceptedPlain ((c.ends ρ).log.map (Prod.map IoCall.call id))
  returned : ∀ s, (c.ends ρ).status = .idle s →
    deliveredBytes (c.ends ρ).trace = returnedPlain ((c.ends ρ).log.map (Prod.map IoCall.call id))
  /-- Whatever the kernel answers to the next `overlay_recv`, it returns 0 only after
  the real `recv` did. -/
  zero : ∀ s, (c.ends ρ).status = .idle s → ∀ len flags fuel u s', 0 < len →
    At (overlayRecv P len flags fuel s) u (.done s' (.ok [])) →
    ∃ u' flags', u = u' ++ [⟨.recv flags', .eof⟩]

section
variable {P : Primitives} {s₀ s : FdState} {t : Tr}

theorem History.recv_zero (h : History P False s₀ t s none) (hs₀ : s₀.Sound) {len : ℕ}
    (hlen : 0 < len) {flags : Flags} {fuel : ℕ} {u : Tr} {s' : FdState}
    (hat : At (overlayRecv P len flags fuel s) u (.done s' (.ok []))) :
    ∃ u' flags', u = u' ++ [⟨.recv flags', .eof⟩] := by
  have hsafe : Safe (ioInv P False s₀) (fun t' _ r => r = .ok [] →
      ∃ u' flags', t' = t ++ u' ++ [⟨.recv flags', .eof⟩]) (overlayRecv P len flags fuel s) t := by
    refine overlayRecv_safe hs₀ hlen flags fuel h ?_ ?_
    · intro t' s' b _ hr _ hb
      exact hr.eof (Except.ok.inj hb)
    · intro t' s' e _ _ _ he
      cases he
  obtain ⟨u', flags', heq⟩ := (safe_at hsafe hat : _ → _) rfl
  rw [List.append_assoc, List.append_cancel_left_eq] at heq
  exact ⟨u', flags', heq⟩

end

/-- Between two endpoints that match, as long as every record has room in the backlog
and fewer than `2 ^ 64 - 1` records were sealed in each direction. -/
theorem Connection.stream_conserved {P : Primitives} (hP : CorrectPrimitives P)
    {env : Role → Env} (hm : (env .initiator).Matches P (env .responder)) {st : Role → FdState}
    (hbuilt : ∀ ρ, (env ρ).Builds P ρ (st ρ)) {c : Connection}
    (hc : Connection.Reachable P env (.start st) c)
    (hroom : ∀ ρ, noted .limitExceeded ∉ (c.ends ρ).trace)
    (hcount : ∀ ρ, (seals (c.ends ρ).trace).length < 2 ^ 64 - 1) (ρ : Role) :
    c.Intact P st ρ := by
  have hok := hc.ok
  obtain ⟨hbi, hbr, f, hacc⟩ := hm.accord hP (hbuilt .initiator) (hbuilt .responder)
  have hb : ∀ ρ, (env ρ).Begins (st ρ) := fun ρ => by cases ρ <;> assumption
  have hcivil : ∀ ρ, (env ρ).Civil (c.ends ρ).trace :=
    fun ρ => ⟨hok.steady ρ, hroom ρ, hcount ρ⟩
  have hbetween : ∀ ρ, Between P False (st ρ) (c.ends ρ).trace := fun ρ =>
    run_between IoCall.call IoCall.inside (hb ρ).sound (fun _ => by rw [(hb ρ).rxWire]; rfl)
      (hok.run ρ)
  -- the last point at which an endpoint was between two steps
  choose t u s pd ht hh hu using hbetween
  have hheard : ∀ ρ, (s ρ).phase ≠ .failed := by
    intro ρ
    have hhear := hok.hears hP hacc hb hcivil ht (fun ρ => (hu ρ).silent) hh ρ.peer
    rw [Role.peer_peer] at hhear
    cases hhear with
    | nothing _ _ hf => exact hf.position.alive
    | stream _ _ hf => exact hf.position.alive
  have halive : ∀ ρ, closings (c.ends ρ).trace = [] := by
    intro ρ
    have hnone : closings (t ρ) = [] := by
      by_contra hne
      exact hheard ρ ((hh ρ).failed_iff.mpr (.inr hne))
    rw [ht ρ, closings_append, hnone, (hu ρ).silent.closings]
    rfl
  have hobserved : ∀ ρ s, (c.ends ρ).observed = some s → s.phase ≠ .failed := by
    intro ρ s hs hfailed
    rcases (hok.history (hb ρ) (hroom ρ) hs).failed_iff.mp hfailed with hf | hne
    · exact FdPhase.ne_failed_of_handshaking (hb ρ).handshaking hf
    · exact hne (halive ρ)
  have hrest : ∀ s, (c.ends ρ).status = .idle s → AtRest P False (st ρ)
      ((c.ends ρ).log.map (Prod.map IoCall.call id)) (c.ends ρ).trace s := by
    intro s hs
    have hheld := hok.held (hb ρ)
    rwa [hs] at hheld
  refine ⟨halive ρ, hobserved ρ, fun s s' hs hs' => ?_, fun s hs => ?_, fun s hs => ?_,
    fun s hs len flags fuel u s' hlen hat => ?_⟩
  · have hsρ := hok.history (hb ρ) (hroom ρ) hs
    have hsp := hok.history (hb ρ.peer) (hroom ρ.peer) hs'
    have hboth : ∀ σ, History P False (st σ) (c.ends σ).trace (if σ = ρ then s else s') none := by
      intro σ
      rcases ρ.eq_or_eq_peer σ with rfl | rfl <;> simpa
    have hhear := hok.hears hP hacc hb hcivil (fun σ => (List.append_nil _).symm)
      (fun _ => ⟨rfl, rfl, rfl, rfl, rfl⟩) hboth ρ
    rw [if_neg ρ.peer_ne] at hhear
    exact hhear.conserved hP (hb ρ).inactive hsρ (hobserved ρ s hs) (hok.fifo ρ)
  · have hat := hrest s hs
    refine hat.accepted (hobserved ρ s ?_)
    rw [Endpoint.observed, hs]
  · exact (hrest s hs).returned
  · exact (hrest s hs).history.recv_zero (hb ρ).sound hlen hat

/-! ### Two degraded endpoints -/

/-- Process 7 without PQC control and with a PSK. -/
def degraded : Env where
  pid := 7
  epoch := 0
  suite := .nistStandard768
  identity := specimenIdentity
  available := false
  psk := some (ramp 32)

theorem degraded_matches : degraded.Matches specimen degraded := .fallback rfl rfl rfl rfl rfl

def degradedStart (role : Role) : FdState where
  phase :=
    match role with
    | .initiator => .initiatorAwaitingFallbackFinished ⟨ramp 32, ramp 16⟩
    | .responder => .responderAwaitingClientHello
  ownerPid := 7
  policySuite := .nistStandard768
  configEpoch := 0
  txBacklog :=
    match role with
    | .initiator => frameBytes fallbackWireId typeFallbackHello (ramp 16).val
    | .responder => []
  rxWire := []
  rxPlain := []
  countedActive := false

theorem degradedStart_builds (role : Role) :
    degraded.Builds specimen role (degradedStart role) := by
  cases role with
  | initiator => exact Env.built_at ⟨ramp 32, []⟩ (ramp 16) (by decide +kernel)
  | responder =>
    exact ⟨.nistStandard768, Env.built_at ⟨ramp 32, []⟩ (ramp 16) (by decide +kernel)⟩

/-- The end `ρ` makes the call `i`. -/
def degradedPlay (ρ : Role) (i : IoCall) (c : Connection) : Connection :=
  c.play ⟨ramp 32, []⟩ (ramp 16) specimen (fun _ => degraded) 60 ρ i

theorem Connection.Reachable.degradedPlay {c₀ c : Connection}
    (h : Connection.Reachable specimen (fun _ => degraded) c₀ c) (ρ : Role) (i : IoCall) :
    Connection.Reachable specimen (fun _ => degraded) c₀ (degradedPlay ρ i c) :=
  h.play _ _ _ _ _

/-- Both ends have sent two bytes and the initiator has received the first of its two. -/
def degradedOpen : Connection :=
  degradedPlay .initiator (.recv 1 (by decide) 5) <|
  degradedPlay .responder (.send (ascii "hi") 5) <|
  degradedPlay .initiator (.send (ascii "hi") 5) (.start degradedStart)

theorem degradedOpen_reachable :
    Connection.Reachable specimen (fun _ => degraded) (.start degradedStart) degradedOpen := by
  unfold degradedOpen
  exact ((Connection.Reachable.start.degradedPlay _ _).degradedPlay _ _).degradedPlay _ _

theorem not_noted {n : Note} {t : Tr} (h : (t.all fun e => e.op ≠ .note n) = true) :
    noted n ∉ t := by
  intro hm
  have hne := List.all_eq_true.mp h _ hm
  simp at hne

theorem degradedOpen_roomy (ρ : Role) : noted .limitExceeded ∉ (degradedOpen.ends ρ).trace := by
  apply not_noted
  cases ρ <;> decide +kernel

theorem Connection.stream_conserved_degraded :
    (∀ ρ, (seals (degradedOpen.ends ρ).trace).length < 2 ^ 64 - 1) ∧
    ∀ ρ, degradedOpen.Intact specimen degradedStart ρ := by
  have hcount : ∀ ρ, (seals (degradedOpen.ends ρ).trace).length < 2 ^ 64 - 1 := by
    intro ρ
    cases ρ <;> decide +kernel
  exact ⟨hcount, Connection.stream_conserved specimen_correct degraded_matches
    degradedStart_builds degradedOpen_reachable degradedOpen_roomy hcount⟩

/-! ### The last record -/

/-- How many records an endpoint has sealed that is at rest, active and with all its
frames in the channel. -/
def Endpoint.sealing (e : Endpoint) : Option ℕ :=
  match e.status with
  | .idle ⟨.active keys, 7, _, 0, [], _, _, _⟩ => some keys.tx.counter.toNat
  | _ => none

theorem Endpoint.sealing_eq_some {e : Endpoint} {n : ℕ} (h : e.sealing = some n) :
    ∃ s keys, e.status = .idle s ∧ s.phase = .active keys ∧ s.ownerPid = 7 ∧ s.configEpoch = 0 ∧
      s.txBacklog = [] ∧ keys.tx.counter.toNat = n := by
  unfold Endpoint.sealing at h
  split at h
  · rename_i keys suite wire plain counted hs
    exact ⟨_, keys, hs, rfl, rfl, rfl, rfl, Option.some.inj h⟩
  · cases h

/-- A reachable connection whose initiator has sealed `n` records and no backlog of
which was ever full. -/
structure Connection.Sealing (c : Connection) (n : ℕ) : Prop where
  reachable : Connection.Reachable specimen (fun _ => degraded) (.start degradedStart) c
  roomy : ∀ ρ, noted .limitExceeded ∉ (c.ends ρ).trace
  sealing : (c.ends .initiator).sealing = some n

theorem degradedOpen_sealing : degradedOpen.Sealing 0 :=
  ⟨degradedOpen_reachable, degradedOpen_roomy, by decide +kernel⟩

section
variable {s : FdState} {keys : SessionKeys}

-- with the fields written out the calls below can be run on an arbitrary state
theorem FdState.eq_settled (hphase : s.phase = .active keys) (hpid : s.ownerPid = 7)
    (hepoch : s.configEpoch = 0) (htx : s.txBacklog = []) :
    s = { s with phase := .active keys, ownerPid := 7, configEpoch := 0, txBacklog := [] } := by
  rw [← hphase, ← hpid, ← hepoch, ← htx]

/-- An active session with an empty backlog seals one byte and hands it to the kernel. -/
theorem overlaySend_byte (hphase : s.phase = .active keys) (hpid : s.ownerPid = 7)
    (hepoch : s.configEpoch = 0) (htx : s.txBacklog = []) (hc : keys.tx.counter ≠ u64Max)
    (w : Bytes × Bytes) :
    ∃ u w', runWith (degraded.answer ⟨ramp 32, []⟩ (ramp 16)) 60
        ((IoCall.send [0] 3).call.run specimen s) w =
      (.done { s with phase := .active { keys with tx := keys.tx.advance } } (.sent (.ok 1)),
        u, w') ∧ noted .limitExceeded ∉ u := by
  have hseal : keys.seal specimen [0] = .ok ({ keys with tx := keys.tx.advance },
      0 :: specimenTag keys.tx.key (nonceFromCounter keys.tx.counter)) :=
    SessionKeys.seal_eq_ok.mpr ⟨hc, by decide, rfl, rfl⟩
  generalize hct : 0 :: specimenTag keys.tx.key (nonceFromCounter keys.tx.counter) = ct at hseal
  have hlen : ct.length = 17 := by rw [← hct, List.length_cons, specimenTag_length]
  have hframe : frame s.policySuite.id typeData ct =
      some (frameBytes s.policySuite.id typeData ct) :=
    frame_eq_some.mpr ⟨by rw [hlen]; decide, rfl⟩
  generalize hfr : frameBytes s.policySuite.id typeData ct = fr at hframe
  have hfrlen : fr.length = 23 := by rw [← hfr, frameBytes_length, hlen]
  have hpos : 0 < fr.length := by omega
  have hne : fr ≠ [] := List.ne_nil_of_length_pos hpos
  have happ : ∀ st : FdState, st.txBacklog = [] →
      st.appendTx fr = some { st with txBacklog := fr } := by
    intro st hst
    refine FdState.appendTx_eq_some.mpr ⟨?_, by rw [hst]; rfl⟩
    rw [hst, hfrlen]
    decide
  have hchunk : slice [(0 : UInt8)] 0 1 = [0] := by decide
  have hmin : min maxRecordPlaintext 1 = 1 := by decide
  rw [FdState.eq_settled hphase hpid hepoch htx]
  simp [IoCall.call, FdCall.run, overlaySend, inheritedAfterFork, failIfStaleIdleConfig,
    isBlocking, driveUntilActiveForWrite, flushBacklog, iter, sendRecord, appendOrFlush, sendFlush,
    runWith, Env.answer, degraded, hseal, hframe, hchunk, note, happ, hpos, hne, hmin]

theorem overlaySend_exhausted (hphase : s.phase = .active keys) (hpid : s.ownerPid = 7)
    (hepoch : s.configEpoch = 0) (htx : s.txBacklog = []) (hc : keys.tx.counter = u64Max)
    (w : Bytes × Bytes) :
    ∃ u w', runWith (degraded.answer ⟨ramp 32, []⟩ (ramp 16)) 60
        ((IoCall.send [0] 3).call.run specimen s) w =
      (.done s.closed (.sent (.error EIO)), u, w') ∧ noted .limitExceeded ∉ u := by
  have hseal : ∀ chunk, keys.seal specimen chunk = .error .nonceExhausted := by
    intro chunk
    simp [SessionKeys.seal, Direction.seal, hc]
  rw [FdState.eq_settled hphase hpid hepoch htx]
  cases s.countedActive <;>
    simp [IoCall.call, FdCall.run, overlaySend, inheritedAfterFork, failIfStaleIdleConfig,
      isBlocking, driveUntilActiveForWrite, flushBacklog, iter, sendRecord, failClosed,
      FdState.closed, runWith, Env.answer, degraded, hseal, note]

end

theorem degradedPlay_eq {c : Connection} {ρ : Role} {i : IoCall} {s s' : FdState} {a : FdRet}
    {u : Tr} {w : Bytes × Bytes} (hs : (c.ends ρ).status = .idle s)
    (hrun : runWith (degraded.answer ⟨ramp 32, []⟩ (ramp 16)) 60 (i.call.run specimen s)
      (c.wire ρ, c.wire ρ.peer) = (.done s' a, u, w)) :
    degradedPlay ρ i c = c.after ρ
      ⟨(c.ends ρ).start, (c.ends ρ).log ++ [(i, a)], (c.ends ρ).trace ++ u, .idle s'⟩ w := by
  simp only [degradedPlay, Connection.play, hs, hrun]

theorem Connection.after_roomy {c : Connection}
    (hroom : ∀ ρ, noted .limitExceeded ∉ (c.ends ρ).trace) {ρ : Role} {e : Endpoint}
    (he : noted .limitExceeded ∉ e.trace) (w : Bytes × Bytes) (σ : Role) :
    noted .limitExceeded ∉ ((c.after ρ e w).ends σ).trace := by
  rcases ρ.eq_or_eq_peer σ with rfl | rfl
  · rwa [Connection.after_ends]
  · simpa [Connection.after] using hroom ρ.peer

theorem Connection.Sealing.next {c : Connection} {n : ℕ} (h : c.Sealing n) (hn : n < 2 ^ 64 - 1) :
    (degradedPlay .initiator (.send [0] 3) c).Sealing (n + 1) := by
  obtain ⟨s, keys, hs, hphase, hpid, hepoch, htx, hcount⟩ := Endpoint.sealing_eq_some h.sealing
  have hc : keys.tx.counter ≠ u64Max := counter_ne_max.mpr (hcount ▸ hn)
  obtain ⟨u, w, hrun, hu⟩ := overlaySend_byte hphase hpid hepoch htx hc _
  have heq := degradedPlay_eq hs hrun
  refine ⟨h.reachable.degradedPlay _ _, fun σ => ?_, ?_⟩
  · rw [heq]
    exact Connection.after_roomy h.roomy (by simp [h.roomy, hu]) w σ
  · have hnext := advance_toNat hc
    rw [heq, Connection.after_ends, ← hcount, ← hnext]
    obtain ⟨phase, pid, suite, epoch, tx, wire, plain, counted⟩ := s
    simp only at hpid hepoch htx
    subst hpid hepoch htx
    rfl

theorem exists_sealing (n : ℕ) (hn : n ≤ 2 ^ 64 - 1) : ∃ c : Connection, c.Sealing n := by
  induction n with
  | zero => exact ⟨_, degradedOpen_sealing⟩
  | succ n ih =>
    obtain ⟨c, hc⟩ := ih (by omega)
    exact ⟨_, hc.next (by omega)⟩

/-- The last counter value closes a session between endpoints that match, with no hard
error and room in every backlog. -/
theorem Connection.stream_exhausted : ∃ c : Connection,
    degraded.Matches specimen degraded ∧
    (∀ ρ, degraded.Builds specimen ρ (degradedStart ρ)) ∧
    Connection.Reachable specimen (fun _ => degraded) (.start degradedStart) c ∧
    (∀ ρ, noted .limitExceeded ∉ (c.ends ρ).trace) ∧
    ∃ s, (c.ends .initiator).status = .idle s ∧ s.phase = .failed := by
  obtain ⟨c, hc⟩ := exists_sealing (2 ^ 64 - 1) le_rfl
  obtain ⟨s, keys, hs, hphase, hpid, hepoch, htx, hcount⟩ := Endpoint.sealing_eq_some hc.sealing
  have hmax : keys.tx.counter = u64Max := by
    by_contra hne
    have hlt := counter_ne_max.mp hne
    omega
  obtain ⟨u, w, hrun, hu⟩ := overlaySend_exhausted hphase hpid hepoch htx hmax _
  have heq := degradedPlay_eq hs hrun
  refine ⟨degradedPlay .initiator (.send [0] 3) c, degraded_matches, degradedStart_builds,
    hc.reachable.degradedPlay _ _, fun σ => ?_, s.closed, ?_, rfl⟩
  · rw [heq]
    exact Connection.after_roomy hc.roomy (by simp [hc.roomy, hu]) w σ
  · rw [heq, Connection.after_ends]

end SyntriassOverlay
