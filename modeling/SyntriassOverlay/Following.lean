import SyntriassOverlay.Egress
import SyntriassOverlay.Crypto.Completeness

/-!
# A session that is fed the frames of an honest peer

When the environment stays as it is and the bytes that come in are one handshake
frame the session accepts and then the records of its peer in order, the session
does not fail, and the place it has read up to determines what its buffers hold.
-/

namespace SyntriassOverlay
open Crypto Resumption

/-! ### An environment that stays as it is -/

/-- The process, its configuration and its posture. -/
structure Env where
  pid : Pid
  epoch : ℕ
  suite : CipherSuite
  identity : IdentityMaterial
  available : Bool
  psk : Option (ByteArr 32)

/-- The answers of a steady environment: the configuration as it is, the real calls
without a hard error, and an incoming stream that does not end. -/
def Env.Allows (env : Env) : (o : Op) → Resp o → Prop
  | .send _ _, .error e => wouldBlock e = true
  | .send _ _, _ => True
  | .recv _, .data _ _ => True
  | .recv _, .eof => False
  | .recv _, .error e => wouldBlock e = true
  | .getfl, _ => True
  | .getpid, pid => pid = env.pid
  | .configEpoch, epoch => epoch = env.epoch
  | .resolvePolicy, policy => policy = some env.suite
  | .resolveIdentity, r => r = .ok env.identity
  | .pqcControlAvailable, b => b = env.available
  | .resolveFallbackPsk, psk => psk = env.psk
  | .ephemeral, _ => True
  | .freshNonce, _ => True
  | .note _, _ => True

def Env.Steady (env : Env) (t : Tr) : Prop := ∀ e ∈ t, env.Allows e.op e.resp

section
variable {env : Env} {t u : Tr}

theorem Env.Steady.mono (h : env.Steady t) (hu : u ⊆ t) : env.Steady u := fun e he => h e (hu he)

theorem Env.Steady.last {o : Op} {r : Resp o} (h : env.Steady (t ++ [⟨o, r⟩])) : env.Allows o r :=
  h ⟨o, r⟩ (by simp)

end

/-! ### Streams of frames -/

/-- The size of the largest frame an honest peer makes. -/
def frameMax : ℕ := maxRecordPlaintext + 22

def ParsedFrame.Fits (f : ParsedFrame) : Prop := f.payload.length + 6 ≤ frameMax

theorem frameMax_lt : frameMax + pullSize ≤ maxWireRxBuffer ∧ frameMax ≤ maxFrameBody ∧
    maxWireRxBuffer = maxPlainRxBuffer := by decide

theorem ParsedFrame.bytes_length (f : ParsedFrame) : f.bytes.length = f.payload.length + 6 :=
  frameBytes_length _ _ _

/-- The beginning of a stream of frames starts with an incomplete frame, or with
the first of them. -/
theorem tryPopFrame_stream {fs : List ParsedFrame} (hfs : ∀ f ∈ fs, f.Fits) {b : Bytes}
    (h : b <+: fs.flatMap ParsedFrame.bytes) :
    (tryPopFrame b = .ok none ∧ b.length < frameMax) ∨
      ∃ f fs' rest, fs = f :: fs' ∧ b = f.bytes ++ rest ∧
        rest <+: fs'.flatMap ParsedFrame.bytes ∧ tryPopFrame b = .ok (some (f, rest)) := by
  cases fs with
  | nil =>
    rw [List.flatMap_nil, List.prefix_nil] at h
    subst h
    exact .inl ⟨tryPopFrame_nil, by decide⟩
  | cons f fs =>
    have hf : f.payload.length + 6 ≤ frameMax := hfs f (by simp)
    have hmax := frameMax_lt.2.1
    have hpay : f.payload.length + 2 ≤ maxFrameBody := by omega
    obtain ⟨c, hc⟩ := h
    rw [List.flatMap_cons] at hc
    have hfull : ∀ d, d ++ c = fs.flatMap ParsedFrame.bytes → b = f.bytes ++ d →
        ∃ g gs rest, f :: fs = g :: gs ∧ b = g.bytes ++ rest ∧
          rest <+: gs.flatMap ParsedFrame.bytes ∧ tryPopFrame b = .ok (some (g, rest)) := by
      intro d hd hb
      exact ⟨f, fs, d, rfl, hb, ⟨c, hd⟩, hb ▸ tryPopFrame_bytes hpay d⟩
    rcases List.append_eq_append_iff.mp hc with ⟨d, hd, hrest⟩ | ⟨d, hd, hrest⟩
    · by_cases hnil : d = []
      · subst hnil
        exact .inr (hfull [] (by simpa using hrest) (by simpa using hd.symm))
      · refine .inl ⟨tryPopFrame_incomplete hpay hd.symm hnil, ?_⟩
        have hlen := congrArg List.length hd
        have hpos := List.length_pos_iff.mpr hnil
        rw [f.bytes_length, List.length_append] at hlen
        omega
    · exact .inr (hfull d hrest.symm hd)

/-- The frame that carries a record. -/
def dataFrame (suite : CipherSuite) (r : Bytes × Bytes) : ParsedFrame := ⟨suite.id, typeData, r.2⟩

theorem dataFrames_eq (suite : CipherSuite) (rs : List (Bytes × Bytes)) :
    dataFrames suite rs = (rs.map (dataFrame suite)).flatMap ParsedFrame.bytes := by
  rw [dataFrames, List.flatMap_map]
  rfl

/-! ### The records of a sender -/

/-- The record `r` is what the direction `d` makes of its plaintext. -/
structure RecordBy (P : Primitives) (d : Direction) (r : Bytes × Bytes) : Prop where
  seal_eq : d.seal P r.1 = .ok (d.advance, r.2)
  length_le : r.1.length ≤ maxRecordPlaintext

section
variable {P : Primitives} {d : Direction} {r : Bytes × Bytes}

theorem RecordBy.ct_length (h : RecordBy P d r) : r.2.length = r.1.length + 16 := by
  obtain ⟨-, -, -, hct⟩ := Direction.seal_eq_ok.mp h.seal_eq
  rw [hct, P.gcmEncrypt_length]

theorem RecordBy.fits (h : RecordBy P d r) (suite : CipherSuite) : (dataFrame suite r).Fits := by
  have hlen := h.length_le
  have hct := h.ct_length
  change r.2.length + 6 ≤ frameMax
  rw [frameMax]
  omega

/-- The peer opens a record with the counter it was sealed with. -/
theorem RecordBy.opens (hP : CorrectPrimitives P) (h : RecordBy P d r) {keys : SessionKeys}
    (hd : keys.rx = d) : keys.open P r.2 = .ok ({ keys with rx := d.advance }, r.1) := by
  obtain ⟨hc, -, -, hct⟩ := Direction.seal_eq_ok.mp h.seal_eq
  subst hd
  refine SessionKeys.open_eq_ok.mpr ⟨hc, rfl, ?_⟩
  rw [hct]
  exact hP.gcm _ _ _

end

/-- The records of a session since it became active. -/
inductive RecordAccount (P : Primitives) (t : Tr) (s : FdState) : Prop
  | none (ha : activations t = [])
  | active {keys : SessionKeys} {origin : Origin} {d : Direction}
      (ha : activations t = [(keys, origin)]) (hrun : keys.tx.Run (RecordBy P) (records t) d)
      (hs : ∀ k, s.phase = .active k → k.tx = d)

section
variable {P : Primitives} {aside : Prop} {s₀ s : FdState} {t : Tr} {pd : Option Bytes}

theorem RecordAccount.keep {u : Tr} {s' : FdState} (h : RecordAccount P t s)
    (hr : records u = []) (ha : activations u = [])
    (hs' : ∀ k, s'.phase = .active k → ∃ k', s.phase = .active k' ∧ k'.tx = k.tx) :
    RecordAccount P (t ++ u) s' := by
  cases h with
  | none h => exact .none (by rw [activations_append, h, ha]; rfl)
  | @active keys origin d h hrun hs =>
    refine .active (by rw [activations_append, h, ha]; rfl) (d := d) ?_ fun k hk => ?_
    · rwa [records_append, hr, List.append_nil]
    · obtain ⟨k', hactive, htx⟩ := hs' k hk
      exact htx ▸ hs k' hactive

theorem History.recordAccount (h : History P aside s₀ t s pd)
    (hs₀ : ∀ keys, s₀.phase ≠ .active keys) : RecordAccount P t s := by
  induction h with
  | start => exact .none rfl
  | quiet _ o ho r ih =>
    have hi := Op.inert_of_quiet ho r
    exact ih.keep hi.records hi.activations fun k hk => ⟨k, hk, rfl⟩
  | sent _ _ _ _ _ ih | stalled _ _ _ _ _ _ ih | pulled _ _ _ _ _ _ _ _ ih
  | unread _ _ _ _ _ _ ih | delivered _ _ _ ih | queued _ _ _ _ ih | restamped _ _ _ ih =>
    exact ih.keep rfl rfl fun k hk => ⟨k, hk, rfl⟩
  | @activated t s f rest keys origin pre fr h _ ha _ =>
    obtain ⟨-, hrec, hact⟩ := h.handshaking_untouched ha.handshaking
    have hi := ha.inert
    have hacts : activations (t ++ noted (.popped f) :: pre ++ activateSeg s keys origin) =
        [(keys, origin)] := by simp [hact, hi.activations]
    have hrecs : records (t ++ noted (.popped f) :: pre ++ activateSeg s keys origin) = [] := by
      simp [hrec, hi.records]
    refine .active hacts (d := keys.tx) ?_ fun k hk => ?_
    · rw [hrecs]
      exact .nil
    · cases hk
      rfl
  | rejected _ _ _ hr ih =>
    rw [List.append_assoc]
    exact ih.keep (by simp [hr.inert.records]) (by simp [hr.inert.activations])
      fun k hk => by cases hk
  | opened _ hphase _ _ _ hopen _ ih =>
    obtain ⟨-, rfl, -⟩ := SessionKeys.open_eq_ok.mp hopen
    refine ih.keep rfl rfl fun k hk => ?_
    cases hk
    exact ⟨_, hphase, rfl⟩
  | refused _ _ _ hr ih =>
    rw [List.append_assoc]
    exact ih.keep (by simp [hr.inert.records]) (by simp [hr.inert.activations])
      fun k hk => by cases hk
  | @sealed t s keys keys' chunk ct h hphase hlen hseal ih =>
    obtain ⟨hc, hp, rfl, rfl⟩ := SessionKeys.seal_eq_ok.mp hseal
    cases ih with
    | none ha => exact absurd hphase ((h.inactive_records hs₀ ha).2 keys)
    | active ha hrun hs =>
      rw [← hs keys hphase] at hrun
      refine .active (d := keys.tx.advance) (by rw [activations_append, ha]; rfl) ?_
        fun k hk => by cases hk; rfl
      rw [records_append]
      exact hrun.snoc hc ⟨Direction.seal_eq_ok.mpr ⟨hc, hp, rfl, rfl⟩, hlen.2⟩
  | failed _ _ ih | retired _ _ _ _ ih =>
    exact ih.keep (by simp) (by simp) fun k hk => by cases hk
  | flooded _ _ _ _ _ _ _ _ _ ih =>
    rw [List.append_assoc]
    exact ih.keep (by simp) (by simp) fun k hk => by cases hk

theorem History.records_fit (h : History P aside s₀ t s pd) (hs₀ : ∀ keys, s₀.phase ≠ .active keys)
    (suite : CipherSuite) : ∀ f ∈ (records t).map (dataFrame suite), f.Fits := by
  intro f hf
  obtain ⟨r, hr, rfl⟩ := List.mem_map.mp hf
  cases h.recordAccount hs₀ with
  | none ha =>
    rw [(h.inactive_records hs₀ ha).1] at hr
    cases hr
  | active _ hrun _ =>
    obtain ⟨c, hby⟩ := hrun.of_mem hr
    exact hby.fits suite

end

/-! ### The receiver -/

/-- A steady environment, no `append_tx` without room, and a counter that is not used
up. -/
structure Env.Civil (env : Env) (t : Tr) : Prop where
  steady : env.Steady t
  roomy : noted .limitExceeded ∉ t
  counted : (seals t).length < 2 ^ 64 - 1

/-- A session as its constructor leaves it, in the environment `env`. -/
structure Env.Begins (env : Env) (s₀ : FdState) : Prop where
  handshaking : s₀.phase.handshaking = true
  sound : s₀.Sound
  rxWire : s₀.rxWire = []
  rxPlain : s₀.rxPlain = []
  pid : s₀.ownerPid = env.pid
  epoch : s₀.configEpoch = env.epoch

/-- The frame `f` is not rejected in the state `s₀`, as long as the environment is
steady and the reply has room. -/
def Env.Welcomes (P : Primitives) (env : Env) (s₀ : FdState) (f : ParsedFrame) : Prop :=
  ∀ s pre site, s.phase = s₀.phase → s.policySuite = s₀.policySuite → env.Steady pre →
    noted .limitExceeded ∉ pre → ¬Rejection P s f pre site

/-- What comes in at a session begins the frames `fs`, which are a handshake frame and
the records `rs` under the keys the session gets. -/
structure Streamed (P : Primitives) (s₀ : FdState) (fs : List ParsedFrame)
    (rs : List (Bytes × Bytes)) (t : Tr) : Prop where
  received : receivedBytes t <+: fs.flatMap ParsedFrame.bytes
  keyed : ∀ a ∈ activations t, (∃ f, fs = f :: rs.map (dataFrame s₀.policySuite)) ∧
    ∃ d, a.1.rx.Run (RecordBy P) rs d

/-- What happens to a session between an honest peer and a steady environment. -/
structure Fed (P : Primitives) (env : Env) (s₀ : FdState) (fs : List ParsedFrame)
    (rs : List (Bytes × Bytes)) (t : Tr) : Prop extends env.Civil t, Streamed P s₀ fs rs t

/-- Where in the stream a session is, and what it has made of it. -/
inductive Position (P : Primitives) (s₀ : FdState) (fs : List ParsedFrame)
    (rs : List (Bytes × Bytes)) (t : Tr) (s : FdState) : Prop
  | waiting (hphase : s.phase.handshaking = true) (hwire : receivedBytes t = s.rxWire)
      (hdel : deliveredBytes t = []) (hplain : s.rxPlain = [])
  | reading {keys : SessionKeys} {f : ParsedFrame} {old new : List (Bytes × Bytes)} {d : Direction}
      (hphase : s.phase = .active keys) (hfs : fs = f :: rs.map (dataFrame s₀.policySuite))
      (hrs : rs = old ++ new)
      (hwire : receivedBytes t = f.bytes ++ dataFrames s₀.policySuite old ++ s.rxWire)
      (hplain : deliveredBytes t ++ s.rxPlain = old.flatMap Prod.fst)
      (hrun : keys.rx.Run (RecordBy P) new d)

structure Following (P : Primitives) (s₀ : FdState) (fs : List ParsedFrame)
    (rs : List (Bytes × Bytes)) (t : Tr) (s : FdState) (pd : Option Bytes) : Prop where
  position : Position P s₀ fs rs t s
  bound : s.rxWire.length + s.rxPlain.length ≤ frameMax + pullSize
  pending : ∀ ct, pd = some ct → ct.length ≤ maxRecordPlaintext + 16

section
variable {P : Primitives} {env : Env} {s₀ s s' : FdState} {fs : List ParsedFrame}
  {rs : List (Bytes × Bytes)} {t u : Tr} {pd : Option Bytes}

theorem Env.Civil.left (h : env.Civil (t ++ u)) : env.Civil t where
  steady := h.steady.mono (List.subset_append_left _ _)
  roomy := fun hm => h.roomy (List.mem_append_left _ hm)
  counted := by
    have hlt := h.counted
    rw [seals_append, List.length_append] at hlt
    omega

theorem Streamed.left (h : Streamed P s₀ fs rs (t ++ u)) : Streamed P s₀ fs rs t where
  received := by
    have hle := h.received
    rw [receivedBytes_append] at hle
    exact (List.prefix_append _ _).trans hle
  keyed := fun a ha => h.keyed a (by rw [activations_append]; exact List.mem_append_left _ ha)

theorem Fed.left (h : Fed P env s₀ fs rs (t ++ u)) : Fed P env s₀ fs rs t :=
  ⟨h.toCivil.left, h.toStreamed.left⟩

theorem Fed.right_steady (h : Fed P env s₀ fs rs (t ++ u)) : env.Steady u :=
  h.steady.mono (List.subset_append_right _ _)

theorem Position.alive (h : Position P s₀ fs rs t s) : s.phase ≠ .failed := by
  cases h with
  | waiting hphase => exact FdPhase.ne_failed_of_handshaking hphase
  | reading hphase => simp [hphase]

theorem Position.keep (h : Position P s₀ fs rs t s) (hr : receivedBytes u = [])
    (hd : deliveredBytes u = []) (hwire : s'.rxWire = s.rxWire) (hplain : s'.rxPlain = s.rxPlain)
    (hhs : s.phase.handshaking = true → s'.phase = s.phase)
    (hkeys : ∀ k, s.phase = .active k → ∃ k', s'.phase = .active k' ∧ k'.rx = k.rx) :
    Position P s₀ fs rs (t ++ u) s' := by
  have hrec : receivedBytes (t ++ u) = receivedBytes t := by
    rw [receivedBytes_append, hr, List.append_nil]
  have hdel : deliveredBytes (t ++ u) = deliveredBytes t := by
    rw [deliveredBytes_append, hd, List.append_nil]
  cases h with
  | waiting hphase hw hdl hp =>
    refine .waiting ?_ (by rw [hrec, hwire, hw]) (by rw [hdel, hdl]) (by rw [hplain, hp])
    rw [hhs hphase]
    exact hphase
  | reading hphase hfs hrs hw hp hrun =>
    obtain ⟨k', hphase', hrx⟩ := hkeys _ hphase
    exact .reading hphase' hfs hrs (by rw [hrec, hwire, hw]) (by rw [hdel, hplain, hp])
      (hrx ▸ hrun)

/-- What a reading session has in its buffer begins the records to come. -/
theorem Streamed.unread (hin : Streamed P s₀ fs rs t) {f : ParsedFrame}
    {old new : List (Bytes × Bytes)}
    (hfs : fs = f :: rs.map (dataFrame s₀.policySuite)) (hrs : rs = old ++ new) {b : Bytes}
    (hw : receivedBytes t = f.bytes ++ dataFrames s₀.policySuite old ++ b) :
    b <+: (new.map (dataFrame s₀.policySuite)).flatMap ParsedFrame.bytes := by
  have hle := hin.received
  rwa [hw, hfs, hrs, List.flatMap_cons, List.map_append, List.flatMap_append, ← dataFrames_eq,
    List.append_assoc, List.prefix_append_right_inj, List.prefix_append_right_inj] at hle

theorem Position.rest (h : Position P s₀ fs rs t s) (hin : Streamed P s₀ fs rs t) :
    ∃ gs, s.rxWire <+: gs.flatMap ParsedFrame.bytes ∧ gs <:+ fs := by
  cases h with
  | waiting _ hw => exact ⟨fs, hw ▸ hin.received, List.suffix_rfl⟩
  | @reading keys f old new d _ hfs hrs hw =>
    refine ⟨new.map (dataFrame s₀.policySuite), hin.unread hfs hrs hw, ?_⟩
    rw [hfs, hrs, List.map_append]
    exact ⟨f :: old.map (dataFrame s₀.policySuite), by simp⟩

theorem Position.short (h : Position P s₀ fs rs t s) (hin : Streamed P s₀ fs rs t)
    (hfits : ∀ f ∈ fs, f.Fits) (hpop : tryPopFrame s.rxWire = .ok none) :
    s.rxWire.length < frameMax := by
  obtain ⟨gs, hle, hsuf⟩ := h.rest hin
  rcases tryPopFrame_stream (fun f hf => hfits f (hsuf.subset hf)) hle with ⟨-, hlt⟩ | hsome
  · exact hlt
  · obtain ⟨f, gs', rest, -, -, -, hpop'⟩ := hsome
    rw [hpop] at hpop'
    cases hpop'

theorem Position.unbroken (h : Position P s₀ fs rs t s) (hin : Streamed P s₀ fs rs t)
    (hfits : ∀ f ∈ fs, f.Fits) : tryPopFrame s.rxWire ≠ .error () := by
  obtain ⟨gs, hle, hsuf⟩ := h.rest hin
  rcases tryPopFrame_stream (fun f hf => hfits f (hsuf.subset hf)) hle with ⟨hnone, -⟩ | hsome
  · simp [hnone]
  · obtain ⟨f, gs', rest, -, -, -, hpop⟩ := hsome
    simp [hpop]

theorem Position.pull (h : Position P s₀ fs rs t s) (flags : Flags) {d : Bytes}
    (hd : 0 < d.length ∧ d.length ≤ pullSize) :
    Position P s₀ fs rs (t ++ [⟨.recv flags, .data d hd⟩]) { s with rxWire := s.rxWire ++ d } := by
  have hrec : receivedBytes (t ++ [⟨.recv flags, .data d hd⟩]) = receivedBytes t ++ d := by
    rw [receivedBytes_append]
    exact congrArg _ (List.append_nil _)
  have hdel : deliveredBytes (t ++ [⟨.recv flags, .data d hd⟩]) = deliveredBytes t := by
    rw [deliveredBytes_append]
    exact List.append_nil _
  cases h with
  | waiting hphase hw hdl hp => exact .waiting hphase (by rw [hrec, hw]) (by rw [hdel, hdl]) hp
  | reading hphase hfs hrs hw hp hrun =>
    exact .reading hphase hfs hrs (by rw [hrec, hw, List.append_assoc]) (by rw [hdel, hp]) hrun

/-- The first frame a session takes off its buffer is the first of the stream. -/
theorem Position.first (h : Position P s₀ fs rs t s) (hin : Streamed P s₀ fs rs t)
    (hfits : ∀ f ∈ fs, f.Fits) (hhs : s.phase.handshaking = true) {f : ParsedFrame} {rest : Bytes}
    (hpop : tryPopFrame s.rxWire = .ok (some (f, rest))) :
    ∃ fs', fs = f :: fs' ∧ receivedBytes t = f.bytes ++ rest := by
  cases h with
  | waiting _ hw =>
    rw [← hw] at hpop
    rcases tryPopFrame_stream hfits hin.received with ⟨hnone, -⟩ | hsome
    · rw [hnone] at hpop
      cases hpop
    · obtain ⟨g, fs', rest', hfs, hb, -, hpop'⟩ := hsome
      rw [hpop] at hpop'
      cases hpop'
      exact ⟨fs', hfs, hb⟩
  | reading hphase =>
    rw [hphase] at hhs
    cases hhs

/-- The next frame of an active session carries the next record of the peer. -/
theorem Position.next (h : Position P s₀ fs rs t s) (hin : Streamed P s₀ fs rs t)
    (hfits : ∀ f ∈ fs, f.Fits) {keys : SessionKeys} (hphase : s.phase = .active keys)
    {f : ParsedFrame} {rest : Bytes} (hpop : tryPopFrame s.rxWire = .ok (some (f, rest))) :
    ∃ r, f = dataFrame s₀.policySuite r ∧ RecordBy P keys.rx r ∧ s.rxWire = f.bytes ++ rest ∧
      ∀ (u : Tr) (s' : FdState) (k : SessionKeys), receivedBytes u = [] → deliveredBytes u = [] →
        s'.phase = .active k → k.rx = keys.rx.advance → s'.rxWire = rest →
        s'.rxPlain = s.rxPlain ++ r.1 → Position P s₀ fs rs (t ++ u) s' := by
  cases h with
  | waiting hhs =>
    rw [hphase] at hhs
    cases hhs
  | @reading keys' f₀ old new d hphase' hfs hrs hw hp hrun =>
    rw [hphase] at hphase'
    cases hphase'
    have hleft := hin.unread hfs hrs hw
    have hnew : ∀ g ∈ new.map (dataFrame s₀.policySuite), g.Fits := by
      intro g hg
      refine hfits g ?_
      rw [hfs, hrs, List.map_append]
      exact List.mem_cons_of_mem _ (List.mem_append_right _ hg)
    rcases tryPopFrame_stream hnew hleft with ⟨hnone, -⟩ | hsome
    · rw [hnone] at hpop
      cases hpop
    · obtain ⟨g, gs', rest', hgs, hb, -, hpop'⟩ := hsome
      rw [hpop] at hpop'
      cases hpop'
      cases new with
      | nil => cases hgs
      | cons r new =>
        rw [List.map_cons, List.cons.injEq] at hgs
        obtain ⟨rfl, -⟩ := hgs
        obtain ⟨-, hr, hrest⟩ := hrun.uncons
        refine ⟨r, rfl, hr, hb, fun u s' k hru hdu hk hrx hwire hplain => ?_⟩
        refine .reading hk hfs (hrs.trans (List.append_cons old r new)) ?_ ?_ (hrx ▸ hrest)
        · rw [receivedBytes_append, hru, List.append_nil, hw, hb, hwire, dataFrames_append]
          simp [dataFrames, dataFrame, ParsedFrame.bytes]
        · rw [deliveredBytes_append, hdu, List.append_nil, hplain, ← List.append_assoc, hp]
          simp

/-- Along every history a session that has not failed is somewhere in the stream,
whatever the environment answers. -/
theorem History.position (hP : CorrectPrimitives P) (hhs₀ : s₀.phase.handshaking = true)
    (hwire₀ : s₀.rxWire = []) (hplain₀ : s₀.rxPlain = []) (hfits : ∀ f ∈ fs, f.Fits)
    {aside : Prop} (h : History P aside s₀ t s pd) (hin : Streamed P s₀ fs rs t)
    (hlive : s.phase ≠ .failed) : Position P s₀ fs rs t s := by
  induction h with
  | start => exact .waiting hhs₀ hwire₀.symm rfl hplain₀
  | quiet _ o ho r ih =>
    have hi := Op.inert_of_quiet ho r
    exact (ih hin.left hlive).keep hi.received hi.delivered rfl rfl (fun _ => rfl)
      fun k hk => ⟨k, hk, rfl⟩
  | sent _ _ _ _ _ ih | stalled _ _ _ _ _ _ ih | queued _ _ _ _ ih =>
    exact (ih hin.left hlive).keep rfl rfl rfl rfl (fun _ => rfl) fun k hk => ⟨k, hk, rfl⟩
  | pulled _ _ _ _ flags d hd _ ih => exact (ih hin.left hlive).pull flags hd
  | unread _ _ _ flags r hr ih =>
    exact (ih hin.left hlive).keep (receivedBytes_unread flags hr) rfl rfl rfl (fun _ => rfl)
      fun k hk => ⟨k, hk, rfl⟩
  | @activated t s f rest keys origin pre fr h hpop ha ih =>
    have hin' := hin
    rw [List.append_assoc] at hin'
    have hhs := ha.handshaking
    have hpos := ih hin'.left (FdPhase.ne_failed_of_handshaking hhs)
    obtain ⟨fs', hfs, hrec⟩ := hpos.first hin'.left hfits hhs hpop
    have hmem : (keys, origin) ∈
        activations (t ++ noted (.popped f) :: pre ++ activateSeg s keys origin) := by simp
    obtain ⟨⟨g, hg⟩, d, hrun⟩ := hin.keyed _ hmem
    obtain ⟨rfl, -⟩ := List.cons.inj (hfs.symm.trans hg)
    cases hpos with
    | reading hphase =>
      rw [hphase] at hhs
      cases hhs
    | waiting _ hw hdel hplain =>
      refine .reading rfl hg (List.nil_append _).symm ?_ ?_ hrun
      · simp [ha.inert.received, hrec, dataFrames]
      · simp [ha.inert.delivered, hdel, hplain]
  | opened h hphase hpop htag hsuite hopen hroom ih =>
    have hpos := ih hin.left (by simp [hphase])
    obtain ⟨r, rfl, hby, -, hnext⟩ := hpos.next hin.left hfits hphase hpop
    have hok := hby.opens hP rfl
    rw [show (dataFrame s₀.policySuite r).payload = r.2 from rfl, hok] at hopen
    cases hopen
    exact hnext _ _ _ rfl rfl rfl rfl rfl rfl
  | @delivered t s h n hn ih =>
    cases ih hin.left hlive with
    | waiting _ _ _ hplain =>
      rw [hplain, List.length_nil] at hn
      omega
    | reading hphase hfs hrs hw hp hrun =>
      refine .reading hphase hfs hrs ?_ ?_ hrun
      · rw [receivedBytes_append, hw]
        exact List.append_nil _
      · rw [deliveredBytes_append, ← hp, List.append_assoc]
        simp [deliveredBytes, Ev.delivered]
  | sealed h hphase _ hseal ih =>
    obtain ⟨-, -, rfl, rfl⟩ := SessionKeys.seal_eq_ok.mp hseal
    refine (ih hin.left (by simp [hphase])).keep rfl rfl rfl rfl (fun hh => ?_) fun k hk => ?_
    · rw [hphase] at hh
      cases hh
    · rw [hphase] at hk
      cases hk
      exact ⟨_, rfl, rfl⟩
  | restamped _ hphase => exact absurd hphase hlive
  | rejected | refused | failed | retired | flooded => exact absurd rfl hlive

/-- A steady environment and an honest stream give no reason to fail. -/
theorem Following.not_failing (hf : Following P s₀ fs rs t s pd) (hfed : Fed P env s₀ fs rs t)
    (hb : env.Begins s₀) (hfits : ∀ f ∈ fs, f.Fits) (h : History P False s₀ t s pd)
    {site : FailSite} : ¬Failing P t s pd site := by
  intro hfail
  have hlive := hf.position.alive
  have hpid := h.ownerPid.trans hb.pid
  have hepoch := (h.configEpoch hlive).trans hb.epoch
  have hmax := frameMax_lt
  cases hfail with
  | inherited hne => exact hne (hpid.trans hfed.steady.last.symm)
  | stale hne => exact hne (hepoch.trans hfed.steady.last.symm)
  | flush _ hw =>
    have hsoft : wouldBlock _ = true := hfed.steady.last
    rw [hw] at hsoft
    cases hsoft
  | eof => exact hfed.steady.last
  | recvError hw =>
    have hsoft : wouldBlock _ = true := hfed.steady.last
    rw [hw] at hsoft
    cases hsoft
  | header _ herr => exact hf.position.unbroken hfed.toStreamed hfits herr
  | @sealError _ _ _ keys chunk e hphase hlen herr =>
    -- the counter is the number of seals made, and there are not that many
    have hcount := hfed.counted
    have hc : keys.tx.counter ≠ u64Max := by
      refine counter_ne_max.mpr ?_
      cases h.sealAccount with
      | unkeyed _ hs => exact absurd hphase (hs keys)
      | keyed hout hrun _ hs =>
        obtain rfl := hs keys hphase
        cases hout with
        | active hphase₀ =>
          have hhs := hb.handshaking
          rw [hphase₀] at hhs
          cases hhs
        | fresh _ hzero =>
          rw [hrun.counter_eq, hzero]
          simpa using hcount
    have hplain : chunk.length ≤ gcmPlainMax := hlen.trans (by decide)
    have hok := (SessionKeys.seal_eq_ok (P := P)).mpr ⟨hc, hplain, rfl, rfl⟩
    rw [herr] at hok
    cases hok
  | frameError hnone =>
    have hlen := hf.pending _ rfl
    have hlong := frame_eq_none.mp hnone
    have hsize : maxRecordPlaintext + 16 + 2 ≤ maxFrameBody := by decide
    omega
  | appendRefused hwhy => exact hwhy.elim hlive hfed.roomy

theorem Following.not_refused (hf : Following P s₀ fs rs t s none) (hP : CorrectPrimitives P)
    (hfed : Fed P env s₀ fs rs t) (hfits : ∀ f ∈ fs, f.Fits) (h : History P False s₀ t s none)
    {keys : SessionKeys} (hphase : s.phase = .active keys) {f : ParsedFrame} {rest : Bytes}
    (hpop : tryPopFrame s.rxWire = .ok (some (f, rest))) {pre : Tr} {site : FailSite} :
    ¬Refusal P s keys f pre site := by
  intro hr
  obtain ⟨r, rfl, hby, hwire, -⟩ := hf.position.next hfed.toStreamed hfits hphase hpop
  have hopen := hby.opens hP rfl
  cases hr with
  | suite _ hne => exact hne (congrArg CipherSuite.id h.wire.suite.symm)
  | tag hne => exact hne rfl
  | «open» _ _ herr =>
    rw [show (dataFrame s₀.policySuite r).payload = r.2 from rfl, hopen] at herr
    cases herr
  | plain _ _ hok hfull =>
    rw [show (dataFrame s₀.policySuite r).payload = r.2 from rfl, hopen] at hok
    cases hok
    have hbound := hf.bound
    have hct := hby.ct_length
    have hlen := congrArg List.length hwire
    rw [List.length_append, ParsedFrame.bytes_length] at hlen
    have hpay : (dataFrame s₀.policySuite r).payload.length = r.2.length := rfl
    have hmax := frameMax_lt
    omega

/-- Along every history the session follows the stream. -/
theorem History.following (hP : CorrectPrimitives P) (hb : env.Begins s₀)
    (hfits : ∀ f ∈ fs, f.Fits) (hwelcome : ∀ f fs', fs = f :: fs' → env.Welcomes P s₀ f)
    (h : History P False s₀ t s pd) (hfed : Fed P env s₀ fs rs t) :
    Following P s₀ fs rs t s pd := by
  have hmax := frameMax_lt
  have hfollow : ∀ {t s pd}, History P False s₀ t s pd → Fed P env s₀ fs rs t →
      (s.phase ≠ .failed ∧ s.rxWire.length + s.rxPlain.length ≤ frameMax + pullSize ∧
        ∀ ct, pd = some ct → ct.length ≤ maxRecordPlaintext + 16) →
      Following P s₀ fs rs t s pd := by
    rintro t s pd h hfed ⟨hlive, hbound, hpending⟩
    exact ⟨h.position hP hb.handshaking hb.rxWire hb.rxPlain hfits hfed.toStreamed hlive, hbound,
      hpending⟩
  refine hfollow h hfed ?_
  induction h with
  | start =>
    refine ⟨FdPhase.ne_failed_of_handshaking hb.handshaking, ?_, fun ct hct => by cases hct⟩
    rw [hb.rxWire, hb.rxPlain]
    exact Nat.zero_le _
  | quiet _ _ _ _ ih | sent _ _ _ _ _ ih | stalled _ _ _ _ _ _ ih | unread _ _ _ _ _ _ ih =>
    exact ih hfed.left
  | pulled h _ hpop hplain flags d hd _ ih =>
    have hf := hfollow h hfed.left (ih hfed.left)
    have hshort := hf.position.short hfed.left.toStreamed hfits hpop
    refine ⟨hf.position.alive, ?_, hf.pending⟩
    have hlen := hd.2
    simp only [hplain, List.length_append, List.length_nil]
    omega
  | activated h hpop _ ih =>
    rw [List.append_assoc] at hfed
    have hf := hfollow h hfed.left (ih hfed.left)
    refine ⟨by simp, ?_, fun ct hct => by cases hct⟩
    have hbound := hf.bound
    have hrest := tryPopFrame_rest_le hpop
    simp only
    omega
  | @rejected t s f rest pre site h hhs hpop hr ih =>
    rw [List.append_assoc] at hfed
    have hf := hfollow h hfed.left (ih hfed.left)
    have hhs' := hhs.resolve_right id
    obtain ⟨fs', hfs, -⟩ := hf.position.first hfed.left.toStreamed hfits hhs' hpop
    refine absurd hr (hwelcome f fs' hfs s pre site (h.handshaking_untouched hhs').1 h.wire.suite
      (hfed.right_steady.mono ?_) fun hm => hfed.roomy ?_)
    · intro e he
      simp [he]
    · simp [hm]
  | opened h hphase hpop _ _ hopen _ ih =>
    have hf := hfollow h hfed.left (ih hfed.left)
    obtain ⟨r, rfl, hby, hwire, -⟩ :=
      hf.position.next hfed.left.toStreamed hfits hphase hpop
    have hok := hby.opens hP rfl
    rw [show (dataFrame s₀.policySuite r).payload = r.2 from rfl, hok] at hopen
    cases hopen
    refine ⟨by simp, ?_, fun ct hct => by cases hct⟩
    have hbound := hf.bound
    have hct := hby.ct_length
    have hlen := congrArg List.length hwire
    rw [List.length_append, ParsedFrame.bytes_length] at hlen
    have hpay : (dataFrame s₀.policySuite r).payload.length = r.2.length := rfl
    simp only [List.length_append]
    omega
  | refused h hphase hpop hr ih =>
    rw [List.append_assoc] at hfed
    have hf := hfollow h hfed.left (ih hfed.left)
    exact absurd hr (hf.not_refused hP hfed.left hfits h hphase hpop)
  | delivered h n hn ih =>
    obtain ⟨hlive, hbound, hpending⟩ := ih hfed.left
    refine ⟨hlive, ?_, hpending⟩
    simp only [List.length_drop]
    omega
  | sealed h _ hlen hseal ih =>
    obtain ⟨-, -, rfl, rfl⟩ := SessionKeys.seal_eq_ok.mp hseal
    obtain ⟨-, hbound, -⟩ := ih hfed.left
    refine ⟨by simp, hbound, ?_⟩
    rintro ct ⟨⟩
    rw [P.gcmEncrypt_length]
    omega
  | queued _ _ _ _ ih =>
    obtain ⟨hlive, hbound, -⟩ := ih hfed.left
    exact ⟨hlive, hbound, fun ct hct => by cases hct⟩
  | failed h hfail ih =>
    have hf := hfollow h hfed.left (ih hfed.left)
    exact absurd hfail (hf.not_failing hfed.left hb hfits h)
  | flooded h _ hpop _ d hd hfull _ _ ih =>
    have hf := hfollow h hfed.left.left (ih hfed.left.left)
    have hshort := hf.position.short hfed.left.left.toStreamed hfits hpop
    have hlen := hd.2
    have hmax := frameMax_lt
    omega
  | restamped _ hphase _ ih => exact absurd hphase (ih hfed.left).1
  | retired _ haside => exact haside.elim

/-- A session is activated by the first frame of the stream. -/
theorem History.activation_first (hP : CorrectPrimitives P) (hhs₀ : s₀.phase.handshaking = true)
    (hwire₀ : s₀.rxWire = []) (hplain₀ : s₀.rxPlain = []) (hfits : ∀ f ∈ fs, f.Fits)
    {aside : Prop} (h : History P aside s₀ t s pd)
    (hrec : receivedBytes t <+: fs.flatMap ParsedFrame.bytes) {a : SessionKeys × Origin}
    (ha : a ∈ activations t) : ∃ f fs' s' pre fr, fs = f :: fs' ∧ s'.phase = s₀.phase ∧
      s'.policySuite = s₀.policySuite ∧ pre ⊆ t ∧ Activation P s' f a.1 a.2 pre fr := by
  cases h.beginning with
  | none hnone =>
    rw [hnone] at ha
    cases ha
  | @once keys origin hone hact =>
    obtain ⟨act⟩ := hact
    rw [hone, List.mem_singleton] at ha
    subst ha
    obtain ⟨u, hu⟩ := act.within
    have hhs := act.activation.handshaking
    obtain ⟨hphase, -, hnone⟩ := act.history.handshaking_untouched hhs
    rw [← hu, List.append_assoc, List.append_assoc] at hrec
    -- before its activation the session has read nothing
    have hin : Streamed P s₀ fs [] act.before := by
      refine ⟨?_, fun a ha => ?_⟩
      · rw [receivedBytes_append] at hrec
        exact (List.prefix_append _ _).trans hrec
      · rw [hnone] at ha
        cases ha
    have hpos := act.history.position hP hhs₀ hwire₀ hplain₀ hfits hin
      (FdPhase.ne_failed_of_handshaking hhs)
    obtain ⟨fs', hfs, -⟩ := hpos.first hin hfits hhs act.popped
    refine ⟨act.frame, fs', act.state, act.pre, act.reply, hfs, hphase, act.history.wire.suite,
      fun e he => ?_, act.activation⟩
    rw [← hu]
    simp [he]

end

end SyntriassOverlay
