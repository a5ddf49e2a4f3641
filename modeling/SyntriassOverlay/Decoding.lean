import SyntriassOverlay.Integrity
import SyntriassOverlay.Reassembly

/-!
# The received stream, decoded at once

The receive path works on whatever pieces the socket hands out: it buffers, takes whole
frames off, opens them, and copies plaintext into buffers of any size. A decoder that is
given the whole stream says what all of this amounts to. A frame that fills the receive
buffer up to its last `pullSize` bytes is where the pieces do matter: whether it is read or
overflows the buffer depends on how much of the next frame comes with its last read.
-/

namespace SyntriassOverlay
open Crypto Resumption BigEndian

/-! ### The decoder -/

/-- The plaintext of the first `n` frames of a stream, as far as they are data frames of
the suite and open one after the other. -/
def decodeFrames (P : Primitives) (suite : CipherSuite) : ℕ → Direction → Bytes → Bytes
  | 0, _, _ => []
  | n + 1, d, wire =>
    match tryPopFrame wire with
    | .ok (some (f, rest)) =>
      if f.tag = typeData ∧ f.suiteId = suite.id then
        match d.open P f.payload with
        | .ok (d', pt) => pt ++ decodeFrames P suite n d' rest
        | .error _ => []
      else []
    | .ok none | .error _ => []

/-- The plaintext of a stream. It has fewer frames than bytes. -/
def decode (P : Primitives) (suite : CipherSuite) (d : Direction) (wire : Bytes) : Bytes :=
  decodeFrames P suite wire.length d wire

theorem tryPopFrame_shorter {b rest : Bytes} {f : ParsedFrame}
    (h : tryPopFrame b = .ok (some (f, rest))) : rest.length < b.length := by
  obtain ⟨rfl, -⟩ := tryPopFrame_eq_some h
  rw [List.length_append, ParsedFrame.bytes, frameBytes_length]
  omega

theorem tryPopFrame_append {b rest : Bytes} {f : ParsedFrame}
    (h : tryPopFrame b = .ok (some (f, rest))) (c : Bytes) :
    tryPopFrame (b ++ c) = .ok (some (f, rest ++ c)) := by
  obtain ⟨rfl, hfits⟩ := tryPopFrame_eq_some h
  rw [List.append_assoc]
  exact tryPopFrame_bytes hfits _

section
variable {P : Primitives} {suite : CipherSuite}

/-- Rounds beyond the length of the stream make no difference. -/
theorem decodeFrames_rounds {n m : ℕ} {d : Direction} {wire : Bytes} (hn : wire.length ≤ n)
    (hm : wire.length ≤ m) : decodeFrames P suite n d wire = decodeFrames P suite m d wire := by
  induction n generalizing m d wire with
  | zero =>
    have hnil : wire = [] := List.eq_nil_of_length_eq_zero (Nat.le_zero.mp hn)
    subst hnil
    cases m with
    | zero => rfl
    | succ m => rfl
  | succ n ih =>
    cases m with
    | zero =>
      have hnil : wire = [] := List.eq_nil_of_length_eq_zero (Nat.le_zero.mp hm)
      subst hnil
      rfl
    | succ m =>
      rw [decodeFrames, decodeFrames]
      cases hpop : tryPopFrame wire with
      | error e => rfl
      | ok popped =>
        cases popped with
        | none => rfl
        | some taken =>
          obtain ⟨f, rest⟩ := taken
          have hlt := tryPopFrame_shorter hpop
          dsimp only
          split
          · cases d.open P f.payload with
            | error e => rfl
            | ok out =>
              obtain ⟨d', pt⟩ := out
              dsimp only
              rw [ih (by omega) (by omega : rest.length ≤ m)]
          · rfl

theorem decode_pop {d d' : Direction} {wire rest : Bytes} {f : ParsedFrame} {pt : Bytes}
    (hpop : tryPopFrame wire = .ok (some (f, rest))) (htag : f.tag = typeData)
    (hsuite : f.suiteId = suite.id) (hopen : d.open P f.payload = .ok (d', pt)) :
    decode P suite d wire = pt ++ decode P suite d' rest := by
  have hlt := tryPopFrame_shorter hpop
  obtain ⟨n, hn⟩ : ∃ n, wire.length = n + 1 := ⟨wire.length - 1, by omega⟩
  rw [decode, hn, decodeFrames, hpop]
  simp only [htag, hsuite, hopen, and_self, if_true]
  rw [decode, decodeFrames_rounds (by omega) le_rfl]

theorem decode_incomplete {d : Direction} {wire : Bytes} (h : tryPopFrame wire = .ok none) :
    decode P suite d wire = [] := by
  rw [decode]
  cases wire with
  | nil => rfl
  | cons b wire =>
    rw [List.length_cons, decodeFrames, h]

/-- A stream without plaintext, or one that begins with a record. -/
theorem decode_cases (d : Direction) (wire : Bytes) : decode P suite d wire = [] ∨
    ∃ f rest d' pt, tryPopFrame wire = .ok (some (f, rest)) ∧ f.tag = typeData ∧
      f.suiteId = suite.id ∧ d.open P f.payload = .ok (d', pt) := by
  cases hlen : wire.length with
  | zero =>
    rw [decode, hlen]
    exact .inl rfl
  | succ n =>
    rw [decode, hlen, decodeFrames]
    cases hpop : tryPopFrame wire with
    | error e => exact .inl rfl
    | ok popped =>
      cases popped with
      | none => exact .inl rfl
      | some taken =>
        obtain ⟨f, rest⟩ := taken
        dsimp only
        split
        · rename_i hgood
          cases hopen : d.open P f.payload with
          | error e => exact .inl rfl
          | ok out => exact .inr ⟨f, rest, out.1, out.2, rfl, hgood.1, hgood.2, hopen⟩
        · exact .inl rfl

/-- A longer stream has more plaintext. -/
theorem decode_mono (d : Direction) (wire c : Bytes) :
    decode P suite d wire <+: decode P suite d (wire ++ c) := by
  induction hlen : wire.length using Nat.strong_induction_on generalizing d wire with
  | _ n ih =>
    subst hlen
    rcases @decode_cases P suite d wire with hnil | ⟨f, rest, d', pt, hpop, htag,
      hsuite, hopen⟩
    · rw [hnil]
      exact List.nil_prefix
    · rw [decode_pop hpop htag hsuite hopen,
        decode_pop (tryPopFrame_append hpop c) htag hsuite hopen, List.prefix_append_right_inj]
      exact ih rest.length (tryPopFrame_shorter hpop) d' rest rfl

end

/-! ### Streams that fit the receive buffer -/

/-- Behind the whole frames at its beginning the stream announces no frame that leaves less
than one read of room in the receive buffer. -/
def Modest (wire : Bytes) : Prop :=
  ∀ fs rest, (∀ f ∈ fs, f.payload.length + 2 ≤ maxFrameBody) → wire = framesBytes fs ++ rest →
    hdrLen ≤ rest.length → hdrLen + beNat (rest.take hdrLen) ≤ maxWireRxBuffer - pullSize

theorem Modest.left {b c : Bytes} (h : Modest (b ++ c)) : Modest b := by
  intro fs rest hfs heq hlen
  have hboth : b ++ c = framesBytes fs ++ (rest ++ c) := by rw [heq, List.append_assoc]
  have hle := h fs (rest ++ c) hfs hboth (by rw [List.length_append]; omega)
  rwa [List.take_append_of_le_length hlen] at hle

/-- Frames that leave room for a read make a modest stream. -/
theorem modest_framesBytes {gs : List ParsedFrame}
    (hgs : ∀ g ∈ gs, g.bytes.length ≤ maxWireRxBuffer - pullSize) : Modest (framesBytes gs) := by
  have hmax : maxWireRxBuffer - pullSize ≤ maxFrameBody + 4 := by decide
  have hfits : ∀ g ∈ gs, g.payload.length + 2 ≤ maxFrameBody := by
    intro g hg
    have hlen := hgs g hg
    rw [ParsedFrame.bytes, frameBytes_length] at hlen
    omega
  induction gs with
  | nil =>
    intro fs rest _ heq hlen
    have hnil : rest = [] := (List.append_eq_nil_iff.mp heq.symm).2
    rw [hnil] at hlen
    cases hlen
  | cons g gs ih =>
    intro fs rest hfs heq hlen
    have hg := hfits g List.mem_cons_self
    rw [framesBytes_cons] at heq
    cases fs with
    | nil =>
      have hrest : rest = g.bytes ++ framesBytes gs := heq.symm
      have hsmall := hgs g List.mem_cons_self
      rw [ParsedFrame.bytes, frameBytes_length] at hsmall
      rw [hrest, ParsedFrame.bytes, frameBytes_take,
        beNat_beBytes _ _ (lt_of_le_of_lt (by omega) maxFrameBody_lt)]
      have hhdr : hdrLen = 4 := rfl
      omega
    | cons f fs =>
      rw [framesBytes_cons, List.append_assoc] at heq
      have hpop := tryPopFrame_bytes hg (framesBytes gs)
      rw [heq, tryPopFrame_bytes (hfs f List.mem_cons_self)] at hpop
      obtain ⟨-, hrest⟩ := Prod.mk.inj (Option.some.inj (Except.ok.inj hpop))
      exact ih (fun g' hg' => hgs g' (List.mem_cons_of_mem _ hg'))
        (fun g' hg' => hfits g' (List.mem_cons_of_mem _ hg')) fs rest
        (fun f' hf' => hfs f' (List.mem_cons_of_mem _ hf')) hrest.symm hlen

theorem tryPopFrame_waits {b : Bytes} (h : tryPopFrame b = .ok none) (hlen : hdrLen ≤ b.length) :
    b.length < hdrLen + beNat (b.take hdrLen) := by
  unfold tryPopFrame at h
  rw [if_neg (by omega)] at h
  dsimp only at h
  split at h
  · cases h
  · split at h
    · assumption
    · cases h

/-- The rest of a modest stream always leaves room for a read. -/
theorem Modest.room {wire b : Bytes} {fs : List ParsedFrame} (h : Modest wire)
    (hfs : ∀ f ∈ fs, f.payload.length + 2 ≤ maxFrameBody) (heq : wire = framesBytes fs ++ b)
    (hpop : tryPopFrame b = .ok none) {n : ℕ}
    (hn : n ≤ pullSize) : ¬maxWireRxBuffer - b.length < n := by
  intro hover
  have hmax : pullSize + hdrLen ≤ maxWireRxBuffer := by decide
  have hlong : hdrLen ≤ b.length := by omega
  have hannounced := h fs b hfs heq hlong
  have hwaits := tryPopFrame_waits hpop hlong
  omega

/-! ### The account of what was received -/

/-- What an active session with keys `k₀` has made of the bytes it got. While it lives, more
bytes make of it what they would make of the whole stream. -/
structure Decoding (P : Primitives) (s₀ : FdState) (k₀ : SessionKeys) (t : Tr) (s : FdState) :
    Prop where
  suite : s.policySuite = s₀.policySuite
  wire : s.phase ≠ .failed → ∃ fs, (∀ f ∈ fs, f.payload.length + 2 ≤ maxFrameBody) ∧
    s₀.rxWire ++ receivedBytes t = framesBytes fs ++ s.rxWire
  alive : ∀ k, s.phase = .active k → ∀ c,
    deliveredBytes t ++ s.rxPlain ++ decode P s₀.policySuite k.rx (s.rxWire ++ c) =
      s₀.rxPlain ++ decode P s₀.policySuite k₀.rx (s₀.rxWire ++ receivedBytes t ++ c)
  le : deliveredBytes t <+:
    s₀.rxPlain ++ decode P s₀.policySuite k₀.rx (s₀.rxWire ++ receivedBytes t)

section
variable {P : Primitives} {aside : Prop} {s₀ s s' : FdState} {k₀ : SessionKeys} {t u : Tr}
  {pd : Option Bytes}

theorem Decoding.keep (h : Decoding P s₀ k₀ t s) (hr : receivedBytes u = [])
    (hd : deliveredBytes u = []) (hsuite : s'.policySuite = s.policySuite)
    (hlive : s'.phase ≠ .failed → s.phase ≠ .failed ∧ s'.rxWire = s.rxWire ∧
      s'.rxPlain = s.rxPlain)
    (hkeys : ∀ k, s'.phase = .active k → ∃ k', s.phase = .active k' ∧ k'.rx = k.rx) :
    Decoding P s₀ k₀ (t ++ u) s' := by
  have hrec : receivedBytes (t ++ u) = receivedBytes t := by
    rw [receivedBytes_append, hr, List.append_nil]
  have hdel : deliveredBytes (t ++ u) = deliveredBytes t := by
    rw [deliveredBytes_append, hd, List.append_nil]
  refine ⟨hsuite.trans h.suite, fun hs' => ?_, fun k hk c => ?_, by rw [hrec, hdel]; exact h.le⟩
  · obtain ⟨hs, hwire, -⟩ := hlive hs'
    rw [hrec, hwire]
    exact h.wire hs
  · obtain ⟨k', hk', hrx⟩ := hkeys k hk
    obtain ⟨-, hwire, hplain⟩ := hlive (by simp [hk])
    rw [hrec, hdel, hwire, hplain, ← hrx]
    exact h.alive k' hk' c

theorem Decoding.close (h : Decoding P s₀ k₀ t s) (hr : receivedBytes u = [])
    (hd : deliveredBytes u = []) (hsuite : s'.policySuite = s.policySuite)
    (hs' : s'.phase = .failed) : Decoding P s₀ k₀ (t ++ u) s' := by
  apply h.keep hr hd hsuite
  · exact fun hlive => absurd hs' hlive
  · intro k hk
    rw [hs'] at hk
    cases hk

theorem Decoding.pull {d : Bytes} (h : Decoding P s₀ k₀ t s) (hlive : s.phase ≠ .failed)
    (hact : ∃ k, s.phase = .active k) (hr : receivedBytes u = d) (hd : deliveredBytes u = []) :
    Decoding P s₀ k₀ (t ++ u) { s with rxWire := s.rxWire ++ d } := by
  have hdel : deliveredBytes (t ++ u) = deliveredBytes t := by
    rw [deliveredBytes_append, hd, List.append_nil]
  have halive : ∀ k, s.phase = .active k → ∀ c,
      deliveredBytes (t ++ u) ++ s.rxPlain ++ decode P s₀.policySuite k.rx (s.rxWire ++ d ++ c) =
        s₀.rxPlain ++ decode P s₀.policySuite k₀.rx
          (s₀.rxWire ++ receivedBytes (t ++ u) ++ c) := by
    intro k hk c
    have hmore := h.alive k hk (d ++ c)
    rw [hdel, receivedBytes_append, hr]
    simp only [List.append_assoc] at hmore ⊢
    exact hmore
  refine ⟨h.suite, fun _ => ?_, halive, ?_⟩
  · obtain ⟨fs, hfits, hfs⟩ := h.wire hlive
    refine ⟨fs, hfits, ?_⟩
    rw [receivedBytes_append, hr, ← List.append_assoc, hfs, List.append_assoc]
  · obtain ⟨k, hk⟩ := hact
    have hnow := halive k hk []
    rw [List.append_nil (s₀.rxWire ++ receivedBytes (t ++ u)), List.append_assoc] at hnow
    rw [← hnow]
    exact List.prefix_append _ _

theorem Decoding.open {f : ParsedFrame} {rest pt : Bytes} {k k' : SessionKeys}
    (h : Decoding P s₀ k₀ t s) (hphase : s.phase = .active k)
    (hpop : tryPopFrame s.rxWire = .ok (some (f, rest))) (htag : f.tag = typeData)
    (hsuite : f.suiteId = s.policySuite.id) (hopen : k.open P f.payload = .ok (k', pt))
    (hr : receivedBytes u = []) (hd : deliveredBytes u = []) :
    Decoding P s₀ k₀ (t ++ u)
      { s with rxWire := rest, phase := .active k', rxPlain := s.rxPlain ++ pt } := by
  have hrec : receivedBytes (t ++ u) = receivedBytes t := by
    rw [receivedBytes_append, hr, List.append_nil]
  have hdel : deliveredBytes (t ++ u) = deliveredBytes t := by
    rw [deliveredBytes_append, hd, List.append_nil]
  obtain ⟨hc, rfl, hdec⟩ := SessionKeys.open_eq_ok.mp hopen
  have hdir : k.rx.open P f.payload = .ok (k.rx.advance, pt) :=
    Direction.open_eq_ok.mpr ⟨hc, rfl, hdec⟩
  refine ⟨h.suite, fun _ => ?_, fun j hj c => ?_, by rw [hrec, hdel]; exact h.le⟩
  · obtain ⟨fs, hfits, hfs⟩ := h.wire (by simp [hphase])
    obtain ⟨hwire, hfit⟩ := tryPopFrame_eq_some hpop
    refine ⟨fs ++ [f], fun g hg => ?_, ?_⟩
    · rcases List.mem_append.mp hg with hg | hg
      · exact hfits g hg
      · rwa [List.mem_singleton.mp hg]
    rw [hrec, hfs, hwire, framesBytes, framesBytes, List.flatMap_append, List.append_assoc]
    exact congrArg _ (congrArg (· ++ rest) (List.append_nil _).symm)
  · cases hj
    rw [hrec, hdel, ← h.alive k hphase c,
      decode_pop (tryPopFrame_append hpop c) htag (by rw [hsuite, h.suite]) hdir]
    simp only [List.append_assoc]

theorem Decoding.deliver (h : Decoding P s₀ k₀ t s) (n : ℕ) (hlive : s.phase ≠ .failed)
    (hact : ∃ k, s.phase = .active k) :
    Decoding P s₀ k₀ (t ++ [noted (.delivered (s.rxPlain.take n))])
      { s with rxPlain := s.rxPlain.drop n } := by
  have hrec : receivedBytes (t ++ [noted (.delivered (s.rxPlain.take n))]) = receivedBytes t := by
    rw [receivedBytes_append]
    exact List.append_nil _
  have hdel : deliveredBytes (t ++ [noted (.delivered (s.rxPlain.take n))]) =
      deliveredBytes t ++ s.rxPlain.take n := by
    rw [deliveredBytes_append]
    exact congrArg _ (List.append_nil _)
  refine ⟨h.suite, fun _ => by rw [hrec]; exact h.wire hlive, fun k hk c => ?_, ?_⟩
  · rw [hrec, hdel, ← h.alive k hk c, List.append_assoc (deliveredBytes t), List.take_append_drop]
  · obtain ⟨k, hk⟩ := hact
    have hnow := h.alive k hk []
    rw [List.append_nil (s₀.rxWire ++ receivedBytes t), List.append_assoc] at hnow
    rw [hrec, hdel, ← hnow, List.prefix_append_right_inj]
    exact (List.take_prefix n _).trans (List.prefix_append _ _)

theorem History.settled_of_active (h : History P aside s₀ t s pd)
    (hactive : s₀.phase = .active k₀) : s.phase.handshaking = false := by
  by_contra hne
  have hhs : s.phase.handshaking = true := by simpa using hne
  rw [(h.handshaking_untouched hhs).1, hactive] at hhs
  cases hhs

theorem History.keyed_of_active (h : History P aside s₀ t s pd) (hactive : s₀.phase = .active k₀)
    (hlive : s.phase ≠ .failed) : ∃ k, s.phase = .active k := by
  have hhs := h.settled_of_active hactive
  cases hp : s.phase with
  | active k => exact ⟨k, rfl⟩
  | failed => exact absurd hp hlive
  | _ => rw [hp] at hhs; cases hhs

theorem History.decoding (h : History P aside s₀ t s pd) (hs₀ : s₀.Sound)
    (hactive : s₀.phase = .active k₀) (hmodest : Modest (s₀.rxWire ++ receivedBytes t)) :
    Decoding P s₀ k₀ t s := by
  have hbefore : ∀ {t u : Tr}, Modest (s₀.rxWire ++ receivedBytes (t ++ u)) →
      Modest (s₀.rxWire ++ receivedBytes t) := by
    intro t u hm
    rw [receivedBytes_append, ← List.append_assoc] at hm
    exact hm.left
  induction h with
  | start =>
    have hrec : receivedBytes [] = [] := rfl
    have hdel : deliveredBytes [] = [] := rfl
    refine ⟨rfl, fun _ => ⟨[], by simp, by simp [framesBytes, hrec]⟩, fun k hk c => ?_,
      List.nil_prefix⟩
    rw [hactive] at hk
    cases hk
    rw [hrec, hdel, List.nil_append, List.append_nil]
  | quiet _ o ho r ih =>
    have hi := Op.inert_of_quiet ho r
    exact (ih (hbefore hmodest)).keep hi.received hi.delivered rfl (fun hs => ⟨hs, rfl, rfl⟩)
      fun k hk => ⟨k, hk, rfl⟩
  | sent _ _ _ _ _ ih | stalled _ _ _ _ _ _ ih | queued _ _ _ _ ih | restamped _ _ _ ih =>
    exact (ih (hbefore hmodest)).keep rfl rfl rfl (fun hs => ⟨hs, rfl, rfl⟩)
      fun k hk => ⟨k, hk, rfl⟩
  | pulled h hlive _ _ _ _ _ _ ih =>
    exact (ih (hbefore hmodest)).pull hlive (h.keyed_of_active hactive hlive)
      (List.append_nil _) rfl
  | unread _ _ _ flags _ hr ih =>
    exact (ih (hbefore hmodest)).keep (receivedBytes_unread flags hr) rfl rfl
      (fun hs => ⟨hs, rfl, rfl⟩) fun k hk => ⟨k, hk, rfl⟩
  | @flooded t s _ hlive hpop flags d hd hfull _ _ ih =>
    -- there is always room for a read
    have hbefore := hbefore (hbefore hmodest)
    obtain ⟨fs, hfits, hfs⟩ := (ih hbefore).wire hlive
    exact absurd hfull (hbefore.room hfits hfs hpop hd.2)
  | activated h _ ha _ =>
    have hhs := ha.handshaking
    rw [h.settled_of_active hactive] at hhs
    cases hhs
  | rejected _ _ _ hr ih =>
    rw [List.append_assoc] at hmodest ⊢
    exact (ih (hbefore hmodest)).close (by simp [hr.inert.received]) (by simp [hr.inert.delivered])
      rfl rfl
  | opened _ hph hpop htag hsuite hopen _ ih =>
    exact (ih (hbefore hmodest)).open hph hpop htag hsuite hopen rfl rfl
  | refused _ _ _ hr ih =>
    rw [List.append_assoc] at hmodest ⊢
    exact (ih (hbefore hmodest)).close (by simp [hr.inert.received]) (by simp [hr.inert.delivered])
      rfl rfl
  | @delivered t s h n hn ih =>
    -- plaintext waits only in a session that is alive
    have hlive : s.phase ≠ .failed := by
      intro hf
      rw [((h.sound hs₀).failed_empty hf).2.2] at hn
      simp at hn
      omega
    exact (ih (hbefore hmodest)).deliver n hlive (h.keyed_of_active hactive hlive)
  | sealed _ hph _ hseal ih =>
    obtain ⟨-, -, rfl, -⟩ := SessionKeys.seal_eq_ok.mp hseal
    refine (ih (hbefore hmodest)).keep rfl rfl rfl (fun _ => ⟨by simp [hph], rfl, rfl⟩)
      fun k hk => ?_
    cases hk
    exact ⟨_, hph, rfl⟩
  | failed _ _ ih | retired _ _ _ _ ih =>
    exact (ih (hbefore hmodest)).close (by simp) (by simp) rfl rfl

end

/-! ### Runs -/

section
variable {P : Primitives} {s₀ : FdState} {k₀ : SessionKeys} {log : List (FdCall × FdRet)} {t : Tr}
  {st : Status Resp FdCall FdState FdRet}

/-- All the plaintext that an active session can have for its application. -/
def streamPlain (P : Primitives) (s₀ : FdState) (k₀ : SessionKeys) (t : Tr) : Bytes :=
  s₀.rxPlain ++ decode P s₀.policySuite k₀.rx (s₀.rxWire ++ receivedBytes t)

theorem streamPlain_mono {t t' : Tr} (h : receivedBytes t <+: receivedBytes t') :
    streamPlain P s₀ k₀ t <+: streamPlain P s₀ k₀ t' := by
  obtain ⟨c, hc⟩ := h
  rw [streamPlain, streamPlain, List.prefix_append_right_inj, ← hc, ← List.append_assoc]
  exact decode_mono _ _ _

theorem Reach.returned_le (hactive : s₀.phase = .active k₀) (hs₀ : s₀.Sound)
    (hrun : Reach (FdCall.run P) s₀ log t st)
    (hmodest : Modest (s₀.rxWire ++ receivedBytes t)) :
    returnedPlain log <+: streamPlain P s₀ k₀ t := by
  obtain ⟨t₁, s₁, ⟨u, hu⟩, hreach⟩ := hrun.rested
  have hat := run_held (P := P) id (fun _ _ => trivial) hs₀ (FdState.settled_of_active hactive)
    hreach
  simp only [Prod.map_id, List.map_id] at hat
  rw [← hu, receivedBytes_append, ← List.append_assoc] at hmodest
  have hle := (hat.history.decoding hs₀ hactive hmodest.left).le
  rw [hat.returned] at hle
  refine hle.trans (streamPlain_mono ?_)
  rw [← hu, receivedBytes_append]
  exact List.prefix_append _ _

/-- A session that asks the socket for more has used up all it has. -/
theorem Reach.delivered_all (hactive : s₀.phase = .active k₀) (hs₀ : s₀.Sound) {i : FdCall}
    {s : FdState} {flags : Flags} {k : Resp (.recv flags) → Prog Resp FdState FdRet}
    (hrun : Reach (FdCall.run P) s₀ log t (.busy i (.call s (.recv flags) k)))
    (hmodest : Modest (s₀.rxWire ++ receivedBytes t)) :
    deliveredBytes t = streamPlain P s₀ k₀ t := by
  have hheld := run_held (P := P) id (fun _ _ => trivial) hs₀ (FdState.settled_of_active hactive)
    hrun
  obtain ⟨hlive, hpop, hplain, hh⟩ :
      s.phase ≠ .failed ∧ tryPopFrame s.rxWire = .ok none ∧ s.rxPlain = [] ∧
        History P True s₀ t s none := hheld.1
  have hdec := hh.decoding hs₀ hactive hmodest
  obtain ⟨key, hkey⟩ := hh.keyed_of_active hactive hlive
  have hnow := hdec.alive key hkey []
  rwa [List.append_nil, List.append_nil, hplain, decode_incomplete hpop, List.append_nil,
    List.append_nil] at hnow

end

/-- What the calls on an active session return is what the decoder reads in the stream: never
anything else, all of it whenever the session asks the socket for more, and the same for all
ways in which the stream is cut into pieces and the application chooses its buffers. -/
theorem received_stream {P : Primitives} {s₀ : FdState} {k₀ : SessionKeys}
    (hactive : s₀.phase = .active k₀) (hs₀ : s₀.Sound) {log : List (FdCall × FdRet)} {t : Tr}
    {st : Status Resp FdCall FdState FdRet} (hrun : Reach (FdCall.run P) s₀ log t st)
    (hmodest : Modest (s₀.rxWire ++ receivedBytes t)) :
    returnedPlain log <+: streamPlain P s₀ k₀ t ∧
    (∀ i s flags k, st = .busy i (.call s (.recv flags) k) →
      deliveredBytes t = streamPlain P s₀ k₀ t) ∧
    ∀ log' t' st', Reach (FdCall.run P) s₀ log' t' st' → receivedBytes t' <+: receivedBytes t →
      returnedPlain log' <+: returnedPlain log ∨ returnedPlain log <+: returnedPlain log' := by
  have hle := Reach.returned_le hactive hs₀ hrun hmodest
  refine ⟨hle, ?_, ?_⟩
  · intro i s flags k hst
    subst hst
    exact Reach.delivered_all hactive hs₀ hrun hmodest
  · intro log' t' st' hrun' hpre
    have hmodest' : Modest (s₀.rxWire ++ receivedBytes t') := by
      obtain ⟨c, hc⟩ := hpre
      rw [← hc, ← List.append_assoc] at hmodest
      exact hmodest.left
    have hle' := (Reach.returned_le hactive hs₀ hrun' hmodest').trans (streamPlain_mono hpre)
    exact List.prefix_or_prefix_of_prefix hle' hle

/-- The frame of `oneRecord`. -/
def oneFrame : ParsedFrame :=
  ⟨1, typeData, ascii "hi" ++ specimenTag rampKeys.tx.key (nonceFromCounter 0)⟩

/-- The record arrives in two pieces and is read byte by byte. -/
def inPieces : Played :=
  playCalls specimen 7 100 [.recv 1 Nat.one_pos 0 8, .recv 1 Nat.one_pos 0 8]
    ⟨[], [], activeSession rampKeys.mirror⟩
    { fallbackKernel [] with incoming := [oneFrame.bytes.take 9, oneFrame.bytes.drop 9] }

theorem received_stream_pieces :
    returnedPlain inPieces.log = ascii "hi" ∧ (inPieces.log.length = 2) ∧
    returnedPlain inPieces.log <+:
      streamPlain specimen (activeSession rampKeys.mirror) rampKeys.mirror inPieces.trace := by
  have hrun : Reach (FdCall.run specimen) (activeSession rampKeys.mirror) inPieces.log
      inPieces.trace (.idle inPieces.state) := Reach.playCalls _ _ .start
  have hwire : (activeSession rampKeys.mirror).rxWire ++ receivedBytes inPieces.trace =
      framesBytes [oneFrame] := by decide +kernel
  have hmodest : Modest ((activeSession rampKeys.mirror).rxWire ++
      receivedBytes inPieces.trace) := by
    rw [hwire]
    apply modest_framesBytes
    intro g hg
    rw [List.mem_singleton.mp hg]
    decide +kernel
  exact ⟨by decide +kernel, by decide +kernel,
    (received_stream rfl (activeSession_sound _) hrun hmodest).1⟩

end SyntriassOverlay
