import SyntriassOverlay.FdState

/-!
# Frames out of segments (interceptor.rs:234-276, fd_state.rs:233, 338)

What `try_pop_frame` leaves of the buffer, and the loop every reader of frames
runs: append what the socket gave, then take frames off until there is none.
Between two appends the buffer holds less than one frame. So a sender that keeps
its frames `pullSize - 1` bytes below the limit never makes an append fail.
-/

namespace SyntriassOverlay
open BigEndian

/-- `try_pop_frame` with the buffer it leaves behind. -/
def popFrame (rxWire : Bytes) : Except Unit (Option ParsedFrame) × Bytes :=
  if rxWire.length < hdrLen then (.ok none, rxWire)
  else
    let bodyLen := beNat (rxWire.take hdrLen)
    if ¬(2 ≤ bodyLen ∧ bodyLen ≤ maxFrameBody) then (.error (), rxWire)
    else if rxWire.length < hdrLen + bodyLen then (.ok none, rxWire)
    else
      let suiteId := rxWire.getD hdrLen 0
      let tag := rxWire.getD (hdrLen + 1) 0
      let payload := slice rxWire (hdrLen + 2) (hdrLen + bodyLen)
      (.ok (some ⟨suiteId, tag, payload⟩), rxWire.drop (hdrLen + bodyLen))

/-- Frames are taken off until `Ok(None)`; `none` is a malformed header. Every
frame takes bytes away, so the length of the buffer bounds the rounds. -/
def popFrames : ℕ → FdState → Option (List ParsedFrame × FdState)
  | 0, _ => none
  | fuel + 1, st =>
    match popFrame st.rxWire with
    | (.ok none, _) => some ([], st)
    | (.ok (some f), rest) => do
      let (fs, st') ← popFrames fuel { st with rxWire := rest }
      pure (f :: fs, st')
    | (.error _, _) => none

/-- Segments are appended one by one, and frames taken off after each; `none` is
`LimitExceeded` or a malformed header. -/
def reassemble (st : FdState) : List Bytes → Option (List ParsedFrame × FdState)
  | [] => some ([], st)
  | chunk :: chunks => do
    let st₁ ← st.appendRxWire chunk
    let (fs, st₂) ← popFrames (st₁.rxWire.length + 1) st₁
    let (fs', st₃) ← reassemble st₂ chunks
    pure (fs ++ fs', st₃)

/-! ### One frame -/

theorem popFrame_eq (b : Bytes) : popFrame b =
    match tryPopFrame b with
    | .ok none => (.ok none, b)
    | .ok (some (f, rest)) => (.ok (some f), rest)
    | .error _ => (.error (), b) := by
  unfold popFrame tryPopFrame
  by_cases h0 : b.length < hdrLen
  · simp [h0]
  by_cases h1 : 2 ≤ beNat (b.take hdrLen) ∧ beNat (b.take hdrLen) ≤ maxFrameBody
  · by_cases h2 : b.length < hdrLen + beNat (b.take hdrLen)
    · simp [h0, h1, h2]
    · simp [h0, h1, h2]
  · simp [h0, h1]

theorem popFrame_eq_some {b rest : Bytes} {f : ParsedFrame} :
    popFrame b = (.ok (some f), rest) ↔ tryPopFrame b = .ok (some (f, rest)) := by
  rw [popFrame_eq]
  rcases tryPopFrame b with _ | _ | ⟨f', rest'⟩ <;> simp

theorem popFrame_unchanged {b rest : Bytes} {r : Except Unit (Option ParsedFrame)}
    (h : popFrame b = (r, rest)) (hr : ∀ f, r ≠ .ok (some f)) : rest = b := by
  rw [popFrame_eq] at h
  rcases htry : tryPopFrame b with _ | _ | ⟨f, rest'⟩ <;> rw [htry] at h
  · exact (Prod.mk.inj h).2.symm
  · exact (Prod.mk.inj h).2.symm
  · exact absurd (Prod.mk.inj h).1.symm (hr f)

theorem popFrame_error {b : Bytes} : (popFrame b).1 = .error () ↔
    hdrLen ≤ b.length ∧ ¬(2 ≤ beNat (b.take hdrLen) ∧ beNat (b.take hdrLen) ≤ maxFrameBody) := by
  unfold popFrame
  by_cases h0 : b.length < hdrLen
  · simp [h0]
  by_cases h1 : 2 ≤ beNat (b.take hdrLen) ∧ beNat (b.take hdrLen) ≤ maxFrameBody
  · by_cases h2 : b.length < hdrLen + beNat (b.take hdrLen)
    · simp [h0, h1, h2]
    · simp [h0, h1, h2]
  · simpa [h0, h1] using Nat.not_lt.mp h0

/-! ### Many frames -/

/-- The bytes of frames one after the other. -/
def framesBytes (fs : List ParsedFrame) : Bytes := fs.flatMap ParsedFrame.bytes

theorem framesBytes_cons (f : ParsedFrame) (fs : List ParsedFrame) :
    framesBytes (f :: fs) = f.bytes ++ framesBytes fs := rfl

theorem framesBytes_append (fs gs : List ParsedFrame) :
    framesBytes (fs ++ gs) = framesBytes fs ++ framesBytes gs := List.flatMap_append

/-- A buffer at the start of frames that are well formed holds the first of them, or
only a part of it. -/
theorem tryPopFrame_framesBytes {f : ParsedFrame} {fs : List ParsedFrame} {b rest : Bytes}
    (hf : f.payload.length + 2 ≤ maxFrameBody) (h : b ++ rest = framesBytes (f :: fs)) :
    (tryPopFrame b = .ok none ∧ b.length < f.bytes.length) ∨
      ∃ b', b = f.bytes ++ b' ∧ b' ++ rest = framesBytes fs := by
  rw [framesBytes_cons] at h
  by_cases hlen : b.length < f.bytes.length
  · refine .inl ⟨?_, hlen⟩
    rcases tryPopFrame_within hf h with hnone | ⟨b', rfl, -⟩
    · exact hnone
    · simp [ParsedFrame.bytes] at hlen
  · have hpre : f.bytes <+: b :=
      List.prefix_of_prefix_length_le ⟨framesBytes fs, h.symm⟩ (List.prefix_append b rest)
        (Nat.not_lt.mp hlen)
    obtain ⟨b', rfl⟩ := hpre
    rw [List.append_assoc] at h
    exact .inr ⟨b', rfl, List.append_cancel_left h⟩

/-- A stream that is whole frames and also frames with less than one behind them: the
frames are the same, and nothing is behind them. -/
theorem framesBytes_unique {fs gs : List ParsedFrame} {b : Bytes}
    (hfs : ∀ f ∈ fs, f.payload.length + 2 ≤ maxFrameBody)
    (hgs : ∀ g ∈ gs, g.payload.length + 2 ≤ maxFrameBody) (hb : tryPopFrame b = .ok none)
    (h : framesBytes gs = framesBytes fs ++ b) : gs = fs ∧ b = [] := by
  induction fs generalizing gs with
  | nil =>
    have hall : framesBytes gs = b := h
    cases gs with
    | nil => exact ⟨rfl, hall.symm⟩
    | cons g gs =>
      rw [← hall, framesBytes_cons, tryPopFrame_bytes (hgs g List.mem_cons_self)] at hb
      cases hb
  | cons f fs ih =>
    rw [framesBytes_cons, List.append_assoc] at h
    have hpop := tryPopFrame_bytes (hfs f List.mem_cons_self) (framesBytes fs ++ b)
    rw [← h] at hpop
    cases gs with
    | nil => cases hpop
    | cons g gs =>
      rw [framesBytes_cons, tryPopFrame_bytes (hgs g List.mem_cons_self)] at hpop
      obtain ⟨rfl, hrest⟩ := Prod.mk.inj (Option.some.inj (Except.ok.inj hpop))
      obtain ⟨rfl, hnil⟩ := ih (fun f hf => hfs f (List.mem_cons_of_mem _ hf))
        (fun g hg => hgs g (List.mem_cons_of_mem _ hg)) hrest
      exact ⟨rfl, hnil⟩

/-- The loop takes off the frames that are complete and leaves a part of the next. -/
theorem popFrames_framesBytes {fs : List ParsedFrame}
    (hfs : ∀ f ∈ fs, f.payload.length + 2 ≤ maxFrameBody) (st : FdState) {rest : Bytes} {fuel : ℕ}
    (hfuel : st.rxWire.length < fuel) (h : st.rxWire ++ rest = framesBytes fs) :
    ∃ done left b, popFrames fuel st = some (done, { st with rxWire := b }) ∧ fs = done ++ left ∧
      b ++ rest = framesBytes left ∧ tryPopFrame b = .ok none := by
  induction fs generalizing st fuel with
  | nil =>
    have hb : st.rxWire = [] := (List.append_eq_nil_iff.mp h).1
    obtain ⟨fuel, rfl⟩ : ∃ n, fuel = n + 1 := ⟨fuel - 1, by omega⟩
    have hnone : tryPopFrame st.rxWire = .ok none := by rw [hb]; rfl
    exact ⟨[], [], st.rxWire, by simp [popFrames, popFrame_eq, hnone], rfl, h, hnone⟩
  | cons f fs ih =>
    obtain ⟨fuel, rfl⟩ : ∃ n, fuel = n + 1 := ⟨fuel - 1, by omega⟩
    have hf := hfs f List.mem_cons_self
    rcases tryPopFrame_framesBytes hf h with ⟨hnone, -⟩ | ⟨b', hb, hrest⟩
    · exact ⟨[], f :: fs, st.rxWire, by simp [popFrames, popFrame_eq, hnone], rfl, h, hnone⟩
    · have hpop : popFrame st.rxWire = (.ok (some f), b') := by
        rw [popFrame_eq_some, hb]
        exact tryPopFrame_bytes hf b'
      have hshort : b'.length < fuel := by
        rw [hb, List.length_append, ParsedFrame.bytes, frameBytes_length] at hfuel
        omega
      obtain ⟨done, left, b, hrun, rfl, hleft, hnone⟩ :=
        ih (fun f' hmem => hfs f' (List.mem_cons_of_mem f hmem)) { st with rxWire := b' } hshort
          hrest
      exact ⟨f :: done, left, b, by simp [popFrames, hpop, hrun], rfl, hleft, hnone⟩

/-- What is left of a stream of frames is read back frame by frame, however it is
cut, when the buffer holds a part of the first of them. -/
theorem reassemble_framesBytes {fs : List ParsedFrame}
    (hfs : ∀ f ∈ fs, f.bytes.length ≤ maxWireRxBuffer - (pullSize - 1)) {chunks : List Bytes}
    (hchunks : ∀ c ∈ chunks, 1 ≤ c.length ∧ c.length ≤ pullSize) (st : FdState)
    (h : st.rxWire ++ chunks.flatten = framesBytes fs) (hnone : tryPopFrame st.rxWire = .ok none) :
    reassemble st chunks = some (fs, { st with rxWire := [] }) := by
  have hbody : ∀ f ∈ fs, f.payload.length + 2 ≤ maxFrameBody := by
    intro f hmem
    have hlen := hfs f hmem
    rw [ParsedFrame.bytes, frameBytes_length] at hlen
    have hmax : maxWireRxBuffer - (pullSize - 1) ≤ maxFrameBody + 4 := by decide
    omega
  induction chunks generalizing fs st with
  | nil =>
    rw [List.flatten_nil, List.append_nil] at h
    cases fs with
    | nil =>
      have hst : { st with rxWire := [] } = st := by
        rw [show ([] : Bytes) = st.rxWire from h.symm]
      rw [hst]
      rfl
    | cons f fs =>
      have hpop := tryPopFrame_bytes (hbody f List.mem_cons_self) (framesBytes fs)
      rw [← framesBytes_cons, ← h, hnone] at hpop
      cases hpop
  | cons chunk chunks ih =>
    obtain ⟨hpos, hsize⟩ := hchunks chunk List.mem_cons_self
    rw [List.flatten_cons] at h
    -- the buffer holds less than one frame, so there is room for a segment
    have hroom : chunk.length ≤ maxWireRxBuffer - st.rxWire.length := by
      cases fs with
      | nil =>
        have hnil := (List.append_eq_nil_iff.mp (List.append_eq_nil_iff.mp h).2).1
        rw [hnil] at hpos
        cases hpos
      | cons f fs =>
        have hlen := hfs f List.mem_cons_self
        rcases tryPopFrame_framesBytes (hbody f List.mem_cons_self) h with ⟨-, hlt⟩ | ⟨b', hb, -⟩
        · have hmax : pullSize ≤ maxWireRxBuffer := by decide
          have hp : 1 ≤ pullSize := by decide
          omega
        · have hpop := tryPopFrame_bytes (hbody f List.mem_cons_self) b'
          rw [← hb, hnone] at hpop
          cases hpop
    have happ : st.appendRxWire chunk = some { st with rxWire := st.rxWire ++ chunk } :=
      FdState.appendRxWire_eq_some.mpr ⟨hroom, rfl⟩
    rw [← List.append_assoc] at h
    obtain ⟨done, left, b, hrun, rfl, hleft, hb⟩ :=
      popFrames_framesBytes hbody { st with rxWire := st.rxWire ++ chunk }
        (Nat.lt_add_one _) h
    have hrest := ih (fun f hmem => hfs f (List.mem_append_right _ hmem))
      (fun c hmem => hchunks c (List.mem_cons_of_mem _ hmem))
      { st with rxWire := b } hleft hb
      (fun f hmem => hbody f (List.mem_append_right _ hmem))
    rw [reassemble, happ, Option.bind_eq_bind, Option.bind_some, hrun]
    simp only [Option.bind_eq_bind, Option.bind_some, hrest]
    rfl

/-- What the frame codec promises, alone and under reassembly. -/
structure FrameCodec : Prop where
  accepts : ∀ s t p, (frame s t p).isSome = true ↔ p.length + 2 ≤ maxFrameBody
  roundTrip : ∀ s t p b rest, frame s t p = some b →
    popFrame (b ++ rest) = (.ok (some ⟨s, t, p⟩), rest)
  removed : ∀ b rest f, popFrame b = (.ok (some f), rest) →
    ∃ bytes, frame f.suiteId f.tag f.payload = some bytes ∧ b = bytes ++ rest
  incomplete : ∀ b rest, popFrame b = (.ok none, rest) → rest = b
  malformed : ∀ b rest, popFrame b = (.error (), rest) → rest = b
  refuses : ∀ b, (popFrame b).1 = .error () ↔ hdrLen ≤ b.length ∧
    ¬(2 ≤ beNat (b.take hdrLen) ∧ beNat (b.take hdrLen) ≤ maxFrameBody)
  reassembles : ∀ (fs : List ParsedFrame) (chunks : List Bytes) (st : FdState),
    (∀ f ∈ fs, f.bytes.length ≤ maxWireRxBuffer - (pullSize - 1)) →
    (∀ c ∈ chunks, 1 ≤ c.length ∧ c.length ≤ pullSize) →
    chunks.flatten = framesBytes fs → st.rxWire = [] → reassemble st chunks = some (fs, st)

theorem frameCodec : FrameCodec where
  accepts := fun s t p => by
    simp [Option.isSome_iff_exists, frame_eq_some]
  roundTrip := fun s t p b rest h => by
    obtain ⟨hlen, rfl⟩ := frame_eq_some.mp h
    rw [popFrame_eq_some]
    exact tryPopFrame_frame hlen rest
  removed := fun b rest f h => by
    obtain ⟨hb, hlen⟩ := tryPopFrame_eq_some (popFrame_eq_some.mp h)
    exact ⟨f.bytes, frame_eq_some.mpr ⟨hlen, rfl⟩, hb⟩
  incomplete := fun b rest h => popFrame_unchanged h (by simp)
  malformed := fun b rest h => popFrame_unchanged h (by simp)
  refuses := fun b => popFrame_error
  reassembles := fun fs chunks st hfs hchunks h hst => by
    have hrun := reassemble_framesBytes hfs hchunks st (by rw [hst, List.nil_append, h])
      (by rw [hst]; rfl)
    have heq : { st with rxWire := [] } = st := by rw [← hst]
    rwa [heq] at hrun

example : (reassemble ⟨.failed, 0, .nistStandard768, 0, [], [], [], false⟩
    [[0, 0, 0], [3, 1, 3, 7, 0], [0, 0, 2, 2, 3]]).map Prod.fst =
      some [⟨1, 3, [7]⟩, ⟨2, 3, []⟩] := by decide +kernel

end SyntriassOverlay
