import SyntriassOverlay.Crypto.Handshake

/-!
# Wire frames (interceptor.rs:26-36, 234-276)

`u32` big-endian body length, suite byte, type byte, payload. `frame` builds a
frame, `tryPopFrame` takes the first complete frame off a receive buffer. The
two are inverse to each other, so that a buffer that is a concatenation of
frames can be cut in one way only.
-/

namespace SyntriassOverlay
open BigEndian

def hdrLen : ℕ := 4
def typeClientHello : UInt8 := 1
def typeServerHello : UInt8 := 2
def typeData : UInt8 := 3
def typeFallbackHello : UInt8 := 4
def typeFallbackFinished : UInt8 := 5
def fallbackWireId : UInt8 := 0xFE

def maxWireRxBuffer : ℕ := 16 * 1024 * 1024
def maxWriteBacklog : ℕ := 16 * 1024 * 1024
def maxPlainRxBuffer : ℕ := 16 * 1024 * 1024
def maxFrameBody : ℕ := maxWireRxBuffer - hdrLen
def maxRecordPlaintext : ℕ := 64 * 1024

/-- The bytes of a frame, without the length check. -/
def frameBytes (suiteId tag : UInt8) (payload : Bytes) : Bytes :=
  beBytes hdrLen (2 + payload.length) ++ [suiteId, tag] ++ payload

def frame (suiteId tag : UInt8) (payload : Bytes) : Option Bytes :=
  let bodyLen := 2 + payload.length
  if bodyLen > maxFrameBody then none else some (frameBytes suiteId tag payload)

structure ParsedFrame where
  suiteId : UInt8
  tag : UInt8
  payload : Bytes
  deriving DecidableEq, Repr

def ParsedFrame.bytes (f : ParsedFrame) : Bytes := frameBytes f.suiteId f.tag f.payload

/-- `Ok(None)` and `Err` leave the buffer as it is; `Ok(Some(f))` comes with
what remains of it. -/
def tryPopFrame (rxWire : Bytes) : Except Unit (Option (ParsedFrame × Bytes)) :=
  if rxWire.length < hdrLen then .ok none
  else
    let bodyLen := beNat (rxWire.take hdrLen)
    if ¬(2 ≤ bodyLen ∧ bodyLen ≤ maxFrameBody) then .error ()
    else if rxWire.length < hdrLen + bodyLen then .ok none
    else
      let suiteId := rxWire.getD hdrLen 0
      let tag := rxWire.getD (hdrLen + 1) 0
      let payload := slice rxWire (hdrLen + 2) (hdrLen + bodyLen)
      .ok (some (⟨suiteId, tag, payload⟩, rxWire.drop (hdrLen + bodyLen)))

@[simp] theorem frameBytes_length (s t : UInt8) (p : Bytes) :
    (frameBytes s t p).length = p.length + 6 := by
  simp [frameBytes, hdrLen]
  omega

theorem frame_eq_some {s t : UInt8} {p b : Bytes} :
    frame s t p = some b ↔ p.length + 2 ≤ maxFrameBody ∧ b = frameBytes s t p := by
  unfold frame
  by_cases h : p.length + 2 ≤ maxFrameBody
  · have hn : ¬2 + p.length > maxFrameBody := by omega
    simp [h, hn, eq_comm]
  · have hn : 2 + p.length > maxFrameBody := by omega
    simp [h, hn]

theorem frame_eq_none {s t : UInt8} {p : Bytes} :
    frame s t p = none ↔ maxFrameBody < p.length + 2 := by
  unfold frame
  by_cases h : 2 + p.length > maxFrameBody
  · simp only [h, if_true, true_iff]; omega
  · simp only [h, if_false, reduceCtorEq, false_iff]; omega

theorem maxFrameBody_lt : maxFrameBody < 256 ^ hdrLen := by decide

/-- Header, suite byte, type byte and payload of a frame followed by anything. -/
theorem frameBytes_append (s t : UInt8) (p rest : Bytes) :
    frameBytes s t p ++ rest = beBytes hdrLen (2 + p.length) ++ (s :: t :: (p ++ rest)) := by
  simp [frameBytes]

theorem frameBytes_take (s t : UInt8) (p rest : Bytes) :
    (frameBytes s t p ++ rest).take hdrLen = beBytes hdrLen (2 + p.length) := by
  rw [frameBytes_append]
  exact List.take_left' (beBytes_length _ _)

theorem tryPopFrame_frame {s t : UInt8} {p : Bytes} (h : p.length + 2 ≤ maxFrameBody)
    (rest : Bytes) : tryPopFrame (frameBytes s t p ++ rest) = .ok (some (⟨s, t, p⟩, rest)) := by
  have hlen : (frameBytes s t p ++ rest).length = p.length + 6 + rest.length := by simp
  have hbody : beNat ((frameBytes s t p ++ rest).take hdrLen) = 2 + p.length := by
    rw [frameBytes_take]
    exact beNat_beBytes _ _ (lt_of_le_of_lt (by omega) maxFrameBody_lt)
  have h0 : ¬(frameBytes s t p ++ rest).length < hdrLen := by rw [hlen, hdrLen]; omega
  have h1 : 2 ≤ 2 + p.length ∧ 2 + p.length ≤ maxFrameBody := by omega
  have h2 : ¬(frameBytes s t p ++ rest).length < hdrLen + (2 + p.length) := by
    rw [hlen, hdrLen]; omega
  have hdrop (n : ℕ) : (frameBytes s t p ++ rest).drop (hdrLen + n) =
      (s :: t :: (p ++ rest)).drop n := by
    rw [frameBytes_append, ← List.drop_drop, List.drop_left' (beBytes_length _ _)]
  have hs : (frameBytes s t p ++ rest).getD hdrLen 0 = s := by
    have hd := hdrop 0
    rw [Nat.add_zero, List.drop_zero] at hd
    rw [List.getD_eq_getElem?_getD, ← List.head?_drop, hd]
    rfl
  have ht : (frameBytes s t p ++ rest).getD (hdrLen + 1) 0 = t := by
    rw [List.getD_eq_getElem?_getD, ← List.head?_drop, hdrop 1]
    rfl
  have hp : slice (frameBytes s t p ++ rest) (hdrLen + 2) (hdrLen + (2 + p.length)) = p := by
    have hw : hdrLen + (2 + p.length) - (hdrLen + 2) = p.length := by omega
    rw [slice, hw, hdrop 2]
    exact List.take_left
  have hr : (frameBytes s t p ++ rest).drop (hdrLen + (2 + p.length)) = rest := by
    rw [hdrop (2 + p.length), Nat.add_comm 2]
    exact List.drop_left
  simp only [tryPopFrame, hbody, h0, h1, h2, hs, ht, hp, hr, if_false, not_true_eq_false,
    and_self]

/-- What is popped is exactly what is removed. -/
theorem tryPopFrame_eq_some {b rest : Bytes} {f : ParsedFrame}
    (h : tryPopFrame b = .ok (some (f, rest))) :
    b = f.bytes ++ rest ∧ f.payload.length + 2 ≤ maxFrameBody := by
  unfold tryPopFrame at h
  split at h
  · cases h
  rename_i h0
  simp only [] at h
  split at h
  · cases h
  rename_i h1
  split at h
  · cases h
  rename_i h2
  simp only [Except.ok.injEq, Option.some.injEq, Prod.mk.injEq] at h
  obtain ⟨rfl, rfl⟩ := h
  obtain ⟨hlo, hhi⟩ := not_not.mp h1
  generalize hn : beNat (b.take hdrLen) = n at *
  have hlen4 : (b.take hdrLen).length = hdrLen := by rw [List.length_take]; omega
  have hpl : (slice b (hdrLen + 2) (hdrLen + n)).length = n - 2 := by
    rw [slice_length]; omega
  have hhdr : beBytes hdrLen (2 + (n - 2)) = b.take hdrLen := by
    have he := beBytes_beNat (b.take hdrLen)
    rw [hlen4, hn] at he
    rw [show 2 + (n - 2) = n by omega, he]
  refine ⟨?_, by simp only []; omega⟩
  simp only [ParsedFrame.bytes, frameBytes, hpl, hhdr]
  -- cut the buffer after the header, the two bytes behind it and the payload
  have hb : b = b.take hdrLen ++ b.drop hdrLen := (List.take_append_drop _ _).symm
  obtain ⟨x, y, tl, htl⟩ : ∃ x y tl, b.drop hdrLen = x :: y :: tl := by
    match hd : b.drop hdrLen with
    | [] =>
      have := congrArg List.length hd
      simp only [List.length_drop, List.length_nil] at this
      omega
    | [x] =>
      have := congrArg List.length hd
      simp only [List.length_drop, List.length_singleton] at this
      omega
    | x :: y :: tl => exact ⟨x, y, tl, rfl⟩
  have hx : b.getD hdrLen 0 = x := by
    rw [List.getD_eq_getElem?_getD, ← List.head?_drop, htl]
    rfl
  have hy : b.getD (hdrLen + 1) 0 = y := by
    rw [List.getD_eq_getElem?_getD, ← List.head?_drop, ← List.drop_drop, htl]
    rfl
  have hsl : slice b (hdrLen + 2) (hdrLen + n) = tl.take (n - 2) := by
    rw [slice, ← List.drop_drop, htl]
    congr 1
    omega
  have hdr : b.drop (hdrLen + n) = tl.drop (n - 2) := by
    rw [show hdrLen + n = hdrLen + (2 + (n - 2)) by omega, ← List.drop_drop, htl,
      ← List.drop_drop]
    rfl
  rw [hx, hy, hsl, hdr]
  conv_lhs => rw [hb, htl]
  simp

theorem tryPopFrame_bytes {f : ParsedFrame} (h : f.payload.length + 2 ≤ maxFrameBody)
    (rest : Bytes) : tryPopFrame (f.bytes ++ rest) = .ok (some (f, rest)) :=
  tryPopFrame_frame h rest

/-- A proper prefix of a frame is not yet a frame. -/
theorem tryPopFrame_incomplete {s t : UInt8} {p b c : Bytes} (hp : p.length + 2 ≤ maxFrameBody)
    (h : b ++ c = frameBytes s t p) (hc : c ≠ []) : tryPopFrame b = .ok none := by
  have hlen : b.length + c.length = p.length + 6 := by
    rw [← List.length_append, h, frameBytes_length]
  have hcl : 0 < c.length := List.length_pos_iff.mpr hc
  unfold tryPopFrame
  by_cases h0 : b.length < hdrLen
  · simp [h0]
  · have htake : b.take hdrLen = beBytes hdrLen (2 + p.length) := by
      rw [← frameBytes_take s t p [], List.append_nil, ← h,
        List.take_append_of_le_length (by omega)]
    have hbody : beNat (b.take hdrLen) = 2 + p.length := by
      rw [htake]
      exact beNat_beBytes _ _ (lt_of_le_of_lt (by omega) maxFrameBody_lt)
    have h1 : 2 ≤ 2 + p.length ∧ 2 + p.length ≤ maxFrameBody := by omega
    have h2 : b.length < hdrLen + (2 + p.length) := by rw [hdrLen]; omega
    simp only [h0, hbody, h1, h2, if_false, if_true, not_true_eq_false, and_self]

/-- The head of a nonempty concatenation of frames is never malformed. -/
theorem tryPopFrame_within {s t : UInt8} {p b c rest : Bytes} (hp : p.length + 2 ≤ maxFrameBody)
    (h : b ++ c = frameBytes s t p ++ rest) :
    tryPopFrame b = .ok none ∨
      ∃ b', b = frameBytes s t p ++ b' ∧ tryPopFrame b = .ok (some (⟨s, t, p⟩, b')) := by
  rcases List.append_eq_append_iff.mp h with ⟨d, hd, -⟩ | ⟨d, hd, -⟩
  · by_cases hnil : d = []
    · subst hnil
      refine Or.inr ⟨[], by simpa using hd.symm, ?_⟩
      have he := tryPopFrame_frame (s := s) (t := t) hp []
      rwa [hd, List.append_nil, List.append_nil] at he
    · exact Or.inl (tryPopFrame_incomplete hp hd.symm hnil)
  · exact Or.inr ⟨d, hd, hd ▸ tryPopFrame_frame hp d⟩

end SyntriassOverlay
