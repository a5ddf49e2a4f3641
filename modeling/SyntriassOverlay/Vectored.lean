import SyntriassOverlay.Truncation

/-!
# Vectored reads and writes (interceptor.rs:853-948)

`overlay_write_iov` gathers its buffers and sends the result; `overlay_read_iov` receives
into one buffer and scatters it. Both check the vector first for its total length and, while
they copy, for null bases. For a write that is before anything is sent, for a read it is after
the plaintext has left the session. The check is for entries with bytes only, and gathering makes
a slice of every entry.
-/

namespace SyntriassOverlay
open Crypto Resumption

/-! ### A vector as one buffer -/

/-- Only an entry without bytes may have a null base. -/
def InBuf.Valid : InBuf → Prop
  | .null len => len = 0
  | .bytes _ => True

def InBuf.contents : InBuf → Bytes
  | .null _ => []
  | .bytes b => b

/-- The entries of a vector; a null pointer has none to give. -/
def entries (iov : IoVec) (iovcnt : ℕ) : Option (List InBuf) :=
  if iovcnt = 0 then some [] else iov.map (List.take iovcnt)

def capacity (items : List InBuf) : ℕ := (items.map InBuf.length).sum

def contents (items : List InBuf) : Bytes := items.flatMap InBuf.contents

/-- A vector that can stand for one buffer: bases where they are needed and no more bytes than
the copy may have. -/
structure Flat (iov : IoVec) (iovcnt : ℕ) (items : List InBuf) : Prop where
  entries : entries iov iovcnt = some items
  valid : ∀ item ∈ items, item.Valid
  fits : capacity items ≤ maxIovCopy

@[simp] theorem capacity_nil : capacity [] = 0 := rfl

@[simp] theorem capacity_cons (item : InBuf) (items : List InBuf) :
    capacity (item :: items) = item.length + capacity items := by
  simp [capacity]

theorem capacity_append (front back : List InBuf) :
    capacity (front ++ back) = capacity front + capacity back := by
  simp [capacity]

@[simp] theorem contents_nil : contents [] = [] := rfl

@[simp] theorem contents_cons (item : InBuf) (items : List InBuf) :
    contents (item :: items) = item.contents ++ contents items := by
  simp [contents]

theorem InBuf.Valid.contents_length {item : InBuf} (h : item.Valid) :
    item.contents.length = item.length := by
  cases item with
  | null len => exact h.symm
  | bytes b => rfl

theorem iovSum_eq (items : List InBuf) {total : ℕ} (htotal : total ≤ maxIovCopy) :
    iovSum total items =
      if total + capacity items ≤ maxIovCopy then .ok (total + capacity items)
      else .error EMSGSIZE := by
  induction items generalizing total with
  | nil => simp [iovSum, htotal]
  | cons item items ih =>
    rw [iovSum, capacity_cons, ← Nat.add_assoc]
    by_cases hitem : total + item.length ≤ maxIovCopy
    · rw [if_neg (by omega), ih hitem]
    · rw [if_pos (by omega), if_neg (by omega)]

theorem iovTotal_eq (iov : IoVec) (iovcnt : ℕ) :
    iovTotal iov iovcnt =
      match entries iov iovcnt with
      | none => .error EFAULT
      | some items =>
        if capacity items ≤ maxIovCopy then .ok (capacity items) else .error EMSGSIZE := by
  unfold iovTotal entries
  by_cases hcnt : iovcnt = 0
  · simp only [if_pos hcnt, capacity_nil, Nat.zero_le, if_true]
  · simp only [if_neg hcnt]
    cases iov with
    | none => rfl
    | some items =>
      dsimp only [Option.map_some]
      rw [iovSum_eq _ (Nat.zero_le _), Nat.zero_add]

/-! ### Gathering -/

def InBuf.Based : InBuf → Prop
  | .null _ => False
  | .bytes _ => True

theorem InBuf.Based.valid {item : InBuf} (h : item.Based) : item.Valid := by
  cases item with
  | null len => cases h
  | bytes b => trivial

/-- A vector has a base everywhere, or there is a first entry without one. -/
theorem based_or_null (items : List InBuf) :
    (∀ item ∈ items, item.Based) ∨
      ∃ front len back, items = front ++ .null len :: back ∧ ∀ item ∈ front, item.Based := by
  induction items with
  | nil => exact .inl fun item hmem => by cases hmem
  | cons item items ih =>
    cases item with
    | null len => exact .inr ⟨[], len, items, rfl, fun item hmem => by cases hmem⟩
    | bytes b =>
      rcases ih with hall | ⟨front, len, back, rfl, hfront⟩
      · exact .inl (List.forall_mem_cons.mpr ⟨trivial, hall⟩)
      · exact .inr ⟨.bytes b :: front, len, back, rfl, List.forall_mem_cons.mpr ⟨trivial, hfront⟩⟩

theorem gatherItems_front {front : List InBuf} (h : ∀ item ∈ front, item.Based) (out : Bytes)
    (back : List InBuf) :
    gatherItems out (front ++ back) = gatherItems (out ++ contents front) back := by
  induction front generalizing out with
  | nil => simp
  | cons item front ih =>
    have hrest := ih fun i hi => h i (List.mem_cons_of_mem _ hi)
    have hitem := h item List.mem_cons_self
    cases item with
    | null len => cases hitem
    | bytes b =>
      rw [List.cons_append, gatherItems, hrest, contents_cons, List.append_assoc]
      rfl

theorem gatherItems_based {items : List InBuf} (h : ∀ item ∈ items, item.Based) :
    gatherItems [] items = some (.ok (contents items)) := by
  have hall := gatherItems_front h [] []
  rwa [List.append_nil, List.nil_append] at hall

theorem gatherIov_eq (iov : IoVec) (iovcnt : ℕ) :
    gatherIov iov iovcnt =
      match iovTotal iov iovcnt with
      | .error e => some (.error e)
      | .ok _ => gatherItems [] ((entries iov iovcnt).getD []) := by
  unfold gatherIov
  cases iovTotal iov iovcnt with
  | error e => rfl
  | ok total =>
    unfold entries
    by_cases hcnt : iovcnt = 0
    · simp only [if_pos hcnt, Option.getD_some]
    · cases iov <;> simp [hcnt]

theorem gatherIov_fits {iov : IoVec} {iovcnt : ℕ} {items : List InBuf}
    (hentries : entries iov iovcnt = some items) (hfits : capacity items ≤ maxIovCopy) :
    gatherIov iov iovcnt = gatherItems [] items := by
  rw [gatherIov_eq, iovTotal_eq, hentries]
  simp only [if_pos hfits, Option.getD_some]

/-- The copy loop comes to an entry with a null base and no bytes. -/
def ReachesEmptyNull (iov : IoVec) (iovcnt : ℕ) : Prop :=
  ∃ front back, entries iov iovcnt = some (front ++ .null 0 :: back) ∧
    (∀ item ∈ front, item.Valid) ∧ capacity (front ++ .null 0 :: back) ≤ maxIovCopy

section
variable {iov : IoVec} {iovcnt : ℕ}

theorem ReachesEmptyNull.gatherIov (h : ReachesEmptyNull iov iovcnt) :
    gatherIov iov iovcnt = none := by
  obtain ⟨front, back, hentries, hvalid, hfits⟩ := h
  rw [gatherIov_fits hentries hfits]
  rcases based_or_null front with hbased | ⟨first, len, rest, rfl, hfirst⟩
  · rw [gatherItems_front hbased]
    rfl
  · -- the first entry without a base has no bytes either
    obtain rfl : len = 0 := hvalid (.null len) (by simp)
    rw [List.append_assoc, gatherItems_front hfirst]
    rfl

theorem Flat.gatherIov {items : List InBuf} (h : Flat iov iovcnt items)
    (hnull : ¬ ReachesEmptyNull iov iovcnt) :
    gatherIov iov iovcnt = some (.ok (contents items)) := by
  rw [gatherIov_fits h.entries h.fits]
  rcases based_or_null items with hbased | ⟨front, len, back, rfl, hfront⟩
  · exact gatherItems_based hbased
  · obtain rfl : len = 0 := h.valid (.null len) (by simp)
    exact absurd ⟨front, back, h.entries, fun i hi => (hfront i hi).valid, h.fits⟩ hnull

theorem gatherIov_refused (h : ∀ items, ¬ Flat iov iovcnt items)
    (hnull : ¬ ReachesEmptyNull iov iovcnt) :
    ∃ e, (e = EFAULT ∨ e = EMSGSIZE) ∧ gatherIov iov iovcnt = some (.error e) := by
  cases hentries : entries iov iovcnt with
  | none =>
    refine ⟨EFAULT, .inl rfl, ?_⟩
    rw [gatherIov_eq, iovTotal_eq, hentries]
  | some items =>
    by_cases hfits : capacity items ≤ maxIovCopy
    · rw [gatherIov_fits hentries hfits]
      rcases based_or_null items with hbased | ⟨front, len, back, rfl, hfront⟩
      · exact absurd ⟨hentries, fun i hi => (hbased i hi).valid, hfits⟩ (h items)
      · cases len with
        | zero => exact absurd ⟨front, back, hentries, fun i hi => (hfront i hi).valid, hfits⟩ hnull
        | succ n =>
          refine ⟨EFAULT, .inl rfl, ?_⟩
          rw [gatherItems_front hfront]
          rfl
    · refine ⟨EMSGSIZE, .inr rfl, ?_⟩
      rw [gatherIov_eq, iovTotal_eq, hentries]
      simp only [if_neg hfits]

end

/-! ### Scattering -/

/-- What comes to lie in each buffer when `data` is laid over them in order. -/
def layout (data : Bytes) : List InBuf → List Bytes
  | [] => []
  | item :: items =>
    if data = [] then [] else data.take item.length :: layout (data.drop item.length) items

/-- The buffer with `piece` written over its front. -/
def InBuf.write : InBuf → Bytes → InBuf
  | .null len, _ => .null len
  | .bytes b, piece => .bytes (piece ++ b.drop piece.length)

/-- Each buffer with its piece written to it; buffers without a piece stay as they are. -/
def overwrite : List InBuf → List Bytes → List InBuf
  | item :: items, piece :: pieces => item.write piece :: overwrite items pieces
  | items, _ => items

/-- The data lies at the front of the buffers, which are otherwise as they were: `after` has
the shape of `items`, and its bytes in order are the data and then the old bytes behind it. -/
structure LaidOver (data : Bytes) (items after : List InBuf) : Prop where
  shape : after.map InBuf.length = items.map InBuf.length
  gathered : contents after = data ++ (contents items).drop data.length

section
variable {items : List InBuf} {data : Bytes}

theorem InBuf.write_length (item : InBuf) {piece : Bytes} (h : piece.length ≤ item.length) :
    (item.write piece).length = item.length := by
  cases item with
  | null len => rfl
  | bytes b =>
    have hle : piece.length ≤ b.length := h
    simp [InBuf.write, InBuf.length, hle]

theorem InBuf.Valid.write_contents {item : InBuf} (hitem : item.Valid) {piece : Bytes}
    (h : piece.length ≤ item.length) :
    (item.write piece).contents = piece ++ item.contents.drop piece.length := by
  cases item with
  | null len =>
    obtain rfl : len = 0 := hitem
    obtain rfl : piece = [] := List.eq_nil_of_length_eq_zero (Nat.le_zero.mp h)
    rfl
  | bytes b => rfl

theorem overwrite_layout_length (items : List InBuf) (data : Bytes) :
    (overwrite items (layout data items)).map InBuf.length = items.map InBuf.length := by
  induction items generalizing data with
  | nil => rfl
  | cons item items ih =>
    unfold layout
    by_cases hdata : data = []
    · rw [if_pos hdata]
      rfl
    · rw [if_neg hdata, overwrite, List.map_cons, List.map_cons, ih]
      rw [item.write_length (by simp)]

theorem contents_overwrite_layout (h : ∀ item ∈ items, item.Valid)
    (hlen : data.length ≤ capacity items) :
    contents (overwrite items (layout data items)) = data ++ (contents items).drop data.length := by
  induction items generalizing data with
  | nil =>
    obtain rfl : data = [] := List.eq_nil_of_length_eq_zero (Nat.le_zero.mp hlen)
    rfl
  | cons item items ih =>
    have hitem := h item List.mem_cons_self
    have hitemlen := hitem.contents_length
    unfold layout
    by_cases hdata : data = []
    · subst hdata
      rfl
    · have hrest : (data.drop item.length).length ≤ capacity items := by
        rw [capacity_cons] at hlen
        rw [List.length_drop]
        omega
      have htake : (data.take item.length).length ≤ item.length := by simp
      rw [if_neg hdata, overwrite, contents_cons, contents_cons,
        ih (fun i hi => h i (List.mem_cons_of_mem _ hi)) hrest, hitem.write_contents htake,
        List.drop_append, hitemlen]
      -- either the data ends in this buffer or it fills it
      rcases Nat.le_total data.length item.length with hle | hle
      · simp [List.take_of_length_le hle, List.drop_of_length_le hle, Nat.sub_eq_zero_of_le hle]
      · have hfull : (data.take item.length).length = item.length := by simp [hle]
        have hold : item.contents.drop item.length = [] := by
          rw [← hitemlen, List.drop_length]
        have hover : item.contents.drop data.length = [] :=
          List.drop_of_length_le (hitemlen ▸ hle)
        rw [hfull, hold, hover, List.append_nil, List.nil_append, List.length_drop,
          ← List.append_assoc, List.take_append_drop]

theorem scatterItems_nil (items : List InBuf) : scatterItems [] items = .ok [] := by
  cases items <;> rfl

theorem scatterItems_cons {item : InBuf} (hitem : item.Valid) (hdata : data ≠ [])
    (items : List InBuf) :
    scatterItems data (item :: items) =
      (scatterItems (data.drop item.length) items).map (data.take item.length :: ·) := by
  rw [scatterItems.eq_def]
  simp only [if_neg hdata]
  cases item with
  | null len =>
    obtain rfl : len = 0 := hitem
    dsimp only
    cases scatterItems (data.drop (InBuf.null 0).length) items <;> rfl
  | bytes b =>
    dsimp only
    cases scatterItems (data.drop (InBuf.bytes b).length) items <;> rfl

theorem scatterItems_valid (h : ∀ item ∈ items, item.Valid) (data : Bytes) :
    scatterItems data items = .ok (layout data items) := by
  induction items generalizing data with
  | nil => rfl
  | cons item items ih =>
    by_cases hdata : data = []
    · rw [hdata, scatterItems_nil]
      rfl
    · rw [scatterItems_cons (h item List.mem_cons_self) hdata, layout, if_neg hdata,
        ih fun i hi => h i (List.mem_cons_of_mem _ hi)]
      rfl

theorem scatterIov_eq {iov : IoVec} {iovcnt : ℕ} (h : entries iov iovcnt = some items)
    (hroom : data ≠ [] → 0 < capacity items) :
    scatterIov iov iovcnt data = scatterItems data items := by
  unfold scatterIov
  by_cases hdata : data = []
  · rw [hdata, scatterItems_nil]
    rfl
  · have hpos := hroom hdata
    rw [if_neg hdata]
    unfold entries at h
    by_cases hcnt : iovcnt = 0
    · rw [if_pos hcnt] at h
      cases h
      cases hpos
    · rw [if_neg hcnt] at h
      cases iov with
      | none => cases h
      | some l =>
        cases h
        rfl

theorem layout_laidOver (h : ∀ item ∈ items, item.Valid) (hlen : data.length ≤ capacity items) :
    LaidOver data items (overwrite items (layout data items)) :=
  ⟨overwrite_layout_length items data, contents_overwrite_layout h hlen⟩

end

/-! ### Vectored writes -/

/-- A vectored write is the write of the gathered bytes or refused, and scattering is the
inverse of gathering. -/
structure WritesFlat (iov : IoVec) (iovcnt : ℕ) : Prop where
  flat : ∀ items, Flat iov iovcnt items → ∀ fuel fd flags,
    overlayWriteIov fuel fd iov iovcnt flags = hookSend fuel fd (contents items) flags
  refused : (∀ items, ¬ Flat iov iovcnt items) → ∃ e, (e = EFAULT ∨ e = EMSGSIZE) ∧
    ∀ fuel fd flags, overlayWriteIov fuel fd iov iovcnt flags = pure (.error e)
  scattered : ∀ items data, entries iov iovcnt = some items → (∀ item ∈ items, item.Valid) →
    data.length ≤ capacity items → ∃ pieces, scatterIov iov iovcnt data = .ok pieces ∧
      LaidOver data items (overwrite items pieces)

section
variable {iov : IoVec} {iovcnt : ℕ}

theorem scatterIov_laidOver {items : List InBuf} {data : Bytes}
    (hentries : entries iov iovcnt = some items) (hvalid : ∀ item ∈ items, item.Valid)
    (hlen : data.length ≤ capacity items) : ∃ pieces, scatterIov iov iovcnt data = .ok pieces ∧
      LaidOver data items (overwrite items pieces) := by
  have hroom : data ≠ [] → 0 < capacity items := by
    intro hdata
    have hpos := List.length_pos_iff.mpr hdata
    omega
  refine ⟨layout data items, ?_, layout_laidOver hvalid hlen⟩
  rw [scatterIov_eq hentries hroom, scatterItems_valid hvalid]

theorem ReachesEmptyNull.overlayWriteIov (h : ReachesEmptyNull iov iovcnt) (fuel : ℕ) (fd : Fd)
    (flags : Flags) : overlayWriteIov fuel fd iov iovcnt flags = pure .undefined := by
  unfold SyntriassOverlay.overlayWriteIov
  rw [h.gatherIov]

/-- A write whose behaviour is undefined is no flat write, and no refusal either. -/
theorem ReachesEmptyNull.not_writesFlat (h : ReachesEmptyNull iov iovcnt) :
    ¬ WritesFlat iov iovcnt := by
  intro hflat
  have hundef := congrFun (h.overlayWriteIov 0 0 0) ()
  by_cases hitems : ∃ items, Flat iov iovcnt items
  · obtain ⟨items, hitems⟩ := hitems
    rw [hflat.flat items hitems 0 0 0] at hundef
    cases hundef
  · obtain ⟨e, -, hrefused⟩ := hflat.refused fun items hi => hitems ⟨items, hi⟩
    rw [hrefused 0 0 0] at hundef
    cases hundef

end

/-- Vectored writes equal flat ones just for the vectors in which the copy loop comes to no entry
with a null base and no bytes. -/
theorem writesFlat_iff (iov : IoVec) (iovcnt : ℕ) :
    WritesFlat iov iovcnt ↔ ¬ ReachesEmptyNull iov iovcnt := by
  constructor
  · exact fun h hnull => hnull.not_writesFlat h
  · intro hnull
    refine ⟨fun items hflat fuel fd flags => ?_, fun hnone => ?_, fun items data => ?_⟩
    · unfold overlayWriteIov
      rw [hflat.gatherIov hnull]
    · obtain ⟨e, he, hrefused⟩ := gatherIov_refused hnone hnull
      refine ⟨e, he, fun fuel fd flags => ?_⟩
      unfold overlayWriteIov
      rw [hrefused]
    · exact scatterIov_laidOver

/-- Two buffers with an entry between them that has neither a base nor bytes. -/
theorem writesFlat_not :
    Flat (some [.bytes [1, 2], .null 0, .bytes [3]]) 3 [.bytes [1, 2], .null 0, .bytes [3]] ∧
    (∀ fuel fd flags, overlayWriteIov fuel fd (some [.bytes [1, 2], .null 0, .bytes [3]]) 3 flags =
      pure .undefined) ∧
    ¬ WritesFlat (some [.bytes [1, 2], .null 0, .bytes [3]]) 3 := by
  have hfits : capacity [.bytes [1, 2], .null 0, .bytes [3]] ≤ maxIovCopy := by
    simp [capacity, InBuf.length, maxIovCopy]
  have hnull : ReachesEmptyNull (some [.bytes [1, 2], .null 0, .bytes [3]]) 3 :=
    ⟨[.bytes [1, 2]], [.bytes [3]], rfl, by simp [InBuf.Valid], hfits⟩
  exact ⟨⟨rfl, by simp [InBuf.Valid], hfits⟩, hnull.overlayWriteIov, hnull.not_writesFlat⟩

/-! ### Vectored reads -/

/-- What a vectored read returns for what was received, given how it is laid out. -/
def scattered (lay : Bytes → Except Errno (List Bytes)) : Except Errno Bytes → HookRet
  | .error e => .error e
  | .ok data =>
    match lay data with
    | .ok pieces => .scattered pieces
    | .error e => .error e

/-- A vectored read is a read into one buffer of at most `maxIovCopy` bytes, with what was read
laid over the entries in order. -/
def ReadsFlat (fuel : ℕ) (fd : Fd) (iov : IoVec) (iovcnt : ℕ) (flags : Flags)
    (items : List InBuf) : Prop :=
  ∃ lay : Bytes → List Bytes,
    (∀ data, data.length ≤ capacity items → LaidOver data items (overwrite items (lay data))) ∧
    overlayReadIov fuel fd iov iovcnt flags = do
      let r ← hookRecv fuel fd false (min (capacity items) maxIovCopy) flags
      pure (scattered (fun data => .ok (lay data)) r)

section
variable {fuel : ℕ} {fd : Fd} {iov : IoVec} {iovcnt : ℕ} {flags : Flags} {items : List InBuf}

theorem overlayReadIov_eq (h : entries iov iovcnt = some items) (hpos : 0 < capacity items)
    (hfits : capacity items ≤ maxIovCopy) :
    overlayReadIov fuel fd iov iovcnt flags = (do
      let r ← hookRecv fuel fd false (min (capacity items) maxIovCopy) flags
      pure (scattered (fun data => scatterItems data items) r)) := by
  have hmin : min (capacity items) maxIovCopy ≠ 0 := by omega
  unfold overlayReadIov
  rw [iovTotal_eq, h]
  simp only [if_pos hfits, if_neg hmin]
  congr 1
  funext r
  cases r with
  | error e => rfl
  | ok data =>
    rw [scattered, ← scatterIov_eq h fun _ => hpos]
    dsimp only
    cases scatterIov iov iovcnt data <;> rfl

theorem overlayReadIov_oversized (h : entries iov iovcnt = some items)
    (hover : maxIovCopy < capacity items) :
    overlayReadIov fuel fd iov iovcnt flags = pure (.error EMSGSIZE) := by
  have hnot : ¬ capacity items ≤ maxIovCopy := by omega
  unfold overlayReadIov
  rw [iovTotal_eq, h]
  simp only [if_neg hnot]

/-- A flat read looks up the descriptor, an oversized vectored one returns at once. -/
theorem not_readsFlat (h : entries iov iovcnt = some items) (hover : maxIovCopy < capacity items) :
    ¬ ReadsFlat fuel fd iov iovcnt flags items := by
  rintro ⟨lay, -, hread⟩
  have hlen : 0 < min (capacity items) maxIovCopy := by
    have hmax : 0 < maxIovCopy := by decide
    omega
  rw [overlayReadIov_oversized h hover] at hread
  have hprog := congrFun hread ()
  simp only [hookRecv, dif_pos hlen] at hprog
  cases hprog

/-- A vectored read is a flat one just when the vector is within the limit that the read
would be capped to. -/
theorem readsFlat_iff (fuel : ℕ) (fd : Fd) (flags : Flags)
    (hentries : entries iov iovcnt = some items) (hvalid : ∀ item ∈ items, item.Valid)
    (hpos : 0 < capacity items) :
    ReadsFlat fuel fd iov iovcnt flags items ↔ capacity items ≤ maxIovCopy := by
  constructor
  · intro h
    by_contra hnot
    exact not_readsFlat hentries (by omega) h
  · intro hfits
    refine ⟨fun data => layout data items, fun data hlen => layout_laidOver hvalid hlen, ?_⟩
    rw [overlayReadIov_eq hentries hpos hfits]
    simp only [scatterItems_valid hvalid]

end

theorem readsFlat_two :
    ReadsFlat 8 3 (some [.bytes [0, 0], .bytes [0]]) 2 0 [.bytes [0, 0], .bytes [0]] :=
  (readsFlat_iff 8 3 0 rfl (by simp [InBuf.Valid]) (by decide)).mpr (by decide)

/-- One buffer with a byte more than the limit. -/
theorem readsFlat_not : ∃ b : Bytes, b.length = maxIovCopy + 1 ∧
    ¬ ReadsFlat 8 3 (some [.bytes b]) 1 0 [.bytes b] := by
  have hbuf : ∀ n, ∃ b : Bytes, b.length = n := fun n => ⟨.replicate n 0, List.length_replicate⟩
  obtain ⟨b, hlen⟩ := hbuf (maxIovCopy + 1)
  have hcap : capacity [.bytes b] = maxIovCopy + 1 := by
    rw [capacity_cons, capacity_nil, InBuf.length, hlen]
  exact ⟨b, hlen, not_readsFlat rfl (by omega)⟩

/-! ### Failed reads -/

/-- The vector is not too long, and when `data` is laid out in it an entry with a null base and
bytes to take is reached. -/
def ReachesNull (iov : IoVec) (iovcnt : ℕ) (data : Bytes) : Prop :=
  ∃ front len back, entries iov iovcnt = some (front ++ .null (len + 1) :: back) ∧
    capacity (front ++ .null (len + 1) :: back) ≤ maxIovCopy ∧ capacity front < data.length

theorem InBuf.eq_null {item : InBuf} (h : ¬ item.Valid) : ∃ len, item = .null (len + 1) := by
  cases item with
  | null len =>
    obtain ⟨n, rfl⟩ := Nat.exists_eq_succ_of_ne_zero h
    exact ⟨n, rfl⟩
  | bytes b => exact absurd trivial h

theorem scatterItems_stop {data : Bytes} (hdata : data ≠ []) (len : ℕ) (items : List InBuf) :
    scatterItems data (.null (len + 1) :: items) = .error EFAULT := by
  rw [scatterItems, if_neg hdata]

theorem scatterItems_null (front : List InBuf) {len : ℕ} {back : List InBuf} {data : Bytes}
    (hlt : capacity front < data.length) :
    scatterItems data (front ++ .null (len + 1) :: back) = .error EFAULT := by
  have hdata : data ≠ [] := List.length_pos_iff.mp (by omega)
  induction front generalizing data with
  | nil => exact scatterItems_stop hdata len back
  | cons item front ih =>
    by_cases hitem : item.Valid
    · have hrest : capacity front < (data.drop item.length).length := by
        rw [capacity_cons] at hlt
        rw [List.length_drop]
        omega
      rw [List.cons_append, scatterItems_cons hitem hdata,
        ih hrest (List.length_pos_iff.mp (by omega))]
      rfl
    · obtain ⟨n, rfl⟩ := InBuf.eq_null hitem
      exact scatterItems_stop hdata n _

theorem scatterItems_error {items : List InBuf} {data : Bytes} {e : Errno}
    (h : scatterItems data items = .error e) : e = EFAULT ∧
      ∃ front len back, items = front ++ .null (len + 1) :: back ∧
        capacity front < data.length := by
  induction items generalizing data with
  | nil => cases h
  | cons item items ih =>
    by_cases hdata : data = []
    · rw [hdata, scatterItems_nil] at h
      cases h
    by_cases hitem : item.Valid
    · rw [scatterItems_cons hitem hdata] at h
      cases hrest : scatterItems (data.drop item.length) items with
      | ok pieces =>
        rw [hrest] at h
        cases h
      | error e' =>
        rw [hrest] at h
        cases h
        obtain ⟨he, front, len, back, rfl, hlt⟩ := ih hrest
        rw [List.length_drop] at hlt
        refine ⟨he, item :: front, len, back, rfl, ?_⟩
        rw [capacity_cons]
        omega
    · obtain ⟨n, rfl⟩ := InBuf.eq_null hitem
      rw [scatterItems_stop hdata] at h
      cases h
      exact ⟨rfl, [], n, items, rfl, List.length_pos_iff.mpr hdata⟩

/-- A hook on a descriptor whose session is the state of the action. -/
def onSession (P : Primitives) {α : Type} : Prog HookResp Unit α → FdAct α
  | .done _ a => pure a
  | .call _ (.lookup _) k => onSession P (k (some 0))
  | .call _ (.overlaySend _ plaintext flags fuel) k => do
    let r ← overlaySend P plaintext flags fuel
    onSession P (k r)
  | .call _ (.overlayRecv _ len _ flags fuel) k => do
    let r ← overlayRecv P len flags fuel
    onSession P (k r)
  | .call _ _ _ => fun s => .cut s
  | .cut _ => fun s => .cut s

/-- The plaintext of a session is kept over the calls `u`: none is handed out, what waited
waits still, before what was opened meanwhile, and the session is not closed. -/
structure StreamKept (s : FdState) (u : Tr) (s' : FdState) : Prop where
  undelivered : deliveredBytes u = []
  waiting : s'.rxPlain = s.rxPlain ++ openedPlain u
  unclosed : s.phase ≠ .failed → s'.phase ≠ .failed

theorem StreamKept.refl (s : FdState) : StreamKept s [] s :=
  ⟨rfl, (List.append_nil _).symm, id⟩

section
variable {P : Primitives} {s : FdState} {fuel : ℕ} {fd : Fd} {iov : IoVec} {iovcnt : ℕ}
  {flags : Flags}

theorem onSession_overlayReadIov {items : List InBuf} (h : entries iov iovcnt = some items)
    (hpos : 0 < capacity items) (hfits : capacity items ≤ maxIovCopy) :
    onSession P (overlayReadIov fuel fd iov iovcnt flags ()) = (do
      let r ← overlayRecv P (capacity items) flags fuel
      pure (scattered (fun data => scatterItems data items) r)) := by
  rw [overlayReadIov_eq h hpos hfits, Nat.min_eq_left hfits]
  simp only [hookRecv, dif_pos hpos]
  rfl

/-- The session stays open over the calls `u`, and the plaintext that it has by then, what waited
and what was opened meanwhile, reaches a bad entry. -/
def Spills (s : FdState) (u : Tr) (iov : IoVec) (iovcnt : ℕ) : Prop :=
  s.phase ≠ .failed ∧ closings u = [] ∧ ReachesNull iov iovcnt (s.rxPlain ++ openedPlain u)

theorem Spills.alive {u : Tr} {s' : FdState} (h : Spills s u iov iovcnt)
    (hh : History P True s u s' none) : s'.phase ≠ .failed := by
  intro hf
  rcases hh.failed_iff.mp hf with hfailed | hclosed
  · exact h.1 hfailed
  · exact hclosed h.2.1

theorem spills_of_alive {u : Tr} {s' : FdState} (hh : History P True s u s' none)
    (hlive : s'.phase ≠ .failed)
    (hnull : ReachesNull iov iovcnt (s.rxPlain ++ openedPlain u)) : Spills s u iov iovcnt := by
  have hnot := not_or.mp fun h => hlive (hh.failed_iff.mpr h)
  exact ⟨hnot.1, not_not.mp hnot.2, hnull⟩

/-- A vector with a bad entry, once it is reached, and all that a call of `overlay_recv` has
found: what the call returns reaches the entry as well. -/
theorem ReachesNull.returned {items : List InBuf} {data rest : Bytes}
    (hentries : entries iov iovcnt = some items)
    (hfull : rest ≠ [] → capacity items ≤ data.length)
    (h : ReachesNull iov iovcnt (data ++ rest)) :
    ∃ front len back, items = front ++ .null (len + 1) :: back ∧
      capacity front < data.length := by
  obtain ⟨front, len, back, hsplit, -, hlt⟩ := h
  rw [hentries] at hsplit
  cases hsplit
  refine ⟨front, len, back, rfl, ?_⟩
  by_cases hrest : rest = []
  · rwa [hrest, List.append_nil] at hlt
  · have hle := hfull hrest
    rw [capacity_append, capacity_cons, InBuf.length] at hle
    omega

/-- A vector in which a bad entry is reached has bytes to fill, and not too many. -/
theorem ReachesNull.entries {data : Bytes} (h : ReachesNull iov iovcnt data) :
    ∃ items, entries iov iovcnt = some items ∧ 0 < capacity items ∧
      capacity items ≤ maxIovCopy := by
  obtain ⟨front, len, back, hsplit, hfits, -⟩ := h
  refine ⟨_, hsplit, ?_, hfits⟩
  rw [capacity_append, capacity_cons, InBuf.length]
  omega

section
variable {u : Tr} {s' : FdState} {items : List InBuf}

/-- A call of `overlay_recv` that fails on an open session has found no plaintext. -/
theorem refused_account {e : Errno} {len : ℕ} (hh : History P True s u s' none)
    (hdel : deliveredBytes u = []) (hconduct : RecvConduct s len u s' (.error e)) :
    (HookRet.error e = .error EFAULT → StreamKept s u s') ↔ ¬ Spills s u iov iovcnt := by
  constructor
  · intro _ hspills
    have hopen := hspills.alive hh
    have hempty : s'.rxPlain = [] := by
      by_contra hne
      obtain ⟨b, hb, -⟩ := hconduct.left hopen hne
      cases hb
    obtain ⟨-, -, front, len, back, -, -, hlt⟩ := hspills
    rw [← hh.plaintext hopen, hdel, hempty] at hlt
    cases hlt
  · intro _ he
    cases he
    have hopen : s'.phase ≠ .failed := fun hf => by cases hconduct.refused hf
    have hplain := hh.plaintext hopen
    rw [hdel] at hplain
    exact ⟨hdel, hplain, fun _ => hopen⟩

theorem scattered_account {data : Bytes} (hentries : entries iov iovcnt = some items)
    (hfits : capacity items ≤ maxIovCopy) (hh : History P True s u s' none)
    (hdel : deliveredBytes u = data)
    (hconduct : RecvConduct s (capacity items) u s' (.ok data)) :
    (scattered (fun data => scatterItems data items) (.ok data) = .error EFAULT →
      StreamKept s u s') ↔ ¬ Spills s u iov iovcnt := by
  have hopen : s'.phase ≠ .failed := fun hf => by cases hconduct.refused hf
  have hplain := hh.plaintext hopen
  rw [hdel] at hplain
  rw [scattered]
  cases hscatter : scatterItems data items with
  | ok pieces =>
    refine ⟨fun _ hspills => ?_, fun _ he => by cases he⟩
    have hfull : s'.rxPlain ≠ [] → capacity items ≤ data.length := by
      intro hne
      obtain ⟨b, hb, hle⟩ := hconduct.left hopen hne
      cases hb
      exact hle
    have hnull := hspills.2.2
    rw [← hplain] at hnull
    obtain ⟨front, len, back, rfl, hlt⟩ := hnull.returned hentries hfull
    rw [scatterItems_null front hlt] at hscatter
    cases hscatter
  | error e =>
    obtain ⟨rfl, front, len, back, rfl, hlt⟩ := scatterItems_error hscatter
    refine ⟨fun hkept => ?_, fun hno => absurd (spills_of_alive hh hopen ?_) hno⟩
    · -- the bytes have left the session and are nowhere else
      have hnil := (hkept rfl).undelivered
      rw [hdel] at hnil
      subst hnil
      cases hlt
    · refine ⟨front, len, back, hentries, hfits, ?_⟩
      rw [← hplain, List.length_append]
      omega

end

/-- A read that returns without a call of `overlay_recv` has touched nothing. -/
theorem pure_account {ret : HookRet} (hret : overlayReadIov fuel fd iov iovcnt flags = pure ret)
    (hnull : ∀ data, ¬ ReachesNull iov iovcnt data) :
    Safe (ioInv P True s) (fun u s' ret => (ret = .error EFAULT → StreamKept s u s') ↔
        ¬ Spills s u iov iovcnt)
      (onSession P (overlayReadIov fuel fd iov iovcnt flags ()) s) [] := by
  rw [hret]
  exact ⟨fun _ hspills => hnull _ hspills.2.2, fun _ _ => .refl s⟩

/-- A failed vectored read keeps the plaintext just when the bad entry is not reached. -/
theorem overlayReadIov_account (hs : s.Sound) :
    Safe (ioInv P True s) (fun u s' ret => (ret = .error EFAULT → StreamKept s u s') ↔
        ¬ Spills s u iov iovcnt)
      (onSession P (overlayReadIov fuel fd iov iovcnt flags ()) s) [] := by
  cases hentries : entries iov iovcnt with
  | none =>
    have hret : overlayReadIov fuel fd iov iovcnt flags = pure (.error EFAULT) := by
      unfold overlayReadIov
      rw [iovTotal_eq, hentries]
    refine pure_account hret fun data hnull => ?_
    obtain ⟨items, hsome, -⟩ := hnull.entries
    cases hentries.symm.trans hsome
  | some items =>
    have hnull : ¬ (0 < capacity items ∧ capacity items ≤ maxIovCopy) →
        ∀ data, ¬ ReachesNull iov iovcnt data := by
      intro hout data hnull
      obtain ⟨items', hsome, hin⟩ := hnull.entries
      cases hentries.symm.trans hsome
      exact hout hin
    by_cases hfits : capacity items ≤ maxIovCopy
    case neg =>
      exact pure_account (overlayReadIov_oversized hentries (by omega)) (hnull fun h => hfits h.2)
    rcases Nat.eq_zero_or_pos (capacity items) with hzero | hpos
    · have hret : overlayReadIov fuel fd iov iovcnt flags = pure (.count 0) := by
        unfold overlayReadIov
        rw [iovTotal_eq, hentries]
        simp [hzero]
      exact pure_account hret (hnull (by omega))
    rw [onSession_overlayReadIov hentries hpos hfits, bind_apply]
    refine safe_bind (safe_mono ?_ (safe_both
      (overlayRecv_safe hs hpos flags fuel .start (Q := fun u s' r =>
          History P True s u s' none ∧ deliveredBytes u = r.toOption.getD []) ?_ ?_)
      (overlayRecv_conduct hs (capacity items) flags)))
    · rintro u s' r ⟨⟨hh, hdel⟩, hconduct⟩
      cases r with
      | error e => exact refused_account hh hdel hconduct
      | ok data => exact scattered_account hentries hfits hh hdel hconduct
    · exact fun u s' data hh hr _ => ⟨hh, hr.delivered⟩
    · exact fun u s' e hh hsame _ => ⟨hh, hsame.delivered⟩

end

/-- The record in which a client in the degraded posture sends `hi`. -/
def greeting : Bytes :=
  match fallbackRespond specimen (ramp 32) (ramp 16).val (ramp 16) with
  | .ok (keys, _) => frameBytes CipherSuite.nistStandard768.id typeData
      (specimen.gcmEncrypt keys.rx.key (nonceFromCounter 0) (ascii "hi"))
  | .error _ => []

/-- A responder that was sent the client's hello and the greeting and has read its first byte. -/
def halfRead : Played :=
  played specimen responderSession [.recv 1 Nat.one_pos 0 8] (closingPeer greeting)

/-- A responder reads the client's hello and the greeting in one vectored read. -/
def greeted (items : List InBuf) : Prog Resp FdState HookRet × Tr × Kernel :=
  runWith Kernel.answerThenEnd 40
    (onSession specimen (overlayReadIov 8 3 (some items) items.length 0 ()) responderSession)
    (closingPeer greeting)

end SyntriassOverlay
