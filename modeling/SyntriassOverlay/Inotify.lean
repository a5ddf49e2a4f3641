import SyntriassOverlay.Reload
import SyntriassOverlay.Hooks
import SyntriassOverlay.Lib.Ownership

/-!
# The watcher thread (fd_state.rs:413-491)

The thread opens an inotify descriptor, watches the configuration directory with it and reads
into one buffer of 4096 bytes, which keeps what earlier reads have left behind the bytes of the
last one. Each read brings a sequence of `inotify_event` records of different lengths; the
thread walks over them and reloads the configuration for those that are about one of its files.
When anything fails, the descriptor is closed and the thread starts over after a while.
-/

namespace SyntriassOverlay
open Crypto Resumption Ownership BigEndian

namespace Reload

/-! ### The program -/

/-- `mem::size_of::<libc::inotify_event>()`: `wd`, `mask`, `cookie` and `len`, four bytes
each. -/
def eventSize : ℕ := 16

def watchBuffer : ℕ := 4096

def zeroBuffer : Bytes := List.replicate watchBuffer 0

inductive WatchOp where
  | inotifyInit
  | addWatch (fd : Fd)
  | read (fd : Fd) (len : ℕ)
  | handleConfigChange
  | close (fd : Fd)
  | sleep
  /-- An index outside the buffer. -/
  | panicked
  deriving DecidableEq

def WatchResp : WatchOp → Type
  | .inotifyInit => Except Errno Fd
  | .addWatch _ => Except Errno Unit
  | .read _ len => Except Errno {b : Bytes // b.length ≤ len}
  | .handleConfigChange | .close _ | .sleep => Unit
  | .panicked => Empty

abbrev WatchTr := Trace WatchResp

inductive WatchError where
  | os (e : Errno)
  | unexpectedEof

abbrev WatchAct := Act WatchResp Unit

def inotifyInit1 : WatchAct (Except Errno Fd) := perform WatchOp.inotifyInit
def inotifyAddWatch (fd : Fd) : WatchAct (Except Errno Unit) := perform (WatchOp.addWatch fd)
def rawRead (fd : Fd) (len : ℕ) : WatchAct (Except Errno {b : Bytes // b.length ≤ len}) :=
  perform (WatchOp.read fd len)
def rawClose (fd : Fd) : WatchAct Unit := perform (WatchOp.close fd)
def handleConfigChange : WatchAct Unit := perform WatchOp.handleConfigChange
def sleepRetry : WatchAct Unit := perform WatchOp.sleep

def outOfBounds {α : Type} : WatchAct α := fun s => .call s .panicked Empty.elim

/-- `&buf[start..stop]`. -/
def sliceRange (buf : Bytes) (start stop : ℕ) : WatchAct Bytes :=
  if start ≤ stop ∧ stop ≤ buf.length then pure (slice buf start stop) else outOfBounds

def usizeMax : ℕ := 2 ^ 64 - 1

/-- One round of the walk over the events of a read, at `offset`. -/
def walkEvent (buf : Bytes) (total offset : ℕ) : WatchAct (ℕ ⊕ Unit) :=
  if offset + eventSize ≤ total then do
    let tail ← sliceRange buf offset buf.length
    -- the reference to the header reaches that far
    let header ← sliceRange tail 0 eventSize
    let nameStart := offset + eventSize
    let nameEnd := min (nameStart + leNat (slice header 12 16)) usizeMax
    if nameEnd > total then pure (.inr ())
    else do
      let name ← sliceRange buf nameStart nameEnd
      if isRelevantConfigEvent (leNat (slice header 4 8)) name then
        handleConfigChange
      pure (.inl nameEnd)
  else pure (.inr ())

/-- A read of `watch_config_dir_fd` that has failed. -/
def readFailed (buf : Bytes) (e : Errno) : WatchAct (Bytes ⊕ Except WatchError Unit) :=
  if e = EINTR then pure (.inl buf) else pure (.inr (.error (.os e)))

/-- A read of `watch_config_dir_fd` that has brought `got`. -/
def readEnded (buf got : Bytes) : WatchAct (Bytes ⊕ Except WatchError Unit) :=
  if got.length = 0 then pure (.inr (.error .unexpectedEof))
  else do
    let buf := got ++ buf.drop got.length
    -- every event takes at least one byte
    iter (walkEvent buf got.length) (got.length + 1) 0
    pure (.inl buf)

/-- One round of the loop of `watch_config_dir_fd`. -/
def watchRead (fd : Fd) (buf : Bytes) : WatchAct (Bytes ⊕ Except WatchError Unit) := do
  match ← rawRead fd buf.length with
  | .error e => readFailed buf e
  | .ok got => readEnded buf got.val

def watchConfigDirFd (rounds : ℕ) (fd : Fd) : WatchAct (Except WatchError Unit) := do
  match ← inotifyAddWatch fd with
  | .error e => pure (.error (.os e))
  | .ok () => iter (watchRead fd) rounds zeroBuffer

def watchConfigDirOnce (rounds : ℕ) : WatchAct (Except WatchError Unit) := do
  match ← inotifyInit1 with
  | .error e => pure (.error (.os e))
  | .ok fd =>
    let result ← watchConfigDirFd rounds fd
    rawClose fd
    pure result

def configReloaderLoop (rounds : ℕ) : WatchAct Unit :=
  iter (fun () => do
    match ← watchConfigDirOnce rounds with
    | .ok () => pure (.inl ())
    | .error _ => do
      sleepRetry
      pure (.inl ())) rounds ()

/-! ### What is read -/

/-- The event at the front of a byte string, and what follows it. -/
def popEvent (b : Bytes) : Option (Event × Bytes) :=
  let stop := eventSize + leNat (slice b 12 16)
  if b.length < eventSize ∨ b.length < stop then none
  else some (⟨leNat (slice b 4 8), slice b eventSize stop⟩, b.drop stop)

def popEvents : ℕ → Bytes → List Event
  | 0, _ => []
  | n + 1, b =>
    match popEvent b with
    | none => []
    | some (e, rest) => e :: popEvents n rest

/-- The events in a byte string, up to the first one that is not all there. -/
def eventsIn (b : Bytes) : List Event := popEvents b.length b

/-- The `inotify_event` of `e` with its `wd` and `cookie`. -/
def Event.bytes (e : Event) (wd cookie : UInt32) : Bytes :=
  leBytes 4 wd.toNat ++ (leBytes 4 e.mask ++ (leBytes 4 cookie.toNat ++
    (leBytes 4 e.name.length ++ e.name)))

/-- The fields fit into 32 bits. -/
def Event.Fits (e : Event) : Prop := e.mask < 256 ^ 4 ∧ e.name.length < 256 ^ 4

theorem popEvent_shorter {b rest : Bytes} {e : Event} (h : popEvent b = some (e, rest)) :
    rest.length < b.length := by
  unfold popEvent at h
  dsimp only at h
  split at h
  · cases h
  · rename_i hlen
    obtain ⟨-, hrest⟩ := Prod.mk.inj (Option.some.inj h)
    have hsize : eventSize = 16 := rfl
    rw [← hrest, List.length_drop]
    omega

theorem popEvents_rounds {n m : ℕ} {b : Bytes} (hn : b.length ≤ n) (hm : b.length ≤ m) :
    popEvents n b = popEvents m b := by
  induction n generalizing m b with
  | zero =>
    have hnil : b = [] := List.eq_nil_of_length_eq_zero (Nat.le_zero.mp hn)
    subst hnil
    cases m with
    | zero => rfl
    | succ m => rfl
  | succ n ih =>
    cases m with
    | zero =>
      have hnil : b = [] := List.eq_nil_of_length_eq_zero (Nat.le_zero.mp hm)
      subst hnil
      rfl
    | succ m =>
      rw [popEvents, popEvents]
      cases hpop : popEvent b with
      | none => rfl
      | some popped =>
        have hlt := popEvent_shorter hpop
        dsimp only
        rw [ih (b := popped.2) (m := m) (by omega) (by omega)]

theorem eventsIn_none {b : Bytes} (h : popEvent b = none) : eventsIn b = [] := by
  unfold eventsIn
  cases b.length with
  | zero => rfl
  | succ n => rw [popEvents, h]

theorem eventsIn_some {b rest : Bytes} {e : Event} (h : popEvent b = some (e, rest)) :
    eventsIn b = e :: eventsIn rest := by
  have hlt := popEvent_shorter h
  obtain ⟨n, hn⟩ : ∃ n, b.length = n + 1 := ⟨b.length - 1, by omega⟩
  rw [eventsIn, hn, popEvents, h]
  dsimp only
  rw [eventsIn, popEvents_rounds (by omega) le_rfl]

/-- An event is read back from its record. -/
theorem popEvent_bytes {e : Event} (he : e.Fits) (wd cookie : UInt32) (rest : Bytes) :
    popEvent (e.bytes wd cookie ++ rest) = some (e, rest) := by
  have hlen : slice (e.bytes wd cookie ++ rest) 12 16 = leBytes 4 e.name.length := by
    have hsplit : e.bytes wd cookie ++ rest = (leBytes 4 wd.toNat ++ (leBytes 4 e.mask ++
        leBytes 4 cookie.toNat)) ++ (leBytes 4 e.name.length ++ (e.name ++ rest)) := by
      simp [Event.bytes]
    rw [slice, hsplit, List.drop_left' (by simp)]
    exact List.take_left' (leBytes_length 4 _)
  have hmask : slice (e.bytes wd cookie ++ rest) 4 8 = leBytes 4 e.mask := by
    rw [slice, Event.bytes, List.append_assoc, List.drop_left' (leBytes_length 4 _),
      List.append_assoc]
    exact List.take_left' (leBytes_length 4 _)
  have hname : (e.bytes wd cookie ++ rest).drop eventSize = e.name ++ rest := by
    have hsplit : e.bytes wd cookie ++ rest = (leBytes 4 wd.toNat ++ (leBytes 4 e.mask ++
        (leBytes 4 cookie.toNat ++ leBytes 4 e.name.length))) ++ (e.name ++ rest) := by
      simp [Event.bytes]
    rw [hsplit]
    exact List.drop_left' (by simp [eventSize])
  have htotal : (e.bytes wd cookie ++ rest).length = eventSize + e.name.length + rest.length := by
    simp only [Event.bytes, List.length_append, leBytes_length, eventSize]
    omega
  have hstop : eventSize + leNat (slice (e.bytes wd cookie ++ rest) 12 16) =
      eventSize + e.name.length := by
    rw [hlen, leNat_leBytes 4 _ he.2]
  have hfits : ¬ ((e.bytes wd cookie ++ rest).length < eventSize ∨
      (e.bytes wd cookie ++ rest).length < eventSize + e.name.length) := by
    omega
  unfold popEvent
  dsimp only
  rw [hstop, if_neg hfits, hmask, leNat_leBytes 4 _ he.1, ← List.drop_drop, slice, hname,
    Nat.add_sub_cancel_left, List.take_left, List.drop_left]

/-- One or more records of a read, each with its `wd` and `cookie`. -/
def recordBytes (rs : List (Event × UInt32 × UInt32)) : Bytes :=
  rs.flatMap fun r => r.1.bytes r.2.1 r.2.2

theorem eventsIn_records {rs : List (Event × UInt32 × UInt32)} (hrs : ∀ r ∈ rs, r.1.Fits)
    {part : Bytes} (hpart : popEvent part = none) :
    eventsIn (recordBytes rs ++ part) = rs.map Prod.fst := by
  induction rs with
  | nil => exact eventsIn_none hpart
  | cons r rs ih =>
    have hrest := ih fun r' hr' => hrs r' (List.mem_cons_of_mem _ hr')
    have hpop := popEvent_bytes (hrs r List.mem_cons_self) r.2.1 r.2.2 (recordBytes rs ++ part)
    rw [← List.append_assoc] at hpop
    have hcons : recordBytes (r :: rs) = r.1.bytes r.2.1 r.2.2 ++ recordBytes rs := by
      simp [recordBytes]
    rw [hcons, eventsIn_some hpop, hrest, List.map_cons]

/-! ### The walk -/

theorem slice_append {a b : Bytes} {start stop : ℕ} (h : stop ≤ a.length) :
    slice (a ++ b) start stop = slice a start stop := by
  unfold slice
  rcases Nat.le_total start stop with hle | hle
  · rw [List.drop_append_of_le_length (by omega), List.take_append_of_le_length]
    rw [List.length_drop]
    omega
  · rw [Nat.sub_eq_zero_of_le hle, List.take_zero, List.take_zero]

theorem slice_drop (b : Bytes) (n start stop : ℕ) :
    slice (b.drop n) start stop = slice b (n + start) (n + stop) := by
  rw [slice, slice, List.drop_drop]
  congr 1
  omega

theorem sliceRange_bind {α : Type} {buf : Bytes} {start stop : ℕ} (h : start ≤ stop)
    (hstop : stop ≤ buf.length) (f : Bytes → WatchAct α) :
    sliceRange buf start stop >>= f = f (slice buf start stop) := by
  rw [sliceRange, if_pos ⟨h, hstop⟩]
  rfl

section
variable {data stale : Bytes} {offset : ℕ}

/-- What a round of the walk reads of the header is in the bytes of this read; behind them the
buffer holds what earlier reads have left. -/
theorem walkEvent_eq (hoffset : offset + eventSize ≤ data.length)
    (hdata : data.length ≤ watchBuffer) :
    walkEvent (data ++ stale) data.length offset =
      (let stop := offset + eventSize + leNat (slice (data.drop offset) 12 16)
      if stop > data.length then pure (.inr ())
      else do
        if isRelevantConfigEvent (leNat (slice (data.drop offset) 4 8))
            (slice data (offset + eventSize) stop) then
          handleConfigChange
        pure (.inl stop)) := by
  have hsize : eventSize = 16 := rfl
  have hheader : slice (slice (data ++ stale) offset (data ++ stale).length) 0 eventSize =
      (data.drop offset).take eventSize := by
    have htail : slice (data ++ stale) offset (data ++ stale).length =
        data.drop offset ++ stale := by
      rw [slice, List.take_of_length_le (by rw [List.length_drop]),
        List.drop_append_of_le_length (by omega)]
    rw [htail, slice_append (by rw [List.length_drop]; omega)]
    rfl
  have hfield : ∀ i j, j ≤ eventSize →
      slice ((data.drop offset).take eventSize) i j = slice (data.drop offset) i j := by
    intro i j hj
    rw [slice, slice, List.drop_take, List.take_take]
    congr 1
    omega
  have hlen : leNat (slice (data.drop offset) 12 16) < 256 ^ 4 := by
    have hlt := leNat_lt (slice (data.drop offset) 12 16)
    have hfour : (slice (data.drop offset) 12 16).length = 4 := by
      rw [slice_length, List.length_drop]
      omega
    rwa [hfour] at hlt
  have hmin : min (offset + eventSize + leNat (slice (data.drop offset) 12 16)) usizeMax =
      offset + eventSize + leNat (slice (data.drop offset) 12 16) := by
    have hbuf : watchBuffer = 4096 := rfl
    have hmax : usizeMax = 2 ^ 64 - 1 := rfl
    omega
  unfold walkEvent
  rw [if_pos hoffset, sliceRange_bind (by rw [List.length_append]; omega) le_rfl,
    sliceRange_bind (Nat.zero_le _) (by rw [slice_length, List.length_append]; omega)]
  dsimp only
  rw [hheader, hfield 12 16 le_rfl, hfield 4 8 (by omega), hmin]
  split
  · rfl
  · rename_i hstop
    have hle : offset + eventSize + leNat (slice (data.drop offset) 12 16) ≤ data.length :=
      Nat.le_of_not_lt hstop
    rw [sliceRange_bind (Nat.le_add_right _ _) (by rw [List.length_append]; omega),
      slice_append hle]

theorem walkEvent_none (hdata : data.length ≤ watchBuffer)
    (h : popEvent (data.drop offset) = none) :
    walkEvent (data ++ stale) data.length offset = pure (.inr ()) := by
  by_cases hoffset : offset + eventSize ≤ data.length
  · have hlong : ¬ (data.drop offset).length < eventSize := by
      rw [List.length_drop]
      omega
    unfold popEvent at h
    dsimp only at h
    split at h
    · rename_i hshort
      have hstop := hshort.resolve_left hlong
      rw [List.length_drop] at hstop
      rw [walkEvent_eq hoffset hdata]
      dsimp only
      rw [if_pos (by omega)]
    · cases h
  · rw [walkEvent, if_neg hoffset]

theorem walkEvent_some (stale : Bytes) (hdata : data.length ≤ watchBuffer) {e : Event}
    {rest : Bytes}
    (h : popEvent (data.drop offset) = some (e, rest)) :
    ∃ next, offset < next ∧ next ≤ data.length ∧ data.drop next = rest ∧
      walkEvent (data ++ stale) data.length offset = (do
        if e.relevant then handleConfigChange
        pure (.inl next)) := by
  unfold popEvent at h
  dsimp only at h
  split at h
  · cases h
  · rename_i hlong
    obtain ⟨he, hrest⟩ := Prod.mk.inj (Option.some.inj h)
    have hsize : eventSize = 16 := rfl
    rw [List.length_drop] at hlong
    refine ⟨offset + eventSize + leNat (slice (data.drop offset) 12 16), by omega, by omega, ?_, ?_⟩
    · rw [← hrest, List.drop_drop, Nat.add_assoc]
    · rw [walkEvent_eq (by omega) hdata]
      dsimp only
      rw [if_neg (by omega), ← he, Event.relevant, slice_drop data offset eventSize, Nat.add_assoc]

end

/-! ### The account of the thread -/

/-- The events that the reads of a trace have brought. -/
def readEvents : Ev WatchResp → List Event
  | ⟨.read _ _, .ok got⟩ => eventsIn got.val
  | _ => []

def eventsRead (t : WatchTr) : List Event := t.flatMap readEvents

def handled (t : WatchTr) : ℕ := t.countP fun x => x.op = .handleConfigChange

/-- Of the events read all but `left` have been looked at, and the configuration has been
reloaded once for each relevant one among them. -/
def Left (t : WatchTr) (left : List Event) : Prop :=
  ∃ seen, eventsRead t = seen ++ left ∧ handled t = seen.countP Event.relevant

/-- The descriptors of the thread. -/
def watches : Discipline WatchResp Fd where
  uses
    | .addWatch fd | .read fd _ | .close fd => {fd}
    | _ => ∅
  drops
    | .close fd => {fd}
    | _ => ∅
  gains
    | ⟨.inotifyInit, .ok fd⟩ => {fd}
    | _ => ∅
  drops_used o := by cases o <;> simp

/-- What is the case when the thread makes a call. -/
inductive WatchCall (t : WatchTr) : WatchOp → Prop
  | inotifyInit (hheld : watches.held ∅ t = ∅) (hleft : Left t []) : WatchCall t .inotifyInit
  | addWatch {fd : Fd} (hheld : watches.held ∅ t = {fd}) (hleft : Left t []) :
      WatchCall t (.addWatch fd)
  | read {fd : Fd} (hheld : watches.held ∅ t = {fd}) (hleft : Left t []) :
      WatchCall t (.read fd watchBuffer)
  | handle {fd : Fd} {e : Event} {left : List Event} (hheld : watches.held ∅ t = {fd})
      (he : e.relevant = true) (hleft : Left t (e :: left)) : WatchCall t .handleConfigChange
  | close {fd : Fd} (hheld : watches.held ∅ t = {fd}) (hleft : Left t []) : WatchCall t (.close fd)
  | sleep (hheld : watches.held ∅ t = ∅) (hleft : Left t []) : WatchCall t .sleep

def watchInv : Obligation WatchResp Unit where
  call t _ o := WatchCall t o
  cut t _ := Left t []

section
variable {t : WatchTr}

theorem Left.quiet {left : List Event} (h : Left t left) {x : Ev WatchResp}
    (hop : x.op ≠ .handleConfigChange) (hread : readEvents x = []) : Left (t ++ [x]) left := by
  obtain ⟨seen, hevents, hcount⟩ := h
  refine ⟨seen, ?_, ?_⟩
  · rw [eventsRead, List.flatMap_append, List.flatMap_singleton, hread, List.append_nil]
    exact hevents
  · rw [handled, List.countP_append, List.countP_singleton, if_neg (by simpa using hop)]
    exact hcount

theorem Left.read (h : Left t []) (fd : Fd) {len : ℕ} (got : {b : Bytes // b.length ≤ len}) :
    Left (t ++ [⟨.read fd len, .ok got⟩]) (eventsIn got.val) := by
  obtain ⟨seen, hevents, hcount⟩ := h
  refine ⟨seen, ?_, ?_⟩
  · rw [List.append_nil] at hevents
    rw [eventsRead, List.flatMap_append, List.flatMap_singleton]
    exact congrArg (· ++ eventsIn got.val) hevents
  · rw [handled, List.countP_append, List.countP_singleton, if_neg (by simp)]
    exact hcount

theorem Left.skip {e : Event} {left : List Event} (h : Left t (e :: left))
    (he : e.relevant = false) : Left t left := by
  obtain ⟨seen, hevents, hcount⟩ := h
  refine ⟨seen ++ [e], ?_, ?_⟩
  · rw [hevents, List.append_assoc, List.singleton_append]
  · rw [List.countP_append, List.countP_singleton, he, hcount]
    rfl

theorem Left.handle {e : Event} {left : List Event} (h : Left t (e :: left))
    (he : e.relevant = true) : Left (t ++ [⟨.handleConfigChange, ()⟩]) left := by
  obtain ⟨seen, hevents, hcount⟩ := h
  refine ⟨seen ++ [e], ?_, ?_⟩
  · rw [eventsRead, List.flatMap_append, List.append_assoc, List.singleton_append, ← hevents]
    exact List.append_nil _
  · rw [handled, List.countP_append, List.countP_append, List.countP_singleton,
      List.countP_singleton, he, ← hcount]
    rfl

/-- The walk comes to the end of what was read: each round takes one event, so the rounds
suffice. -/
theorem walk_safe {fd : Fd} {data stale : Bytes} (hdata : data.length ≤ watchBuffer)
    (hheld : watches.held ∅ t = {fd}) (hleft : Left t (eventsIn data))
    {Q : WatchTr → Unit → Unit → Prop}
    (hQ : ∀ t, watches.held ∅ t = {fd} → Left t [] → Q t () ()) :
    Safe watchInv Q (iter (walkEvent (data ++ stale) data.length) (data.length + 1) 0 ()) t := by
  apply safe_iter_countdown (fun n offset t _ => offset ≤ data.length ∧ data.length < offset + n ∧
    watches.held ∅ t = {fd} ∧ Left t (eventsIn (data.drop offset)))
  · intro offset t _ h
    omega
  · intro n offset t _ h
    obtain ⟨hoffset, hrounds, hheld, hleft⟩ := h
    cases hpop : popEvent (data.drop offset) with
    | none =>
      rw [eventsIn_none hpop] at hleft
      rw [walkEvent_none hdata hpop]
      exact hQ t hheld hleft
    | some popped =>
      obtain ⟨e, rest⟩ := popped
      obtain ⟨next, hlt, hle, hrest, hwalk⟩ := walkEvent_some stale hdata hpop
      rw [eventsIn_some hpop, ← hrest] at hleft
      rw [hwalk]
      cases he : e.relevant with
      | false => exact ⟨hle, by omega, hheld, hleft.skip he⟩
      | true =>
        refine ⟨.handle hheld he hleft, fun r => ⟨hle, by omega, ?_, hleft.handle he⟩⟩
        rw [Discipline.held_concat_quiet rfl rfl, hheld]
  · exact ⟨Nat.zero_le _, by omega, hheld, hleft⟩

theorem watchRead_safe {fd : Fd} {buf : Bytes} (hbuf : buf.length = watchBuffer)
    (hheld : watches.held ∅ t = {fd}) (hleft : Left t []) :
    Safe watchInv (fun t _ r => watches.held ∅ t = {fd} ∧ Left t [] ∧
      ∀ buf', r = .inl buf' → buf'.length = watchBuffer) (watchRead fd buf ()) t := by
  have hquiet : ∀ r : WatchResp (.read fd buf.length),
      watches.held ∅ (t ++ [⟨.read fd buf.length, r⟩]) = {fd} := by
    intro r
    rw [Discipline.held_concat_quiet rfl rfl, hheld]
  refine ⟨hbuf ▸ .read hheld hleft, fun r => ?_⟩
  cases r with
  | error e =>
    have hkept : Left (t ++ [⟨.read fd buf.length, .error e⟩]) [] := hleft.quiet (by simp) rfl
    change Safe watchInv _ (readFailed buf e ()) _
    unfold readFailed
    split
    · refine ⟨hquiet _, hkept, fun buf' h => ?_⟩
      rw [← Sum.inl.inj h, hbuf]
    · exact ⟨hquiet _, hkept, nofun⟩
  | ok got =>
    have hgot := got.property
    have hkept := hleft.read fd got
    change Safe watchInv _ (readEnded buf got.val ()) _
    unfold readEnded
    split
    · rename_i hzero
      rw [eventsIn, hzero, popEvents] at hkept
      exact ⟨hquiet _, hkept, nofun⟩
    · apply safe_bind
      apply walk_safe (hbuf ▸ hgot) (hquiet _) hkept
      intro t' hheld' hleft'
      refine ⟨hheld', hleft', fun buf' h => ?_⟩
      rw [← Sum.inl.inj h, List.length_append, List.length_drop]
      omega

theorem watchConfigDirFd_safe (rounds : ℕ) {fd : Fd} (hheld : watches.held ∅ t = {fd})
    (hleft : Left t []) :
    Safe watchInv (fun t _ _ => watches.held ∅ t = {fd} ∧ Left t [])
      (watchConfigDirFd rounds fd ()) t := by
  refine ⟨.addWatch hheld hleft, fun r => ?_⟩
  have hheld' : watches.held ∅ (t ++ [⟨.addWatch fd, r⟩]) = {fd} := by
    rw [Discipline.held_concat_quiet rfl rfl, hheld]
  have hleft' : Left (t ++ [⟨.addWatch fd, r⟩]) [] := hleft.quiet (by simp) rfl
  cases r with
  | error e => exact ⟨hheld', hleft'⟩
  | ok _ =>
    apply safe_iter (fun buf t _ => buf.length = watchBuffer ∧ watches.held ∅ t = {fd} ∧ Left t [])
    · exact fun buf t _ h => h.2.2
    · intro buf t _ h
      obtain ⟨hbuf, hheld, hleft⟩ := h
      apply safe_mono _ (watchRead_safe hbuf hheld hleft)
      intro t _ r h
      cases r with
      | inl buf' => exact ⟨h.2.2 buf' rfl, h.1, h.2.1⟩
      | inr a => exact ⟨h.1, h.2.1⟩
    · exact ⟨List.length_replicate, hheld', hleft'⟩

theorem watchConfigDirOnce_safe (rounds : ℕ) (hheld : watches.held ∅ t = ∅) (hleft : Left t []) :
    Safe watchInv (fun t _ _ => watches.held ∅ t = ∅ ∧ Left t [])
      (watchConfigDirOnce rounds ()) t := by
  refine ⟨.inotifyInit hheld hleft, fun r => ?_⟩
  have hleft' : Left (t ++ [⟨.inotifyInit, r⟩]) [] := hleft.quiet (by simp) rfl
  cases r with
  | error e =>
    refine ⟨?_, hleft'⟩
    rw [Discipline.held_concat_quiet rfl rfl, hheld]
  | ok fd =>
    have hheld' : watches.held ∅ (t ++ [⟨.inotifyInit, .ok fd⟩]) = {fd} := by
      rw [Discipline.held_append, hheld, Discipline.held_cons, Discipline.held_nil]
      exact (congrArg (· ∪ _) (Set.empty_sdiff _)).trans (Set.empty_union _)
    refine safe_bind (p := watchConfigDirFd rounds fd ()) ?_
    apply safe_mono _ (watchConfigDirFd_safe rounds hheld' hleft')
    intro t _ result h
    refine ⟨.close h.1 h.2, fun _ => ⟨?_, h.2.quiet (by simp) rfl⟩⟩
    rw [Discipline.held_concat rfl, h.1]
    exact Set.sdiff_self

theorem configReloaderLoop_safe (rounds : ℕ) :
    Safe watchInv (fun _ _ _ => False) (configReloaderLoop rounds ()) [] := by
  apply safe_iter (fun _ t _ => watches.held ∅ t = ∅ ∧ Left t [])
  · exact fun _ t _ h => h.2
  · intro _ t _ h
    apply safe_bind
    apply safe_mono _ (watchConfigDirOnce_safe rounds h.1 h.2)
    intro t _ result h
    cases result with
    | ok _ => exact h
    | error e =>
      refine ⟨.sleep h.1 h.2, fun _ => ⟨?_, h.2.quiet (by simp) rfl⟩⟩
      rw [Discipline.held_concat_quiet rfl rfl, h.1]
  · exact ⟨rfl, [], rfl, rfl⟩

end

/-- A relevant event that a read begins with is handled at once. -/
theorem readEnded_first (buf : Bytes) {data rest : Bytes} {e : Event}
    (hdata : data.length ≤ watchBuffer)
    (hpop : popEvent data = some (e, rest)) (he : e.relevant = true) :
    ∃ k, readEnded buf data () = .call () .handleConfigChange k := by
  have hne : data.length ≠ 0 := Nat.ne_of_gt (Nat.zero_lt_of_lt (popEvent_shorter hpop))
  have hfirst : popEvent (data.drop 0) = some (e, rest) := hpop
  obtain ⟨next, -, -, -, hwalk⟩ := walkEvent_some (buf.drop data.length) hdata hfirst
  rw [readEnded, if_neg hne]
  simp only [iter, bind_apply, hwalk, he, if_true]
  exact ⟨_, rfl⟩

/-- A closed `identity.toml`. -/
def identityWritten : Event := ⟨inCloseWrite, identityFile⟩

end Reload
end SyntriassOverlay
