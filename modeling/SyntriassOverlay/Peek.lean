import SyntriassOverlay.Conduct
import SyntriassOverlay.Schedule

/-!
# Flags of the receiving calls

The flags of a call go unchanged to the real `recv`. With some of them the real call does
not hand out the next bytes of the stream: with `MSG_PEEK` it gives bytes without taking
them, with `MSG_TRUNC` it takes them without giving them, and `MSG_OOB` and `MSG_ERRQUEUE`
ask for other bytes.
-/

namespace SyntriassOverlay
open Crypto Resumption

def msgOob : Flags := 0x1
def msgPeek : Flags := 0x2
def msgTrunc : Flags := 0x20
def msgErrqueue : Flags := 0x2000

/-- Flags with which a real `recv` does not hand out the stream of the peer. -/
def divertFlags : Flags := msgOob ||| msgErrqueue ||| msgTrunc ||| msgPeek

def FdCall.flags : FdCall → Flags
  | .send _ flags _ | .recv _ _ flags _ => flags
  | _ => 0

def FdCall.Diverts (c : FdCall) : Prop := c.flags &&& divertFlags ≠ 0

def FdCall.Peeks : FdCall → Prop
  | .recv _ _ flags _ => flags &&& msgPeek ≠ 0
  | _ => False

/-- The real `recv` on a socket where the bytes of `stream` from `pos` on are pending. It
gives the first of them and takes them, but for these flags: `MSG_OOB` and `MSG_ERRQUEUE`
read something else, `MSG_TRUNC` does not write to the buffer, which `pull_wire` has filled
with zeros, and `MSG_PEEK` takes nothing. -/
def FromPeer (stream : Bytes) : ℕ → Tr → Prop
  | _, [] => True
  | pos, ⟨.recv flags, .data d _⟩ :: t =>
    if flags &&& (msgOob ||| msgErrqueue) = 0 then
      pos + d.length ≤ stream.length ∧
        d = (if flags &&& msgTrunc = 0 then (stream.drop pos).take d.length
          else List.replicate d.length 0) ∧
        FromPeer stream (if flags &&& msgPeek = 0 then pos + d.length else pos) t
    else FromPeer stream pos t
  | pos, _ :: t => FromPeer stream pos t

/-- Every real `recv` that gives bytes hands out the stream. -/
def Taking (t : Tr) : Prop :=
  ∀ flags d hd, (⟨.recv flags, .data d hd⟩ : Ev Resp) ∈ t → flags &&& divertFlags = 0

theorem flags_undiverted {flags : Flags} (h : flags &&& divertFlags = 0) :
    flags &&& (msgOob ||| msgErrqueue) = 0 ∧ flags &&& msgTrunc = 0 ∧ flags &&& msgPeek = 0 := by
  simpa [divertFlags, Nat.and_or_distrib_left, Nat.or_eq_zero_iff, and_assoc] using h

theorem FromPeer.received {stream : Bytes} {pos : ℕ} {t : Tr} (h : FromPeer stream pos t)
    (ht : Taking t) : receivedBytes t <+: stream.drop pos := by
  induction t generalizing pos with
  | nil => exact List.nil_prefix
  | cons e t ih =>
    have ht' : Taking t := fun flags d hd hmem => ht flags d hd (List.mem_cons_of_mem _ hmem)
    obtain ⟨o, r⟩ := e
    cases o with
    | recv flags =>
      cases r with
      | data d hd =>
        obtain ⟨hoob, htrunc, hpeek⟩ := flags_undiverted (ht flags d hd (List.mem_cons_self ..))
        rw [FromPeer, if_pos hoob, if_pos htrunc, if_pos hpeek] at h
        obtain ⟨-, hd, h⟩ := h
        have hread := ih h ht'
        rw [← List.drop_drop] at hread
        have hall : d ++ receivedBytes t <+:
            (stream.drop pos).take d.length ++ (stream.drop pos).drop d.length := by
          rw [← hd]
          exact (List.prefix_append_right_inj d).mpr hread
        rwa [List.take_append_drop] at hall
      | eof | error e => exact ih h ht'
    | _ => exact ih h ht'

/-- A call with one of the flags above is given no bytes, and one that peeks finds no
plaintext and no whole frame. -/
structure Undiverted (s : FdState) (c : FdCall) (u : Tr) : Prop where
  unread : c.Diverts → receivedBytes u = []
  unpeeked : c.Peeks → s.rxPlain = [] ∧ ∀ f rest, tryPopFrame s.rxWire ≠ .ok (some (f, rest))

/-- The receive buffer and the frames taken off it are what the peer has sent, each byte
once. -/
structure WireKept (stream : Bytes) (t : Tr) (s : FdState) : Prop where
  received : receivedBytes t <+: stream
  popped : framesBytes (pops t) <+: receivedBytes t
  buffered : s.phase ≠ .failed → framesBytes (pops t) ++ s.rxWire = receivedBytes t

/-- The real calls carry the flags `flags`. -/
abbrev carries (flags : Flags) : Obligation Resp FdState where
  call _ _ o := ∀ fl, o = .recv fl → fl = flags
  cut _ _ := True

section
variable {P : Primitives} {role : Role} {b : Tr} {st s : FdState} {c : FdCall} {t u : Tr}
  {p : Prog Resp FdState FdRet}

theorem carries_lenient {flags : Flags} : Lenient (carries flags) := by
  rintro t s o ho - fl rfl
  cases ho

theorem FdCall.run_carries (hs : s.Sound) (c : FdCall) :
    Safe (carries c.flags) (fun _ _ _ => True) (c.run P s) t := by
  cases c with
  | send plaintext flags fuel =>
    refine safe_bind (safe_after t ?_ (fun _ _ _ => trivial) (fun _ _ _ _ => trivial)
      (overlaySend_conduct hs flags))
    rintro u s' o h fl rfl
    exact h.1
  | recv len hlen flags fuel =>
    refine safe_bind (safe_after t ?_ (fun _ _ _ => trivial) (fun _ _ _ _ => trivial)
      (overlayRecv_conduct hs len flags))
    rintro u s' o h fl rfl
    exact h.1
  | driveHandshake fuel =>
    exact safe_bind (driveHandshake_rule carries_lenient fuel (fun _ => trivial) (fun _ => trivial)
      fun _ _ _ _ => trivial)
  | staleIdleConfig =>
    exact safe_bind (failIfStaleIdleConfig_rule carries_lenient (fun _ _ => trivial)
      fun _ _ _ _ => trivial)
  | inheritedAfterFork =>
    exact safe_bind (inheritedAfterFork_rule carries_lenient (fun _ _ => trivial)
      fun _ _ _ _ => trivial)
  | retire epoch =>
    simp only [FdCall.run, retireIdleSession, bind_apply, get_apply, bind_done]
    split
    · exact safe_bind (safe_bind (failClosed_rule carries_lenient
        (fun _ fl hfl => by cases hfl) trivial))
    · trivial

/-- What an undiverted call is given is given for good. -/
theorem Undiverted.taking (h : Undiverted s c u) (hs : s.Sound) (hat : At (c.run P s) u p) :
    Taking u := by
  intro flags d hd hmem
  obtain ⟨_, _, _, hcall⟩ := safe_mem (FdCall.run_carries (t := []) hs c) hat hmem
  rw [hcall flags rfl]
  by_contra hdiv
  have hnone := h.unread hdiv
  rw [receivedBytes, List.flatMap_eq_nil_iff] at hnone
  have hd' : d = [] := hnone _ hmem
  rw [hd', List.length_nil] at hd
  omega

theorem taking_of_calls (hst : Built P role b st)
    (h : Calls (FdCall.run P) Undiverted st t s) : Taking t := by
  induction h with
  | start => exact fun _ _ _ hmem => by cases hmem
  | next h hat hok ih =>
    obtain ⟨log, hrun⟩ := h.reach
    have hu := hok.taking (hst.atRest hrun).1 hat
    intro flags d hd hmem
    rcases List.mem_append.mp hmem with hmem | hmem
    · exact ih flags d hd hmem
    · exact hu flags d hd hmem

/-- A call that peeks where nothing is to be seen takes no plaintext. -/
theorem Undiverted.undelivered (h : Undiverted s c u) (hs : s.Sound) (hset : s.Settled)
    (hat : At (c.run P s) u p) (hpeeks : c.Peeks) : deliveredBytes u = [] := by
  have hdiv : c.Diverts := by
    intro hnone
    cases c with
    | recv len hlen flags fuel => exact hpeeks (flags_undiverted hnone).2.2
    | _ => exact hpeeks
  have hone : Reach (FdCall.run P) s [] u (.busy c p) := by
    simpa using reach_at (Reach.start.enter c) hat
  obtain ⟨t₀, v, s', pd, rfl, hh, hv⟩ := run_between id (fun _ _ => trivial) hs hset hone
  have hread := h.unread hdiv
  rw [receivedBytes_append, List.append_eq_nil_iff] at hread
  obtain ⟨hplain, hframe⟩ := h.unpeeked hpeeks
  have hbuf := hh.buffered hs
  have hpops : pops t₀ = [] := by
    have hle := hbuf.popped
    rw [hread.1, List.append_nil] at hle
    cases hp : pops t₀ with
    | nil => rfl
    | cons f fs =>
      rw [hp, framesBytes_cons] at hle
      obtain ⟨rest, hrest⟩ := hle
      have hpop := tryPopFrame_bytes (hbuf.fits f (by simp [hp])) (framesBytes fs ++ rest)
      rw [← List.append_assoc, hrest] at hpop
      exact absurd hpop (hframe _ _)
  have hle := hh.delivered_le hs
  rw [hplain, openedPlain, hh.unopened hpops] at hle
  rw [deliveredBytes_append, hv.silent.delivered, List.prefix_nil.mp hle]
  rfl

end

/-- In every run whose calls are not diverted the flags preserve the byte stream, and a call
that peeks takes nothing of it. -/
theorem flags_preserve_stream {P : Primitives} {role : Role} {b : Tr} {st s : FdState} {t u : Tr}
    {c : FdCall} {p : Prog Resp FdState FdRet} (hst : Built P role b st)
    (hrun : Calls (FdCall.run P) Undiverted st t s) (hat : At (c.run P s) u p)
    (hc : Undiverted s c u) {stream : Bytes} (hpeer : FromPeer stream 0 (t ++ u)) :
    (∀ s', standing (.busy c p) = some s' → WireKept stream (t ++ u) s') ∧
      (c.Peeks → deliveredBytes u = []) := by
  obtain ⟨log, hreach⟩ := hrun.reach
  obtain ⟨hs, hrest⟩ := hst.atRest hreach
  refine ⟨fun s' hs' => ?_, hc.undelivered hs hrest.settled hat⟩
  obtain ⟨hfresh, hopen⟩ := hst.opening
  obtain ⟨pd, hh⟩ := hst.history (reach_at (hreach.enter c) hat) hs'
  have hbuf := hh.buffered (hopen.sound hfresh)
  have hpopped := hbuf.popped
  rw [hfresh.rxWire, List.nil_append] at hpopped
  refine ⟨?_, hpopped, fun hlive => ?_⟩
  · have htaking : Taking (t ++ u) := by
      intro flags d hd hmem
      rcases List.mem_append.mp hmem with hmem | hmem
      · exact taking_of_calls hst hrun flags d hd hmem
      · exact hc.taking hs hat flags d hd hmem
    have hread := hpeer.received htaking
    rwa [List.drop_zero] at hread
  · have hall := hbuf.alive hlive
    rw [hfresh.rxWire, List.nil_append] at hall
    exact hall.symm

/-- What a peer sends that asks for a fallback. -/
def helloFrame : ParsedFrame := ⟨fallbackWireId, typeFallbackHello, (ramp 16).val⟩
def helloStream : Bytes := helloFrame.bytes

/-- A responder peeks before the hello of its peer is there, and then reads it. -/
theorem flags_preserve_stream_hello : ∃ c t u s s', Built specimen .responder c responderSession ∧
    Calls (FdCall.run specimen) Undiverted responderSession t s ∧
    At ((FdCall.recv 1 Nat.one_pos msgPeek 4).run specimen responderSession) t
      (.done s (.received (.error EAGAIN))) ∧
    At ((FdCall.recv 1 Nat.one_pos 0 4).run specimen s) u (.done s' (.received (.error EAGAIN))) ∧
    receivedBytes (t ++ u) = helloStream ∧ WireKept helloStream (t ++ u) s' := by
  obtain ⟨c, hbuilt⟩ := responderSession_built specimen
  have hpeek : ∃ t, At ((FdCall.recv 1 Nat.one_pos msgPeek 4).run specimen responderSession) t
      (.done responderSession (.received (.error EAGAIN))) ∧ receivedBytes t = [] ∧
      ∀ t', FromPeer helloStream 0 t' → FromPeer helloStream 0 (t ++ t') :=
    ⟨_, at_runWith (fun o k => Kernel.answer k 7 o) 20 _ { fallbackKernel [] with incoming := [] },
      rfl, fun _ h => h⟩
  obtain ⟨t, hpeeked, hnone, hbefore⟩ := hpeek
  have hquiet : Undiverted responderSession (.recv 1 Nat.one_pos msgPeek 4) t :=
    ⟨fun _ => hnone, fun _ => ⟨rfl, fun f rest h => by cases h⟩⟩
  have hread : ∃ u s', At ((FdCall.recv 1 Nat.one_pos 0 4).run specimen responderSession) u
      (.done s' (.received (.error EAGAIN))) ∧ receivedBytes u = helloStream ∧
      FromPeer helloStream 0 u :=
    ⟨_, _, at_runWith (fun o k => Kernel.answer k 7 o) 60 _
      { fallbackKernel [] with incoming := [helloStream] }, rfl, by decide, rfl, trivial⟩
  obtain ⟨u, s', hat, hhello, hpeer⟩ := hread
  have hcalls : Calls (FdCall.run specimen) Undiverted responderSession t responderSession :=
    .next .start hpeeked hquiet
  refine ⟨c, t, u, _, s', hbuilt, hcalls, hpeeked, hat, ?_, ?_⟩
  · rw [receivedBytes_append, hnone, hhello, List.nil_append]
  · exact (flags_preserve_stream hbuilt hcalls hat ⟨fun h => absurd rfl h, fun h => absurd rfl h⟩
      (hbefore u hpeer)).1 s' rfl

/-- A responder that peeks appends the hello of its peer to `rx_wire` twice, and takes it off
twice. -/
theorem flags_preserve_stream_not : ∃ c log t s, Built specimen .responder c responderSession ∧
    Reach (FdCall.run specimen) responderSession log t (.idle s) ∧ FromPeer helloStream 0 t ∧
    pops t = [helloFrame, helloFrame] ∧ receivedBytes t = helloStream ++ helloStream ∧
    ¬ receivedBytes t <+: helloStream := by
  obtain ⟨c, hbuilt⟩ := responderSession_built specimen
  have hplay : ∃ log t s, Reach (FdCall.run specimen) responderSession log t (.idle s) ∧
      FromPeer helloStream 0 t ∧ pops t = [helloFrame, helloFrame] ∧
      receivedBytes t = helloStream ++ helloStream :=
    ⟨_, _, _, played_reach responderSession [.recv 1 Nat.one_pos msgPeek 4]
      { fallbackKernel [] with incoming := [helloStream, helloStream] },
      ⟨by decide, rfl, by decide, rfl, trivial⟩, rfl, rfl⟩
  obtain ⟨log, t, s, hreach, hpeer, hpops, hread⟩ := hplay
  refine ⟨c, log, t, s, hbuilt, hreach, hpeer, hpops, hread, fun hle => ?_⟩
  rw [hread] at hle
  have hlen := hle.length_le
  have hpos : 0 < helloStream.length := by decide
  rw [List.length_append] at hlen
  omega

end SyntriassOverlay
