import SyntriassOverlay.KernelNative

/-!
# The handshake over a socket (over_socket.rs)

The daemon runs the hybrid handshake over the socket itself and then hands the socket to
kernel TLS. Each message is a length and a body; `read_exact` and `write_all` are the loops of
the runtime library over a socket that takes and gives any number of bytes at a time. What
follows the two messages belongs to the kernel, so neither side may read a byte too many.
-/

namespace SyntriassOverlay
open Crypto Resumption BigEndian

def maxHandshakeFrame : ℕ := 1 <<< 20

inductive HandshakeRole where
  | initiator
  | responder
  deriving DecidableEq, Repr

inductive IoError where
  | os (errno : Errno)
  | unexpectedEof
  | writeZero
  deriving DecidableEq

inductive OverSocketError where
  | io (e : IoError)
  | crypto (e : CryptoError)
  | protocol (message : String)
  | ktls (e : KernelNativeError)
  deriving DecidableEq

/-! ### Reading and writing -/

/-- `read_exact` into a buffer of `n` bytes. Every round reads at least one of them. -/
def readExact (fd : Fd) (n : ℕ) : DaemonAct (Except IoError Bytes) :=
  iter (fun (filled : Bytes) => do
    if filled.length = n then pure (.inr (.ok filled))
    else
      match ← perform (DaemonOp.read fd (n - filled.length)) with
      | .data d _ => pure (.inl (filled ++ d))
      | .eof => pure (.inr (.error .unexpectedEof))
      | .error e => pure (.inr (.error (.os e)))) (n + 1) []

/-- `write_all`. Every round writes at least one byte. -/
def writeAll (fd : Fd) (buf : Bytes) : DaemonAct (Except IoError Unit) :=
  iter (fun (rest : Bytes) => do
    if rest.isEmpty then pure (.inr (.ok ()))
    else
      match ← perform (DaemonOp.write fd rest) with
      | .sent n _ => pure (.inl (rest.drop n))
      | .zero => pure (.inr (.error .writeZero))
      | .error e => pure (.inr (.error (.os e)))) (buf.length + 1) buf

def writeFrame (fd : Fd) (payload : Bytes) : DaemonAct (Except OverSocketError Unit) := do
  if payload.length > maxHandshakeFrame then pure (.error (.protocol "handshake frame too large"))
  else
    match ← writeAll fd (beBytes 4 payload.length) with
    | .error e => pure (.error (.io e))
    | .ok _ =>
      match ← writeAll fd payload with
      | .error e => pure (.error (.io e))
      | .ok _ => pure (.ok ())

def readFrame (fd : Fd) : DaemonAct (Except OverSocketError Bytes) := do
  match ← readExact fd 4 with
  | .error e => pure (.error (.io e))
  | .ok lenBytes =>
    let len := beNat lenBytes
    if len = 0 ∨ len > maxHandshakeFrame then
      pure (.error (.protocol "bad handshake frame length"))
    else
      match ← readExact fd len with
      | .error e => pure (.error (.io e))
      | .ok buf => pure (.ok buf)

/-! ### The two roles -/

section
variable (P : Primitives)

def initiatorHandshake (fd : Fd) (identity : IdentityMaterial) (suite : CipherSuite) :
    DaemonAct (Except OverSocketError SessionKeys) := do
  let eph ← perform DaemonOp.ephemeral
  match suite.beginInitiator P identity eph with
  | .error e => pure (.error (.crypto e))
  | .ok (state, clientHello) =>
    match ← writeFrame fd clientHello with
    | .error e => pure (.error e)
    | .ok _ =>
      match ← readFrame fd with
      | .error e => pure (.error e)
      | .ok serverHello =>
        match state.finish P identity serverHello with
        | .error e => pure (.error (.crypto e))
        | .ok keys => pure (.ok keys)

def responderHandshake (fd : Fd) (identity : IdentityMaterial) (suite : CipherSuite) :
    DaemonAct (Except OverSocketError SessionKeys) := do
  match ← readFrame fd with
  | .error e => pure (.error e)
  | .ok clientHello =>
    let eph ← perform DaemonOp.ephemeral
    match suite.respond P identity clientHello eph with
    | .error e => pure (.error (.crypto e))
    | .ok (keys, serverHello) =>
      match ← writeFrame fd serverHello with
      | .error e => pure (.error e)
      | .ok _ => pure (.ok keys)

def handshakeOf (role : HandshakeRole) (fd : Fd) (identity : IdentityMaterial)
    (suite : CipherSuite) : DaemonAct (Except OverSocketError SessionKeys) :=
  match role with
  | .initiator => initiatorHandshake P fd identity suite
  | .responder => responderHandshake P fd identity suite

/-- An error drops the stream, which closes it. -/
def establishAndBridge (fd : Fd) (identity : IdentityMaterial) (suite : CipherSuite)
    (role : HandshakeRole) : DaemonAct (Except OverSocketError Unit) := do
  match ← handshakeOf P role fd identity suite with
  | .error e => do
    perform (DaemonOp.close fd)
    pure (.error e)
  | .ok keys =>
    match ← perform (DaemonOp.intoStd fd) with
    | .error errno => do
      perform (DaemonOp.close fd)
      pure (.error (.io (.os errno)))
    | .ok _ =>
      let r ← bridgeSessionToKtls P fd keys
      pure (r.mapError .ktls)

end

/-! ### What is read and written -/

/-- Bytes read off the socket. -/
def Ev.consumed : Ev DaemonResp → Bytes
  | ⟨.read _ _, .data d _⟩ => d
  | _ => []

/-- Bytes the socket took. -/
def Ev.written : Ev DaemonResp → Bytes
  | ⟨.write _ buf, .sent n _⟩ => buf.take n
  | _ => []

def consumed (t : DaemonTr) : Bytes := t.flatMap Ev.consumed
def written (t : DaemonTr) : Bytes := t.flatMap Ev.written

@[simp] theorem consumed_append (t u : DaemonTr) : consumed (t ++ u) = consumed t ++ consumed u :=
  List.flatMap_append
@[simp] theorem written_append (t u : DaemonTr) : written (t ++ u) = written t ++ written u :=
  List.flatMap_append

/-- The calls `u` read `inp`, write `out`, draw `ephs`, and leave the socket as it is. -/
structure Moves (u : DaemonTr) (inp out : Bytes) (ephs : List Ephemeral) : Prop where
  consumed : consumed u = inp
  written : written u = out
  draws : draws u = ephs
  installs : installs u = []
  endings : endings u = []

theorem Moves.nil : Moves [] [] [] [] := ⟨rfl, rfl, rfl, rfl, rfl⟩

theorem Moves.append {u v : DaemonTr} {inp inp' out out' : Bytes} {ephs ephs' : List Ephemeral}
    (hu : Moves u inp out ephs) (hv : Moves v inp' out' ephs') :
    Moves (u ++ v) (inp ++ inp') (out ++ out') (ephs ++ ephs') where
  consumed := by rw [consumed_append, hu.consumed, hv.consumed]
  written := by rw [written_append, hu.written, hv.written]
  draws := by rw [draws_append, hu.draws, hv.draws]
  installs := by rw [installs_append, hu.installs, hv.installs]; rfl
  endings := by rw [endings_append, hu.endings, hv.endings]; rfl

/-- A message on the wire. -/
def wireFrame (body : Bytes) : Bytes := beBytes 4 body.length ++ body

/-- Nothing behind the first message was read: the length in front of it is all that was read,
or it says how much may be read. -/
def WithinFrame (b : Bytes) : Prop := b.length ≤ 4 ∨ b.length ≤ 4 + beNat (b.take 4)

theorem readExact_safe (fd : Fd) (n : ℕ) :
    Safe anyAnswer (fun u _ r => ∃ b, Moves u b [] [] ∧ match r with
      | .ok filled => filled = b ∧ b.length = n
      | .error _ => b.length < n) (readExact fd n ()) [] := by
  refine safe_iter_countdown (fun m filled u _ => Moves u filled [] [] ∧ filled.length ≤ n ∧
    n < filled.length + m) ?_ ?_ (n + 1) ⟨.nil, Nat.zero_le _, by simp⟩
  · rintro filled u _ ⟨-, hle, hlt⟩
    exact absurd hlt (by omega)
  · rintro m filled u _ ⟨hu, hle, hlt⟩
    by_cases hfull : filled.length = n
    · simp only [hfull, if_true]
      exact ⟨filled, hu, rfl, hfull⟩
    · simp only [hfull, if_false]
      refine ⟨trivial, fun r => ?_⟩
      cases r with
      | data d hd =>
        have hread : Moves [⟨.read fd (n - filled.length), .data d hd⟩] d [] [] :=
          ⟨List.append_nil d, rfl, rfl, rfl, rfl⟩
        have hlen : (filled ++ d).length = filled.length + d.length := List.length_append
        refine ⟨hu.append hread, ?_, ?_⟩
        · rw [hlen]; omega
        · rw [hlen]; omega
      | eof =>
        have hend : Moves [⟨.read fd (n - filled.length), .eof⟩] [] [] [] :=
          ⟨rfl, rfl, rfl, rfl, rfl⟩
        exact ⟨filled, by simpa using hu.append hend, by simp only []; omega⟩
      | error e =>
        have hend : Moves [⟨.read fd (n - filled.length), .error e⟩] [] [] [] :=
          ⟨rfl, rfl, rfl, rfl, rfl⟩
        exact ⟨filled, by simpa using hu.append hend, by simp only []; omega⟩

theorem writeAll_safe (fd : Fd) (buf : Bytes) :
    Safe anyAnswer (fun u _ r => ∃ b, Moves u [] b [] ∧ b <+: buf ∧ ∀ x, r = .ok x → b = buf)
      (writeAll fd buf ()) [] := by
  refine safe_iter_countdown (fun m rest u _ => ∃ b, Moves u [] b [] ∧ b ++ rest = buf ∧
    rest.length < m) ?_ ?_ (buf.length + 1) ⟨[], .nil, rfl, by simp⟩
  · rintro rest u _ ⟨b, -, -, hlt⟩
    exact absurd hlt (Nat.not_lt_zero _)
  · rintro m rest u _ ⟨b, hu, rfl, hlt⟩
    by_cases hempty : rest = []
    · subst hempty
      simp only [List.isEmpty_nil, if_true]
      exact ⟨b, hu, List.prefix_append _ _, fun _ _ => (List.append_nil b).symm⟩
    · simp only [List.isEmpty_iff, hempty, if_false]
      refine ⟨trivial, fun r => ?_⟩
      cases r with
      | sent n hn =>
        have hwrite : Moves [⟨.write fd rest, .sent n hn⟩] [] (rest.take n) [] :=
          ⟨rfl, List.append_nil _, rfl, rfl, rfl⟩
        refine ⟨b ++ rest.take n, hu.append hwrite, ?_, ?_⟩
        · rw [List.append_assoc, List.take_append_drop]
        · rw [List.length_drop]
          omega
      | zero =>
        have hend : Moves [⟨.write fd rest, .zero⟩] [] [] [] := ⟨rfl, rfl, rfl, rfl, rfl⟩
        exact ⟨b, by simpa using hu.append hend, List.prefix_append _ _, fun _ heq => by cases heq⟩
      | error e =>
        have hend : Moves [⟨.write fd rest, .error e⟩] [] [] [] := ⟨rfl, rfl, rfl, rfl, rfl⟩
        exact ⟨b, by simpa using hu.append hend, List.prefix_append _ _, fun _ heq => by cases heq⟩

theorem readFrame_safe (fd : Fd) :
    Safe anyAnswer (fun u _ r => ∃ b, Moves u b [] [] ∧ WithinFrame b ∧ ∀ body, r = .ok body →
      b = wireFrame body ∧ 0 < body.length ∧ body.length ≤ maxHandshakeFrame)
      (readFrame fd ()) [] := by
  refine safe_bind (safe_mono ?_ (readExact_safe fd 4))
  rintro u _ r ⟨b, hu, hr⟩
  cases r with
  | error e => exact ⟨b, hu, .inl (Nat.le_of_lt hr), fun _ heq => by cases heq⟩
  | ok lenBytes =>
    obtain ⟨rfl, hfour⟩ := hr
    by_cases hlen : beNat lenBytes = 0 ∨ beNat lenBytes > maxHandshakeFrame
    · simp only [hlen, if_true]
      exact ⟨lenBytes, hu, .inl hfour.le, fun _ heq => by cases heq⟩
    · simp only [hlen, if_false]
      refine safe_bind (safe_after u (fun _ _ _ _ => trivial) (fun _ _ h => h) ?_
        (readExact_safe fd (beNat lenBytes)))
      rintro v _ r ⟨d, hv, hr⟩
      have htake : (lenBytes ++ d).take 4 = lenBytes := List.take_left' hfour
      have hlength : (lenBytes ++ d).length = 4 + d.length := by rw [List.length_append, hfour]
      cases r with
      | error e =>
        refine ⟨lenBytes ++ d, hu.append hv, .inr ?_, fun _ heq => by cases heq⟩
        rw [htake, hlength]
        exact Nat.add_le_add_left (Nat.le_of_lt hr) 4
      | ok body =>
        obtain ⟨rfl, hbody⟩ := hr
        refine ⟨lenBytes ++ body, hu.append hv, .inr ?_, ?_⟩
        · rw [htake, hlength, hbody]
        · intro _ heq
          cases heq
          have hprefix : beBytes 4 body.length = lenBytes := by
            rw [hbody, ← hfour, beBytes_beNat]
          exact ⟨by rw [wireFrame, hprefix], by omega, by omega⟩

theorem writeFrame_safe (fd : Fd) (payload : Bytes) :
    Safe anyAnswer (fun u _ r => ∃ b, Moves u [] b [] ∧ ∀ x, r = .ok x → b = wireFrame payload)
      (writeFrame fd payload ()) [] := by
  by_cases hlong : payload.length > maxHandshakeFrame
  · simp only [writeFrame, hlong, if_true]
    exact ⟨[], .nil, fun _ heq => by cases heq⟩
  · simp only [writeFrame, hlong, if_false]
    refine safe_bind (safe_mono ?_ (writeAll_safe fd (beBytes 4 payload.length)))
    rintro u _ r ⟨b, hu, -, hr⟩
    cases r with
    | error e => exact ⟨b, hu, fun _ heq => by cases heq⟩
    | ok _ =>
      refine safe_bind (safe_after u (fun _ _ _ _ => trivial) (fun _ _ h => h) ?_
        (writeAll_safe fd payload))
      rintro v _ r ⟨b', hv, -, hr'⟩
      cases r with
      | error e => exact ⟨_, hu.append hv, fun _ heq => by cases heq⟩
      | ok _ =>
        refine ⟨_, hu.append hv, fun _ _ => ?_⟩
        rw [hr _ rfl, hr' _ rfl]
        rfl

/-! ### One side -/

/-- The engine of a role accepts `body`, for what the side has drawn, and gives `keys`; `out`
is the message that the side sends. -/
inductive EngineAccepts (P : Primitives) (suite : CipherSuite) (identity : IdentityMaterial) :
    HandshakeRole → Ephemeral → Bytes → Bytes → SessionKeys → Prop
  | initiator {eph : Ephemeral} {state : InitiatorState} {hello body : Bytes} {keys : SessionKeys}
      (hbegin : suite.beginInitiator P identity eph = .ok (state, hello))
      (hfinish : state.finish P identity body = .ok keys) :
      EngineAccepts P suite identity .initiator eph body hello keys
  | responder {eph : Ephemeral} {body reply : Bytes} {keys : SessionKeys}
      (hrespond : suite.respond P identity body eph = .ok (keys, reply)) :
      EngineAccepts P suite identity .responder eph body reply keys

/-- How a side's handshake ends. -/
structure Shakes (P : Primitives) (suite : CipherSuite) (identity : IdentityMaterial)
    (role : HandshakeRole) (u : DaemonTr) (r : Except OverSocketError SessionKeys) : Prop where
  moved : ∃ inp out ephs, Moves u inp out ephs ∧ WithinFrame inp
  ok : ∀ keys, r = .ok keys → ∃ eph body out,
    EngineAccepts P suite identity role eph body out keys ∧
    Moves u (wireFrame body) (wireFrame out) [eph] ∧ 0 < body.length ∧
    body.length ≤ maxHandshakeFrame

section
variable {P : Primitives} {suite : CipherSuite} {identity : IdentityMaterial} {fd : Fd}

theorem Shakes.failed {role : HandshakeRole} {u : DaemonTr} {inp out : Bytes}
    {ephs : List Ephemeral} {e : OverSocketError} (hu : Moves u inp out ephs)
    (hinp : WithinFrame inp) : Shakes P suite identity role u (.error e) :=
  ⟨⟨inp, out, ephs, hu, hinp⟩, fun _ heq => by cases heq⟩

theorem withinFrame_nil : WithinFrame [] := .inl (Nat.zero_le _)

theorem initiatorHandshake_safe :
    Safe anyAnswer (fun u _ r => Shakes P suite identity .initiator u r)
      (initiatorHandshake P fd identity suite ()) [] := by
  refine ⟨trivial, fun eph => ?_⟩
  have hdraw : Moves [⟨.ephemeral, eph⟩] [] [] [eph] := ⟨rfl, rfl, rfl, rfl, rfl⟩
  simp only [bind_done]
  cases hbegin : suite.beginInitiator P identity eph with
  | error e => exact Shakes.failed hdraw withinFrame_nil
  | ok begun =>
    obtain ⟨state, hello⟩ := begun
    refine safe_bind (safe_after _ (fun _ _ _ _ => trivial) (fun _ _ h => h) ?_
      (writeFrame_safe fd hello))
    rintro v _ r ⟨b, hv, hr⟩
    have hsent := hdraw.append hv
    cases r with
    | error e => exact Shakes.failed hsent withinFrame_nil
    | ok _ =>
      obtain rfl := hr _ rfl
      refine safe_bind (safe_after _ (fun _ _ _ _ => trivial) (fun _ _ h => h) ?_
        (readFrame_safe fd))
      rintro w _ r ⟨inp, hw, hinp, hr⟩
      have hall := hsent.append hw
      cases r with
      | error e => exact Shakes.failed hall hinp
      | ok body =>
        obtain ⟨rfl, hpos, hmax⟩ := hr body rfl
        dsimp only
        cases hfinish : state.finish P identity body with
        | error e => exact Shakes.failed hall hinp
        | ok keys =>
          refine ⟨⟨_, _, _, hall, hinp⟩, fun _ heq => ?_⟩
          cases heq
          refine ⟨eph, body, hello, .initiator hbegin hfinish, ?_, hpos, hmax⟩
          simpa using hall

theorem responderHandshake_safe :
    Safe anyAnswer (fun u _ r => Shakes P suite identity .responder u r)
      (responderHandshake P fd identity suite ()) [] := by
  refine safe_bind (safe_mono ?_ (readFrame_safe fd))
  rintro u _ r ⟨inp, hu, hinp, hr⟩
  cases r with
  | error e => exact Shakes.failed hu hinp
  | ok body =>
    obtain ⟨rfl, hpos, hmax⟩ := hr body rfl
    refine ⟨trivial, fun eph => ?_⟩
    have hdraw : Moves [⟨.ephemeral, eph⟩] [] [] [eph] := ⟨rfl, rfl, rfl, rfl, rfl⟩
    have hread : Moves (u ++ [⟨.ephemeral, eph⟩]) (wireFrame body) [] [eph] := by
      simpa using hu.append hdraw
    simp only [bind_done]
    cases hrespond : suite.respond P identity body eph with
    | error e => exact Shakes.failed hread hinp
    | ok answered =>
      obtain ⟨keys, reply⟩ := answered
      refine safe_bind (safe_after _ (fun _ _ _ _ => trivial) (fun _ _ h => h) ?_
        (writeFrame_safe fd reply))
      rintro v _ r ⟨b, hv, hr⟩
      have hall := hread.append hv
      rw [List.append_nil] at hall
      cases r with
      | error e => exact Shakes.failed hall hinp
      | ok _ =>
        obtain rfl := hr _ rfl
        refine ⟨⟨_, _, _, hall, hinp⟩, fun _ heq => ?_⟩
        cases heq
        exact ⟨eph, body, reply, .responder hrespond, hall, hpos, hmax⟩

theorem handshakeOf_safe (role : HandshakeRole) :
    Safe anyAnswer (fun u _ r => Shakes P suite identity role u r)
      (handshakeOf P role fd identity suite ()) [] := by
  cases role with
  | initiator => exact initiatorHandshake_safe
  | responder => exact responderHandshake_safe

theorem bridgeSessionToKtls_still {keys : SessionKeys} :
    Safe anyAnswer (fun u _ _ => consumed u = []) (bridgeSessionToKtls P fd keys ()) [] := by
  refine ⟨trivial, fun ulp => ?_⟩
  cases ulp with
  | error e => exact ⟨trivial, fun _ => ⟨trivial, fun _ => rfl⟩⟩
  | ok _ =>
    refine ⟨trivial, fun tx => ?_⟩
    cases tx with
    | error e => exact ⟨trivial, fun _ => ⟨trivial, fun _ => rfl⟩⟩
    | ok _ =>
      refine ⟨trivial, fun rx => ?_⟩
      cases rx with
      | error e => exact ⟨trivial, fun _ => ⟨trivial, fun _ => rfl⟩⟩
      | ok _ => rfl

/-- How `establish_and_bridge` ends: the socket is handed to the kernel with the keys of the
handshake, or it is closed. -/
inductive EstablishEnds (P : Primitives) (suite : CipherSuite) (identity : IdentityMaterial)
    (role : HandshakeRole) (fd : Fd) (t : DaemonTr) : Except OverSocketError Unit → Prop
  | bridged {eph : Ephemeral} {body out : Bytes} {keys : SessionKeys}
      {r : Except OverSocketError Unit}
      (hacc : EngineAccepts P suite identity role eph body out keys)
      (hread : consumed t = wireFrame body) (hdraws : draws t = [eph]) (hpos : 0 < body.length)
      (hmax : body.length ≤ maxHandshakeFrame) : EstablishEnds P suite identity role fd t r
  | dropped {e : OverSocketError} (hread : WithinFrame (consumed t)) (hinst : installs t = [])
      (hend : endings t = [.close fd]) : EstablishEnds P suite identity role fd t (.error e)

theorem establishAndBridge_safe (role : HandshakeRole) :
    Safe anyAnswer (fun t _ r => EstablishEnds P suite identity role fd t r)
      (establishAndBridge P fd identity suite role ()) [] := by
  refine safe_bind (safe_mono ?_ (handshakeOf_safe role))
  intro u _ r hr
  obtain ⟨inp, out, ephs, hu, hinp⟩ := hr.moved
  -- either way the stream is dropped right after the calls `u` and at most one `into_std`
  have hdrop : ∀ (v : DaemonTr) (e : OverSocketError), Moves v [] [] [] →
      EstablishEnds P suite identity role fd (u ++ v ++ [⟨.close fd, ()⟩]) (.error e) := by
    intro v e hv
    have huv := hu.append hv
    refine .dropped ?_ ?_ ?_
    · rw [consumed_append, huv.consumed, List.append_nil]
      exact (List.append_nil inp).symm ▸ hinp
    · rw [installs_append, huv.installs]
      rfl
    · rw [endings_append, huv.endings]
      rfl
  cases r with
  | error e =>
    refine ⟨trivial, fun _ => ?_⟩
    simpa using hdrop [] e .nil
  | ok keys =>
    refine ⟨trivial, fun std => ?_⟩
    cases std with
    | error errno => exact ⟨trivial, fun _ => hdrop [_] _ ⟨rfl, rfl, rfl, rfl, rfl⟩⟩
    | ok _ =>
      obtain ⟨eph, body, reply, hacc, hmoves, hpos, hmax⟩ := hr.ok keys rfl
      simp only [bind_done, bind_apply]
      refine safe_bind (safe_after _ (fun _ _ _ _ => trivial) (fun _ _ h => h) ?_
        (safe_both bridgeSessionToKtls_safe bridgeSessionToKtls_still))
      rintro v _ r ⟨⟨-, hdraws⟩, hstill⟩
      refine .bridged hacc ?_ ?_ hpos hmax
      · rw [consumed_append, consumed_append, hmoves.consumed, hstill, List.append_nil]
        exact List.append_nil _
      · rw [draws_append, draws_append, hmoves.draws, hdraws]
        rfl

end

/-! ### Two sides and the channel between them -/

/-- One side of a connection: where its handshake stands, the calls it has made, the bytes on
their way to it, and what its kernel has sent since the handshake is over. -/
structure Side where
  node : Prog DaemonResp Unit (Except OverSocketError SessionKeys)
  trace : DaemonTr
  inbox : Bytes
  tls : Bytes

/-- The two sides of a connection. -/
abbrev Channel := HandshakeRole → Side

def HandshakeRole.peer : HandshakeRole → HandshakeRole
  | .initiator => .responder
  | .responder => .initiator

@[simp] theorem HandshakeRole.peer_ne (role : HandshakeRole) : role.peer ≠ role := by
  cases role <;> decide

@[simp] theorem HandshakeRole.peer_peer (role : HandshakeRole) : role.peer.peer = role := by
  cases role <;> rfl

/-- What a socket with `inbox` may answer: any nonempty part of what has arrived, the end of the
stream only when nothing is left, and errors at any time. -/
def Serves (inbox rest : Bytes) : Ev DaemonResp → Prop
  | ⟨.read _ _, .data d _⟩ => inbox = d ++ rest
  | ⟨.read _ _, .eof⟩ => inbox = [] ∧ rest = []
  | _ => rest = inbox

/-- Either side makes its next call, or its kernel sends on a connection whose handshake has
succeeded on this side. -/
inductive Channel.Step (l : Channel) : Channel → Prop
  | answer (role : HandshakeRole) {o : DaemonOp}
      {k : DaemonResp o → Prog DaemonResp Unit (Except OverSocketError SessionKeys)}
      (hnode : (l role).node = .call () o k) (r : DaemonResp o) {rest : Bytes}
      (hserve : Serves (l role).inbox rest ⟨o, r⟩) :
      Step l (Function.update (Function.update l role
        { l role with node := k r, trace := (l role).trace ++ [⟨o, r⟩], inbox := rest })
        role.peer { l role.peer with inbox := (l role.peer).inbox ++ Ev.written ⟨o, r⟩ })
  | tls (role : HandshakeRole) {keys : SessionKeys} (hnode : (l role).node = .done () (.ok keys))
      (d : Bytes) :
      Step l (Function.update (Function.update l role { l role with tls := (l role).tls ++ d })
        role.peer { l role.peer with inbox := (l role.peer).inbox ++ d })

section
variable (P : Primitives) (suite : CipherSuite) (identity : HandshakeRole → IdentityMaterial)
  (fd : HandshakeRole → Fd)

def Channel.start : Channel := fun role =>
  ⟨handshakeOf P role (fd role) (identity role) suite (), [], [], []⟩

inductive Channel.Reachable : Channel → Prop
  | start : Reachable (Channel.start P suite identity fd)
  | step {l l' : Channel} : Reachable l → Channel.Step l l' → Reachable l'

end

/-- The account of one direction: what the peer has put on the wire was read or is on its way. -/
structure Side.Ok (p q : Side) (p₀ : Prog DaemonResp Unit (Except OverSocketError SessionKeys)) :
    Prop where
  ran : At p₀ p.trace p.node
  account : consumed p.trace ++ p.inbox = written q.trace ++ q.tls
  tls : p.tls ≠ [] → ∃ keys, p.node = .done () (.ok keys)

section
variable {P : Primitives} {suite : CipherSuite} {identity : HandshakeRole → IdentityMaterial}
  {fd : HandshakeRole → Fd} {l l' : Channel}

theorem Serves.account {inbox rest : Bytes} {o : DaemonOp} {r : DaemonResp o}
    (h : Serves inbox rest ⟨o, r⟩) : inbox = Ev.consumed ⟨o, r⟩ ++ rest := by
  cases o with
  | read fd len =>
    cases r with
    | data d hd => exact h
    | eof => rw [h.1, h.2]; rfl
    | error e => exact h.symm
  | _ => exact h.symm

/-- After a call of `p` the books of both directions are balanced. -/
theorem Side.Ok.answer {p q : Side}
    {p₀ q₀ : Prog DaemonResp Unit (Except OverSocketError SessionKeys)} (hp : p.Ok q p₀)
    (hq : q.Ok p q₀) {o : DaemonOp}
    {k : DaemonResp o → Prog DaemonResp Unit (Except OverSocketError SessionKeys)}
    (hnode : p.node = .call () o k) (r : DaemonResp o) {rest : Bytes}
    (hserve : Serves p.inbox rest ⟨o, r⟩) :
    Side.Ok { p with node := k r, trace := p.trace ++ [⟨o, r⟩], inbox := rest }
      { q with inbox := q.inbox ++ Ev.written ⟨o, r⟩ } p₀ ∧
    Side.Ok { q with inbox := q.inbox ++ Ev.written ⟨o, r⟩ }
      { p with node := k r, trace := p.trace ++ [⟨o, r⟩], inbox := rest } q₀ := by
  have hsilent : p.tls = [] := by
    by_contra htls
    obtain ⟨keys, hdone⟩ := hp.tls htls
    rw [hnode] at hdone
    cases hdone
  have hread : consumed [⟨o, r⟩] = Ev.consumed ⟨o, r⟩ := List.append_nil _
  have hwrite : written [⟨o, r⟩] = Ev.written ⟨o, r⟩ := List.append_nil _
  refine ⟨⟨?_, ?_, ?_⟩, ⟨hq.ran, ?_, hq.tls⟩⟩
  · have hran := hp.ran
    rw [hnode] at hran
    exact hran.step r
  · have hbal := hp.account
    rw [hserve.account] at hbal
    rw [consumed_append, hread, List.append_assoc]
    exact hbal
  · exact fun htls => absurd hsilent htls
  · have hbal := hq.account
    rw [hsilent, List.append_nil] at hbal
    rw [written_append, hwrite, ← List.append_assoc, hbal]
    simp [hsilent]

theorem Side.Ok.talk {p q : Side}
    {p₀ q₀ : Prog DaemonResp Unit (Except OverSocketError SessionKeys)} (hp : p.Ok q p₀)
    (hq : q.Ok p q₀) {keys : SessionKeys} (hnode : p.node = .done () (.ok keys)) (d : Bytes) :
    Side.Ok { p with tls := p.tls ++ d } { q with inbox := q.inbox ++ d } p₀ ∧
    Side.Ok { q with inbox := q.inbox ++ d } { p with tls := p.tls ++ d } q₀ := by
  refine ⟨⟨hp.ran, hp.account, fun _ => ⟨keys, hnode⟩⟩, ⟨hq.ran, ?_, hq.tls⟩⟩
  rw [← List.append_assoc, hq.account, List.append_assoc]

theorem HandshakeRole.eq_or_peer (σ ρ : HandshakeRole) : σ = ρ ∨ σ = ρ.peer := by
  cases σ <;> cases ρ <;> decide

theorem Channel.Reachable.ok (h : Channel.Reachable P suite identity fd l) (role : HandshakeRole) :
    (l role).Ok (l role.peer) (handshakeOf P role (fd role) (identity role) suite ()) := by
  induction h generalizing role with
  | start => exact ⟨.refl, rfl, fun htls => absurd rfl htls⟩
  | @step l l' _ hstep ih =>
    cases hstep with
    | answer ρ hnode r hserve =>
      have hρ := ih ρ
      have hpeer := ih ρ.peer
      rw [HandshakeRole.peer_peer] at hpeer
      obtain ⟨hown, hother⟩ := hρ.answer hpeer hnode r hserve
      rcases HandshakeRole.eq_or_peer role ρ with rfl | rfl
      · simpa [Function.update, (HandshakeRole.peer_ne role).symm] using hown
      · simpa [Function.update, (HandshakeRole.peer_ne ρ).symm] using hother
    | tls ρ hnode d =>
      have hρ := ih ρ
      have hpeer := ih ρ.peer
      rw [HandshakeRole.peer_peer] at hpeer
      obtain ⟨hown, hother⟩ := hρ.talk hpeer hnode d
      rcases HandshakeRole.eq_or_peer role ρ with rfl | rfl
      · simpa [Function.update, (HandshakeRole.peer_ne role).symm] using hown
      · simpa [Function.update, (HandshakeRole.peer_ne ρ).symm] using hother

theorem wireFrame_inj {body body' rest rest' : Bytes} (hmax : body.length ≤ maxHandshakeFrame)
    (hmax' : body'.length ≤ maxHandshakeFrame)
    (h : wireFrame body ++ rest = wireFrame body' ++ rest') : body = body' ∧ rest = rest' := by
  have hbound : maxHandshakeFrame < 256 ^ 4 := by decide
  rw [wireFrame, wireFrame, List.append_assoc, List.append_assoc] at h
  obtain ⟨hlen, htail⟩ := List.append_inj h (by rw [beBytes_length, beBytes_length])
  exact List.append_inj htail (beBytes_inj (by omega) (by omega) hlen)

/-- A hello is never empty, and far shorter than a message may be. -/
theorem EngineAccepts.fits {role : HandshakeRole} {identity : IdentityMaterial} {eph : Ephemeral}
    {body out : Bytes} {keys : SessionKeys}
    (h : EngineAccepts P suite identity role eph body out keys) :
    0 < out.length ∧ out.length ≤ maxHandshakeFrame := by
  cases h with
  | initiator hbegin =>
    obtain ⟨sigs, -, rfl, -⟩ := clientHello_eq_ok.mp (beginInitiator_eq_ok.mp hbegin).2
    rw [HelloBody.bytes_length, suite.kem_ekSize P]
    cases suite <;> decide
  | responder hrespond =>
    rw [suiteRespond_length hrespond]
    cases suite <;> decide

end

/-- What holds when both sides have finished: each has read what the other wrote and nothing
else, the sockets hold what the kernels have sent since, and the keys agree. -/
structure Handoff (P : Primitives) (suite : CipherSuite)
    (identity : HandshakeRole → IdentityMaterial) (l : Channel) (keys keys' : SessionKeys) :
    Prop where
  messages : ∃ eph eph' state clientHello serverHello,
    suite.beginInitiator P (identity .initiator) eph = .ok (state, clientHello) ∧
    suite.respond P (identity .responder) clientHello eph' = .ok (keys', serverHello) ∧
    written (l .initiator).trace = wireFrame clientHello ∧
    consumed (l .responder).trace = wireFrame clientHello ∧
    written (l .responder).trace = wireFrame serverHello ∧
    consumed (l .initiator).trace = wireFrame serverHello
  leftover : ∀ role, (l role).inbox = (l role.peer).tls
  toResponder : (keys.exportKtls P).tx = (keys'.exportKtls P).rx
  toInitiator : (keys'.exportKtls P).tx = (keys.exportKtls P).rx

section
variable {P : Primitives} {suite : CipherSuite} {identity : HandshakeRole → IdentityMaterial}
  {fd : HandshakeRole → Fd} {l : Channel}

theorem Channel.Reachable.handoff (hP : CorrectPrimitives P)
    (htrust : ∀ role, Trusts P (identity role) (identity role.peer))
    (h : Channel.Reachable P suite identity fd l) {keys keys' : SessionKeys}
    (hi : (l .initiator).node = .done () (.ok keys))
    (hr : (l .responder).node = .done () (.ok keys')) : Handoff P suite identity l keys keys' := by
  have hbooks : (l .initiator).Ok (l .responder) _ := h.ok .initiator
  have hbooks' : (l .responder).Ok (l .initiator) _ := h.ok .responder
  have hran := hbooks.ran
  have hran' := hbooks'.ran
  rw [hi] at hran
  rw [hr] at hran'
  obtain ⟨eph, reply, hello, hacc, hmoves, -, hmax⟩ :=
    (safe_at (handshakeOf_safe .initiator) hran).ok keys rfl
  obtain ⟨eph', hello', reply', hacc', hmoves', -, hmax'⟩ :=
    (safe_at (handshakeOf_safe .responder) hran').ok keys' rfl
  rw [List.nil_append] at hmoves hmoves'
  -- each side has cut the other's message off the stream that the other has sent
  have hcut := hbooks.account
  have hcut' := hbooks'.account
  rw [hmoves.consumed, hmoves'.written] at hcut
  rw [hmoves'.consumed, hmoves.written] at hcut'
  obtain ⟨rfl, hleft⟩ := wireFrame_inj hmax hacc'.fits.2 hcut
  obtain ⟨rfl, hleft'⟩ := wireFrame_inj hmax' hacc.fits.2 hcut'
  cases hacc with
  | initiator hbegin hfinish =>
    cases hacc' with
    | responder hrespond =>
      have hclient : Trusts P (identity .initiator) (identity .responder) := htrust .initiator
      have hserver : Trusts P (identity .responder) (identity .initiator) := htrust .responder
      obtain ⟨_, _, _, _, hbegin', hrespond', hfinish', -⟩ :=
        hybrid_complete hP suite hclient hserver eph eph'
      rw [hbegin'] at hbegin
      cases hbegin
      rw [hrespond'] at hrespond
      cases hrespond
      rw [hfinish'] at hfinish
      cases hfinish
      refine ⟨⟨eph, eph', _, _, _, hbegin', hrespond', hmoves.written, hmoves'.consumed,
        hmoves'.written, hmoves.consumed⟩, ?_, rfl, rfl⟩
      rintro (_ | _)
      · exact hleft
      · exact hleft'

/-! ### The handshake completes -/

/-- Whole reads and writes, with `inp` read and `out` written. -/
structure Relays (u : DaemonTr) (inp out : Bytes) : Prop where
  consumed : consumed u = inp
  written : written u = out
  full : ∀ fd n, (⟨.read fd n, .eof⟩ : Ev DaemonResp) ∉ u

/-- From `p` the node `q` can be reached with `inp` read and `out` written. -/
def Can {α : Type} (p : Prog DaemonResp Unit α) (inp out : Bytes) (q : Prog DaemonResp Unit α) :
    Prop :=
  ∃ u, At p u q ∧ Relays u inp out

section
variable {α β : Type} {p q : Prog DaemonResp Unit α} {inp inp' out out' : Bytes}

theorem Can.refl : Can p [] [] p := ⟨[], .refl, rfl, rfl, fun _ _ h => by cases h⟩

theorem Can.bind {f : α → DaemonAct β} {a : α} {q : Prog DaemonResp Unit β}
    (h : Can p inp out (.done () a)) (h' : Can (f a ()) inp' out' q) :
    Can (p.bind f) (inp ++ inp') (out ++ out') q := by
  obtain ⟨u, hu, hcarries⟩ := h
  obtain ⟨v, hv, hcarries'⟩ := h'
  refine ⟨u ++ v, (hu.bind f).trans hv, ?_, ?_, ?_⟩
  · rw [consumed_append, hcarries.consumed, hcarries'.consumed]
  · rw [written_append, hcarries.written, hcarries'.written]
  · intro fd n hmem
    exact (List.mem_append.mp hmem).elim (hcarries.full fd n) (hcarries'.full fd n)

/-- First `out` is written, then `inp` is read. -/
def Turn {α : Type} (p : Prog DaemonResp Unit α) (out inp : Bytes) (q : Prog DaemonResp Unit α) :
    Prop :=
  ∃ m, Can p [] out m ∧ Can m inp [] q

theorem Turn.of_can (h : Can p inp [] q) : Turn p [] inp q := ⟨p, .refl, h⟩

theorem Turn.bind {f : α → DaemonAct β} {a : α} {q : Prog DaemonResp Unit β}
    (h : Can p [] out (.done () a)) (h' : Turn (f a ()) out' inp q) :
    Turn (p.bind f) (out ++ out') inp q := by
  obtain ⟨m, hm, hq⟩ := h'
  exact ⟨m, h.bind hm, hq⟩

theorem Can.last {f : α → DaemonAct β} {a : α} {q : Prog DaemonResp Unit β}
    (h : Can p inp out (.done () a)) (hq : f a () = q) : Can (p.bind f) inp out q := by
  obtain ⟨u, hu, hcarries⟩ := h
  have hbind := hu.bind f
  rw [bind_done, hq] at hbind
  exact ⟨u, hbind, hcarries⟩

end

theorem readExact_can {d : Bytes} {n : ℕ} (hn : d.length = n) (hpos : 0 < n) (fd : Fd) :
    Can (readExact fd n ()) d [] (.done () (.ok d)) := by
  obtain ⟨m, rfl⟩ := Nat.exists_eq_succ_of_ne_zero (Nat.ne_of_gt hpos)
  have hne : ¬ ([] : Bytes).length = m + 1 := by simp
  refine ⟨[⟨.read fd (m + 1), .data d ⟨by omega, by omega⟩⟩], ?_, List.append_nil d, rfl, by simp⟩
  simp only [readExact, iter, bind_apply, hne, if_false, perform_apply, bind_call]
  refine .head ?_
  simp only [bind_done, pure_apply, List.nil_append, bind_apply, hn, if_true]
  exact .refl

theorem writeAll_can {buf : Bytes} (hpos : 0 < buf.length) (fd : Fd) :
    Can (writeAll fd buf ()) [] buf (.done () (.ok ())) := by
  have hne : ¬ buf.isEmpty = true := by simpa using List.ne_nil_of_length_pos hpos
  obtain ⟨m, hm⟩ : ∃ m, buf.length + 1 = m + 2 := ⟨buf.length - 1, by omega⟩
  refine ⟨[⟨.write fd buf, .sent buf.length ⟨hpos, le_rfl⟩⟩], ?_, rfl, ?_, by simp⟩
  · unfold writeAll
    rw [hm]
    simp only [iter, bind_apply, hne]
    refine .head ?_
    simp only [bind_done, pure_apply, List.drop_length, List.isEmpty_nil, if_true]
    exact .refl
  · simp [written, Ev.written]

theorem readFrame_can {body : Bytes} (hpos : 0 < body.length)
    (hmax : body.length ≤ maxHandshakeFrame) (fd : Fd) :
    Can (readFrame fd ()) (wireFrame body) [] (.done () (.ok body)) := by
  have hfour : (beBytes 4 body.length).length = 4 := beBytes_length _ _
  have hlen : beNat (beBytes 4 body.length) = body.length :=
    beNat_beBytes 4 _ (lt_of_le_of_lt hmax (by decide))
  have hok : ¬ (body.length = 0 ∨ body.length > maxHandshakeFrame) := by omega
  refine (readExact_can hfour (by decide) fd).bind ?_
  simp only [hlen, hok, if_false]
  exact (readExact_can rfl hpos fd).last rfl

theorem writeFrame_can {payload : Bytes} (hpos : 0 < payload.length)
    (hmax : payload.length ≤ maxHandshakeFrame) (fd : Fd) :
    Can (writeFrame fd payload ()) [] (wireFrame payload) (.done () (.ok ())) := by
  have hok : ¬ payload.length > maxHandshakeFrame := by omega
  have hfour : 0 < (beBytes 4 payload.length).length := by rw [beBytes_length]; decide
  simp only [writeFrame, hok, if_false]
  exact (writeAll_can hfour fd).bind ((writeAll_can hpos fd).last rfl)

theorem ephemeral_can (eph : Ephemeral) :
    Can ((perform DaemonOp.ephemeral : DaemonAct Ephemeral) ()) [] [] (.done () eph) :=
  ⟨[⟨.ephemeral, eph⟩], .head .refl, rfl, rfl, by simp⟩

theorem serves_consumed {e : Ev DaemonResp} (hfull : ∀ fd n, e ≠ ⟨.read fd n, .eof⟩)
    (rest : Bytes) : Serves (Ev.consumed e ++ rest) rest e := by
  obtain ⟨o, r⟩ := e
  cases o with
  | read fd n =>
    cases r with
    | data d hd => rfl
    | eof => exact absurd rfl (hfull fd n)
    | error errno => rfl
  | _ => rfl

theorem Channel.Reachable.runs (h : Channel.Reachable P suite identity fd l) (role : HandshakeRole)
    {q : Prog DaemonResp Unit (Except OverSocketError SessionKeys)} {inp out rest : Bytes}
    (hcan : Can (l role).node inp out q) (hinbox : (l role).inbox = inp ++ rest) :
    ∃ l', Channel.Reachable P suite identity fd l' ∧ (l' role).node = q ∧ (l' role).inbox = rest ∧
      (l' role.peer).node = (l role.peer).node ∧
      (l' role.peer).inbox = (l role.peer).inbox ++ out := by
  obtain ⟨u, hat, rfl, rfl, hfull⟩ := hcan
  -- by induction on the calls, keeping what the last of them has yet to read in the inbox
  induction hat generalizing rest with
  | refl => exact ⟨l, h, rfl, hinbox, rfl, (List.append_nil _).symm⟩
  | @step t s o k hto r ih =>
    have hlast : (l role).inbox = consumed t ++ (Ev.consumed ⟨o, r⟩ ++ rest) := by
      rw [hinbox, consumed_append, List.append_assoc]
      simp [consumed]
    obtain ⟨m, hm, hnode, hrest, hpeer, hin⟩ :=
      ih (fun fd n hmem => hfull fd n (List.mem_append_left _ hmem)) hlast
    have hserve : Serves (m role).inbox rest ⟨o, r⟩ := by
      rw [hrest]
      exact serves_consumed (fun fd n heq => hfull fd n (heq ▸ List.mem_concat_self)) rest
    refine ⟨_, hm.step (.answer role hnode r hserve), ?_, ?_, ?_, ?_⟩
    · simp [Function.update, (HandshakeRole.peer_ne role).symm]
    · simp [Function.update, (HandshakeRole.peer_ne role).symm]
    · simp [Function.update, hpeer]
    · simp [Function.update, hin, written]

theorem initiatorHandshake_can {identity : IdentityMaterial} {fd : Fd} {eph : Ephemeral}
    {state : InitiatorState} {hello reply : Bytes} {keys : SessionKeys}
    (hbegin : suite.beginInitiator P identity eph = .ok (state, hello)) (hpos : 0 < hello.length)
    (hmax : hello.length ≤ maxHandshakeFrame) (hfinish : state.finish P identity reply = .ok keys)
    (hpos' : 0 < reply.length) (hmax' : reply.length ≤ maxHandshakeFrame) :
    Turn (initiatorHandshake P fd identity suite ()) (wireFrame hello) (wireFrame reply)
      (.done () (.ok keys)) := by
  rw [← List.nil_append (wireFrame hello)]
  refine Turn.bind (ephemeral_can eph) ?_
  simp only [hbegin]
  rw [← List.append_nil (wireFrame hello)]
  refine Turn.bind (writeFrame_can hpos hmax fd) (.of_can ?_)
  refine (readFrame_can hpos' hmax' fd).last ?_
  simp only [hfinish, pure_apply]

theorem responderHandshake_can {identity : IdentityMaterial} {fd : Fd} {eph : Ephemeral}
    {hello reply : Bytes} {keys : SessionKeys}
    (hrespond : suite.respond P identity hello eph = .ok (keys, reply)) (hpos : 0 < hello.length)
    (hmax : hello.length ≤ maxHandshakeFrame) (hpos' : 0 < reply.length)
    (hmax' : reply.length ≤ maxHandshakeFrame) :
    Can (responderHandshake P fd identity suite ()) (wireFrame hello) (wireFrame reply)
      (.done () (.ok keys)) := by
  rw [← List.append_nil (wireFrame hello), ← List.nil_append (wireFrame reply)]
  refine Can.bind (readFrame_can hpos hmax fd) ?_
  rw [← List.nil_append (wireFrame reply)]
  refine Can.bind (p := perform DaemonOp.ephemeral ()) (ephemeral_can eph) ?_
  simp only [hrespond]
  exact (writeFrame_can hpos' hmax' fd).last rfl

/-- Two sides that trust each other get through, whatever they draw. -/
theorem Channel.completes (hP : CorrectPrimitives P)
    (htrust : ∀ role, Trusts P (identity role) (identity role.peer)) (eph eph' : Ephemeral) :
    ∃ l keys keys', Channel.Reachable P suite identity fd l ∧
      (l .initiator).node = .done () (.ok keys) ∧ (l .responder).node = .done () (.ok keys') := by
  have hclient : Trusts P (identity .initiator) (identity .responder) := htrust .initiator
  have hserver : Trusts P (identity .responder) (identity .initiator) := htrust .responder
  obtain ⟨state, hello, keys, reply, hbegin, hrespond, hfinish, -⟩ :=
    hybrid_complete hP suite hclient hserver eph eph'
  obtain ⟨hpos, hmax⟩ := (EngineAccepts.initiator hbegin hfinish).fits
  obtain ⟨hpos', hmax'⟩ := (EngineAccepts.responder hrespond).fits
  obtain ⟨q, hsend, hend⟩ : Turn (initiatorHandshake P (fd .initiator) _ suite ()) _ _ _ :=
    initiatorHandshake_can hbegin hpos hmax hfinish hpos' hmax'
  have hserve : Can (responderHandshake P (fd .responder) _ suite ()) _ _ _ :=
    responderHandshake_can hrespond hpos hmax hpos' hmax'
  have hstart : Channel.Reachable P suite identity fd (Channel.start P suite identity fd) := .start
  -- the client hello goes out, is answered, and the answer comes in
  have hempty : (Channel.start P suite identity fd .initiator).inbox = [] ++ [] := rfl
  obtain ⟨l₁, h₁, hnode₁, hin₁, hidle₁, hsent₁⟩ := hstart.runs .initiator hsend hempty
  have hidle : (l₁ .responder).node =
      responderHandshake P (fd .responder) (identity .responder) suite () := hidle₁
  rw [← hidle] at hserve
  have harrived : (l₁ .responder).inbox = wireFrame hello ++ [] :=
    hsent₁.trans (List.append_nil _).symm
  obtain ⟨l₂, h₂, hnode₂, -, hidle₂, hsent₂⟩ := h₁.runs .responder hserve harrived
  have hwait : (l₂ .initiator).node = q := hidle₂.trans hnode₁
  rw [← hwait] at hend
  have hanswered : (l₂ .initiator).inbox = wireFrame reply ++ [] := by
    rw [List.append_nil]
    refine hsent₂.trans ?_
    rw [show (l₁ HandshakeRole.responder.peer).inbox = [] from hin₁, List.nil_append]
  obtain ⟨l₃, h₃, hnode₃, -, hidle₃, -⟩ := h₂.runs .initiator hend hanswered
  exact ⟨l₃, _, _, h₃, hnode₃, hidle₃.trans hnode₂⟩

/-! ### The boundary -/

/-- Length in front of the first message of a stream. -/
def declaredLength (w : Bytes) : ℕ := beNat (w.take 4)

/-- The stream `w` starts with a message that the engine accepts. -/
def AcceptedStream (P : Primitives) (suite : CipherSuite) (identity : IdentityMaterial)
    (role : HandshakeRole) (eph : List Ephemeral) (w : Bytes) : Prop :=
  ∃ e body out keys rest, eph = [e] ∧ EngineAccepts P suite identity role e body out keys ∧
    0 < body.length ∧ body.length ≤ maxHandshakeFrame ∧ w = wireFrame body ++ rest

/-- A side gives up on the stream `w`. -/
structure GivesUp (fd : Fd) (w : Bytes) (t : DaemonTr) (r : Except OverSocketError Unit) :
    Prop where
  error : ∃ e, r = .error e
  within : (consumed t).length ≤ 4 + declaredLength w
  closed : endings t = [.close fd]
  bare : installs t = []

/-- The boundary between the handshake and the kernel's stream. -/
structure CleanBoundary (P : Primitives) (suite : CipherSuite)
    (identity : HandshakeRole → IdentityMaterial) (fd : HandshakeRole → Fd) : Prop where
  both : ∀ l keys keys', Channel.Reachable P suite identity fd l →
    (l .initiator).node = .done () (.ok keys) → (l .responder).node = .done () (.ok keys') →
    Handoff P suite identity l keys keys'
  other : ∀ role w t r,
    At (establishAndBridge P (fd role) (identity role) suite role ()) t (.done () r) →
    consumed t <+: w → ¬ AcceptedStream P suite (identity role) role (draws t) w →
    GivesUp (fd role) w t r
  returns : ∀ role (τ : Type) (answer : (o : DaemonOp) → τ → DaemonResp o × τ) (env : τ), ∃ n r,
    (runWith answer n (establishAndBridge P (fd role) (identity role) suite role ()) env).1 =
      .done () r

theorem WithinFrame.declared {b w : Bytes} (h : WithinFrame b) (hpre : b <+: w) :
    b.length ≤ 4 + declaredLength w := by
  rcases h with hshort | hlong
  · omega
  · by_cases hfour : 4 ≤ b.length
    · obtain ⟨rest, rfl⟩ := hpre
      rwa [declaredLength, List.take_append_of_le_length hfour]
    · omega

theorem overSocket_cleanBoundary (hP : CorrectPrimitives P)
    (htrust : ∀ role, Trusts P (identity role) (identity role.peer)) :
    CleanBoundary P suite identity fd where
  both _ _ _ h hi hr := h.handoff hP htrust hi hr
  other role w t r hat hpre hnot := by
    have hends : EstablishEnds P suite (identity role) role (fd role) t r :=
      safe_at (establishAndBridge_safe role) hat
    cases hends with
    | bridged hacc hread hdraws hpos hmax =>
      obtain ⟨rest, hrest⟩ := hpre
      exact absurd ⟨_, _, _, _, rest, hdraws, hacc, hpos, hmax, by rw [← hread, hrest]⟩ hnot
    | dropped hread hinst hend => exact ⟨⟨_, rfl⟩, hread.declared hpre, hend, hinst⟩
  returns role τ answer env := by
    obtain ⟨n, ⟨_, r, hdone⟩ | ⟨_, hcut⟩⟩ :=
      runWith_ends answer (establishAndBridge P (fd role) (identity role) suite role ()) env
    · exact ⟨n, r, hdone⟩
    · have hat := at_runWith answer n
        (establishAndBridge P (fd role) (identity role) suite role ()) env
      rw [hcut] at hat
      exact (safe_at (establishAndBridge_safe role) hat).elim

theorem overSocket_cleanBoundary_specimen :
    CleanBoundary specimen .nistStandard768 (fun _ => specimenIdentity) (fun _ => 3) ∧
    ∃ l keys keys', Channel.Reachable specimen .nistStandard768 (fun _ => specimenIdentity)
        (fun _ => 3) l ∧
      (l .initiator).node = .done () (.ok keys) ∧ (l .responder).node = .done () (.ok keys') :=
  ⟨overSocket_cleanBoundary specimen_correct fun _ => specimenIdentity_trusts,
    Channel.completes specimen_correct (fun _ => specimenIdentity_trusts) ⟨ramp 32, []⟩
      ⟨pad 32 [], [1]⟩⟩

end

end SyntriassOverlay
