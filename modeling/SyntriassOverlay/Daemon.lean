import SyntriassOverlay.OverSocket
import SyntriassOverlay.FdPassing
import SyntriassOverlay.Lib.Ownership

/-!
# The servers of the daemon (daemon.rs:83-168)

In one mode the daemon accepts the connections that it protects, in another one it gets their
sockets as `SCM_RIGHTS` descriptors. Every connection has a task of its own. The tasks share
the descriptor table of the process, in which the number of a closed descriptor is given out
again; a stream that goes out of scope closes its descriptor.
-/

namespace SyntriassOverlay
open Crypto Resumption Ownership

/-! ### Tasks -/

/-- The number that a `c_int` stands for. -/
def rawFd (fd : CInt) : Fd := fd.toBitVec.toInt

theorem rawFd_inj {fd fd' : CInt} (h : rawFd fd = rawFd fd') : fd = fd' :=
  UInt32.toBitVec_inj.mp (BitVec.toInt_inj.mp h)

inductive TaskOp where
  | socket (o : DaemonOp)
  | channel (uds : Fd) (o : PassOp)
  | setNonblocking (fd : Fd) (nonblocking : Bool)
  | fromStd (fd : Fd)

@[reducible] def TaskResp : TaskOp → Type
  | .socket o => DaemonResp o
  | .channel _ o => PassResp o
  | .setNonblocking _ _ => Except Errno Unit
  | .fromStd _ => Except Errno Unit

abbrev TaskTr := Trace TaskResp
abbrev TaskAct (α : Type) := Act TaskResp Unit α

def overSocket {α : Type} (m : DaemonAct α) : TaskAct α := fun s => (m s).lift TaskOp.socket

def overChannel {α : Type} (uds : Fd) (m : PassAct α) : TaskAct α :=
  fun s => (m s).lift (TaskOp.channel uds)

section
variable (P : Primitives)

/-- Without a policy or an identity the stream goes out of scope. -/
def serveOverSocket (stream : Fd) (role : HandshakeRole) : DaemonAct Unit := do
  match ← configuredSuite with
  | .error _ => perform (DaemonOp.close stream)
  | .ok suite =>
    match ← perform DaemonOp.resolveIdentity with
    | .error _ => perform (DaemonOp.close stream)
    | .ok identity => do
      let _ ← establishAndBridge P stream identity suite role
      pure ()

/-- The early return of `?`, with the stream that it drops. -/
def dropped (fd : Fd) (e : Errno) : TaskAct (Except Errno Unit) := do
  perform (TaskOp.socket (.close fd))
  pure (.error e)

/-- `handle_passed_fd` from the descriptor on. -/
def servePassedFd (fd : Fd) : TaskAct (Except Errno Unit) := do
  match ← perform (TaskOp.setNonblocking fd true) with
  | .error e => dropped fd e
  | .ok _ =>
    match ← perform (TaskOp.fromStd fd) with
    | .error e => dropped fd e
    | .ok _ => do
      overSocket (serveOverSocket P fd .responder)
      pure (.ok ())

def handlePassedFd (channel : Fd) : TaskAct (Except Errno Unit) := do
  match ← perform (TaskOp.socket (.intoStd channel)) with
  | .error e => dropped channel e
  | .ok _ =>
    match ← perform (TaskOp.setNonblocking channel false) with
    | .error e => dropped channel e
    | .ok _ => do
      let result ← overChannel channel recvFd
      perform (TaskOp.socket (.close channel))
      match result with
      | .error e => pure (.error e)
      | .ok (_, none) => pure (.ok ())
      | .ok (_, some fd) => servePassedFd P (rawFd fd)

inductive ServerMode where
  | overSocket
  | fdPassing
  deriving DecidableEq

/-- The task that a server spawns for what `accept` returns. -/
def ServerMode.task (mode : ServerMode) (accepted : Fd) : TaskAct (Except Errno Unit) :=
  match mode with
  | .overSocket => do
    SyntriassOverlay.overSocket (serveOverSocket P accepted .responder)
    pure (.ok ())
  | .fdPassing => handlePassedFd P accepted

end

/-! ### Descriptors -/

/-- The descriptors that calls on sockets name and close. -/
def sockets : Discipline DaemonResp Fd where
  uses
    | .read fd _ | .write fd _ | .intoStd fd | .setsockopt fd _ _ _ | .shutdown fd _
    | .close fd => {fd}
    | .resolvePolicy | .resolveIdentity | .ephemeral => ∅
  drops
    | .close fd => {fd}
    | _ => ∅
  gains _ := ∅
  drops_used o := by cases o <;> simp

def rawFds (fds : List CInt) : Set Fd := {x | ∃ fd ∈ fds, rawFd fd = x}

/-- The descriptors that a task names, closes and gets. -/
def descriptors : Discipline TaskResp Fd where
  uses
    | .socket o => sockets.uses o
    | .channel uds (.sendmsg _ _) => {uds}
    | .channel uds .recvmsg => {uds}
    | .channel _ (.close fd) => {rawFd fd}
    | .setNonblocking fd _ => {fd}
    | .fromStd fd => {fd}
  drops
    | .socket o => sockets.drops o
    | .channel _ (.close fd) => {rawFd fd}
    | _ => ∅
  gains
    | ⟨.channel _ .recvmsg, .ok d⟩ => rawFds d.installed
    | _ => ∅
  drops_used o := by
    cases o with
    | socket o => exact sockets.drops_used o
    | channel uds o => cases o <;> simp
    | setNonblocking fd nonblocking => simp
    | fromStd fd => simp

section
variable {P : Primitives} {fd : Fd}

theorem readExact_steady (n : ℕ) : sockets.Steady {fd} (readExact fd n) := by
  apply Discipline.steady_iter
  intro filled
  split_ifs
  · exact Discipline.steady_pure _
  · apply Discipline.steady_bind (Discipline.steady_perform subset_rfl rfl fun _ => rfl)
    intro r
    cases r <;> exact Discipline.steady_pure _

theorem writeAll_steady (buf : Bytes) : sockets.Steady {fd} (writeAll fd buf) := by
  apply Discipline.steady_iter
  intro rest
  split_ifs
  · exact Discipline.steady_pure _
  · apply Discipline.steady_bind (Discipline.steady_perform subset_rfl rfl fun _ => rfl)
    intro r
    cases r <;> exact Discipline.steady_pure _

theorem readFrame_steady : sockets.Steady {fd} (readFrame fd) := by
  apply Discipline.steady_bind (readExact_steady 4)
  intro r
  cases r with
  | error e => exact Discipline.steady_pure _
  | ok lenBytes =>
    dsimp only
    split_ifs
    · exact Discipline.steady_pure _
    · apply Discipline.steady_bind (readExact_steady _)
      intro r
      cases r <;> exact Discipline.steady_pure _

theorem writeFrame_steady (payload : Bytes) : sockets.Steady {fd} (writeFrame fd payload) := by
  unfold writeFrame
  split_ifs
  · exact Discipline.steady_pure _
  · apply Discipline.steady_bind (writeAll_steady _)
    intro r
    cases r with
    | error e => exact Discipline.steady_pure _
    | ok _ =>
      apply Discipline.steady_bind (writeAll_steady _)
      intro r
      cases r <;> exact Discipline.steady_pure _

theorem ephemeral_steady :
    sockets.Steady {fd} (perform DaemonOp.ephemeral : DaemonAct Ephemeral) :=
  Discipline.steady_perform (Set.empty_subset _) rfl fun _ => rfl

theorem handshakeOf_steady (role : HandshakeRole) (identity : IdentityMaterial)
    (suite : CipherSuite) : sockets.Steady {fd} (handshakeOf P role fd identity suite) := by
  cases role with
  | initiator =>
    apply Discipline.steady_bind ephemeral_steady
    intro eph
    cases suite.beginInitiator P identity eph with
    | error e => exact Discipline.steady_pure _
    | ok begun =>
      apply Discipline.steady_bind (writeFrame_steady begun.2)
      intro r
      cases r with
      | error e => exact Discipline.steady_pure _
      | ok _ =>
        apply Discipline.steady_bind readFrame_steady
        intro r
        cases r with
        | error e => exact Discipline.steady_pure _
        | ok serverHello =>
          dsimp only
          cases begun.1.finish P identity serverHello <;> exact Discipline.steady_pure _
  | responder =>
    apply Discipline.steady_bind readFrame_steady
    intro r
    cases r with
    | error e => exact Discipline.steady_pure _
    | ok clientHello =>
      apply Discipline.steady_bind ephemeral_steady
      intro eph
      cases suite.respond P identity clientHello eph with
      | error e => exact Discipline.steady_pure _
      | ok answered =>
        apply Discipline.steady_bind (writeFrame_steady answered.2)
        intro r
        cases r <;> exact Discipline.steady_pure _

/-! ### Serving one socket -/

/-- The calls of the handshake and the handoff leave the socket to the kernel: the engine has
accepted what was read off it, and kernel TLS has the keys. -/
def HandedOver (P : Primitives) (role : HandshakeRole) (fd : Fd) (t : DaemonTr) : Prop :=
  ∃ suite identity eph body out keys, (⟨.resolvePolicy, some suite⟩ : Ev DaemonResp) ∈ t ∧
    (⟨.resolveIdentity, .ok identity⟩ : Ev DaemonResp) ∈ t ∧
    EngineAccepts P suite identity role eph body out keys ∧ consumed t = wireFrame body ∧
    installs t = ktlsOptions P fd keys

theorem sockets_close_held {t : DaemonTr} (h : sockets.held {fd} t = {fd}) (r : Unit) :
    sockets.held {fd} (t ++ [⟨.close fd, r⟩]) = ∅ := by
  rw [Discipline.held_concat rfl, h]
  exact sdiff_self

/-- To close the socket and end. -/
theorem safe_close {α : Type} {a : α} {t : DaemonTr} {Q : DaemonTr → Unit → α → Prop}
    (h : sockets.held {fd} t = {fd}) (hQ : ∀ t', sockets.held {fd} t' = ∅ → Q t' () a) :
    Safe (sockets.owner {fd}) Q (.call () (.close fd) fun _ => .done () a) t :=
  ⟨fun _ => h.ge, fun r => hQ _ (sockets_close_held h r)⟩

/-- What the bridge leaves of the socket. -/
def Bridged (fd : Fd) (t : DaemonTr) (r : Except KernelNativeError Unit) : Prop :=
  (r = .ok () → sockets.held {fd} t = {fd}) ∧ ∀ e, r = .error e → sockets.held {fd} t = ∅

theorem bridgeSessionToKtls_owned {keys : SessionKeys} :
    Safe (sockets.owner {fd}) (fun u _ r => Bridged fd u r) (bridgeSessionToKtls P fd keys ())
      [] := by
  have hset : ∀ {t : DaemonTr} {level name : ℕ} {value : Bytes} {r : Except Errno Unit},
      sockets.held {fd} t = {fd} →
      sockets.held {fd} (t ++ [⟨.setsockopt fd level name value, r⟩]) = {fd} :=
    fun h => (Discipline.held_concat_quiet rfl rfl).trans h
  have htorn : ∀ {t : DaemonTr} {e : KernelNativeError}, sockets.held {fd} t = {fd} →
      Safe (sockets.owner {fd}) (fun u _ r => Bridged fd u r)
        (.call () (.shutdown fd shutRdwr) fun _ => .call () (.close fd) fun _ =>
          .done () (.error e)) t := by
    intro t e h
    refine ⟨fun _ => h.ge, fun r => safe_close ?_ fun _ h' => ⟨nofun, fun _ _ => h'⟩⟩
    exact (Discipline.held_concat_quiet rfl rfl).trans h
  refine ⟨fun _ => subset_rfl, fun ulp => ?_⟩
  cases ulp with
  | error e => exact htorn (hset rfl)
  | ok _ =>
    refine ⟨fun _ => (hset rfl).ge, fun tx => ?_⟩
    cases tx with
    | error e => exact htorn (hset (hset rfl))
    | ok _ =>
      refine ⟨fun _ => (hset (hset rfl)).ge, fun rx => ?_⟩
      cases rx with
      | error e => exact htorn (hset (hset (hset rfl)))
      | ok _ => exact ⟨fun _ => hset (hset (hset rfl)), nofun⟩

/-- How the service of a socket ends. -/
inductive ServedOn (P : Primitives) (role : HandshakeRole) (fd : Fd) (t : DaemonTr) : Prop
  | closed (hheld : sockets.held {fd} t = ∅)
  | bridged (hheld : sockets.held {fd} t = {fd}) (hover : HandedOver P role fd t)

theorem establishAndBridge_served {suite : CipherSuite} {identity : IdentityMaterial}
    {role : HandshakeRole} :
    Safe (sockets.owner {fd}) (fun u _ _ => sockets.held {fd} u = ∅ ∨
      sockets.held {fd} u = {fd} ∧ ∃ eph body out keys,
        EngineAccepts P suite identity role eph body out keys ∧ consumed u = wireFrame body ∧
        installs u = ktlsOptions P fd keys)
      (establishAndBridge P fd identity suite role ()) [] := by
  apply safe_bind
  apply Discipline.safe_steady (fun _ => subset_rfl) (fun _ _ h => h) _
    (handshakeOf_steady role identity suite () []) (handshakeOf_safe role)
  intro u _ r hu hr
  rw [List.nil_append, Discipline.held_nil] at hu
  rw [List.nil_append]
  cases r with
  | error e => exact safe_close hu fun _ h' => .inl h'
  | ok keys =>
    refine ⟨fun _ => hu.ge, fun std => ?_⟩
    have hstd : sockets.held {fd} (u ++ [⟨.intoStd fd, std⟩]) = {fd} := by
      rw [Discipline.held_concat_quiet rfl rfl, hu]
    cases std with
    | error errno => exact safe_close hstd fun _ h' => .inl h'
    | ok _ =>
      obtain ⟨eph, body, out, hacc, hmoves, -, -⟩ := hr.ok keys rfl
      simp only [bind_done, bind_apply]
      apply safe_bind
      refine safe_after _ ?_ (fun _ _ h => h) ?_ (safe_both bridgeSessionToKtls_owned
        (safe_both bridgeSessionToKtls_safe bridgeSessionToKtls_still))
      · intro v _ o ho hfresh
        obtain ⟨-, hfresh⟩ := Discipline.fresh_append.mp hfresh
        rw [Discipline.held_append, hstd]
        exact ho (hstd ▸ hfresh)
      · intro v _ r hv
        obtain ⟨⟨hopen, hclosed⟩, ⟨hprotects, -⟩, hstill⟩ := hv
        cases r with
        | error e =>
          refine .inl ?_
          rw [Discipline.held_append, hstd]
          exact hclosed e rfl
        | ok _ =>
          refine .inr ⟨?_, eph, body, out, keys, hacc, ?_, ?_⟩
          · rw [Discipline.held_append, hstd]
            exact hopen rfl
          · rw [consumed_append, consumed_append, hmoves.consumed, hstill, List.append_nil]
            exact List.append_nil _
          · rw [installs_append, installs_append, hmoves.installs, (hprotects.ok rfl).1]
            rfl

theorem serveOverSocket_served {role : HandshakeRole} :
    Safe (sockets.owner {fd}) (fun t _ _ => ServedOn P role fd t)
      (serveOverSocket P fd role ()) [] := by
  refine ⟨fun _ => Set.empty_subset _, fun policy => ?_⟩
  have hpolicy : sockets.held {fd} ([] ++ [⟨.resolvePolicy, policy⟩]) = {fd} :=
    Discipline.held_concat_quiet rfl rfl
  cases policy with
  | none => exact safe_close (a := ()) hpolicy fun _ h' => .closed h'
  | some suite =>
    refine ⟨fun _ => Set.empty_subset _, fun identity => ?_⟩
    have hasked : sockets.held {fd}
        ([] ++ [⟨.resolvePolicy, some suite⟩] ++ [⟨.resolveIdentity, identity⟩]) = {fd} :=
      (Discipline.held_concat_quiet rfl rfl).trans hpolicy
    cases identity with
    | error e => exact safe_close (a := ()) hasked fun _ h' => .closed h'
    | ok identity =>
      simp only [bind_done, bind_apply]
      apply safe_bind
      refine safe_after _ ?_ (fun _ _ h => h) ?_ establishAndBridge_served
      · intro v _ o ho hfresh
        obtain ⟨-, hfresh⟩ := Discipline.fresh_append.mp hfresh
        rw [Discipline.held_append, hasked]
        exact ho (hasked ▸ hfresh)
      · intro v _ _ hv
        rcases hv with hv | ⟨hv, eph, body, out, keys, hacc, hread, hinst⟩
        · refine .closed ?_
          rw [Discipline.held_append, hasked, hv]
        · refine .bridged ?_ ⟨suite, identity, eph, body, out, keys, ?_, ?_, hacc, hread, hinst⟩
          · rw [Discipline.held_append, hasked, hv]
          · simp
          · simp

end

/-! ### One task -/

/-- The calls on sockets. -/
def socketCalls (t : TaskTr) : DaemonTr :=
  t.filterMap fun
    | ⟨.socket o, r⟩ => some ⟨o, r⟩
    | _ => none

/-- How a task ends: it has nothing open, or the one socket that the kernel protects, or what
came with a message whose control data was truncated. -/
inductive TaskEnds (P : Primitives) (own : Set Fd) (t : TaskTr) : Prop
  | closed (hheld : descriptors.held own t = ∅)
  | bridged {fd : Fd} (hheld : descriptors.held own t = {fd})
      (hover : HandedOver P .responder fd (socketCalls t))
  | leaked {uds : Fd} {d : Delivery} (hmem : (⟨.channel uds .recvmsg, .ok d⟩ : Ev TaskResp) ∈ t)
      (htrunc : d.Truncated) (hheld : descriptors.held own t = rawFds d.installed)

section
variable {P : Primitives} {own : Set Fd} {fd : Fd} {t : TaskTr}

/-- After the calls `t` the task holds `H`. -/
def Owns (own : Set Fd) (t : TaskTr) (H : Set Fd) : Prop :=
  descriptors.Fresh own t → descriptors.held own t = H

theorem Owns.quiet {H : Set Fd} {e : Ev TaskResp} (h : Owns own t H)
    (hgains : descriptors.gains e = ∅) (hdrops : descriptors.drops e.op = ∅) :
    Owns own (t ++ [e]) H := by
  intro hfresh
  rw [Discipline.held_concat_quiet hgains hdrops]
  exact h (Discipline.fresh_append.mp hfresh).1

theorem Owns.drop {H : Set Fd} {e : Ev TaskResp} (h : Owns own t H)
    (hgains : descriptors.gains e = ∅) : Owns own (t ++ [e]) (H \ descriptors.drops e.op) := by
  intro hfresh
  rw [Discipline.held_concat hgains, h (Discipline.fresh_append.mp hfresh).1]

theorem held_socket (H : Set Fd) (u : DaemonTr) :
    descriptors.held H (u.map (Ev.lift TaskOp.socket)) = sockets.held H u := by
  induction u generalizing H with
  | nil => rfl
  | cons e u ih => exact ih _

theorem fresh_socket (H : Set Fd) (u : DaemonTr) : sockets.Fresh H u := by
  induction u generalizing H with
  | nil => trivial
  | cons e u ih => exact ⟨Set.empty_disjoint _, ih _⟩

theorem socketCalls_append (t u : TaskTr) :
    socketCalls (t ++ u) = socketCalls t ++ socketCalls u := List.filterMap_append

theorem socketCalls_lift (u : DaemonTr) : socketCalls (u.map (Ev.lift TaskOp.socket)) = u := by
  induction u with
  | nil => rfl
  | cons e u ih => exact congrArg (e :: ·) ih

/-- The service of a socket inside a task that holds nothing else. -/
theorem overSocket_serve {Q : TaskTr → Unit → Unit → Prop}
    (hown : Owns own t {fd})
    (hQ : ∀ u, Owns own (t ++ u.map (Ev.lift TaskOp.socket)) (sockets.held {fd} u) →
      ServedOn P .responder fd u → Q (t ++ u.map (Ev.lift TaskOp.socket)) () ()) :
    Safe (descriptors.owner own) Q (overSocket (serveOverSocket P fd .responder) ()) t := by
  have hheld : ∀ u : DaemonTr,
      Owns own (t ++ u.map (Ev.lift TaskOp.socket)) (sockets.held {fd} u) := by
    intro u hfresh
    rw [Discipline.held_append, hown (Discipline.fresh_append.mp hfresh).1, held_socket]
  apply safe_lift t _ (fun _ _ h => h) _ serveOverSocket_served
  · intro u _ o ho hfresh
    rw [hheld u hfresh]
    exact ho (fresh_socket _ u)
  · intro u _ _ hserved
    exact hQ u (hheld u) hserved

/-- The descriptors of a message are closed one after the other. -/
theorem closeAll_owned {α : Type} {a : α} {uds : Fd} {Q : TaskTr → Unit → α → Prop}
    {fds : List CInt} (hnodup : fds.Nodup)
    (hown : descriptors.Fresh own t → rawFds fds ⊆ descriptors.held own t)
    (hQ : ∀ u, descriptors.held own (t ++ u) = descriptors.held own t \ rawFds fds →
      socketCalls u = [] → Q (t ++ u) () a) :
    Safe (descriptors.owner own) Q (overChannel uds (do closeAll fds; pure a) ()) t := by
  induction fds generalizing t with
  | nil =>
    have hnil := hQ [] (by simp [rawFds]) rfl
    rwa [List.append_nil] at hnil
  | cons fd fds ih =>
    obtain ⟨hnot, hnodup⟩ := List.nodup_cons.mp hnodup
    have hcons : rawFds (fd :: fds) = insert (rawFd fd) (rawFds fds) := by
      ext x
      simp [rawFds, eq_comm]
    rw [hcons] at hown hQ
    have hclose : ∀ r : Unit, descriptors.held own (t ++ [⟨.channel uds (.close fd), r⟩]) =
        descriptors.held own t \ {rawFd fd} := fun r => Discipline.held_concat rfl
    refine ⟨fun hfresh => ?_, fun r => ?_⟩
    · exact Set.singleton_subset_iff.mpr (hown hfresh (Set.mem_insert _ _))
    · apply ih hnodup
      · intro hfresh
        rw [hclose]
        apply Set.subset_sdiff.mpr
        refine ⟨(Set.subset_insert _ _).trans (hown (Discipline.fresh_append.mp hfresh).1), ?_⟩
        apply Set.disjoint_singleton_right.mpr
        rintro ⟨fd', hmem, heq⟩
        exact hnot (rawFd_inj heq ▸ hmem)
      · intro u hheld hcalls
        rw [List.append_assoc] at hheld ⊢
        apply hQ
        · rw [hheld, hclose, Set.sdiff_sdiff]
          rfl
        · exact hcalls

/-- What `recv_fd` leaves open beside the channel. -/
inductive FdReceipt (uds : Fd) (t : TaskTr) (H : Set Fd) :
    Except Errno (Bytes × Option CInt) → Prop
  | error {e : Errno} (h : H = {uds}) : FdReceipt uds t H (.error e)
  | none {data : Bytes} (h : H = {uds}) : FdReceipt uds t H (.ok (data, none))
  | leaked {data : Bytes} {d : Delivery}
      (hmem : (⟨.channel uds .recvmsg, .ok d⟩ : Ev TaskResp) ∈ t) (htrunc : d.Truncated)
      (h : H = {uds} ∪ rawFds d.installed) (hnew : uds ∉ rawFds d.installed) :
      FdReceipt uds t H (.ok (data, none))
  | fd {data : Bytes} {fd : CInt} (h : H = {uds, rawFd fd}) (hnew : rawFd fd ≠ uds) :
      FdReceipt uds t H (.ok (data, some fd))

theorem FdReceipt.mem {uds : Fd} {H : Set Fd} {r : Except Errno (Bytes × Option CInt)}
    (h : FdReceipt uds t H r) : uds ∈ H := by
  cases h with
  | error h | none h => exact h ▸ rfl
  | leaked _ _ h _ => exact h ▸ Set.mem_union_left _ rfl
  | fd h _ => exact h ▸ Set.mem_insert _ _

theorem recvFd_owned {uds : Fd}
    (hown : Owns own t {uds}) :
    Safe (descriptors.owner own)
      (fun t' _ r => socketCalls t' = socketCalls t ∧
        (descriptors.Fresh own t' → FdReceipt uds t' (descriptors.held own t') r))
      (overChannel uds recvFd ()) t := by
  refine ⟨fun hfresh => (hown hfresh).ge, fun r => ?_⟩
  cases r with
  | error e =>
    refine ⟨by simp [socketCalls], fun hfresh => .error ?_⟩
    exact hown.quiet (e := ⟨.channel uds .recvmsg, .error e⟩) rfl rfl hfresh
  | ok d =>
    -- the message brings its descriptors, none of which is the channel
    have hgot : descriptors.Fresh own (t ++ [⟨.channel uds .recvmsg, .ok d⟩]) →
        descriptors.held own (t ++ [⟨.channel uds .recvmsg, .ok d⟩]) =
          {uds} ∪ rawFds d.installed ∧ uds ∉ rawFds d.installed := by
      intro hfresh
      obtain ⟨hfresh, hnew, -⟩ := Discipline.fresh_append.mp hfresh
      have hquiet : descriptors.drops (.channel uds .recvmsg) = ∅ := rfl
      rw [hown hfresh, hquiet, Set.sdiff_empty] at hnew
      rw [Discipline.held_append, hown hfresh]
      refine ⟨?_, Set.disjoint_singleton_right.mp hnew⟩
      rw [Discipline.held_cons, Discipline.held_nil, Discipline.after, hquiet, Set.sdiff_empty]
      rfl
    have hcalls : socketCalls (t ++ [⟨.channel uds .recvmsg, .ok d⟩]) = socketCalls t := by
      simp [socketCalls]
    change Safe _ _ (overChannel uds (takeFd d) ()) _
    by_cases htrunc : d.Truncated
    · have hflags : d.flags &&& msgCtrunc ≠ 0 := htrunc
      rw [takeFd, if_pos hflags]
      refine ⟨hcalls, fun hfresh => ?_⟩
      obtain ⟨hheld, hnew⟩ := hgot hfresh
      exact .leaked (by simp) htrunc hheld hnew
    · rw [takeFd_whole htrunc, settle]
      split_ifs with hone
      · obtain ⟨fd, hfd⟩ := List.length_eq_one_iff.mp hone
        have hraw : rawFds d.installed = {rawFd fd} := by
          rw [hfd]
          ext x
          simp [rawFds, eq_comm]
        rw [hfd, List.head?_cons]
        refine ⟨hcalls, fun hfresh => ?_⟩
        obtain ⟨hheld, hnew⟩ := hgot hfresh
        rw [hraw] at hheld hnew
        exact .fd hheld fun heq => hnew heq.symm
      · have hdistinct : d.installed.Nodup := d.distinct
        apply closeAll_owned hdistinct
        · intro hfresh
          rw [(hgot hfresh).1]
          exact Set.subset_union_right
        · intro u hheld hu
          refine ⟨?_, fun hfresh => .none ?_⟩
          · rw [socketCalls_append, hcalls, hu, List.append_nil]
          · obtain ⟨hbefore, hnew⟩ := hgot (Discipline.fresh_append.mp hfresh).1
            rw [hheld, hbefore, Set.union_sdiff_right, sdiff_eq_left]
            exact Set.disjoint_singleton_left.mpr hnew

theorem dropped_ends {fd : Fd} {e : Errno}
    (hown : Owns own t {fd}) :
    Safe (descriptors.owner own) (fun t' _ _ => descriptors.Fresh own t' → TaskEnds P own t')
      (dropped fd e ()) t := by
  refine ⟨fun hfresh => (hown hfresh).ge, fun r hfresh => .closed ?_⟩
  rw [Discipline.held_concat rfl, hown (Discipline.fresh_append.mp hfresh).1]
  exact sdiff_self

/-- A task that holds one socket serves it to an end. -/
theorem serve_ends {fd : Fd} (hown : Owns own t {fd})
    (hcalls : installs (socketCalls t) = [] ∧ consumed (socketCalls t) = []) :
    Safe (descriptors.owner own) (fun t' _ _ => descriptors.Fresh own t' → TaskEnds P own t')
      ((do overSocket (serveOverSocket P fd .responder); pure (.ok ()) :
        TaskAct (Except Errno Unit)) ()) t := by
  apply safe_bind
  apply overSocket_serve hown
  intro u hheld hserved hfresh
  cases hserved with
  | closed hend =>
    refine .closed ?_
    rw [hheld hfresh, hend]
  | bridged hend hover =>
    refine .bridged ((hheld hfresh).trans hend) ?_
    obtain ⟨suite, identity, eph, body, out, keys, hpolicy, hident, hacc, hread, hinst⟩ := hover
    rw [socketCalls_append, socketCalls_lift]
    refine ⟨suite, identity, eph, body, out, keys, List.mem_append_right _ hpolicy,
      List.mem_append_right _ hident, hacc, ?_, ?_⟩
    · rw [consumed_append, hcalls.2, hread, List.nil_append]
    · rw [installs_append, hcalls.1, hinst, List.nil_append]

theorem servePassedFd_ends {fd : Fd}
    (hown : Owns own t {fd})
    (hcalls : installs (socketCalls t) = [] ∧ consumed (socketCalls t) = []) :
    Safe (descriptors.owner own) (fun t' _ _ => descriptors.Fresh own t' → TaskEnds P own t')
      (servePassedFd P fd ()) t := by
  refine ⟨fun hfresh => (hown hfresh).ge, fun r => ?_⟩
  have hown' := hown.quiet (e := ⟨.setNonblocking fd true, r⟩) rfl rfl
  cases r with
  | error e => exact dropped_ends hown'
  | ok _ =>
    refine ⟨fun hfresh => (hown' hfresh).ge, fun r => ?_⟩
    have hown'' := hown'.quiet (e := ⟨.fromStd fd, r⟩) rfl rfl
    cases r with
    | error e => exact dropped_ends hown''
    | ok _ =>
      apply serve_ends hown''
      simpa [socketCalls] using hcalls

theorem handlePassedFd_ends (channel : Fd) :
    Safe (descriptors.owner {channel})
      (fun t' _ _ => descriptors.Fresh {channel} t' → TaskEnds P {channel} t')
      (handlePassedFd P channel ()) [] := by
  have hown : Owns {channel} [] {channel} := fun _ => rfl
  refine ⟨fun _ => subset_rfl, fun r => ?_⟩
  have hown' := hown.quiet (e := ⟨.socket (.intoStd channel), r⟩) rfl rfl
  cases r with
  | error e => exact dropped_ends hown'
  | ok _ =>
    refine ⟨fun hfresh => (hown' hfresh).ge, fun r => ?_⟩
    have hown'' := hown'.quiet (e := ⟨.setNonblocking channel false, r⟩) rfl rfl
    cases r with
    | error e => exact dropped_ends hown''
    | ok _ =>
      simp only [bind_done, bind_apply]
      apply safe_bind
      apply safe_mono _ (recvFd_owned hown'')
      intro t _ r hr
      obtain ⟨hcalls, hgot⟩ := hr
      refine ⟨fun hfresh => Set.singleton_subset_iff.mpr (hgot hfresh).mem, fun u => ?_⟩
      -- the channel goes, and what `recv_fd` has left open stays
      have hclosed : descriptors.Fresh {channel} (t ++ [⟨.socket (.close channel), u⟩]) →
          FdReceipt channel t (descriptors.held {channel} t) r ∧
          descriptors.held {channel} (t ++ [⟨.socket (.close channel), u⟩]) =
            descriptors.held {channel} t \ {channel} :=
        fun hfresh => ⟨hgot (Discipline.fresh_append.mp hfresh).1, Discipline.held_concat rfl⟩
      cases r with
      | error e =>
        intro hfresh
        obtain ⟨hreceived, hheld⟩ := hclosed hfresh
        cases hreceived with
        | error h => exact .closed (by rw [hheld, h]; exact sdiff_self)
      | ok x =>
        obtain ⟨data, _ | fd⟩ := x
        · intro hfresh
          obtain ⟨hreceived, hheld⟩ := hclosed hfresh
          cases hreceived with
          | none h => exact .closed (by rw [hheld, h]; exact sdiff_self)
          | leaked hmem htrunc h hnew =>
            refine .leaked (List.mem_append_left _ hmem) htrunc ?_
            rw [hheld, h, Set.union_sdiff_left, sdiff_eq_left]
            exact Set.disjoint_singleton_right.mpr hnew
        · apply servePassedFd_ends
          · intro hfresh
            obtain ⟨hreceived, hheld⟩ := hclosed hfresh
            cases hreceived with
            | fd h hnew =>
              rw [hheld, h, Set.insert_eq, Set.union_sdiff_left, sdiff_eq_left]
              exact Set.disjoint_singleton.mpr hnew
          · rw [socketCalls_append, hcalls]
            exact ⟨rfl, rfl⟩

theorem ServerMode.task_ends (mode : ServerMode) (accepted : Fd) :
    Safe (descriptors.owner {accepted})
      (fun t' _ _ => descriptors.Fresh {accepted} t' → TaskEnds P {accepted} t')
      (mode.task P accepted ()) [] := by
  cases mode with
  | overSocket => exact serve_ends (fun _ => rfl) ⟨rfl, rfl⟩
  | fdPassing => exact handlePassedFd_ends accepted

end

/-! ### All tasks -/

/-- The tasks of a daemon and the descriptors that are open in its process. -/
abbrev Daemon := Pool TaskResp Fd Unit (Except Errno Unit)

/-- `accept` returns a descriptor of which the new task is the owner. -/
def ServerMode.Accepts (P : Primitives) (mode : ServerMode) (own : Set Fd)
    (task : Prog TaskResp Unit (Except Errno Unit)) : Prop :=
  ∃ accepted, own = {accepted} ∧ task = mode.task P accepted ()

/-- The runs of a server in a process that has `live` open when it starts. -/
abbrev Daemon.Reachable (P : Primitives) (mode : ServerMode) (live : Set Fd) : Daemon → Prop :=
  Pool.Reachable descriptors (mode.Accepts P) live

theorem ServerMode.Accepts.safe {P : Primitives} {mode : ServerMode} {own : Set Fd}
    {task : Prog TaskResp Unit (Except Errno Unit)} (h : mode.Accepts P own task) :
    Safe (descriptors.owner own) (fun t' _ _ => descriptors.Fresh own t' → TaskEnds P own t') task
      [] := by
  obtain ⟨accepted, rfl, rfl⟩ := h
  exact mode.task_ends accepted

/-- No task touches a descriptor of another one. -/
structure Daemon.Isolated (d : Daemon) : Prop where
  open_own : ∀ i a s o k, d.workers i = some a → a.prog = .call s o k →
    descriptors.uses o ⊆ a.holds descriptors ∧ descriptors.uses o ⊆ d.live
  apart : ∀ i j a b, i ≠ j → d.workers i = some a → d.workers j = some b →
    Disjoint (a.holds descriptors) (b.holds descriptors)

theorem Daemon.isolated {P : Primitives} {mode : ServerMode} {live : Set Fd} {d : Daemon}
    (h : Daemon.Reachable P mode live d) : d.Isolated := by
  have hapart := h.apart fun own p hp => ServerMode.Accepts.safe hp
  refine ⟨fun i a s o k hi hcall => ?_, hapart.disjoint⟩
  have hok := hapart.ok i a hi
  have howns := hok.owns (fun own p hp => ServerMode.Accepts.safe hp) hcall
  exact ⟨howns, howns.trans hok.live⟩

/-! A task whose channel is descriptor 5 gets descriptor 7. -/

def passedCalls : TaskTr :=
  [⟨.socket (.intoStd 5), .ok ()⟩, ⟨.setNonblocking 5 false, .ok ()⟩,
    ⟨.channel 5 .recvmsg, .ok onePassed⟩]

/-- No policy is configured. -/
def refusedCalls : TaskTr :=
  [⟨.socket (.close 5), ()⟩, ⟨.setNonblocking 7 true, .ok ()⟩, ⟨.fromStd 7, .ok ()⟩,
    ⟨.socket .resolvePolicy, none⟩, ⟨.socket (.close 7), ()⟩]

/-- What `handle_passed_fd` does once it has descriptor 7. -/
def passedNode (P : Primitives) : Prog TaskResp Unit (Except Errno Unit) :=
  (do perform (TaskOp.socket (.close 5)); servePassedFd P 7 : TaskAct (Except Errno Unit)) ()

theorem passedNode_at (P : Primitives) : At (handlePassedFd P 5 ()) passedCalls (passedNode P) := by
  have hrecv : At (recvFd ()) [⟨.recvmsg, .ok onePassed⟩] (.done () (.ok ([0], some 7))) := by
    apply recvFd_at
    rw [takeFd_whole (by decide)]
    exact .refl
  have hchannel : At (overChannel 5 recvFd ()) [⟨.channel 5 .recvmsg, .ok onePassed⟩]
      (.done () (.ok ([0], some 7))) :=
    @At.lift _ _ _ _ TaskResp (TaskOp.channel 5) _ _ _ hrecv
  exact .head (.head (hchannel.bind _))

theorem refused_at (P : Primitives) : At (passedNode P) refusedCalls (.done () (.ok ())) :=
  .head (.head (.head (.head (.head .refl))))

theorem rawFds_onePassed : rawFds onePassed.installed = {7} := by
  ext x
  have hraw : rawFd 7 = 7 := by decide
  simp [rawFds, onePassed, Delivery.installed, Control.fds, hraw, eq_comm]

theorem passed_held (live : Set Fd) : descriptors.held live passedCalls = live ∪ {7} := by
  simp [passedCalls, Discipline.held, Discipline.after, descriptors, sockets, rawFds_onePassed]

theorem passed_fresh {live : Set Fd} (h : 7 ∉ live) : descriptors.Fresh live passedCalls := by
  simp [passedCalls, Discipline.Fresh, Discipline.after, descriptors, sockets, rawFds_onePassed, h]

/-- Descriptor 7 has come, and a second channel was accepted as descriptor 9. -/
theorem Daemon.isolated_passing : ∃ d a b, Daemon.Reachable specimen .fdPassing {3} d ∧
    d.workers 0 = some a ∧ d.workers 1 = some b ∧ a.holds descriptors = {5, 7} ∧
    b.holds descriptors = {9} ∧ d.Isolated := by
  have hstart : Daemon.Reachable specimen .fdPassing {3} ⟨{3}, fun _ => none⟩ := .start
  have hfirst := hstart.spawn_run (i := 0) rfl ⟨5, rfl, rfl⟩ (by simp) (passedNode_at specimen)
    (passed_fresh (by simp))
  have hsecond := hfirst.spawn_run (i := 1) rfl ⟨9, rfl, rfl⟩ (by simp [Pool.put, passed_held])
    .refl trivial
  refine ⟨_, _, _, hsecond, rfl, rfl, ?_, rfl, Daemon.isolated hsecond⟩
  exact passed_held {5}

/-- Every task that is not waiting has ended, and of what it had open only a socket in the hands
of kernel TLS is left, or what a truncated message has brought. -/
theorem Daemon.task_settled {P : Primitives} {mode : ServerMode} {live : Set Fd} {d : Daemon}
    (h : Daemon.Reachable P mode live d) {i : ℕ}
    {a : Worker TaskResp Fd Unit (Except Errno Unit)} (hi : d.workers i = some a)
    (hidle : ∀ s o k, a.prog ≠ .call s o k) :
    (∃ r, a.prog = .done () r) ∧ TaskEnds P a.own a.trace := by
  have hapart := h.apart fun own p hp => ServerMode.Accepts.safe hp
  have hok := hapart.ok i a hi
  have hnode := safe_at (ServerMode.Accepts.safe hok.spawned) hok.ran
  cases hprog : a.prog with
  | done s r =>
    rw [hprog] at hnode
    exact ⟨⟨r, rfl⟩, hnode hok.fresh⟩
  | call s o k => exact absurd hprog (hidle s o k)
  | cut s =>
    rw [hprog] at hnode
    cases hnode

theorem refused_held (live : Set Fd) :
    descriptors.held live refusedCalls = (live \ {5}) \ {7} := by
  simp [refusedCalls, Discipline.held, Discipline.after, descriptors, sockets]

theorem refused_fresh (live : Set Fd) : descriptors.Fresh live refusedCalls := by
  simp [refusedCalls, Discipline.Fresh, descriptors]

/-- Descriptor 7 is closed although nothing was negotiated on it. -/
theorem Daemon.task_settled_refused : ∃ d a, Daemon.Reachable specimen .fdPassing {3} d ∧
    d.workers 0 = some a ∧ a.prog = .done () (.ok ()) ∧ a.holds descriptors = ∅ ∧
    TaskEnds specimen a.own a.trace := by
  have hstart : Daemon.Reachable specimen .fdPassing {3} ⟨{3}, fun _ => none⟩ := .start
  have hdone := hstart.spawn_run (i := 0) rfl ⟨5, rfl, rfl⟩ (by simp)
    ((passedNode_at specimen).trans (refused_at specimen))
    (Discipline.fresh_append.mpr ⟨passed_fresh (by simp), refused_fresh _⟩)
  refine ⟨_, _, hdone, rfl, rfl, ?_, (Daemon.task_settled hdone (i := 0) rfl nofun).2⟩
  rw [Worker.holds, Discipline.held_append, passed_held, refused_held]
  simp

end SyntriassOverlay
