import SyntriassOverlay.Records
import SyntriassOverlay.Schedule

/-!
# What goes out on the wire

The bytes a session hands to the kernel follow a fixed grammar: one handshake
frame, then one data frame for each record that `overlay_send` has sealed, in
order. The invariant behind it accounts for every byte: what was sent, what is in
the backlog and the record that is about to be queued are together exactly the
frames made so far.
-/

namespace SyntriassOverlay
open Crypto Resumption

/-- The frame with which a responder answers; an initiator activates silently. -/
def Origin.reply : Origin → Bytes
  | .respond suite _ _ _ reply => frameBytes suite.id typeServerHello reply
  | .fallbackRespond _ _ _ reply => frameBytes fallbackWireId typeFallbackFinished reply
  | .finish _ _ _ | .fallbackFinish _ _ => []

def replies (t : Tr) : Bytes := (activations t).flatMap fun a => a.2.reply

/-- The data frames of sealed records. -/
def dataFrames (suite : CipherSuite) (rs : List (Bytes × Bytes)) : Bytes :=
  rs.flatMap fun r => frameBytes suite.id typeData r.2

@[simp] theorem dataFrames_append (suite : CipherSuite) (rs rs' : List (Bytes × Bytes)) :
    dataFrames suite (rs ++ rs') = dataFrames suite rs ++ dataFrames suite rs' :=
  List.flatMap_append

/-- The frame of the record that waits to be queued. -/
def pending (suite : CipherSuite) (pd : Option Bytes) : Bytes :=
  pd.elim [] (frameBytes suite.id typeData)

section
variable {P : Primitives} {aside : Prop} {s₀ s : FdState} {t : Tr} {pd : Option Bytes}

/-- The reply an activation queues is the one its origin names. -/
theorem Activation.reply {f : ParsedFrame} {keys : SessionKeys} {origin : Origin}
    {pre : Tr} {fr : Bytes} (h : Activation P s f keys origin pre fr) : fr = origin.reply := by
  cases h with
  | respond _ _ _ _ hframe => exact (frame_eq_some.mp hframe).2
  | fallbackRespond _ _ _ _ hframe => exact (frame_eq_some.mp hframe).2
  | finish | fallbackFinish => rfl

/-- Everything that was made for the wire so far. -/
def made (s₀ : FdState) (t : Tr) : Bytes :=
  s₀.txBacklog ++ replies t ++ dataFrames s₀.policySuite (records t)

/-- The account of the outgoing bytes of a session: while it lives every byte
made is sent, queued or about to be queued. -/
structure WireAccount (s₀ : FdState) (t : Tr) (s : FdState) (pd : Option Bytes) : Prop where
  suite : s.policySuite = s₀.policySuite
  alive : s.phase ≠ .failed →
    sentBytes t ++ s.txBacklog ++ pending s₀.policySuite pd = made s₀ t
  sent_le : sentBytes t <+: made s₀ t

theorem made_append_inert {u : Tr} (hr : records u = []) (ha : activations u = []) :
    made s₀ (t ++ u) = made s₀ t := by
  simp [made, replies, hr, ha]

theorem WireAccount.keep {u : Tr} (h : WireAccount s₀ t s pd) {s' : FdState}
    (hsuite : s'.policySuite = s.policySuite) (htx : s'.txBacklog = s.txBacklog)
    (hlive : s'.phase ≠ .failed → s.phase ≠ .failed) (hsent : sentBytes u = [])
    (hr : records u = []) (ha : activations u = []) : WireAccount s₀ (t ++ u) s' pd := by
  refine ⟨hsuite.trans h.suite, fun hs' => ?_, ?_⟩
  · rw [sentBytes_append, hsent, List.append_nil, made_append_inert hr ha, htx]
    exact h.alive (hlive hs')
  · rw [sentBytes_append, hsent, List.append_nil, made_append_inert hr ha]
    exact h.sent_le

theorem WireAccount.close {u : Tr} (h : WireAccount s₀ t s pd) {s' : FdState}
    (hs : s'.phase = .failed) (hsuite : s'.policySuite = s.policySuite) (hsent : sentBytes u = [])
    (hr : records u = []) (ha : activations u = []) : WireAccount s₀ (t ++ u) s' none := by
  refine ⟨hsuite.trans h.suite, fun hlive => absurd hs hlive, ?_⟩
  rw [sentBytes_append, hsent, List.append_nil, made_append_inert hr ha]
  exact h.sent_le

theorem History.wire (h : History P aside s₀ t s pd) : WireAccount s₀ t s pd := by
  induction h with
  | start => exact ⟨rfl, fun _ => by simp [made, sentBytes, pending, replies, activations, records,
      dataFrames], by simp [sentBytes]⟩
  | quiet _ o ho r ih =>
    have hi := Op.inert_of_quiet ho r
    exact ih.keep rfl rfl id hi.sent hi.records hi.activations
  | @sent t s pd _ hphase flags n hn ih =>
    have hmade : made s₀ (t ++ [⟨.send s.txBacklog flags, .sent n hn⟩]) = made s₀ t :=
      made_append_inert rfl rfl
    have hsent : sentBytes (t ++ [⟨.send s.txBacklog flags, .sent n hn⟩]) =
        sentBytes t ++ s.txBacklog.take n := by
      rw [sentBytes_append]
      exact congrArg _ (List.append_nil _)
    have hall := ih.alive hphase
    refine ⟨ih.suite, fun _ => ?_, ?_⟩
    · rw [hsent, hmade, ← hall, List.append_assoc (sentBytes t), List.take_append_drop]
    · rw [hsent, hmade, ← hall, List.append_assoc, List.prefix_append_right_inj]
      exact (List.take_prefix n _).trans (List.prefix_append _ _)
  | stalled _ _ _ _ r hr ih =>
    refine ih.keep rfl rfl id ?_ rfl rfl
    cases r with
    | sent n hn => exact absurd rfl (hr n hn)
    | zero | error e => rfl
  | pulled _ _ _ _ _ _ _ _ ih => exact ih.keep rfl rfl id rfl rfl rfl
  | unread _ _ _ _ _ _ ih => exact ih.keep rfl rfl id rfl rfl rfl
  | @activated t s f rest keys origin pre fr h hpop ha ih =>
    obtain ⟨-, hrec, hact⟩ := h.handshaking_untouched ha.handshaking
    have hi := ha.inert
    have hsent : sentBytes (t ++ noted (.popped f) :: pre ++ activateSeg s keys origin) =
        sentBytes t := by simp [hi.sent]
    have hmade : made s₀ (t ++ noted (.popped f) :: pre ++ activateSeg s keys origin) =
        made s₀ t ++ fr := by
      rw [ha.reply]
      simp [made, replies, hrec, hact, hi.records, hi.activations, dataFrames]
    refine ⟨ih.suite, fun _ => ?_, ?_⟩
    · have hall := ih.alive (FdPhase.ne_failed_of_handshaking ha.handshaking)
      rw [hsent, hmade, ← hall]
      simp [pending]
    · rw [hsent, hmade]
      exact ih.sent_le.trans (List.prefix_append _ _)
  | rejected _ _ _ hr ih =>
    have hi := hr.inert
    rw [List.append_assoc]
    exact ih.close rfl rfl (by simp [hi.sent]) (by simp [hi.records]) (by simp [hi.activations])
  | opened _ hphase _ _ _ _ _ ih =>
    exact ih.keep rfl rfl (fun _ => by simp [hphase]) rfl rfl rfl
  | refused _ _ _ hr ih =>
    have hi := hr.inert
    rw [List.append_assoc]
    exact ih.close rfl rfl (by simp [hi.sent]) (by simp [hi.records]) (by simp [hi.activations])
  | delivered _ _ _ ih => exact ih.keep rfl rfl id rfl rfl rfl
  | @sealed t s keys keys' chunk ct _ hphase _ _ ih =>
    have hmade : made s₀ (t ++ [noted (.sealed .record keys.tx.key
        (nonceFromCounter keys.tx.counter) chunk ct)]) =
        made s₀ t ++ frameBytes s₀.policySuite.id typeData ct := by
      simp [made, replies, records, activations, Ev.record, Ev.activation, dataFrames]
    refine ⟨ih.suite, fun _ => ?_, ?_⟩
    · rw [hmade, ← ih.alive (by simp [hphase])]
      simp [sentBytes, Ev.sent, pending]
    · rw [hmade, sentBytes_append]
      exact List.IsPrefix.trans (by simpa [sentBytes, Ev.sent] using ih.sent_le)
        (List.prefix_append _ _)
  | @queued t s ct f _ hphase hframe _ ih =>
    have hf := (frame_eq_some.mp hframe).2
    have hmade : made s₀ (t ++ [noted (.queued f)]) = made s₀ t := made_append_inert rfl rfl
    have hsent : sentBytes (t ++ [noted (.queued f)]) = sentBytes t := by
      rw [sentBytes_append]
      exact List.append_nil _
    refine ⟨ih.suite, fun _ => ?_, by rw [hsent, hmade]; exact ih.sent_le⟩
    have hall := ih.alive hphase
    rw [hsent, hmade, ← hall, hf, ih.suite]
    simp [pending]
  | failed _ _ ih => exact ih.close rfl rfl (by simp) (by simp) (by simp)
  | flooded _ _ _ _ _ _ _ _ _ ih =>
    rw [List.append_assoc]
    exact ih.close rfl rfl (by simp) (by simp) (by simp)
  | restamped _ _ _ ih => exact ih.keep rfl rfl id rfl rfl rfl
  | retired _ _ _ _ ih => exact ih.close rfl rfl (by simp) (by simp) (by simp)

/-- Every activation in a trace is a step of the session, taken in the phase and with
the policy it started with, and the only one. -/
theorem Between.activated (h : Between P aside s₀ t) {keys : SessionKeys} {origin : Origin}
    (ha : (keys, origin) ∈ activations t) :
    activations t = [(keys, origin)] ∧
      ∃ (s : FdState) (f : ParsedFrame) (pre : Tr) (reply : Bytes),
        Activation P s f keys origin pre reply ∧ noted (.popped f) :: pre <:+: t ∧
        s.phase = s₀.phase ∧ s.policySuite = s₀.policySuite := by
  obtain ⟨t₀, u, s, pd, rfl, hh, hu⟩ := h
  rw [activations_append, hu.silent.activations, List.append_nil] at ha ⊢
  cases hh.beginning with
  | none hnone =>
    rw [hnone] at ha
    cases ha
  | once hone hact =>
    obtain ⟨act⟩ := hact
    rw [hone, List.mem_singleton] at ha
    cases ha
    refine ⟨hone, act.state, act.frame, act.pre, act.reply, act.activation, ?_, ?_, ?_⟩
    · have hin : noted (.popped act.frame) :: act.pre <:+:
          act.before ++ noted (.popped act.frame) :: act.pre ++
            activateSeg act.state keys origin := List.infix_append _ _ _
      exact (hin.trans act.within.isInfix).trans (List.prefix_append _ _).isInfix
    · exact (act.history.handshaking_untouched act.activation.handshaking).1
    · exact act.history.wire.suite

/-! ### The grammar of a session of a process -/

/-- The handshake frames that a session with a role may send, as the crypto
engines make them. -/
inductive HandshakeFrame (P : Primitives) : Role → Bytes → Prop
  | clientHello {suite : CipherSuite} {identity : IdentityMaterial} {eph : Ephemeral}
      {state : InitiatorState} {hello : Bytes}
      (h : suite.beginInitiator P identity eph = .ok (state, hello)) :
      HandshakeFrame P .initiator (frameBytes suite.id typeClientHello hello)
  | fallbackHello (nonce : ByteArr 16) :
      HandshakeFrame P .initiator (frameBytes fallbackWireId typeFallbackHello nonce.val)
  | serverHello {suite : CipherSuite} {identity : IdentityMaterial} {hello : Bytes}
      {eph : Ephemeral} {keys : SessionKeys} {reply : Bytes}
      (h : suite.respond P identity hello eph = .ok (keys, reply)) :
      HandshakeFrame P .responder (frameBytes suite.id typeServerHello reply)
  | fallbackFinished {psk : ByteArr 32} {hello : Bytes} {nonce : ByteArr 16} {keys : SessionKeys}
      {reply : Bytes} (h : fallbackRespond P psk hello nonce = .ok (keys, reply)) :
      HandshakeFrame P .responder (frameBytes fallbackWireId typeFallbackFinished reply)

/-- What was made for the wire follows the grammar of a role. -/
def Grammatical (P : Primitives) (role : Role) (s₀ : FdState) (t : Tr) : Prop :=
  (made s₀ t = [] ∧ records t = []) ∨
    ∃ hello, HandshakeFrame P role hello ∧
      made s₀ t = hello ++ dataFrames s₀.policySuite (records t)

/-- The reply of an activation, by the phase in which it happens. -/
theorem Activation.reply_frame {f : ParsedFrame} {keys : SessionKeys} {origin : Origin} {pre : Tr}
    {fr : Bytes} (h : Activation P s f keys origin pre fr) :
    if s.phase = .responderAwaitingClientHello then HandshakeFrame P .responder origin.reply
    else origin.reply = [] := by
  cases h with
  | respond hphase _ _ hrun => simpa [hphase, Origin.reply] using HandshakeFrame.serverHello hrun
  | fallbackRespond _ hphase _ hrun =>
    simpa [hphase, Origin.reply] using HandshakeFrame.fallbackFinished hrun
  | finish hphase => simp [hphase, Origin.reply]
  | fallbackFinish hphase => simp [hphase, Origin.reply]

/-- A session that starts failed makes nothing, a responder makes its reply when it
is activated, and an initiator was built with its hello and makes no reply. -/
theorem History.grammatical {role : Role} {c : Tr} (h : History P aside s₀ t s pd)
    (ho : Opening P c s₀ role) : Grammatical P role s₀ t := by
  cases h.beginning with
  | none ha =>
    have hrec := (h.inactive_records ho.inactive ha).1
    have hmade : made s₀ t = s₀.txBacklog := by simp [made, replies, ha, hrec, dataFrames]
    cases ho with
    | failed _ htx | responder _ htx => exact .inl ⟨hmade.trans htx, hrec⟩
    | hybrid _ hrun hframe =>
      exact .inr ⟨_, .clientHello hrun,
        by simp [hmade, hrec, dataFrames, (frame_eq_some.mp hframe).2]⟩
    | @fallback psk psk' nonce _ hframe =>
      exact .inr ⟨_, .fallbackHello nonce,
        by simp [hmade, hrec, dataFrames, (frame_eq_some.mp hframe).2]⟩
  | @once keys origin ha hact =>
    obtain ⟨a⟩ := hact
    have hhs := a.activation.handshaking
    have hfr := a.activation.reply_frame
    rw [(a.history.handshaking_untouched hhs).1] at hfr hhs
    have hmade : made s₀ t = s₀.txBacklog ++ origin.reply ++
        dataFrames s₀.policySuite (records t) := by simp [made, replies, ha]
    cases ho with
    | failed hp => rw [hp] at hhs; cases hhs
    | responder hp htx =>
      rw [if_pos hp] at hfr
      exact .inr ⟨_, hfr, by rw [hmade, htx, List.nil_append]⟩
    | hybrid hp hrun hframe =>
      rw [if_neg (by simp [hp])] at hfr
      exact .inr ⟨_, .clientHello hrun,
        by rw [hmade, hfr, List.append_nil, (frame_eq_some.mp hframe).2]⟩
    | @fallback psk psk' nonce hp hframe =>
      rw [if_neg (by simp [hp])] at hfr
      exact .inr ⟨_, .fallbackHello nonce,
        by rw [hmade, hfr, List.append_nil, (frame_eq_some.mp hframe).2]⟩

theorem Between.grammatical {role : Role} {c : Tr} (h : Between P aside s₀ t)
    (ho : Opening P c s₀ role) : Grammatical P role s₀ t ∧ sentBytes t <+: made s₀ t := by
  obtain ⟨t₀, u, s, pd, rfl, hh, hu⟩ := h
  have hmade : made s₀ (t₀ ++ u) = made s₀ t₀ :=
    made_append_inert hu.silent.records hu.silent.activations
  have hrec : records (t₀ ++ u) = records t₀ := by simp [hu.silent.records]
  refine ⟨?_, ?_⟩
  · have hg := hh.grammatical ho
    rwa [Grammatical, hmade, hrec]
  · rw [sentBytes_append, hu.silent.sent, List.append_nil, hmade]
    exact hh.wire.sent_le

end

/-- The buffer of a `send` that the kernel has not answered yet. -/
def pendingSend : Status Resp FdCall FdState FdRet → Bytes
  | .busy _ (.call _ (.send buf _) _) => buf
  | _ => []

/-- Everything a session has handed to the real `send`: what the kernel took, and
what it is offered at the moment. -/
def Session.handed (se : Session) : Bytes := sentBytes se.trace ++ pendingSend se.status

section
variable {P : Primitives} {pid : Pid} {se : Session}

/-- The offered bytes are the backlog, so they continue what was sent. -/
theorem Session.Ok.handed_le (h : se.Ok P pid) (hown : se.inherited = false)
    (hholder : se.holder ≠ some .gone) : se.handed <+: made se.start se.trace := by
  obtain ⟨pre, c, -, hf, ho⟩ := h.opening hown
  have hsent := ((h.between hown hholder).grammatical ho).2
  have hheld := h.held hown hholder
  rw [Session.handed]
  rcases hstatus : se.status with s | ⟨call, ⟨s, a⟩ | ⟨s, o, k⟩ | s⟩
  · simpa [pendingSend] using hsent
  · simpa [pendingSend] using hsent
  · cases o with
    | send buf flags =>
      rw [hstatus] at hheld
      obtain ⟨hlive, hbuf, -, pd, -, hh⟩ := hheld.1
      rw [← hh.wire.alive hlive, pendingSend, hbuf]
      exact List.prefix_append _ _
    | _ => simpa [pendingSend] using hsent
  · simpa [pendingSend] using hsent

theorem dataFrames_records (suite : CipherSuite) (t : Tr) : dataFrames suite (records t) =
    (recordSeals t).flatMap fun x => frameBytes suite.id typeData x.ct := by
  rw [records_eq_recordSeals, dataFrames, List.flatMap_map]

end

/-- What a session of a role may hand to the kernel: nothing, or the beginning of
one handshake frame and the data frames of the records that `overlay_send` has
sealed, one after the other with one key. -/
structure Session.Conforms (P : Primitives) (se : Session) : Prop where
  sealed : ∃ d d', SealRun P d (seals se.trace) d'
  handed : (se.handed = [] ∧ recordSeals se.trace = []) ∨
    ∃ (hello : Bytes) (suite : CipherSuite), HandshakeFrame P se.role hello ∧
      se.handed <+: hello ++
        (recordSeals se.trace).flatMap fun x => frameBytes suite.id typeData x.ct

theorem Session.Ok.conforms {P : Primitives} {pid : Pid} {se : Session} (h : se.Ok P pid)
    (hown : se.inherited = false) (hholder : se.holder ≠ some .gone) : se.Conforms P := by
  have hbetween := h.between hown hholder
  obtain ⟨pre, c, -, hf, ho⟩ := h.opening hown
  refine ⟨?_, ?_⟩
  · rcases hbetween.sealRun with hnone | ⟨d₀, d, -, hrun⟩
    · rw [hnone]
      exact ⟨⟨List.Vector.replicate 32 0, 0⟩, _, .nil⟩
    · exact ⟨d₀, d, hrun⟩
  · have hle := h.handed_le hown hholder
    rcases (hbetween.grammatical ho).1 with ⟨hmade, hrec⟩ | ⟨hello, hhello, hmade⟩
    · rw [hmade, List.prefix_nil] at hle
      rw [records_eq_recordSeals, List.map_eq_nil_iff] at hrec
      exact .inl ⟨hle, hrec⟩
    · rw [hmade, dataFrames_records] at hle
      exact .inr ⟨hello, se.start.policySuite, hhello, hle⟩

/-- In every reachable state of a process with interposition, every session has
handed the kernel only what its role may say, and a hook that was told that a
descriptor is a stream socket makes no call that would carry bytes to it. -/
theorem Process.wire_grammar {P : Primitives} {pid : Pid} {p : Process}
    (hp : Process.Reachable P (Process.initial pid true) p) :
    (∀ se ∈ p.sessions, se.Conforms P) ∧
      ∀ th fd, p.Ran th → (∀ r, (⟨.soType fd, r⟩ : Ev HookResp) ∈ th.trace → r = some sockStream) →
        ∀ c, th.Invokes c → fd ∉ c.egress := by
  have hok := hp.ok (Process.initial_ok pid)
  refine ⟨fun se hmem => ?_, fun th fd hth hstream c hc hfd => ?_⟩
  · obtain ⟨hown, hholder⟩ := hp.own se hmem
    exact (hok.sessions se hmem).conforms hown hholder
  · obtain ⟨r, hmem, hr⟩ := (hok.ran hth).cleared hc hfd
    exact hr (hstream r hmem)

/-- A client that has sent its hello in two pieces and one record. -/
theorem Process.wire_grammar_fallbackClient :
    ((fallbackClient [10, 100, 5, 1000]).1.sessions.map fun se =>
      (se.handed.length, (recordSeals se.trace).length)) = [(46, 1)] ∧
    (∀ se ∈ (fallbackClient [10, 100, 5, 1000]).1.sessions, se.Conforms specimen) ∧
      ∀ th fd, (fallbackClient [10, 100, 5, 1000]).1.Ran th →
        (∀ r, (⟨.soType fd, r⟩ : Ev HookResp) ∈ th.trace → r = some sockStream) →
        ∀ c, th.Invokes c → fd ∉ c.egress :=
  ⟨by decide +kernel, Process.wire_grammar (fallbackClient_reachable _)⟩

end SyntriassOverlay
