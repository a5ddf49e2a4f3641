import SyntriassOverlay.Conservation
import SyntriassOverlay.Integrity
import SyntriassOverlay.Posture

/-!
# Sessions among an active attacker

Any number of sessions in any number of processes, on a network that belongs to the
attacker: it delivers to each session whatever bytes it likes. The handshake and the
record layer are each sound on their own; here they are put together. What a session
has delivered to its application was sent by the application of one other session, in
the other role, at the other end of the same handshake.
-/

namespace SyntriassOverlay
open Crypto Resumption

/-! ### What the keys of a session are derived from -/

namespace Origin

def initiates : Origin → Bool
  | .finish _ _ _ | .fallbackFinish _ _ => true
  | .respond _ _ _ _ _ | .fallbackRespond _ _ _ _ => false

def identity : Origin → Option IdentityMaterial
  | .finish _ identity _ | .respond _ identity _ _ _ => some identity
  | .fallbackFinish _ _ | .fallbackRespond _ _ _ _ => none

/-- The two messages of the handshake, as far as they go into the keys. -/
def exchange : Origin → Bytes × Bytes
  | .respond _ _ hello _ reply => (hello, reply)
  | .finish state _ serverHello => (state.inner.clientHello, serverHello)
  | .fallbackRespond _ hello nonce _ => (hello, nonce.val)
  | .fallbackFinish state finished => (state.clientNonce.val, finished.take fallbackNonceLen)

/-- What is hashed into the key schedule. -/
def transcript : Origin → Bytes
  | .respond suite _ hello _ reply => transcriptMessage suite.id hello reply
  | .finish state _ serverHello =>
    transcriptMessage state.inner.suiteId state.inner.clientHello serverHello
  | .fallbackRespond _ hello nonce _ => fallbackTranscript hello nonce.val
  | .fallbackFinish state finished =>
    fallbackTranscript state.clientNonce.val (finished.take fallbackNonceLen)

/-- The transcript has the lengths that `respond` and `finish` check. -/
inductive Formed (o : Origin) : Prop
  | hybrid (suite : CipherSuite) (hf : o.fallback = false)
      (ht : o.transcript = transcriptMessage suite.id o.exchange.1 o.exchange.2)
      (hlen : o.exchange.1.length = helloLen suite.ekLen)
  | fallback (hf : o.fallback = true)
      (ht : o.transcript = fallbackTranscript o.exchange.1 o.exchange.2)
      (hlen : o.exchange.1.length = fallbackNonceLen)

end Origin

theorem transcriptMessage_ne_fallbackTranscript (s : UInt8) (h u n m : Bytes) :
    transcriptMessage s h u ≠ fallbackTranscript n m := by
  intro heq
  have hkeys : (transcriptMessage s h u)[18]? = some 0x74 := by
    rw [transcriptMessage, List.append_assoc, List.append_assoc]
    exact Transcript.getElem?_label (by decide +kernel) _
  have hpsk : (fallbackTranscript n m)[18]? = some 0x70 := by
    rw [fallbackTranscript, List.append_assoc]
    exact Transcript.getElem?_label (by decide +kernel) _
  rw [heq, hpsk] at hkeys
  exact absurd hkeys (by decide)

theorem Origin.Formed.inj {o o' : Origin} (h : o.Formed) (h' : o'.Formed)
    (heq : o.transcript = o'.transcript) : o.exchange = o'.exchange ∧ o.fallback = o'.fallback := by
  cases h with
  | hybrid suite hf ht hlen =>
    cases h' with
    | hybrid suite' hf' ht' hlen' =>
      rw [ht, ht'] at heq
      obtain ⟨-, hhello, hreply⟩ := transcriptMessage_inj heq fun hid => by
        rw [hlen, hlen', CipherSuite.id_injective hid]
      exact ⟨Prod.ext hhello hreply, hf.trans hf'.symm⟩
    | fallback hf' ht' =>
      rw [ht, ht'] at heq
      exact absurd heq (transcriptMessage_ne_fallbackTranscript _ _ _ _ _)
  | fallback hf ht hlen =>
    cases h' with
    | hybrid suite' hf' ht' =>
      rw [ht, ht'] at heq
      exact absurd heq.symm (transcriptMessage_ne_fallbackTranscript _ _ _ _ _)
    | fallback hf' ht' hlen' =>
      rw [ht, ht'] at heq
      simp only [fallbackTranscript, List.append_assoc] at heq
      obtain ⟨hhello, hreply⟩ :=
        List.append_inj (List.append_cancel_left heq) (hlen.trans hlen'.symm)
      exact ⟨Prod.ext hhello hreply, hf.trans hf'.symm⟩

/-- The key of one direction: of the bytes the initiator sends, or of those it gets. -/
def trafficKey (P : Primitives) (ikm : Bytes) (suiteId : UInt8) (transcript : Bytes)
    (fromInitiator : Bool) : ByteArr 32 :=
  let keys := scheduledKeys P ikm suiteId (P.sha256 transcript)
  if fromInitiator then keys.tx.key else keys.rx.key

/-- The keys with which an activation leaves a session. Its first counters depend only on
who has sealed and opened the confirmation of the fallback. -/
structure Origin.Keys (P : Primitives) (o : Origin) (keys : SessionKeys) : Prop where
  schedule : ∃ ikm suiteId, keys.tx.key = trafficKey P ikm suiteId o.transcript o.initiates ∧
    keys.rx.key = trafficKey P ikm suiteId o.transcript (!o.initiates)
  tx_counter : keys.tx.counter = if o.fallback && !o.initiates then 1 else 0
  rx_counter : keys.rx.counter = if o.fallback && o.initiates then 1 else 0

theorem fallbackRespond_keys {P : Primitives} {psk : ByteArr 32} {hello reply : Bytes}
    {nonce : ByteArr 16} {keys : SessionKeys}
    (h : fallbackRespond P psk hello nonce = .ok (keys, reply)) :
    (Origin.fallbackRespond psk hello nonce reply).Keys P keys := by
  obtain ⟨-, ct, hseal, -⟩ := fallbackRespond_eq_ok.mp h
  obtain ⟨-, -, rfl, -⟩ := SessionKeys.seal_eq_ok.mp hseal
  exact ⟨⟨psk.val, 0xFF, rfl, rfl⟩, rfl, rfl⟩

theorem Activation.keys {P : Primitives} {s : FdState} {f : ParsedFrame} {keys : SessionKeys}
    {origin : Origin} {pre : Tr} {fr : Bytes} (h : Activation P s f keys origin pre fr) :
    origin.Keys P keys := by
  cases h with
  | respond _ _ _ hrun =>
    obtain ⟨client, server, ss, hhello, rfl, hr⟩ := suiteRespond_eq_ok.mp hrun
    rw [hr.keys, hhello]
    exact ⟨⟨_, _, rfl, rfl⟩, rfl, rfl⟩
  | fallbackRespond _ _ _ hrun => exact fallbackRespond_keys hrun
  | finish _ _ _ hrun =>
    obtain ⟨server, ss, hreply, hc⟩ := suiteFinish_eq_ok.mp hrun
    rw [hc.keys, hreply]
    exact ⟨⟨_, _, rfl, rfl⟩, rfl, rfl⟩
  | fallbackFinish _ _ hrun =>
    obtain ⟨-, hopen⟩ := fallbackFinish_eq_ok.mp hrun
    obtain ⟨-, rfl, -⟩ := SessionKeys.open_eq_ok.mp hopen
    exact ⟨⟨_, _, rfl, rfl⟩, rfl, rfl⟩

/-! ### Records sealed and opened since the activation -/

theorem recordSeals_append (t u : Tr) : recordSeals (t ++ u) = recordSeals t ++ recordSeals u := by
  rw [recordSeals, seals_append, List.filter_append, recordSeals, recordSeals]

theorem recordSeals_eq_nil {t : Tr} (h : records t = []) : recordSeals t = [] := by
  rw [records_eq_recordSeals] at h
  exact List.map_eq_nil_iff.mp h

/-- What a frame carries that is opened with the keys of a session. -/
def ParsedFrame.ciphertext (f : ParsedFrame) : Option Bytes :=
  if f.tag = typeData then some f.payload
  else if f.tag = typeFallbackFinished then some (f.payload.drop fallbackNonceLen)
  else none

theorem ParsedFrame.ciphertext_data {f : ParsedFrame} (h : f.tag = typeData) :
    f.ciphertext = some f.payload := if_pos h

theorem ParsedFrame.ciphertext_finished {f : ParsedFrame} (h : f.tag = typeFallbackFinished) :
    f.ciphertext = some (f.payload.drop fallbackNonceLen) := by
  rw [ciphertext, h]
  rfl

/-- The records that a session with the keys `keys` has sealed and opened since it got them. -/
structure Carried (P : Primitives) (keys : SessionKeys) (t : Tr) (s : FdState) : Prop where
  settled : s.phase.handshaking = false
  sealed : ∃ d, SealRun P keys.tx (recordSeals t) d ∧ ∀ k, s.phase = .active k → k.tx = d
  opened : ∃ d, OpenRun P keys.rx (openings t) d ∧ ∀ k, s.phase = .active k → k.rx = d
  framed : ∀ x ∈ openings t, ∃ f ∈ pops t, f.ciphertext = some x.ct

/-- What a session has sealed on the way to its activation. -/
def Origin.confirms (keys : SessionKeys) : Origin → List Seal
  | .fallbackRespond _ _ _ reply =>
    [⟨.confirm, keys.tx.key, nonceFromCounter 0, fallbackConfirm, reply.drop fallbackNonceLen⟩]
  | .respond _ _ _ _ _ | .finish _ _ _ | .fallbackFinish _ _ => []

theorem Origin.confirms_key {keys : SessionKeys} {o : Origin} {x : Seal}
    (h : x ∈ o.confirms keys) : keys.tx.key = x.key := by
  cases o with
  | fallbackRespond psk hello nonce reply =>
    obtain rfl := List.mem_singleton.mp h
    rfl
  | respond | finish | fallbackFinish => cases h

theorem Origin.confirms_counter {P : Primitives} {keys : SessionKeys} {o : Origin}
    (hk : o.Keys P keys) {x : Seal} (h : x ∈ o.confirms keys) :
    x.nonce = nonceFromCounter 0 ∧ keys.tx.counter = 1 := by
  cases o with
  | fallbackRespond psk hello nonce reply =>
    obtain rfl := List.mem_singleton.mp h
    exact ⟨rfl, hk.tx_counter⟩
  | respond | finish | fallbackFinish => cases h

/-- The records of a session that started inactive. -/
inductive Traffic (P : Primitives) (t : Tr) (s : FdState) : Prop
  | before (hact : activations t = []) (hseal : recordSeals t = []) (hopen : openings t = [])
      (hs : ∀ k, s.phase ≠ .active k)
  | since {keys : SessionKeys} {origin : Origin} (hact : activations t = [(keys, origin)])
      (hall : seals t = origin.confirms keys ++ recordSeals t) (hc : Carried P keys t s)

section
variable {P : Primitives} {aside : Prop} {s₀ s s' : FdState} {t u : Tr} {pd : Option Bytes}
  {keys : SessionKeys}

theorem framed_append {x : Unseal} (h : ∃ f ∈ pops t, f.ciphertext = some x.ct) :
    ∃ f ∈ pops (t ++ u), f.ciphertext = some x.ct := by
  obtain ⟨f, hf, hct⟩ := h
  exact ⟨f, by rw [pops_append]; exact List.mem_append_left _ hf, hct⟩

theorem Carried.keep (h : Carried P keys t s) (hrec : records u = []) (hopen : openings u = [])
    (hhs : s'.phase.handshaking = false) (hs' : ∀ k, s'.phase = .active k → s.phase = .active k) :
    Carried P keys (t ++ u) s' := by
  have hseal' : recordSeals (t ++ u) = recordSeals t := by
    rw [recordSeals_append, recordSeals_eq_nil hrec, List.append_nil]
  have hopen' : openings (t ++ u) = openings t := by
    rw [openings_append, hopen, List.append_nil]
  obtain ⟨d, hseal, hd⟩ := h.sealed
  obtain ⟨e, hrun, he⟩ := h.opened
  refine ⟨hhs, ⟨d, by rwa [hseal'], fun k hk => hd k (hs' k hk)⟩,
    ⟨e, by rwa [hopen'], fun k hk => he k (hs' k hk)⟩, ?_⟩
  rw [hopen']
  exact fun x hx => framed_append (h.framed x hx)

theorem Traffic.keep (h : Traffic P t s) (hact : activations u = []) (hrec : records u = [])
    (hseal : s.phase.handshaking = false → seals u = []) (hopen : openings u = [])
    (hhs : s'.phase.handshaking = true → s.phase.handshaking = true)
    (hs' : ∀ k, s'.phase = .active k → s.phase = .active k) : Traffic P (t ++ u) s' := by
  have hact' : activations (t ++ u) = activations t := by
    rw [activations_append, hact, List.append_nil]
  have hseal' : recordSeals (t ++ u) = recordSeals t := by
    rw [recordSeals_append, recordSeals_eq_nil hrec, List.append_nil]
  cases h with
  | before ha hr ho hs =>
    refine .before (hact'.trans ha) (hseal'.trans hr) ?_ fun k hk => hs k (hs' k hk)
    rw [openings_append, ho, hopen, List.append_nil]
  | since ha hall hc =>
    refine .since (hact'.trans ha) ?_ (hc.keep hrec hopen ?_ hs')
    · rw [hseal', seals_append, hseal hc.settled, List.append_nil, hall]
    · by_contra hne
      have hold := hc.settled
      rw [hhs (by simpa using hne)] at hold
      cases hold

theorem Traffic.close (h : Traffic P t s) (hact : activations u = []) (hrec : records u = [])
    (hseal : s.phase.handshaking = false → seals u = []) (hopen : openings u = [])
    (hs' : s'.phase = .failed) : Traffic P (t ++ u) s' := by
  apply h.keep hact hrec hseal hopen
  · intro hh
    rw [hs'] at hh
    cases hh
  · intro k hk
    rw [hs'] at hk
    cases hk

/-- One more record opened, also if its plaintext then finds no room. -/
theorem Carried.open {k k' : SessionKeys} {f : ParsedFrame} {pt : Bytes} (h : Carried P keys t s)
    (hphase : s.phase = .active k) (htag : f.tag = typeData)
    (hopen : k.open P f.payload = .ok (k', pt)) (hrec : records u = []) (hpops : f ∈ pops u)
    (hopens : openings u = [⟨k.rx.key, nonceFromCounter k.rx.counter, f.payload, pt⟩])
    (hhs : s'.phase.handshaking = false) (hs' : ∀ j, s'.phase = .active j → j = k') :
    Carried P keys (t ++ u) s' := by
  obtain ⟨hc, rfl, hdec⟩ := SessionKeys.open_eq_ok.mp hopen
  obtain ⟨d, hseal, hd⟩ := h.sealed
  obtain ⟨e, hrun, he⟩ := h.opened
  obtain rfl := hd k hphase
  obtain rfl := he k hphase
  refine ⟨hhs, ⟨k.tx, ?_, fun j hj => by rw [hs' j hj]⟩,
    ⟨k.rx.advance, ?_, fun j hj => by rw [hs' j hj]⟩, ?_⟩
  · rwa [recordSeals_append, recordSeals_eq_nil hrec, List.append_nil]
  · rw [openings_append, hopens]
    exact hrun.snoc hc ⟨Direction.open_eq_ok.mpr ⟨hc, rfl, hdec⟩, rfl, rfl⟩
  · intro x hx
    rw [openings_append, hopens] at hx
    rcases List.mem_append.mp hx with hx | hx
    · exact framed_append (h.framed x hx)
    · obtain rfl := List.mem_singleton.mp hx
      exact ⟨f, by rw [pops_append]; exact List.mem_append_right _ hpops, f.ciphertext_data htag⟩

theorem Carried.seal {k : SessionKeys} {x : Seal} (h : Carried P keys t s)
    (hphase : s.phase = .active k) (hx : x.By P k.tx) (hseals : recordSeals u = [x])
    (hopen : openings u = []) (hs' : s'.phase = .active ⟨k.tx.advance, k.rx⟩) :
    Carried P keys (t ++ u) s' := by
  have hopen' : openings (t ++ u) = openings t := by
    rw [openings_append, hopen, List.append_nil]
  obtain ⟨d, hseal, hd⟩ := h.sealed
  obtain ⟨e, hrun, he⟩ := h.opened
  obtain rfl := hd k hphase
  obtain rfl := he k hphase
  refine ⟨by rw [hs']; rfl, ⟨k.tx.advance, ?_, ?_⟩, ⟨k.rx, by rwa [hopen'], ?_⟩, ?_⟩
  · rw [recordSeals_append, hseals]
    exact hseal.concat hx
  · intro j hj
    rw [hs'] at hj
    cases hj
    rfl
  · intro j hj
    rw [hs'] at hj
    cases hj
    rfl
  · rw [hopen']
    exact fun y hy => framed_append (h.framed y hy)

theorem Carried.none (hseal : recordSeals t = []) (hopen : openings t = [])
    (hs : s.phase = .active keys) : Carried P keys t s := by
  have hkeys : ∀ k, s.phase = .active k → k = keys := by
    intro k hk
    rw [hs] at hk
    cases hk
    rfl
  refine ⟨by rw [hs]; rfl, ⟨keys.tx, ?_, fun k hk => by rw [hkeys k hk]⟩,
    ⟨keys.rx, ?_, fun k hk => by rw [hkeys k hk]⟩, ?_⟩
  · rw [hseal]
    exact .nil
  · rw [hopen]
    exact .nil
  · rw [hopen]
    exact fun x hx => absurd hx List.not_mem_nil

/-- A step that only an active session takes. -/
theorem Traffic.active {k : SessionKeys} (h : Traffic P t s) (hphase : s.phase = .active k)
    (hact : activations u = []) (hseal : seals u = recordSeals u)
    (hstep : ∀ keys, Carried P keys t s → Carried P keys (t ++ u) s') : Traffic P (t ++ u) s' := by
  cases h with
  | before _ _ _ hs => exact absurd hphase (hs k)
  | since ha hall hc =>
    have hact' : activations (t ++ u) = activations t := by
      rw [activations_append, hact, List.append_nil]
    refine .since (hact'.trans ha) ?_ (hstep _ hc)
    rw [seals_append, hall, hseal, recordSeals_append, List.append_assoc]

theorem Activation.seals_eq {f : ParsedFrame} {origin : Origin} {pre : Tr} {fr : Bytes}
    (h : Activation P s f keys origin pre fr) : seals pre = origin.confirms keys := by
  cases h <;> rfl

theorem History.traffic (h : History P aside s₀ t s pd) (hs₀ : ∀ k, s₀.phase ≠ .active k) :
    Traffic P t s := by
  induction h with
  | start => exact .before rfl rfl rfl hs₀
  | quiet _ o ho r ih =>
    have hi := Op.inert_of_quiet ho r
    have hm := (Op.mute_inert (Op.mute_of_quiet ho) r).2
    exact ih.keep hi.activations hi.records (fun _ => hm) (Op.unread_of_quiet ho r).openings id
      fun _ hk => hk
  | sent _ _ _ _ _ ih | stalled _ _ _ _ _ _ ih | pulled _ _ _ _ _ _ _ _ ih
  | unread _ _ _ _ _ _ ih | delivered _ _ _ ih | queued _ _ _ _ ih | restamped _ _ _ ih =>
    exact ih.keep rfl rfl (fun _ => rfl) rfl id fun _ hk => hk
  | @activated t s f rest keys origin pre fr h _ ha ih =>
    cases ih with
    | since _ _ hc =>
      have hhs := hc.settled
      rw [ha.handshaking] at hhs
      cases hhs
    | before hact hseal hopen _ =>
      have hact' : activations (t ++ noted (.popped f) :: pre ++ activateSeg s keys origin) =
          [(keys, origin)] := by simp [hact, ha.inert.activations]
      have hseal' : recordSeals (t ++ noted (.popped f) :: pre ++ activateSeg s keys origin) =
          [] := by
        rw [List.append_assoc, recordSeals_append, hseal, List.nil_append]
        exact recordSeals_eq_nil (by simp [ha.inert.records])
      refine .since hact' ?_ (.none hseal' ?_ rfl)
      · rw [hseal', List.append_nil]
        simp [h.sealAccount.unsealed ha.handshaking, ha.seals_eq]
      · simp [hopen, ha.unread.openings]
  | rejected _ _ _ hr ih =>
    rw [List.append_assoc]
    refine ih.close (by simp [hr.inert.activations]) (by simp [hr.inert.records]) (fun hhs => ?_)
      (by simp [hr.unread.openings]) rfl
    rcases hr.sealRun with hnone | ⟨hhs', -⟩
    · simp [hnone]
    · rw [hhs'] at hhs
      cases hhs
  | opened _ hphase _ htag _ hopen _ ih =>
    apply ih.active hphase rfl rfl
    intro keys hc
    refine hc.open hphase htag hopen rfl (by simp [pops, Ev.pop]) rfl rfl fun k hk => ?_
    cases hk
    rfl
  | refused _ hphase _ hr ih =>
    rw [List.append_assoc]
    rcases hr.openings with hopen | ⟨keys', pt, htag, -, hopen, hone⟩
    · exact ih.close (by simp [hr.inert.activations]) (by simp [hr.inert.records])
        (fun _ => by simp [hr.unsealed]) (by simp [hopen]) rfl
    · apply ih.active hphase (by simp [hr.inert.activations]) (by simp [recordSeals, hr.unsealed])
      intro keys hc
      refine hc.open hphase htag hopen (by simp [hr.inert.records]) (by simp) (by simp [hone]) rfl
        fun k hk => ?_
      cases hk
  | sealed _ hphase _ hseal ih =>
    obtain ⟨hmax, hlen, rfl, rfl⟩ := SessionKeys.seal_eq_ok.mp hseal
    apply ih.active hphase rfl rfl
    intro keys hc
    exact hc.seal hphase ⟨Direction.seal_eq_ok.mpr ⟨hmax, hlen, rfl, rfl⟩, rfl, rfl⟩ rfl rfl rfl
  | failed _ _ ih | retired _ _ _ _ ih =>
    exact ih.close (by simp) (by simp) (fun _ => by simp) (by simp) rfl
  | flooded _ _ _ _ _ _ _ _ _ ih =>
    rw [List.append_assoc]
    exact ih.close (by simp) (by simp) (fun _ => by simp) (by simp) rfl

end

/-! ### Participants -/

/-- A session of an honest process, with all that has happened in it up to some moment. -/
structure Participant (P : Primitives) where
  role : Role
  birth : Tr
  start : FdState
  log : List (FdCall × FdRet)
  trace : Tr
  status : Status Resp FdCall FdState FdRet
  built : Built P role birth start
  run : Reach (FdCall.run P) start log trace status

section
variable {P : Primitives} {c : Tr} {st : FdState} {role : Role}

theorem Opening.role_responder (h : Opening P c st role)
    (hphase : st.phase = .responderAwaitingClientHello) : role = .responder := by
  cases h with
  | failed hp | hybrid hp | fallback hp => rw [hphase] at hp; cases hp
  | responder => rfl

theorem Opening.role_initiator (h : Opening P c st role)
    (hphase : (∃ state, st.phase = .initiatorAwaitingServerHello state) ∨
      ∃ state, st.phase = .initiatorAwaitingFallbackFinished state) : role = .initiator := by
  cases h with
  | failed hp | responder hp => simp [hp] at hphase
  | hybrid | fallback => rfl

theorem Opening.began (h : Opening P c st role) {state : InitiatorState}
    (hphase : st.phase = .initiatorAwaitingServerHello state) :
    ∃ identity eph hello, st.policySuite.beginInitiator P identity eph = .ok (state, hello) := by
  cases h with
  | failed hp | responder hp | fallback hp => rw [hphase] at hp; cases hp
  | hybrid hp hbegin =>
    rw [hphase] at hp
    cases hp
    exact ⟨_, _, _, hbegin⟩

theorem began_hello {suite : CipherSuite} {identity : IdentityMaterial} {eph : Ephemeral}
    {state : InitiatorState} {hello : Bytes}
    (h : suite.beginInitiator P identity eph = .ok (state, hello)) :
    state.inner.clientHello = hello := by
  obtain ⟨-, hclient⟩ := beginInitiator_eq_ok.mp h
  obtain ⟨sigs, -, -, hinner⟩ := clientHello_eq_ok.mp hclient
  rw [hinner]

theorem Opening.client_hello (h : Opening P c st role) {state : InitiatorState}
    (hphase : st.phase = .initiatorAwaitingServerHello state) :
    state.inner.suiteId = state.suite.id ∧
      state.inner.clientHello.length = helloLen state.suite.ekLen := by
  obtain ⟨identity, eph, hello, hbegin⟩ := h.began hphase
  obtain ⟨hsuite, hclient⟩ := beginInitiator_eq_ok.mp hbegin
  obtain ⟨sigs, -, hbody, hinner⟩ := clientHello_eq_ok.mp hclient
  refine ⟨by rw [hinner, hsuite], ?_⟩
  have hlen := HelloBody.bytes_length (offeredHello P (st.policySuite.kem P) identity eph sigs)
  rw [← hbody, st.policySuite.kem_ekSize P] at hlen
  rw [hinner, hsuite]
  exact hlen

end

namespace Participant
variable {P : Primitives} (x : Participant P)

/-- The engine calls with which a session has signed. -/
def Performed : EngineRun → Prop
  | .began suite identity eph state hello =>
    x.start.phase = .initiatorAwaitingServerHello state ∧
      (⟨.resolveIdentity, .ok identity⟩ : Ev Resp) ∈ x.birth ∧
      suite.beginInitiator P identity eph = .ok (state, hello)
  | .responded suite identity hello eph keys reply =>
    (keys, .respond suite identity hello eph reply) ∈ activations x.trace

/-- The hello that an initiator has drawn. -/
def Offers (hello : Bytes) : Prop :=
  match x.start.phase with
  | .initiatorAwaitingServerHello state => state.inner.clientHello = hello
  | .initiatorAwaitingFallbackFinished state => state.clientNonce.val = hello
  | _ => False

theorem sound : x.start.Sound := by
  obtain ⟨hfresh, hopen⟩ := x.built.opening
  exact hopen.sound hfresh

theorem between : Between P True x.start x.trace := by
  obtain ⟨hfresh, -⟩ := x.built.opening
  exact run_between id (fun _ _ => trivial) x.sound hfresh.settled x.run

/-- What is known of the one activation of a session. -/
structure Activated (keys : SessionKeys) (origin : Origin) : Prop where
  only : activations x.trace = [(keys, origin)]
  keys : origin.Keys P keys
  formed : origin.Formed
  role : x.role = if origin.initiates then .initiator else .responder
  offers : origin.initiates = true → x.Offers origin.exchange.1

theorem activated {keys : SessionKeys} {origin : Origin}
    (ha : (keys, origin) ∈ activations x.trace) : x.Activated keys origin := by
  obtain ⟨honly, s, f, pre, fr, hact, -, hphase, -⟩ := x.between.activated ha
  obtain ⟨-, hopen⟩ := x.built.opening
  have hkeys := hact.keys
  cases hact with
  | respond hp _ _ hrun =>
    obtain ⟨client, -, -, hhello, -⟩ := suiteRespond_eq_ok.mp hrun
    refine ⟨honly, hkeys, .hybrid s.policySuite rfl rfl ?_, hopen.role_responder (hphase ▸ hp),
      fun hi => by cases hi⟩
    rw [Origin.exchange, hhello, client.bytes_length, s.policySuite.kem_ekSize P]
    rfl
  | fallbackRespond _ hp _ hrun =>
    exact ⟨honly, hkeys, .fallback rfl rfl (fallbackRespond_eq_ok.mp hrun).1,
      hopen.role_responder (hphase ▸ hp), fun hi => by cases hi⟩
  | @fallbackFinish state keys hp =>
    rw [hphase] at hp
    refine ⟨honly, hkeys, .fallback rfl rfl state.clientNonce.2,
      hopen.role_initiator (.inr ⟨state, hp⟩), fun _ => ?_⟩
    rw [Offers, hp]
    rfl
  | @finish state identity keys hp =>
    rw [hphase] at hp
    obtain ⟨hsuite, hlen⟩ := hopen.client_hello hp
    refine ⟨honly, hkeys, .hybrid state.suite rfl ?_ hlen, hopen.role_initiator (.inl ⟨state, hp⟩),
      fun _ => ?_⟩
    · rw [Origin.transcript, hsuite]
      rfl
    · rw [Offers, hp]
      rfl

/-- All that an activated session has sealed. -/
theorem sealed {keys : SessionKeys} {origin : Origin}
    (ha : (keys, origin) ∈ activations x.trace) :
    seals x.trace = origin.confirms keys ++ recordSeals x.trace ∧
      ∃ d, SealRun P keys.tx (recordSeals x.trace) d := by
  obtain ⟨t₀, u, s, pd, ht, hh, hu⟩ := x.between
  rw [ht] at ha ⊢
  rw [activations_append, hu.silent.activations, List.append_nil] at ha
  obtain ⟨-, hopen⟩ := x.built.opening
  cases hh.traffic hopen.inactive with
  | before hact =>
    rw [hact] at ha
    cases ha
  | since hact hall hc =>
    rw [hact, List.mem_singleton] at ha
    cases ha
    have hnone : seals u = [] := by
      rcases hu.seals with hnone | ⟨_, _, _, _, _, hphase, -⟩
      · exact hnone
      · have hsettled := hc.settled
        rw [hphase] at hsettled
        cases hsettled
    have hrec : recordSeals (t₀ ++ u) = recordSeals t₀ := by
      rw [recordSeals_append, recordSeals_eq_nil hu.silent.records, List.append_nil]
    obtain ⟨d, hrun, -⟩ := hc.sealed
    exact ⟨by rw [seals_append, hnone, List.append_nil, hall, hrec], d, by rwa [hrec]⟩

/-- What a session has delivered are the first bytes of the records it has opened. -/
theorem delivered (hne : returnedPlain x.log ≠ []) :
    ∃ keys origin d os, (keys, origin) ∈ activations x.trace ∧ OpenRun P keys.rx os d ∧
      (∀ y ∈ os, ∃ f ∈ pops x.trace, f.ciphertext = some y.ct) ∧ os ≠ [] ∧
      returnedPlain x.log <+: os.flatMap Unseal.plaintext := by
  obtain ⟨t₀, s₀, ht₀, hreach⟩ := x.run.rested
  obtain ⟨u, hu⟩ := ht₀
  obtain ⟨hfresh, hopen⟩ := x.built.opening
  obtain ⟨-, hat⟩ := x.built.atRest hreach
  have hle := hat.history.delivered_le x.sound
  rw [hat.returned, hfresh.rxPlain, List.nil_append] at hle
  have hos : openings t₀ ≠ [] := by
    intro hnone
    rw [openedPlain, hnone] at hle
    exact hne (List.prefix_nil.mp hle)
  cases hat.history.traffic hopen.inactive with
  | before _ _ hnone => exact absurd hnone hos
  | @since keys origin hact _ hc =>
    obtain ⟨d, hrun, -⟩ := hc.opened
    refine ⟨keys, origin, d, openings t₀, ?_, hrun, fun y hy => ?_, hos, hle⟩
    · rw [← hu, activations_append, hact]
      exact List.mem_append_left _ (List.mem_singleton.mpr rfl)
    · rw [← hu]
      exact framed_append (hc.framed y hy)

end Participant

/-! ### An attacker without keys -/

section
variable {P : Primitives} {ι : Type}

/-- A key of a participant, with the transcript it is derived from and whether it is the key
of what the initiator sends. -/
inductive Participant.Derived (x : Participant P) : ByteArr 32 → Bytes → Bool → Prop
  | tx {keys : SessionKeys} {origin : Origin} {ikm : Bytes} {suiteId : UInt8}
      (ha : (keys, origin) ∈ activations x.trace)
      (hkey : keys.tx.key = trafficKey P ikm suiteId origin.transcript origin.initiates) :
      Derived x keys.tx.key origin.transcript origin.initiates
  | rx {keys : SessionKeys} {origin : Origin} {ikm : Bytes} {suiteId : UInt8}
      (ha : (keys, origin) ∈ activations x.trace)
      (hkey : keys.rx.key = trafficKey P ikm suiteId origin.transcript (!origin.initiates)) :
      Derived x keys.rx.key origin.transcript (!origin.initiates)

/-- The engine run at the other end of a hybrid handshake: the one that answered the hello
of an initiator, or the one that made the hello of a responder. -/
def EngineRun.Meets : EngineRun → Origin → Prop
  | .responded _ _ hello _ _ reply, .finish state _ serverHello =>
    hello = state.inner.clientHello ∧ reply = serverHello
  | .began _ _ _ _ hello, .respond _ _ clientHello _ _ => hello = clientHello
  | _, _ => False

/-- The holder of the pinned keys, at the other end of the handshake `origin`, is `x`. -/
def Participant.Faces (x : Participant P) (origin : Origin) : Prop :=
  ∀ identity, origin.identity = some identity →
    ∃ r, x.Performed r ∧ r.Meets origin ∧ Trusts P identity r.identity

/-- What the primitives have to do for the sessions `W`. Every assumption is about the keys,
signatures and ciphertexts that occur in them, none about all byte strings. -/
structure Ideal (P : Primitives) (W : ι → Participant P) : Prop where
  exchange : ExchangeCorrect P
  /-- Signatures that verify under pinned keys were made in the sessions. -/
  signatures : ∀ i identity, (⟨.resolveIdentity, .ok identity⟩ : Ev Resp) ∈ (W i).trace →
    ∃ peer runs, (∀ r ∈ runs, ∃ j, (W j).Performed r) ∧
      Unforgeable P identity peer runs (pops (W i).trace)
  /-- No two initiators draw the same hello. -/
  fresh_hello : ∀ i j hello, (W i).Offers hello → (W j).Offers hello → i = j
  /-- No two responders give the same answer to a hello. -/
  fresh_reply : ∀ i j a b, a ∈ activations (W i).trace → b ∈ activations (W j).trace →
    a.2.initiates = false → b.2.initiates = false → a.2.exchange = b.2.exchange → i = j
  /-- SHA-256 and HKDF do not collide. -/
  derivation : ∀ i j key τ τ' d d', (W i).Derived key τ d → (W j).Derived key τ' d' →
    τ = τ' ∧ d = d'
  open_iff : ∀ i, ∀ a ∈ activations (W i).trace, ∀ nonce ct msg,
    P.gcmDecrypt a.1.rx.key nonce ct = some msg ↔ ct = P.gcmEncrypt a.1.rx.key nonce msg
  separate : ∀ i j, ∀ a ∈ activations (W i).trace, ∀ x ∈ seals (W j).trace, ∀ nonce msg,
    x.ct = P.gcmEncrypt a.1.rx.key nonce msg → x.key = a.1.rx.key ∧ x.nonce = nonce
  /-- The key of a handshake with one of the sessions is known to the sessions only: a
  ciphertext under it that is delivered was sealed by one of them. It left that session
  after the activation. -/
  secret : ∀ i, ∀ a ∈ activations (W i).trace, (∃ j, (W j).Faces a.2) →
    ∀ f ∈ pops (W i).trace, ∀ ct, f.ciphertext = some ct → ∀ nonce msg,
      ct = P.gcmEncrypt a.1.rx.key nonce msg →
      ∃ j, activations (W j).trace ≠ [] ∧ ∃ x ∈ seals (W j).trace, x.ct = ct

variable {W : ι → Participant P} {i j j' : ι} {k k' k'' : SessionKeys} {o o' o'' : Origin}

/-- Signatures lead to the party at the other end. -/
theorem Ideal.faced (h : Ideal P W) (ha : (k, o) ∈ activations (W i).trace) :
    ∃ j, (W j).Faces o := by
  obtain ⟨-, s, f, pre, fr, hact, hin, hphase, -⟩ := (W i).between.activated ha
  obtain ⟨hf, hpre⟩ := mem_of_step hin
  cases hact with
  | fallbackRespond | fallbackFinish => exact ⟨i, fun identity hid => by cases hid⟩
  | @respond identity eph keys reply fr _ _ _ hrun =>
    obtain ⟨peer, runs, hruns, hunf⟩ := h.signatures i identity (hpre (by simp))
    obtain ⟨peer', eph', state, hmem, htrust⟩ := hunf.offered hf hrun
    obtain ⟨j, hj⟩ := hruns _ hmem
    refine ⟨j, fun identity' hid => ?_⟩
    cases hid
    exact ⟨_, hj, rfl, htrust⟩
  | @finish state identity keys hp _ _ hrun =>
    obtain ⟨peer, runs, hruns, hunf⟩ := h.signatures i identity (hpre (by simp))
    obtain ⟨-, hopen⟩ := (W i).built.opening
    obtain ⟨own, eph, hello, hbegin⟩ := hopen.began (hphase ▸ hp)
    obtain ⟨peer', eph', keys', hmem, htrust, -⟩ := hunf.answered h.exchange hbegin hf hrun
    obtain ⟨j, hj⟩ := hruns _ hmem
    refine ⟨j, fun identity' hid => ?_⟩
    cases hid
    exact ⟨_, hj, ⟨(began_hello hbegin).symm, rfl⟩, htrust⟩

/-- The other end of the handshake `o`. -/
structure OtherEnd (o o' : Origin) : Prop where
  transcript : o'.transcript = o.transcript
  initiates : o'.initiates = !o.initiates

/-- Whoever has sealed under the receiving key of a session is the other end. -/
theorem Ideal.matched (h : Ideal P W) (ha : (k, o) ∈ activations (W i).trace)
    (hb : (k', o') ∈ activations (W j).trace) (hkey : k'.tx.key = k.rx.key) : OtherEnd o o' := by
  obtain ⟨ikm, suiteId, -, hrx⟩ := ((W i).activated ha).keys.schedule
  obtain ⟨ikm', suiteId', htx, -⟩ := ((W j).activated hb).keys.schedule
  have hd : (W j).Derived k'.tx.key o'.transcript o'.initiates := .tx hb htx
  rw [hkey] at hd
  obtain ⟨hτ, hi⟩ := h.derivation j i _ _ _ _ _ hd (.rx ha hrx)
  exact ⟨hτ, hi⟩

theorem Ideal.agree (h : Ideal P W) (ha : (k, o) ∈ activations (W i).trace)
    (hb : (k', o') ∈ activations (W j).trace) (hkey : k'.tx.key = k.rx.key) :
    o'.exchange = o.exchange ∧ k'.tx = k.rx := by
  have hend := h.matched ha hb hkey
  have hi := (W i).activated ha
  have hj := (W j).activated hb
  obtain ⟨hex, hfb⟩ := hj.formed.inj hi.formed hend.transcript
  refine ⟨hex, ?_⟩
  have hcounter : k'.tx.counter = k.rx.counter := by
    rw [hj.keys.tx_counter, hi.keys.rx_counter, hfb, hend.initiates, Bool.not_not]
  obtain ⟨⟨key, counter⟩, _⟩ := k'
  obtain ⟨_, ⟨_, _⟩⟩ := k
  simp only at hkey hcounter
  rw [hkey, hcounter]

/-- Sessions of one role with the same handshake are the same. -/
theorem Ideal.eq_of_exchange (h : Ideal P W) (ha : (k, o) ∈ activations (W i).trace)
    (hb : (k', o') ∈ activations (W j).trace) (hinit : o.initiates = o'.initiates)
    (hex : o.exchange = o'.exchange) : i = j := by
  cases hi : o.initiates with
  | true =>
    have ho := ((W i).activated ha).offers hi
    have ho' := ((W j).activated hb).offers (hinit.symm.trans hi)
    rw [hex] at ho
    exact h.fresh_hello i j _ ho ho'
  | false => exact h.fresh_reply i j _ _ ha hb hi (hinit.symm.trans hi) hex

theorem Ideal.other_end_unique (h : Ideal P W) (ha : (k, o) ∈ activations (W i).trace)
    (hb : (k', o') ∈ activations (W j).trace) (hb' : (k'', o'') ∈ activations (W j').trace)
    (hkey : k'.tx.key = k.rx.key) (hkey' : k''.tx.key = k.rx.key) : j = j' := by
  apply h.eq_of_exchange hb hb'
  · rw [(h.matched ha hb hkey).initiates, (h.matched ha hb' hkey').initiates]
  · rw [(h.agree ha hb hkey).1, (h.agree ha hb' hkey').1]

/-- A ciphertext that opens was sealed by the other end, as the confirmation or as a record
with the same counter. -/
theorem Ideal.opened_at (h : Ideal P W) (ha : (k, o) ∈ activations (W i).trace) {f : ParsedFrame}
    (hf : f ∈ pops (W i).trace) {ct msg : Bytes} (hct : f.ciphertext = some ct) {c : UInt64}
    (hdec : P.gcmDecrypt k.rx.key (nonceFromCounter c) ct = some msg) :
    ∃ j k' o' y, (k', o') ∈ activations (W j).trace ∧ k'.tx.key = k.rx.key ∧ y.ct = ct ∧
      y.nonce = nonceFromCounter c ∧ (y ∈ o'.confirms k' ∨ y ∈ recordSeals (W j).trace) := by
  have henc := (h.open_iff i _ ha _ _ _).mp hdec
  obtain ⟨j, hne, y, hy, hyct⟩ := h.secret i _ ha (h.faced ha) f hf ct hct _ _ henc
  obtain ⟨hkey, hnonce⟩ := h.separate i j _ ha y hy _ _ (hyct.trans henc)
  obtain ⟨⟨k', o'⟩, hb⟩ := List.exists_mem_of_ne_nil _ hne
  obtain ⟨hall, d, hrun⟩ := (W j).sealed hb
  rw [hall, List.mem_append] at hy
  refine ⟨j, k', o', y, hb, ?_, hyct, hnonce, hy⟩
  rw [← hkey]
  rcases hy with hy | hy
  · exact Origin.confirms_key hy
  · obtain ⟨n, hn⟩ := List.mem_iff_getElem?.mp hy
    obtain ⟨e, -, hby⟩ := hrun.getElem? hn
    exact hby.key_eq.symm

/-- The record that a session opens with a counter is the one its other end has sealed with
it. -/
theorem Ideal.record_at (h : Ideal P W) (ha : (k, o) ∈ activations (W i).trace) {c : UInt64}
    {n : ℕ} (hc : c.toNat = k.rx.counter.toNat + n) {x : Unseal} (hx : x.By P ⟨k.rx.key, c⟩)
    (hf : ∃ f ∈ pops (W i).trace, f.ciphertext = some x.ct) :
    ∃ j k' o', (k', o') ∈ activations (W j).trace ∧ k'.tx.key = k.rx.key ∧
      ((recordSeals (W j).trace).map Seal.record)[n]? = some x.record := by
  obtain ⟨f, hf, hpay⟩ := hf
  obtain ⟨-, -, hdec⟩ := Direction.open_eq_ok.mp hx.open_eq
  obtain ⟨j, k', o', y, hb, hkey, hyct, hnonce, hy⟩ :=
    h.opened_at ha hf hpay hdec
  have htx := (h.agree ha hb hkey).2
  refine ⟨j, k', o', hb, hkey, ?_⟩
  rcases hy with hy | hy
  · -- the confirmation has the counter 0, which this session has already used
    obtain ⟨hzero, hone⟩ := Origin.confirms_counter ((W j).activated hb).keys hy
    have hc0 : (0 : UInt64) = c := nonceFromCounter_injective (hzero.symm.trans hnonce)
    have hk : k.rx.counter = 1 := htx ▸ hone
    rw [hk, ← hc0] at hc
    have h1 : (1 : UInt64).toNat = 1 := rfl
    have h0 : (0 : UInt64).toNat = 0 := rfl
    omega
  · obtain ⟨-, d, hrun⟩ := (W j).sealed hb
    obtain ⟨m, hm⟩ := List.mem_iff_getElem?.mp hy
    obtain ⟨e, he, hby⟩ := hrun.getElem? hm
    have hec : e = c := nonceFromCounter_injective (hby.nonce_eq.symm.trans hnonce)
    rw [htx, hec] at he
    have hmn : m = n := by omega
    have hyenc := hby.ct_eq
    rw [hby.key_eq, htx, hnonce, hyct] at hyenc
    have hplain := (h.open_iff i _ ha _ _ _).mpr hyenc
    rw [← hmn, List.getElem?_map, hm]
    refine congrArg some (Prod.ext hyct ?_)
    exact Option.some_inj.mp (hplain.symm.trans hdec)

/-- No record of the other end of a fallback handshake has the counter 0. -/
theorem Ideal.record_counter (h : Ideal P W) (ha : (k, o) ∈ activations (W i).trace)
    (hb : (k', o') ∈ activations (W j).trace) (hkey : k'.tx.key = k.rx.key)
    (hone : k.rx.counter = 1) {y : Seal} (hy : y ∈ recordSeals (W j).trace) :
    y.nonce ≠ nonceFromCounter 0 := by
  intro hnonce
  obtain ⟨-, d, hrun⟩ := (W j).sealed hb
  obtain ⟨m, hm⟩ := List.mem_iff_getElem?.mp hy
  obtain ⟨e, he, hby⟩ := hrun.getElem? hm
  have hzero : e = 0 := nonceFromCounter_injective (hby.nonce_eq.symm.trans hnonce)
  rw [(h.agree ha hb hkey).2, hone, hzero] at he
  have h1 : (1 : UInt64).toNat = 1 := rfl
  have h0 : (0 : UInt64).toNat = 0 := rfl
  omega

theorem Participant.fallback_reply (x : Participant P) {psk : ByteArr 32} {hello reply : Bytes}
    {nonce : ByteArr 16}
    (ha : (k, .fallbackRespond psk hello nonce reply) ∈ activations x.trace) :
    reply = nonce.val ++ reply.drop fallbackNonceLen := by
  obtain ⟨-, s, f, pre, fr, hact, -⟩ := x.between.activated ha
  cases hact with
  | fallbackRespond _ _ _ hrun =>
    obtain ⟨-, ct, -, hreply⟩ := fallbackRespond_eq_ok.mp hrun
    have hdrop : (nonce.val ++ ct).drop fallbackNonceLen = ct := List.drop_left' nonce.2
    rw [hreply, hdrop]

theorem Ideal.faces (h : Ideal P W) (ha : (k, o) ∈ activations (W i).trace)
    (hb : (k', o') ∈ activations (W j).trace) (hkey : k'.tx.key = k.rx.key) :
    (W j).Faces o := by
  obtain ⟨j', hfaces⟩ := h.faced ha
  intro identity hid
  obtain ⟨r, hr, hmeets, htrust⟩ := hfaces identity hid
  obtain ⟨hex, -⟩ := h.agree ha hb hkey
  have hinit := (h.matched ha hb hkey).initiates
  have hj : j' = j := by
    cases r with
    | responded suite peer hello eph keys reply =>
      cases o with
      | finish state own serverHello =>
        obtain ⟨rfl, rfl⟩ := hmeets
        exact h.eq_of_exchange hr hb hinit.symm hex.symm
      | respond | fallbackRespond | fallbackFinish => cases hmeets
    | began suite peer eph state hello =>
      cases o with
      | respond suite' own clientHello eph' reply =>
        obtain rfl : hello = clientHello := hmeets
        obtain ⟨hphase, -, hbegin⟩ := hr
        have hoffers : (W j').Offers hello := by
          rw [Participant.Offers, hphase]
          exact began_hello hbegin
        have hoffers' := ((W j).activated hb).offers hinit
        rw [hex] at hoffers'
        exact h.fresh_hello j' j _ hoffers hoffers'
      | finish | fallbackRespond | fallbackFinish => cases hmeets
  exact ⟨r, hj ▸ hr, hmeets, htrust⟩

/-- The session `j` is the one that the session `i` hears. -/
structure Hearing (W : ι → Participant P) (i j : ι) : Prop where
  roles : (W j).role = (W i).role.peer
  /-- The same two messages were exchanged, the keys are the same, and in a hybrid handshake
  `j` holds the signing keys that `i` has pinned. -/
  agreed : ∃ a b, activations (W i).trace = [a] ∧ activations (W j).trace = [b] ∧
    b.2.exchange = a.2.exchange ∧ b.1.tx = a.1.rx ∧ (W j).Faces a.2
  stream : returnedPlain (W i).log <+: sealedPlain (W j).trace

theorem Ideal.roles (h : Ideal P W) (ha : (k, o) ∈ activations (W i).trace)
    (hb : (k', o') ∈ activations (W j).trace) (hkey : k'.tx.key = k.rx.key) :
    (W j).role = (W i).role.peer := by
  rw [((W i).activated ha).role, ((W j).activated hb).role, (h.matched ha hb hkey).initiates]
  cases o.initiates <;> rfl

theorem sealedPlain_eq (t : Tr) : sealedPlain t = (recordSeals t).flatMap Seal.plaintext := by
  rw [sealedPlain, records_eq_recordSeals, List.flatMap_map]

end

/-! ### Two degraded sessions -/

theorem degradedStart_built (ρ : Role) : ∃ c, Built specimen ρ c (degradedStart ρ) := by
  have h := degradedStart_builds ρ
  cases ρ with
  | initiator =>
    obtain ⟨c, -, hat⟩ := h
    exact ⟨c, hat⟩
  | responder =>
    obtain ⟨suite, c, -, hat⟩ := h
    exact ⟨c, suite, hat⟩

/-- The two ends of `degradedOpen`, built with the calls `c`. -/
def degradedParties (c : Role → Tr) (hc : ∀ ρ, Built specimen ρ (c ρ) (degradedStart ρ))
    (ρ : Role) :
    Participant specimen where
  role := ρ
  birth := c ρ
  start := degradedStart ρ
  log := (degradedOpen.ends ρ).log.map (Prod.map IoCall.call id)
  trace := (degradedOpen.ends ρ).trace
  status := (degradedOpen.ends ρ).status.map IoCall.call
  built := hc ρ
  run := reach_map IoCall.call (degradedOpen_reachable.ok.run ρ)

/-- The checks of `Ideal` that are about what occurs in the two sessions. -/
theorem degradedOpen_derived (ρ σ : Role) :
    ∀ a ∈ activations (degradedOpen.ends ρ).trace, ∀ b ∈ activations (degradedOpen.ends σ).trace,
      a.2.transcript = b.2.transcript ∧
      (a.1.tx.key = b.1.tx.key → a.2.initiates = b.2.initiates) ∧
      (a.1.tx.key = b.1.rx.key → a.2.initiates = !b.2.initiates) ∧
      (a.1.rx.key = b.1.tx.key → (!a.2.initiates) = b.2.initiates) ∧
      (a.1.rx.key = b.1.rx.key → (!a.2.initiates) = !b.2.initiates) := by
  cases ρ <;> cases σ <;> decide +kernel

theorem degradedOpen_keys (ρ : Role) :
    (∀ a ∈ activations (degradedOpen.ends ρ).trace,
      a.1.rx.key = rampKeys.tx.key ∨ a.1.rx.key = rampKeys.rx.key) ∧
    ∀ x ∈ seals (degradedOpen.ends ρ).trace, (x.key = rampKeys.tx.key ∨ x.key = rampKeys.rx.key) ∧
      x.ct = specimen.gcmEncrypt x.key x.nonce x.plaintext := by
  cases ρ <;> decide +kernel

theorem degradedOpen_delivered (ρ : Role) :
    activations (degradedOpen.ends ρ).trace ≠ [] ∧
    ∀ f ∈ pops (degradedOpen.ends ρ).trace, ∀ ct ∈ f.ciphertext,
      ∃ x ∈ seals (degradedOpen.ends ρ.peer).trace, x.ct = ct := by
  cases ρ <;> decide +kernel

theorem degradedOpen_roles (ρ : Role) : ∀ a ∈ activations (degradedOpen.ends ρ).trace,
    a.2.initiates = decide (ρ = .initiator) := by
  cases ρ <;> decide +kernel

theorem degradedOpen_unsigned (ρ : Role) (identity : IdentityMaterial) :
    (⟨.resolveIdentity, .ok identity⟩ : Ev Resp) ∉ (degradedOpen.ends ρ).trace := by
  have hall : (degradedOpen.ends ρ).trace.all (fun e => e.op ≠ .resolveIdentity) = true := by
    cases ρ <;> decide +kernel
  intro hmem
  have hne := List.all_eq_true.mp hall _ hmem
  simp at hne

section
variable (c : Role → Tr) (hc : ∀ ρ, Built specimen ρ (c ρ) (degradedStart ρ))

theorem degradedParties_trace (ρ : Role) :
    (degradedParties c hc ρ).trace = (degradedOpen.ends ρ).trace := by
  rw [degradedParties]

theorem degradedParties_log (ρ : Role) : (degradedParties c hc ρ).log =
    (degradedOpen.ends ρ).log.map (Prod.map IoCall.call id) := by
  rw [degradedParties]

theorem degradedParties_offers {ρ : Role} {hello : Bytes}
    (h : (degradedParties c hc ρ).Offers hello) : ρ = .initiator := by
  cases ρ with
  | initiator => rfl
  | responder => exact h.elim

theorem degradedParties_derived {ρ : Role} {key : ByteArr 32} {τ : Bytes} {d : Bool}
    (h : (degradedParties c hc ρ).Derived key τ d) :
    ∃ a ∈ activations (degradedOpen.ends ρ).trace, τ = a.2.transcript ∧
      (key = a.1.tx.key ∧ d = a.2.initiates ∨ key = a.1.rx.key ∧ d = !a.2.initiates) := by
  cases h with
  | tx ha =>
    rw [degradedParties_trace] at ha
    exact ⟨_, ha, rfl, .inl ⟨rfl, rfl⟩⟩
  | rx ha =>
    rw [degradedParties_trace] at ha
    exact ⟨_, ha, rfl, .inr ⟨rfl, rfl⟩⟩

theorem degradedParties_ideal : Ideal specimen (degradedParties c hc) := by
  refine ⟨⟨specimen_correct.dh_comm, specimen_correct.kem⟩, ?_, ?_, ?_, ?_, ?_, ?_, ?_⟩
  · intro ρ identity hmem
    rw [degradedParties_trace] at hmem
    exact absurd hmem (degradedOpen_unsigned ρ identity)
  · intro ρ σ hello hρ hσ
    rw [degradedParties_offers c hc hρ, degradedParties_offers c hc hσ]
  · intro ρ σ a b ha hb hρ hσ _
    rw [degradedParties_trace] at ha hb
    rw [degradedOpen_roles ρ a ha] at hρ
    rw [degradedOpen_roles σ b hb] at hσ
    revert hρ hσ
    cases ρ <;> cases σ <;> decide
  · intro ρ σ key τ τ' d d' hρ hσ
    obtain ⟨a, ha, rfl, hd⟩ := degradedParties_derived c hc hρ
    obtain ⟨b, hb, rfl, hd'⟩ := degradedParties_derived c hc hσ
    obtain ⟨hτ, htt, htr, hrt, hrr⟩ := degradedOpen_derived ρ σ a ha b hb
    refine ⟨hτ, ?_⟩
    rcases hd with ⟨hk, rfl⟩ | ⟨hk, rfl⟩ <;> rcases hd' with ⟨hk', rfl⟩ | ⟨hk', rfl⟩
    · exact htt (hk.symm.trans hk')
    · exact htr (hk.symm.trans hk')
    · exact hrt (hk.symm.trans hk')
    · exact hrr (hk.symm.trans hk')
  · intro ρ a _ nonce ct msg
    exact specimenDecrypt_eq_some
  · intro ρ σ a ha x hx nonce msg heq
    rw [degradedParties_trace] at ha hx
    have hideal : IdealAead specimen rampKeys.tx.key rampKeys.rx.key :=
      specimen_idealAead (by decide +kernel)
    obtain ⟨hkey, hct⟩ := (degradedOpen_keys σ).2 x hx
    exact hideal.separate _ _ hkey ((degradedOpen_keys ρ).1 a ha) _ _ _ _ (hct.symm.trans heq)
  · intro ρ a _ _ f hf ct hct nonce msg _
    rw [degradedParties_trace] at hf
    obtain ⟨x, hx, hxct⟩ := (degradedOpen_delivered ρ).2 f hf ct hct
    refine ⟨ρ.peer, ?_, x, ?_, hxct⟩
    · rw [degradedParties_trace]
      exact (degradedOpen_delivered ρ.peer).1
    · rw [degradedParties_trace]
      exact hx

end

/-! ### What a session hears -/

/-- On a network that belongs to the attacker: if the calls on a session have returned any
data, then all of it was sent, in this order and from the first byte on, in one session of
the other role, at the other end of the same handshake; and no session is heard by two. -/
theorem secure_channel {P : Primitives} {ι : Type} {W : ι → Participant P} (h : Ideal P W) :
    (∀ i, returnedPlain (W i).log ≠ [] → ∃ j, Hearing W i j) ∧
      ∀ i i' j, Hearing W i j → Hearing W i' j → i = i' := by
  refine ⟨fun i hne => ?_, fun i i' j hi hi' => ?_⟩
  · obtain ⟨k, o, d, os, ha, hrun, hframed, hos, hle⟩ := (W i).delivered hne
    have hat : ∀ (n : ℕ) (x : Unseal), os[n]? = some x →
        ∃ j k' o', (k', o') ∈ activations (W j).trace ∧
        k'.tx.key = k.rx.key ∧
        ((recordSeals (W j).trace).map Seal.record)[n]? = some x.record := by
      intro n x hx
      obtain ⟨c, hc, hby⟩ := hrun.getElem? hx
      exact h.record_at ha hc hby (hframed x (List.mem_of_getElem? hx))
    -- the first record names the other end, and there is only one
    obtain ⟨x, hx⟩ := List.exists_mem_of_ne_nil _ hos
    obtain ⟨n, hn⟩ := List.mem_iff_getElem?.mp hx
    obtain ⟨j, k', o', hb, hkey, -⟩ := hat n x hn
    have hrecords : os.map Unseal.record <+: (recordSeals (W j).trace).map Seal.record := by
      refine List.prefix_iff_getElem?.mpr fun m hm => ?_
      rw [List.length_map] at hm
      obtain ⟨j', k'', o'', hb', hkey', hm'⟩ := hat m _ (List.getElem?_eq_getElem hm)
      rw [h.other_end_unique ha hb hb' hkey hkey', hm', List.getElem_map]
    have hagree := h.agree ha hb hkey
    refine ⟨j, h.roles ha hb hkey, ⟨_, _, ((W i).activated ha).only, ((W j).activated hb).only,
      hagree.1, hagree.2, h.faces ha hb hkey⟩, ?_⟩
    rw [sealedPlain_eq]
    exact hle.trans (map_le_of_records hrecords (W i).start.policySuite).2
  · obtain ⟨⟨k, o⟩, ⟨k', o'⟩, ha, hb, hex, -⟩ := hi.agreed
    obtain ⟨⟨k₁, o₁⟩, ⟨k₁', o₁'⟩, ha₁, hb₁, hex₁, -⟩ := hi'.agreed
    have hone : (k', o') = (k₁', o₁') := List.singleton_inj.mp (hb.symm.trans hb₁)
    cases hone
    have hm : (k, o) ∈ activations (W i).trace := ha ▸ List.mem_singleton.mpr rfl
    have hm₁ : (k₁, o₁) ∈ activations (W i').trace := ha₁ ▸ List.mem_singleton.mpr rfl
    apply h.eq_of_exchange hm hm₁ _ (hex.symm.trans hex₁)
    have hroles : (W i).role = (W i').role := by
      have heq := hi.roles.symm.trans hi'.roles
      rw [← Role.peer_peer (W i).role, heq, Role.peer_peer]
    rw [((W i).activated hm).role, ((W i').activated hm₁).role] at hroles
    revert hroles
    cases o.initiates <;> cases o₁.initiates <;> decide

/-- The initiator of `degradedOpen` has read a byte, which the responder has sent. -/
theorem secure_channel_degraded : ∃ W : Role → Participant specimen,
    returnedPlain (W .initiator).log = ascii "h" ∧ ∃ ρ, Hearing W .initiator ρ := by
  choose c hc using degradedStart_built
  have hret : returnedPlain (degradedParties c hc .initiator).log = ascii "h" := by
    rw [degradedParties_log]
    decide +kernel
  have hne : returnedPlain (degradedParties c hc .initiator).log ≠ [] := by
    rw [hret]
    decide +kernel
  exact ⟨degradedParties c hc, hret,
    (secure_channel (degradedParties_ideal c hc)).1 .initiator hne⟩

/-- The fallback authenticates the responder: what an initiator accepts is, byte for byte, the
answer that one session has given to the nonce of this initiator. -/
theorem fallback_agreement {P : Primitives} {ι : Type} {W : ι → Participant P} (h : Ideal P W)
    {i : ι} {k : SessionKeys} {state : FallbackInitiator} {finished : Bytes}
    (ha : (k, .fallbackFinish state finished) ∈ activations (W i).trace) :
    ∃ j psk nonce k', (W j).role = .responder ∧ activations (W j).trace =
        [(k', .fallbackRespond psk state.clientNonce.val nonce finished)] ∧
      k'.tx = k.rx := by
  obtain ⟨-, s, f, pre, fr, hact, hin, -⟩ := (W i).between.activated ha
  obtain ⟨hf, -⟩ := mem_of_step hin
  cases hact with
  | fallbackFinish _ htag hrun =>
    obtain ⟨hlen, hopen⟩ := fallbackFinish_eq_ok.mp hrun
    obtain ⟨-, hk, hdec⟩ := SessionKeys.open_eq_ok.mp hopen
    have hone : k.rx.counter = 1 := ((W i).activated ha).keys.rx_counter
    have hkey : (fallbackKeys P state.psk.val state.clientNonce.val
        (f.payload.take fallbackNonceLen)).rx.key = k.rx.key := by
      rw [hk]
      rfl
    rw [hkey] at hdec
    obtain ⟨j, k', o', y, hb, hkey', hyct, hnonce, hy⟩ :=
      h.opened_at ha hf (f.ciphertext_finished htag) hdec
    obtain ⟨hex, htx⟩ := h.agree ha hb hkey'
    rcases hy with hy | hy
    · cases o' with
      | respond | finish | fallbackFinish => cases hy
      | fallbackRespond psk hello nonce reply =>
        obtain rfl := List.mem_singleton.mp hy
        obtain ⟨rfl, hn⟩ := Prod.mk.inj hex
        have hdrop : reply.drop fallbackNonceLen = f.payload.drop fallbackNonceLen := hyct
        have hreply : reply = f.payload := by
          rw [(W j).fallback_reply hb, hn, hdrop]
          exact List.take_append_drop _ _
        exact ⟨j, psk, nonce, k', ((W j).activated hb).role,
          hreply ▸ ((W j).activated hb).only, htx⟩
    · exact absurd hnonce (h.record_counter ha hb hkey' hone hy)

theorem fallback_agreement_degraded : ∃ (W : Role → Participant specimen) (k : SessionKeys)
    (state : FallbackInitiator) (finished : Bytes),
    (k, .fallbackFinish state finished) ∈ activations (W .initiator).trace ∧
    ∃ ρ psk nonce k', (W ρ).role = .responder ∧ activations (W ρ).trace =
        [(k', .fallbackRespond psk state.clientNonce.val nonce finished)] ∧
      k'.tx = k.rx := by
  choose c hc using degradedStart_built
  have hone : ∃ a ∈ activations (degradedOpen.ends .initiator).trace,
      a.2.fallback = true ∧ a.2.initiates = true := by decide +kernel
  obtain ⟨⟨k, o⟩, ha, hfb, hinit⟩ := hone
  rw [← degradedParties_trace c hc] at ha
  cases o with
  | fallbackFinish state finished =>
    exact ⟨_, k, state, finished, ha, fallback_agreement (degradedParties_ideal c hc) ha⟩
  | respond | finish => cases hfb
  | fallbackRespond => cases hinit

/-! ### Nothing for strangers -/

/-- What a session knows of its peer when it has keys: the peer holds the pinned signing keys
and made its handshake message; or, without the post-quantum control plane, it has the
pre-shared key, which only the initiator has a proof of. -/
inductive Known {P : Primitives} {ι : Type} (W : ι → Participant P) (i : ι) : Origin → Prop
  | signed {o : Origin} {identity : IdentityMaterial} {j : ι} {r : EngineRun}
      (hid : o.identity = some identity) (hmade : (W j).Performed r) (hmeets : r.Meets o)
      (htrust : Trusts P identity r.identity) : Known W i o
  | confirmed {keys : SessionKeys} {state : FallbackInitiator} {finished : Bytes}
      (h : Confirmed P (W i).birth (W i).trace keys state finished) :
      Known W i (.fallbackFinish state finished)
  | degraded {psk : ByteArr 32} {hello reply : Bytes} {nonce : ByteArr 16}
      (h : Degraded (W i).trace psk hello) : Known W i (.fallbackRespond psk hello nonce reply)

section
variable {P : Primitives} {ι : Type} {W : ι → Participant P} {i : ι}

/-- A session without keys has sent nothing but its own hello. -/
theorem Participant.sent_before (x : Participant P) (hact : activations x.trace = []) :
    sentBytes x.trace <+: x.start.txBacklog := by
  obtain ⟨-, hopen⟩ := x.built.opening
  obtain ⟨-, hle⟩ := x.between.grammatical hopen
  obtain ⟨t₀, u, s, pd, ht, hh, hu⟩ := x.between
  have hrec : records x.trace = [] := by
    rw [ht, activations_append, hu.silent.activations, List.append_nil] at hact
    cases hh.traffic hopen.inactive with
    | before _ hseal =>
      rw [ht, records_append, hu.silent.records, List.append_nil, records_eq_recordSeals, hseal]
      rfl
    | since hsome =>
      rw [hsome] at hact
      cases hact
  have hmade : made x.start x.trace = x.start.txBacklog := by
    rw [made, replies, hact, hrec]
    simp [dataFrames]
  rwa [hmade] at hle

theorem Ideal.known (h : Ideal P W) {k : SessionKeys} {o : Origin}
    (ha : (k, o) ∈ activations (W i).trace) : Known W i o := by
  obtain ⟨j, hfaces⟩ := h.faced ha
  obtain ⟨-, hopen⟩ := (W i).built.opening
  cases o with
  | respond | finish =>
    obtain ⟨r, hmade, hmeets, htrust⟩ := hfaces _ rfl
    exact .signed rfl hmade hmeets htrust
  | fallbackFinish => exact .confirmed ((W i).between.confirmed hopen ha)
  | fallbackRespond => exact .degraded ((W i).between.degraded ha)

end

/-- A session says no more than its own hello to a peer it does not know: when it has sent
anything else, a reply or data, it has keys, from a handshake with a known peer. -/
theorem silent_to_strangers {P : Primitives} {ι : Type} {W : ι → Participant P} (h : Ideal P W)
    (i : ι) : sentBytes (W i).trace <+: (W i).start.txBacklog ∨
      ∃ k o, activations (W i).trace = [(k, o)] ∧ Known W i o := by
  cases hact : activations (W i).trace with
  | nil => exact .inl ((W i).sent_before hact)
  | cons a rest =>
    obtain ⟨k, o⟩ := a
    have ha : (k, o) ∈ activations (W i).trace := by
      rw [hact]
      exact List.mem_cons_self
    have honly := ((W i).activated ha).only
    rw [hact] at honly
    exact .inr ⟨k, o, honly, h.known ha⟩

theorem silent_to_strangers_degraded : ∃ W : Role → Participant specimen,
    (sentBytes (W .responder).trace ≠ [] ∧ (W .responder).start.txBacklog = []) ∧
    ∃ k o, activations (W .responder).trace = [(k, o)] ∧ Known W .responder o := by
  choose c hc using degradedStart_built
  have hsent : sentBytes (degradedParties c hc .responder).trace ≠ [] := by
    rw [degradedParties_trace]
    decide +kernel
  have hempty : (degradedParties c hc .responder).start.txBacklog = [] := by
    rw [degradedParties]
    rfl
  refine ⟨degradedParties c hc, ⟨hsent, hempty⟩, ?_⟩
  rcases silent_to_strangers (degradedParties_ideal c hc) .responder with hle | hknown
  · rw [hempty] at hle
    exact absurd (List.prefix_nil.mp hle) hsent
  · exact hknown

end SyntriassOverlay
