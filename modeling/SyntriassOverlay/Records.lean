import SyntriassOverlay.Session
import SyntriassOverlay.Reassembly
import SyntriassOverlay.Crypto.HandshakeSpec

/-!
# Records in order

The seals of a session are those of one sending direction, from its first counter
on without a gap. On the receiving side the bytes that came in are the frames
taken off the buffer and what is left of it, every frame taken off by an active
session was opened in order, and the plaintext of those is delivered or waits.
-/

namespace SyntriassOverlay
open Crypto Resumption

/-! ### Seals of one direction -/

/-- The seal `x` is what the direction `d` makes of its plaintext. -/
structure Seal.By (P : Primitives) (d : Direction) (x : Seal) : Prop where
  seal_eq : d.seal P x.plaintext = .ok (d.advance, x.ct)
  key_eq : x.key = d.key
  nonce_eq : x.nonce = nonceFromCounter d.counter

theorem Seal.By.ct_eq {P : Primitives} {d : Direction} {x : Seal} (h : x.By P d) :
    x.ct = P.gcmEncrypt x.key x.nonce x.plaintext := by
  obtain ⟨-, -, -, hct⟩ := Direction.seal_eq_ok.mp h.seal_eq
  rw [hct, h.key_eq, h.nonce_eq]

/-- `SealRun P d l d'`: the direction `d` makes the seals `l` one after the other
and is `d'` then. -/
abbrev SealRun (P : Primitives) (d : Direction) (l : List Seal) (d' : Direction) : Prop :=
  d.Run (Seal.By P) l d'

section
variable {P : Primitives} {d d' : Direction} {l : List Seal}

theorem SealRun.concat (h : SealRun P d l d') {x : Seal} (hx : x.By P d') :
    SealRun P d (l ++ [x]) d'.advance :=
  h.snoc (Direction.seal_eq_ok.mp hx.seal_eq).1 hx

theorem SealRun.nonce_inj (h : SealRun P d l d') {i j : ℕ} {x y : Seal} (hx : l[i]? = some x)
    (hy : l[j]? = some y) (hxy : x.nonce = y.nonce) : i = j := by
  obtain ⟨c, hc, hxc⟩ := h.getElem? hx
  obtain ⟨e, he, hye⟩ := h.getElem? hy
  have hce : c = e :=
    nonceFromCounter_injective (hxc.nonce_eq.symm.trans (hxy.trans hye.nonce_eq))
  subst hce
  omega

end

/-- The direction in which a session seals: that of the keys it started with, or a
new one. -/
inductive Outset (s₀ : FdState) (d : Direction) : Prop
  | active {keys : SessionKeys} (hphase : s₀.phase = .active keys) (hd : d = keys.tx)
  | fresh (hphase : s₀.phase.handshaking = true) (hd : d.counter = 0)

/-- The account of the seals of a session. -/
inductive SealAccount (P : Primitives) (s₀ : FdState) (t : Tr) (s : FdState) : Prop
  | unkeyed (h : seals t = []) (hs : ∀ keys, s.phase ≠ .active keys)
  | keyed {d₀ d : Direction} (hout : Outset s₀ d₀) (hrun : SealRun P d₀ (seals t) d)
      (hhs : s.phase.handshaking = false) (hs : ∀ keys, s.phase = .active keys → keys.tx = d)

section
variable {P : Primitives} {aside : Prop} {s₀ s : FdState} {t : Tr} {pd : Option Bytes}

theorem SealAccount.keep {s' : FdState} {u : Tr} (h : SealAccount P s₀ t s) (hu : seals u = [])
    (hhs : s'.phase.handshaking = true → s.phase.handshaking = true)
    (hs' : ∀ keys, s'.phase = .active keys →
      ∃ keys', s.phase = .active keys' ∧ keys'.tx = keys.tx) :
    SealAccount P s₀ (t ++ u) s' := by
  cases h with
  | unkeyed h hs =>
    refine .unkeyed (by rw [seals_append, h, hu]; rfl) fun keys hkeys => ?_
    obtain ⟨keys', hactive, -⟩ := hs' keys hkeys
    exact hs keys' hactive
  | @keyed d₀ d hout hrun hh hs =>
    refine .keyed (d := d) hout ?_ ?_ fun keys hkeys => ?_
    · rwa [seals_append, hu, List.append_nil]
    · by_contra hne
      rw [hhs (by simpa using hne)] at hh
      cases hh
    · obtain ⟨keys', hactive, htx⟩ := hs' keys hkeys
      exact htx ▸ hs keys' hactive

theorem fallbackRespond_sealRun {psk : ByteArr 32} {hello : Bytes} {nonce : ByteArr 16}
    {keys : SessionKeys} {reply : Bytes}
    (h : fallbackRespond P psk hello nonce = .ok (keys, reply)) :
    SealRun P (Direction.new keys.tx.key) [⟨.confirm, keys.tx.key, nonceFromCounter 0,
      fallbackConfirm, reply.drop fallbackNonceLen⟩] keys.tx := by
  obtain ⟨-, ct, hseal, rfl⟩ := fallbackRespond_eq_ok.mp h
  obtain ⟨hc, hlen, rfl, rfl⟩ := SessionKeys.seal_eq_ok.mp hseal
  have hdrop : ∀ b : Bytes, (nonce.val ++ b).drop fallbackNonceLen = b :=
    fun b => List.drop_left' nonce.2
  refine SealRun.concat (l := []) .nil ⟨?_, rfl, rfl⟩
  exact Direction.seal_eq_ok.mpr ⟨hc, hlen, rfl, hdrop _⟩

/-- The seals an activation makes on the way are the first of its new direction. -/
theorem Activation.sealRun {f : ParsedFrame} {keys : SessionKeys} {origin : Origin} {pre : Tr}
    {fr : Bytes} (h : Activation P s f keys origin pre fr) :
    SealRun P (Direction.new keys.tx.key) (seals pre) keys.tx := by
  have hnew : ∀ keys : SessionKeys, keys.tx.counter = 0 →
      SealRun P (Direction.new keys.tx.key) [] keys.tx := by
    rintro ⟨⟨key, counter⟩, rx⟩ rfl
    exact .nil
  cases h with
  | respond _ _ _ hrun =>
    obtain ⟨_, _, _, -, -, hr⟩ := suiteRespond_eq_ok.mp hrun
    exact hnew keys (by rw [hr.keys]; rfl)
  | fallbackRespond _ _ _ hrun => exact fallbackRespond_sealRun hrun
  | finish _ _ _ hrun =>
    obtain ⟨_, _, -, hc⟩ := suiteFinish_eq_ok.mp hrun
    exact hnew keys (by rw [hc.keys]; rfl)
  | fallbackFinish _ _ hrun =>
    obtain ⟨-, hopen⟩ := fallbackFinish_eq_ok.mp hrun
    obtain ⟨-, rfl, -⟩ := SessionKeys.open_eq_ok.mp hopen
    exact hnew _ rfl

theorem Rejection.sealRun {f : ParsedFrame} {pre : Tr} {site : FailSite}
    (h : Rejection P s f pre site) :
    seals pre = [] ∨ s.phase.handshaking = true ∧
      ∃ key d, SealRun P (Direction.new key) (seals pre) d := by
  cases h with
  | helloReply _ _ _ _ hq => cases hq <;> exact .inl rfl
  | fallbackReply _ hphase _ hrun hq =>
    have hrun' := fallbackRespond_sealRun hrun
    cases hq <;> exact .inr ⟨by rw [hphase]; rfl, _, _, hrun'⟩
  | _ => exact .inl rfl

theorem Refusal.unsealed {keys : SessionKeys} {f : ParsedFrame} {pre : Tr} {site : FailSite}
    (h : Refusal P s keys f pre site) : seals pre = [] := by
  cases h <;> rfl

theorem SealAccount.unsealed (h : SealAccount P s₀ t s) (hhs : s.phase.handshaking = true) :
    seals t = [] := by
  cases h with
  | unkeyed h _ => exact h
  | keyed _ _ hh _ => rw [hhs] at hh; cases hh

theorem SealAccount.close {s' : FdState} {u : Tr} (h : SealAccount P s₀ t s)
    (hs' : s'.phase = .failed) (hu : seals u = []) : SealAccount P s₀ (t ++ u) s' :=
  h.keep hu (by simp [hs', FdPhase.handshaking]) (by simp [hs'])

theorem History.sealAccount (h : History P aside s₀ t s pd) : SealAccount P s₀ t s := by
  induction h with
  | start =>
    cases hphase : s₀.phase with
    | active keys =>
      exact .keyed (.active hphase rfl) .nil (by rw [hphase]; rfl)
        fun keys' h => by rw [hphase] at h; cases h; rfl
    | _ => exact .unkeyed rfl (by simp [hphase])
  | quiet _ o ho r ih =>
    exact ih.keep (Op.mute_inert (Op.mute_of_quiet ho) r).2 id fun keys h => ⟨keys, h, rfl⟩
  | sent _ _ _ _ _ ih | stalled _ _ _ _ _ _ ih | pulled _ _ _ _ _ _ _ _ ih
  | unread _ _ _ _ _ _ ih | delivered _ _ _ ih | queued _ _ _ _ ih | restamped _ _ _ ih =>
    exact ih.keep rfl id fun keys h => ⟨keys, h, rfl⟩
  | @activated t s f rest keys origin pre fr h _ ha ih =>
    have hhs := ha.handshaking
    have hseals : seals (t ++ noted (.popped f) :: pre ++ activateSeg s keys origin) =
        seals pre := by simp [ih.unsealed hhs]
    rw [(h.handshaking_untouched hhs).1] at hhs
    have hfresh : (Direction.new keys.tx.key).counter = 0 := rfl
    refine .keyed (.fresh hhs hfresh) (d := keys.tx) ?_ rfl fun keys' hk => ?_
    · rw [hseals]
      exact ha.sealRun
    · cases hk
      rfl
  | @rejected t s f rest pre site h _ _ hr ih =>
    rcases hr.sealRun with hnone | ⟨hhs, key, d, hrun⟩
    · rw [List.append_assoc]
      exact ih.close rfl (by simp [hnone])
    · have hseals : seals (t ++ noted (.popped f) :: pre ++ failSeg s site) = seals pre := by
        simp [ih.unsealed hhs]
      rw [(h.handshaking_untouched hhs).1] at hhs
      have hfresh : (Direction.new key).counter = 0 := rfl
      refine .keyed (.fresh hhs hfresh) (d := d) ?_ rfl (by simp)
      rwa [hseals]
  | opened _ hphase _ _ _ hopen _ ih =>
    obtain ⟨-, rfl, -⟩ := SessionKeys.open_eq_ok.mp hopen
    refine ih.keep rfl (fun hh => by cases hh) fun keys' h => ?_
    cases h
    exact ⟨_, hphase, rfl⟩
  | refused _ _ _ hr ih =>
    rw [List.append_assoc]
    exact ih.close rfl (by simp [hr.unsealed])
  | @sealed t s keys keys' chunk ct _ hphase _ hseal ih =>
    obtain ⟨hc, hp, rfl, rfl⟩ := SessionKeys.seal_eq_ok.mp hseal
    cases ih with
    | unkeyed _ hs => exact absurd hphase (hs keys)
    | keyed hout hrun _ hs =>
      refine .keyed (d := keys.tx.advance) hout ?_ rfl fun keys' hk => by cases hk; rfl
      rw [← hs keys hphase] at hrun
      rw [seals_append]
      exact hrun.concat ⟨Direction.seal_eq_ok.mpr ⟨hc, hp, rfl, rfl⟩, rfl, rfl⟩
  | failed _ _ ih | retired _ _ _ _ ih => exact ih.close rfl (by simp)
  | flooded _ _ _ _ _ _ _ _ _ ih =>
    rw [List.append_assoc]
    exact ih.close rfl (by simp)

/-- The seals of a session at any time, also inside a step. -/
theorem Between.sealRun (h : Between P aside s₀ t) :
    seals t = [] ∨ ∃ d₀ d, Outset s₀ d₀ ∧ SealRun P d₀ (seals t) d := by
  obtain ⟨t₀, u, s, pd, rfl, hh, hu⟩ := h
  have hacc := hh.sealAccount
  rcases hu.seals with hnone | ⟨psk, hello, nonce, keys, reply, hphase, hrun, -, hone⟩
  · rw [seals_append, hnone, List.append_nil]
    cases hacc with
    | unkeyed h _ => exact .inl h
    | keyed hout hrun _ _ => exact .inr ⟨_, _, hout, hrun⟩
  · have hhs : s.phase.handshaking = true := by rw [hphase]; rfl
    rw [seals_append, hacc.unsealed hhs, hone]
    rw [(hh.handshaking_untouched hhs).1] at hhs
    exact .inr ⟨_, _, .fresh hhs rfl, fallbackRespond_sealRun hrun⟩

/-- The seals that `overlay_send` made, among all of a trace. -/
def recordSeals (t : Tr) : List Seal := (seals t).filter fun x => x.who = .record

theorem records_eq_recordSeals (t : Tr) :
    records t = (recordSeals t).map fun x => (x.plaintext, x.ct) := by
  induction t with
  | nil => rfl
  | cons e t ih =>
    have hcons : records (e :: t) = Ev.record e ++ records t := rfl
    have hseals : seals (e :: t) = Ev.seal e ++ seals t := rfl
    rw [hcons, ih, recordSeals, recordSeals, hseals, List.filter_append, List.map_append]
    congr 1
    rcases e with ⟨o, r⟩
    cases o with
    | note n =>
      cases n with
      | sealed who => cases who <;> rfl
      | _ => rfl
    | _ => rfl

theorem History.seals_active (h : History P aside s₀ t s pd)
    (hs₀ : s₀.phase.handshaking = false) : seals t = recordSeals t := by
  have hphase : ∀ {t s pd}, History P aside s₀ t s pd → s.phase.handshaking = false := by
    intro t s pd h
    by_contra hne
    have hhs : s.phase.handshaking = true := by simpa using hne
    rw [(h.handshaking_untouched hhs).1, hs₀] at hhs
    cases hhs
  have hadd : ∀ {t u : Tr}, seals t = recordSeals t → seals u = recordSeals u →
      seals (t ++ u) = recordSeals (t ++ u) := by
    intro t u ht hu
    rw [seals_append, recordSeals, seals_append, List.filter_append, ← recordSeals, ← recordSeals,
      ← ht, ← hu]
  have hnone : ∀ {u : Tr}, seals u = [] → seals u = recordSeals u := by
    intro u hu
    rw [recordSeals, hu]
    rfl
  induction h with
  | start => rfl
  | quiet _ o ho r ih => exact hadd ih (hnone (Op.mute_inert (Op.mute_of_quiet ho) r).2)
  | sent _ _ _ _ _ ih | stalled _ _ _ _ _ _ ih | pulled _ _ _ _ _ _ _ _ ih
  | unread _ _ _ _ _ _ ih | delivered _ _ _ ih | queued _ _ _ _ ih | restamped _ _ _ ih
  | opened _ _ _ _ _ _ _ ih | sealed _ _ _ _ ih => exact hadd ih rfl
  | activated h _ ha _ =>
    have hhs := ha.handshaking
    rw [hphase h] at hhs
    cases hhs
  | rejected h _ _ hr ih =>
    rcases hr.sealRun with hpre | ⟨hhs, -⟩
    · rw [List.append_assoc]
      exact hadd ih (hnone (by simp [hpre]))
    · rw [hphase h] at hhs
      cases hhs
  | refused _ _ _ hr ih =>
    rw [List.append_assoc]
    exact hadd ih (hnone (by simp [hr.unsealed]))
  | failed _ _ ih | retired _ _ _ _ ih => exact hadd ih (hnone (by simp))
  | flooded _ _ _ _ _ _ _ _ _ ih =>
    rw [List.append_assoc]
    exact hadd ih (hnone (by simp))

end

/-! ### Records opened -/

/-- A call of `SessionKeys::open` of `overlay_recv` that succeeded. -/
structure Unseal where
  key : ByteArr 32
  nonce : ByteArr 12
  ct : Bytes
  plaintext : Bytes
  deriving DecidableEq

def Ev.opening : Ev Resp → List Unseal
  | ⟨.note (.opened key nonce ct pt), _⟩ => [⟨key, nonce, ct, pt⟩]
  | _ => []

/-- A frame taken off the receive buffer. -/
def Ev.pop : Ev Resp → List ParsedFrame
  | ⟨.note (.popped f), _⟩ => [f]
  | _ => []

def openings (t : Tr) : List Unseal := t.flatMap Ev.opening
def pops (t : Tr) : List ParsedFrame := t.flatMap Ev.pop

/-- The plaintext of all records opened. -/
def openedPlain (t : Tr) : Bytes := (openings t).flatMap Unseal.plaintext

/-- The data frame a record came in. -/
def Unseal.frame (suite : CipherSuite) (x : Unseal) : ParsedFrame := ⟨suite.id, typeData, x.ct⟩

section
variable (t u : Tr) (s : FdState) (site : FailSite) (keys : SessionKeys) (origin : Origin)
  (f : ParsedFrame)

@[simp] theorem openings_append : openings (t ++ u) = openings t ++ openings u :=
  List.flatMap_append
@[simp] theorem pops_append : pops (t ++ u) = pops t ++ pops u := List.flatMap_append
@[simp] theorem openedPlain_append : openedPlain (t ++ u) = openedPlain t ++ openedPlain u := by
  simp only [openedPlain, openings_append, List.flatMap_append]
@[simp] theorem openings_failSeg : openings (failSeg s site) = [] := by
  unfold failSeg; split <;> rfl
@[simp] theorem pops_failSeg : pops (failSeg s site) = [] := by
  unfold failSeg; split <;> rfl
@[simp] theorem openings_activateSeg : openings (activateSeg s keys origin) = [] := by
  unfold activateSeg; split <;> rfl
@[simp] theorem pops_activateSeg : pops (activateSeg s keys origin) = [] := by
  unfold activateSeg; split <;> rfl
@[simp] theorem openings_popped : openings (noted (.popped f) :: t) = openings t := rfl
@[simp] theorem pops_popped : pops (noted (.popped f) :: t) = f :: pops t := rfl
@[simp] theorem openings_read (flags : Flags) (r : RecvResult) :
    openings (⟨.recv flags, r⟩ :: t) = openings t := rfl
@[simp] theorem pops_read (flags : Flags) (r : RecvResult) :
    pops (⟨.recv flags, r⟩ :: t) = pops t := rfl

end

/-- Calls that take no frame off the buffer and open none. -/
structure Unread (u : Tr) : Prop where
  pops : pops u = []
  openings : openings u = []

theorem Op.unread_of_quiet {o : Op} (ho : o.quiet = true) (r : Resp o) : Unread [⟨o, r⟩] := by
  cases o with
  | note n => cases n <;> first | exact ⟨rfl, rfl⟩ | cases ho
  | _ => exact ⟨rfl, rfl⟩

section
variable {P : Primitives} {s : FdState} {f : ParsedFrame} {pre : Tr}

theorem Activation.unread {keys : SessionKeys} {origin : Origin} {fr : Bytes}
    (h : Activation P s f keys origin pre fr) : Unread pre := by
  cases h <;> exact ⟨rfl, rfl⟩

theorem Rejection.unread {site : FailSite} (h : Rejection P s f pre site) : Unread pre := by
  cases h with
  | helloReply _ _ _ _ hq => cases hq <;> exact ⟨rfl, rfl⟩
  | fallbackReply _ _ _ _ hq => cases hq <;> exact ⟨rfl, rfl⟩
  | _ => exact ⟨rfl, rfl⟩

end

section
variable {P : Primitives} {s : FdState} {keys : SessionKeys} {f : ParsedFrame} {pre : Tr}
  {site : FailSite}

theorem Refusal.pops (h : Refusal P s keys f pre site) : pops pre = [] := by
  cases h <;> rfl

/-- A refused frame was opened only if its plaintext has no room. -/
theorem Refusal.openings (h : Refusal P s keys f pre site) :
    openings pre = [] ∨ ∃ keys' pt, f.tag = typeData ∧ f.suiteId = s.policySuite.id ∧
      keys.open P f.payload = .ok (keys', pt) ∧
      openings pre = [⟨keys.rx.key, nonceFromCounter keys.rx.counter, f.payload, pt⟩] := by
  cases h with
  | suite | tag | «open» => exact .inl rfl
  | plain htag hsuite hopen _ => exact .inr ⟨_, _, htag, hsuite, hopen, rfl⟩

end

/-- The record `x` is what the direction `d` accepts. -/
structure Unseal.By (P : Primitives) (d : Direction) (x : Unseal) : Prop where
  open_eq : d.open P x.ct = .ok (d.advance, x.plaintext)
  key_eq : x.key = d.key
  nonce_eq : x.nonce = nonceFromCounter d.counter

/-- `OpenRun P d l d'`: the direction `d` opens the records `l` one after the other
and is `d'` then. -/
abbrev OpenRun (P : Primitives) (d : Direction) (l : List Unseal) (d' : Direction) : Prop :=
  d.Run (Unseal.By P) l d'

/-- The account of what an active session with keys `k₀` has read: the records are
opened in order, the frames taken off the buffer are theirs, but for a last one
that closed the session, and their plaintext is delivered or waits. -/
structure ReadAccount (P : Primitives) (s₀ : FdState) (k₀ : SessionKeys) (t : Tr) (s : FdState) :
    Prop where
  suite : s.policySuite = s₀.policySuite
  run : ∃ d, OpenRun P k₀.rx (openings t) d ∧ ∀ keys, s.phase = .active keys → keys.rx = d
  pops_alive : s.phase ≠ .failed → pops t = (openings t).map (Unseal.frame s₀.policySuite)
  pops_eq : ∃ l, l.length ≤ 1 ∧ pops t = (openings t).map (Unseal.frame s₀.policySuite) ++ l
  plain_alive : s.phase ≠ .failed → deliveredBytes t ++ s.rxPlain = s₀.rxPlain ++ openedPlain t
  delivered : deliveredBytes t <+: s₀.rxPlain ++ openedPlain t

section
variable {P : Primitives} {aside : Prop} {s₀ s : FdState} {k₀ : SessionKeys} {t : Tr}
  {pd : Option Bytes}

theorem ReadAccount.keep {u : Tr} {s' : FdState} (h : ReadAccount P s₀ k₀ t s) (hu : Unread u)
    (hd : deliveredBytes u = []) (hsuite : s'.policySuite = s.policySuite)
    (hlive : s'.phase ≠ .failed → s.phase ≠ .failed)
    (hkeys : ∀ keys, s'.phase = .active keys →
      ∃ keys', s.phase = .active keys' ∧ keys'.rx = keys.rx)
    (hplain : s'.phase ≠ .failed → s'.rxPlain = s.rxPlain) : ReadAccount P s₀ k₀ (t ++ u) s' := by
  have hopen : openings (t ++ u) = openings t := by
    rw [openings_append, hu.openings, List.append_nil]
  have hpops : pops (t ++ u) = pops t := by rw [pops_append, hu.pops, List.append_nil]
  have hdel : deliveredBytes (t ++ u) = deliveredBytes t := by
    rw [deliveredBytes_append, hd, List.append_nil]
  have hplains : openedPlain (t ++ u) = openedPlain t := by rw [openedPlain, hopen, openedPlain]
  refine ⟨hsuite.trans h.suite, ?_, ?_, ?_, ?_, ?_⟩
  · obtain ⟨d, hrun, hd⟩ := h.run
    refine ⟨d, by rwa [hopen], fun keys hk => ?_⟩
    obtain ⟨keys', hactive, hrx⟩ := hkeys keys hk
    exact hrx ▸ hd keys' hactive
  · rw [hpops, hopen]
    exact fun hs' => h.pops_alive (hlive hs')
  · rw [hpops, hopen]
    exact h.pops_eq
  · rw [hdel, hplains]
    exact fun hs' => hplain hs' ▸ h.plain_alive (hlive hs')
  · rw [hdel, hplains]
    exact h.delivered

theorem ReadAccount.refuse {u : Tr} (f : ParsedFrame) (h : ReadAccount P s₀ k₀ t s)
    (hlive : s.phase ≠ .failed) (hpops : pops u = [f]) (hopen : openings u = [])
    (hd : deliveredBytes u = []) : ReadAccount P s₀ k₀ (t ++ u) s.closed := by
  refine ⟨h.suite, ?_, fun hf => absurd rfl hf, ⟨[f], le_rfl, ?_⟩, fun hf => absurd rfl hf, ?_⟩
  · obtain ⟨d, hrun, -⟩ := h.run
    exact ⟨d, by rwa [openings_append, hopen, List.append_nil], fun keys hk => by cases hk⟩
  · rw [pops_append, hpops, h.pops_alive hlive, openings_append, hopen, List.append_nil]
  · have hnone : openedPlain u = [] := by rw [openedPlain, hopen]; rfl
    rw [deliveredBytes_append, hd, openedPlain_append, hnone, List.append_nil, List.append_nil]
    exact h.delivered

theorem ReadAccount.open {f : ParsedFrame} {keys keys' : SessionKeys} {pt : Bytes} {s' : FdState}
    {u : Tr} (h : ReadAccount P s₀ k₀ t s) (hphase : s.phase = .active keys)
    (htag : f.tag = typeData) (hsuite : f.suiteId = s.policySuite.id)
    (hopen : keys.open P f.payload = .ok (keys', pt)) (hpops : pops u = [f])
    (hopens : openings u = [⟨keys.rx.key, nonceFromCounter keys.rx.counter, f.payload, pt⟩])
    (hd : deliveredBytes u = []) (hs : s'.policySuite = s.policySuite)
    (hkeys : ∀ k, s'.phase = .active k → k.rx = keys'.rx)
    (hplain : s'.phase ≠ .failed → s'.rxPlain = s.rxPlain ++ pt) :
    ReadAccount P s₀ k₀ (t ++ u) s' := by
  obtain ⟨hc, rfl, hdec⟩ := SessionKeys.open_eq_ok.mp hopen
  have hlive : s.phase ≠ .failed := by simp [hphase]
  have hpops' : pops (t ++ u) = (openings (t ++ u)).map (Unseal.frame s₀.policySuite) := by
    rw [pops_append, openings_append, hpops, hopens, h.pops_alive hlive, List.map_append]
    have hf : f = ⟨s₀.policySuite.id, typeData, f.payload⟩ := by
      rw [← h.suite, ← hsuite, ← htag]
    conv_lhs => rw [hf]
    rfl
  have hdel : deliveredBytes (t ++ u) = deliveredBytes t := by
    rw [deliveredBytes_append, hd, List.append_nil]
  have hopened : openedPlain (t ++ u) = openedPlain t ++ pt := by
    simp [openedPlain, hopens]
  refine ⟨hs.trans h.suite, ?_, fun _ => hpops', ⟨[], Nat.zero_le _, by simpa using hpops'⟩, ?_, ?_⟩
  · obtain ⟨d, hrun, hdk⟩ := h.run
    obtain rfl := hdk keys hphase
    refine ⟨keys.rx.advance, ?_, hkeys⟩
    rw [openings_append, hopens]
    exact hrun.snoc hc ⟨Direction.open_eq_ok.mpr ⟨hc, rfl, hdec⟩, rfl, rfl⟩
  · intro hs'
    rw [hdel, hopened, hplain hs', ← List.append_assoc, h.plain_alive hlive, List.append_assoc]
  · rw [hdel, hopened, ← List.append_assoc]
    exact h.delivered.trans (List.prefix_append _ _)

theorem tryPopFrame_nil : tryPopFrame [] = .ok none := rfl

theorem History.readAccount (h : History P aside s₀ t s pd) (hs₀ : s₀.Sound)
    (hactive : s₀.phase = .active k₀) : ReadAccount P s₀ k₀ t s := by
  have hphase : ∀ {t s pd}, History P aside s₀ t s pd → s.phase.handshaking = true → False := by
    intro t s pd h hhs
    rw [(h.handshaking_untouched hhs).1, hactive] at hhs
    cases hhs
  induction h with
  | start =>
    exact ⟨rfl, ⟨k₀.rx, .nil, fun keys hk => by rw [hactive] at hk; cases hk; rfl⟩, fun _ => rfl,
      ⟨[], Nat.zero_le _, rfl⟩, fun _ => (List.append_nil _).symm, List.nil_prefix⟩
  | quiet _ o ho r ih =>
    exact ih.keep (Op.unread_of_quiet ho r) (Op.inert_of_quiet ho r).delivered rfl id
      (fun keys hk => ⟨keys, hk, rfl⟩) fun _ => rfl
  | sent _ _ _ _ _ ih | stalled _ _ _ _ _ _ ih | pulled _ _ _ _ _ _ _ _ ih
  | unread _ _ _ _ _ _ ih | queued _ _ _ _ ih | restamped _ _ _ ih =>
    exact ih.keep ⟨rfl, rfl⟩ rfl rfl id (fun keys hk => ⟨keys, hk, rfl⟩) fun _ => rfl
  | activated h _ ha _ => exact absurd ha.handshaking (fun hhs => hphase h hhs)
  | @rejected t s f rest pre site h _ hpop hr ih =>
    have hlive : s.phase ≠ .failed := by
      intro hf
      rw [((h.sound hs₀).failed_empty hf).2.1, tryPopFrame_nil] at hpop
      cases hpop
    rw [List.append_assoc]
    exact ih.refuse f hlive (by simp [hr.unread.pops]) (by simp [hr.unread.openings])
      (by simp [hr.inert.delivered])
  | opened _ hph _ htag hsuite hopen _ ih =>
    refine ih.open hph htag hsuite hopen rfl rfl rfl rfl (fun k hk => ?_) fun _ => rfl
    cases hk
    rfl
  | @refused t s keys f rest pre site _ hph _ hr ih =>
    have hlive : s.phase ≠ .failed := by simp [hph]
    rw [List.append_assoc]
    have hd : deliveredBytes (noted (.popped f) :: pre ++ failSeg s site) = [] := by
      simp [hr.inert.delivered]
    have hpops : pops (noted (.popped f) :: pre ++ failSeg s site) = [f] := by
      simp [hr.pops]
    rcases hr.openings with hopen | ⟨keys', pt, htag, hsuite, hopen, hone⟩
    · exact ih.refuse f hlive hpops (by simp [hopen]) hd
    · exact ih.open hph htag hsuite hopen hpops (by simp [hone]) hd rfl
        (fun k hk => by cases hk) fun hf => absurd rfl hf
  | @delivered t s h n hn ih =>
    have hdel : deliveredBytes (t ++ [noted (.delivered (s.rxPlain.take n))]) =
        deliveredBytes t ++ s.rxPlain.take n := by
      rw [deliveredBytes_append]
      exact congrArg _ (List.append_nil _)
    have hopened : openedPlain (t ++ [noted (.delivered (s.rxPlain.take n))]) = openedPlain t := by
      rw [openedPlain_append]
      exact List.append_nil _
    have hopen : openings (t ++ [noted (.delivered (s.rxPlain.take n))]) = openings t := by
      rw [openings_append]
      exact List.append_nil _
    have hpops : pops (t ++ [noted (.delivered (s.rxPlain.take n))]) = pops t := by
      rw [pops_append]
      exact List.append_nil _
    -- plaintext waits only in a session that is alive
    have hlive : s.phase ≠ .failed := by
      intro hf
      have hempty := ((h.sound hs₀).failed_empty hf).2.2
      rw [hempty] at hn
      simp at hn
      omega
    have hplain := ih.plain_alive hlive
    refine ⟨ih.suite, by rw [hopen]; exact ih.run, ?_, ?_, fun _ => ?_, ?_⟩
    · rw [hpops, hopen]
      exact ih.pops_alive
    · rw [hpops, hopen]
      exact ih.pops_eq
    · rw [hdel, hopened, ← hplain, List.append_assoc, List.take_append_drop]
    · rw [hdel, hopened, ← hplain, List.prefix_append_right_inj]
      exact List.take_prefix _ _
  | sealed _ hph _ hseal ih =>
    obtain ⟨-, -, rfl, -⟩ := SessionKeys.seal_eq_ok.mp hseal
    refine ih.keep ⟨rfl, rfl⟩ rfl rfl (fun _ => by simp [hph]) (fun keys hk => ?_) fun _ => rfl
    cases hk
    exact ⟨_, hph, rfl⟩
  | failed _ _ ih | retired _ _ _ _ ih =>
    exact ih.keep ⟨by simp, by simp⟩ (by simp) rfl (fun hf => absurd rfl hf)
      (fun keys hk => by cases hk) fun hf => absurd rfl hf
  | flooded _ _ _ _ _ _ _ _ _ ih =>
    rw [List.append_assoc]
    exact ih.keep ⟨by simp, by simp⟩ (by simp) rfl (fun hf => absurd rfl hf)
      (fun keys hk => by cases hk) fun hf => absurd rfl hf

end

/-! ### Bytes received -/

/-- What a session has made of the bytes it was given: frames were taken off at the
front, and the rest waits. -/
structure Buffered (s₀ : FdState) (t : Tr) (s : FdState) : Prop where
  fits : ∀ f ∈ pops t, f.payload.length + 2 ≤ maxFrameBody
  popped : framesBytes (pops t) <+: s₀.rxWire ++ receivedBytes t
  alive : s.phase ≠ .failed → s₀.rxWire ++ receivedBytes t = framesBytes (pops t) ++ s.rxWire

section
variable {P : Primitives} {aside : Prop} {s₀ s s' : FdState} {t u : Tr} {pd : Option Bytes}

theorem Buffered.keep (h : Buffered s₀ t s) (hu : pops u = [])
    (hlive : s'.phase ≠ .failed →
      s.phase ≠ .failed ∧ s'.rxWire = s.rxWire ++ receivedBytes u) : Buffered s₀ (t ++ u) s' := by
  have hpops : pops (t ++ u) = pops t := by rw [pops_append, hu, List.append_nil]
  refine ⟨by rw [hpops]; exact h.fits, ?_, fun hs' => ?_⟩
  · rw [hpops, receivedBytes_append, ← List.append_assoc]
    exact h.popped.trans (List.prefix_append _ _)
  · obtain ⟨hs, hwire⟩ := hlive hs'
    rw [hpops, receivedBytes_append, ← List.append_assoc, h.alive hs, hwire, List.append_assoc]

theorem Buffered.pop {f : ParsedFrame} {rest : Bytes} (h : Buffered s₀ t s)
    (hs : s.phase ≠ .failed) (hpop : tryPopFrame s.rxWire = .ok (some (f, rest)))
    (hu : pops u = [f]) (hr : receivedBytes u = [])
    (hlive : s'.phase ≠ .failed → s'.rxWire = rest) : Buffered s₀ (t ++ u) s' := by
  obtain ⟨hwire, hfits⟩ := tryPopFrame_eq_some hpop
  have hpops : framesBytes (pops (t ++ u)) = framesBytes (pops t) ++ f.bytes := by
    rw [pops_append, hu, framesBytes_append]
    exact congrArg _ (List.append_nil _)
  have hrec : s₀.rxWire ++ receivedBytes (t ++ u) = framesBytes (pops (t ++ u)) ++ rest := by
    rw [receivedBytes_append, hr, List.append_nil, h.alive hs, hpops, hwire, List.append_assoc]
  refine ⟨fun g hg => ?_, hrec ▸ List.prefix_append _ _, fun hs' => by rw [hrec, hlive hs']⟩
  rw [pops_append, hu] at hg
  rcases List.mem_append.mp hg with hg | hg
  · exact h.fits g hg
  · rwa [List.mem_singleton.mp hg]

theorem History.buffered (h : History P aside s₀ t s pd) (hs₀ : s₀.Sound) : Buffered s₀ t s := by
  have hlive : ∀ {t s pd f rest}, History P aside s₀ t s pd →
      tryPopFrame s.rxWire = .ok (some (f, rest)) → s.phase ≠ .failed := by
    intro t s pd f rest h hpop hf
    rw [((h.sound hs₀).failed_empty hf).2.1, tryPopFrame_nil] at hpop
    cases hpop
  induction h with
  | start =>
    exact ⟨fun f hf => (by cases hf), List.nil_prefix, fun _ => List.append_nil _⟩
  | quiet _ o ho r ih =>
    refine ih.keep (Op.unread_of_quiet ho r).pops fun hs => ⟨hs, ?_⟩
    rw [(Op.inert_of_quiet ho r).received, List.append_nil]
  | sent _ _ _ _ _ ih | stalled _ _ _ _ _ _ ih | delivered _ _ _ ih | queued _ _ _ _ ih
  | restamped _ _ _ ih => exact ih.keep rfl fun hs => ⟨hs, (List.append_nil _).symm⟩
  | pulled _ _ _ _ _ d _ _ ih =>
    exact ih.keep rfl fun hs => ⟨hs, congrArg _ (List.append_nil d).symm⟩
  | unread _ _ _ flags _ hr ih =>
    refine ih.keep rfl fun hs => ⟨hs, ?_⟩
    rw [receivedBytes_unread flags hr, List.append_nil]
  | activated h hpop ha ih =>
    rw [List.append_assoc]
    exact ih.pop (hlive h hpop) hpop (by simp [ha.unread.pops]) (by simp [ha.inert.received])
      fun _ => rfl
  | rejected h _ hpop hr ih =>
    rw [List.append_assoc]
    exact ih.pop (hlive h hpop) hpop (by simp [hr.unread.pops]) (by simp [hr.inert.received])
      fun hs => absurd rfl hs
  | opened h _ hpop _ _ _ _ ih => exact ih.pop (hlive h hpop) hpop rfl rfl fun _ => rfl
  | refused h _ hpop hr ih =>
    rw [List.append_assoc]
    exact ih.pop (hlive h hpop) hpop (by simp [hr.pops]) (by simp [hr.inert.received])
      fun hs => absurd rfl hs
  | sealed _ hphase _ _ ih =>
    exact ih.keep rfl fun _ => ⟨by simp [hphase], (List.append_nil _).symm⟩
  | failed _ _ ih | retired _ _ _ _ ih => exact ih.keep (by simp) fun hs => absurd rfl hs
  | flooded _ _ _ _ _ _ _ _ _ ih =>
    rw [List.append_assoc]
    exact ih.keep (by simp) fun hs => absurd rfl hs

/-- A session that lives has ended its handshake with the first frame it took off the
buffer. -/
theorem History.handshaking_iff (h : History P aside s₀ t s pd)
    (hhs₀ : s₀.phase.handshaking = true) (hlive : s.phase ≠ .failed) :
    s.phase.handshaking = true ↔ pops t = [] := by
  induction h with
  | start => exact ⟨fun _ => rfl, fun _ => hhs₀⟩
  | quiet _ o ho r ih =>
    rw [pops_append, (Op.unread_of_quiet ho r).pops, List.append_nil]
    exact ih hlive
  | sent _ _ _ _ _ ih | stalled _ _ _ _ _ _ ih | pulled _ _ _ _ _ _ _ _ ih
  | unread _ _ _ _ _ _ ih | delivered _ _ _ ih | queued _ _ _ _ ih =>
    rw [pops_append]
    exact (ih hlive).trans (by rw [List.append_eq_nil_iff]; exact (and_iff_left rfl).symm)
  | activated | opened => simp [FdPhase.handshaking, pops, Ev.pop]
  | sealed _ hphase _ _ ih =>
    have hnot := ih (by simp [hphase])
    rw [hphase] at hnot
    rw [pops_append, List.append_eq_nil_iff]
    exact ⟨fun hhs => (by cases hhs), fun hnil => hnot.mpr hnil.1⟩
  | restamped _ hphase => exact absurd hphase hlive
  | rejected | refused | failed | retired | flooded => exact absurd rfl hlive

end

/-! ### Plaintext is conserved -/

section
variable {P : Primitives} {aside : Prop} {s₀ s : FdState} {t : Tr} {pd : Option Bytes}

/-- While a session lives, what it has delivered and what waits in it is what waited at first
and what it has opened since. -/
theorem History.plaintext (h : History P aside s₀ t s pd) (hlive : s.phase ≠ .failed) :
    deliveredBytes t ++ s.rxPlain = s₀.rxPlain ++ openedPlain t := by
  have hkeep : ∀ {t u : Tr} {b : Bytes}, deliveredBytes t ++ b = s₀.rxPlain ++ openedPlain t →
      deliveredBytes u = [] → openings u = [] →
      deliveredBytes (t ++ u) ++ b = s₀.rxPlain ++ openedPlain (t ++ u) := by
    intro t u b heq hd ho
    rw [deliveredBytes_append, hd, openedPlain, openings_append, ho, List.append_nil,
      List.append_nil, heq, openedPlain]
  induction h with
  | start => exact (List.append_nil _).symm
  | quiet _ o ho r ih =>
    exact hkeep (ih hlive) (Op.inert_of_quiet ho r).delivered (Op.unread_of_quiet ho r).openings
  | sent _ _ _ _ _ ih | stalled _ _ _ _ _ _ ih | pulled _ _ _ _ _ _ _ _ ih
  | unread _ _ _ _ _ _ ih | queued _ _ _ _ ih => exact hkeep (ih hlive) rfl rfl
  | activated h _ ha ih =>
    have hphase := ha.handshaking
    rw [List.append_assoc]
    refine hkeep (ih fun hf => ?_) ?_ ?_
    · rw [hf] at hphase
      cases hphase
    · simp [ha.inert.delivered]
    · simp [ha.unread.openings]
  | opened _ hphase _ _ _ _ _ ih =>
    rw [deliveredBytes_append, openedPlain_append, ← List.append_assoc s₀.rxPlain,
      ← ih (by simp [hphase])]
    simp [deliveredBytes, Ev.delivered, openedPlain, openings, Ev.opening]
  | delivered _ n _ ih =>
    rw [deliveredBytes_append, openedPlain_append, ← List.append_assoc s₀.rxPlain, ← ih hlive]
    simp [deliveredBytes, Ev.delivered, openedPlain, openings, Ev.opening]
  | sealed _ hphase _ _ ih => exact hkeep (ih (by simp [hphase])) rfl rfl
  | rejected | refused | failed | retired | flooded => exact absurd rfl hlive
  | restamped _ hphase => exact absurd hphase hlive

/-- What a session has delivered it has opened, whether it is still alive or not. -/
theorem History.delivered_le (h : History P aside s₀ t s pd) (hs₀ : s₀.Sound) :
    deliveredBytes t <+: s₀.rxPlain ++ openedPlain t := by
  have hkeep : ∀ {t u : Tr}, deliveredBytes t <+: s₀.rxPlain ++ openedPlain t →
      deliveredBytes u = [] → deliveredBytes (t ++ u) <+: s₀.rxPlain ++ openedPlain (t ++ u) := by
    intro t u hle hu
    rw [deliveredBytes_append, hu, List.append_nil, openedPlain_append, ← List.append_assoc]
    exact hle.trans (List.prefix_append _ _)
  induction h with
  | start => exact List.nil_prefix
  | quiet _ o ho r ih => exact hkeep ih (Op.inert_of_quiet ho r).delivered
  | sent _ _ _ _ _ ih | stalled _ _ _ _ _ _ ih | pulled _ _ _ _ _ _ _ _ ih
  | unread _ _ _ _ _ _ ih | queued _ _ _ _ ih | restamped _ _ _ ih | opened _ _ _ _ _ _ _ ih
  | sealed _ _ _ _ ih => exact hkeep ih rfl
  | activated _ _ ha ih =>
    rw [List.append_assoc]
    exact hkeep ih (by simp [ha.inert.delivered])
  | rejected _ _ _ hr ih =>
    rw [List.append_assoc]
    exact hkeep ih (by simp [hr.inert.delivered])
  | refused _ _ _ hr ih =>
    rw [List.append_assoc]
    exact hkeep ih (by simp [hr.inert.delivered])
  | failed _ _ ih | retired _ _ _ _ ih => exact hkeep ih (by simp)
  | flooded _ _ _ _ _ _ _ _ _ ih =>
    rw [List.append_assoc]
    exact hkeep ih (by simp)
  | @delivered t s h n hn ih =>
    -- plaintext waits only in a session that is alive
    have hlive : s.phase ≠ .failed := by
      intro hf
      rw [((h.sound hs₀).failed_empty hf).2.2] at hn
      simp at hn
      omega
    have hopened : openedPlain (t ++ [noted (.delivered (s.rxPlain.take n))]) = openedPlain t := by
      rw [openedPlain_append]
      exact List.append_nil _
    have hdel : deliveredBytes (t ++ [noted (.delivered (s.rxPlain.take n))]) =
        deliveredBytes t ++ s.rxPlain.take n := by
      rw [deliveredBytes_append]
      exact congrArg _ (List.append_nil _)
    rw [hdel, hopened, ← h.plaintext hlive, List.prefix_append_right_inj]
    exact List.take_prefix _ _

/-- Only what was taken off the buffer is opened. -/
theorem History.unopened (h : History P aside s₀ t s pd) (hpops : pops t = []) :
    openings t = [] := by
  have hkeep : ∀ {t u : Tr}, (pops t = [] → openings t = []) → pops (t ++ u) = [] →
      openings u = [] → openings (t ++ u) = [] := by
    intro t u ih hpops hu
    rw [pops_append, List.append_eq_nil_iff] at hpops
    rw [openings_append, ih hpops.1, hu]
    rfl
  induction h with
  | start => rfl
  | quiet _ o ho r ih => exact hkeep ih hpops (Op.unread_of_quiet ho r).openings
  | sent _ _ _ _ _ ih | stalled _ _ _ _ _ _ ih | pulled _ _ _ _ _ _ _ _ ih
  | unread _ _ _ _ _ _ ih | delivered _ _ _ ih | queued _ _ _ _ ih | restamped _ _ _ ih
  | sealed _ _ _ _ ih => exact hkeep ih hpops rfl
  | activated | rejected | opened | refused => simp [pops, Ev.pop] at hpops
  | failed _ _ ih | retired _ _ _ _ ih => exact hkeep ih hpops (by simp)
  | flooded _ _ _ _ _ _ _ _ _ ih =>
    rw [List.append_assoc] at hpops ⊢
    exact hkeep ih hpops (by simp)

end

/-! ### The keys of an active session -/

section
variable {P : Primitives} {aside : Prop} {s₀ s : FdState} {t : Tr} {pd : Option Bytes}

/-- An active session has the keys of its one activation. -/
theorem History.keyed (h : History P aside s₀ t s pd) (hs₀ : ∀ keys, s₀.phase ≠ .active keys)
    {k : SessionKeys} (hk : s.phase = .active k) :
    ∃ a, activations t = [a] ∧ k.tx.key = a.1.tx.key ∧ k.rx.key = a.1.rx.key := by
  induction h generalizing k with
  | start => exact absurd hk (hs₀ k)
  | quiet _ o ho r ih =>
    rw [activations_append, (Op.inert_of_quiet ho r).activations, List.append_nil]
    exact ih hk
  | sent _ _ _ _ _ ih | stalled _ _ _ _ _ _ ih | pulled _ _ _ _ _ _ _ _ ih
  | unread _ _ _ _ _ _ ih | delivered _ _ _ ih | queued _ _ _ _ ih =>
    obtain ⟨a, ha, hkeys⟩ := ih hk
    exact ⟨a, by rw [activations_append, ha]; rfl, hkeys⟩
  | @activated t s f rest keys origin pre fr h _ ha _ =>
    cases hk
    have hnone := (h.handshaking_untouched ha.handshaking).2.2
    exact ⟨(keys, origin), by simp [hnone, ha.inert.activations], rfl, rfl⟩
  | opened _ hphase _ _ _ hopen _ ih =>
    cases hk
    obtain ⟨a, ha, htx, hrx⟩ := ih hphase
    obtain ⟨-, hkeys, -⟩ := SessionKeys.open_eq_ok.mp hopen
    subst hkeys
    exact ⟨a, by rw [activations_append, ha]; rfl, htx, hrx⟩
  | sealed _ hphase _ hseal ih =>
    cases hk
    obtain ⟨a, ha, htx, hrx⟩ := ih hphase
    obtain ⟨-, -, hkeys, -⟩ := SessionKeys.seal_eq_ok.mp hseal
    subst hkeys
    exact ⟨a, by rw [activations_append, ha]; rfl, htx, hrx⟩
  | rejected | refused | failed | retired | flooded => cases hk
  | restamped _ hphase => rw [hphase] at hk; cases hk

theorem mem_of_step {f : ParsedFrame} {pre : Tr} (h : noted (.popped f) :: pre <:+: t) :
    f ∈ pops t ∧ pre ⊆ t := by
  have hsub := h.subset
  constructor
  · have hmem : noted (.popped f) ∈ t := hsub List.mem_cons_self
    exact List.mem_flatMap.mpr ⟨_, hmem, List.mem_singleton.mpr rfl⟩
  · exact fun e he => hsub (List.mem_cons_of_mem _ he)

end

end SyntriassOverlay
