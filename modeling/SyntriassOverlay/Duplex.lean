import SyntriassOverlay.Peek
import SyntriassOverlay.Phases
import SyntriassOverlay.Waiting
import SyntriassOverlay.Conservation

/-!
# A sending and a receiving thread at each end (interceptor.rs:608-641, 721-833)

Each end of a connection has a thread that calls `overlay_send` and one that calls
`overlay_recv` on the same blocking descriptor. The lock of the descriptor is held from the
start of such a call to its return, over the real calls in between. The ends are joined by a
channel of bounded capacity in each direction: the real `recv` waits while it is empty, the
real `send` while it is full.
-/

namespace SyntriassOverlay
open Crypto Resumption

/-! ### Ends, channels and steps -/

inductive Worker where
  | sender
  | receiver
  deriving DecidableEq

def Worker.Makes : Worker → FdCall → Prop
  | .sender, .send _ _ _ => True
  | .receiver, .recv _ _ _ _ => True
  | _, _ => False

/-- Where a thread stands: in the application, before the lock, or with the lock in hand. -/
inductive Stance where
  | outside
  | waiting (c : FdCall)
  | inside (c : FdCall) (p : Prog Resp FdState FdRet)

def Stance.call : Stance → Option FdCall
  | .outside => none
  | .waiting c | .inside c _ => some c

/-- One end; `state` is what the lock protects, as the last call has left it. -/
structure Party where
  state : FdState
  stance : Worker → Stance

def Party.Free (p : Party) : Prop := ∀ w c q, p.stance w ≠ .inside c q

def Party.put (p : Party) (w : Worker) (x : Stance) : Party :=
  { p with stance := Function.update p.stance w x }

/-- The two ends, and the bytes on the way from each of them to the other. -/
structure Duplex where
  party : Role → Party
  channel : Role → Bytes

def Duplex.put (d : Duplex) (ρ : Role) (w : Worker) (x : Stance) : Duplex :=
  { d with party := Function.update d.party ρ ((d.party ρ).put w x) }

/-- The descriptor is blocking. -/
def Op.Blocking : (o : Op) → Resp o → Prop
  | .getfl, r => blocks r = true
  | _, _ => True

/-- One step of a thread that is in a call. -/
inductive Duplex.Advance (P : Primitives) (cap : ℕ) (d : Duplex) (ρ : Role) (w : Worker) :
    Duplex → Prop
  | lock {c : FdCall} (hw : (d.party ρ).stance w = .waiting c) (hfree : (d.party ρ).Free) :
      Advance P cap d ρ w (d.put ρ w (.inside c (c.run P (d.party ρ).state)))
  | answer {c : FdCall} {s : FdState} {o : Op} {k : Resp o → Prog Resp FdState FdRet}
      (hw : (d.party ρ).stance w = .inside c (.call s o k)) (ho : o.io = false) (r : Resp o)
      (hr : o.Blocking r) : Advance P cap d ρ w (d.put ρ w (.inside c (k r)))
  | send {c : FdCall} {s : FdState} {buf : Bytes} {flags : Flags}
      {k : SendResult buf.length → Prog Resp FdState FdRet}
      (hw : (d.party ρ).stance w = .inside c (.call s (.send buf flags) k)) (n : ℕ)
      (hn : 0 < n ∧ n ≤ buf.length) (hroom : (d.channel ρ).length + n ≤ cap) :
      Advance P cap d ρ w
        { d.put ρ w (.inside c (k (.sent n hn))) with
          channel := Function.update d.channel ρ (d.channel ρ ++ buf.take n) }
  | full {c : FdCall} {s : FdState} {buf : Bytes} {flags : Flags}
      {k : SendResult buf.length → Prog Resp FdState FdRet}
      (hw : (d.party ρ).stance w = .inside c (.call s (.send buf flags) k))
      (hfull : cap ≤ (d.channel ρ).length) (hflags : flags &&& msgDontwait ≠ 0) :
      Advance P cap d ρ w (d.put ρ w (.inside c (k (.error EAGAIN))))
  | recv {c : FdCall} {s : FdState} {flags : Flags} {k : RecvResult → Prog Resp FdState FdRet}
      (hw : (d.party ρ).stance w = .inside c (.call s (.recv flags) k)) (b rest : Bytes)
      (hb : 0 < b.length ∧ b.length ≤ pullSize) (hin : d.channel ρ.peer = b ++ rest) :
      Advance P cap d ρ w
        { d.put ρ w (.inside c (k (.data b hb))) with
          channel := Function.update d.channel ρ.peer
            (if flags &&& msgPeek = 0 then rest else b ++ rest) }
  | empty {c : FdCall} {s : FdState} {flags : Flags} {k : RecvResult → Prog Resp FdState FdRet}
      (hw : (d.party ρ).stance w = .inside c (.call s (.recv flags) k))
      (hempty : d.channel ρ.peer = []) (hflags : flags &&& msgDontwait ≠ 0) :
      Advance P cap d ρ w (d.put ρ w (.inside c (k (.error EAGAIN))))
  | leave {c : FdCall} {s : FdState} {a : FdRet}
      (hw : (d.party ρ).stance w = .inside c (.done s a)) :
      Advance P cap d ρ w
        { d with party := Function.update d.party ρ { (d.party ρ).put w .outside with state := s } }
  -- where the fuel of a loop is used up, the loop of the source goes on
  | spin {c : FdCall} {s : FdState} (hw : (d.party ρ).stance w = .inside c (.cut s)) :
      Advance P cap d ρ w d

inductive Duplex.Step (P : Primitives) (cap : ℕ) (d : Duplex) : Duplex → Prop
  | call {ρ : Role} {w : Worker} (hw : (d.party ρ).stance w = .outside) (c : FdCall)
      (hc : w.Makes c) : Step P cap d (d.put ρ w (.waiting c))
  | advance {ρ : Role} {w : Worker} {d' : Duplex} (h : d.Advance P cap ρ w d') : Step P cap d d'

inductive Duplex.Reachable (P : Primitives) (cap : ℕ) (d₀ : Duplex) : Duplex → Prop
  | start : Reachable P cap d₀ d₀
  | step {d d' : Duplex} (h : Reachable P cap d₀ d) (hs : d.Step P cap d') : Reachable P cap d₀ d'

/-- A thread calls while the other one of its end is in no call, unless neither call is to
wait. -/
def Duplex.Yields (d : Duplex) (ρ : Role) (w : Worker) (c : FdCall) : Prop :=
  ∀ w' c', w' ≠ w → ((d.party ρ).stance w').call = some c' →
    c.flags &&& msgDontwait ≠ 0 ∧ c'.flags &&& msgDontwait ≠ 0

/-- The states of runs in which the threads of each end take turns. -/
inductive Duplex.InTurn (P : Primitives) (cap : ℕ) (d₀ : Duplex) : Duplex → Prop
  | start : InTurn P cap d₀ d₀
  | call {d : Duplex} {ρ : Role} {w : Worker} (h : InTurn P cap d₀ d)
      (hw : (d.party ρ).stance w = .outside) (c : FdCall) (hc : w.Makes c)
      (hyields : d.Yields ρ w c) : InTurn P cap d₀ (d.put ρ w (.waiting c))
  | advance {d d' : Duplex} {ρ : Role} {w : Worker} (h : InTurn P cap d₀ d)
      (ha : d.Advance P cap ρ w d') : InTurn P cap d₀ d'

/-- Two active ends, and no call yet. -/
structure Duplex.Ready (cap : ℕ) (d : Duplex) : Prop where
  active : ∀ ρ, ∃ keys, (d.party ρ).state.phase = .active keys
  sound : ∀ ρ, (d.party ρ).state.Sound
  outside : ∀ ρ w, (d.party ρ).stance w = .outside
  bounded : ∀ ρ, (d.channel ρ).length ≤ cap

/-! ### Wedged and jammed -/

/-- No thread that is in a call can take a step. -/
def Duplex.Stuck (P : Primitives) (cap : ℕ) (d : Duplex) : Prop :=
  ∀ ρ w d', ¬ d.Advance P cap ρ w d'

/-- The application has called `send` with data, and this call has not returned or there is
data in the channel. -/
def Duplex.Outgoing (d : Duplex) (ρ : Role) : Prop :=
  d.channel ρ ≠ [] ∨ ∃ plaintext flags fuel, plaintext ≠ [] ∧
    ((d.party ρ).stance .sender = .waiting (.send plaintext flags fuel) ∨
      ∃ p, (d.party ρ).stance .sender = .inside (.send plaintext flags fuel) p)

/-- Nothing moves, though one application sends and the other one waits for it. -/
def Duplex.Wedged (P : Primitives) (cap : ℕ) (d : Duplex) : Prop :=
  d.Stuck P cap ∧ ∃ ρ, d.Outgoing ρ ∧ (d.party ρ.peer).stance .receiver ≠ .outside

/-- The sender has the lock and waits in the real `send` for room in the channel. -/
def Duplex.Choked (cap : ℕ) (d : Duplex) (ρ : Role) : Prop :=
  (∃ c s buf flags k, (d.party ρ).stance .sender = .inside c (.call s (.send buf flags) k) ∧
    flags &&& msgDontwait = 0) ∧ cap ≤ (d.channel ρ).length

/-- The receiver has the lock and waits in the real `recv` for something to read. -/
def Duplex.Starved (d : Duplex) (ρ : Role) : Prop :=
  (∃ c s flags k, (d.party ρ).stance .receiver = .inside c (.call s (.recv flags) k) ∧
    flags &&& msgDontwait = 0) ∧ d.channel ρ.peer = []

/-- The receivers have both locks and wait for data that a sender cannot send; or a sender has
the lock and waits for room while its receiver cannot read what the other end has sent. -/
def Duplex.Jammed (cap : ℕ) (d : Duplex) : Prop :=
  ((∀ ρ, d.Starved ρ) ∧ ∃ ρ plaintext flags fuel, plaintext ≠ [] ∧
    (d.party ρ).stance .sender = .waiting (.send plaintext flags fuel)) ∨
  ∃ ρ, d.Choked cap ρ ∧ (∃ c, (d.party ρ).stance .receiver = .waiting c) ∧
    (d.Choked cap ρ.peer ∨
      (∀ w, (d.party ρ.peer).stance w = .outside) ∧ d.channel ρ.peer ≠ [])

/-! ### What holds in every run -/

/-- The end started in `s₀`; its threads stand where their calls have led them. -/
structure Party.Ok (P : Primitives) (s₀ : FdState) (p : Party) : Prop where
  rest : ∃ log t, Reach (FdCall.run P) s₀ log t (.idle p.state)
  waiting : ∀ w c, p.stance w = .waiting c → w.Makes c
  inside : ∀ w c q, p.stance w = .inside c q → w.Makes c ∧ ∃ u, At (c.run P p.state) u q
  single : ∀ w w' c c' q q', p.stance w = .inside c q → p.stance w' = .inside c' q' → w = w'

section
variable {P : Primitives} {cap : ℕ} {s₀ : FdState} {p : Party} {d d₀ d' : Duplex} {ρ : Role}
  {w : Worker}

@[simp] theorem Party.put_self {x : Stance} : (p.put w x).stance w = x := Function.update_self _ _ _

theorem Party.put_of_ne {w' : Worker} {x : Stance} (h : w' ≠ w) :
    (p.put w x).stance w' = p.stance w' := Function.update_of_ne h _ _

theorem Party.Ok.wait (h : p.Ok P s₀) {c : FdCall} (hc : w.Makes c) :
    (p.put w (.waiting c)).Ok P s₀ := by
  refine ⟨h.rest, fun w' c' hw' => ?_, fun w' c' q hw' => ?_, fun w₁ w₂ c₁ c₂ q₁ q₂ h₁ h₂ => ?_⟩
  · by_cases heq : w' = w
    · subst heq
      rw [Party.put_self] at hw'
      cases hw'
      exact hc
    · exact h.waiting w' c' (Party.put_of_ne heq ▸ hw')
  · have heq : w' ≠ w := by
      rintro rfl
      rw [Party.put_self] at hw'
      cases hw'
    exact h.inside w' c' q (Party.put_of_ne heq ▸ hw')
  · have hne : ∀ w' c' q', (p.put w (.waiting c)).stance w' = .inside c' q' →
        p.stance w' = .inside c' q' := by
      intro w' c' q' hw'
      by_cases heq : w' = w
      · subst heq
        rw [Party.put_self] at hw'
        cases hw'
      · rwa [Party.put_of_ne heq] at hw'
    exact h.single w₁ w₂ c₁ c₂ q₁ q₂ (hne _ _ _ h₁) (hne _ _ _ h₂)

theorem Party.Ok.go (h : p.Ok P s₀) {c : FdCall} {q : Prog Resp FdState FdRet} (hc : w.Makes c)
    (hat : ∃ u, At (c.run P p.state) u q)
    (honly : ∀ w' c' q', p.stance w' = .inside c' q' → w' = w) :
    (p.put w (.inside c q)).Ok P s₀ := by
  have hone : ∀ w' c' q', (p.put w (.inside c q)).stance w' = .inside c' q' → w' = w := by
    intro w' c' q' hw'
    by_contra hne
    rw [Party.put_of_ne hne] at hw'
    exact hne (honly w' c' q' hw')
  refine ⟨h.rest, fun w' c' hw' => ?_, fun w' c' q' hw' => ?_, fun w₁ w₂ c₁ c₂ q₁ q₂ h₁ h₂ => ?_⟩
  · have heq : w' ≠ w := by
      rintro rfl
      rw [Party.put_self] at hw'
      cases hw'
    exact h.waiting w' c' (Party.put_of_ne heq ▸ hw')
  · cases hone w' c' q' hw'
    rw [Party.put_self] at hw'
    cases hw'
    exact ⟨hc, hat⟩
  · rw [hone w₁ c₁ q₁ h₁, hone w₂ c₂ q₂ h₂]

theorem Party.Ok.leave (h : p.Ok P s₀) {c : FdCall} {s : FdState} {a : FdRet}
    (hw : p.stance w = .inside c (.done s a)) :
    Party.Ok P s₀ { p.put w .outside with state := s } := by
  obtain ⟨hc, u, hat⟩ := h.inside w c _ hw
  obtain ⟨log, t, hreach⟩ := h.rest
  have hold : ∀ w' x, (p.put w .outside).stance w' = x → x ≠ .outside →
      w' ≠ w ∧ p.stance w' = x := by
    intro w' x hw' hx
    have hne : w' ≠ w := by
      rintro rfl
      exact hx (hw'.symm.trans Party.put_self)
    exact ⟨hne, (Party.put_of_ne hne).symm.trans hw'⟩
  -- the other thread is not inside, for this one was
  have hnone : ∀ w' c' q', (p.put w .outside).stance w' ≠ .inside c' q' := by
    intro w' c' q' hw'
    obtain ⟨hne, hin⟩ := hold w' _ hw' (by simp)
    exact hne (h.single w' w c' c q' _ hin hw)
  refine ⟨⟨_, _, (reach_at (hreach.enter c) hat).leave⟩, fun w' c' hw' => ?_,
    fun w' c' q hw' => absurd hw' (hnone w' c' q),
    fun w₁ w₂ c₁ c₂ q₁ q₂ h₁ => absurd h₁ (hnone w₁ c₁ q₁)⟩
  exact h.waiting w' c' (hold w' _ hw' (by simp)).2

/-- Every end of the connection is in order. -/
def Duplex.Ok (P : Primitives) (d d₀ : Duplex) : Prop :=
  ∀ ρ, (d.party ρ).Ok P (d₀.party ρ).state

theorem Duplex.Ok.update (h : d.Ok P d₀) {p' : Party} (hp : p'.Ok P (d₀.party ρ).state)
    {channel : Role → Bytes} : Duplex.Ok P ⟨Function.update d.party ρ p', channel⟩ d₀ := by
  intro σ
  by_cases heq : σ = ρ
  · subst heq
    simpa using hp
  · simpa [Function.update_of_ne heq] using h σ

theorem Duplex.Ok.advance (h : d.Ok P d₀) (ha : d.Advance P cap ρ w d') : d'.Ok P d₀ := by
  -- an answer to the call at which the thread stands
  have hnext : ∀ {c s o} {k : Resp o → Prog Resp FdState FdRet} (r : Resp o),
      (d.party ρ).stance w = .inside c (.call s o k) →
      ((d.party ρ).put w (.inside c (k r))).Ok P (d₀.party ρ).state := by
    intro c s o k r hw
    obtain ⟨hc, u, hat⟩ := (h ρ).inside w c _ hw
    exact (h ρ).go hc ⟨_, hat.step r⟩ fun w' c' q' hw' => (h ρ).single w' w c' c q' _ hw' hw
  cases ha with
  | lock hw hfree =>
    refine h.update ((h ρ).go ((h ρ).waiting w _ hw) ⟨[], .refl⟩ fun w' c' q' hw' => ?_)
    exact absurd hw' (hfree w' c' q')
  | answer hw _ r => exact h.update (hnext r hw)
  | send hw n hn => exact h.update (hnext (o := .send _ _) (.sent n hn) hw)
  | full hw => exact h.update (hnext (o := .send _ _) (.error EAGAIN) hw)
  | recv hw b rest hb => exact h.update (hnext (o := .recv _) (.data b hb) hw)
  | empty hw => exact h.update (hnext (o := .recv _) (.error EAGAIN) hw)
  | leave hw => exact h.update ((h ρ).leave hw)
  | spin => exact h

theorem Duplex.Reachable.ok (h₀ : d₀.Ready cap) (h : Duplex.Reachable P cap d₀ d) : d.Ok P d₀ := by
  induction h with
  | start =>
    intro ρ
    have hout := h₀.outside ρ
    exact ⟨⟨[], [], .start⟩, fun w c hw => (by rw [hout w] at hw; cases hw),
      fun w c q hw => (by rw [hout w] at hw; cases hw),
      fun w w' c c' q q' hw => (by rw [hout w] at hw; cases hw)⟩
  | step _ hs ih =>
    cases hs with
    | call hw c hc => exact ih.update ((ih _).wait hc)
    | advance ha => exact ih.advance ha

/-! ### Where a thread with the lock can wait -/

/-- A thread with the lock is in a call of its own kind on a session past the handshake. -/
theorem Party.Ok.settled (h : p.Ok P s₀) (hs₀ : s₀.Sound)
    (hactive : ∃ keys, s₀.phase = .active keys) :
    p.state.Sound ∧ p.state.phase.handshaking = false := by
  obtain ⟨keys, hkeys⟩ := hactive
  have hpast : s₀.phase.handshaking = false := by rw [hkeys]; rfl
  obtain ⟨log, t, hreach⟩ := h.rest
  have hrest : AtRest P True s₀ (log.map (Prod.map id id)) t p.state :=
    run_held id (fun _ _ => trivial) hs₀ (fun hhs => by rw [hpast] at hhs; cases hhs) hreach
  have hrule : PhaseRule fun s => s.phase.handshaking = false :=
    ⟨fun s s' heq hs => by rwa [heq], fun s keys hs => by rw [hs]; rfl, fun s hs => by rw [hs]; rfl⟩
  exact ⟨hrest.history.sound hs₀, reach_keeps (fun c => FdCall.run_keeps hrule c) hpast hreach⟩

/-- What a call of a sender or a receiver does among the real calls: it hands on its flags. -/
def Worker.io (flags : Flags) : Worker → Op → Prop
  | .sender, o => ∃ buf, o = .send buf flags ∧ buf ≠ []
  | .receiver, o => o = .recv flags

theorem Party.Ok.io (h : p.Ok P s₀) (hs₀ : s₀.Sound) (hactive : ∃ keys, s₀.phase = .active keys)
    {c : FdCall} {s : FdState} {o : Op} {k : Resp o → Prog Resp FdState FdRet}
    (hw : p.stance w = .inside c (.call s o k)) (ho : o.io = true) :
    w.io c.flags o := by
  obtain ⟨hsound, hpast⟩ := h.settled hs₀ hactive
  obtain ⟨hc, u, hat⟩ := h.inside w c _ hw
  have hno : ¬ p.state.phase.handshaking = true := by simp [hpast]
  cases w with
  | sender =>
    cases c with
    | send plaintext flags fuel =>
      have hconduct : Safe (sendInv p.state plaintext flags fuel) (fun _ _ _ => True)
          ((FdCall.send plaintext flags fuel).run P p.state) [] :=
        safe_bind (safe_mono (fun _ _ _ _ => trivial) (overlaySend_conduct hsound flags))
      have hrun : Safe (ioInv P True p.state) _
          ((FdCall.send plaintext flags fuel).run P p.state) [] :=
        FdCall.run_safe hsound _ (fun _ => trivial) (atRest_start fun hhs => absurd hhs hno)
      cases o with
      | send buf fl =>
        obtain rfl : fl = flags := (safe_at hconduct hat).1.1
        exact ⟨buf, rfl, (safe_at hrun hat).1.2.2.1⟩
      | recv fl => exact absurd (safe_at hconduct hat).1.2.1 hno
      | _ => cases ho
    | _ => cases hc
  | receiver =>
    cases c with
    | recv len hlen flags fuel =>
      have hconduct : Safe (recvInv P p.state flags fuel) (fun _ _ _ => True)
          ((FdCall.recv len hlen flags fuel).run P p.state) [] :=
        safe_bind (safe_mono (fun _ _ _ _ => trivial) (overlayRecv_conduct hsound len flags))
      cases o with
      | send buf fl => exact absurd (safe_at hconduct hat).1.2 hno
      | recv fl =>
        obtain rfl : fl = flags := (safe_at hconduct hat).1.1
        rfl
      | _ => cases ho
    | _ => cases hc

theorem Op.exists_blocking (o : Op) (ho : o.io = false) : ∃ r, o.Blocking r := by
  cases o with
  | send | recv => cases ho
  | getfl => exact ⟨some 0, rfl⟩
  | getpid => exact ⟨0, trivial⟩
  | configEpoch => exact ⟨0, trivial⟩
  | resolvePolicy | resolveFallbackPsk => exact ⟨none, trivial⟩
  | resolveIdentity => exact ⟨.error .badIdentityConfig, trivial⟩
  | pqcControlAvailable => exact ⟨false, trivial⟩
  | ephemeral => exact ⟨⟨ramp 32, []⟩, trivial⟩
  | freshNonce => exact ⟨ramp 16, trivial⟩
  | note => exact ⟨(), trivial⟩

/-- A thread with the lock that can take no step waits in a real call of its kind. -/
theorem Duplex.Stuck.inside (hstuck : d.Stuck P cap) (h₀ : d₀.Ready cap)
    (hd : Duplex.Reachable P cap d₀ d) {c : FdCall} {q : Prog Resp FdState FdRet}
    (hw : (d.party ρ).stance w = .inside c q) :
    ∃ s o k, q = .call s o k ∧ w.io c.flags o := by
  cases q with
  | done s a => exact absurd (.leave hw) (hstuck ρ w _)
  | cut s => exact absurd (.spin hw) (hstuck ρ w _)
  | call s o k =>
    refine ⟨s, o, k, rfl, (hd.ok h₀ ρ).io (h₀.sound ρ) (h₀.active ρ) hw ?_⟩
    by_contra ho
    rw [Bool.not_eq_true] at ho
    obtain ⟨r, hr⟩ := o.exists_blocking ho
    exact hstuck ρ w _ (.answer hw ho r hr)

theorem Duplex.Stuck.choked (hstuck : d.Stuck P cap) (h₀ : d₀.Ready cap)
    (hd : Duplex.Reachable P cap d₀ d) {c : FdCall} {q : Prog Resp FdState FdRet}
    (hw : (d.party ρ).stance .sender = .inside c q) : d.Choked cap ρ := by
  obtain ⟨s, o, k, rfl, buf, rfl, hbuf⟩ := hstuck.inside h₀ hd hw
  have hfull : cap ≤ (d.channel ρ).length := by
    by_contra hroom
    exact hstuck ρ .sender _ (.send hw 1 ⟨Nat.one_pos, List.length_pos_iff.mpr hbuf⟩ (by omega))
  refine ⟨⟨c, s, buf, c.flags, k, hw, ?_⟩, hfull⟩
  by_contra hflags
  exact hstuck ρ .sender _ (.full hw hfull hflags)

theorem Duplex.Stuck.starved (hstuck : d.Stuck P cap) (h₀ : d₀.Ready cap)
    (hd : Duplex.Reachable P cap d₀ d) {c : FdCall} {q : Prog Resp FdState FdRet}
    (hw : (d.party ρ).stance .receiver = .inside c q) : d.Starved ρ := by
  obtain ⟨s, o, k, rfl, rfl⟩ := hstuck.inside h₀ hd hw
  have hempty : d.channel ρ.peer = [] := by
    cases hch : d.channel ρ.peer with
    | nil => rfl
    | cons b rest =>
      exact absurd (.recv hw [b] rest ⟨Nat.one_pos, by simp [pullSize]⟩ hch) (hstuck ρ .receiver _)
  refine ⟨⟨c, s, c.flags, k, hw, ?_⟩, hempty⟩
  by_contra hflags
  exact hstuck ρ .receiver _ (.empty hw hempty hflags)

/-- The lock that a thread waits for is in the hand of the other thread of its end. -/
theorem Duplex.Stuck.waiting (hstuck : d.Stuck P cap) {c : FdCall}
    (hw : (d.party ρ).stance w = .waiting c) :
    ∃ w' c' q, w' ≠ w ∧ (d.party ρ).stance w' = .inside c' q := by
  by_contra hnone
  refine hstuck ρ w _ (.lock hw fun w' c' q hin => hnone ⟨w', c', q, ?_, hin⟩)
  rintro rfl
  cases hw.symm.trans hin

theorem Duplex.not_advance_outside (hw : (d.party ρ).stance w = .outside) :
    ¬ d.Advance P cap ρ w d' := by
  intro ha
  cases ha with
  | lock h | answer h | send h | full h | recv h | empty h | leave h | spin h =>
    cases hw.symm.trans h

theorem Duplex.not_advance_waiting {w' : Worker} {c c' : FdCall} {q : Prog Resp FdState FdRet}
    (hw : (d.party ρ).stance w = .waiting c) (hin : (d.party ρ).stance w' = .inside c' q) :
    ¬ d.Advance P cap ρ w d' := by
  intro ha
  cases ha with
  | lock _ hfree => exact hfree w' c' q hin
  | answer h | send h | full h | recv h | empty h | leave h | spin h => cases hw.symm.trans h

theorem Duplex.Choked.not_advance (h : d.Choked cap ρ) : ¬ d.Advance P cap ρ .sender d' := by
  obtain ⟨⟨c, s, buf, flags, k, hw, hflags⟩, hfull⟩ := h
  intro ha
  cases ha with
  | lock h | recv h | empty h | leave h | spin h => cases hw.symm.trans h
  | answer h ho =>
    cases hw.symm.trans h
    cases ho
  | send h n hn hroom => omega
  | full h _ hdont =>
    cases hw.symm.trans h
    exact hdont hflags

theorem Duplex.Starved.not_advance (h : d.Starved ρ) : ¬ d.Advance P cap ρ .receiver d' := by
  obtain ⟨⟨c, s, flags, k, hw, hflags⟩, hempty⟩ := h
  intro ha
  cases ha with
  | lock h | send h | full h | leave h | spin h => cases hw.symm.trans h
  | answer h ho =>
    cases hw.symm.trans h
    cases ho
  | recv h b rest hb hin =>
    rw [hempty] at hin
    obtain ⟨rfl, -⟩ := List.append_eq_nil_iff.mp hin.symm
    exact absurd hb.1 (by simp)
  | empty h _ hdont =>
    cases hw.symm.trans h
    exact hdont hflags

theorem Duplex.Ok.not_advance (h : d.Ok P d₀) {w' : Worker} {c : FdCall}
    {q : Prog Resp FdState FdRet} (hin : (d.party ρ).stance w' = .inside c q)
    (hno : ∀ d', ¬ d.Advance P cap ρ w' d') (w : Worker) : ¬ d.Advance P cap ρ w d' := by
  cases hw : (d.party ρ).stance w with
  | outside => exact Duplex.not_advance_outside hw
  | waiting => exact Duplex.not_advance_waiting hw hin
  | inside =>
    cases (h ρ).single w w' _ _ _ _ hw hin
    exact hno d'

theorem Duplex.Ok.not_advance_choked (h : d.Ok P d₀) (hc : d.Choked cap ρ) (w : Worker) :
    ¬ d.Advance P cap ρ w d' := by
  obtain ⟨⟨c, s, buf, flags, k, hw, -⟩, -⟩ := id hc
  exact h.not_advance hw (fun _ => hc.not_advance) w

theorem Duplex.Ok.wedged_of_jammed (h : d.Ok P d₀) (hcap : 0 < cap) (hj : d.Jammed cap) :
    d.Wedged P cap := by
  rcases hj with ⟨hstarved, ρ, plaintext, flags, fuel, hne, hw⟩ | ⟨ρ, hchoked, ⟨c, hwait⟩, hpeer⟩
  · refine ⟨fun σ w d' => ?_, ρ, .inr ⟨plaintext, flags, fuel, hne, .inl hw⟩, ?_⟩
    · obtain ⟨⟨c, s, fl, k, hin, -⟩, -⟩ := hstarved σ
      exact h.not_advance hin (fun _ => (hstarved σ).not_advance) w
    · obtain ⟨⟨c, s, fl, k, hin, -⟩, -⟩ := hstarved ρ.peer
      simp [hin]
  · have hdata : d.channel ρ.peer ≠ [] := by
      rcases hpeer with hpeer | ⟨-, hdata⟩
      · intro hnil
        have hfull := hpeer.2
        rw [hnil, List.length_nil] at hfull
        omega
      · exact hdata
    refine ⟨fun σ w d' => ?_, ρ.peer, .inl hdata, by simp [hwait]⟩
    rcases Role.eq_or_eq_peer ρ σ with rfl | rfl
    · exact h.not_advance_choked hchoked w
    · rcases hpeer with hpeer | ⟨hout, -⟩
      · exact h.not_advance_choked hpeer w
      · exact Duplex.not_advance_outside (hout w)

end

/-! ### Two receivers with the locks -/

section
variable {P : Primitives} {cap : ℕ} {d d₀ : Duplex} {ρ σ : Role} {w w' : Worker} {x y : Stance}

@[simp] theorem Duplex.put_channel : (d.put ρ w x).channel = d.channel := rfl

@[simp] theorem Duplex.put_stance : ((d.put ρ w x).party ρ).stance w = x := by
  simp [Duplex.put, Party.put]

theorem Duplex.put_other (h : σ ≠ ρ) : (d.put ρ w x).party σ = d.party σ :=
  Function.update_of_ne h _ _

@[simp] theorem Duplex.put_state : ((d.put ρ w x).party ρ).state = (d.party ρ).state := by
  simp [Duplex.put, Party.put]

@[simp] theorem Duplex.put_put : (d.put ρ w x).put ρ w y = d.put ρ w y := by
  simp [Duplex.put, Party.put]

theorem Duplex.put_eq_self (h : (d.party ρ).stance w = x) : d.put ρ w x = d := by
  subst h
  simp [Duplex.put, Party.put]

/-- A thread with the lock is answered as long as it makes no real call. -/
theorem Duplex.Reachable.answers (hd : Duplex.Reachable P cap d₀ d) {c : FdCall}
    {q q' : Prog Resp FdState FdRet} {t : Tr} (hw : (d.party ρ).stance w = .inside c q)
    (hat : At q t q') (ht : ∀ e ∈ t, e.op.io = false ∧ e.op.Blocking e.resp) :
    Duplex.Reachable P cap d₀ (d.put ρ w (.inside c q')) := by
  induction hat with
  | refl => rwa [Duplex.put_eq_self hw]
  | @step t s o k _ r ih =>
    have hd' := ih fun e he => ht e (List.mem_append_left _ he)
    obtain ⟨ho, hr⟩ := ht ⟨o, r⟩ (by simp)
    have hnext := hd'.step (.advance (.answer Duplex.put_stance ho r hr))
    rwa [Duplex.put_put] at hnext

theorem overlayRecv_pulls {s : FdState} {keys : SessionKeys} (hphase : s.phase = .active keys)
    (hplain : s.rxPlain = []) (hwire : s.rxWire = []) (r : Option ℕ) :
    ∃ k, At ((FdCall.recv 1 Nat.one_pos 0 1).run P s)
      [⟨.getpid, s.ownerPid⟩, ⟨.configEpoch, s.configEpoch⟩, ⟨.getfl, r⟩]
      (.call s (.recv 0) k) := by
  have hpop : tryPopFrame s.rxWire = .ok none := by rw [hwire]; rfl
  have hround : ∃ k, recvRound P 1 0 (blocks r) 1 s = .call s (.recv 0) k := by
    simp only [recvRound, openOrPull, openRecords, iter, bind_apply, get_apply, bind_done, hplain,
      hphase, hpop, FdPhase.handshaking, List.isEmpty_nil, Bool.not_true, Bool.false_eq_true,
      if_false, pure_apply]
    exact ⟨_, rfl⟩
  obtain ⟨k, hk⟩ := hround
  have hat := (guards_at (fun blocking => iter (fun (_ : Unit) => recvRound P 1 0 blocking 1) 1 ())
    s r).bind fun r => (pure (.received r) : FdAct FdRet)
  simp only [iter, bind_apply, hk, bind_call] at hat
  exact ⟨_, hat⟩

/-- A receiver with nothing to read takes the lock and waits. -/
theorem Duplex.Reachable.receives (hd : Duplex.Reachable P cap d₀ d) (ρ : Role)
    (hout : ∀ w, (d.party ρ).stance w = .outside)
    (hphase : ∃ keys, (d.party ρ).state.phase = .active keys)
    (hplain : (d.party ρ).state.rxPlain = []) (hwire : (d.party ρ).state.rxWire = []) :
    ∃ d', Duplex.Reachable P cap d₀ d' ∧ d'.channel = d.channel ∧
      (∃ c s k, (d'.party ρ).stance .receiver = .inside c (.call s (.recv 0) k)) ∧
      (d'.party ρ).stance .sender = .outside ∧ d'.party ρ.peer = d.party ρ.peer := by
  have hsender : ∀ x, ((d.put ρ .receiver x).party ρ).stance .sender = .outside :=
    fun x => by simp [Duplex.put, Party.put, hout]
  have h₁ := hd.step (.call (hout .receiver) (.recv 1 Nat.one_pos 0 1) trivial)
  have h₂ := h₁.step (.advance (.lock Duplex.put_stance fun w c q => by
    cases w with
    | receiver => simp
    | sender => simp [hsender]))
  rw [Duplex.put_put, Duplex.put_state] at h₂
  obtain ⟨keys, hkeys⟩ := hphase
  obtain ⟨k, hat⟩ := overlayRecv_pulls (P := P) hkeys hplain hwire (some 0)
  have h₃ := h₂.answers Duplex.put_stance hat (by simp [Op.io, Op.Blocking, blocks])
  rw [Duplex.put_put] at h₃
  exact ⟨_, h₃, rfl, ⟨_, _, k, Duplex.put_stance⟩, hsender _, Duplex.put_other ρ.peer_ne⟩

/-- Between any two active ends with nothing in their buffers, both receivers can come first. -/
theorem Duplex.Ready.wedges (h₀ : d.Ready cap) (hcap : 0 < cap)
    (hbuffers : ∀ ρ, (d.party ρ).state.rxPlain = [] ∧ (d.party ρ).state.rxWire = [])
    (hchannel : ∀ ρ, d.channel ρ = []) :
    ∃ d', Duplex.Reachable P cap d d' ∧ d'.Wedged P cap := by
  have hstart : Duplex.Reachable P cap d d := .start
  obtain ⟨d₁, h₁, hch₁, hin₁, hout₁, hpeer₁⟩ := hstart.receives .initiator (h₀.outside _)
    (h₀.active _) (hbuffers _).1 (hbuffers _).2
  have hresponder : d₁.party .responder = d.party .responder := hpeer₁
  obtain ⟨d₂, h₂, hch₂, hin₂, -, hpeer₂⟩ := h₁.receives .responder
    (by rw [hresponder]; exact h₀.outside _) (by rw [hresponder]; exact h₀.active _)
    (by rw [hresponder]; exact (hbuffers _).1) (by rw [hresponder]; exact (hbuffers _).2)
  have hinitiator : d₂.party .initiator = d₁.party .initiator := hpeer₂
  rw [← hinitiator] at hin₁ hout₁
  have h₃ := h₂.step (.call hout₁ (.send [0] 0 1) trivial)
  have hempty : ∀ ρ, d₂.channel ρ = [] := by
    intro ρ
    rw [hch₂, hch₁, hchannel]
  refine ⟨_, h₃, (h₃.ok h₀).wedged_of_jammed hcap (.inl ⟨fun ρ => ⟨?_, hempty _⟩,
    .initiator, [0], 0, 1, by simp, Duplex.put_stance⟩)⟩
  cases ρ with
  | initiator =>
    obtain ⟨c, s, k, hin⟩ := hin₁
    refine ⟨c, s, 0, k, ?_, rfl⟩
    simpa [Duplex.put, Party.put] using hin
  | responder =>
    obtain ⟨c, s, k, hin⟩ := hin₂
    refine ⟨c, s, 0, k, ?_, rfl⟩
    rwa [Duplex.put_other (by decide)]

end

/-! ### After a fallback handshake -/

/-- Both ends have called `recv` until the handshake is done. -/
def degradedActive : Connection :=
  degradedPlay .initiator (.recv 1 Nat.one_pos 5) <|
  degradedPlay .responder (.recv 1 Nat.one_pos 5) <|
  degradedPlay .initiator (.recv 1 Nat.one_pos 5) (.start degradedStart)

theorem degradedActive_reachable :
    Connection.Reachable specimen (fun _ => degraded) (.start degradedStart) degradedActive := by
  unfold degradedActive
  exact ((Connection.Reachable.start.degradedPlay _ _).degradedPlay _ _).degradedPlay _ _

/-- An end at rest that is active and has nothing in its buffers. -/
def Endpoint.quiet (e : Endpoint) : Option FdState :=
  match e.status with
  | .idle ⟨.active keys, pid, suite, epoch, [], [], [], counted⟩ =>
    some ⟨.active keys, pid, suite, epoch, [], [], [], counted⟩
  | _ => none

theorem Endpoint.quiet_eq_some {e : Endpoint} {s : FdState} (h : e.quiet = some s) :
    e.status = .idle s ∧ (∃ keys, s.phase = .active keys) ∧ s.txBacklog = [] ∧ s.rxWire = [] ∧
      s.rxPlain = [] := by
  unfold Endpoint.quiet at h
  split at h
  · rename_i keys pid suite epoch counted hs
    cases h
    exact ⟨hs, ⟨keys, rfl⟩, rfl, rfl, rfl⟩
  · cases h

theorem degradedActive_quiet (ρ : Role) : ∃ s, (degradedActive.ends ρ).quiet = some s := by
  rw [← Option.isSome_iff_exists]
  cases ρ <;> decide +kernel

/-- The active ends of a connection, each with two threads that have made no call. -/
structure Duplex.Follows (c : Connection) (d : Duplex) : Prop where
  state : ∀ ρ, (c.ends ρ).quiet = some (d.party ρ).state
  outside : ∀ ρ w, (d.party ρ).stance w = .outside
  channel : ∀ ρ, d.channel ρ = c.wire ρ

theorem Duplex.Follows.ready {c : Connection} {d : Duplex} {cap : ℕ} (h : d.Follows c)
    (hcap : ∀ ρ, (c.wire ρ).length ≤ cap) : d.Ready cap := by
  refine ⟨fun ρ => ?_, fun ρ => ?_, h.outside, fun ρ => (h.channel ρ).symm ▸ hcap ρ⟩
  · exact (Endpoint.quiet_eq_some (h.state ρ)).2.1
  · obtain ⟨-, ⟨keys, hkeys⟩, htx, hrx, hplain⟩ := Endpoint.quiet_eq_some (h.state ρ)
    exact ⟨fun hf => (by rw [hkeys] at hf; cases hf), fun _ => hplain, by simp [htx], by simp [hrx],
      by simp [hplain]⟩

theorem degradedActive_follows : ∃ d : Duplex, d.Follows degradedActive := by
  choose s hs using degradedActive_quiet
  exact ⟨⟨fun ρ => ⟨s ρ, fun _ => .outside⟩, degradedActive.wire⟩, hs, fun _ _ => rfl, fun _ => rfl⟩

theorem degradedActive_wire (ρ : Role) : degradedActive.wire ρ = [] := by
  cases ρ <;> decide +kernel

/-- A channel is not both full and empty. -/
theorem Duplex.Choked.not_starved {cap : ℕ} {d : Duplex} {ρ : Role} (h : d.Choked cap ρ)
    (hcap : 0 < cap) : ¬ d.Starved ρ.peer := by
  intro hs
  have hfull := h.2
  have hempty := hs.2
  rw [Role.peer_peer] at hempty
  rw [hempty, List.length_nil] at hfull
  omega

section
variable {P : Primitives} {cap : ℕ} {d₀ d : Duplex} {ρ : Role}

theorem Duplex.Stuck.starved_of_waiting (h : d.Stuck P cap) (h₀ : d₀.Ready cap)
    (hd : Duplex.Reachable P cap d₀ d) {c : FdCall}
    (hw : (d.party ρ).stance .sender = .waiting c) : d.Starved ρ := by
  obtain ⟨w', c', q, hne, hin⟩ := h.waiting hw
  cases w' with
  | sender => exact absurd rfl hne
  | receiver => exact h.starved h₀ hd hin

theorem Duplex.Stuck.choked_of_waiting (h : d.Stuck P cap) (h₀ : d₀.Ready cap)
    (hd : Duplex.Reachable P cap d₀ d) {c : FdCall}
    (hw : (d.party ρ).stance .receiver = .waiting c) : d.Choked cap ρ := by
  obtain ⟨w', c', q, hne, hin⟩ := h.waiting hw
  cases w' with
  | sender => exact h.choked h₀ hd hin
  | receiver => exact absurd rfl hne

/-- At an end that neither waits for room nor for data no thread is in a call. -/
theorem Duplex.Stuck.outside (h : d.Stuck P cap) (h₀ : d₀.Ready cap)
    (hd : Duplex.Reachable P cap d₀ d) (hchoked : ¬ d.Choked cap ρ) (hstarved : ¬ d.Starved ρ)
    (w : Worker) : (d.party ρ).stance w = .outside := by
  cases w with
  | sender =>
    cases hs : (d.party ρ).stance .sender with
    | outside => rfl
    | inside c q => exact absurd (h.choked h₀ hd hs) hchoked
    | waiting c => exact absurd (h.starved_of_waiting h₀ hd hs) hstarved
  | receiver =>
    cases hr : (d.party ρ).stance .receiver with
    | outside => rfl
    | inside c q => exact absurd (h.starved h₀ hd hr) hstarved
    | waiting c => exact absurd (h.choked_of_waiting h₀ hd hr) hchoked

theorem Duplex.Reachable.jammed_of_wedged (hcap : 0 < cap) (h₀ : d₀.Ready cap)
    (hd : Duplex.Reachable P cap d₀ d) (hwedged : d.Wedged P cap) : d.Jammed cap := by
  obtain ⟨hstuck, ρ, hout, hrecv⟩ := hwedged
  cases hr : (d.party ρ.peer).stance .receiver with
  | outside => exact absurd hr hrecv
  | inside c q =>
    have hstarved := hstuck.starved h₀ hd hr
    have hempty := hstarved.2
    rw [Role.peer_peer] at hempty
    rcases hout with hdata | ⟨plaintext, flags, fuel, hne, hw | ⟨q', hin⟩⟩
    · exact absurd hempty hdata
    · refine .inl ⟨fun σ => ?_, ρ, plaintext, flags, fuel, hne, hw⟩
      rcases Role.eq_or_eq_peer ρ σ with rfl | rfl
      · exact hstuck.starved_of_waiting h₀ hd hw
      · exact hstarved
    · exact absurd hstarved ((hstuck.choked h₀ hd hin).not_starved hcap)
  | waiting c =>
    have hpeer := hstuck.choked_of_waiting h₀ hd hr
    refine .inr ⟨ρ.peer, hpeer, ⟨c, hr⟩, ?_⟩
    rw [Role.peer_peer]
    have hstarved : ¬ d.Starved ρ := by
      have hno := hpeer.not_starved hcap
      rwa [Role.peer_peer] at hno
    by_cases hchoked : d.Choked cap ρ
    · exact .inl hchoked
    · have hidle := hstuck.outside h₀ hd hchoked hstarved
      refine .inr ⟨hidle, ?_⟩
      -- nobody sends, so what is outgoing is in the channel
      rcases hout with hdata | ⟨plaintext, flags, fuel, -, hw | ⟨q', hin⟩⟩
      · exact hdata
      · cases (hidle .sender).symm.trans hw
      · cases (hidle .sender).symm.trans hin

end

/-! ### Taking turns -/

section
variable {P : Primitives} {cap : ℕ} {d₀ d d' : Duplex} {ρ : Role} {w : Worker}

/-- Two threads of one end are in calls only if neither call is to wait. -/
def Duplex.Ordered (d : Duplex) : Prop :=
  ∀ ρ w w' c c', w' ≠ w → ((d.party ρ).stance w).call = some c →
    ((d.party ρ).stance w').call = some c' → c.flags &&& msgDontwait ≠ 0

theorem Duplex.InTurn.reachable (h : Duplex.InTurn P cap d₀ d) : Duplex.Reachable P cap d₀ d := by
  induction h with
  | start => exact .start
  | call _ hw c hc _ ih => exact ih.step (.call hw c hc)
  | advance _ ha ih => exact ih.step (.advance ha)

theorem Duplex.put_call (d : Duplex) (ρ σ : Role) (w w' : Worker) (x : Stance) :
    (((d.put ρ w x).party σ).stance w').call =
      if σ = ρ ∧ w' = w then x.call else ((d.party σ).stance w').call := by
  by_cases hσ : σ = ρ
  · subst hσ
    by_cases hw : w' = w
    · subst hw
      simp [Duplex.put, Party.put]
    · simp [Duplex.put, Party.put, hw]
  · rw [Duplex.put_other hσ]
    simp [hσ]

/-- A thread that goes on stays in its call or returns from it. -/
theorem Duplex.Advance.call (h : d.Advance P cap ρ w d') (σ : Role) (w' : Worker) {c : FdCall}
    (hc : ((d'.party σ).stance w').call = some c) : ((d.party σ).stance w').call = some c := by
  have hstay : ∀ x : Stance, x.call = ((d.party ρ).stance w).call →
      (((d.put ρ w x).party σ).stance w').call = some c →
      ((d.party σ).stance w').call = some c := by
    intro x hx hcall
    rw [Duplex.put_call, hx] at hcall
    split at hcall
    · rename_i heq
      rwa [heq.1, heq.2]
    · exact hcall
  cases h with
  | lock hw _ => exact hstay _ (by rw [hw]; rfl) hc
  | answer hw _ r _ => exact hstay _ (by rw [hw]; rfl) hc
  | send hw n hn _ => exact hstay _ (by rw [hw]; rfl) hc
  | full hw _ _ => exact hstay _ (by rw [hw]; rfl) hc
  | recv hw b rest hb _ => exact hstay _ (by rw [hw]; rfl) hc
  | empty hw _ _ => exact hstay _ (by rw [hw]; rfl) hc
  | leave hw =>
    have hout : (((d.put ρ w .outside).party σ).stance w').call = some c := by
      by_cases hσ : σ = ρ
      · subst hσ
        simpa [Duplex.put] using hc
      · simpa [Duplex.put, Function.update_of_ne hσ] using hc
    rw [Duplex.put_call] at hout
    split at hout
    · cases hout
    · exact hout
  | spin => exact hc

theorem Duplex.InTurn.ordered (h₀ : d₀.Ready cap) (h : Duplex.InTurn P cap d₀ d) : d.Ordered := by
  induction h with
  | start =>
    intro ρ w w' c c' _ hc
    rw [h₀.outside ρ w] at hc
    cases hc
  | @call d ρ w _ hw c hc hyields ih =>
    intro σ w₁ w₂ c₁ c₂ hne h₁ h₂
    rw [Duplex.put_call] at h₁ h₂
    split at h₁ <;> split at h₂
    · rename_i heq₁ heq₂
      exact absurd (heq₂.2.trans heq₁.2.symm) hne
    · rename_i heq₁ _
      obtain ⟨rfl, rfl⟩ := heq₁
      cases h₁
      exact (hyields w₂ c₂ hne h₂).1
    · rename_i _ heq₂
      obtain ⟨rfl, rfl⟩ := heq₂
      exact (hyields w₁ c₁ hne.symm h₁).2
    · exact ih σ w₁ w₂ c₁ c₂ hne h₁ h₂
  | advance _ ha ih =>
    intro σ w₁ w₂ c₁ c₂ hne h₁ h₂
    exact ih σ w₁ w₂ c₁ c₂ hne (ha.call σ w₁ h₁) (ha.call σ w₂ h₂)

theorem Duplex.InTurn.not_jammed (h₀ : d₀.Ready cap) (h : Duplex.InTurn P cap d₀ d) :
    ¬ d.Jammed cap := by
  have hio : ∀ {ρ w c s o k}, (d.party ρ).stance w = .inside c (.call s o k) → o.io = true →
      w.io c.flags o := fun hin ho =>
    (h.reachable.ok h₀ _).io (h₀.sound _) (h₀.active _) hin ho
  rintro (⟨hstarved, ρ, plaintext, flags, fuel, -, hw⟩ | ⟨ρ, hchoked, ⟨c', hw⟩, -⟩)
  · obtain ⟨⟨c, s, fl, k, hin, hfl⟩, -⟩ := hstarved ρ
    obtain rfl : fl = c.flags := Op.recv.inj (hio hin rfl)
    exact h.ordered h₀ ρ .receiver .sender c _ (by decide) (by rw [hin]; rfl) (by rw [hw]; rfl) hfl
  · obtain ⟨⟨c, s, buf, fl, k, hin, hfl⟩, -⟩ := hchoked
    obtain ⟨buf', heq, -⟩ := hio hin rfl
    cases heq
    exact h.ordered h₀ ρ .sender .receiver c _ (by decide) (by rw [hin]; rfl) (by rw [hw]; rfl) hfl

end

/-- A connection is wedged if and only if it is jammed, and if the threads of each end take turns
it never is. -/
theorem Duplex.wedged_iff {P : Primitives} {cap : ℕ} {d₀ d : Duplex} (hcap : 0 < cap)
    (h₀ : d₀.Ready cap) (hd : Duplex.Reachable P cap d₀ d) :
    (d.Wedged P cap ↔ d.Jammed cap) ∧ (Duplex.InTurn P cap d₀ d → ¬ d.Wedged P cap) :=
  ⟨⟨hd.jammed_of_wedged hcap h₀, (hd.ok h₀).wedged_of_jammed hcap⟩,
    fun hturn hwedged => hturn.not_jammed h₀ (hd.jammed_of_wedged hcap h₀ hwedged)⟩

/-- One end sends and the other one waits for it, before either has its lock. -/
theorem Duplex.wedged_iff_calls : ∃ d₀ d : Duplex, d₀.Ready 4096 ∧
    Duplex.InTurn specimen 4096 d₀ d ∧ d.Outgoing .initiator ∧
    (d.party .responder).stance .receiver ≠ .outside ∧ ¬ d.Wedged specimen 4096 := by
  obtain ⟨d, hd⟩ := degradedActive_follows
  have h₀ : d.Ready 4096 := hd.ready fun ρ => by simp [degradedActive_wire]
  have hstart : Duplex.InTurn specimen 4096 d d := .start
  have h₁ := hstart.call (hd.outside .initiator .sender) (.send (ascii "hi") 0 8) trivial
    fun w' c' _ hc => by
      rw [hd.outside .initiator w'] at hc
      cases hc
  have hout : ∀ w, ((d.put .initiator .sender (.waiting (.send (ascii "hi") 0 8))).party
      .responder).stance w = .outside := by
    intro w
    rw [Duplex.put_other (by decide)]
    exact hd.outside _ _
  have h₂ := h₁.call (hout .receiver) (.recv 2 (by decide) 0 8) trivial fun w' c' _ hc => by
    rw [hout w'] at hc
    cases hc
  refine ⟨d, _, h₀, h₂, .inr ⟨ascii "hi", 0, 8, by decide, .inl ?_⟩, by simp,
    (Duplex.wedged_iff (by decide) h₀ h₂.reachable).2 h₂⟩
  rw [Duplex.put_other (by decide), Duplex.put_stance]

/-- The two ends of a connection right after the handshake: both receivers come first. -/
theorem Duplex.wedged_iff_not :
    Connection.Reachable specimen (fun _ => degraded) (.start degradedStart) degradedActive ∧
    ∃ d₀ d : Duplex, d₀.Follows degradedActive ∧ d₀.Ready 4096 ∧
      Duplex.Reachable specimen 4096 d₀ d ∧ d.Wedged specimen 4096 := by
  refine ⟨degradedActive_reachable, ?_⟩
  obtain ⟨d, hd⟩ := degradedActive_follows
  have h₀ : d.Ready 4096 := hd.ready fun ρ => by simp [degradedActive_wire]
  have hbuffers : ∀ ρ, (d.party ρ).state.rxPlain = [] ∧ (d.party ρ).state.rxWire = [] := by
    intro ρ
    obtain ⟨-, -, -, hrx, hplain⟩ := Endpoint.quiet_eq_some (hd.state ρ)
    exact ⟨hplain, hrx⟩
  obtain ⟨d', hreach, hwedged⟩ := h₀.wedges (P := specimen) (by decide) hbuffers fun ρ =>
    (hd.channel ρ).trans (degradedActive_wire ρ)
  exact ⟨d, d', hd, h₀, hreach, hwedged⟩

end SyntriassOverlay
