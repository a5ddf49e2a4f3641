import SyntriassOverlay.Crypto.Config
import SyntriassOverlay.Closed

/-!
# Reloading the configuration (fd_state.rs:398-480, crypto/mod.rs:263-264, 387-433)

The configuration is cached on first use. A watcher thread waits for changes of the
configuration directory and loads it again for each relevant event: it replaces the cached
configuration first and advances the epoch then. Meanwhile sessions are created, each with a
policy and an identity from the cache and stamped with the epoch.

A load reads the identity and then the policy, and the files may change in between.
-/

namespace SyntriassOverlay
open Crypto Resumption

namespace Reload

/-! ### Watching the directory -/

/-- `inotify_event` with the bytes of its name. -/
structure Event where
  mask : ℕ
  name : Bytes

def inModify : ℕ := 0x02
def inCloseWrite : ℕ := 0x08
def inMovedFrom : ℕ := 0x40
def inMovedTo : ℕ := 0x80
def inCreate : ℕ := 0x100
def inDelete : ℕ := 0x200

/-- What `watch_config_dir_fd` asks to be told of. -/
def watchMask : ℕ := inCloseWrite ||| inModify ||| inMovedTo

def identityFile : Bytes := ascii "identity.toml"
def policyFile : Bytes := ascii "policy.toml"

def isRelevantConfigEvent (mask : ℕ) (rawName : Bytes) : Bool :=
  if mask &&& (inCloseWrite ||| inModify ||| inMovedTo) = 0 then false
  else
    let name := rawName.takeWhile (· != 0)
    name == identityFile || name == policyFile

def Event.relevant (e : Event) : Bool := isRelevantConfigEvent e.mask e.name

/-- How far a call of `load_runtime_config` is. -/
inductive Load where
  | begun
  | identityRead (identity : Except CryptoError IdentityMaterial)

/-- `RUNTIME_CONFIG`, a `Lazy`. -/
inductive Cache where
  | unused
  | initialising (l : Load)
  | ready (c : RuntimeConfig)

/-- How far a call of `handle_config_change` is. -/
inductive Handler where
  | loading (l : Load)
  | loaded (c : RuntimeConfig)
  | published

/-- The watcher thread: without a watch, or with one and the events that wait in the kernel
and in the buffer it was read into. -/
inductive Watcher where
  | down
  | watching (queue batch : List Event) (handler : Option Handler)

/-- The kernel queues an event for a watch that has asked for it. -/
def Watcher.notify (e : Event) : Watcher → Watcher
  | .down => .down
  | .watching queue batch handler =>
    if e.mask &&& watchMask = 0 then .watching queue batch handler
    else .watching (queue ++ [e]) batch handler

/-! ### Changing the files -/

inductive ConfigFile where
  | identity
  | policy

def ConfigFile.name : ConfigFile → Bytes
  | .identity => identityFile
  | .policy => policyFile

/-- The ways in which what is read under the name of a configuration file changes. The last
is for a file that is a link: another entry of the directory, on the way to what the link
leads to, is replaced. The `..data` of a mounted Secret is such an entry. -/
inductive Change where
  | modified
  | closed
  | movedIn
  | removed
  | movedAway
  | created
  | behind (entry : Bytes)

/-- What happens in the directory, with the zero behind the name. -/
def Change.event (f : ConfigFile) : Change → Event
  | .modified => ⟨inModify, f.name ++ [0]⟩
  | .closed => ⟨inCloseWrite, f.name ++ [0]⟩
  | .movedIn => ⟨inMovedTo, f.name ++ [0]⟩
  | .removed => ⟨inDelete, f.name ++ [0]⟩
  | .movedAway => ⟨inMovedFrom, f.name ++ [0]⟩
  | .created => ⟨inCreate, f.name ++ [0]⟩
  | .behind entry => ⟨inMovedTo, entry ++ [0]⟩

def Change.Sensible : Change → Prop
  | .behind entry => ∀ f : ConfigFile, (entry ++ [0]).takeWhile (· != 0) ≠ f.name
  | _ => True

/-- The file was written to, or renamed into the directory. -/
def Change.announced : Change → Bool
  | .modified | .closed | .movedIn => true
  | _ => false

/-- These are the changes that `is_relevant_config_event` recognises. -/
theorem Change.relevant_iff (f : ConfigFile) {c : Change} (hc : c.Sensible) :
    (c.event f).relevant = true ↔ c.announced = true := by
  cases c with
  | behind entry =>
    have hid := beq_eq_false_iff_ne.mpr (hc .identity)
    have hpol := beq_eq_false_iff_ne.mpr (hc .policy)
    have hno : ((Change.behind entry).event f).relevant = false := by
      dsimp only [ConfigFile.name] at hid hpol
      simp only [Change.event, Event.relevant, isRelevantConfigEvent, hid, hpol, Bool.or_self,
        ite_self]
    rw [hno]
    exact Iff.rfl
  | modified | closed | movedIn | removed | movedAway | created => cases f <;> decide

/-! ### Creating sessions -/

/-- The part of `install_initiator_state` and of `ensure_tracked` that looks at the
configuration. -/
def create (P : Primitives) : Role → Act Resp Unit FdState
  | .initiator => newInitiatorState P
  | .responder => do
    let suite ← failedPolicySuite
    newResponderState suite

/-- A session under construction. Each answer is noted with the version of the cached
configuration at that moment. -/
structure Creation where
  role : Role
  trace : List (Ev Resp × ℕ)
  prog : Prog Resp Unit FdState

/-- The versions of the configuration that the policy and the identity came from. -/
def Creation.versions (c : Creation) : List ℕ :=
  (c.trace.filter fun x => x.1.op = .resolvePolicy ∨ x.1.op = .resolveIdentity).map Prod.snd

def Creation.inProgress (c : Creation) : Prop := ∀ st, c.prog ≠ .done () st

/-! ### The system -/

structure State where
  identity : Lookup
  policy : Lookup
  cache : Cache
  version : ℕ
  epoch : ℕ
  watcher : Watcher
  creations : List Creation

def State.write (s : State) (content : Lookup) : ConfigFile → State
  | .identity => { s with identity := content }
  | .policy => { s with policy := content }

/-- `CONFIG_EPOCH` starts at 1. -/
def State.start (identity policy : Lookup) : State where
  identity := identity
  policy := policy
  cache := .unused
  version := 1
  epoch := 1
  watcher := .down
  creations := []

/-- The environment variables do not change. -/
def State.sources (env : String → Lookup) (s : State) : Sources := ⟨env, s.identity, s.policy⟩

/-- What a creation is answered; only the configuration matters here. -/
def State.Answers (s : State) : (o : Op) → Resp o → Prop
  | .resolvePolicy, r => ∃ c, s.cache = .ready c ∧ r = c.policy.toOption
  | .resolveIdentity, r => ∃ c, s.cache = .ready c ∧ r = c.identity
  | .configEpoch, r => r = s.epoch
  | _, _ => True

/-- The steps that a condition may be put on. -/
inductive Label where
  | edit (c : Change)
  | teardown
  | advance
  | other

section
variable (P : Primitives) (validKey : ByteArr 32 → Bool) (env : String → Lookup)

inductive Step (s : State) : Label → State → Prop
  -- the operator changes a file, or another file of the directory changes
  | edit (f : ConfigFile) (content : Lookup) (c : Change) (hc : c.Sensible) :
      Step s (.edit c) { s.write content f with watcher := s.watcher.notify (c.event f) }
  | elsewhere (e : Event) (he : e.relevant = false) :
      Step s .other { s with watcher := s.watcher.notify e }
  -- first use
  | firstUse (h : s.cache = .unused) : Step s .other { s with cache := .initialising .begun }
  | initIdentity (h : s.cache = .initialising .begun) :
      Step s .other { s with cache := .initialising (.identityRead
        (loadIdentity validKey (s.sources env))) }
  | initPolicy {identity} (h : s.cache = .initialising (.identityRead identity)) :
      Step s .other { s with cache := .ready ⟨readPolicyFromSources (s.sources env), identity⟩ }
  -- `watch_config_dir_once`
  | addWatch (h : s.watcher = .down) : Step s .other { s with watcher := .watching [] [] none }
  | readFails {queue} (h : s.watcher = .watching queue [] none) :
      Step s .teardown { s with watcher := .down }
  | read {queue} (n : ℕ) (hn : 0 < n ∧ n ≤ queue.length) (h : s.watcher = .watching queue [] none) :
      Step s .other { s with watcher := .watching (queue.drop n) (queue.take n) none }
  | skip {queue batch e} (h : s.watcher = .watching queue (e :: batch) none)
      (he : e.relevant = false) : Step s .other { s with watcher := .watching queue batch none }
  -- `handle_config_change`
  | handle {queue batch e} (h : s.watcher = .watching queue (e :: batch) none)
      (he : e.relevant = true) :
      Step s .other { s with watcher := .watching queue batch (some (.loading .begun)) }
  | loadIdentity {queue batch} (h : s.watcher = .watching queue batch (some (.loading .begun))) :
      Step s .other { s with watcher := .watching queue batch (some (.loading (.identityRead
        (Crypto.loadIdentity validKey (s.sources env))))) }
  | loadPolicy {queue batch identity}
      (h : s.watcher = .watching queue batch (some (.loading (.identityRead identity)))) :
      Step s .other { s with watcher := .watching queue batch (some (.loaded
        ⟨readPolicyFromSources (s.sources env), identity⟩)) }
  | publish {queue batch c c'} (h : s.watcher = .watching queue batch (some (.loaded c)))
      (hready : s.cache = .ready c') :
      Step s .other { s with cache := .ready c, version := s.version + 1,
                             watcher := .watching queue batch (some .published) }
  | advance {queue batch} (h : s.watcher = .watching queue batch (some .published)) :
      Step s .advance { s with epoch := s.epoch + 1, watcher := .watching queue batch none }
  -- sessions
  | create (role : Role) :
      Step s .other { s with creations := s.creations ++ [⟨role, [], create P role ()⟩] }
  | ask (pre post : List Creation) (o : Op) {role : Role} {trace : List (Ev Resp × ℕ)}
      {k : Resp o → Prog Resp Unit FdState}
      (h : s.creations = pre ++ ⟨role, trace, .call () o k⟩ :: post) (r : Resp o)
      (hr : s.Answers o r) :
      Step s .other { s with
        creations := pre ++ ⟨role, trace ++ [(⟨o, r⟩, s.version)], k r⟩ :: post }

/-- The states of runs whose steps all meet the condition `allowed` where they are taken. -/
inductive Reachable (allowed : State → Label → Prop) (identity policy : Lookup) : State → Prop
  | start : Reachable allowed identity policy (.start identity policy)
  | step {s s' : State} {l : Label} (h : Reachable allowed identity policy s) (ha : allowed s l)
      (hs : Step P validKey env s l s') : Reachable allowed identity policy s'

end

/-! ### The stamp of a session -/

/-- No session that has read an older configuration is still being created when the epoch
advances. -/
def Paced (s : State) (l : Label) : Prop :=
  l = .advance → ∀ c ∈ s.creations, c.inProgress → ∀ v ∈ c.versions, v = s.version

/-- What a creation has read and how it was stamped, in terms of versions. -/
structure Creation.Ok (P : Primitives) (epoch : ℕ) (c : Creation) : Prop where
  runs : At (create P c.role ()) (c.trace.map Prod.fst) c.prog
  current : c.inProgress → ∀ v ∈ c.versions, epoch ≤ v
  stamped : ∀ e n, ((⟨.configEpoch, e⟩ : Ev Resp), n) ∈ c.trace →
    e ≤ epoch ∧ ∀ v ∈ c.versions, e ≤ v

structure State.Stamps (P : Primitives) (s : State) : Prop where
  behind : s.epoch ≤ s.version
  published : ∀ queue batch, s.watcher = .watching queue batch (some .published) →
    s.epoch + 1 ≤ s.version
  creations : ∀ c ∈ s.creations, c.Ok P s.epoch

section
variable {P : Primitives} {validKey : ByteArr 32 → Bool} {env : String → Lookup}
  {s s' : State} {l : Label}

theorem Creation.versions_concat {role : Role} {trace : List (Ev Resp × ℕ)}
    {prog prog' : Prog Resp Unit FdState} {x : Ev Resp × ℕ} {v : ℕ}
    (hv : v ∈ Creation.versions ⟨role, trace ++ [x], prog⟩) :
    v ∈ Creation.versions ⟨role, trace, prog'⟩ ∨ v = x.2 := by
  simp only [Creation.versions, List.filter_append, List.map_append, List.mem_append] at hv
  refine hv.imp_right fun hv => ?_
  obtain ⟨y, hy, rfl⟩ := List.mem_map.mp hv
  rw [List.mem_singleton.mp (List.mem_filter.mp hy).1]

/-- An answer to a creation in progress: what it reads is as new as the epoch, and so a
stamp is not newer than what was read before. -/
theorem Creation.Ok.ask {role : Role} {trace : List (Ev Resp × ℕ)} {o : Op}
    {k : Resp o → Prog Resp Unit FdState} (h : Creation.Ok P s.epoch ⟨role, trace, .call () o k⟩)
    (hbehind : s.epoch ≤ s.version) {r : Resp o} (hr : s.Answers o r) :
    Creation.Ok P s.epoch ⟨role, trace ++ [(⟨o, r⟩, s.version)], k r⟩ := by
  have hold := h.current fun st hst => by cases hst
  have hall : ∀ v ∈ Creation.versions ⟨role, trace ++ [(⟨o, r⟩, s.version)], k r⟩, s.epoch ≤ v := by
    intro v hv
    rcases Creation.versions_concat hv with hv | rfl
    · exact hold v hv
    · exact hbehind
  refine ⟨?_, fun _ => hall, ?_⟩
  · simpa using h.runs.step r
  · intro e n hmem
    rcases List.mem_append.mp hmem with hmem | hmem
    · obtain ⟨he, -⟩ := h.stamped e n hmem
      exact ⟨he, fun v hv => he.trans (hall v hv)⟩
    · have heq := List.mem_singleton.mp hmem
      obtain ⟨hev, -⟩ := Prod.mk.inj heq
      cases hev
      have he : e ≤ s.epoch := le_of_eq hr
      exact ⟨he, fun v hv => he.trans (hall v hv)⟩

theorem State.Stamps.keep (h : s.Stamps P) (hversion : s'.version = s.version)
    (hepoch : s'.epoch = s.epoch) (hcreations : s'.creations = s.creations)
    (hpublished : ∀ queue batch, s'.watcher = .watching queue batch (some .published) →
      ∃ queue batch, s.watcher = .watching queue batch (some .published)) : s'.Stamps P := by
  refine ⟨?_, ?_, ?_⟩
  · rw [hepoch, hversion]
    exact h.behind
  · intro queue batch hw
    obtain ⟨queue', batch', hw'⟩ := hpublished queue batch hw
    rw [hepoch, hversion]
    exact h.published queue' batch' hw'
  · rw [hcreations, hepoch]
    exact h.creations

theorem Watcher.notify_published {w : Watcher} {e : Event} {queue batch : List Event}
    (h : w.notify e = .watching queue batch (some .published)) :
    ∃ queue batch, w = .watching queue batch (some .published) := by
  cases w with
  | down => cases h
  | watching q b handler =>
    rw [Watcher.notify] at h
    split at h <;> cases h <;> exact ⟨_, _, rfl⟩

theorem State.Stamps.step (h : s.Stamps P) (ha : Paced s l) (hs : Step P validKey env s l s') :
    s'.Stamps P := by
  have hsame : ∀ queue batch, s.watcher = .watching queue batch (some .published) →
      ∃ queue batch, s.watcher = .watching queue batch (some .published) :=
    fun queue batch hw => ⟨queue, batch, hw⟩
  cases hs with
  | edit f content c hc =>
    cases f <;> exact h.keep rfl rfl rfl fun _ _ => Watcher.notify_published
  | elsewhere e he => exact h.keep rfl rfl rfl fun _ _ => Watcher.notify_published
  | firstUse | initIdentity | initPolicy => exact h.keep rfl rfl rfl hsame
  | addWatch | readFails | read | skip | handle | loadIdentity | loadPolicy =>
    exact h.keep rfl rfl rfl fun _ _ hw => by cases hw
  | publish hw hready =>
    have hbehind := h.behind
    exact ⟨hbehind.trans (Nat.le_succ _), fun _ _ _ => Nat.succ_le_succ hbehind, h.creations⟩
  | @advance queue batch hw =>
    have hnext := h.published queue batch hw
    refine ⟨hnext, fun _ _ hw' => (by cases hw'), fun c hc => ?_⟩
    obtain ⟨hruns, hcurrent, hstamped⟩ := h.creations c hc
    refine ⟨hruns, fun hin v hv => ?_, fun e n hmem => ?_⟩
    · rw [ha rfl c hc hin v hv]
      exact hnext
    · exact ⟨(hstamped e n hmem).1.trans (Nat.le_succ _), (hstamped e n hmem).2⟩
  | create role =>
    refine ⟨h.behind, h.published, fun c hc => ?_⟩
    rcases List.mem_append.mp hc with hc | hc
    · exact h.creations c hc
    · rw [List.mem_singleton.mp hc]
      exact ⟨.refl, fun _ v hv => (by cases hv), fun e n hmem => (by cases hmem)⟩
  | @ask pre post o role trace k hmem r hr =>
    refine ⟨h.behind, h.published, fun c hc => ?_⟩
    have hold := h.creations
    rw [hmem] at hold
    rcases List.mem_append.mp hc with hc | hc
    · exact hold c (List.mem_append_left _ hc)
    · rcases List.mem_cons.mp hc with rfl | hc
      · exact (hold _ (by simp)).ask h.behind hr
      · exact hold c (List.mem_append_right _ (List.mem_cons_of_mem _ hc))

theorem Reachable.stamps {identity policy : Lookup}
    (h : Reachable P validKey env Paced identity policy s) : s.Stamps P := by
  induction h with
  | start => exact ⟨le_rfl, fun _ _ hw => (by cases hw), fun c hc => (by cases hc)⟩
  | step _ ha hs ih => exact ih.step ha hs

theorem create_fresh {role : Role} {t : Tr} {st : FdState}
    (h : At (create P role ()) t (.done () st)) : Fresh t st := by
  have hsafe : Safe anyCall (fun t _ st => Fresh t st) (create P role ()) [] := by
    cases role with
    | initiator => exact newInitiatorState_safe fun t' st hf _ => hf
    | responder => exact ⟨trivial, fun r => newResponderState_safe (P := P) fun t' st hf _ => hf⟩
  simpa using safe_at hsafe h

theorem Creation.Ok.stamp {c : Creation} {epoch : ℕ} (h : c.Ok P epoch) {st : FdState}
    (hdone : c.prog = .done () st) :
    ∃ n, ((⟨.configEpoch, st.configEpoch⟩ : Ev Resp), n) ∈ c.trace := by
  have hruns := h.runs
  rw [hdone] at hruns
  obtain ⟨⟨ev, n⟩, hmem, rfl⟩ := List.mem_map.mp (create_fresh hruns).epoch
  exact ⟨n, hmem⟩

end

/-- An idle session whose stamp is not the current epoch is closed by the guard. -/
theorem failIfStaleIdleConfig_stale {st st' : FdState} {epoch : ℕ} {u : Tr} {b : Bool}
    (hne : st.configEpoch ≠ epoch) (hidle : st.isIdleForConfigReload = true)
    (h : At (failIfStaleIdleConfig st) (⟨.configEpoch, epoch⟩ :: u) (.done st' b)) :
    b = true ∧ st'.phase = .failed := by
  have hsafe : Safe unasked (fun t s' b => ∀ u, t = ⟨.configEpoch, epoch⟩ :: u →
      b = true ∧ s'.phase = .failed) (failIfStaleIdleConfig st) [] := by
    simp only [failIfStaleIdleConfig, bind_apply, get_apply, bind_done, perform_apply, bind_call,
      safe_call]
    refine ⟨trivial, fun r => ?_⟩
    by_cases hr : st.configEpoch = r
    · simp only [hr, if_true]
      intro u hu
      cases hu
      exact absurd hr hne
    · simp only [hr, if_false, hidle, if_true, bind_apply]
      refine safe_bind (failClosed_rule (fun _ _ _ _ _ => trivial) (fun _ => trivial) ?_)
      exact ⟨trivial, fun r' u _ => ⟨rfl, rfl⟩⟩
  exact safe_at hsafe h u rfl

/-- An epoch stamp is not newer than the configuration it stamps: a session that was built
from a configuration older than the epoch is recognised as stale. -/
theorem stamp_le_version {P : Primitives} {validKey : ByteArr 32 → Bool} {env : String → Lookup}
    {identity policy : Lookup} {s : State} (h : Reachable P validKey env Paced identity policy s) :
    ∀ c ∈ s.creations, ∀ st, c.prog = .done () st → ∀ v ∈ c.versions,
      st.configEpoch ≤ v ∧ (v < s.epoch → ∀ st₁, st₁.configEpoch = st.configEpoch →
        st₁.isIdleForConfigReload = true → ∀ u st' b,
          At (failIfStaleIdleConfig st₁) (⟨.configEpoch, s.epoch⟩ :: u) (.done st' b) →
          b = true ∧ st'.phase = .failed) := by
  intro c hc st hdone v hv
  have hok := h.stamps.creations c hc
  obtain ⟨n, hmem⟩ := hok.stamp hdone
  have hle := (hok.stamped st.configEpoch n hmem).2 v hv
  refine ⟨hle, fun hlt st₁ hsame hidle u st' b hat => ?_⟩
  refine failIfStaleIdleConfig_stale ?_ hidle hat
  rw [hsame]
  exact Nat.ne_of_lt (hle.trans_lt hlt)

/-! ### Runs without identity and with a policy file -/

/-- The runs of a host without configuration. -/
abbrev Bare (allowed : State → Label → Prop) : State → Prop :=
  Reachable specimen (fun _ => true) (fun _ => .missing) allowed .missing .missing

/-- The configuration is loaded and watched, and a responder has read the policy. -/
def policyRead : State :=
  { State.start .missing .missing with
    cache := .ready ⟨.ok .nistStandard768, .error .badIdentityConfig⟩
    watcher := .watching [] [] none
    creations := [⟨.responder,
      [(⟨.resolvePolicy, some .nistStandard768⟩, 1), (⟨.resolvePolicy, some .nistStandard768⟩, 1)],
      FdState.responder .nistStandard768 ()⟩] }

section
variable {allowed : State → Label → Prop}

theorem policyRead_reachable (h : ∀ s, allowed s .other) : Bare allowed policyRead := by
  have h₀ : Bare allowed _ := .start
  have h₁ := h₀.step (h _) (.firstUse rfl)
  have h₂ := h₁.step (h _) (.initIdentity rfl)
  have h₃ := h₂.step (h _) (.initPolicy rfl)
  have h₄ := h₃.step (h _) (.addWatch rfl)
  have h₅ := h₄.step (h _) (.create .responder)
  have h₆ := h₅.step (h _) (.ask [] [] .resolvePolicy rfl (some .nistStandard768) ⟨_, rfl, rfl⟩)
  have h₇ := h₆.step (h _) (.ask [] [] .resolvePolicy rfl (some .nistStandard768) ⟨_, rfl, rfl⟩)
  exact h₇

theorem stamped_reachable {s : State} {c : List (Ev Resp × ℕ)} (h : ∀ s, allowed s .other)
    (hs : Bare allowed s)
    (hc : s.creations = [⟨.responder, c, FdState.responder .nistStandard768 ()⟩]) :
    Bare allowed { s with creations := [⟨.responder,
      c ++ [(⟨.getpid, 7⟩, s.version), (⟨.configEpoch, s.epoch⟩, s.version)],
      .done () { responderSession with configEpoch := s.epoch }⟩] } := by
  have h₁ := hs.step (h _) (.ask [] [] .getpid hc 7 trivial)
  have h₂ := h₁.step (h _) (.ask [] [] .configEpoch rfl s.epoch rfl)
  simpa [responderSession] using h₂

end

/-- The policy file that is renamed into the directory. -/
def newPolicy : Lookup := .value "suite = 1024".toList

/-- A watched change of the policy from the rename to the new epoch. -/
theorem reloaded_reachable {allowed : State → Label → Prop} (hother : ∀ s, allowed s .other)
    {s : State} {c : RuntimeConfig} (hs : Bare allowed s) (hw : s.watcher = .watching [] [] none)
    (hc : s.cache = .ready c) (hedit : allowed s (.edit .movedIn))
    (hadvance : ∀ s', s'.creations = s.creations → allowed s' .advance) :
    Bare allowed { s with
      policy := newPolicy
      cache := .ready (loadRuntimeConfig (fun _ => true) ⟨fun _ => .missing, s.identity, newPolicy⟩)
      version := s.version + 1
      epoch := s.epoch + 1 } := by
  obtain ⟨identity, policy, cache, version, epoch, watcher, creations⟩ := s
  cases hw
  cases hc
  have h₁ := hs.step hedit (.edit .policy newPolicy .movedIn trivial)
  have h₂ := h₁.step (hother _) (.read 1 (by decide) rfl)
  have h₃ := h₂.step (hother _) (.handle rfl (by decide))
  have h₄ := h₃.step (hother _) (.loadIdentity rfl)
  have h₅ := h₄.step (hother _) (.loadPolicy rfl)
  have h₆ := h₅.step (hother _) (.publish rfl rfl)
  exact h₆.step (hadvance _ rfl) (.advance rfl)

/-- A responder that reads its policy and its epoch before the configuration changes: once the
new configuration is published and the epoch advanced, the guard closes it. -/
theorem stamp_le_version_first : ∃ s c u st' b, Bare Paced s ∧ c ∈ s.creations ∧
    c.prog = .done () { responderSession with configEpoch := 1 } ∧ c.versions = [1, 1] ∧
    s.version = 2 ∧ s.epoch = 2 ∧
    At (failIfStaleIdleConfig { responderSession with configEpoch := 1 })
      (⟨.configEpoch, s.epoch⟩ :: u) (.done st' b) ∧ b = true ∧ st'.phase = .failed := by
  have hother : ∀ s, Paced s .other := fun s hl => by cases hl
  have h₀ := stamped_reachable hother (policyRead_reachable hother) rfl
  have h₁ := reloaded_reachable hother h₀ rfl rfl (fun hl => by cases hl) <| by
    -- the creation is through
    intro s' hs' _ c hc hin
    rw [hs', List.mem_singleton] at hc
    rw [hc] at hin
    exact absurd rfl (hin _)
  have hguard : At (failIfStaleIdleConfig { responderSession with configEpoch := 1 })
      [⟨.configEpoch, 2⟩, noted (.failClosed .staleIdleConfig), ⟨.configEpoch, 2⟩]
      (.done { responderSession.closed with configEpoch := 2 } true) := .head (.head (.head .refl))
  have hc := stamp_le_version h₁ _ (List.mem_singleton.mpr rfl) _ rfl 1 (by decide)
  obtain ⟨hb, hf⟩ := hc.2 (by decide) _ rfl rfl _ _ _ hguard
  exact ⟨_, _, _, _, _, h₁, List.mem_singleton.mpr rfl, rfl, rfl, rfl, rfl, hguard, hb, hf⟩

/-- The configuration is replaced and the epoch advanced between the two readings: the
session carries the new epoch and the old policy. -/
theorem stamp_le_version_not : ∃ s c config, Bare (fun _ _ => True) s ∧ c ∈ s.creations ∧
    c.prog = .done () { responderSession with configEpoch := 2 } ∧ c.versions = [1, 1] ∧
    s.epoch = 2 ∧ s.cache = .ready config ∧ config.policy = .ok .nistStandard1024 := by
  have h₀ : Bare (fun _ _ => True) policyRead := policyRead_reachable fun _ => trivial
  have h₁ := reloaded_reachable (fun _ => trivial) h₀ rfl rfl trivial fun _ _ => trivial
  have h₂ := stamped_reachable (fun _ => trivial) h₁ rfl
  exact ⟨_, _, _, h₂, List.mem_singleton.mpr rfl, rfl, rfl, rfl, rfl, by decide +kernel⟩

/-! ### The cached configuration and the files -/

/-- Events the watcher has not handled. -/
def Watcher.events : Watcher → List Event
  | .down => []
  | .watching queue batch _ => queue ++ batch

def Watcher.handler : Watcher → Option Handler
  | .down => none
  | .watching _ _ handler => handler

def Watcher.Pending (w : Watcher) : Prop := ∃ e ∈ w.events, e.relevant = true

/-- The files have been looked at, by the first use or by a handler. -/
def State.Looked (s : State) : Prop := s.cache ≠ .unused ∨ s.watcher.handler ≠ none

/-- A file is changed only while a watch is installed and only in a way that is announced, and
the watch is given up only when no relevant event waits; before the files are looked at both
are free. -/
def Watched (s : State) (l : Label) : Prop :=
  s.Looked → (∀ c, l = .edit c → s.watcher ≠ .down ∧ c.announced = true) ∧
    (l = .teardown → ¬ s.watcher.Pending)

/-- The handler has yet to read the identity, or has read this one and not published it. -/
def Handler.BringsIdentity (identity : Except CryptoError IdentityMaterial) : Handler → Prop
  | .loading .begun => True
  | .loading (.identityRead i) => i = identity
  | .loaded c => c.identity = identity
  | .published => False

def Handler.BringsPolicy (policy : Except String CipherSuite) : Handler → Prop
  | .loading _ => True
  | .loaded c => c.policy = policy
  | .published => False

/-- What the watcher does next will replace an older value. -/
def Watcher.Renews (w : Watcher) (brings : Handler → Prop) : Prop :=
  w.Pending ∨ ∃ h, w.handler = some h ∧ brings h

section
variable (validKey : ByteArr 32 → Bool) (env : String → Lookup)

def State.identityNow (s : State) : Except CryptoError IdentityMaterial :=
  loadIdentity validKey (s.sources env)

def State.policyNow (s : State) : Except String CipherSuite :=
  readPolicyFromSources (s.sources env)

/-- An identity that was read is that of the files, or will be replaced. -/
def State.IdentityDue (s : State) (i : Except CryptoError IdentityMaterial) : Prop :=
  i = s.identityNow validKey env ∨
    s.watcher.Renews (Handler.BringsIdentity (s.identityNow validKey env))

def State.PolicyDue (s : State) (p : Except String CipherSuite) : Prop :=
  p = s.policyNow env ∨ s.watcher.Renews (Handler.BringsPolicy (s.policyNow env))

/-- The handler holds what is in the files, or an event waits. -/
structure State.HandlerFresh (s : State) : Prop where
  loading : ∀ i, s.watcher.handler = some (.loading (.identityRead i)) →
    i = s.identityNow validKey env ∨ s.watcher.Pending
  loaded : ∀ c, s.watcher.handler = some (.loaded c) →
    (c.identity = s.identityNow validKey env ∨ s.watcher.Pending) ∧
      (c.policy = s.policyNow env ∨ s.watcher.Pending)

/-- What was read from the files is in them still, or will be replaced. -/
structure State.Fresh (s : State) : Prop extends s.HandlerFresh validKey env where
  initialising : ∀ i, s.cache = .initialising (.identityRead i) → s.IdentityDue validKey env i
  ready : ∀ c, s.cache = .ready c →
    s.IdentityDue validKey env c.identity ∧ s.PolicyDue env c.policy

end

section
variable {P : Primitives} {validKey : ByteArr 32 → Bool} {env : String → Lookup}
  {s s' : State} {l : Label}

theorem Watcher.notify_pending {w : Watcher} {e : Event} (he : e.relevant = true)
    (hw : w ≠ .down) : (w.notify e).Pending := by
  cases w with
  | down => exact absurd rfl hw
  | watching queue batch handler =>
    have hmask : e.mask &&& watchMask ≠ 0 := by
      intro hnone
      rw [watchMask] at hnone
      rw [Event.relevant, isRelevantConfigEvent, if_pos hnone] at he
      cases he
    refine ⟨e, ?_, he⟩
    simp [Watcher.notify, Watcher.events, hmask]

theorem Watcher.notify_handler (w : Watcher) (e : Event) : (w.notify e).handler = w.handler := by
  cases w with
  | down => rfl
  | watching queue batch handler =>
    rw [Watcher.notify]
    split <;> rfl

theorem Watcher.Pending.notify {w : Watcher} (h : w.Pending) (e : Event) :
    (w.notify e).Pending := by
  obtain ⟨e', hmem, he'⟩ := h
  cases w with
  | down => cases hmem
  | watching queue batch handler =>
    refine ⟨e', ?_, he'⟩
    rw [Watcher.notify]
    split
    · exact hmem
    · simp only [Watcher.events, List.mem_append] at hmem ⊢
      tauto

theorem Watcher.Renews.pending {w : Watcher} {brings : Handler → Prop} (h : w.Renews brings)
    (hnone : ∀ hd, w.handler = some hd → ¬ brings hd) : w.Pending :=
  h.resolve_right fun ⟨hd, heq, hb⟩ => hnone hd heq hb

/-- An event that waits answers for everything that was read. -/
theorem State.fresh_of_pending (h : s.watcher.Pending) : s.Fresh validKey env where
  loading := fun _ _ => .inr h
  loaded := fun _ _ => ⟨.inr h, .inr h⟩
  initialising := fun _ _ => .inr (.inl h)
  ready := fun _ _ => ⟨.inr (.inl h), .inr (.inl h)⟩

/-- Before the first use and without a handler nothing was read. -/
theorem State.fresh_of_unused (hcache : s.cache = .unused) (hhandler : s.watcher.handler = none) :
    s.Fresh validKey env where
  loading := fun i hi => by rw [hhandler] at hi; cases hi
  loaded := fun c hc => by rw [hhandler] at hc; cases hc
  initialising := fun i hi => by rw [hcache] at hi; cases hi
  ready := fun c hc => by rw [hcache] at hc; cases hc

/-- A step of the watcher that replaces what the step before would have replaced. -/
theorem State.Fresh.watch (h : s.Fresh validKey env) {w : Watcher}
    (hi : s.watcher.Renews (Handler.BringsIdentity (s.identityNow validKey env)) →
      w.Renews (Handler.BringsIdentity (s.identityNow validKey env)))
    (hp : s.watcher.Renews (Handler.BringsPolicy (s.policyNow env)) →
      w.Renews (Handler.BringsPolicy (s.policyNow env)))
    (hhandler : State.HandlerFresh validKey env { s with watcher := w }) :
    State.Fresh validKey env { s with watcher := w } where
  toHandlerFresh := hhandler
  initialising := fun i hi' => (h.initialising i hi').imp_right hi
  ready := fun c hc => ⟨(h.ready c hc).1.imp_right hi, (h.ready c hc).2.imp_right hp⟩

theorem State.handlerFresh_none {w : Watcher} (hw : w.handler = none) :
    State.HandlerFresh validKey env { s with watcher := w } where
  loading := fun i hi => by cases hw.symm.trans hi
  loaded := fun c hc => by cases hw.symm.trans hc

theorem State.Fresh.idle (h : s.Fresh validKey env) {w : Watcher}
    (hold : s.watcher.handler = none) (hnew : w.handler = none)
    (hpending : s.watcher.Pending → w.Pending) :
    State.Fresh validKey env { s with watcher := w } := by
  have hrenews : ∀ brings : Handler → Prop, s.watcher.Renews brings → w.Renews brings :=
    fun brings hr => .inl (hpending (hr.pending fun hd heq => by rw [hold] at heq; cases heq))
  exact h.watch (hrenews _) (hrenews _) (handlerFresh_none hnew)

/-- An event that comes in takes nothing from what waits. -/
theorem State.Fresh.notify (h : s.Fresh validKey env) (e : Event) :
    State.Fresh validKey env { s with watcher := s.watcher.notify e } := by
  have hrenews : ∀ brings : Handler → Prop, s.watcher.Renews brings →
      (s.watcher.notify e).Renews brings := by
    rintro brings (hp | ⟨hd, heq, hb⟩)
    · exact .inl (hp.notify e)
    · exact .inr ⟨hd, (s.watcher.notify_handler e).trans heq, hb⟩
  refine h.watch (hrenews _) (hrenews _) ⟨fun i hi => ?_, fun c hc => ?_⟩
  · rw [show _ = s.watcher.handler from s.watcher.notify_handler e] at hi
    exact (h.loading i hi).imp_right fun hp => hp.notify e
  · rw [show _ = s.watcher.handler from s.watcher.notify_handler e] at hc
    obtain ⟨hid, hpol⟩ := h.loaded c hc
    exact ⟨hid.imp_right fun hp => hp.notify e, hpol.imp_right fun hp => hp.notify e⟩

/-- What waits does not depend on how far the handler is. -/
theorem Watcher.Pending.handled {queue batch : List Event} {hd hd' : Option Handler}
    (h : (Watcher.watching queue batch hd).Pending) :
    (Watcher.watching queue batch hd').Pending := h

theorem State.Fresh.step (h : s.Fresh validKey env) (ha : Watched s l)
    (hs : Step P validKey env s l s') : s'.Fresh validKey env := by
  cases hs with
  | edit f content c hc =>
    by_cases hlooked : s.Looked
    · obtain ⟨hup, hann⟩ := (ha hlooked).1 c rfl
      exact fresh_of_pending (Watcher.notify_pending ((c.relevant_iff f hc).mpr hann) hup)
    · obtain ⟨hunused, hnone⟩ := not_or.mp hlooked
      have hafter := (s.watcher.notify_handler (c.event f)).trans (not_not.mp hnone)
      cases f <;> exact fresh_of_unused (not_not.mp hunused) hafter
  | elsewhere e he => exact h.notify e
  | firstUse hc =>
    exact ⟨⟨h.loading, h.loaded⟩, fun i hi => (by cases hi), fun c hc => (by cases hc)⟩
  | initIdentity hc =>
    refine ⟨⟨h.loading, h.loaded⟩, fun i hi => ?_, fun c hc => (by cases hc)⟩
    cases hi
    exact .inl rfl
  | initPolicy hc =>
    refine ⟨⟨h.loading, h.loaded⟩, fun i hi => (by cases hi), fun c hc' => ?_⟩
    cases hc'
    exact ⟨h.initialising _ hc, .inl rfl⟩
  | addWatch hw =>
    refine h.idle (by rw [hw]; rfl) rfl fun hp => ?_
    obtain ⟨e, hmem, -⟩ := hp
    rw [hw] at hmem
    cases hmem
  | readFails hw =>
    by_cases hunused : s.cache = .unused
    · exact fresh_of_unused hunused rfl
    · exact h.idle (by rw [hw]; rfl) rfl fun hp => absurd hp ((ha (.inl hunused)).2 rfl)
  | @read queue n hn hw =>
    refine h.idle (by rw [hw]; rfl) rfl fun ⟨e, hmem, he⟩ => ⟨e, ?_, he⟩
    rw [hw, Watcher.events, List.append_nil, ← List.take_append_drop n queue] at hmem
    exact List.mem_append.mpr (List.mem_append.mp hmem).symm
  | @skip queue batch e hw he =>
    refine h.idle (by rw [hw]; rfl) rfl fun ⟨e', hmem, he'⟩ => ⟨e', ?_, he'⟩
    rw [hw, Watcher.events] at hmem
    simp only [Watcher.events, List.mem_append, List.mem_cons] at hmem ⊢
    rcases hmem with hmem | rfl | hmem
    · exact .inl hmem
    · rw [he] at he'
      cases he'
    · exact .inr hmem
  | handle hw he =>
    exact h.watch (fun _ => .inr ⟨_, rfl, trivial⟩) (fun _ => .inr ⟨_, rfl, trivial⟩)
      ⟨fun i hi => (by cases hi), fun c hc => (by cases hc)⟩
  | loadIdentity hw =>
    refine h.watch (fun _ => .inr ⟨_, rfl, rfl⟩) (fun _ => .inr ⟨_, rfl, trivial⟩)
      ⟨fun i hi => ?_, fun c hc => (by cases hc)⟩
    cases hi
    exact .inl rfl
  | @loadPolicy queue batch i hw =>
    have hold := h.loading i (by rw [hw]; rfl)
    rw [hw] at hold
    refine h.watch (fun hr => ?_) (fun _ => .inr ⟨_, rfl, rfl⟩)
      ⟨fun i hi => (by cases hi), fun c hc => ?_⟩
    · rcases hold with hi | hp
      · exact .inr ⟨_, rfl, hi⟩
      · exact .inl hp.handled
    · cases hc
      exact ⟨hold.imp_right .handled, .inl rfl⟩
  | @publish queue batch c c' hw hready =>
    obtain ⟨hid, hpol⟩ := h.loaded c (by rw [hw]; rfl)
    rw [hw] at hid hpol
    refine ⟨⟨fun i hi => (by cases hi), fun c hc => (by cases hc)⟩, fun i hi => (by cases hi),
      fun c' hc' => ?_⟩
    cases hc'
    exact ⟨hid.imp_right fun hp => .inl hp.handled, hpol.imp_right fun hp => .inl hp.handled⟩
  | @advance queue batch hw =>
    have hrenews : ∀ brings : Handler → Prop, ¬ brings .published → s.watcher.Renews brings →
        Watcher.Renews (.watching queue batch none) brings := by
      intro brings hnot hr
      rw [hw] at hr
      refine .inl (hr.pending fun hd heq => ?_)
      cases heq
      exact hnot
    have hf := h.watch (hrenews _ id) (hrenews _ id) (handlerFresh_none rfl)
    exact ⟨⟨hf.loading, hf.loaded⟩, hf.initialising, hf.ready⟩
  | create | ask => exact ⟨⟨h.loading, h.loaded⟩, h.initialising, h.ready⟩

theorem Reachable.fresh {identity policy : Lookup}
    (h : Reachable P validKey env Watched identity policy s) : s.Fresh validKey env := by
  induction h with
  | start => exact State.fresh_of_unused rfl rfl
  | step _ ha hs ih => exact ih.step ha hs

end

/-- No update of the configuration is lost while it is watched and announced. -/
theorem config_current {P : Primitives} {validKey : ByteArr 32 → Bool} {env : String → Lookup}
    {identity policy : Lookup} {s : State}
    (h : Reachable P validKey env Watched identity policy s)
    (hw : s.watcher = .watching [] [] none) :
    ∀ c, s.cache = .ready c → c = loadRuntimeConfig validKey (s.sources env) := by
  intro c hc
  have hnot : ∀ brings : Handler → Prop, ¬ s.watcher.Renews brings := by
    rw [hw]
    rintro brings (⟨e, hmem, -⟩ | ⟨hd, heq, -⟩)
    · cases hmem
    · cases heq
  obtain ⟨hid, hpol⟩ := h.fresh.ready c hc
  have hpolicy := hpol.resolve_right (hnot _)
  have hidentity := hid.resolve_right (hnot _)
  cases c
  rw [loadRuntimeConfig]
  exact congrArg₂ RuntimeConfig.mk hpolicy hidentity

/-- The policy is changed after a watch was installed, and the event is handled. -/
theorem config_current_handled : ∃ s c, Bare Watched s ∧ s.watcher = .watching [] [] none ∧
    s.cache = .ready c ∧ c.policy = .ok .nistStandard1024 ∧
    c = loadRuntimeConfig (fun _ => true) (s.sources fun _ => .missing) := by
  have hother : ∀ s, Watched s .other :=
    fun s _ => ⟨fun c hl => (by cases hl), fun hl => (by cases hl)⟩
  have h₀ := policyRead_reachable hother
  have hedit : Watched policyRead (.edit .movedIn) := by
    refine fun _ => ⟨fun c hl => ?_, fun hl => (by cases hl)⟩
    cases hl
    exact ⟨fun hw => (by cases hw), rfl⟩
  have h₁ := reloaded_reachable hother h₀ rfl rfl hedit
    fun _ _ _ => ⟨fun c hl => (by cases hl), fun hl => (by cases hl)⟩
  exact ⟨_, _, h₁, rfl, rfl, by decide +kernel, config_current h₁ rfl _ rfl⟩

/-- The policy is changed after the first use and before the watch is there: the process
stays with the old one. -/
theorem config_current_not : ∃ s c, Bare (fun _ _ => True) s ∧ s.watcher = .watching [] [] none ∧
    s.cache = .ready c ∧ c.policy = .ok .nistStandard768 ∧
    (loadRuntimeConfig (fun _ => true) (s.sources fun _ => .missing)).policy =
      .ok .nistStandard1024 := by
  have h₀ : Bare (fun _ _ => True) _ := .start
  have h₁ := h₀.step trivial (.firstUse rfl)
  have h₂ := h₁.step trivial (.initIdentity rfl)
  have h₃ := h₂.step trivial (.initPolicy rfl)
  have h₄ := h₃.step trivial (.edit .policy newPolicy .movedIn trivial)
  have h₅ := h₄.step trivial (.addWatch rfl)
  exact ⟨_, _, h₅, rfl, rfl, rfl, by decide +kernel⟩

end Reload

end SyntriassOverlay
