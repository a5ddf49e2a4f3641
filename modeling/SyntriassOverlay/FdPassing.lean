import SyntriassOverlay.Lib.ControlMessage
import SyntriassOverlay.FdState

/-!
# Descriptors passed over a Unix socket (fd_passing.rs:14-113)

`send_fd` and `recv_fd` hand one descriptor across as `SCM_RIGHTS` control data. The kernel
installs the descriptors of a message in the receiving process before `recvmsg` returns, as
many as the control buffer has room for; from then on they are open until they are closed.
-/

namespace SyntriassOverlay
open Resumption BigEndian ControlMessage

/-- A `c_int` by its bits. -/
abbrev CInt := UInt32

def solSocket : CInt := 1
def scmRights : CInt := 1

/-- `MSG_CTRUNC` of Linux. -/
def msgCtrunc : ℕ := 8

/-! ### What the kernel delivers -/

/-- A control message in the buffer: descriptors, or a message of another level or type. -/
inductive Control where
  | rights (fds : List CInt)
  | other (m : Message) (h : ¬ (m.level = solSocket ∧ m.type = scmRights))
  deriving DecidableEq

def Control.message : Control → Message
  | .rights fds => ⟨solSocket, scmRights, fds.flatMap fun fd => leBytes 4 fd.toNat⟩
  | .other m _ => m

/-- The descriptors that come with a message. -/
def Control.fds : Control → List CInt
  | .rights fds => fds
  | .other _ _ => []

/-- The size of the control buffer that `recv_fd` offers. -/
def cmsgSpace : ℕ := space 4

/-- A message as `recvmsg` delivers it to `recv_fd`. The peer has passed `passed` descriptors;
those that are in the control buffer are installed in this process. They are all of them
unless the kernel reports that control data was truncated. -/
structure Delivery where
  data : Bytes
  flags : ℕ
  controls : List Control
  passed : ℕ
  fits : (encode (controls.map Control.message)).length ≤ cmsgSpace
  distinct : (controls.flatMap Control.fds).Nodup
  some_passed : (controls.flatMap Control.fds).length ≤ passed
  all_passed : flags &&& msgCtrunc = 0 → (controls.flatMap Control.fds).length = passed

namespace Delivery
variable (d : Delivery)

/-- The descriptors that are open in this process because of the message. -/
def installed : List CInt := d.controls.flatMap Control.fds

/-- `msg_control` up to `msg_controllen`. -/
def control : Bytes := encode (d.controls.map Control.message)

def Truncated : Prop := d.flags &&& msgCtrunc ≠ 0

instance : Decidable d.Truncated := inferInstanceAs (Decidable (_ ≠ _))

end Delivery

/-! ### The two functions -/

inductive PassOp where
  | sendmsg (data control : Bytes)
  | recvmsg
  | close (fd : CInt)

@[reducible] def PassResp : PassOp → Type
  | .sendmsg _ _ => Except Errno Unit
  | .recvmsg => Except Errno Delivery
  | .close _ => Unit

abbrev PassAct (α : Type) := Act PassResp Unit α

def sendFd (payload : Bytes) (fd : CInt) : PassAct (Except Errno Unit) :=
  let data := if payload.isEmpty then [0] else payload
  perform (PassOp.sendmsg data (Message.bytes ⟨solSocket, scmRights, leBytes 4 fd.toNat⟩))

/-- The descriptor at index `i` of an array. -/
def readFd (fds : Bytes) (i : ℕ) : CInt := .ofNat (leNat ((fds.drop (4 * i)).take 4))

def closeAll : List CInt → PassAct Unit
  | [] => pure ()
  | fd :: fds => do
    perform (PassOp.close fd)
    closeAll fds

def isRights (level type : CInt) : Bool := level == solSocket && type == scmRights

/-- `recv_fd` from the return of `recvmsg` on. -/
def takeFd (d : Delivery) : PassAct (Except Errno (Bytes × Option CInt)) :=
  if d.flags &&& msgCtrunc ≠ 0 then pure (.ok (d.data, none))
  else
    match (firstHdr d.control).bind (find isRights d.control.length) with
    | none => pure (.ok (d.data, none))
    | some cmsg =>
      let nfds := (lenAt cmsg - ControlMessage.hdrLen) / 4
      let fds := dataAt cmsg
      if nfds = 1 then pure (.ok (d.data, some (readFd fds 0)))
      else do
        closeAll ((List.range nfds).map (readFd fds))
        pure (.ok (d.data, none))

def recvFd : PassAct (Except Errno (Bytes × Option CInt)) := do
  match ← perform PassOp.recvmsg with
  | .error e => pure (.error e)
  | .ok d => takeFd d

/-! ### What is in the control buffer -/

theorem readFd_zero (fd : CInt) (rest : Bytes) : readFd (leBytes 4 fd.toNat ++ rest) 0 = fd := by
  rw [readFd, Nat.mul_zero, List.drop_zero, List.take_left' (leBytes_length 4 _),
    leNat_leBytes 4 _ fd.toNat_lt, UInt32.ofNat_toNat]

theorem readFd_succ (fd : CInt) (rest : Bytes) (i : ℕ) :
    readFd (leBytes 4 fd.toNat ++ rest) (i + 1) = readFd rest i := by
  have hdrop : (leBytes 4 fd.toNat ++ rest).drop (4 * (i + 1)) = rest.drop (4 * i) := by
    rw [Nat.mul_add, Nat.add_comm, ← List.drop_drop, List.drop_left' (leBytes_length 4 _)]
  rw [readFd, readFd, hdrop]

theorem readFd_array (fds : List CInt) (rest : Bytes) :
    (List.range fds.length).map
      (readFd ((fds.flatMap fun fd => leBytes 4 fd.toNat) ++ rest)) = fds := by
  induction fds with
  | nil => rfl
  | cons fd fds ih =>
    rw [List.length_cons, List.range_succ_eq_map, List.map_cons, List.map_map, List.flatMap_cons,
      List.append_assoc, readFd_zero]
    have htail := List.map_congr_left (l := List.range fds.length) fun i _ =>
      readFd_succ fd ((fds.flatMap fun fd => leBytes 4 fd.toNat) ++ rest) i
    exact congrArg (fd :: ·) (htail.trans ih)

theorem rights_length (fds : List CInt) :
    (fds.flatMap fun fd => leBytes 4 fd.toNat).length = 4 * fds.length := by
  induction fds with
  | nil => rfl
  | cons fd fds ih =>
    rw [List.flatMap_cons, List.length_append, leBytes_length, ih, List.length_cons]
    omega

theorem isRights_message (c : Control) :
    isRights c.message.level c.message.type = true ↔ ∃ fds, c = .rights fds := by
  cases c with
  | rights fds => exact ⟨fun _ => ⟨fds, rfl⟩, fun _ => rfl⟩
  | other m h =>
    refine ⟨fun hm => absurd ?_ h, fun ⟨fds, hfds⟩ => by cases hfds⟩
    simpa [isRights, Control.message] using hm

namespace Delivery
variable {d : Delivery}

/-- The buffer has room for two descriptors, but not for two messages. -/
theorem controls_length (d : Delivery) : d.controls.length ≤ 1 := by
  by_contra hlong
  have hfits := d.fits
  rcases hd : d.controls with _ | ⟨c, _ | ⟨c', cs⟩⟩
  · simp [hd] at hlong
  · simp [hd] at hlong
  · have hc := c.message.hdrLen_le
    have hc' := c'.message.hdrLen_le
    have hspace : cmsgSpace < ControlMessage.hdrLen + ControlMessage.hdrLen := by decide
    simp only [hd, List.map_cons, encode_cons, List.length_append] at hfits
    omega

theorem message_len (d : Delivery) : ∀ m ∈ d.controls.map Control.message, m.len < 256 ^ 8 := by
  intro m hm
  have hspace : cmsgSpace < 256 ^ 8 := by decide
  have hle : m.bytes.length ≤ (encode (d.controls.map Control.message)).length := by
    obtain ⟨l, r, hlr⟩ := List.append_of_mem hm
    rw [hlr, encode, List.flatMap_append, List.flatMap_cons, List.length_append,
      List.length_append]
    omega
  have hfits := d.fits
  have hlen := le_align m.len
  rw [m.bytes_length] at hle
  omega

theorem controls_le (d : Delivery) :
    (d.controls.map Control.message).length ≤ d.control.length := by
  have hshort := d.controls_length
  rw [List.length_map]
  cases hd : d.controls with
  | nil => exact Nat.zero_le _
  | cons c cs =>
    have hc := c.message.hdrLen_le
    have hpos : 1 ≤ ControlMessage.hdrLen := by decide
    rw [hd] at hshort
    rw [control, hd, List.map_cons, encode_cons, List.length_append]
    omega

end Delivery

/-- The header and the array of an `SCM_RIGHTS` message are read as they were written. -/
theorem rights_read {fds : List CInt} (h : (Control.rights fds).message.len < 256 ^ 8) :
    (lenAt (Control.rights fds).message.bytes - ControlMessage.hdrLen) / 4 = fds.length ∧
      (List.range fds.length).map (readFd (dataAt (Control.rights fds).message.bytes)) = fds := by
  have hlen := lenAt_bytes (Control.rights fds).message [] h
  have hdata := dataAt_bytes (Control.rights fds).message []
  rw [List.append_nil] at hlen hdata
  constructor
  · rw [hlen, Message.len, Nat.add_sub_cancel_left]
    change (fds.flatMap fun fd => leBytes 4 fd.toNat).length / 4 = _
    rw [rights_length]
    omega
  · rw [hdata]
    exact readFd_array fds _

/-- What `recv_fd` does with the descriptors of a message that came whole. -/
def settle (d : Delivery) (fds : List CInt) : PassAct (Except Errno (Bytes × Option CInt)) :=
  if fds.length = 1 then pure (.ok (d.data, fds.head?))
  else do
    closeAll fds
    pure (.ok (d.data, none))

theorem takeFd_rights {d : Delivery} {fds : List CInt} (h : ¬ d.Truncated)
    (hctl : d.control = encode [(Control.rights fds).message])
    (hlen : (Control.rights fds).message.len < 256 ^ 8) : takeFd d = settle d fds := by
  have hflags : ¬ (d.flags &&& msgCtrunc ≠ 0) := h
  obtain ⟨hn, hfds⟩ := rights_read hlen
  have hmin := (Control.rights fds).message.hdrLen_le
  have hpos : 1 ≤ ControlMessage.hdrLen := by decide
  have hfind : (firstHdr d.control).bind (find isRights d.control.length) =
      some (Control.rights fds).message.bytes := by
    have hfuel : [(Control.rights fds).message].length ≤
        (encode [(Control.rights fds).message]).length := by
      rw [encode_cons, List.length_append, List.length_singleton]
      omega
    rw [hctl, find_encode isRights (by simpa using hlen) hfuel,
      List.dropWhile_cons_of_neg (by simp [isRights_message]), firstHdr_encode_cons, encode_cons,
      encode_nil, List.append_nil]
  unfold takeFd settle
  rw [if_neg hflags, hfind]
  simp only [hn, hfds]
  by_cases hone : fds.length = 1
  · -- of a single descriptor the first place is read, not the whole array
    rw [if_pos hone, if_pos hone]
    obtain ⟨fd, rfl⟩ := List.length_eq_one_iff.mp hone
    rw [List.length_singleton, List.range_one, List.map_singleton] at hfds
    rw [List.singleton_inj.mp hfds]
    rfl
  · rw [if_neg hone, if_neg hone]

/-- A message that came whole is taken apart as it was put together. -/
theorem takeFd_whole {d : Delivery} (h : ¬ d.Truncated) : takeFd d = settle d d.installed := by
  have hflags : ¬ (d.flags &&& msgCtrunc ≠ 0) := h
  have hshort := d.controls_length
  have hlens := d.message_len
  unfold Delivery.installed
  rcases hd : d.controls with _ | ⟨c, _ | ⟨c', cs⟩⟩
  · have hctl : d.control = [] := by
      rw [Delivery.control, hd]
      rfl
    rw [takeFd, if_neg hflags, hctl]
    rfl
  · have hctl : d.control = encode [c.message] := by
      rw [Delivery.control, hd]
      rfl
    have hlen : c.message.len < 256 ^ 8 := hlens _ (by simp [hd])
    cases c with
    | rights fds =>
      rw [takeFd_rights h hctl hlen]
      simp [Control.fds]
    | other m hm =>
      have hnot : isRights m.level m.type = false := by
        by_contra hr
        obtain ⟨fds, hfds⟩ := (isRights_message (.other m hm)).mp (Bool.of_not_eq_false hr)
        cases hfds
      have hwalk := find_encode isRights d.message_len d.controls_le
      rw [hd, List.map_singleton, List.dropWhile_cons_of_pos (by simp [Control.message, hnot]),
        ← hctl] at hwalk
      rw [takeFd, if_neg hflags, hwalk]
      rfl
  · rw [hd] at hshort
    simp at hshort

/-! ### Every descriptor is accounted for -/

def Ev.closes : Ev PassResp → List CInt
  | ⟨.close fd, _⟩ => [fd]
  | _ => []

/-- The descriptors that were closed, in order. -/
def closes (t : Trace PassResp) : List CInt := t.flatMap Ev.closes

def returned : Except Errno (Bytes × Option CInt) → Option CInt
  | .ok (_, fd) => fd
  | .error _ => none

/-- No descriptor is leaked: each one that the kernel has installed is the one returned or has
been closed once, and one is returned only if the peer has passed just that and all of the
control data has come. -/
structure Accounted (d : Delivery) (t : Trace PassResp)
    (ret : Except Errno (Bytes × Option CInt)) : Prop where
  each : ∀ fd ∈ d.installed, returned ret = some fd ∧ fd ∉ closes t ∨
    returned ret ≠ some fd ∧ (closes t).count fd = 1
  single : ∀ fd, returned ret = some fd → ¬ d.Truncated ∧ d.passed = 1 ∧ d.installed = [fd]

theorem closeAll_safe {inv : Obligation PassResp Unit} (hinv : ∀ t s o, inv.call t s o)
    {a : Except Errno (Bytes × Option CInt)} {Q : Trace PassResp → Unit → _ → Prop}
    (fds : List CInt) {t : Trace PassResp}
    (hQ : ∀ u : Trace PassResp, closes u = fds → Q (t ++ u) () a) :
    Safe inv Q ((do closeAll fds; pure a : PassAct _) ()) t := by
  induction fds generalizing t with
  | nil => exact List.append_nil t ▸ hQ [] rfl
  | cons fd fds ih =>
    refine ⟨hinv _ _ _, fun r => ih fun u hu => ?_⟩
    rw [List.append_assoc]
    exact hQ _ (by rw [← hu]; rfl)

theorem takeFd_accounted (d : Delivery) :
    Safe (always fun _ _ => True)
      (fun t _ ret => Accounted d t ret ↔ (d.Truncated → d.installed = [])) (takeFd d ()) [] := by
  by_cases htrunc : d.Truncated
  · have hflags : d.flags &&& msgCtrunc ≠ 0 := htrunc
    rw [takeFd, if_pos hflags]
    refine ⟨fun h _ => ?_, fun h => ⟨fun fd hfd => ?_, fun fd hret => by cases hret⟩⟩
    · -- nothing was closed and nothing returned
      refine List.eq_nil_iff_forall_not_mem.mpr fun fd hfd => ?_
      rcases h.each fd hfd with ⟨hret, -⟩ | ⟨-, hclosed⟩
      · cases hret
      · cases hclosed
    · rw [h htrunc] at hfd
      cases hfd
  · have hiff : ∀ {t ret}, Accounted d t ret →
        (Accounted d t ret ↔ (d.Truncated → d.installed = [])) :=
      fun h => ⟨fun _ ht => absurd ht htrunc, fun _ => h⟩
    have hpassed : d.installed.length = d.passed := d.all_passed (not_not.mp htrunc)
    rw [takeFd_whole htrunc, settle]
    split_ifs with hone
    · obtain ⟨fd, hfd⟩ := List.length_eq_one_iff.mp hone
      refine hiff ⟨fun fd' hmem => .inl ⟨?_, List.not_mem_nil⟩, fun fd' hret => ?_⟩
      · rw [hfd] at hmem ⊢
        rw [List.mem_singleton.mp hmem]
        rfl
      · rw [hfd] at hret
        cases hret
        exact ⟨htrunc, by omega, hfd⟩
    · refine closeAll_safe (fun _ _ _ => trivial) d.installed fun u hu => ?_
      refine hiff ⟨fun fd hmem => .inr ⟨nofun, ?_⟩, nofun⟩
      rw [List.nil_append, hu]
      exact List.count_eq_one_of_mem d.distinct hmem

theorem recvFd_at {d : Delivery} {t : Trace PassResp}
    {q : Prog PassResp Unit (Except Errno (Bytes × Option CInt))} (h : At (takeFd d ()) t q) :
    At (recvFd ()) (⟨.recvmsg, .ok d⟩ :: t) q := by
  change At (Prog.call () PassOp.recvmsg _) _ _
  exact At.head h

/-- `recv_fd` leaks no descriptor just when none was installed with truncated control data. -/
theorem recvFd_accounted_iff {d : Delivery} {t : Trace PassResp}
    {ret : Except Errno (Bytes × Option CInt)}
    (hat : At (recvFd ()) (⟨.recvmsg, .ok d⟩ :: t) (.done () ret)) :
    Accounted d t ret ↔ (d.Truncated → d.installed = []) := by
  have htake : At (takeFd d ()) t (.done () ret) := At.rest (t := []) .refl hat
  exact safe_at (takeFd_accounted d) htake

/-- A descriptor that `send_fd` hands to the kernel and that arrives whole is the one that
`recv_fd` returns. -/
theorem takeFd_sent {payload data : Bytes} {fd : CInt} {d : Delivery}
    (hsend : sendFd payload fd = perform (PassOp.sendmsg data d.control)) (h : ¬ d.Truncated) :
    takeFd d = pure (.ok (d.data, some fd)) := by
  have hctl : d.control = encode [(Control.rights [fd]).message] := by
    have hcall := congrFun hsend ()
    simp only [sendFd, perform, Prog.call.injEq, PassOp.sendmsg.injEq] at hcall
    rw [← hcall.2.1.2]
    simp [Control.message]
  have hlen : (Control.rights [fd]).message.len < 256 ^ 8 := by
    simp [Control.message, Message.len, ControlMessage.hdrLen]
  exact takeFd_rights h hctl hlen

/-- One descriptor, and all of the control data. -/
def onePassed : Delivery where
  data := [0]
  flags := 0
  controls := [.rights [7]]
  passed := 1
  fits := by decide
  distinct := by decide
  some_passed := by decide
  all_passed := by decide

/-- The descriptor was sent with `send_fd`. -/
theorem recvFd_accounted_one :
    sendFd [0] 7 = perform (PassOp.sendmsg [0] onePassed.control) ∧
      At (recvFd ()) [⟨.recvmsg, .ok onePassed⟩] (.done () (.ok ([0], some 7))) ∧
      Accounted onePassed [] (.ok ([0], some 7)) := by
  have hsend : sendFd [0] 7 = perform (PassOp.sendmsg [0] onePassed.control) := rfl
  have hat : At (recvFd ()) [⟨.recvmsg, .ok onePassed⟩] (.done () (.ok ([0], some 7))) := by
    refine recvFd_at ?_
    rw [takeFd_sent hsend (by decide)]
    exact .refl
  exact ⟨hsend, hat, (recvFd_accounted_iff hat).mpr fun htrunc => absurd htrunc (by decide)⟩

/-- The peer passes three descriptors. The buffer that was meant for one has room for two, and
the kernel installs them and reports that control data was truncated. -/
def threePassed : Delivery where
  data := [0]
  flags := msgCtrunc
  controls := [.rights [7, 8]]
  passed := 3
  fits := by decide
  distinct := by decide
  some_passed := by decide
  all_passed := by decide

/-- Both descriptors stay open and nobody is told of them. -/
theorem recvFd_accounted_not :
    At (recvFd ()) [⟨.recvmsg, .ok threePassed⟩] (.done () (.ok ([0], none))) ∧
      threePassed.installed = [7, 8] ∧ ¬ Accounted threePassed [] (.ok ([0], none)) := by
  refine ⟨recvFd_at .refl, rfl, fun h => ?_⟩
  rcases h.each 7 (by decide) with ⟨hret, -⟩ | ⟨-, hclosed⟩
  · cases hret
  · cases hclosed

end SyntriassOverlay
