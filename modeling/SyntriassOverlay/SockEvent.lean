import SyntriassOverlay.KernelNative

/-!
# From a kernel event to an upcall (ebpf/src/main.rs, ebpf/src/maps.rs, kernel_native.rs:53-171)

The `sockops` program sees a connection through the fields of `bpf_sock_ops`, writes a
`SockEvent` into the ring buffer, and the daemon reads it back. Three byte orders meet on the
way: the local port is a number in host order, the remote port is a network-order number that
was loaded natively, and so is every word of an address. The program swaps the bytes of the
latter two.
-/

namespace SyntriassOverlay
open Crypto BigEndian

/-! ### Connections and how the kernel shows them -/

def afInet : UInt32 := 2
def afInet6 : UInt32 := 10
def bpfSockOpsActiveEstablishedCb : UInt32 := 4
def bpfSockOpsPassiveEstablishedCb : UInt32 := 5

/-- Local and remote address, in network order. -/
inductive AddressPair where
  | v4 (src dst : ByteArr 4)
  | v6 (src dst : ByteArr 16)
  deriving DecidableEq

structure TcpConnection where
  addresses : AddressPair
  localPort : UInt16
  remotePort : UInt16
  deriving DecidableEq

structure SockOpsContext where
  op : UInt32
  family : UInt32
  localPort : UInt32
  remotePort : UInt32
  localIp4 : UInt32
  remoteIp4 : UInt32
  localIp6 : List.Vector UInt32 4
  remoteIp6 : List.Vector UInt32 4
  deriving DecidableEq

/-- The words of a byte string as a little-endian machine loads them. -/
def nativeWords : Bytes → List UInt32
  | a :: b :: c :: d :: rest => UInt32.ofNat (leNat [a, b, c, d]) :: nativeWords rest
  | _ => []

/-- `ctx` is what the kernel shows of an established connection on a little-endian machine. -/
structure Presents (conn : TcpConnection) (ctx : SockOpsContext) : Prop where
  op : ctx.op = bpfSockOpsActiveEstablishedCb ∨ ctx.op = bpfSockOpsPassiveEstablishedCb
  localPort : ctx.localPort = conn.localPort.toUInt32
  remotePort : ctx.remotePort.toNat = leNat (beBytes 2 conn.remotePort.toNat) * 2 ^ 16
  addresses : match conn.addresses with
    | .v4 src dst => ctx.family = afInet ∧ [ctx.localIp4] = nativeWords src.val ∧
        [ctx.remoteIp4] = nativeWords dst.val
    | .v6 src dst => ctx.family = afInet6 ∧ ctx.localIp6.val = nativeWords src.val ∧
        ctx.remoteIp6.val = nativeWords dst.val

/-! ### The event -/

/-- `SockEvent` of the kernel side and `KernelSockEvent` of the daemon: one `repr(C)`
structure, written down in both crates. -/
structure KernelSockEvent where
  cookie : UInt64
  cgroupId : UInt64
  srcAddr : ByteArr 16
  dstAddr : ByteArr 16
  srcPort : UInt16
  dstPort : UInt16
  family : UInt16
  pad : UInt16
  deriving DecidableEq

namespace KernelSockEvent

def wireLen : ℕ := 56

/-- The layout in the memory of a little-endian machine. -/
def toBytes (ev : KernelSockEvent) : Bytes :=
  leBytes 8 ev.cookie.toNat ++ (leBytes 8 ev.cgroupId.toNat ++ (ev.srcAddr.val ++ (ev.dstAddr.val ++
    (leBytes 2 ev.srcPort.toNat ++ (leBytes 2 ev.dstPort.toNat ++ (leBytes 2 ev.family.toNat ++
      leBytes 2 ev.pad.toNat))))))

/-- `None` if the record is too short. -/
def fromBytes (buf : Bytes) : Option KernelSockEvent :=
  if h : buf.length < wireLen then none
  else
    have hlen : 56 ≤ buf.length := Nat.le_of_not_lt h
    let rd16 (o : ℕ) (ho : o + 16 ≤ 56) : ByteArr 16 :=
      ⟨slice buf o (o + 16), by rw [slice_length]; omega⟩
    let rdU64 (o : ℕ) : UInt64 := UInt64.ofNat (leNat (slice buf o (o + 8)))
    let rdU16 (o : ℕ) : UInt16 := UInt16.ofNat (leNat (slice buf o (o + 2)))
    some
      { cookie := rdU64 0
        cgroupId := rdU64 8
        srcAddr := rd16 16 (by decide)
        dstAddr := rd16 32 (by decide)
        srcPort := rdU16 48
        dstPort := rdU16 50
        family := rdU16 52
        pad := rdU16 54 }

end KernelSockEvent

/-- The network-order numbers in a byte string. -/
def bePairs : Bytes → List UInt16
  | a :: b :: rest => UInt16.ofNat (beNat [a, b]) :: bePairs rest
  | _ => []

theorem bePairs_length (b : Bytes) : (bePairs b).length = b.length / 2 := by
  induction b using bePairs.induct with
  | case1 a b rest ih =>
    rw [bePairs, List.length_cons, ih, List.length_cons, List.length_cons]
    omega
  | case2 b h =>
    match b with
    | [] => rfl
    | [x] => simp [bePairs]
    | a :: b :: rest => exact absurd rfl (h a b rest)

/-- The eight segments of an IPv6 address. -/
def segments (addr : ByteArr 16) : List.Vector UInt16 8 :=
  ⟨bePairs addr.val, by rw [bePairs_length, addr.2]⟩

/-- The `Display` of `std::net`. Different addresses have different texts, because parsing a
text gives the address back. -/
structure IpDisplay where
  v4 : ByteArr 4 → String
  v6 : List.Vector UInt16 8 → String
  v4_injective : Function.Injective v4
  v6_injective : Function.Injective v6

namespace KernelSockEvent

def dstAddrString (D : IpDisplay) (ev : KernelSockEvent) : String :=
  if ev.family = afInet6.toUInt16 then D.v6 (segments ev.dstAddr)
  else D.v4 (ev.dstAddr.sub 0 4 (by decide))

def toUpcall (D : IpDisplay) (ev : KernelSockEvent) (fd : Option Fd) : KernelUpcall where
  socketId := ev.cookie
  localPort := ev.srcPort
  remotePort := ev.dstPort
  remoteAddr := ev.dstAddrString D
  cgroupId := some ev.cgroupId
  pid := none
  fd := fd

end KernelSockEvent

/-! ### The sockops program -/

/-- The ring buffer with its records, and the counters of the program. -/
structure EventRing where
  records : List Bytes
  upcalls : ℕ
  failures : ℕ
  deriving DecidableEq

def copyIp6 (words : List.Vector UInt32 4) : ByteArr 16 :=
  ⟨words.val.flatMap fun w => beBytes 4 w.toNat, by simp [List.length_flatMap, words.2]⟩

/-- An IPv4 address in the first four of sixteen bytes. -/
def copyIp4 (word : UInt32) : ByteArr 16 :=
  ⟨beBytes 4 word.toNat ++ List.replicate 12 0, by simp⟩

/-- `reserve` fails as `room = false`. -/
def submit (event : KernelSockEvent) (room : Bool) (ring : EventRing) :
    Except ℤ Unit × EventRing :=
  if room then (.ok (), { ring with records := ring.records ++ [event.toBytes] })
  else (.error (-1), { ring with failures := ring.failures + 1 })

def tryHandle (ctx : SockOpsContext) (cookie cgroupId : UInt64) (room : Bool) (ring : EventRing) :
    Except ℤ ℕ × EventRing :=
  if ctx.op ≠ bpfSockOpsActiveEstablishedCb ∧ ctx.op ≠ bpfSockOpsPassiveEstablishedCb then
    (.ok 0, ring)
  else
    let localPort := ctx.localPort.toUInt16
    let remotePort := (ctx.remotePort >>> 16).toUInt16
    if localPort = 0 ∨ remotePort = 0 then (.ok 0, ring)
    else
      let (srcAddr, dstAddr) :=
        if ctx.family = afInet6 then (copyIp6 ctx.localIp6, copyIp6 ctx.remoteIp6)
        else (copyIp4 ctx.localIp4, copyIp4 ctx.remoteIp4)
      let event : KernelSockEvent :=
        { cookie := cookie
          cgroupId := cgroupId
          srcAddr := srcAddr
          dstAddr := dstAddr
          srcPort := localPort
          dstPort := remotePort
          family := if ctx.family = afInet6 then afInet6.toUInt16 else afInet.toUInt16
          pad := 0 }
      match submit event room ring with
      | (.error e, ring) => (.error e, ring)
      | (.ok _, ring) => (.ok 1, { ring with upcalls := ring.upcalls + 1 })

/-! ### Reading the event back -/

theorem u64_native (x : UInt64) : UInt64.ofNat (leNat (leBytes 8 x.toNat)) = x := by
  have hlt := x.toNat_lt
  rw [leNat_leBytes 8 _ (by norm_num; omega), UInt64.ofNat_toNat]

theorem u16_native (x : UInt16) : UInt16.ofNat (leNat (leBytes 2 x.toNat)) = x := by
  have hlt := x.toNat_lt
  rw [leNat_leBytes 2 _ (by norm_num; omega), UInt16.ofNat_toNat]

theorem record_field {b x rest : Bytes} {o m : ℕ} (h : b.drop o = x ++ rest)
    (hm : o + x.length = m) : slice b o m = x ∧ b.drop m = rest := by
  subst hm
  refine ⟨?_, ?_⟩
  · rw [slice, h, Nat.add_sub_cancel_left, List.take_left]
  · rw [← List.drop_drop, h, List.drop_left]

theorem KernelSockEvent.fromBytes_toBytes (ev : KernelSockEvent) :
    fromBytes ev.toBytes = some ev := by
  have hsrc := ev.srcAddr.2
  have hdst := ev.dstAddr.2
  have hlen : ev.toBytes.length = 56 := by simp [toBytes, hsrc, hdst]
  have hnot : ¬ ev.toBytes.length < wireLen := by rw [hlen]; decide
  obtain ⟨hcookie, h8⟩ := record_field (b := ev.toBytes) (o := 0) (m := 8) rfl (by simp)
  obtain ⟨hcgroup, h16⟩ := record_field (m := 16) h8 (by simp)
  obtain ⟨hsrcAddr, h32⟩ := record_field (m := 32) h16 (by simp [hsrc])
  obtain ⟨hdstAddr, h48⟩ := record_field (m := 48) h32 (by simp [hdst])
  obtain ⟨hsrcPort, h50⟩ := record_field (m := 50) h48 (by simp)
  obtain ⟨hdstPort, h52⟩ := record_field (m := 52) h50 (by simp)
  obtain ⟨hfamily, h54⟩ := record_field (m := 54) h52 (by simp)
  rw [← List.append_nil (leBytes 2 ev.pad.toNat)] at h54
  obtain ⟨hpad, -⟩ := record_field (m := 56) h54 (by simp)
  simp only [fromBytes, dif_neg hnot, Option.some.injEq, hcookie, hcgroup, hsrcAddr, hdstAddr,
    hsrcPort, hdstPort, hfamily, hpad, u64_native, u16_native]
  rfl

/-! ### What becomes of the byte order -/

/-- Every group of four bytes in the opposite order. -/
def swapWords : Bytes → Bytes
  | a :: b :: c :: d :: rest => d :: c :: b :: a :: swapWords rest
  | _ => []

/-- Every group of four bytes reads the same in both orders. -/
def WordPalindromes : Bytes → Prop
  | a :: b :: c :: d :: rest => a = d ∧ b = c ∧ WordPalindromes rest
  | _ => True

instance WordPalindromes.decidable : (b : Bytes) → Decidable (WordPalindromes b)
  | _ :: _ :: _ :: _ :: rest =>
    have := WordPalindromes.decidable rest
    inferInstanceAs (Decidable (_ ∧ _ ∧ _))
  | [] | [_] | [_, _] | [_, _, _] => .isTrue trivial

/-- The high byte of the port is its low byte. -/
def PortPalindrome (port : UInt16) : Prop := port.toNat / 256 = port.toNat % 256

instance (port : UInt16) : Decidable (PortPalindrome port) := inferInstanceAs (Decidable (_ = _))

theorem beBytes_nativeWords (b : Bytes) :
    (nativeWords b).flatMap (fun w => beBytes 4 w.toNat) = swapWords b := by
  induction b using swapWords.induct with
  | case1 a b c d rest ih =>
    have hlt : leNat [a, b, c, d] < UInt32.size :=
      lt_of_lt_of_eq (leNat_lt _) (by norm_num [UInt32.size])
    have hword : beBytes 4 (leNat [a, b, c, d]) = [d, c, b, a] := beBytes_leNat [a, b, c, d]
    rw [nativeWords, List.flatMap_cons, ih, swapWords, UInt32.toNat_ofNat_of_lt' hlt, hword]
    rfl
  | case2 b h =>
    match b with
    | [] | [x] | [x, y] | [x, y, z] => simp [nativeWords, swapWords]
    | a :: b :: c :: d :: rest => exact absurd rfl (h a b c d rest)

theorem swapWords_eq_self {b : Bytes} (h : b.length % 4 = 0) :
    swapWords b = b ↔ WordPalindromes b := by
  induction b using swapWords.induct with
  | case1 a b c d rest ih =>
    have hrest : rest.length % 4 = 0 := by
      simp only [List.length_cons] at h
      omega
    rw [swapWords, WordPalindromes, ← ih hrest]
    simp only [List.cons.injEq]
    constructor
    · rintro ⟨rfl, rfl, -, -, hswap⟩
      exact ⟨rfl, rfl, hswap⟩
    · rintro ⟨rfl, rfl, hswap⟩
      exact ⟨rfl, rfl, rfl, rfl, hswap⟩
  | case2 b hb =>
    match b with
    | [] => simp [swapWords, WordPalindromes]
    | [x] | [x, y] | [x, y, z] => simp at h
    | a :: b :: c :: d :: rest => exact absurd rfl (hb a b c d rest)

theorem bePairs_injective {b c : Bytes} (hlen : b.length = c.length) (heven : b.length % 2 = 0)
    (h : bePairs b = bePairs c) : b = c := by
  induction b using bePairs.induct generalizing c with
  | case1 x y rest ih =>
    match c with
    | [] | [_] => simp at hlen
    | x' :: y' :: rest' =>
      simp only [List.length_cons] at hlen heven
      rw [bePairs, bePairs, List.cons.injEq] at h
      have hpair : beNat [x, y] = beNat [x', y'] := by
        have hlt (u v : UInt8) : beNat [u, v] < UInt16.size :=
          lt_of_lt_of_eq (beNat_lt _) (by norm_num [UInt16.size])
        have htoNat := congrArg UInt16.toNat h.1
        rwa [UInt16.toNat_ofNat_of_lt' (hlt x y), UInt16.toNat_ofNat_of_lt' (hlt x' y')] at htoNat
      have hbytes : [x, y] = [x', y'] := by
        rw [← beBytes_beNat [x, y], ← beBytes_beNat [x', y'], hpair]
        rfl
      obtain rfl := ih (by omega) (by omega) h.2
      simp only [List.cons.injEq, and_true] at hbytes
      rw [hbytes.1, hbytes.2]
  | case2 b hb =>
    match b with
    | [] => exact (List.length_eq_zero_iff.mp hlen.symm).symm
    | [_] => simp at heven
    | x :: y :: rest => exact absurd rfl (hb x y rest)

theorem segments_injective : Function.Injective segments := by
  intro a b h
  have hval : bePairs a.val = bePairs b.val := congrArg Subtype.val h
  exact Subtype.ext (bePairs_injective (by rw [a.2, b.2]) (by rw [a.2]) hval)

/-- The number that the program makes of the remote port. -/
theorem remotePort_swapped (port : UInt16) (word : UInt32)
    (h : word.toNat = leNat (beBytes 2 port.toNat) * 2 ^ 16) :
    (word >>> 16).toUInt16.toNat = 256 * (port.toNat % 256) + port.toNat / 256 := by
  have hport := port.toNat_lt
  have hle : leNat (beBytes 2 port.toNat) = 256 * (port.toNat % 256) + port.toNat / 256 := by
    have hhigh : port.toNat / 256 % 256 = port.toNat / 256 := by omega
    simp [leNat, beNat, beBytes, hhigh]
  rw [hle] at h
  have hshift : (word >>> 16).toNat = word.toNat / 2 ^ 16 := by
    rw [UInt32.toNat_shiftRight, Nat.shiftRight_eq_div_pow]
    rfl
  rw [UInt32.toNat_toUInt16, hshift, h, Nat.mul_div_cancel _ (by norm_num)]
  omega

/-! ### Fidelity -/

/-- The remote address of a connection, as text. -/
def TcpConnection.remoteText (D : IpDisplay) (conn : TcpConnection) : String :=
  match conn.addresses with
  | .v4 _ dst => D.v4 dst
  | .v6 _ dst => D.v6 (segments dst)

/-- The bytes of the remote address. -/
def TcpConnection.remoteBytes (conn : TcpConnection) : Bytes :=
  match conn.addresses with
  | .v4 _ dst => dst.val
  | .v6 _ dst => dst.val

/-- The upcall names the ports and the remote address of the connection. -/
structure Faithful (D : IpDisplay) (conn : TcpConnection) (upcall : KernelUpcall) : Prop where
  localPort : upcall.localPort = conn.localPort
  remotePort : upcall.remotePort = conn.remotePort
  remoteAddr : upcall.remoteAddr = conn.remoteText D

section
variable {D : IpDisplay} {conn : TcpConnection} {ctx : SockOpsContext} {ev : KernelSockEvent}

/-- What the program writes for a connection. -/
structure Captures (conn : TcpConnection) (ev : KernelSockEvent) : Prop where
  srcPort : ev.srcPort = conn.localPort
  dstPort : ev.dstPort.toNat = 256 * (conn.remotePort.toNat % 256) + conn.remotePort.toNat / 256
  dst : match conn.addresses with
    | .v4 _ dst => ev.family = afInet.toUInt16 ∧ (ev.dstAddr.sub 0 4 (by decide)).val =
        swapWords dst.val
    | .v6 _ dst => ev.family = afInet6.toUInt16 ∧ ev.dstAddr.val = swapWords dst.val

theorem Captures.port_iff (h : Captures conn ev) :
    ev.dstPort = conn.remotePort ↔ PortPalindrome conn.remotePort := by
  have hport := conn.remotePort.toNat_lt
  rw [← UInt16.toNat_inj, h.dstPort, PortPalindrome]
  omega

theorem Captures.address_iff (h : Captures conn ev) :
    ev.dstAddrString D = conn.remoteText D ↔ WordPalindromes conn.remoteBytes := by
  have hdst := h.dst
  cases haddr : conn.addresses with
  | v4 src dst =>
    rw [haddr] at hdst
    obtain ⟨hfamily, hval⟩ := hdst
    have hnot : ¬ ev.family = afInet6.toUInt16 := by rw [hfamily]; decide
    simp only [KernelSockEvent.dstAddrString, if_neg hnot, TcpConnection.remoteText,
      TcpConnection.remoteBytes, haddr]
    rw [D.v4_injective.eq_iff, ← swapWords_eq_self (by rw [dst.2]), ← hval]
    exact Subtype.ext_iff
  | v6 src dst =>
    rw [haddr] at hdst
    obtain ⟨hfamily, hval⟩ := hdst
    simp only [KernelSockEvent.dstAddrString, if_pos hfamily, TcpConnection.remoteText,
      TcpConnection.remoteBytes, haddr]
    rw [D.v6_injective.eq_iff, segments_injective.eq_iff, ← swapWords_eq_self (by rw [dst.2]),
      ← hval]
    exact Subtype.ext_iff

theorem Captures.faithful_iff (h : Captures conn ev) (fd : Option Fd) :
    Faithful D conn (ev.toUpcall D fd) ↔
      PortPalindrome conn.remotePort ∧ WordPalindromes conn.remoteBytes := by
  constructor
  · intro hf
    exact ⟨h.port_iff.mp hf.remotePort, h.address_iff.mp hf.remoteAddr⟩
  · rintro ⟨hport, haddr⟩
    exact ⟨h.srcPort, h.port_iff.mpr hport, h.address_iff.mpr haddr⟩

theorem copyIp4_swapped {word : UInt32} {addr : Bytes} (h : [word] = nativeWords addr) :
    ((copyIp4 word).sub 0 4 (by decide)).val = swapWords addr := by
  have hword : beBytes 4 word.toNat = swapWords addr := by
    rw [← beBytes_nativeWords, ← h]
    simp
  have htake : ((copyIp4 word).sub 0 4 (by decide)).val = beBytes 4 word.toNat := by
    simp [copyIp4, ByteArr.sub, slice]
  rw [htake, hword]

theorem copyIp6_swapped {words : List.Vector UInt32 4} {addr : Bytes}
    (h : words.val = nativeWords addr) : (copyIp6 words).val = swapWords addr := by
  rw [← beBytes_nativeWords, ← h]
  rfl

/-- Every record that the program adds for a connection is such an event. -/
theorem tryHandle_captures (h : Presents conn ctx) {cookie cgroupId : UInt64} {room : Bool}
    {ring : EventRing} {record : Bytes}
    (hrec : (tryHandle ctx cookie cgroupId room ring).2.records = ring.records ++ [record]) :
    ∃ ev, record = KernelSockEvent.toBytes ev ∧ Captures conn ev := by
  have hop : ¬ (ctx.op ≠ bpfSockOpsActiveEstablishedCb ∧
      ctx.op ≠ bpfSockOpsPassiveEstablishedCb) := fun hne => h.op.elim hne.1 hne.2
  have hnone : ring.records ≠ ring.records ++ [record] := by simp
  have hsrc : ctx.localPort.toUInt16 = conn.localPort := by
    rw [h.localPort]
    simp
  have hdst := remotePort_swapped conn.remotePort ctx.remotePort h.remotePort
  simp only [tryHandle, if_neg hop] at hrec
  split at hrec
  · exact absurd hrec hnone
  · cases room with
    | false => exact absurd hrec hnone
    | true =>
      simp only [submit, if_true, List.append_cancel_left_eq, List.cons.injEq, and_true] at hrec
      refine ⟨_, hrec.symm, hsrc, hdst, ?_⟩
      have haddr := h.addresses
      cases hconn : conn.addresses with
      | v4 src dst =>
        rw [hconn] at haddr
        obtain ⟨hfamily, -, hremote⟩ := haddr
        have hnot : ¬ ctx.family = afInet6 := by rw [hfamily]; decide
        simp only [if_neg hnot]
        exact ⟨trivial, copyIp4_swapped hremote⟩
      | v6 src dst =>
        rw [hconn] at haddr
        obtain ⟨hfamily, -, hremote⟩ := haddr
        simp only [if_pos hfamily]
        exact ⟨trivial, copyIp6_swapped hremote⟩

end

/-- The upcall for a connection is right just when the bytes that are swapped on the way do not
show it. -/
theorem upcall_faithful_iff (D : IpDisplay) {conn : TcpConnection} {ctx : SockOpsContext}
    (h : Presents conn ctx) {cookie cgroupId : UInt64} {room : Bool} {ring : EventRing}
    {record : Bytes}
    (hrec : (tryHandle ctx cookie cgroupId room ring).2.records = ring.records ++ [record])
    (fd : Option Fd) :
    (∃ ev, KernelSockEvent.fromBytes record = some ev ∧ Faithful D conn (ev.toUpcall D fd)) ↔
      PortPalindrome conn.remotePort ∧ WordPalindromes conn.remoteBytes := by
  obtain ⟨ev, rfl, hcap⟩ := tryHandle_captures h hrec
  rw [KernelSockEvent.fromBytes_toBytes, ← hcap.faithful_iff (D := D) fd]
  constructor
  · rintro ⟨ev', heq, hf⟩
    cases heq
    exact hf
  · intro hf
    exact ⟨ev, rfl, hf⟩

/-! ### Texts of addresses -/

/-- The texts with `sep` between them. -/
def joined (sep : Char) : List (List Char) → List Char
  | [] => []
  | [x] => x
  | x :: y :: rest => x ++ sep :: joined sep (y :: rest)

theorem append_sep_inj {sep : Char} {x y r r' : List Char} (hx : sep ∉ x) (hy : sep ∉ y)
    (h : x ++ sep :: r = y ++ sep :: r') : x = y ∧ r = r' := by
  induction x generalizing y with
  | nil =>
    cases y with
    | nil => exact ⟨rfl, (List.cons.inj h).2⟩
    | cons c y => exact absurd (List.cons.inj h).1 fun heq => hy (heq ▸ List.mem_cons_self)
  | cons c x ih =>
    cases y with
    | nil => exact absurd (List.cons.inj h).1 fun heq => hx (heq ▸ List.mem_cons_self)
    | cons c' y =>
      obtain ⟨rfl, hrest⟩ := List.cons.inj h
      obtain ⟨rfl, rfl⟩ := ih (fun hm => hx (List.mem_cons_of_mem _ hm))
        (fun hm => hy (List.mem_cons_of_mem _ hm)) hrest
      exact ⟨rfl, rfl⟩

theorem joined_inj {sep : Char} {xs ys : List (List Char)} (hlen : xs.length = ys.length)
    (hx : ∀ x ∈ xs, sep ∉ x) (hy : ∀ y ∈ ys, sep ∉ y) (h : joined sep xs = joined sep ys) :
    xs = ys := by
  induction xs generalizing ys with
  | nil => exact (List.length_eq_zero_iff.mp hlen.symm).symm
  | cons x xs ih =>
    cases ys with
    | nil => cases hlen
    | cons y ys =>
      have hlen' : xs.length = ys.length := Nat.succ.inj hlen
      cases xs with
      | nil =>
        cases List.length_eq_zero_iff.mp hlen'.symm
        exact congrArg (fun z => [z]) h
      | cons x' xs =>
        cases ys with
        | nil => cases hlen'
        | cons y' ys =>
          obtain ⟨rfl, hrest⟩ :=
            append_sep_inj (hx x List.mem_cons_self) (hy y List.mem_cons_self) h
          rw [ih hlen' (fun z hz => hx z (List.mem_cons_of_mem _ hz))
            (fun z hz => hy z (List.mem_cons_of_mem _ hz)) hrest]

/-- Texts of the parts of an address, put together. -/
theorem joined_map_inj {α : Type} {n : ℕ} {sep : Char} {text : α → List Char}
    (hsep : ∀ x, sep ∉ text x) (htext : Function.Injective text) :
    Function.Injective fun a : List.Vector α n => String.ofList (joined sep (a.val.map text)) := by
  intro a b h
  have hfree : ∀ (l : List α), ∀ x ∈ l.map text, sep ∉ x := by
    intro l x hx
    obtain ⟨y, -, rfl⟩ := List.mem_map.mp hx
    exact hsep y
  have hmaps := joined_inj (by rw [List.length_map, List.length_map, a.2, b.2]) (hfree _) (hfree _)
    (String.ofList_injective h)
  exact Subtype.ext (List.map_injective_iff.mpr htext hmaps)

def decimal (b : UInt8) : List Char := Nat.toDigits 10 b.toNat

theorem decimal_read : ∀ n : Fin 256, '.' ∉ Nat.toDigits 10 n ∧
    (Nat.toDigits 10 n).foldl (fun m c => 10 * m + (c.toNat - 48)) 0 = n.val := by
  decide +kernel

theorem decimal_injective : Function.Injective decimal := by
  intro a b h
  have ha := (decimal_read ⟨a.toNat, a.toNat_lt⟩).2
  have hb := (decimal_read ⟨b.toNat, b.toNat_lt⟩).2
  rw [decimal, decimal] at h
  dsimp only at ha hb
  rw [h, hb] at ha
  exact UInt8.toNat_inj.mp ha.symm

/-- A segment in four hexadecimal digits. -/
def hexSegment (s : UInt16) : List Char :=
  [s.toNat / 4096, s.toNat / 256 % 16, s.toNat / 16 % 16, s.toNat % 16].map Nat.digitChar

theorem digitChar_read : ∀ m : Fin 16, Nat.digitChar m ≠ ':' ∧
    ∀ n : Fin 16, Nat.digitChar m = Nat.digitChar n → m = n := by
  decide

theorem digitChar_eq {m n : ℕ} (hm : m < 16) (hn : n < 16)
    (h : Nat.digitChar m = Nat.digitChar n) : m = n :=
  congrArg Fin.val ((digitChar_read ⟨m, hm⟩).2 ⟨n, hn⟩ h)

theorem hexSegment_injective : Function.Injective hexSegment := by
  intro a b h
  have ha := a.toNat_lt
  have hb := b.toNat_lt
  simp only [hexSegment, List.map_cons, List.map_nil, List.cons.injEq, and_true] at h
  obtain ⟨h₃, h₂, h₁, h₀⟩ := h
  have d₃ := digitChar_eq (by omega) (by omega) h₃
  have d₂ := digitChar_eq (by omega) (by omega) h₂
  have d₁ := digitChar_eq (by omega) (by omega) h₁
  have d₀ := digitChar_eq (by omega) (by omega) h₀
  exact UInt16.toNat_inj.mp (by omega)

theorem colon_not_mem_hexSegment (s : UInt16) : ':' ∉ hexSegment s := by
  have hs := s.toNat_lt
  have hdigit : ∀ n, n < 16 → ':' ≠ Nat.digitChar n :=
    fun n hn heq => (digitChar_read ⟨n, hn⟩).1 heq.symm
  simp only [hexSegment, List.map_cons, List.map_nil, List.mem_cons, List.not_mem_nil, or_false,
    not_or]
  exact ⟨hdigit _ (by omega), hdigit _ (by omega), hdigit _ (by omega), hdigit _ (by omega)⟩

/-- Dotted decimal, and for IPv6 all digits of all segments (`std::net` leaves out zeros). -/
def specimenDisplay : IpDisplay where
  v4 a := String.ofList (joined '.' (a.val.map decimal))
  v6 a := String.ofList (joined ':' (a.val.map hexSegment))
  v4_injective :=
    joined_map_inj (fun b => (decimal_read ⟨b.toNat, b.toNat_lt⟩).1) decimal_injective
  v6_injective := joined_map_inj colon_not_mem_hexSegment hexSegment_injective

/-- A connection from port 50001 of 10.0.0.2. -/
def connectionTo (dst : ByteArr 4) (port : UInt16) : TcpConnection :=
  ⟨.v4 ⟨[10, 0, 0, 2], rfl⟩ dst, 50001, port⟩

/-- The fields of such a connection that was accepted. -/
def contextOf (dst port : UInt32) : SockOpsContext where
  op := bpfSockOpsPassiveEstablishedCb
  family := afInet
  localPort := 50001
  remotePort := port
  localIp4 := 0x0200000A
  remoteIp4 := dst
  localIp6 := List.Vector.replicate 4 0
  remoteIp6 := List.Vector.replicate 4 0

/-- The record of such a connection. -/
def recordOf (dst port : UInt32) : List Bytes :=
  (tryHandle (contextOf dst port) 7 1 true ⟨[], 0, 0⟩).2.records

/-- Port 0x1111 of 10.1.1.10. -/
theorem upcall_faithful_palindrome :
    Presents (connectionTo ⟨[10, 1, 1, 10], rfl⟩ 0x1111) (contextOf 0x0A01010A 0x11110000) ∧
    ∃ record ev, recordOf 0x0A01010A 0x11110000 = [record] ∧
      KernelSockEvent.fromBytes record = some ev ∧
      Faithful specimenDisplay (connectionTo ⟨[10, 1, 1, 10], rfl⟩ 0x1111)
        (ev.toUpcall specimenDisplay none) := by
  have hshow : Presents (connectionTo ⟨[10, 1, 1, 10], rfl⟩ 0x1111)
      (contextOf 0x0A01010A 0x11110000) :=
    ⟨.inr rfl, by decide, by decide, rfl, by decide, by decide⟩
  obtain ⟨record, hrec⟩ : ∃ record, recordOf 0x0A01010A 0x11110000 = [record] := ⟨_, rfl⟩
  obtain ⟨ev, hev, hf⟩ := (upcall_faithful_iff specimenDisplay hshow hrec none).mpr
    ⟨by decide, by decide⟩
  exact ⟨hshow, record, ev, hrec, hev, hf⟩

/-- Port 443 of 10.0.0.1 is reported as port 47873 of 1.0.0.10. -/
theorem upcall_faithful_not :
    Presents (connectionTo ⟨[10, 0, 0, 1], rfl⟩ 443) (contextOf 0x0100000A 0xBB010000) ∧
    ∃ record ev, recordOf 0x0100000A 0xBB010000 = [record] ∧
      KernelSockEvent.fromBytes record = some ev ∧
      (ev.toUpcall specimenDisplay none).remotePort = 47873 ∧
      (ev.toUpcall specimenDisplay none).remoteAddr = "1.0.0.10" ∧
      ¬ Faithful specimenDisplay (connectionTo ⟨[10, 0, 0, 1], rfl⟩ 443)
        (ev.toUpcall specimenDisplay none) := by
  have hshow : Presents (connectionTo ⟨[10, 0, 0, 1], rfl⟩ 443)
      (contextOf 0x0100000A 0xBB010000) :=
    ⟨.inr rfl, by decide, by decide, rfl, by decide, by decide⟩
  refine ⟨hshow, _, _, rfl, KernelSockEvent.fromBytes_toBytes _, by decide, rfl, fun h => ?_⟩
  exact absurd h.remotePort (by decide)

end SyntriassOverlay
