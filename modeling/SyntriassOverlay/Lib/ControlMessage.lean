import SyntriassOverlay.Lib.BigEndian

/-!
# Control message buffers

The ancillary data of a `msghdr` on a 64-bit Linux: one message after the other, each a
`cmsghdr` (`cmsg_len`, `cmsg_level`, `cmsg_type`) and its data, filled up to a multiple of
eight bytes. `firstHdr` and `nextHdr` are `CMSG_FIRSTHDR` and `CMSG_NXTHDR`; a pointer into
the buffer is modelled by the bytes from there to the end of the buffer.
-/

namespace ControlMessage
open BigEndian

structure Message where
  level : UInt32
  type : UInt32
  data : List UInt8
  deriving DecidableEq

/-- `CMSG_ALIGN`. -/
def align (n : ℕ) : ℕ := (n + 7) / 8 * 8

/-- `CMSG_LEN(0)`, the size of a `cmsghdr`. -/
def hdrLen : ℕ := 16

/-- `CMSG_SPACE`. -/
def space (n : ℕ) : ℕ := align n + align hdrLen

/-- `cmsg_len` of a message. -/
def Message.len (m : Message) : ℕ := hdrLen + m.data.length

def Message.bytes (m : Message) : List UInt8 :=
  leBytes 8 m.len ++ (leBytes 4 m.level.toNat ++ (leBytes 4 m.type.toNat ++
    (m.data ++ List.replicate (align m.len - m.len) 0)))

def encode (ms : List Message) : List UInt8 := ms.flatMap Message.bytes

/-! ### Reading a header -/

def lenAt (b : List UInt8) : ℕ := leNat (b.take 8)

def levelAt (b : List UInt8) : UInt32 := .ofNat (leNat ((b.drop 8).take 4))

def typeAt (b : List UInt8) : UInt32 := .ofNat (leNat ((b.drop 12).take 4))

/-- `CMSG_DATA`. -/
def dataAt (b : List UInt8) : List UInt8 := b.drop hdrLen

def firstHdr (b : List UInt8) : Option (List UInt8) := if b.length < hdrLen then none else some b

def nextHdr (b : List UInt8) : Option (List UInt8) :=
  if lenAt b < hdrLen then none
  else
    let next := b.drop (align (lenAt b))
    if next.length < hdrLen ∨ next.length < align (lenAt next) then none else some next

/-- The first message from here on whose level and type are asked for; `n` bounds the walk. -/
def find (p : UInt32 → UInt32 → Bool) : ℕ → List UInt8 → Option (List UInt8)
  | 0, _ => none
  | n + 1, b => if p (levelAt b) (typeAt b) then some b else (nextHdr b).bind (find p n)

/-! ### The walk over encoded messages -/

theorem le_align (n : ℕ) : n ≤ align n := by
  unfold align
  omega

@[simp] theorem encode_nil : encode [] = [] := rfl

@[simp] theorem encode_cons (m : Message) (ms : List Message) :
    encode (m :: ms) = m.bytes ++ encode ms := by
  simp [encode]

theorem Message.bytes_length (m : Message) : m.bytes.length = align m.len := by
  have hlen := le_align m.len
  have hdata : m.len = 16 + m.data.length := rfl
  simp only [bytes, List.length_append, leBytes_length, List.length_replicate]
  omega

theorem Message.hdrLen_le (m : Message) : hdrLen ≤ m.bytes.length := by
  have hlen := le_align m.len
  rw [m.bytes_length]
  exact (Nat.le_add_right _ _).trans hlen

section
variable (m : Message) (rest : List UInt8)

theorem lenAt_bytes (h : m.len < 256 ^ 8) : lenAt (m.bytes ++ rest) = m.len := by
  have htake : (m.bytes ++ rest).take 8 = leBytes 8 m.len := by
    rw [Message.bytes, List.append_assoc]
    exact List.take_left' (leBytes_length 8 _)
  rw [lenAt, htake, leNat_leBytes 8 _ h]

theorem levelAt_bytes : levelAt (m.bytes ++ rest) = m.level := by
  have hlevel : ((m.bytes ++ rest).drop 8).take 4 = leBytes 4 m.level.toNat := by
    rw [Message.bytes, List.append_assoc, List.drop_left' (leBytes_length 8 _), List.append_assoc]
    exact List.take_left' (leBytes_length 4 _)
  rw [levelAt, hlevel, leNat_leBytes 4 _ m.level.toNat_lt, UInt32.ofNat_toNat]

theorem typeAt_bytes : typeAt (m.bytes ++ rest) = m.type := by
  have htype : ((m.bytes ++ rest).drop 12).take 4 = leBytes 4 m.type.toNat := by
    have hsplit : m.bytes ++ rest = (leBytes 8 m.len ++ leBytes 4 m.level.toNat) ++
        (leBytes 4 m.type.toNat ++ (m.data ++ List.replicate (align m.len - m.len) 0 ++ rest)) := by
      simp [Message.bytes]
    rw [hsplit, List.drop_left' (by simp)]
    exact List.take_left' (leBytes_length 4 _)
  rw [typeAt, htype, leNat_leBytes 4 _ m.type.toNat_lt, UInt32.ofNat_toNat]

theorem dataAt_bytes : dataAt (m.bytes ++ rest) =
    m.data ++ (List.replicate (align m.len - m.len) 0 ++ rest) := by
  have hsplit : m.bytes ++ rest = (leBytes 8 m.len ++ (leBytes 4 m.level.toNat ++
      leBytes 4 m.type.toNat)) ++
        (m.data ++ (List.replicate (align m.len - m.len) 0 ++ rest)) := by
    simp [Message.bytes]
  rw [dataAt, hsplit]
  exact List.drop_left' (by simp [hdrLen])

theorem drop_bytes (h : m.len < 256 ^ 8) :
    (m.bytes ++ rest).drop (align (lenAt (m.bytes ++ rest))) = rest := by
  rw [lenAt_bytes m rest h]
  exact List.drop_left' m.bytes_length

end

theorem firstHdr_encode_cons (m : Message) (ms : List Message) :
    firstHdr (encode (m :: ms)) = some (encode (m :: ms)) := by
  have hlen := m.hdrLen_le
  have hnot : ¬ (encode (m :: ms)).length < hdrLen := by
    rw [encode_cons, List.length_append]
    omega
  rw [firstHdr, if_neg hnot]

/-- The next header is that of the next message. -/
theorem nextHdr_encode {m : Message} {ms : List Message} (hm : m.len < 256 ^ 8)
    (hms : ∀ m' ∈ ms, m'.len < 256 ^ 8) : nextHdr (encode (m :: ms)) = firstHdr (encode ms) := by
  have hlen : ¬ lenAt (encode (m :: ms)) < hdrLen := by
    rw [encode_cons, lenAt_bytes m _ hm, Message.len]
    omega
  have hdrop : (encode (m :: ms)).drop (align (lenAt (encode (m :: ms)))) = encode ms := by
    rw [encode_cons]
    exact drop_bytes m (encode ms) hm
  rw [nextHdr, if_neg hlen, hdrop]
  cases ms with
  | nil => rfl
  | cons m' ms =>
    have hfull : (encode (m' :: ms)).length = align m'.len + (encode ms).length := by
      rw [encode_cons, List.length_append, m'.bytes_length]
    have hhdr := m'.hdrLen_le
    rw [m'.bytes_length] at hhdr
    have hnext : lenAt (encode (m' :: ms)) = m'.len := by
      rw [encode_cons, lenAt_bytes m' _ (hms m' List.mem_cons_self)]
    dsimp only
    rw [hnext, firstHdr_encode_cons, if_neg (by omega)]

/-- A walk over encoded messages stops at the first one asked for. -/
theorem find_encode (p : UInt32 → UInt32 → Bool) {ms : List Message}
    (hms : ∀ m ∈ ms, m.len < 256 ^ 8) {n : ℕ} (hn : ms.length ≤ n) :
    (firstHdr (encode ms)).bind (find p n) =
      firstHdr (encode (ms.dropWhile fun m => !p m.level m.type)) := by
  induction ms generalizing n with
  | nil => rfl
  | cons m ms ih =>
    obtain ⟨n, rfl⟩ : ∃ k, n = k + 1 := Nat.exists_eq_add_one.mpr (by simp at hn; omega)
    have htail : ∀ m' ∈ ms, m'.len < 256 ^ 8 := fun m' h => hms m' (List.mem_cons_of_mem _ h)
    have hlevel : levelAt (encode (m :: ms)) = m.level := by
      rw [encode_cons, levelAt_bytes]
    have htype : typeAt (encode (m :: ms)) = m.type := by
      rw [encode_cons, typeAt_bytes]
    rw [firstHdr_encode_cons, Option.bind_some, find, hlevel, htype]
    cases hp : p m.level m.type with
    | true =>
      rw [if_pos rfl, List.dropWhile_cons_of_neg (by simp [hp]), firstHdr_encode_cons]
    | false =>
      rw [if_neg Bool.false_ne_true, nextHdr_encode (hms m List.mem_cons_self) htail,
        ih htail (by simpa using hn), List.dropWhile_cons_of_pos (by simp [hp])]

end ControlMessage
