import SyntriassOverlay.Crypto.ConfigText
import SyntriassOverlay.Crypto.Hex
import SyntriassOverlay.Crypto.Completeness

/-!
# Provisioning (bin/syntriass-identity.rs:6-37, crypto/mod.rs:221-305, 479-525)

The operator runs `syntriass-identity` on the seeds of each node, and writes the public keys
that it prints into the identity file of the other one, beside that node's own seeds. Files
are written in the way that the documentation shows, with comments and blank lines.
-/

namespace SyntriassOverlay.Crypto

/-! ### Writing a file -/

inductive Entry where
  | comment (text : Text)
  | blank
  /-- With quotes as in the documentation, or as `syntriass-identity` prints it. -/
  | setting (key value : Text) (quoted : Bool)

def Entry.line : Entry → Text
  | .comment text => '#' :: text
  | .blank => []
  | .setting key value true => key ++ [' ', '=', ' ', '"'] ++ value ++ ['"']
  | .setting key value false => key ++ '=' :: value

def wordChar (c : Char) : Bool :=
  !isWhitespace c && c != '"' && c != '\'' && c != '=' && c != '#'

/-- Keys and values are words, and a comment is on one line. -/
def Entry.WellFormed : Entry → Prop
  | .comment text => '\n' ∉ text ∧ text.getLast? ≠ some '\r'
  | .blank => True
  | .setting key value _ => (key ≠ [] ∧ key.all wordChar = true) ∧
      value ≠ [] ∧ value.all wordChar = true

def render (es : List Entry) : Text := ['\n'].intercalate (es.map Entry.line ++ [[]])

/-- The first value that is set for a key. -/
def lookup (k : Text) : List Entry → Option Text
  | [] => none
  | .setting key value _ :: es =>
    if eqIgnoreAsciiCase key k then some value else lookup k es
  | _ :: es => lookup k es

/-! ### Reading it back -/

section
variable {p : Char → Bool} {t key value : Text}

theorem dropWhile_eq_self (h : ∀ c, t.head? = some c → p c = false) : t.dropWhile p = t := by
  cases t with
  | nil => rfl
  | cons c t => rw [List.dropWhile_cons_of_neg (by simp [h c rfl])]

theorem rdropWhile_eq_self (h : ∀ c, t.getLast? = some c → p c = false) : t.rdropWhile p = t := by
  rw [List.rdropWhile_eq_self_iff]
  intro hne
  rw [h _ (List.getLast?_eq_some_getLast hne)]
  exact Bool.false_ne_true

theorem trimMatches_eq_self (hfirst : ∀ c, t.head? = some c → p c = false)
    (hlast : ∀ c, t.getLast? = some c → p c = false) : trimMatches p t = t := by
  rw [trimMatches, dropWhile_eq_self hfirst, rdropWhile_eq_self hlast]

/-- A character of a word is none of those that are trimmed. -/
theorem wordChar_trimmed {c : Char} (h : wordChar c = true) :
    isWhitespace c = false ∧ (c == '"') = false ∧ (c == '\'') = false ∧ c ≠ '=' ∧ c ≠ '#' := by
  simp only [wordChar, Bool.and_eq_true, Bool.not_eq_true', bne_iff_ne] at h
  obtain ⟨⟨⟨⟨hw, hq⟩, ha⟩, he⟩, hc⟩ := h
  exact ⟨hw, beq_false_of_ne hq, beq_false_of_ne ha, he, hc⟩

theorem mem_word (ht : t.all wordChar = true) {c : Char} (hc : c ∈ t) : wordChar c = true :=
  List.all_eq_true.mp ht c hc

theorem trimMatches_word (hp : ∀ c, wordChar c = true → p c = false)
    (ht : t.all wordChar = true) : trimMatches p t = t := by
  apply trimMatches_eq_self
  · exact fun c hc => hp c (mem_word ht (List.mem_of_head? hc))
  · exact fun c hc => hp c (mem_word ht (List.mem_of_getLast? hc))

theorem trim_word (ht : t.all wordChar = true) : trim t = t :=
  trimMatches_word (fun _ hc => (wordChar_trimmed hc).1) ht

theorem trim_key (hkey : key.all wordChar = true) : trim (key ++ [' ']) = key := by
  cases key with
  | nil => rfl
  | cons c key =>
    have hfirst : ∀ d, (c :: key ++ [' ']).head? = some d → isWhitespace d = false := by
      intro d hd
      cases hd
      exact (wordChar_trimmed (mem_word hkey List.mem_cons_self)).1
    rw [trim, trimMatches, dropWhile_eq_self hfirst, List.rdropWhile_concat_pos _ _ _ (by decide)]
    apply rdropWhile_eq_self
    exact fun d hd => (wordChar_trimmed (mem_word hkey (List.mem_of_getLast? hd))).1

theorem unquoted_word (hvalue : value.all wordChar = true) : unquoted value = value := by
  rw [unquoted, trim_word hvalue, trimMatches_word (fun _ hc => (wordChar_trimmed hc).2.1) hvalue,
    trimMatches_word (fun _ hc => (wordChar_trimmed hc).2.2.1) hvalue, trim_word hvalue]

theorem unquoted_quoted (hne : value ≠ []) (hvalue : value.all wordChar = true) :
    unquoted ([' ', '"'] ++ value ++ ['"']) = value := by
  have htrim : trim ([' ', '"'] ++ value ++ ['"']) = '"' :: value ++ ['"'] := by
    have hdrop : ([' ', '"'] ++ value ++ ['"']).dropWhile isWhitespace = '"' :: value ++ ['"'] := by
      rw [List.append_assoc, List.cons_append, List.dropWhile_cons_of_pos (by decide)]
      exact List.dropWhile_cons_of_neg (by decide)
    rw [trim, trimMatches, hdrop]
    exact List.rdropWhile_concat_neg _ _ _ (by decide)
  have hquotes : trimMatches (· == '"') ('"' :: value ++ ['"']) = value := by
    have hfirst : ∀ c, (value ++ ['"']).head? = some c → (c == '"') = false := by
      intro c hc
      cases value with
      | nil => exact absurd rfl hne
      | cons d value =>
        cases hc
        exact (wordChar_trimmed (mem_word hvalue List.mem_cons_self)).2.1
    rw [trimMatches, List.cons_append, List.dropWhile_cons_of_pos (by decide),
      dropWhile_eq_self hfirst, List.rdropWhile_concat_pos _ _ _ (by decide)]
    apply rdropWhile_eq_self
    exact fun c hc => (wordChar_trimmed (mem_word hvalue (List.mem_of_getLast? hc))).2.1
  rw [unquoted, htrim, hquotes,
    trimMatches_word (fun _ hc => (wordChar_trimmed hc).2.2.1) hvalue, trim_word hvalue]

theorem not_mem_word (ht : t.all wordChar = true) {c : Char} (hc : wordChar c = false) : c ∉ t := by
  intro hmem
  rw [mem_word ht hmem] at hc
  cases hc

/-- A line that sets a value is split into its key and its value. -/
theorem splitOnce_setting (quoted : Bool) (hkey : key.all wordChar = true) (hne : value ≠ [])
    (hvalue : value.all wordChar = true) :
    ∃ before after, splitOnce '=' (Entry.setting key value quoted).line = some (before, after) ∧
      trim before = key ∧ unquoted after = value := by
  cases quoted with
  | false =>
    refine ⟨key, value, splitOnce_eq_some.mpr ⟨rfl, not_mem_word hkey (by decide)⟩,
      trim_word hkey, unquoted_word hvalue⟩
  | true =>
    refine ⟨key ++ [' '], [' ', '"'] ++ value ++ ['"'], splitOnce_eq_some.mpr ⟨?_, ?_⟩,
      trim_key hkey, unquoted_quoted hne hvalue⟩
    · simp [Entry.line]
    · have hnot := not_mem_word hkey (c := '=') (by decide)
      simp [hnot]

/-- A line that sets a value ends with a quote or with the end of the value. -/
theorem setting_last {quoted : Bool} (hvalue : value ≠ [] ∧ value.all wordChar = true) {c : Char}
    (hc : (Entry.setting key value quoted).line.getLast? = some c) : isWhitespace c = false := by
  cases quoted with
  | true =>
    have hquote : (Entry.setting key value true).line.getLast? = some '"' := List.getLast?_concat
    rw [hquote] at hc
    cases hc
    decide
  | false =>
    have hend : (Entry.setting key value false).line.getLast? = value.getLast? := by
      rw [Entry.line, List.getLast?_append_of_ne_nil _ (List.cons_ne_nil _ _)]
      exact List.getLast?_append_of_ne_nil ['='] hvalue.1
    rw [hend] at hc
    exact (wordChar_trimmed (mem_word hvalue.2 (List.mem_of_getLast? hc))).1

theorem trim_setting {quoted : Bool} (hkey : key ≠ [] ∧ key.all wordChar = true)
    (hvalue : value ≠ [] ∧ value.all wordChar = true) :
    trim (Entry.setting key value quoted).line = (Entry.setting key value quoted).line := by
  obtain ⟨c, rest, rfl⟩ := List.exists_cons_of_ne_nil hkey.1
  apply trimMatches_eq_self
  · intro d hd
    have hfirst : isWhitespace c = false :=
      (wordChar_trimmed (mem_word hkey.2 List.mem_cons_self)).1
    cases quoted <;> (cases hd; exact hfirst)
  · exact fun d hd => setting_last hvalue hd

end

theorem Entry.WellFormed.line {e : Entry} (h : e.WellFormed) :
    '\n' ∉ e.line ∧ e.line.getLast? ≠ some '\r' := by
  cases e with
  | comment text =>
    refine ⟨?_, ?_⟩
    · simp [Entry.line, h.1]
    · intro hlast
      cases text with
      | nil => cases hlast
      | cons c text => exact h.2 (by simpa [Entry.line] using hlast)
  | blank => exact ⟨List.not_mem_nil, nofun⟩
  | setting key value quoted =>
    obtain ⟨⟨-, hkey⟩, hvalue⟩ := h
    have hkey' := not_mem_word hkey (c := '\n') (by decide)
    have hvalue' := not_mem_word hvalue.2 (c := '\n') (by decide)
    refine ⟨?_, ?_⟩
    · cases quoted <;> simp [Entry.line, hkey', hvalue']
    · intro hlast
      have hspace := setting_last hvalue hlast
      exact absurd hspace (by decide)

theorem lines_render {es : List Entry} (hes : ∀ e ∈ es, e.WellFormed) :
    lines (render es) = es.map Entry.line := by
  have hsplit : (render es).splitOn '\n' = es.map Entry.line ++ [[]] := by
    apply List.splitOn_intercalate
    · intro l hl
      rcases List.mem_append.mp hl with hl | hl
      · obtain ⟨e, he, rfl⟩ := List.mem_map.mp hl
        exact (hes e he).line.1
      · rw [List.mem_singleton.mp hl]
        exact List.not_mem_nil
    · simp
  have hkeep : (es.map Entry.line).reverse.map
      (fun l => if l.getLast? = some '\r' then l.dropLast else l) =
        (es.map Entry.line).reverse := by
    refine (List.map_congr_left fun l hl => ?_).trans (List.map_id _)
    obtain ⟨e, he, rfl⟩ := List.mem_map.mp (List.mem_reverse.mp hl)
    exact if_neg (hes e he).line.2
  rw [lines, hsplit, List.reverse_append]
  simp only [List.reverse_singleton, List.singleton_append, hkeep, List.reverse_reverse, if_true,
    List.append_nil]

theorem trim_comment (text : Text) : ∃ rest, trim ('#' :: text) = '#' :: rest := by
  have hdrop : ('#' :: text).dropWhile isWhitespace = '#' :: text :=
    List.dropWhile_cons_of_neg (by decide)
  have hle : trim ('#' :: text) <+: '#' :: text := by
    rw [trim, trimMatches, hdrop]
    exact List.rdropWhile_prefix _ _
  cases htrim : trim ('#' :: text) with
  | nil =>
    rw [trim, trimMatches, hdrop, List.rdropWhile_eq_nil_iff] at htrim
    exact absurd (htrim '#' List.mem_cons_self) (by decide)
  | cons c rest =>
    rw [htrim, List.cons_prefix_cons] at hle
    rw [hle.1]
    exact ⟨rest, rfl⟩

theorem setting_significant {key value : Text} {quoted : Bool}
    (hkey : key ≠ [] ∧ key.all wordChar = true) :
    (!((Entry.setting key value quoted).line.isEmpty ||
      (Entry.setting key value quoted).line.head? == some '#')) = true := by
  obtain ⟨c, rest, rfl⟩ := List.exists_cons_of_ne_nil hkey.1
  have hhash := (wordChar_trimmed (mem_word hkey.2 List.mem_cons_self)).2.2.2.2
  cases quoted <;> simp [Entry.line, hhash]

/-- Reading a key from a file gives the first value that was written for it. -/
theorem parsePolicyValue_render {es : List Entry} (hes : ∀ e ∈ es, e.WellFormed) (k : String) :
    parsePolicyValue (render es) k = lookup k.toList es := by
  rw [parsePolicyValue, significant, lines_render hes]
  induction es with
  | nil => rfl
  | cons e es ih =>
    have hrest := ih fun e' he' => hes e' (List.mem_cons_of_mem _ he')
    have he := hes e List.mem_cons_self
    rw [List.map_cons, List.map_cons]
    cases e with
    | comment text =>
      obtain ⟨rest, htrim⟩ := trim_comment text
      rw [Entry.line, htrim, List.filter_cons_of_neg (by simp)]
      exact hrest
    | blank => exact hrest
    | setting key value quoted =>
      obtain ⟨hkey, hvalue⟩ := he
      obtain ⟨before, after, hsplit, hbefore, hafter⟩ :=
        splitOnce_setting quoted hkey.2 hvalue.1 hvalue.2
      rw [trim_setting hkey hvalue, List.filter_cons, if_pos (setting_significant hkey),
        parseValueLines, hsplit]
      dsimp only
      rw [hbefore, hafter, lookup, hrest]

/-! ### The tool -/

namespace IdentityTool

inductive Outcome where
  | printed (stdout : List Text)
  | exited (code : ℕ) (stderr : Text)
  | panicked

/-- A seed from the command line; `field` is named in the message. -/
def seedArgument (field : String) (arg : Text) (k : ByteArr 32 → Outcome) : Outcome :=
  match decodeHexExact 32 arg with
  | .error (.returned msg) => .exited 2 ("invalid ".toList ++ field.toList ++ " seed: ".toList ++
      msg.toList)
  | .error .outOfRange => .panicked
  | .ok bytes =>
    match toArr 32 bytes with
    | some seed => k seed
    | none => .panicked

def main (P : Primitives) : List Text → Outcome
  | [_, ed, ml] =>
    seedArgument "ed25519" ed fun edSeed =>
      seedArgument "mldsa65" ml fun mlSeed =>
        .printed ["ed25519_public=".toList ++ hex (P.ed25519Public edSeed).val,
          "mldsa65_public=".toList ++ hex (P.mldsa65Public mlSeed).val]
  | _ => .exited 2 "usage: syntriass-identity <ed25519-seed-hex> <mldsa65-seed-hex>".toList

end IdentityTool

/-- `derive_identity_public_keys`. -/
def deriveIdentityPublicKeys (P : Primitives) (edSeed mlSeed : ByteArr 32) :
    Except CryptoError (ByteArr 32 × Bytes) :=
  match toArr 32 mlSeed.val with
  | none => .error .badIdentityConfig
  | some seed => .ok (P.ed25519Public edSeed, (P.mldsa65Public seed).val)

theorem deriveIdentityPublicKeys_eq (P : Primitives) (edSeed mlSeed : ByteArr 32) :
    deriveIdentityPublicKeys P edSeed mlSeed =
      .ok (P.ed25519Public edSeed, (P.mldsa65Public mlSeed).val) := by
  rw [deriveIdentityPublicKeys, toArr_val]

theorem hexResult_hex {n : ℕ} (v : ByteArr n) :
    hexResult (IdentityTool.hex v.val) n = some v.val := by
  have htoken := IdentityTool.hex_token v.val
  rw [v.property] at htoken
  exact hexResult_eq_some.mpr ⟨v.property, _, htoken, IdentityTool.hex_spells v.val⟩

theorem exists_arr_of_hexResult {token : Text} {n : ℕ} {out : Bytes}
    (h : hexResult token n = some out) : ∃ v : ByteArr n, out = v.val :=
  ⟨⟨out, (hexResult_eq_some.mp h).1⟩, rfl⟩

namespace IdentityTool

/-- A seed is taken, or the tool exits with the status of an error. -/
theorem seedArgument_cases (field : String) (arg : Text) (k : ByteArr 32 → Outcome) :
    (∃ seed : ByteArr 32, hexResult arg 32 = some seed.val ∧ seedArgument field arg k = k seed) ∨
    (hexResult arg 32 = none ∧ ∃ msg, seedArgument field arg k = .exited 2 msg) := by
  rw [seedArgument, decodeHexExact_eq]
  rcases decodeHex_eq "wrong length" "non-hex digit" arg 32 with ⟨out, hout, heq⟩ | ⟨hout, e, heq⟩
  · obtain ⟨seed, rfl⟩ := exists_arr_of_hexResult hout
    simp only [heq, toArr_val]
    exact .inl ⟨seed, hout, rfl⟩
  · simp only [heq]
    exact .inr ⟨hout, _, rfl⟩

theorem seedArgument_hex (field : String) (seed : ByteArr 32) (k : ByteArr 32 → Outcome) :
    seedArgument field (hex seed.val) k = k seed := by
  rcases seedArgument_cases field (hex seed.val) k with ⟨seed', hseed, heq⟩ | ⟨hnone, -⟩
  · rw [hexResult_hex, Option.some.injEq] at hseed
    rw [heq, Subtype.ext hseed]
  · rw [hexResult_hex] at hnone
    cases hnone

/-- What the tool prints are the keys of the seeds that its arguments spell. -/
theorem main_eq_printed {P : Primitives} {exe ed ml edPublic mlPublic : Text}
    (h : main P [exe, ed, ml] = .printed ["ed25519_public=".toList ++ edPublic,
      "mldsa65_public=".toList ++ mlPublic]) :
    ∃ edSeed mlSeed : ByteArr 32, hexResult ed 32 = some edSeed.val ∧
      hexResult ml 32 = some mlSeed.val ∧ edPublic = hex (P.ed25519Public edSeed).val ∧
      mlPublic = hex (P.mldsa65Public mlSeed).val := by
  rw [main] at h
  rcases seedArgument_cases "ed25519" ed _ with ⟨edSeed, hed, heq⟩ | ⟨-, msg, heq⟩
  · rw [heq] at h
    rcases seedArgument_cases "mldsa65" ml _ with ⟨mlSeed, hml, heq'⟩ | ⟨-, msg, heq'⟩
    · rw [heq', Outcome.printed.injEq] at h
      have hfirst := List.head_eq_of_cons_eq h
      have hsecond := List.head_eq_of_cons_eq (List.tail_eq_of_cons_eq h)
      exact ⟨edSeed, mlSeed, hed, hml, (List.append_cancel_left hfirst).symm,
        (List.append_cancel_left hsecond).symm⟩
    · rw [heq'] at h
      cases h
  · rw [heq] at h
    cases h

end IdentityTool

/-! ### Two nodes -/

/-- A token that is configured: in its variable, or else in the file. -/
def Supplies (src : Sources) (envKey fileKey : String) (token : Text) : Prop :=
  src.env envKey = .value token ∨
    (src.env envKey).ok = none ∧ ∃ es : List Entry, (∀ e ∈ es, e.WellFormed) ∧
      src.identityFile = .value (render es) ∧ lookup fileKey.toList es = some token

/-- The configuration of a node holds its seeds and the public keys of its peer. -/
structure Provisioned (src : Sources) (edSeed mlSeed peerEd peerMl : Text) : Prop where
  edSeed : Supplies src "SYNTRIASS_ED25519_SEED_HEX" "ed25519_seed" edSeed
  mlSeed : Supplies src "SYNTRIASS_MLDSA65_SEED_HEX" "mldsa65_seed" mlSeed
  peerEd : Supplies src "SYNTRIASS_PEER_ED25519_PUB_HEX" "peer_ed25519_public" peerEd
  peerMl : Supplies src "SYNTRIASS_PEER_MLDSA65_PUB_HEX" "peer_mldsa65_public" peerMl

/-- Whatever both sides draw, the one that responds and the one that began end with the two
directions of one session. -/
def Completes (P : Primitives) (a b : IdentityMaterial) : Prop :=
  ∀ (s : CipherSuite) (eph eph' : Ephemeral), ∃ state hello keys reply,
    s.beginInitiator P a eph = .ok (state, hello) ∧
    s.respond P b hello eph' = .ok (keys, reply) ∧ state.finish P a reply = .ok keys.mirror

section
variable {src : Sources} {envKey fileKey : String} {token : Text} {n : ℕ}

theorem Supplies.identityToken_eq (h : Supplies src envKey fileKey token) :
    identityToken src envKey fileKey = .ok token := by
  rw [identityToken]
  rcases h with henv | ⟨henv, es, hes, hfile, hlookup⟩
  · rw [henv]
    rfl
  · rw [henv, hfile]
    simp only [Lookup.ok, Option.bind_some, Option.none_or, parsePolicyValue_render hes, hlookup]

theorem Supplies.readVec (h : Supplies src envKey fileKey token) {v : ByteArr n}
    (hv : hexResult token n = some v.val) :
    readIdentityHexVec src envKey fileKey n = .ok v.val := by
  rw [readIdentityHexVec, h.identityToken_eq]
  exact decodeHexVec_eq_ok.mpr hv

theorem Supplies.read (h : Supplies src envKey fileKey token) {v : ByteArr n}
    (hv : hexResult token n = some v.val) : readIdentityHex src envKey fileKey n = .ok v := by
  have hvec := decodeHexVec_eq_ok.mpr hv
  rw [readIdentityHex, h.identityToken_eq]
  change decodeHexExact n token = .ok v
  simp only [decodeHexExact, hvec, bind, Except.bind, toArr_val]

end

/-- A node loads its seeds and the keys that the tool printed. -/
theorem Provisioned.loadIdentity {src : Sources} {ed ml : Text} {P : Primitives}
    {validKey : ByteArr 32 → Bool} {edSeed mlSeed peerEdSeed peerMlSeed : ByteArr 32}
    (h : Provisioned src ed ml (IdentityTool.hex (P.ed25519Public peerEdSeed).val)
      (IdentityTool.hex (P.mldsa65Public peerMlSeed).val))
    (hvalid : validKey (P.ed25519Public peerEdSeed) = true)
    (hed : hexResult ed 32 = some edSeed.val) (hml : hexResult ml 32 = some mlSeed.val) :
    Crypto.loadIdentity validKey src =
      .ok ⟨edSeed, mlSeed, P.ed25519Public peerEdSeed, P.mldsa65Public peerMlSeed⟩ := by
  have hread : readIdentityConfigFromSources src =
      .ok ⟨edSeed, mlSeed, P.ed25519Public peerEdSeed, (P.mldsa65Public peerMlSeed).val⟩ := by
    rw [readIdentityConfigFromSources, h.edSeed.read hed, h.mlSeed.read hml,
      h.peerEd.read (hexResult_hex _), mldsa65PublicLen, h.peerMl.readVec (hexResult_hex _)]
    rfl
  rw [Crypto.loadIdentity, hread]
  change CachedIdentityConfig.toMaterial validKey _ = _
  simp only [CachedIdentityConfig.toMaterial, toArr_val, hvalid, if_true]

theorem Trusts.completes {P : Primitives} (hP : CorrectPrimitives P) {a b : IdentityMaterial}
    (hab : Trusts P a b) (hba : Trusts P b a) : Completes P a b := by
  intro s eph eph'
  obtain ⟨state, hello, keys, reply, hbegin, hrespond, hfinish, -⟩ :=
    hybrid_complete hP s hab hba eph eph'
  exact ⟨state, hello, keys, reply, hbegin, hrespond, hfinish⟩

/-- The layout of `identity.toml.example`. -/
def identityToml (edSeed mlSeed peerEd peerMl : Text) : List Entry :=
  [.comment " Syntriass overlay identity policy. Copy to /etc/syntriass/identity.toml.".toList,
    .blank,
    .setting "ed25519_seed".toList edSeed true,
    .setting "mldsa65_seed".toList mlSeed true,
    .setting "peer_ed25519_public".toList peerEd true,
    .setting "peer_mldsa65_public".toList peerMl true]

theorem wordChar_of_hexValue {c : Char} (h : hexValue c ≠ none) : wordChar c = true := by
  obtain ⟨v, hv⟩ := Option.ne_none_iff_exists'.mp h
  have hall : ∀ n < 128, hexValue (Char.ofNat n) ≠ none → wordChar (Char.ofNat n) = true := by
    decide +kernel
  have hc := hall c.toNat (hexValue_lt hv).2
  rw [Char.ofNat_toNat] at hc
  exact hc h

theorem hex_word {n : ℕ} (v : ByteArr (n + 1)) :
    IdentityTool.hex v.val ≠ [] ∧ (IdentityTool.hex v.val).all wordChar = true := by
  refine ⟨?_, ?_⟩
  · have hlen := IdentityTool.hex_length v.val
    rw [v.property] at hlen
    intro hnil
    rw [hnil, List.length_nil] at hlen
    omega
  · exact List.all_eq_true.mpr fun c hc => wordChar_of_hexValue (IdentityTool.hex_digits _ c hc)

theorem identityToml_wellFormed {edSeed mlSeed peerEd peerMl : Text}
    (hed : edSeed ≠ [] ∧ edSeed.all wordChar = true)
    (hml : mlSeed ≠ [] ∧ mlSeed.all wordChar = true)
    (hpeerEd : peerEd ≠ [] ∧ peerEd.all wordChar = true)
    (hpeerMl : peerMl ≠ [] ∧ peerMl.all wordChar = true) :
    ∀ e ∈ identityToml edSeed mlSeed peerEd peerMl, e.WellFormed := by
  intro e he
  simp only [identityToml, List.mem_cons, List.not_mem_nil, or_false] at he
  rcases he with rfl | rfl | rfl | rfl | rfl | rfl
  · exact ⟨by decide +kernel, by decide +kernel⟩
  · trivial
  · exact ⟨⟨by decide, by decide⟩, hed⟩
  · exact ⟨⟨by decide, by decide⟩, hml⟩
  · exact ⟨⟨by decide, by decide⟩, hpeerEd⟩
  · exact ⟨⟨by decide, by decide⟩, hpeerMl⟩

theorem identityToml_provisioned {src : Sources} {edSeed mlSeed peerEd peerMl : Text}
    (henv : ∀ k, src.env k = .missing)
    (hfile : src.identityFile = .value (render (identityToml edSeed mlSeed peerEd peerMl)))
    (hes : ∀ e ∈ identityToml edSeed mlSeed peerEd peerMl, e.WellFormed) :
    Provisioned src edSeed mlSeed peerEd peerMl := by
  have hsupplies : ∀ {envKey fileKey : String} {token : Text},
      lookup fileKey.toList (identityToml edSeed mlSeed peerEd peerMl) = some token →
        Supplies src envKey fileKey token := by
    intro envKey fileKey token hlookup
    refine .inr ⟨?_, _, hes, hfile, hlookup⟩
    rw [henv]
    rfl
  exact ⟨hsupplies rfl, hsupplies rfl, hsupplies rfl, hsupplies rfl⟩

/-- A node with one seed for both schemes, and the keys of a peer of that kind. -/
def specimenNode (own peer : ByteArr 32) : Sources where
  env _ := .missing
  identityFile := .value (render (identityToml (IdentityTool.hex own.val)
    (IdentityTool.hex own.val) (IdentityTool.hex (specimen.ed25519Public peer).val)
    (IdentityTool.hex (specimen.mldsa65Public peer).val)))
  policyFile := .missing

theorem specimenNode_provisioned (own peer : ByteArr 32) :
    Provisioned (specimenNode own peer) (IdentityTool.hex own.val) (IdentityTool.hex own.val)
      (IdentityTool.hex (specimen.ed25519Public peer).val)
      (IdentityTool.hex (specimen.mldsa65Public peer).val) := by
  apply identityToml_provisioned
  · exact fun _ => rfl
  · rfl
  · exact identityToml_wellFormed (hex_word _) (hex_word _) (hex_word _) (hex_word _)

theorem IdentityTool.main_hex (P : Primitives) (exe : Text) (edSeed mlSeed : ByteArr 32) :
    IdentityTool.main P [exe, IdentityTool.hex edSeed.val, IdentityTool.hex mlSeed.val] = .printed
      ["ed25519_public=".toList ++ IdentityTool.hex (P.ed25519Public edSeed).val,
        "mldsa65_public=".toList ++ IdentityTool.hex (P.mldsa65Public mlSeed).val] := by
  rw [IdentityTool.main, IdentityTool.seedArgument_hex, IdentityTool.seedArgument_hex]

/-- Two nodes that are given the keys which the tool printed for the other one can talk to
each other, whichever of them connects. -/
theorem provisioned_peers {P : Primitives} (hP : CorrectPrimitives P)
    (validKey : ByteArr 32 → Bool) (hvalid : ∀ seed, validKey (P.ed25519Public seed) = true)
    {exe edA mlA edB mlB edPublicA mlPublicA edPublicB mlPublicB : Text} {srcA srcB : Sources}
    (toolA : IdentityTool.main P [exe, edA, mlA] = .printed
      ["ed25519_public=".toList ++ edPublicA, "mldsa65_public=".toList ++ mlPublicA])
    (toolB : IdentityTool.main P [exe, edB, mlB] = .printed
      ["ed25519_public=".toList ++ edPublicB, "mldsa65_public=".toList ++ mlPublicB])
    (hA : Provisioned srcA edA mlA edPublicB mlPublicB)
    (hB : Provisioned srcB edB mlB edPublicA mlPublicA) :
    ∃ a b, loadIdentity validKey srcA = .ok a ∧ loadIdentity validKey srcB = .ok b ∧
      deriveIdentityPublicKeys P a.ownEd25519 a.ownMldsa65 =
        .ok (b.peerEd25519Public, b.peerMldsa65Public.val) ∧
      deriveIdentityPublicKeys P b.ownEd25519 b.ownMldsa65 =
        .ok (a.peerEd25519Public, a.peerMldsa65Public.val) ∧
      Completes P a b ∧ Completes P b a := by
  obtain ⟨edSeedA, mlSeedA, hedA, hmlA, rfl, rfl⟩ := IdentityTool.main_eq_printed toolA
  obtain ⟨edSeedB, mlSeedB, hedB, hmlB, rfl, rfl⟩ := IdentityTool.main_eq_printed toolB
  have hloadA := hA.loadIdentity (hvalid edSeedB) hedA hmlA
  have hloadB := hB.loadIdentity (hvalid edSeedA) hedB hmlB
  refine ⟨_, _, hloadA, hloadB, deriveIdentityPublicKeys_eq .., deriveIdentityPublicKeys_eq ..,
    ?_, ?_⟩
  · exact Trusts.completes hP ⟨rfl, rfl⟩ ⟨rfl, rfl⟩
  · exact Trusts.completes hP ⟨rfl, rfl⟩ ⟨rfl, rfl⟩

theorem provisioned_peers_specimen :
    IdentityTool.main specimen
        [[], IdentityTool.hex (ramp 32).val, IdentityTool.hex (ramp 32).val] =
      .printed ["ed25519_public=".toList ++ IdentityTool.hex (ramp 32).val,
        "mldsa65_public=".toList ++ IdentityTool.hex (pad 1952 (ramp 32).val).val] ∧
    ∃ a b, loadIdentity (fun _ => true) (specimenNode (ramp 32) (pad 32 [1])) = .ok a ∧
      loadIdentity (fun _ => true) (specimenNode (pad 32 [1]) (ramp 32)) = .ok b ∧
      Completes specimen a b := by
  refine ⟨IdentityTool.main_hex specimen [] (ramp 32) (ramp 32), ?_⟩
  obtain ⟨a, b, ha, hb, -, -, hab, -⟩ := provisioned_peers specimen_correct
    (fun _ => true) (fun _ => rfl)
    (IdentityTool.main_hex specimen [] (ramp 32) (ramp 32))
    (IdentityTool.main_hex specimen [] (pad 32 [1]) (pad 32 [1]))
    (specimenNode_provisioned (ramp 32) (pad 32 [1]))
    (specimenNode_provisioned (pad 32 [1]) (ramp 32))
  exact ⟨a, b, ha, hb, hab⟩

end SyntriassOverlay.Crypto
