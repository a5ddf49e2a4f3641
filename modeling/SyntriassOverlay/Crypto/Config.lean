import SyntriassOverlay.Crypto.Primitives
import Mathlib.Data.List.DropRight

/-!
# The runtime configuration (crypto/mod.rs:221-264, 373-445, 495-640)

What `load_runtime_config` reads from the environment and the two files, with the parsers
of the source. A text is the list of its characters.
-/

namespace SyntriassOverlay.Crypto

abbrev Text := List Char

/-! ### What `str` offers -/

/-- `char::is_whitespace`. -/
def isWhitespace (c : Char) : Bool :=
  let n := c.toNat
  (9 ≤ n && n ≤ 13) || n == 0x20 || n == 0x85 || n == 0xA0 || n == 0x1680 ||
    (0x2000 ≤ n && n ≤ 0x200A) || n == 0x2028 || n == 0x2029 || n == 0x202F || n == 0x205F ||
    n == 0x3000

def isAsciiWhitespace (c : Char) : Bool :=
  c == ' ' || c == '\t' || c == '\n' || c == '\x0C' || c == '\r'

/-- `str::trim_matches` with a predicate. -/
def trimMatches (p : Char → Bool) (t : Text) : Text := (t.dropWhile p).rdropWhile p

def trim : Text → Text := trimMatches isWhitespace

def toAsciiLowercase (c : Char) : Char :=
  if 'A' ≤ c ∧ c ≤ 'Z' then Char.ofNat (c.toNat + 32) else c

def eqIgnoreAsciiCase (a b : Text) : Bool := a.map toAsciiLowercase == b.map toAsciiLowercase

/-- `str::split_once`. -/
def splitOnce (sep : Char) (t : Text) : Option (Text × Text) :=
  match t.span (· != sep) with
  | (_, []) => none
  | (before, _ :: after) => some (before, after)

/-- `str::lines`: a carriage return before the line feed belongs to the line ending, and
an empty piece after the last line feed is no line. -/
def lines (t : Text) : List Text :=
  match (t.splitOn '\n').reverse with
  | [] => []
  | last :: init =>
    (init.map fun l => if l.getLast? = some '\r' then l.dropLast else l).reverse ++
      if last = [] then [] else [last]

/-! ### Sources -/

/-- What reading an environment variable or a file as text can give. -/
inductive Lookup where
  | missing
  /-- The file cannot be read, or what was found is not Unicode. -/
  | unreadable
  | value (t : Text)
  deriving DecidableEq

def Lookup.ok : Lookup → Option Text
  | .value t => some t
  | _ => none

structure Sources where
  env : String → Lookup
  identityFile : Lookup
  policyFile : Lookup

/-! ### Policy -/

/-- The lines that are looked at. -/
def significant (t : Text) : List Text :=
  ((lines t).map trim).filter fun l => !(l.isEmpty || l.head? == some '#')

/-- The value of a line, without the quotes around it. -/
def unquoted (value : Text) : Text :=
  trim (trimMatches (· == '\'') (trimMatches (· == '"') (trim value)))

/-- The loop of `parse_policy_file`. -/
def parsePolicyLines : List Text → Except String (Option Text)
  | [] => .ok none
  | line :: rest =>
    match splitOnce '=' line with
    | none => .error "malformed SYNTRIASS policy line"
    | some (key, value) =>
      if eqIgnoreAsciiCase (trim key) "suite".toList then .ok (some (unquoted value))
      else parsePolicyLines rest

def parsePolicyFile (contents : Text) : Except String (Option Text) :=
  parsePolicyLines (significant contents)

def parseSuiteToken (tok : Text) : Except String CipherSuite :=
  let t := String.ofList ((trim tok).map toAsciiLowercase)
  if t ∈ ["0x01", "1", "768", "nist768", "niststandard768"] then .ok .nistStandard768
  else if t ∈ ["0x02", "2", "1024", "nist1024", "niststandard1024"] then .ok .nistStandard1024
  else .error "unrecognized SYNTRIASS suite policy value"

def readPolicyFromSources (src : Sources) : Except String CipherSuite :=
  match (src.env "SYNTRIASS_SUITE").ok with
  | some val => parseSuiteToken (trim val)
  | none =>
    match src.policyFile.ok with
    | none => .ok .nistStandard768
    | some contents =>
      match parsePolicyFile contents with
      | .error e => .error e
      | .ok (some tok) => parseSuiteToken tok
      | .ok none => .ok .nistStandard768

/-! ### Identity -/

/-- The loop of `parse_policy_value`; a line without `=` ends it. -/
def parseValueLines (wantedKey : Text) : List Text → Option Text
  | [] => none
  | line :: rest =>
    match splitOnce '=' line with
    | none => none
    | some (key, value) =>
      if eqIgnoreAsciiCase (trim key) wantedKey then some (unquoted value)
      else parseValueLines wantedKey rest

def parsePolicyValue (contents : Text) (wantedKey : String) : Option Text :=
  parseValueLines wantedKey.toList (significant contents)

def hexNibble (b : UInt8) : Option UInt8 :=
  if 48 ≤ b ∧ b ≤ 57 then some (b - 48)
  else if 97 ≤ b ∧ b ≤ 102 then some (b - 97 + 10)
  else if 65 ≤ b ∧ b ≤ 70 then some (b - 65 + 10)
  else none

/-- The loop over `chunks_exact(2)`. -/
def hexBytes : Bytes → Option Bytes
  | high :: low :: rest => do
    let h ← hexNibble high
    let l ← hexNibble low
    let out ← hexBytes rest
    pure ((h <<< 4 ||| l) :: out)
  | _ => some []

/-- The token without one leading `0x` or `0X`. -/
def stripHexMark : Text → Text
  | '0' :: 'x' :: rest | '0' :: 'X' :: rest => rest
  | t => t

def decodeHexVec (token : Text) (expectedLen : ℕ) : Except CryptoError Bytes :=
  let hex := (stripHexMark (token.filter (!isAsciiWhitespace ·))).flatMap String.utf8EncodeChar
  if hex.length ≠ expectedLen * 2 then .error .badIdentityConfig
  else match hexBytes hex with
    | some out => .ok out
    | none => .error .badIdentityConfig

def decodeHexExact (n : ℕ) (token : Text) : Except CryptoError (ByteArr n) := do
  match toArr n (← decodeHexVec token n) with
  | some out => .ok out
  | none => .error .badIdentityConfig

/-- The token of a key: the variable wins over the file. -/
def identityToken (src : Sources) (envKey fileKey : String) : Except CryptoError Text :=
  match (src.env envKey).ok.or (src.identityFile.ok.bind (parsePolicyValue · fileKey)) with
  | some token => .ok token
  | none => .error .badIdentityConfig

def readIdentityHex (src : Sources) (envKey fileKey : String) (n : ℕ) :
    Except CryptoError (ByteArr n) := do
  decodeHexExact n (← identityToken src envKey fileKey)

def readIdentityHexVec (src : Sources) (envKey fileKey : String) (expectedLen : ℕ) :
    Except CryptoError Bytes := do
  decodeHexVec (← identityToken src envKey fileKey) expectedLen

structure CachedIdentityConfig where
  ownEd25519Seed : ByteArr 32
  ownMldsa65Seed : ByteArr 32
  peerEd25519Public : ByteArr 32
  peerMldsa65Public : Bytes

def readIdentityConfigFromSources (src : Sources) : Except CryptoError CachedIdentityConfig := do
  let ownEdSeed ← readIdentityHex src "SYNTRIASS_ED25519_SEED_HEX" "ed25519_seed" 32
  let ownMlSeed ← readIdentityHex src "SYNTRIASS_MLDSA65_SEED_HEX" "mldsa65_seed" 32
  let peerEdPublic ←
    readIdentityHex src "SYNTRIASS_PEER_ED25519_PUB_HEX" "peer_ed25519_public" 32
  let peerMlPublic ←
    readIdentityHexVec src "SYNTRIASS_PEER_MLDSA65_PUB_HEX" "peer_mldsa65_public" mldsa65PublicLen
  pure ⟨ownEdSeed, ownMlSeed, peerEdPublic, peerMlPublic⟩

section
variable (validKey : ByteArr 32 → Bool)

/-- `IdentityMaterial::from_bytes`. `validKey` is the check of `ed25519-dalek` that the
bytes are a point of the curve. -/
def CachedIdentityConfig.toMaterial (cfg : CachedIdentityConfig) :
    Except CryptoError IdentityMaterial :=
  match toArr 1952 cfg.peerMldsa65Public with
  | none => .error .badIdentityConfig
  | some peerMldsa65Public =>
    if validKey cfg.peerEd25519Public then
      .ok ⟨cfg.ownEd25519Seed, cfg.ownMldsa65Seed, cfg.peerEd25519Public, peerMldsa65Public⟩
    else .error .badIdentityConfig

structure RuntimeConfig where
  policy : Except String CipherSuite
  identity : Except CryptoError IdentityMaterial

def loadIdentity (src : Sources) : Except CryptoError IdentityMaterial := do
  (← readIdentityConfigFromSources src).toMaterial validKey

/-- The identity is read before the policy. -/
def loadRuntimeConfig (src : Sources) : RuntimeConfig where
  policy := readPolicyFromSources src
  identity := loadIdentity validKey src

end

end SyntriassOverlay.Crypto
