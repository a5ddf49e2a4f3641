import SyntriassOverlay.Crypto.ConfigText
import SyntriassOverlay.Closed

/-!
# The suite policy and its default (crypto/mod.rs:395-420)

`read_policy_from_sources` tries the variable `SYNTRIASS_SUITE`, then the policy file, then
falls back to the 768 suite. Both sources can be there and still give no text: the variable
can hold bytes that are not Unicode, the file can be unreadable or not UTF-8. `std` reports
that in the `Err` that also stands for a source that is not there.
-/

namespace SyntriassOverlay
open Crypto Resumption

/-- The token that names the suite; the file counts when the variable is not set. -/
inductive Token (src : Sources) : Text → Prop
  | variable {v : Text} (h : src.env "SYNTRIASS_SUITE" = .value v) : Token src (trim v)
  | file {t tok : Text} (henv : src.env "SYNTRIASS_SUITE" = .missing)
      (h : src.policyFile = .value t) (hset : FirstSetting "suite".toList (significant t) tok) :
      Token src tok

/-- Every session that is built while the policy is that of `src` is closed from the start and
stays so. -/
def SessionsFailClosed (src : Sources) : Prop :=
  ∀ P role c st, Built P role c st →
    (∀ r, (⟨.resolvePolicy, r⟩ : Ev Resp) ∈ c → r = (readPolicyFromSources src).toOption) →
    st.phase = .failed ∧ ∀ log u status,
      Reach (fun c : {c : FdCall // c.Fueled} => FdCall.run P c.1) st log u status →
        Absorbed log u status

def Refused (src : Sources) : Prop :=
  (∃ e, readPolicyFromSources src = .error e) ∧ SessionsFailClosed src

/-- The default never stands in for a policy that was configured. -/
structure PolicyHonoured (src : Sources) : Prop where
  default : readPolicyFromSources src = .ok .nistStandard768 →
    (¬ ∃ tok, Token src tok ∧ parseSuiteToken tok = .ok .nistStandard768) →
    src.env "SYNTRIASS_SUITE" = .missing ∧
      (src.policyFile = .missing ∨
        ∃ t, src.policyFile = .value t ∧ ∀ l ∈ significant t, ¬ Keyed "suite".toList l)
  unreadable : src.env "SYNTRIASS_SUITE" = .unreadable ∨ src.policyFile = .unreadable → Refused src
  unrecognised : ∀ tok e, Token src tok → parseSuiteToken tok = .error e → Refused src

/-- The text that is read instead names no suite. -/
def Unusable (src : Sources) : Prop :=
  (∃ v e, src.env "SYNTRIASS_SUITE" = .value v ∧ parseSuiteToken (trim v) = .error e) ∨
  ((src.env "SYNTRIASS_SUITE").ok = none ∧ ∃ t, src.policyFile = .value t ∧
    (BrokenBefore "suite".toList (significant t) ∨
      ∃ tok e, FirstSetting "suite".toList (significant t) tok ∧ parseSuiteToken tok = .error e))

theorem Lookup.ok_eq_some {l : Lookup} {t : Text} : l.ok = some t ↔ l = .value t := by
  cases l <;> simp [Lookup.ok]

/-! ### Sessions under a refused policy -/

theorem Opening.failed_of_noPolicy {P : Primitives} {c : Tr} {st : FdState} {role : Role}
    (h : Opening P c st role) (hpolicy : ∀ r, (⟨.resolvePolicy, r⟩ : Ev Resp) ∈ c → r = none) :
    st.phase = .failed := by
  cases h with
  | failed hphase => exact hphase
  | responder _ _ hmem => cases hpolicy _ hmem
  | hybrid _ _ _ hmem => cases hpolicy _ hmem
  | fallback _ _ hmem => cases hpolicy _ hmem

theorem refused_of_error {src : Sources} {e : String} (h : readPolicyFromSources src = .error e) :
    Refused src := by
  refine ⟨⟨e, h⟩, fun P role c st hbuilt hpolicy => ?_⟩
  obtain ⟨hfresh, hopen⟩ := hbuilt.opening
  have hnone : (readPolicyFromSources src).toOption = none := by rw [h]; rfl
  have hfailed : st.phase = .failed :=
    hopen.failed_of_noPolicy fun r hr => (hpolicy r hr).trans hnone
  exact ⟨hfailed, fun log u status hrun => absorbed_of_reach (hopen.sound hfresh) hfailed hrun⟩

/-! ### What is read -/

section
variable {src : Sources}

theorem readPolicy_of_variable {v : Text} (h : src.env "SYNTRIASS_SUITE" = .value v) :
    readPolicyFromSources src = parseSuiteToken (trim v) := by
  rw [readPolicyFromSources, Lookup.ok_eq_some.mpr h]

theorem readPolicy_of_file {t : Text} (henv : (src.env "SYNTRIASS_SUITE").ok = none)
    (h : src.policyFile = .value t) : readPolicyFromSources src =
      (match parsePolicyFile t with
        | .error e => .error e
        | .ok (some tok) => parseSuiteToken tok
        | .ok none => .ok .nistStandard768) := by
  have hfile := Lookup.ok_eq_some.mpr h
  rcases hp : parsePolicyFile t with e | tok
  · simp [readPolicyFromSources, henv, hfile, hp]
  · cases tok with
    | none => simp [readPolicyFromSources, henv, hfile, hp]
    | some tok => simp [readPolicyFromSources, henv, hfile, hp]

theorem readPolicy_of_none (henv : (src.env "SYNTRIASS_SUITE").ok = none)
    (h : src.policyFile.ok = none) : readPolicyFromSources src = .ok .nistStandard768 := by
  rw [readPolicyFromSources, henv, h]

theorem readPolicy_error_iff : (∃ e, readPolicyFromSources src = .error e) ↔ Unusable src := by
  cases henv : src.env "SYNTRIASS_SUITE" with
  | value v =>
    rw [readPolicy_of_variable henv]
    constructor
    · rintro ⟨e, he⟩
      exact .inl ⟨v, e, henv, he⟩
    · rintro (⟨v', e, hv', he⟩ | ⟨hnone, -⟩)
      · rw [henv] at hv'
        cases hv'
        exact ⟨e, he⟩
      · rw [henv] at hnone
        cases hnone
  | missing | unreadable =>
    have hnone : (src.env "SYNTRIASS_SUITE").ok = none := by rw [henv]; rfl
    have hnot : ¬ ∃ v e, src.env "SYNTRIASS_SUITE" = .value v ∧
        parseSuiteToken (trim v) = .error e := by
      rintro ⟨v, e, hv, -⟩
      rw [henv] at hv
      cases hv
    rw [Unusable, or_iff_right hnot]
    cases hfile : src.policyFile.ok with
    | none =>
      rw [readPolicy_of_none hnone hfile]
      constructor
      · rintro ⟨e, he⟩
        cases he
      · rintro ⟨-, t, ht, -⟩
        rw [ht] at hfile
        cases hfile
    | some t =>
      have ht := Lookup.ok_eq_some.mp hfile
      rw [readPolicy_of_file hnone ht]
      constructor
      · rintro ⟨e, he⟩
        refine ⟨hnone, t, ht, ?_⟩
        cases hp : parsePolicyFile t with
        | error e' => exact .inl (parsePolicyFile_eq_error.mp ⟨e', hp⟩)
        | ok found =>
          rw [hp] at he
          cases found with
          | none => cases he
          | some tok => exact .inr ⟨tok, e, parsePolicyFile_eq_some.mp hp, he⟩
      · rintro ⟨-, t', ht', hbad⟩
        rw [ht] at ht'
        cases ht'
        rcases hbad with hbroken | ⟨tok, e, hset, he⟩
        · obtain ⟨e, he⟩ := parsePolicyFile_eq_error.mpr hbroken
          exact ⟨e, by rw [he]⟩
        · exact ⟨e, by rw [parsePolicyFile_eq_some.mpr hset]; exact he⟩

/-- The suite of a token is what is read. -/
theorem Token.read {tok : Text} (h : Token src tok) :
    readPolicyFromSources src = parseSuiteToken tok := by
  cases h with
  | «variable» h => exact readPolicy_of_variable h
  | file henv h hset =>
    rw [readPolicy_of_file (by rw [henv]; rfl) h, parsePolicyFile_eq_some.mpr hset]

/-- Where no source is unreadable, the default is read only when nothing names a suite. -/
theorem readPolicy_default (henv : src.env "SYNTRIASS_SUITE" ≠ .unreadable)
    (hfile : src.policyFile ≠ .unreadable)
    (h : readPolicyFromSources src = .ok .nistStandard768)
    (htok : ¬ ∃ tok, Token src tok ∧ parseSuiteToken tok = .ok .nistStandard768) :
    src.env "SYNTRIASS_SUITE" = .missing ∧
      (src.policyFile = .missing ∨
        ∃ t, src.policyFile = .value t ∧ ∀ l ∈ significant t, ¬ Keyed "suite".toList l) := by
  cases hv : src.env "SYNTRIASS_SUITE" with
  | unreadable => exact absurd hv henv
  | value v =>
    rw [readPolicy_of_variable hv] at h
    exact absurd ⟨trim v, .variable hv, h⟩ htok
  | missing =>
    refine ⟨rfl, ?_⟩
    cases hf : src.policyFile with
    | missing => exact .inl rfl
    | unreadable => exact absurd hf hfile
    | value t =>
      refine .inr ⟨t, rfl, ?_⟩
      rw [readPolicy_of_file (by rw [hv]; rfl) hf] at h
      cases hp : parsePolicyFile t with
      | error e =>
        rw [hp] at h
        cases h
      | ok found =>
        rw [hp] at h
        cases found with
        | some tok => exact absurd ⟨tok, .file hv hf (parsePolicyFile_eq_some.mp hp), h⟩ htok
        | none =>
          obtain ⟨hset, hbroken⟩ := parsePolicyFile_eq_none.mp hp
          exact unkeyed_of_none hset hbroken

end

/-- The default masks no policy exactly when each source that is there can be read, or the text
that is used in place of an unreadable one is itself refused. -/
theorem policyHonoured_iff (src : Sources) : PolicyHonoured src ↔
    (src.env "SYNTRIASS_SUITE" ≠ .unreadable ∧ src.policyFile ≠ .unreadable) ∨ Unusable src := by
  constructor
  · intro h
    by_cases hread : src.env "SYNTRIASS_SUITE" ≠ .unreadable ∧ src.policyFile ≠ .unreadable
    · exact .inl hread
    · have hun : src.env "SYNTRIASS_SUITE" = .unreadable ∨ src.policyFile = .unreadable := by
        rwa [not_and_or, not_not, not_not] at hread
      exact .inr (readPolicy_error_iff.mp (h.unreadable hun).1)
  · intro h
    have herror : Unusable src → Refused src := fun hbad =>
      (readPolicy_error_iff.mpr hbad).elim fun _ he => refused_of_error he
    refine ⟨fun hok htok => ?_, fun hun => ?_, fun tok e ht he => ?_⟩
    · rcases h with ⟨henv, hfile⟩ | hbad
      · exact readPolicy_default henv hfile hok htok
      · obtain ⟨e, he⟩ := readPolicy_error_iff.mpr hbad
        rw [he] at hok
        cases hok
    · rcases h with ⟨henv, hfile⟩ | hbad
      · exact (hun.elim henv hfile).elim
      · exact herror hbad
    · exact refused_of_error (ht.read.trans he)

/-- The policy file is there and cannot be read: the default is used. -/
theorem policyHonoured_not :
    readPolicyFromSources ⟨fun _ => .missing, .missing, .unreadable⟩ = .ok .nistStandard768 ∧
      ¬ PolicyHonoured ⟨fun _ => .missing, .missing, .unreadable⟩ := by
  refine ⟨rfl, fun h => ?_⟩
  obtain ⟨⟨e, he⟩, -⟩ := h.unreadable (.inr rfl)
  cases he

end SyntriassOverlay
