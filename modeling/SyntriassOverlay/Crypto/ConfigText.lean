import SyntriassOverlay.Crypto.Config

/-!
# The language of the config readers (crypto/mod.rs:527-545, 583-596)

`parse_policy_file` and `parse_policy_value` are two loops over the same lines. What they
accept is said here without the loops: which lines count, which line sets a key and to what,
which one is the first to do so, and which line stops a reader.
-/

namespace SyntriassOverlay.Crypto

/-! ### Trimming -/

/-- `u` is `t` without the characters at both ends for which `p` holds. -/
structure Trims (p : Char → Bool) (t u : Text) : Prop where
  around : ∃ front back, t = front ++ u ++ back ∧ (∀ c ∈ front, p c = true) ∧
    ∀ c ∈ back, p c = true
  first : ∀ c, u.head? = some c → p c = false
  last : ∀ c, u.getLast? = some c → p c = false

section
variable {p : Char → Bool}

theorem trims_trimMatches (p : Char → Bool) (t : Text) : Trims p t (trimMatches p t) where
  around := by
    refine ⟨t.takeWhile p, (t.dropWhile p).rtakeWhile p, ?_, ?_, ?_⟩
    · rw [trimMatches, List.append_assoc, List.rdropWhile_append_rtakeWhile,
        List.takeWhile_append_dropWhile]
    · exact fun c hc => List.mem_takeWhile_imp hc
    · exact fun c hc => List.mem_rtakeWhile_imp hc
  first := by
    intro c hc
    have hback : trimMatches p t ++ (t.dropWhile p).rtakeWhile p = t.dropWhile p :=
      List.rdropWhile_append_rtakeWhile
    have hhead : (t.dropWhile p).head? = some c := by
      rw [← hback, List.head?_append]
      exact congrArg (Option.or · _) hc
    have hnot := List.head?_dropWhile_not p t
    rw [hhead] at hnot
    exact hnot
  last := by
    intro c hc
    have hne : (t.dropWhile p).rdropWhile p ≠ [] := by
      rintro hnil
      rw [trimMatches, hnil] at hc
      cases hc
    have hnot := List.rdropWhile_last_not p (t.dropWhile p) hne
    rw [trimMatches, List.getLast?_eq_some_getLast hne] at hc
    cases hc
    simpa using hnot

theorem Trims.eq {t u : Text} (h : Trims p t u) : u = trimMatches p t := by
  obtain ⟨front, back, rfl, hfront, hback⟩ := h.around
  have hlast : u.rdropWhile p = u := by
    refine List.rdropWhile_eq_self_iff.mpr fun hne => ?_
    rw [h.last _ (List.getLast?_eq_some_getLast hne)]
    exact Bool.false_ne_true
  have hend : ∀ b : Text, (∀ c ∈ b, p c = true) → (u ++ b).rdropWhile p = u.rdropWhile p := by
    intro b
    induction b using List.reverseRecOn with
    | nil => simp
    | append_singleton b c ih =>
      intro hb
      rw [← List.append_assoc, List.rdropWhile_concat_pos _ _ _ (hb c (by simp))]
      exact ih fun c' hc' => hb c' (by simp [hc'])
  rw [trimMatches, List.append_assoc, List.dropWhile_append_of_pos hfront]
  cases u with
  | nil =>
    rw [List.nil_append, List.dropWhile_eq_nil_iff.mpr hback]
    rfl
  | cons c u =>
    have hc : ¬ p c = true := by simp [h.first c rfl]
    rw [List.cons_append, List.dropWhile_cons_of_neg hc, ← List.cons_append, hend back hback, hlast]

end

/-- The value without the blanks around it, the double quotes around the rest, the single quotes
around what is left and the blanks inside them. -/
def Unquotes (value v : Text) : Prop :=
  ∃ a b c, Trims isWhitespace value a ∧ Trims (· == '"') a b ∧ Trims (· == '\'') b c ∧
    Trims isWhitespace c v

theorem unquotes_iff {value v : Text} : Unquotes value v ↔ v = unquoted value := by
  constructor
  · rintro ⟨a, b, c, ha, hb, hc, hv⟩
    rw [hv.eq, hc.eq, hb.eq, ha.eq]
    rfl
  · rintro rfl
    exact ⟨_, _, _, trims_trimMatches _ _, trims_trimMatches _ _, trims_trimMatches _ _,
      trims_trimMatches _ _⟩

/-! ### The lines that count -/

/-- Of the lines `raws`, trimmed, those that are neither blank nor a comment, in their order. -/
inductive Selects : List Text → List Text → Prop
  | nil : Selects [] []
  | skip {raw line : Text} {raws ls : List Text} (htrim : Trims isWhitespace raw line)
      (hskip : line = [] ∨ ∃ rest, line = '#' :: rest) (h : Selects raws ls) :
      Selects (raw :: raws) ls
  | take {raw line : Text} {raws ls : List Text} (htrim : Trims isWhitespace raw line)
      (hblank : line ≠ []) (hcomment : ∀ rest, line ≠ '#' :: rest) (h : Selects raws ls) :
      Selects (raw :: raws) (line :: ls)

theorem ignored_iff {line : Text} :
    (line.isEmpty || line.head? == some '#') = true ↔ line = [] ∨ ∃ rest, line = '#' :: rest := by
  cases line with
  | nil => simp
  | cons c rest => simp

theorem Selects.eq {raws ls : List Text} (h : Selects raws ls) :
    ls = (raws.map trim).filter fun l => !(l.isEmpty || l.head? == some '#') := by
  induction h with
  | nil => rfl
  | skip htrim hskip _ ih =>
    have hline : trim _ = _ := htrim.eq.symm
    have hignored := ignored_iff.mpr hskip
    rw [List.map_cons, hline,
      List.filter_cons_of_neg (by simpa [or_iff_not_imp_left] using hignored)]
    exact ih
  | take htrim hblank hcomment _ ih =>
    have hline : trim _ = _ := htrim.eq.symm
    have hcounts : ¬ _ := fun hskip => (ignored_iff.mp hskip).elim hblank fun ⟨rest, hrest⟩ =>
      hcomment rest hrest
    rw [List.map_cons, hline, List.filter_cons_of_pos (by simpa using hcounts), ← ih]

theorem selects_filter (raws : List Text) :
    Selects raws ((raws.map trim).filter fun l => !(l.isEmpty || l.head? == some '#')) := by
  induction raws with
  | nil => exact .nil
  | cons raw raws ih =>
    have htrim : Trims isWhitespace raw (trim raw) := trims_trimMatches _ _
    rw [List.map_cons]
    by_cases hskip : ((trim raw).isEmpty || (trim raw).head? == some '#') = true
    · rw [List.filter_cons_of_neg (by simpa [or_iff_not_imp_left] using hskip)]
      exact .skip htrim (ignored_iff.mp hskip) ih
    · rw [List.filter_cons_of_pos (by simpa using hskip)]
      have hcounts := not_or.mp fun h => hskip (ignored_iff.mpr h)
      exact .take htrim hcounts.1 (fun rest heq => hcounts.2 ⟨rest, heq⟩) ih

theorem selects_iff {t : Text} {ls : List Text} : Selects (lines t) ls ↔ ls = significant t :=
  ⟨Selects.eq, fun h => h ▸ selects_filter (lines t)⟩

/-! ### Splitting a line -/

theorem splitOnce_nil (sep : Char) : splitOnce sep [] = none := rfl

theorem splitOnce_cons (sep c : Char) (t : Text) :
    splitOnce sep (c :: t) =
      if c = sep then some ([], t) else (splitOnce sep t).map fun p => (c :: p.1, p.2) := by
  simp only [splitOnce, List.span_eq_takeWhile_dropWhile, List.takeWhile_cons, List.dropWhile_cons]
  by_cases hc : c = sep
  · simp [hc]
  · have hne : (c != sep) = true := by simpa using hc
    simp only [hne, hc, if_true, if_false]
    cases t.dropWhile (· != sep) <;> rfl

theorem splitOnce_eq_none {sep : Char} {t : Text} : splitOnce sep t = none ↔ sep ∉ t := by
  induction t with
  | nil => simp [splitOnce_nil]
  | cons c t ih =>
    rw [splitOnce_cons]
    by_cases hc : c = sep
    · simp [hc]
    · rw [if_neg hc, Option.map_eq_none_iff, ih, List.mem_cons, not_or]
      exact ⟨fun h => ⟨fun heq => hc heq.symm, h⟩, fun h => h.2⟩

theorem splitOnce_eq_some {sep : Char} {t before after : Text} :
    splitOnce sep t = some (before, after) ↔ t = before ++ sep :: after ∧ sep ∉ before := by
  induction t generalizing before with
  | nil => simp [splitOnce_nil]
  | cons c t ih =>
    rw [splitOnce_cons]
    by_cases hc : c = sep
    · subst hc
      rw [if_pos rfl]
      cases before with
      | nil => simp [eq_comm]
      | cons b before => simp; intro h; simp [h]
    · rw [if_neg hc, Option.map_eq_some_iff]
      cases before with
      | nil => simp [hc]
      | cons b before =>
        constructor
        · rintro ⟨⟨before', after'⟩, hsplit, heq⟩
          cases heq
          obtain ⟨rfl, hfirst⟩ := ih.mp hsplit
          exact ⟨rfl, by simpa using ⟨fun h => hc h.symm, hfirst⟩⟩
        · rintro ⟨heq, hfirst⟩
          cases heq
          exact ⟨(before, after), ih.mpr ⟨rfl, fun h => hfirst (List.mem_cons_of_mem _ h)⟩, rfl⟩

/-! ### What a text sets -/

/-- The first `=` of `line` separates `key` and `value`. -/
structure Assignment (line key value : Text) : Prop where
  shape : line = key ++ '=' :: value
  first : '=' ∉ key

/-- The line sets the key `k`, to the value `v`. -/
def Sets (k line v : Text) : Prop :=
  ∃ key name value, Assignment line key value ∧ Trims isWhitespace key name ∧
    eqIgnoreAsciiCase name k = true ∧ Unquotes value v

def Keyed (k line : Text) : Prop := ∃ v, Sets k line v

/-- Some line sets `k`, the first that does sets it to `v`, and every line before it has
an `=`. -/
def FirstSetting (k : Text) (ls : List Text) (v : Text) : Prop :=
  ∃ pre line post, ls = pre ++ line :: post ∧ Sets k line v ∧
    ∀ l ∈ pre, '=' ∈ l ∧ ¬ Keyed k l

/-- A line without `=` comes before any line that sets `k`. -/
def BrokenBefore (k : Text) (ls : List Text) : Prop :=
  ∃ pre line post, ls = pre ++ line :: post ∧ '=' ∉ line ∧ ∀ l ∈ pre, ¬ Keyed k l

theorem assignment_iff {line key value : Text} :
    Assignment line key value ↔ splitOnce '=' line = some (key, value) := by
  rw [splitOnce_eq_some]
  exact ⟨fun h => ⟨h.shape, h.first⟩, fun h => ⟨h.1, h.2⟩⟩

theorem sets_iff {k line key value v : Text} (h : splitOnce '=' line = some (key, value)) :
    Sets k line v ↔ eqIgnoreAsciiCase (trim key) k = true ∧ v = unquoted value := by
  constructor
  · rintro ⟨key', name, value', ha, hname, hkey, hv⟩
    rw [assignment_iff, h] at ha
    cases ha
    rw [hname.eq] at hkey
    exact ⟨hkey, unquotes_iff.mp hv⟩
  · rintro ⟨hkey, hv⟩
    exact ⟨key, trim key, value, assignment_iff.mpr h, trims_trimMatches _ _, hkey,
      unquotes_iff.mpr hv⟩

theorem Sets.mem {k line v : Text} (h : Sets k line v) : '=' ∈ line := by
  obtain ⟨key, name, value, ha, -⟩ := h
  rw [ha.shape]
  simp

theorem firstSetting_nil {k v : Text} : ¬ FirstSetting k [] v := by
  rintro ⟨pre, line, post, hls, -⟩
  simp at hls

theorem firstSetting_cons {k line v : Text} {ls : List Text} :
    FirstSetting k (line :: ls) v ↔
      Sets k line v ∨ ('=' ∈ line ∧ ¬ Keyed k line ∧ FirstSetting k ls v) := by
  constructor
  · rintro ⟨pre, l, post, hls, hsets, hpre⟩
    cases pre with
    | nil =>
      cases hls
      exact .inl hsets
    | cons p pre =>
      cases hls
      have hp := hpre line (List.mem_cons_self ..)
      exact .inr ⟨hp.1, hp.2, pre, l, post, rfl, hsets,
        fun l' hl' => hpre l' (List.mem_cons_of_mem _ hl')⟩
  · rintro (hsets | ⟨heq, hkey, pre, l, post, rfl, hsets, hpre⟩)
    · exact ⟨[], line, ls, rfl, hsets, fun l hl => by cases hl⟩
    · exact ⟨line :: pre, l, post, rfl, hsets, List.forall_mem_cons.mpr ⟨⟨heq, hkey⟩, hpre⟩⟩

theorem brokenBefore_nil {k : Text} : ¬ BrokenBefore k [] := by
  rintro ⟨pre, line, post, hls, -⟩
  simp at hls

theorem brokenBefore_cons {k line : Text} {ls : List Text} :
    BrokenBefore k (line :: ls) ↔ '=' ∉ line ∨ (¬ Keyed k line ∧ BrokenBefore k ls) := by
  constructor
  · rintro ⟨pre, l, post, hls, heq, hpre⟩
    cases pre with
    | nil =>
      cases hls
      exact .inl heq
    | cons p pre =>
      cases hls
      exact .inr ⟨hpre line (List.mem_cons_self ..), pre, l, post, rfl, heq,
        fun l' hl' => hpre l' (List.mem_cons_of_mem _ hl')⟩
  · rintro (heq | ⟨hkey, pre, l, post, rfl, heq, hpre⟩)
    · exact ⟨[], line, ls, rfl, heq, fun l hl => by cases hl⟩
    · exact ⟨line :: pre, l, post, rfl, heq, List.forall_mem_cons.mpr ⟨hkey, hpre⟩⟩

/-! ### The two loops -/

theorem parseValueLines_eq_some {k v : Text} {ls : List Text} :
    parseValueLines k ls = some v ↔ FirstSetting k ls v := by
  induction ls with
  | nil => simp [parseValueLines, firstSetting_nil]
  | cons line ls ih =>
    rw [parseValueLines, firstSetting_cons]
    cases hsplit : splitOnce '=' line with
    | none =>
      have hline : '=' ∉ line := splitOnce_eq_none.mp hsplit
      constructor
      · intro h
        cases h
      · rintro (hsets | ⟨heq, -⟩)
        · exact absurd hsets.mem hline
        · exact absurd heq hline
    | some p =>
      obtain ⟨key, value⟩ := p
      have hline : '=' ∈ line := by
        rw [(assignment_iff.mpr hsplit).shape]
        simp
      dsimp only
      by_cases hkey : eqIgnoreAsciiCase (trim key) k = true
      · rw [if_pos hkey, sets_iff hsplit]
        constructor
        · intro h
          cases h
          exact .inl ⟨hkey, rfl⟩
        · rintro (⟨-, hv⟩ | ⟨-, hnot, -⟩)
          · rw [hv]
          · exact absurd ⟨_, (sets_iff hsplit).mpr ⟨hkey, rfl⟩⟩ hnot
      · have hnot : ¬ Keyed k line := fun ⟨v, hv⟩ => hkey ((sets_iff hsplit).mp hv).1
        rw [if_neg hkey, ih]
        exact ⟨fun h => .inr ⟨hline, hnot, h⟩,
          fun h => h.elim (fun hsets => absurd ⟨v, hsets⟩ hnot) fun h => h.2.2⟩

/-- `parse_policy_file` fails at a broken line; elsewhere it is the other reader. -/
theorem parsePolicyLines_eq {ls : List Text} :
    (BrokenBefore "suite".toList ls →
      parsePolicyLines ls = .error "malformed SYNTRIASS policy line") ∧
    (¬ BrokenBefore "suite".toList ls →
      parsePolicyLines ls = .ok (parseValueLines "suite".toList ls)) := by
  induction ls with
  | nil => exact ⟨fun h => absurd h brokenBefore_nil, fun _ => rfl⟩
  | cons line ls ih =>
    rw [brokenBefore_cons, parsePolicyLines, parseValueLines]
    cases hsplit : splitOnce '=' line with
    | none =>
      have hline : '=' ∉ line := splitOnce_eq_none.mp hsplit
      exact ⟨fun _ => rfl, fun h => absurd (.inl hline) h⟩
    | some p =>
      obtain ⟨key, value⟩ := p
      have hline : '=' ∈ line := by
        rw [(assignment_iff.mpr hsplit).shape]
        simp
      dsimp only
      by_cases hkey : eqIgnoreAsciiCase (trim key) "suite".toList = true
      · have hkeyed : Keyed "suite".toList line := ⟨_, (sets_iff hsplit).mpr ⟨hkey, rfl⟩⟩
        rw [if_pos hkey, if_pos hkey]
        refine ⟨fun h => ?_, fun _ => rfl⟩
        rcases h with h | ⟨h, -⟩
        · exact absurd hline h
        · exact absurd hkeyed h
      · have hnot : ¬ Keyed "suite".toList line :=
          fun ⟨v, hv⟩ => hkey ((sets_iff hsplit).mp hv).1
        rw [if_neg hkey, if_neg hkey]
        refine ⟨fun h => ih.1 ?_, fun h => ih.2 fun hb => h (.inr ⟨hnot, hb⟩)⟩
        rcases h with h | ⟨-, h⟩
        · exact absurd hline h
        · exact h

/-- A setting that counts has no broken line before it. -/
theorem FirstSetting.not_broken {k v : Text} {ls : List Text} (h : FirstSetting k ls v) :
    ¬ BrokenBefore k ls := by
  induction ls with
  | nil => exact brokenBefore_nil
  | cons line ls ih =>
    rw [brokenBefore_cons]
    rcases firstSetting_cons.mp h with hsets | ⟨heq, -, hrest⟩
    · exact fun hb => hb.elim (fun hn => hn hsets.mem) fun hn => hn.1 ⟨v, hsets⟩
    · exact fun hb => hb.elim (fun hn => hn heq) fun hn => ih hrest hn.2

/-- Where a reader finds nothing and meets no broken line, no line sets its key. -/
theorem unkeyed_of_none {k : Text} {ls : List Text} (hset : ¬ ∃ v, FirstSetting k ls v)
    (hbroken : ¬ BrokenBefore k ls) : ∀ l ∈ ls, ¬ Keyed k l := by
  induction ls with
  | nil => exact fun l hl => by cases hl
  | cons line ls ih =>
    rw [brokenBefore_cons, not_or, not_not] at hbroken
    have hline : ¬ Keyed k line := fun ⟨v, hv⟩ => hset ⟨v, firstSetting_cons.mpr (.inl hv)⟩
    have hrest : ¬ ∃ v, FirstSetting k ls v := fun ⟨v, hv⟩ =>
      hset ⟨v, firstSetting_cons.mpr (.inr ⟨hbroken.1, hline, hv⟩)⟩
    exact List.forall_mem_cons.mpr ⟨hline, ih hrest fun hb => hbroken.2 ⟨hline, hb⟩⟩

/-! ### The two readers -/

theorem parsePolicyFile_eq_some {t v : Text} :
    parsePolicyFile t = .ok (some v) ↔ FirstSetting "suite".toList (significant t) v := by
  rw [← parseValueLines_eq_some]
  by_cases hb : BrokenBefore "suite".toList (significant t)
  · have hnone : parseValueLines "suite".toList (significant t) ≠ some v :=
      fun h => (parseValueLines_eq_some.mp h).not_broken hb
    rw [parsePolicyFile, parsePolicyLines_eq.1 hb]
    exact ⟨fun h => (by cases h), fun h => absurd h hnone⟩
  · rw [parsePolicyFile, parsePolicyLines_eq.2 hb, Except.ok.injEq]

theorem parsePolicyFile_eq_error {t : Text} :
    (∃ e, parsePolicyFile t = .error e) ↔ BrokenBefore "suite".toList (significant t) := by
  by_cases hb : BrokenBefore "suite".toList (significant t)
  · rw [parsePolicyFile, parsePolicyLines_eq.1 hb]
    exact ⟨fun _ => hb, fun _ => ⟨_, rfl⟩⟩
  · rw [parsePolicyFile, parsePolicyLines_eq.2 hb]
    exact ⟨fun ⟨e, he⟩ => (by cases he), fun h => absurd h hb⟩

theorem parsePolicyFile_eq_none {t : Text} :
    parsePolicyFile t = .ok none ↔ (¬ ∃ v, FirstSetting "suite".toList (significant t) v) ∧
      ¬ BrokenBefore "suite".toList (significant t) := by
  rw [← parsePolicyFile_eq_error]
  constructor
  · intro h
    refine ⟨fun ⟨v, hv⟩ => ?_, fun ⟨e, he⟩ => ?_⟩
    · rw [parsePolicyFile_eq_some.mpr hv] at h
      cases h
    · rw [he] at h
      cases h
  · rintro ⟨hnone, hok⟩
    cases hp : parsePolicyFile t with
    | error e => exact absurd ⟨e, hp⟩ hok
    | ok found =>
      cases found with
      | none => rfl
      | some v => exact absurd ⟨v, parsePolicyFile_eq_some.mp hp⟩ hnone

/-- The two readers accept the same settings: of the lines that count, `parse_policy_file` returns
the first `suite` setting, fails exactly at a broken line before any, and finds nothing otherwise;
`parse_policy_value` returns the first setting of its key under the same condition. -/
theorem readers_agree (t : Text) :
    (∀ ls, Selects (lines t) ls ↔ ls = significant t) ∧
    (∀ v, parsePolicyFile t = .ok (some v) ↔ FirstSetting "suite".toList (significant t) v) ∧
    ((∃ e, parsePolicyFile t = .error e) ↔ BrokenBefore "suite".toList (significant t)) ∧
    (parsePolicyFile t = .ok none ↔ (¬ ∃ v, FirstSetting "suite".toList (significant t) v) ∧
      ¬ BrokenBefore "suite".toList (significant t)) ∧
    (∀ (k : String) v,
      parsePolicyValue t k = some v ↔ FirstSetting k.toList (significant t) v) ∧
    (∀ k : String,
      parsePolicyValue t k = none ↔ ¬ ∃ v, FirstSetting k.toList (significant t) v) ∧
    parsePolicyValue t "suite" = (parsePolicyFile t).toOption.join := by
  refine ⟨fun ls => selects_iff, fun v => parsePolicyFile_eq_some, parsePolicyFile_eq_error,
    parsePolicyFile_eq_none, fun k v => parseValueLines_eq_some, fun k => ?_, ?_⟩
  · rw [parsePolicyValue, Option.eq_none_iff_forall_ne_some]
    exact ⟨fun h ⟨v, hv⟩ => h v (parseValueLines_eq_some.mpr hv),
      fun h v hv => h ⟨v, parseValueLines_eq_some.mp hv⟩⟩
  · rw [parsePolicyValue, parsePolicyFile]
    by_cases hb : BrokenBefore "suite".toList (significant t)
    · have hnone : parseValueLines "suite".toList (significant t) = none := by
        rw [Option.eq_none_iff_forall_ne_some]
        exact fun v hv => (parseValueLines_eq_some.mp hv).not_broken hb
      rw [parsePolicyLines_eq.1 hb, hnone]
      rfl
    · rw [parsePolicyLines_eq.2 hb]
      rfl

end SyntriassOverlay.Crypto
