import Scenario.Proofs.Patterns

/-!
Longest match: how far numbers, names and texts in quotes are read. Each takes the longest text at
its start that its pattern matches.
-/

namespace Scenario.Expr

open Lexer

/-! ### The longest text of a language -/

/-- The longest text at the start of `cs` that belongs to `L`. -/
structure Longest (L : Language Char) (cs text : List Char) : Prop where
  atStart : text <+: cs
  mem : text ∈ L
  length_le : ∀ other ∈ L, other <+: cs → other.length ≤ text.length

/-- No text at the start of `cs` belongs to `L`. -/
def Absent (L : Language Char) (cs : List Char) : Prop := ∀ text ∈ L, ¬ text <+: cs

section Longest

variable {L M : Language Char} {c : Char} {cs text : List Char}

theorem Longest.nil (hnil : [] ∈ L) (h : ∀ c ds, c :: ds ∈ L → ¬ c :: ds <+: cs) :
    Longest L cs [] := by
  refine ⟨List.nil_prefix, hnil, ?_⟩
  intro other hother hfront
  cases other with
  | nil => exact Nat.le_refl 0
  | cons c ds => exact absurd hfront (h c ds hother)

theorem Longest.cons (hL : ∀ ds, c :: ds ∈ L ↔ ds ∈ M) (h : Longest M cs text) :
    Longest L (c :: cs) (c :: text) := by
  refine ⟨(List.prefix_cons_inj c).2 h.atStart, (hL text).2 h.mem, ?_⟩
  intro other hother hfront
  cases other with
  | nil => exact Nat.zero_le _
  | cons d ds =>
    obtain ⟨rfl, hds⟩ := List.cons_prefix_cons.1 hfront
    exact Nat.succ_le_succ (h.length_le ds ((hL ds).1 hother) hds)

theorem absent_nil (hnil : [] ∉ L) : Absent L [] := by
  intro text htext hfront
  rw [List.prefix_nil.1 hfront] at htext
  exact hnil htext

theorem Absent.cons (hnil : [] ∉ L) (hL : ∀ ds, c :: ds ∈ L ↔ ds ∈ M) (h : Absent M cs) :
    Absent L (c :: cs) := by
  intro text htext hfront
  cases text with
  | nil => exact hnil htext
  | cons d ds =>
    obtain ⟨rfl, hds⟩ := List.cons_prefix_cons.1 hfront
    exact h ds ((hL ds).1 htext) hds

end Longest

/-! ### Numbers -/

section Powers

variable {cs ds es : List Char} {e : Char} {exponent : Int}

theorem digits_takeWhile (cs : List Char) : Digits (cs.takeWhile Char.isDigit) := by
  induction cs with
  | nil => simp [Digits]
  | cons c cs ih => by_cases hc : c.isDigit <;> simp_all [Digits]

theorem Digits.length_le (hds : Digits ds) (h : ds <+: cs) :
    ds.length ≤ (cs.takeWhile Char.isDigit).length := by
  obtain ⟨rest, rfl⟩ := h
  simp [List.takeWhile_append_of_pos hds]

/-- The digits of a power, which stand behind its letter and a sign. -/
def powerDigits (cs : List Char) : List Char :=
  (cs.drop (powerSign cs).2).takeWhile Char.isDigit

/-- The sign of a power, which may be missing, is read off whatever is behind it. -/
theorem powerSign_spelling (he : e = 'e' ∨ e = 'E') (cs : List Char) :
    ∃ sign, cs = sign ++ cs.drop (powerSign cs).2 ∧ sign.length = (powerSign cs).2 ∧
      ∀ ds, Digits ds → ds ≠ [] → PowerSpelling
        (if (powerSign cs).1 then -(Decimal.ofDigits ds : Int) else Decimal.ofDigits ds)
        (e :: (sign ++ ds)) := by
  unfold powerSign
  split
  · exact ⟨['-'], rfl, rfl, fun ds hds hne => .negative he hds hne⟩
  · exact ⟨['+'], rfl, rfl, fun ds hds hne => .positive he hds hne⟩
  · exact ⟨[], rfl, rfl, fun ds hds hne => .unsigned he hds hne⟩

theorem scanPower_digits (he : e = 'e' ∨ e = 'E') (hne : powerDigits cs ≠ []) :
    ∃ text, text <+: cs ∧ text.length = (powerSign cs).2 + (powerDigits cs).length ∧
      (Numeral.scanPower (e :: cs)).2 = text.length + 1 ∧
      PowerSpelling (Numeral.scanPower (e :: cs)).1 (e :: text) := by
  have hscan : Numeral.scanPower (e :: cs) = _ :=
    (scanPower_cons he cs).trans (if_neg (by simpa [powerDigits] using hne))
  obtain ⟨sign, hcs, hsign, hspelling⟩ := powerSign_spelling he cs
  refine ⟨sign ++ powerDigits cs, ?_, ?_, ?_, ?_⟩
  · conv_rhs => rw [hcs]
    exact (List.prefix_append_right_inj sign).2 (List.takeWhile_prefix _)
  · rw [List.length_append, hsign]
  · rw [hscan, List.length_append, hsign]
    exact (Nat.add_assoc _ _ _).trans (Nat.add_comm 1 _)
  · rw [hscan]
    exact hspelling _ (digits_takeWhile _) hne

theorem PowerSpelling.length_le (h : PowerSpelling exponent (e :: es)) (hes : es <+: cs) :
    (e = 'e' ∨ e = 'E') ∧ powerDigits cs ≠ [] ∧
      es.length ≤ (powerSign cs).2 + (powerDigits cs).length := by
  obtain ⟨ds, he, hne, hds, hfront, hlength⟩ : ∃ ds, (e = 'e' ∨ e = 'E') ∧ ds ≠ [] ∧ Digits ds ∧
      ds <+: cs.drop (powerSign cs).2 ∧ es.length = (powerSign cs).2 + ds.length := by
    obtain ⟨rest, rfl⟩ := hes
    cases h with
    | unsigned he hds hne =>
      obtain ⟨d, ds, rfl⟩ := List.exists_cons_of_ne_nil hne
      rw [List.cons_append, powerSign_digit (hds d List.mem_cons_self)]
      exact ⟨d :: ds, he, hne, hds, List.prefix_append (d :: ds) rest, (Nat.zero_add _).symm⟩
    | positive he hds hne | negative he hds hne =>
      exact ⟨_, he, hne, hds, List.prefix_append _ rest, Nat.add_comm _ 1⟩
  have hle : ds.length ≤ (powerDigits cs).length := hds.length_le hfront
  have hpos := List.length_pos_of_ne_nil hne
  exact ⟨he, List.ne_nil_of_length_pos (by omega), by omega⟩

theorem scanPower_longest (cs : List Char) :
    ∃ text, Longest (1 + Pattern.power) cs text ∧
      PowerSpelling (Numeral.scanPower cs).1 text ∧ (Numeral.scanPower cs).2 = text.length := by
  have hnil : [] ∈ 1 + Pattern.power := Pattern.mem_optional_power.2 ⟨_, .absent⟩
  cases cs with
  | nil => exact ⟨[], .nil hnil (by simp), .absent, rfl⟩
  | cons e cs =>
    by_cases hpower : (e = 'e' ∨ e = 'E') ∧ powerDigits cs ≠ []
    · obtain ⟨he, hne⟩ := hpower
      obtain ⟨text, hstart, hlength, hscan, hspelling⟩ := scanPower_digits he hne
      have hmem : e :: text ∈ 1 + Pattern.power := Pattern.mem_optional_power.2 ⟨_, hspelling⟩
      refine ⟨e :: text, ⟨(List.prefix_cons_inj e).2 hstart, hmem, ?_⟩, hspelling, hscan⟩
      intro other hother hfront
      obtain ⟨exponent, hexponent⟩ := Pattern.mem_optional_power.1 hother
      cases other with
      | nil => exact Nat.zero_le _
      | cons e' es =>
        obtain ⟨rfl, hes⟩ := List.cons_prefix_cons.1 hfront
        have hle := (hexponent.length_le hes).2.2
        simp only [List.length_cons]
        omega
    · have hscan : Numeral.scanPower (e :: cs) = (0, 0) := by
        by_cases he : e = 'e' ∨ e = 'E'
        · have hempty : powerDigits cs = [] := by simpa [he] using hpower
          rw [scanPower_cons he]
          exact if_pos (List.isEmpty_iff.2 hempty)
        · exact if_neg he
      rw [hscan]
      refine ⟨[], .nil hnil ?_, .absent, rfl⟩
      intro e' es hes hstart
      obtain ⟨rfl, hstart'⟩ := List.cons_prefix_cons.1 hstart
      obtain ⟨exponent, hexponent⟩ := Pattern.mem_optional_power.1 hes
      have hdigits := hexponent.length_le hstart'
      exact hpower ⟨hdigits.1, hdigits.2.1⟩

end Powers

section Numbers

variable {cs ds es other : List Char} {n : Numeral} {exponent : Int} {k : Nat}

/-- Digits and what cannot go on with them are no longer than all digits and what is behind them. -/
theorem length_digits_append_le (hds : Digits ds) (hes : ∀ c ∈ es.head?, c.isDigit = false)
    (h : ds ++ es <+: cs) (htail : es <+: cs.dropWhile Char.isDigit → es.length ≤ k) :
    (ds ++ es).length ≤ (cs.takeWhile Char.isDigit).length + k := by
  obtain ⟨rest, rfl⟩ := h
  rw [List.append_assoc, List.takeWhile_append_of_pos hds, List.length_append, List.length_append]
  rw [List.append_assoc, List.dropWhile_append_of_pos hds] at htail
  cases es with
  | nil =>
    simp only [List.length_nil]
    omega
  | cons e es =>
    have he : e.isDigit = false := hes e rfl
    rw [List.cons_append, List.dropWhile_cons_of_neg (by simp [he]), ← List.cons_append] at htail
    have hle := htail (List.prefix_append _ _)
    omega

theorem PowerSpelling.head_cases (h : PowerSpelling exponent cs) :
    ∀ c ∈ cs.head?, c.isDigit = false ∧ c ≠ '.' := by
  have hnext := h.noDigit apart_nil
  rwa [List.append_nil] at hnext

/-- Numbers without a point and with one. -/
theorem NumberSpelling.cases (h : NumberSpelling n cs) :
    (∃ ds ps exponent, cs = ds ++ ps ∧ Digits ds ∧ PowerSpelling exponent ps) ∨
      ∃ ds fs ps exponent, cs = ds ++ '.' :: (fs ++ ps) ∧ Digits ds ∧ Digits fs ∧
        PowerSpelling exponent ps := by
  cases h with
  | whole hds _ hpower => exact .inl ⟨_, _, _, rfl, hds, hpower⟩
  | point hds _ hfs hpower => exact .inr ⟨_, _, _, _, rfl, hds, hfs, hpower⟩
  | fraction hfs _ hpower => exact .inr ⟨[], _, _, _, rfl, by simp [Digits], hfs, hpower⟩

theorem NumberSpelling.length_le_point (h : NumberSpelling n other) (hother : other <+: cs)
    (hpoint : cs.dropWhile Char.isDigit = '.' :: ds)
    (hpower : ∀ exponent ps, PowerSpelling exponent ps → ps <+: ds.dropWhile Char.isDigit →
      ps.length ≤ k) :
    other.length ≤
      (cs.takeWhile Char.isDigit).length + ((ds.takeWhile Char.isDigit).length + k + 1) := by
  obtain ⟨ds', ps, exponent, rfl, hds, hps⟩ | ⟨ds', fs, ps, exponent, rfl, hds, hfs, hps⟩ := h.cases
  · refine length_digits_append_le hds (fun c hc => (hps.head_cases c hc).1) hother fun htail => ?_
    rw [hpoint] at htail
    cases ps with
    | nil => exact Nat.zero_le _
    | cons e ps =>
      obtain ⟨rfl, -⟩ := List.cons_prefix_cons.1 htail
      exact absurd rfl (hps.head_cases '.' rfl).2
  · refine length_digits_append_le hds (by simp) hother fun htail => ?_
    rw [hpoint, List.prefix_cons_inj] at htail
    exact Nat.succ_le_succ (length_digits_append_le hfs (fun c hc => (hps.head_cases c hc).1) htail
      (hpower exponent ps hps))

theorem NumberSpelling.length_le_whole (h : NumberSpelling n other) (hother : other <+: cs)
    (hpoint : (cs.dropWhile Char.isDigit).head? ≠ some '.')
    (hpower : ∀ exponent ps, PowerSpelling exponent ps → ps <+: cs.dropWhile Char.isDigit →
      ps.length ≤ k) :
    other.length ≤ (cs.takeWhile Char.isDigit).length + k := by
  obtain ⟨ds', ps, exponent, rfl, hds, hps⟩ | ⟨ds', fs, ps, exponent, rfl, hds, hfs, hps⟩ := h.cases
  · exact length_digits_append_le hds (fun c hc => (hps.head_cases c hc).1) hother
      (hpower exponent ps hps)
  · refine length_digits_append_le hds (by simp) hother fun htail => ?_
    obtain ⟨rest, hrest⟩ := htail
    rw [← hrest] at hpoint
    exact absurd rfl hpoint

theorem scanNumber_eq_point (hpoint : cs.dropWhile Char.isDigit = '.' :: ds) :
    scanNumber cs = (⟨cs.takeWhile Char.isDigit, ds.takeWhile Char.isDigit,
      (Numeral.scanPower (ds.dropWhile Char.isDigit)).1⟩,
      (cs.takeWhile Char.isDigit).length + 1 + (ds.takeWhile Char.isDigit).length +
        (Numeral.scanPower (ds.dropWhile Char.isDigit)).2) := by
  unfold scanNumber
  rw [hpoint]
  rfl

theorem scanNumber_eq_whole (hpoint : (cs.dropWhile Char.isDigit).head? ≠ some '.') :
    scanNumber cs = (⟨cs.takeWhile Char.isDigit, [],
      (Numeral.scanPower (cs.dropWhile Char.isDigit)).1⟩,
      (cs.takeWhile Char.isDigit).length +
        (Numeral.scanPower (cs.dropWhile Char.isDigit)).2) := by
  unfold scanNumber
  split
  · rename_i hcons
    rw [hcons] at hpoint
    exact absurd rfl hpoint
  · rfl

/-- A number stands next. -/
def StartsNumber (cs : List Char) : Prop :=
  cs.takeWhile Char.isDigit ≠ [] ∨ ∃ ds, cs = '.' :: ds ∧ ds.takeWhile Char.isDigit ≠ []

theorem scanNumber_spelling (h : StartsNumber cs) :
    ∃ text, text <+: cs ∧ NumberSpelling (scanNumber cs).1 text ∧ (scanNumber cs).2 = text.length ∧
      ∀ n other, NumberSpelling n other → other <+: cs → other.length ≤ text.length := by
  by_cases hpoint : (cs.dropWhile Char.isDigit).head? = some '.'
  · obtain ⟨ds, hds⟩ := List.head?_eq_some_iff.1 hpoint
    obtain ⟨ps, hlongest, hspelling, hlength⟩ := scanPower_longest (ds.dropWhile Char.isDigit)
    have hwhole : cs = cs.takeWhile Char.isDigit ++ '.' :: ds := by
      rw [← hds, List.takeWhile_append_dropWhile]
    rw [scanNumber_eq_point hds]
    refine ⟨cs.takeWhile Char.isDigit ++ '.' :: (ds.takeWhile Char.isDigit ++ ps), ?_, ?_, ?_, ?_⟩
    · conv_rhs => rw [hwhole, ← List.takeWhile_append_dropWhile (p := Char.isDigit) (l := ds)]
      rw [List.prefix_append_right_inj, List.prefix_cons_inj, List.prefix_append_right_inj]
      exact hlongest.atStart
    · by_cases hne : cs.takeWhile Char.isDigit = []
      · obtain habsurd | ⟨ds', rfl, hfraction⟩ := h
        · exact absurd hne habsurd
        · cases hds
          rw [hne]
          exact .fraction (digits_takeWhile ds) hfraction hspelling
      · exact .point (digits_takeWhile cs) hne (digits_takeWhile ds) hspelling
    · simp only [List.length_append, List.length_cons, hlength]
      omega
    · intro n other hother hfront
      have hle := hother.length_le_point hfront hds fun exponent ps' hps' =>
        hlongest.length_le ps' (Pattern.mem_optional_power.2 ⟨exponent, hps'⟩)
      simp only [List.length_append, List.length_cons]
      omega
  · obtain ⟨ps, hlongest, hspelling, hlength⟩ := scanPower_longest (cs.dropWhile Char.isDigit)
    have hne : cs.takeWhile Char.isDigit ≠ [] := by
      obtain hne | ⟨ds, rfl, -⟩ := h
      · exact hne
      · exact absurd rfl hpoint
    rw [scanNumber_eq_whole hpoint]
    refine ⟨cs.takeWhile Char.isDigit ++ ps, ?_, .whole (digits_takeWhile cs) hne hspelling, ?_, ?_⟩
    · conv_rhs => rw [← List.takeWhile_append_dropWhile (p := Char.isDigit) (l := cs)]
      rw [List.prefix_append_right_inj]
      exact hlongest.atStart
    · rw [List.length_append, hlength]
    · intro n other hother hfront
      have hle := hother.length_le_whole hfront hpoint fun exponent ps' hps' =>
        hlongest.length_le ps' (Pattern.mem_optional_power.2 ⟨exponent, hps'⟩)
      rw [List.length_append]
      exact hle

end Numbers

/-! ### Names -/

section Names

variable {c d : Char} {cs text : List Char}

theorem nameTail_letter (hc : continuesName c = true) (ds : List Char) :
    c :: ds ∈ Pattern.nameTail ↔ ds ∈ Pattern.nameTail := by
  have hpoint : c ≠ '.' := by
    rintro rfl
    cases hc
  simp [Pattern.cons_mem_nameTail, hc, hpoint]

theorem nameTail_point (ds : List Char) :
    '.' :: ds ∈ Pattern.nameTail ↔ ds ∈ oneOf startsName * Pattern.nameTail := by
  rw [Pattern.cons_mem_nameTail]
  constructor
  · rintro (⟨-, h⟩ | ⟨h, -⟩)
    · exact h
    · cases h
  · exact fun h => .inl ⟨rfl, h⟩

theorem longest_point (hd : startsName d = true) (h : Longest Pattern.nameTail cs text) :
    Longest Pattern.nameTail ('.' :: d :: cs) ('.' :: d :: text) :=
  (h.cons (cons_mem_of_class hd _)).cons nameTail_point

/-- A point with no part of a name behind it is not of the name. -/
theorem longest_last_point (h : ∀ d ∈ cs.head?, ¬ startsName d = true) :
    Longest Pattern.nameTail ('.' :: cs) [] := by
  apply Longest.nil Pattern.nil_mem_nameTail
  intro c ds hmem hfront
  obtain ⟨rfl, rest, rfl⟩ := List.cons_prefix_cons.1 hfront
  obtain ⟨d, es, rfl, hd, -⟩ := mem_oneOf_mul.1 ((nameTail_point ds).1 hmem)
  exact h d rfl hd

theorem nameLength_longest (cs : List Char) :
    ∃ text, Longest Pattern.nameTail cs text ∧ nameLength cs = text.length := by
  fun_induction nameLength cs with
  | case1 => exact ⟨[], .nil Pattern.nil_mem_nameTail (by simp), rfl⟩
  | case2 c cs hc ih =>
    obtain ⟨text, hlongest, hlength⟩ := ih
    refine ⟨c :: text, hlongest.cons (nameTail_letter hc), ?_⟩
    rw [hlength, Nat.add_comm, List.length_cons]
  | case3 => exact ⟨[], longest_last_point (by simp), rfl⟩
  | case4 d cs hd _ ih =>
    obtain ⟨text, hlongest, hlength⟩ := ih
    refine ⟨'.' :: d :: text, longest_point hd hlongest, ?_⟩
    rw [hlength, Nat.add_comm]
    rfl
  | case5 d cs hd _ => exact ⟨[], longest_last_point (by simpa using hd), rfl⟩
  | case6 c cs hc hpoint =>
    refine ⟨[], .nil Pattern.nil_mem_nameTail ?_, rfl⟩
    intro c' ds hmem hfront
    obtain ⟨rfl, -⟩ := List.cons_prefix_cons.1 hfront
    obtain ⟨hpoint', -⟩ | ⟨hc', -⟩ := Pattern.cons_mem_nameTail.1 hmem
    · exact hpoint hpoint'
    · exact hc hc'

end Names

/-! ### Texts -/

section Texts

variable {quote c d : Char} {cs : List Char}

theorem quotedTail_plain (hc : c ≠ quote) (hc' : c ≠ '\\') (ds : List Char) :
    c :: ds ∈ Pattern.quotedTail quote ↔ ds ∈ Pattern.quotedTail quote := by
  simp [Pattern.cons_mem_quotedTail, hc, hc']

theorem quotedTail_escape (hquote : '\\' ≠ quote) (ds : List Char) :
    '\\' :: ds ∈ Pattern.quotedTail quote ↔ ds ∈ oneOf (· ≠ '\n') * Pattern.quotedTail quote := by
  simp [Pattern.cons_mem_quotedTail, hquote]

theorem quotedTail_close (hquote : '\\' ≠ quote) (ds : List Char) :
    quote :: ds ∈ Pattern.quotedTail quote ↔ ds ∈ (1 : Language Char) := by
  simp [Pattern.cons_mem_quotedTail, hquote.symm, Language.mem_one]

theorem unescaped_plain (hc : c ≠ '\\') (cs : List Char) :
    unescaped (c :: cs) = c :: unescaped cs := by
  rw [unescaped.eq_def]
  split <;> simp_all

/-- Reading a text up to its closing quote takes all that may belong to it. It fails if the text
does not close. -/
theorem scanText_longest (hquote : '\\' ≠ quote) (cs : List Char) :
    match scanText quote cs with
    | .ok (t, n) => ∃ body, Longest (Pattern.quotedTail quote) cs (body ++ [quote]) ∧
        n = body.length + 1 ∧ t = unescaped body
    | .error _ => Absent (Pattern.quotedTail quote) cs := by
  have hnil : [] ∉ Pattern.quotedTail quote := Pattern.nil_notMem_quotedTail
  fun_induction scanText quote cs with
  | case1 => exact absent_nil hnil
  | case2 cs =>
    have hnothing : Longest (1 : Language Char) cs [] := by
      refine .nil rfl fun c ds hmem _ => ?_
      cases hmem
    exact ⟨[], hnothing.cons (quotedTail_close hquote), rfl, rfl⟩
  | case3 =>
    exact (absent_nil nil_notMem_oneOf_mul).cons hnil (quotedTail_escape hquote)
  | case4 ds =>
    apply Absent.cons hnil (quotedTail_escape hquote)
    intro other hother hfront
    obtain ⟨d, es, rfl, hd, -⟩ := mem_oneOf_mul.1 hother
    obtain ⟨rfl, -⟩ := List.cons_prefix_cons.1 hfront
    cases hd
  | case5 d ds hd t n hscan _ ih =>
    rw [hscan] at ih
    have hline : decide (d ≠ '\n') = true := decide_eq_true hd
    obtain ⟨body, hlongest, rfl, rfl⟩ := ih
    refine ⟨'\\' :: d :: body, ?_, rfl, rfl⟩
    exact (hlongest.cons (cons_mem_of_class hline _)).cons (quotedTail_escape hquote)
  | case6 d ds hd n hscan _ ih =>
    rw [hscan] at ih
    have hline : decide (d ≠ '\n') = true := decide_eq_true hd
    exact (ih.cons nil_notMem_oneOf_mul (cons_mem_of_class hline _)).cons hnil
      (quotedTail_escape hquote)
  | case7 c cs hc hc' t n hscan ih =>
    rw [hscan] at ih
    obtain ⟨body, hlongest, rfl, rfl⟩ := ih
    exact ⟨c :: body, hlongest.cons (quotedTail_plain hc hc'), rfl, (unescaped_plain hc' body).symm⟩
  | case8 c cs hc hc' n hscan ih =>
    rw [hscan] at ih
    exact ih.cons hnil (quotedTail_plain hc hc')

end Texts

end Scenario.Expr
