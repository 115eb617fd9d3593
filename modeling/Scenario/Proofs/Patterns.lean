import Mathlib.Computability.Language
import Scenario.Proofs.Spelling

/-!
The patterns of tokens, as regular languages, and the token that a text of each pattern stands for.
-/

namespace Scenario.Expr

open Lexer
open scoped Computability

/-! ### Characters and rows of them -/

section Classes

variable {p : Char → Bool} {L : Language Char} {cs ds : List Char} {c d : Char}

/-- One character of a class. -/
def oneOf (p : Char → Bool) : Language Char := {cs | ∃ c, p c = true ∧ cs = [c]}

def literal (cs : List Char) : Language Char := {cs}

theorem nil_notMem_oneOf_mul : [] ∉ oneOf p * L := by
  rw [Language.mem_mul]
  rintro ⟨_, ⟨c, -, rfl⟩, ds, -, h⟩
  cases h

theorem cons_mem_oneOf_mul : c :: cs ∈ oneOf p * L ↔ p c = true ∧ cs ∈ L := by
  rw [Language.mem_mul]
  constructor
  · rintro ⟨_, ⟨d, hd, rfl⟩, ds, hds, h⟩
    cases h
    exact ⟨hd, hds⟩
  · rintro ⟨hc, hcs⟩
    exact ⟨[c], ⟨c, hc, rfl⟩, cs, hcs, rfl⟩

theorem cons_mem_of_class (hc : p c = true) (L : Language Char) (cs : List Char) :
    c :: cs ∈ oneOf p * L ↔ cs ∈ L := by
  simp [cons_mem_oneOf_mul, hc]

theorem mem_oneOf_mul : cs ∈ oneOf p * L ↔ ∃ c ds, cs = c :: ds ∧ p c = true ∧ ds ∈ L := by
  cases cs with
  | nil => simp [nil_notMem_oneOf_mul]
  | cons c ds => simp [cons_mem_oneOf_mul]

theorem mem_literal_mul : cs ∈ literal ds * L ↔ ∃ es ∈ L, cs = ds ++ es := by
  rw [Language.mem_mul]
  constructor
  · rintro ⟨_, rfl, es, hes, rfl⟩
    exact ⟨es, hes, rfl⟩
  · rintro ⟨es, hes, rfl⟩
    exact ⟨ds, rfl, es, hes, rfl⟩

theorem cons_mem_literal_mul : c :: cs ∈ literal [d] * L ↔ c = d ∧ cs ∈ L := by
  rw [mem_literal_mul]
  constructor
  · rintro ⟨es, hes, h⟩
    cases h
    exact ⟨rfl, hes⟩
  · rintro ⟨rfl, hcs⟩
    exact ⟨cs, hcs, rfl⟩

theorem nil_notMem_literal_mul : [] ∉ literal [d] * L := by
  rw [mem_literal_mul]
  rintro ⟨es, -, h⟩
  cases h

theorem mem_oneOf_kstar : cs ∈ (oneOf p)∗ ↔ ∀ c ∈ cs, p c = true := by
  induction cs with
  | nil => simp [Language.nil_mem_kstar]
  | cons c cs ih =>
    rw [← Language.one_add_self_mul_kstar_eq_kstar, Language.mem_add, Language.mem_one,
      cons_mem_oneOf_mul, ih]
    simp

theorem mem_optional : cs ∈ 1 + L ↔ cs = [] ∨ cs ∈ L := by
  rw [Language.mem_add, Language.mem_one]

end Classes

/-! ### Declared patterns -/

namespace Pattern

def digits : Language Char := oneOf Char.isDigit * (oneOf Char.isDigit)∗

/-- The power of ten behind a number. -/
def power : Language Char :=
  oneOf (fun c => c = 'e' || c = 'E') * (1 + oneOf (fun c => c = '+' || c = '-')) * digits

def number : Language Char :=
  digits * (1 + literal ['.'] * (oneOf Char.isDigit)∗) * (1 + power)

/-- Numbers without digits before the point. -/
def fraction : Language Char := literal ['.'] * digits * (1 + power)

/-- What may stand between quotes: a backslash takes the next character with it, the end of a line
apart. -/
def quotedChar (quote : Char) : Language Char :=
  oneOf (fun c => c ≠ quote && c ≠ '\\') + literal ['\\'] * oneOf (· ≠ '\n')

def quoted (quote : Char) : Language Char :=
  literal [quote] * (quotedChar quote)∗ * literal [quote]

def name : Language Char :=
  oneOf startsName * (oneOf continuesName)∗ *
    (literal ['.'] * oneOf startsName * (oneOf continuesName)∗)∗

variable {quote c : Char} {cs : List Char}

/-- What may follow the first letter of a name. -/
def nameTail : Language Char :=
  (oneOf continuesName)∗ * (literal ['.'] * oneOf startsName * (oneOf continuesName)∗)∗

/-- What may follow an opening quote. -/
def quotedTail (quote : Char) : Language Char := (quotedChar quote)∗ * literal [quote]

theorem cons_mem_name : c :: cs ∈ name ↔ startsName c = true ∧ cs ∈ nameTail := by
  rw [name, mul_assoc, cons_mem_oneOf_mul, nameTail]

theorem cons_mem_quoted : c :: cs ∈ quoted quote ↔ c = quote ∧ cs ∈ quotedTail quote := by
  rw [quoted, mul_assoc, cons_mem_literal_mul, quotedTail]

theorem nil_notMem_quoted : [] ∉ quoted quote := by
  rw [quoted, mul_assoc]
  exact nil_notMem_literal_mul

theorem nameTail_eq :
    nameTail =
      1 + literal ['.'] * (oneOf startsName * nameTail) + oneOf continuesName * nameTail := by
  unfold nameTail
  generalize hpart : literal ['.'] * oneOf startsName * (oneOf continuesName)∗ = part
  generalize oneOf continuesName = letter at *
  calc letter∗ * part∗
      = (1 + letter * letter∗) * part∗ := by rw [Language.one_add_self_mul_kstar_eq_kstar]
    _ = part∗ + letter * (letter∗ * part∗) := by rw [add_mul, one_mul, mul_assoc]
    _ = 1 + part * part∗ + letter * (letter∗ * part∗) := by
        rw [Language.one_add_self_mul_kstar_eq_kstar]
    _ = 1 + literal ['.'] * (oneOf startsName * (letter∗ * part∗)) +
          letter * (letter∗ * part∗) := by
        nth_rewrite 1 [← hpart]
        simp only [mul_assoc]

theorem quotedTail_eq :
    quotedTail quote =
      literal [quote] + (oneOf (fun c => c ≠ quote && c ≠ '\\') * quotedTail quote +
        literal ['\\'] * (oneOf (· ≠ '\n') * quotedTail quote)) := by
  have hchar : ∀ L : Language Char, quotedChar quote * L =
      oneOf (fun c => c ≠ quote && c ≠ '\\') * L + literal ['\\'] * (oneOf (· ≠ '\n') * L) := by
    intro L
    rw [quotedChar, add_mul, mul_assoc]
  calc quotedTail quote
      = (1 + quotedChar quote * (quotedChar quote)∗) * literal [quote] := by
        rw [Language.one_add_self_mul_kstar_eq_kstar, quotedTail]
    _ = literal [quote] + quotedChar quote * quotedTail quote := by
        rw [add_mul, one_mul, mul_assoc, quotedTail]
    _ = _ := by rw [hchar]

theorem nil_mem_nameTail : [] ∈ nameTail := by
  rw [nameTail_eq]
  exact .inl (.inl rfl)

theorem cons_mem_nameTail :
    c :: cs ∈ nameTail ↔ (c = '.' ∧ cs ∈ oneOf startsName * nameTail) ∨
      (continuesName c = true ∧ cs ∈ nameTail) := by
  rw [nameTail_eq, Language.mem_add, Language.mem_add, Language.mem_one, ← nameTail_eq,
    cons_mem_literal_mul, cons_mem_oneOf_mul]
  simp

theorem nil_notMem_quotedTail : [] ∉ quotedTail quote := by
  rw [quotedTail_eq, Language.mem_add, Language.mem_add]
  rintro (h | h | h)
  · cases h
  · exact nil_notMem_oneOf_mul h
  · exact nil_notMem_literal_mul h

theorem cons_mem_quotedTail :
    c :: cs ∈ quotedTail quote ↔ (c = quote ∧ cs = []) ∨
      ((c ≠ quote ∧ c ≠ '\\') ∧ cs ∈ quotedTail quote) ∨
      (c = '\\' ∧ cs ∈ oneOf (· ≠ '\n') * quotedTail quote) := by
  have hquote : c :: cs ∈ literal [quote] ↔ c = quote ∧ cs = [] := List.cons_eq_cons
  rw [quotedTail_eq, Language.mem_add, Language.mem_add, ← quotedTail_eq, hquote,
    cons_mem_oneOf_mul, cons_mem_literal_mul]
  simp

theorem mem_digits : cs ∈ digits ↔ cs ≠ [] ∧ Digits cs := by
  cases cs with
  | nil => simp [digits, nil_notMem_oneOf_mul]
  | cons c cs => simp [digits, cons_mem_oneOf_mul, mem_oneOf_kstar, Digits]

theorem mem_power :
    cs ∈ power ↔ ∃ e sign ds, cs = e :: (sign ++ ds) ∧ (e = 'e' ∨ e = 'E') ∧
      (sign = [] ∨ sign = ['+'] ∨ sign = ['-']) ∧ ds ∈ digits := by
  rw [power, mul_assoc, mem_oneOf_mul]
  simp only [Language.mem_mul, mem_optional]
  constructor
  · rintro ⟨e, es, rfl, he, sign, hsign, ds, hds, rfl⟩
    refine ⟨e, sign, ds, rfl, by simpa using he, ?_, hds⟩
    obtain rfl | ⟨s, hs, rfl⟩ := hsign
    · exact .inl rfl
    · simpa using hs
  · rintro ⟨e, sign, ds, rfl, he, hsign, hds⟩
    refine ⟨e, _, rfl, by simpa using he, sign, ?_, ds, hds, rfl⟩
    obtain rfl | rfl | rfl := hsign
    · exact .inl rfl
    · exact .inr ⟨'+', rfl, rfl⟩
    · exact .inr ⟨'-', rfl, rfl⟩

theorem mem_optional_power : cs ∈ 1 + power ↔ ∃ exponent, PowerSpelling exponent cs := by
  rw [mem_optional, mem_power]
  constructor
  · rintro (rfl | ⟨e, sign, ds, rfl, he, hsign, hds⟩)
    · exact ⟨_, .absent⟩
    · obtain ⟨hne, hds⟩ := mem_digits.1 hds
      obtain rfl | rfl | rfl := hsign
      · exact ⟨_, .unsigned he hds hne⟩
      · exact ⟨_, .positive he hds hne⟩
      · exact ⟨_, .negative he hds hne⟩
  · rintro ⟨_, h⟩
    cases h with
    | absent => exact .inl rfl
    | unsigned he hds hne => exact .inr ⟨_, [], _, rfl, he, by simp, mem_digits.2 ⟨hne, hds⟩⟩
    | positive he hds hne => exact .inr ⟨_, ['+'], _, rfl, he, by simp, mem_digits.2 ⟨hne, hds⟩⟩
    | negative he hds hne => exact .inr ⟨_, ['-'], _, rfl, he, by simp, mem_digits.2 ⟨hne, hds⟩⟩

theorem spelling_of_number (h : cs ∈ number) : ∃ n, NumberSpelling n cs := by
  obtain ⟨_, ⟨ds, hds, fs, hfs, rfl⟩, ps, hps, rfl⟩ := h
  obtain ⟨hne, hds⟩ := mem_digits.1 hds
  obtain ⟨_, hps⟩ := mem_optional_power.1 hps
  obtain rfl | hfs := mem_optional.1 hfs
  · simp only [List.append_nil]
    exact ⟨_, .whole hds hne hps⟩
  · obtain ⟨gs, hgs, rfl⟩ := mem_literal_mul.1 hfs
    simp only [List.append_assoc, List.cons_append, List.nil_append]
    exact ⟨_, .point hds hne (mem_oneOf_kstar.1 hgs) hps⟩

theorem spelling_of_fraction (h : cs ∈ fraction) : ∃ n, NumberSpelling n cs := by
  obtain ⟨_, hpoint, ps, hps, rfl⟩ := h
  obtain ⟨fs, hfs, rfl⟩ := mem_literal_mul.1 hpoint
  obtain ⟨hne, hdigits⟩ := mem_digits.1 hfs
  obtain ⟨_, hpower⟩ := mem_optional_power.1 hps
  simp only [List.cons_append, List.nil_append]
  exact ⟨_, .fraction hdigits hne hpower⟩

theorem mem_number_add_fraction :
    cs ∈ number + fraction ↔ ∃ n, NumberSpelling n cs := by
  rw [Language.mem_add]
  constructor
  · rintro (h | h)
    · exact spelling_of_number h
    · exact spelling_of_fraction h
  · rintro ⟨n, h⟩
    cases h with
    | @whole ds ps power hds hne hpower =>
      left
      refine Language.append_mem_mul ?_ (mem_optional_power.2 ⟨_, hpower⟩)
      rw [← List.append_nil ds]
      exact Language.append_mem_mul (mem_digits.2 ⟨hne, hds⟩) (mem_optional.2 (.inl rfl))
    | @point ds fs ps power hds hne hfs hpower =>
      left
      rw [← List.cons_append, ← List.append_assoc]
      refine Language.append_mem_mul ?_ (mem_optional_power.2 ⟨_, hpower⟩)
      apply Language.append_mem_mul (mem_digits.2 ⟨hne, hds⟩)
      exact mem_optional.2 (.inr (cons_mem_literal_mul.2 ⟨rfl, mem_oneOf_kstar.2 hfs⟩))
    | @fraction fs ps power hfs hne hpower =>
      right
      rw [← List.cons_append]
      refine Language.append_mem_mul ?_ (mem_optional_power.2 ⟨_, hpower⟩)
      exact cons_mem_literal_mul.2 ⟨rfl, mem_digits.2 ⟨hne, hfs⟩⟩

end Pattern

/-- A text in quotes without them and without its escapes. -/
def unescaped : List Char → List Char
  | [] => []
  | ['\\'] => []
  | '\\' :: c :: cs => unescape c :: unescaped cs
  | c :: cs => c :: unescaped cs

/-- The kinds of tokens: each has a pattern of its own. -/
inductive Rule
  | number | fraction | infinity | notANumber
  | doubleQuoted | singleQuoted
  | name
  | mark (m : Mark)

namespace Rule

def pattern : Rule → Language Char
  | .number => Pattern.number
  | .fraction => Pattern.fraction
  | .infinity => literal "Infinity".toList
  | .notANumber => literal "NaN".toList
  | .doubleQuoted => Pattern.quoted '"'
  | .singleQuoted => Pattern.quoted '\''
  | .name => Pattern.name
  | .mark m => {cs | cs ∈ m.spellings}

/-- The token that a text of the pattern stands for. -/
def token : Rule → List Char → Token
  | .number, cs | .fraction, cs => .number (scanNumber cs).1.decimal.nearest
  | .infinity, _ => .number Scenario.infinity
  | .notANumber, _ => .number Scenario.notANumber
  | .doubleQuoted, cs | .singleQuoted, cs => .text (String.ofList (unescaped cs.tail.dropLast))
  | .name, cs => .name (String.ofList cs)
  | .mark m, _ => .mark m

end Rule

/-- The texts of tokens. -/
def lexical : Language Char := {cs | ∃ r : Rule, cs ∈ r.pattern}

/-! ### First characters -/

/-- What a character tells of the token that begins with it. -/
inductive Lead
  | digit | letter | point | doubleQuote | singleQuote | other
deriving DecidableEq

def Lead.ofChar (c : Char) : Lead :=
  if c.isDigit then .digit
  else if startsName c then .letter
  else if c = '.' then .point
  else if c = '"' then .doubleQuote
  else if c = '\'' then .singleQuote
  else .other

def Rule.lead : Rule → Lead
  | .number => .digit
  | .fraction => .point
  | .infinity | .notANumber | .name => .letter
  | .doubleQuoted => .doubleQuote
  | .singleQuoted => .singleQuote
  | .mark _ => .other

theorem Lead.ofChar_letter {c : Char} (h : startsName c = true) : Lead.ofChar c = .letter := by
  rw [Lead.ofChar, isDigit_of_startsName h, h]
  rfl

theorem Mark.eq_of_spelling {m m' : Mark} {cs : List Char} (h : cs ∈ m.spellings)
    (h' : cs ∈ m'.spellings) : m = m' := by
  obtain ⟨c, ds, rfl, -, hscan⟩ := scans_mark h apart_nil
  obtain ⟨_, _, ⟨⟩, -, hscan'⟩ := scans_mark h' apart_nil
  rw [hscan] at hscan'
  cases hscan'
  rfl

namespace Rule

variable {r r' : Rule} {cs : List Char}

/-- The texts of a rule are not empty, and their first characters tell the rules apart. -/
theorem exists_lead (h : cs ∈ r.pattern) : ∃ c ds, cs = c :: ds ∧ Lead.ofChar c = r.lead := by
  cases r with
  | number =>
    change cs ∈ Pattern.number at h
    rw [Pattern.number, Pattern.digits, mul_assoc, mul_assoc, mem_oneOf_mul] at h
    obtain ⟨c, ds, rfl, hc, -⟩ := h
    exact ⟨c, ds, rfl, if_pos hc⟩
  | fraction =>
    change cs ∈ Pattern.fraction at h
    rw [Pattern.fraction, mul_assoc, mem_literal_mul] at h
    obtain ⟨ds, -, rfl⟩ := h
    exact ⟨'.', ds, rfl, rfl⟩
  | infinity => exact ⟨_, _, h, rfl⟩
  | notANumber => exact ⟨_, _, h, rfl⟩
  | doubleQuoted | singleQuoted =>
    change cs ∈ Pattern.quoted _ at h
    rw [Pattern.quoted, mul_assoc, mem_literal_mul] at h
    obtain ⟨ds, -, rfl⟩ := h
    exact ⟨_, ds, rfl, rfl⟩
  | name =>
    change cs ∈ Pattern.name at h
    rw [Pattern.name, mul_assoc, mem_oneOf_mul] at h
    obtain ⟨c, ds, rfl, hc, -⟩ := h
    exact ⟨c, ds, rfl, Lead.ofChar_letter hc⟩
  | mark m =>
    change cs ∈ m.spellings at h
    cases m
    all_goals
      simp only [Mark.spellings, List.mem_cons, List.not_mem_nil, or_false] at h
      rcases h with rfl | rfl <;> exact ⟨_, _, rfl, rfl⟩

theorem lead_eq (h : cs ∈ r.pattern) (h' : cs ∈ r'.pattern) : r.lead = r'.lead := by
  obtain ⟨c, ds, rfl, hc⟩ := exists_lead h
  obtain ⟨_, _, ⟨⟩, hc'⟩ := exists_lead h'
  exact hc.symm.trans hc'

/-- Apart from the names of numbers, a text of two rules is the same token by both. -/
theorem token_eq (h : cs ∈ r.pattern) (h' : cs ∈ r'.pattern) (hinfinity : cs ≠ "Infinity".toList)
    (hnotANumber : cs ≠ "NaN".toList) : r.token cs = r'.token cs := by
  have hlead := lead_eq h h'
  cases r with
  | number | fraction | doubleQuoted | singleQuoted => cases r' <;> first | rfl | cases hlead
  | infinity => exact absurd h hinfinity
  | notANumber => exact absurd h hnotANumber
  | name =>
    cases r' with
    | name => rfl
    | infinity => exact absurd h' hinfinity
    | notANumber => exact absurd h' hnotANumber
    | _ => cases hlead
  | mark m =>
    cases r' with
    | mark m' => exact congrArg Token.mark (Mark.eq_of_spelling h h')
    | _ => cases hlead

end Rule

end Scenario.Expr
