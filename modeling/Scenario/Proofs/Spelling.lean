import Scenario.Expr.Lexer
import Scenario.Proofs.Readings

/-!
How tokens may be spelled, and that the lexer takes a spelled token back if a blank or the end of
the text stands behind it.
-/

namespace Scenario.Expr

open Lexer

/-! ### Spellings -/

def Digits (ds : List Char) : Prop := ∀ d ∈ ds, d.isDigit = true

/-- The power of ten behind a number. -/
inductive PowerSpelling : Int → List Char → Prop
  | absent : PowerSpelling 0 []
  | unsigned {e : Char} {ds : List Char} (he : e = 'e' ∨ e = 'E') (hds : Digits ds)
    (hne : ds ≠ []) : PowerSpelling (Decimal.ofDigits ds) (e :: ds)
  | positive {e : Char} {ds : List Char} (he : e = 'e' ∨ e = 'E') (hds : Digits ds)
    (hne : ds ≠ []) : PowerSpelling (Decimal.ofDigits ds) (e :: '+' :: ds)
  | negative {e : Char} {ds : List Char} (he : e = 'e' ∨ e = 'E') (hds : Digits ds)
    (hne : ds ≠ []) : PowerSpelling (-Decimal.ofDigits ds) (e :: '-' :: ds)

/-- Decimal numbers: there are digits before the point or behind it. -/
inductive NumberSpelling : Numeral → List Char → Prop
  | whole {ds ps : List Char} {power : Int} (hds : Digits ds) (hne : ds ≠ [])
    (hpower : PowerSpelling power ps) : NumberSpelling ⟨ds, [], power⟩ (ds ++ ps)
  | point {ds fs ps : List Char} {power : Int} (hds : Digits ds) (hne : ds ≠ []) (hfs : Digits fs)
    (hpower : PowerSpelling power ps) : NumberSpelling ⟨ds, fs, power⟩ (ds ++ '.' :: (fs ++ ps))
  | fraction {fs ps : List Char} {power : Int} (hfs : Digits fs) (hne : fs ≠ [])
    (hpower : PowerSpelling power ps) : NumberSpelling ⟨[], fs, power⟩ ('.' :: (fs ++ ps))

/-- Names of one or more parts, with points between them. -/
inductive NameSpelling : List Char → Prop
  | part {c : Char} {cs : List Char} (hc : startsName c = true)
    (hcs : ∀ d ∈ cs, continuesName d = true) : NameSpelling (c :: cs)
  | dotted {c : Char} {cs ds : List Char} (hc : startsName c = true)
    (hcs : ∀ d ∈ cs, continuesName d = true) (hds : NameSpelling ds) :
    NameSpelling (c :: (cs ++ '.' :: ds))

/-- Names that the language has no other use for. -/
structure ProperName (s : String) : Prop where
  spelling : NameSpelling s.toList
  ne_infinity : s ≠ "Infinity"
  ne_notANumber : s ≠ "NaN"

/-- A text between quotes, with a backslash before each quote and each backslash in it. -/
def escaped (quote : Char) : List Char → List Char
  | [] => []
  | c :: cs => if c = quote ∨ c = '\\' then '\\' :: c :: escaped quote cs else c :: escaped quote cs

def Mark.spellings : Mark → List (List Char)
  | .plus => [['+']]
  | .minus => [['-']]
  | .star => [['*']]
  | .slash => [['/']]
  | .percent => [['%']]
  | .less => [['<']]
  | .lessEq => [['<', '=']]
  | .greater => [['>']]
  | .greaterEq => [['>', '=']]
  | .equal => [['=', '='], ['=', '=', '=']]
  | .notEqual => [['!', '='], ['!', '=', '=']]
  | .both => [['&']]
  | .either => [['|']]
  | .andThen => [['&', '&']]
  | .orElse => [['|', '|']]
  | .bang => [['!']]
  | .question => [['?']]
  | .colon => [[':']]
  | .open => [['(']]
  | .close => [[')']]
  | .comma => [[',']]

inductive Spelling : Token → List Char → Prop
  | number {n : Numeral} {cs : List Char} (h : NumberSpelling n cs) :
    Spelling (.number n.decimal.nearest) cs
  | infinity : Spelling (.number infinity) "Infinity".toList
  | name {s : String} (h : ProperName s) : Spelling (.name s) s.toList
  | text {quote : Char} (hquote : quote = '"' ∨ quote = '\'') (s : String) :
    Spelling (.text s) (quote :: (escaped quote s.toList ++ [quote]))
  | mark {m : Mark} {cs : List Char} (h : cs ∈ m.spellings) : Spelling (.mark m) cs

/-- Spelled tokens with blanks between them. -/
inductive Written : List Token → List Char → Prop
  | last {t : Token} {cs : List Char} (h : Spelling t cs) : Written [t] cs
  | more {t : Token} {ts : List Token} {cs blanks ds : List Char} (h : Spelling t cs)
    (hne : blanks ≠ []) (hblanks : ∀ b ∈ blanks, isBlank b = true) (hds : Written ts ds) :
    Written (t :: ts) (cs ++ (blanks ++ ds))

/-! ### What stands behind a spelled token -/

/-- A blank or the end of the text. -/
def Apart (rest : List Char) : Prop := ∀ b ∈ rest.head?, isBlank b = true

theorem apart_nil : Apart [] := by
  rintro _ ⟨⟩

section Chars

variable {c : Char}

theorem blank_cases (h : isBlank c = true) :
    c = ' ' ∨ c = '\t' ∨ c = '\r' ∨ c = '\n' ∨ c = '\x0c' := by
  simpa [isBlank, or_assoc] using h

theorem isDigit_of_isBlank (h : isBlank c = true) : c.isDigit = false := by
  rcases blank_cases h with rfl | rfl | rfl | rfl | rfl <;> rfl

theorem continuesName_of_isBlank (h : isBlank c = true) : continuesName c = false := by
  rcases blank_cases h with rfl | rfl | rfl | rfl | rfl <;> rfl

theorem isBlank_of_isDigit (h : c.isDigit = true) : isBlank c = false := by
  rw [← Bool.not_eq_true]
  intro hblank
  rw [isDigit_of_isBlank hblank] at h
  cases h

theorem isBlank_of_startsName (h : startsName c = true) : isBlank c = false := by
  rw [← Bool.not_eq_true]
  intro hblank
  have hcontinues : continuesName c = true := by simp [continuesName, h]
  rw [continuesName_of_isBlank hblank] at hcontinues
  cases hcontinues

end Chars

/-- Neither a digit nor a point stands next. -/
def NoDigit (rest : List Char) : Prop := ∀ c ∈ rest.head?, c.isDigit = false ∧ c ≠ '.'

theorem Apart.noDigit {rest : List Char} (h : Apart rest) : NoDigit rest := by
  intro c hc
  refine ⟨isDigit_of_isBlank (h c hc), ?_⟩
  rintro rfl
  cases h '.' hc

theorem takeWhile_of_noDigit {rest : List Char} (h : NoDigit rest) :
    rest.takeWhile Char.isDigit = [] := by
  cases rest with
  | nil => rfl
  | cons c rest => simp [(h c rfl).1]

theorem dropWhile_of_noDigit {rest : List Char} (h : NoDigit rest) :
    rest.dropWhile Char.isDigit = rest := by
  cases rest with
  | nil => rfl
  | cons c rest => simp [(h c rfl).1]

theorem takeWhile_digits {ds rest : List Char} (hds : Digits ds) (h : NoDigit rest) :
    (ds ++ rest).takeWhile Char.isDigit = ds := by
  rw [List.takeWhile_append_of_pos hds, takeWhile_of_noDigit h, List.append_nil]

theorem dropWhile_digits {ds rest : List Char} (hds : Digits ds) (h : NoDigit rest) :
    (ds ++ rest).dropWhile Char.isDigit = rest := by
  rw [List.dropWhile_append_of_pos hds, dropWhile_of_noDigit h]

theorem PowerSpelling.noDigit {power : Int} {ps rest : List Char} (h : PowerSpelling power ps)
    (hrest : Apart rest) : NoDigit (ps ++ rest) := by
  cases h with
  | absent => exact hrest.noDigit
  | unsigned he | positive he | negative he =>
    rintro _ ⟨⟩
    obtain rfl | rfl := he <;> decide

/-- The sign of a power, and how many characters it takes up. -/
def powerSign : List Char → Bool × Nat
  | '-' :: _ => (true, 1)
  | '+' :: _ => (false, 1)
  | _ => (false, 0)

theorem powerSign_digit {d : Char} (h : d.isDigit = true) (cs : List Char) :
    powerSign (d :: cs) = (false, 0) := by
  unfold powerSign
  split
  · rename_i hcons
    cases hcons
    cases h
  · rename_i hcons
    cases hcons
    cases h
  · rfl

theorem powerSign_plus (cs : List Char) : powerSign ('+' :: cs) = (false, 1) := rfl

theorem powerSign_minus (cs : List Char) : powerSign ('-' :: cs) = (true, 1) := rfl

theorem scanPower_cons {e : Char} (he : e = 'e' ∨ e = 'E') (cs : List Char) :
    Numeral.scanPower (e :: cs) =
      let digits := (cs.drop (powerSign cs).2).takeWhile Char.isDigit
      if digits.isEmpty then (0, 0)
      else
        (if (powerSign cs).1 then -(Decimal.ofDigits digits : Int) else Decimal.ofDigits digits,
          1 + (powerSign cs).2 + digits.length) :=
  if_pos he

theorem scanPower_eq {e : Char} {cs ds rest : List Char} {sign : Bool × Nat}
    (he : e = 'e' ∨ e = 'E') (hds : Digits ds) (hne : ds ≠ []) (hrest : Apart rest)
    (hsign : powerSign cs = sign) (hcs : cs.drop sign.2 = ds ++ rest) :
    Numeral.scanPower (e :: cs) =
      (if sign.1 then -(Decimal.ofDigits ds : Int) else Decimal.ofDigits ds,
        1 + sign.2 + ds.length) := by
  rw [scanPower_cons he, hsign, hcs, takeWhile_digits hds hrest.noDigit]
  exact if_neg (by simpa using hne)

theorem scanPower_spelling {power : Int} {ps rest : List Char} (h : PowerSpelling power ps)
    (hrest : Apart rest) : Numeral.scanPower (ps ++ rest) = (power, ps.length) := by
  cases h with
  | absent =>
    cases rest with
    | nil => rfl
    | cons b rest =>
      have he : ¬ (b = 'e' ∨ b = 'E') := by
        rintro (rfl | rfl) <;> cases hrest _ rfl
      exact if_neg he
  | @unsigned e ds he hds hne =>
    obtain ⟨d, ds, rfl⟩ := List.exists_cons_of_ne_nil hne
    have hsign := powerSign_digit (hds d List.mem_cons_self) (ds ++ rest)
    have hscan := scanPower_eq he hds hne hrest hsign rfl
    rw [Nat.add_comm] at hscan
    exact hscan
  | @positive e ds he hds hne =>
    have hscan := scanPower_eq he hds hne hrest (powerSign_plus (ds ++ rest)) rfl
    rw [Nat.add_comm] at hscan
    exact hscan
  | @negative e ds he hds hne =>
    have hscan := scanPower_eq he hds hne hrest (powerSign_minus (ds ++ rest)) rfl
    rw [Nat.add_comm] at hscan
    exact hscan

/-! ### Numbers -/

theorem scanNumber_whole {ds ps rest : List Char} {power : Int} (hds : Digits ds)
    (hpower : PowerSpelling power ps) (hrest : Apart rest) :
    scanNumber (ds ++ (ps ++ rest)) = (⟨ds, [], power⟩, ds.length + ps.length) := by
  have hnext := hpower.noDigit hrest
  have hscan := scanPower_spelling hpower hrest
  unfold scanNumber
  rw [takeWhile_digits hds hnext, dropWhile_digits hds hnext]
  cases hback : ps ++ rest with
  | nil =>
    rw [hback] at hscan
    simp only [hscan]
  | cons c cs =>
    rw [hback] at hscan hnext
    have hpoint : c ≠ '.' := (hnext c rfl).2
    split
    · rename_i hcons
      cases hcons
      exact absurd rfl hpoint
    · simp only [hscan]

theorem scanNumber_point {ds fs ps rest : List Char} {power : Int} (hds : Digits ds)
    (hfs : Digits fs) (hpower : PowerSpelling power ps) (hrest : Apart rest) :
    scanNumber (ds ++ '.' :: (fs ++ (ps ++ rest))) =
      (⟨ds, fs, power⟩, ds.length + 1 + fs.length + ps.length) := by
  have hnext := hpower.noDigit hrest
  unfold scanNumber
  rw [List.takeWhile_append_of_pos hds, List.dropWhile_append_of_pos hds]
  simp only [List.takeWhile_cons_of_neg (p := Char.isDigit) (a := '.') (by decide),
    List.dropWhile_cons_of_neg (p := Char.isDigit) (a := '.') (by decide), List.append_nil,
    takeWhile_digits hfs hnext, dropWhile_digits hfs hnext, scanPower_spelling hpower hrest]

/-! ### Names -/

theorem nameLength_cons (c : Char) (cs : List Char) :
    nameLength (c :: cs) =
      if continuesName c then 1 + nameLength cs
      else if c = '.' then
        match cs with
        | [] => 0
        | d :: ds => if startsName d then 2 + nameLength ds else 0
      else 0 :=
  nameLength.eq_def (c :: cs)

theorem nameLength_continue {cs rest : List Char} (hcs : ∀ d ∈ cs, continuesName d = true) :
    nameLength (cs ++ rest) = cs.length + nameLength rest := by
  induction cs with
  | nil => simp
  | cons c cs ih =>
    have hc := hcs c List.mem_cons_self
    have hrest := ih fun d hd => hcs d (List.mem_cons_of_mem c hd)
    rw [List.cons_append, nameLength_cons, if_pos hc, hrest, List.length_cons]
    omega

theorem nameLength_apart {rest : List Char} (h : Apart rest) : nameLength rest = 0 := by
  cases rest with
  | nil => rfl
  | cons b rest =>
    have hb := h b rfl
    have hpoint : b ≠ '.' := by
      rintro rfl
      cases hb
    rw [nameLength_cons, if_neg (by simp [continuesName_of_isBlank hb]), if_neg hpoint]

theorem nameLength_point {d : Char} (hd : startsName d = true) (ds : List Char) :
    nameLength ('.' :: d :: ds) = 2 + nameLength ds := by
  rw [nameLength_cons, if_neg (by decide), if_pos rfl]
  exact if_pos hd

theorem nameLength_spelling {c : Char} {cs rest : List Char} (h : NameSpelling (c :: cs))
    (hrest : Apart rest) : nameLength (cs ++ rest) = cs.length := by
  generalize hname : c :: cs = name at h
  induction h generalizing c cs with
  | part _ hcs =>
    cases hname
    rw [nameLength_continue hcs, nameLength_apart hrest, Nat.add_zero]
  | @dotted c cs ds _ hcs hds ih =>
    cases hname
    cases hds with
    | @part d ds hd | @dotted d ds ds' hd =>
      rw [List.append_assoc, nameLength_continue hcs, List.cons_append, List.cons_append,
        nameLength_point hd, ih rfl]
      simp only [List.length_append, List.length_cons]
      omega

theorem NameSpelling.exists_cons {cs : List Char} (h : NameSpelling cs) :
    ∃ c ds, cs = c :: ds ∧ startsName c = true := by
  cases h with
  | part hc => exact ⟨_, _, rfl, hc⟩
  | dotted hc => exact ⟨_, _, rfl, hc⟩

theorem isDigit_of_startsName {c : Char} (h : startsName c = true) : c.isDigit = false := by
  rw [← Bool.not_eq_true]
  intro hdigit
  unfold startsName at h
  delta Char.isAlpha Char.isUpper Char.isLower at h
  delta Char.isDigit at hdigit
  simp only [Bool.or_eq_true, Bool.and_eq_true, decide_eq_true_eq, UInt32.le_iff_toNat_le,
    ge_iff_le] at h hdigit
  have hnine : c.val.toNat ≤ 57 := hdigit.2
  rcases h with ((⟨h, -⟩ | ⟨h, -⟩) | rfl) | rfl
  · have hupper : 65 ≤ c.val.toNat := h
    omega
  · have hlower : 97 ≤ c.val.toNat := h
    omega
  · revert hdigit
    decide
  · revert hdigit
    decide

/-! ### Texts -/

theorem scanText_quote (quote : Char) (cs : List Char) :
    scanText quote (quote :: cs) = .ok ([], 1) := by
  rw [scanText.eq_def]
  exact if_pos rfl

theorem scanText_escape {quote c : Char} {cs ds : List Char} {n : Nat} (hquote : '\\' ≠ quote)
    (hc : c ≠ '\n') (h : scanText quote cs = .ok (ds, n)) :
    scanText quote ('\\' :: c :: cs) = .ok (unescape c :: ds, n + 2) := by
  rw [scanText.eq_def]
  simp only [if_neg hquote, if_neg hc, h, ↓reduceIte]

theorem scanText_plain {quote c : Char} {cs ds : List Char} {n : Nat}
    (hc : ¬ (c = quote ∨ c = '\\')) (h : scanText quote cs = .ok (ds, n)) :
    scanText quote (c :: cs) = .ok (c :: ds, n + 1) := by
  obtain ⟨hne, hne'⟩ := not_or.1 hc
  rw [scanText.eq_def]
  simp only [if_neg hne, if_neg hne', h]

theorem scanText_escaped {quote : Char} (hquote : quote = '"' ∨ quote = '\'')
    (cs rest : List Char) :
    scanText quote (escaped quote cs ++ quote :: rest) =
      .ok (cs, (escaped quote cs).length + 1) := by
  have hbackslash : '\\' ≠ quote := by
    rintro rfl
    revert hquote
    decide
  induction cs with
  | nil => exact scanText_quote quote rest
  | cons c cs ih =>
    by_cases hc : c = quote ∨ c = '\\'
    · have hline : c ≠ '\n' := by
        rintro rfl
        rcases hquote with rfl | rfl <;> revert hc <;> decide
      have hunescape : unescape c = c := by
        rcases hquote with rfl | rfl <;> rcases hc with rfl | rfl <;> rfl
      rw [escaped, if_pos hc, List.cons_append, List.cons_append,
        scanText_escape hbackslash hline ih, hunescape]
      rfl
    · rw [escaped, if_neg hc, List.cons_append, scanText_plain hc ih]
      rfl

/-! ### Tokens -/

theorem scan_digit {c : Char} (h : c.isDigit = true) (cs : List Char) :
    scan c cs =
      .ok (.number (scanNumber (c :: cs)).1.decimal.nearest, (scanNumber (c :: cs)).2 - 1) :=
  if_pos h

theorem scan_point {d : Char} (h : d.isDigit = true) (ds : List Char) :
    scan '.' (d :: ds) = .ok (.number (scanNumber ('0' :: '.' :: d :: ds)).1.decimal.nearest,
      (scanNumber ('0' :: '.' :: d :: ds)).2 - 2) := by
  unfold scan
  rw [if_neg (by decide), if_neg (by decide)]
  exact if_pos h

theorem scan_name {c : Char} (h : startsName c = true) (cs : List Char) :
    scan c cs = .ok (nameToken (String.ofList (c :: cs.take (nameLength cs)))
      (cs.drop (nameLength cs)), nameLength cs) := by
  unfold scan
  rw [if_neg (by simp [isDigit_of_startsName h]), if_pos h]

theorem scan_text {quote : Char} (h : quote = '"' ∨ quote = '\'') (cs : List Char) :
    scan quote cs = (scanText quote cs).map fun (t, n) => (.text (String.ofList t), n) := by
  rcases h with rfl | rfl <;> rfl

/-- The lexer takes the token off these characters, and no others. -/
def Scans (t : Token) (cs rest : List Char) : Prop :=
  ∃ c ds, cs = c :: ds ∧ isBlank c = false ∧ scan c (ds ++ rest) = .ok (t, ds.length)

theorem scans_number {n : Numeral} {cs rest : List Char} (h : NumberSpelling n cs)
    (hrest : Apart rest) : Scans (.number n.decimal.nearest) cs rest := by
  cases h with
  | @whole ds ps power hds hne hpower =>
    obtain ⟨d, ds, rfl⟩ := List.exists_cons_of_ne_nil hne
    have hd := hds d List.mem_cons_self
    have hscan := scanNumber_whole hds hpower hrest
    rw [List.cons_append] at hscan
    refine ⟨d, ds ++ ps, rfl, isBlank_of_isDigit hd, ?_⟩
    rw [List.append_assoc, scan_digit hd, hscan]
    simp only [List.length_append, List.length_cons, Except.ok.injEq, Prod.mk.injEq]
    exact ⟨trivial, by omega⟩
  | @point ds fs ps power hds hne hfs hpower =>
    obtain ⟨d, ds, rfl⟩ := List.exists_cons_of_ne_nil hne
    have hd := hds d List.mem_cons_self
    have hscan := scanNumber_point hds hfs hpower hrest
    rw [List.cons_append] at hscan
    refine ⟨d, ds ++ '.' :: (fs ++ ps), rfl, isBlank_of_isDigit hd, ?_⟩
    rw [List.append_assoc, List.cons_append, List.append_assoc, scan_digit hd, hscan]
    simp only [List.length_append, List.length_cons, Except.ok.injEq, Prod.mk.injEq]
    exact ⟨trivial, by omega⟩
  | @fraction fs ps power hfs hne hpower =>
    obtain ⟨f, fs, rfl⟩ := List.exists_cons_of_ne_nil hne
    have hzero : Digits ['0'] := by
      rintro d hd
      obtain rfl := List.mem_singleton.1 hd
      rfl
    have hscan := scanNumber_point hzero hfs hpower hrest
    simp only [List.cons_append, List.nil_append] at hscan
    refine ⟨'.', f :: fs ++ ps, rfl, rfl, ?_⟩
    rw [List.cons_append, List.cons_append, List.append_assoc,
      scan_point (hfs f List.mem_cons_self), hscan]
    simp only [List.length_append, List.length_cons, List.length_nil, Except.ok.injEq,
      Prod.mk.injEq]
    exact ⟨rfl, by omega⟩

theorem nameToken_eq {s : String} (h : s ≠ "Infinity") (h' : s ≠ "NaN") (rest : List Char) :
    nameToken s rest = .name s := by
  unfold nameToken
  rw [if_neg h, if_neg h', ite_self]

theorem nameToken_infinity {rest : List Char} (h : Apart rest) :
    nameToken "Infinity" rest = .number infinity := by
  have hpoint : rest.head? ≠ some '.' := by
    intro hhead
    cases h _ hhead
  unfold nameToken
  rw [if_neg hpoint, if_pos rfl]

theorem scan_nameSpelling {c : Char} {cs rest : List Char} (h : NameSpelling (c :: cs))
    (hrest : Apart rest) :
    scan c (cs ++ rest) = .ok (nameToken (String.ofList (c :: cs)) rest, cs.length) := by
  have hc : startsName c = true := by
    obtain ⟨_, _, heq, hc⟩ := h.exists_cons
    cases heq
    exact hc
  rw [scan_name hc, nameLength_spelling h hrest, List.take_left, List.drop_left]

theorem scans_nameSpelling {s : String} {rest : List Char} (h : NameSpelling s.toList)
    (hrest : Apart rest) : Scans (nameToken s rest) s.toList rest := by
  obtain ⟨c, cs, hs, hc⟩ := h.exists_cons
  rw [hs] at h
  refine ⟨c, cs, hs, isBlank_of_startsName hc, ?_⟩
  rw [scan_nameSpelling h hrest, ← hs, String.ofList_toList]

theorem scans_name {s : String} {rest : List Char} (h : ProperName s) (hrest : Apart rest) :
    Scans (.name s) s.toList rest := by
  have hscans := scans_nameSpelling h.spelling hrest
  rwa [nameToken_eq h.ne_infinity h.ne_notANumber] at hscans

theorem scans_infinity {rest : List Char} (hrest : Apart rest) :
    Scans (.number infinity) "Infinity".toList rest := by
  have hletters : ∀ d ∈ ['n', 'f', 'i', 'n', 'i', 't', 'y'], continuesName d = true :=
    List.all_eq_true.1 rfl
  have hname : NameSpelling "Infinity".toList := .part rfl hletters
  have hscans := scans_nameSpelling hname hrest
  rwa [nameToken_infinity hrest] at hscans

theorem scans_text {quote : Char} (hquote : quote = '"' ∨ quote = '\'') (s : String)
    (rest : List Char) :
    Scans (.text s) (quote :: (escaped quote s.toList ++ [quote])) rest := by
  refine ⟨quote, _, rfl, by rcases hquote with rfl | rfl <;> rfl, ?_⟩
  rw [scan_text hquote, List.append_assoc, List.singleton_append, scanText_escaped hquote]
  simp [Except.map, String.ofList_toList]

theorem scans_mark {m : Mark} {cs rest : List Char} (h : cs ∈ m.spellings) (hrest : Apart rest) :
    Scans (.mark m) cs rest := by
  have hnext : rest = [] ∨ ∃ b bs, rest = b :: bs ∧ isBlank b = true := by
    cases rest with
    | nil => exact .inl rfl
    | cons b bs => exact .inr ⟨b, bs, rfl, hrest b rfl⟩
  cases m
  all_goals
    simp only [Mark.spellings, List.mem_cons, List.not_mem_nil, or_false] at h
    rcases h with rfl | rfl
    all_goals
      refine ⟨_, _, rfl, rfl, ?_⟩
      rcases hnext with rfl | ⟨b, bs, rfl, hb⟩
      · rfl
      · rcases blank_cases hb with rfl | rfl | rfl | rfl | rfl <;> rfl

theorem scans_spelling {t : Token} {cs rest : List Char} (h : Spelling t cs) (hrest : Apart rest) :
    Scans t cs rest := by
  cases h with
  | number h => exact scans_number h hrest
  | infinity => exact scans_infinity hrest
  | name h => exact scans_name h hrest
  | text hquote s => exact scans_text hquote s rest
  | mark h => exact scans_mark h hrest

/-! ### Texts of tokens -/

theorem lexFrom_blank {b : Char} (h : isBlank b = true) (offset : Nat) (cs : List Char) :
    lexFrom offset (b :: cs) = lexFrom (offset + b.utf8Size) cs := by
  rw [lexFrom, if_pos h]

theorem lexFrom_blanks {blanks : List Char} (h : ∀ b ∈ blanks, isBlank b = true) (cs : List Char) :
    ∀ offset, ∃ offset', lexFrom offset (blanks ++ cs) = lexFrom offset' cs := by
  induction blanks with
  | nil => exact fun offset => ⟨offset, rfl⟩
  | cons b blanks ih =>
    intro offset
    obtain ⟨offset', hlex⟩ := ih (fun b hb => h b (List.mem_cons_of_mem _ hb)) (offset + b.utf8Size)
    refine ⟨offset', ?_⟩
    rw [List.cons_append, lexFrom_blank (h b List.mem_cons_self), hlex]

theorem lexFrom_scans {t : Token} {cs rest : List Char} (h : Scans t cs rest) (offset : Nat) :
    ∃ stop, lexFrom offset (cs ++ rest) = (lexFrom stop rest).map (⟨t, offset, stop⟩ :: ·) := by
  obtain ⟨c, ds, rfl, hblank, hscan⟩ := h
  refine ⟨offset + width (c :: ds), ?_⟩
  rw [List.cons_append, lexFrom, if_neg (by simp [hblank]), hscan]
  simp only [List.take_left, List.drop_left]

theorem lexFrom_written {ts : List Token} {cs : List Char} (h : Written ts cs) :
    ∀ offset, ∃ ls, lexFrom offset cs = .ok ls ∧ tokensOf ls = ts := by
  induction h with
  | @last t cs h =>
    intro offset
    obtain ⟨stop, hlex⟩ := lexFrom_scans (scans_spelling h apart_nil) offset
    rw [List.append_nil] at hlex
    exact ⟨[⟨t, offset, stop⟩], by rw [hlex, lexFrom]; rfl, rfl⟩
  | @more t ts cs blanks ds h hne hblanks _ ih =>
    intro offset
    have hrest : Apart (blanks ++ ds) := by
      obtain ⟨b, blanks, rfl⟩ := List.exists_cons_of_ne_nil hne
      rintro _ ⟨⟩
      exact hblanks b List.mem_cons_self
    obtain ⟨stop, hlex⟩ := lexFrom_scans (scans_spelling h hrest) offset
    obtain ⟨stop', hskip⟩ := lexFrom_blanks hblanks ds stop
    obtain ⟨ls, hls, htokens⟩ := ih stop'
    refine ⟨⟨t, offset, stop⟩ :: ls, ?_, ?_⟩
    · rw [hlex, hskip, hls]
      rfl
    · rw [← htokens]
      rfl

theorem lex_written {ts : List Token} {text : String} (h : Written ts text.toList) :
    ∃ ls, lex text = .ok ls ∧ tokensOf ls = ts :=
  lexFrom_written h 0

end Scenario.Expr
