import Scenario.Proofs.LongestMatch

/-!
The token at the start of a text: the lexer takes the longest text that any pattern matches, and
where it takes nothing, no pattern matches. The text taken tells the token, but for the names of
numbers.
-/

namespace Scenario.Expr

open Lexer

/-! ### What is found -/

/-- What is read at the start of `cs`: the longest text of a token, as the token that it stands for.
`Infinity` and `NaN` are numbers, though names are spelled like that too, unless a point stands
right behind them. -/
structure Munches (cs text : List Char) (t : Token) : Prop extends Longest lexical cs text where
  rule : ∃ r : Rule, text ∈ r.pattern ∧ t = r.token text
  number_iff : text = "Infinity".toList ∨ text = "NaN".toList →
    ((∃ x, t = .number x) ↔ (cs.drop text.length).head? ≠ some '.')

/-- What the lexer may find where `c` stands before `cs`: a token, with the count of its characters
behind `c`, or that there is none. -/
inductive Finds (c : Char) (cs : List Char) : Except Nat (Token × Nat) → Prop
  | token {text : List Char} {t : Token} (h : Munches (c :: cs) (c :: text) t) :
    Finds c cs (.ok (t, text.length))
  | nothing {n : Nat} (h : Absent lexical (c :: cs)) : Finds c cs (.error n)

section Scanning

variable {c quote : Char} {cs other text : List Char} {L : Language Char} {r : Rule}

section Leads

variable (hL : ∀ r : Rule, r.lead = Lead.ofChar c → ∀ text ∈ r.pattern, text ∈ L)

include hL

theorem mem_of_lexical (hother : other ∈ lexical) (h : other <+: c :: cs) : other ∈ L := by
  obtain ⟨r, hr⟩ := hother
  obtain ⟨d, ds, rfl, hlead⟩ := Rule.exists_lead hr
  obtain ⟨rfl, -⟩ := List.cons_prefix_cons.1 h
  exact hL r hlead.symm _ hr

theorem Longest.lexical (h : Longest L (c :: cs) text) (hr : text ∈ r.pattern) :
    Longest lexical (c :: cs) text where
  atStart := h.atStart
  mem := ⟨r, hr⟩
  length_le other hother hfront := h.length_le other (mem_of_lexical hL hother hfront) hfront

theorem Absent.lexical (h : Absent L (c :: cs)) : Absent lexical (c :: cs) := by
  intro other hother hfront
  exact h other (mem_of_lexical hL hother hfront) hfront

end Leads

theorem word_lead (h : c :: text = "Infinity".toList ∨ c :: text = "NaN".toList) :
    Lead.ofChar c = .letter := by
  obtain h | h := h <;> cases h <;> rfl

theorem scanNumber_eq_of_spelling {n : Numeral} (h : NumberSpelling n cs) :
    scanNumber cs = (n, cs.length) := by
  cases h with
  | @whole ds ps power hds hne hpower =>
    have hscan := scanNumber_whole hds hpower apart_nil
    rw [List.append_nil] at hscan
    rw [hscan, List.length_append]
  | @point ds fs ps power hds hne hfs hpower =>
    have hscan := scanNumber_point hds hfs hpower apart_nil
    rw [List.append_nil] at hscan
    rw [hscan]
    simp only [List.length_append, List.length_cons, Prod.mk.injEq, true_and]
    omega
  | @fraction fs ps power hfs hne hpower =>
    have hnone : Digits [] := by simp [Digits]
    have hscan := scanNumber_point hnone hfs hpower apart_nil
    rw [List.append_nil, List.nil_append] at hscan
    rw [hscan]
    simp only [List.length_append, List.length_cons, List.length_nil, Prod.mk.injEq, true_and]
    omega

theorem number_pattern (hlead : Lead.ofChar c = .digit ∨ Lead.ofChar c = .point) (r : Rule)
    (hr : r.lead = Lead.ofChar c) :
    ∀ text ∈ r.pattern, text ∈ Pattern.number + Pattern.fraction := by
  rw [← hr] at hlead
  cases r with
  | number => exact fun _ h => .inl h
  | fraction => exact fun _ h => .inr h
  | _ => obtain h | h := hlead <;> cases h

theorem finds_number (hlead : Lead.ofChar c = .digit ∨ Lead.ofChar c = .point)
    (h : StartsNumber (c :: cs)) :
    Finds c cs (.ok (.number (scanNumber (c :: cs)).1.decimal.nearest,
      (scanNumber (c :: cs)).2 - 1)) := by
  obtain ⟨text, hstart, hspelling, hlength, hle⟩ := scanNumber_spelling h
  have hmem := Pattern.mem_number_add_fraction.2 ⟨_, hspelling⟩
  have hlongest : Longest (Pattern.number + Pattern.fraction) (c :: cs) text := by
    refine ⟨hstart, hmem, fun other hother => ?_⟩
    obtain ⟨n, hn⟩ := Pattern.mem_number_add_fraction.1 hother
    exact hle n other hn
  obtain ⟨r, hr, htoken⟩ : ∃ r : Rule, text ∈ r.pattern ∧
      Token.number (scanNumber (c :: cs)).1.decimal.nearest = r.token text := by
    have hvalue := congrArg (fun x => Token.number x.1.decimal.nearest)
      (scanNumber_eq_of_spelling hspelling)
    obtain hmem | hmem := hmem
    · exact ⟨.number, hmem, hvalue.symm⟩
    · exact ⟨.fraction, hmem, hvalue.symm⟩
  have hlexical := hlongest.lexical (number_pattern hlead) hr
  obtain ⟨d, ds, rfl, -⟩ := Rule.exists_lead hr
  obtain ⟨rfl, -⟩ := List.cons_prefix_cons.1 hstart
  rw [hlength]
  refine .token ⟨hlexical, ⟨r, hr, htoken⟩, fun hword => ?_⟩
  rw [word_lead hword] at hlead
  obtain h | h := hlead <;> cases h

theorem startsNumber_digit (hc : c.isDigit = true) (cs : List Char) : StartsNumber (c :: cs) := by
  left
  rw [List.takeWhile_cons_of_pos hc]
  exact List.cons_ne_nil _ _

theorem finds_digit (hc : c.isDigit = true) (cs : List Char) : Finds c cs (scan c cs) := by
  rw [scan_digit hc]
  exact finds_number (.inl (if_pos hc)) (startsNumber_digit hc cs)

theorem NumberSpelling.startsNumber {n : Numeral} (h : NumberSpelling n other)
    (hfront : other <+: cs) : StartsNumber cs := by
  have hstarts : ∀ ds es rest, Digits ds → ds ≠ [] →
      (ds ++ es ++ rest).takeWhile Char.isDigit ≠ [] := by
    intro ds es rest hds hne
    rw [List.append_assoc, List.takeWhile_append_of_pos hds]
    exact List.append_ne_nil_of_left_ne_nil hne _
  obtain ⟨rest, rfl⟩ := hfront
  cases h with
  | whole hds hne _ => exact .inl (hstarts _ _ rest hds hne)
  | point hds hne _ _ => exact .inl (hstarts _ _ rest hds hne)
  | fraction hfs hne _ => exact .inr ⟨_, rfl, hstarts _ _ rest hfs hne⟩

/-- A number without digits before the point is read as if a zero stood there. -/
theorem scan_point_eq {d : Char} (hd : d.isDigit = true) (ds : List Char) :
    scan '.' (d :: ds) = .ok (.number (scanNumber ('.' :: d :: ds)).1.decimal.nearest,
      (scanNumber ('.' :: d :: ds)).2 - 1) := by
  have hbehind : ('0' :: '.' :: d :: ds).dropWhile Char.isDigit = '.' :: d :: ds := rfl
  have hbehind' : ('.' :: d :: ds).dropWhile Char.isDigit = '.' :: d :: ds := rfl
  have hzero : ('0' :: '.' :: d :: ds).takeWhile Char.isDigit = ['0'] := rfl
  have hnone : ('.' :: d :: ds).takeWhile Char.isDigit = [] := rfl
  rw [scan_point hd, scanNumber_eq_point hbehind, scanNumber_eq_point hbehind']
  simp only [Except.ok.injEq, Prod.mk.injEq]
  refine ⟨rfl, ?_⟩
  rw [hzero, hnone, List.length_singleton, List.length_nil]
  omega

theorem finds_point (cs : List Char) : Finds '.' cs (scan '.' cs) := by
  have hpoint : Lead.ofChar '.' = .digit ∨ Lead.ofChar '.' = .point := .inr rfl
  by_cases hnumber : StartsNumber ('.' :: cs)
  · obtain ⟨d, ds, rfl, hd⟩ : ∃ d ds, cs = d :: ds ∧ d.isDigit = true := by
      obtain h | ⟨_, ⟨⟩, h⟩ := hnumber
      · exact absurd rfl h
      · cases cs with
        | nil => exact absurd rfl h
        | cons d ds => exact ⟨d, ds, rfl, by_contra fun hd => h (List.takeWhile_cons_of_neg hd)⟩
    rw [scan_point_eq hd]
    exact finds_number hpoint hnumber
  · have hscan : scan '.' cs = .error 0 := by
      cases cs with
      | nil => rfl
      | cons d ds =>
        have hd : ¬ d.isDigit = true := fun hd =>
          hnumber (.inr ⟨_, rfl, by rw [List.takeWhile_cons_of_pos hd]; exact List.cons_ne_nil _ _⟩)
        unfold scan
        rw [if_neg (by decide), if_neg (by decide)]
        exact if_neg hd
    rw [hscan]
    refine .nothing (Absent.lexical (number_pattern hpoint) fun other hother hfront => ?_)
    obtain ⟨n, hn⟩ := Pattern.mem_number_add_fraction.1 hother
    exact hnumber (hn.startsNumber hfront)

theorem mem_name_of_letters {c : Char} {cs : List Char} (hc : startsName c = true)
    (hcs : ∀ d ∈ cs, continuesName d = true) : c :: cs ∈ Pattern.name := by
  refine Pattern.cons_mem_name.2 ⟨hc, ?_⟩
  induction cs with
  | nil => exact Pattern.nil_mem_nameTail
  | cons d cs ih =>
    rw [nameTail_letter (hcs d List.mem_cons_self)]
    exact ih fun e he => hcs e (List.mem_cons_of_mem d he)

theorem name_pattern (hc : startsName c = true) (r : Rule) (hr : r.lead = Lead.ofChar c) :
    ∀ text ∈ r.pattern, text ∈ Pattern.name := by
  rw [Lead.ofChar_letter hc] at hr
  cases r with
  | name => exact fun _ h => h
  | infinity | notANumber =>
    rintro _ rfl
    exact mem_name_of_letters rfl (List.all_eq_true.1 rfl)
  | _ => cases hr

theorem finds_name (hc : startsName c = true) (cs : List Char) : Finds c cs (scan c cs) := by
  obtain ⟨text, hlongest, hlength⟩ := nameLength_longest cs
  have hname : Longest Pattern.name (c :: cs) (c :: text) := by
    apply hlongest.cons
    intro ds
    rw [Pattern.cons_mem_name, hc]
    simp
  have hlexical : Longest lexical (c :: cs) (c :: text) :=
    Longest.lexical (r := .name) (name_pattern hc) hname hname.mem
  obtain ⟨rest, rfl⟩ := hlongest.atStart
  rw [scan_name hc, hlength, List.take_left, List.drop_left]
  have hspelled : ∀ s : String, String.ofList (c :: text) = s ↔ c :: text = s.toList :=
    fun s => ⟨fun h => by rw [← h, String.toList_ofList], fun h => by rw [h, String.ofList_toList]⟩
  refine .token ⟨hlexical, ?_, ?_⟩
  · unfold nameToken
    split_ifs with _ hinfinity hnotANumber
    · exact ⟨.name, hname.mem, rfl⟩
    · exact ⟨.infinity, (hspelled _).1 hinfinity, rfl⟩
    · exact ⟨.notANumber, (hspelled _).1 hnotANumber, rfl⟩
    · exact ⟨.name, hname.mem, rfl⟩
  · intro hword
    rw [← hspelled, ← hspelled] at hword
    rw [← List.cons_append, List.drop_left]
    unfold nameToken
    split_ifs with hpoint hinfinity hnotANumber
    · simp [hpoint]
    · exact ⟨fun _ => hpoint, fun _ => ⟨_, rfl⟩⟩
    · exact ⟨fun _ => hpoint, fun _ => ⟨_, rfl⟩⟩
    · exact absurd hword (not_or.2 ⟨hinfinity, hnotANumber⟩)

/-- Each kind of quotes has a rule of its own. -/
theorem exists_quoted_rule (hquote : quote = '"' ∨ quote = '\'') :
    ∃ r : Rule, r.pattern = Pattern.quoted quote ∧
      (∀ text, r.token text = .text (String.ofList (unescaped text.tail.dropLast))) ∧
      ∀ r' : Rule, r'.lead = Lead.ofChar quote →
        ∀ text ∈ r'.pattern, text ∈ Pattern.quoted quote := by
  obtain rfl | rfl := hquote
  · refine ⟨.doubleQuoted, rfl, fun _ => rfl, fun r' hr' => ?_⟩
    cases r' <;> first | exact fun _ h => h | cases hr'
  · refine ⟨.singleQuoted, rfl, fun _ => rfl, fun r' hr' => ?_⟩
    cases r' <;> first | exact fun _ h => h | cases hr'

theorem finds_text (hquote : quote = '"' ∨ quote = '\'') (cs : List Char) :
    Finds quote cs (scan quote cs) := by
  have hbackslash : '\\' ≠ quote := by
    rintro rfl
    revert hquote
    decide
  have hquoted : ∀ ds, quote :: ds ∈ Pattern.quoted quote ↔ ds ∈ Pattern.quotedTail quote := by
    intro ds
    simp [Pattern.cons_mem_quoted]
  obtain ⟨r, hr, htoken, hpattern⟩ := exists_quoted_rule hquote
  have hscan := scanText_longest hbackslash cs
  rw [scan_text hquote]
  split at hscan
  · rename_i t n heq
    obtain ⟨body, hlongest, rfl, rfl⟩ := hscan
    have htext := hlongest.cons hquoted
    have hlexical := Longest.lexical hpattern htext (hr ▸ htext.mem)
    have hlength : body.length + 1 = (body ++ [quote]).length := by simp
    rw [heq, hlength]
    refine .token ⟨hlexical, ⟨r, hr ▸ htext.mem, ?_⟩, fun hword => ?_⟩
    · simp [htoken]
    · have hlead := word_lead hword
      obtain rfl | rfl := hquote <;> cases hlead
  · rename_i n heq
    rw [heq]
    exact .nothing (Absent.lexical hpattern (hscan.cons Pattern.nil_notMem_quoted hquoted))

def markTexts : Language Char := {cs | ∃ m : Mark, cs ∈ m.spellings}

theorem mark_pattern (hlead : Lead.ofChar c = .other) (r : Rule) (hr : r.lead = Lead.ofChar c) :
    ∀ text ∈ r.pattern, text ∈ markTexts := by
  rw [hlead] at hr
  cases r with
  | mark m => exact fun _ h => ⟨m, h⟩
  | _ => cases hr

/-- Where a mark stands, a mark is read that is no shorter. -/
theorem scan_of_mark (hother : other ∈ markTexts) (hfront : other <+: c :: cs) :
    ∃ t n, scan c cs = .ok (t, n) ∧ other.length ≤ n + 1 := by
  obtain ⟨m, h⟩ := hother
  cases m
  all_goals
    simp only [Mark.spellings, List.mem_cons, List.not_mem_nil, or_false] at h
    rcases h with rfl | rfl
    all_goals
      obtain ⟨rest, hrest⟩ := hfront
      simp only [List.cons_append, List.nil_append, List.cons.injEq] at hrest
      obtain ⟨rfl, rfl⟩ := hrest
      -- marks that another mark goes on with depend on what stands next
      first
      | exact ⟨_, _, rfl, by decide⟩
      | unfold scan
        rw [if_neg (by decide), if_neg (by decide)]
        split <;> simp_all

theorem mark_of_scan {t : Token} {n : Nat} (hdigit : ¬ c.isDigit = true)
    (hletter : ¬ startsName c = true) (hpoint : c ≠ '.') (hdouble : c ≠ '"') (hsingle : c ≠ '\'')
    (h : scan c cs = .ok (t, n)) :
    ∃ m text, t = .mark m ∧ c :: text ∈ m.spellings ∧ text <+: cs ∧ n = text.length := by
  unfold scan at h
  rw [if_neg hdigit, if_neg hletter] at h
  split at h
  case h_1 => exact absurd rfl hpoint
  case h_2 => exact absurd rfl hdouble
  case h_3 => exact absurd rfl hsingle
  all_goals
    cases h
    try first
    | exact ⟨_, [], rfl, .head _, List.nil_prefix, rfl⟩
    | exact ⟨_, [_], rfl, .head _, ⟨_, rfl⟩, rfl⟩
    | exact ⟨_, [_, _], rfl, .tail _ (.head _), ⟨_, rfl⟩, rfl⟩

theorem finds_mark (hdigit : ¬ c.isDigit = true) (hletter : ¬ startsName c = true)
    (hpoint : c ≠ '.') (hdouble : c ≠ '"') (hsingle : c ≠ '\'') (cs : List Char) :
    Finds c cs (scan c cs) := by
  have hlead : Lead.ofChar c = .other := by
    unfold Lead.ofChar
    rw [if_neg hdigit, if_neg hletter, if_neg hpoint, if_neg hdouble, if_neg hsingle]
  cases hscan : scan c cs with
  | error n =>
    refine .nothing (Absent.lexical (mark_pattern hlead) fun other hother hfront => ?_)
    obtain ⟨t, n', hok, -⟩ := scan_of_mark hother hfront
    rw [hok] at hscan
    cases hscan
  | ok found =>
    obtain ⟨t, n⟩ := found
    obtain ⟨m, text, rfl, hspelling, hfront, rfl⟩ :=
      mark_of_scan hdigit hletter hpoint hdouble hsingle hscan
    have hmark : Longest markTexts (c :: cs) (c :: text) := by
      refine ⟨(List.prefix_cons_inj c).2 hfront, ⟨m, hspelling⟩, fun other hother hother' => ?_⟩
      obtain ⟨t, n, hok, hle⟩ := scan_of_mark hother hother'
      rw [hok] at hscan
      cases hscan
      exact hle
    have hlexical := Longest.lexical (r := .mark m) (mark_pattern hlead) hmark hspelling
    refine .token ⟨hlexical, ⟨.mark m, hspelling, rfl⟩, fun hword => ?_⟩
    rw [word_lead hword] at hlead
    cases hlead

/-- The lexer takes the longest token, and fails only where there is none. -/
theorem finds_scan (c : Char) (cs : List Char) : Finds c cs (scan c cs) := by
  by_cases hdigit : c.isDigit = true
  · exact finds_digit hdigit cs
  by_cases hletter : startsName c = true
  · exact finds_name hletter cs
  by_cases hpoint : c = '.'
  · rw [hpoint]
    exact finds_point cs
  by_cases hquote : c = '"' ∨ c = '\''
  · exact finds_text hquote cs
  obtain ⟨hdouble, hsingle⟩ := not_or.1 hquote
  exact finds_mark hdigit hletter hpoint hdouble hsingle cs

end Scanning

/-! ### Tokens are told by their texts -/

section Told

variable {cs ds rest text : List Char} {t t' x : Token} {s : String} {c : Char}

/-- The names that numbers have. -/
inductive NamesNumber : Token → Token → Prop
  | infinity : NamesNumber (.name "Infinity") (.number infinity)
  | notANumber : NamesNumber (.name "NaN") (.number notANumber)

theorem NamesNumber.rule_token (h : NamesNumber (.name s) x) {r : Rule}
    (hr : s.toList ∈ r.pattern) : r.token s.toList = .name s ∨ r.token s.toList = x := by
  obtain ⟨_, _, hcons, hlead⟩ := Rule.exists_lead hr
  cases h
  all_goals
    cases hcons
    cases r with
    | name => exact .inl (congrArg Token.name String.ofList_toList)
    | infinity => first | exact .inr rfl | cases hr
    | notANumber => first | exact .inr rfl | cases hr
    | _ => cases hlead

theorem Munches.token_of_word (hm : Munches cs s.toList t) (h : NamesNumber (.name s) x) :
    t = if (cs.drop s.toList.length).head? = some '.' then .name s else x := by
  obtain ⟨r, hr, rfl⟩ := hm.rule
  have hnumber := hm.number_iff (by cases h <;> simp)
  have hrule := h.rule_token hr
  split
  · rename_i hpoint
    refine hrule.resolve_right fun hx => ?_
    rw [hx] at hnumber
    cases h <;> exact hnumber.1 ⟨_, rfl⟩ hpoint
  · rename_i hpoint
    refine hrule.resolve_left fun hname => ?_
    obtain ⟨y, hy⟩ := hnumber.2 hpoint
    rw [hname] at hy
    cases hy

/-- A text stands for one token, except that a point makes a name of the name of a number. -/
theorem Munches.token_cases (h : Munches cs text t) (h' : Munches ds text t') :
    t = t' ∨
      (NamesNumber t t' ∧ (cs.drop text.length).head? = some '.' ∧
        (ds.drop text.length).head? ≠ some '.') ∨
      (NamesNumber t' t ∧ (cs.drop text.length).head? ≠ some '.' ∧
        (ds.drop text.length).head? = some '.') := by
  by_cases hword : ∃ s x, NamesNumber (.name s) x ∧ text = s.toList
  · obtain ⟨s, x, hx, rfl⟩ := hword
    rw [h.token_of_word hx, h'.token_of_word hx]
    split_ifs <;> simp_all
  · obtain ⟨r, hr, rfl⟩ := h.rule
    obtain ⟨r', hr', rfl⟩ := h'.rule
    refine .inl (Rule.token_eq hr hr' ?_ ?_)
    · exact fun h => hword ⟨_, _, .infinity, h⟩
    · exact fun h => hword ⟨_, _, .notANumber, h⟩

theorem Munches.token_eq (h : Munches cs text t) (h' : Munches ds text t')
    (hnext : (cs.drop text.length).head? = (ds.drop text.length).head?) : t = t' := by
  obtain heq | ⟨-, hpoint, hnone⟩ | ⟨-, hnone, hpoint⟩ := h.token_cases h'
  · exact heq
  · exact absurd (hnext ▸ hpoint) hnone
  · exact absurd (hnext ▸ hpoint) hnone

theorem Longest.unique {L : Language Char} {other : List Char} (h : Longest L cs text)
    (h' : Longest L cs other) : text = other := by
  have hle := h'.length_le text h.mem h.atStart
  have hfront := List.prefix_of_prefix_length_le h.atStart h'.atStart hle
  exact hfront.eq_of_length (hle.antisymm (h.length_le other h'.mem h'.atStart))

theorem scan_of_munches (h : Munches (c :: cs) (c :: text) t) :
    scan c cs = .ok (t, text.length) := by
  have hfinds := finds_scan c cs
  generalize scan c cs = result at hfinds
  cases hfinds with
  | token h' =>
    obtain ⟨-, rfl⟩ := List.cons_eq_cons.1 (h.toLongest.unique h'.toLongest)
    rw [h.token_eq h' rfl]
  | nothing h' => exact absurd h.atStart (h' _ h.mem)

/-- Without all that stands behind some more text, a token is read as before. At the very end of the
text the name of a number is a number, if it was a name because of a point. -/
theorem Munches.cut (h : Munches (text ++ (cs ++ rest)) text t) :
    ∃ t', Munches (text ++ cs) text t' ∧
      (t' = t ∨ (cs = [] ∧ rest.head? = some '.' ∧ NamesNumber t t')) := by
  obtain ⟨r, hr, -⟩ := h.rule
  obtain ⟨c, ds, rfl, -⟩ := Rule.exists_lead hr
  have hlongest : Longest lexical (c :: (ds ++ cs)) (c :: ds) := by
    refine ⟨⟨cs, rfl⟩, h.mem, fun other hother hfront => h.length_le other hother ?_⟩
    rw [← List.append_assoc]
    exact hfront.trans (List.prefix_append _ rest)
  have hfinds := finds_scan c (ds ++ cs)
  generalize scan c (ds ++ cs) = result at hfinds
  cases hfinds with
  | @token ds' t' h' =>
    obtain ⟨-, rfl⟩ := List.cons_eq_cons.1 (hlongest.unique h'.toLongest)
    refine ⟨t', h', ?_⟩
    -- what stands right behind the token is the same as before, unless the text ends there
    cases cs with
    | cons d es => exact .inl (h'.token_eq h (by simp))
    | nil =>
      obtain rfl | ⟨hnames, hpoint, -⟩ | ⟨-, -, habsurd⟩ := h.token_cases h'
      · exact .inl rfl
      · rw [List.drop_left, List.nil_append] at hpoint
        exact .inr ⟨rfl, hpoint, hnames⟩
      · simp at habsurd
  | nothing h' => exact absurd hlongest.atStart (h' _ hlongest.mem)

end Told

end Scenario.Expr
