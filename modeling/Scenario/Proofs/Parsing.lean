import Scenario.Proofs.Readings

/-!
What is derived is read: the readers take the tokens of a derivation off a list and give the tree
that it says, as long as what stands behind does not carry it on. So a token list has one
derivation.
-/

namespace Scenario.Expr

open Reading

/-! ### What stands behind a phrase -/

/-- A token that carries on no operand of a level below `level`. -/
def Token.Beyond (level : Nat) (t : Token) : Prop :=
  t ≠ .mark .open ∧ ∀ op : Operator, t = .mark op.mark → level ≤ op.rank

def Beyond (level : Nat) (rest : List Lexeme) : Prop :=
  ∀ t ∈ rest.head?, t.token.Beyond level

/-- What does not carry on an expression. -/
def Outside (rest : List Lexeme) : Prop :=
  Beyond (precedence.length + 1) rest ∧ ∀ t ∈ rest.head?, t.token ≠ .mark .question

section Behind

variable {level level' : Nat} {t : Lexeme} {rest : List Lexeme}

theorem Beyond.mono (h : Beyond level' rest) (hle : level ≤ level') : Beyond level rest :=
  fun t ht => ⟨(h t ht).1, fun op hop => Nat.le_trans hle ((h t ht).2 op hop)⟩

theorem beyond_nil (level : Nat) : Beyond level [] := by
  rintro _ ⟨⟩

theorem outside_nil : Outside [] := ⟨beyond_nil _, by rintro _ ⟨⟩⟩

theorem beyond_mark {m : Mark} (ht : t.token = .mark m) (hopen : m ≠ .open)
    (hm : ∀ op : Operator, m = op.mark → level ≤ op.rank) : Beyond level (t :: rest) := by
  rintro _ ⟨⟩
  rw [ht]
  exact ⟨fun h => hopen (Token.mark.inj h), fun op h => hm op (Token.mark.inj h)⟩

theorem beyond_operator {op : Operator} (ht : t.token = .mark op.mark) (h : level ≤ op.rank) :
    Beyond level (t :: rest) := by
  apply beyond_mark ht op.mark_ne_open
  intro op' hop
  rw [← Operator.mark_injective hop]
  exact h

theorem beyond_of_operator?_eq_none {m : Mark} (ht : t.token = .mark m) (hopen : m ≠ .open)
    (hm : m.operator? = none) : Beyond level (t :: rest) := by
  apply beyond_mark ht hopen
  rintro op rfl
  rw [Mark.operator?_eq_some.2 rfl] at hm
  cases hm

theorem outside_of_operator?_eq_none {m : Mark} (ht : t.token = .mark m) (hopen : m ≠ .open)
    (hquestion : m ≠ .question) (hm : m.operator? = none) : Outside (t :: rest) := by
  refine ⟨beyond_of_operator?_eq_none ht hopen hm, ?_⟩
  rintro _ ⟨⟩
  rw [ht]
  exact fun h => hquestion (Token.mark.inj h)

theorem beyond_question (ht : t.token = .mark .question) : Beyond level (t :: rest) :=
  beyond_of_operator?_eq_none ht (by decide) rfl

theorem outside_colon (ht : t.token = .mark .colon) : Outside (t :: rest) :=
  outside_of_operator?_eq_none ht (by decide) (by decide) rfl

theorem outside_comma (ht : t.token = .mark .comma) : Outside (t :: rest) :=
  outside_of_operator?_eq_none ht (by decide) (by decide) rfl

theorem outside_close (ht : t.token = .mark .close) : Outside (t :: rest) :=
  outside_of_operator?_eq_none ht (by decide) (by decide) rfl

end Behind

/-! ### Reading what is derived -/

/-- Reading on behind an operand of a level. -/
def resume : (level : Nat) → Node → Reading Node
  | 0, node => pure node
  | level + 1, node => readRow level node

theorem resume_eq {level : Nat} {node : Node} {rest : List Lexeme} (h : Beyond (level + 1) rest) :
    resume level node rest = .ok (node, rest) := by
  cases level with
  | zero => rfl
  | succ level =>
    have hmiss : Misses (ofLevel (level + 1)) rest := by
      intro t ht m hm
      rw [Option.eq_none_iff_forall_ne_some]
      intro op hop
      obtain ⟨rfl, hrank⟩ := ofLevel_eq_some.1 hop
      have := (h t ht).2 op hm
      omega
    change readRow level node rest = _
    rw [readRow_eq, bind_eq, next?_none hmiss]
    rfl

/-- The tokens of a derivation are read as it says. Behind an operand the row goes on: the operators
of its own level are still to be read. -/
def ReadsAs : (c : Category) → Derivation c → Prop
  | .expression, d => ∀ used rest, tokensOf used = d.tokens → Outside rest →
    readExpression (used ++ rest) = .ok (d.node, rest)
  | .operand level, d => ∀ used rest, tokensOf used = d.tokens → Beyond level rest →
    readOperand level (used ++ rest) = resume level d.node rest
  | .primary, d => ∀ used rest, tokensOf used = d.tokens → Beyond 0 rest →
    readPrimary (used ++ rest) = .ok (d.node, rest)
  | .arguments, d => ∀ used t rest, tokensOf used = d.tokens → t.token = .mark .close →
    readArguments (used ++ t :: rest) = .ok (d.node, rest)

theorem readCondition_eq {c : Derivation (.operand precedence.length)} (hc : ReadsAs _ c)
    {used rest : List Lexeme} (hused : tokensOf used = c.tokens)
    (hrest : Beyond (precedence.length + 1) rest) :
    readOperand Operator.loosest (used ++ rest) = .ok (c.node, rest) := by
  have h := hc used rest hused (hrest.mono (Nat.le_succ _))
  rwa [resume_eq hrest] at h

namespace ReadsAs

theorem operand {d : Derivation (.operand precedence.length)} (ih : ReadsAs _ d) :
    ReadsAs _ (.operand d) := by
  intro used rest hused hrest
  rw [readExpression_eq, bind_eq, readCondition_eq ih hused hrest.1]
  dsimp only
  rw [bind_eq, next?_none (misses_only hrest.2)]
  rfl

theorem choose {c : Derivation (.operand precedence.length)} {a b : Derivation .expression}
    (hc : ReadsAs _ c) (ha : ReadsAs _ a) (hb : ReadsAs _ b) : ReadsAs _ (.choose c a b) := by
  intro used rest hused hrest
  obtain ⟨used₁, _, rfl, hused₁, hused⟩ := List.map_eq_append_iff.1 hused
  obtain ⟨question, _, rfl, hquestion, hused⟩ := List.map_eq_cons_iff.1 hused
  obtain ⟨used₂, _, rfl, hused₂, hused⟩ := List.map_eq_append_iff.1 hused
  obtain ⟨colon, used₃, rfl, hcolon, hused₃⟩ := List.map_eq_cons_iff.1 hused
  simp only [List.append_assoc, List.cons_append]
  rw [readExpression_eq, bind_eq, readCondition_eq hc hused₁ (beyond_question hquestion)]
  dsimp only
  rw [bind_eq, next?_some hquestion (only_self _)]
  dsimp only
  rw [bind_eq, ha used₂ _ hused₂ (outside_colon hcolon)]
  dsimp only
  rw [bind_eq, expect_eq hcolon]
  dsimp only
  rw [bind_eq, hb used₃ _ hused₃ hrest]
  rfl

theorem tighter {level : Nat} {d : Derivation (.operand level)} (ih : ReadsAs _ d) :
    ReadsAs _ (.tighter d) := by
  intro used rest hused hrest
  rw [readOperand_succ, bind_eq, ih used rest hused (hrest.mono (Nat.le_succ _)), resume_eq hrest]
  rfl

theorem operator {level : Nat} {op : Operator} (h : op.rank = level + 1)
    {l : Derivation (.operand (level + 1))} {r : Derivation (.operand level)}
    (hl : ReadsAs _ l) (hr : ReadsAs _ r) : ReadsAs _ (.operator op h l r) := by
  intro used rest hused hrest
  obtain ⟨used₁, _, rfl, hused₁, hused⟩ := List.map_eq_append_iff.1 hused
  obtain ⟨t, used₂, rfl, ht, hused₂⟩ := List.map_eq_cons_iff.1 hused
  simp only [List.append_assoc, List.cons_append]
  rw [hl used₁ _ hused₁ (beyond_operator ht (Nat.le_of_eq h.symm))]
  change readRow level l.node (t :: (used₂ ++ rest)) = readRow level _ rest
  rw [readRow_eq, bind_eq, next?_some ht (ofLevel_eq_some.2 ⟨rfl, h⟩)]
  dsimp only
  rw [bind_eq, hr used₂ _ hused₂ (hrest.mono (Nat.le_succ _)), resume_eq hrest]
  rfl

theorem sign (op : Sign) {d : Derivation (.operand 0)} (ih : ReadsAs _ d) :
    ReadsAs _ (.sign op d) := by
  intro used rest hused hrest
  obtain ⟨t, used, rfl, ht, hused⟩ := List.map_eq_cons_iff.1 hused
  rw [List.cons_append, readOperand_zero, bind_eq, next?_some ht (Mark.sign?_eq_some.2 rfl)]
  dsimp only
  rw [bind_eq, ih used rest hused hrest]
  rfl

theorem primary {d : Derivation .primary} (ih : ReadsAs _ d) : ReadsAs _ (.primary d) := by
  intro used rest hused hrest
  have hmiss : Misses Mark.sign? (used ++ rest) := by
    obtain ⟨t, ts, htokens, hfirst⟩ := d.exists_first_of_primary
    obtain ⟨t', _, rfl, ht', -⟩ := List.map_eq_cons_iff.1 (hused.trans htokens)
    rintro _ ⟨⟩ m hm
    obtain rfl := hfirst m (ht'.symm.trans hm)
    rfl
  rw [readOperand_zero, bind_eq, next?_none hmiss]
  exact ih used rest hused hrest

theorem call (f : String) {args : Derivation .arguments} (ih : ReadsAs _ args) :
    ReadsAs _ (.call f args) := by
  intro used rest hused hrest
  obtain ⟨t, _, rfl, ht, hused⟩ := List.map_eq_cons_iff.1 hused
  obtain ⟨t₁, _, rfl, ht₁, hused⟩ := List.map_eq_cons_iff.1 hused
  obtain ⟨used, _, rfl, hargs, hused⟩ := List.map_eq_append_iff.1 hused
  obtain ⟨t₂, _, rfl, ht₂, hused⟩ := List.map_eq_cons_iff.1 hused
  obtain rfl := List.map_eq_nil_iff.1 hused
  have hmiss : Misses (only .close) (used ++ t₂ :: rest) := by
    obtain ⟨t, ts, htokens, hfirst⟩ := args.exists_first
    obtain ⟨t', _, rfl, ht', -⟩ := List.map_eq_cons_iff.1 (hargs.trans htokens)
    apply misses_only
    rintro _ ⟨⟩ hclose
    obtain h | ⟨op, h⟩ := hfirst .close (ht'.symm.trans hclose)
    · cases h
    · cases op <;> cases h
  simp only [List.cons_append, List.append_assoc, List.nil_append]
  rw [readPrimary_cons, ht]
  simp only [readCall, bind_eq, next?_some ht₁ (only_self _), next?_none hmiss,
    ih used t₂ rest hargs ht₂]
  rfl

end ReadsAs

theorem readsAs {c : Category} (d : Derivation c) : ReadsAs c d := by
  induction d with
  | operand d ih => exact ih.operand
  | choose c a b hc ha hb => exact hc.choose ha hb
  | tighter d ih => exact ih.tighter
  | operator op h l r hl hr => exact hl.operator h hr
  | sign op d ih => exact ih.sign op
  | primary d ih => exact ih.primary
  | number x | text x =>
    intro used rest hused hrest
    obtain ⟨t, _, rfl, ht, hused⟩ := List.map_eq_cons_iff.1 hused
    obtain rfl := List.map_eq_nil_iff.1 hused
    rw [List.cons_append, readPrimary_cons, ht]
    rfl
  | name n =>
    intro used rest hused hrest
    obtain ⟨t, _, rfl, ht, hused⟩ := List.map_eq_cons_iff.1 hused
    obtain rfl := List.map_eq_nil_iff.1 hused
    have hmiss : Misses (only .open) rest := misses_only fun t ht => (hrest t ht).1
    rw [List.cons_append, readPrimary_cons, ht]
    simp only [readCall, List.nil_append, bind_eq, next?_none hmiss]
    rfl
  | emptyCall f =>
    intro used rest hused hrest
    obtain ⟨t, _, rfl, ht, hused⟩ := List.map_eq_cons_iff.1 hused
    obtain ⟨t₁, _, rfl, ht₁, hused⟩ := List.map_eq_cons_iff.1 hused
    obtain ⟨t₂, _, rfl, ht₂, hused⟩ := List.map_eq_cons_iff.1 hused
    obtain rfl := List.map_eq_nil_iff.1 hused
    simp only [List.cons_append, List.nil_append]
    rw [readPrimary_cons, ht]
    simp only [readCall, bind_eq, next?_some ht₁ (only_self _), next?_some ht₂ (only_self _)]
    rfl
  | call f args ih => exact ih.call f
  | parentheses d ih =>
    intro used rest hused hrest
    obtain ⟨t, _, rfl, ht, hused⟩ := List.map_eq_cons_iff.1 hused
    obtain ⟨used, _, rfl, hinner, hused⟩ := List.map_eq_append_iff.1 hused
    obtain ⟨t₁, _, rfl, ht₁, hused⟩ := List.map_eq_cons_iff.1 hused
    obtain rfl := List.map_eq_nil_iff.1 hused
    simp only [List.cons_append, List.append_assoc, List.nil_append]
    rw [readPrimary_cons, ht]
    simp only [readParentheses, bind_eq, ih used _ hinner (outside_close ht₁), expect_eq ht₁]
    rfl
  | last d ih =>
    intro used t rest hused ht
    rw [readArguments_eq]
    simp only [bind_eq, ih used _ hused (outside_close ht), next?_some ht (only_self _)]
    rfl
  | more d more hd hmore =>
    intro used t rest hused ht
    obtain ⟨used₁, _, rfl, hused₁, hused⟩ := List.map_eq_append_iff.1 hused
    obtain ⟨comma, used₂, rfl, hcomma, hused₂⟩ := List.map_eq_cons_iff.1 hused
    have hmiss : ∀ ts, Misses (only .close) (comma :: ts) := by
      intro ts
      apply misses_only
      rintro _ ⟨⟩ hclose
      cases hcomma.symm.trans hclose
    simp only [List.append_assoc, List.cons_append]
    rw [readArguments_eq]
    simp only [bind_eq, hd used₁ _ hused₁ (outside_comma hcomma), next?_none (hmiss _),
      expect_eq hcomma, hmore used₂ t rest hused₂ ht]
    rfl

theorem parse_eq_ok {d : Derivation .expression} {ts : List Lexeme} (h : d.tokens = tokensOf ts) :
    parse ts = .ok d.node := by
  have hread : readExpression ts = .ok (d.node, []) := by
    simpa using readsAs d ts [] h.symm outside_nil
  rw [parse_eq, hread]

/-! ### One derivation -/

/-- Tokens as lexemes that stand nowhere. -/
def lexemes (ts : List Token) : List Lexeme := ts.map fun t => ⟨t, 0, 0⟩

theorem tokensOf_lexemes (ts : List Token) : tokensOf (lexemes ts) = ts := by
  simp [tokensOf, lexemes, Function.comp_def]

theorem lexemes_append (ts us : List Token) : lexemes (ts ++ us) = lexemes ts ++ lexemes us :=
  List.map_append

/-- What is read off one list is what is derived, and what is left is the same. -/
theorem eq_of_readings {α : Type} {f : Reading α} {a a' : α} {ts ts' us us' : List Token}
    (hf : f (lexemes ts ++ lexemes us) = .ok (a, lexemes us))
    (hf' : f (lexemes ts' ++ lexemes us') = .ok (a', lexemes us')) (h : ts ++ us = ts' ++ us') :
    ts = ts' ∧ a = a' ∧ us = us' := by
  rw [← lexemes_append, h, lexemes_append, hf'] at hf
  obtain ⟨rfl, hrest⟩ := Prod.ext_iff.1 (Except.ok.inj hf)
  have hsame : us' = us := by
    simpa only [tokensOf_lexemes] using congrArg tokensOf hrest
  subst hsame
  exact ⟨List.append_cancel_right h, rfl, rfl⟩

/-- Where two operands of a level stand at the same place, they are the same. -/
theorem operand_cancel {level : Nat} {d d' : Derivation (.operand level)} {us us' : List Token}
    (h : d.tokens ++ us = d'.tokens ++ us') (hus : Beyond (level + 1) (lexemes us))
    (hus' : Beyond (level + 1) (lexemes us')) :
    d.tokens = d'.tokens ∧ d.node = d'.node ∧ us = us' := by
  have hread : ∀ (d : Derivation (.operand level)) (us : List Token),
      Beyond (level + 1) (lexemes us) →
        readOperand level (lexemes d.tokens ++ lexemes us) = .ok (d.node, lexemes us) := by
    intro d us hus
    rw [readsAs d _ _ (tokensOf_lexemes _) (hus.mono (Nat.le_succ _)), resume_eq hus]
  exact eq_of_readings (hread d us hus) (hread d' us' hus') h

theorem operand_eq_append {level : Nat} {d d' : Derivation (.operand level)} {us : List Token}
    (h : d.tokens = d'.tokens ++ us) (hus : Beyond (level + 1) (lexemes us)) :
    d.node = d'.node ∧ us = [] := by
  rw [← List.append_nil d.tokens] at h
  obtain ⟨-, hnode, hnil⟩ := operand_cancel h (beyond_nil _) hus
  exact ⟨hnode, hnil.symm⟩

theorem expression_cancel {d d' : Derivation .expression} {us us' : List Token}
    (h : d.tokens ++ us = d'.tokens ++ us') (hus : Outside (lexemes us))
    (hus' : Outside (lexemes us')) : d.tokens = d'.tokens ∧ d.node = d'.node ∧ us = us' :=
  eq_of_readings (readsAs d _ _ (tokensOf_lexemes _) hus)
    (readsAs d' _ _ (tokensOf_lexemes _) hus') h

theorem expression_eq_append {d d' : Derivation .expression} {us : List Token}
    (h : d.tokens = d'.tokens ++ us) (hus : Outside (lexemes us)) : us = [] := by
  rw [← List.append_nil d.tokens] at h
  exact (expression_cancel h outside_nil hus).2.2.symm

/-- An operand begins with a tighter one. -/
theorem exists_tighter {level : Nat} (d : Derivation (.operand (level + 1))) :
    ∃ (e : Derivation (.operand level)) (us : List Token), d.tokens = e.tokens ++ us ∧
      ∀ vs, Beyond (level + 1) (lexemes vs) → Beyond (level + 1) (lexemes (us ++ vs)) := by
  generalize hc : Category.operand (level + 1) = c at d
  induction d with
  | @tighter level d ih =>
    cases hc
    exact ⟨d, [], (List.append_nil _).symm, fun vs h => h⟩
  | @operator level op h l r ihl ihr =>
    cases hc
    obtain ⟨e, us, htokens, hus⟩ := ihl rfl
    refine ⟨e, us ++ .mark op.mark :: r.tokens, ?_, fun vs _ => ?_⟩
    · rw [Derivation.tokens, htokens, List.append_assoc]
    · rw [List.append_assoc]
      exact hus _ (beyond_operator rfl (Nat.le_of_eq h.symm))
  | _ => cases hc

theorem operator_ne_tighter {level : Nat} {op : Operator} (l : Derivation (.operand (level + 1)))
    (e : Derivation (.operand level)) (us : List Token) (h : op.rank = level + 1) :
    l.tokens ++ .mark op.mark :: us ≠ e.tokens := by
  intro heq
  obtain ⟨e', vs, htokens, hvs⟩ := exists_tighter l
  have hbeyond := hvs (.mark op.mark :: us) (beyond_operator rfl (Nat.le_of_eq h.symm))
  rw [htokens, List.append_assoc] at heq
  obtain ⟨-, hnil⟩ := operand_eq_append heq.symm hbeyond
  simp at hnil

theorem operand_eq_of_append {level : Nat} {l l' : Derivation (.operand (level + 1))}
    {op op' : Operator} {us us' : List Token} (hnode : l.node = l'.node)
    (h : l.tokens ++ .mark op.mark :: us = l'.tokens ++ .mark op'.mark :: us') :
    l.tokens = l'.tokens := by
  -- The same tree has the same number of operators, so that no side can have one more.
  have hcount : l.tokens.countP Token.Weighs = l'.tokens.countP Token.Weighs := by
    rw [l.countP_tokens, l'.countP_tokens, hnode]
  rcases List.append_eq_append_iff.1 h with ⟨vs, hl', hus⟩ | ⟨vs, hl, hus⟩
  · cases vs with
    | nil => rw [hl', List.append_nil]
    | cons t vs =>
      obtain ⟨rfl, -⟩ := List.cons.inj hus
      rw [hl', List.countP_append, List.countP_cons_of_pos (Token.weighs_operator op)] at hcount
      omega
  · cases vs with
    | nil => rw [hl, List.append_nil]
    | cons t vs =>
      obtain ⟨rfl, -⟩ := List.cons.inj hus
      rw [hl, List.countP_append, List.countP_cons_of_pos (Token.weighs_operator op')] at hcount
      omega

theorem Derivation.eq_of_tokens {c : Category} {d d' : Derivation c} (h : d.tokens = d'.tokens) :
    d = d' := by
  induction d with
  | operand d ih =>
    cases d' with
    | operand d' => rw [ih h]
    | choose c a b =>
      cases (operand_eq_append h (beyond_question rfl)).2
  | choose c a b hc ha hb =>
    cases d' with
    | operand d' =>
      cases (operand_eq_append h.symm (beyond_question rfl)).2
    | choose c' a' b' =>
      obtain ⟨hcondition, -, hrest⟩ := operand_cancel h (beyond_question rfl) (beyond_question rfl)
      obtain ⟨hyes, -, hno⟩ := expression_cancel (List.cons.inj hrest).2 (outside_colon rfl)
        (outside_colon rfl)
      rw [hc hcondition, ha hyes, hb (List.cons.inj hno).2]
  | tighter d ih =>
    cases d' with
    | tighter d' => rw [ih h]
    | operator op hop l r => exact absurd h.symm (operator_ne_tighter l d _ hop)
  | operator op hop l r hl hr =>
    cases d' with
    | tighter d' => exact absurd h (operator_ne_tighter l d' _ hop)
    | operator op' hop' l' r' =>
      have hnode := (operand_eq_append (h.trans (List.append_nil _).symm) (beyond_nil _)).1
      obtain ⟨rfl, hleft, hright⟩ := Node.operator.inj hnode
      have hsame := operand_eq_of_append hleft h
      rw [tokens, tokens, hsame] at h
      rw [hl hsame, hr (List.cons.inj (List.append_cancel_left h)).2]
  | sign op d ih =>
    cases d' with
    | sign op' d' =>
      obtain ⟨hmark, hrest⟩ := List.cons.inj h
      have hop : op = op' := by
        cases op <;> cases op' <;> first | rfl | cases hmark
      rw [hop, ih hrest]
    | primary d' =>
      obtain ⟨t, ts, htokens, hfirst⟩ := d'.exists_first_of_primary
      have := hfirst op.mark (List.cons.inj (h.trans htokens)).1.symm
      cases op <;> cases this
  | primary d ih =>
    cases d' with
    | sign op' d' =>
      obtain ⟨t, ts, htokens, hfirst⟩ := d.exists_first_of_primary
      have := hfirst op'.mark (List.cons.inj (h.symm.trans htokens)).1.symm
      cases op' <;> cases this
    | primary d' => rw [ih h]
  | call f args ih =>
    cases d' with
    | call f' args' =>
      obtain ⟨hname, hargs⟩ := List.cons.inj h
      rw [Token.name.inj hname, ih (List.append_cancel_right (List.cons.inj hargs).2)]
    | emptyCall f' =>
      obtain ⟨t, ts, htokens, -⟩ := args.exists_first
      simp [tokens, htokens] at h
    | _ => simp [tokens] at h
  | emptyCall f =>
    cases d' with
    | call f' args' =>
      obtain ⟨t, ts, htokens, -⟩ := args'.exists_first
      simp [tokens, htokens] at h
    | emptyCall f' =>
      cases h
      rfl
    | _ => simp [tokens] at h
  | parentheses d ih =>
    cases d' with
    | parentheses d' => rw [ih (List.append_cancel_right (List.cons.inj h).2)]
    | _ => simp [tokens] at h
  | number x =>
    cases d' <;> cases h
    rfl
  | text s =>
    cases d' <;> cases h
    rfl
  | name n =>
    cases d' <;> cases h
    rfl
  | last d ih =>
    cases d' with
    | last d' => rw [ih h]
    | more d' rest =>
      cases expression_eq_append h (outside_comma rfl)
  | more d rest hd hrest =>
    cases d' with
    | last d' =>
      cases expression_eq_append h.symm (outside_comma rfl)
    | more d' rest' =>
      obtain ⟨hfirst, -, hmore⟩ := expression_cancel h (outside_comma rfl) (outside_comma rfl)
      rw [hd hfirst, hrest (List.cons.inj hmore).2]

end Scenario.Expr
