import Mathlib.Tactic.ByContra
import Scenario.Proofs.Parsing

/-!
What is read is derived, and where reading stops no expression goes on. Both are one statement about
the readers: each follows a language, up to the first token with which no word of it goes on.
-/

namespace Scenario.Expr

open Reading

/-! ### Faults -/

/-- The place that a fault is told of: a token, or the end. -/
def SyntaxFault.place? : SyntaxFault → Option (Option Lexeme)
  | .unexpected found => some (some found)
  | .endOfInput => some none
  | .expected _ found => some found
  | .strayText => none

/-- A reader reads a phrase of a language, or it stops at the first token with which no phrase goes
on. It does so wherever the tokens are the same up to there. -/
inductive Follows {α : Type} (f : Reading α) (L : List Token → α → Prop) : List Lexeme → Prop
  | reads {used rest : List Lexeme} {a : α} (hL : L (tokensOf used) a)
    (h : ∀ rest', SameNext rest rest' → f (used ++ rest') = .ok (a, rest')) :
    Follows f L (used ++ rest)
  | stops {used rest : List Lexeme} {fault : SyntaxFault}
    (hL : ∃ more a, L (tokensOf used ++ more) a) (hfault : f (used ++ rest) = .error fault)
    (hplace : fault.place? = some rest.head?)
    (h : ∀ rest', SameNext rest rest' → ∃ fault', f (used ++ rest') = .error fault') :
    Follows f L (used ++ rest)

namespace Follows

variable {α β : Type} {f g' : Reading α} {g : α → Reading β} {L : List Token → α → Prop}
  {M : List Token → β → Prop} {ts : List Lexeme}

theorem mono {L' : List Token → α → Prop} (h : Follows f L ts) (hL : ∀ us a, L us a → L' us a) :
    Follows f L' ts := by
  cases h with
  | reads h hsame => exact .reads (hL _ _ h) hsame
  | stops hmore hfault hplace hsame =>
    obtain ⟨more, a, h⟩ := hmore
    exact .stops ⟨more, a, hL _ _ h⟩ hfault hplace hsame

theorem pure {a : α} (h : L [] a) : Follows (Pure.pure a) L ts := by
  change Follows _ L ([] ++ ts)
  exact .reads h fun _ _ => rfl

/-- To stop before anything is taken. -/
theorem stopsAt {fault : SyntaxFault} (hL : ∃ more a, L more a) (hfault : f ts = .error fault)
    (hplace : fault.place? = some ts.head?)
    (h : ∀ ts', SameNext ts ts' → ∃ fault', f ts' = .error fault') : Follows f L ts := by
  change Follows f L ([] ++ ts)
  exact .stops hL hfault hplace h

/-- What follows a phrase is read with what is left of the language behind it. -/
theorem bind (hf : Follows f L ts)
    (hg : ∀ used rest a, ts = used ++ rest → L (tokensOf used) a →
      Follows (g a) (fun us => M (tokensOf used ++ us)) rest)
    (hM : ∀ us a, L us a → ∃ more b, M (us ++ more) b) : Follows (f >>= g) M ts := by
  cases hf with
  | @reads used rest a hL hsame =>
    have hstep : ∀ rest', SameNext rest rest' → (f >>= g) (used ++ rest') = g a rest' := by
      intro rest' hrest
      rw [bind_eq, hsame rest' hrest]
    have hrest := hg used rest a rfl hL
    generalize hback : rest = back at hrest
    cases hrest with
    | @reads used' rest b hL' hsame' =>
      subst hback
      rw [← List.append_assoc]
      refine .reads (a := b) ?_ fun rest' hrest' => ?_
      · simpa [tokensOf] using hL'
      · rw [List.append_assoc, hstep _ (hrest'.append used'), hsame' rest' hrest']
    | @stops used' rest fault hmore hfault hplace hsame' =>
      subst hback
      rw [← List.append_assoc]
      refine .stops ?_ ?_ hplace fun rest' hrest' => ?_
      · simpa [tokensOf] using hmore
      · rw [List.append_assoc, hstep _ (.refl _), hfault]
      · rw [List.append_assoc, hstep _ (hrest'.append used')]
        exact hsame' rest' hrest'
  | @stops used rest fault hmore hfault hplace hsame =>
    refine .stops ?_ ?_ hplace fun rest' hrest' => ?_
    · obtain ⟨more, a, hL⟩ := hmore
      obtain ⟨more', b, hM⟩ := hM _ a hL
      exact ⟨more ++ more', b, by rwa [← List.append_assoc]⟩
    · rw [bind_eq, hfault]
    · obtain ⟨fault', hfault'⟩ := hsame rest' hrest'
      exact ⟨fault', by rw [bind_eq, hfault']⟩

theorem of_same (h : ∀ ts', SameNext ts ts' → f ts' = g' ts') (hg : Follows g' L ts) :
    Follows f L ts := by
  cases hg with
  | @reads used rest a hL hsame =>
    refine .reads hL fun rest' hrest' => ?_
    rw [h _ (hrest'.append used), hsame rest' hrest']
  | @stops used rest fault hmore hfault hplace hsame =>
    refine .stops hmore ((h _ (.refl _)).trans hfault) hplace fun rest' hrest' => ?_
    rw [h _ (hrest'.append used)]
    exact hsame rest' hrest'

theorem cons {t : Lexeme} (h : ∀ rest, f (t :: rest) = g' rest)
    (hg : Follows g' (fun us => L (t.token :: us)) ts) : Follows f L (t :: ts) := by
  cases hg with
  | @reads used rest a hL hsame =>
    rw [← List.cons_append]
    exact .reads hL fun rest' hrest' => (h _).trans (hsame rest' hrest')
  | @stops used rest fault hmore hfault hplace hsame =>
    rw [← List.cons_append]
    refine .stops hmore ((h _).trans hfault) hplace fun rest' hrest' => ?_
    rw [List.cons_append, h]
    exact hsame rest' hrest'

theorem next? {γ : Type} (sort : Mark → Option γ) {g : Option γ → Reading α}
    (hsome : ∀ t rest m c, ts = t :: rest → t.token = .mark m → sort m = some c →
      Follows (g (some c)) (fun us => L (.mark m :: us)) rest)
    (hnone : Misses sort ts → Follows (g none) L ts) : Follows (Reading.next? sort >>= g) L ts := by
  by_cases hmiss : Misses sort ts
  · apply of_same _ (hnone hmiss)
    intro ts' hts'
    rw [bind_eq, next?_none (hmiss.of_same hts')]
  · cases ts with
    | nil => exact absurd (by rintro _ ⟨⟩) hmiss
    | cons t ts =>
      obtain ⟨m, ht, c, hc⟩ : ∃ m, t.token = .mark m ∧ ∃ c, sort m = some c := by
        by_contra hno
        apply hmiss
        rintro _ ⟨⟩ m hm
        rw [Option.eq_none_iff_forall_ne_some]
        exact fun c hc => hno ⟨m, hm, c, hc⟩
      have htaken := hsome t ts m c rfl ht hc
      rw [← ht] at htaken
      apply cons _ htaken
      intro rest
      rw [bind_eq, next?_some ht hc]

theorem expect (m : Mark) (wanted : Wanted) {g : Unit → Reading α}
    (hmore : ∃ more a, L (.mark m :: more) a)
    (h : ∀ t rest, ts = t :: rest → t.token = .mark m →
      Follows (g ()) (fun us => L (.mark m :: us)) rest) :
    Follows (Reading.expect m wanted >>= g) L ts := by
  unfold Reading.expect
  rw [bind_assoc]
  apply next?
  · intro t rest m' c hts ht hm
    obtain ⟨rfl, -⟩ : m' = m ∧ _ := Option.ite_none_right_eq_some.1 hm
    exact h t rest hts ht
  · intro _
    obtain ⟨more, a, hL⟩ := hmore
    exact stopsAt ⟨_, a, hL⟩ rfl rfl fun rest' _ => ⟨_, rfl⟩

end Follows

/-! ### Soundness -/

/-- The token lists of a category, with what they say. -/
def Phrase (c : Category) (us : List Token) (a : c.Meaning) : Prop :=
  ∃ d : Derivation c, d.tokens = us ∧ d.node = a

/-- What is read off the arguments of a call: with the parenthesis that closes them. -/
def Closed (us : List Token) (args : List Node) : Prop :=
  ∃ d : Derivation .arguments, d.tokens ++ [.mark .close] = us ∧ d.node = args

/-- All readers are right on token lists that are shorter than `n`. -/
structure RightBelow (n : Nat) : Prop where
  expression : ∀ ts : List Lexeme, ts.length < n → Follows readExpression (Phrase .expression) ts
  operand : ∀ level (ts : List Lexeme), ts.length < n →
    Follows (readOperand level) (Phrase (.operand level)) ts
  row : ∀ level (d : Derivation (.operand (level + 1))) (ts : List Lexeme), ts.length < n →
    Follows (readRow level d.node) (fun us => Phrase (.operand (level + 1)) (d.tokens ++ us)) ts
  arguments : ∀ ts : List Lexeme, ts.length < n → Follows readArguments Closed ts

namespace RightBelow

variable {n : Nat} {ts : List Lexeme} (h : RightBelow n)

include h

theorem readCall (f : String) (hts : ts.length < n) :
    Follows (readCall f) (fun us => Phrase .primary (.name f :: us)) ts := by
  unfold Expr.readCall
  apply Follows.next?
  · rintro t rest m ⟨⟩ rfl ht hm
    obtain ⟨rfl, -⟩ : m = .open ∧ _ := Option.ite_none_right_eq_some.1 hm
    rw [List.length_cons] at hts
    apply Follows.next?
    · rintro t' rest' m' ⟨⟩ rfl ht' hm'
      obtain ⟨rfl, -⟩ : m' = .close ∧ _ := Option.ite_none_right_eq_some.1 hm'
      exact Follows.pure ⟨.emptyCall f, rfl, rfl⟩
    · intro _
      apply Follows.bind (h.arguments rest (by omega))
      · rintro used behind args rfl ⟨d, hd, rfl⟩
        rw [← hd]
        exact Follows.pure ⟨.call f d, by simp [Derivation.tokens], rfl⟩
      · rintro us args ⟨d, rfl, rfl⟩
        exact ⟨[], _, .call f d, by simp [Derivation.tokens], rfl⟩
  · intro _
    exact Follows.pure ⟨.name f, rfl, rfl⟩

theorem readParentheses (hts : ts.length < n) :
    Follows readParentheses (fun us => Phrase .primary (.mark .open :: us)) ts := by
  unfold Expr.readParentheses
  apply Follows.bind (h.expression ts hts)
  · rintro used rest node rfl ⟨d, hd, rfl⟩
    rw [← hd]
    apply Follows.expect
    · exact ⟨[], _, .parentheses d, rfl, rfl⟩
    · rintro t behind rfl ht
      exact Follows.pure ⟨.parentheses d, rfl, rfl⟩
  · rintro us node ⟨d, rfl, rfl⟩
    exact ⟨[.mark .close], _, .parentheses d, rfl, rfl⟩

theorem readPrimary (hts : ts.length ≤ n) : Follows readPrimary (Phrase .primary) ts := by
  cases ts with
  | nil =>
    apply Follows.stopsAt ⟨_, _, .number 0.0, rfl, rfl⟩ readPrimary_nil rfl
    intro rest' hrest'
    obtain rfl := hrest'.eq_nil
    exact ⟨_, readPrimary_nil⟩
  | cons t ts =>
    rw [List.length_cons] at hts
    have hcons := readPrimary_cons t
    cases ht : t.token with
    | number x =>
      rw [ht] at hcons
      apply Follows.cons hcons
      rw [ht]
      apply Follows.pure
      exact ⟨.number x, rfl, rfl⟩
    | text s =>
      rw [ht] at hcons
      apply Follows.cons hcons
      rw [ht]
      apply Follows.pure
      exact ⟨.text s, rfl, rfl⟩
    | name f =>
      rw [ht] at hcons
      apply Follows.cons hcons
      rw [ht]
      exact h.readCall f (by omega)
    | mark m =>
      by_cases hm : m = .open
      · subst hm
        rw [ht] at hcons
        apply Follows.cons hcons
        rw [ht]
        exact h.readParentheses (by omega)
      · have hstop : ∀ t' rest, t'.token = .mark m →
            Expr.readPrimary (t' :: rest) = .error (.unexpected t') := by
          intro t' rest ht'
          rw [readPrimary_cons, ht']
          cases m <;> first | rfl | exact absurd rfl hm
        apply Follows.stopsAt ⟨_, _, .number 0.0, rfl, rfl⟩ (hstop t ts ht) rfl
        intro rest' hrest'
        obtain ⟨t', rest', rfl, ht'⟩ := hrest'.eq_cons
        exact ⟨_, hstop t' rest' (ht'.trans ht)⟩

theorem readRow (level : Nat) (d : Derivation (.operand (level + 1))) (hts : ts.length ≤ n) :
    Follows (readRow level d.node)
      (fun us => Phrase (.operand (level + 1)) (d.tokens ++ us)) ts := by
  rw [readRow_eq]
  apply Follows.next?
  · rintro t rest m op rfl ht hm
    obtain ⟨rfl, hop⟩ := ofLevel_eq_some.1 hm
    rw [List.length_cons] at hts
    apply Follows.bind (h.operand level rest (by omega))
    · rintro used behind right rfl ⟨r, hr, rfl⟩
      rw [List.length_append] at hts
      have hrow := h.row level (.operator op hop d r) behind (by omega)
      rw [← hr]
      exact hrow.mono fun us a => by simp [Derivation.tokens]
    · rintro us right ⟨r, rfl, rfl⟩
      exact ⟨[], _, .operator op hop d r, by simp [Derivation.tokens], rfl⟩
  · intro _
    exact Follows.pure ⟨d, by simp, rfl⟩

theorem readOperand (level : Nat) (hts : ts.length ≤ n) :
    Follows (readOperand level) (Phrase (.operand level)) ts := by
  induction level with
  | zero =>
    rw [readOperand_zero]
    apply Follows.next?
    · rintro t rest m op rfl ht hm
      obtain rfl := Mark.sign?_eq_some.1 hm
      rw [List.length_cons] at hts
      apply Follows.bind (h.operand 0 rest (by omega))
      · rintro used behind operand rfl ⟨d, hd, rfl⟩
        rw [← hd]
        exact Follows.pure ⟨.sign op d, by simp [Derivation.tokens], rfl⟩
      · rintro us operand ⟨d, rfl, rfl⟩
        exact ⟨[], _, .sign op d, by simp [Derivation.tokens], rfl⟩
    · intro _
      apply (h.readPrimary hts).mono
      rintro us a ⟨d, hd, ha⟩
      exact ⟨.primary d, hd, ha⟩
  | succ level ih =>
    rw [readOperand_succ]
    apply Follows.bind ih
    · rintro used rest left rfl ⟨d, hd, rfl⟩
      rw [List.length_append] at hts
      rw [← hd]
      exact h.readRow level (.tighter d) (by omega)
    · rintro us left ⟨d, rfl, rfl⟩
      exact ⟨[], _, .tighter d, by simp [Derivation.tokens], rfl⟩

theorem readExpression (hts : ts.length ≤ n) : Follows readExpression (Phrase .expression) ts := by
  rw [readExpression_eq]
  apply Follows.bind (h.readOperand precedence.length hts)
  · rintro used rest condition rfl ⟨c, hc, rfl⟩
    rw [List.length_append] at hts
    rw [← hc]
    apply Follows.next?
    · rintro t behind m ⟨⟩ rfl ht hm
      obtain ⟨rfl, -⟩ : m = .question ∧ _ := Option.ite_none_right_eq_some.1 hm
      rw [List.length_cons] at hts
      apply Follows.bind (h.expression behind (by omega))
      · rintro used' rest' yes rfl ⟨a, ha, rfl⟩
        rw [List.length_append] at hts
        rw [← ha]
        apply Follows.expect
        · exact ⟨Derivation.zero.tokens, _, .choose c a .zero, by simp [Derivation.tokens], rfl⟩
        · rintro t' behind' rfl ht'
          rw [List.length_cons] at hts
          apply Follows.bind (h.expression behind' (by omega))
          · rintro used'' rest'' no rfl ⟨b, hb, rfl⟩
            rw [← hb]
            exact Follows.pure ⟨.choose c a b, by simp [Derivation.tokens], rfl⟩
          · rintro us no ⟨b, rfl, rfl⟩
            exact ⟨[], _, .choose c a b, by simp [Derivation.tokens], rfl⟩
      · rintro us yes ⟨a, rfl, rfl⟩
        exact ⟨.mark .colon :: Derivation.zero.tokens, _, .choose c a .zero,
          by simp [Derivation.tokens], rfl⟩
    · intro _
      exact Follows.pure ⟨.operand c, by simp [Derivation.tokens], rfl⟩
  · rintro us condition ⟨c, rfl, rfl⟩
    exact ⟨[], _, .operand c, by simp [Derivation.tokens], rfl⟩

theorem readArguments (hts : ts.length ≤ n) : Follows readArguments Closed ts := by
  rw [readArguments_eq]
  apply Follows.bind (h.readExpression hts)
  · rintro used rest arg rfl ⟨d, hd, rfl⟩
    rw [List.length_append] at hts
    have hused : 0 < used.length := by
      simpa [hd, tokensOf] using d.length_tokens_pos
    rw [← hd]
    apply Follows.next?
    · rintro t behind m ⟨⟩ rfl ht hm
      obtain ⟨rfl, -⟩ : m = .close ∧ _ := Option.ite_none_right_eq_some.1 hm
      exact Follows.pure ⟨.last d, rfl, rfl⟩
    · intro _
      apply Follows.expect
      · exact ⟨Derivation.zero.tokens ++ [.mark .close], _, .more d (.last .zero),
          by simp [Derivation.tokens], rfl⟩
      · rintro t behind rfl ht
        rw [List.length_cons] at hts
        apply Follows.bind (h.arguments behind (by omega))
        · rintro used' rest' args rfl ⟨more, hmore, rfl⟩
          rw [← hmore]
          exact Follows.pure ⟨.more d more, by simp [Derivation.tokens], rfl⟩
        · rintro us args ⟨more, rfl, rfl⟩
          exact ⟨[], _, .more d more, by simp [Derivation.tokens], rfl⟩
  · rintro us arg ⟨d, rfl, rfl⟩
    exact ⟨[.mark .close], _, .last d, rfl, rfl⟩

end RightBelow

theorem rightBelow (n : Nat) : RightBelow n := by
  induction n with
  | zero =>
    constructor
    all_goals
      intros
      omega
  | succ n ih =>
    constructor
    · exact fun ts hts => ih.readExpression (by omega)
    · exact fun level ts hts => ih.readOperand level (by omega)
    · exact fun level d ts hts => ih.readRow level d (by omega)
    · exact fun ts hts => ih.readArguments (by omega)

/-! ### The parser -/

/-- A fault is told of the first token with which no expression goes on, or of the end, if some
expression goes on there. -/
inductive Blame (ts : List Lexeme) (fault : SyntaxFault) : Prop
  | token {before after : List Lexeme} {t : Lexeme} (hplace : fault.place? = some (some t))
    (hts : ts = before ++ t :: after) (hbegins : Begins (tokensOf before))
    (hstops : ¬ Begins (tokensOf before ++ [t.token]))
  | atEnd (hplace : fault.place? = some none)
    (hbegins : ∃ more, more ≠ [] ∧ IsExpression (tokensOf ts ++ more))

theorem not_begins {before : List Lexeme} {t : Lexeme}
    (h : ∀ after node, parse (before ++ t :: after) ≠ .ok node) :
    ¬ Begins (tokensOf before ++ [t.token]) := by
  rintro ⟨more, d, hd⟩
  apply h (lexemes more) d.node
  apply parse_eq_ok
  rw [hd]
  simp [tokensOf, lexemes, Function.comp_def]

theorem parse_cases (ts : List Lexeme) :
    (∃ d : Derivation .expression, d.tokens = tokensOf ts ∧ parse ts = .ok d.node) ∨
      ∃ fault, parse ts = .error fault ∧ Blame ts fault := by
  have hreads := (rightBelow (ts.length + 1)).expression ts (Nat.lt_succ_self _)
  cases hreads with
  | @reads used rest node hL hsame =>
    obtain ⟨d, hd, rfl⟩ := hL
    cases rest with
    | nil =>
      left
      rw [List.append_nil]
      exact ⟨d, hd, parse_eq_ok hd⟩
    | cons t rest =>
      have hextra : ∀ rest', parse (used ++ t :: rest') = .error (.unexpected t) := by
        intro rest'
        rw [parse_eq, hsame (t :: rest') rfl]
      refine .inr ⟨_, hextra rest, .token rfl rfl ⟨[], d, by simpa using hd⟩ ?_⟩
      apply not_begins
      intro after node hparse
      rw [hextra] at hparse
      cases hparse
  | @stops used rest fault hL hfault hplace hsame =>
    obtain ⟨more, node, d, hd, rfl⟩ := hL
    have hparse : parse (used ++ rest) = .error fault := by
      rw [parse_eq, hfault]
    refine .inr ⟨fault, hparse, ?_⟩
    cases rest with
    | nil =>
      refine .atEnd hplace ⟨more, ?_, d, by simpa using hd⟩
      rintro rfl
      rw [parse_eq_ok (d := d) (by simpa using hd)] at hparse
      cases hparse
    | cons t rest =>
      refine .token hplace rfl ⟨more, d, hd⟩ ?_
      apply not_begins
      intro after node hok
      obtain ⟨fault', hfault'⟩ := hsame (t :: after) rfl
      rw [parse_eq, hfault'] at hok
      cases hok

/-- The parser accepts the expressions of the grammar and no other token lists, gives the tree of
the one derivation, and blames the first token with which no expression goes on. -/
theorem parse_exact (ts : List Lexeme) :
    ((∃ node, parse ts = .ok node) ↔ IsExpression (tokensOf ts)) ∧
      (∀ node, parse ts = .ok node →
        ∃ d : Derivation .expression, d.tokens = tokensOf ts ∧ d.node = node ∧
          ∀ d' : Derivation .expression, d'.tokens = tokensOf ts → d' = d) ∧
      ∀ fault, parse ts = .error fault → Blame ts fault := by
  refine ⟨⟨?_, ?_⟩, ?_, ?_⟩
  · rintro ⟨node, hnode⟩
    obtain ⟨d, hd, -⟩ | ⟨fault, hfault, -⟩ := parse_cases ts
    · exact ⟨d, hd⟩
    · rw [hfault] at hnode
      cases hnode
  · rintro ⟨d, hd⟩
    exact ⟨d.node, parse_eq_ok hd⟩
  · intro node hnode
    obtain ⟨d, hd, hparse⟩ | ⟨fault, hfault, -⟩ := parse_cases ts
    · rw [hparse] at hnode
      refine ⟨d, hd, Except.ok.inj hnode, fun d' hd' => ?_⟩
      exact Derivation.eq_of_tokens (hd'.trans hd.symm)
    · rw [hfault] at hnode
      cases hnode
  · intro fault hfault
    obtain ⟨d, -, hparse⟩ | ⟨fault', hfault', hblame⟩ := parse_cases ts
    · rw [hparse] at hfault
      cases hfault
    · rw [hfault'] at hfault
      rwa [← Except.error.inj hfault]

end Scenario.Expr
