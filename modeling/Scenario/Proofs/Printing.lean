import Scenario.Proofs.Blame
import Scenario.Proofs.Spelling

/-!
Printing of trees, with parentheses only where the table of precedence asks for them, and that the
lexer and the parser undo it.
-/

namespace Scenario.Expr

/-! ### Printing -/

/-- The level of whole expressions: looser than any operator. -/
def Node.top : Nat := precedence.length + 1

/-- What has operators of level `own` among operands of `level`. -/
def parenthesized (level own : Nat) (ts : List Token) : List Token :=
  if level < own then .mark .open :: (ts ++ [.mark .close]) else ts

mutual

/-- The tokens of a tree that stands where operators of `level` and tighter ones may stand. -/
def Node.print (level : Nat) : Node → List Token
  | .number x => [.number x]
  | .text s => [.text s]
  | .name n => [.name n]
  | .sign op a => .mark op.mark :: a.print 0
  | .operator op l r =>
    parenthesized level op.rank
      (l.print op.rank ++ .mark op.mark :: r.print (op.rank - 1))
  | .choose c a b =>
    parenthesized level Node.top
      (c.print precedence.length ++
        .mark .question :: (a.print Node.top ++ .mark .colon :: b.print Node.top))
  | .call f args => .name f :: .mark .open :: (printArguments args ++ [.mark .close])

def printArguments : List Node → List Token
  | [] => []
  | [a] => a.print Node.top
  | a :: b :: rest => a.print Node.top ++ .mark .comma :: printArguments (b :: rest)

end

mutual

/-- Names are proper, and numbers have a spelling. -/
def Node.Printable : Node → Prop
  | .number x => ∃ cs, Spelling (.number x) cs
  | .text _ => True
  | .name n => ProperName n
  | .sign _ a => a.Printable
  | .operator _ l r => l.Printable ∧ r.Printable
  | .choose c a b => c.Printable ∧ a.Printable ∧ b.Printable
  | .call f args => ProperName f ∧ AllPrintable args

def AllPrintable : List Node → Prop
  | [] => True
  | a :: as => a.Printable ∧ AllPrintable as

end

/-! ### What is printed is derived -/

theorem Operator.rank_le (op : Operator) : op.rank ≤ precedence.length := by
  cases op <;> decide

theorem Operator.exists_rank (op : Operator) : ∃ level, op.rank = level + 1 := by
  cases op <;> exact ⟨_, rfl⟩

namespace Phrase

variable {level level' : Nat} {us vs : List Token} {n : Node}

theorem widen (h : Phrase (.operand level) us n) (hle : level ≤ level') :
    Phrase (.operand level') us n := by
  induction hle with
  | refl => exact h
  | step _ ih =>
    obtain ⟨d, hd, hnode⟩ := ih
    exact ⟨.tighter d, hd, hnode⟩

theorem primary (h : Phrase .primary us n) : Phrase (.operand 0) us n := by
  obtain ⟨d, hd, hnode⟩ := h
  exact ⟨.primary d, hd, hnode⟩

theorem parentheses (h : Phrase .expression us n) :
    Phrase .primary (.mark .open :: (us ++ [.mark .close])) n := by
  obtain ⟨d, rfl, rfl⟩ := h
  exact ⟨.parentheses d, rfl, rfl⟩

theorem operator (op : Operator) {l r : Node} (hl : Phrase (.operand op.rank) us l)
    (hr : Phrase (.operand (op.rank - 1)) vs r) :
    Phrase (.operand op.rank) (us ++ .mark op.mark :: vs) (.operator op l r) := by
  obtain ⟨level, hlevel⟩ := op.exists_rank
  rw [hlevel] at hl hr ⊢
  obtain ⟨d, rfl, rfl⟩ := hl
  obtain ⟨e, rfl, rfl⟩ := hr
  exact ⟨.operator op hlevel d e, rfl, rfl⟩

end Phrase

/-- Phrases of a level: above all operators they are the whole expressions. -/
def PhraseAt (level : Nat) (us : List Token) (n : Node) : Prop :=
  if level < Node.top then Phrase (.operand level) us n else Phrase .expression us n

namespace PhraseAt

variable {level own : Nat} {us : List Token} {n : Node}

theorem phrase (h : PhraseAt level us n) (hlevel : level < Node.top) :
    Phrase (.operand level) us n := by
  unfold PhraseAt at h
  rwa [if_pos hlevel] at h

theorem whole (h : PhraseAt Node.top us n) : Phrase .expression us n := by
  unfold PhraseAt at h
  rwa [if_neg (Nat.lt_irrefl _)] at h

theorem of_operand (h : Phrase (.operand own) us n) (hown : own ≤ precedence.length)
    (hle : own ≤ level) : PhraseAt level us n := by
  unfold PhraseAt
  split
  · exact h.widen hle
  · obtain ⟨d, hd, hnode⟩ := h.widen hown
    exact ⟨.operand d, hd, hnode⟩

theorem of_primary (h : Phrase .primary us n) : PhraseAt level us n :=
  of_operand h.primary (Nat.zero_le _) (Nat.zero_le _)

theorem of_expression (h : Phrase .expression us n) (hle : Node.top ≤ level) :
    PhraseAt level us n := by
  unfold PhraseAt
  rwa [if_neg (by omega)]

theorem parenthesized (hwhole : PhraseAt Node.top us n) (h : own ≤ level → PhraseAt level us n) :
    PhraseAt level (parenthesized level own us) n := by
  unfold Expr.parenthesized
  split
  · exact of_primary hwhole.whole.parentheses
  · exact h (by omega)

end PhraseAt

mutual

theorem phraseAt_print (n : Node) (level : Nat) : PhraseAt level (n.print level) n := by
  match n with
  | .number x => exact .of_primary ⟨.number x, rfl, rfl⟩
  | .text s => exact .of_primary ⟨.text s, rfl, rfl⟩
  | .name f => exact .of_primary ⟨.name f, rfl, rfl⟩
  | .sign op a =>
    obtain ⟨d, hd, hnode⟩ := (phraseAt_print a 0).phrase (Nat.zero_lt_succ _)
    have hphrase : Phrase (.operand 0) (Node.print level (.sign op a)) (.sign op a) := by
      refine ⟨.sign op d, ?_, ?_⟩
      · rw [Derivation.tokens, hd, Node.print]
      · rw [Derivation.node, hnode]
    exact .of_operand hphrase (Nat.zero_le _) (Nat.zero_le _)
  | .operator op l r =>
    have hrank := op.rank_le
    have hl := (phraseAt_print l op.rank).phrase (Nat.lt_succ_of_le hrank)
    have hr := (phraseAt_print r (op.rank - 1)).phrase (Nat.lt_succ_of_le (by omega))
    have hphrase := Phrase.operator op hl hr
    rw [Node.print]
    apply PhraseAt.parenthesized
    · exact .of_operand hphrase hrank (Nat.le_succ_of_le hrank)
    · exact fun hle => .of_operand hphrase hrank hle
  | .choose c a b =>
    obtain ⟨c', hc, hcnode⟩ := (phraseAt_print c precedence.length).phrase (Nat.lt_succ_self _)
    obtain ⟨a', ha, hanode⟩ := (phraseAt_print a Node.top).whole
    obtain ⟨b', hb, hbnode⟩ := (phraseAt_print b Node.top).whole
    have hphrase : Phrase .expression (Derivation.choose c' a' b').tokens (.choose c a b) := by
      refine ⟨.choose c' a' b', rfl, ?_⟩
      rw [Derivation.node, hcnode, hanode, hbnode]
    rw [Derivation.tokens, hc, ha, hb] at hphrase
    rw [Node.print]
    apply PhraseAt.parenthesized
    · exact .of_expression hphrase (Nat.le_refl _)
    · exact .of_expression hphrase
  | .call f [] => exact .of_primary ⟨.emptyCall f, rfl, rfl⟩
  | .call f (a :: as) =>
    obtain ⟨d, hd, hnode⟩ := phrase_printArguments (a :: as) (List.cons_ne_nil a as)
    apply PhraseAt.of_primary
    refine ⟨.call f d, ?_, ?_⟩
    · rw [Derivation.tokens, hd, Node.print]
    · rw [Derivation.node, hnode]

theorem phrase_printArguments (as : List Node) (hne : as ≠ []) :
    Phrase .arguments (printArguments as) as := by
  match as with
  | [a] =>
    obtain ⟨d, hd, hnode⟩ := (phraseAt_print a Node.top).whole
    refine ⟨.last d, ?_, ?_⟩
    · rw [Derivation.tokens, hd, printArguments]
    · rw [Derivation.node, hnode]
  | a :: b :: as =>
    obtain ⟨d, hd, hnode⟩ := (phraseAt_print a Node.top).whole
    obtain ⟨rest, hrest, hnodes⟩ := phrase_printArguments (b :: as) (List.cons_ne_nil b as)
    refine ⟨.more d rest, ?_, ?_⟩
    · rw [Derivation.tokens, hd, hrest, printArguments]
    · rw [Derivation.node, hnode, hnodes]

end

/-! ### No parentheses can be left out -/

theorem parenthesized_of_le {level own : Nat} (h : own ≤ level) (ts : List Token) :
    parenthesized level own ts = ts := if_neg (Nat.not_lt.2 h)

theorem length_parenthesized (level own : Nat) (ts : List Token) :
    (parenthesized level own ts).length = ts.length + if level < own then 2 else 0 := by
  unfold parenthesized
  split <;> simp

theorem length_print_anti {level level' : Nat} (h : level ≤ level') (n : Node) :
    (n.print level').length ≤ (n.print level).length := by
  cases n with
  | operator op l r | choose c a b =>
    rw [Node.print, Node.print, length_parenthesized, length_parenthesized]
    split <;> split <;> omega
  | _ => simp only [Node.print, Nat.le_refl]

theorem length_print_le_parentheses (n : Node) (level : Nat) :
    (n.print level).length ≤ (n.print Node.top).length + 2 := by
  cases n with
  | operator op l r | choose c a b =>
    rw [Node.print, Node.print, length_parenthesized, length_parenthesized]
    split <;> omega
  | _ => simp only [Node.print, Nat.le_add_right]

/-- What is printed in the place of a phrase. -/
def Category.print : (c : Category) → c.Meaning → List Token
  | .expression, n => Node.print Node.top n
  | .operand level, n => Node.print level n
  | .primary, n => Node.print 0 n
  | .arguments, ns => printArguments ns

theorem Derivation.node_arguments (d : Derivation .arguments) :
    ∃ (n : Node) (ns : List Node), d.node = n :: ns := by
  cases d with
  | last d => exact ⟨_, _, rfl⟩
  | more d rest => exact ⟨_, _, rfl⟩

theorem Derivation.length_print_le {c : Category} (d : Derivation c) :
    (c.print d.node).length ≤ d.tokens.length := by
  induction d with
  | operand d ih | tighter d ih => exact Nat.le_trans (length_print_anti (Nat.le_succ _) _) ih
  | choose c a b hc ha hb =>
    simp only [Category.print] at hc ha hb
    simp only [Category.print, node, tokens, Node.print, parenthesized_of_le (Nat.le_refl _),
      List.length_append, List.length_cons]
    omega
  | operator op h l r hl hr =>
    simp only [Category.print] at hl hr
    simp only [Category.print, node, tokens, Node.print, h, parenthesized_of_le (Nat.le_refl _),
      Nat.add_sub_cancel, List.length_append, List.length_cons]
    omega
  | sign op d ih =>
    simp only [Category.print] at ih
    simp only [Category.print, node, tokens, Node.print, List.length_cons]
    omega
  | primary d ih | last d ih => exact ih
  | number x | text s | name n | emptyCall f => exact Nat.le_refl _
  | call f args ih =>
    simp only [Category.print] at ih
    simp only [Category.print, node, tokens, Node.print, List.length_append, List.length_cons]
    omega
  | parentheses d ih =>
    have := length_print_le_parentheses d.node 0
    simp only [Category.print] at ih
    simp only [Category.print, node, tokens, List.length_cons, List.length_append,
      List.length_nil]
    omega
  | more d rest hd hrest =>
    obtain ⟨n, ns, hnode⟩ := rest.node_arguments
    simp only [Category.print, hnode] at hd hrest
    simp only [Category.print, node, tokens, hnode, printArguments, List.length_append,
      List.length_cons]
    omega

/-! ### What is printed can be written -/

theorem Mark.exists_spelling (m : Mark) : ∃ cs, Spelling (.mark m) cs := by
  cases m <;> exact ⟨_, .mark (List.mem_cons_self ..)⟩

/-- Every token has a spelling. -/
def Spelled (ts : List Token) : Prop := ∀ t ∈ ts, ∃ cs, Spelling t cs

namespace Spelled

variable {t : Token} {ts us : List Token}

theorem nil : Spelled [] := by
  rintro _ ⟨⟩

theorem cons (ht : ∃ cs, Spelling t cs) (hts : Spelled ts) : Spelled (t :: ts) := by
  intro u hu
  obtain rfl | hu := List.mem_cons.1 hu
  · exact ht
  · exact hts u hu

theorem append (hts : Spelled ts) (hus : Spelled us) : Spelled (ts ++ us) := by
  intro t ht
  obtain ht | ht := List.mem_append.1 ht
  · exact hts t ht
  · exact hus t ht

theorem single (ht : ∃ cs, Spelling t cs) : Spelled [t] := cons ht nil

theorem parenthesized (level own : Nat) (h : Spelled ts) :
    Spelled (parenthesized level own ts) := by
  unfold Expr.parenthesized
  split
  · exact cons (Mark.exists_spelling .open) (h.append (single (Mark.exists_spelling .close)))
  · exact h

theorem exists_written (h : Spelled ts) (hne : ts ≠ []) : ∃ cs, Written ts cs := by
  induction ts with
  | nil => exact absurd rfl hne
  | cons t ts ih =>
    obtain ⟨cs, hcs⟩ := h t List.mem_cons_self
    cases ts with
    | nil => exact ⟨cs, .last hcs⟩
    | cons u us =>
      obtain ⟨ds, hds⟩ := ih (fun u hu => h u (List.mem_cons_of_mem t hu)) (List.cons_ne_nil u us)
      refine ⟨_, .more hcs (List.cons_ne_nil ' ' []) ?_ hds⟩
      intro b hb
      obtain rfl := List.mem_singleton.1 hb
      rfl

end Spelled

mutual

theorem spelled_print {n : Node} (h : n.Printable) (level : Nat) : Spelled (n.print level) := by
  match n with
  | .number x => exact .single h
  | .text s => exact .single ⟨_, .text (.inl rfl) s⟩
  | .name f => exact .single ⟨_, .name h⟩
  | .sign op a => exact .cons op.mark.exists_spelling (spelled_print (n := a) h 0)
  | .operator op l r =>
    have hr := Spelled.cons op.mark.exists_spelling (spelled_print h.2 (op.rank - 1))
    exact .parenthesized level op.rank ((spelled_print h.1 op.rank).append hr)
  | .choose c a b =>
    have hb := Spelled.cons (Mark.exists_spelling .colon) (spelled_print h.2.2 Node.top)
    have ha := Spelled.cons (Mark.exists_spelling .question)
      ((spelled_print h.2.1 Node.top).append hb)
    exact .parenthesized level Node.top ((spelled_print h.1 precedence.length).append ha)
  | .call f args =>
    have hclose := Spelled.single (Mark.exists_spelling .close)
    have hargs := (spelled_printArguments h.2).append hclose
    exact .cons ⟨_, .name h.1⟩ (.cons (Mark.exists_spelling .open) hargs)

theorem spelled_printArguments {as : List Node} (h : AllPrintable as) :
    Spelled (printArguments as) := by
  match as with
  | [] => exact .nil
  | [a] => exact spelled_print h.1 Node.top
  | a :: b :: as =>
    have has := Spelled.cons (Mark.exists_spelling .comma) (spelled_printArguments h.2)
    exact (spelled_print h.1 Node.top).append has

end

/-! ### Parsing undoes printing -/

/-- A printed tree can be written, whatever is written of it is read back as that tree, and no other
tokens that say the tree are fewer. -/
theorem parse_print {n : Node} (hn : n.Printable) :
    (∃ text : String, Written (n.print Node.top) text.toList) ∧
      (∀ text : String, Written (n.print Node.top) text.toList →
        ∃ ls, lex text = .ok ls ∧ parse ls = .ok n) ∧
      ∀ d : Derivation .expression, d.node = n → (n.print Node.top).length ≤ d.tokens.length := by
  obtain ⟨d, hd, hnode⟩ := (phraseAt_print n Node.top).whole
  refine ⟨?_, ?_, ?_⟩
  · have hne : n.print Node.top ≠ [] := by
      rw [← hd]
      exact List.ne_nil_of_length_pos d.length_tokens_pos
    obtain ⟨cs, hcs⟩ := (spelled_print hn Node.top).exists_written hne
    exact ⟨String.ofList cs, by rwa [String.toList_ofList]⟩
  · intro text htext
    obtain ⟨ls, hls, htokens⟩ := lex_written htext
    refine ⟨ls, hls, ?_⟩
    rw [parse_eq_ok (hd.trans htokens.symm), hnode]
  · rintro d rfl
    exact d.length_print_le

/-- `hope - (fear - 42) * item('it\'s')` -/
def oath : Node :=
  .operator .sub (.name "hope")
    (.operator .mul (.operator .sub (.name "fear") (.number 42.0)) (.call "item" [.text "it's"]))

theorem parse_print_oath : oath.Printable ∧
    ∃ ls, lex "hope - ( fear -\n\t42 ) * item ( 'it\\'s' )" = .ok ls ∧ parse ls = .ok oath := by
  have hhope : ProperName "hope" := ⟨.part rfl (List.all_eq_true.1 rfl), by decide, by decide⟩
  have hfear : ProperName "fear" := ⟨.part rfl (List.all_eq_true.1 rfl), by decide, by decide⟩
  have hitem : ProperName "item" := ⟨.part rfl (List.all_eq_true.1 rfl), by decide, by decide⟩
  have hdigits : Digits ['4', '2'] := List.all_eq_true.1 rfl
  have hnumber : Spelling (.number 42.0) ['4', '2'] :=
    .number (.whole hdigits (List.cons_ne_nil _ _) .absent)
  have htext : Spelling (.text "it's") _ := .text (.inr rfl) "it's"
  have hopen : Spelling (.mark .open) ['('] := .mark (List.mem_cons_self ..)
  have hclose : Spelling (.mark .close) [')'] := .mark (List.mem_cons_self ..)
  have hminus : Spelling (.mark .minus) ['-'] := .mark (List.mem_cons_self ..)
  have hstar : Spelling (.mark .star) ['*'] := .mark (List.mem_cons_self ..)
  have more : ∀ {t : Token} {ts : List Token} {cs ds : List Char}, Spelling t cs → Written ts ds →
      Written (t :: ts) (cs ++ ([' '] ++ ds)) := fun h hds =>
    .more h (List.cons_ne_nil ' ' []) (List.all_eq_true.1 rfl) hds
  have hcall := more (.name hitem) (more hopen (more htext (.last hclose)))
  have hfactor := Written.more hminus (List.cons_ne_nil '\n' ['\t']) (List.all_eq_true.1 rfl)
    (more hnumber (more hclose (more hstar hcall)))
  have hwritten := more (.name hhope) (more hminus (more hopen (more (.name hfear) hfactor)))
  have hoath : oath.Printable := ⟨hhope, ⟨hfear, _, hnumber⟩, hitem, trivial, trivial⟩
  exact ⟨hoath, (parse_print hoath).2.1 _ hwritten⟩

end Scenario.Expr
