import Scenario.Proofs.FirstToken

/-!
Tilings: the tokens of a text and the blanks between them cover it, up to its end or to the fault
that lexing ends with.
-/

namespace Scenario.Expr

open Lexer

variable {cs rest used text : List Char} {c : Char} {offset : Nat} {ls found : List Lexeme}
  {t : Token}

/-! ### Bytes -/

theorem width_nil : width [] = 0 := rfl

theorem width_cons (c : Char) (cs : List Char) : width (c :: cs) = c.utf8Size + width cs := rfl

theorem width_append (cs ds : List Char) : width (cs ++ ds) = width cs + width ds := by
  induction cs with
  | nil => rw [List.nil_append, width_nil, Nat.zero_add]
  | cons c cs ih => rw [List.cons_append, width_cons, width_cons, ih, Nat.add_assoc]

theorem width_pos (h : cs ≠ []) : 0 < width cs := by
  obtain ⟨c, cs, rfl⟩ := List.exists_cons_of_ne_nil h
  rw [width_cons]
  exact Nat.add_pos_left c.utf8Size_pos _

/-! ### Tilings -/

/-- What tokens the text `used` holds, with `rest` behind it: each is read off the place where it
starts, they lie apart and in order, and all that is outside of them is blank. -/
structure Tiling (used rest : List Char) (ls : List Lexeme) : Prop where
  nonempty : ∀ l ∈ ls, l.start < l.stop
  inOrder : ls.Pairwise fun l m => l.start < m.start ∧ l.stop ≤ m.start
  longest : ∀ l ∈ ls, ∃ before text after, used = before ++ (text ++ after) ∧
    l.start = width before ∧ l.stop = width (before ++ text) ∧
    Munches (text ++ (after ++ rest)) text l.token
  blank : ∀ before c after, used = before ++ c :: after → isBlank c = false →
    ∃ l ∈ ls, l.start ≤ width before ∧ width (before ++ [c]) ≤ l.stop

namespace Tiling

theorem nil (rest : List Char) : Tiling [] rest [] where
  nonempty := by simp
  inOrder := .nil
  longest := by simp
  blank before c after h := by simp at h

theorem stop_le (h : Tiling used rest ls) : ∀ l ∈ ls, l.stop ≤ width used := by
  intro l hl
  obtain ⟨before, text, after, rfl, -, hstop, -⟩ := h.longest l hl
  rw [hstop, ← List.append_assoc, width_append (before ++ text)]
  exact Nat.le_add_right _ _

theorem longest_append (h : Tiling used (text ++ rest) ls) : ∀ l ∈ ls,
    ∃ before text' after, used ++ text = before ++ (text' ++ after) ∧
      l.start = width before ∧ l.stop = width (before ++ text') ∧
      Munches (text' ++ (after ++ rest)) text' l.token := by
  intro l hl
  obtain ⟨before, text', after, rfl, hstart, hstop, hmunches⟩ := h.longest l hl
  refine ⟨before, text', after ++ text, ?_, hstart, hstop, ?_⟩
  · simp only [List.append_assoc]
  · rwa [List.append_assoc]

theorem skip {b : Char} (h : Tiling used (b :: rest) ls) (hb : isBlank b = true) :
    Tiling (used ++ [b]) rest ls where
  nonempty := h.nonempty
  inOrder := h.inOrder
  longest := longest_append h
  blank before c after heq hc := by
    obtain rfl | ⟨after, d, rfl⟩ := List.eq_nil_or_concat after
    · obtain ⟨-, hcb⟩ := List.append_inj' heq rfl
      cases hcb
      rw [hb] at hc
      cases hc
    · rw [List.concat_eq_append, ← List.cons_append, ← List.append_assoc] at heq
      exact h.blank before c after (List.append_inj' heq rfl).1 hc

theorem take (h : Tiling used (text ++ rest) ls) (hm : Munches (text ++ rest) text t) :
    Tiling (used ++ text) rest (ls ++ [⟨t, width used, width (used ++ text)⟩]) where
  nonempty := by
    simp only [List.mem_append, List.mem_singleton]
    rintro l (hl | rfl)
    · exact h.nonempty l hl
    · obtain ⟨r, hr, -⟩ := hm.rule
      obtain ⟨c, ds, rfl, -⟩ := Rule.exists_lead hr
      have hpos := width_pos (List.cons_ne_nil c ds)
      simp only [width_append]
      omega
  inOrder := by
    refine List.pairwise_append.2 ⟨h.inOrder, List.pairwise_singleton _ _, fun l hl m hm => ?_⟩
    obtain rfl := List.mem_singleton.1 hm
    exact ⟨(h.nonempty l hl).trans_le (h.stop_le l hl), h.stop_le l hl⟩
  longest := by
    simp only [List.mem_append, List.mem_singleton]
    rintro l (hl | rfl)
    · exact h.longest_append l hl
    · exact ⟨used, text, [], by rw [List.append_nil], rfl, rfl, hm⟩
  blank before c after heq hc := by
    have hnew : ∀ more, before = used ++ more → text = more ++ c :: after →
        width used ≤ width before ∧ width (before ++ [c]) ≤ width (used ++ text) := by
      rintro more rfl rfl
      simp only [width_append, width_cons, width_nil]
      omega
    obtain ⟨more, hbefore, hmore⟩ | ⟨more, rfl, hmore⟩ := List.append_eq_append_iff.1 heq
    · exact ⟨_, List.mem_concat_self, hnew more hbefore hmore⟩
    · cases more with
      | nil => exact ⟨_, List.mem_concat_self, hnew [] (by simp) hmore.symm⟩
      | cons d more =>
        cases hmore
        obtain ⟨l, hl, hbounds⟩ := h.blank before c more rfl hc
        exact ⟨l, List.mem_append_left _ hl, hbounds⟩

end Tiling

/-! ### Runs of the lexer -/

/-- The loop of the lexer, stopped after a number of rounds: each skips a blank or takes a token.
What it ends with is what it has found, and a fault if one was in the way. -/
def Lexer.loop : Nat → List Lexeme → Nat → List Char → Option (List Lexeme × Option Fault)
  | 0, _, _, _ => none
  | _ + 1, found, _, [] => some (found, none)
  | rounds + 1, found, offset, c :: cs =>
    if isBlank c then loop rounds found (offset + c.utf8Size) cs
    else
      match scan c cs with
      | .error n => some (found, some ⟨String.ofList (c :: cs.take n), offset⟩)
      | .ok (token, n) =>
        let stop := offset + width (c :: cs.take n)
        loop rounds (found ++ [⟨token, offset, stop⟩]) stop (cs.drop n)

/-- The tokens that stand in a text from an offset on, with `rest` behind it. -/
inductive Tokenizes (rest : List Char) : Nat → List Char → List Lexeme → Prop
  | done (offset : Nat) : Tokenizes rest offset [] []
  | blank {offset : Nat} {b : Char} {cs : List Char} {ls : List Lexeme} (hb : isBlank b = true)
    (h : Tokenizes rest (offset + b.utf8Size) cs ls) : Tokenizes rest offset (b :: cs) ls
  | token {offset : Nat} {c : Char} {text cs : List Char} {t : Token} {ls : List Lexeme}
    (hc : isBlank c = false) (ht : Munches (c :: (text ++ (cs ++ rest))) (c :: text) t)
    (h : Tokenizes rest (offset + width (c :: text)) cs ls) :
    Tokenizes rest offset (c :: (text ++ cs)) (⟨t, offset, offset + width (c :: text)⟩ :: ls)

namespace Tokenizes

theorem tiling (h : Tokenizes rest offset cs ls) (hoffset : offset = width used)
    (hused : Tiling used (cs ++ rest) found) : Tiling (used ++ cs) rest (found ++ ls) := by
  induction h generalizing used found with
  | done offset => simpa using hused
  | @blank offset b cs ls hb _ ih =>
    have hskip := ih (by rw [hoffset, width_append]; rfl) (hused.skip hb)
    rwa [List.append_assoc] at hskip
  | @token offset c text cs t ls hc ht _ ih =>
    subst hoffset
    rw [List.cons_append, List.append_assoc, ← List.cons_append] at hused
    have htake := ih (by rw [width_append]) (hused.take ht)
    rw [width_append] at htake
    simpa using htake

theorem tiles (h : Tokenizes rest 0 cs ls) : Tiling cs rest ls := by
  have htiling := h.tiling width_nil.symm (.nil (cs ++ rest))
  exact htiling

theorem lexFrom_eq (h : Tokenizes rest offset cs ls) :
    lexFrom offset (cs ++ rest) = (lexFrom (offset + width cs) rest).map (ls ++ ·) := by
  induction h with
  | done offset =>
    rw [List.nil_append, width_nil, Nat.add_zero]
    cases lexFrom offset rest <;> rfl
  | @blank offset b cs ls hb _ ih =>
    rw [List.cons_append, lexFrom_blank hb, ih, width_cons, Nat.add_assoc]
  | @token offset c text cs t ls hc ht _ ih =>
    rw [List.cons_append, List.append_assoc, lexFrom, if_neg (by simp [hc]), scan_of_munches ht]
    simp only [List.take_left, List.drop_left]
    rw [ih, ← List.cons_append, width_append, Nat.add_assoc]
    cases lexFrom (offset + (width (c :: text) + width cs)) rest <;> rfl

theorem loop_eq (h : Tokenizes rest offset cs ls) (found : List Lexeme) :
    ∃ k ≤ cs.length, ∀ rounds, Lexer.loop (rounds + k) found offset (cs ++ rest) =
      Lexer.loop rounds (found ++ ls) (offset + width cs) rest := by
  induction h generalizing found with
  | done offset => exact ⟨0, Nat.le_refl 0, fun rounds => by simp [width_nil]⟩
  | @blank offset b cs ls hb _ ih =>
    obtain ⟨k, hk, hloop⟩ := ih found
    refine ⟨k + 1, Nat.succ_le_succ hk, fun rounds => ?_⟩
    rw [← Nat.add_assoc, List.cons_append, Lexer.loop, if_pos hb, hloop, width_cons, Nat.add_assoc]
  | @token offset c text cs t ls hc ht _ ih =>
    obtain ⟨k, hk, hloop⟩ := ih (found ++ [⟨t, offset, offset + width (c :: text)⟩])
    refine ⟨k + 1, ?_, fun rounds => ?_⟩
    · simp only [List.length_cons, List.length_append]
      omega
    · rw [← Nat.add_assoc, List.cons_append, List.append_assoc, Lexer.loop, if_neg (by simp [hc]),
        scan_of_munches ht]
      simp only [List.take_left, List.drop_left]
      rw [hloop, ← List.cons_append, width_append, Nat.add_assoc, List.append_assoc]
      rfl

theorem eq_nil (h : Tokenizes rest offset [] ls) : ls = [] := by
  cases h
  rfl

/-- Without what stands behind a text its tokens are the same, but for the last one where that is
the name of a number with a point right behind it. -/
theorem cut (h : Tokenizes rest offset cs ls) :
    ∃ ls', Tokenizes [] offset cs ls' ∧ (ls' = ls ∨ ∃ ms l x, ls = ms ++ [l] ∧
      l.stop = offset + width cs ∧ rest.head? = some '.' ∧ NamesNumber l.token x ∧
      ls' = ms ++ [⟨x, l.start, l.stop⟩]) := by
  induction h with
  | done offset => exact ⟨[], .done offset, .inl rfl⟩
  | @blank offset b cs ls hb _ ih =>
    rw [width_cons, ← Nat.add_assoc]
    obtain ⟨ls', hls', hlast⟩ := ih
    exact ⟨ls', .blank hb hls', hlast⟩
  | @token offset c text cs t ls hc ht htail ih =>
    rw [← List.cons_append] at ht
    obtain ⟨t', ht', htoken⟩ := ht.cut
    obtain ⟨ls', hls', hlast⟩ := ih
    have ht'' : Munches (c :: (text ++ (cs ++ []))) (c :: text) t' := by
      rwa [List.append_nil]
    refine ⟨_, .token hc ht'' hls', ?_⟩
    obtain rfl | ⟨rfl, hpoint, hnames⟩ := htoken
    · obtain rfl | ⟨ms, l, x, rfl, hstop, hpoint, hnames, rfl⟩ := hlast
      · exact .inl rfl
      · refine .inr ⟨_ :: ms, l, x, rfl, ?_, hpoint, hnames, rfl⟩
        rw [hstop, ← List.cons_append, width_append, Nat.add_assoc]
    · rw [htail.eq_nil, hls'.eq_nil, List.append_nil]
      exact .inr ⟨[], _, t', rfl, rfl, hpoint, hnames, rfl⟩

end Tokenizes

theorem exists_tokenizes (offset : Nat) (cs : List Char) :
    ∃ used rest ls, cs = used ++ rest ∧ Tokenizes rest offset used ls ∧
      (rest = [] ∨ ∃ c ds, rest = c :: ds ∧ isBlank c = false ∧ Absent lexical rest) := by
  -- on the length, since a token takes several characters at once
  induction hlength : cs.length using Nat.strong_induction_on generalizing offset cs with
  | _ n ih =>
    cases cs with
    | nil => exact ⟨[], [], [], rfl, .done offset, .inl rfl⟩
    | cons c cs =>
      by_cases hc : isBlank c = true
      · obtain ⟨used, rest, ls, rfl, hused, hend⟩ :=
          ih cs.length (by rw [← hlength]; exact Nat.lt_succ_self _) (offset + c.utf8Size) cs rfl
        exact ⟨c :: used, rest, ls, rfl, .blank hc hused, hend⟩
      · rw [Bool.not_eq_true] at hc
        have hfinds := finds_scan c cs
        generalize scan c cs = result at hfinds
        cases hfinds with
        | @token text t ht =>
          obtain ⟨ds, hds⟩ := ht.atStart
          obtain rfl : cs = text ++ ds := (List.cons.inj hds).2.symm
          obtain ⟨used, rest, ls, rfl, hused, hend⟩ :=
            ih ds.length (by simp at hlength; omega) (offset + width (c :: text)) ds rfl
          refine ⟨c :: (text ++ used), rest, _, ?_, .token hc ht hused, hend⟩
          simp only [List.cons_append, List.append_assoc]
        | nothing h => exact ⟨[], c :: cs, [], rfl, .done offset, .inr ⟨c, cs, rfl, hc, h⟩⟩

/-- How the loop of the lexer ends on a text, once it has rounds enough: more than characters. -/
def Lexer.Ends (source : String) (found : List Lexeme) (fault? : Option Fault) : Prop :=
  ∀ rounds, source.length < rounds → loop rounds [] 0 source.toList = some (found, fault?)

theorem Tokenizes.ends {source : String} {fault? : Option Fault} (h : Tokenizes rest 0 used ls)
    (hsource : source.toList = used ++ rest)
    (hend : ∀ rounds, Lexer.loop (rounds + 1) ls (width used) rest = some (ls, fault?)) :
    Lexer.Ends source ls fault? := by
  intro rounds hrounds
  obtain ⟨k, hk, hloop⟩ := h.loop_eq []
  have hlength : source.length = used.length + rest.length := by
    rw [← String.length_toList, hsource, List.length_append]
  obtain ⟨more, rfl⟩ : ∃ more, rounds = more + 1 + k := ⟨rounds - 1 - k, by omega⟩
  rw [hsource, hloop, Nat.zero_add]
  exact hend more

theorem Tokenizes.lex_eq {source : String} (h : Tokenizes [] 0 source.toList ls) :
    lex source = .ok ls := by
  have hdone : lexFrom (0 + width source.toList) [] = .ok [] := by rw [lexFrom]
  have hlex := h.lexFrom_eq
  rw [hdone, List.append_nil] at hlex
  rw [lex, hlex]
  exact congrArg Except.ok (List.append_nil ls)

theorem scan_of_absent (h : Absent lexical (c :: cs)) : ∃ n, scan c cs = .error n := by
  have hfinds := finds_scan c cs
  generalize scan c cs = result at hfinds
  cases hfinds with
  | token ht => exact absurd ht.atStart (h _ ht.mem)
  | @nothing n _ => exact ⟨n, rfl⟩

/-- On every text the loop ends, and as `lex` does. -/
theorem exists_ends (source : String) :
    (∃ ls, Tokenizes [] 0 source.toList ls ∧ lex source = .ok ls ∧ Lexer.Ends source ls none) ∨
      ∃ used c rest ls fault, source.toList = used ++ c :: rest ∧
        Tokenizes (c :: rest) 0 used ls ∧ isBlank c = false ∧ Absent lexical (c :: rest) ∧
        fault.offset = width used ∧ lex source = .error fault ∧
        Lexer.Ends source ls (some fault) := by
  obtain ⟨used, rest, ls, hsource, hused, hend⟩ := exists_tokenizes 0 source.toList
  obtain rfl | ⟨c, rest, rfl, hc, habsent⟩ := hend
  · left
    rw [List.append_nil] at hsource
    subst hsource
    exact ⟨ls, hused, hused.lex_eq, hused.ends (List.append_nil _).symm fun _ => rfl⟩
  · right
    obtain ⟨n, hscan⟩ := scan_of_absent habsent
    have hlex : lex source = .error ⟨String.ofList (c :: rest.take n), width used⟩ := by
      rw [lex, hsource, hused.lexFrom_eq, Nat.zero_add, lexFrom, if_neg (by simp [hc]), hscan]
      rfl
    have hends : ∀ rounds, Lexer.loop (rounds + 1) ls (width used) (c :: rest) =
        some (ls, some ⟨String.ofList (c :: rest.take n), width used⟩) := by
      intro rounds
      rw [Lexer.loop, if_neg (by simp [hc]), hscan]
    exact ⟨used, c, rest, ls, _, hsource, hused, hc, habsent, rfl, hlex, hused.ends hsource hends⟩

/-- Lexing comes to an end on every text. Either the tokens tile the text, or they tile all before
the fault, where neither a blank nor a token stands; what is before the fault gives the same tokens
by itself, but for the name of a number that the fault, a point, is right behind. -/
theorem lex_tiles (source : String) :
    (∃ ls, lex source = .ok ls ∧ Lexer.Ends source ls none ∧ Tiling source.toList [] ls) ∨
      ∃ fault found before c rest, lex source = .error fault ∧
        Lexer.Ends source found (some fault) ∧ source.toList = before ++ c :: rest ∧
        fault.offset = width before ∧ isBlank c = false ∧ Absent lexical (c :: rest) ∧
        Tiling before (c :: rest) found ∧
        (lex (String.ofList before) = .ok found ∨ ∃ ls l x, found = ls ++ [l] ∧
          l.stop = fault.offset ∧ c = '.' ∧ NamesNumber l.token x ∧
          lex (String.ofList before) = .ok (ls ++ [⟨x, l.start, l.stop⟩])) := by
  obtain ⟨ls, hls, hlex, hends⟩ |
    ⟨used, c, rest, ls, fault, hsource, hused, hc, habsent, hoffset, hlex, hends⟩ :=
    exists_ends source
  · exact .inl ⟨ls, hlex, hends, hls.tiles⟩
  · right
    refine ⟨fault, ls, used, c, rest, hlex, hends, hsource, hoffset, hc, habsent, hused.tiles, ?_⟩
    obtain ⟨ls', hls', hlast⟩ := hused.cut
    rw [← String.toList_ofList (l := used)] at hls'
    obtain rfl | ⟨ms, l, x, rfl, hstop, hpoint, hnames, rfl⟩ := hlast
    · exact .inl hls'.lex_eq
    · refine .inr ⟨ms, l, x, rfl, ?_, Option.some.inj hpoint, hnames, hls'.lex_eq⟩
      rw [hstop, hoffset, Nat.zero_add]

/-- A point makes a name of `NaN`, though it is not of the name and is a fault by itself. -/
theorem point_behind_number_name :
    lex "NaN" = .ok [⟨.number notANumber, 0, 3⟩] ∧
      lex "NaN." = .error ⟨".", 3⟩ ∧ Lexer.Ends "NaN." [⟨.name "NaN", 0, 3⟩] (some ⟨".", 3⟩) ∧
      ∃ x, lex "NaN.5" = .ok [⟨.name "NaN", 0, 3⟩, ⟨.number x, 3, 5⟩] := by
  have hnumber : scan 'N' ['a', 'N'] = .ok (.number notANumber, 2) := rfl
  have hpoint : scan 'N' ['a', 'N', '.'] = .ok (.name "NaN", 2) := rfl
  have hfraction : scan 'N' ['a', 'N', '.', '5'] = .ok (.name "NaN", 2) := rfl
  obtain ⟨x, hx⟩ : ∃ x, scan '.' ['5'] = .ok (.number x, 1) := ⟨_, rfl⟩
  refine ⟨?_, ?_, ?_, x, ?_⟩
  · change lexFrom 0 ['N', 'a', 'N'] = _
    rw [lexFrom, if_neg (by decide), hnumber]
    change (lexFrom 3 []).map _ = _
    rw [lexFrom]
    rfl
  · change lexFrom 0 ['N', 'a', 'N', '.'] = _
    rw [lexFrom, if_neg (by decide), hpoint]
    change (lexFrom 3 ['.']).map _ = _
    rw [lexFrom]
    rfl
  · intro rounds hrounds
    obtain ⟨more, rfl⟩ : ∃ more, rounds = more + 5 := Nat.exists_eq_add_of_le' hrounds
    rfl
  · change lexFrom 0 ['N', 'a', 'N', '.', '5'] = _
    rw [lexFrom, if_neg (by decide), hfraction]
    change (lexFrom 3 ['.', '5']).map _ = _
    rw [lexFrom, if_neg (by decide), hx]
    change ((lexFrom 5 []).map _).map _ = _
    rw [lexFrom]
    rfl

end Scenario.Expr
