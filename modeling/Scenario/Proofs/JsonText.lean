import Scenario.Json.Reader
import Scenario.Proofs.Magnitudes
import Scenario.Proofs.Spelling

/-!
JSON values read back from the text that is written for them, as long as their numbers do: texts
with any characters, integers of up to 128 bits, lists and objects in any order and nested as deep
as a reader goes.
-/

namespace Scenario.Json

open Reader

/-! ### What stands behind a value -/

/-- The end of the text, or a character that ends a value. -/
def Closed (rest : List Char) : Prop := ∀ c ∈ rest.head?, c = ',' ∨ c = ']' ∨ c = '\x7d'

theorem closed_nil : Closed [] := by
  rintro _ ⟨⟩

theorem closed_cons {c : Char} (h : c = ',' ∨ c = ']' ∨ c = '\x7d') (rest : List Char) :
    Closed (c :: rest) := by
  rintro _ ⟨⟩
  exact h

/-- What a reader takes off a text, and the rest of the text, but for blanks. -/
def Takes {α : Type} {n : Nat} (read : Option (Step α n)) (a : α) (rest : List Char) : Prop :=
  ∃ step, read = some step ∧ step.value = a ∧ skipBlanks step.rest = skipBlanks rest

theorem skipBlanks_cons {c : Char} (h : isBlank c = false) (cs : List Char) :
    skipBlanks (c :: cs) = c :: cs := by
  unfold skipBlanks
  rw [List.dropWhile_cons_of_neg (by simp [h])]

theorem skipBlanks_append_of_nil {cs : List Char} (h : skipBlanks cs = []) (rest : List Char) :
    skipBlanks (cs ++ rest) = skipBlanks rest := by
  unfold skipBlanks at h ⊢
  rw [List.dropWhile_append, h]
  rfl

theorem skipBlanks_append_of_cons {c : Char} {cs ds : List Char} (h : skipBlanks cs = c :: ds)
    (rest : List Char) : skipBlanks (cs ++ rest) = c :: (ds ++ rest) := by
  unfold skipBlanks at h ⊢
  rw [List.dropWhile_append, h]
  rfl

theorem isBlank_of_isDigit {c : Char} (h : c.isDigit = true) : isBlank c = false := by
  rw [← Bool.not_eq_true]
  intro hblank
  have hcases : c = ' ' ∨ c = '\t' ∨ c = '\n' ∨ c = '\r' := by
    simpa [isBlank, or_assoc] using hblank
  rcases hcases with rfl | rfl | rfl | rfl <;> cases h

theorem exists_next? {c : Char} {cs rest : List Char} (h : skipBlanks cs = c :: rest) :
    ∃ hlt, next? cs = some (c, ⟨rest, hlt⟩) := by
  have hlt : rest.length < cs.length := by
    have hle := length_skipBlanks_le cs
    rw [h] at hle
    exact hle
  refine ⟨hlt, ?_⟩
  unfold next?
  split
  · rename_i hnil
    rw [hnil] at h
    cases h
  · rename_i c' rest' hcons
    rw [hcons] at h
    cases h
    rfl

theorem exists_skipBlanks {c : Char} {cs : List Char}
    {rest : { rest : List Char // rest.length < cs.length }} (h : next? cs = some (c, rest)) :
    skipBlanks cs = c :: rest.1 := by
  unfold next? at h
  split at h
  · cases h
  · rename_i c' rest' hcons
    cases h
    exact hcons

/-! ### Numbers -/

section Runs

variable {p : Char → Bool} {rest : List Char} (h : ∀ c ∈ rest.head?, p c = false)

include h

theorem takeWhile_append_of_head (cs : List Char) :
    (cs ++ rest).takeWhile p = cs.takeWhile p := by
  induction cs with
  | nil =>
    cases rest with
    | nil => rfl
    | cons c rest => simp [h c rfl]
  | cons c cs ih => by_cases hc : p c <;> simp [hc, ih]

theorem dropWhile_append_of_head (cs : List Char) :
    (cs ++ rest).dropWhile p = cs.dropWhile p ++ rest := by
  induction cs with
  | nil =>
    cases rest with
    | nil => rfl
    | cons c rest => simp [h c rfl]
  | cons c cs ih => by_cases hc : p c <;> simp [hc, ih]

end Runs

theorem Closed.isDigit {rest : List Char} (h : Closed rest) :
    ∀ c ∈ rest.head?, c.isDigit = false := by
  intro c hc
  rcases h c hc with rfl | rfl | rfl <;> rfl

theorem Closed.powerSign {rest : List Char} (h : Closed rest) :
    Expr.powerSign rest = (false, 0) := by
  cases rest with
  | nil => rfl
  | cons c rest => rcases h c rfl with rfl | rfl | rfl <;> rfl

theorem powerSign_append {rest : List Char} (h : Closed rest) (cs : List Char) :
    Expr.powerSign (cs ++ rest) = Expr.powerSign cs := by
  cases cs with
  | nil => exact h.powerSign
  | cons c cs =>
    unfold Expr.powerSign
    split <;> simp_all

theorem powerSign_le (cs : List Char) : (Expr.powerSign cs).2 ≤ cs.length := by
  unfold Expr.powerSign
  split
  · exact Nat.succ_le_succ (Nat.zero_le _)
  · exact Nat.succ_le_succ (Nat.zero_le _)
  · exact Nat.zero_le _

theorem scanPower_of_ne {c : Char} (h : ¬ (c = 'e' ∨ c = 'E')) (cs : List Char) :
    Numeral.scanPower (c :: cs) = (0, 0) :=
  if_neg h

theorem Closed.scanPower {rest : List Char} (h : Closed rest) :
    Numeral.scanPower rest = (0, 0) := by
  cases rest with
  | nil => rfl
  | cons c rest => rcases h c rfl with rfl | rfl | rfl <;> rfl

theorem scanPower_append {rest : List Char} (h : Closed rest) (cs : List Char) :
    Numeral.scanPower (cs ++ rest) = Numeral.scanPower cs := by
  cases cs with
  | nil => exact h.scanPower
  | cons e cs =>
    rw [List.cons_append]
    by_cases he : e = 'e' ∨ e = 'E'
    · have hdrop : (cs ++ rest).drop (Expr.powerSign cs).2 =
          cs.drop (Expr.powerSign cs).2 ++ rest :=
        List.drop_append_of_le_length (powerSign_le cs)
      rw [Expr.scanPower_cons he, Expr.scanPower_cons he, powerSign_append h, hdrop,
        takeWhile_append_of_head h.isDigit]
    · rw [scanPower_of_ne he, scanPower_of_ne he]

theorem scanPower_le (cs : List Char) : (Numeral.scanPower cs).2 ≤ cs.length := by
  cases cs with
  | nil => exact Nat.le_refl 0
  | cons e cs =>
    by_cases he : e = 'e' ∨ e = 'E'
    · have hsign := powerSign_le cs
      have hdigits : ((cs.drop (Expr.powerSign cs).2).takeWhile Char.isDigit).length ≤
          (cs.drop (Expr.powerSign cs).2).length := (List.takeWhile_prefix _).length_le
      rw [List.length_drop] at hdigits
      rw [Expr.scanPower_cons he]
      dsimp only
      split
      · exact Nat.zero_le _
      · rw [List.length_cons]
        omega
    · rw [scanPower_of_ne he]
      exact Nat.zero_le _

/-- What a reader of numbers finds in a text stays when something closed stands behind it. -/
theorem behindFraction_append {negative : Bool} {whole fraction cs rest : List Char} {used : Nat}
    {j : Json} {n : Nat} (h : unsigned.behindFraction negative whole fraction used cs = some (j, n))
    (hrest : Closed rest) :
    unsigned.behindFraction negative whole fraction used (cs ++ rest) = some (j, n) ∧
      n ≤ whole.length + used + cs.length := by
  have hhead : (decide ((cs ++ rest).head? = some 'e') || decide ((cs ++ rest).head? = some 'E')) =
      (decide (cs.head? = some 'e') || decide (cs.head? = some 'E')) := by
    cases cs with
    | nil =>
      cases rest with
      | nil => rfl
      | cons c rest => rcases hrest c rfl with rfl | rfl | rfl <;> rfl
    | cons c cs => rfl
  have hle := scanPower_le cs
  unfold unsigned.behindFraction at h ⊢
  rw [scanPower_append hrest, hhead]
  refine ⟨h, ?_⟩
  dsimp only at h
  split at h
  · cases h
  · split at h
    · cases h
      omega
    · cases h
      omega

theorem unsigned_append {negative : Bool} {cs rest : List Char} {j : Json} {n : Nat}
    (h : unsigned negative cs = some (j, n)) (hrest : Closed rest) :
    unsigned negative (cs ++ rest) = some (j, n) ∧ n ≤ cs.length := by
  have hlength :=
    congrArg List.length (List.takeWhile_append_dropWhile (p := Char.isDigit) (l := cs))
  rw [List.length_append] at hlength
  unfold unsigned at h ⊢
  dsimp only at h ⊢
  rw [takeWhile_append_of_head hrest.isDigit, dropWhile_append_of_head hrest.isDigit]
  split at h
  · cases h
  · rename_i hwhole
    rw [if_neg hwhole]
    split at h
    · rename_i ds hpoint
      rw [hpoint] at hlength ⊢
      have hdigits := congrArg List.length
        (List.takeWhile_append_dropWhile (p := Char.isDigit) (l := ds))
      rw [List.length_append] at hdigits
      simp only [List.cons_append]
      rw [takeWhile_append_of_head hrest.isDigit, dropWhile_append_of_head hrest.isDigit]
      split at h
      · cases h
      · rename_i hfraction
        rw [if_neg hfraction]
        obtain ⟨hread, hle⟩ := behindFraction_append h hrest
        rw [List.length_cons] at hlength
        exact ⟨hread, by omega⟩
    · rename_i hpoint
      obtain ⟨hread, hle⟩ := behindFraction_append h hrest
      refine ⟨?_, by omega⟩
      split
      · rename_i ds hcons
        obtain hnil | ⟨c, ds', hcs⟩ : cs.dropWhile Char.isDigit = [] ∨
            ∃ c ds', cs.dropWhile Char.isDigit = c :: ds' := by
          cases cs.dropWhile Char.isDigit with
          | nil => exact .inl rfl
          | cons c ds' => exact .inr ⟨c, ds', rfl⟩
        · rw [hnil, List.nil_append] at hcons
          rw [hcons] at hrest
          rcases hrest '.' rfl with hne | hne | hne <;> cases hne
        · rw [hcs, List.cons_append] at hcons
          cases hcons
          exact absurd hcs (hpoint _)
      · exact hread

theorem head?_toDigits {n : Nat} (hn : 0 < n) : (Nat.toDigits 10 n).head? ≠ some '0' := by
  induction n using Nat.strongRecOn with
  | _ n ih =>
    rw [Nat.toDigits_eq_if (by decide)]
    split
    · rename_i hlt
      have hdigit : ∀ i : Fin 10, 0 < i.1 → i.1.digitChar ≠ '0' := by decide
      intro hzero
      exact hdigit ⟨n, hlt⟩ hn (Option.some.inj hzero)
    · have hlead := ih (n / 10) (by omega) (by omega)
      rw [List.head?_append]
      cases hhead : (Nat.toDigits 10 (n / 10)).head? with
      | none => exact absurd (List.head?_eq_none_iff.1 hhead) Nat.toDigits_ne_nil
      | some d => rwa [hhead] at hlead

theorem unsigned_digits (negative : Bool) {n : Nat} (hn : n < 2 ^ 128) :
    unsigned negative (Nat.toDigits 10 n) =
      some (.integer negative n, (Nat.toDigits 10 n).length) := by
  have hdigits : ∀ d ∈ Nat.toDigits 10 n, d.isDigit = true := fun d hd =>
    Nat.isDigit_of_mem_toDigits (by decide) (by decide) hd
  have htake : (Nat.toDigits 10 n ++ []).takeWhile Char.isDigit = _ :=
    List.takeWhile_append_of_pos hdigits
  have hdrop : (Nat.toDigits 10 n ++ []).dropWhile Char.isDigit = _ :=
    List.dropWhile_append_of_pos hdigits
  rw [List.append_nil, List.takeWhile_nil, List.append_nil] at htake
  rw [List.append_nil, List.dropWhile_nil] at hdrop
  have hvalue : Decimal.ofDigits (Nat.toDigits 10 n) = n := Nat.ofDigitChars_ten_toDigits
  have hlead : ¬ ((Nat.toDigits 10 n).isEmpty || (decide ((Nat.toDigits 10 n).head? = some '0') &&
      decide (1 < (Nat.toDigits 10 n).length))) = true := by
    rw [List.isEmpty_eq_false_iff.2 Nat.toDigits_ne_nil, Bool.false_or, Bool.and_eq_true,
      decide_eq_true_eq, decide_eq_true_eq]
    rintro ⟨hzero, hlong⟩
    obtain rfl | hpos := Nat.eq_zero_or_pos n
    · revert hlong
      decide
    · exact head?_toDigits hpos hzero
  unfold unsigned
  dsimp only
  rw [htake, hdrop, if_neg hlead]
  dsimp only
  unfold unsigned.behindFraction
  dsimp only
  rw [hvalue, if_pos (isSome_ofInteger? negative hn)]
  rfl

/-! ### Strings -/

theorem hex?_control {n : Nat} (hn : n < 32) :
    hex? '0' '0' (hexDigit (n / 16)) (hexDigit (n % 16)) = some n := by
  have hall : ∀ i : Fin 32,
      hex? '0' '0' (hexDigit (i.1 / 16)) (hexDigit (i.1 % 16)) = some i.1 := by decide
  exact hall ⟨n, hn⟩

theorem stringParts_plain {c : Char} (hquote : c ≠ '"') (hbackslash : c ≠ '\\')
    (hcontrol : ¬ c.toNat < 32) {cs rest : List Char} {parts : List Part}
    (h : ∃ hlt, stringParts cs = some ⟨parts, rest, hlt⟩) :
    ∃ hlt, stringParts (c :: cs) = some ⟨.char c :: parts, rest, hlt⟩ := by
  obtain ⟨hlt, h⟩ := h
  refine ⟨Nat.lt_succ_of_lt hlt, ?_⟩
  rw [stringParts]
  · rw [if_neg hcontrol]
    simp only [h]
  · exact hquote
  · intro a b c d cs heq
    exact absurd heq hbackslash
  · intro e cs heq
    exact absurd heq hbackslash

theorem stringParts_escape {c : Char} {cs rest : List Char} {parts : List Part}
    (h : ∃ hlt, stringParts cs = some ⟨parts, rest, hlt⟩) :
    ∃ hlt, stringParts (escape c ++ cs) = some ⟨.char c :: parts, rest, hlt⟩ := by
  generalize hes : escape c = es
  unfold escape at hes
  split at hes
  case h_8 hquote hbackslash _ _ _ _ _ =>
    split at hes
    · rename_i hcontrol
      subst hes
      obtain ⟨hlt, h⟩ := h
      have hchar : ¬ (0xD800 ≤ c.toNat ∧ c.toNat < 0xE000) := by omega
      refine ⟨Nat.lt_of_lt_of_le hlt (Nat.le_add_right _ 6), ?_⟩
      dsimp only [List.cons_append, List.nil_append]
      rw [stringParts]
      simp only [hex?_control hcontrol, h, if_neg hchar, Char.ofNat_toNat]
    · rename_i hcontrol
      subst hes
      exact stringParts_plain hquote hbackslash hcontrol h
  all_goals
    subst hes
    obtain ⟨hlt, h⟩ := h
    refine ⟨Nat.lt_of_lt_of_le hlt (Nat.le_add_right _ 2), ?_⟩
    dsimp only [List.cons_append, List.nil_append]
    rw [stringParts]
    simp only [h]

theorem stringParts_escaped (cs rest : List Char) :
    ∃ hlt, stringParts (cs.flatMap escape ++ '"' :: rest) = some ⟨cs.map .char, rest, hlt⟩ := by
  induction cs with
  | nil => exact ⟨by simp, stringParts.eq_def _⟩
  | cons c cs ih =>
    rw [List.flatMap_cons, List.append_assoc]
    exact stringParts_escape ih

theorem joinParts_chars (cs : List Char) : joinParts (cs.map .char) = some cs := by
  induction cs with
  | nil => rfl
  | cons c cs ih =>
    rw [List.map_cons, joinParts, ih]
    rfl

theorem string_quoted (s : String) (rest : List Char) :
    ∃ hlt, Reader.string (s.toList.flatMap escape ++ '"' :: rest) = some ⟨some s, rest, hlt⟩ := by
  obtain ⟨hlt, hparts⟩ := stringParts_escaped s.toList rest
  refine ⟨hlt, ?_⟩
  unfold Reader.string
  rw [hparts, Option.map_some, joinParts_chars, Option.map_some, String.ofList_toList]

/-! ### Values -/

/-- The text of a double reads back as that double. -/
def ReadsBack (x : Float) : Prop := read? (Json.double x).render = some (.double x)

mutual

/-- Values that a text can tell: integers of up to 128 bits, and doubles whose text reads back. -/
def Faithful : Json → Prop
  | .null | .bool _ | .string _ => True
  | .integer _ n => n < 2 ^ 128
  | .double x => ReadsBack x
  | .array js => FaithfulItems js
  | .object ms => FaithfulMembers ms
  | .unreadable => False

def FaithfulItems : List Json → Prop
  | [] => True
  | j :: js => j.Faithful ∧ FaithfulItems js

def FaithfulMembers : List (String × Json) → Prop
  | [] => True
  | (_, j) :: ms => j.Faithful ∧ FaithfulMembers ms

end

section Next

variable {levels : Nat} {cs ds rest : List Char}

theorem value_null (h : skipBlanks cs = 'n' :: 'u' :: 'l' :: 'l' :: rest) :
    Takes (value levels cs) .null rest := by
  obtain ⟨hlt, hnext⟩ := exists_next? h
  rw [value.eq_def]
  simp only [hnext]
  exact ⟨_, rfl, rfl, rfl⟩

theorem value_true (h : skipBlanks cs = 't' :: 'r' :: 'u' :: 'e' :: rest) :
    Takes (value levels cs) (.bool true) rest := by
  obtain ⟨hlt, hnext⟩ := exists_next? h
  rw [value.eq_def]
  simp only [hnext]
  exact ⟨_, rfl, rfl, rfl⟩

theorem value_false (h : skipBlanks cs = 'f' :: 'a' :: 'l' :: 's' :: 'e' :: rest) :
    Takes (value levels cs) (.bool false) rest := by
  obtain ⟨hlt, hnext⟩ := exists_next? h
  rw [value.eq_def]
  simp only [hnext]
  exact ⟨_, rfl, rfl, rfl⟩

theorem value_string {s : String} (h : skipBlanks cs = '"' :: ds)
    (hs : ∃ hlt, Reader.string ds = some ⟨some s, rest, hlt⟩) :
    Takes (value levels cs) (.string s) rest := by
  obtain ⟨hlt, hnext⟩ := exists_next? h
  obtain ⟨hlt', hs⟩ := hs
  rw [value.eq_def]
  simp only [hnext, hs]
  exact ⟨_, rfl, rfl, rfl⟩

theorem value_array {js : List Json} (h : skipBlanks cs = '[' :: ds)
    (hjs : Takes (items levels ds) js rest) :
    Takes (value (levels + 1) cs) (.array js) rest := by
  obtain ⟨hlt, hnext⟩ := exists_next? h
  obtain ⟨step, hitems, rfl, hskip⟩ := hjs
  rw [value.eq_def]
  simp only [hnext, Nat.add_sub_cancel, hitems, Nat.add_one_ne_zero, if_false]
  exact ⟨_, rfl, rfl, hskip⟩

theorem value_object {ms : List (String × Json)} (h : skipBlanks cs = '\x7b' :: ds)
    (hms : Takes (members levels ds) (some ms) rest) :
    Takes (value (levels + 1) cs) (.object ms) rest := by
  obtain ⟨hlt, hnext⟩ := exists_next? h
  obtain ⟨⟨_, rest', hlt'⟩, hmembers, rfl, hskip⟩ := hms
  rw [value.eq_def]
  simp only [hnext, Nat.add_sub_cancel, hmembers, Nat.add_one_ne_zero, if_false]
  exact ⟨_, rfl, rfl, hskip⟩

theorem value_negative {j : Json} {n : Nat} (h : skipBlanks cs = '-' :: ds)
    (hj : unsigned true ds = some (j, n)) : Takes (value levels cs) j (ds.drop n) := by
  obtain ⟨hlt, hnext⟩ := exists_next? h
  rw [value.eq_def]
  simp only [hnext, hj]
  exact ⟨_, rfl, rfl, rfl⟩

theorem unsigned_cons {negative : Bool} {c : Char} (hc : c.isDigit = false) (cs : List Char) :
    unsigned negative (c :: cs) = none := by
  unfold unsigned
  dsimp only
  rw [List.takeWhile_cons_of_neg (by simp [hc])]
  rfl

theorem value_positive {c : Char} {j : Json} {n : Nat} (h : skipBlanks cs = c :: ds)
    (hj : unsigned false (c :: ds) = some (j, n)) :
    Takes (value levels cs) j (ds.drop (n - 1)) := by
  obtain ⟨hlt, hnext⟩ := exists_next? h
  have hdigit : c.isDigit ≠ false := by
    intro hc
    rw [unsigned_cons hc] at hj
    cases hj
  rw [value.eq_def]
  simp only [hnext]
  split
  case h_8 =>
    simp only [hj]
    exact ⟨_, rfl, rfl, rfl⟩
  all_goals exact absurd rfl hdigit

/-- Closing brackets start no value. -/
theorem value_bracket (h : skipBlanks cs = ']' :: ds) : value levels cs = none := by
  obtain ⟨hlt, hnext⟩ := exists_next? h
  rw [value.eq_def]
  simp [hnext, unsigned_cons (show (']').isDigit = false from rfl)]

/-- Doubles start with a minus or a digit. -/
theorem value_eq_double {x : Float} {step : Step Json cs.length}
    (h : value levels cs = some step) (hx : step.value = .double x) :
    (∃ ds n, skipBlanks cs = '-' :: ds ∧ unsigned true ds = some (.double x, n) ∧
      step.rest = ds.drop n) ∨
    (∃ c ds n, skipBlanks cs = c :: ds ∧ unsigned false (c :: ds) = some (.double x, n) ∧
      step.rest = ds.drop (n - 1)) := by
  rw [value.eq_def] at h
  split at h
  · cases h
  rename_i c ds hlt hnext
  have hskip := exists_skipBlanks hnext
  split at h
  case h_4 =>
    split at h
    · rename_i j n hj
      cases h
      cases hx
      exact .inl ⟨ds, n, hskip, hj, rfl⟩
    · cases h
  case h_8 =>
    split at h
    · rename_i j n hj
      cases h
      cases hx
      exact .inr ⟨c, ds, n, hskip, hj, rfl⟩
    · cases h
  all_goals
    repeat' split at h
    all_goals cases h <;> cases hx

theorem items_nil (h : skipBlanks cs = ']' :: ds) : Takes (items levels cs) [] ds := by
  obtain ⟨hlt, hnext⟩ := exists_next? h
  rw [items.eq_def]
  simp only [hnext]
  exact ⟨_, rfl, rfl, rfl⟩

theorem items_of_moreItems {js : List Json} (h : Takes (moreItems levels cs) js rest) :
    Takes (items levels cs) js rest := by
  rw [items.eq_def]
  split
  · rename_i hnext
    obtain ⟨_, hitems, -⟩ := h
    rw [moreItems.eq_def, value_bracket (exists_skipBlanks hnext)] at hitems
    cases hitems
  · exact h

theorem moreItems_last {j : Json} (h : Takes (value levels cs) j ds)
    (hds : skipBlanks ds = ']' :: rest) : Takes (moreItems levels cs) [j] rest := by
  obtain ⟨step, hvalue, rfl, hskip⟩ := h
  obtain ⟨hlt, hnext⟩ := exists_next? (hskip.trans hds)
  rw [moreItems.eq_def]
  simp only [hvalue, hnext]
  exact ⟨_, rfl, rfl, rfl⟩

theorem moreItems_cons {j : Json} {js : List Json} (h : Takes (value levels cs) j (',' :: ds))
    (hjs : Takes (moreItems levels ds) js rest) : Takes (moreItems levels cs) (j :: js) rest := by
  obtain ⟨step, hvalue, rfl, hskip⟩ := h
  obtain ⟨step', hitems, rfl, hskip'⟩ := hjs
  obtain ⟨hlt, hnext⟩ := exists_next? (hskip.trans (skipBlanks_cons rfl ds))
  rw [moreItems.eq_def]
  simp only [hvalue, hnext, hitems]
  exact ⟨_, rfl, rfl, hskip'⟩

theorem members_nil (h : skipBlanks cs = '\x7d' :: ds) :
    Takes (members levels cs) (some []) ds := by
  obtain ⟨hlt, hnext⟩ := exists_next? h
  rw [members.eq_def]
  simp only [hnext]
  exact ⟨_, rfl, rfl, rfl⟩

theorem members_of_moreMembers {ms : Option (List (String × Json))}
    (h : Takes (moreMembers levels cs) ms rest) : Takes (members levels cs) ms rest := by
  rw [members.eq_def]
  split
  · rename_i hnext
    obtain ⟨_, hmembers, -⟩ := h
    rw [moreMembers.eq_def, hnext] at hmembers
    cases hmembers
  · exact h

section Member

variable {key : String} {j : Json} {text body : List Char}
  (h : skipBlanks cs = '"' :: text)
  (hkey : ∃ hlt, Reader.string text = some ⟨some key, ':' :: body, hlt⟩)

include h hkey

theorem moreMembers_last (hj : Takes (value levels body) j ds)
    (hds : skipBlanks ds = '\x7d' :: rest) :
    Takes (moreMembers levels cs) (some [(key, j)]) rest := by
  obtain ⟨_, hnext⟩ := exists_next? h
  obtain ⟨_, hkey⟩ := hkey
  obtain ⟨_, hcolon⟩ := exists_next? (skipBlanks_cons (c := ':') rfl body)
  obtain ⟨step, hvalue, rfl, hskip⟩ := hj
  obtain ⟨_, hbrace⟩ := exists_next? (hskip.trans hds)
  rw [moreMembers.eq_def]
  simp only [hnext, hkey, hcolon, hvalue, hbrace]
  exact ⟨_, rfl, rfl, rfl⟩

theorem moreMembers_cons {ms : List (String × Json)} (hj : Takes (value levels body) j (',' :: ds))
    (hms : Takes (moreMembers levels ds) (some ms) rest) :
    Takes (moreMembers levels cs) (some ((key, j) :: ms)) rest := by
  obtain ⟨_, hnext⟩ := exists_next? h
  obtain ⟨_, hkey⟩ := hkey
  obtain ⟨_, hcolon⟩ := exists_next? (skipBlanks_cons (c := ':') rfl body)
  obtain ⟨step, hvalue, rfl, hskip⟩ := hj
  obtain ⟨_, hcomma⟩ := exists_next? (hskip.trans (skipBlanks_cons rfl ds))
  obtain ⟨⟨_, rest', _⟩, hmembers, rfl, hskip'⟩ := hms
  rw [moreMembers.eq_def]
  simp only [hnext, hkey, hcolon, hvalue, hcomma, hmembers]
  exact ⟨_, rfl, rfl, hskip'⟩

end Member

end Next

/-! ### Texts of values -/

section Texts

variable {levels : Nat} {rest : List Char}

theorem read?_eq_some {text : String} {j : Json} :
    read? text = some j ↔ Takes (value maxDepth text.toList) j [] := by
  unfold read? Takes
  cases hvalue : value maxDepth text.toList with
  | none => simp
  | some step =>
    simp [skipBlanks, List.isEmpty_iff, and_comm]

theorem value_double {x : Float} (h : ReadsBack x) (hrest : Closed rest) :
    Takes (value levels ((Json.double x).render.toList ++ rest)) (.double x) rest := by
  obtain ⟨step, hvalue, hx, hblank⟩ := read?_eq_some.1 h
  generalize (Json.double x).render.toList = cs at step hvalue
  rw [show skipBlanks [] = [] from rfl] at hblank
  obtain ⟨ds, n, hskip, hnumber, hdrop⟩ | ⟨c, ds, n, hskip, hnumber, hdrop⟩ :=
    value_eq_double hvalue hx
  · obtain ⟨hread, hle⟩ := unsigned_append hnumber hrest
    obtain ⟨step', hstep, hx', hbehind⟩ : Takes (value levels _) _ _ :=
      value_negative (skipBlanks_append_of_cons hskip rest) hread
    rw [List.drop_append_of_le_length hle, ← hdrop, skipBlanks_append_of_nil hblank] at hbehind
    exact ⟨step', hstep, hx', hbehind⟩
  · obtain ⟨hread, hle⟩ := unsigned_append hnumber hrest
    have hle' : n - 1 ≤ ds.length := Nat.sub_le_of_le_add hle
    obtain ⟨step', hstep, hx', hbehind⟩ : Takes (value levels _) _ _ :=
      value_positive (skipBlanks_append_of_cons hskip rest) hread
    rw [List.drop_append_of_le_length hle', ← hdrop, skipBlanks_append_of_nil hblank] at hbehind
    exact ⟨step', hstep, hx', hbehind⟩

theorem readsBack_of_unsigned {x : Float} (text : String)
    (hrender : (Json.double x).render = text)
    (htext : unsigned false text.toList = some (.double x, text.toList.length)) : ReadsBack x := by
  unfold ReadsBack
  rw [hrender, read?_eq_some]
  generalize text.toList = cs at htext
  cases cs with
  | nil => cases htext
  | cons c ds =>
    have hdigit : c.isDigit = true := by
      rw [← Bool.not_eq_false]
      intro hc
      rw [unsigned_cons hc] at htext
      cases htext
    have hvalue : Takes (value maxDepth _) _ _ := value_positive
      (skipBlanks_cons (isBlank_of_isDigit hdigit) ds) htext
    have hdrop : ds.drop ((c :: ds).length - 1) = [] := List.drop_length
    rwa [hdrop] at hvalue

theorem value_integer {negative : Bool} {n : Nat} (hn : n < 2 ^ 128) (hrest : Closed rest) :
    Takes (value levels ((Json.integer negative n).render.toList ++ rest)) (.integer negative n)
      rest := by
  obtain ⟨hread, -⟩ := unsigned_append (unsigned_digits negative hn) hrest
  rw [render.eq_def]
  dsimp only
  rw [String.toList_append, Nat.toString_eq_ofList_toDigits, String.toList_ofList]
  cases negative with
  | true =>
    have hminus : Takes (value levels _) _ _ :=
      value_negative (skipBlanks_cons (c := '-') rfl _) hread
    rwa [List.drop_left] at hminus
  | false =>
    obtain ⟨d, ds, hds⟩ := List.exists_cons_of_ne_nil (Nat.toDigits_ne_nil (n := n) (b := 10))
    have hdigit : d.isDigit = true :=
      Nat.isDigit_of_mem_toDigits (b := 10) (n := n) (by decide) (by decide)
        (hds ▸ List.mem_cons_self)
    rw [hds] at hread ⊢
    have hplus : Takes (value levels _) _ _ := value_positive
      (skipBlanks_cons (isBlank_of_isDigit hdigit) (ds ++ rest)) hread
    have hdrop : (ds ++ rest).drop ((d :: ds).length - 1) = rest := List.drop_left
    rwa [hdrop] at hplus

end Texts

section Records

theorem toList_quote (s : String) :
    (quote s).toList = '"' :: (s.toList.flatMap escape ++ ['"']) := by
  unfold quote
  rw [String.toList_append, String.toList_append]
  exact congrArg ('"' :: · ++ ['"']) String.toList_ofList

theorem toList_render_array (js : List Json) :
    (Json.array js).render.toList =
      '[' :: ((",".intercalate (renderItems js)).toList ++ [']']) := by
  rw [render.eq_def]
  dsimp only
  rw [String.toList_append, String.toList_append]
  rfl

theorem toList_render_object (ms : List (String × Json)) :
    (Json.object ms).render.toList =
      '\x7b' :: ((",".intercalate (renderMembers ms)).toList ++ ['\x7d']) := by
  rw [render.eq_def]
  dsimp only
  rw [String.toList_append, String.toList_append]
  rfl

theorem toList_member (key : String) (j : Json) (rest : List Char) :
    (quote key ++ ":" ++ j.render).toList ++ rest =
      '"' :: (key.toList.flatMap escape ++ '"' :: ':' :: (j.render.toList ++ rest)) := by
  rw [String.toList_append, String.toList_append, toList_quote]
  simp

theorem toList_intercalate_cons (s t : String) (ts : List String) :
    (",".intercalate (s :: t :: ts)).toList =
      s.toList ++ ',' :: (",".intercalate (t :: ts)).toList := by
  rw [String.toList_intercalate, String.toList_intercalate]
  simp [List.intercalate]

theorem toList_intercalate_singleton (s : String) : (",".intercalate [s]).toList = s.toList := by
  simp

mutual

theorem value_render (j : Json) (h : j.Faithful) {levels : Nat} (hlevels : j.depth ≤ levels)
    {rest : List Char} (hrest : Closed rest) :
    Takes (value levels (j.render.toList ++ rest)) j rest := by
  cases j with
  | null => exact value_null (skipBlanks_cons rfl _)
  | bool b =>
    cases b with
    | true => exact value_true (skipBlanks_cons rfl _)
    | false => exact value_false (skipBlanks_cons rfl _)
  | integer negative n => exact value_integer h hrest
  | double x => exact value_double h hrest
  | string s =>
    rw [render.eq_def]
    dsimp only
    rw [toList_quote, List.cons_append, List.append_assoc]
    exact value_string (skipBlanks_cons rfl _) (string_quoted s rest)
  | array js =>
    obtain ⟨levels, rfl⟩ : ∃ l, levels = l + 1 :=
      Nat.exists_eq_add_of_le' (Nat.le_trans (Nat.le_add_left 1 _) hlevels)
    rw [toList_render_array, List.cons_append, List.append_assoc]
    refine value_array (skipBlanks_cons rfl _) ?_
    cases js with
    | nil => exact items_nil (skipBlanks_cons rfl rest)
    | cons j js =>
      exact items_of_moreItems (moreItems_render j js h (Nat.le_of_succ_le_succ hlevels) rest)
  | object ms =>
    obtain ⟨levels, rfl⟩ : ∃ l, levels = l + 1 :=
      Nat.exists_eq_add_of_le' (Nat.le_trans (Nat.le_add_left 1 _) hlevels)
    rw [toList_render_object, List.cons_append, List.append_assoc]
    refine value_object (skipBlanks_cons rfl _) ?_
    cases ms with
    | nil => exact members_nil (skipBlanks_cons rfl rest)
    | cons m ms =>
      cases m with
      | mk key j =>
        exact members_of_moreMembers
          (moreMembers_render key j ms h (Nat.le_of_succ_le_succ hlevels) rest)
  | unreadable => cases h
termination_by sizeOf j

theorem moreItems_render (j : Json) (js : List Json) (h : FaithfulItems (j :: js)) {levels : Nat}
    (hlevels : itemsDepth (j :: js) ≤ levels) (rest : List Char) :
    Takes (moreItems levels ((",".intercalate (renderItems (j :: js))).toList ++ ']' :: rest))
      (j :: js) rest := by
  obtain ⟨hj, hjs⟩ := h
  rw [itemsDepth, Nat.max_le] at hlevels
  cases js with
  | nil =>
    rw [renderItems, renderItems, toList_intercalate_singleton]
    exact moreItems_last (value_render j hj hlevels.1 (closed_cons (.inr (.inl rfl)) rest))
      (skipBlanks_cons rfl rest)
  | cons j' js =>
    rw [renderItems, renderItems, toList_intercalate_cons, List.append_assoc, List.cons_append]
    exact moreItems_cons (value_render j hj hlevels.1 (closed_cons (.inl rfl) _))
      (moreItems_render j' js hjs hlevels.2 rest)
termination_by sizeOf (j :: js)

theorem moreMembers_render (key : String) (j : Json) (ms : List (String × Json))
    (h : FaithfulMembers ((key, j) :: ms)) {levels : Nat}
    (hlevels : membersDepth ((key, j) :: ms) ≤ levels) (rest : List Char) :
    Takes (moreMembers levels
      ((",".intercalate (renderMembers ((key, j) :: ms))).toList ++ '\x7d' :: rest))
      (some ((key, j) :: ms)) rest := by
  obtain ⟨hj, hms⟩ := h
  rw [membersDepth, Nat.max_le] at hlevels
  cases ms with
  | nil =>
    rw [renderMembers, renderMembers, toList_intercalate_singleton, toList_member]
    exact moreMembers_last (skipBlanks_cons rfl _) (string_quoted key _)
      (value_render j hj hlevels.1 (closed_cons (.inr (.inr rfl)) rest)) (skipBlanks_cons rfl rest)
  | cons m ms =>
    cases m with
    | mk key' j' =>
      rw [renderMembers, renderMembers, toList_intercalate_cons, List.append_assoc,
        List.cons_append, toList_member]
      exact moreMembers_cons (skipBlanks_cons rfl _) (string_quoted key _)
        (value_render j hj hlevels.1 (closed_cons (.inl rfl) _))
        (moreMembers_render key' j' ms hms hlevels.2 rest)
termination_by sizeOf ((key, j) :: ms)

end

end Records

/-- A value that a text can tell, and that is not nested too deeply, reads back from its text. -/
theorem read?_render {j : Json} (h : j.Faithful) (hdepth : j.depth ≤ maxDepth) :
    read? j.render = some j := by
  have hread := value_render j h hdepth closed_nil
  rw [List.append_nil] at hread
  exact read?_eq_some.2 hread

end Scenario.Json
