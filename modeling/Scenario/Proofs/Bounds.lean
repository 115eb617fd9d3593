import Scenario.Proofs.Loading
import Scenario.Proofs.Numbers
import Scenario.Proofs.PassReports

/-!
Variables within their bounds. Every write confines a variable to its bounds, but definitions,
documents and saves put in the value that they give as it is. So a variable is within its bounds, or
it stands as it was given.
-/

namespace Scenario

namespace Variable

structure InBounds (v : Variable) : Prop where
  lower : v.min ≤ v.value
  upper : v.value ≤ v.max

variable {v : Variable}

theorem InBounds.isNaN (h : v.InBounds) : v.value.isNaN = false := (isNaN_of_le h.lower).2

theorem set_inBounds (hbounds : validBounds v.min v.max) {x : Float} (hx : x.isNaN = false) :
    (v.set x).InBounds := by
  obtain ⟨hlower, hupper⟩ := clamp_bounds (validBounds_iff.1 hbounds) hx
  exact ⟨hlower, hupper⟩

theorem setBounds_inBounds {min max : Float} (hbounds : validBounds min max)
    (hv : v.value.isNaN = false) : (v.setBounds min max).InBounds := by
  obtain ⟨hlower, hupper⟩ := clamp_bounds (validBounds_iff.1 hbounds) hv
  exact ⟨hlower, hupper⟩

end Variable

/-- Where variables come from with a value that nothing has confined: definitions, documents and
saves. -/
inductive Call.Gives : Call → String → Variable → Prop
  | definition (id : String) (v : Variable) : Gives (.defineVariable id v) id v
  | document {text : String} {content : Content} {id : String} {saved : SavedVariable}
    (hread : Json.Decoder.content.ofText text = .ok content)
    (hsaved : content.vars[id]? = some saved) : Gives (.load text) id saved.toVariable
  | save {save : Save} {id : String} {saved : SavedVariable}
    (hsaved : save.vars[id]? = some saved) : Gives (.restore save) id saved.toVariable

/-- The values that a call gives to variables are numbers. -/
structure Call.Numeric (call : Call) : Prop where
  set : ∀ id x, call = .setVariable id x → x.isNaN = false
  given : ∀ id v, call.Gives id v → v.value.isNaN = false

/-! ### States -/

namespace State

/-- Variables are within their bounds or stand as they were given. -/
def Confined (given : String → Variable → Prop) (s : State) : Prop :=
  ∀ (id : String) (v : Variable), s.vars[id]? = some v → v.InBounds ∨ given id v

variable {s s' : State} {given : String → Variable → Prop}

theorem Confined.congr (h : s.Confined given) (hvars : s'.vars = s.vars) : s'.Confined given := by
  unfold Confined at h ⊢
  rw [hvars]
  exact h

theorem Confined.insert (h : s.Confined given) {id : String} {v : Variable}
    (hv : v.InBounds ∨ given id v) (hvars : s'.vars = s.vars.insert id v) :
    s'.Confined given := by
  intro id' w hw
  rw [hvars, getElem?_insert_id] at hw
  split at hw
  · rename_i hid
    cases hw
    exact hid ▸ hv
  · exact h id' w hw

section Writes

variable (hs : s.WellFormed) (hgiven : ∀ id v, given id v → v.value.isNaN = false)

include hs hgiven

theorem Confined.write (h : s.Confined given) {m : Mutation} {id : String}
    (hid : m.variable? = some id) (hnumeric : ∀ id x, m = .setVariable id x → x.isNaN = false)
    (hm : s.mutate m = .ok s') : ∃ v, v.InBounds ∧ s'.vars = s.vars.insert id v := by
  cases m with
  | setVariable id' x =>
    cases hid
    obtain ⟨v, hv, rfl⟩ := setVariable_eq_ok.1 hm
    exact ⟨_, Variable.set_inBounds (hs.bounds id v hv) (hnumeric id x rfl), rfl⟩
  | setBounds id' min max =>
    cases hid
    obtain ⟨v, w, hv, hvalid, rfl, rfl⟩ := setVariableBounds_eq_ok.1 hm
    have hnumber : v.value.isNaN = false := by
      rcases h id v hv with hbounds | hg
      · exact hbounds.isNaN
      · exact hgiven id v hg
    exact ⟨_, Variable.setBounds_inBounds hvalid hnumber, rfl⟩
  | _ => cases hid

theorem Confined.mutate (h : s.Confined given) {m : Mutation}
    (hnumeric : ∀ id x, m = .setVariable id x → x.isNaN = false) (hm : s.mutate m = .ok s') :
    s'.Confined given := by
  cases hid : m.variable? with
  | none => exact h.congr (vars_of_mutate hid hm)
  | some id =>
    obtain ⟨v, hv, hvars⟩ := h.write hs hgiven hid hnumeric hm
    exact h.insert (.inl hv) hvars

theorem Confined.becomes (h : s.Confined given) {sort : Mutation → Prop}
    (hsort : ∀ id x, sort (.setVariable id x) → x.isNaN = false) (hbecomes : s.Becomes sort s') :
    s'.Confined given := by
  refine (hbecomes.keeps (P := fun t => t.WellFormed ∧ t.Confined given) ?_ ⟨hs, h⟩).2
  rintro t t' m hm ⟨ht, hconfined⟩ hmutate
  exact ⟨ht.mutate hmutate,
    hconfined.mutate ht hgiven (fun id x hx => hsort id x (hx ▸ hm)) hmutate⟩

/-- What is out of its bounds in the end has not been written on the way. -/
theorem Confined.unwritten (h : s.Confined given) {sort : Mutation → Prop}
    (hsort : ∀ id x, sort (.setVariable id x) → x.isNaN = false) (hbecomes : s.Becomes sort s')
    {id : String} {v : Variable} (hv : s'.vars[id]? = some v) (hout : ¬ v.InBounds) :
    s.Becomes (fun m => m.variable? ≠ some id) s' := by
  induction hbecomes with
  | refl => exact .refl s
  | @tail t s' hbefore hm ih =>
    obtain ⟨m, hm, hmutate⟩ := hm
    have ht : t.WellFormed := hs.becomes hbefore
    have hconfined : t.Confined given := h.becomes hs hgiven hsort hbefore
    have hnumeric : ∀ id x, m = .setVariable id x → x.isNaN = false :=
      fun id x hx => hsort id x (hx ▸ hm)
    cases hwritten : m.variable? with
    | none =>
      rw [vars_of_mutate hwritten hmutate] at hv
      exact (ih hv).tail (by simp [hwritten]) hmutate
    | some id' =>
      obtain ⟨w, hw, hvars⟩ := hconfined.write ht hgiven hwritten hnumeric hmutate
      rw [hvars, getElem?_insert_id] at hv
      split at hv
      · cases hv
        exact absurd hw hout
      · rename_i hne
        exact (ih hv).tail (by simpa [hwritten] using hne) hmutate

end Writes

theorem Confined.restore (h : s.Confined given) {save : Save} (hs : save.restore s = .ok s')
    (hsave : ∀ (id : String) (saved : SavedVariable), save.vars[id]? = some saved →
      given id saved.toVariable) : s'.Confined given := by
  obtain ⟨-, registry, -, rfl⟩ := Save.restore_eq_ok.1 hs
  intro id v hv
  dsimp only at hv
  rw [foldl_insert SavedVariable.toVariable] at hv
  cases hsaved : save.vars[id]? with
  | none =>
    rw [hsaved] at hv
    exact h id v hv
  | some saved =>
    rw [hsaved] at hv
    cases hv
    exact .inr (hsave id saved hsaved)

end State

/-! ### Documents -/

theorem Build.of_contentOfText_eq_ok {text : String} {c c' : Compiler} {d : Definitions}
    (h : contentOfText text c = (.ok d, c')) :
    ∀ entry ∈ d.vars, (Call.load text).Gives entry.1 entry.2 := by
  obtain ⟨document, hread, hd⟩ := contentOfText_eq_ok h
  intro entry hentry
  rw [hd.vars] at hentry
  obtain ⟨⟨id, saved⟩, hmem, rfl⟩ := List.mem_map.1 hentry
  exact .document hread (Std.ExtTreeMap.mem_toList_iff_getElem?_eq_some.1 hmem)

/-! ### Engines -/

namespace Engine

variable {e e' : Engine} {given : String → Variable → Prop}

theorem defineVariable_confined (h : e.state.Confined given) {id : String} {v : Variable}
    (hv : given id v) (he : e.defineVariable id v = .ok e') : e'.state.Confined given := by
  obtain ⟨-, -, rfl⟩ := defineVariable_eq_ok he
  exact h.insert (.inr hv) rfl

theorem registerAttribute_vars {a : Attribute} (he : e.registerAttribute a = .ok e') :
    e'.state.vars = e.state.vars := by
  obtain ⟨-, -, rfl⟩ := registerAttribute_eq_ok he
  rfl

theorem registerItem_vars {p : Provider Expression} (he : e.registerItem p = .ok e') :
    e'.state.vars = e.state.vars := by
  obtain ⟨-, rfl⟩ := registerItem_eq_ok he
  rfl

theorem registerStatus_vars {p : Provider Expression} (he : e.registerStatus p = .ok e') :
    e'.state.vars = e.state.vars := by
  obtain ⟨-, rfl⟩ := registerStatus_eq_ok he
  rfl

theorem registerEvent_vars {event : Event Expression} (he : e.registerEvent event = .ok e') :
    e'.state.vars = e.state.vars := by
  obtain ⟨registry, -, rfl⟩ := registerEvent_eq_ok he
  rfl

theorem loadContent_confined (h : e.state.Confined given) {text : String}
    (hgiven : ∀ id v, (Call.load text).Gives id v → given id v) :
    (e.loadContent text).2.state.Confined given := by
  unfold loadContent
  split
  · rename_i d compiler hbuilt
    have hd := Build.of_contentOfText_eq_ok hbuilt
    exact registerAll_keeps (Q := (·.state.Confined given))
      (fun _ _ id v hmem h => defineVariable_confined h (hgiven id v (hd (id, v) hmem)))
      (fun _ _ _ _ h he => h.congr (registerAttribute_vars he))
      (fun _ _ _ _ h he => h.congr (registerItem_vars he))
      (fun _ _ _ _ h he => h.congr (registerStatus_vars he))
      (fun _ _ _ _ h he => h.congr (registerEvent_vars he))
      (e := { e with compiler }) h
  · exact h

theorem numeric_of_plays {call : Call} (hset : ∀ id x, call = .setVariable id x → x.isNaN = false)
    (id : String) (x : Float)
    (h : Mutation.Numeric (.setVariable id x) ∨ call.mutation? = some (.setVariable id x)) :
    x.isNaN = false := by
  rcases h with hx | hx
  · exact hx
  · cases call <;> cases hx
    exact hset id x rfl

theorem perform_confined (h : e.state.Confined given) (he : e.state.WellFormed)
    (hnumeric : ∀ id v, given id v → v.value.isNaN = false) (screen : Screen) {call : Call}
    (hset : ∀ id x, call = .setVariable id x → x.isNaN = false)
    (hgiven : ∀ id v, call.Gives id v → given id v) :
    (e.perform screen call).2.state.Confined given := by
  have hattempt {x : Except Error Engine} (hx : ∀ e', x = .ok e' → e'.state.Confined given) :
      (e.attempt x).2.state.Confined given :=
    attempt_keeps (Q := (·.state.Confined given)) h hx
  cases call with
  | load text => exact loadContent_confined h hgiven
  | defineVariable id v =>
    exact hattempt fun _ => defineVariable_confined h (hgiven id v (.definition id v))
  | registerAttribute a => exact hattempt fun _ hx => h.congr (registerAttribute_vars hx)
  | registerItem p => exact hattempt fun _ hx => h.congr (registerItem_vars hx)
  | registerStatus p => exact hattempt fun _ hx => h.congr (registerStatus_vars hx)
  | registerEvent event => exact hattempt fun _ hx => h.congr (registerEvent_vars hx)
  | registerFunction name arity => exact h
  | drain => exact h
  | reset =>
    apply hattempt
    intro e' hx
    rw [reset_eq_ok hx]
    exact h
  | restore save =>
    apply hattempt
    intro e' hx
    obtain ⟨s, hs, rfl⟩ := restore_eq_ok hx
    exact h.restore hs fun id saved hsaved => hgiven id saved.toVariable (.save hsaved)
  | _ => exact h.becomes he hnumeric (numeric_of_plays hset) (perform_becomes screen trivial)

/-- In a run by calls of some sort, the last that was written of a variable is what a call gave for
it: no mutation has written it since. -/
inductive StandsAsGiven (sort : Call → Prop) (id : String) (v : Variable) : Engine → Prop
  | given {e : Engine} (he : e.ReachableBy sort) (screen : Screen) {call : Call}
    (hcall : sort call) (hgives : call.Gives id v)
    (hv : (e.perform screen call).2.state.vars[id]? = some v) :
    StandsAsGiven sort id v (e.perform screen call).2
  | kept {e : Engine} (h : StandsAsGiven sort id v e) (screen : Screen) {call : Call}
    (hcall : sort call) (hv : (e.perform screen call).2.state.vars[id]? = some v)
    (hunwritten : call.Plays → e.state.Becomes (fun m => m.variable? ≠ some id)
      (e.perform screen call).2.state) : StandsAsGiven sort id v (e.perform screen call).2

theorem StandsAsGiven.isNaN {sort : Call → Prop} (hsort : ∀ call, sort call → call.Numeric)
    {id : String} {v : Variable} (h : StandsAsGiven sort id v e) : v.value.isNaN = false := by
  induction h with
  | given _ _ hcall hgives _ => exact (hsort _ hcall).given id v hgives
  | kept _ _ _ _ _ ih => exact ih

theorem ReachableBy.confined {sort : Call → Prop} (he : e.ReachableBy sort)
    (hsort : ∀ call, sort call → call.Numeric) :
    e.state.Confined fun id v => StandsAsGiven sort id v e := by
  induction he with
  | start config random hplaced =>
    intro id v hv
    simp [Engine.withRandom, Engine.state, State.initial] at hv
  | @perform e he' screen call hcall ih =>
    have hnumeric : ∀ (id : String) (v : Variable), e.state.vars[id]? = some v →
        v.value.isNaN = false := fun id v hv => (ih id v hv).elim (·.isNaN) (·.isNaN hsort)
    -- whatever the call is, what it leaves is confined, was there before it, or is given by it
    have hleft : (e.perform screen call).2.state.Confined fun id v =>
        e.state.vars[id]? = some v ∨ call.Gives id v :=
      perform_confined (fun id v hv => .inr (.inl hv)) he'.wellFormed
        (fun id v hv => hv.elim (hnumeric id v) ((hsort call hcall).given id v)) screen
        (hsort call hcall).set fun _ _ => .inr
    intro id v hv
    by_cases hin : v.InBounds
    · exact .inl hin
    rcases hleft id v hv with hin' | hbefore | hgives
    · exact .inl hin'
    · have hstands := (ih id v hbefore).resolve_left hin
      refine .inr (.kept hstands screen hcall hv fun hplays => ?_)
      exact ih.unwritten he'.wellFormed (fun _ _ h => h.isNaN hsort)
        (numeric_of_plays (hsort call hcall).set) (perform_becomes screen hplays) hv hin
    · exact .inr (.given he' screen hcall hgives hv)

/-- In every engine that hosts get to with numbers that are numbers, the bounds of each variable are
in order, and its value is between them, unless the last that was written of the variable is what a
definition, a document or a save gave. Once set or confined by anything, it is within its bounds. -/
theorem variables_in_bounds {sort : Call → Prop} (he : e.ReachableBy sort)
    (hsort : ∀ call, sort call → call.Numeric) :
    (∀ (id : String) (v : Variable), e.state.vars[id]? = some v → v.min ≤ v.max ∧
      ((v.min ≤ v.value ∧ v.value ≤ v.max) ∨ StandsAsGiven sort id v e)) ∧
    ∀ (m : Mutation) (id : String) (s : State), m.Numeric → m.variable? = some id →
      e.state.mutate m = .ok s →
      ∃ v, s.vars[id]? = some v ∧ v.min ≤ v.value ∧ v.value ≤ v.max := by
  have hconfined := he.confined hsort
  refine ⟨fun id v hv => ⟨validBounds_iff.1 (he.wellFormed.bounds id v hv), ?_⟩,
    fun m id s hm hid hs => ?_⟩
  · exact (hconfined id v hv).imp_left fun h => ⟨h.lower, h.upper⟩
  · obtain ⟨v, hv, hvars⟩ := hconfined.write he.wellFormed (fun _ _ h => h.isNaN hsort) hid
      (fun id x hx => by simpa [hx, Mutation.Numeric] using hm) hs
    refine ⟨v, ?_, hv.lower, hv.upper⟩
    rw [hvars, getElem?_insert_id, if_pos rfl]

end Engine

/-! ### A variable that is given too much -/

def overfull : Variable := ⟨50, 0, 10⟩

def flooded : Engine := ((Engine.new {}).perform quiet (.defineVariable "x" overfull)).2

theorem flooded_reachable : flooded.ReachableBy fun call => call = .defineVariable "x" overfull :=
  .perform (.start {} (.ofSeed "default") (.ofSeed "default")) quiet _ rfl

theorem overfull_numeric : (Call.defineVariable "x" overfull).Numeric where
  set id x h := by
    cases h
  given id v h := by
    cases h
    rfl

theorem variables_in_bounds_flooded :
    Engine.StandsAsGiven (· = .defineVariable "x" overfull) "x" overfull flooded ∧
      ∃ s v, flooded.state.mutate (.setVariable "x" 70) = .ok s ∧ s.vars["x"]? = some v ∧
        v.min ≤ v.value ∧ v.value ≤ v.max := by
  have hnumeric : ∀ call, call = Call.defineVariable "x" overfull → call.Numeric := by
    rintro _ rfl
    exact overfull_numeric
  obtain ⟨hvars, hwrites⟩ := Engine.variables_in_bounds flooded_reachable hnumeric
  have habove : ¬ overfull.value ≤ overfull.max := by decide
  refine ⟨(hvars "x" overfull rfl).2.resolve_left fun h => habove h.2, ?_⟩
  obtain ⟨v, hv, hbounds⟩ := hwrites (.setVariable "x" 70) "x" _ rfl rfl rfl
  exact ⟨_, v, rfl, hv, hbounds⟩

theorem defined_out_of_bounds :
    flooded.ReachableBy Call.Numeric ∧ flooded.state.vars["x"]? = some overfull ∧
      overfull.min ≤ overfull.max ∧ ¬ overfull.value ≤ overfull.max :=
  ⟨flooded_reachable.mono fun _ h => h ▸ overfull_numeric, rfl, by decide, by decide⟩

end Scenario
