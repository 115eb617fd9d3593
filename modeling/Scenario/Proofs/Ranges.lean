import Scenario.Proofs.WellFormed

/-!
Integers that stay within the words that hold them: how often events have happened, how many of an
item there are, and what notifications say of either.
-/

namespace Scenario

/-- Saves that are put back say no more of an event than can be counted. -/
def Call.InRange : Call → Prop
  | .restore saved => ∀ entry ∈ saved.events, entry.2.occurrences ≤ EventFlags.maxOccurrences
  | _ => True

/-- No more of an item than some number is told of. -/
def Notification.AtMost (max : Nat) : Notification → Prop
  | .itemChanged _ old new => old ≤ max ∧ new ≤ max
  | _ => True

theorem Notification.AtMost.mono {max max' : Nat} {n : Notification} (h : n.AtMost max)
    (hle : max ≤ max') : n.AtMost max' := by
  cases n with
  | itemChanged id old new => exact ⟨Nat.le_trans h.1 hle, Nat.le_trans h.2 hle⟩
  | _ => trivial

namespace Inventory.Stocked

variable {inventory : Inventory} {items : Std.ExtTreeMap String (Provider Expression)}

theorem cap_le (maxStack : Option Nat) : inventory.cap maxStack ≤ inventory.maxStack := by
  cases maxStack with
  | none => exact Nat.le_refl _
  | some n => exact Nat.min_le_right _ _

theorem count_le_maxStack (h : inventory.Stocked items) {stack : Stack}
    (hstack : stack ∈ inventory.entries) : stack.count ≤ inventory.maxStack :=
  Nat.le_trans (h.count_le stack hstack) (cap_le _)

theorem count_le_max (h : inventory.Stocked items) (id : String) :
    inventory.count id ≤ inventory.maxStack := by
  unfold count
  cases hfind : inventory.entries.find? (·.provider.id = id) with
  | none => exact Nat.zero_le _
  | some stack => exact h.count_le_maxStack (List.mem_of_find?_eq_some hfind)

end Inventory.Stocked

namespace Registry

variable {r : Registry}

/-- No event has happened more often than can be counted. -/
def Counted (r : Registry) : Prop :=
  ∀ flags ∈ r.flags, flags.occurrences ≤ EventFlags.maxOccurrences

theorem Counted.update (h : r.Counted) (id : String) {f : EventFlags → EventFlags}
    (hf : ∀ flags, flags.occurrences ≤ EventFlags.maxOccurrences →
      (f flags).occurrences ≤ EventFlags.maxOccurrences) : (r.update id f).Counted := by
  unfold Registry.update
  split
  · rename_i i _
    intro flags hflags
    obtain ⟨j, hj, rfl⟩ := Array.mem_iff_getElem.1 hflags
    rw [Array.size_modify] at hj
    rw [Array.getElem_modify]
    split
    · exact hf _ (h _ (Array.getElem_mem hj))
    · exact h _ (Array.getElem_mem hj)
  · exact h

theorem Counted.reset : r.reset.Counted := by
  intro flags hflags
  obtain ⟨event, -, rfl⟩ := Array.mem_map.1 hflags
  exact Nat.zero_le _

theorem Counted.foldl_update (h : r.Counted) {saved : List (String × EventFlags)}
    (hsaved : ∀ entry ∈ saved, entry.2.occurrences ≤ EventFlags.maxOccurrences) :
    (saved.foldl (fun r (id, flags) => r.update id fun _ => flags) r).Counted := by
  induction saved generalizing r with
  | nil => exact h
  | cons entry saved ih =>
    exact ih (h.update entry.1 fun _ _ => hsaved entry List.mem_cons_self) fun other hother =>
      hsaved other (List.mem_cons_of_mem _ hother)

end Registry

namespace State

structure InRange (s : State) : Prop where
  counted : s.registry.Counted
  told : ∀ n ∈ s.notifications, n.AtMost s.config.maxItemStack

variable {s s' : State}

theorem WellFormed.count_le (h : s.WellFormed) (id : String) :
    s.inventory.count id ≤ s.config.maxItemStack := by
  rw [← h.maxStack]
  exact h.stocked.count_le_max id

theorem valueChange_atMost (max : Nat) (id : String) (old new : Float) :
    ∀ n ∈ valueChange id old new, n.AtMost max := by
  unfold valueChange
  split
  · exact List.forall_mem_nil _
  · exact List.forall_mem_singleton.2 trivial

namespace InRange

theorem tell (h : s.InRange) {log : List Notification}
    (hlog : ∀ n ∈ log, n.AtMost s.config.maxItemStack) (t : State) (hconfig : t.config = s.config)
    (hregistry : t.registry.Counted) (hnotifications : t.notifications = log ++ s.notifications) :
    t.InRange := by
  refine ⟨hregistry, ?_⟩
  rw [hconfig, hnotifications]
  exact List.forall_mem_append.2 ⟨hlog, h.told⟩

theorem mutate (hs : s.WellFormed) (h : s.InRange) {m : Mutation} (hm : s.mutate m = .ok s') :
    s'.InRange := by
  have hs' := hs.mutate hm
  cases m with
  | setVariable id x =>
    obtain ⟨v, hv, rfl⟩ := setVariable_eq_ok.1 hm
    exact h.tell (valueChange_atMost _ _ _ _) _ rfl h.counted rfl
  | setBounds id min max =>
    obtain ⟨v, w, -, -, -, rfl⟩ := setVariableBounds_eq_ok.1 hm
    have hlog : ∀ n ∈ valueChange id v.value w.value ++ [.variableLimitsChanged id w.min w.max],
        n.AtMost s.config.maxItemStack :=
      List.forall_mem_append.2 ⟨valueChange_atMost _ _ _ _, List.forall_mem_singleton.2 trivial⟩
    exact h.tell hlog _ rfl h.counted (by simp)
  | giveItem id amount =>
    obtain ⟨provider, inventory, hp, rfl, rfl⟩ := giveItem_eq_ok.1 hm
    refine h.tell ?_ _ rfl h.counted rfl
    unfold countChange
    split
    · exact List.forall_mem_nil _
    · exact List.forall_mem_singleton.2 ⟨hs.count_le id, hs'.count_le id⟩
  | setStatus id duration =>
    obtain ⟨provider, statuses, hp, rfl, rfl⟩ := setStatus_eq_ok.1 hm
    refine h.tell ?_ _ rfl h.counted rfl
    unfold statusChange
    split
    · exact List.forall_mem_singleton.2 trivial
    · exact List.forall_mem_nil _
  | request trigger priority probability =>
    cases hm
    exact { h with }
  | toggle id enabled =>
    obtain ⟨flags, -, rfl⟩ := setEventEnabled_eq_ok.1 hm
    refine h.tell ?_ _ rfl (h.counted.update id fun _ hflags => hflags) rfl
    unfold toggleChange
    split
    · exact List.forall_mem_nil _
    · exact List.forall_mem_singleton.2 trivial
  | endGame outcome =>
    cases hm
    have hlog : ∀ n ∈ [Notification.gameEnded outcome], n.AtMost s.config.maxItemStack :=
      List.forall_mem_singleton.2 trivial
    exact h.tell hlog _ rfl h.counted rfl
  | draw =>
    cases hm
    exact { h with }
  | fire id trigger =>
    obtain ⟨-, rfl⟩ := fireEvent_eq_ok.1 hm
    have hlog : ∀ n ∈ [Notification.eventFired id trigger], n.AtMost s.config.maxItemStack :=
      List.forall_mem_singleton.2 trivial
    exact h.tell hlog _ rfl
      (h.counted.update id fun _ _ => Nat.min_le_right _ _) rfl
  | tick =>
    simp only [State.mutate, tick_eq] at hm
    cases hm
    refine h.tell (fun n hn => ?_) _ rfl h.counted rfl
    obtain ⟨id, -, rfl⟩ := List.mem_map.1 (List.mem_reverse.1 hn)
    trivial
  | pop =>
    cases hm
    exact { h with }

theorem becomes {sort : Mutation → Prop} (hs : s.WellFormed) (h : s.InRange)
    (hbecomes : s.Becomes sort s') : s'.InRange :=
  (hbecomes.keeps (P := fun s => s.WellFormed ∧ s.InRange)
    (fun _ _ _ _ ⟨hs, h⟩ hm => ⟨hs.mutate hm, h.mutate hs hm⟩) ⟨hs, h⟩).2

theorem initial (config : Config) (random : RandomSource) :
    (State.initial config random).InRange where
  counted flags hflags := by
    simp [State.initial] at hflags
  told := List.forall_mem_nil _

end InRange

end State

namespace Engine

variable {e : Engine}

theorem keptByDefining_inRange : KeptByDefining (·.state.InRange) where
  compiler _ h := h
  defineVariable h hx := by
    obtain ⟨-, -, rfl⟩ := defineVariable_eq_ok hx
    exact { h with }
  registerAttribute h hx := by
    obtain ⟨-, -, rfl⟩ := registerAttribute_eq_ok hx
    exact { h with }
  registerItem h hx := by
    obtain ⟨-, rfl⟩ := registerItem_eq_ok hx
    exact { h with }
  registerStatus h hx := by
    obtain ⟨-, rfl⟩ := registerStatus_eq_ok hx
    exact { h with }
  registerEvent h hx := by
    obtain ⟨registry, hr, rfl⟩ := registerEvent_eq_ok hx
    obtain ⟨-, rfl⟩ := Registry.register_eq_ok hr
    refine { h with counted := fun flags hflags => ?_ }
    rcases Array.mem_push.1 hflags with hold | rfl
    · exact h.counted flags hold
    · exact Nat.zero_le _

theorem perform_inRange (hs : e.state.WellFormed) (h : e.state.InRange) (screen : Screen)
    {call : Call} (hcall : call.InRange) : (e.perform screen call).2.state.InRange := by
  cases call with
  | load _ | defineVariable _ _ | registerAttribute _ | registerItem _ | registerStatus _
  | registerEvent _ => exact keptByDefining_inRange.perform h screen trivial
  | registerFunction name arity => exact h
  | drain => exact ⟨h.counted, List.forall_mem_nil _⟩
  | reset =>
    refine attempt_keeps (Q := (·.state.InRange)) h fun e' he => ?_
    rw [reset_eq_ok he]
    exact ⟨Registry.Counted.reset, h.told⟩
  | restore save =>
    refine attempt_keeps (Q := (·.state.InRange)) h fun e' he => ?_
    obtain ⟨s, hrestore, rfl⟩ := restore_eq_ok he
    obtain ⟨-, registry, hr, rfl⟩ := Save.restore_eq_ok.1 hrestore
    refine ⟨?_, h.told⟩
    rw [Registry.restore_eq_ok hr]
    exact Registry.Counted.reset.foldl_update hcall
  | _ => exact h.becomes hs (perform_becomes screen trivial)

theorem ReachableBy.inRange (h : e.ReachableBy Call.InRange) : e.state.InRange := by
  induction h with
  | start config random hplaced => exact .initial config random
  | perform hreachable screen call hcall ih =>
    exact perform_inRange hreachable.wellFormed ih screen hcall

end Engine

end Scenario
