import Mathlib.Data.List.Nodup
import Scenario.Queue

/-!
Queues of triggers by what is done to them. Whatever takes a greatest element at a time, by priority
and then by number, takes of the triggers that wait the first of the highest priority.
-/

namespace Scenario

/-! ### Histories -/

inductive QueueEvent
  | enqueued (p : PendingTrigger)
  | popped (p : PendingTrigger)
  | cleared

namespace QueueEvent

def enqueued? : QueueEvent → Option PendingTrigger
  | .enqueued p => some p
  | _ => none

def popped? : QueueEvent → Option PendingTrigger
  | .popped p => some p
  | _ => none

def clears : QueueEvent → Bool
  | .cleared => true
  | _ => false

end QueueEvent

abbrev QueueHistory := List QueueEvent

namespace QueueHistory

/-- What came after the queue was last cleared. -/
def sinceCleared (history : QueueHistory) : QueueHistory :=
  (history.reverse.takeWhile (!·.clears)).reverse

def enqueued (history : QueueHistory) : List PendingTrigger :=
  history.filterMap QueueEvent.enqueued?

def popped (history : QueueHistory) : List PendingTrigger := history.filterMap QueueEvent.popped?

variable (history : QueueHistory) (p : PendingTrigger)

@[simp] theorem sinceCleared_enqueued :
    sinceCleared (history ++ [.enqueued p]) = sinceCleared history ++ [.enqueued p] := by
  simp [sinceCleared, QueueEvent.clears]

@[simp] theorem sinceCleared_popped :
    sinceCleared (history ++ [.popped p]) = sinceCleared history ++ [.popped p] := by
  simp [sinceCleared, QueueEvent.clears]

@[simp] theorem sinceCleared_cleared : sinceCleared (history ++ [.cleared]) = [] := by
  simp [sinceCleared, QueueEvent.clears]

@[simp] theorem enqueued_enqueued :
    enqueued (history ++ [.enqueued p]) = enqueued history ++ [p] := by
  simp [enqueued, QueueEvent.enqueued?]

@[simp] theorem enqueued_popped : enqueued (history ++ [.popped p]) = enqueued history := by
  simp [enqueued, QueueEvent.enqueued?]

@[simp] theorem popped_enqueued : popped (history ++ [.enqueued p]) = popped history := by
  simp [popped, QueueEvent.popped?]

@[simp] theorem popped_popped : popped (history ++ [.popped p]) = popped history ++ [p] := by
  simp [popped, QueueEvent.popped?]

end QueueHistory

/-! ### Turns -/

/-- Of triggers in the order in which they came, the first of the highest priority is taken. -/
def TakesFirst (waiting : List PendingTrigger) (p : PendingTrigger) (rest : List PendingTrigger) :
    Prop :=
  ∃ earlier later, waiting = earlier ++ p :: later ∧ rest = earlier ++ later ∧
    (∀ q ∈ earlier, q.priority < p.priority) ∧ ∀ q ∈ later, q.priority ≤ p.priority

/-- Histories in which triggers are popped in their turns, and what waits at the end of each. -/
inductive InTurn : QueueHistory → List PendingTrigger → Prop
  | new : InTurn [] []
  | enqueued {past : QueueHistory} {waiting : List PendingTrigger} (h : InTurn past waiting)
    (p : PendingTrigger) : InTurn (past ++ [.enqueued p]) (waiting ++ [p])
  | popped {past : QueueHistory} {waiting rest : List PendingTrigger} {p : PendingTrigger}
    (h : InTurn past waiting) (hp : TakesFirst waiting p rest) : InTurn (past ++ [.popped p]) rest
  | cleared {past : QueueHistory} {waiting : List PendingTrigger} (h : InTurn past waiting) :
    InTurn (past ++ [.cleared]) []

theorem TakesFirst.unique {waiting rest rest' : List PendingTrigger} {p p' : PendingTrigger}
    (h : TakesFirst waiting p rest) (h' : TakesFirst waiting p' rest') : p = p' := by
  obtain ⟨earlier, later, hwaiting, -, hearlier, hlater⟩ := h
  obtain ⟨earlier', later', hwaiting', -, hearlier', hlater'⟩ := h'
  rw [hwaiting] at hwaiting'
  -- The one that stands first of the two would have the lower priority and the higher one.
  rcases List.append_eq_append_iff.1 hwaiting' with
    ⟨between, hsplit, hrest⟩ | ⟨between, hsplit, hrest⟩
  · cases between with
    | nil => exact (List.cons.inj hrest).1
    | cons q between =>
      obtain ⟨rfl, rfl⟩ := List.cons.inj hrest
      have hlt := hearlier' p (by simp [hsplit])
      have hle := hlater p' (by simp)
      omega
  · cases between with
    | nil => exact (List.cons.inj hrest).1.symm
    | cons q between =>
      obtain ⟨rfl, rfl⟩ := List.cons.inj hrest
      have hlt := hearlier p' (by simp [hsplit])
      have hle := hlater' p (by simp)
      omega

/-- Nothing is lost and nothing comes twice: what came to the queue since it was cleared has been
popped or waits. -/
theorem InTurn.balance {history : QueueHistory} {waiting : List PendingTrigger}
    (h : InTurn history waiting) :
    history.sinceCleared.enqueued.Perm (history.sinceCleared.popped ++ waiting) := by
  induction h with
  | new => exact .refl _
  | enqueued _ p ih =>
    simp only [QueueHistory.sinceCleared_enqueued, QueueHistory.enqueued_enqueued,
      QueueHistory.popped_enqueued, ← List.append_assoc]
    exact ih.append_right [p]
  | popped _ hp ih =>
    obtain ⟨earlier, later, rfl, rfl, -, -⟩ := hp
    simp only [QueueHistory.sinceCleared_popped, QueueHistory.enqueued_popped,
      QueueHistory.popped_popped, List.append_assoc]
    exact ih.trans (List.perm_middle.append_left _)
  | cleared _ _ =>
    rw [QueueHistory.sinceCleared_cleared]
    exact .refl _

/-! ### Queues -/

namespace PendingTrigger

/-- The order of triggers: by priority, and of one priority the earlier is the greater. -/
def compare (p q : PendingTrigger) : Ordering :=
  (Ord.compare p.priority q.priority).then (Ord.compare q.number p.number)

theorem compare_eq_gt {p q : PendingTrigger} : p.compare q = .gt ↔
    q.priority < p.priority ∨ p.priority = q.priority ∧ p.number < q.number := by
  unfold compare
  rw [Ordering.then_eq_gt, Int.compare_eq_gt, Int.compare_eq_eq, Nat.compare_eq_gt]

/-- One of the greatest triggers among some. -/
def Greatest (p : PendingTrigger) (held : List PendingTrigger) : Prop :=
  p ∈ held ∧ ∀ q ∈ held, q.compare p ≠ .gt

theorem Greatest.perm {p : PendingTrigger} {held held' : List PendingTrigger}
    (h : p.Greatest held) (hperm : held.Perm held') : p.Greatest held' :=
  ⟨hperm.mem_iff.1 h.1, fun q hq => h.2 q (hperm.mem_iff.2 hq)⟩

theorem Greatest.eq_head {p q : PendingTrigger} {held : List PendingTrigger}
    (h : p.Greatest (q :: held)) (horder : (q :: held).Pairwise (·.compare · = .gt)) : p = q := by
  obtain ⟨hfirst, -⟩ := List.pairwise_cons.1 horder
  by_contra hne
  exact h.2 q List.mem_cons_self (hfirst p (List.mem_of_ne_of_mem hne h.1))

end PendingTrigger

/-- What can be done to a queue of triggers. -/
structure QueueOperations (α : Type) where
  new : α
  next : α → Nat
  push : α → String → Int → Float → α
  peek? : α → Option PendingTrigger
  pop? : α → Option (PendingTrigger × α)

/-- What was done to a queue since it was new. -/
inductive QueueOperations.Course {α : Type} (ops : QueueOperations α) : QueueHistory → α → Prop
  | new : Course ops [] ops.new
  | push {past : QueueHistory} {q : α} (h : Course ops past q) (trigger : String) (priority : Int)
    (probability : Float) :
    Course ops (past ++ [.enqueued ⟨trigger, priority, ops.next q, probability⟩])
      (ops.push q trigger priority probability)
  | pop {past : QueueHistory} {q q' : α} {p : PendingTrigger} (h : Course ops past q)
    (hp : ops.pop? q = some (p, q')) : Course ops (past ++ [.popped p]) q'
  | clear {past : QueueHistory} {q : α} (h : Course ops past q) :
    Course ops (past ++ [.cleared]) ops.new

/-- Every history goes through all its beginnings. -/
theorem QueueOperations.Course.exists_before {α : Type} {ops : QueueOperations α}
    {history past : QueueHistory} {q : α} (h : ops.Course history q) (hpast : past <+: history) :
    ∃ q', ops.Course past q' := by
  have hstep {earlier : QueueHistory} {event : QueueEvent} {q' : α}
      (hwhole : ops.Course (earlier ++ [event]) q') (hpast : past <+: earlier ++ [event])
      (hbefore : past <+: earlier → ∃ q', ops.Course past q') : ∃ q', ops.Course past q' := by
    rcases List.prefix_concat_iff.1 hpast with rfl | hearlier
    · exact ⟨_, hwhole⟩
    · exact hbefore hearlier
  induction h with
  | new =>
    rw [List.prefix_nil.1 hpast]
    exact ⟨_, .new⟩
  | push h trigger priority probability ih => exact hstep (h.push _ _ _) hpast ih
  | pop h hp ih => exact hstep (h.pop hp) hpast ih
  | clear h ih => exact hstep h.clear hpast ih

/-- What became of all that came since the queue was last cleared: each trigger, known by its
number, was popped once or waits. -/
structure QueueHistory.Accounted (history : QueueHistory) (waiting : List PendingTrigger) : Prop
    where
  apart : (history.sinceCleared.enqueued.map PendingTrigger.number).Nodup
  balance : history.sinceCleared.enqueued.Perm (history.sinceCleared.popped ++ waiting)

namespace QueueHistory

variable {history : QueueHistory} {waiting : List PendingTrigger}

/-- How often the trigger of a number was popped since the queue was last cleared. -/
def timesPopped (history : QueueHistory) (number : Nat) : Nat :=
  (history.sinceCleared.popped.map PendingTrigger.number).count number

theorem Accounted.numbers (h : history.Accounted waiting) :
    (history.sinceCleared.popped.map PendingTrigger.number ++
      waiting.map PendingTrigger.number).Nodup := by
  rw [← List.map_append]
  exact (h.balance.map PendingTrigger.number).nodup_iff.1 h.apart

theorem Accounted.timesPopped_le_one (h : history.Accounted waiting) (number : Nat) :
    history.timesPopped number ≤ 1 :=
  List.nodup_iff_count_le_one.1 (List.nodup_append.1 h.numbers).1 number

theorem Accounted.timesPopped_eq_one (h : history.Accounted []) :
    ∀ p ∈ history.sinceCleared.enqueued, history.timesPopped p.number = 1 := by
  intro p hp
  have hpopped : p ∈ history.sinceCleared.popped := by simpa using h.balance.mem_iff.1 hp
  exact List.count_eq_one_of_mem (List.nodup_append.1 h.numbers).1 (List.mem_map_of_mem hpopped)

end QueueHistory

namespace TriggerQueue

def operations : QueueOperations TriggerQueue where
  new := {}
  next := next
  push := push
  peek? := peek?
  pop? := pop?

section Pop

variable {q q' : TriggerQueue} {p : PendingTrigger}

theorem peek?_eq (q : TriggerQueue) : q.peek? = q.pop?.map Prod.fst := by
  unfold peek? pop?
  cases q.pending <;> rfl

theorem pending_of_pop? (h : q.pop? = some (p, q')) :
    q.pending = p :: q'.pending ∧ q'.next = q.next := by
  unfold pop? at h
  split at h
  · cases h
  · rename_i hpending
    cases h
    exact ⟨hpending, rfl⟩

theorem pending_of_pop?_eq_none (h : q.pop? = none) : q.pending = [] := by
  unfold pop? at h
  split at h
  · assumption
  · cases h

end Pop

theorem insert_perm (p : PendingTrigger) (ps : List PendingTrigger) :
    (insert p ps).Perm (p :: ps) := by
  induction ps with
  | nil => exact .refl _
  | cons q qs ih =>
    unfold insert
    split
    · exact .refl _
    · exact (ih.cons q).trans (.swap p q qs)

theorem sublist_insert (p : PendingTrigger) (ps : List PendingTrigger) :
    ps.Sublist (insert p ps) := by
  induction ps with
  | nil => exact List.nil_sublist _
  | cons q qs ih =>
    unfold insert
    split
    · exact List.sublist_cons_self p _
    · exact ih.cons_cons q

theorem insert_inOrder {p : PendingTrigger} {ps : List PendingTrigger}
    (h : ps.Pairwise (·.compare · = .gt)) (hp : ∀ q ∈ ps, q.number < p.number) :
    (insert p ps).Pairwise (·.compare · = .gt) := by
  induction ps with
  | nil => exact List.pairwise_singleton _ _
  | cons q qs ih =>
    obtain ⟨hq, hqs⟩ := List.pairwise_cons.1 h
    obtain ⟨hpq, hpqs⟩ := List.forall_mem_cons.1 hp
    unfold insert
    split
    · rename_i hlt
      refine List.pairwise_cons.2 ⟨?_, h⟩
      intro r hr
      rw [PendingTrigger.compare_eq_gt]
      rcases List.mem_cons.1 hr with rfl | hr
      · exact .inl hlt
      · have hqr := PendingTrigger.compare_eq_gt.1 (hq r hr)
        omega
    · rename_i hle
      refine List.pairwise_cons.2 ⟨?_, ih hqs hpqs⟩
      intro r hr
      rcases List.mem_cons.1 ((insert_perm p qs).mem_iff.1 hr) with rfl | hr
      · rw [PendingTrigger.compare_eq_gt]
        omega
      · exact hq r hr

/-- A queue holds what waits, in order, and numbers what comes. -/
structure Holds (waiting : List PendingTrigger) (q : TriggerQueue) : Prop where
  held : q.pending.Perm waiting
  inOrder : q.pending.Pairwise (·.compare · = .gt)
  numbered : waiting.Pairwise (·.number < ·.number)
  below : ∀ p ∈ waiting, p.number < q.next

namespace Holds

variable {waiting : List PendingTrigger} {q q' : TriggerQueue} {p : PendingTrigger}

theorem new : Holds [] {} where
  held := .refl _
  inOrder := .nil
  numbered := .nil
  below := List.forall_mem_nil _

theorem push (h : Holds waiting q) (trigger : String) (priority : Int) (probability : Float) :
    Holds (waiting ++ [⟨trigger, priority, q.next, probability⟩])
      (q.push trigger priority probability) where
  held := (insert_perm _ _).trans ((h.held.cons _).trans (List.perm_append_singleton _ _).symm)
  inOrder := insert_inOrder h.inOrder fun p hp => h.below p (h.held.mem_iff.1 hp)
  numbered := List.pairwise_append.2 ⟨h.numbered, List.pairwise_singleton _ _, by
    intro p hp r hr
    cases List.mem_singleton.1 hr
    exact h.below p hp⟩
  below := by
    intro p hp
    change p.number < q.next + 1
    rcases List.mem_append.1 hp with hp | hp
    · have hlt := h.below p hp
      omega
    · cases List.mem_singleton.1 hp
      exact Nat.lt_succ_self _

theorem pop (h : Holds waiting q) (hp : q.pop? = some (p, q')) :
    ∃ rest, TakesFirst waiting p rest ∧ Holds rest q' := by
  obtain ⟨held, inOrder, numbered, below⟩ := h
  obtain ⟨hpending, hnext⟩ := pending_of_pop? hp
  rw [hpending] at held inOrder
  obtain ⟨hfirst, hrest⟩ := List.pairwise_cons.1 inOrder
  obtain ⟨earlier, later, rfl⟩ := List.append_of_mem (held.mem_iff.1 List.mem_cons_self)
  have hheld : q'.pending.Perm (earlier ++ later) := (held.trans List.perm_middle).cons_inv
  have hbehind : ∀ r ∈ earlier ++ later, r.priority < p.priority ∨
      p.priority = r.priority ∧ p.number < r.number := fun r hr =>
    PendingTrigger.compare_eq_gt.1 (hfirst r (hheld.mem_iff.2 hr))
  have hearlier : ∀ r ∈ earlier, r.number < p.number := fun r hr =>
    (List.pairwise_append.1 numbered).2.2 r hr p List.mem_cons_self
  refine ⟨earlier ++ later, ⟨earlier, later, rfl, rfl, ?_, ?_⟩, hheld, hrest, ?_, ?_⟩
  · intro r hr
    have hnumber := hearlier r hr
    have hturn := hbehind r (List.mem_append_left _ hr)
    omega
  · intro r hr
    have hturn := hbehind r (List.mem_append_right _ hr)
    omega
  · exact numbered.sublist ((List.sublist_cons_self p later).append_left earlier)
  · intro r hr
    rw [hnext]
    exact below r (List.mem_append.2 ((List.mem_append.1 hr).imp_right (List.mem_cons_of_mem p)))

theorem peek (h : Holds waiting q) :
    q.peek? = some p ↔ ∃ rest, TakesFirst waiting p rest := by
  rw [peek?_eq]
  cases hpop : q.pop? with
  | none =>
    have hnil := h.held
    rw [pending_of_pop?_eq_none hpop] at hnil
    rw [hnil.symm.eq_nil]
    simp [TakesFirst]
  | some popped =>
    obtain ⟨p', q'⟩ := popped
    obtain ⟨rest', hfirst, -⟩ := h.pop hpop
    constructor
    · rintro ⟨⟩
      exact ⟨rest', hfirst⟩
    · rintro ⟨rest, hp⟩
      exact congrArg some (hfirst.unique hp)

end Holds

/-- Queues give triggers their turns. -/
theorem course_inTurn {history : QueueHistory} {q : TriggerQueue}
    (h : operations.Course history q) : ∃ waiting, InTurn history waiting ∧ Holds waiting q := by
  induction h with
  | new => exact ⟨[], .new, .new⟩
  | push _ trigger priority probability ih =>
    obtain ⟨waiting, hturn, hholds⟩ := ih
    exact ⟨_, hturn.enqueued _, hholds.push trigger priority probability⟩
  | pop _ hp ih =>
    obtain ⟨waiting, hturn, hholds⟩ := ih
    obtain ⟨rest, hfirst, hrest⟩ := hholds.pop hp
    exact ⟨rest, hturn.popped hfirst, hrest⟩
  | clear _ ih =>
    obtain ⟨waiting, hturn, -⟩ := ih
    exact ⟨[], hturn.cleared, .new⟩

theorem course_numbers {history : QueueHistory} {q : TriggerQueue}
    (h : operations.Course history q) :
    history.sinceCleared.enqueued.map PendingTrigger.number = List.range q.next := by
  induction h with
  | new => rfl
  | @push past q _ trigger priority probability ih =>
    change _ = List.range (q.next + 1)
    simp only [QueueHistory.sinceCleared_enqueued, QueueHistory.enqueued_enqueued, List.map_append,
      ih, List.range_succ]
    rfl
  | pop _ hp ih =>
    obtain ⟨-, hnext⟩ := pending_of_pop? hp
    simp only [QueueHistory.sinceCleared_popped, QueueHistory.enqueued_popped, ih, hnext]
  | clear _ _ =>
    rw [QueueHistory.sinceCleared_cleared]
    rfl

theorem course_accounted {history : QueueHistory} {q : TriggerQueue}
    (h : operations.Course history q) {waiting : List PendingTrigger}
    (hturn : InTurn history waiting) : history.Accounted waiting where
  apart := by
    rw [course_numbers h]
    exact List.nodup_range
  balance := hturn.balance

end TriggerQueue

/-! ### Heaps -/

/-- A heap of triggers, of which no more is known than that it shows and gives back what is put in,
a greatest element at a time. -/
structure Heap where
  Carrier : Type
  contents : Carrier → List PendingTrigger
  empty : Carrier
  push : Carrier → PendingTrigger → Carrier
  peek? : Carrier → Option PendingTrigger
  pop? : Carrier → Option (PendingTrigger × Carrier)
  contents_empty : contents empty = []
  contents_push : ∀ h p, (contents (push h p)).Perm (p :: contents h)
  contents_of_peek?_none : ∀ h, peek? h = none → contents h = []
  greatest_of_peek?_some : ∀ h p, peek? h = some p → p.Greatest (contents h)
  contents_of_pop?_none : ∀ h, pop? h = none → contents h = []
  contents_of_pop?_some : ∀ h p h', pop? h = some (p, h') → (contents h).Perm (p :: contents h')
  greatest_of_pop?_some : ∀ h p h', pop? h = some (p, h') → p.Greatest (contents h)

namespace Heap

/-- The queue that is a heap and counts. -/
def operations (heap : Heap) : QueueOperations (heap.Carrier × Nat) where
  new := (heap.empty, 0)
  next q := q.2
  push q trigger priority probability :=
    (heap.push q.1 ⟨trigger, priority, q.2, probability⟩, q.2 + 1)
  peek? q := heap.peek? q.1
  pop? q := (heap.pop? q.1).map fun popped => (popped.1, popped.2, q.2)

section Pop

variable {heap : Heap} {h : heap.Carrier} {q : TriggerQueue}
  (hheld : (heap.contents h).Perm q.pending) (horder : q.pending.Pairwise (·.compare · = .gt))

include hheld horder

/-- No two triggers are equally great, so that a heap has no choice. -/
theorem pop?_of_holds :
    (q.pop? = none ∧ heap.pop? h = none) ∨ ∃ p q' h', q.pop? = some (p, q') ∧
      heap.pop? h = some (p, h') ∧ (heap.contents h').Perm q'.pending := by
  unfold TriggerQueue.pop?
  cases hpop : heap.pop? h with
  | none =>
    rw [heap.contents_of_pop?_none h hpop] at hheld
    rw [hheld.symm.eq_nil]
    exact .inl ⟨rfl, rfl⟩
  | some popped =>
    obtain ⟨p, h'⟩ := popped
    have hcontents := (heap.contents_of_pop?_some h p h' hpop).symm.trans hheld
    have hgreatest := (heap.greatest_of_pop?_some h p h' hpop).perm hheld
    cases hpending : q.pending with
    | nil =>
      rw [hpending] at hcontents
      cases hcontents.eq_nil
    | cons p' ps =>
      rw [hpending] at hcontents hgreatest horder
      obtain rfl := hgreatest.eq_head horder
      exact .inr ⟨p, _, h', rfl, rfl, hcontents.cons_inv⟩

theorem peek?_of_holds : heap.peek? h = q.peek? := by
  unfold TriggerQueue.peek?
  cases hpeek : heap.peek? h with
  | none =>
    rw [heap.contents_of_peek?_none h hpeek] at hheld
    rw [hheld.symm.eq_nil]
    rfl
  | some p =>
    have hgreatest := (heap.greatest_of_peek?_some h p hpeek).perm hheld
    cases hpending : q.pending with
    | nil =>
      rw [hpending] at hgreatest
      cases hgreatest.1
    | cons p' ps =>
      rw [hpending] at hgreatest horder
      exact congrArg some (hgreatest.eq_head horder)

end Pop

/-- With any heap under it a queue shows and pops what it does without. -/
theorem course (heap : Heap) {history : QueueHistory} {q : TriggerQueue}
    (hqueue : TriggerQueue.operations.Course history q) :
    ∃ h : heap.Carrier, heap.operations.Course history (h, q.next) ∧
      (heap.contents h).Perm q.pending ∧ heap.peek? h = q.peek? := by
  have hinOrder {history : QueueHistory} {q : TriggerQueue}
      (hqueue : TriggerQueue.operations.Course history q) :
      q.pending.Pairwise (·.compare · = .gt) := by
    obtain ⟨waiting, -, hholds⟩ := TriggerQueue.course_inTurn hqueue
    exact hholds.inOrder
  suffices hcourse : ∃ h : heap.Carrier, heap.operations.Course history (h, q.next) ∧
      (heap.contents h).Perm q.pending by
    obtain ⟨h, hcourse, hheld⟩ := hcourse
    exact ⟨h, hcourse, hheld, peek?_of_holds hheld (hinOrder hqueue)⟩
  induction hqueue with
  | new =>
    refine ⟨heap.empty, .new, ?_⟩
    rw [heap.contents_empty]
    exact .refl _
  | push _ trigger priority probability ih =>
    obtain ⟨h, hcourse, hheld⟩ := ih
    exact ⟨_, hcourse.push trigger priority probability,
      (heap.contents_push _ _).trans ((hheld.cons _).trans (TriggerQueue.insert_perm _ _).symm)⟩
  | @pop past q q' p hqueue hp ih =>
    obtain ⟨h, hcourse, hheld⟩ := ih
    change q.pop? = some (p, q') at hp
    rcases pop?_of_holds hheld (hinOrder hqueue) with ⟨hnone, -⟩ | ⟨_, _, h', hsome, hpop, hheld'⟩
    · rw [hp] at hnone
      cases hnone
    · rw [hp] at hsome
      cases hsome
      refine ⟨h', hcourse.pop ?_, hheld'⟩
      rw [(TriggerQueue.pending_of_pop? hp).2]
      change (heap.pop? h).map _ = _
      rw [hpop]
      rfl
  | clear _ ih =>
    obtain ⟨h, hcourse, -⟩ := ih
    refine ⟨heap.empty, hcourse.clear, ?_⟩
    rw [heap.contents_empty]
    exact .refl _

/-! ### A list as a heap -/

/-- A greatest trigger of a list that is not empty, and the others. -/
def takeGreatest (p : PendingTrigger) : List PendingTrigger → PendingTrigger × List PendingTrigger
  | [] => (p, [])
  | q :: qs =>
    if q.compare p = .gt then
      let (greatest, rest) := takeGreatest q qs
      (greatest, p :: rest)
    else
      let (greatest, rest) := takeGreatest p qs
      (greatest, q :: rest)

theorem takeGreatest_perm (p : PendingTrigger) (qs : List PendingTrigger) :
    (p :: qs).Perm ((takeGreatest p qs).1 :: (takeGreatest p qs).2) := by
  induction qs generalizing p with
  | nil => exact .refl _
  | cons q qs ih =>
    unfold takeGreatest
    split
    · exact ((ih q).cons p).trans (.swap _ _ _)
    · exact (List.Perm.swap q p qs).trans (((ih p).cons q).trans (.swap _ _ _))

theorem takeGreatest_not_lt (p : PendingTrigger) (qs : List PendingTrigger) :
    ∀ q ∈ p :: qs, q.compare (takeGreatest p qs).1 ≠ .gt := by
  induction qs generalizing p with
  | nil =>
    intro q hq
    cases List.mem_singleton.1 hq
    rw [ne_eq, PendingTrigger.compare_eq_gt]
    simp [takeGreatest]
  | cons q qs ih =>
    have hq := ih q
    have hp := ih p
    simp only [List.forall_mem_cons, ne_eq, PendingTrigger.compare_eq_gt] at hq hp ⊢
    unfold takeGreatest
    simp only [PendingTrigger.compare_eq_gt]
    split
    · refine ⟨?_, hq⟩
      dsimp only
      omega
    · refine ⟨hp.1, ?_, hp.2⟩
      dsimp only
      omega

theorem takeGreatest_greatest (p : PendingTrigger) (qs : List PendingTrigger) :
    (takeGreatest p qs).1.Greatest (p :: qs) :=
  ⟨(takeGreatest_perm p qs).mem_iff.2 List.mem_cons_self, takeGreatest_not_lt p qs⟩

def list : Heap where
  Carrier := List PendingTrigger
  contents := id
  empty := []
  push held p := p :: held
  peek?
    | [] => none
    | p :: ps => some (takeGreatest p ps).1
  pop?
    | [] => none
    | p :: ps => some (takeGreatest p ps)
  contents_empty := rfl
  contents_push _ _ := .refl _
  contents_of_peek?_none
    | [], _ => rfl
  greatest_of_peek?_some
    | p :: ps, _, h => Option.some.inj h ▸ takeGreatest_greatest p ps
  contents_of_pop?_none
    | [], _ => rfl
  contents_of_pop?_some
    | p :: ps, _, _, h => by
      have hperm := takeGreatest_perm p ps
      rw [Option.some.inj h] at hperm
      exact hperm
  greatest_of_pop?_some
    | p :: ps, _, _, h => by
      have hgreatest := takeGreatest_greatest p ps
      rw [Option.some.inj h] at hgreatest
      exact hgreatest

end Heap

end Scenario
