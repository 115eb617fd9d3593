import Scenario.Proofs.Codecs
import Scenario.Proofs.PassReports
import Scenario.Proofs.Ranges

/-!
What a reader of notifications gets to know. Unlike saves, notifications have no words for numbers
that are infinite or none: those are written as `null`, so that a change of a variable is refused
and a status that goes on for good is read as one that has ended.
-/

namespace Scenario

namespace Notification

/-- The doubles of a notification. -/
def numbers : Notification → List Float
  | .variableChanged _ old new => [old, new]
  | .variableLimitsChanged _ min max => [min, max]
  | .statusChanged _ (some remaining) => [remaining]
  | _ => []

def Finite (n : Notification) : Prop := ∀ x ∈ n.numbers, x.isFinite

/-- What the text of a notification is read as. -/
def told : Notification → Except Json.Fault Notification
  | .variableChanged id old new =>
    if old.isFinite && new.isFinite then .ok (.variableChanged id old new) else .error .mismatch
  | .variableLimitsChanged id min max =>
    if min.isFinite && max.isFinite then .ok (.variableLimitsChanged id min max)
    else .error .mismatch
  | .statusChanged id remaining => .ok (.statusChanged id (remaining.filter Float.isFinite))
  | n => .ok n

/-- Just the notifications without numbers that are infinite or none are read as they are. -/
theorem told_eq_ok_self {n : Notification} : n.told = .ok n ↔ n.Finite := by
  unfold Finite
  cases n with
  | variableChanged id old new => simp [told, numbers]
  | variableLimitsChanged id min max => simp [told, numbers]
  | statusChanged id remaining =>
    cases remaining with
    | none => simp [told, numbers]
    | some x => by_cases hx : x.isFinite <;> simp [told, numbers, Option.filter, hx]
  | _ => simp [told, numbers]

end Notification

namespace Json

theorem faithful_ofFloat {x : Float} (h : x.isFinite → ReadsBack x) : (ofFloat x).Faithful := by
  unfold ofFloat
  split
  · rename_i hfinite
    exact h hfinite
  · trivial

theorem ofFloat_of_finite {x : Float} (h : x.isFinite) : ofFloat x = .double x := if_pos h

theorem ofFloat_of_not_finite {x : Float} (h : ¬ x.isFinite) : ofFloat x = .null := if_neg h

theorem faithful_ofNotification {n : Notification} (hrange : n.AtMost 4294967295)
    (hreads : ∀ x ∈ n.numbers, x.isFinite → ReadsBack x) : (ofNotification n).Faithful := by
  cases n with
  | variableChanged id old new =>
    have hold := faithful_ofFloat (hreads old (by simp [Notification.numbers]))
    have hnew := faithful_ofFloat (hreads new (by simp [Notification.numbers]))
    exact ⟨⟨trivial, hold, hnew, trivial⟩, trivial⟩
  | variableLimitsChanged id min max =>
    have hmin := faithful_ofFloat (hreads min (by simp [Notification.numbers]))
    have hmax := faithful_ofFloat (hreads max (by simp [Notification.numbers]))
    exact ⟨⟨trivial, hmin, hmax, trivial⟩, trivial⟩
  | itemChanged id old new =>
    have hold : old < 2 ^ 128 := Nat.lt_of_le_of_lt hrange.1 (by decide)
    have hnew : new < 2 ^ 128 := Nat.lt_of_le_of_lt hrange.2 (by decide)
    exact ⟨⟨trivial, hold, hnew, trivial⟩, trivial⟩
  | statusChanged id remaining =>
    cases remaining with
    | none => exact ⟨⟨trivial, trivial, trivial⟩, trivial⟩
    | some x =>
      have hx := faithful_ofFloat (hreads x (by simp [Notification.numbers]))
      exact ⟨⟨trivial, hx, trivial⟩, trivial⟩
  | eventFired event trigger => exact ⟨⟨trivial, trivial, trivial⟩, trivial⟩
  | eventToggled event enabled => exact ⟨⟨trivial, trivial, trivial⟩, trivial⟩
  | gameEnded outcome =>
    cases outcome with
    | none => exact ⟨⟨trivial, trivial⟩, trivial⟩
    | some outcome => exact ⟨⟨trivial, trivial⟩, trivial⟩

theorem depth_ofFloat (x : Float) : (ofFloat x).depth = 0 := by
  unfold ofFloat
  split <;> rfl

theorem depth_ofNotification (n : Notification) : (ofNotification n).depth ≤ 2 := by
  cases n with
  | statusChanged id remaining =>
    cases remaining <;>
      simp [ofNotification, Json.option, depth, membersDepth, depth_ofFloat]
  | gameEnded outcome => cases outcome <;> exact Nat.le_refl 2
  | _ => simp [ofNotification, nat, depth, membersDepth, depth_ofFloat]

/-- Decoding what a notification is written as. -/
theorem notification_ofNotification {n : Notification} (hrange : n.AtMost 4294967295) :
    Decoder.notification (ofNotification n) = n.told := by
  cases n with
  | variableChanged id old new =>
    rw [ofNotification, Notification.told]
    by_cases hold : old.isFinite
    · by_cases hnew : new.isFinite
      · rw [ofFloat_of_finite hold, ofFloat_of_finite hnew, hold, hnew]
        rfl
      · rw [ofFloat_of_finite hold, ofFloat_of_not_finite hnew, if_neg (by simp [hnew])]
        rfl
    · rw [ofFloat_of_not_finite hold, if_neg (by simp [hold])]
      rfl
  | variableLimitsChanged id min max =>
    rw [ofNotification, Notification.told]
    by_cases hmin : min.isFinite
    · by_cases hmax : max.isFinite
      · rw [ofFloat_of_finite hmin, ofFloat_of_finite hmax, hmin, hmax]
        rfl
      · rw [ofFloat_of_finite hmin, ofFloat_of_not_finite hmax, if_neg (by simp [hmax])]
        rfl
    · rw [ofFloat_of_not_finite hmin, if_neg (by simp [hmin])]
      rfl
  | itemChanged id old new =>
    have hold : old < 2 ^ 32 := Nat.lt_of_le_of_lt hrange.1 (by decide)
    have hnew : new < 2 ^ 32 := Nat.lt_of_le_of_lt hrange.2 (by decide)
    refine (Tells.keyed rfl ?_ : Tells 2 _ _ _).decode
    exact .record (.cons (.string id) <| .cons (.nat (by decide) hold) <|
      .cons (.nat (by decide) hnew) .nil) (by decide) false _
  | statusChanged id remaining =>
    cases remaining with
    | none => rfl
    | some x =>
      change Decoder.notification (.object [("StatusChanged",
        .object [("id", .string id), ("remaining", ofFloat x)])]) =
          .ok (.statusChanged id ((some x).filter Float.isFinite))
      by_cases hx : x.isFinite
      · rw [ofFloat_of_finite hx, Option.filter_some, if_pos hx]
        rfl
      · rw [ofFloat_of_not_finite hx, Option.filter_some, if_neg hx]
        rfl
  | eventFired event trigger => rfl
  | eventToggled event enabled => rfl
  | gameEnded outcome =>
    cases outcome with
    | none => rfl
    | some outcome => rfl

end Json

theorem Json.ofText_ofNotification {n : Notification} (hrange : n.AtMost 4294967295)
    (hreads : ∀ x ∈ n.numbers, x.isFinite → ReadsBack x) :
    Decoder.notification.ofText (ofNotification n).render = n.told := by
  rw [ofText_render _ (faithful_ofNotification hrange hreads)
    (Nat.le_trans (depth_ofNotification n) (by decide))]
  exact notification_ofNotification hrange

/-- What a host gets to know of a notification from its text, if finite numbers are read back. It is
the notification itself just if all of its numbers are finite. -/
theorem Engine.notification_ofText {e : Engine} (h : e.ReachableBy Call.InRange)
    (hconfig : e.state.config.maxItemStack < 2 ^ 32) {n : Notification}
    (hn : n ∈ e.state.notifications) (hreads : ∀ x ∈ n.numbers, x.isFinite → Json.ReadsBack x) :
    Json.Decoder.notification.ofText (Json.ofNotification n).render = n.told ∧
      (n.told = .ok n ↔ n.Finite) :=
  ⟨Json.ofText_ofNotification ((h.inRange.told n hn).mono (Nat.le_of_lt_succ hconfig)) hreads,
    Notification.told_eq_ok_self⟩

/-! ### A floor without a ceiling, and a blessing for good -/

def flood : Event Expression :=
  { id := "flood", trigger := "rain", probability := .constant 1.0,
    actions := [.updateVariableLimits "depth" (some (.constant 0.0)) none] }

def cistern : Engine :=
  (Engine.performAll quiet
    [.defineVariable "depth" { value := 2.5 }, .registerEvent flood, .fire "rain", .next 1]
    (.new {})).2

def chapel : Engine :=
  (Engine.performAll quiet
    [.registerStatus { id := "blessed" }, .setStatus "blessed" infinity] (.new {})).2

theorem cistern_reachable : cistern.ReachableBy Call.InRange := by
  refine Engine.ReachableBy.performAll (.start {} (.ofSeed "default") (.ofSeed "default")) quiet ?_
  intro call hcall
  simp only [List.mem_cons, List.not_mem_nil, or_false] at hcall
  rcases hcall with rfl | rfl | rfl | rfl <;> trivial

theorem chapel_reachable : chapel.ReachableBy Call.InRange := by
  refine Engine.ReachableBy.performAll (.start {} (.ofSeed "default") (.ofSeed "default")) quiet ?_
  intro call hcall
  simp only [List.mem_cons, List.not_mem_nil, or_false] at hcall
  rcases hcall with rfl | rfl <;> trivial

theorem cistern_notifications : cistern.state.notifications =
    [.variableLimitsChanged "depth" 0.0 infinity, .eventFired "flood" "rain"] := rfl

theorem chapel_notifications :
    chapel.state.notifications = [.statusChanged "blessed" (some infinity)] := rfl

theorem readsBack_flood : ∀ x ∈ (Notification.variableLimitsChanged "depth" 0.0 infinity).numbers,
    x.isFinite → Json.ReadsBack x := by
  intro x hx hfinite
  simp only [Notification.numbers, List.mem_cons, List.not_mem_nil, or_false] at hx
  rcases hx with rfl | rfl
  · exact Json.readsBack_of_unsigned "0.0" (by decide +kernel) rfl
  · cases hfinite

theorem readsBack_blessed : ∀ x ∈ (Notification.statusChanged "blessed" (some infinity)).numbers,
    x.isFinite → Json.ReadsBack x := by
  intro x hx hfinite
  rw [List.mem_singleton.1 hx] at hfinite
  cases hfinite

theorem notification_ofText_cistern :
    Json.Decoder.notification.ofText
      (Json.ofNotification (.variableLimitsChanged "depth" 0.0 infinity)).render =
        .error .mismatch ∧
    ¬ (Notification.variableLimitsChanged "depth" 0.0 infinity).Finite := by
  obtain ⟨htold, hself⟩ := Engine.notification_ofText cistern_reachable (by decide +kernel)
    (cistern_notifications ▸ List.mem_cons_self) readsBack_flood
  refine ⟨htold, fun hfinite => ?_⟩
  cases hself.2 hfinite

/-- Of what engines tell, some is refused and some is read as something else. -/
theorem notifications_misread :
    (∃ e : Engine, e.ReachableBy Call.InRange ∧ e.state.config.maxItemStack < 2 ^ 32 ∧
      ∃ n ∈ e.state.notifications, (∀ x ∈ n.numbers, x.isFinite → Json.ReadsBack x) ∧
        Json.Decoder.notification.ofText (Json.ofNotification n).render = .error .mismatch) ∧
    ∃ e : Engine, e.ReachableBy Call.InRange ∧ e.state.config.maxItemStack < 2 ^ 32 ∧
      ∃ n ∈ e.state.notifications, (∀ x ∈ n.numbers, x.isFinite → Json.ReadsBack x) ∧
        n = .statusChanged "blessed" (some infinity) ∧
        Json.Decoder.notification.ofText (Json.ofNotification n).render =
          .ok (.statusChanged "blessed" none) :=
  ⟨⟨cistern, cistern_reachable, by decide +kernel, _,
      cistern_notifications ▸ List.mem_cons_self, readsBack_flood,
      Json.ofText_ofNotification trivial readsBack_flood⟩,
    chapel, chapel_reachable, by decide +kernel, _,
      chapel_notifications ▸ List.mem_cons_self, readsBack_blessed, rfl,
      Json.ofText_ofNotification trivial readsBack_blessed⟩

end Scenario
