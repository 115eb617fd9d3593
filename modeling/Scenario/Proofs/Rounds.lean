import Scenario.Proofs.Once

/-!
The rounds of a loop. It ends behind the first full round at which something ends it: its stop, its
limit, a round that breaks off or a check that fails.
-/

namespace Scenario

/-- Whether a loop is to stop. A loop without a stop never is. -/
def State.stopHolds (s : State) : Option (Condition Expression) → Except EvaluationError Bool
  | some condition => s.holds condition
  | none => .ok false

namespace Play

/-! ### Rounds -/

section Rounds

theorem stops_eq (stop : Option (Condition Expression)) (w : World) :
    stops stop w =
      match w.state.stopHolds stop with
      | .ok b => (.done b, w)
      | .error e => (.failed (.evaluation e), w) := by
  cases stop with
  | none => rfl
  | some condition =>
    simp only [stops, look, State.stopHolds]
    cases w.state.holds condition <;> rfl

/-- The world that a full round leaves: one that comes to its end and does not stop everything. -/
def fullRound? (body : Play Flow) (w : World) : Option World :=
  match body w with
  | (.done .next, w') | (.done .stopList, w') => some w'
  | _ => none

/-- The world after so many full rounds, if there are so many. -/
def afterRounds? (body : Play Flow) : Nat → World → Option World
  | 0, w => some w
  | n + 1, w => (afterRounds? body n w).bind (fullRound? body)

variable (stop : Option (Condition Expression)) (checkAtEnd : Bool) (body : Play Flow)
  (limit : Option Nat)

/-- What a loop finds when it looks at its stop after so many full rounds: it does so in front of
every round that is to come, or behind every round that has been. -/
def check (n : Nat) (v : World) : Except EvaluationError Bool :=
  if (if checkAtEnd then 0 < n else limit ≠ some n) then v.state.stopHolds stop else .ok false

/-- From one world a loop gets to another one by so many full rounds. Its stop did not hold any time
that it was looked at before. -/
structure Reaches (w : World) (n : Nat) (v : World) : Prop where
  rounds : afterRounds? body n w = some v
  open_ : ∀ i < n, ∀ u, afterRounds? body i w = some u →
    check stop checkAtEnd limit i u = .ok false
  within : ∀ m ∈ limit, n ≤ m

/-- How a loop ends, and after how many full rounds: -/
inductive Ends (w : World) (n : Nat) : Outcome Flow × World → Prop
  /-- its stop holds; -/
  | stopped {v : World} (h : Reaches stop checkAtEnd body limit w n v)
    (hcheck : check stop checkAtEnd limit n v = .ok true) : Ends w n (.done .next, v)
  /-- its stop cannot be checked; -/
  | unchecked {v : World} {e : EvaluationError} (h : Reaches stop checkAtEnd body limit w n v)
    (hcheck : check stop checkAtEnd limit n v = .error e) : Ends w n (.failed (.evaluation e), v)
  /-- its limit is reached; -/
  | limited {v : World} (h : Reaches stop checkAtEnd body limit w n v)
    (hcheck : check stop checkAtEnd limit n v = .ok false) (hlimit : limit = some n) :
    Ends w n (.done .next, v)
  /-- the next round breaks off, or stops everything. -/
  | broken {v : World} (h : Reaches stop checkAtEnd body limit w n v)
    (hcheck : check stop checkAtEnd limit n v = .ok false) (hlimit : limit ≠ some n)
    (hround : fullRound? body v = none) : Ends w n (body v)

variable {stop checkAtEnd body limit} {w v v' : World} {n : Nat} {r : Outcome Flow × World}

theorem afterRounds?_of_le {m : Nat} (hle : m ≤ n) (h : afterRounds? body n w = some v) :
    ∃ u, afterRounds? body m w = some u := by
  induction hle generalizing v with
  | refl => exact ⟨v, h⟩
  | step _ ih =>
    obtain ⟨u, hu, -⟩ := Option.bind_eq_some_iff.1 h
    exact ih hu

theorem Ends.reached (h : Ends stop checkAtEnd body limit w n r) :
    ∃ v, Reaches stop checkAtEnd body limit w n v := by
  cases h with
  | stopped h | unchecked h | limited h | broken h => exact ⟨_, h⟩

/-- Where a later round is reached no loop has ended before. -/
theorem Reaches.le_of_ends {m : Nat} (h : Reaches stop checkAtEnd body limit w n v)
    (hends : Ends stop checkAtEnd body limit w m r) : n ≤ m := by
  by_contra hlt
  rw [Nat.not_le] at hlt
  obtain ⟨u, hu⟩ := afterRounds?_of_le (Nat.le_of_lt hlt) h.rounds
  obtain ⟨u', hu'⟩ := afterRounds?_of_le (Nat.succ_le_of_lt hlt) h.rounds
  have hopen := h.open_ m hlt u hu
  cases hends with
  | stopped hreached hcheck =>
    cases hu.symm.trans hreached.rounds
    cases hopen.symm.trans hcheck
  | unchecked hreached hcheck =>
    cases hu.symm.trans hreached.rounds
    cases hopen.symm.trans hcheck
  | limited _ _ hlimit => exact absurd (h.within m hlimit) (Nat.not_le_of_lt hlt)
  | broken hreached _ _ hround =>
    cases hu.symm.trans hreached.rounds
    rw [afterRounds?, hu] at hu'
    cases hround.symm.trans hu'

/-- A loop ends in one way only, after one number of rounds. -/
theorem Ends.unique {m : Nat} {r' : Outcome Flow × World}
    (h : Ends stop checkAtEnd body limit w n r) (h' : Ends stop checkAtEnd body limit w m r') :
    n = m ∧ r = r' := by
  obtain ⟨v, hv⟩ := h.reached
  obtain ⟨v', hv'⟩ := h'.reached
  obtain rfl : n = m := Nat.le_antisymm (hv.le_of_ends h') (hv'.le_of_ends h)
  have hsame {u : World} (hu : Reaches stop checkAtEnd body limit w n u) : u = v :=
    Option.some.inj (hu.rounds.symm.trans hv.rounds)
  cases h with
  | stopped h hcheck | unchecked h hcheck | limited h hcheck hlimit
  | broken h hcheck hlimit hround =>
    obtain rfl := hsame h
    cases h' with
    | stopped h' hcheck' | unchecked h' hcheck' | limited h' hcheck' hlimit'
    | broken h' hcheck' hlimit' hround' =>
      obtain rfl := hsame h'
      simp_all

theorem round_bind (next : Play Flow) (v : World) :
    (body >>= fun flow =>
      match flow with
      | .stopAll => pure .stopAll
      | _ => next) v =
      match fullRound? body v with
      | some v' => next v'
      | none => body v := by
  rw [bind_eq]
  unfold fullRound?
  rcases body v with ⟨(_ | _ | _) | _ | _ | _, v'⟩ <;> rfl

theorem stops_bind (next : Play Flow) (v : World) :
    (stops stop >>= fun holds => if holds then pure .next else next) v =
      match v.state.stopHolds stop with
      | .ok true => (.done .next, v)
      | .ok false => next v
      | .error e => (.failed (.evaluation e), v) := by
  rw [bind_eq, stops_eq]
  rcases v.state.stopHolds stop with _ | _ | _ <;> rfl

theorem rounds_behind (last : Play Flow) (n : Nat) (v : World) :
    rounds last (stops stop) true body (n + 1) v =
      match fullRound? body v with
      | some v' =>
        match v'.state.stopHolds stop with
        | .ok true => (.done .next, v')
        | .ok false => rounds last (stops stop) true body n v'
        | .error e => (.failed (.evaluation e), v')
      | none => body v := by
  change (body >>= fun flow =>
    match flow with
    | .stopAll => pure .stopAll
    | _ => stops stop >>= fun holds =>
      if holds then pure .next else rounds last (stops stop) true body n) v = _
  rw [round_bind]
  simp only [stops_bind]

theorem rounds_before (last : Play Flow) (n : Nat) (v : World) :
    rounds last (stops stop) false body (n + 1) v =
      match v.state.stopHolds stop with
      | .ok true => (.done .next, v)
      | .ok false =>
        match fullRound? body v with
        | some v' => rounds last (stops stop) false body n v'
        | none => body v
      | .error e => (.failed (.evaluation e), v) := by
  change (stops stop >>= fun holds =>
    if holds then pure .next
    else body >>= fun flow =>
      match flow with
      | .stopAll => pure .stopAll
      | _ => rounds last (stops stop) false body n) v = _
  rw [stops_bind]
  simp only [round_bind]

theorem Reaches.zero (h : ∀ m ∈ limit, 0 ≤ m) (w : World) :
    Reaches stop checkAtEnd body limit w 0 w :=
  ⟨rfl, fun _ hi => absurd hi (Nat.not_lt_zero _), h⟩

theorem Reaches.succ (h : Reaches stop checkAtEnd body limit w n v)
    (hcheck : check stop checkAtEnd limit n v = .ok false) (hround : fullRound? body v = some v')
    (hlimit : ∀ m ∈ limit, n + 1 ≤ m) : Reaches stop checkAtEnd body limit w (n + 1) v' where
  rounds := by rw [afterRounds?, h.rounds]; exact hround
  open_ i hi u hu := by
    rcases Nat.lt_succ_iff_lt_or_eq.1 hi with hlt | rfl
    · exact h.open_ i hlt u hu
    · cases hu.symm.trans h.rounds
      exact hcheck
  within := hlimit

/-- The rounds of a loop lead to one of its ends, or to the last of them. -/
theorem rounds_ends (last : Play Flow) (more : Nat) (hlimit : ∀ m ∈ limit, m = n + more)
    (h : Reaches stop checkAtEnd body limit w n v)
    (hcheck : checkAtEnd = true → check stop checkAtEnd limit n v = .ok false) :
    (∃ k, Ends stop checkAtEnd body limit w k (rounds last (stops stop) checkAtEnd body more v)) ∨
      ∃ u, Reaches stop checkAtEnd body limit w (n + more) u ∧
        (checkAtEnd = true → check stop checkAtEnd limit (n + more) u = .ok false) ∧
        rounds last (stops stop) checkAtEnd body more v = last u := by
  -- The limit lies behind the rounds that are left, so that no round on the way meets it.
  induction more generalizing n v with
  | zero => exact .inr ⟨v, h, hcheck, rfl⟩
  | succ more ih =>
    have hmore : n + (more + 1) = n + 1 + more := by omega
    have hleft : limit ≠ some n := by
      rintro rfl
      have := hlimit n rfl
      omega
    have hwithin : ∀ m ∈ limit, n + 1 ≤ m := by
      intro m hm
      have := hlimit m hm
      omega
    rw [hmore] at hlimit ⊢
    cases checkAtEnd with
    | true =>
      rw [rounds_behind]
      cases hround : fullRound? body v with
      | none => exact .inl ⟨n, .broken h (hcheck rfl) hleft hround⟩
      | some v' =>
        have hnext := h.succ (hcheck rfl) hround hwithin
        have hdue : check stop true limit (n + 1) v' = v'.state.stopHolds stop := by simp [check]
        dsimp only
        rcases hstop : v'.state.stopHolds stop with e | _ | _
        · exact .inl ⟨n + 1, .unchecked hnext (hdue.trans hstop)⟩
        · exact ih hlimit hnext fun _ => hdue.trans hstop
        · exact .inl ⟨n + 1, .stopped hnext (hdue.trans hstop)⟩
    | false =>
      have hdue : check stop false limit n v = v.state.stopHolds stop := by simp [check, hleft]
      rw [rounds_before]
      rcases hstop : v.state.stopHolds stop with e | _ | _
      · exact .inl ⟨n, .unchecked h (hdue.trans hstop)⟩
      · dsimp only
        cases hround : fullRound? body v with
        | none => exact .inl ⟨n, .broken h (hdue.trans hstop) hleft hround⟩
        | some v' => exact ih hlimit (h.succ (hdue.trans hstop) hround hwithin) nofun
      · exact .inl ⟨n, .stopped h (hdue.trans hstop)⟩

variable (stop checkAtEnd body)

/-- A loop with a limit ends, in one way only. -/
theorem rounds_limited (n : Nat) (w : World) :
    ∃ k, Ends stop checkAtEnd body (some n) w k
      (rounds (pure .next) (stops stop) checkAtEnd body n w) := by
  have hzero : check stop true (some n) 0 w = .ok false := rfl
  have hstart : Reaches stop checkAtEnd body (some n) w 0 w :=
    .zero (fun _ _ => Nat.zero_le _) w
  rcases rounds_ends (pure .next) n (by simp) hstart (by rintro rfl; exact hzero) with
    hends | ⟨u, hreached, hcheck, hlast⟩
  · exact hends
  · rw [Nat.zero_add] at hreached hcheck
    rw [hlast]
    refine ⟨n, .limited hreached ?_ rfl⟩
    cases checkAtEnd with
    | true => exact hcheck rfl
    | false => simp [check]

/-- A loop without a limit ends like this with enough patience, and runs out of it otherwise. -/
theorem rounds_unlimited (patience : Nat) (w : World) :
    (∃ k, Ends stop checkAtEnd body none w k
      (rounds exhausted (stops stop) checkAtEnd body patience w)) ∨
    (rounds exhausted (stops stop) checkAtEnd body patience w).1 = .exhausted ∧
      ∀ k r, Ends stop checkAtEnd body none w k r → patience ≤ k := by
  have hzero : check stop true none 0 w = .ok false := rfl
  have hstart : Reaches stop checkAtEnd body none w 0 w := .zero (by simp) w
  rcases rounds_ends exhausted patience (by simp) hstart (by rintro rfl; exact hzero) with
    hends | ⟨u, hreached, -, hlast⟩
  · exact .inl hends
  · rw [Nat.zero_add] at hreached
    rw [hlast]
    exact .inr ⟨rfl, fun k r => hreached.le_of_ends⟩

/-! ### Counting -/

/-- The rounds of a loop as a counter of 32 bits counts them, one that stays at its highest number
instead of starting over. A cap of zero is none. -/
def counted (stops : Play Bool) (checkAtEnd : Bool) (body : Play Flow) (cap : Nat) :
    Nat → Nat → Play Flow
  | 0, _ => exhausted
  | fuel + 1, count => do
    if 0 < cap ∧ cap ≤ count then return .next
    else
      if !checkAtEnd then
        if ← stops then return .next
      match ← body with
      | .stopAll => return .stopAll
      | _ =>
        if checkAtEnd then
          if ← stops then return .next
        counted stops checkAtEnd body cap fuel (min (count + 1) 4294967295)

variable {stop checkAtEnd body}

theorem counted_of_cap {stops : Play Bool} {cap fuel count : Nat} (hcap : 0 < cap)
    (hhighest : cap ≤ 4294967295) (hcount : count ≤ cap) (hfuel : cap - count < fuel) :
    counted stops checkAtEnd body cap fuel count =
      rounds (pure .next) stops checkAtEnd body (cap - count) := by
  induction fuel generalizing count with
  | zero => exact absurd hfuel (Nat.not_lt_zero _)
  | succ fuel ih =>
    unfold counted
    by_cases hdone : cap ≤ count
    · rw [if_pos ⟨hcap, hdone⟩, Nat.sub_eq_zero_of_le hdone]
      rfl
    · have hnext : min (count + 1) 4294967295 = count + 1 := by omega
      have hleft : cap - count = cap - (count + 1) + 1 := by omega
      rw [if_neg (by omega), hnext, ih (by omega) (by omega), hleft]
      rfl

theorem counted_zero {stops : Play Bool} (fuel count : Nat) :
    counted stops checkAtEnd body 0 fuel count = rounds exhausted stops checkAtEnd body fuel := by
  induction fuel generalizing count with
  | zero => rfl
  | succ fuel ih =>
    unfold counted
    rw [if_neg (by omega), ih]
    rfl

end Rounds

end Play

end Scenario
