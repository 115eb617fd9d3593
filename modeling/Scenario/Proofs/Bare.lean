import Mathlib.Data.List.Basic
import Scenario.Pass

/-!
Definitions over other expressions of the same shape. An expression without its place in a compiler
has the same value, so definitions that differ in those places only do the same.
-/

namespace Scenario

section Maps

variable {ε δ : Type} (f : ε → δ)

namespace Condition

mutual

def map : Condition ε → Condition δ
  | .expression e => .expression (f e)
  | .not c => .not (map c)
  | .all cs => .all (mapAll cs)
  | .any cs => .any (mapAll cs)
  | .count cs min max => .count (mapAll cs) (f min) (f max)

def mapAll : List (Condition ε) → List (Condition δ)
  | [] => []
  | c :: cs => map c :: mapAll cs

end

end Condition

def VariableUpdate.map (u : VariableUpdate ε) : VariableUpdate δ := ⟨u.id, f u.value⟩

def ItemAmount.map (a : ItemAmount ε) : ItemAmount δ := ⟨a.item, f a.amount⟩

def TriggerRequest.map (r : TriggerRequest ε) : TriggerRequest δ :=
  ⟨r.trigger, r.priority, f r.probability⟩

namespace Action

mutual

def map : Action ε → Action δ
  | .message m => .message m
  | .randomMessage texts confirm icon => .randomMessage texts confirm icon
  | .choices text icon cs => .choices text icon (mapChoices cs)
  | .random gs => .random (mapGroups gs)
  | .coinFlip probability success failure =>
    .coinFlip (f probability) (mapAll success) (mapAll failure)
  | .switch bs => .switch (mapBranches bs)
  | .loop as condition maxIterations checkAtEnd =>
    .loop (mapAll as) (condition.map (Condition.map f)) maxIterations checkAtEnd
  | .stop everywhere => .stop everywhere
  | .endGame outcome => .endGame outcome
  | .updateVariable u => .updateVariable (u.map f)
  | .updateVariables us => .updateVariables (us.map (VariableUpdate.map f))
  | .updateVariableLimits id min max => .updateVariableLimits id (min.map f) (max.map f)
  | .giveItem a => .giveItem (a.map f)
  | .updateItemAmounts as => .updateItemAmounts (as.map (ItemAmount.map f))
  | .setStatus status duration => .setStatus status (f duration)
  | .triggerEvents rs => .triggerEvents (rs.map (TriggerRequest.map f))
  | .toggleEvents enabled events => .toggleEvents enabled events

def mapAll : List (Action ε) → List (Action δ)
  | [] => []
  | a :: as => map a :: mapAll as

def mapChoices : List (Choice ε (Action ε)) → List (Choice δ (Action δ))
  | [] => []
  | ⟨text, requirement, as⟩ :: cs =>
    ⟨text, requirement.map (Condition.map f), mapAll as⟩ :: mapChoices cs

def mapGroups : List (Group ε (Action ε)) → List (Group δ (Action δ))
  | [] => []
  | ⟨weight, as⟩ :: gs => ⟨f weight, mapAll as⟩ :: mapGroups gs

def mapBranches : List (Branch ε (Action ε)) → List (Branch δ (Action δ))
  | [] => []
  | ⟨c, as⟩ :: bs => ⟨c.map f, mapAll as⟩ :: mapBranches bs

end

end Action

def Event.map (e : Event ε) : Event δ :=
  { e with
    conditions := Condition.mapAll f e.conditions
    actions := Action.mapAll f e.actions
    probability := f e.probability }

def Modifier.map (m : Modifier ε) : Modifier δ := ⟨m.target, m.kind, f m.amount⟩

def Provider.map (p : Provider ε) : Provider δ :=
  { p with modifiers := p.modifiers.map (Modifier.map f) }

end Maps

/-- The expression without its place in a compiler. -/
def Expression.bare (e : Expression) : Expression := { e with entry := none }

def Event.bare : Event Expression → Event Expression := Event.map Expression.bare

def Provider.bare : Provider Expression → Provider Expression := Provider.map Expression.bare

@[simp] theorem Event.bare_id (e : Event Expression) : e.bare.id = e.id := rfl

@[simp] theorem Provider.bare_id (p : Provider Expression) : p.bare.id = p.id := rfl

@[simp] theorem Provider.bare_maxStack (p : Provider Expression) :
    p.bare.maxStack = p.maxStack := rfl

/-! ### Values -/

section Values

variable {m : Type → Type} [Monad m] [MonadExceptOf EvaluationError m] (scope : Expr.Scope m)

@[simp] theorem Expression.eval_bare (e : Expression) : e.bare.eval scope = e.eval scope := rfl

namespace Condition

mutual

theorem check_bare : ∀ c : Condition Expression,
    (c.map Expression.bare).check scope = c.check scope
  | .expression _ => rfl
  | .not c => by simp only [map, check, check_bare c]
  | .all cs => by simp only [map, check, checkAll_bare cs]
  | .any cs => by simp only [map, check, checkAny_bare cs]
  | .count cs min max => by
    simp only [map, check, countHolding_bare cs, Expression.eval_bare]

theorem checkAll_bare : ∀ cs : List (Condition Expression),
    checkAll scope (mapAll Expression.bare cs) = checkAll scope cs
  | [] => rfl
  | c :: cs => by simp only [mapAll, checkAll, check_bare c, checkAll_bare cs]

theorem checkAny_bare : ∀ cs : List (Condition Expression),
    checkAny scope (mapAll Expression.bare cs) = checkAny scope cs
  | [] => rfl
  | c :: cs => by simp only [mapAll, checkAny, check_bare c, checkAny_bare cs]

theorem countHolding_bare : ∀ cs : List (Condition Expression),
    countHolding scope (mapAll Expression.bare cs) = countHolding scope cs
  | [] => rfl
  | c :: cs => by simp only [mapAll, countHolding, check_bare c, countHolding_bare cs]

end

end Condition

namespace Combined

theorem addAll_bare (count : Nat) (c : Combined Float) (modifiers : List (Modifier Expression)) :
    addAll (·.eval scope) count c (modifiers.map (Modifier.map Expression.bare)) =
      addAll (·.eval scope) count c modifiers := by
  induction modifiers generalizing c with
  | nil => rfl
  | cons modifier rest ih =>
    simp only [List.map_cons, addAll, ih]
    rfl

theorem collect_bare (target : String) (c : Combined Float)
    (sources : List (Provider Expression × Nat)) :
    collect (·.eval scope) target c (sources.map fun (p, n) => (p.bare, n)) =
      collect (·.eval scope) target c sources := by
  induction sources generalizing c with
  | nil => rfl
  | cons source rest ih =>
    obtain ⟨p, n⟩ := source
    have hmodifiers : p.bare.modifiers.filter (·.target = target) =
        (p.modifiers.filter (·.target = target)).map (Modifier.map Expression.bare) := by
      simp only [Provider.bare, Provider.map, List.filter_map]
      rfl
    simp only [List.map_cons, collect, ih, hmodifiers, addAll_bare]

end Combined

end Values

/-! ### Actions and events -/

theorem State.holds_bare (s : State) (c : Condition Expression) :
    s.holds (c.map Expression.bare) = s.holds c := c.check_bare s.scope

theorem eligible_bare (s : State) (i : Nat) (cs : List (Choice Expression (Action Expression))) :
    eligible s i (Action.mapChoices Expression.bare cs) = eligible s i cs := by
  induction cs generalizing i with
  | nil => rfl
  | cons c cs ih =>
    obtain ⟨text, requirement, actions⟩ := c
    cases requirement with
    | none => simp only [Action.mapChoices, eligible, ih, Option.map_none]
    | some c => simp only [Action.mapChoices, eligible, ih, Option.map_some, State.holds_bare]

namespace Play

instance : LawfulMonad Play := by
  refine LawfulMonad.mk' Play (fun p => ?_) (fun a f => ?_) (fun p f g => ?_)
  · funext w
    change (p >>= fun a => pure (id a)) w = p w
    simp only [bind]
    rcases p w with ⟨o, w'⟩
    cases o with
    | _ => rfl
  · rfl
  · funext w
    simp only [bind]
    rcases p w with ⟨o, w'⟩
    cases o with
    | _ => rfl

theorem stops_bare (stop : Option (Condition Expression)) :
    stops (stop.map (Condition.map Expression.bare)) = stops stop := by
  cases stop with
  | none => rfl
  | some c => simp only [stops, Option.map_some, State.holds_bare]

theorem weights_bare (s : State) (gs : List (Group Expression (Action Expression))) :
    (Action.mapGroups Expression.bare gs).mapM (fun g => s.eval g.weight) =
      gs.mapM fun g => s.eval g.weight := by
  induction gs with
  | nil => rfl
  | cons g gs ih =>
    obtain ⟨weight, actions⟩ := g
    simp only [Action.mapGroups, List.mapM_cons, ih]
    rfl

section Run

variable (screen : Screen) (patience : Nat)

mutual

theorem run_bare : ∀ a : Action Expression,
    run screen patience (a.map Expression.bare) = run screen patience a
  | .message _ => rfl
  | .randomMessage _ _ _ => rfl
  | .choices text icon cs => by
    simp only [Action.map, run, eligible_bare, runChoice_bare]
  | .random gs => by
    simp only [Action.map, run, weights_bare, runGroup_bare]
  | .coinFlip probability success failure => by
    simp only [Action.map, run, runAll_bare success, runAll_bare failure]
    rfl
  | .switch bs => by
    simp only [Action.map, run, runSwitch_bare bs]
  | .loop as stop maxIterations checkAtEnd => by
    simp only [Action.map, run, runAll_bare as, stops_bare]
  | .stop _ => rfl
  | .endGame _ => rfl
  | .updateVariable _ => rfl
  | .updateVariables us => by
    simp only [Action.map, run, List.mapM_map]
    rfl
  | .updateVariableLimits id min max => by
    cases min <;> cases max <;> rfl
  | .giveItem _ => rfl
  | .updateItemAmounts as => by
    have hgive : (as.map (ItemAmount.map Expression.bare)).forM give = as.forM give :=
      List.forM_map
    simp only [Action.map, run, hgive]
  | .setStatus _ _ => rfl
  | .triggerEvents rs => by
    have hrequest : (rs.map (TriggerRequest.map Expression.bare)).forM request = rs.forM request :=
      List.forM_map
    simp only [Action.map, run, hrequest]
  | .toggleEvents _ _ => rfl

theorem runAll_bare : ∀ as : List (Action Expression),
    runAll screen patience (Action.mapAll Expression.bare as) = runAll screen patience as
  | [] => rfl
  | a :: as => by simp only [Action.mapAll, runAll, run_bare a, runAll_bare as]

theorem runChoice_bare (i : Nat) : ∀ cs : List (Choice Expression (Action Expression)),
    runChoice screen patience i (Action.mapChoices Expression.bare cs) =
      runChoice screen patience i cs
  | [] => rfl
  | ⟨_, _, as⟩ :: cs => by
    cases i with
    | zero => simp only [Action.mapChoices, runChoice, runAll_bare as]
    | succ i => simp only [Action.mapChoices, runChoice, runChoice_bare i cs]

theorem runGroup_bare (i : Nat) : ∀ gs : List (Group Expression (Action Expression)),
    runGroup screen patience i (Action.mapGroups Expression.bare gs) =
      runGroup screen patience i gs
  | [] => rfl
  | ⟨_, as⟩ :: gs => by
    cases i with
    | zero => simp only [Action.mapGroups, runGroup, runAll_bare as]
    | succ i => simp only [Action.mapGroups, runGroup, runGroup_bare i gs]

theorem runSwitch_bare : ∀ bs : List (Branch Expression (Action Expression)),
    runSwitch screen patience (Action.mapBranches Expression.bare bs) =
      runSwitch screen patience bs
  | [] => rfl
  | ⟨c, as⟩ :: bs => by
    simp only [Action.mapBranches, runSwitch, State.holds_bare, runAll_bare as, runSwitch_bare bs]

end

theorem takesTurn_bare (excluded : List String) (e : Event Expression) :
    takesTurn excluded e.bare = takesTurn excluded e := by
  have hconditions : e.bare.conditions = Condition.mapAll Expression.bare e.conditions := rfl
  simp only [takesTurn, hconditions, Condition.checkAll_bare]
  rfl

theorem happen_bare (trigger : String) (e : Event Expression) :
    happen screen patience trigger e.bare = happen screen patience trigger e := by
  have hactions : e.bare.actions = Action.mapAll Expression.bare e.actions := rfl
  simp only [happen, hactions, runAll_bare]
  rfl

theorem listen_bare (trigger : String) (excluded : List String) (es : List (Event Expression)) :
    listen screen patience trigger excluded (es.map Event.bare) =
      listen screen patience trigger excluded es := by
  induction es generalizing excluded with
  | nil => rfl
  | cons e es ih =>
    simp only [List.map_cons, listen, takesTurn_bare, happen_bare, ih]
    rfl

end Run

end Play

end Scenario
