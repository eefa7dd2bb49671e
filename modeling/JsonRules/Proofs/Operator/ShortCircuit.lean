import JsonRules.Proofs.Rule.Evaluation

/-!
# Operators that stop early

Conjunctions, disjunctions and choices go through their arguments one after another, each against
the same data, and stop as soon as the result is settled (`Chain`). Which arguments are reached is
said here of the positions alone: an argument is reached if those before it that are tested have
come out in its favour (`Chain.Reaches`). An argument that fails has no truth value, so none is
reached after it.

The arguments that are reached make up the whole evaluation: their logs one after another are its
log, and what the last of them comes to is what it comes to, unless there is nothing left to
evaluate when all conditions of a choice are false. So the arguments that are not reached may as
well be others (`Engine.apply_of_chain?`).
-/

namespace JsonRules

/-- How an operator goes through its arguments that stops when the result is settled. -/
inductive Chain where
  /-- Up to the first argument with a truth value. -/
  | search (stop : Bool)
  /-- Condition by condition up to the first that is true, and then to its branch. -/
  | choice

/-- How a control operator goes through its arguments, unless it iterates. -/
def Control.chain? : Control → Option Chain
  | and => some (.search false)
  | or => some (.search true)
  | ifElse | ternary => some .choice
  | map | filter | reduce | all | any | notAny => none

namespace Chain

/-- The argument at a position is reached if those before it have the truth values that it takes.
Conditions are at even positions, and behind each of them is its branch. -/
def Reaches (chain : Chain) (truth : Nat → Option Bool) (position : Nat) : Prop :=
  match chain with
  | search stop => ∀ earlier < position, truth earlier = some !stop
  | choice =>
    (∀ k < position / 2, truth (2 * k) = some false) ∧
      (position % 2 = 1 → truth (position - 1) = some true)

/-- There is no argument whose value would be the result: none at all, or only conditions that are
false and their branches. -/
def FallsThrough (chain : Chain) (truth : Nat → Option Bool) (count : Nat) : Prop :=
  match chain with
  | search _ => count = 0
  | choice => count % 2 = 0 ∧ ∀ k < count / 2, truth (2 * k) = some false

instance (chain : Chain) (truth : Nat → Option Bool) : DecidablePred (chain.Reaches truth) :=
  fun position =>
    match chain with
    | search stop =>
      inferInstanceAs (Decidable (∀ earlier < position, truth earlier = some !stop))
    | choice =>
      inferInstanceAs (Decidable ((∀ k < position / 2, truth (2 * k) = some false) ∧
        (position % 2 = 1 → truth (position - 1) = some true)))

section Positions

variable {stop : Bool} {truth : Nat → Option Bool} {position count : Nat}

theorem reaches_zero (chain : Chain) (truth : Nat → Option Bool) : chain.Reaches truth 0 := by
  cases chain with
  | search stop => exact fun earlier h => absurd h (Nat.not_lt_zero earlier)
  | choice => exact ⟨fun k h => absurd h (Nat.not_lt_zero k), fun h => absurd h (by decide)⟩

theorem reaches_search_succ :
    (search stop).Reaches truth (position + 1) ↔
      truth 0 = some !stop ∧ (search stop).Reaches (fun i => truth (i + 1)) position :=
  Nat.forall_lt_succ_left

theorem reaches_choice_one : choice.Reaches truth 1 ↔ truth 0 = some true := by
  simp [Reaches]

theorem reaches_choice_add_two :
    choice.Reaches truth (position + 2) ↔
      truth 0 = some false ∧ choice.Reaches (fun i => truth (i + 2)) position := by
  have hhalf : (position + 2) / 2 = position / 2 + 1 := by omega
  have hbranch : (position + 2) % 2 = 1 → position + 2 - 1 = position - 1 + 2 := by omega
  unfold Reaches
  rw [hhalf, Nat.forall_lt_succ_left, and_assoc, Nat.add_mod_right]
  refine and_congr_right fun _ => and_congr_right fun _ => forall_congr' fun hodd => ?_
  rw [hbranch (by omega)]

theorem not_fallsThrough_one (chain : Chain) (truth : Nat → Option Bool) :
    ¬ chain.FallsThrough truth 1 := by
  cases chain with
  | search stop => exact Nat.one_ne_zero
  | choice => exact fun h => Nat.one_ne_zero h.1

theorem fallsThrough_choice_add_two :
    choice.FallsThrough truth (count + 2) ↔
      truth 0 = some false ∧ choice.FallsThrough (fun i => truth (i + 2)) count := by
  have hhalf : (count + 2) / 2 = count / 2 + 1 := by omega
  unfold FallsThrough
  rw [hhalf, Nat.forall_lt_succ_left, Nat.add_mod_right, and_left_comm]
  exact Iff.rfl

end Positions

end Chain

/-! ## Arguments that are reached -/

section ArgumentsAt

variable {ρ : Type} {P Q : Nat → Prop} [DecidablePred P] [DecidablePred Q]

/-- The arguments at positions with a property, in order. -/
def argumentsAt (P : Nat → Prop) [DecidablePred P] (args : List ρ) : List ρ :=
  (args.zipIdx.filter fun p => P p.2).map Prod.fst

theorem argumentsAt_cons (arg : ρ) (rest : List ρ) :
    argumentsAt P (arg :: rest) =
      if P 0 then arg :: argumentsAt (fun i => P (i + 1)) rest
      else argumentsAt (fun i => P (i + 1)) rest := by
  have hshift : ((rest.zipIdx 1).filter fun p => P p.2).map Prod.fst =
      argumentsAt (fun i => P (i + 1)) rest := by
    rw [List.zipIdx_succ, List.filter_map, List.map_map]
    rfl
  unfold argumentsAt at hshift ⊢
  rw [List.zipIdx_cons, List.filter_cons, ← hshift]
  by_cases h : P 0 <;> simp [h]

theorem argumentsAt_congr (h : ∀ i, P i ↔ Q i) (args : List ρ) :
    argumentsAt P args = argumentsAt Q args := by
  simp only [argumentsAt, h]

theorem argumentsAt_of_forall_not (h : ∀ i, ¬ P i) (args : List ρ) : argumentsAt P args = [] := by
  simp [argumentsAt, h]

end ArgumentsAt

namespace Chain

variable {ρ : Type}

/-- The arguments that are reached, in order. -/
def reached (chain : Chain) (truth : Nat → Option Bool) (args : List ρ) : List ρ :=
  argumentsAt (chain.Reaches truth) args

/-- The first condition is false and the second one true. -/
example : choice.reached (fun i => some (i == 2)) ["if", "then", "else if", "then", "else"] =
    ["if", "else if", "then"] := by decide

theorem reached_search_cons (stop : Bool) (truth : Nat → Option Bool) (arg : ρ) (rest : List ρ) :
    (search stop).reached truth (arg :: rest) =
      arg :: if truth 0 = some !stop then (search stop).reached (fun i => truth (i + 1)) rest
        else [] := by
  rw [reached, argumentsAt_cons, if_pos (reaches_zero _ truth)]
  congr 1
  by_cases h : truth 0 = some !stop
  · rw [if_pos h]
    exact argumentsAt_congr (fun i => by rw [reaches_search_succ, and_iff_right h]) rest
  · rw [if_neg h]
    exact argumentsAt_of_forall_not (fun i hi => h (reaches_search_succ.1 hi).1) rest

theorem reached_singleton (chain : Chain) (truth : Nat → Option Bool) (arg : ρ) :
    chain.reached truth [arg] = [arg] := by
  rw [reached, argumentsAt_cons, if_pos (reaches_zero _ truth)]
  rfl

theorem reached_choice_cons_cons (truth : Nat → Option Bool) (condition branch : ρ)
    (rest : List ρ) :
    choice.reached truth (condition :: branch :: rest) =
      condition :: match truth 0 with
        | some true => [branch]
        | some false => choice.reached (fun i => truth (i + 2)) rest
        | none => [] := by
  have hrest : truth 0 ≠ some false →
      argumentsAt (fun i => choice.Reaches truth (i + 2)) rest = [] := by
    intro h
    exact argumentsAt_of_forall_not (fun i hi => h (reaches_choice_add_two.1 hi).1) rest
  rw [reached, argumentsAt_cons, if_pos (reaches_zero _ truth), argumentsAt_cons]
  congr 1
  cases h : truth 0 with
  | none =>
    rw [if_neg (by rw [Nat.zero_add, reaches_choice_one, h]; decide), hrest (by rw [h]; decide)]
  | some b =>
    cases b with
    | true =>
      rw [if_pos (reaches_choice_one.2 h), hrest (by rw [h]; decide)]
    | false =>
      rw [if_neg (by rw [Nat.zero_add, reaches_choice_one, h]; decide)]
      exact argumentsAt_congr (fun i => by rw [reaches_choice_add_two, and_iff_right h]) rest

end Chain

/-! ## Evaluation -/

/-- The truth value of what an evaluation comes to, unless it fails. -/
def Evaluation.truth? (x : Evaluation Value) : Option Bool :=
  match x.outcome with
  | .ok v => some v.isTruthy
  | .error _ => none

section Truth

variable {x : Evaluation Value} {v : Value} {stop : Bool}

theorem Evaluation.truth?_of_ok (h : x.outcome = .ok v) : x.truth? = some v.isTruthy := by
  rw [truth?, h]

theorem Evaluation.truth?_of_error {e : RuleError} (h : x.outcome = .error e) :
    x.truth? = none := by
  rw [truth?, h]

theorem Evaluation.truth?_eq_some_not (h : x.outcome = .ok v) (htruth : ¬ v.isTruthy = stop) :
    x.truth? = some !stop := by
  rw [truth?_of_ok h]
  cases stop <;> simpa using htruth

end Truth

namespace Chain

variable {ρ : Type} {eval : ρ → Evaluation Value}

/-- The truth values of arguments by their positions. -/
def truthAt (eval : ρ → Evaluation Value) (args : List ρ) (position : Nat) : Option Bool :=
  args[position]?.bind fun arg => (eval arg).truth?

/-- Evaluates arguments as a chain has it. -/
def run {m : Type → Type} [Monad m] (chain : Chain) (eval : ρ → m Value) (args : List ρ) :
    m Value :=
  match chain with
  | search stop => Control.untilTruth stop eval args
  | choice => Control.choose eval args

/-- An evaluation is made up of the arguments of a chain that are reached. -/
structure Runs (chain : Chain) (eval : ρ → Evaluation Value) (args : List ρ)
    (x : Evaluation Value) : Prop where
  /-- It logs what the arguments that are reached log. -/
  logged : x.logged =
    (chain.reached (truthAt eval args) args).flatMap fun arg => (eval arg).logged
  /-- It comes to the absent value if there is no argument left to come to. -/
  absent : chain.FallsThrough (truthAt eval args) args.length → x.outcome = .ok .null
  /-- It comes to what the last argument that is reached comes to. -/
  last : ¬ chain.FallsThrough (truthAt eval args) args.length →
    ∃ arg, (chain.reached (truthAt eval args) args).getLast? = some arg ∧
      x.outcome = (eval arg).outcome

section Runs

variable {chain : Chain} {args : List ρ} {arg : ρ} {f : Value → Evaluation Value} {v : Value}

theorem Runs.of_reached_eq_singleton {x : Evaluation Value}
    (hreached : chain.reached (truthAt eval args) args = [arg])
    (hfalls : ¬ chain.FallsThrough (truthAt eval args) args.length)
    (houtcome : x.outcome = (eval arg).outcome) (hlogged : x.logged = (eval arg).logged) :
    chain.Runs eval args x := by
  constructor
  · rw [hreached, hlogged, List.flatMap_singleton]
  · exact fun h => absurd h hfalls
  · exact fun _ => ⟨arg, by rw [hreached]; rfl, houtcome⟩

/-- An argument that has a value is followed by the arguments that are reached from there. -/
theorem Runs.bind (args' : List ρ) (hv : (eval arg).outcome = .ok v)
    (h : chain.Runs eval args' (f v))
    (hreached : chain.reached (truthAt eval args) args =
      arg :: chain.reached (truthAt eval args') args')
    (hfalls : chain.FallsThrough (truthAt eval args) args.length ↔
      chain.FallsThrough (truthAt eval args') args'.length) :
    chain.Runs eval args (eval arg >>= f) := by
  constructor
  · rw [Evaluation.logged_bind_of_ok hv, h.logged, hreached, List.flatMap_cons]
  · intro hthrough
    rw [Evaluation.outcome_bind_of_ok hv, h.absent (hfalls.1 hthrough)]
  · intro hthrough
    obtain ⟨last, hlast, houtcome⟩ := h.last (mt hfalls.2 hthrough)
    refine ⟨last, ?_, ?_⟩
    · rw [hreached, List.getLast?_cons, hlast]
      rfl
    · rw [Evaluation.outcome_bind_of_ok hv, houtcome]

end Runs

theorem runs_singleton (chain : Chain) (eval : ρ → Evaluation Value) (arg : ρ) :
    chain.Runs eval [arg] (eval arg) :=
  .of_reached_eq_singleton (chain.reached_singleton _ arg) (not_fallsThrough_one chain _)
    rfl rfl

theorem runs_search (stop : Bool) (eval : ρ → Evaluation Value) (args : List ρ) :
    (search stop).Runs eval args (Control.untilTruth stop eval args) := by
  induction args with
  | nil => exact ⟨rfl, fun _ => rfl, fun h => absurd rfl h⟩
  | cons arg rest ih =>
    cases rest with
    | nil => exact runs_singleton _ eval arg
    | cons next rest =>
      have hfalls : ¬ (search stop).FallsThrough (truthAt eval (arg :: next :: rest))
          (arg :: next :: rest).length := by
        simp [FallsThrough]
      have hstop : (eval arg).truth? ≠ some !stop →
          (search stop).reached (truthAt eval (arg :: next :: rest)) (arg :: next :: rest) =
            [arg] := by
        intro h
        rw [reached_search_cons, if_neg (by exact h)]
      rw [Control.untilTruth]
      cases hv : (eval arg).outcome with
      | error e =>
        refine .of_reached_eq_singleton (hstop ?_) hfalls ?_ ?_
        · rw [Evaluation.truth?_of_error hv]
          exact (Option.some_ne_none _).symm
        · rw [Evaluation.outcome_bind_of_error hv, hv]
        · rw [Evaluation.logged_bind_of_error hv]
      | ok v =>
        by_cases htruth : v.isTruthy = stop
        · refine .of_reached_eq_singleton (hstop ?_) hfalls ?_ ?_
          · rw [Evaluation.truth?_of_ok hv, htruth]
            simp
          · rw [Evaluation.outcome_bind_of_ok hv, if_pos htruth, hv]
            rfl
          · rw [Evaluation.logged_bind_of_ok hv, if_pos htruth]
            exact List.append_nil _
        · have hfirst : (eval arg).truth? = some !stop := Evaluation.truth?_eq_some_not hv htruth
          refine .bind (next :: rest) hv ?_ ?_ ?_
          · rw [if_neg htruth]
            exact ih
          · rw [reached_search_cons, if_pos (by exact hfirst)]
            rfl
          · exact iff_of_false hfalls (by simp [FallsThrough])

/-- The recursion takes two arguments at a time, and so does the induction. -/
theorem runs_choice (eval : ρ → Evaluation Value) :
    ∀ args : List ρ, choice.Runs eval args (Control.choose eval args)
  | [] => by
    refine ⟨rfl, fun _ => rfl, fun h => absurd ?_ h⟩
    exact ⟨rfl, fun k hk => absurd hk (by simp)⟩
  | [arg] => runs_singleton choice eval arg
  | condition :: branch :: rest => by
    have ih := runs_choice eval rest
    have hfirst : truthAt eval (condition :: branch :: rest) 0 = (eval condition).truth? := rfl
    have hfalls : (eval condition).truth? ≠ some false → ¬ choice.FallsThrough
        (truthAt eval (condition :: branch :: rest)) (condition :: branch :: rest).length := by
      intro h hthrough
      exact h (fallsThrough_choice_add_two.1 hthrough).1
    rw [Control.choose]
    cases hv : (eval condition).outcome with
    | error e =>
      have htruth := Evaluation.truth?_of_error hv
      have hreached : choice.reached (truthAt eval (condition :: branch :: rest))
          (condition :: branch :: rest) = [condition] := by
        rw [reached_choice_cons_cons, hfirst, htruth]
      refine .of_reached_eq_singleton hreached (hfalls (by rw [htruth]; decide)) ?_ ?_
      · rw [Evaluation.outcome_bind_of_error hv, hv]
      · rw [Evaluation.logged_bind_of_error hv]
    | ok v =>
      have htruth := Evaluation.truth?_of_ok hv
      cases hvalue : v.isTruthy with
      | true =>
        rw [hvalue] at htruth
        refine .bind [branch] hv ?_ ?_ ?_
        · rw [if_pos hvalue]
          exact runs_singleton choice eval branch
        · rw [reached_choice_cons_cons, hfirst, htruth, reached_singleton]
        · exact iff_of_false (hfalls (by rw [htruth]; decide)) (not_fallsThrough_one choice _)
      | false =>
        rw [hvalue] at htruth
        refine .bind rest hv ?_ ?_ ?_
        · rw [if_neg (by rw [hvalue]; decide)]
          exact ih
        · rw [reached_choice_cons_cons, hfirst, htruth]
          rfl
        · rw [List.length_cons, List.length_cons, fallsThrough_choice_add_two,
            and_iff_right (hfirst.trans htruth)]
          rfl

theorem runs (chain : Chain) (eval : ρ → Evaluation Value) (args : List ρ) :
    chain.Runs eval args (chain.run eval args) := by
  cases chain with
  | search stop => exact runs_search stop eval args
  | choice => exact runs_choice eval args

/-! ### Arguments that are not reached -/

theorem run_search_congr (stop : Bool) (eval : ρ → Evaluation Value) {args args' : List ρ}
    (hlength : args'.length = args.length)
    (h : ∀ i, (search stop).Reaches (truthAt eval args) i → args'[i]? = args[i]?) :
    Control.untilTruth stop eval args' = Control.untilTruth stop eval args := by
  induction args generalizing args' with
  | nil => rw [List.length_eq_zero_iff.1 hlength]
  | cons arg rest ih =>
    obtain ⟨arg', rest', rfl⟩ := List.exists_cons_of_length_eq_add_one hlength
    obtain rfl : arg' = arg := Option.some.inj (h 0 (reaches_zero _ _))
    have hrest : rest'.length = rest.length := Nat.succ.inj hlength
    cases rest with
    | nil => rw [List.length_eq_zero_iff.1 hrest]
    | cons next rest =>
      obtain ⟨next', rest', rfl⟩ := List.exists_cons_of_length_eq_add_one hrest
      rw [Control.untilTruth, Control.untilTruth]
      apply Evaluation.bind_congr_of_outcome
      intro v hv
      by_cases htruth : v.isTruthy = stop
      · rw [if_pos htruth, if_pos htruth]
      · have hfirst : (eval arg').truth? = some !stop := Evaluation.truth?_eq_some_not hv htruth
        rw [if_neg htruth, if_neg htruth]
        apply ih hrest
        intro i hi
        exact h (i + 1) (reaches_search_succ.2 ⟨hfirst, hi⟩)

theorem run_choice_congr (eval : ρ → Evaluation Value) :
    ∀ {args args' : List ρ}, args'.length = args.length →
      (∀ i, choice.Reaches (truthAt eval args) i → args'[i]? = args[i]?) →
      Control.choose eval args' = Control.choose eval args
  | [], args', hlength, _ => by rw [List.length_eq_zero_iff.1 hlength]
  | [arg], [arg'], _, h => by
    obtain rfl : arg' = arg := Option.some.inj (h 0 (reaches_zero _ _))
    rfl
  | condition :: branch :: rest, condition' :: branch' :: rest', hlength, h => by
    obtain rfl : condition' = condition := Option.some.inj (h 0 (reaches_zero _ _))
    have hrest : rest'.length = rest.length := Nat.succ.inj (Nat.succ.inj hlength)
    rw [Control.choose, Control.choose]
    apply Evaluation.bind_congr_of_outcome
    intro v hv
    have htruth := Evaluation.truth?_of_ok hv
    cases hvalue : v.isTruthy with
    | true =>
      rw [hvalue] at htruth
      obtain rfl : branch' = branch := Option.some.inj (h 1 (reaches_choice_one.2 htruth))
      rfl
    | false =>
      rw [hvalue] at htruth
      rw [if_neg (by decide), if_neg (by decide)]
      apply run_choice_congr eval hrest
      intro i hi
      exact h (i + 2) (reaches_choice_add_two.2 ⟨htruth, hi⟩)

theorem run_congr (chain : Chain) (eval : ρ → Evaluation Value) {args args' : List ρ}
    (hlength : args'.length = args.length)
    (h : ∀ i, chain.Reaches (truthAt eval args) i → args'[i]? = args[i]?) :
    chain.run eval args' = chain.run eval args := by
  cases chain with
  | search stop => exact run_search_congr stop eval hlength h
  | choice => exact run_choice_congr eval hlength h

end Chain

/-! ## Rules -/

/-- A control operator that does not iterate evaluates its arguments as its chain has it. -/
theorem Control.run_eq_of_chain? {m : Type → Type} [Monad m] {ρ : Type} {c : Control}
    {chain : Chain} (hc : c.chain? = some chain) (eval : ρ → Value → m Value) (args : List ρ)
    (data : Value) : c.run eval args data = chain.run (eval · data) args := by
  cases c <;> cases hc <;> rfl

theorem evaluateWithin_of_chain? {c : Control} {chain : Chain} (hc : c.chain? = some chain)
    (limit levels : Nat) (body data : Value) :
    evaluateWithin limit (levels + 1) (.singleton c.name body) data =
      chain.run (evaluateWithin limit levels · data) (Form.arguments body) := by
  have hform : Form.ofValue (.singleton c.name body) =
      .ok (.call (.control c) (Form.arguments body)) := Form.ofValue_operator (.control c) body
  rw [evaluateWithin, hform]
  exact Control.run_eq_of_chain? hc _ _ data

namespace Engine

/-- Conjunctions, disjunctions and choices come to what the last argument that is reached comes to,
or to the absent value if they fall through, and log what the arguments that are reached log, in
order. Other arguments in the places of those that are not reached change nothing. -/
theorem apply_of_chain? {engine : Engine} {levels : Nat} (hlevels : engine.maxDepth = levels + 1)
    {c : Control} {chain : Chain} (hc : c.chain? = some chain) (body data : Value) :
    let args := Form.arguments body
    let eval := fun arg => evaluateWithin engine.maxDepth levels arg data
    let truth := Chain.truthAt eval args
    let rule := Value.singleton c.name body
    (chain.FallsThrough truth args.length → engine.apply rule data = .ok .null) ∧
      (¬ chain.FallsThrough truth args.length →
        ∃ arg, (chain.reached truth args).getLast? = some arg ∧
          engine.apply rule data = (eval arg).outcome) ∧
      (engine.run rule data).log =
        (chain.reached truth args).flatMap (fun arg => (eval arg).logged) ∧
      ∀ body', (Form.arguments body').length = args.length →
        (∀ i, chain.Reaches truth i → (Form.arguments body')[i]? = args[i]?) →
        engine.run (.singleton c.name body') data = engine.run rule data := by
  intro args eval truth rule
  have hrun : ∀ body', engine.run (.singleton c.name body') data =
      (chain.run eval (Form.arguments body')).run := by
    intro body'
    rw [← evaluateWithin_of_chain? hc, ← hlevels]
    rfl
  have hruns : chain.Runs eval args (chain.run eval args) := chain.runs eval args
  refine ⟨?_, ?_, ?_, ?_⟩
  · intro hthrough
    exact (congrArg Logged.value (hrun body)).trans (hruns.absent hthrough)
  · intro hthrough
    obtain ⟨arg, hlast, houtcome⟩ := hruns.last hthrough
    exact ⟨arg, hlast, (congrArg Logged.value (hrun body)).trans houtcome⟩
  · exact (congrArg Logged.log (hrun body)).trans hruns.logged
  · intro body' hlength h
    rw [hrun, hrun, chain.run_congr eval hlength h]

/-- The arguments of a choice between two logged conditions, with two places that are not reached if
the first condition is false and the second one true. -/
def loggedChoice (first second : Value) : Value :=
  .array [.singleton "log" (.singleton "var" (.string "a")), first,
    .singleton "log" (.string "go"), .singleton "var" (.string "b"), second]

/-- Neither an unknown operator nor an object with several keys is noticed if it is not reached. -/
theorem apply_of_chain?_loggedChoice :
    ({} : Engine).maxDepth = 255 + 1 ∧ Control.ifElse.chain? = some .choice ∧
      ({} : Engine).run (.singleton "if" (loggedChoice (.singleton "bogus" (.array []))
          (.object [("x", .int 1), ("y", .int 2)])))
        (.object [("a", .int 0), ("b", .int 7)]) =
        ⟨.ok (.int 7), [.int 0, .string "go"]⟩ := by
  have hlevels : ({} : Engine).maxDepth = 255 + 1 := rfl
  have hchain : Control.ifElse.chain? = some .choice := rfl
  refine ⟨hlevels, hchain, ?_⟩
  obtain ⟨-, -, -, hcongr⟩ := apply_of_chain? hlevels hchain (loggedChoice .null .null)
    (.object [("a", .int 0), ("b", .int 7)])
  refine (hcongr (loggedChoice (.singleton "bogus" (.array []))
    (.object [("x", .int 1), ("y", .int 2)])) rfl ?_).trans rfl
  intro i hi
  match i, hi with
  | 0, _ | 2, _ | 3, _ => rfl
  | 1, hi => exact absurd (Chain.reaches_choice_one.1 hi) (by decide)
  | 4, hi => exact absurd (hi.1 1 (by decide)) (by decide)
  | i + 5, _ => rfl

end Engine

end JsonRules
