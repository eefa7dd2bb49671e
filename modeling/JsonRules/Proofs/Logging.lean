import JsonRules.Arena.Effects
import JsonRules.Proofs.Compilation

/-!
# What is logged

Folding runs only operators that log nothing, so compilation with effects is compilation without
any (`Engine.compileLogged_eq`).
-/

namespace JsonRules

namespace LoggedCompilation

variable {α β : Type}

theorem quiet_bind (x : Compilation α) (f : α → Compilation β) :
    quiet (x >>= f) = quiet x >>= fun a => quiet (f a) := by
  funext draft
  unfold quiet
  change ExceptT.mk (pure ((x >>= f).run draft)) =
    (ExceptT.mk (pure (x.run draft)) : Evaluation (α × Draft)) >>= fun r =>
      ExceptT.mk (pure ((f r.1).run r.2))
  rw [StateT.run_bind]
  cases x.run draft <;> rfl

theorem listMapM_quiet (f : α → Compilation β) (xs : List α) :
    xs.mapM (fun a => quiet (f a)) = quiet (xs.mapM f) := by
  induction xs with
  | nil => rfl
  | cons a rest ih =>
    rw [List.mapM_cons, List.mapM_cons, quiet_bind, ih]
    refine bind_congr fun b => ?_
    rw [quiet_bind]
    rfl

theorem optionMapM_quiet (f : α → Compilation β) (x? : Option α) :
    x?.mapM (fun a => quiet (f a)) = quiet (x?.mapM f) := by
  cases x? with
  | none => rfl
  | some a =>
    rw [Option.mapM_some, Option.mapM_some, map_eq_pure_bind, map_eq_pure_bind, quiet_bind]
    rfl

/-- What folding can run are calculations, and it runs them as evaluation does. -/
theorem constantCall?_cases (foldConstants : Bool) (arena : Arena) (op : Operator)
    (args : List Nat) :
    ((if foldConstants && op.isFoldable then args.mapM arena.literalAt? else none) = none ∧
        (if foldConstants then arena.constantCall? op args else none) = none) ∨
      ∃ values value,
        (if foldConstants && op.isFoldable then args.mapM arena.literalAt? else none) =
          some values ∧
        (if foldConstants then arena.constantCall? op args else none) = some value ∧
        ∀ data, op.combine data values = pure value := by
  cases foldConstants with
  | false => exact .inl ⟨rfl, rfl⟩
  | true =>
    match op with
    | .eager (.calculation c) =>
      change (args.mapM arena.literalAt? = none ∧ (args.mapM arena.literalAt?).map c.apply = none) ∨
        ∃ values value, args.mapM arena.literalAt? = some values ∧
          (args.mapM arena.literalAt?).map c.apply = some value ∧ _
      cases hvalues : args.mapM arena.literalAt? with
      | none => exact .inl ⟨rfl, rfl⟩
      | some values => exact .inr ⟨values, c.apply values, rfl, rfl, fun data => rfl⟩
    | .eager (.inquiry q) => exact .inl ⟨rfl, rfl⟩
    | .eager .log => exact .inl ⟨rfl, rfl⟩
    | .control c => exact .inl ⟨rfl, rfl⟩

/-- Nothing is logged when a call is added, whether it is carried out or not. -/
theorem pushCall_eq (foldConstants : Bool) (mark : Arena) (op : Operator) (args : List Nat) :
    pushCall foldConstants mark op args =
      quiet (Compilation.pushCall foldConstants mark op args) := by
  funext draft
  change (pushCall foldConstants mark op args).run draft =
    ExceptT.mk (pure ((Compilation.pushCall foldConstants mark op args).run draft))
  unfold pushCall
  rw [StateT.run_bind, StateT.run_get]
  -- Either both add the call or both cut the draft back for the same value.
  rcases constantCall?_cases foldConstants draft.arena op args with
    ⟨hvalues, hvalue⟩ | ⟨values, value, hvalues, hvalue, hcombine⟩
  · rw [Compilation.run_pushCall_of_none mark hvalue]
    simp only [pure_bind, hvalues]
    rfl
  · rw [Compilation.run_pushCall_of_some mark hvalue]
    simp only [pure_bind, hvalues, hcombine]
    rfl

theorem compileWithin_eq (limit : Nat) (foldConstants : Bool) (levels : Nat) (rule : Value) :
    compileWithin limit foldConstants levels rule =
      quiet (Compilation.compileWithin limit foldConstants levels rule) := by
  induction levels generalizing rule with
  | zero => rfl
  | succ levels ih =>
    have hinner : compileWithin limit foldConstants levels = fun rule =>
        quiet (Compilation.compileWithin limit foldConstants levels rule) := funext ih
    rw [compileWithin, Compilation.compileWithin, quiet_bind, hinner]
    refine bind_congr fun form => ?_
    cases form with
    | literal => rfl
    | reference key default? =>
      cases key with
      | path text =>
        dsimp only
        rw [optionMapM_quiet, quiet_bind]
      | computed keyRule =>
        dsimp only
        rw [optionMapM_quiet, quiet_bind]
        refine bind_congr fun position => ?_
        rw [quiet_bind]
        refine bind_congr fun key? => ?_
        rw [quiet_bind]
    | call op args =>
      dsimp only
      rw [listMapM_quiet, quiet_bind]
      refine bind_congr fun draft => ?_
      rw [quiet_bind]
      refine bind_congr fun positions => ?_
      exact pushCall_eq ..

end LoggedCompilation

namespace Engine

/-- Compilation logs nothing, although folding runs operators. -/
theorem compileLogged_eq (engine : Engine) (rule : Value) :
    engine.compileLogged rule = pure (engine.compile rule) := by
  rw [compileLogged, LoggedCompilation.compileWithin_eq]
  rfl

theorem logged_notMem_compileTraced (engine : Engine) (rule v : Value) :
    .logged v ∉ (engine.compileTraced rule).events := by
  unfold compileTraced
  cases engine.draft rule with
  | error e => simp
  | ok result => simp

/-- Nothing is logged while a rule is compiled, and the compiled rule logs what the rule itself
does when it is applied directly: the same values, as often and in the same order. -/
theorem log_of_compile (engine : Engine) (rule : Value) :
    (engine.compileLogged rule).log = [] ∧
      (engine.compileLogged rule).value = engine.compile rule ∧
      (∀ v, .logged v ∉ (engine.compileTraced rule).events) ∧
      ∀ c, engine.compile rule = .ok c → ∀ data,
        (c.run data).log = (engine.run rule data).log := by
  rw [compileLogged_eq]
  refine ⟨rfl, rfl, engine.logged_notMem_compileTraced rule, fun c hc data => ?_⟩
  have hrun : engine.run rule data = Except.ok <$> c.run data := run_eq_of_compile hc data
  rw [hrun]
  exact (List.append_nil _).symm

theorem log_of_compile_guardedLog :
    ({} : Engine).compile guardedLog = .ok (.ofTerm guardedLogTerm) ∧
      (({} : Engine).run guardedLog
        (.object [("k", .string "nowhere"), ("x", .int 2)])).log = [.int 1] := by
  refine ⟨compile_guardedLog, ?_⟩
  rw [← (log_of_compile {} guardedLog).2.2.2 _ compile_guardedLog, CompiledRule.run_ofTerm]
  rfl

end Engine

end JsonRules
