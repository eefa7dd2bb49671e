import JsonRules.Proofs.Arena.Layout
import JsonRules.Proofs.Term.Prepared

/-!
# Compilation in one pass

Compilation lays nodes out as it reads a rule, and cuts the draft back when something turns out to
be known. Main statement (`compileWithin_eq`): it gives the same position, the same draft and the
same fault as making a term of the whole rule first, folding the term if constants are folded, and
then laying out what is left of it. So a draft that was cut back shows nothing of what was there.
-/

namespace JsonRules

/-! ## Literals in an arena -/

namespace Arena

variable {arena larger : Arena}

theorem Represents.literalAt?_eq {position : Nat} {t : Term} (h : arena.Represents position t) :
    arena.literalAt? position = t.literal? := by
  unfold literalAt?
  cases h with
  | literal hnode => rw [hnode]; rfl
  | reference hnode _ => rw [hnode]; rfl
  | lookup hnode _ _ => rw [hnode]; rfl
  | call hnode _ _ => rw [hnode]; rfl

theorem constantCall?_eq {positions : List Nat} {terms : List Term}
    (h : List.Forall₂ arena.Represents positions terms) (op : Operator) :
    arena.constantCall? op positions = Term.constantCall? op terms := by
  have hliterals : positions.mapM arena.literalAt? = terms.mapM Term.literal? := by
    induction h with
    | nil => rfl
    | cons hposition _ ih => rw [List.mapM_cons, List.mapM_cons, hposition.literalAt?_eq, ih]
  unfold constantCall? Term.constantCall? Term.literals?
  rw [hliterals]
  match op with
  | .eager (.calculation c) =>
    rw [Term.calculation?]
    cases terms.mapM Term.literal? <;> rfl
  | .eager (.inquiry _) => rfl
  | .eager .log => rfl
  | .control _ => rfl

/-- An arena that was added to and then cut back is what it was. -/
theorem Extends.truncate_eq (h : arena.Extends larger) :
    larger.truncate arena.nodes.size arena.edges.size = arena := by
  have htake : ∀ {α : Type} {xs ys : Array α}, xs.toList <+: ys.toList → ys.take xs.size = xs := by
    intro α xs ys hprefix
    rw [← Array.toList_inj, Array.take, Array.toList_extract, ← Array.length_toList]
    exact (List.prefix_iff_eq_take.1 hprefix).symm
  rw [truncate, htake h.nodes, htake h.edges]

end Arena

/-! ## What becomes of a draft -/

namespace Draft

variable (foldConstants : Bool) (draft : Draft)

/-- The position of what a term comes to, and the draft after it has been laid out. -/
def place (t : Term) : Nat × Draft :=
  let (arena, position) := draft.arena.place (t.prepared foldConstants)
  (position, ⟨arena, draft.folded + t.steps foldConstants⟩)

/-- The position of what a default comes to, and the draft after it has been laid out. -/
def optionPlace (t? : Option Term) : Option Nat × Draft :=
  let (arena, position?) := draft.arena.optionPlace (t?.map (Term.prepared foldConstants))
  (position?, ⟨arena, draft.folded + Term.optionSteps foldConstants t?⟩)

/-- The positions of what arguments come to, and the draft after they have been laid out. -/
def allPlace (terms : List Term) : List Nat × Draft :=
  let (arena, positions) := draft.arena.allPlace (terms.map (Term.prepared foldConstants))
  (positions, ⟨arena, draft.folded + Term.allSteps foldConstants terms⟩)

variable {foldConstants} in
theorem place_eq {t s : Term} {n : Nat} (hprepared : t.prepared foldConstants = s)
    (hsteps : t.steps foldConstants = n) :
    draft.place foldConstants t =
      ((draft.arena.place s).2, ⟨(draft.arena.place s).1, draft.folded + n⟩) := by
  rw [place, hprepared, hsteps]

theorem allPlace_cons (t : Term) (rest : List Term) :
    draft.allPlace foldConstants (t :: rest) =
      ((draft.place foldConstants t).1 ::
          ((draft.place foldConstants t).2.allPlace foldConstants rest).1,
        ((draft.place foldConstants t).2.allPlace foldConstants rest).2) := by
  rw [allPlace, Term.allSteps, ← Nat.add_assoc]
  rfl

end Draft

namespace Compilation

theorem run_bind_eq {α β γ δ : Type} {x : Compilation α} {f : α → Compilation β}
    {y : Except RuleError γ} {z : γ → Except RuleError δ} {g : γ → α × Draft}
    {k : δ → β × Draft} {draft : Draft} (hx : x.run draft = y.map g)
    (hf : ∀ c, (f (g c).1).run (g c).2 = (z c).map k) :
    (x >>= f).run draft = (y >>= z).map k := by
  rw [StateT.run_bind, hx]
  cases y with
  | error e => rfl
  | ok c => exact hf c

section

variable {foldConstants : Bool} {inner : Value → Compilation Nat}
  {read : Value → Except RuleError Term}
  (h : ∀ rule draft, (inner rule).run draft = (read rule).map (draft.place foldConstants))

include h

theorem run_optionMapM (default? : Option Value) (draft : Draft) :
    (default?.mapM inner).run draft =
      (default?.mapM read).map (draft.optionPlace foldConstants) := by
  cases default? with
  | none => rfl
  | some rule =>
    rw [Option.mapM_some, Option.mapM_some, StateT.run_map, h]
    cases read rule <;> rfl

theorem run_listMapM (args : List Value) (draft : Draft) :
    (args.mapM inner).run draft = (args.mapM read).map (draft.allPlace foldConstants) := by
  induction args generalizing draft with
  | nil => rfl
  | cons rule rest ih =>
    rw [List.mapM_cons, List.mapM_cons]
    refine run_bind_eq (h rule draft) fun t => ?_
    refine run_bind_eq (ih _) fun terms => ?_
    rw [StateT.run_pure]
    exact congrArg Except.ok (draft.allPlace_cons foldConstants t terms).symm

end

/-! ## Steps -/

section Steps

variable {foldConstants : Bool} {draft : Draft}

theorem run_pushCall_of_none (mark : Arena) {op : Operator} {args : List Nat}
    (h : (if foldConstants then draft.arena.constantCall? op args else none) = none) :
    (pushCall foldConstants mark op args).run draft =
      .ok ((draft.arena.addCall op args).2, ⟨(draft.arena.addCall op args).1, draft.folded⟩) := by
  unfold pushCall
  rw [StateT.run_bind, StateT.run_get]
  simp only [pure_bind, h]
  rfl

theorem run_pushCall_of_some (mark : Arena) {op : Operator} {args : List Nat} {value : Value}
    (h : (if foldConstants then draft.arena.constantCall? op args else none) = some value) :
    (pushCall foldConstants mark op args).run draft =
      (push (.literal value)).run (draft.cutBack mark.nodes.size mark.edges.size) := by
  unfold pushCall
  rw [StateT.run_bind, StateT.run_get]
  simp only [pure_bind, h]
  rfl

theorem run_keyAt_of_none {position : Nat}
    (h : (if foldConstants then draft.arena.literalAt? position else none) = none) :
    (keyAt foldConstants position).run draft = .ok (some (.node position), draft) := by
  unfold keyAt
  rw [StateT.run_bind, StateT.run_get]
  simp only [pure_bind, h]
  rfl

theorem run_keyAt_of_some {position : Nat} {key : Value}
    (h : (if foldConstants then draft.arena.literalAt? position else none) = some key) :
    (keyAt foldConstants position).run draft =
      .ok (key.pathText?.map fun text => .path (.ofString text),
        draft.cutBack position draft.arena.edges.size) := by
  unfold keyAt
  rw [StateT.run_bind, StateT.run_get]
  simp only [pure_bind, h]
  rfl

end Steps

variable (foldConstants : Bool)

/-- The call of arguments that were laid out just now is added as what it comes to. -/
theorem run_pushCall (op : Operator) (args : List Term) (draft : Draft) :
    (pushCall foldConstants draft.arena op (draft.allPlace foldConstants args).1).run
        (draft.allPlace foldConstants args).2 =
      .ok (draft.place foldConstants (.call op args)) := by
  obtain ⟨hextends, hargs⟩ :=
    Arena.allPlace_spec draft.arena (args.map (Term.prepared foldConstants))
  have hconstant : (draft.allPlace foldConstants args).2.arena.constantCall? op
      (draft.allPlace foldConstants args).1 =
        Term.constantCall? op (args.map (Term.prepared foldConstants)) :=
    Arena.constantCall?_eq hargs op
  cases hknown : (if foldConstants then
      Term.constantCall? op (args.map (Term.prepared foldConstants)) else none) with
  | none =>
    obtain ⟨hprepared, hsteps⟩ := Term.prepared_call_of_none hknown
    rw [run_pushCall_of_none _ (hconstant.symm ▸ hknown), Draft.place_eq draft hprepared hsteps]
    rfl
  | some value =>
    obtain ⟨hprepared, hsteps⟩ := Term.prepared_call_of_some hknown
    -- the arguments are all that has come behind the mark
    have hcut : (draft.allPlace foldConstants args).2.arena.truncate draft.arena.nodes.size
        draft.arena.edges.size = draft.arena := hextends.truncate_eq
    rw [run_pushCall_of_some _ (hconstant.symm ▸ hknown), Draft.cutBack, hcut,
      Draft.place_eq draft hprepared hsteps]
    rfl

/-- A literal key that was laid out just now is taken off again. -/
theorem cutBack_place {foldConstants : Bool} {draft : Draft} {key : Term} {value : Value}
    (h : key.prepared foldConstants = .literal value) :
    (draft.place foldConstants key).2.cutBack (draft.place foldConstants key).1
        (draft.place foldConstants key).2.arena.edges.size =
      ⟨draft.arena, draft.folded + key.steps foldConstants + 1⟩ := by
  have hcut : (draft.arena.add (.literal value)).1.truncate draft.arena.nodes.size
      draft.arena.edges.size = draft.arena := (Arena.Extends.add ..).truncate_eq
  rw [Draft.place, h]
  exact congrArg (Draft.mk · _) hcut

/-- A variable is added as what it comes to behind a key that was laid out just now. -/
theorem run_lookup {inner : Value → Compilation Nat} {read : Value → Except RuleError Term}
    (h : ∀ rule draft, (inner rule).run draft = (read rule).map (draft.place foldConstants))
    (key : Term) (default? : Option Value) (draft : Draft) :
    (keyAt foldConstants (draft.place foldConstants key).1 >>= fun key? =>
        default?.mapM inner >>= pushVariable key?).run (draft.place foldConstants key).2 =
      (default?.mapM read >>= fun t? => .ok (.lookup key t?)).map (draft.place foldConstants) := by
  have hliteral : (draft.place foldConstants key).2.arena.literalAt?
      (draft.place foldConstants key).1 = (key.prepared foldConstants).literal? :=
    (Arena.place_spec draft.arena (key.prepared foldConstants)).2.literalAt?_eq
  cases hknown : (if foldConstants then (key.prepared foldConstants).literal? else none) with
  | none =>
    rw [StateT.run_bind, run_keyAt_of_none (hliteral.symm ▸ hknown)]
    refine run_bind_eq (run_optionMapM h default? _) fun t? => ?_
    obtain ⟨hprepared, hsteps⟩ := Term.prepared_lookup_of_none hknown t?
    have hplace := Draft.place_eq draft hprepared hsteps
    rw [← Nat.add_assoc] at hplace
    exact congrArg Except.ok hplace.symm
  | some value =>
    have hkey : key.prepared foldConstants = .literal value := by
      split at hknown
      · exact Term.eq_literal_of_literal? hknown
      · exact absurd hknown.symm (Option.some_ne_none value)
    rw [StateT.run_bind, run_keyAt_of_some (hliteral.symm ▸ hknown), cutBack_place hkey]
    refine run_bind_eq (run_optionMapM h default? _) fun t? => ?_
    obtain ⟨hprepared, hsteps⟩ := Term.prepared_lookup_of_some hknown t?
    have hplace := Draft.place_eq draft hprepared hsteps
    rw [← Nat.add_assoc, ← Nat.add_assoc] at hplace
    rcases Term.ofKey_cases value (t?.map (Term.prepared foldConstants)) with
      ⟨text, htext, e⟩ | ⟨hnone, e⟩
    · rw [htext]
      rw [e] at hplace
      exact congrArg Except.ok hplace.symm
    · rw [hnone]
      rw [e] at hplace
      cases t? with
      | none => exact congrArg Except.ok hplace.symm
      | some t => exact congrArg Except.ok hplace.symm

/-- Compiling a rule into a draft adds what the term of the rule comes to. -/
theorem compileWithin_eq (limit levels : Nat) (rule : Value) (draft : Draft) :
    (compileWithin limit foldConstants levels rule).run draft =
      (Term.ofRuleWithin limit levels rule).map (draft.place foldConstants) := by
  induction levels generalizing rule draft with
  | zero => rfl
  | succ levels ih =>
    rw [compileWithin, Term.ofRuleWithin]
    have hform : (liftM (Form.ofValue rule) : Compilation Form).run draft =
        (Form.ofValue rule).map fun form => (form, draft) := by
      cases Form.ofValue rule <;> rfl
    refine run_bind_eq hform fun form => ?_
    cases form with
    | literal =>
      have hplace := Draft.place_eq draft (Term.prepared_literal foldConstants rule)
        (Term.steps_literal foldConstants rule)
      exact congrArg Except.ok hplace.symm
    | reference key default? =>
      cases key with
      | path text =>
        refine run_bind_eq (run_optionMapM ih default? draft) fun t? => ?_
        have hplace := Draft.place_eq draft
          (Term.prepared_reference foldConstants (.ofString text) t?)
          (Term.steps_reference foldConstants (.ofString text) t?)
        exact congrArg Except.ok hplace.symm
      | computed keyRule =>
        refine run_bind_eq (ih keyRule draft) fun key => ?_
        exact run_lookup foldConstants ih key default? draft
    | call op args =>
      change (args.mapM (compileWithin limit foldConstants levels) >>=
        pushCall foldConstants draft.arena op).run draft = _
      exact run_bind_eq (run_listMapM ih args draft) fun terms =>
        run_pushCall foldConstants op terms draft

end Compilation

end JsonRules
