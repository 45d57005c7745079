import MicroC.Proofs.Context.Runs
import MicroC.Proofs.Frame.Slots

/-!
Scopes and functions are brackets. Whatever is done between entering a scope or a
function and leaving it again, as long as all that is entered in between is left in
between, the scopes are afterwards as they were before, and names mean what they
meant before, except that the functions begun in between are bound in the scope of
the whole program. Inside a bracket the innermost scope is the bracket's own, which
is why nothing else can reach a scope outside it.
-/

namespace MicroC

open RiscV
open Emit
open Journal (Record begun begun_append)

namespace Operation

/-- The operations that neither enter nor leave anything. A function may be
refused. -/
def Plain (c : Context) : Operation → Prop
  | .enterScope | .exitScope | .closeFunction => False
  | .openFunction name => ∃ error, c.openFunction name = .error error
  | _ => True

/-- Entering and leaving the same thing. -/
inductive Pair (c : Context) : Operation → Operation → Prop
  | scope : Pair c .enterScope .exitScope
  | function {name : String} {c' : Context} (h : c.openFunction name = .ok c') :
      Pair c (.openFunction name) .closeFunction

/-- Operations that leave all that they enter, in the opposite order. Which
functions are refused is decided where they are begun. -/
inductive Balanced : Session → List Operation → Prop
  | nil (s : Session) : Balanced s []
  | plain {s : Session} {op : Operation} {ops : List Operation} (hop : op.Plain s.context)
      (hops : Balanced (op.after s) ops) : Balanced s (op :: ops)
  | pair {s : Session} {first last : Operation} {inside ops : List Operation}
      (hpair : Pair s.context first last) (hinside : Balanced (first.after s) inside)
      (hops : Balanced (afterAll (first :: inside ++ [last]) s) ops) :
      Balanced s (first :: inside ++ last :: ops)

end Operation

open Operation

/-! ### What stays inside a bracket -/

namespace Context

/-- Only the innermost scope changes, which must not be that of the whole program,
and the functions `names` are new. -/
structure Confined (c : Context) (names : List String) (c' : Context) : Prop where
  inner : ∃ scope, c'.inner = scope :: c.inner.tail
  globals : c.globals.Gains names c'.globals
  function : c'.insideFunction = c.insideFunction

/-- All scopes stay, but for the functions `names`, which are new. -/
structure Restored (c : Context) (names : List String) (c' : Context) : Prop where
  inner : c'.inner = c.inner
  globals : c.globals.Gains names c'.globals
  function : c'.insideFunction = c.insideFunction

variable {c c' c'' : Context} {names names' : List String}

theorem Restored.confined (h : c.Restored names c') (hinner : c.inner ≠ []) :
    c.Confined names c' := by
  refine ⟨?_, h.globals, h.function⟩
  obtain ⟨scope, outer, heq⟩ := List.exists_cons_of_ne_nil hinner
  exact ⟨scope, by rw [h.inner, heq, List.tail_cons]⟩

theorem Advances.restored (h : c.Advances names c') : c.Restored names c' :=
  ⟨h.inner, h.globals, h.insideFunction⟩

theorem Updates.restored (h : c.Updates c') : c.Restored [] c' := by
  obtain ⟨state, state', hstate, rfl, -⟩ := h
  refine ⟨rfl, .refl _, ?_⟩
  rw [insideFunction, insideFunction, hstate]
  rfl

namespace Confined

theorem trans (h : c.Confined names c') (h' : c'.Confined names' c'') :
    c.Confined (names' ++ names) c'' := by
  refine ⟨?_, h.globals.trans h'.globals, h'.function.trans h.function⟩
  obtain ⟨scope, heq⟩ := h.inner
  obtain ⟨scope', heq'⟩ := h'.inner
  exact ⟨scope', by rw [heq', heq, List.tail_cons]⟩

theorem ne_nil (h : c.Confined names c') : c'.inner ≠ [] := by
  obtain ⟨scope, heq⟩ := h.inner
  rw [heq]
  exact List.cons_ne_nil _ _

theorem declare {name : String} {storage : Storage} (hinner : c.inner ≠ [])
    (h : c.declare name storage = .ok c') : c.Confined [] c' := by
  obtain ⟨hnil, -⟩ | ⟨scope, outer, heq, rfl⟩ := declare_eq_ok h
  · exact absurd hnil hinner
  · exact ⟨⟨_, by rw [heq, List.tail_cons]⟩, .refl _, rfl⟩

end Confined

theorem Step.confined {op : Operation} (h : c.Step op names c') (hop : op.Plain c)
    (hinner : c.inner ≠ []) : c.Confined names c' := by
  cases h with
  | nothing => exact (Advances.refl c).restored.confined hinner
  | enterScope | exitScope | closeFunction => exact hop.elim
  | declare hname => exact .declare hinner hname
  | openFunction hopen =>
      obtain ⟨error, herror⟩ := hop
      rw [hopen] at herror
      cases herror
  | slot hslot | unnamedSlot hslot =>
      exact (updates_of_reserveSlot hslot).restored.confined hinner
  | namedSlot hslot hname =>
      have hslot := (updates_of_reserveSlot hslot).restored.confined hinner
      exact hslot.trans (.declare hslot.ne_nil hname)
  | scratch hscratch => exact (updates_of_takeScratch hscratch).restored.confined hinner
  | label hlabel => exact (updates_of_freshLabel hlabel).restored.confined hinner
  | setReturned hreturned => exact (updates_of_setReturned hreturned).restored.confined hinner
  | emit hadvances => exact hadvances.restored.confined hinner

end Context

/-! ### What a bracket restores -/

namespace Session

/-- From one session to another only the innermost scope changes, and the functions
are new that the journal says were begun. -/
def Confined (s s' : Session) : Prop :=
  ∃ records, s'.journal = records ++ s.journal ∧
    s.context.Confined (begun records) s'.context

def Restored (s s' : Session) : Prop :=
  ∃ records, s'.journal = records ++ s.journal ∧
    s.context.Restored (begun records) s'.context

variable {s s' s'' : Session}

theorem Confined.refl (hinner : s.context.inner ≠ []) : s.Confined s :=
  ⟨[], rfl, (Context.Advances.refl _).restored.confined hinner⟩

theorem Confined.trans (h : s.Confined s') (h' : s'.Confined s'') : s.Confined s'' := by
  obtain ⟨records, hjournal, hconfined⟩ := h
  obtain ⟨records', hjournal', hconfined'⟩ := h'
  refine ⟨records' ++ records, ?_, ?_⟩
  · rw [hjournal', hjournal, List.append_assoc]
  · rw [begun_append]
    exact hconfined.trans hconfined'

theorem Confined.ne_nil (h : s.Confined s') : s'.context.inner ≠ [] := by
  obtain ⟨records, -, hconfined⟩ := h
  exact hconfined.ne_nil

theorem Restored.confined (h : s.Restored s') (hinner : s.context.inner ≠ []) : s.Confined s' := by
  obtain ⟨records, hjournal, hrestored⟩ := h
  exact ⟨records, hjournal, hrestored.confined hinner⟩

end Session

namespace Operation

variable {s s₁ : Session}

theorem Plain.confined {op : Operation} (hop : op.Plain s.context)
    (hinner : s.context.inner ≠ []) : s.Confined (op.after s) := by
  obtain ⟨records, hjournal, hstep⟩ := op.step_after s
  exact ⟨records, hjournal, hstep.confined hop hinner⟩

theorem restored_of_exitScope (h : (enterScope.after s).Confined s₁) :
    (∃ reply, exitScope.reply s₁ = .ok reply) ∧ s.Restored (exitScope.after s₁) := by
  obtain ⟨records, hjournal, hconfined⟩ := h
  obtain ⟨scope, hinner⟩ := hconfined.inner
  have hexit : s₁.context.exitScope = .ok { s₁.context with inner := s.context.inner } := by
    rw [Context.exitScope, hinner]
    rfl
  have hrun : Emit.run (Operation.run .exitScope) s₁ = (.ok .done, { s₁ with
      context := { s₁.context with inner := s.context.inner }
      journal := .scopeLeft (s.context.depth + 1) :: s₁.journal }) := by
    simp only [Operation.run, run_bind, run_exitScope, hexit, run_pure, Context.depth]
  refine ⟨⟨.done, by rw [reply, hrun]⟩, ?_⟩
  rw [after, hrun]
  let left : List Record := [.scopeLeft (s.context.depth + 1)]
  let entered : List Record := [.scopeEntered (s.context.depth + 1)]
  refine ⟨left ++ records ++ entered, ?_, rfl, ?_, hconfined.function⟩
  · rw [hjournal, List.append_assoc, List.append_assoc]
    rfl
  · rw [begun_append, begun_append]
    show s.context.globals.Gains ([] ++ begun records ++ []) s₁.context.globals
    rw [List.nil_append, List.append_nil]
    exact hconfined.globals

theorem run_openFunction_of_ok {name : String} {c : Context}
    (h : s.context.openFunction name = .ok c) :
    Emit.run (Operation.run (.openFunction name)) s = (.ok .done, { s with
      context := c
      journal := .functionBegun name :: .scopeEntered c.depth :: s.journal }) := by
  simp only [Operation.run, run_bind, run_openFunction h, run_pure]

theorem restored_of_closeFunction {name : String} {c : Context}
    (hopen : s.context.openFunction name = .ok c)
    (h : ((openFunction name).after s).Confined s₁) (hs₁ : s₁.context.Sound) :
    (∃ reply, closeFunction.reply s₁ = .ok reply) ∧ s.Restored (closeFunction.after s₁) := by
  rw [after, run_openFunction_of_ok hopen] at h
  obtain ⟨hfunction, hname, rfl⟩ := Context.openFunction_eq_ok hopen
  obtain ⟨records, hjournal, hconfined⟩ := h
  obtain ⟨scope, hinner⟩ := hconfined.inner
  obtain ⟨state, hstate⟩ := Option.isSome_iff_exists.mp hconfined.function
  obtain ⟨records', hbegun, hclose⟩ :=
    run_closeFunction_of_sound hstate hinner (hs₁ state hstate) hjournal
  have hrun : Emit.run (Operation.run .closeFunction) s₁ = (.ok (.finished state.frame), { s₁ with
      context := s₁.context.closed s.context.inner
      journal := records' ++ s.journal }) := by
    simp only [Operation.run, run_map, hclose]
    rfl
  refine ⟨⟨_, by rw [reply, hrun]⟩, ?_⟩
  rw [after, hrun]
  refine ⟨records', rfl, rfl, ?_, ?_⟩
  · rw [hbegun]
    exact (Scope.Gains.insert hname).trans hconfined.globals
  · rw [Context.insideFunction, Context.insideFunction, hfunction]
    rfl

/-- What was entered can be left again. -/
theorem Pair.restored {first last : Operation} (hpair : Pair s.context first last)
    (h : (first.after s).Confined s₁) (hs₁ : s₁.context.Sound) :
    (∃ reply, last.reply s₁ = .ok reply) ∧ s.Restored (last.after s₁) := by
  cases hpair with
  | scope => exact restored_of_exitScope h
  | function hopen => exact restored_of_closeFunction hopen h hs₁

end Operation

/-! ### What is never left too often -/

/-- Something was left that had not been entered. -/
def Breach.isUnmatched : Breach → Bool
  | globalScopePopped | endOutsideFunction => true
  | _ => false

namespace Context

variable {c : Context} {breach : Breach}

theorem current_eq_error (h : c.current = .error breach) : breach.isUnmatched = false := by
  rw [current] at h
  split at h
  · cases h
  · cases h
    rfl

theorem bind_current_eq_error {α : Type} {f : CurrentFunction → Except Breach α}
    (h : c.current >>= f = .error breach)
    (hf : ∀ state, f state = .error breach → breach.isUnmatched = false) :
    breach.isUnmatched = false := by
  cases hcurrent : c.current with
  | error breach' =>
      rw [hcurrent] at h
      cases h
      exact current_eq_error hcurrent
  | ok state =>
      rw [hcurrent] at h
      exact hf state h

theorem reserveSlot_eq_error {size : UInt32} (h : c.reserveSlot size = .error breach) :
    breach.isUnmatched = false := by
  refine bind_current_eq_error h fun state hslot => ?_
  cases hreserve : state.frame.reserve size with
  | ok slot =>
      rw [hreserve] at hslot
      cases hslot
  | error breach' =>
      rw [hreserve] at hslot
      cases hslot
      rcases Frame.reserve_eq_error hreserve with rfl | rfl <;> rfl

theorem freshLabel_eq_error (h : c.freshLabel = .error breach) : breach.isUnmatched = false := by
  refine bind_current_eq_error h fun state hlabel => ?_
  rw [Checked.add] at hlabel
  split at hlabel
  · cases hlabel
  · cases hlabel
    rfl

theorem takeScratch_eq_error (h : c.takeScratch = .error (.breach breach)) :
    breach.isUnmatched = false := by
  rw [takeScratch] at h
  split at h
  · rename_i hcurrent
    cases h
    exact current_eq_error hcurrent
  · split at h
    · cases h
    · dsimp only at h
      split at h
      · rename_i hframe
        cases h
        split at hframe
        · cases hframe
        · rw [Frame.preserve] at hframe
          split at hframe
          · cases hframe
          · cases hframe
            rfl
      · cases h

end Context

namespace Emit

variable {α β : Type} {s : Session}

/-- A step does not stop because it leaves what it had not entered. -/
def Matched (x : EmitM α) (s : Session) : Prop :=
  ∀ breach, (run x s).1 = .error (.breach breach) → breach.isUnmatched = false

theorem matched_of_ok {x : EmitM α} {a : α} {s' : Session} (h : run x s = (.ok a, s')) :
    Matched x s := by
  intro breach hbreach
  rw [h] at hbreach
  cases hbreach

theorem Matched.bind {x : EmitM α} {f : α → EmitM β} (hx : Matched x s)
    (hf : ∀ a s', Matched (f a) s') : Matched (x >>= f) s := by
  intro breach hbreach
  have hfirst := hx breach
  rw [run_bind] at hbreach
  generalize run x s = outcome at hfirst hbreach
  obtain ⟨stop | a, s'⟩ := outcome
  · cases hbreach
    exact hfirst rfl
  · exact hf a s' breach hbreach

theorem Matched.map {x : EmitM α} (hx : Matched x s) (f : α → β) : Matched (f <$> x) s :=
  hx.bind fun _ _ => matched_of_ok rfl

theorem matched_context {f : Context → EmitM α} (h : Matched (f s.context) s) :
    Matched (context >>= f) s := h

theorem matched_contract {x : Except Breach α}
    (h : ∀ breach, x = .error breach → breach.isUnmatched = false) : Matched (contract x) s := by
  intro breach hbreach
  cases x with
  | error breach' =>
      cases hbreach
      exact h _ rfl
  | ok a => cases hbreach

theorem matched_permitted (x : Except EmitError α) : Matched (permitted x) s := by
  intro breach hbreach
  cases x with
  | error error => cases hbreach
  | ok a => cases hbreach

theorem matched_declare (name : String) (storage : Storage) : Matched (declare name storage) s :=
  matched_context ((matched_permitted _).bind fun _ _ => .bind (matched_of_ok rfl) fun _ _ =>
    matched_of_ok rfl)

theorem matched_reserveSlot (size : UInt32) : Matched (reserveSlot size) s :=
  matched_context (.bind (matched_contract fun _ => Context.reserveSlot_eq_error) fun _ _ =>
    matched_of_ok rfl)

end Emit

namespace Operation

variable {s : Session}

theorem Plain.matched {op : Operation} (hop : op.Plain s.context) (hs : s.context.Sound) :
    Matched op.run s := by
  cases op with
  | enterScope | exitScope | closeFunction => exact hop.elim
  | declare name storage => exact (matched_declare name storage).bind fun _ _ => matched_of_ok rfl
  | resolve name => exact (matched_context (matched_permitted _)).map _
  | openFunction name =>
      obtain ⟨error, herror⟩ := hop
      intro breach hbreach
      simp only [Operation.run, run_bind, run_openFunction_error herror] at hbreach
      cases hbreach
  | frame =>
      refine Matched.map (matched_context (matched_contract fun breach hbreach => ?_)) _
      exact Context.bind_current_eq_error hbreach fun state hstate => by cases hstate
  | slot size => exact (matched_reserveSlot size).map _
  | namedSlot name size =>
      exact (matched_reserveSlot size).bind fun offset _ =>
        (matched_declare name (.stack offset)).bind fun _ _ => matched_of_ok rfl
  | scratch =>
      refine Matched.map (matched_context ?_) _
      intro breach hbreach
      cases hscratch : s.context.takeScratch with
      | error stop =>
          rw [hscratch] at hbreach
          cases hbreach
          exact Context.takeScratch_eq_error hscratch
      | ok scratch =>
          rw [hscratch] at hbreach
          cases hbreach
  | label =>
      exact Matched.map (matched_context (.bind (matched_contract fun _ =>
        Context.freshLabel_eq_error) fun _ _ => matched_of_ok rfl)) _
  | setReturned =>
      refine .bind (matched_context (.bind (matched_contract fun breach hbreach => ?_) fun _ _ =>
        matched_of_ok rfl)) fun _ _ => matched_of_ok rfl
      exact Context.bind_current_eq_error hbreach fun state hstate => by cases hstate
  | requireReachable =>
      exact .bind (matched_context (matched_permitted _)) fun _ _ => matched_of_ok rfl
  | emit node sink =>
      refine .bind (fun breach hbreach => ?_) fun _ _ => matched_of_ok rfl
      have hne := run_emit_ne_breach (s := { s with sink }) hs node
      rw [run_onto] at hbreach
      generalize Emit.run node.emit { s with sink } = outcome at hne hbreach
      obtain ⟨(error | breach') | _, s'⟩ := outcome
      · cases hbreach
      · exact absurd rfl (hne breach')
      · cases hbreach

/-! ### Balanced runs -/

variable {first last : Operation} {inside ops : List Operation}

theorem afterAll_pair (first last : Operation) (inside : List Operation) (s : Session) :
    afterAll (first :: inside ++ [last]) s = last.after (afterAll inside (first.after s)) := by
  rw [List.cons_append]
  exact afterAll_append inside [last] (first.after s)

/-- No operation of a run leaves what had not been entered. -/
def AllMatched (ops : List Operation) (s : Session) : Prop :=
  ∀ reply ∈ replies ops s, ∀ breach, reply = .error (.breach breach) → breach.isUnmatched = false

theorem AllMatched.nil : AllMatched [] s := by simp [AllMatched, replies]

theorem AllMatched.cons {op : Operation} (hop : Matched op.run s)
    (h : AllMatched ops (op.after s)) : AllMatched (op :: ops) s :=
  List.forall_mem_cons.mpr ⟨hop, h⟩

theorem AllMatched.append {ops' : List Operation} (h : AllMatched ops s)
    (h' : AllMatched ops' (afterAll ops s)) : AllMatched (ops ++ ops') s := by
  rw [AllMatched, replies_append]
  exact List.forall_mem_append.mpr ⟨h, h'⟩

theorem Pair.entered (hpair : Pair s.context first last) :
    Matched first.run s ∧ (first.after s).context.inner ≠ [] := by
  cases hpair with
  | scope => exact ⟨matched_of_ok rfl, List.cons_ne_nil _ _⟩
  | function hopen =>
      refine ⟨matched_of_ok (run_openFunction_of_ok hopen), ?_⟩
      rw [after, run_openFunction_of_ok hopen]
      obtain ⟨-, -, rfl⟩ := Context.openFunction_eq_ok hopen
      exact List.cons_ne_nil _ _

theorem Pair.enclosed (hpair : Pair s.context first last) (hs : s.context.Sound)
    (hconfined : (first.after s).Confined (afterAll inside (first.after s)))
    (hmatched : AllMatched inside (first.after s)) :
    s.Restored (afterAll (first :: inside ++ [last]) s) ∧
      AllMatched (first :: inside ++ [last]) s := by
  obtain ⟨⟨reply, hreply⟩, hrestored⟩ :=
    hpair.restored hconfined ((hs.after first).afterAll inside)
  rw [afterAll_pair]
  have hlast : Matched last.run (afterAll inside (first.after s)) := by
    intro breach hbreach
    rw [Operation.reply] at hreply
    rw [hreply] at hbreach
    cases hbreach
  exact ⟨hrestored, .cons hpair.entered.1 (hmatched.append (.cons hlast .nil))⟩

theorem Balanced.confined (h : Balanced s ops) (hs : s.context.Sound)
    (hinner : s.context.inner ≠ []) : s.Confined (afterAll ops s) ∧ AllMatched ops s := by
  induction h with
  | nil s => exact ⟨.refl hinner, .nil⟩
  | plain hop hops ih =>
      have hfirst := hop.confined hinner
      obtain ⟨hrest, hmatched⟩ := ih (hs.after _) hfirst.ne_nil
      exact ⟨hfirst.trans hrest, .cons (hop.matched hs) hmatched⟩
  | @pair s first last inside ops hpair hinside hops ihinside ihops =>
      obtain ⟨hconfined, hmatched⟩ := ihinside (hs.after first) hpair.entered.2
      -- Seen from the scope around it, a bracket changes nothing at all.
      obtain ⟨hrestored, hmatched⟩ := hpair.enclosed hs hconfined hmatched
      have hfirst := hrestored.confined hinner
      obtain ⟨hrest, hmatched'⟩ := ihops (hs.afterAll _) hfirst.ne_nil
      have happend : first :: inside ++ last :: ops = first :: inside ++ [last] ++ ops := by simp
      rw [happend, afterAll_append]
      exact ⟨hfirst.trans hrest, hmatched.append hmatched'⟩

end Operation

/-- A name is looked up in the scopes that are open before it is looked up among the
functions that are new. -/
theorem Context.Restored.resolve {c c' : Context} {names : List String} (h : c.Restored names c')
    (name : String) :
    c'.resolve name =
      if name ∈ names then .ok ((c.inner.findSome? (·.find? name)).getD (.function name))
      else c.resolve name := by
  rw [Context.resolve, Context.resolve, h.inner, h.globals.find? name]
  by_cases hname : name ∈ names
  · rw [if_pos hname, if_pos hname]
    cases c.inner.findSome? (·.find? name) <;> rfl
  · rw [if_neg hname, if_neg hname]

/-- Between entering and leaving a scope or a function, operations that are balanced
leave nothing that they have not entered, and afterwards there are as many scopes as
before. Each name means what it meant before, unless a function of that name was
begun: then it means the function, or what a scope that was open before binds it to. -/
theorem resolve_after_pair {c : Context} (hc : c.Reachable) {first last : Operation}
    {inside : List Operation} (hpair : Pair c first last)
    (hinside : Balanced (first.after (.ofContext c)) inside) :
    let ops := first :: inside ++ [last]
    let s := afterAll ops (.ofContext c)
    (∀ reply ∈ replies ops (.ofContext c), reply ≠ .error (.breach .globalScopePopped) ∧
      reply ≠ .error (.breach .endOutsideFunction)) ∧
    s.context.depth = c.depth ∧
    (∀ name ∉ begun s.journal, s.context.resolve name = c.resolve name) ∧
    ∀ name ∈ begun s.journal, s.context.resolve name =
      .ok ((c.inner.findSome? (·.find? name)).getD (.function name)) := by
  obtain ⟨hconfined, hmatched⟩ := hinside.confined (hc.sound.after first) hpair.entered.2
  obtain ⟨⟨records, hjournal, hrestored⟩, hmatched⟩ := hpair.enclosed hc.sound hconfined hmatched
  -- The journal starts empty, so all of it is about the pair.
  have hrecords : records = (afterAll (first :: inside ++ [last]) (.ofContext c)).journal := by
    rw [hjournal]
    exact (List.append_nil _).symm
  rw [hrecords] at hrestored
  refine ⟨fun reply hreply => ⟨?_, ?_⟩, congrArg List.length hrestored.inner, ?_, ?_⟩
  · rintro rfl
    cases hmatched _ hreply _ rfl
  · rintro rfl
    cases hmatched _ hreply _ rfl
  · intro name hname
    rw [hrestored.resolve, if_neg hname]
    rfl
  · intro name hname
    rw [hrestored.resolve, if_pos hname]
    rfl

/-- Two functions are begun inside a scope, one of them by emission to a stream that
is soon full, and a third one is refused. A scope that was open before binds the name
of the first one. -/
theorem resolve_after_pair_nested :
    let c : Context := ⟨.rv32, .empty, [.insert .empty "f" (.stack (-8))], none⟩
    let inside : List Operation := [.openFunction "f", .openFunction "h",
      .declare "x" (.register .t1), .closeFunction, .emit (.function .int "g" none) (.limited 3)]
    let s := afterAll (.enterScope :: inside ++ [.exitScope]) (.ofContext c)
    s.context.resolve "f" = .ok (.stack (-8)) ∧ s.context.resolve "g" = .ok (.function "g") ∧
      s.context.resolve "h" = c.resolve "h" ∧ s.context.resolve "x" = c.resolve "x" := by
  intro c inside s
  have hc : c.Reachable := ⟨.rv32, [.enterScope, .declare "f" (.stack (-8))], rfl⟩
  have hrefused :
      (after (.openFunction "f") (after .enterScope (.ofContext c))).context.openFunction "h" =
        .error (.unsupported (.nestedFunction "h" "f")) := by cbv
  have hinside : Balanced (after .enterScope (.ofContext c)) inside :=
    @Balanced.pair _ (.openFunction "f") .closeFunction
      [.openFunction "h", .declare "x" (.register .t1)]
      [.emit (.function .int "g" none) (.limited 3)]
      (.function rfl) (.plain ⟨_, hrefused⟩ (.plain trivial (.nil _))) (.plain trivial (.nil _))
  have hbegun : begun (afterAll (.enterScope :: inside ++ [.exitScope]) (.ofContext c)).journal =
      ["g", "f"] := by
    dsimp only [inside, c]
    cbv
  obtain ⟨-, -, hkept, hnew⟩ := resolve_after_pair hc .scope hinside
  refine ⟨hnew "f" ?_, hnew "g" ?_, hkept "h" ?_, hkept "x" ?_⟩
  all_goals
    rw [hbegun]
    decide

end MicroC
