import MicroC.Proofs.Context.Current
import MicroC.Proofs.Emission.Listing

/-!
Labels. No label is handed out twice in a whole run, although every function counts its
labels from zero. A label can be read back: what stands after its last underscore is the
number, since digits are no underscores, and what stands before it is the name of the
function. A name is begun only once, since it stays bound, and the numbers of a function
only grow.
-/

namespace MicroC

open RiscV

/-- The label with the number `n` in the function `name`. -/
def labelText (name : String) (n : Nat) : String := s!".L{name}_{n}"

theorem toList_labelText (name : String) (n : Nat) :
    (labelText name n).toList = ['.', 'L'] ++ (name.toList ++ '_' :: Nat.toDigits 10 n) := by
  have hchain : labelText name n = ".L" ++ name ++ "_" ++ toString n := rfl
  simp [hchain]

/-- A list is cut at the last occurrence of a separator. -/
theorem eq_of_append_cons_eq {α : Type} {separator : α} {a b a' b' : List α}
    (hb : separator ∉ b) (hb' : separator ∉ b') (h : a ++ separator :: b = a' ++ separator :: b') :
    a = a' ∧ b = b' := by
  -- Otherwise a piece that ends in the separator would stand between the two cuts.
  obtain ⟨between, rfl, hrest⟩ | ⟨between, rfl, hrest⟩ := List.append_eq_append_iff.mp h
  · cases between with
    | nil =>
        cases hrest
        exact ⟨(List.append_nil a).symm, rfl⟩
    | cons first later =>
        obtain ⟨-, rfl⟩ := List.cons.inj hrest
        exact absurd (List.mem_append_right later List.mem_cons_self) hb
  · cases between with
    | nil =>
        cases hrest
        exact ⟨List.append_nil a', rfl⟩
    | cons first later =>
        obtain ⟨-, rfl⟩ := List.cons.inj hrest
        exact absurd (List.mem_append_right later List.mem_cons_self) hb'

/-- The name may end in an underscore and digits itself. -/
theorem labelText_injective {name name' : String} {n n' : Nat}
    (h : labelText name n = labelText name' n') : name = name' ∧ n = n' := by
  have hlist := congrArg String.toList h
  rw [toList_labelText, toList_labelText] at hlist
  obtain ⟨hname, hdigits⟩ := eq_of_append_cons_eq (not_mem_toDigits (by decide) n)
    (not_mem_toDigits (by decide) n') (List.append_cancel_left hlist)
  refine ⟨String.toList_inj.mp hname, ?_⟩
  calc
    n = Nat.ofDigitChars 10 (Nat.toDigits 10 n) 0 := Nat.ofDigitChars_ten_toDigits.symm
    _ = Nat.ofDigitChars 10 (Nat.toDigits 10 n') 0 := by rw [hdigits]
    _ = n' := Nat.ofDigitChars_ten_toDigits

namespace Context

variable {c c' : Context} {texts : List String}

theorem freshLabel_of_none (h : c.function = none) : c.freshLabel = .error .outsideFunction := by
  rw [freshLabel, current, h]
  rfl

theorem freshLabel_of_function {state : CurrentFunction} (h : c.function = some state) :
    c.freshLabel = (Checked.add state.labels 1).map fun labels =>
      (labelText state.name state.labels.toNat,
        { c with function := some { state with labels } }) := by
  rw [freshLabel, current_of_function h]
  cases hlabels : Checked.add state.labels 1 <;> simp only [Checked.ok_bind, hlabels] <;> rfl

/-- What is known when the labels `texts` were handed out: each of them belongs to a
function whose name is bound, and its number is below those that are still to come. -/
structure Labelled (c : Context) (texts : List String) : Prop where
  nodup : texts.Nodup
  current : ∀ state, c.function = some state → (c.globals.find? state.name).isSome
  origin : ∀ text ∈ texts, ∃ name n, text = labelText name n ∧ (c.globals.find? name).isSome ∧
    ∀ state, c.function = some state → state.name = name → n < state.labels.toNat

theorem labelled_empty (target : Target) : (empty target).Labelled [] :=
  ⟨List.nodup_nil, fun _ h => (by cases h), fun _ h => (by cases h)⟩

namespace Labelled

theorem keep (h : c.Labelled texts) (hkeeps : c.Keeps c')
    (hcurrent : ∀ state, c'.function = some state → (c'.globals.find? state.name).isSome)
    (hbelow : ∀ state n, c'.function = some state → (c.globals.find? state.name).isSome →
      (∀ old, c.function = some old → old.name = state.name → n < old.labels.toNat) →
        n < state.labels.toNat) : c'.Labelled texts := by
  refine ⟨h.nodup, hcurrent, fun text htext => ?_⟩
  obtain ⟨name, n, htext, hname, hn⟩ := h.origin text htext
  refine ⟨name, n, htext, hkeeps.globals name hname, ?_⟩
  rintro state hstate rfl
  exact hbelow state n hstate hname hn

/-- The name of a function that is begun was not bound before, so none of the labels
belongs to it. -/
theorem step {op : Operation} {names : List String} (h : c.Labelled texts)
    (hstep : c.Step op names c') (hop : op ≠ .label) : c'.Labelled texts := by
  have hkeeps := hstep.keeps
  cases hstep.turns with
  | outside _ hnone | closed _ hnone =>
      refine h.keep hkeeps (fun state hstate => ?_) (fun state n hstate => ?_)
      · cases hnone.symm.trans hstate
      · cases hnone.symm.trans hstate
  | opened _ hopen =>
      obtain ⟨-, hunbound, rfl⟩ := openFunction_eq_ok hopen
      refine h.keep hkeeps (fun state hstate => ?_) (fun state n hstate hbound => ?_)
      · cases hstate
        simp [opened]
      · cases hstate
        rw [hunbound] at hbound
        cases hbound
  | @inside state state' hstate hstate' hproceeds =>
      refine h.keep hkeeps (fun current hcurrent => ?_) (fun current n hcurrent _ hn => ?_)
      · obtain rfl := Option.some.inj (hstate'.symm.trans hcurrent)
        rw [hproceeds.name]
        exact hkeeps.globals _ (h.current state hstate)
      · obtain rfl := Option.some.inj (hstate'.symm.trans hcurrent)
        rw [hproceeds.labels hop]
        exact hn state hstate hproceeds.name.symm

theorem freshLabel {state : CurrentFunction} {labels : UInt32} (h : c.Labelled texts)
    (hstate : c.function = some state) (hlabels : Checked.add state.labels 1 = .ok labels) :
    Labelled { c with function := some { state with labels } }
      (texts ++ [labelText state.name state.labels.toNat]) := by
  have hnext : labels.toNat = state.labels.toNat + 1 := Checked.add_eq_ok_iff.mp hlabels
  have hbelow : state.labels.toNat < labels.toNat := by omega
  have hold : Labelled { c with function := some { state with labels } } texts := by
    refine h.keep (keeps_of_globals_eq rfl rfl) (fun state' hstate' => ?_)
      (fun state' n hstate' _ hn => ?_)
    · cases hstate'
      exact h.current state hstate
    · cases hstate'
      exact Nat.lt_trans (hn state hstate rfl) hbelow
  refine ⟨?_, hold.current, fun text htext => ?_⟩
  · rw [List.nodup_append]
    refine ⟨h.nodup, List.nodup_singleton _, ?_⟩
    -- An old label with the same text would have the number that only now is taken.
    rintro text htext text' htext' rfl
    obtain ⟨name, n, htext, -, hn⟩ := h.origin text htext
    obtain ⟨hname, rfl⟩ := labelText_injective ((List.mem_singleton.mp htext').symm.trans htext)
    exact Nat.lt_irrefl _ (hn state hstate hname)
  · rcases List.mem_append.mp htext with htext | htext
    · exact hold.origin text htext
    · refine ⟨_, _, List.mem_singleton.mp htext, h.current state hstate, ?_⟩
      rintro state' hstate' -
      cases hstate'
      exact hbelow

end Labelled

end Context

namespace Operation

variable {s : Session} {texts : List String}

theorem run_label {state : CurrentFunction} {labels : UInt32}
    (hstate : s.context.function = some state) (hlabels : Checked.add state.labels 1 = .ok labels) :
    Emit.run (Operation.run .label) s =
      (.ok (.label (labelText state.name state.labels.toNat)),
        { s with context := { s.context with function := some { state with labels } } }) := by
  simp only [Operation.run, Emit.run_map, Emit.run_freshLabel,
    Context.freshLabel_of_function hstate, hlabels, Except.map]

theorem labelled_after (h : s.context.Labelled texts) (op : Operation) :
    (op.after s).context.Labelled (texts ++ (op.given? Reply.label? s).toList) := by
  by_cases hop : op = .label
  · subst hop
    rw [given?, reply, after]
    cases hstate : s.context.function with
    | none =>
        simp only [Operation.run, Emit.run_map, Emit.run_freshLabel,
          Context.freshLabel_of_none hstate]
        exact (List.append_nil texts).symm ▸ h
    | some state =>
        cases hlabels : Checked.add state.labels 1 with
        | error breach =>
            simp only [Operation.run, Emit.run_map, Emit.run_freshLabel,
              Context.freshLabel_of_function hstate, hlabels, Except.map]
            exact (List.append_nil texts).symm ▸ h
        | ok labels =>
            rw [run_label hstate hlabels]
            exact h.freshLabel hstate hlabels
  · rw [given?_label_of_ne hop]
    obtain ⟨records, -, hstep⟩ := op.step_after s
    exact (List.append_nil texts).symm ▸ h.step hstep hop

theorem labelled_afterAll (h : s.context.Labelled texts) (ops : List Operation) :
    (afterAll ops s).context.Labelled (texts ++ given Reply.label? ops s) := by
  induction ops generalizing s texts with
  | nil => exact (List.append_nil texts).symm ▸ h
  | cons op ops ih =>
      have hafter := ih (labelled_after h op)
      rwa [List.append_assoc, ← given_cons] at hafter

/-- The labels of a function are numbered one after the other, as long as their count is
a word. -/
theorem given_replicate_label {state : CurrentFunction} {n : Nat}
    (hstate : s.context.function = some state) (hn : state.labels.toNat + n < 2 ^ 32) :
    given Reply.label? (List.replicate n label) s =
      (List.range' state.labels.toNat n).map (labelText state.name) := by
  induction n generalizing s state with
  | zero => rfl
  | succ n ih =>
      have hnext : (state.labels + 1).toNat = state.labels.toNat + 1 := by
        rw [UInt32.toNat_add]
        exact Nat.mod_eq_of_lt (show _ + 1 < 2 ^ 32 by omega)
      have hrun := run_label hstate (Checked.add_eq_ok_iff.mpr hnext)
      rw [List.replicate_succ, given_cons, given?, reply, after, hrun, List.range'_succ,
        List.map_cons, ih rfl (by rw [hnext]; omega), hnext]
      rfl

/-- No label is handed out twice in a run, whatever the functions are called, although
every function numbers its labels from zero. -/
theorem labels_nodup (target : Target) (sink : Sink) (journal : List Journal.Record)
    (ops : List Operation) :
    (given Reply.label? ops ⟨.empty target, sink, journal⟩).Nodup ∧
      ∀ (s : Session) (name : String) (n : Nat), (openFunction name).reply s = .ok .done →
        n < 2 ^ 32 → given Reply.label? (List.replicate n label) ((openFunction name).after s) =
          (List.range n).map fun i => s!".L{name}_{i}" := by
  have hstart : (Session.mk (.empty target) sink journal).context.Labelled [] :=
    Context.labelled_empty target
  refine ⟨(labelled_afterAll hstart ops).nodup, fun s name n hopen hn => ?_⟩
  rw [given_replicate_label (function_of_openFunction hopen) (by simpa using hn), List.range_eq_range']
  rfl

/-- The label that stands second in the function `f` is not the one that stands first in
the function `f_1`. -/
theorem labels_nodup_similar :
    let ops := [openFunction "f", label, label, closeFunction, openFunction "f", label,
      openFunction "f_1", label]
    given Reply.label? ops (.ofContext (.empty .rv32)) = [".Lf_0", ".Lf_1", ".Lf_1_0"] ∧
      (given Reply.label? ops (.ofContext (.empty .rv32))).Nodup ∧
      (openFunction "f_1").reply (.ofContext (.empty .rv32)) = .ok .done ∧
      given Reply.label? [label, label]
        ((openFunction "f_1").after (.ofContext (.empty .rv32))) = [".Lf_1_0", ".Lf_1_1"] := by
  intro ops
  have hopen : (openFunction "f_1").reply (.ofContext (.empty .rv32)) = .ok .done := by cbv
  obtain ⟨hnodup, hnumbered⟩ := labels_nodup .rv32 .unlimited [] ops
  refine ⟨?_, hnodup, hopen, hnumbered _ "f_1" 2 hopen (by decide)⟩
  dsimp only [ops]
  cbv

end Operation

end MicroC
