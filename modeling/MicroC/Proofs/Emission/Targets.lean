import MicroC.Proofs.Emission.Listing
import MicroC.Proofs.Emission.Separate

/-!
The two targets agree. No node changes the frame of the function that it stands in, so every frame
holds the caller's `s0` and nothing else, and names are bound to functions only. The runs of a tree
for the two targets therefore go along together, up to the same error if there is one. What they
write differs in the lines that save and restore `s0`, which are the only ones with a parenthesis.
-/

namespace MicroC

open RiscV
open Emit
open Grammar Definition

/-! ### Replacement -/

/-- A text with every occurrence of the first component of an entry replaced by the second one,
from left to right. -/
def replaceAll (table : List (List Char × List Char)) : List Char → List Char
  | [] => []
  | c :: rest =>
      match table.find? fun entry => entry.1.isPrefixOf (c :: rest) with
      | some (old, new) => new ++ replaceAll table (rest.drop (old.length - 1))
      | none => c :: replaceAll table rest
termination_by text => text.length

/-- How the caller's `s0` is saved and restored on the 32-bit target, and how on the 64-bit one. -/
def wideLinks : List (List Char × List Char) :=
  [("sw s0, 12(sp)".toList, "sd s0, 8(sp)".toList),
    ("lw s0, 12(sp)".toList, "ld s0, 8(sp)".toList)]

def widened (text : String) : String := .ofList (replaceAll wideLinks text.toList)

example : widened "lw    lw s0, 12(sp)\n    lw a0, 12(sp)\n" =
    "lw    ld s0, 8(sp)\n    lw a0, 12(sp)\n" := by
  cbv

section Replacement

variable {table : List (List Char × List Char)} {mark : Char} {k : Nat}

theorem replaceAll_occurrence {old new rest : List Char} (hold : old ≠ [])
    (hfind : table.find? (fun entry => entry.1.isPrefixOf (old ++ rest)) = some (old, new)) :
    replaceAll table (old ++ rest) = new ++ replaceAll table rest := by
  obtain ⟨c, old, rfl⟩ := List.exists_cons_of_ne_nil hold
  rw [List.cons_append] at hfind ⊢
  rw [replaceAll, hfind]
  simp

/-- Nothing begins in a text without the mark that all entries have in one place, unless the mark
follows too soon. -/
theorem replaceAll_plain_append (htable : ∀ entry ∈ table, entry.1[k]? = some mark)
    {text rest : List Char} (htext : mark ∉ text) (hrest : mark ∉ rest.take k) :
    replaceAll table (text ++ rest) = text ++ replaceAll table rest := by
  induction text with
  | nil => rfl
  | cons c text ih =>
      have hnone : table.find? (fun entry => entry.1.isPrefixOf (c :: (text ++ rest))) = none := by
        rw [List.find?_eq_none]
        intro entry hentry hprefix
        obtain ⟨later, hlater⟩ := List.isPrefixOf_iff_prefix.mp hprefix
        have hmark : ((c :: text) ++ rest)[k]? = some mark := by
          have hat := htable entry hentry
          obtain ⟨hlt, -⟩ := List.getElem?_eq_some_iff.mp hat
          rw [List.cons_append, ← hlater, List.getElem?_append_left hlt, hat]
        rw [List.getElem?_append] at hmark
        split at hmark
        · exact htext (List.mem_of_getElem? hmark)
        · rename_i hk
          have hlt : k - (c :: text).length < k := by
            rw [List.length_cons] at hk ⊢
            omega
          rw [← List.getElem?_take_of_lt hlt] at hmark
          exact hrest (List.mem_of_getElem? hmark)
      rw [List.cons_append, replaceAll, hnone]
      exact congrArg (c :: ·) (ih fun h => htext (List.mem_cons_of_mem c h))

end Replacement

/-! ### Texts for the two targets -/

def savesLink (target : Target) : Instr :=
  .store target.registerWidth .s0 (linkOffset target) .sp

def restoresLink (target : Target) : Instr :=
  .load target.registerWidth .s0 (linkOffset target) .sp

/-- A text for the 32-bit target and the same text for the 64-bit target. -/
inductive Widens : String → String → Prop
  | empty : Widens "" ""
  | plain {text rest rest' : String} (htext : '(' ∉ text.toList) (h : Widens rest rest') :
      Widens (text ++ rest) (text ++ rest')
  | save {rest rest' : String} (h : Widens rest rest') :
      Widens ((savesLink .rv32).line ++ rest) ((savesLink .rv64).line ++ rest')
  | restore {rest rest' : String} (h : Widens rest rest') :
      Widens ((restoresLink .rv32).line ++ rest) ((restoresLink .rv64).line ++ rest')

namespace Widens

theorem of_plain {text : String} (h : '(' ∉ text.toList) : Widens text text := by
  have hplain := plain h empty
  rwa [String.append_empty] at hplain

theorem append {text text' more more' : String} (h : Widens text text') (h' : Widens more more') :
    Widens (text ++ more) (text' ++ more') := by
  induction h with
  | empty => simpa using h'
  | plain htext _ ih =>
      rw [String.append_assoc, String.append_assoc]
      exact .plain htext ih
  | save _ ih =>
      rw [String.append_assoc, String.append_assoc]
      exact .save ih
  | restore _ ih =>
      rw [String.append_assoc, String.append_assoc]
      exact .restore ih

/-- No parenthesis comes early enough for an occurrence to begin before the text. -/
theorem paren_not_mem_take {text text' : String} (h : Widens text text') :
    '(' ∉ text.toList.take 9 := by
  induction h with
  | empty => simp
  | plain htext _ ih =>
      rw [String.toList_append, List.take_append, List.mem_append, not_or]
      refine ⟨fun h => htext (List.mem_of_mem_take h), fun h => ih ?_⟩
      exact List.take_subset_take_left _ (Nat.sub_le ..) h
  | save =>
      rw [String.toList_append, List.take_append_of_le_length (by decide)]
      decide
  | restore =>
      rw [String.toList_append, List.take_append_of_le_length (by decide)]
      decide

theorem paren_of_mem_wideLinks : ∀ entry ∈ wideLinks, entry.1[9]? = some '(' := by decide

/-- An occurrence on a line of its own is replaced, and what follows is gone through by itself. -/
theorem replaceAll_line (old new : List Char) {rest : List Char}
    (hfind : ∀ later, wideLinks.find? (fun entry => entry.1.isPrefixOf (old ++ later)) =
      some (old, new)) (hlength : 9 < old.length) (hold : '(' ∉ old.take 9)
    (hrest : '(' ∉ rest.take 9) :
    replaceAll wideLinks ("    ".toList ++ (old ++ ("\n".toList ++ rest))) =
      "    ".toList ++ (new ++ ("\n".toList ++ replaceAll wideLinks rest)) := by
  have hne : old ≠ [] := List.ne_nil_of_length_pos (by omega)
  have hafter := replaceAll_plain_append paren_of_mem_wideLinks
    (by decide : '(' ∉ "\n".toList) hrest
  have hbefore : '(' ∉ (old ++ ("\n".toList ++ rest)).take 9 := by
    rwa [List.take_append_of_le_length hlength.le]
  rw [replaceAll_plain_append paren_of_mem_wideLinks (by decide) hbefore,
    replaceAll_occurrence hne (hfind _), hafter]

theorem widened_eq {text text' : String} (h : Widens text text') : widened text = text' := by
  rw [widened, String.ofList_eq]
  induction h with
  | empty => rw [String.toList_empty, replaceAll]
  | plain htext h ih =>
      rw [String.toList_append, String.toList_append,
        replaceAll_plain_append paren_of_mem_wideLinks htext h.paren_not_mem_take, ih]
  | save h ih =>
      rw [String.toList_append, String.toList_append, ← ih]
      exact replaceAll_line "sw s0, 12(sp)".toList "sd s0, 8(sp)".toList (fun _ => rfl) (by decide)
        (by decide) h.paren_not_mem_take
  | restore h ih =>
      rw [String.toList_append, String.toList_append, ← ih]
      exact replaceAll_line "lw s0, 12(sp)".toList "ld s0, 8(sp)".toList (fun _ => rfl) (by decide)
        (by decide) h.paren_not_mem_take

end Widens

/-! ### Lines without a parenthesis -/

namespace RiscV.Instr

theorem paren_not_mem_li (value : Int64) : '(' ∉ (li .a0 value).line.toList := by
  have hline : (li .a0 value).line = "    " ++ ("li a0, " ++ value.toInt.repr) ++ "\n" := rfl
  have hvalue : '(' ∉ value.toInt.repr.toList := not_mem_repr (by decide) (by decide) _
  simp [hline, hvalue]

theorem paren_not_mem_global {name : String} (h : '(' ∉ name.toList) :
    '(' ∉ (global name).line.toList := by
  have hline : (global name).line = ".globl " ++ name ++ "\n" := rfl
  simp [hline, h]

theorem paren_not_mem_label {name : String} (h : '(' ∉ name.toList) :
    '(' ∉ (label name).line.toList := by
  have hline : (label name).line = name ++ ":" ++ "\n" := rfl
  simp [hline, h]

end RiscV.Instr

namespace Widens

/-- A function begins with its names and with a frame for `s0`. -/
theorem heading {name : String} (h : '(' ∉ name.toList) :
    Widens (listing ([.code, .global name, .label name] ++ enters .rv32))
      (listing ([.code, .global name, .label name] ++ enters .rv64)) := by
  refine .plain (by decide) (.plain (Instr.paren_not_mem_global h) ?_)
  refine .plain (Instr.paren_not_mem_label h) (.plain (by decide) ?_)
  exact .save (.plain (by decide) .empty)

theorem ending : Widens (listing (leaves .rv32)) (listing (leaves .rv64)) :=
  .restore (.plain (by decide) (.plain (by decide) .empty))

end Widens

/-! ### Contexts for the two targets -/

/-- The same point of a function whose frame holds nothing, for a target. -/
def CurrentFunction.retargeted (target : Target) (state : CurrentFunction) : CurrentFunction :=
  { state with frame := .empty target }

namespace Context

def retargeted (target : Target) (c : Context) : Context :=
  { c with target, function := c.function.map (·.retargeted target) }

theorem insideFunction_retargeted (target : Target) (c : Context) :
    (c.retargeted target).insideFunction = c.insideFunction := by
  simp [insideFunction, retargeted]

theorem returned_retargeted (target : Target) (c : Context) :
    (c.retargeted target).returned = c.returned := by
  cases hfunction : c.function <;>
    simp [returned, retargeted, hfunction, CurrentFunction.retargeted]

theorem openFunction_retargeted (target : Target) (c : Context) (name : String) :
    (c.retargeted target).openFunction name =
      (c.openFunction name).map (Context.retargeted target) := by
  cases hfunction : c.function with
  | some state => simp [openFunction, retargeted, hfunction, Except.map, CurrentFunction.retargeted]
  | none =>
      simp only [openFunction, retargeted, hfunction, Option.map_none]
      split <;> rfl

theorem finished_retargeted (target : Target) (c : Context) :
    (c.retargeted target).finished = c.finished.retargeted target := by
  cases hfunction : c.function <;>
    simp [finished, retargeted, hfunction, CurrentFunction.retargeted]

/-- Every name in scope is the name of a function. -/
def BindsFunctions (c : Context) : Prop :=
  ∀ scope ∈ c.globals :: c.inner, ∀ name storage, scope.find? name = some storage →
    ∃ label, storage = .function label

/-- One point of a program for the 32-bit target and for the 64-bit target. -/
structure Counterparts (c d : Context) : Prop where
  narrow : c.retargeted .rv32 = c
  wide : c.retargeted .rv64 = d
  names : c.BindsFunctions

theorem counterparts_empty : (empty .rv32).Counterparts (empty .rv64) where
  narrow := rfl
  wide := rfl
  names := by
    intro scope hscope name storage hname
    rw [List.mem_singleton.mp hscope] at hname
    cases hname

namespace Counterparts

variable {c d : Context} {name : String}

theorem insideFunction (h : c.Counterparts d) : d.insideFunction = c.insideFunction := by
  rw [← h.wide, insideFunction_retargeted]

theorem returned (h : c.Counterparts d) : d.returned = c.returned := by
  rw [← h.wide, returned_retargeted]

theorem resolve (h : c.Counterparts d) (name : String) : d.resolve name = c.resolve name := by
  rw [← h.wide]
  rfl

theorem exists_label {storage : Storage} (h : c.Counterparts d)
    (hname : c.resolve name = .ok storage) : ∃ label, storage = .function label := by
  rw [Context.resolve] at hname
  cases hinner : c.inner.findSome? (·.find? name) with
  | some found =>
      rw [hinner] at hname
      cases hname
      obtain ⟨scope, hscope, hfound⟩ := List.exists_of_findSome?_eq_some hinner
      exact h.names scope (List.mem_cons_of_mem _ hscope) name storage hfound
  | none =>
      rw [hinner] at hname
      cases hglobal : c.globals.find? name with
      | none =>
          rw [hglobal] at hname
          cases hname
      | some found =>
          rw [hglobal] at hname
          cases hname
          exact h.names c.globals List.mem_cons_self name storage hglobal

/-- Inside a function the two frames hold nothing. -/
theorem of_function {state : CurrentFunction} (h : c.Counterparts d)
    (hstate : c.function = some state) :
    state.frame = .empty .rv32 ∧ d.function = some (state.retargeted .rv64) := by
  have hnarrow := congrArg Context.function h.narrow
  rw [retargeted, hstate, Option.map_some, Option.some.injEq] at hnarrow
  constructor
  · rw [← hnarrow]
    rfl
  · rw [← h.wide, retargeted, hstate, Option.map_some]

theorem finished (h : c.Counterparts d) : c.finished.Counterparts d.finished where
  narrow := by rw [← finished_retargeted, h.narrow]
  wide := by rw [← finished_retargeted, h.wide]
  names := h.names

theorem opened (h : c.Counterparts d) (name : String) :
    (c.opened name).Counterparts (d.opened name) where
  narrow := by
    have htarget : c.target = .rv32 := by rw [← h.narrow]; rfl
    simp [retargeted, Context.opened, CurrentFunction.retargeted, htarget]
  wide := by
    rw [← h.wide]
    rfl
  names := by
    intro scope hscope other storage hother
    have hscope' : scope = c.globals.insert name (.function name) ∨ scope = .empty ∨
        scope ∈ c.inner := by simpa [Context.opened] using hscope
    obtain rfl | rfl | hinner := hscope'
    · rw [Scope.find?_insert] at hother
      split at hother
      · cases hother
        exact ⟨name, rfl⟩
      · exact h.names c.globals List.mem_cons_self other storage hother
    · cases hother
    · exact h.names scope (List.mem_cons_of_mem _ hinner) other storage hother

/-- A function begins at both or at none. -/
theorem openFunction (h : c.Counterparts d) (name : String) :
    (∃ error, c.openFunction name = .error error ∧ d.openFunction name = .error error) ∨
      c.openFunction name = .ok (c.opened name) ∧ d.openFunction name = .ok (d.opened name) := by
  have hwide := openFunction_retargeted .rv64 c name
  rw [h.wide] at hwide
  cases hopen : c.openFunction name with
  | error error =>
      rw [hopen] at hwide
      exact .inl ⟨error, rfl, hwide⟩
  | ok c' =>
      rw [hopen] at hwide
      obtain ⟨-, -, rfl⟩ := openFunction_eq_ok hopen
      obtain ⟨-, -, hopened⟩ := openFunction_eq_ok hwide
      rw [Except.map, hopened] at hwide
      exact .inr ⟨rfl, hwide⟩

theorem closed {scope : Scope} {outer : List Scope} (h : c.Counterparts d)
    (hinner : c.inner = scope :: outer) : (c.closed outer).Counterparts (d.closed outer) where
  narrow := by
    rw [← h.narrow]
    rfl
  wide := by
    rw [← h.wide]
    rfl
  names := by
    intro scope' hscope
    refine h.names scope' ?_
    have hscope' : scope' = c.globals ∨ scope' ∈ outer := by
      simpa [Context.closed] using hscope
    rw [hinner]
    simp only [List.mem_cons]
    tauto

end Counterparts

end Context

/-! ### Runs for the two targets -/

/-- What was written for the 32-bit target and for the 64-bit target. -/
def Sink.Counterparts (sink sink' : Sink) : Prop :=
  ∃ text text', Widens text text' ∧ sink = ⟨text.toUTF8, none⟩ ∧ sink' = ⟨text'.toUTF8, none⟩

structure Session.Counterparts (s t : Session) : Prop where
  context : s.context.Counterparts t.context
  sink : s.sink.Counterparts t.sink

namespace Sink.Counterparts

variable {sink sink' : Sink}

theorem unlimited : Sink.unlimited.Counterparts Sink.unlimited := ⟨"", "", .empty, rfl, rfl⟩

theorem room (h : sink.Counterparts sink') : sink.room = none ∧ sink'.room = none := by
  obtain ⟨text, text', -, rfl, rfl⟩ := h
  exact ⟨rfl, rfl⟩

theorem append {more more' : String} (h : sink.Counterparts sink') (hmore : Widens more more') :
    Sink.Counterparts ⟨sink.written ++ more.toUTF8, none⟩
      ⟨sink'.written ++ more'.toUTF8, none⟩ := by
  obtain ⟨text, text', htext, rfl, rfl⟩ := h
  refine ⟨text ++ more, text' ++ more', htext.append hmore, ?_, ?_⟩ <;>
    simp [String.toByteArray_append]

end Sink.Counterparts

theorem Session.Counterparts.wrote {s t : Session} {text text' : String} (h : s.Counterparts t)
    (htext : Widens text text') : (s.wrote text).Counterparts (t.wrote text') := by
  refine ⟨h.context, ?_⟩
  have hsink := h.sink.append htext
  obtain ⟨hroom, hroom'⟩ := h.sink.room
  simpa [Session.wrote, hroom, hroom'] using hsink

namespace Emit

variable {α β : Type} {s t : Session}

/-- Two runs give the same result and end at counterparts. -/
structure Agree (outcome outcome' : Except (Halt EmitError) α × Session) : Prop where
  result : outcome.1 = outcome'.1
  session : outcome.2.Counterparts outcome'.2

theorem Agree.bind {x y : EmitM α} {f g : α → EmitM β} (h : Agree (run x s) (run y t))
    (h' : ∀ a s' t', s'.Counterparts t' → Agree (run (f a) s') (run (g a) t')) :
    Agree (run (x >>= f) s) (run (y >>= g) t) := by
  rw [run_bind, run_bind]
  rcases hx : run x s with ⟨result, s'⟩
  rcases hy : run y t with ⟨result', t'⟩
  rw [hx, hy] at h
  obtain ⟨rfl : result = result', hsession⟩ := h
  cases result with
  | error stop => exact ⟨rfl, hsession⟩
  | ok a => exact h' a s' t' hsession

/-! ### Steps -/

theorem agree_permitted (h : s.Counterparts t) (x : Except EmitError α) :
    Agree (run (permitted x) s) (run (permitted x) t) := by
  cases x with
  | ok a => exact ⟨rfl, h⟩
  | error error => exact ⟨rfl, h⟩

theorem agree_writeText {text text' : String} (h : s.Counterparts t) (htext : Widens text text') :
    Agree (run (writeText text) s) (run (writeText text') t) := by
  obtain ⟨hroom, hroom'⟩ := h.sink.room
  rw [writeText, writeText, run_write hroom, run_write hroom']
  exact ⟨rfl, h.wrote htext⟩

theorem agree_leave (h : s.Counterparts t) : Agree (run leave s) (run leave t) := by
  cases hstate : s.context.function with
  | none =>
      have hstate' : t.context.function = none := by
        rw [← h.context.wide, Context.retargeted, hstate, Option.map_none]
      have houtside : ∀ {u : Session}, u.context.function = none →
          run leave u = (.error (.breach .outsideFunction), u) := by
        intro u hu
        simp only [leave, frame, run_bind, run_context, Context.currentFrame, Context.current, hu]
        rfl
      rw [houtside hstate, houtside hstate']
      exact ⟨rfl, h⟩
  | some state =>
      obtain ⟨hframe, hstate'⟩ := h.context.of_function hstate
      obtain ⟨hroom, hroom'⟩ := h.sink.room
      rw [run_leave hstate hroom (hframe ▸ epilogue_empty .rv32),
        run_leave hstate' hroom' (epilogue_empty .rv64)]
      exact ⟨rfl, h.context.finished, (h.wrote .ending).sink⟩

/-! ### Statements -/

theorem agree_constant (h : s.Counterparts t) (value : Int64) :
    Agree (run (constant value) s) (run (constant value) t) := by
  rw [constant, run_bind, run_bind]
  simp only [run_context, h.context.insideFunction]
  split
  · exact ⟨rfl, h⟩
  · split
    · exact ⟨rfl, h⟩
    · exact agree_writeText h (.of_plain (Instr.paren_not_mem_li value))

theorem agree_named (h : s.Counterparts t) (name : String) :
    Agree (run (named name) s) (run (named name) t) := by
  simp only [named, resolve, run_bind, run_context, h.context.resolve name]
  cases hname : s.context.resolve name with
  | error error => exact ⟨rfl, h⟩
  | ok storage =>
      -- The name is that of a function, whose value is not supported.
      obtain ⟨label, rfl⟩ := h.context.exists_label hname
      exact ⟨rfl, h⟩

theorem agree_returnValue (h : s.Counterparts t) (node : Node) :
    Agree (run (returnValue node) s) (run (returnValue node) t) := by
  cases node with
  | constant value => exact agree_constant h value
  | identifier name => exact agree_named h name
  | ret | declarator | function | list => exact ⟨rfl, h⟩

theorem agree_returnStatement (h : s.Counterparts t) (expression : Option Node) :
    Agree (run (returnStatement expression) s) (run (returnStatement expression) t) := by
  rw [returnStatement, run_bind, run_bind]
  simp only [run_context, h.context.insideFunction]
  split
  · exact ⟨rfl, h⟩
  · cases expression with
    | none => exact agree_leave h
    | some node => exact (agree_returnValue h node).bind fun _ _ _ h₁ => agree_leave h₁

theorem agree_requireReachable (h : s.Counterparts t) :
    Agree (run requireReachable s) (run requireReachable t) := by
  simp only [requireReachable, run_bind, run_context, Context.requireReachable, h.context.returned]
  exact agree_permitted h _

theorem agree_checkEntry (h : s.Counterparts t) (node : Node) :
    Agree (run (checkEntry node) s) (run (checkEntry node) t) := by
  cases node with
  | ret | function | list => exact ⟨rfl, h⟩
  | identifier | constant | declarator =>
      simp only [checkEntry, run_bind, run_context, h.context.insideFunction]
      split
      · exact ⟨rfl, h⟩
      · exact ⟨rfl, h⟩

/-! ### Functions -/

theorem agree_inner {body : Option Node}
    (hbody : Agree (run (Node.emitOption body) s) (run (Node.emitOption body) t)) :
    Agree (run (inner body) s) (run (inner body) t) := by
  refine hbody.bind fun _ s₁ t₁ h₁ => ?_
  rw [run_bind, run_bind]
  simp only [run_context, h₁.context.returned]
  split
  · exact agree_leave h₁
  · exact ⟨rfl, h₁⟩

variable {type : TypeSpecifier} {name : String} {body : Option Node}

/-- Once its body is done, a function is closed, and written unless the body failed. -/
theorem agree_function_of_inner {result : Except (Halt EmitError) Unit} {s₁ t₁ : Session}
    (h : s.Counterparts t) (hname : '(' ∉ name.toList)
    (hopen : s.context.openFunction name = .ok (s.context.opened name))
    (hopen' : t.context.openFunction name = .ok (t.context.opened name))
    (hrun : run (inner body) (opening s (s.context.opened name) name) = (result, s₁))
    (hrun' : run (inner body) (opening t (t.context.opened name) name) = (result, t₁))
    (h₁ : s₁.Counterparts t₁) :
    Agree (run (Node.emit (.function type name body)) s)
      (run (Node.emit (.function type name body)) t) := by
  have heffect := effect_inner rfl
    (effect_emitOption body (opening s (s.context.opened name) name))
  rw [hrun] at heffect
  obtain ⟨state, hstate, -, hscopes⟩ := exists_state_of_opening hopen heffect
  obtain ⟨hframe, hstate'⟩ := h₁.context.of_function hstate
  have hscopes' : t₁.context.inner = .empty :: s.context.inner := by
    rw [← h₁.context.wide, ← hscopes]
    rfl
  have hclosed := h₁.context.closed hscopes
  have htotal : state.frame.total = .ok 16 := hframe ▸ total_empty .rv32
  cases result with
  | error stop =>
      obtain ⟨error, rfl, -⟩ := stops_of_opening hopen (heffect.stops stop rfl)
      obtain ⟨journal, hemit⟩ := run_emit_function_error hopen hrun hstate hscopes htotal
      obtain ⟨journal', hemit'⟩ := run_emit_function_error hopen' hrun' hstate' hscopes'
        (total_empty .rv64)
      rw [hemit, hemit']
      exact ⟨rfl, hclosed, h.sink⟩
  | ok u =>
      obtain ⟨hroom, hroom'⟩ := h.sink.room
      obtain ⟨journal, hemit⟩ := run_emit_function_ok hroom hopen hrun hstate hscopes htotal
        (hframe ▸ prologue_empty .rv32)
      obtain ⟨journal', hemit'⟩ := run_emit_function_ok hroom' hopen' hrun' hstate' hscopes'
        (total_empty .rv64) (prologue_empty .rv64)
      obtain ⟨text, text', htext, hsink, hsink'⟩ := h₁.sink
      rw [hemit, hemit']
      refine ⟨rfl, hclosed, ?_⟩
      rw [hsink, hsink']
      exact (h.sink.append (.heading hname)).append htext

theorem agree_function (h : s.Counterparts t) (hname : '(' ∉ name.toList)
    (hbody : ∀ {s t : Session}, s.Counterparts t →
      Agree (run (Node.emitOption body) s) (run (Node.emitOption body) t)) :
    Agree (run (Node.emit (.function type name body)) s)
      (run (Node.emit (.function type name body)) t) := by
  obtain ⟨error, hopen, hopen'⟩ | ⟨hopen, hopen'⟩ := h.context.openFunction name
  · rw [emit_function, run_bind, run_bind, run_openFunction_error hopen,
      run_openFunction_error hopen']
    exact ⟨rfl, h⟩
  · -- The bodies are emitted to streams of their own.
    have hinner := agree_inner (hbody (s := opening s (s.context.opened name) name)
      (t := opening t (t.context.opened name) name) ⟨h.context.opened name, .unlimited⟩)
    rcases hrun : run (inner body) (opening s (s.context.opened name) name) with ⟨result, s₁⟩
    rcases hrun' : run (inner body) (opening t (t.context.opened name) name) with ⟨result', t₁⟩
    rw [hrun, hrun'] at hinner
    obtain ⟨rfl : result = result', h₁⟩ := hinner
    exact agree_function_of_inner h hname hopen hopen' hrun hrun' h₁

end Emit

/-! ### Trees -/

namespace Node

mutual

/-- The names in a tree. -/
def names : Node → List String
  | identifier name => [name]
  | constant _ => []
  | ret expression => namesOption expression
  | declarator name => [name]
  | function _ name body => name :: namesOption body
  | list entries => namesEntries entries

def namesOption : Option Node → List String
  | none => []
  | some node => node.names

def namesEntries : List (Option Node) → List String
  | [] => []
  | entry :: rest => namesOption entry ++ namesEntries rest

end

end Node

namespace Emit

mutual

theorem agree_emit (node : Node) {s t : Session} (hnames : ∀ name ∈ node.names, '(' ∉ name.toList)
    (h : s.Counterparts t) : Agree (run node.emit s) (run node.emit t) := by
  cases node with
  | identifier name =>
      rw [Node.emit]
      exact agree_writeText h (.of_plain (hnames name List.mem_cons_self))
  | constant value =>
      rw [Node.emit]
      exact agree_constant h value
  | ret expression =>
      rw [Node.emit]
      exact agree_returnStatement h expression
  | declarator name =>
      rw [Node.emit]
      have hname := hnames name List.mem_cons_self
      exact agree_writeText h (.of_plain (Instr.paren_not_mem_label hname))
  | function type name body =>
      rw [Node.names, List.forall_mem_cons] at hnames
      exact agree_function h hnames.1 (agree_emitOption body hnames.2)
  | list entries =>
      rw [Node.names] at hnames
      rw [Node.emit]
      exact agree_emitEntries entries hnames h

theorem agree_emitOption (node : Option Node) {s t : Session}
    (hnames : ∀ name ∈ Node.namesOption node, '(' ∉ name.toList) (h : s.Counterparts t) :
    Agree (run (Node.emitOption node) s) (run (Node.emitOption node) t) := by
  cases node with
  | none => exact ⟨rfl, h⟩
  | some node =>
      rw [Node.namesOption] at hnames
      rw [Node.emitOption]
      exact agree_emit node hnames h

theorem agree_emitEntries (entries : List (Option Node)) {s t : Session}
    (hnames : ∀ name ∈ Node.namesEntries entries, '(' ∉ name.toList) (h : s.Counterparts t) :
    Agree (run (Node.emitEntries entries) s) (run (Node.emitEntries entries) t) := by
  cases entries with
  | nil => exact ⟨rfl, h⟩
  | cons entry rest =>
      rw [Node.namesEntries, List.forall_mem_append] at hnames
      cases entry with
      | none =>
          rw [Node.emitEntries]
          exact agree_emitEntries rest hnames.2 h
      | some node =>
          rw [Node.emitEntries]
          refine (agree_requireReachable h).bind fun _ _ _ h₁ => ?_
          refine (agree_checkEntry h₁ node).bind fun _ _ _ h₂ => ?_
          exact (agree_emit node hnames.1 h₂).bind fun _ _ _ h₃ =>
            agree_emitEntries rest hnames.2 h₃

end

end Emit

theorem paren_not_mem_of_isWord {word : List Char} (h : isWord word) : '(' ∉ word := by
  cases word with
  | nil => simp
  | cons c word =>
      simp only [isWord, Bool.and_eq_true, List.all_eq_true] at h
      rintro (_ | ⟨_, hmem⟩)
      · exact absurd h.1 (by decide)
      · exact absurd (h.2 _ hmem) (by decide)

/-- A tree whose names are words is compiled for both targets or refused for both, with the same
error. The code for the 64-bit target is that for the 32-bit target with every save and restore of
`s0` widened, and nothing else changed. -/
theorem targets_agree {root : Node} (hnames : ∀ name ∈ root.names, isWord name.toList) :
    (Assembly.ofTree .rv64 root).result = (Assembly.ofTree .rv32 root).result.map widened := by
  have hagree := agree_emit root (fun name hname => paren_not_mem_of_isWord (hnames name hname))
    (s := Assembly.start .rv32 root) (t := Assembly.start .rv64 root)
    ⟨Context.counterparts_empty, .unlimited⟩
  obtain ⟨s', text, hrun, hwritten, hresult⟩ | ⟨s', stop, hrun, hresult⟩ :=
    Assembly.exists_result .rv32 root
  all_goals
    obtain ⟨t', text', hrun', hwritten', hresult'⟩ | ⟨t', stop', hrun', hresult'⟩ :=
      Assembly.exists_result .rv64 root
  all_goals
    rw [hrun, hrun'] at hagree
    obtain ⟨hsame, hsession⟩ := hagree
    rw [hresult, hresult']
  · obtain ⟨code, code', hcode, hsink, hsink'⟩ := hsession.sink
    rw [hsink] at hwritten
    rw [hsink'] at hwritten'
    rw [← String.toByteArray_inj.mp hwritten, ← String.toByteArray_inj.mp hwritten', Except.map,
      hcode.widened_eq]
  · cases hsame
  · cases hsame
  · cases hsame
    rfl

/-- The names are those of instructions and a register, and one of them stands on the line that
restores `s0`. -/
theorem targets_agree_stray :
    let root : Node := .list [none,
      some (.function .int "sw" (some (.ret (some (.constant (-7)))))),
      some (.list [some (.function .int "s0" (some (.identifier "lw")))])]
    (∀ name ∈ root.names, isWord name.toList) ∧
      ∃ text, (Assembly.ofTree .rv32 root).result = .ok text ∧
        (Assembly.ofTree .rv64 root).result = .ok (widened text) := by
  intro root
  have hnames : ∀ name ∈ root.names, isWord name.toList := by decide
  have hrun : (run root.emit (Assembly.start .rv32 root)).1 = .ok () := by decide +kernel
  obtain ⟨text, htext⟩ := Assembly.exists_text_of_run hrun
  refine ⟨hnames, text, htext, ?_⟩
  rw [targets_agree hnames, htext]
  rfl

end MicroC
