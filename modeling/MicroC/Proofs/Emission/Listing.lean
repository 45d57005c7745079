import MicroC.Proofs.Emission.Run

/-!
Listings are unambiguous. A line is a row of fields with a blank between any two of them: the four
blanks that indent an instruction stand after four empty fields, and the comma after an operand
belongs to the field of that operand. Neither a blank nor the end of a line stands inside a field,
so the rows can be read back from the text, and a row tells its instruction.
-/

namespace MicroC

namespace RiscV

/-- A text that neither a blank nor the end of a line interrupts. -/
def Unbroken (text : String) : Prop := ' ' ∉ text.toList ∧ '\n' ∉ text.toList

instance : DecidablePred Unbroken := fun _ => inferInstanceAs (Decidable (_ ∧ _))

@[simp] theorem unbroken_append {text text' : String} :
    Unbroken (text ++ text') ↔ Unbroken text ∧ Unbroken text' := by
  simp only [Unbroken, String.toList_append, List.mem_append, not_or]
  exact and_and_and_comm

/-! ### Operands -/

theorem not_mem_toDigits {c : Char} (h : c.isDigit = false) (n : Nat) : c ∉ Nat.toDigits 10 n := by
  intro hc
  have hdigit := Nat.isDigit_of_mem_toDigits (by decide) (by decide) hc
  simp [h] at hdigit

/-- A number is made of digits, after a sign if it is negative. -/
theorem not_mem_repr {c : Char} (hdigit : c.isDigit = false) (hsign : c ≠ '-') (n : Int) :
    c ∉ n.repr.toList := by
  cases n with
  | ofNat m => simp [Int.repr, not_mem_toDigits hdigit m]
  | negSucc m => simp [Int.repr, not_mem_toDigits hdigit (m + 1), hsign]

@[simp] theorem unbroken_repr (n : Int) : Unbroken n.repr :=
  ⟨not_mem_repr (by decide) (by decide) n, not_mem_repr (by decide) (by decide) n⟩

namespace Reg

theorem ofName?_name (r : Reg) : ofName? r.name = some r := by
  cases r <;> rfl

@[simp] theorem name_inj {r r' : Reg} : r.name = r'.name ↔ r = r' := by
  constructor
  · intro h
    apply Option.some.inj
    rw [← r.ofName?_name, h, r'.ofName?_name]
  · exact congrArg name

@[simp] theorem unbroken_name (r : Reg) : Unbroken r.name := by
  cases r <;> decide

theorem paren_not_mem_name (r : Reg) : '(' ∉ r.name.toList := by
  cases r <;> decide

end Reg

/-- How a place in memory is written. -/
def place (offset : Int32) (base : Reg) : String :=
  offset.toInt.repr ++ "(" ++ base.name ++ ")"

/-- Neither part has a parenthesis of its own, so the text is cut at the first one. -/
@[simp] theorem place_inj {offset offset' : Int32} {base base' : Reg} :
    place offset base = place offset' base' ↔ offset = offset' ∧ base = base' := by
  have htext : ∀ (offset : Int32) (base : Reg), (place offset base).toList =
      offset.toInt.repr.toList ++ '(' :: (base.name ++ ")").toList := by simp [place]
  have hoffset : '(' ∉ offset.toInt.repr.toList := not_mem_repr (by decide) (by decide) _
  have hbase : '(' ∉ (base.name ++ ")").toList := by simp [base.paren_not_mem_name]
  rw [← String.toList_inj, htext, htext, List.append_cons_inj_of_notMem hoffset hbase,
    String.toList_inj, String.toList_inj, Int.repr_inj, Int32.toInt_inj, String.append_left_inj,
    Reg.name_inj, and_iff_right rfl]

@[simp] theorem unbroken_place (offset : Int32) (base : Reg) : Unbroken (place offset base) := by
  simp +decide [place]

/-! ### Rows -/

namespace Instr

/-- The name that a line exports or defines. -/
def symbol? : Instr → Option String
  | global name | label name => some name
  | _ => none

/-- A line that has a name has an unbroken one. -/
def WellNamed (i : Instr) : Prop := ∀ name ∈ i.symbol?, Unbroken name

instance : DecidablePred WellNamed := fun i => Option.decidableForallMem i.symbol?

/-- What stands between the blanks of a line. -/
def fields : Instr → List String
  | code => [".text"]
  | global name => [".globl", name]
  | label name => [name ++ ":"]
  | add rd left right => ["", "", "", "", "add", rd.name ++ ",", left.name ++ ",", right.name]
  | sub rd left right => ["", "", "", "", "sub", rd.name ++ ",", left.name ++ ",", right.name]
  | addi rd rs immediate =>
      ["", "", "", "", "addi", rd.name ++ ",", rs.name ++ ",", immediate.toInt.repr]
  | load width rd offset base =>
      ["", "", "", "", "l" ++ width.letter, rd.name ++ ",", place offset base]
  | store width rs offset base =>
      ["", "", "", "", "s" ++ width.letter, rs.name ++ ",", place offset base]
  | li rd immediate => ["", "", "", "", "li", rd.name ++ ",", immediate.toInt.repr]
  | mv rd rs => ["", "", "", "", "mv", rd.name ++ ",", rs.name]
  | ret => ["", "", "", "", "ret"]

theorem line_eq (i : Instr) : i.line = " ".intercalate i.fields ++ "\n" := by
  rw [← String.toList_inj]
  -- The text as one match: an equation for each constructor takes long to derive.
  cases i <;> simp [line, startsAtMargin, text.eq_def, fields, place, toString]

theorem fields_ne_nil (i : Instr) : i.fields ≠ [] := by
  cases i <;> simp [fields]

theorem unbroken_of_mem_fields {i : Instr} (h : i.WellNamed) :
    ∀ field ∈ i.fields, Unbroken field := by
  cases i with
  | global name | label name => simpa +decide [fields, WellNamed, symbol?] using h
  | load width | store width => cases width <;> simp +decide [fields, Width.letter]
  | _ => simp +decide [fields]

theorem append_colon_ne (name : String) : name ++ ":" ≠ ".text" := by
  intro h
  have hlast := congrArg (fun text => text.toList.getLast?) h
  simp at hlast

/-- Rows of two forms differ in their length or in their mnemonic, and rows of one form in their
operands. -/
theorem fields_injective : Function.Injective fields := by
  -- Loads and stores are split by their width, which is a letter of the mnemonic.
  rintro (_ | _ | _ | _ | _ | _ | ⟨_ | _⟩ | ⟨_ | _⟩ | _ | _ | _)
    (_ | _ | _ | _ | _ | _ | ⟨_ | _⟩ | ⟨_ | _⟩ | _ | _ | _) h <;>
  simp_all [fields, Width.letter, append_colon_ne, (append_colon_ne _).symm, Int.repr_inj,
    Int32.toInt_inj, Int64.toInt_inj]

end Instr

theorem not_mem_intercalate {α : Type} {a separator : α} {parts : List (List α)}
    (hne : a ≠ separator) (h : ∀ part ∈ parts, a ∉ part) : a ∉ [separator].intercalate parts := by
  induction parts with
  | nil => simp
  | cons part parts ih =>
      cases parts with
      | nil => simpa using h
      | cons next parts =>
          rw [List.forall_mem_cons] at h
          simp [List.intercalate_cons_cons, hne, h.1, ih h.2]

/-- The rows of a text whose lines are all ended. -/
def rows (text : String) : List (List String) :=
  (text.toList.splitOn '\n').dropLast.map fun line => (line.splitOn ' ').map String.ofList

theorem rows_line_append {i : Instr} (h : i.WellNamed) (text : String) :
    rows (i.line ++ text) = i.fields :: rows text := by
  have hfields := Instr.unbroken_of_mem_fields h
  have hblank : ∀ part ∈ i.fields.map String.toList, ' ' ∉ part :=
    List.forall_mem_map.mpr fun field hfield => (hfields field hfield).1
  have hend : ∀ part ∈ i.fields.map String.toList, '\n' ∉ part :=
    List.forall_mem_map.mpr fun field hfield => (hfields field hfield).2
  have hline : (i.line ++ text).toList =
      [' '].intercalate (i.fields.map String.toList) ++ '\n' :: text.toList := by
    simp [i.line_eq]
  -- No field holds the end of a line, so the first one in the text is that of this line.
  rw [rows, hline, List.splitOn_append_cons_self_of_not_mem (not_mem_intercalate (by decide) hend),
    List.dropLast_cons_of_ne_nil (List.splitOn_ne_nil _ _), List.map_cons, ← rows,
    List.splitOn_intercalate _ hblank (List.map_eq_nil_iff.not.mpr i.fields_ne_nil)]
  simp [Function.comp_def]

theorem rows_listing {code : List Instr} (h : ∀ i ∈ code, i.WellNamed) :
    rows (listing code) = code.map Instr.fields := by
  induction code with
  | nil => rfl
  | cons i code ih =>
      rw [List.forall_mem_cons] at h
      rw [listing, rows_line_append h.1, ih h.2, List.map_cons]

theorem listing_inj {code code' : List Instr} (h : ∀ i ∈ code, i.WellNamed)
    (h' : ∀ i ∈ code', i.WellNamed) : listing code = listing code' ↔ code = code' := by
  constructor
  · intro htext
    apply List.map_injective_iff.mpr Instr.fields_injective
    rw [← rows_listing h, htext, rows_listing h']
  · exact congrArg listing

end RiscV

open RiscV

namespace Emit

/-- Different lists of instructions are written as different texts. A name in them is of any
characters but blanks and ends of lines, in particular of letters, digits, `_` and `.`, and it may
look like a directive, a mnemonic or a register. -/
theorem instructions_unambiguous {s : Session} {code code' : List Instr}
    (hroom : s.sink.room = none) (h : ∀ i ∈ code, i.WellNamed) (h' : ∀ i ∈ code', i.WellNamed) :
    (run (instructions code) s).2.sink.written = (run (instructions code') s).2.sink.written ↔
      code = code' := by
  rw [run_instructions hroom, run_instructions hroom]
  calc
    (s.wrote (listing code)).sink.written = (s.wrote (listing code')).sink.written
      ↔ (listing code).toUTF8 = (listing code').toUTF8 := ByteArray.append_right_inj _
    _ ↔ listing code = listing code' := String.toByteArray_inj
    _ ↔ code = code' := listing_inj h h'

/-- A label that looks like a directive, and operands that differ in where their digits end. -/
theorem instructions_unambiguous_similar :
    let code : List Instr := [.label ".text", .global "ret", .load .word .s1 (-1) .s10]
    let code' : List Instr := [.code, .global "ret", .load .word .s11 (-10) .s1]
    let s : Session := .ofContext (.empty .rv32)
    s.sink.room = none ∧ .label ".text" ∈ code ∧ (∀ i ∈ code, i.WellNamed) ∧
      (∀ i ∈ code', i.WellNamed) ∧
      (run (instructions code) s).2.sink.written ≠ (run (instructions code') s).2.sink.written := by
  intro code code' s
  have hcode : ∀ i ∈ code, i.WellNamed := by decide
  have hcode' : ∀ i ∈ code', i.WellNamed := by decide
  refine ⟨rfl, .head _, hcode, hcode', fun h => ?_⟩
  exact absurd ((instructions_unambiguous rfl hcode hcode').mp h) (by decide)

/-- With a blank in it, a label can pass for a directive. -/
example : listing [.label ".globl f"] = listing [.global "f:"] := by decide

end Emit

end MicroC
