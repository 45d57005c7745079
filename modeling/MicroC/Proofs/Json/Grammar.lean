import Mathlib
import MicroC.Json.Reader
import MicroC.Json.Text

/-!
The texts of JSON values. Blanks may stand around every value, and a character of a
string can be spelled in more than one way. What is written in either style is one of
the texts of the value.
-/

namespace MicroC.Json

/-! ### Texts -/

def Blank (cs : List Char) : Prop := ∀ c ∈ cs, isBlank c

/-- A text between blanks. -/
def Padded (P : List Char → Prop) (cs : List Char) : Prop :=
  ∃ before text after, cs = before ++ (text ++ after) ∧ Blank before ∧ P text ∧ Blank after

/-- The ways to spell a character of a string. -/
inductive SpellsChar : Char → List Char → Prop
  | plain {c : Char} (hquote : c ≠ '"') (hbackslash : c ≠ '\\') (hcontrol : 0x20 ≤ c.toNat) :
      SpellsChar c [c]
  | short {letter c : Char} (h : unescape? letter = some c) : SpellsChar c ['\\', letter]
  | unit {a b c d : Char} {n : Nat} (h : unit? a b c d = some n)
      (hhigh : isHighSurrogate n = false) (hlow : isLowSurrogate n = false) :
      SpellsChar (.ofNat n) ['\\', 'u', a, b, c, d]
  | pair {a b c d e f g h : Char} {high low : Nat} (hfirst : unit? a b c d = some high)
      (hhigh : isHighSurrogate high) (hsecond : unit? e f g h = some low)
      (hlow : isLowSurrogate low) :
      SpellsChar (joined high low) ['\\', 'u', a, b, c, d, '\\', 'u', e, f, g, h]

inductive SpellsChars : List Char → List Char → Prop
  | nil : SpellsChars [] []
  | cons {c : Char} {s piece text : List Char} (hc : SpellsChar c piece)
      (hs : SpellsChars s text) : SpellsChars (c :: s) (piece ++ text)

def Quotes (s : String) (cs : List Char) : Prop :=
  ∃ text, cs = '"' :: (text ++ ['"']) ∧ SpellsChars s.toList text

/-- A name and a value with a colon between them. -/
def Pairs (name : String) (value : List Char → Prop) (cs : List Char) : Prop :=
  ∃ key text, cs = key ++ ':' :: text ∧ Padded (Quotes name) key ∧ Padded value text

mutual

/-- The texts of a value. Numbers other than integers are left out. -/
def Spells : Json → List Char → Prop
  | null, cs => cs = "null".toList
  | bool true, cs => cs = "true".toList
  | bool false, cs => cs = "false".toList
  | integer n, cs => cs = (toString n).toList
  | decimal _, _ => False
  | string s, cs => Quotes s cs
  | array items, cs => ∃ inner, cs = '[' :: (inner ++ [']']) ∧ SpellsItems items inner
  | object members, cs => ∃ inner, cs = '{' :: (inner ++ ['}']) ∧ SpellsMembers members inner

def SpellsItems : List Json → List Char → Prop
  | [], cs => Blank cs
  | [item], cs => Padded (Spells item) cs
  | item :: items, cs => ∃ first others,
      cs = first ++ ',' :: others ∧ Padded (Spells item) first ∧ SpellsItems items others

def SpellsMembers : List (String × Json) → List Char → Prop
  | [], cs => Blank cs
  | [(name, value)], cs => Pairs name (Spells value) cs
  | (name, value) :: members, cs => ∃ first others,
      cs = first ++ ',' :: others ∧ Pairs name (Spells value) first ∧ SpellsMembers members others

end

/-- A whole text that holds a value. -/
def Denotes (j : Json) (text : String) : Prop := Padded (Spells j) text.toList

mutual

/-- Every number in the value is an integer of 64 bits, with a sign or without one. -/
def Integral : Json → Prop
  | null | bool _ | string _ => True
  | integer n => -2 ^ 63 ≤ n ∧ n < 2 ^ 64
  | decimal _ => False
  | array items => IntegralItems items
  | object members => IntegralMembers members

def IntegralItems : List Json → Prop
  | [] => True
  | item :: items => item.Integral ∧ IntegralItems items

def IntegralMembers : List (String × Json) → Prop
  | [] => True
  | (_, value) :: members => value.Integral ∧ IntegralMembers members

end

/-! ### Written texts -/

theorem blank_nil : Blank [] := by simp [Blank]

theorem padded_self {P : List Char → Prop} {text : List Char} (h : P text) : Padded P text :=
  ⟨[], text, [], by simp, blank_nil, h, blank_nil⟩

theorem padded_append {P : List Char → Prop} {before text : List Char} (hbefore : Blank before)
    (h : P text) : Padded P (before ++ text) :=
  ⟨before, text, [], by simp, hbefore, h, blank_nil⟩

theorem Padded.append {P : List Char → Prop} {text after : List Char} (h : Padded P text)
    (hafter : Blank after) : Padded P (text ++ after) := by
  obtain ⟨before, inner, between, rfl, hbefore, hinner, hbetween⟩ := h
  refine ⟨before, inner, between ++ after, by simp, hbefore, hinner, fun c hc => ?_⟩
  rcases List.mem_append.mp hc with hc | hc
  · exact hbetween c hc
  · exact hafter c hc

theorem Pairs.append {name : String} {value : List Char → Prop} {text after : List Char}
    (h : Pairs name value text) (hafter : Blank after) : Pairs name value (text ++ after) := by
  obtain ⟨key, inner, rfl, hkey, hvalue⟩ := h
  exact ⟨key, inner ++ after, by simp, hkey, hvalue.append hafter⟩

theorem Style.blank_lineBreak (style : Style) (depth : Nat) : Blank (style.lineBreak depth) := by
  cases style with
  | compact => exact blank_nil
  | pretty => simp [Blank, lineBreak, isBlank]

theorem hexValue?_digitChar {d : Nat} (h : d < 16) : hexValue? d.digitChar = some d := by
  have hall : ∀ d : Fin 16, hexValue? (Nat.digitChar d) = some d.val := by decide
  exact hall ⟨d, h⟩

/-- A control character is spelled with two digits. -/
theorem unit?_control {n : Nat} (h : n < 0x20) :
    unit? '0' '0' (n / 16).digitChar (n % 16).digitChar = some n := by
  have hzero : hexValue? '0' = some 0 := by decide
  rw [unit?, hzero, hexValue?_digitChar (by omega), hexValue?_digitChar (by omega)]
  show some _ = some _
  congr 1
  omega

theorem spellsChar_escape (c : Char) : SpellsChar c (escape c) := by
  unfold escape
  split
  -- Seven characters have an escape of their own.
  iterate 7 exact .short rfl
  rename_i hquote hbackslash _ _ _ _ _
  split
  · rename_i hcontrol
    have hlow : isLowSurrogate c.toNat = false := by simp [isLowSurrogate]; omega
    have hhigh : isHighSurrogate c.toNat = false := by simp [isHighSurrogate]; omega
    have hunit := SpellsChar.unit (unit?_control hcontrol) hhigh hlow
    rwa [Char.ofNat_toNat] at hunit
  · rename_i hcontrol
    exact .plain hquote hbackslash (Nat.le_of_not_lt hcontrol)

theorem quotes_quoted (s : String) : Quotes s (quoted s) := by
  refine ⟨s.toList.flatMap escape, rfl, ?_⟩
  induction s.toList with
  | nil => exact .nil
  | cons c s ih => exact .cons (spellsChar_escape c) ih

theorem Style.pairs (style : Style) (depth : Nat) {name : String} {value : List Char → Prop}
    {text : List Char} (h : value text) :
    Pairs name value (style.lineBreak depth ++ quoted name ++ style.colon ++ text) := by
  have hkey : Padded (Quotes name) (style.lineBreak depth ++ quoted name) :=
    padded_append (style.blank_lineBreak depth) (quotes_quoted name)
  cases style with
  | compact => exact ⟨_, text, by simp [colon], hkey, padded_self h⟩
  | pretty =>
      have hblank : Blank [' '] := by simp [Blank, isBlank]
      exact ⟨_, ' ' :: text, by simp [colon], hkey, padded_append hblank h⟩

mutual

/-- What is written for a value is one of its texts. -/
theorem spells_write (style : Style) (depth : Nat) (j : Json) (hj : j.Integral) :
    Spells j (write style depth j) := by
  cases j with
  | null => rfl
  | bool value => cases value <;> rfl
  | integer n => rfl
  | decimal spelling => exact hj
  | string s => exact quotes_quoted s
  | array items =>
      cases items with
      | nil => exact ⟨[], rfl, blank_nil⟩
      | cons item items =>
          refine ⟨writeItems style (depth + 1) (item :: items) ++ style.lineBreak depth, ?_, ?_⟩
          · simp [write]
          · exact spellsItems_write style (depth + 1) (item :: items) (List.cons_ne_nil _ _) hj depth
  | object members =>
      cases members with
      | nil => exact ⟨[], rfl, blank_nil⟩
      | cons member members =>
          refine ⟨writeMembers style (depth + 1) (member :: members) ++ style.lineBreak depth, ?_, ?_⟩
          · simp [write]
          · exact spellsMembers_write style (depth + 1) (member :: members) (List.cons_ne_nil _ _)
              hj depth

theorem spellsItems_write (style : Style) (depth : Nat) (items : List Json) (hne : items ≠ [])
    (hitems : IntegralItems items) (outer : Nat) :
    SpellsItems items (writeItems style depth items ++ style.lineBreak outer) := by
  cases items with
  | nil => exact absurd rfl hne
  | cons item items =>
      have hitem : Padded (Spells item) (style.lineBreak depth ++ write style depth item) :=
        padded_append (style.blank_lineBreak depth) (spells_write style depth item hitems.1)
      cases items with
      | nil => exact hitem.append (style.blank_lineBreak outer)
      | cons next items =>
          have hlater := spellsItems_write style depth (next :: items) (List.cons_ne_nil _ _)
            hitems.2 outer
          exact ⟨_, _, by simp [writeItems], hitem, hlater⟩

theorem spellsMembers_write (style : Style) (depth : Nat) (members : List (String × Json))
    (hne : members ≠ []) (hmembers : IntegralMembers members) (outer : Nat) :
    SpellsMembers members (writeMembers style depth members ++ style.lineBreak outer) := by
  cases members with
  | nil => exact absurd rfl hne
  | cons member members =>
      obtain ⟨name, value⟩ := member
      have hmember : Pairs name (Spells value) (style.lineBreak depth ++ quoted name ++
          style.colon ++ write style depth value) :=
        style.pairs depth (spells_write style depth value hmembers.1)
      cases members with
      | nil => exact hmember.append (style.blank_lineBreak outer)
      | cons next members =>
          have hlater := spellsMembers_write style depth (next :: members) (List.cons_ne_nil _ _)
            hmembers.2 outer
          exact ⟨_, _, by simp [writeMembers], hmember, hlater⟩

end

theorem denotes_compact {j : Json} (hj : j.Integral) : Denotes j j.compact := by
  rw [Denotes, compact, String.toList_ofList]
  exact padded_self (spells_write .compact 0 j hj)

theorem denotes_pretty {j : Json} (hj : j.Integral) : Denotes j j.pretty := by
  rw [Denotes, pretty, String.toList_ofList]
  exact padded_self (spells_write .pretty 0 j hj)

end MicroC.Json
