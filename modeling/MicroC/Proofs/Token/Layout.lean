import MicroC.Proofs.Token.Spelling

/-!
The language of layout. A comment goes up to the first line feed, or up to the
first star and slash after those that open it. Layout is read as far as it goes:
what is counted is layout, and where something else follows it is all of it.
-/

namespace MicroC.Layout

open Unicode (isWhiteSpace)

/-- What closes a comment that a slash and a star open. -/
def closing : List Char := ['*', '/']

/-- Texts that may stand before a token. -/
inductive Spelled : List Char → Prop
  | nil : Spelled []
  | blank {c : Char} {rest : List Char} (hc : isWhiteSpace c) (h : Spelled rest) :
      Spelled (c :: rest)
  | lineComment {body rest : List Char} (hbody : '\n' ∉ body) (h : Spelled rest) :
      Spelled ('/' :: '/' :: (body ++ '\n' :: rest))
  | blockComment {body rest : List Char} (hbody : ¬closing <:+: body) (h : Spelled rest) :
      Spelled ('/' :: '*' :: (body ++ closing ++ rest))

/-- Texts that may stand after the last token: the end of the text closes a line
comment too. -/
inductive Trailing : List Char → Prop
  | closed {text : List Char} (h : Spelled text) : Trailing text
  | lineComment {front body : List Char} (h : Spelled front) (hbody : '\n' ∉ body) :
      Trailing (front ++ '/' :: '/' :: body)

/-! ### Comments -/

theorem scan_lineComment {body : List Char} (hbody : '\n' ∉ body) (count : Nat)
    (rest : List Char) :
    scan .lineComment count (body ++ '\n' :: rest) =
      scan .between (count + body.length + 1) rest := by
  induction body generalizing count with
  | nil => rfl
  | cons c body ih =>
      rw [List.mem_cons, not_or] at hbody
      rw [List.cons_append, scan.eq_7 _ _ _ fun h => hbody.1 h.symm, ih hbody.2, List.length_cons,
        Nat.add_right_comm count 1, Nat.add_assoc count]

theorem scan_lineComment_open {body : List Char} (hbody : '\n' ∉ body) (count : Nat) :
    scan .lineComment count body = count + body.length := by
  induction body generalizing count with
  | nil => rfl
  | cons c body ih =>
      rw [List.mem_cons, not_or] at hbody
      rw [scan.eq_7 _ _ _ fun h => hbody.1 h.symm, ih hbody.2, List.length_cons]
      omega

/-- A character that does not begin the end of a comment belongs to it. -/
theorem scan_blockComment_cons {c : Char} {text : List Char} (h : ¬closing <+: c :: text)
    (opened count : Nat) :
    scan (.blockComment opened) count (c :: text) =
      scan (.blockComment opened) (count + 1) text := by
  apply scan.eq_10
  rintro rest rfl rfl
  exact h ⟨rest, rfl⟩

theorem scan_blockComment {body : List Char} (hbody : ¬closing <:+: body) (opened count : Nat)
    (rest : List Char) :
    scan (.blockComment opened) count (body ++ closing ++ rest) =
      scan .between (count + body.length + 2) rest := by
  induction body generalizing count with
  | nil => rfl
  | cons c body ih =>
      rw [List.infix_cons_iff, not_or] at hbody
      have hfirst : ¬closing <+: c :: (body ++ closing ++ rest) := by
        rintro ⟨later, hlater⟩
        apply hbody.1
        -- The slash would have to be the first character of the body or of what closes it.
        cases body with
        | nil => simp [closing] at hlater
        | cons d body =>
            simp only [closing, List.cons_append, List.cons.injEq] at hlater
            obtain ⟨rfl, rfl, -⟩ := hlater
            exact ⟨body, rfl⟩
      rw [List.cons_append, List.cons_append, scan_blockComment_cons hfirst, ih hbody.2,
        List.length_cons, Nat.add_right_comm count 1, Nat.add_assoc count]

theorem scan_blockComment_open {body : List Char} (hbody : ¬closing <:+: body)
    (opened count : Nat) : scan (.blockComment opened) count body = opened := by
  induction body generalizing count with
  | nil => rfl
  | cons c body ih =>
      rw [List.infix_cons_iff, not_or] at hbody
      rw [scan_blockComment_cons hbody.1, ih hbody.2]

/-- A comment ends at the first place where it can. -/
theorem exists_closing {text : List Char} (h : closing <:+: text) :
    ∃ body rest, text = body ++ closing ++ rest ∧ ¬closing <:+: body := by
  induction text with
  | nil => exact absurd (List.infix_nil.mp h) (by decide)
  | cons c text ih =>
      by_cases hfirst : closing <+: c :: text
      · obtain ⟨rest, hrest⟩ := hfirst
        exact ⟨[], rest, hrest.symm, fun h => absurd (List.infix_nil.mp h) (by decide)⟩
      · obtain ⟨body, rest, rfl, hbody⟩ := ih ((List.infix_cons_iff.mp h).resolve_left hfirst)
        refine ⟨c :: body, rest, rfl, fun hinside => ?_⟩
        rcases List.infix_cons_iff.mp hinside with hhead | hinside
        · exact hfirst (hhead.trans ⟨closing ++ rest, by simp⟩)
        · exact hbody hinside

/-! ### All of the layout -/

theorem Spelled.length_append {front : List Char} (hfront : Spelled front) (rest : List Char) :
    length (front ++ rest) = front.length + length rest := by
  induction hfront with
  | nil => exact (Nat.zero_add _).symm
  | blank hc _ ih =>
      rw [List.cons_append, length_cons_of_isWhiteSpace hc, ih, List.length_cons]
      omega
  | @lineComment body later hbody _ ih =>
      have htext : '/' :: '/' :: (body ++ '\n' :: later) ++ rest =
          '/' :: '/' :: (body ++ '\n' :: (later ++ rest)) := by simp
      rw [htext, length, scan, scan_lineComment hbody, scan_between_add, ih]
      simp only [List.length_cons, List.length_append]
      omega
  | @blockComment body later hbody _ ih =>
      have htext : '/' :: '*' :: (body ++ closing ++ later) ++ rest =
          '/' :: '*' :: (body ++ closing ++ (later ++ rest)) := by simp
      rw [htext, length, scan, scan_blockComment hbody, scan_between_add, ih]
      simp only [List.length_cons, List.length_append, closing, List.length_nil]
      omega

theorem Trailing.length_eq {text : List Char} (h : Trailing text) : length text = text.length := by
  cases h with
  | closed h => simpa [length, scan] using h.length_append []
  | @lineComment front body h hbody =>
      have hlast : length ('/' :: '/' :: body) = body.length + 2 := by
        rw [length, scan, scan_lineComment_open hbody, Nat.zero_add, Nat.add_comm]
      rw [h.length_append, hlast, List.length_append, List.length_cons, List.length_cons]

theorem Spelled.append {front rest : List Char} (hfront : Spelled front) (hrest : Spelled rest) :
    Spelled (front ++ rest) := by
  induction hfront with
  | nil => exact hrest
  | blank hc _ ih => exact .blank hc ih
  | lineComment hbody _ ih => simpa using Spelled.lineComment hbody ih
  | blockComment hbody _ ih => simpa using Spelled.blockComment hbody ih

/-- A slash that opens no comment is no layout. -/
theorem length_slash {rest : List Char} (h : ∀ c ∈ rest.head?, c ≠ '/' ∧ c ≠ '*') :
    length ('/' :: rest) = 0 := by
  rw [length, scan.eq_4]
  · rfl
  · rintro later - rfl
    exact (h '/' rfl).1 rfl
  · rintro later - rfl
    exact (h '*' rfl).2 rfl

/-- `front` is the layout that a text begins with, and `rest` follows it. It
stands at the end of the text if it may stand nowhere else. -/
structure Splits (text front rest : List Char) : Prop where
  text_eq : text = front ++ rest
  length_eq : length text = front.length
  layout : Spelled front ∨ rest = [] ∧ Trailing front

theorem Splits.nothing {text : List Char} (h : length text = 0) : Splits text [] text :=
  ⟨rfl, h, .inl .nil⟩

theorem Splits.prepend {first later front rest : List Char} (hfirst : Spelled first)
    (h : Splits later front rest) : Splits (first ++ later) (first ++ front) rest where
  text_eq := by rw [h.text_eq, List.append_assoc]
  length_eq := by rw [hfirst.length_append, h.length_eq, List.length_append]
  layout := by
    rcases h.layout with hfront | ⟨hrest, htrailing⟩
    · exact .inl (hfirst.append hfront)
    · refine .inr ⟨hrest, ?_⟩
      cases htrailing with
      | closed hfront => exact .closed (hfirst.append hfront)
      | lineComment hfront hbody =>
          rw [← List.append_assoc]
          exact .lineComment (hfirst.append hfront) hbody

theorem exists_splits_lineComment (text : List Char)
    (ih : ∀ later : List Char, later.length < text.length + 2 →
      ∃ front rest, Splits later front rest) :
    ∃ front rest, Splits ('/' :: '/' :: text) front rest := by
  by_cases hclosed : '\n' ∈ text
  · obtain ⟨body, later, rfl, hbody⟩ := List.eq_append_cons_of_mem hclosed
    obtain ⟨front, rest, h⟩ := ih later (by simp only [List.length_append, List.length_cons]; omega)
    refine ⟨'/' :: '/' :: (body ++ '\n' :: front), rest, ?_⟩
    simpa using h.prepend (.lineComment hbody .nil)
  · have htrailing : Trailing ('/' :: '/' :: text) := .lineComment .nil hclosed
    exact ⟨_, [], (List.append_nil _).symm, htrailing.length_eq, .inr ⟨rfl, htrailing⟩⟩

theorem exists_splits_blockComment (text : List Char)
    (ih : ∀ later : List Char, later.length < text.length + 2 →
      ∃ front rest, Splits later front rest) :
    ∃ front rest, Splits ('/' :: '*' :: text) front rest := by
  by_cases hclosed : closing <:+: text
  · obtain ⟨body, later, rfl, hbody⟩ := exists_closing hclosed
    obtain ⟨front, rest, h⟩ := ih later (by simp only [List.length_append]; omega)
    refine ⟨'/' :: '*' :: (body ++ closing ++ front), rest, ?_⟩
    simpa using h.prepend (.blockComment hbody .nil)
  · refine ⟨[], _, .nothing ?_⟩
    rw [length, scan, scan_blockComment_open hclosed]

theorem exists_splits (text : List Char) : ∃ front rest, Splits text front rest := by
  induction hn : text.length using Nat.strongRecOn generalizing text with
  | ind n ih =>
      subst hn
      have hlater : ∀ later : List Char, later.length < text.length →
          ∃ front rest, Splits later front rest := fun later hlt => ih _ hlt later rfl
      cases text with
      | nil => exact ⟨[], [], .nothing rfl⟩
      | cons c text =>
          by_cases hblank : isWhiteSpace c
          · obtain ⟨front, rest, h⟩ := hlater text (by simp)
            exact ⟨_, rest, h.prepend (.blank hblank .nil)⟩
          by_cases hslash : c = '/'
          · subst hslash
            by_cases hopens : ∀ d ∈ text.head?, d ≠ '/' ∧ d ≠ '*'
            · exact ⟨[], _, .nothing (length_slash hopens)⟩
            · obtain ⟨d, rest, rfl, hd⟩ : ∃ d rest, text = d :: rest ∧ (d = '/' ∨ d = '*') := by
                cases text with
                | nil => exact absurd nofun hopens
                | cons d rest =>
                    refine ⟨d, rest, rfl, ?_⟩
                    simpa [or_iff_not_imp_left] using hopens
              rcases hd with rfl | rfl
              · exact exists_splits_lineComment rest hlater
              · exact exists_splits_blockComment rest hlater
          · exact ⟨[], _, .nothing (length_cons_eq_zero hblank hslash text)⟩

end MicroC.Layout
