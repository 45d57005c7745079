import MicroC.Proofs.Json.Text
import MicroC.Token.Json
import MicroC.Tree.Json

/-!
The JSON forms of trees, tokens and spans keep all there is to know of them, whichever
package makes and reads them. What a package has to do is said by the layout of what it
writes, by the texts that it reads, and by the form that it derives from each declaration.
From either text of such a form the very thing it was made from is then read back.
-/

namespace MicroC

namespace Json

/-- What is absent is null. -/
def nullable {α : Type} (toJson : α → Json) : Option α → Json
  | none => .null
  | some a => toJson a

def nullable? {α : Type} (ofJson? : Json → Option α) : Json → Option (Option α)
  | .null => some none
  | j => (ofJson? j).map some

/-- A name that chooses a form, with what the form holds. -/
def tagged (name : String) (content : Json) : Json := .object [(name, content)]

/-- How the things of a type are turned into values and back. -/
structure Form (α : Type) where
  toJson : α → Json
  ofJson? : Json → Option α

/-- A package for JSON: its writers, its reader, and the forms that it derives. -/
structure Package where
  compact : Json → String
  pretty : Json → String
  parse? : String → Option Json
  location : Form Location
  span : Form Span
  kind : Form Token.Kind
  token : Form Token
  type : Form TypeSpecifier
  node : Form Node

namespace Package

/-- A value is written without blanks or with an item on each line. -/
structure WritesText (package : Package) : Prop where
  compact : ∀ j, j.Integral → package.compact j = j.compact
  pretty : ∀ j, j.Integral → package.pretty j = j.pretty

/-- Every text of a value is read as that value, however deep it nests. -/
def ReadsText (package : Package) : Prop :=
  ∀ j text, j.Integral → Denotes j text → package.parse? text = some j

/-- A record is an object with a member for each of its fields, in their order. A choice
is the name of what was chosen, alone or as the one member of an object that holds the
rest. Any values may stand for the members when a form is read. -/
structure DerivesForms (package : Package) : Prop where
  location_toJson : ∀ l, package.location.toJson l = .object
    [("filename", .string l.file), ("line", .integer l.line.toNat),
      ("column", .integer l.column.toNat)]
  location_ofJson? : ∀ file line column, package.location.ofJson? (.object
    [("filename", file), ("line", line), ("column", column)]) = do
      return ⟨← file.string?, ← line.uint32?, ← column.uint32?⟩
  span_toJson : ∀ s, package.span.toJson s = .object
    [("start", package.location.toJson s.start), ("end", package.location.toJson s.stop)]
  span_ofJson? : ∀ start stop, package.span.ofJson? (.object
    [("start", start), ("end", stop)]) = do
      return ⟨← package.location.ofJson? start, ← package.location.ofJson? stop⟩
  plain_toJson : ∀ name kind, (name, kind) ∈ Token.Kind.plain →
    package.kind.toJson kind = .string name
  plain_ofJson? : ∀ name kind, (name, kind) ∈ Token.Kind.plain →
    package.kind.ofJson? (.string name) = some kind
  literal_toJson : ∀ value, package.kind.toJson (.literal value) =
    tagged "IntLiteral" (.integer value.toInt)
  literal_ofJson? : ∀ value, package.kind.ofJson? (tagged "IntLiteral" value) =
    value.int64?.map .literal
  word_toJson : ∀ name, package.kind.toJson (.identifier name) =
    tagged "Identifier" (.string name)
  word_ofJson? : ∀ name, package.kind.ofJson? (tagged "Identifier" name) =
    name.string?.map .identifier
  token_toJson : ∀ t, package.token.toJson t = .object
    [("token_type", package.kind.toJson t.kind), ("span", package.span.toJson t.span)]
  token_ofJson? : ∀ kind span, package.token.ofJson? (.object
    [("token_type", kind), ("span", span)]) = do
      return ⟨← package.kind.ofJson? kind, ← package.span.ofJson? span⟩
  type_toJson : package.type.toJson .int = .string "Int"
  type_ofJson? : package.type.ofJson? (.string "Int") = some .int
  identifier_toJson : ∀ name, package.node.toJson (.identifier name) =
    tagged "Identifier" (.object [("name", .string name)])
  identifier_ofJson? : ∀ name, package.node.ofJson?
    (tagged "Identifier" (.object [("name", name)])) = name.string?.map .identifier
  constant_toJson : ∀ value, package.node.toJson (.constant value) =
    tagged "IntConstant" (.object [("value", .integer value.toInt)])
  constant_ofJson? : ∀ value, package.node.ofJson?
    (tagged "IntConstant" (.object [("value", value)])) = value.int64?.map .constant
  ret_toJson : ∀ expression, package.node.toJson (.ret expression) =
    tagged "ReturnStatement" (.object
      [("expression", nullable package.node.toJson expression)])
  ret_ofJson? : ∀ expression, package.node.ofJson?
    (tagged "ReturnStatement" (.object [("expression", expression)])) =
      (nullable? package.node.ofJson? expression).map .ret
  declarator_toJson : ∀ name, package.node.toJson (.declarator name) =
    tagged "DirectDeclarator" (.object [("identifier", .object [("name", .string name)])])
  declarator_ofJson? : ∀ name, package.node.ofJson?
    (tagged "DirectDeclarator" (.object [("identifier", .object [("name", name)])])) =
      name.string?.map .declarator
  function_toJson : ∀ type name body, package.node.toJson (.function type name body) =
    tagged "FunctionDefinition" (.object
      [("type_specifier", package.type.toJson type),
        ("declarator", .object [("identifier", .object [("name", .string name)])]),
        ("body", nullable package.node.toJson body)])
  function_ofJson? : ∀ type name body, package.node.ofJson?
    (tagged "FunctionDefinition" (.object
      [("type_specifier", type),
        ("declarator", .object [("identifier", .object [("name", name)])]), ("body", body)])) = do
      return .function (← package.type.ofJson? type) (← name.string?)
        (← nullable? package.node.ofJson? body)
  list_toJson : ∀ entries, package.node.toJson (.list entries) =
    tagged "NodeList" (.object
      [("nodes", .array (entries.map (nullable package.node.toJson)))])
  list_ofJson? : ∀ items, package.node.ofJson?
    (tagged "NodeList" (.object [("nodes", .array items)])) =
      (items.mapM (nullable? package.node.ofJson?)).map .list

/-- From both texts of the form of a thing, the thing is read back. -/
def ReadsBack {α : Type} (package : Package) (form : Form α) : Prop :=
  ∀ a, (package.parse? (package.compact (form.toJson a))).bind form.ofJson? = some a ∧
    (package.parse? (package.pretty (form.toJson a))).bind form.ofJson? = some a

end Package

/-! ### What the forms keep -/

theorem int64?_toInt (n : Int64) : int64? (.integer n.toInt) = some n := by
  have hrange : Int64.minValue.toInt ≤ n.toInt ∧ n.toInt ≤ Int64.maxValue.toInt :=
    ⟨n.minValue_le_toInt, n.toInt_le⟩
  rw [int64?, if_pos hrange, Int64.ofInt_toInt]

theorem uint32?_toNat (n : UInt32) : uint32? (.integer n.toNat) = some n := by
  have hrange : 0 ≤ (n.toNat : Int) ∧ (n.toNat : Int) < UInt32.size := by
    have := n.toNat_lt_size
    omega
  rw [uint32?, if_pos hrange, Int.toNat_natCast, UInt32.ofNat_toNat]

theorem integral_toInt (n : Int64) : (integer n.toInt).Integral := by
  have hlow : Int64.minValue.toInt ≤ n.toInt := n.minValue_le_toInt
  have hhigh : n.toInt ≤ Int64.maxValue.toInt := n.toInt_le
  rw [Int64.toInt_minValue] at hlow
  rw [Int64.toInt_maxValue] at hhigh
  constructor <;> omega

theorem integral_toNat (n : UInt32) : (integer n.toNat).Integral := by
  have := n.toNat_lt_size
  simp only [Integral, UInt32.size] at *
  omega

/-- The form of a thing is a value of its own, not null, from which the thing is got
back. -/
structure Form.Keeps {α : Type} (form : Form α) (a : α) : Prop where
  integral : (form.toJson a).Integral
  ne_null : form.toJson a ≠ .null
  inverse : form.ofJson? (form.toJson a) = some a

section

variable {α : Type} {form : Form α} {a : α}

theorem Form.keeps_of_string {name : String} (hform : form.toJson a = .string name)
    (hinverse : form.ofJson? (.string name) = some a) : form.Keeps a := by
  rw [← hform] at hinverse
  refine ⟨?_, ?_, hinverse⟩
  · rw [hform]
    trivial
  · rw [hform]
    exact Json.noConfusion

theorem Form.keeps_of_object {members : List (String × Json)}
    (hform : form.toJson a = .object members) (hintegral : IntegralMembers members)
    (hinverse : form.ofJson? (.object members) = some a) : form.Keeps a := by
  rw [← hform] at hinverse
  refine ⟨?_, ?_, hinverse⟩
  · rw [hform]
    exact hintegral
  · rw [hform]
    exact Json.noConfusion

theorem nullable?_of_ne_null {ofJson? : Json → Option α} {j : Json} (h : j ≠ .null) :
    nullable? ofJson? j = (ofJson? j).map some := by
  cases j with
  | null => exact absurd rfl h
  | _ => rfl

end

namespace Package

variable {package : Package}

namespace DerivesForms

theorem keeps_location (h : package.DerivesForms) (l : Location) : package.location.Keeps l := by
  refine Form.keeps_of_object (h.location_toJson l)
    ⟨trivial, integral_toNat l.line, integral_toNat l.column, trivial⟩ ?_
  rw [h.location_ofJson?, uint32?_toNat, uint32?_toNat]
  rfl

theorem keeps_span (h : package.DerivesForms) (s : Span) : package.span.Keeps s := by
  have hstart := h.keeps_location s.start
  have hstop := h.keeps_location s.stop
  refine Form.keeps_of_object (h.span_toJson s)
    ⟨hstart.integral, hstop.integral, trivial⟩ ?_
  rw [h.span_ofJson?, hstart.inverse, hstop.inverse]
  rfl

theorem keeps_plain (h : package.DerivesForms) {name : String} {kind : Token.Kind}
    (hplain : (name, kind) ∈ Token.Kind.plain) : package.kind.Keeps kind :=
  Form.keeps_of_string (h.plain_toJson name kind hplain) (h.plain_ofJson? name kind hplain)

theorem keeps_kind (h : package.DerivesForms) (kind : Token.Kind) : package.kind.Keeps kind := by
  cases kind with
  | literal value =>
      refine Form.keeps_of_object (h.literal_toJson value) ⟨integral_toInt value, trivial⟩ ?_
      refine (h.literal_ofJson? _).trans ?_
      rw [int64?_toInt, Option.map_some]
  | identifier name =>
      exact Form.keeps_of_object (h.word_toJson name) ⟨trivial, trivial⟩ (h.word_ofJson? _)
  | _ => exact h.keeps_plain (by simp [Token.Kind.plain]; rfl)

theorem keeps_token (h : package.DerivesForms) (t : Token) : package.token.Keeps t := by
  have hkind := h.keeps_kind t.kind
  have hspan := h.keeps_span t.span
  refine Form.keeps_of_object (h.token_toJson t) ⟨hkind.integral, hspan.integral, trivial⟩ ?_
  rw [h.token_ofJson?, hkind.inverse, hspan.inverse]
  rfl

theorem keeps_type (h : package.DerivesForms) (type : TypeSpecifier) :
    package.type.Keeps type := by
  cases type with
  | int => exact Form.keeps_of_string h.type_toJson h.type_ofJson?

mutual

theorem keeps_node (h : package.DerivesForms) (node : Node) : package.node.Keeps node := by
  cases node with
  | identifier name =>
      exact Form.keeps_of_object (h.identifier_toJson name) ⟨⟨trivial, trivial⟩, trivial⟩
        (h.identifier_ofJson? _)
  | constant value =>
      refine Form.keeps_of_object (h.constant_toJson value)
        ⟨⟨integral_toInt value, trivial⟩, trivial⟩ ((h.constant_ofJson? _).trans ?_)
      rw [int64?_toInt, Option.map_some]
  | ret expression =>
      obtain ⟨hintegral, hinverse⟩ := h.keeps_option expression
      refine Form.keeps_of_object (h.ret_toJson expression) ⟨⟨hintegral, trivial⟩, trivial⟩
        ((h.ret_ofJson? _).trans ?_)
      rw [hinverse, Option.map_some]
  | declarator name =>
      exact Form.keeps_of_object (h.declarator_toJson name)
        ⟨⟨⟨trivial, trivial⟩, trivial⟩, trivial⟩ (h.declarator_ofJson? _)
  | function type name body =>
      have htype := h.keeps_type type
      obtain ⟨hintegral, hinverse⟩ := h.keeps_option body
      refine Form.keeps_of_object (h.function_toJson type name body)
        ⟨⟨htype.integral, ⟨⟨trivial, trivial⟩, trivial⟩, hintegral, trivial⟩, trivial⟩
        ((h.function_ofJson? _ _ _).trans ?_)
      rw [htype.inverse, hinverse]
      rfl
  | list entries =>
      obtain ⟨hintegral, hinverse⟩ := h.keeps_entries entries
      refine Form.keeps_of_object (h.list_toJson entries) ⟨⟨hintegral, trivial⟩, trivial⟩
        ((h.list_ofJson? _).trans ?_)
      rw [hinverse, Option.map_some]

theorem keeps_option (h : package.DerivesForms) (node : Option Node) :
    (nullable package.node.toJson node).Integral ∧
      nullable? package.node.ofJson? (nullable package.node.toJson node) = some node := by
  cases node with
  | none => exact ⟨trivial, rfl⟩
  | some node =>
      have hnode := h.keeps_node node
      refine ⟨hnode.integral, ?_⟩
      rw [nullable, nullable?_of_ne_null hnode.ne_null, hnode.inverse, Option.map_some]

theorem keeps_entries (h : package.DerivesForms) (entries : List (Option Node)) :
    IntegralItems (entries.map (nullable package.node.toJson)) ∧
      (entries.map (nullable package.node.toJson)).mapM (nullable? package.node.ofJson?) =
        some entries := by
  cases entries with
  | nil => exact ⟨trivial, rfl⟩
  | cons entry entries =>
      obtain ⟨hintegral, hinverse⟩ := h.keeps_option entry
      obtain ⟨hintegrals, hinverses⟩ := h.keeps_entries entries
      refine ⟨⟨hintegral, hintegrals⟩, ?_⟩
      rw [List.map_cons, List.mapM_cons, hinverse, hinverses]
      rfl

end

end DerivesForms

/-- What is kept by a form is read back from both of its texts. -/
theorem readsBack {α : Type} {form : Form α} (hwrites : package.WritesText)
    (hreads : package.ReadsText) (hform : ∀ a, form.Keeps a) : package.ReadsBack form := by
  intro a
  obtain ⟨hintegral, -, hinverse⟩ := hform a
  have hcompact := hreads _ _ hintegral (denotes_compact hintegral)
  have hpretty := hreads _ _ hintegral (denotes_pretty hintegral)
  rw [hwrites.compact _ hintegral, hwrites.pretty _ hintegral, hcompact, hpretty]
  exact ⟨hinverse, hinverse⟩

/-- Texts from which different things are read back are different. -/
theorem injective_of_readBack {α : Type} {form : Form α} {text : α → String}
    (h : ∀ a, (package.parse? (text a)).bind form.ofJson? = some a) : Function.Injective text := by
  intro a b htext
  have hread := h a
  rw [htext, h b] at hread
  exact (Option.some.inj hread).symm

/-- The texts of a tree, of a token and of a span are read back as what they were made
from, and trees that differ have texts that differ. -/
theorem forms_readBack (package : Package) (hwrites : package.WritesText)
    (hreads : package.ReadsText) (hforms : package.DerivesForms) :
    package.ReadsBack package.node ∧ package.ReadsBack package.token ∧
      package.ReadsBack package.span ∧
      ∀ node node' : Node,
        (package.compact (package.node.toJson node) = package.compact (package.node.toJson node') ↔
          node = node') ∧
        (package.pretty (package.node.toJson node) = package.pretty (package.node.toJson node') ↔
          node = node') := by
  have hnode := readsBack hwrites hreads hforms.keeps_node
  have htoken := readsBack hwrites hreads hforms.keeps_token
  have hspan := readsBack hwrites hreads hforms.keeps_span
  have hcompact := injective_of_readBack fun node => (hnode node).1
  have hpretty := injective_of_readBack fun node => (hnode node).2
  exact ⟨hnode, htoken, hspan, fun _ _ => ⟨hcompact.eq_iff, hpretty.eq_iff⟩⟩

end Package

/-! ### The forms of this library -/

theorem optionToJson_eq (node : Option Node) :
    Node.optionToJson node = nullable Node.toJson node := by
  cases node <;> rfl

theorem entriesToJson_eq (entries : List (Option Node)) :
    Node.entriesToJson entries = entries.map (nullable Node.toJson) := by
  induction entries with
  | nil => rfl
  | cons entry entries ih => rw [Node.entriesToJson, optionToJson_eq, ih, List.map_cons]

theorem optionOfJson?_eq (j : Json) : Node.optionOfJson? j = nullable? Node.ofJson? j := by
  by_cases h : j = .null
  · rw [h, Node.optionOfJson?]
    rfl
  · rw [Node.optionOfJson?.eq_2 _ h, nullable?_of_ne_null h]

theorem entriesOfJson?_eq (items : List Json) :
    Node.entriesOfJson? items = items.mapM (nullable? Node.ofJson?) := by
  induction items with
  | nil =>
      rw [Node.entriesOfJson?]
      rfl
  | cons item items ih => rw [Node.entriesOfJson?, optionOfJson?_eq, ih, List.mapM_cons]

theorem forms_of_mem_plain {name : String} {kind : Token.Kind}
    (h : (name, kind) ∈ Token.Kind.plain) :
    kind.toJson = .string name ∧ Token.Kind.ofJson? (.string name) = some kind := by
  simp only [Token.Kind.plain, List.mem_cons, Prod.mk.injEq, List.not_mem_nil, or_false] at h
  rcases h with h | h | h | h | h | h | h | h | h <;> obtain ⟨rfl, rfl⟩ := h <;> exact ⟨rfl, rfl⟩

namespace Package

/-- The package that this library brings itself. -/
def library : Package where
  compact := Json.compact
  pretty := Json.pretty
  parse? := Json.parse?
  location := ⟨Location.toJson, Location.ofJson?⟩
  span := ⟨Span.toJson, Span.ofJson?⟩
  kind := ⟨Token.Kind.toJson, Token.Kind.ofJson?⟩
  token := ⟨Token.toJson, Token.ofJson?⟩
  type := ⟨TypeSpecifier.toJson, TypeSpecifier.ofJson?⟩
  node := ⟨Node.toJson, Node.ofJson?⟩

theorem writesText_library : library.WritesText := ⟨fun _ _ => rfl, fun _ _ => rfl⟩

theorem readsText_library : library.ReadsText := fun _ _ _ h => parse?_denotes h

theorem derivesForms_library : library.DerivesForms where
  location_toJson _ := rfl
  location_ofJson? _ _ _ := rfl
  span_toJson _ := rfl
  span_ofJson? _ _ := rfl
  plain_toJson _ _ h := (forms_of_mem_plain h).1
  plain_ofJson? _ _ h := (forms_of_mem_plain h).2
  literal_toJson _ := rfl
  literal_ofJson? _ := rfl
  word_toJson _ := rfl
  word_ofJson? _ := rfl
  token_toJson _ := rfl
  token_ofJson? _ _ := rfl
  type_toJson := rfl
  type_ofJson? := rfl
  identifier_toJson _ := rfl
  identifier_ofJson? name := by
    show Node.ofJson? _ = _
    rw [Node.ofJson?]
    rfl
  constant_toJson _ := rfl
  constant_ofJson? value := by
    show Node.ofJson? _ = _
    rw [Node.ofJson?]
    rfl
  ret_toJson expression := by
    show Node.toJson _ = _
    rw [Node.toJson, optionToJson_eq]
    rfl
  ret_ofJson? expression := by
    show Node.ofJson? _ = (nullable? Node.ofJson? expression).map .ret
    rw [Node.ofJson?, ← optionOfJson?_eq]
    rfl
  declarator_toJson _ := rfl
  declarator_ofJson? name := by
    show Node.ofJson? _ = _
    rw [Node.ofJson?]
    rfl
  function_toJson type name body := by
    show Node.toJson _ = _
    rw [Node.toJson, optionToJson_eq]
    rfl
  function_ofJson? type name body := by
    show Node.ofJson? _ = (TypeSpecifier.ofJson? type).bind fun type => name.string?.bind
      fun name => (nullable? Node.ofJson? body).bind fun body => some (.function type name body)
    rw [Node.ofJson?, ← optionOfJson?_eq]
    rfl
  list_toJson entries := by
    show Node.toJson _ = _
    rw [Node.toJson, entriesToJson_eq]
    rfl
  list_ofJson? items := by
    show Node.ofJson? _ = (items.mapM (nullable? Node.ofJson?)).map .list
    rw [Node.ofJson?, ← entriesOfJson?_eq]
    rfl

/-- The library has no need of another package. -/
theorem forms_readBack_library :
    (library.WritesText ∧ library.ReadsText ∧ library.DerivesForms) ∧
      library.ReadsBack library.node ∧ library.ReadsBack library.token ∧
      library.ReadsBack library.span := by
  have hread := forms_readBack library writesText_library readsText_library derivesForms_library
  exact ⟨⟨writesText_library, readsText_library, derivesForms_library⟩, hread.1, hread.2.1,
    hread.2.2.1⟩

/-- An absent entry of a list is not the same as none. -/
example : (library.node.toJson (.list [none])).compact = r#"{"NodeList":{"nodes":[null]}}"# := by
  decide

end Package

end Json

end MicroC
