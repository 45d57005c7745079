import MicroC.Json.Text
import MicroC.Tree.Basic

/-!
The JSON form of trees. What is absent is written as null; an expression or a
body may also be left out.
-/

namespace MicroC

namespace TypeSpecifier

def toJson : TypeSpecifier → Json
  | int => .string "Int"

def ofJson? (j : Json) : Option TypeSpecifier :=
  match j.variant? with
  | some ("Int", none) => some int
  | some ("Int", some .null) => some int
  | _ => none

end TypeSpecifier

namespace Node

def nameToJson (name : String) : Json := .object [("name", .string name)]

def nameOfJson? (j : Json) : Option String :=
  match j.fields? ["name"] with
  | some [some name] => name.string?
  | _ => none

def declaratorToJson (name : String) : Json := .object [("identifier", nameToJson name)]

def declaratorOfJson? (j : Json) : Option String :=
  match j.fields? ["identifier"] with
  | some [some name] => nameOfJson? name
  | _ => none

mutual

def toJson : Node → Json
  | identifier name => .object [("Identifier", nameToJson name)]
  | constant value => .object [("IntConstant", .object [("value", .integer value.toInt)])]
  | ret expression =>
      .object [("ReturnStatement", .object [("expression", optionToJson expression)])]
  | declarator name => .object [("DirectDeclarator", declaratorToJson name)]
  | function type name body =>
      .object [("FunctionDefinition",
        .object [("type_specifier", type.toJson), ("declarator", declaratorToJson name),
          ("body", optionToJson body)])]
  | list entries => .object [("NodeList", .object [("nodes", .array (entriesToJson entries))])]

def optionToJson : Option Node → Json
  | none => .null
  | some node => node.toJson

def entriesToJson : List (Option Node) → List Json
  | [] => []
  | entry :: rest => optionToJson entry :: entriesToJson rest

end

mutual

def ofJson? (j : Json) : Option Node :=
  match _hj : j.variant? with
  | some ("Identifier", some content) => (nameOfJson? content).map identifier
  | some ("IntConstant", some content) =>
      match content.fields? ["value"] with
      | some [some value] => value.int64?.map constant
      | _ => none
  | some ("ReturnStatement", some content) =>
      match _hc : content.fields? ["expression"] with
      | some [none] => some (ret none)
      | some [some expression] => (optionOfJson? expression).map ret
      | _ => none
  | some ("DirectDeclarator", some content) => (declaratorOfJson? content).map declarator
  | some ("FunctionDefinition", some content) =>
      match _hc : content.fields? ["type_specifier", "declarator", "body"] with
      | some [some type, some name, none] => do
          return function (← TypeSpecifier.ofJson? type) (← declaratorOfJson? name) none
      | some [some type, some name, some body] => do
          return function (← TypeSpecifier.ofJson? type) (← declaratorOfJson? name)
            (← optionOfJson? body)
      | _ => none
  | some ("NodeList", some content) =>
      match _hc : content.fields? ["nodes"] with
      | some [some (.array entries)] => (entriesOfJson? entries).map list
      | _ => none
  | _ => none
termination_by 2 * sizeOf j
decreasing_by
  · have := Json.sizeOf_of_variant? _hj
    have := Json.sizeOf_of_fields? _hc (List.mem_of_getLast? rfl)
    omega
  · have := Json.sizeOf_of_variant? _hj
    have := Json.sizeOf_of_fields? _hc (List.mem_of_getLast? rfl)
    omega
  · have := Json.sizeOf_of_variant? _hj
    have hlt := Json.sizeOf_of_fields? _hc (List.mem_of_getLast? rfl)
    simp only [Json.array.sizeOf_spec] at hlt
    omega

def optionOfJson? (j : Json) : Option (Option Node) :=
  match j with
  | .null => some none
  | j => (ofJson? j).map some
termination_by 2 * sizeOf j + 1

def entriesOfJson? (items : List Json) : Option (List (Option Node)) :=
  match items with
  | [] => some []
  | item :: rest => do return (← optionOfJson? item) :: (← entriesOfJson? rest)
termination_by 2 * sizeOf items

end

end Node

end MicroC
