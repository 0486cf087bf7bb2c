/-! Markup elements and their text. -/

namespace Metafile.Svg

/-- A piece of text, or an element with its attributes in the order of their names
and the nodes inside it. -/
inductive Node where
  | text (content : String)
  | element (name : String) (attributes : List (String × String)) (children : List Node)

/-- An attribute with its value in quotation marks. A value that holds double ones
stands in single ones. One that holds both cannot be written and is left out. -/
def renderAttribute : String × String → String
  | (name, value) =>
    if !value.contains '"' then " " ++ name ++ "=\"" ++ value ++ "\""
    else if !value.contains '\'' then " " ++ name ++ "='" ++ value ++ "'"
    else ""

def openingTag (name : String) (attributes : List (String × String)) : String :=
  "<" ++ name ++ String.join (attributes.map renderAttribute)

mutual

/-- The text of a node. Text and attribute values are written as they are. Each
node inside an element starts on a line of its own. -/
def Node.render : Node → String
  | .text content => content
  | .element name attributes children =>
    if children.isEmpty then openingTag name attributes ++ "/>"
    else
      openingTag name attributes ++ ">\n" ++ "\n".intercalate (Node.renderAll children) ++
        "\n</" ++ name ++ ">"

/-- The texts of several nodes. -/
def Node.renderAll : List Node → List String
  | [] => []
  | node :: rest => node.render :: Node.renderAll rest

end

/-- Nodes that stand beside each other are written one by one. -/
theorem Node.renderAll_eq_map (nodes : List Node) :
    Node.renderAll nodes = nodes.map Node.render := by
  induction nodes with
  | nil => rfl
  | cons node rest ih => rw [Node.renderAll, ih, List.map_cons]

/-- An attribute with its value between two marks, or nothing if there is no mark for it. -/
def attributeBetween (mark? : String → Option String) : String × String → String
  | (name, value) =>
    match mark? value with
    | none => ""
    | some mark => " " ++ name ++ "=" ++ mark ++ value ++ mark

/-- What drawings rely on in whatever writes their nodes. Text is written as it is, and so are the
values of attributes, between marks, if they are written at all. An element is one tag if there is
nothing inside it, and otherwise two tags around what is inside. -/
structure Writer where
  render : Node → String
  /-- The mark on both sides of a value, if the value can be written. -/
  mark? : String → Option String
  /-- What stands between nodes that are written one behind the other. -/
  gap : String
  render_text : ∀ content, render (.text content) = content
  render_childless : ∀ name attributes, render (.element name attributes []) =
    "<" ++ name ++ String.join (attributes.map (attributeBetween mark?)) ++ "/>"
  render_parent : ∀ name attributes child rest,
    render (.element name attributes (child :: rest)) =
      "<" ++ name ++ String.join (attributes.map (attributeBetween mark?)) ++ ">" ++ gap ++
        gap.intercalate ((child :: rest).map render) ++ gap ++ "</" ++ name ++ ">"
  not_mem_mark : ∀ value mark, mark? value = some mark → '<' ∉ mark.toList
  not_mem_gap : '<' ∉ gap.toList

namespace Writer

/-- Values stand between double quotation marks, or between single ones if they hold double
ones. -/
def quotationMark? (value : String) : Option String :=
  if !value.contains '"' then some "\"" else if !value.contains '\'' then some "'" else none

/-- The two branches of the writer for attributes are one with the mark as its parameter. -/
theorem renderAttribute_eq (pair : String × String) :
    renderAttribute pair = attributeBetween quotationMark? pair := by
  obtain ⟨name, value⟩ := pair
  have hDouble : "=\"" = "=" ++ "\"" := by decide
  have hSingle : "='" = "=" ++ "'" := by decide
  unfold renderAttribute attributeBetween quotationMark?
  dsimp only
  split
  · rw [hDouble]
    simp only [String.append_assoc]
  · split
    · rw [hSingle]
      simp only [String.append_assoc]
    · rfl

/-- The writer of the documents. -/
def standard : Writer where
  render := Node.render
  mark? := quotationMark?
  gap := "\n"
  render_text _ := by rw [Node.render]
  render_childless name attributes := by
    rw [Node.render, openingTag, funext renderAttribute_eq]
    rfl
  render_parent name attributes child rest := by
    rw [Node.render, Node.renderAll_eq_map, openingTag, funext renderAttribute_eq]
    simp [String.append_assoc]
  not_mem_mark value mark hMark := by
    unfold quotationMark? at hMark
    split at hMark
    · obtain rfl := Option.some.inj hMark
      decide
    · split at hMark
      · obtain rfl := Option.some.inj hMark
        decide
      · cases hMark
  not_mem_gap := by decide

end Writer

end Metafile.Svg
