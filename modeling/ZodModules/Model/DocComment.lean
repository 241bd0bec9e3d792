import ZodModules.Text.Blank
import ZodModules.Text.Lines
import ZodModules.Model.Basic
import ZodModules.Json.Printer

/-!
# Doc comments

The comment before the declarations of a model: its description line by line and its example. The
end mark of comments inside them is broken up by a backslash.
-/

namespace ZodModules.Model

/-- The text with a backslash inside each end mark of comments. -/
def escapeComment : List Char → List Char
  | '*' :: '/' :: rest => '*' :: '\\' :: '/' :: escapeComment rest
  | c :: rest => c :: escapeComment rest
  | [] => []

/-- The lines of the comment without their margin. -/
def docLines (model : Model) : List (List Char) :=
  (match model.description with
    | none => []
    | some text => (Text.lines text.toList).map fun line => escapeComment (Text.trimEnd line)) ++
  (match model.example? with
    | none => []
    | some value => ["@example ".toList ++ escapeComment value.text.toList])

/-- A line of the comment with its margin; an empty one leaves no space at the end. -/
def docLine (line : List Char) : List Char :=
  if line.isEmpty then [' ', '*'] else ' ' :: '*' :: ' ' :: line

/-- The comment of a model; `none` if there is nothing to say. -/
def docComment? (model : Model) : Option String :=
  match model.docLines with
  | [] => none
  | lines =>
    some ("/**\n" ++ "\n".intercalate (lines.map fun line => String.ofList (docLine line)) ++
      "\n */\n")

end ZodModules.Model
