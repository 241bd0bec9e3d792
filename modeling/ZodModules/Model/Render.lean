import ZodModules.Model.Dto
import ZodModules.Model.DocComment

/-!
# Text of models

The declarations of a model as TypeScript: its enums, its doc comment, its validator and its type,
the type first if it is spelled out, and its class if there are annotations.
-/

namespace ZodModules.Model

/-- The declarations of an enum. -/
def EnumDeclaration.render (declaration : EnumDeclaration) : String :=
  "export const " ++ declaration.constant ++ " = [" ++
    ", ".intercalate (declaration.values.map quote) ++ "] as const;\n" ++
    match declaration.type with
    | none => ""
    | some type =>
      "export type " ++ type ++ " = (typeof " ++ declaration.constant ++ ")[number];\n"

/-- The declarations of the validator and the type. -/
def renderSchema (model : Model) : String :=
  match model.typing with
  | .explicit type =>
    "export type " ++ model.typeName ++ " = " ++ type ++ ";\n" ++
      "export const " ++ model.validatorName ++ ": z.ZodType<" ++ model.typeName ++ "> = " ++
      model.validator ++ ";\n"
  | .inferred =>
    "export const " ++ model.validatorName ++ " = " ++ model.validator ++ ";\n" ++
      "export type " ++ model.typeName ++ " = z.infer<typeof " ++ model.validatorName ++ ">;\n"

/-- All declarations of a model. -/
def render (model : Model) (config : Config) : String :=
  let enums := String.join (model.enums.map EnumDeclaration.render)
  let docs := if config.docs then model.docComment?.getD "" else ""
  let dto := if config.annotations then model.dtoClass? config else none
  enums ++ (if model.enums.isEmpty then "" else "\n") ++ docs ++ model.renderSchema ++
    ((dto.map fun text => "\n" ++ text).getD "")

end ZodModules.Model
