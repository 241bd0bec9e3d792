import ZodModules.Model.Basic
import ZodModules.Config
import ZodModules.Json.Printer

/-!
# Data transfer classes

With annotations every object model is accompanied by a class, whose properties are decorated with
what is known about their values.
-/

namespace ZodModules.Model

/-- The module that the decorator is imported from. -/
def decoratorSource : String := "@nestjs/swagger"

/-- The name of the decorator. -/
def decoratorSymbol : String := "ApiProperty"

/-- The options of the decorator that a shape gives. -/
def shapeOptions : Shape → List String
  | .scalar kind => ["type: " ++ kind.constructorName]
  | .enum constant => ["enum: " ++ constant]
  | .literal value => ["enum: [" ++ quote value ++ "]"]
  | .reference schema true => ["type: () => " ++ Naming.dtoName schema]
  | .array item => shapeOptions item ++ ["isArray: true"]
  | .map => ["type: Object"]
  | .reference _ false | .union | .null | .unknown => []

/-- The options of the decorator of a property. -/
def Property.decoratorOptions (property : Property) : List String :=
  shapeOptions property.shape ++
    (if property.required then [] else ["required: false"]) ++
    (if property.nullable then ["nullable: true"] else []) ++
    (property.description.map fun text => "description: " ++ quote text).toList ++
    (property.example?.map fun value => "example: " ++ value.text).toList

/-- The argument list of the decorator of a property. -/
def Property.decoratorArgument (property : Property) : String :=
  match property.decoratorOptions with
  | [] => ""
  | options => r"{ " ++ ", ".intercalate options ++ r" }"

/-- A property as a decorated member of the class. -/
def Property.dtoMember (indent : String) (property : Property) : String :=
  indent ++ "@" ++ decoratorSymbol ++ "(" ++ property.decoratorArgument ++ ")\n" ++
    indent ++ Naming.propertyKey property.name ++ (if property.required then "!" else "?") ++
    ": " ++ nullableType property.type property.nullable ++ ";\n"

/-- The class of an object model. -/
def dtoClass? (model : Model) (config : Config) : Option String :=
  if model.isObject then
    some ("export class " ++ Naming.dtoName model.name ++ " \x7b\n" ++
      "\n".intercalate (model.properties.map (Property.dtoMember config.indent.text)) ++ "\x7d\n")
  else none

/-- The object schema whose class describes the values of a shape. -/
def dtoTarget? : Shape → Option String
  | .reference schema true => some schema
  | .array item => dtoTarget? item
  | _ => none

/-- The other schemas whose classes the decorators of a model name, in order of appearance. -/
def dtoReferences (model : Model) : List String :=
  ((model.properties.filterMap fun property => dtoTarget? property.shape).filter
    (· != model.name)).eraseDups

end ZodModules.Model
