/-
**Generated modules.**

A module declares a schema, a validating function and a type for each document, and a registry of
all schemas by path.

Main definitions:

* `Zod.Source` — a document with its shape and content;
* `Zod.moduleOf` — the text of the module of some documents.
-/

import JsonShelf.Zod.Expression
import JsonShelf.Zod.Names

set_option autoImplicit false

namespace JsonShelf.Zod

/-- A document for which a module declares something. -/
structure Source where
  path : DocPath
  shape : Shape
  /-- The content that the shape was inferred from. -/
  sample : Json

/-- The comment at the top, with the time of generation and an example of use. -/
def header (generatedAt : Option String) (names : List String) : String :=
  Text.lined (["/**", " * JsonBoard Auto-Generated Schema File"] ++
    (generatedAt.map (" * Generated on: " ++ ·)).toList ++
    [" *", " * This file contains Zod schemas for all JSON files in your project."] ++
    (match names with
      | [] => []
      | first :: _ => [
        " * You can import and use these schemas for validation:",
        " *",
        " * import \x7b " ++ first ++ " \x7d from './jsonboard.schema';",
        " *",
        " * // Validate data",
        " * const result = " ++ first ++ ".safeParse(data);",
        " * if (!result.success) \x7b",
        " *   console.error('Validation errors:', result.error.errors);",
        " * \x7d"]) ++
    [" */", ""])

/-- The import of the library and the type of results. -/
def preamble : String :=
  Text.lined [
    "import \x7b z \x7d from 'zod';",
    "",
    "// Type definitions for better TypeScript support",
    "export type ValidationResult<T> = \x7b",
    "  success: true;",
    "  data: T;",
    "\x7d | \x7b",
    "  success: false;",
    "  errors: Array<\x7b",
    "    path: (string | number)[];",
    "    message: string;",
    "  \x7d>;",
    "\x7d;",
    ""]

/-- The declaration of a schema. -/
def schemaDeclaration (source : Source) (name : String) : String :=
  Text.lined [
    "// Schema for: " ++ source.path.text,
    "export const " ++ name ++ " = " ++ (ofShape source.shape [source.sample]).render ++ ";",
    ""]

/-- The end of a validating function, which turns the result of Zod into one of the module. -/
def resultLines : List String := [
  "  if (result.success) \x7b",
  "    return \x7b success: true, data: result.data \x7d;",
  "  \x7d",
  "  return \x7b",
  "    success: false,",
  "    errors: result.error.errors.map(err => (\x7b",
  "      path: err.path,",
  "      message: err.message",
  "    \x7d))",
  "  \x7d;",
  "\x7d"]

/-- The declaration of a validating function. -/
def validatorDeclaration (name : String) : String :=
  Text.lined ([
    "export function " ++ validatorName name ++
      "(data: unknown): ValidationResult<z.infer<typeof " ++ name ++ ">> \x7b",
    "  const result = " ++ name ++ ".safeParse(data);"] ++
    resultLines ++ [""])

/-- An entry of the registry. -/
def registryEntry (source : Source) (name : String) : String :=
  "  " ++ String.ofList (literal source.path.text) ++ ": " ++ name

/-- The registry of all schemas by path. -/
def registry (entries : List String) : String :=
  Text.lined ["// File Index - for easy reference", "export const JsonBoardFiles = \x7b"] ++
    (if entries.isEmpty then "" else Text.lined [",\n".intercalate entries]) ++
    Text.lined ["\x7d as const;", ""]

/-- The function that validates by path. -/
def lookupFunction : String :=
  Text.lined ([
    "// Utility function to validate any file by path",
    "export function validateFile(filePath: string, data: unknown): ValidationResult<unknown> \x7b",
    "  const schema = (JsonBoardFiles as Record<string, z.ZodTypeAny>)[filePath];",
    "  if (!schema) \x7b",
    "    return \x7b success: false, errors: [\x7b path: [], message: " ++
      "\x60No schema found for file: $\x7bfilePath\x7d\x60 \x7d] \x7d;",
    "  \x7d",
    "  const result = schema.safeParse(data);"] ++
    resultLines)

/-- The types of all schemas. -/
def typeDeclarations (names : List String) : String :=
  if names.isEmpty then ""
  else
    Text.lined (["", "// Type exports for TypeScript users"] ++
      names.map fun name =>
        "export type " ++ typeName name ++ " = z.infer<typeof " ++ name ++ ">;")

/-- The module of some documents under given names. -/
def moduleText (generatedAt : Option String) (sources : List Source) (names : List String) :
    String :=
  header generatedAt names ++ preamble ++
    String.join (List.zipWith schemaDeclaration sources names) ++
    String.join (names.map validatorDeclaration) ++
    registry (List.zipWith registryEntry sources names) ++
    lookupFunction ++ typeDeclarations names

/-- The module of some documents, with the time of generation if that is given. -/
def moduleOf (generatedAt : Option String) (sources : List Source) : Except NameClash String := do
  let names ← assignNames fingerprint (sources.map Source.path)
  return moduleText generatedAt sources names

end JsonShelf.Zod
