import TypeOnly.Disk
import TypeOnly.Text.Span

/-!
What is wrong with a project, and how it is told.
-/

namespace TypeOnly

set_option autoImplicit false

open Text (Span Position)

/-- A file of a project and its text. -/
structure SourceFile where
  path : Path
  text : String
deriving DecidableEq, Repr

inductive Problem where
  | badText (message : String)
  /-- A type is exported again as if it were a value. -/
  | typeReExported
  | typeAliasReExported (name : String)
  | noDefaultExport (module : String)
  /-- A type is imported as if it were a value. -/
  | typeImported (name : String)
  | typeAliasImported (name : String)
  | nameNotFound (name : String)
  | memberNotFound (module name : String)
  | moduleNotFound (specifier : String)
  | optionMismatch (option type : String)
  | rootNotObject (file : String)
  | fileNotFound (file : String)
  | fileUnreadable (error : DiskError)
  | circularExtends (chain : List String)
  | emptyFileList (config : String)
  | noInputs (config included excluded : String)
deriving DecidableEq, Repr

namespace Problem

/-- The number that a problem is known by. -/
def code : Problem → Nat
  | badText _ => 1005
  | noDefaultExport _ => 1192
  | typeReExported => 1205
  | typeAliasReExported _ => 1448
  | typeImported _ => 1484
  | typeAliasImported _ => 1485
  | nameNotFound _ => 2304
  | memberNotFound _ _ => 2305
  | moduleNotFound _ => 2307
  | optionMismatch _ _ => 5024
  | rootNotObject _ => 5092
  | fileNotFound _ => 6053
  | fileUnreadable _ => 6053
  | circularExtends _ => 18000
  | emptyFileList _ => 18002
  | noInputs _ _ _ => 18003

def message : Problem → String
  | badText m => m
  | noDefaultExport m => s!"Module '\"{m}\"' has no default export."
  | typeReExported =>
    "Re-exporting a type when 'verbatimModuleSyntax' is enabled requires using 'export type'."
  | typeAliasReExported n =>
    s!"'{n}' resolves to a type-only declaration and must be re-exported using a type-only "
      ++ "re-export when 'verbatimModuleSyntax' is enabled."
  | typeImported n =>
    s!"'{n}' is a type and must be imported using a type-only import when "
      ++ "'verbatimModuleSyntax' is enabled."
  | typeAliasImported n =>
    s!"'{n}' resolves to a type-only declaration and must be imported using a type-only import "
      ++ "when 'verbatimModuleSyntax' is enabled."
  | nameNotFound n => s!"Cannot find name '{n}'."
  | memberNotFound m n => s!"Module '\"{m}\"' has no exported member '{n}'."
  | moduleNotFound m =>
    s!"Cannot find module '{m}' or its corresponding type declarations."
  | optionMismatch o t => s!"Compiler option '{o}' requires a value of type {t}."
  | rootNotObject f => s!"The root value of a '{f}' file must be an object."
  | fileNotFound f => s!"File '{f}' not found."
  | fileUnreadable e => e.message
  | circularExtends chain =>
    "Circularity detected while resolving configuration: " ++ " -> ".intercalate chain
  | emptyFileList c => s!"The 'files' list in config file '{c}' is empty."
  | noInputs c i e =>
    s!"No inputs were found in config file '{c}'. Specified 'include' paths were '{i}' and "
      ++ s!"'exclude' paths were '{e}'."

end Problem

/-- A problem told of a place in a file, or of the project as a whole. -/
structure Diagnostic where
  code : Nat
  message : String
  file : Option SourceFile
  span : Span
deriving DecidableEq, Repr

namespace Diagnostic

def inFile (p : Problem) (file : SourceFile) (span : Span) : Diagnostic :=
  ⟨p.code, p.message, some file, span⟩

def global (p : Problem) : Diagnostic := ⟨p.code, p.message, none, ⟨0, 0⟩⟩

def path? (d : Diagnostic) : Option Path := d.file.map SourceFile.path

def quotedText (d : Diagnostic) : String :=
  match d.file with
  | some file => d.span.textIn file.text
  | none => ""

/-! ### Order -/

/-- Ascending order of texts, nothing before anything. -/
def nameLe : Option String → Option String → Bool
  | none, _ => true
  | some _, none => false
  | some a, some b => a ≤ b

/-- The order in which diagnostics are told: those of the project first, then by file name, start,
length, number and message. -/
def le (a b : Diagnostic) : Bool :=
  let x := a.path?.map Path.slashed
  let y := b.path?.map Path.slashed
  if x ≠ y then nameLe x y
  else if a.span.start ≠ b.span.start then a.span.start < b.span.start
  else if a.span.length ≠ b.span.length then a.span.length < b.span.length
  else if a.code ≠ b.code then a.code < b.code
  else a.message ≤ b.message

/-- Whether two diagnostics tell the same. -/
def same (a b : Diagnostic) : Bool :=
  a.path?.map Path.parts == b.path?.map Path.parts && a.span == b.span && a.code == b.code
    && a.message == b.message

/-- Drops what tells the same as the last one kept. -/
def dropAfter (last : Diagnostic) : List Diagnostic → List Diagnostic
  | [] => []
  | d :: rest => if same last d then dropAfter last rest else d :: dropAfter d rest

/-- Drops what tells the same as the one before it. -/
def dropRepeated : List Diagnostic → List Diagnostic
  | [] => []
  | d :: rest => d :: dropAfter d rest

/-- Diagnostics in order, none of them told twice in a row. -/
def arrange (ds : List Diagnostic) : List Diagnostic := dropRepeated (ds.mergeSort le)

/-! ### Text -/

/-- A diagnostic on a line of its own, with the file as seen from a folder. -/
def render (cwd : Path) (d : Diagnostic) : String :=
  let place := match d.file with
    | some file =>
      let p := Position.ofOffset file.text d.span.start
      let name := (file.path.wayFrom cwd).text
      s!"{name}({p.line},{p.column}): "
    | none => ""
  place ++ s!"error TS{d.code}: {d.message}\n"

def renderAll (cwd : Path) (ds : List Diagnostic) : String := String.join (ds.map (render cwd))

end Diagnostic

end TypeOnly
