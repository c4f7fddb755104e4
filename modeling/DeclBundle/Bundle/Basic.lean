import DeclBundle.Bundle.Layout
import DeclBundle.DocComment
import DeclBundle.Print.Statement

/-!
# Bundles

A bundle is one declaration file with everything that the entry of a project exports. It depends on
nothing but the packages that it imports from. A project with errors has no bundle, and neither has
one whose entry exports nothing because it is no module.
-/

set_option autoImplicit false

namespace DeclBundle

/-- Why there is no bundle. -/
inductive BundleError where
  /-- The project has errors. -/
  | emitSkipped (errors : List Diagnostic)
  | entryNotFound (path : String)
  | entryNotAModule (path : String)
  deriving DecidableEq, Repr

/-- The text of an error. -/
def BundleError.message : BundleError → String
  | emitSkipped errors => "emit skipped: " ++ toString errors.length ++ " error(s) reported"
  | entryNotFound path => "entry file not found: " ++ path
  | entryNotAModule path => "entry file is not a module: " ++ path

/-- A bundle, with everything that it was made from. -/
structure Bundle where
  collection : Collection
  plan : Plan
  naming : Naming
  tree : BundleTree
  /-- The node of the whole file. -/
  root : NodeId
  /-- The texts of the statements. -/
  statements : List String
  text : String

namespace Bundle

/-- The name of the file of a bundle. -/
def defaultFileName : String := "bundle.d.ts"

/-- The bundle of a module with the given exports. Documentation comments can be left out. -/
def ofExports (p : Project) (keepDocs : Bool) (exports_ : List ModuleExport) : Bundle :=
  let collection := p.collect exports_
  let plan := p.plan exports_ collection
  let naming := Naming.ofPlan p collection plan
  let (root, tree) := (Build.layOut p collection plan naming).run (.ofCollection p collection)
  let statements :=
    Print.statementTexts tree.arena keepDocs (Print.statementsOf tree.arena (some root))
  { collection, plan, naming, tree, root, statements, text := "\n".intercalate statements ++ "\n" }

/-- What the documentation of a statement says where it was copied from. The comment of a variable
stands before its statement. -/
def doc? (b : Bundle) (p : Project) (statement : NodeId) : Option DocComment := do
  let origin ← b.tree.originOf? statement
  let a ← p.arena? origin.file
  let text ← match a.doc? origin.node with
    | some text => some text
    | none =>
      match a.form? origin.node with
      | some (.variableDeclaration ..) => a.doc? (a.parent origin.node)
      | some (.bindingElement ..) => a.doc? (a.parent (a.bindingRoot origin.node))
      | _ => none
  return .ofText text

end Bundle

/-- The bundle of a project. -/
def Project.bundle (p : Project) (keepDocs : Bool) : Except BundleError Bundle :=
  if p.hasErrors then .error (.emitSkipped p.errors)
  else
    match (p.file? p.entry).bind SourceFile.symbol with
    | none => .error (.entryNotAModule ((p.file? p.entry).elim "" SourceFile.path))
    | some module => .ok (.ofExports p keepDocs (p.exportsOf module))

end DeclBundle
