import DeclBundle.Text.Character
import DeclBundle.Text.Cursor
import DeclBundle.Text.Words
import DeclBundle.Text.Quoted
import DeclBundle.Text.LineMap
import DeclBundle.Text.Alphanumeric
import DeclBundle.Text.Edit
import DeclBundle.Diagnostic
import DeclBundle.Token.Kind
import DeclBundle.Token.Literal
import DeclBundle.Token.Raw
import DeclBundle.Token.Trivia
import DeclBundle.Token.Lexer
import DeclBundle.FlagSet
import DeclBundle.Ast.Modifier
import DeclBundle.Ast.Form
import DeclBundle.Ast.Arena
import DeclBundle.Grammar.Parser
import DeclBundle.Grammar.Name
import DeclBundle.Grammar.Expression
import DeclBundle.Grammar.Parameter
import DeclBundle.Grammar.Member
import DeclBundle.Grammar.Type
import DeclBundle.Grammar.Declaration
import DeclBundle.Grammar.Statement
import DeclBundle.Ast.Outline
import DeclBundle.Print.Overload
import DeclBundle.Print.Piece
import DeclBundle.Print.Type
import DeclBundle.Print.Statement
import DeclBundle.DocComment
import DeclBundle.Path
import DeclBundle.Options
import DeclBundle.Json
import DeclBundle.Package.Specifier
import DeclBundle.Package.Manifest
import DeclBundle.Package.Resolution
import DeclBundle.Symbol.Flag
import DeclBundle.Symbol.Table
import DeclBundle.Script.Reader
import DeclBundle.Script.Shape
import DeclBundle.Script.Signature
import DeclBundle.Script.Pass
import DeclBundle.CommandLine.LogFormat
import DeclBundle.Symbol.Ambient
import DeclBundle.Symbol.Declaration
import DeclBundle.Symbol.Scope
import DeclBundle.Host
import DeclBundle.Project.Basic
import DeclBundle.Project.Member
import DeclBundle.Project.Origin
import DeclBundle.Project.DeclaredType
import DeclBundle.Project.Loading
import DeclBundle.Table
import DeclBundle.Bundle.Target
import DeclBundle.Bundle.Collection
import DeclBundle.Bundle.Plan
import DeclBundle.Bundle.NameTable
import DeclBundle.Bundle.Naming
import DeclBundle.Bundle.Tree
import DeclBundle.Bundle.Layout
import DeclBundle.Bundle.Basic
import DeclBundle.Json.Relaxed
import DeclBundle.Path.Written
import DeclBundle.FileTree
import DeclBundle.CommandLine.Arguments
import DeclBundle.CommandLine.ConfigFile
import DeclBundle.CommandLine.ConfigChain
import DeclBundle.CommandLine.Settings
import DeclBundle.CommandLine.Report
import DeclBundle.CommandLine.Run
import DeclBundle.Main
import DeclBundle.Proofs.Traversal
import DeclBundle.Proofs.Forms
import DeclBundle.Proofs.Meanings
import DeclBundle.Proofs.Blocks
import DeclBundle.Proofs.Adding
import DeclBundle.Proofs.DeclaredNames
import DeclBundle.Proofs.Replacing
import DeclBundle.Proofs.CopiedNames
import DeclBundle.Proofs.NarrowingSteps
import DeclBundle.Proofs.FinalNames
import DeclBundle.Proofs.BoundNames
import DeclBundle.Proofs.UniqueNames
import DeclBundle.Proofs.ModuleExports
import DeclBundle.Proofs.Collecting
import DeclBundle.Proofs.Planning
import DeclBundle.Proofs.SingleFiles
import DeclBundle.Proofs.TopLevel
import DeclBundle.Proofs.Printing
import DeclBundle.Proofs.Overlooking
import DeclBundle.Proofs.Accounting
import DeclBundle.Proofs.Visiting
import DeclBundle.Proofs.PrintedNames
import DeclBundle.Proofs.ConnectedFiles
import DeclBundle.Proofs.DeclaringSteps
import DeclBundle.Proofs.SoundSymbols
import DeclBundle.Proofs.FollowingAliases
import DeclBundle.Proofs.Stops
import DeclBundle.Proofs.Ending
import DeclBundle.Proofs.LeastClosed
import DeclBundle.Proofs.Descent
import DeclBundle.Proofs.PlanSteps
import DeclBundle.Proofs.Nesting
import DeclBundle.Proofs.Placing
import DeclBundle.Proofs.Laying
import DeclBundle.Proofs.Standing
import DeclBundle.Proofs.ImportedNames
import DeclBundle.Proofs.Paths
import DeclBundle.Proofs.Parsing
import DeclBundle.Proofs.ParsingFiles
import DeclBundle.Proofs.TreeLoops
import DeclBundle.Proofs.Scanning
import DeclBundle.Proofs.ProceedingFiles
import DeclBundle.Proofs.Remembering
import DeclBundle.Proofs.FoundFiles
import DeclBundle.Proofs.ReachedFiles
import DeclBundle.Proofs.LoadedFiles
import DeclBundle.Proofs.NameCalls
import DeclBundle.Proofs.ExportSearch
import DeclBundle.Proofs.PlanInvariants
import DeclBundle.Proofs.NormalPaths
import DeclBundle.Proofs.LoadedOrigins
import DeclBundle.Proofs.DottedNames
import DeclBundle.Proofs.Settling
import DeclBundle.Proofs.Exposing
import DeclBundle.Proofs.Levels
import DeclBundle.Proofs.NamePlaces
import DeclBundle.Proofs.Tracing
import DeclBundle.Proofs.CopiedWords
import DeclBundle.Proofs.Rewriting
import DeclBundle.Proofs.Agreement
import DeclBundle.Proofs.ParameterLists
import DeclBundle.Proofs.Destructuring
import DeclBundle.Proofs.NamesInScope
import DeclBundle.Proofs.LexicalScoping
import DeclBundle.Proofs.Tiling
import DeclBundle.Proofs.CommentSearch
import DeclBundle.Proofs.ScriptWords
import DeclBundle.Proofs.ScriptShifts
import DeclBundle.Proofs.MemberHeads
import DeclBundle.Proofs.AnnotatingAgain
import DeclBundle.Proofs.StringLiterals
import DeclBundle.Proofs.MatchingBraces
import DeclBundle.Proofs.LookingAhead
import DeclBundle.Proofs.SoundAliases
import DeclBundle.Proofs.ShortSpecifiers
import DeclBundle.Proofs.LinePositions
import DeclBundle.Proofs.Snippets
import DeclBundle.Proofs.ImportStatements
import DeclBundle.Proofs.Mirroring
import DeclBundle.Proofs.JoinedPaths
import DeclBundle.Proofs.ApplyingEdits
import DeclBundle.Proofs.NearestSettings
import DeclBundle.Proofs.RelaxedTexts
import DeclBundle.Proofs.FreshNames
import DeclBundle.Proofs.Templates
import DeclBundle.Proofs.PackagePaths
import DeclBundle.Proofs.Enclosures
import DeclBundle.Proofs.SymbolHomes
import DeclBundle.Proofs.StatementSymbols
import DeclBundle.Proofs.PlacedSymbols
import DeclBundle.Proofs.PlacedProjects
import DeclBundle.Proofs.OuterContainers
