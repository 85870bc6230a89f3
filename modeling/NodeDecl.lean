import NodeDecl.Declaration.Outline
import NodeDecl.Diff.Application
import NodeDecl.Grammar.Printer
import NodeDecl.Main
import NodeDecl.Proofs.CommandLine.Effects
import NodeDecl.Proofs.Declaration.Naming
import NodeDecl.Proofs.Grammar.BlankSegments
import NodeDecl.Proofs.Grammar.Rejections
import NodeDecl.Proofs.Output.Verdict
import NodeDecl.Proofs.Settings.Log
import NodeDecl.Proofs.Settings.Variables
