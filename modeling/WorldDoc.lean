import WorldDoc.Main
import WorldDoc.Lexical.Reader
import WorldDoc.Parse.Session
import WorldDoc.Proofs.Print.Loading
import WorldDoc.Proofs.Parse.Totality
import WorldDoc.Proofs.Parse.Reporting
import WorldDoc.Proofs.Parse.Recovery
import WorldDoc.Proofs.Parse.UnknownDirective
import WorldDoc.Proofs.Parse.Place
import WorldDoc.Proofs.Parse.FirstReport
import WorldDoc.Proofs.Syntax.Gist
import WorldDoc.Proofs.Parse.Parallel
import WorldDoc.Proofs.Citizen.Layout
import WorldDoc.Proofs.NameTable
import WorldDoc.Proofs.World.Gathering
import WorldDoc.Proofs.World.Policies
import WorldDoc.Proofs.World.Interleaving
import WorldDoc.Proofs.World.Enumeration
import WorldDoc.Proofs.Parse.Extent
import WorldDoc.Proofs.Lexical.Joining
import WorldDoc.Proofs.Parse.Joining
import WorldDoc.Proofs.Citizen.Joining
import WorldDoc.Proofs.Lexical.Lossless
import WorldDoc.Proofs.Parse.Diagnostics
import WorldDoc.Proofs.World.Anchors
import WorldDoc.Proofs.Check
import WorldDoc.Proofs.Lexical.Longest
import WorldDoc.Proofs.Value.Outline
import WorldDoc.Proofs.Value.Plain
import WorldDoc.Proofs.Value.Decoding
import WorldDoc.Proofs.Parse.Nesting
import WorldDoc.Proofs.Parse.Limits
import WorldDoc.Proofs.Citizen.Exact
import WorldDoc.Proofs.Text.Position
import WorldDoc.Proofs.World.FailFast
import WorldDoc.Proofs.Number.Nearest
import WorldDoc.Proofs.Value.Conversion
import WorldDoc.Proofs.Text.LineBreak
import WorldDoc.Proofs.Lexical.LineBreak
import WorldDoc.Proofs.Parse.LineBreak
import WorldDoc.Proofs.Citizen.LineBreak
import WorldDoc.Proofs.Command.LineBreak
import WorldDoc.Proofs.Syntax.Listing
import WorldDoc.Proofs.Syntax.Brackets
import WorldDoc.Proofs.Parse.Balance
