import Stencil.Environment.Render
import Stencil.Host.Kit
import Stencil.Proofs.Builtin.Counting
import Stencil.Proofs.Builtin.WholeNumbers
import Stencil.Proofs.Cache.Compiles
import Stencil.Proofs.Cache.Disk
import Stencil.Proofs.Cache.Ledger
import Stencil.Proofs.Cache.Memory
import Stencil.Proofs.Diagnostic.Colors
import Stencil.Proofs.Diagnostic.CountedLines
import Stencil.Proofs.Environment.Accepted
import Stencil.Proofs.Environment.Dependencies
import Stencil.Proofs.Environment.EscapedOnce
import Stencil.Proofs.Environment.Inlining
import Stencil.Proofs.Environment.Missing
import Stencil.Proofs.Environment.Policies
import Stencil.Proofs.Environment.Registrations
import Stencil.Proofs.Grammar.Pages
import Stencil.Proofs.Grammar.Total
import Stencil.Proofs.Html.Spaceless
import Stencil.Proofs.Html.Tags
import Stencil.Proofs.Inheritance.Ascent
import Stencil.Proofs.Inheritance.Filling
import Stencil.Proofs.Inheritance.Winning
import Stencil.Proofs.Library.Listing
import Stencil.Proofs.Render.AccessChains
import Stencil.Proofs.Render.Arithmetic
import Stencil.Proofs.Render.Autoescape
import Stencil.Proofs.Render.Calls
import Stencil.Proofs.Render.Chains
import Stencil.Proofs.Render.Compiled
import Stencil.Proofs.Render.Position
import Stencil.Proofs.Render.QuietScope
import Stencil.Proofs.Render.ReadingOrder
import Stencil.Proofs.Render.Recorded
import Stencil.Proofs.Telemetry.Counter
import Stencil.Proofs.Telemetry.History
import Stencil.Proofs.Token.Written
