import Stencil.Main
import Stencil.Proofs.Project.Convergence
import Stencil.Proofs.Render.Acceptance
import Stencil.Proofs.Render.Dependencies
import Stencil.Proofs.Render.Reuse
import Stencil.Proofs.Render.Evaluation
import Stencil.Proofs.Render.Scopes
import Stencil.Proofs.Render.Frames
import Stencil.Proofs.Render.Noninterference
import Stencil.Proofs.Render.Ranks
import Stencil.Proofs.Render.Standalone
import Stencil.Proofs.Render.Parts
import Stencil.Proofs.Project.Records
import Stencil.Proofs.Render.Plain
import Stencil.Proofs.Template.Shelves
import Stencil.Proofs.Render.Interchange
import Stencil.Proofs.Project.Freezing
import Stencil.Proofs.Project.Publishing
import Stencil.Proofs.Project.Notices
import Stencil.Proofs.Project.Reloading
import Stencil.Proofs.Command.Rendering
import Stencil.Proofs.Command.Outcome
import Stencil.Proofs.Placeholder.Substitution
import Stencil.Proofs.Project.Calls
import Stencil.Proofs.Project.Discovery
import Stencil.Proofs.Project.Mapping
import Stencil.Proofs.Project.Registering
import Stencil.Proofs.Project.Answers
import Stencil.Proofs.Markup.RawText
import Stencil.Proofs.Path.Resolving
import Stencil.Proofs.Markup.Writing
import Stencil.Proofs.Preamble.Declarations
import Stencil.Proofs.Render.LetterCase
import Stencil.Proofs.Markup.Shapes
