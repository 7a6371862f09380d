import StaticSite.Main
import StaticSite.Proofs.Render.Closed
import StaticSite.Proofs.Render.Depth
import StaticSite.Proofs.Render.Local
import StaticSite.Watch
import StaticSite.Proofs.Html.Inert
import StaticSite.Proofs.Outcome
import StaticSite.Proofs.Page.Markup
import StaticSite.Proofs.Disk.Tree
import StaticSite.Proofs.Path.Place
import StaticSite.Proofs.Disk.Find
import StaticSite.Proofs.Disk.Evolve
import StaticSite.Proofs.Disk.Work
import StaticSite.Proofs.Config.Output
import StaticSite.Proofs.Build.Clean
import StaticSite.Proofs.Path.Extension
import StaticSite.Proofs.Build.Confined
import StaticSite.Proofs.Disk.Writes
import StaticSite.Proofs.Build.Run
import StaticSite.Proofs.Build.Outputs
import StaticSite.Proofs.Render.Traced
import StaticSite.Proofs.Render.Once
import StaticSite.Proofs.Disk.Kind
import StaticSite.Proofs.Disk.Alike
import StaticSite.Proofs.Path.Straight
import StaticSite.Proofs.Disk.Way
import StaticSite.Proofs.Disk.Making
import StaticSite.Proofs.Build.Cleaned
import StaticSite.Proofs.Build.Filled
import StaticSite.Proofs.Build.Hermetic
import StaticSite.Proofs.Disk.Beside
import StaticSite.Proofs.Disk.Folder
import StaticSite.Proofs.Build.Check
import StaticSite.Proofs.Template.Tags
import StaticSite.Proofs.FrontMatter
import StaticSite.Proofs.Template.Places
import StaticSite.Proofs.Template.Print
import StaticSite.Proofs.Token.Distinct
import StaticSite.Proofs.Token.Leaves
import StaticSite.Proofs.Text.Cut
import StaticSite.Proofs.Token.Block
import StaticSite.Proofs.Watch.Interleaving
import StaticSite.Proofs.Page.Pagewise
import StaticSite.Proofs.Html.Classes
import StaticSite.Proofs.Json.Lexeme
import StaticSite.Proofs.Registry.Cycle
import StaticSite.Proofs.Json.Decode
import StaticSite.Proofs.Page.Data
import StaticSite.Proofs.Disk.Passable
import StaticSite.Proofs.Build.Renewed
import StaticSite.Proofs.Html.ClassOrder
import StaticSite.Proofs.Value.Merge
import StaticSite.Proofs.Html.Attributes
import StaticSite.Proofs.Template.Quoting
import StaticSite.Proofs.Template.Comments
import StaticSite.Proofs.Render.Wrapped
import StaticSite.Proofs.Render.Rounds
import StaticSite.Proofs.Text.Kebab
import StaticSite.Proofs.Token.Normal
import StaticSite.Proofs.Page.Address
import StaticSite.Proofs.Page.Resolved
import StaticSite.Proofs.Registry.Order
import StaticSite.Proofs.Path.Folded
import StaticSite.Proofs.Page.Stylesheet
import StaticSite.Proofs.Config.Respelled
import StaticSite.Proofs.Build.Discovered
import StaticSite.Proofs.Build.Copied
import StaticSite.Proofs.Registry.Tie
import StaticSite.Proofs.Template.Invocations
