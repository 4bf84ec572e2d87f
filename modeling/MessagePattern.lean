import MessagePattern.Main
import MessagePattern.Proofs.Command.Format
import MessagePattern.Proofs.Grammar.Body
import MessagePattern.Proofs.Grammar.Names
import MessagePattern.Proofs.Layout.Alignment
import MessagePattern.Proofs.Layout.Colour
import MessagePattern.Proofs.Layout.Shape
import MessagePattern.Proofs.Layout.Unquoting
import MessagePattern.Proofs.Message.Exchange
import MessagePattern.Proofs.Pattern.Concatenation
import MessagePattern.Proofs.Pattern.Termination
import MessagePattern.Proofs.Plural.Collection
import MessagePattern.Proofs.Plural.DeadBranches
import MessagePattern.Proofs.Plural.Listing
import MessagePattern.Proofs.Report.Pointer
import MessagePattern.Source.Folder
